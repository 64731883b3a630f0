import UrlShortener.Handler.Agreement
import UrlShortener.Handler.Publish
import UrlShortener.Handler.Transparency

/-!
# UrlShortener.Handler.Kept

What the three stores keep of the codes that a 201 was given for, whatever becomes of the other
codes. A row whose `INSERT` was lost is stored and yet may be cached as missing; a promised one may
not, and is answered with what is stored for it.
-/

namespace UrlShortener
namespace Handler

open LocalCache (EntryView Op Known isBusinessExpired)
open ShortUrl
open SingleFlight (SingleFlightResult)
open Traffic (Caches)

/-- `P c v`: somebody was told that `c` leads to `v`. -/
abbrev Promised := Bytes → EntryView → Prop

variable {cfg : Config} {P P' : Promised} {s s' : Process cfg} {code : Bytes} {v : EntryView}
  {env : Env}

structure Kept (P : Promised) (s : Process cfg) : Prop where
  keyed : Keyed cfg.coll cfg.router s.db
  sound : ∀ row, Stored s.db row → Sound row
  caches : Caches (lookup cfg.coll cfg.router s.db) s
  /-- A promised code is not cached as missing. -/
  negative : Known (fun _ _ => True) (fun c => ∀ v, ¬ P c v) s.shards
  stored : ∀ c v, P c v → Owns cfg.coll cfg.router s.db c v

theorem kept_start (now : Int) (wall : Bytes) (redisAvailable : Bool) :
    Kept (fun _ _ => False) (Process.start cfg now wall redisAvailable) := by
  have h := @implied_start cfg now wall redisAvailable
  exact ⟨h.keyed, h.sound, ⟨LocalCache.known_empty _ _, h.redis⟩, LocalCache.known_empty _ _,
    fun _ _ => False.elim⟩

theorem Kept.mono (h : Kept P' s) (hP : ∀ c v, P c v → P' c v) : Kept P s where
  keyed := h.keyed
  sound := h.sound
  caches := h.caches
  negative := h.negative.imp (fun _ _ => id) fun c hc v hv => hc v (hP c v hv)
  stored c v hv := h.stored c v (hP c v hv)

/-- A promise is about a row. -/
theorem Kept.row (h : Kept P s) (hv : P code v) :
    ∃ row, Sound row ∧ row.shortCode = code ∧ v = ⟨row.longUrl, row.expireAt⟩ := by
  obtain ⟨row, hsel, hcode, hview⟩ := h.stored code v hv
  have hsound := h.sound row ⟨_, (select_some hsel).1⟩
  exact ⟨row, hsound, hcode, hview.symm.trans hsound.view⟩

/-! ## What leaves the tables alone -/

/-- The tables are as they were, and the caches hold what they hold. -/
theorem Kept.of_caches (h : Kept P s) (hdb : s'.db = s.db)
    (hcaches : Caches (lookup cfg.coll cfg.router s.db) s')
    (hnegative : Known (fun _ _ => True) (fun c => ∀ v, ¬ P c v) s'.shards) : Kept P s' where
  keyed := hdb ▸ h.keyed
  sound := hdb ▸ h.sound
  caches := by rw [hdb]; exact hcaches
  negative := hnegative
  stored := hdb ▸ h.stored

theorem Kept.of_eq (h : Kept P s) (hdb : s'.db = s.db) (hshards : s'.shards = s.shards)
    (hredis : s'.redis = s.redis) : Kept P s' :=
  h.of_caches hdb (h.caches.of_eq hshards hredis) (by rw [hshards]; exact h.negative)

theorem Kept.perform (h : Kept P s) {op : Op}
    (hput : ∀ c v t draw, op = .putPositive c v t draw → lookup cfg.coll cfg.router s.db c = some v)
    (hneg : ∀ c t, op = .putNegative c t → ∀ v, ¬ P c v) : Kept P (s.perform op) :=
  h.of_caches rfl (h.caches.perform hput)
    (h.negative.step op rfl (fun _ _ _ _ => trivial) (fun _ _ _ _ _ => trivial)
      (fun _ _ hn => hn) hneg)

theorem Kept.writeRedis (h : Kept P s) {key : Bytes} {value : Option Bytes} {reply : Reply}
    (hcaches : Caches (lookup cfg.coll cfg.router s.db) (s.writeRedis key value reply)) :
    Kept P (s.writeRedis key value reply) :=
  h.of_caches (Process.writeRedis_db s key value reply) hcaches
    (by rw [Process.writeRedis_shards]; exact h.negative)

theorem Kept.expiry (h : Kept P s) (hl : lookup cfg.coll cfg.router s.db code = some v) :
    LF ∉ v.expireAt := by
  obtain ⟨row, hs, -, rfl⟩ := stored_of_lookup hl
  exact (h.sound row hs).expiry

theorem Kept.safe (h : Kept P s) (hl : lookup cfg.coll cfg.router s.db code = some v) :
    setSafeLocation v.longUrl = .found v.longUrl := by
  obtain ⟨row, hs, -, rfl⟩ := stored_of_lookup hl
  rw [(h.sound row hs).view, setSafeLocation, if_pos (h.sound row hs).url]

theorem Kept.putLocalPositive (h : Kept P s) {draw : Nat}
    (hl : lookup cfg.coll cfg.router s.db code = some v) :
    Kept P (s.putLocalPositive code v draw) := by
  refine h.perform ?_ ?_
  · intro c v' t draw' he
    cases he
    exact hl
  · intro c t he
    cases he

theorem Kept.set (h : Kept P s) (hl : lookup cfg.coll cfg.router s.db code = some v) :
    Kept P (s.set code v env) :=
  (h.putLocalPositive hl).writeRedis ((h.putLocalPositive hl).caches.encoded hl (h.expiry hl))

theorem Kept.eraseLocal (h : Kept P s) : Kept P (s.eraseLocal code) :=
  h.perform (by simp) (by simp)

theorem Kept.erase (h : Kept P s) : Kept P (s.erase code env) :=
  h.eraseLocal.writeRedis h.eraseLocal.caches.eraseRedis

/-! ## A redirect -/

theorem Kept.getRedis (h : Kept P s) (code : Bytes) (env : Env) :
    Kept P (s.getRedis code env).1 ∧ (s.getRedis code env).1.db = s.db ∧
      (s.getRedis code env).1.wall = s.wall ∧
      (s.getRedis code env).2.Says (lookup cfg.coll cfg.router s.db code) s.wall := by
  unfold Process.getRedis
  split
  · exact ⟨h, rfl, rfl, trivial⟩
  · cases env.get with
    | failed e => exact ⟨h.of_eq rfl rfl rfl, rfl, rfl, trivial⟩
    | lost e => exact ⟨h.of_eq rfl rfl rfl, rfl, rfl, trivial⟩
    | answered =>
      cases hraw : s.redis (cacheKey code) with
      | none => exact ⟨h, rfl, rfl, trivial⟩
      | some raw =>
        simp only [interpretRedisPayload]
        cases hdec : decodeRedisValue raw with
        | none => exact ⟨h, rfl, rfl, trivial⟩
        | some v =>
          have hl := h.caches.redis code raw v hraw hdec
          by_cases hexp : isBusinessExpired v.expireAt s.wall = true
          · simp only [hexp, if_true]
            refine ⟨?_, Process.dropRedis_db s _ _, Process.dropRedis_wall s _ _, hl, hexp⟩
            exact h.of_caches (Process.dropRedis_db s _ _) h.caches.dropRedis
              (by rw [Process.dropRedis_shards]; exact h.negative)
          · simp only [hexp]
            exact ⟨h, rfl, rfl, hl, by simpa using hexp⟩

/-- The answer to a flight that tells what is stored. -/
theorem Kept.refill (h : Kept P s) (code : Bytes) (env : Env) :
    Kept P (s.refill code env).1 ∧ (s.refill code env).1.db = s.db ∧
      Truthful (lookup cfg.coll cfg.router s.db code) s.wall (s.refill code env).2 := by
  unfold Process.refill
  rcases @findLongUrl_cases cfg.coll cfg.router s.db env.mysql code s.wall env.find with
    ⟨error, he⟩ | ⟨hl, he⟩ | ⟨v, hl, he⟩
  · rw [he]
    exact ⟨h, rfl, Or.inr ⟨error, rfl⟩⟩
  · rw [he]
    refine ⟨h.perform (by simp) ?_, rfl, Or.inl ?_⟩
    · intro c t hop v hv
      cases hop
      rw [(h.stored code v hv).lookup] at hl
      cases hl
    · rw [hl]
      rfl
  · rw [he]
    by_cases hexp : isBusinessExpired v.expireAt s.wall = true
    · rw [if_pos hexp]
      refine ⟨h.erase, ?_, Or.inl (direct_expired hl hexp).symm⟩
      exact Process.writeRedis_db _ _ _ _
    · rw [if_neg hexp]
      refine ⟨h.set hl, Process.writeRedis_db _ _ _ _, Or.inl ?_⟩
      rw [direct_found hl (by simpa using hexp)]
      exact h.safe hl

theorem Kept.originLookup (h : Kept P s) (code : Bytes) (env : Env) :
    Kept P (s.originLookup code env).1 ∧ (s.originLookup code env).1.db = s.db ∧
      Truthful (lookup cfg.coll cfg.router s.db code) s.wall (s.originLookup code env).2 := by
  unfold Process.originLookup
  split
  · exact ⟨h, rfl, Or.inr ⟨_, rfl⟩⟩
  · obtain ⟨h', hdb, hwall, hstatus⟩ := h.getRedis code env
    rcases hget : s.getRedis code env with ⟨s', status⟩
    rw [hget] at h' hdb hwall hstatus
    simp only at h' hdb hwall hstatus
    cases status with
    | hit v =>
      refine ⟨h'.putLocalPositive (by rw [hdb]; exact hstatus.1), hdb, Or.inl ?_⟩
      rw [direct_found hstatus.1 hstatus.2]
      exact h.safe hstatus.1
    | expired v => exact ⟨h'.eraseLocal, hdb, Or.inl (direct_expired hstatus.1 hstatus.2).symm⟩
    | miss =>
      have hrefill := h'.refill code env
      rw [hdb, hwall] at hrefill
      exact hrefill
    | unavailable =>
      have hrefill := h'.refill code env
      rw [hdb, hwall] at hrefill
      exact hrefill

/-- **A promised code is answered with what is stored**, or with 503. -/
theorem Kept.redirect (h : Kept P s) (code : Bytes) (env : Env) :
    Kept P (s.redirect code env).1 ∧ (s.redirect code env).1.db = s.db ∧
      ∀ v, P code v → (s.redirect code env).2 = direct (some v) s.wall ∨
        ∃ detail, (s.redirect code env).2 = .unavailable detail := by
  have hget : Kept P (s.perform (.get code s.now s.wall)) := h.perform (by simp) (by simp)
  have hpositive := h.caches.positive.get code s.now s.wall
  have hnegative := h.negative.get code s.now s.wall
  have hstored : ∀ v, P code v →
      direct (some v) s.wall = direct (lookup cfg.coll cfg.router s.db code) s.wall := by
    intro v hv
    rw [(h.stored code v hv).lookup]
  unfold Process.redirect
  split
  · rename_i hnil
    refine ⟨h, rfl, fun v hv => ?_⟩
    obtain ⟨row, hsound, rfl, -⟩ := h.row hv
    exact absurd hnil hsound.code
  · cases hst : LocalCache.get cfg.cache s.shards code s.now s.wall with
    | hit v =>
      rw [hst] at hpositive
      refine ⟨hget, rfl, fun v' hv' => Or.inl ?_⟩
      rw [hstored v' hv', direct_found hpositive.1 hpositive.2]
      exact h.safe hpositive.1
    | expired v =>
      rw [hst] at hpositive
      refine ⟨hget.erase, Process.writeRedis_db _ _ _ _, fun v' hv' => Or.inl ?_⟩
      rw [hstored v' hv', direct_expired hpositive.1 hpositive.2]
    | negHit =>
      rw [hst] at hnegative
      exact ⟨hget, rfl, fun v' hv' => absurd hv' (hnegative v')⟩
    | miss =>
      obtain ⟨h', hdb, htruth⟩ := hget.originLookup code env
      refine ⟨h', hdb, fun v' hv' => ?_⟩
      rw [hstored v' hv']
      exact htruth

/-! ## A creation -/

/-- A new row. -/
theorem Kept.insert (h : Kept P s) {record : ShortUrlRecord} {db : Tables}
    (hins : insert cfg.coll cfg.router s.db record = (db, true)) (hsound : Sound record) :
    Kept P { s with db } ∧
      Owns cfg.coll cfg.router db record.shortCode ⟨record.longUrl, record.expireAt⟩ := by
  refine ⟨⟨?_, ?_, (h.caches.mono fun c v => lookup_insert_of_some hins).of_eq rfl rfl, h.negative,
    fun c v hv => (h.stored c v hv).insert hins⟩, ?_⟩
  · have hkeyed := h.keyed.insert record
    rwa [hins] at hkeyed
  · intro row hs
    rcases stored_insert hins hs with hs | rfl
    · exact h.sound row hs
    · exact hsound
  · rw [← hsound.view]
    exact owns_insert_self hins

/-- One more promise. -/
def Promised.and (P : Promised) (code : Bytes) (v : EntryView) : Promised :=
  fun c w => P c w ∨ c = code ∧ w = v

/-- `set` after the `INSERT`: it overwrites what the local cache has of the code, and from here on
the code can be promised. -/
theorem Kept.promise (h : Kept P s) (hown : Owns cfg.coll cfg.router s.db code v) (env : Env) :
    Kept (P.and code v) (s.set code v env) := by
  have hl := hown.lookup
  have hput : Kept (P.and code v) (s.putLocalPositive code v env.draw) := by
    have hput : Kept P (s.putLocalPositive code v env.draw) := h.putLocalPositive hl
    refine ⟨hput.keyed, hput.sound, hput.caches, ?_, ?_⟩
    · refine h.negative.step (.putPositive code v s.now env.draw) rfl (fun _ _ _ _ => trivial)
        (fun _ _ _ _ _ => trivial) ?_ ?_
      · intro c hw hn w hPw
        rcases hPw with hPw | ⟨rfl, -⟩
        · exact hn w hPw
        · exact hw ⟨rfl, rfl⟩
      · intro c t he
        cases he
    · intro c w hPw
      rcases hPw with hPw | ⟨rfl, rfl⟩
      · exact h.stored c w hPw
      · exact hown
  exact hput.writeRedis (hput.caches.encoded hl (h.expiry hl))

/-- **However the loop of `shorten` ends**, it breaks no promise, and a code that it has created can
be promised. -/
theorem Kept.createLoop {longUrl expireAt : Bytes} (env : Env)
    (hsound : ∀ id, Sound ⟨id, base62Encode id, longUrl, expireAt⟩)
    (tries : List (Option UInt64 × Reply)) (h : Kept P s) :
    Kept P (s.createLoop longUrl expireAt env tries).1 ∧
      ∀ code, (s.createLoop longUrl expireAt env tries).2 = .created code →
        (∃ id, code = base62Encode id) ∧
          Kept (P.and code ⟨longUrl, expireAt⟩)
            (s.createLoop longUrl expireAt env tries).1 := by
  induction tries generalizing s with
  | nil => exact ⟨h, fun code hc => by cases hc⟩
  | cons next tries ih =>
    obtain ⟨id, reply⟩ := next
    cases id with
    | none => exact ⟨h, fun code hc => by cases hc⟩
    | some id =>
      rw [Process.createLoop]
      rcases hcreate : create cfg.coll cfg.router s.db env.mysql
        ⟨id, base62Encode id, longUrl, expireAt⟩ reply with ⟨db, status⟩
      cases status with
      | ok =>
        obtain ⟨hgrown, hown⟩ := h.insert (create_ok hcreate) (hsound id)
        have hpromise := hgrown.promise hown env
        refine ⟨hpromise.mono fun c w hw => Or.inl hw, fun code hc => ?_⟩
        cases hc
        exact ⟨⟨id, rfl⟩, hpromise⟩
      | duplicateCode =>
        obtain rfl := create_duplicateCode hcreate
        exact ih h
      | dbError error =>
        refine ⟨?_, fun code hc => by cases hc⟩
        cases hmysql : env.mysql with
        | false =>
          rw [hmysql] at hcreate
          cases hcreate
          exact h
        | true =>
          rw [hmysql] at hcreate
          rcases Traffic.create_effect hcreate with ⟨rfl, -⟩ | ⟨hins, -⟩
          · exact h
          · exact (h.insert hins (hsound id)).1

end Handler
end UrlShortener
