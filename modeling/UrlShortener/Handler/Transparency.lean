import UrlShortener.Handler.Redirect

/-!
# UrlShortener.Handler.Transparency

The caches do not show. Whatever the local cache and Redis hold, have lost or never got, a
redirect answers what MySQL would say at that moment, or 503.

The invariant `Implied` says that every cached fact follows from the tables: a cached value is that
of a stored record, and a code cached as missing has none. `shorten` is the one step that makes a
fact about a code false, and it overwrites what the local cache holds of that code before it
answers.
-/

namespace UrlShortener
namespace Handler

open Http (isHttpUrlSafeForLocation isHttpUrlSafeForLocation_noNul)
open LocalCache (EntryView Op Shards Known isBusinessExpired)
open ShortUrl
open SingleFlight (SingleFlightResult)

/-- What MySQL says of a code at time `t`, or 503 if it cannot be asked. -/
inductive Answers (db : Tables) (code t : Bytes) (reachable : Prop) : Outcome → Prop
  | found (row : ShortUrlRecord) (stored : Stored db row) (same : row.shortCode = code)
      (live : row.expireAt = [] ∨ t < row.expireAt) :
      Answers db code t reachable (.found row.longUrl)
  | expired (row : ShortUrlRecord) (stored : Stored db row) (same : row.shortCode = code)
      (dated : row.expireAt ≠ []) (past : row.expireAt ≤ t) : Answers db code t reachable .expired
  | notFound (absent : ∀ row, Stored db row → row.shortCode ≠ code) :
      Answers db code t reachable .notFound
  | unavailable (detail : Bytes) (unreachable : ¬ reachable) :
      Answers db code t reachable (.unavailable detail)

/-! ## The invariant -/

/-- What `shorten` makes sure of before it inserts. -/
structure Sound (row : ShortUrlRecord) : Prop where
  url : isHttpUrlSafeForLocation row.longUrl = true
  expiry : LF ∉ row.expireAt
  code : row.shortCode ≠ []
  named : NUL ∉ row.shortCode

/-- A URL that passed the check is read back whole. -/
theorem Sound.view {row : ShortUrlRecord} (h : Sound row) :
    row.view = ⟨row.longUrl, row.expireAt⟩ := by
  rw [ShortUrlRecord.view, cString_eq_self (isHttpUrlSafeForLocation_noNul h.url)]

variable {cfg : Config} {s s' : Process cfg} {code : Bytes} {v : EntryView} {env : Env}

structure Implied (s : Process cfg) : Prop where
  keyed : Keyed cfg.coll cfg.router s.db
  sound : ∀ row, Stored s.db row → Sound row
  known : Known (fun c v => lookup cfg.coll cfg.router s.db c = some v)
    (fun c => lookup cfg.coll cfg.router s.db c = none) s.shards
  redis : ∀ c raw v, s.redis (cacheKey c) = some raw → decodeRedisValue raw = some v →
    lookup cfg.coll cfg.router s.db c = some v

theorem implied_start (now : Int) (wall : Bytes) (redisAvailable : Bool) :
    Implied (Process.start cfg now wall redisAvailable) where
  keyed := keyed_empty
  sound row h := by
    obtain ⟨table, hmem⟩ := h
    cases hmem
  known := LocalCache.known_empty _ _
  redis c raw v h := by cases h

/-- The invariant is about the three stores only. -/
theorem Implied.of_eq (h : Implied s) (hdb : s'.db = s.db) (hsh : s'.shards = s.shards)
    (hr : s'.redis = s.redis) : Implied s' :=
  ⟨hdb ▸ h.keyed, hdb ▸ h.sound, by rw [hdb, hsh]; exact h.known, by rw [hdb, hr]; exact h.redis⟩

theorem Implied.perform (h : Implied s) {op : Op}
    (hput : ∀ c v t draw, op = .putPositive c v t draw → lookup cfg.coll cfg.router s.db c = some v)
    (hneg : ∀ c t, op = .putNegative c t → lookup cfg.coll cfg.router s.db c = none) :
    Implied (s.perform op) :=
  ⟨h.keyed, h.sound, h.known.step op rfl (fun _ _ _ hp => hp) hput (fun _ _ hn => hn) hneg, h.redis⟩

theorem Implied.setRedis (h : Implied s) {key : Bytes} {value : Option Bytes}
    (hv : ∀ c raw v, key = cacheKey c → value = some raw → decodeRedisValue raw = some v →
      lookup cfg.coll cfg.router s.db c = some v) : Implied (s.setRedis key value) := by
  refine ⟨h.keyed, h.sound, h.known, ?_⟩
  intro c raw v hraw hdec
  by_cases hk : cacheKey c = key
  · subst hk
    simp only [Process.setRedis, Function.update_self] at hraw
    exact hv c raw v rfl hraw hdec
  · simp only [Process.setRedis, Function.update_of_ne hk] at hraw
    exact h.redis c raw v hraw hdec

theorem Implied.writeRedis (h : Implied s) {key : Bytes} {value : Option Bytes} {reply : Reply}
    (hv : ∀ c raw v, key = cacheKey c → value = some raw → decodeRedisValue raw = some v →
      lookup cfg.coll cfg.router s.db c = some v) : Implied (s.writeRedis key value reply) := by
  unfold Process.writeRedis
  split
  · exact h
  · cases reply with
    | answered => exact h.setRedis hv
    | failed e => exact h.of_eq rfl rfl rfl
    | lost e => exact (h.setRedis hv).of_eq rfl rfl rfl

theorem Implied.dropRedis (h : Implied s) {key : Bytes} {reply : Reply} :
    Implied (s.dropRedis key reply) := by
  cases reply with
  | answered => exact h.setRedis (by simp)
  | failed e => exact h
  | lost e => exact h.setRedis (by simp)

theorem Implied.expiry_of_lookup (h : Implied s)
    (hl : lookup cfg.coll cfg.router s.db code = some v) :
    LF ∉ v.expireAt := by
  obtain ⟨row, hs, -, rfl⟩ := stored_of_lookup hl
  exact (h.sound row hs).expiry

/-- The value `set` writes to Redis is the one it was given. -/
theorem encoded_of_lookup (hl : lookup cfg.coll cfg.router s.db code = some v)
    (hexp : LF ∉ v.expireAt) :
    ∀ c raw v', cacheKey code = cacheKey c → some (encodeRedisValue v) = some raw →
      decodeRedisValue raw = some v' → lookup cfg.coll cfg.router s.db c = some v' := by
  intro c raw v' hkey hraw hdec
  cases hraw
  rw [decode_encode hexp] at hdec
  cases hdec
  rw [← cacheKey_injective hkey]
  exact hl

theorem Implied.putLocalPositive (h : Implied s) {draw : Nat}
    (hl : lookup cfg.coll cfg.router s.db code = some v) :
    Implied (s.putLocalPositive code v draw) := by
  refine h.perform ?_ ?_
  · intro c v' t draw' he
    cases he
    exact hl
  · intro c t he
    cases he

theorem Implied.set (h : Implied s) (hl : lookup cfg.coll cfg.router s.db code = some v) :
    Implied (s.set code v env) :=
  (h.putLocalPositive hl).writeRedis (encoded_of_lookup hl (h.expiry_of_lookup hl))

theorem Implied.eraseLocal (h : Implied s) : Implied (s.eraseLocal code) :=
  h.perform (by simp) (by simp)

theorem Implied.erase (h : Implied s) : Implied (s.erase code env) :=
  h.eraseLocal.writeRedis (by simp)

/-! ## Answers -/

/-- The answer for what is stored. -/
def direct (stored : Option EntryView) (wall : Bytes) : Outcome :=
  match stored with
  | none => .notFound
  | some v => if isBusinessExpired v.expireAt wall then .expired else .found v.longUrl

theorem Implied.answers_direct {reachable : Prop} (h : Implied s) (hbytes : cfg.coll.Bytewise) :
    Answers s.db code s.wall reachable (direct (lookup cfg.coll cfg.router s.db code) s.wall) := by
  cases hl : lookup cfg.coll cfg.router s.db code with
  | none => exact .notFound (not_stored_of_lookup h.keyed hl)
  | some v =>
    obtain ⟨row, hs, heq, hview⟩ := stored_of_lookup hl
    have hcode : row.shortCode = code := hbytes _ _ heq
    rw [(h.sound row hs).view] at hview
    subst hview
    simp only [direct]
    split
    · rename_i he
      unfold isBusinessExpired at he
      split at he
      · cases he
      · rename_i hne
        exact .expired row hs hcode hne (of_decide_eq_true he)
    · rename_i he
      refine .found row hs hcode ?_
      by_cases hne : row.expireAt = []
      · exact Or.inl hne
      · rw [isBusinessExpired, if_neg hne] at he
        exact Or.inr (List.not_le.mp fun hle => he (decide_eq_true hle))

theorem Implied.safe_of_lookup (h : Implied s)
    (hl : lookup cfg.coll cfg.router s.db code = some v) :
    setSafeLocation v.longUrl = .found v.longUrl := by
  obtain ⟨row, hs, -, rfl⟩ := stored_of_lookup hl
  rw [(h.sound row hs).view, setSafeLocation, if_pos (h.sound row hs).url]

theorem direct_found (hl : lookup cfg.coll cfg.router s.db code = some v)
    (hexp : isBusinessExpired v.expireAt s.wall = false) :
    direct (lookup cfg.coll cfg.router s.db code) s.wall = .found v.longUrl := by
  simp [direct, hl, hexp]

theorem direct_expired (hl : lookup cfg.coll cfg.router s.db code = some v)
    (hexp : isBusinessExpired v.expireAt s.wall = true) :
    direct (lookup cfg.coll cfg.router s.db code) s.wall = .expired := by
  simp [direct, hl, hexp]

/-- MySQL answers, and the lookup finds a slot if it needs one. -/
structure Reachable (s : Process cfg) (env : Env) : Prop where
  mysql : env.mysql = true
  find : env.find = .answered
  budget : s.redisAvailable = true ∨ env.slot = true

instance (s : Process cfg) (env : Env) : Decidable (Reachable s env) :=
  decidable_of_iff (env.mysql = true ∧ env.find = .answered ∧
    (s.redisAvailable = true ∨ env.slot = true)) ⟨fun ⟨h1, h2, h3⟩ => ⟨h1, h2, h3⟩,
      fun h => ⟨h.mysql, h.find, h.budget⟩⟩

/-- A flight that came to an end. -/
def Settled (r : SingleFlightResult) : Prop := r.kind ≠ .overload ∧ r.kind ≠ .error

theorem setSafeLocation_available (longUrl detail : Bytes) :
    setSafeLocation longUrl ≠ .unavailable detail := by
  unfold setSafeLocation
  split
  · simp
  · simp

theorem Settled.answer {r : SingleFlightResult} (h : Settled r) (detail : Bytes) :
    answerFlight r ≠ .unavailable detail := by
  unfold answerFlight
  cases hkind : r.kind with
  | hit => exact setSafeLocation_available _ _
  | expired => simp
  | notFound => simp
  | overload => exact absurd hkind h.1
  | error => exact absurd hkind h.2

theorem refill_settled (s : Process cfg) (code : Bytes) (hmysql : env.mysql = true)
    (hfind : env.find = .answered) : Settled (s.refill code env).2 := by
  unfold Process.refill
  cases hfound : findLongUrl cfg.coll cfg.router s.db env.mysql code s.wall env.find with
  | ok longUrl expireAt => exact ⟨by simp, by simp⟩
  | expired longUrl expireAt => exact ⟨by simp, by simp⟩
  | notFound => exact ⟨by simp, by simp⟩
  | dbError error =>
    rw [hmysql, hfind, findLongUrl] at hfound
    simp only [Bool.not_true, Bool.false_eq_true, if_false] at hfound
    split at hfound
    · cases hfound
    · split at hfound
      · cases hfound
      · cases hfound

theorem Reachable.settled (h : Reachable s env) (code : Bytes) :
    Settled (s.originLookup code env).2 := by
  unfold Process.originLookup
  have hbudget : ¬ (!s.redisAvailable && !env.slot) = true := by
    rcases h.budget with hup | hslot
    · simp [hup]
    · simp [hslot]
  rw [if_neg hbudget]
  rcases s.getRedis code env with ⟨s₁, status⟩
  cases status with
  | hit v => exact ⟨by simp, by simp⟩
  | expired v => exact ⟨by simp, by simp⟩
  | miss => exact refill_settled s₁ code h.mysql h.find
  | unavailable => exact refill_settled s₁ code h.mysql h.find

/-- Then the answer is no 503. -/
theorem Reachable.redirect (h : Reachable s env) (code detail : Bytes) :
    (s.redirect code env).2 ≠ .unavailable detail := by
  unfold Process.redirect
  split
  · simp
  · cases LocalCache.get cfg.cache s.shards code s.now s.wall with
    | hit v => exact setSafeLocation_available _ _
    | expired v => simp
    | negHit => simp
    | miss =>
      have hget : Reachable (s.perform (.get code s.now s.wall)) env := ⟨h.mysql, h.find, h.budget⟩
      exact (hget.settled code).answer detail

/-- What `get_redis` says of the code. -/
def Process.RedisStatus.Says (stored : Option EntryView) (wall : Bytes) :
    Process.RedisStatus → Prop
  | .hit v => stored = some v ∧ isBusinessExpired v.expireAt wall = false
  | .expired v => stored = some v ∧ isBusinessExpired v.expireAt wall = true
  | .miss => True
  | .unavailable => True

theorem Implied.getRedis (h : Implied s) (code : Bytes) (env : Env) :
    Implied (s.getRedis code env).1 ∧ (s.getRedis code env).1.db = s.db ∧
      (s.getRedis code env).1.wall = s.wall ∧
      (s.getRedis code env).2.Says (lookup cfg.coll cfg.router s.db code) s.wall := by
  unfold Process.getRedis
  split
  · exact ⟨h, rfl, rfl, trivial⟩
  · cases env.get with
    | failed e => exact ⟨h.of_eq rfl rfl rfl, rfl, rfl, trivial⟩
    | lost e => exact ⟨h.of_eq rfl rfl rfl, rfl, rfl, trivial⟩
    | answered =>
      cases hraw : s.redis (cacheKey code) with
      | none => exact ⟨h, rfl, rfl, trivial⟩
      | some raw =>
        simp only [interpretRedisPayload]
        cases hdec : decodeRedisValue raw with
        | none => exact ⟨h, rfl, rfl, trivial⟩
        | some v =>
          have hl := h.redis code raw v hraw hdec
          by_cases hexp : isBusinessExpired v.expireAt s.wall = true
          · simp only [hexp, if_true]
            exact ⟨h.dropRedis, by cases env.drop <;> rfl, by cases env.drop <;> rfl, hl, hexp⟩
          · simp only [hexp]
            exact ⟨h, rfl, rfl, hl, by simpa using hexp⟩

/-- A flight answers what is stored, or 503. -/
def Truthful (stored : Option EntryView) (wall : Bytes) (r : SingleFlightResult) : Prop :=
  answerFlight r = direct stored wall ∨ ∃ detail, answerFlight r = .unavailable detail

theorem Implied.refill (h : Implied s) (code : Bytes) (env : Env) :
    Implied (s.refill code env).1 ∧
      Truthful (lookup cfg.coll cfg.router s.db code) s.wall (s.refill code env).2 := by
  unfold Process.refill
  rcases @findLongUrl_cases cfg.coll cfg.router s.db env.mysql code s.wall env.find with
    ⟨error, he⟩ | ⟨hl, he⟩ | ⟨v, hl, he⟩
  · rw [he]
    exact ⟨h, Or.inr ⟨error, rfl⟩⟩
  · rw [he]
    refine ⟨h.perform (by simp) ?_, Or.inl ?_⟩
    · intro c t hop
      cases hop
      exact hl
    · rw [hl]
      rfl
  · rw [he]
    by_cases hexp : isBusinessExpired v.expireAt s.wall = true
    · rw [if_pos hexp]
      exact ⟨h.erase, Or.inl (direct_expired hl hexp).symm⟩
    · rw [if_neg hexp]
      refine ⟨h.set hl, Or.inl ?_⟩
      rw [direct_found hl (by simpa using hexp)]
      exact h.safe_of_lookup hl

theorem Implied.originLookup (h : Implied s) (code : Bytes) (env : Env) :
    Implied (s.originLookup code env).1 ∧
      Truthful (lookup cfg.coll cfg.router s.db code) s.wall (s.originLookup code env).2 := by
  unfold Process.originLookup
  split
  · exact ⟨h, Or.inr ⟨_, rfl⟩⟩
  · obtain ⟨h', hdb, hwall, hstatus⟩ := h.getRedis code env
    rcases hget : s.getRedis code env with ⟨s', status⟩
    rw [hget] at h' hdb hwall hstatus
    simp only at h' hdb hwall hstatus
    cases status with
    | hit v =>
      have hl' : lookup cfg.coll cfg.router s'.db code = some v := by rw [hdb]; exact hstatus.1
      refine ⟨h'.putLocalPositive hl', Or.inl ?_⟩
      rw [direct_found hstatus.1 hstatus.2]
      exact h.safe_of_lookup hstatus.1
    | expired v =>
      exact ⟨h'.eraseLocal, Or.inl (direct_expired hstatus.1 hstatus.2).symm⟩
    | miss =>
      have := h'.refill code env
      rw [hdb, hwall] at this
      exact this
    | unavailable =>
      have := h'.refill code env
      rw [hdb, hwall] at this
      exact this

theorem Implied.redirect (h : Implied s) (hbytes : cfg.coll.Bytewise) (code : Bytes) (env : Env) :
    Implied (s.redirect code env).1 ∧
      Answers s.db code s.wall (Reachable s env) (s.redirect code env).2 := by
  have hget : Implied (s.perform (.get code s.now s.wall)) := h.perform (by simp) (by simp)
  have hstatus := h.known.get code s.now s.wall
  have hdirect := @Implied.answers_direct cfg s code (Reachable s env) h hbytes
  unfold Process.redirect
  split
  · rename_i hnil
    subst hnil
    exact ⟨h, .notFound fun row hs => (h.sound row hs).code⟩
  · cases hst : LocalCache.get cfg.cache s.shards code s.now s.wall with
    | hit v =>
      rw [hst] at hstatus
      rw [direct_found hstatus.1 hstatus.2] at hdirect
      rw [← h.safe_of_lookup hstatus.1] at hdirect
      exact ⟨hget, hdirect⟩
    | expired v =>
      rw [hst] at hstatus
      rw [direct_expired hstatus.1 hstatus.2] at hdirect
      exact ⟨hget.erase, hdirect⟩
    | negHit =>
      rw [hst] at hstatus
      have hnone : lookup cfg.coll cfg.router s.db code = none := hstatus
      rw [hnone] at hdirect
      exact ⟨hget, hdirect⟩
    | miss =>
      obtain ⟨h', htruth⟩ := hget.originLookup code env
      refine ⟨h', ?_⟩
      rcases htruth with he | ⟨detail, he⟩
      · simp only [he]
        exact hdirect
      · simp only [he]
        refine .unavailable detail fun hr => ?_
        have hr' : Reachable (s.perform (.get code s.now s.wall)) env :=
          ⟨hr.mysql, hr.find, hr.budget⟩
        exact (hr'.settled code).answer detail he

/-! ## Creating -/

/-- Insert and `set` together keep the invariant: the local cache forgets that the code was
missing before anybody can ask. -/
theorem Implied.created (h : Implied s) (hbytes : cfg.coll.Bytewise) {record : ShortUrlRecord}
    {db : Tables}
    (hins : insert cfg.coll cfg.router s.db record = (db, true)) (hsound : Sound record) :
    Implied (({ s with db } : Process cfg).set record.shortCode record.view env) := by
  have hkeyed : Keyed cfg.coll cfg.router db := by
    have := h.keyed.insert record
    rwa [hins] at this
  have hl := lookup_insert_self hins
  have hother : ∀ c v, lookup cfg.coll cfg.router s.db c = some v →
      lookup cfg.coll cfg.router db c = some v := fun c v => lookup_insert_of_some hins
  have hput : Implied (({ s with db } : Process cfg).putLocalPositive record.shortCode record.view
      env.draw) := by
    refine ⟨hkeyed, ?_, ?_, ?_⟩
    · intro row hs
      rcases stored_insert hins hs with hs | rfl
      · exact h.sound row hs
      · exact hsound
    · refine h.known.step (.putPositive record.shortCode record.view s.now env.draw) rfl
        (fun c v _ hp => hother c v hp) ?_ ?_ ?_
      · intro c v t draw he
        cases he
        exact hl
      · intro c hw hn
        have hne : c ≠ record.shortCode := fun he => hw ⟨rfl, he.symm⟩
        show lookup cfg.coll cfg.router db c = none
        rw [lookup_insert hins, if_neg fun hm => hne (hbytes.of_matches hm)]
        exact hn
      · intro c t he
        cases he
    · intro c raw v hraw hdec
      exact hother c v (h.redis c raw v hraw hdec)
  exact hput.writeRedis (encoded_of_lookup (s := { s with db }) hl hsound.expiry)

theorem Implied.createLoop (hbytes : cfg.coll.Bytewise) {longUrl expireAt : Bytes} (env : Env)
    (hsound : ∀ id, Sound ⟨id, base62Encode id, longUrl, expireAt⟩) :
    ∀ (tries : List (Option UInt64 × Reply)) {s : Process cfg} {out : Bytes}, Implied s →
      (s.createLoop longUrl expireAt env tries).2 = .created out →
      Implied (s.createLoop longUrl expireAt env tries).1 := by
  intro tries
  induction tries with
  | nil => intro s out h hout; cases hout
  | cons t tries ih =>
    obtain ⟨id, reply⟩ := t
    intro s out h hout
    cases id with
    | none => cases hout
    | some id =>
      have hrecord := hsound id
      unfold Process.createLoop at hout ⊢
      simp only at hout ⊢
      generalize hr : (⟨id, base62Encode id, longUrl, expireAt⟩ : ShortUrlRecord) = record at *
      have hcode : base62Encode id = record.shortCode := by rw [← hr]
      have hview : (⟨longUrl, expireAt⟩ : EntryView) = record.view := by rw [hrecord.view, ← hr]
      rcases hc : create cfg.coll cfg.router s.db env.mysql record reply with ⟨db, status⟩
      cases status with
      | ok =>
        simp only [hcode, hview]
        exact h.created hbytes (create_ok hc) hrecord
      | duplicateCode =>
        simp only [hc] at hout ⊢
        obtain rfl := create_duplicateCode hc
        exact ih h hout
      | dbError e =>
        simp only [hc] at hout
        cases hout

theorem Implied.shorten {longUrl expireAt code : Bytes} {tries : List (Option UInt64 × Reply)}
    (h : Implied s) (hbytes : cfg.coll.Bytewise)
    (hs : s.shorten longUrl expireAt tries env = (s', some code)) :
    Implied s' := by
  unfold Process.shorten at hs
  split at hs
  · cases hs
  · rename_i hurl
    split at hs
    · cases hs
    · rename_i hexp
      split at hs
      · cases hs
      · have hlf : LF ∉ expireAt := by
          by_cases hne : expireAt = []
          · simp [hne]
          · exact validExpireAt_noLf (by simpa [hne] using hexp)
        have hsound : ∀ id, Sound ⟨id, base62Encode id, longUrl, expireAt⟩ := fun id =>
          ⟨by simpa using hurl, hlf, base62Encode_ne_nil id, base62Encode_noNul id⟩
        rcases hloop : s.createLoop longUrl expireAt env (tries.take 3) with ⟨s₁, creation⟩
        rw [hloop] at hs
        cases creation with
        | created code' =>
          cases hs
          have himplied := Implied.createLoop hbytes env hsound (tries.take 3) h
            (congrArg Prod.snd hloop)
          rwa [hloop] at himplied
        | failed error => cases hs
        | threw => cases hs

theorem Implied.step {l : Label} (h : Implied s) (hbytes : cfg.coll.Bytewise)
    (hs : s.step l = some s') : Implied s' := by
  cases l with
  | shorten longUrl expireAt tries env =>
    rcases hsh : s.shorten longUrl expireAt tries env with ⟨s₁, o⟩
    cases o with
    | none => simp [Process.step, hsh] at hs
    | some code =>
      simp only [Process.step, hsh, Option.some.injEq] at hs
      subst hs
      exact h.shorten hbytes hsh
  | redirect code env =>
    cases hs
    exact (h.redirect hbytes code env).1
  | tick now wall =>
    cases hs
    exact h.of_eq rfl rfl rfl
  | lose key =>
    cases hs
    exact h.setRedis (by simp)
  | foreign key raw =>
    simp only [Process.step] at hs
    split at hs
    · rename_i hdec
      cases hs
      refine h.setRedis ?_
      intro c raw' v _ hraw hd
      cases hraw
      rw [hdec] at hd
      cases hd
    · cases hs
  | available up =>
    cases hs
    exact h.of_eq rfl rfl rfl

/-- **The caches do not show**, where MySQL compares codes byte by byte. In every run of successful
shortens, redirects, moving clocks and lost, foreign or failing stores, a redirect answers what
MySQL holds for the code at that time. It answers 503 only if MySQL is not connected or does not
answer, or Redis is down and there is no slot. -/
theorem cache_transparent (cfg : Config) (hbytes : cfg.coll.Bytewise) (now : Int) (wall : Bytes)
    (redisAvailable : Bool) (ls : List Label) (s : Process cfg) (code : Bytes) (env : Env)
    (hr : Machine.run Process.step (Process.start cfg now wall redisAvailable) ls = some s) :
    Answers s.db code s.wall (Reachable s env) (s.redirect code env).2 :=
  ((Machine.run_preserves Process.step (fun _ _ _ h hs => Implied.step h hbytes hs)
    (implied_start now wall redisAvailable) hr).redirect hbytes code env).2

/-- A code is asked for, then created, and asked for again. -/
def askCreate : List Label :=
  [.redirect (ascii "a") {}, .shorten (ascii "http://x.org/") [] [(some 10, .answered)] {},
    .available false]

/-- One shard, and Redis in use. -/
def small : Config where
  enabled := true
  client := true
  cache := LocalCache.configure 1 4096 4096 60 5 30
  router := {}
  coll := .binary

theorem cache_transparent_created : ∃ s,
    Machine.run Process.step (Process.start small 0 [] true) askCreate = some s ∧
      (s.redirect (ascii "a") {}).2 = .found (ascii "http://x.org/") ∧
        Answers s.db (ascii "a") s.wall (Reachable s {}) (.found (ascii "http://x.org/")) := by
  have hrun : (Machine.run Process.step (Process.start small 0 [] true) askCreate).map
      (fun s => (s.redirect (ascii "a") {}).2) = some (.found (ascii "http://x.org/")) := by
    decide +kernel
  obtain ⟨s, hs, hfound⟩ := Option.map_eq_some_iff.mp hrun
  refine ⟨s, hs, hfound, ?_⟩
  rw [← hfound]
  exact cache_transparent small Collation.bytewise_binary 0 [] true askCreate s (ascii "a") {} hs

end Handler
end UrlShortener
