import UrlShortener.Handler.Created

/-!
# UrlShortener.Handler.Expiry

Whether a mapping that has expired can still be redirected to. Every read of a cache or of MySQL
checks `expire_at` against the clock of its moment; what is not checked again is the result that a
flight hands to those who joined it. `Prompt` names the step that must not happen: joining a flight
after `expire_at` whose loader has read the mapping before.
-/

namespace UrlShortener
namespace Handler
namespace Race

open LocalCache (EntryView Known isBusinessExpired)
open ShortUrl
open SingleFlight (SingleFlightResult Kind)
open Threads

variable {cfg : Config} {s s' : State cfg} {l : Label}

/-- There is a mapping, and at that time it had not expired. -/
def Live (s : State cfg) (t : Bytes) : Prop :=
  (mapping s).any (fun v => !isBusinessExpired v.expireAt t) = true

instance (s : State cfg) (t : Bytes) : Decidable (Live s t) :=
  inferInstanceAs (Decidable (_ = true))

theorem live_of_mapping {v : EntryView} {t : Bytes} (hm : mapping s = some v)
    (hexp : isBusinessExpired v.expireAt t = false) : Live s t := by
  simp [Live, hm, hexp]

/-- Who was not late for the mapping before the step is not late after it. -/
theorem Live.step {t : Bytes} (h : Live s t) (hs : Step s l s') : Live s' t := by
  obtain ⟨v, hm, hexp⟩ := (Option.any_eq_true _ _).mp h
  exact live_of_mapping (mapping_step hs hm) (by simpa using hexp)

/-- What has not expired had not expired earlier. -/
theorem not_expired_of_le {e t wall : Bytes} (hle : t ≤ wall)
    (h : isBusinessExpired e wall = false) : isBusinessExpired e t = false := by
  unfold isBusinessExpired at h ⊢
  split
  · rfl
  · rename_i hne
    rw [if_neg hne] at h
    have hlate : ¬ e ≤ wall := of_decide_eq_false h
    exact decide_eq_false fun he => hlate (List.le_trans he hle)

/-- A request joins a flight whose loader has read a live mapping only if the mapping had not
expired when the request arrived. -/
def Prompt (s : State cfg) : Label → Prop
  | .step u _ => ∀ q ∈ s.requests[u]?, q.pc = .flight →
    ∀ c ∈ s.flights.joins cfg.flights u, Settled .hit s c → Live s q.born
  | _ => True

instance (s : State cfg) : ∀ l, Decidable (Prompt s l)
  | .step _ _ => inferInstanceAs (Decidable (∀ q ∈ _, _))
  | .arrive | .wake _ | .insert _ _ _ | .create _ | .tick _ _ | .other _ | .redis _ _
  | .available _ => isTrue trivial

/-- The values a request carries are those of the mapping. -/
def Pc.Holds (stored : Option EntryView) : Pc → Prop
  | .loader (.interpret raw) => ∀ v, decodeRedisValue raw = some v → stored = some v
  | .loader (.putPositive v) | .loader (.setLocal v) | .loader (.setRedis v) => stored = some v
  | _ => True

theorem Pc.Holds.mono {m m' : Option EntryView} {pc : Pc} (h : pc.Holds m)
    (hm : ∀ v, m = some v → m' = some v) : pc.Holds m' := by
  cases pc with
  | loader loader =>
    cases loader with
    | interpret raw => exact fun v hv => hm v (h v hv)
    | putPositive v => exact hm v h
    | setLocal v => exact hm v h
    | setRedis v => exact hm v h
    | _ => trivial
  | _ => trivial

/-- What is cached, and what is on its way into a cache, is the mapping. -/
structure Genuine (s : State cfg) : Prop where
  expiry : ∀ v, mapping s = some v → LF ∉ v.expireAt
  positive : Known (fun c v => c = cfg.code → mapping s = some v) (fun _ => True) s.process.shards
  redis : ∀ raw v, s.process.redis (cacheKey cfg.code) = some raw → decodeRedisValue raw = some v →
    mapping s = some v
  held : ∀ q ∈ s.requests, q.pc.Holds (mapping s)
  creation : ∀ v, s.creation = .inserted v ∨ s.creation = .cached v → mapping s = some v

theorem genuine_start {p : Process cfg.process} (hp : Implied p) :
    Genuine ({ process := p } : State cfg) where
  expiry v hv := hp.expiry_of_lookup hv
  positive := by
    refine hp.known.imp ?_ (fun _ _ => trivial)
    rintro c v hv rfl
    exact hv
  redis raw v hraw hdec := hp.redis _ raw v hraw hdec
  held q hq := by cases hq
  creation v hv := by rcases hv with hv | hv <;> cases hv

/-- After a step of a request outside `do_flight` it still carries what is stored. -/
theorem Genuine.holds_act (h : Genuine s) {env : Env} {pc : Pc} (hpc : pc.Holds (mapping s)) :
    (act s.process cfg.code env pc).2.Holds (mapping s) := by
  cases pc with
  | start =>
    simp only [act]
    split
    · trivial
    · cases LocalCache.get cfg.process.cache s.process.shards cfg.code s.process.now
        s.process.wall <;> trivial
  | eraseLocal => trivial
  | eraseRedis => trivial
  | flight => trivial
  | answered o => trivial
  | loader loader =>
    cases loader with
    | budget => simp only [act, Loader.step]; split <;> trivial
    | get =>
      simp only [act, Loader.step]
      split
      · trivial
      · split
        · trivial
        · trivial
        · split
          · trivial
          · rename_i raw hraw
            exact fun v hv => h.redis raw v hraw hv
    | interpret raw =>
      simp only [act, Loader.step, interpretRedisPayload]
      cases hdec : decodeRedisValue raw with
      | none => trivial
      | some v =>
        by_cases hexp : isBusinessExpired v.expireAt s.process.wall = true
        · simp only [hexp]
          trivial
        · simp only [hexp]
          exact hpc v hdec
    | mysql =>
      simp only [act, Loader.step]
      rcases @findLongUrl_cases cfg.process.coll cfg.process.router s.process.db env.mysql cfg.code
          s.process.wall env.find with ⟨error, he⟩ | ⟨hl, he⟩ | ⟨v, hl, he⟩
      · rw [he]
        trivial
      · rw [he]
        trivial
      · by_cases hexp : isBusinessExpired v.expireAt s.process.wall = true
        · rw [he, if_pos hexp]
          trivial
        · rw [he, if_neg hexp]
          exact hl
    | setLocal v => exact hpc
    | _ => trivial

/-- What was written for the mapping is read back as the mapping. -/
theorem Genuine.decoded (h : Genuine s) {v v' : EntryView} (hm : mapping s = some v)
    (hdec : decodeRedisValue (encodeRedisValue v) = some v') : mapping s = some v' := by
  rw [decode_encode (h.expiry v hm)] at hdec
  cases hdec
  exact hm

/-- The request that moves carries what is stored, and so do the others. -/
theorem Genuine.held_move (h : Genuine s) {t : State cfg} {u : Nat} {q : Request} {pc : Pc}
    (ht : t.requests = s.requests) (hm : ∀ v, mapping s = some v → mapping t = some v)
    (hpc : pc.Holds (mapping s)) : ∀ q' ∈ (t.move u q pc).requests, q'.pc.Holds (mapping t) := by
  intro q' hmem
  rw [State.move, ht] at hmem
  rcases List.mem_or_eq_of_mem_set hmem with hold | rfl
  · exact (h.held q' hold).mono hm
  · exact hpc.mono hm

theorem holds_landed (flights : SingleFlight.State) (u : Nat) (m : Option EntryView) :
    (landed flights u).Holds m := by
  unfold landed
  split <;> trivial

/-- The frame of `Genuine`: it is about the stores and what requests carry. -/
theorem Genuine.of_eq (h : Genuine s) (hdb : s'.process.db = s.process.db)
    (hsh : s'.process.shards = s.process.shards) (hr : s'.process.redis = s.process.redis)
    (hc : s'.creation = s.creation) (hq : ∀ q ∈ s'.requests, q.pc.Holds (mapping s)) :
    Genuine s' := by
  have hm : mapping s' = mapping s := by rw [mapping, mapping, hdb]
  refine ⟨?_, ?_, ?_, ?_, ?_⟩
  · rw [hm]
    exact h.expiry
  · rw [hm, hsh]
    exact h.positive
  · rw [hm, hr]
    exact h.redis
  · rw [hm]
    exact hq
  · rw [hm, hc]
    exact h.creation

theorem Genuine.step (h : Genuine s) (hs : Step s l s') : Genuine s' := by
  have hm : ∀ v, mapping s = some v → mapping s' = some v := fun v => mapping_step hs
  cases hs with
  | arrive hfl =>
    refine h.of_eq rfl rfl rfl rfl ?_
    intro q hmem
    rcases List.mem_append.mp hmem with hmem | hmem
    · exact h.held q hmem
    · cases List.mem_singleton.mp hmem
      trivial
  | @act u env q hq hpc =>
    have hholds := h.held q (List.mem_of_getElem? hq)
    have hmap : mapping ({ s with process := (act s.process cfg.code env q.pc).1 }.move u q
        (act s.process cfg.code env q.pc).2) = mapping s := by
      simp only [mapping, State.move, act_db_wall.1]
    refine ⟨?_, ?_, ?_, ?_, ?_⟩
    · rw [hmap]
      exact h.expiry
    · rw [hmap]
      rcases @act_shards cfg s.process env q.pc with he | ⟨op, hop, hput, -⟩
      · simp only [State.move, he]
        exact h.positive
      · refine h.positive.step op hop (fun _ _ _ hp => hp) ?_ (fun _ _ _ => trivial)
          (fun _ _ _ => trivial)
        intro c v t draw he _
        rcases hput c v t draw he with hp | hp
        · rw [hp] at hholds
          exact hholds
        · rw [hp] at hholds
          exact hholds
    · intro raw v hraw hdec
      rw [hmap]
      simp only [State.move] at hraw
      rcases @act_redis cfg s.process env q.pc with he | he | ⟨w, hw, he⟩
      · exact h.redis raw v (he ▸ hraw) hdec
      · rw [he] at hraw
        cases hraw
      · rw [he] at hraw
        cases hraw
        rw [hw] at hholds
        exact h.decoded hholds hdec
    · exact h.held_move rfl hm (h.holds_act hholds)
    · rw [hmap]
      exact h.creation
  | fly hq hpc hfl => exact h.of_eq rfl rfl rfl rfl (h.held_move rfl hm (holds_landed _ _ _))
  | deliver hq hpc hfl => exact h.of_eq rfl rfl rfl rfl (h.held_move rfl hm trivial)
  | wake hfl => exact h.of_eq rfl rfl rfl rfl h.held
  | @insert id longUrl expireAt db hidle hacc hins =>
    have hnone : mapping s = none := lookup_of_insert hins matches_self
    have hsome := mapping_insert hacc hins
    refine ⟨?_, ?_, ?_, ?_, ?_⟩
    · intro v hv
      rw [mapping, hsome] at hv
      cases hv
      rcases hacc.expiry with he | hvalid
      · simp [he]
      · exact validExpireAt_noLf hvalid
    · exact h.positive.imp (fun c v hp hc => hm v (hp hc)) (fun _ _ => trivial)
    · exact fun raw v hraw hdec => hm v (h.redis raw v hraw hdec)
    · exact fun q hq => (h.held q hq).mono hm
    · rintro v (hv | hv)
      · cases hv
        exact hsome
      · cases hv
  | @cache v env hc =>
    have hv := h.creation v (Or.inl hc)
    refine ⟨h.expiry, ?_, h.redis, h.held, ?_⟩
    · refine h.positive.step (.putPositive cfg.code v s.process.now env.draw) rfl
        (fun _ _ _ hp => hp) ?_ (fun _ _ _ => trivial) (fun _ _ _ => trivial)
      intro c w t draw he _
      cases he
      exact hv
    · rintro w (hw | hw)
      · cases hw
      · cases hw
        exact hv
  | @create v env hc =>
    have hv := h.creation v (Or.inr hc)
    have hmap : mapping { s with
        process := s.process.writeRedis (cacheKey cfg.code) (some (encodeRedisValue v)) env.write
        creation := .created } = mapping s := by
      simp [mapping]
    refine ⟨?_, ?_, ?_, ?_, ?_⟩
    · rw [hmap]
      exact h.expiry
    · rw [hmap]
      simpa using h.positive
    · intro raw w hraw hdec
      rw [hmap]
      rcases Process.writeRedis_redis s.process (cacheKey cfg.code) (some (encodeRedisValue v))
          env.write with he | he
      · rw [he] at hraw
        cases hraw
        exact h.decoded hv hdec
      · exact h.redis raw w (he ▸ hraw) hdec
    · rw [hmap]
      exact h.held
    · rintro w (hw | hw) <;> cases hw
  | tick hle => exact h.of_eq rfl rfl rfl rfl h.held
  | @other op hne =>
    refine ⟨h.expiry, ?_, h.redis, h.held, h.creation⟩
    refine h.positive.step op rfl (fun _ _ _ hp => hp) ?_ (fun _ _ _ => trivial)
      (fun _ _ _ => trivial)
    intro c v t draw he hc
    subst he
    exact absurd hc hne
  | @redis key value hv =>
    refine ⟨h.expiry, h.positive, ?_, h.held, h.creation⟩
    intro raw v hraw hdec
    by_cases hk : cacheKey cfg.code = key
    · have hvalue : value = some raw := by
        rw [← hk] at hraw
        simpa [Process.setRedis] using hraw
      have hnone := hv hk.symm
      rw [hvalue] at hnone
      rw [Option.bind_some, hdec] at hnone
      cases hnone
    · have hraw : s.process.redis (cacheKey cfg.code) = some raw := by
        simpa [Process.setRedis, Function.update_of_ne hk] using hraw
      exact h.redis raw v hraw hdec
  | available => exact h.of_eq rfl rfl rfl rfl h.held

/-- A loader settles for a hit at a read of the live mapping. -/
theorem Genuine.live_of_settles (h : Genuine s) (hset : Settles .hit s l) :
    Live s s.process.wall := by
  obtain ⟨u, env, q, loader, -, hq, hpc, hnot, hk⟩ := hset
  have hholds := h.held q (List.mem_of_getElem? hq)
  rw [hpc] at hholds
  cases loader with
  | interpret raw =>
    simp only [Loader.step, interpretRedisPayload] at hk
    cases hdec : decodeRedisValue raw with
    | none =>
      rw [hdec] at hk
      cases hk
    | some v =>
      simp only [hdec] at hk
      by_cases hexp : isBusinessExpired v.expireAt s.process.wall = true
      · rw [if_pos hexp] at hk
        cases hk
      · exact live_of_mapping (hholds v hdec) (by simpa using hexp)
  | mysql =>
    rcases @findLongUrl_cases cfg.process.coll cfg.process.router s.process.db env.mysql cfg.code
        s.process.wall env.find with ⟨error, he⟩ | ⟨hl, he⟩ | ⟨v, hl, he⟩
    · rw [Loader.step, he] at hk
      cases hk
    · rw [Loader.step, he] at hk
      cases hk
    · by_cases hexp : isBusinessExpired v.expireAt s.process.wall = true
      · rw [Loader.step, he, if_pos hexp] at hk
        cases hk
      · exact live_of_mapping hl (by simpa using hexp)
  | budget =>
    simp only [Loader.step] at hk
    split at hk <;> simp [Loader.kind, SingleFlight.overload] at hk
  | get =>
    simp only [Loader.step] at hk
    repeat' split at hk
    all_goals cases hk
  | putPositive v => exact absurd rfl hnot
  | setLocal v => exact absurd rfl hnot
  | setRedis v => exact absurd rfl hnot
  | loaded r => exact absurd hk hnot
  | _ => cases hk

/-- The local cache redirects only to the live mapping. -/
theorem Genuine.live_of_local (h : Genuine s) {env : Env} {o : Outcome}
    (ho : (act s.process cfg.code env .start).2 = .answered o) (hshow : shows o = some .hit) :
    Live s s.process.wall := by
  have hstatus := h.positive.get cfg.code s.process.now s.process.wall
  simp only [act] at ho
  split at ho
  · cases ho
    cases hshow
  · cases hget : LocalCache.get cfg.process.cache s.process.shards cfg.code s.process.now
        s.process.wall with
    | hit v =>
      rw [hget] at hstatus
      exact live_of_mapping (hstatus.1 rfl) hstatus.2
    | expired v => rw [hget] at ho; cases ho
    | miss => rw [hget] at ho; cases ho
    | negHit => rw [hget] at ho; cases ho; cases hshow

/-- What holds as long as the steps are `Prompt`. -/
structure Punctual (s : State cfg) : Prop where
  flights : SingleFlight.State.Inv cfg.flights s.flights
  aligned : s.flights.threads.length = s.requests.length
  genuine : Genuine s
  born : ∀ q ∈ s.requests, q.born ≤ s.process.wall
  spread : Spread .hit (fun born _ => Live s born) s

theorem punctual_start {p : Process cfg.process} (hp : Implied p) :
    Punctual ({ process := p } : State cfg) where
  flights := SingleFlight.State.inv_init _
  aligned := rfl
  genuine := genuine_start hp
  born q hq := by cases hq
  spread := by
    constructor
    · intro u q c hq
      cases hq
    · intro q hq
      cases hq

/-- The wall clock does not go back. -/
theorem wall_step (hs : Step s l s') : s.process.wall ≤ s'.process.wall := by
  cases hs with
  | act hq hpc =>
    simp only [State.move, act_db_wall.2]
    exact List.le_refl _
  | create hc =>
    simp only [Process.writeRedis_wall]
    exact List.le_refl _
  | tick hle => exact hle
  | _ => exact List.le_refl _

theorem Punctual.live_of_wall (h : Punctual s) {q : Request} (hq : q ∈ s.requests)
    (hl : Live s s.process.wall) : Live s q.born := by
  obtain ⟨v, hm, hexp⟩ := (Option.any_eq_true _ _).mp hl
  exact live_of_mapping hm (not_expired_of_le (h.born q hq) (by simpa using hexp))

theorem Punctual.step (h : Punctual s) (hp : Prompt s l) (hs : Step s l s') : Punctual s' where
  flights := inv_flights_step h.flights hs
  aligned := aligned_step h.aligned hs
  genuine := h.genuine.step hs
  born := by
    intro q' hmem
    obtain ⟨u, hq'⟩ := List.getElem?_of_mem hmem
    refine List.le_trans ?_ (wall_step hs)
    rcases request_of_step hs hq' with ⟨q, hq, he, -⟩ | ⟨-, he, -⟩
    · rw [he]
      exact h.born q (List.mem_of_getElem? hq)
    · rw [he]
      exact List.le_refl _
  spread := by
    refine h.spread.step (Or.inl rfl) h.flights h.aligned hs (fun _ _ hl => hl.step hs) ?_ ?_ ?_
    · intro hset q hq
      exact h.live_of_wall hq (h.genuine.live_of_settles hset)
    · intro u env q o hl hq hpc ho hshow
      exact h.live_of_wall (List.mem_of_getElem? hq) (h.genuine.live_of_local ho hshow)
    · intro u env q c hl hq hpc hc hset
      subst hl
      exact hp q hq hpc c hc hset

/-- **An expired mapping is not redirected to.** From every state whose caches follow from the
tables, in every interleaving whose steps are all `Prompt`: no request that arrived at or after the
`expire_at` of the mapping is answered 302. -/
theorem expired_not_redirected (cfg : Config) (p : Process cfg.process) (hp : Implied p)
    (ls : List Label) (s : State cfg)
    (hprompt : Machine.Along State.step Prompt { process := p } ls)
    (hr : Machine.run State.step { process := p } ls = some s) (v : EntryView)
    (hv : mapping s = some v) (q : Request) (hq : q ∈ s.requests)
    (hlate : v.expireAt ≠ [] ∧ v.expireAt ≤ q.born) (o : Outcome) (ho : q.pc = .answered o) :
    o.statusCode ≠ 302 := by
  have h := Machine.run_invariant State.step
    (fun s l s' h hc hs => Punctual.step h hc (State.step_cases hs)) (punctual_start hp) hprompt hr
  intro hcode
  have hshow : shows o = some .hit := by
    cases o <;> first | rfl | simp [Outcome.statusCode] at hcode
  obtain ⟨w, hw, hexp⟩ := (Option.any_eq_true _ _).mp (h.spread.told q hq o ho hshow)
  rw [hv] at hw
  cases hw
  simp [isBusinessExpired, hlate.1, hlate.2] at hexp

/-- The last second of a mapping and the one it expires in. -/
def lastSecond : Bytes := ascii "2030-01-01 00:00:04"

def deadline : Bytes := ascii "2030-01-01 00:00:05"

/-- A code is created; when the local cache has forgotten it, one request reads it while another
waits. A third arrives at `deadline`, after the flight is over. -/
def inTime : List Label :=
  creates deadline ++ .tick 1000000000000 lastSecond :: .arrive :: goes 0 6 ++ .arrive :: goes 1 3 ++
    goes 0 7 ++ .tick 1000000000000 deadline :: .arrive :: goes 2 3

theorem expired_not_redirected_in_time : ∃ s,
    Machine.run State.step (calm []) inTime = some s ∧ mapping s = some ⟨ascii "http://x.org/", deadline⟩ ∧
      (s.requests[2]?).map Request.pc = some (.answered .expired) ∧
        ∀ q ∈ s.requests, deadline ≤ q.born → ∀ o, q.pc = .answered o → o.statusCode ≠ 302 := by
  have hrun : (Machine.run State.step (calm []) inTime).map (fun s =>
      (mapping s, (s.requests[2]?).map Request.pc)) =
        some (some ⟨ascii "http://x.org/", deadline⟩, some (.answered .expired)) := by
    decide +kernel
  have hprompt : Machine.Along State.step Prompt (calm []) inTime := by
    decide +kernel
  obtain ⟨s, hs, hpc⟩ := Option.map_eq_some_iff.mp hrun
  obtain ⟨hm, hpc⟩ := Prod.mk.inj hpc
  exact ⟨s, hs, hm, hpc, fun q hq hlate o ho => expired_not_redirected oneCode _
    (implied_start 0 [] true) _ s hprompt hs _ hm q hq ⟨by decide, hlate⟩ o ho⟩

/-- A loader reads the mapping in its last second. Who arrives at `deadline` misses the local cache,
joins the flight and is redirected. -/
theorem expired_redirected : ¬ ∀ (cfg : Config) (p : Process cfg.process) (ls : List Label)
    (s : State cfg), Implied p → Machine.run State.step { process := p } ls = some s →
      ∀ v, mapping s = some v → ∀ q ∈ s.requests, v.expireAt ≠ [] ∧ v.expireAt ≤ q.born →
        ∀ o, q.pc = .answered o → o.statusCode ≠ 302 := by
  intro hall
  have hrun : (Machine.run State.step (calm []) (creates deadline ++
      .tick 1000000000000 lastSecond :: .arrive :: goes 0 6 ++ .tick 1000000000000 deadline ::
        .arrive :: goes 1 3 ++ goes 0 4 ++ goes 1 5)).map (fun s =>
      (mapping s, (s.requests[1]?).map fun q => (q.born, q.pc))) =
        some (some ⟨ascii "http://x.org/", deadline⟩,
          some (deadline, .answered (.found (ascii "http://x.org/")))) := by
    decide +kernel
  obtain ⟨s, hs, he⟩ := Option.map_eq_some_iff.mp hrun
  obtain ⟨hm, he⟩ := Prod.mk.inj he
  obtain ⟨q, hq, he⟩ := Option.map_eq_some_iff.mp he
  obtain ⟨hborn, hpc⟩ := Prod.mk.inj he
  refine hall oneCode _ _ s (implied_start 0 [] true) hs _ hm q (List.mem_of_getElem? hq) ?_ _ hpc rfl
  rw [hborn]
  exact ⟨by decide, List.le_refl _⟩

end Race
end Handler
end UrlShortener
