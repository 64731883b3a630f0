import UrlShortener.ShortUrl.SingleFlight

/-!
# UrlShortener.Handler.OriginBudget

`origin_lookup`, run by any number of threads while Redis comes and goes, and the budget of MySQL
lookups it keeps while Redis is down (`try_acquire_origin`, `OriginBudgetGuard`).

A lookup looks at `redis_available_` three times: when it asks for a slot, when it decides whether
it may go on without one, and inside `get_redis`. The budget holds as long as no lookup without a
slot is told `Unavailable` by `get_redis` (`Covered`). Otherwise lookups that passed the first two
looks while Redis was up go on to MySQL together, and none of them is counted.

What a lookup does to the two caches is not modelled here; `cache.set` and `cache.erase` can mark
Redis as down, which may happen at any time anyway.
-/

namespace UrlShortener
namespace OriginBudget

open SingleFlight (SingleFlightResult Kind overload)

/-- `enabled_`, whether there is a client `redis_`, and `origin_redirect_max_`. -/
structure Config where
  enabled : Bool
  client : Bool
  originRedirectMax : Int
  originRedirectMax_pos : 0 < originRedirectMax

/-- The caps as `init` sets them. -/
def configure (enabled client : Bool) (originRedirectMaxConcurrent : Int) : Config where
  enabled
  client
  originRedirectMax := max 1 originRedirectMaxConcurrent
  originRedirectMax_pos := by omega

/-- What the network answers to the `GET`, decoded by `interpret_redis_payload`. -/
inductive RedisReply where
  | hit (longUrl expireAt : Bytes)
  | expired (longUrl expireAt : Bytes)
  | miss
  /-- `sw::redis::Error`. -/
  | error

/-- How the MySQL section ends. -/
inductive FindReply where
  | noConnection
  | ok (longUrl expireAt : Bytes)
  | expired (longUrl expireAt : Bytes)
  | notFound
  | error (dbError : Bytes)

def FindReply.result : FindReply → SingleFlightResult
  | .noConnection => { kind := .error, error := ascii "mysql connection unavailable" }
  | .ok longUrl expireAt => { kind := .hit, longUrl, expireAt }
  | .expired longUrl expireAt => { kind := .expired, longUrl, expireAt }
  | .notFound => { kind := .notFound }
  | .error dbError => { kind := .error, error := dbError }

def exhausted : SingleFlightResult := overload (ascii "redirect origin budget exhausted")

/-- Where a lookup stands; `held` is what its guard says. -/
inductive Pc where
  /-- In `try_acquire_origin`, before it looks at `redis_available_`. -/
  | start
  /-- Before `inflight.load()`. -/
  | load
  /-- At the head of the loop, with `cur`. -/
  | exchange (cur : Int)
  /-- Before `redis_available()`. -/
  | acquired (held : Bool)
  /-- In `get_redis`, before `redis_snapshot`. -/
  | snapshot (held : Bool)
  /-- Waits for the answer to `GET`. -/
  | asking (held : Bool)
  /-- In the MySQL section; `unavailable` if that is what `get_redis` said. -/
  | mysql (held unavailable : Bool)
  /-- Has its result, and its guard not yet released. -/
  | leaving (held : Bool) (out : SingleFlightResult)
  | returned (out : SingleFlightResult)
deriving DecidableEq

structure State where
  redisAvailable : Bool
  originRedirectInflight : Int := 0
  threads : List Pc := []
  /-- The lookups that found Redis down and no slot. -/
  refused : List Nat := []

inductive Label where
  | lookup
  /-- Lookup `t` goes on. -/
  | step (t : Nat)
  /-- `compare_exchange_weak` fails for no reason. -/
  | spurious (t : Nat)
  | redis (t : Nat) (r : RedisReply)
  | mysql (t : Nat) (r : FindReply)
  | markRedisUnavailable
  | restoreRedisAvailable

namespace State

def go (s : State) (t : Nat) (p : Pc) : State := { s with threads := s.threads.set t p }

/-- One round of the loop of `try_acquire_origin`. -/
def exchange (cfg : Config) (s : State) (t : Nat) (cur : Int) : State :=
  if cur < cfg.originRedirectMax then
    if s.originRedirectInflight = cur then
      { s with originRedirectInflight := cur + 1 }.go t (.acquired true)
    else s.go t (.exchange s.originRedirectInflight)
  else s.go t (.acquired false)

def advance (cfg : Config) (s : State) (t : Nat) : Pc → Option State
  | .start => some (s.go t (if s.redisAvailable then .acquired false else .load))
  | .load => some (s.go t (.exchange s.originRedirectInflight))
  | .exchange cur => some (s.exchange cfg t cur)
  | .acquired held =>
    if !s.redisAvailable && !held then
      some ({ s with refused := s.refused ++ [t] }.go t (.leaving false exhausted))
    else some (s.go t (.snapshot held))
  | .snapshot held =>
    if cfg.enabled && s.redisAvailable && cfg.client then some (s.go t (.asking held))
    else some (s.go t (.mysql held true))
  | .leaving held out =>
    some ({ s with originRedirectInflight :=
      if held then s.originRedirectInflight - 1 else s.originRedirectInflight }.go t
        (.returned out))
  | _ => none

def step (cfg : Config) (s : State) : Label → Option State
  | .lookup => some { s with threads := s.threads ++ [.start] }
  | .step t => do s.advance cfg t (← s.threads[t]?)
  | .spurious t =>
    match s.threads[t]? with
    | some (.exchange cur) =>
      if cur < cfg.originRedirectMax then some (s.go t (.exchange s.originRedirectInflight))
      else none
    | _ => none
  | .redis t r =>
    match s.threads[t]? with
    | some (.asking held) =>
      match r with
      | .hit longUrl expireAt => some (s.go t (.leaving held { kind := .hit, longUrl, expireAt }))
      | .expired longUrl expireAt =>
        some (s.go t (.leaving held { kind := .expired, longUrl, expireAt }))
      | .miss => some (s.go t (.mysql held false))
      | .error => some ({ s with redisAvailable := false }.go t (.mysql held true))
    | _ => none
  | .mysql t r =>
    match s.threads[t]? with
    | some (.mysql held _) => some (s.go t (.leaving held r.result))
    | _ => none
  | .markRedisUnavailable => some { s with redisAvailable := false }
  -- only the probe does this, and it needs a client
  | .restoreRedisAvailable =>
    if cfg.enabled && cfg.client then some { s with redisAvailable := true } else none

end State

/-! ## The property and its condition -/

/-- A lookup in the MySQL section that `get_redis` told `Unavailable`. -/
def Pc.fallenBack : Pc → Option Unit
  | .mysql _ true => some ()
  | _ => none

structure Capped (cfg : Config) (s : State) : Prop where
  cap : (Threads.count Pc.fallenBack s.threads () : Int) ≤ cfg.originRedirectMax
  refused : ∀ t ∈ s.refused,
    s.threads[t]? = some (.leaving false exhausted) ∨ s.threads[t]? = some (.returned exhausted)

/-- The step does not tell `Unavailable` to a lookup without a slot. -/
def Covered (cfg : Config) (s : State) : Label → Prop
  | .step t => s.threads[t]? = some (.snapshot false) →
      cfg.enabled = true ∧ s.redisAvailable = true ∧ cfg.client = true
  | .redis t .error => s.threads[t]? ≠ some (.asking false)
  | _ => True

instance (cfg : Config) (s : State) : ∀ l, Decidable (Covered cfg s l)
  | .step _ => inferInstanceAs (Decidable (_ → _))
  | .redis _ .error => inferInstanceAs (Decidable (_ ≠ _))
  | .redis _ (.hit _ _) => isTrue trivial
  | .redis _ (.expired _ _) => isTrue trivial
  | .redis _ .miss => isTrue trivial
  | .lookup => isTrue trivial
  | .spurious _ => isTrue trivial
  | .mysql _ _ => isTrue trivial
  | .markRedisUnavailable => isTrue trivial
  | .restoreRedisAvailable => isTrue trivial

/-! ## What a step can do -/

/-- The lookup holds a slot. -/
def Pc.holds : Pc → Option Unit
  | .acquired true => some ()
  | .snapshot true => some ()
  | .asking true => some ()
  | .mysql true _ => some ()
  | .leaving true _ => some ()
  | _ => none

inductive Step (cfg : Config) (s : State) : Label → State → Prop
  | lookup : Step cfg s .lookup { s with threads := s.threads ++ [.start] }
  | redis {l : Label} (b : Bool) : Step cfg s l { s with redisAvailable := b }
  /-- A step that takes no slot, gives none back and does not fall back on MySQL. -/
  | move {l : Label} {t : Nat} {p : Pc} (q : Pc) (ht : s.threads[t]? = some p)
      (hrun : ∀ held out, p ≠ .leaving held out ∧ p ≠ .returned out)
      (hholds : q.holds = p.holds) (hq : q.fallenBack = none) : Step cfg s l (s.go t q)
  | take {t : Nat} {cur : Int} (ht : s.threads[t]? = some (.exchange cur))
      (hcur : s.originRedirectInflight = cur) (hlt : cur < cfg.originRedirectMax) :
      Step cfg s (.step t) ({ s with originRedirectInflight := cur + 1 }.go t (.acquired true))
  | refuse {t : Nat} (ht : s.threads[t]? = some (.acquired false)) :
      Step cfg s (.step t)
        ({ s with refused := s.refused ++ [t] }.go t (.leaving false exhausted))
  | fallBack {l : Label} {t : Nat} {p : Pc} {held : Bool} (b : Bool) (ht : s.threads[t]? = some p)
      (hp : p = .snapshot held ∨ p = .asking held) (hheld : Covered cfg s l → held = true) :
      Step cfg s l ({ s with redisAvailable := b }.go t (.mysql held true))
  | release {t : Nat} {held : Bool} {out : SingleFlightResult}
      (ht : s.threads[t]? = some (.leaving held out)) :
      Step cfg s (.step t) ({ s with originRedirectInflight :=
        if held then s.originRedirectInflight - 1 else s.originRedirectInflight }.go t
          (.returned out))

variable {cfg : Config} {s s' : State}

theorem advance_cases {t : Nat} {p : Pc} (ht : s.threads[t]? = some p)
    (h : s.advance cfg t p = some s') : Step cfg s (.step t) s' := by
  cases p with
  | start =>
    cases h
    refine .move _ ht (by simp) ?_ ?_ <;> split <;> rfl
  | load =>
    cases h
    exact .move _ ht (by simp) rfl rfl
  | exchange cur =>
    cases h
    unfold State.exchange
    split
    · rename_i hlt
      split
      · rename_i hcur
        exact .take ht hcur hlt
      · exact .move _ ht (by simp) rfl rfl
    · exact .move _ ht (by simp) rfl rfl
  | acquired held =>
    simp only [State.advance] at h
    split at h
    · rename_i hc
      cases h
      simp only [Bool.and_eq_true, Bool.not_eq_true'] at hc
      obtain ⟨-, rfl⟩ := hc
      exact .refuse ht
    · cases h
      exact .move _ ht (by simp) (by cases held <;> rfl) rfl
  | snapshot held =>
    simp only [State.advance] at h
    split at h
    · cases h
      exact .move _ ht (by simp) (by cases held <;> rfl) rfl
    · rename_i hc
      cases h
      refine .fallBack s.redisAvailable ht (Or.inl rfl) ?_
      intro hcov
      cases held with
      | true => rfl
      | false => exact absurd (hcov ht) (by simpa [and_assoc] using hc)
  | leaving held out =>
    cases h
    exact .release ht
  | asking held => cases h
  | mysql held unavailable => cases h
  | returned out => cases h

theorem step_cases {l : Label} (h : s.step cfg l = some s') : Step cfg s l s' := by
  cases l with
  | lookup => cases h; exact .lookup
  | step t =>
    obtain ⟨p, ht, h⟩ := Option.bind_eq_some_iff.mp h
    exact advance_cases ht h
  | spurious t =>
    simp only [State.step] at h
    split at h
    · rename_i ht
      split at h
      · cases h
        exact .move _ ht (by simp) rfl rfl
      · cases h
    · cases h
  | redis t r =>
    simp only [State.step] at h
    split at h
    · rename_i held ht
      cases r with
      | hit longUrl expireAt =>
        cases h
        exact .move _ ht (by simp) (by cases held <;> rfl) rfl
      | expired longUrl expireAt =>
        cases h
        exact .move _ ht (by simp) (by cases held <;> rfl) rfl
      | miss =>
        cases h
        exact .move _ ht (by simp) (by cases held <;> rfl) rfl
      | error =>
        cases h
        refine .fallBack false ht (Or.inr rfl) ?_
        intro hcov
        cases held with
        | true => rfl
        | false => exact absurd ht hcov
    · cases h
  | mysql t r =>
    simp only [State.step] at h
    split at h
    · rename_i held u ht
      cases h
      exact .move _ ht (by simp) (by cases held <;> rfl) rfl
    · cases h
  | markRedisUnavailable => cases h; exact .redis false
  | restoreRedisAvailable =>
    simp only [State.step] at h
    split at h
    · cases h
      exact .redis true
    · cases h

/-! ## The invariant -/

structure Inv (cfg : Config) (s : State) : Prop where
  inflight_eq : s.originRedirectInflight = Threads.count Pc.holds s.threads ()
  inflight_le : s.originRedirectInflight ≤ cfg.originRedirectMax
  covered : ∀ p ∈ s.threads, p.fallenBack = some () → p.holds = some ()
  refused : ∀ t ∈ s.refused,
    s.threads[t]? = some (.leaving false exhausted) ∨ s.threads[t]? = some (.returned exhausted)

theorem inv_init (available : Bool) : Inv cfg { redisAvailable := available } where
  inflight_eq := rfl
  inflight_le := cfg.originRedirectMax_pos.le
  covered p h := by cases h
  refused t h := by cases h

theorem Inv.capped (h : Inv cfg s) : Capped cfg s where
  cap := by
    have hle : Threads.count Pc.fallenBack s.threads () ≤ Threads.count Pc.holds s.threads () := by
      refine List.countP_mono_left fun p hp hf => ?_
      exact decide_eq_true (h.covered p hp (of_decide_eq_true hf))
    have heq := h.inflight_eq
    have hmax := h.inflight_le
    omega
  refused := h.refused

theorem covered_set {t : Nat} {q : Pc} (h : ∀ p ∈ s.threads, p.fallenBack = some () → p.holds = some ())
    (hq : q.fallenBack = some () → q.holds = some ()) :
    ∀ p ∈ s.threads.set t q, p.fallenBack = some () → p.holds = some () := by
  intro p hp
  rcases List.mem_or_eq_of_mem_set hp with hp | rfl
  · exact h p hp
  · exact hq

/-- A refused lookup is not the one that takes a step before its end. -/
theorem Inv.refused_set {t : Nat} {p q : Pc} (h : Inv cfg s) (ht : s.threads[t]? = some p)
    (hrun : ∀ held out, p ≠ .leaving held out ∧ p ≠ .returned out) :
    ∀ u ∈ s.refused, (s.threads.set t q)[u]? = some (.leaving false exhausted) ∨
      (s.threads.set t q)[u]? = some (.returned exhausted) := by
  intro u hu
  have hut : u ≠ t := by
    rintro rfl
    rcases h.refused u hu with hr | hr <;> rw [ht] at hr
    · exact (hrun false exhausted).1 (Option.some.inj hr)
    · exact (hrun false exhausted).2 (Option.some.inj hr)
  rw [Threads.getElem?_set_ne hut]
  exact h.refused u hu

theorem Inv.release {t : Nat} {held : Bool} {out : SingleFlightResult} (h : Inv cfg s)
    (ht : s.threads[t]? = some (.leaving held out)) :
    Inv cfg ({ s with originRedirectInflight :=
      if held then s.originRedirectInflight - 1 else s.originRedirectInflight }.go t
        (.returned out)) := by
  have hcount := Threads.count_set (f := Pc.holds) (x := ()) (q := .returned out) ht
  have heq := h.inflight_eq
  have hmax := h.inflight_le
  refine ⟨?_, ?_, covered_set h.covered (fun hf => by cases hf), ?_⟩
  · simp only [State.go]
    cases held <;> simp [Pc.holds] at hcount ⊢ <;> omega
  · simp only [State.go]
    split <;> omega
  · intro u hu
    by_cases hut : u = t
    · subst hut
      rcases h.refused u hu with hr | hr <;> rw [ht] at hr <;> cases hr
      exact Or.inr (Threads.getElem?_set_self ht)
    · simp only [State.go, Threads.getElem?_set_ne hut]
      exact h.refused u hu

theorem Inv.step {l : Label} (h : Inv cfg s) (hcov : Covered cfg s l)
    (hs : s.step cfg l = some s') : Inv cfg s' := by
  have heq := h.inflight_eq
  have hmax := h.inflight_le
  cases step_cases hs with
  | lookup =>
    refine ⟨?_, hmax, ?_, ?_⟩
    · rw [Threads.count_append_of_none rfl]
      exact heq
    · intro p hp
      rcases List.mem_append.mp hp with hp | hp
      · exact h.covered p hp
      · rw [List.mem_singleton.mp hp]
        exact fun hf => by cases hf
    · intro t ht
      rcases h.refused t ht with hr | hr
      · exact Or.inl (by rw [List.getElem?_append_left (Threads.lt_of_getElem? hr)]; exact hr)
      · exact Or.inr (by rw [List.getElem?_append_left (Threads.lt_of_getElem? hr)]; exact hr)
  | redis b => exact ⟨heq, hmax, h.covered, h.refused⟩
  | move q ht hrun hholds hq =>
    refine ⟨?_, hmax, covered_set h.covered (fun hf => by rw [hq] at hf; cases hf),
      h.refused_set ht hrun⟩
    simp only [State.go, Threads.count_set_of_eq ht hholds]
    exact heq
  | take ht hcur hlt =>
    have hcount := Threads.count_set (f := Pc.holds) (x := ()) (q := .acquired true) ht
    simp [Pc.holds] at hcount
    refine ⟨?_, ?_, covered_set h.covered (fun hf => by cases hf), h.refused_set ht (by simp)⟩
    · simp only [State.go]
      omega
    · simp only [State.go]
      omega
  | refuse ht =>
    refine ⟨?_, hmax, covered_set h.covered (fun hf => by cases hf), ?_⟩
    · simp only [State.go]
      rw [Threads.count_set_of_eq ht (by rfl)]
      exact heq
    · intro u hu
      rcases List.mem_append.mp hu with hu | hu
      · exact h.refused_set ht (by simp) u hu
      · rw [List.mem_singleton.mp hu]
        exact Or.inl (Threads.getElem?_set_self ht)
  | fallBack b ht hp hheld =>
    rename_i t p held
    have hrun : ∀ held out, p ≠ .leaving held out ∧ p ≠ .returned out := by
      intro held out
      rcases hp with rfl | rfl <;> simp
    cases hheld hcov
    refine ⟨?_, hmax, covered_set h.covered (fun _ => rfl), h.refused_set ht hrun⟩
    simp only [State.go]
    rw [Threads.count_set_of_eq ht (by rcases hp with rfl | rfl <;> rfl)]
    exact heq
  | release ht => exact h.release ht

/-- **The budget of an outage.** In every run in which no lookup without a slot is told
`Unavailable`, at most `origin_redirect_max_` lookups are in MySQL for want of Redis, and the
lookups that found Redis down and no slot end with `Overload`. -/
theorem outage_capped (cfg : Config) (available : Bool) (ls : List Label) (s : State)
    (hcov : Machine.Along (State.step cfg) (Covered cfg) { redisAvailable := available } ls)
    (hr : Machine.run (State.step cfg) { redisAvailable := available } ls = some s) :
    Capped cfg s :=
  (Machine.run_invariant _ (fun _ _ _ h hok hs => h.step hok hs) (inv_init available) hcov hr).capped

/-- Redis is down: the first lookup takes the only slot, the second ends with `Overload`. -/
def steadyOutage : List Label :=
  [.lookup, .lookup, .step 0, .step 0, .step 0, .step 1, .step 1, .step 1, .step 0, .step 0,
    .step 1, .step 1]

theorem outage_capped_steady : ∃ s,
    Machine.run (State.step (configure true true 1)) { redisAvailable := false } steadyOutage
      = some s ∧
    s.threads = [.mysql true true, .returned exhausted] ∧ Capped (configure true true 1) s :=
  ⟨_, rfl, rfl, outage_capped (configure true true 1) false steadyOutage _ (by decide +kernel) rfl⟩

/-- Redis fails while two lookups wait for its answer. -/
def failsTogether : List Label :=
  [.lookup, .lookup, .step 0, .step 1, .step 0, .step 1, .step 0, .step 1, .redis 0 .error,
    .redis 1 .error]

/-- **Lookups that began while Redis was up are not counted.** -/
theorem outage_overruns : ∃ s,
    Machine.run (State.step (configure true true 1)) { redisAvailable := true } failsTogether
      = some s ∧ ¬ Capped (configure true true 1) s := by
  refine ⟨_, rfl, ?_⟩
  intro h
  have hcap := h.cap
  revert hcap
  decide

end OriginBudget
end UrlShortener
