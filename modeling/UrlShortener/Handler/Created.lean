import UrlShortener.Handler.Race

/-!
# UrlShortener.Handler.Created

Whether a code that has been created can still be answered 404. A loader that found no row puts the
code into the negative cache later, and `put_negative` throws out the positive entry that `shorten`
has made in between. `Current` names the steps that must not happen for this: the late
`put_negative`, and joining such a loader's flight after the 201.
-/

namespace UrlShortener
namespace Handler
namespace Race

open LocalCache (EntryView Known isBusinessExpired)
open ShortUrl
open SingleFlight (SingleFlightResult Kind)
open Threads

variable {cfg : Config} {s s' : State cfg} {l : Label}

/-- The request arrived after the 201 and before `expire_at`. -/
def Due (s : State cfg) (born : Bytes) (after : Bool) : Prop :=
  after = true ∧ ∀ v ∈ mapping s, isBusinessExpired v.expireAt born = false

instance (s : State cfg) (born : Bytes) (after : Bool) : Decidable (Due s born after) :=
  inferInstanceAs (Decidable (_ ∧ _))

/-- No loader puts the code into the negative cache once `set` has put it into the positive one, and
no request that is due joins a flight whose loader has found no row. -/
def Current (s : State cfg) : Label → Prop
  | .step u _ => ∀ q ∈ s.requests[u]?,
    (q.pc = .loader .putNegative → s.creation.pending = true) ∧
      (q.pc = .flight → Due s q.born q.after →
        ∀ c ∈ s.flights.joins cfg.flights u, ¬ Settled .notFound s c)
  | _ => True

instance (s : State cfg) : ∀ l, Decidable (Current s l)
  | .step _ _ => inferInstanceAs (Decidable (∀ q ∈ _, _))
  | .arrive | .wake _ | .insert _ _ _ | .create _ | .tick _ _ | .other _ | .redis _ _
  | .available _ => isTrue trivial

/-- What holds as long as the steps are `Current`. -/
structure Visible (s : State cfg) : Prop where
  flights : SingleFlight.State.Inv cfg.flights s.flights
  aligned : s.flights.threads.length = s.requests.length
  negative : Known (fun _ _ => True) (fun c => c = cfg.code → s.creation.pending = true)
    s.process.shards
  stored : s.creation ≠ .idle → cfg.code ≠ [] ∧ mapping s ≠ none
  after : ∀ q ∈ s.requests, q.after = true → s.creation = .created
  spread : Spread .notFound (fun born after => ¬ Due s born after) s

theorem visible_start {p : Process cfg.process} (hp : Implied p) :
    Visible ({ process := p } : State cfg) where
  flights := SingleFlight.State.inv_init _
  aligned := rfl
  negative := hp.known.imp (fun _ _ _ => trivial) (fun _ _ _ => rfl)
  stored h := absurd rfl h
  after q hq := by cases hq
  spread := by
    constructor
    · intro u q c hq
      cases hq
    · intro q hq
      cases hq

/-- The request that moves, in a step that is `Current`. -/
theorem Current.at {u : Nat} {env : Env} {q : Request} (h : Current s (.step u env))
    (hq : s.requests[u]? = some q) :
    (q.pc = .loader .putNegative → s.creation.pending = true) ∧
      (q.pc = .flight → Due s q.born q.after →
        ∀ c, s.flights.joins cfg.flights u = some c → ¬ Settled .notFound s c) := h q hq

theorem negative_step (h : Known (fun _ _ => True) (fun c => c = cfg.code → s.creation.pending = true)
      s.process.shards) (hs : Step s l s') (hcur : Current s l) :
    Known (fun _ _ => True) (fun c => c = cfg.code → s'.creation.pending = true)
      s'.process.shards := by
  cases hs with
  | @act u env q hq hpc =>
    rcases @act_shards cfg s.process env q.pc with he | ⟨op, hop, -, hneg⟩
    · simp only [State.move, he]
      exact h
    · refine h.step op hop (fun _ _ _ _ => trivial) (fun _ _ _ _ _ => trivial) (fun _ _ hn => hn) ?_
      intro c t he _
      exact (hcur.at hq).1 (hneg c t he)
  | insert hidle hacc hins => exact h.imp (fun _ _ _ => trivial) (fun _ _ _ => rfl)
  | @cache v env hc =>
    refine h.step (.putPositive cfg.code v s.process.now env.draw) rfl (fun _ _ _ _ => trivial)
      (fun _ _ _ _ _ => trivial) ?_ (by simp)
    intro c hw _ he
    exact absurd ⟨rfl, he.symm⟩ hw
  | create hc =>
    simp only [Process.writeRedis_shards]
    refine h.imp (fun _ _ _ => trivial) ?_
    intro c hn he
    have := hn he
    rw [hc] at this
    cases this
  | @other op hne =>
    refine h.step op rfl (fun _ _ _ _ => trivial) (fun _ _ _ _ _ => trivial) (fun _ _ hn => hn) ?_
    intro c t he hc
    subst he
    exact absurd hc hne
  | _ => exact h

/-- A loader settles for "not found" when MySQL has no row. -/
theorem mapping_of_settles_notFound (h : Settles .notFound s l) : mapping s = none := by
  obtain ⟨u, env, q, loader, -, -, -, hnot, hk⟩ := h
  cases loader with
  | mysql =>
    rcases @findLongUrl_cases cfg.process.coll cfg.process.router s.process.db env.mysql cfg.code
        s.process.wall env.find with ⟨error, he⟩ | ⟨hl, -⟩ | ⟨v, hl, he⟩
    · simp [Loader.step, he, Loader.kind] at hk
    · exact hl
    · by_cases hexp : isBusinessExpired v.expireAt s.process.wall = true
      · rw [Loader.step, he, if_pos hexp] at hk
        cases hk
      · rw [Loader.step, he, if_neg hexp] at hk
        cases hk
  | budget =>
    simp only [Loader.step] at hk
    split at hk <;> simp [Loader.kind, SingleFlight.overload] at hk
  | get =>
    simp only [Loader.step] at hk
    repeat' split at hk
    all_goals cases hk
  | interpret raw =>
    simp only [Loader.step] at hk
    split at hk <;> cases hk
  | putNegative => exact absurd rfl hnot
  | loaded r => exact absurd hk hnot
  | _ => cases hk

/-- Only a code cached as missing is "not found" for the local cache. -/
theorem Visible.not_due_of_local (h : Visible s) {env : Env} {o : Outcome} {q : Request}
    (hq : q ∈ s.requests) (ho : (act s.process cfg.code env .start).2 = .answered o)
    (hshow : shows o = some .notFound) : ¬ Due s q.born q.after := by
  rintro ⟨hafter, -⟩
  have hc := h.after q hq hafter
  have hstatus := h.negative.get cfg.code s.process.now s.process.wall
  simp only [act, if_neg (h.stored (by simp [hc])).1] at ho
  cases hget : LocalCache.get cfg.process.cache s.process.shards cfg.code s.process.now
      s.process.wall with
  | hit v =>
    rw [hget] at ho
    cases ho
    simp only [setSafeLocation] at hshow
    split at hshow <;> cases hshow
  | expired v => rw [hget] at ho; cases ho
  | miss => rw [hget] at ho; cases ho
  | negHit =>
    rw [hget] at hstatus
    have hpending : s.creation.pending = true := hstatus rfl
    rw [hc] at hpending
    cases hpending

theorem Visible.step (h : Visible s) (hcur : Current s l) (hs : Step s l s') : Visible s' where
  flights := inv_flights_step h.flights hs
  aligned := aligned_step h.aligned hs
  negative := negative_step h.negative hs hcur
  stored := by
    have kept : s.creation ≠ .idle → cfg.code ≠ [] ∧ mapping s' ≠ none := by
      intro hc
      obtain ⟨hcode, hmap⟩ := h.stored hc
      obtain ⟨v, hv⟩ := Option.ne_none_iff_exists'.mp hmap
      exact ⟨hcode, by rw [mapping_step hs hv]; simp⟩
    cases hs with
    | insert hidle hacc hins =>
      intro _
      exact ⟨hacc.code, by rw [mapping, mapping_insert hacc hins]; simp⟩
    | cache hc => exact fun _ => kept (by simp [hc])
    | create hc => exact fun _ => kept (by simp [hc])
    | _ => exact kept
  after := by
    intro q' hmem ha
    obtain ⟨u, hq'⟩ := List.getElem?_of_mem hmem
    have hold : s.creation = .created := by
      rcases request_of_step hs hq' with ⟨q, hq, -, he⟩ | ⟨-, -, he, -⟩
      · exact h.after q (List.mem_of_getElem? hq) (he ▸ ha)
      · rw [he] at ha
        exact of_decide_eq_true ha
    cases hs with
    | insert hidle => rw [hidle] at hold; cases hold
    | cache hc => rw [hc] at hold; cases hold
    | create hc => rfl
    | _ => exact hold
  spread := by
    refine h.spread.step (Or.inr rfl) h.flights h.aligned hs ?_ ?_ ?_ ?_
    · -- Once a request is not due, it never is.
      rintro born after hnot ⟨ha, hlive⟩
      refine hnot ⟨ha, ?_⟩
      intro v hv
      exact hlive v (mapping_step hs hv)
    · -- No loader settles for "not found" after the 201.
      rintro hset q hq ⟨ha, -⟩
      have hc := h.after q hq ha
      exact (h.stored (by simp [hc])).2 (mapping_of_settles_notFound hset)
    · intro u env q o hl hq hpc ho hshow
      exact h.not_due_of_local (List.mem_of_getElem? hq) ho hshow
    · intro u env q c hl hq hpc hc hset hdue
      subst hl
      exact (hcur.at hq).2 hpc hdue c hc hset

/-- **A created code is not hidden.** From every state whose caches follow from the tables, in every
interleaving whose steps are all `Current`: no request that arrived after the 201 and before
`expire_at` is answered 404. -/
theorem created_not_hidden (cfg : Config) (p : Process cfg.process) (hp : Implied p)
    (ls : List Label) (s : State cfg)
    (hcur : Machine.Along State.step Current { process := p } ls)
    (hr : Machine.run State.step { process := p } ls = some s) (q : Request) (hq : q ∈ s.requests)
    (hdue : Due s q.born q.after) (o : Outcome) (ho : q.pc = .answered o) : o.statusCode ≠ 404 := by
  have h := Machine.run_invariant State.step
    (fun s l s' h hc hs => Visible.step h hc (State.step_cases hs)) (visible_start hp) hcur hr
  intro hcode
  have hshow : shows o = some .notFound := by
    cases o <;> first | rfl | simp [Outcome.statusCode] at hcode
  exact h.spread.told q hq o ho hshow hdue

/-- Whether some request that is due has been answered 404. -/
def hides (s : State cfg) : Bool :=
  s.requests.any fun q => decide (Due s q.born q.after) && decide (q.pc = .answered .notFound)

/-- The local cache of `small`, and room for eight flights. -/
def oneCode : Config :=
  { process := small, flights := SingleFlight.configure 8 8, code := ascii "a" }

def calm (wall : Bytes) : State oneCode := { process := Process.start small 0 wall true }

/-- Request `u` goes on `n` times. -/
def goes (u n : Nat) : List Label := List.replicate n (.step u {})

/-- `shorten`, up to the 201. -/
def creates (expireAt : Bytes) : List Label :=
  [.insert 10 (ascii "http://x.org/") expireAt, .create {}, .create {}]

/-- A request looks the code up and finds nothing, to the end; then the code is created, and asked
for again. -/
theorem created_not_hidden_later : ∃ s,
    Machine.run State.step (calm []) (.arrive :: goes 0 13 ++ creates [] ++ .arrive :: goes 1 1)
        = some s ∧
      (s.requests[0]?).map Request.pc = some (.answered .notFound) ∧
        ∀ q ∈ s.requests, Due s q.born q.after → ∀ o, q.pc = .answered o → o.statusCode ≠ 404 := by
  have hrun : (Machine.run State.step (calm []) (.arrive :: goes 0 13 ++ creates [] ++
      .arrive :: goes 1 1)).map (fun s => (s.requests[0]?).map Request.pc)
        = some (some (.answered .notFound)) := by
    decide +kernel
  have hcur : Machine.Along State.step Current (calm []) (.arrive :: goes 0 13 ++ creates [] ++
      .arrive :: goes 1 1) := by
    decide +kernel
  obtain ⟨s, hs, hpc⟩ := Option.map_eq_some_iff.mp hrun
  exact ⟨s, hs, hpc, fun q hq hdue o ho => created_not_hidden oneCode _ (implied_start 0 [] true) _ s
    hcur hs q hq hdue o ho⟩

/-- A loader finds no row, the code is created, the loader puts it into the negative cache: who asks
after the 201 is told 404. -/
theorem created_hidden : ¬ ∀ (cfg : Config) (p : Process cfg.process) (ls : List Label)
    (s : State cfg), Implied p → Machine.run State.step { process := p } ls = some s →
      ∀ q ∈ s.requests, Due s q.born q.after → ∀ o, q.pc = .answered o → o.statusCode ≠ 404 := by
  intro hall
  have hrun : (Machine.run State.step (calm []) (.arrive :: goes 0 6 ++ creates [] ++
      .step 0 {} :: .arrive :: goes 1 1)).any hides = true := by
    decide +kernel
  obtain ⟨s, hs, hhides⟩ := (Option.any_eq_true _ _).mp hrun
  obtain ⟨q, hq, h⟩ := List.any_eq_true.mp hhides
  simp only [Bool.and_eq_true, decide_eq_true_eq] at h
  exact hall oneCode _ _ s (implied_start 0 [] true) hs q hq h.1 _ h.2 rfl

end Race
end Handler
end UrlShortener
