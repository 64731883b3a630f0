import UrlShortener.Handler.Concurrent
import UrlShortener.Handler.Transparency
import UrlShortener.ShortUrl.FlightSafety

/-!
# UrlShortener.Handler.Race

What concurrent redirects of one code can be told. A loader settles the kind of its result at one
read, and fills the local cache and publishes later; everybody who joins its flight is told the
same. So an answer can be older than the request.

`Spread K A` bounds who may be told a result of kind `K`: whoever refers to a flight whose loader
has settled for `K`, or has been told `K`, satisfies `A`. A step keeps it if `A` holds of everybody
when a loader settles for `K`, of whoever is told `K` by the local cache, and of whoever joins a
flight that is already settled (`Spread.step`). Two uses:

* `K = notFound`: a loader that found no row before the `INSERT` may still put the code into the
  negative cache after `shorten` has put it into the positive one, and hand its 404 to requests
  that arrive after the 201.
* `K = hit`: a loader that read a live mapping may hand its 302 to requests that arrive after
  `expire_at`.
-/

namespace UrlShortener

namespace SingleFlight
namespace State

open Threads

variable {cfg : Config} {s s' : State} {l : Label}

/-- Only a thread that looks its key up can become a leader. -/
theorem loads_of_step (hs : Step cfg s l s') {t c : Nat} (ha : At Pc.loads s'.threads t c) :
    At Pc.loads s.threads t c ∨ l = .step t := by
  have keep : ∀ {u : Nat} {p q : Pc}, s.threads[u]? = some p → q.loads = none →
      At Pc.loads (s.threads.set u q) t c → At Pc.loads s.threads t c := by
    intro u p q hu hq ha
    rcases at_of_at_set hu ha with ha | ⟨-, he⟩
    · exact ha
    · rw [hq] at he
      cases he
  cases hs with
  | call key => exact Or.inl ((at_append_of_none rfl).mp ha)
  | lead ht =>
    rcases at_of_at_set ht ha with ha | ⟨rfl, -⟩
    · exact Or.inl ha
    · exact Or.inr rfl
  | notify ht =>
    exact Or.inl ((at_map (Pc.notify_role (fun _ => rfl) _)).mp
      ((at_set_of_eq (notified_at ht _) (by rfl)).mp ha))
  | enter ht => exact Or.inl (keep ht rfl ha)
  | full ht => exact Or.inl (keep ht rfl ha)
  | join ht => exact Or.inl (keep ht rfl ha)
  | refuse ht => exact Or.inl (keep ht rfl ha)
  | lock ht => exact Or.inl (keep ht rfl ha)
  | share ht => exact Or.inl (keep ht rfl ha)
  | sleep ht => exact Or.inl (keep ht rfl ha)
  | leave ht => exact Or.inl (keep ht rfl ha)
  | drop ht => exact Or.inl (keep ht rfl ha)
  | answer ht => exact Or.inl (keep ht rfl ha)
  | load out ht => exact Or.inl (keep ht rfl ha)
  | hold ht => exact Or.inl (keep ht rfl ha)
  | publish ht => exact Or.inl (keep ht rfl ha)
  | claim ht => exact Or.inl (keep ht rfl ha)
  | remove ht => exact Or.inl (keep ht rfl ha)
  | wake ht => exact Or.inl (keep ht rfl ha)

/-- Only a call adds a thread. -/
theorem threads_length_step (hs : Step cfg s l s') :
    s'.threads.length = s.threads.length ∨
      (∃ key, l = .call key) ∧ s'.threads.length = s.threads.length + 1 := by
  cases hs with
  | call key => exact Or.inr ⟨⟨key, rfl⟩, by simp⟩
  | _ => left; simp [go, setCall, register, State.remove]

/-- A loader run is noted when it ends. -/
theorem loads_step (hs : Step cfg s l s') : s'.loads = s.loads ∨
    ∃ t out c, l = .load t out ∧ At Pc.loads s.threads t c ∧ s'.loads = s.loads ++ [(c, out)] := by
  cases hs with
  | load out ht => exact Or.inr ⟨_, out, _, rfl, ⟨_, ht, rfl⟩, rfl⟩
  | _ => exact Or.inl rfl

/-- What `do_flight` returns is an overload, or the result of the `Call` the thread refers to. -/
theorem returned_of_step (h : Inv cfg s) (hs : Step cfg s l s') {t : Nat} {of : Option Nat}
    {r : SingleFlightResult} (hl : l = .step t) (ht' : s'.threads[t]? = some (.returned of r)) :
    r.kind = .overload ∨
      ∃ c out, At Pc.refers s.threads t c ∧ (c, out) ∈ s.loads ∧ r = outcome out := by
  -- A thread that has just been put at `q` has returned only if `q` says so.
  have still : ∀ {u : Nat} {p q : Pc}, s.threads[u]? = some p → l = .step u →
      (s.threads.set u q)[t]? = some (.returned of r) → q = .returned of r := by
    intro u p q hu hlu hq
    rw [hlu] at hl
    cases hl
    rw [getElem?_set_self hu] at hq
    exact Option.some.inj hq
  have told : ∀ {p : Pc} {c : Nat}, s.threads[t]? = some p → p.refers = some c →
      p.knows = some (c, r) →
      ∃ c out, At Pc.refers s.threads t c ∧ (c, out) ∈ s.loads ∧ r = outcome out := by
    intro p c hp hrefers hknows
    obtain ⟨hdone, hres⟩ := h.results.known t c r ⟨p, hp, hknows⟩
    obtain ⟨out, hmem, hout⟩ := h.results.done c hdone
    exact ⟨c, out, ⟨p, hp, hrefers⟩, hmem, by rw [← hres, hout]⟩
  cases hs with
  | full ht => cases still ht rfl ht'; exact Or.inl rfl
  | refuse ht => cases still ht rfl ht'; exact Or.inl rfl
  | answer ht => cases still ht rfl ht'; cases hl; exact Or.inr (told ht rfl rfl)
  | remove ht => cases still ht rfl ht'; cases hl; exact Or.inr (told ht rfl rfl)
  | notify ht =>
    cases hl
    rw [go, getElem?_set_self (notified_at ht _)] at ht'
    cases ht'
  | enter ht => cases still ht rfl ht'
  | join ht => cases still ht rfl ht'
  | lead ht => cases still ht rfl ht'
  | lock ht => cases still ht rfl ht'
  | share ht => cases still ht rfl ht'
  | sleep ht => cases still ht rfl ht'
  | leave ht => cases still ht rfl ht'
  | drop ht => cases still ht rfl ht'
  | hold ht => cases still ht rfl ht'
  | publish ht => cases still ht rfl ht'
  | claim ht => cases still ht rfl ht'
  | call key => cases hl
  | load out ht => cases hl
  | wake ht => cases hl

end State
end SingleFlight

namespace Handler
namespace Race

open LocalCache (EntryView Op Known isBusinessExpired)
open ShortUrl
open SingleFlight (SingleFlightResult Kind)
open Threads

variable {cfg : Config} {s s' : State cfg} {l : Label}

/-! ## Settled flights -/

/-- The kind of the result the request's loader has settled for. -/
def Request.kind (q : Request) : Option Kind :=
  match q.pc with
  | .loader l => l.kind
  | _ => none

/-- The loader of `Call` `c` has settled for a result of kind `K`, or has ended with one. -/
def Settled (K : Kind) (s : State cfg) (c : Nat) : Prop :=
  (∃ x ∈ s.flights.loads, x.1 = c ∧ x.2.map SingleFlightResult.kind = some K) ∨
    ∃ u < s.requests.length, (s.requests[u]?).bind Request.kind = some K ∧
      (s.flights.threads[u]?).bind SingleFlight.Pc.loads = some c

instance (K : Kind) (s : State cfg) (c : Nat) : Decidable (Settled K s c) :=
  inferInstanceAs (Decidable (_ ∨ _))

/-- What an answer tells of the code. -/
def shows : Outcome → Option Kind
  | .found _ => some .hit
  | .notFound => some .notFound
  | .expired => some .expired
  | .unsafeUrl => none
  | .unavailable _ => none

theorem shows_answerFlight {K : Kind} {r : SingleFlightResult}
    (h : shows (answerFlight r) = some K) : r.kind = K := by
  cases hk : r.kind with
  | hit =>
    simp only [answerFlight, hk, setSafeLocation] at h
    split at h
    · exact Option.some.inj h
    · cases h
  | _ =>
    simp only [answerFlight, hk] at h
    first | exact Option.some.inj h | cases h

theorem settled_of_loads {K : Kind} {c : Nat} {r : SingleFlightResult}
    (h : (c, some r) ∈ s.flights.loads) (hk : r.kind = K) : Settled K s c :=
  Or.inl ⟨_, h, rfl, by rw [← hk]; rfl⟩

theorem settled_of_loader {K : Kind} {u c : Nat} {q : Request} (hq : s.requests[u]? = some q)
    (hk : q.kind = some K) (ha : At SingleFlight.Pc.loads s.flights.threads u c) :
    Settled K s c :=
  Or.inr ⟨u, lt_of_getElem? hq, by rw [hq]; exact hk, Option.bind_eq_some_iff.mpr ha⟩

/-- The two ways to be settled. -/
theorem Settled.cases {K : Kind} {c : Nat} (h : Settled K s c) :
    (∃ r, (c, some r) ∈ s.flights.loads ∧ r.kind = K) ∨
      ∃ u q, s.requests[u]? = some q ∧ q.kind = some K ∧
        At SingleFlight.Pc.loads s.flights.threads u c := by
  rcases h with ⟨⟨c', out⟩, hmem, rfl, hk⟩ | ⟨u, -, hk, hc⟩
  · obtain ⟨r, rfl, hr⟩ := Option.map_eq_some_iff.mp hk
    exact Or.inl ⟨r, hmem, hr⟩
  · obtain ⟨q, hq, hk⟩ := Option.bind_eq_some_iff.mp hk
    exact Or.inr ⟨u, q, hq, hk, Option.bind_eq_some_iff.mp hc⟩

/-- The loader of request `u` settles for `K` in this step. -/
def Settles (K : Kind) (s : State cfg) (l : Label) : Prop :=
  ∃ u env q loader, l = .step u env ∧ s.requests[u]? = some q ∧ q.pc = .loader loader ∧
    loader.kind ≠ some K ∧ (loader.step s.process cfg.code env).2.kind = some K

/-- Settled flights stay within those before if the moved request's loader is not settled. -/
theorem settled_of_move {K : Kind} {u c : Nat} {q : Request} {pc : Pc}
    {flights : SingleFlight.State} {label : SingleFlight.Label}
    (hq : s.requests[u]? = some q) (hpc : ({ q with pc } : Request).kind = none)
    (hfl : s.flights.step cfg.flights label = some flights) (hl : ∀ t, label = .step t → t = u)
    (hload : ∀ t out, label = .load t out → ∀ c, At SingleFlight.Pc.loads s.flights.threads t c →
      out.map SingleFlightResult.kind = some K → Settled K s c)
    (h : Settled K ({ s with flights }.move u q pc) c) : Settled K s c := by
  have hfl := SingleFlight.State.step_cases hfl
  rcases h.cases with ⟨r, hmem, hr⟩ | ⟨w, q', hq', hk, ha⟩
  · rcases SingleFlight.State.loads_step hfl with he | ⟨t, out, d, rfl, hd, he⟩
    · exact settled_of_loads (he ▸ hmem) hr
    · rcases List.mem_append.mp (he ▸ hmem) with hmem | hmem
      · exact settled_of_loads hmem hr
      · cases List.mem_singleton.mp hmem
        exact hload t _ rfl c hd (by rw [← hr]; rfl)
  · by_cases hw : w = u
    · subst hw
      rw [State.move, getElem?_set_self hq] at hq'
      cases hq'
      rw [hpc] at hk
      cases hk
    · rw [State.move, getElem?_set_ne hw] at hq'
      rcases SingleFlight.State.loads_of_step hfl ha with ha | hstep
      · exact settled_of_loader hq' hk ha
      · exact absurd (hl w hstep) hw

theorem act_start_ne_loader {p : Process cfg.process} {env : Env} (loader : Loader) :
    (act p cfg.code env .start).2 ≠ .loader loader := by
  simp only [act]
  split
  · simp
  · cases LocalCache.get cfg.process.cache p.shards cfg.code p.now p.wall <;> simp

theorem kind_landed (q : Request) (flights : SingleFlight.State) (u : Nat) :
    ({ q with pc := landed flights u } : Request).kind = none := by
  unfold landed
  split <;> rfl

/-- A flight becomes settled only when its loader settles. -/
theorem settled_of_step {K : Kind} {c : Nat} (hs : Step s l s') (h : Settled K s' c) :
    Settled K s c ∨ Settles K s l := by
  cases hs with
  | arrive hfl =>
    have hfl := SingleFlight.State.step_cases hfl
    left
    rcases h.cases with ⟨r, hmem, hr⟩ | ⟨w, q', hq', hk, ha⟩
    · rcases SingleFlight.State.loads_step hfl with he | ⟨t, out, d, hl, -⟩
      · exact settled_of_loads (he ▸ hmem) hr
      · cases hl
    · have hold : At Request.kind s.requests w K := by
        rcases at_append.mp ⟨q', hq', hk⟩ with hold | ⟨-, hnew⟩
        · exact hold
        · cases hnew
      obtain ⟨q'', hq'', hk''⟩ := hold
      rcases SingleFlight.State.loads_of_step hfl ha with ha | hl
      · exact settled_of_loader hq'' hk'' ha
      · cases hl
  | @act u env q hq hpc =>
    rcases h.cases with ⟨r, hmem, hr⟩ | ⟨w, q', hq', hk, ha⟩
    · exact Or.inl (settled_of_loads hmem hr)
    · by_cases hw : w = u
      · subst hw
        rw [State.move, getElem?_set_self hq] at hq'
        cases hq'
        cases hq'' : q.pc with
        | loader loader =>
          simp only [hq'', act, Request.kind] at hk
          by_cases hold : loader.kind = some K
          · exact Or.inl (settled_of_loader hq (by rw [Request.kind, hq'']; exact hold) ha)
          · exact Or.inr ⟨w, env, q, loader, rfl, hq, hq'', hold, hk⟩
        | start =>
          rw [hq'', Request.kind] at hk
          split at hk
          · rename_i loader hstart
            exact absurd hstart (act_start_ne_loader loader)
          · cases hk
        | eraseLocal => simp [hq'', act, Request.kind] at hk
        | eraseRedis => simp [hq'', act, Request.kind] at hk
        | flight => simp [hq'', Pc.acts] at hpc
        | answered o => simp [hq'', Pc.acts] at hpc
      · rw [State.move, getElem?_set_ne hw] at hq'
        exact Or.inl (settled_of_loader hq' hk ha)
  | fly hq hpc hfl =>
    refine Or.inl (settled_of_move hq (kind_landed _ _ _) hfl ?_ ?_ h)
    · rintro t he
      cases he
      rfl
    · intro t out he
      cases he
  | @deliver u env q r flights hq hpc hfl =>
    refine Or.inl (settled_of_move hq rfl hfl ?_ ?_ h)
    · intro t he
      cases he
    · intro t out he d hd hk
      cases he
      exact settled_of_loader hq (by rw [Request.kind, hpc]; exact hk) hd
  | wake hfl =>
    have hfl := SingleFlight.State.step_cases hfl
    left
    rcases h.cases with ⟨r, hmem, hr⟩ | ⟨w, q', hq', hk, ha⟩
    · rcases SingleFlight.State.loads_step hfl with he | ⟨t, out, d, hl, -⟩
      · exact settled_of_loads (he ▸ hmem) hr
      · cases hl
    · rcases SingleFlight.State.loads_of_step hfl ha with ha | hl
      · exact settled_of_loader hq' hk ha
      · cases hl
  | insert hidle hacc hins => exact Or.inl h
  | cache hc => exact Or.inl h
  | create hc => exact Or.inl h
  | tick hle => exact Or.inl h
  | other hne => exact Or.inl h
  | redis hv => exact Or.inl h
  | available => exact Or.inl h

/-! ## Who may be told -/

/-- Whoever refers to a flight settled for `K`, or has been told `K`, satisfies `A`. -/
structure Spread (K : Kind) (A : Bytes → Bool → Prop) (s : State cfg) : Prop where
  flying : ∀ u q c, s.requests[u]? = some q → At SingleFlight.Pc.refers s.flights.threads u c →
    Settled K s c → A q.born q.after
  told : ∀ q ∈ s.requests, ∀ o, q.pc = .answered o → shows o = some K → A q.born q.after

/-- A request after the step is one from before, or has just arrived. -/
theorem request_of_step (hs : Step s l s') {u : Nat} {q' : Request}
    (hq' : s'.requests[u]? = some q') :
    (∃ q, s.requests[u]? = some q ∧ q'.born = q.born ∧ q'.after = q.after) ∨
      u = s.requests.length ∧ q'.born = s.process.wall ∧
        q'.after = decide (s.creation = .created) ∧ q'.pc = .start := by
  have moved : ∀ {t : State cfg} {w : Nat} {q : Request} {pc : Pc}, t.requests = s.requests →
      s.requests[w]? = some q → (t.move w q pc).requests[u]? = some q' →
      ∃ q, s.requests[u]? = some q ∧ q'.born = q.born ∧ q'.after = q.after := by
    intro t w q pc ht hq h
    rw [State.move, ht] at h
    by_cases hu : u = w
    · subst hu
      rw [getElem?_set_self hq] at h
      cases h
      exact ⟨q, hq, rfl, rfl⟩
    · rw [getElem?_set_ne hu] at h
      exact ⟨q', h, rfl, rfl⟩
  cases hs with
  | arrive hfl =>
    rcases List.getElem?_append.symm.trans hq' with h
    split at h
    · exact Or.inl ⟨q', h, rfl, rfl⟩
    · have h0 := lt_of_getElem? h
      simp only [List.length_singleton] at h0
      have h1 : u - s.requests.length = 0 := by omega
      rw [h1] at h
      cases h
      exact Or.inr ⟨by omega, rfl, rfl, rfl⟩
  | act hq => exact Or.inl (moved rfl hq hq')
  | fly hq => exact Or.inl (moved rfl hq hq')
  | deliver hq => exact Or.inl (moved rfl hq hq')
  | _ => exact Or.inl ⟨q', hq', rfl, rfl⟩

/-- Each request has its thread in the flight table. -/
theorem aligned_step (h : s.flights.threads.length = s.requests.length) (hs : Step s l s') :
    s'.flights.threads.length = s'.requests.length := by
  have keep : ∀ {label : SingleFlight.Label} {flights : SingleFlight.State},
      s.flights.step cfg.flights label = some flights → (∀ key, label ≠ .call key) →
      flights.threads.length = s.requests.length := by
    intro label flights hfl hl
    rcases SingleFlight.State.threads_length_step (SingleFlight.State.step_cases hfl) with
      he | ⟨⟨key, hk⟩, -⟩
    · rw [he, h]
    · exact absurd hk (hl key)
  cases hs with
  | arrive hfl =>
    cases hfl
    simp [h]
  | act hq => simpa [State.move] using h
  | fly hq hpc hfl => simpa [State.move] using keep hfl (by simp)
  | deliver hq hpc hfl => simpa [State.move] using keep hfl (by simp)
  | wake hfl => exact keep hfl (by simp)
  | _ => exact h

theorem inv_flights_step (h : SingleFlight.State.Inv cfg.flights s.flights) (hs : Step s l s') :
    SingleFlight.State.Inv cfg.flights s'.flights := by
  cases hs with
  | arrive hfl => exact h.step hfl
  | fly hq hpc hfl => exact h.step hfl
  | deliver hq hpc hfl => exact h.step hfl
  | wake hfl => exact h.step hfl
  | _ => exact h

theorem refers_of_race (hs : Step s l s') {u c : Nat}
    (ha : At SingleFlight.Pc.refers s'.flights.threads u c) :
    At SingleFlight.Pc.refers s.flights.threads u c ∨
      ∃ env q, l = .step u env ∧ s.requests[u]? = some q ∧ q.pc = .flight ∧
        (s.flights.joins cfg.flights u = some c ∨ c = s.flights.calls.length) := by
  have keep : ∀ {label : SingleFlight.Label} {flights : SingleFlight.State},
      s.flights.step cfg.flights label = some flights → (∀ t, label ≠ .step t) →
      At SingleFlight.Pc.refers flights.threads u c →
      At SingleFlight.Pc.refers s.flights.threads u c := by
    intro label flights hfl hl ha
    rcases SingleFlight.State.refers_of_step (SingleFlight.State.step_cases hfl) ha with ha | ⟨he, -⟩
    · exact ha
    · exact absurd he (hl u)
  cases hs with
  | arrive hfl => exact Or.inl (keep hfl (by simp) ha)
  | fly hq hpc hfl =>
    rcases SingleFlight.State.refers_of_step (SingleFlight.State.step_cases hfl) ha with
      ha | ⟨he, hc⟩
    · exact Or.inl ha
    · cases he
      refine Or.inr ⟨_, _, rfl, hq, hpc, ?_⟩
      rcases hc with ⟨hc, -⟩ | ⟨hc, -⟩
      · exact Or.inl hc
      · exact Or.inr hc
  | deliver hq hpc hfl => exact Or.inl (keep hfl (by simp) ha)
  | wake hfl => exact Or.inl (keep hfl (by simp) ha)
  | _ => exact Or.inl ha

/-- Nobody has settled a flight that is not there yet. -/
theorem not_settled_new {K : Kind} (h : SingleFlight.State.Inv cfg.flights s.flights) :
    ¬ Settled K s s.flights.calls.length := by
  intro hset
  rcases hset.cases with ⟨r, hmem, -⟩ | ⟨u, q, -, -, p, hp, hload⟩
  · exact Nat.lt_irrefl _ (h.results.loads_lt _ _ hmem)
  · refine Nat.lt_irrefl _ (h.refers u _ ⟨p, hp, ?_⟩)
    cases p <;> simp_all [SingleFlight.Pc.loads, SingleFlight.Pc.refers]

section Spread

variable {K : Kind} {A A' : Bytes → Bool → Prop}

/-- Told by a flight: the flight was settled and the request referred to it. -/
theorem Spread.landed (h : Spread K A s) (hK : K = .hit ∨ K = .notFound)
    (hinv : SingleFlight.State.Inv cfg.flights s.flights) {u : Nat} {q : Request}
    {flights : SingleFlight.State} {o : Outcome} (hq : s.requests[u]? = some q)
    (hfl : s.flights.step cfg.flights (.step u) = some flights)
    (ho : landed flights u = .answered o) (hshow : shows o = some K) : A q.born q.after := by
  unfold Race.landed at ho
  split at ho
  · cases ho
  · rename_i of r hr
    cases ho
    have hk := shows_answerFlight hshow
    rcases SingleFlight.State.returned_of_step hinv (SingleFlight.State.step_cases hfl) rfl hr with
      hover | ⟨c, out, hrefers, hmem, rfl⟩
    · rw [hover] at hk
      rcases hK with rfl | rfl <;> cases hk
    · cases out with
      | none => rcases hK with rfl | rfl <;> cases hk
      | some r => exact h.flying u q c hq hrefers (settled_of_loads hmem hk)
  · cases ho

/-- **What keeps an answer among those who may be told it.** -/
theorem Spread.step (h : Spread K A s) (hK : K = .hit ∨ K = .notFound)
    (hinv : SingleFlight.State.Inv cfg.flights s.flights)
    (hlen : s.flights.threads.length = s.requests.length) (hs : Step s l s')
    (hmono : ∀ b a, A b a → A' b a)
    (hsettle : Settles K s l → ∀ q ∈ s.requests, A q.born q.after)
    (hlocal : ∀ u env q o, l = .step u env → s.requests[u]? = some q → q.pc = .start →
      (act s.process cfg.code env .start).2 = .answered o → shows o = some K → A q.born q.after)
    (hjoin : ∀ u env q c, l = .step u env → s.requests[u]? = some q → q.pc = .flight →
      s.flights.joins cfg.flights u = some c → Settled K s c → A q.born q.after) :
    Spread K A' s' := by
  constructor
  · intro u q' c hq' ha hset
    have hset := settled_of_step hs hset
    -- A request that refers to a flight has not just arrived.
    have hold : ∃ q, s.requests[u]? = some q ∧ q'.born = q.born ∧ q'.after = q.after := by
      rcases request_of_step hs hq' with hq | ⟨hu, -⟩
      · exact hq
      · rcases refers_of_race hs ha with ⟨p, hp, -⟩ | ⟨env, q, -, hq, -⟩
        · have := lt_of_getElem? hp
          omega
        · have := lt_of_getElem? hq
          omega
    obtain ⟨q, hq, hborn, hafter⟩ := hold
    rw [hborn, hafter]
    refine hmono _ _ ?_
    rcases hset with hset | hset
    · rcases refers_of_race hs ha with ha | ⟨env, q₁, hl, hq₁, hpc, hc⟩
      · exact h.flying u q c hq ha hset
      · rw [hq] at hq₁
        cases hq₁
        rcases hc with hc | rfl
        · exact hjoin u env q c hl hq hpc hc hset
        · exact absurd hset (not_settled_new hinv)
    · exact hsettle hset q (List.mem_of_getElem? hq)
  · intro q' hmem o hpc' hshow
    obtain ⟨u, hq'⟩ := List.getElem?_of_mem hmem
    -- Only the request that moves is told something new.
    have keep : ∀ {t : State cfg} {w : Nat} {q : Request} {pc : Pc}, t.requests = s.requests →
        s.requests[w]? = some q → (t.move w q pc).requests[u]? = some q' →
        (pc = .answered o → A q.born q.after) → A' q'.born q'.after := by
      intro t w q pc ht hq hq' hpc
      rw [State.move, ht] at hq'
      by_cases hu : u = w
      · subst hu
        rw [getElem?_set_self hq] at hq'
        cases hq'
        exact hmono _ _ (hpc hpc')
      · rw [getElem?_set_ne hu] at hq'
        exact hmono _ _ (h.told q' (List.mem_of_getElem? hq') o hpc' hshow)
    cases hs with
    | arrive hfl =>
      rcases List.mem_append.mp hmem with hmem | hmem
      · exact hmono _ _ (h.told q' hmem o hpc' hshow)
      · cases List.mem_singleton.mp hmem
        cases hpc'
    | @act w env q hq hacts =>
      refine keep rfl hq hq' ?_
      intro hpc
      cases hq₁ : q.pc with
      | start =>
        rw [hq₁] at hpc
        exact hlocal w env q o rfl hq hq₁ hpc hshow
      | eraseRedis =>
        rw [hq₁] at hpc
        cases hpc
        rcases hK with rfl | rfl <;> cases hshow
      | eraseLocal => rw [hq₁] at hpc; cases hpc
      | loader loader => rw [hq₁] at hpc; cases hpc
      | flight => rw [hq₁] at hacts; cases hacts
      | answered o => rw [hq₁] at hacts; cases hacts
    | fly hq hpc hfl =>
      refine keep rfl hq hq' ?_
      intro ho
      exact h.landed hK hinv hq hfl ho hshow
    | deliver hq hpc hfl =>
      refine keep rfl hq hq' ?_
      intro ho
      cases ho
    | wake hfl => exact hmono _ _ (h.told q' hmem o hpc' hshow)
    | insert hidle hacc hins => exact hmono _ _ (h.told q' hmem o hpc' hshow)
    | cache hc => exact hmono _ _ (h.told q' hmem o hpc' hshow)
    | create hc => exact hmono _ _ (h.told q' hmem o hpc' hshow)
    | tick hle => exact hmono _ _ (h.told q' hmem o hpc' hshow)
    | other hne => exact hmono _ _ (h.told q' hmem o hpc' hshow)
    | redis hv => exact hmono _ _ (h.told q' hmem o hpc' hshow)
    | available => exact hmono _ _ (h.told q' hmem o hpc' hshow)

end Spread

/-! ## What a step outside `do_flight` does to the stores -/

section Act

variable {p : Process cfg.process} {env : Env} {pc : Pc}

/-- The local cache is left alone or gets one operation; what is put is what the loader holds. -/
theorem act_shards : (act p cfg.code env pc).1.shards = p.shards ∨
    ∃ op, LocalCache.step cfg.process.cache p.shards op = some (act p cfg.code env pc).1.shards ∧
      (∀ c v t draw, op = .putPositive c v t draw →
        pc = .loader (.putPositive v) ∨ pc = .loader (.setLocal v)) ∧
      ∀ c t, op = .putNegative c t → pc = .loader .putNegative := by
  cases pc with
  | start =>
    simp only [act]
    split
    · exact Or.inl rfl
    · exact Or.inr ⟨.get cfg.code p.now p.wall, rfl, by simp, by simp⟩
  | eraseLocal => exact Or.inr ⟨.erase cfg.code, rfl, by simp, by simp⟩
  | eraseRedis => exact Or.inl (by simp [act])
  | flight => exact Or.inl rfl
  | answered o => exact Or.inl rfl
  | loader loader =>
    cases loader with
    | budget => simp only [act, Loader.step]; split <;> exact Or.inl rfl
    | get =>
      left
      simp only [act, Loader.step]
      repeat' split
      all_goals rfl
    | interpret raw => simp only [act, Loader.step]; split <;> exact Or.inl rfl
    | del v => exact Or.inl (by simp [act, Loader.step])
    | putPositive v =>
      refine Or.inr ⟨.putPositive cfg.code v p.now env.draw, rfl, ?_, by simp⟩
      intro c v' t draw he
      cases he
      exact Or.inl rfl
    | drop v => exact Or.inr ⟨.erase cfg.code, rfl, by simp, by simp⟩
    | mysql => simp only [act, Loader.step]; split <;> exact Or.inl rfl
    | setLocal v =>
      refine Or.inr ⟨.putPositive cfg.code v p.now env.draw, rfl, ?_, by simp⟩
      intro c v' t draw he
      cases he
      exact Or.inr rfl
    | setRedis v => exact Or.inl (by simp [act, Loader.step])
    | eraseLocal v => exact Or.inr ⟨.erase cfg.code, rfl, by simp, by simp⟩
    | eraseRedis v => exact Or.inl (by simp [act, Loader.step])
    | putNegative => exact Or.inr ⟨.putNegative cfg.code p.now, rfl, by simp, fun _ _ _ => rfl⟩
    | loaded r => exact Or.inl rfl

/-- Neither the tables nor the clock move. -/
theorem act_db_wall : (act p cfg.code env pc).1.db = p.db ∧
    (act p cfg.code env pc).1.wall = p.wall := by
  cases pc with
  | start => simp only [act]; split <;> exact ⟨rfl, rfl⟩
  | eraseRedis => simp [act]
  | loader loader =>
    cases loader with
    | budget => simp only [act, Loader.step]; split <;> exact ⟨rfl, rfl⟩
    | get =>
      simp only [act, Loader.step]
      repeat' split
      all_goals exact ⟨rfl, rfl⟩
    | interpret raw => simp only [act, Loader.step]; split <;> exact ⟨rfl, rfl⟩
    | mysql => simp only [act, Loader.step]; split <;> exact ⟨rfl, rfl⟩
    | del v => simp [act, Loader.step]
    | setRedis v => simp [act, Loader.step]
    | eraseRedis v => simp [act, Loader.step]
    | _ => exact ⟨rfl, rfl⟩
  | _ => exact ⟨rfl, rfl⟩

/-- Redis keeps its value for the code, loses it, or gets the one the loader holds. -/
theorem act_redis : (act p cfg.code env pc).1.redis (cacheKey cfg.code) = p.redis (cacheKey cfg.code) ∨
    (act p cfg.code env pc).1.redis (cacheKey cfg.code) = none ∨
    ∃ v, pc = .loader (.setRedis v) ∧
      (act p cfg.code env pc).1.redis (cacheKey cfg.code) = some (encodeRedisValue v) := by
  have erased : (p.writeRedis (cacheKey cfg.code) none env.write).redis (cacheKey cfg.code) =
      p.redis (cacheKey cfg.code) ∨
      (p.writeRedis (cacheKey cfg.code) none env.write).redis (cacheKey cfg.code) = none :=
    (Process.writeRedis_redis _ _ _ _).symm
  cases pc with
  | start => simp only [act]; split <;> exact Or.inl rfl
  | eraseRedis => exact erased.imp_right Or.inl
  | loader loader =>
    cases loader with
    | budget => simp only [act, Loader.step]; split <;> exact Or.inl rfl
    | get =>
      left
      simp only [act, Loader.step]
      repeat' split
      all_goals rfl
    | interpret raw => simp only [act, Loader.step]; split <;> exact Or.inl rfl
    | mysql => simp only [act, Loader.step]; split <;> exact Or.inl rfl
    | del v => exact (Process.dropRedis_redis _ _ _).symm.imp_right Or.inl
    | setRedis v =>
      rcases Process.writeRedis_redis p (cacheKey cfg.code) (some (encodeRedisValue v)) env.write with
        he | he
      · exact Or.inr (Or.inr ⟨v, rfl, he⟩)
      · exact Or.inl he
    | eraseRedis v => exact erased.imp_right Or.inl
    | _ => exact Or.inl rfl
  | _ => exact Or.inl rfl

end Act

/-- What is stored for the code. -/
def mapping (s : State cfg) : Option EntryView :=
  lookup cfg.process.coll cfg.process.router s.process.db cfg.code

/-- A mapping stays. -/
theorem mapping_step (hs : Step s l s') {v : EntryView} (h : mapping s = some v) :
    mapping s' = some v := by
  cases hs with
  | act hq hpc =>
    rw [mapping, State.move]
    simp only [act_db_wall.1]
    exact h
  | insert hidle hacc hins =>
    exact lookup_insert_of_some hins h
  | create hc => simpa [mapping] using h
  | _ => exact h

theorem mapping_insert {id : UInt64} {longUrl expireAt : Bytes} {db : Tables}
    (hacc : Accepted cfg longUrl expireAt)
    (hins : ShortUrl.insert cfg.process.coll cfg.process.router s.process.db
      ⟨id, cfg.code, longUrl, expireAt⟩ = (db, true)) :
    lookup cfg.process.coll cfg.process.router db cfg.code = some ⟨longUrl, expireAt⟩ := by
  have hself := lookup_insert_self hins
  rwa [ShortUrlRecord.view, cString_eq_self (Http.isHttpUrlSafeForLocation_noNul hacc.url)] at hself

end Race
end Handler
end UrlShortener
