import UrlShortener.ShortUrl.FlightSafety

/-!
# UrlShortener.ShortUrl.FlightProgress

No call of `do_flight` is left behind. `mutex_` is the inner lock: whoever holds it can go on, so
with no loader running some thread always can (`Inv.progress`). Every step but a new call and a
spurious wake-up lowers `State.measure` (`Inv.measure_lt`), so a state can be run to its end.
-/

namespace UrlShortener
namespace SingleFlight

open Threads

namespace Pc

def Returned : Pc → Prop
  | .returned _ _ => True
  | _ => False

instance : DecidablePred Returned := fun p => by
  cases p <;> simp only [Returned] <;> infer_instance

/-- The `call->mu` a thread waits for. -/
def wantsMu : Pc → Option Nat
  | .joining c | .loaded _ c _ => some c
  | _ => none

/-- Neither done nor in its loader nor asleep. -/
structure Awake (p : Pc) : Prop where
  unfinished : ¬ p.Returned
  outside : p.loads = none
  up : p.sleeps = none

/-- Whoever holds a lock is awake and waits for no `call->mu`. -/
theorem awake_of_holdsMutex {p : Pc} (h : p.holdsMutex = some ()) : p.Awake ∧ p.wantsMu = none := by
  cases p with
  | lookup key => exact ⟨⟨id, rfl, rfl⟩, rfl⟩
  | leaving c r => exact ⟨⟨id, rfl, rfl⟩, rfl⟩
  | removing key c r => exact ⟨⟨id, rfl, rfl⟩, rfl⟩
  | _ => cases h

theorem awake_of_holdsMu {p : Pc} {c : Nat} (h : p.holdsMu = some c) :
    p.Awake ∧ p.wantsMu = none := by
  cases p with
  | checking d => exact ⟨⟨id, rfl, rfl⟩, rfl⟩
  | sharing d r => exact ⟨⟨id, rfl, rfl⟩, rfl⟩
  | leaving d r => exact ⟨⟨id, rfl, rfl⟩, rfl⟩
  | dropping d r => exact ⟨⟨id, rfl, rfl⟩, rfl⟩
  | publishing key d r => exact ⟨⟨id, rfl, rfl⟩, rfl⟩
  | _ => cases h

theorem awake_of_announces {p : Pc} {c : Nat} (h : p.announces = some c) (hload : p.loads = none) :
    p.Awake := by
  cases p with
  | loading key d => cases hload
  | loaded key d r => exact ⟨id, rfl, rfl⟩
  | publishing key d r => exact ⟨id, rfl, rfl⟩
  | published key d r => exact ⟨id, rfl, rfl⟩
  | _ => cases h

theorem unfinished_of_leads {p : Pc} {x : Bytes × Nat} (h : p.leads = some x) : ¬ p.Returned := by
  cases p with
  | returned of r => cases h
  | _ => exact id

/-- Steps a call has still to take; a waiter counts its wait until its `Call` is done. -/
def weight (done : Nat → Bool) : Pc → Nat
  | .enter _ => 20
  | .lookup _ => 19
  | .loading _ _ => 18
  | .loaded _ _ _ => 17
  | .publishing _ _ _ => 16
  | .published _ _ _ => 15
  | .notified _ _ _ => 14
  | .removing _ _ _ => 13
  | .joining c => if done c then 6 else 12
  | .checking c => if done c then 5 else 11
  | .sleeping c => if done c then 7 else 10
  | .sharing _ _ => 4
  | .leaving _ _ => 3
  | .dropping _ _ => 2
  | .returned _ _ => 0

theorem weight_mono {done done' : Nat → Bool} (h : ∀ c, done c = true → done' c = true) (p : Pc) :
    p.weight done' ≤ p.weight done := by
  have key : ∀ c (a b : Nat), a ≤ b → (if done' c then a else b) ≤ if done c then a else b := by
    intro c a b hab
    have := h c
    split <;> split <;> simp_all
  cases p with
  | joining c => exact key c 6 12 (by omega)
  | checking c => exact key c 5 11 (by omega)
  | sleeping c => exact key c 7 10 (by omega)
  | _ => exact le_refl _

end Pc

namespace Label

/-- A call that is under way goes on; the loader of thread `t` ends with `outs t`. -/
def Resumes (outs : Nat → Option SingleFlightResult) : Label → Prop
  | .step _ => True
  | .load t out => out = outs t
  | _ => False

end Label

namespace State

variable {cfg : Config} {s s' : State} {l : Label}

/-! ## No deadlock -/

theorem exists_call {c : Nat} (h : c < s.calls.length) : ∃ call, s.calls[c]? = some call :=
  ⟨_, List.getElem?_eq_getElem h⟩

/-- When a thread that is not in its loader and not asleep can go on. -/
theorem Inv.enabled {t : Nat} {p : Pc} (h : Inv cfg s) (ht : s.threads[t]? = some p)
    (hawake : p.Awake) (hm : s.mutex = none ∨ p.holdsMutex = some ())
    (hmu : ∀ c, p.wantsMu = some c → (s.callAt c).mu = none) :
    ∃ s', s.advance cfg t = some s' := by
  have hcall : ∀ c, p.refers = some c → ∃ call, s.calls[c]? = some call :=
    fun c hc => exists_call (h.refers t c ⟨p, ht, hc⟩)
  simp only [advance, ht, Option.bind_eq_bind, Option.bind_some]
  cases p with
  | enter key => simp_all [Pc.holdsMutex]
  | lookup key =>
    simp only [lookup]
    cases hin : s.inflight.lookup key with
    | none =>
      simp only
      split <;> exact ⟨_, rfl⟩
    | some c =>
      obtain ⟨u, hu⟩ := (h.registry.registered key c).mp hin
      obtain ⟨call, hc⟩ := exists_call (h.refers u c (refers_of_leads hu))
      simp only [hc, Option.bind_eq_bind, Option.bind_some]
      split <;> exact ⟨_, rfl⟩
  | joining c =>
    obtain ⟨call, hc⟩ := hcall c rfl
    have := hmu c rfl
    rw [callAt_eq hc] at this
    simp [hc, this]
  | checking c =>
    obtain ⟨call, hc⟩ := hcall c rfl
    simp only [hc, Option.bind_some]
    split <;> exact ⟨_, rfl⟩
  | sleeping c => cases hawake.up
  | sharing c r => simp_all [Pc.holdsMutex]
  | leaving c r =>
    obtain ⟨call, hc⟩ := hcall c rfl
    simp [hc]
  | dropping c r =>
    obtain ⟨call, hc⟩ := hcall c rfl
    simp [hc]
  | loading key c => cases hawake.outside
  | loaded key c r =>
    obtain ⟨call, hc⟩ := hcall c rfl
    have := hmu c rfl
    rw [callAt_eq hc] at this
    simp [hc, this]
  | publishing key c r =>
    obtain ⟨call, hc⟩ := hcall c rfl
    simp [hc]
  | published key c r => exact ⟨_, rfl⟩
  | notified key c r => simp_all [Pc.holdsMutex]
  | removing key c r => exact ⟨_, rfl⟩
  | returned of r => exact absurd trivial hawake.unfinished

/-- Whoever holds `call->mu` waits at most for `mutex_`. -/
theorem Inv.holder_enabled {t c : Nat} (h : Inv cfg s) (hm : s.mutex = none)
    (ha : At Pc.holdsMu s.threads t c) : ∃ s', s.advance cfg t = some s' := by
  obtain ⟨p, hp, hmu⟩ := ha
  obtain ⟨hawake, hwants⟩ := Pc.awake_of_holdsMu hmu
  refine h.enabled hp hawake (Or.inl hm) fun d hd => ?_
  rw [hwants] at hd
  cases hd

/-- **No state is stuck** while a call is unfinished and no loader runs. -/
theorem Inv.progress (h : Inv cfg s) {t : Nat} {p : Pc} (ht : s.threads[t]? = some p)
    (hr : ¬ p.Returned) (hload : ∀ t c, ¬ At Pc.loads s.threads t c) :
    ∃ t s', s.advance cfg t = some s' := by
  cases hm : s.mutex with
  | some u =>
    obtain ⟨q, hq, hh⟩ := (h.mutex u).mp hm
    obtain ⟨hawake, hwants⟩ := Pc.awake_of_holdsMutex hh
    refine ⟨u, h.enabled hq hawake (Or.inr hh) fun d hd => ?_⟩
    rw [hwants] at hd
    cases hd
  | none =>
    have outside : ∀ {u : Nat} {q : Pc}, s.threads[u]? = some q → q.loads = none := by
      intro u q hq
      cases hl : q.loads with
      | none => rfl
      | some c => exact absurd ⟨q, hq, hl⟩ (hload u c)
    -- someone awake: the thread itself, or the leader that will wake it
    obtain ⟨u, q, hq, hawake⟩ : ∃ (u : Nat) (q : Pc), s.threads[u]? = some q ∧ q.Awake := by
      cases hs : p.sleeps with
      | none => exact ⟨t, p, ht, hr, outside ht, hs⟩
      | some c =>
        obtain ⟨u, q, hq, ha⟩ := h.results.asleep t c ⟨p, ht, hs⟩
        exact ⟨u, q, hq, Pc.awake_of_announces ha (outside hq)⟩
    cases hw : q.wantsMu with
    | none =>
      refine ⟨u, h.enabled hq hawake (Or.inl hm) fun d hd => ?_⟩
      rw [hw] at hd
      cases hd
    | some c =>
      cases hmu : (s.callAt c).mu with
      | none =>
        refine ⟨u, h.enabled hq hawake (Or.inl hm) fun d hd => ?_⟩
        rw [hw] at hd
        cases hd
        exact hmu
      | some v => exact ⟨v, h.holder_enabled hm ((h.mu c v).mp hmu)⟩

/-! ## Every call can return -/

def measure (s : State) : Nat := total (Pc.weight fun c => (s.callAt c).done) s.threads

/-- A step of one thread that takes no `done` back. -/
theorem measure_set_lt {s₁ : State} {t : Nat} {p q : Pc} (ht : s.threads[t]? = some p)
    (hts : s₁.threads = s.threads.set t q)
    (hd : ∀ c, (s.callAt c).done = true → (s₁.callAt c).done = true)
    (hlt : q.weight (fun c => (s₁.callAt c).done) < p.weight fun c => (s.callAt c).done) :
    s₁.measure < s.measure := by
  rw [measure, hts]
  exact total_set_lt ht (Pc.weight_mono hd) hlt

theorem Inv.measure_notify {t c : Nat} {key : Bytes} {r : SingleFlightResult} (h : Inv cfg s)
    (ht : s.threads[t]? = some (.published key c r)) :
    ({ s with threads := s.threads.map (Pc.notify c) }.go t (.notified key c r)).measure <
      s.measure := by
  have hdone := (h.results.known t c r ⟨_, ht, rfl⟩).1
  refine total_lt (by simp [go]) ?_ ht (getElem?_set_self (notified_at ht c)) (by simp [Pc.weight])
  intro u p p' hp hp'
  by_cases hu : u = t
  · subst hu
    rw [ht] at hp
    cases hp
    rw [go, getElem?_set_self (notified_at ht c)] at hp'
    cases hp'
    simp [Pc.weight]
  · rw [go, getElem?_set_ne hu, List.getElem?_map, hp] at hp'
    cases hp'
    cases p with
    | sleeping d =>
      simp only [Pc.notify]
      split
      · rename_i he
        subst he
        have hdone' : (({ s with threads := s.threads.map (Pc.notify d) }.go t
            (.notified key d r)).callAt d).done = true := hdone
        simp [Pc.weight, hdone, hdone']
      · exact le_refl _
    | _ => exact le_refl _

/-- **Every step of a call under way lowers the measure.** -/
theorem Inv.measure_lt {outs : Nat → Option SingleFlightResult} (h : Inv cfg s)
    (hl : l.Resumes outs) (hs : s.step cfg l = some s') : s'.measure < s.measure := by
  have keep : ∀ {s₁ : State} {t : Nat} {p q : Pc}, s.SameCalls s₁ → s.threads[t]? = some p →
      s₁.threads = s.threads.set t q →
      q.weight (fun c => (s.callAt c).done) < p.weight (fun c => (s.callAt c).done) →
      s₁.measure < s.measure := by
    intro s₁ t p q hsame ht hts hlt
    have hd : (fun c => (s₁.callAt c).done) = fun c => (s.callAt c).done := funext hsame.done
    refine measure_set_lt ht hts (fun c hc => (hsame.done c).trans hc) ?_
    rw [hd]
    exact hlt
  cases step_cases hs with
  | call key => exact absurd hl id
  | wake ht => exact absurd hl id
  | notify ht => exact h.measure_notify ht
  | enter ht => exact keep (.of_eq rfl) ht rfl (by simp [Pc.weight])
  | full ht => exact keep (.of_eq rfl) ht rfl (by simp [Pc.weight])
  | refuse ht => exact keep (.of_eq rfl) ht rfl (by simp [Pc.weight])
  | join ht found hc =>
    refine keep (.set hc rfl rfl rfl) ht rfl ?_
    simp only [Pc.weight]
    split <;> omega
  | lead ht =>
    refine measure_set_lt ht rfl ?_ (by simp [Pc.weight])
    intro c hc
    rw [callAt_register]
    exact hc
  | lock ht hc =>
    refine keep (.set hc rfl rfl rfl) ht rfl ?_
    simp only [Pc.weight]
    split <;> omega
  | share ht hc done =>
    refine keep (.of_eq rfl) ht rfl ?_
    simp [Pc.weight, callAt_eq hc, done]
  | sleep ht hc todo =>
    refine keep (.set hc rfl rfl rfl) ht rfl ?_
    simp [Pc.weight, callAt_eq hc, todo]
  | leave ht => exact keep (.of_eq rfl) ht rfl (by simp [Pc.weight])
  | drop ht hc => exact keep (.set hc rfl rfl rfl) ht rfl (by simp [Pc.weight])
  | answer ht hc => exact keep (.set hc rfl rfl rfl) ht rfl (by simp [Pc.weight])
  | load out ht => exact keep (.of_eq rfl) ht rfl (by simp [Pc.weight])
  | hold ht hc => exact keep (.set hc rfl rfl rfl) ht rfl (by simp [Pc.weight])
  | @publish t c key r call ht hc =>
    refine measure_set_lt ht rfl ?_ (by simp [Pc.weight])
    refine forall_callAt_set (Q := fun d x => (s.callAt d).done = true → x.done = true) hc ?_ ?_
    · exact fun _ => rfl
    · exact fun d _ hd => hd
  | claim ht => exact keep (.of_eq rfl) ht rfl (by simp [Pc.weight])
  | remove ht => exact keep (.of_eq rfl) ht rfl (by simp [Pc.weight])

/-- A run of calls under way is no longer than the measure it starts from. -/
theorem Inv.length_le {outs : Nat → Option SingleFlightResult} : ∀ {ls : List Label} {s : State},
    Inv cfg s → (∀ l ∈ ls, l.Resumes outs) → Machine.run (State.step cfg) s ls = some s' →
    ls.length ≤ s.measure := by
  intro ls
  induction ls with
  | nil => intro s _ _ _; exact Nat.zero_le _
  | cons l ls ih =>
    intro s h hl hr
    obtain ⟨s₁, h₁, hr⟩ := Option.bind_eq_some_iff.mp hr
    have hlt := h.measure_lt (hl l (by simp)) h₁
    have := ih (h.step h₁) (fun l' hm => hl l' (by simp [hm])) hr
    rw [List.length_cons]
    omega

theorem Inv.resumes (outs : Nat → Option SingleFlightResult) (h : Inv cfg s) {t : Nat} {p : Pc}
    (ht : s.threads[t]? = some p) (hr : ¬ p.Returned) :
    ∃ l s', l.Resumes outs ∧ s.step cfg l = some s' := by
  by_cases hload : ∃ u c, At Pc.loads s.threads u c
  · obtain ⟨u, c, q, hq, hl⟩ := hload
    cases q <;> simp only [Pc.loads, reduceCtorEq] at hl
    refine ⟨.load u (outs u), ?_⟩
    simp only [State.step, hq]
    exact ⟨_, rfl, rfl⟩
  · obtain ⟨u, s', hs⟩ := h.progress ht hr fun t c ha => hload ⟨t, c, ha⟩
    exact ⟨.step u, s', trivial, hs⟩

/-- **Every call can return**, however the loaders end. -/
theorem Inv.completes (outs : Nat → Option SingleFlightResult) : ∀ {n : Nat} {s : State},
    Inv cfg s → s.measure ≤ n → ∃ ls s', (∀ l ∈ ls, l.Resumes outs) ∧
      Machine.run (State.step cfg) s ls = some s' ∧ ∀ p ∈ s'.threads, p.Returned := by
  intro n
  induction n with
  | zero =>
    intro s h hn
    refine ⟨[], s, by simp, rfl, ?_⟩
    intro p hp
    obtain ⟨t, ht⟩ := List.mem_iff_getElem?.mp hp
    by_contra hr
    obtain ⟨l, s', hl, hs⟩ := h.resumes outs ht hr
    have := h.measure_lt hl hs
    omega
  | succ n ih =>
    intro s h hn
    by_cases hall : ∀ p ∈ s.threads, p.Returned
    · exact ⟨[], s, by simp, rfl, hall⟩
    · simp only [not_forall] at hall
      obtain ⟨p, hp, hr⟩ := hall
      obtain ⟨t, ht⟩ := List.mem_iff_getElem?.mp hp
      obtain ⟨l, s₁, hl, hs⟩ := h.resumes outs ht hr
      have hlt := h.measure_lt hl hs
      obtain ⟨ls, s', hls, hrun, hret⟩ := ih (h.step hs) (by omega)
      refine ⟨l :: ls, s', ?_, ?_, hret⟩
      · intro l' hm
        rcases List.mem_cons.mp hm with rfl | hm
        · exact hl
        · exact hls l' hm
      · rw [Machine.run, hs]
        exact hrun

/-! ## Safety -/

/-- What a step does to the table: a call starts, or one that has not returned moves on, possibly
after the sleepers of one `Call` were woken. -/
theorem Step.moves (hs : Step cfg s l s') : (∃ key, s'.threads = s.threads ++ [.enter key]) ∨
    ∃ t p q ts, s.threads[t]? = some p ∧ ¬ p.Returned ∧
      (∀ r, q = .returned none r → r.kind = .overload) ∧ s'.threads = ts.set t q ∧
      (ts = s.threads ∨ ∃ c, ts = s.threads.map (Pc.notify c)) := by
  cases hs with
  | call key => exact Or.inl ⟨key, rfl⟩
  | full ht => exact Or.inr ⟨_, _, _, _, ht, id, by simp [overload], rfl, Or.inl rfl⟩
  | refuse ht => exact Or.inr ⟨_, _, _, _, ht, id, by simp [overload], rfl, Or.inl rfl⟩
  | notify ht => exact Or.inr ⟨_, _, _, _, ht, id, by simp, rfl, Or.inr ⟨_, rfl⟩⟩
  | enter ht => exact Or.inr ⟨_, _, _, _, ht, id, by simp, rfl, Or.inl rfl⟩
  | join ht => exact Or.inr ⟨_, _, _, _, ht, id, by simp, rfl, Or.inl rfl⟩
  | lead ht => exact Or.inr ⟨_, _, _, _, ht, id, by simp, rfl, Or.inl rfl⟩
  | lock ht => exact Or.inr ⟨_, _, _, _, ht, id, by simp, rfl, Or.inl rfl⟩
  | share ht => exact Or.inr ⟨_, _, _, _, ht, id, by simp, rfl, Or.inl rfl⟩
  | sleep ht => exact Or.inr ⟨_, _, _, _, ht, id, by simp, rfl, Or.inl rfl⟩
  | leave ht => exact Or.inr ⟨_, _, _, _, ht, id, by simp, rfl, Or.inl rfl⟩
  | drop ht => exact Or.inr ⟨_, _, _, _, ht, id, by simp, rfl, Or.inl rfl⟩
  | answer ht => exact Or.inr ⟨_, _, _, _, ht, id, by simp, rfl, Or.inl rfl⟩
  | load out ht => exact Or.inr ⟨_, _, _, _, ht, id, by simp, rfl, Or.inl rfl⟩
  | hold ht => exact Or.inr ⟨_, _, _, _, ht, id, by simp, rfl, Or.inl rfl⟩
  | publish ht => exact Or.inr ⟨_, _, _, _, ht, id, by simp, rfl, Or.inl rfl⟩
  | claim ht => exact Or.inr ⟨_, _, _, _, ht, id, by simp, rfl, Or.inl rfl⟩
  | remove ht => exact Or.inr ⟨_, _, _, _, ht, id, by simp, rfl, Or.inl rfl⟩
  | wake ht => exact Or.inr ⟨_, _, _, _, ht, id, by simp, rfl, Or.inl rfl⟩

/-- What a call that has returned answered. -/
def returnedAt (s : State) (t : Nat) (of : Option Nat) (r : SingleFlightResult) : Prop :=
  s.threads[t]? = some (.returned of r)

theorem returnedAt_notify {ts : List Pc} {t c : Nat} {of : Option Nat} {r : SingleFlightResult} :
    (ts.map (Pc.notify c))[t]? = some (.returned of r) ↔ ts[t]? = some (.returned of r) := by
  rw [List.getElem?_map, Option.map_eq_some_iff]
  constructor
  · rintro ⟨p, hp, hn⟩
    cases p with
    | sleeping d =>
      simp only [Pc.notify] at hn
      split at hn <;> cases hn
    | _ => simp_all [Pc.notify]
  · intro h
    exact ⟨_, h, rfl⟩

/-- A call returns once: its answer stays as it is. -/
theorem returnedAt_step {t : Nat} {of : Option Nat} {r : SingleFlightResult}
    (h : s.returnedAt t of r) (hs : s.step cfg l = some s') : s'.returnedAt t of r := by
  rw [returnedAt] at h ⊢
  rcases (step_cases hs).moves with ⟨key, hts⟩ | ⟨u, p, q, ts, hu, hp, -, hts, hold⟩
  · rw [hts, List.getElem?_append_left (lt_of_getElem? h)]
    exact h
  · have hne : t ≠ u := by
      rintro rfl
      rw [h] at hu
      cases hu
      exact hp trivial
    rw [hts, getElem?_set_ne hne]
    rcases hold with rfl | ⟨c, rfl⟩
    · exact h
    · exact returnedAt_notify.mpr h

/-- A call that neither led nor joined was turned away. -/
theorem overload_step (h : ∀ t r, s.returnedAt t none r → r.kind = .overload)
    (hs : s.step cfg l = some s') : ∀ t r, s'.returnedAt t none r → r.kind = .overload := by
  intro t r hr
  rw [returnedAt] at hr
  rcases (step_cases hs).moves with ⟨key, hts⟩ | ⟨u, p, q, ts, hu, -, hq, hts, hold⟩
  · rw [hts, List.getElem?_append] at hr
    split at hr
    · exact h t r hr
    · simp only [List.getElem?_singleton] at hr
      split at hr <;> cases hr
  · by_cases hne : t = u
    · subst hne
      rw [hts, List.getElem?_set, if_pos rfl] at hr
      split at hr
      · exact hq r (Option.some.inj hr)
      · cases hr
    · rw [hts, getElem?_set_ne hne] at hr
      rcases hold with rfl | ⟨c, rfl⟩
      · exact h t r hr
      · exact h t r (returnedAt_notify.mp hr)

/-- What calls of `do_flight` can rely on in a state they reach. -/
structure Safe (cfg : Config) (s : State) : Prop where
  /-- At most one loader per key runs at a time. -/
  one_loader : ∀ (t t' : Nat) key c c', s.threads[t]? = some (.loading key c) →
    s.threads[t']? = some (.loading key c') → t = t'
  /-- The loader of a `Call` runs once. -/
  loads_once : (s.loads.map Prod.fst).Nodup
  /-- Without a `Call` of its own or to share, the answer is `Overload`. -/
  turned_away : ∀ t r, s.returnedAt t none r → r.kind = .overload
  /-- The leader and the waiters of a `Call` all return what its loader run gave. -/
  shared : ∀ t c r, s.returnedAt t (some c) r → ∃ out, (c, out) ∈ s.loads ∧ r = outcome out
  /-- A call returns once. -/
  returns_once : ∀ t of r, s.returnedAt t of r →
    ∀ ls s', Machine.run (State.step cfg) s ls = some s' → s'.returnedAt t of r
  /-- Whatever the loaders do when they end, all calls can return, -/
  can_return : ∀ outs, ∃ ls s', (∀ l ∈ ls, l.Resumes outs) ∧
    Machine.run (State.step cfg) s ls = some s' ∧ ∀ p ∈ s'.threads, p.Returned
  /-- and no schedule puts that off for ever. -/
  settles : ∀ outs, ∃ n, ∀ ls s', (∀ l ∈ ls, l.Resumes outs) →
    Machine.run (State.step cfg) s ls = some s' → ls.length ≤ n
  inflight_le : s.inflight.entries.length ≤ cfg.maxInflight
  waiters_le : ∀ call ∈ s.calls, call.waiters ≤ cfg.maxWaitersPerKey
  /-- A key is registered exactly while a leader for it is under way. -/
  registered : ∀ key, key ∈ s.inflight ↔ ∃ t c, At Pc.leads s.threads t (key, c)
  idle : (∀ p ∈ s.threads, p.Returned) → s.inflight = ∅
  /-- Nothing is stuck. -/
  progress : (∃ p ∈ s.threads, ¬ p.Returned) → (∀ (t : Nat) key c, s.threads[t]? ≠ some (.loading key c)) →
    ∃ t s', s.step cfg (.step t) = some s'

theorem Inv.one_loader (h : Inv cfg s) {t t' c c' : Nat} {key : Bytes}
    (h1 : s.threads[t]? = some (.loading key c)) (h2 : s.threads[t']? = some (.loading key c')) :
    t = t' := by
  have l1 : At Pc.leads s.threads t (key, c) := ⟨_, h1, rfl⟩
  have l2 : At Pc.leads s.threads t' (key, c') := ⟨_, h2, rfl⟩
  have e1 := (h.registry.registered key c).mpr ⟨t, l1⟩
  have e2 := (h.registry.registered key c').mpr ⟨t', l2⟩
  rw [e1] at e2
  cases e2
  exact h.registry.leader l1 l2

theorem Inv.mem_inflight (h : Inv cfg s) {key : Bytes} :
    key ∈ s.inflight ↔ ∃ t c, At Pc.leads s.threads t (key, c) := by
  rw [← AList.lookup_isSome, Option.isSome_iff_exists]
  constructor
  · rintro ⟨c, hc⟩
    obtain ⟨t, ht⟩ := (h.registry.registered key c).mp hc
    exact ⟨t, c, ht⟩
  · rintro ⟨t, c, ht⟩
    exact ⟨c, (h.registry.registered key c).mpr ⟨t, ht⟩⟩

theorem Inv.inflight_eq_empty (h : Inv cfg s) (hall : ∀ p ∈ s.threads, p.Returned) :
    s.inflight = ∅ := by
  have none : ∀ key, key ∉ s.inflight := by
    intro key hk
    obtain ⟨t, c, p, hp, hl⟩ := h.mem_inflight.mp hk
    exact Pc.unfinished_of_leads hl (hall p (List.mem_of_getElem? hp))
  apply AList.ext
  have hkeys : s.inflight.keys = [] := List.eq_nil_iff_forall_not_mem.mpr fun k hk => none k hk
  simpa [AList.keys, List.keys] using hkeys

/-- **`do_flight` is safe**: for all limits, keys, loaders and orders of the critical sections. -/
theorem doFlight_safe (maxInflight maxWaitersPerKey : Nat) (ls : List Label) (s : State)
    (hr : Machine.run (State.step (configure maxInflight maxWaitersPerKey)) {} ls = some s) :
    Safe (configure maxInflight maxWaitersPerKey) s := by
  have h := inv_run hr
  refine ⟨fun t t' key c c' => h.one_loader, h.results.once, ?_, ?_, ?_, ?_, ?_, h.size, ?_,
    fun key => h.mem_inflight, h.inflight_eq_empty, ?_⟩
  · refine Machine.run_preserves (I := fun s => ∀ t r, s.returnedAt t none r → r.kind = .overload)
      _ (fun _ _ _ h hs => overload_step h hs) ?_ hr
    intro t r h
    cases h
  · intro t c r hret
    obtain ⟨hd, hres⟩ := h.results.known t c r ⟨_, hret, rfl⟩
    obtain ⟨out, hm, ho⟩ := h.results.done c hd
    exact ⟨out, hm, hres.symm.trans ho⟩
  · intro t of r hret ls s' hrun
    exact Machine.run_preserves (I := fun s => s.returnedAt t of r) _
      (fun _ _ _ h hs => returnedAt_step h hs) hret hrun
  · exact fun outs => h.completes outs (le_refl _)
  · exact fun outs => ⟨s.measure, fun ls s' hl hrun => h.length_le hl hrun⟩
  · intro call hc
    obtain ⟨c, hc⟩ := List.mem_iff_getElem?.mp hc
    rw [← callAt_eq hc]
    exact h.waiters_le c
  · rintro ⟨p, hp, hr⟩ hload
    obtain ⟨t, ht⟩ := List.mem_iff_getElem?.mp hp
    refine h.progress ht hr ?_
    rintro u c ⟨q, hq, hl⟩
    cases q <;> simp only [Pc.loads, reduceCtorEq] at hl
    exact hload u _ _ hq

/-- A loader that throws, and a waiter that joins after the result was published and before the
key is removed. -/
def lateWaiter : List Label :=
  [.call (ascii "k"), .step 0, .step 0, .load 0 none, .step 0, .step 0, .call (ascii "k"),
    .step 1, .step 1, .step 0, .step 0, .step 0, .step 1, .step 1, .step 1, .step 1, .step 1]

theorem doFlight_safe_lateWaiter : ∃ s,
    Machine.run (State.step (configure 4 2)) {} lateWaiter = some s ∧
      s.returnedAt 0 (some 0) (outcome none) ∧ s.returnedAt 1 (some 0) (outcome none) ∧
      Safe (configure 4 2) s :=
  ⟨_, rfl, rfl, rfl, doFlight_safe 4 2 lateWaiter _ rfl⟩

end State

end SingleFlight
end UrlShortener
