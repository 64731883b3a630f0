import UrlShortener.Server.Interleaving
import UrlShortener.Server.Rounds

/-!
# UrlShortener.Server.Generation

Whether a worker that is late can reach the connection that reused its slot.

Every effect of a worker follows a generation check in a step of its own, so the check says
nothing about the moment of the effect: a slot closed and accepted on in between takes the effect
of the old task. Effects stay with their connection as long as the event loop bumps the generation
only while no worker stands between a check and its effect (`Quiet`); the numbers are 64 bits
wide, so it also must not bump it to one that an outstanding task of an older connection carries.
-/

namespace UrlShortener
namespace Http
namespace Slot

variable {σ : Type} {dispatch : σ → HttpRequest → σ × Dispatched} {s s' : State σ} {t g : Nat}
  {p q : Pc}

/-- Every effect was made while the slot had the generation of its task. -/
def Fresh (s : State σ) : Prop := ∀ e ∈ s.effects, e.slot = e.task

/-- No worker is between a check and its effect, and no outstanding task has the number that the
slot's generation is bumped to. -/
def Calm (s : State σ) : Prop :=
  (∀ p ∈ s.workers, p.window = none) ∧
    (∀ g ∈ s.queue, g % 2 ^ 64 ≠ (s.conn.generation + 1) % 2 ^ 64) ∧
      ∀ p ∈ s.workers, ∀ g ∈ p.task, g % 2 ^ 64 ≠ (s.conn.generation + 1) % 2 ^ 64

/-- Slots are closed and reused in calm states. -/
def Quiet (s : State σ) : Label → Prop
  | .init _ _ => Calm s
  | .invalidate => Calm s
  | _ => True

instance (s : State σ) : Decidable (Calm s) := inferInstanceAs (Decidable (_ ∧ _ ∧ _))

instance (s : State σ) : ∀ l, Decidable (Quiet s l)
  | .init _ _ => inferInstanceAs (Decidable (Calm s))
  | .invalidate => inferInstanceAs (Decidable (Calm s))
  | .readable _ _ => isTrue trivial
  | .writable _ _ => isTrue trivial
  | .take => isTrue trivial
  | .work _ => isTrue trivial

structure Tagged (s : State σ) : Prop where
  /-- Who has passed a check works for the connection that is on the slot. -/
  window : ∀ t g, Threads.At Pc.window s.workers t g → g = s.conn.generation
  /-- The check tells an outstanding task of another connection. -/
  outstanding : ∀ g, s.Outstanding g → s.conn.generationMatches g = true → g = s.conn.generation
  fresh : Fresh s

theorem tagged_init (st : σ) (slot : HttpConn) : Tagged ({ store := st, conn := slot } : State σ) := by
  refine ⟨?_, ?_, by simp [Fresh]⟩
  · rintro t g ⟨p, hp, -⟩
    cases hp
  · rintro g (hq | ⟨t, p, hp, -⟩)
    · cases hq
    · cases hp

theorem generationMatches_of_identity {c c' : HttpConn} (h : c'.identity = c.identity) :
    c'.generationMatches g = c.generationMatches g := by
  unfold HttpConn.generationMatches
  rw [State.generation_of_identity h]

theorem Tagged.handled (h : Tagged s) (hh : s.Handled s') : Tagged s' := by
  have hgen := State.generation_of_identity hh.identity
  refine ⟨?_, ?_, ?_⟩
  · intro t g hw
    rw [hgen]
    exact h.window t g (hh.workers ▸ hw)
  · intro g ho hm
    rw [hgen]
    rw [generationMatches_of_identity hh.identity] at hm
    rcases hh.outstanding ho with ho | rfl
    · exact h.outstanding g ho hm
    · rfl
  · rw [Fresh, hh.effects]
    exact h.fresh

theorem Tagged.advance (h : Tagged s) (hp : s.workers[t]? = some p)
    (ha : s.Advanced t p q s') : Tagged s' := by
  have hgen := State.generation_of_identity ha.identity
  refine ⟨?_, ?_, ?_⟩
  · intro u g hw
    rw [hgen]
    rw [ha.workers] at hw
    rcases Threads.at_of_at_set hp hw with hw | ⟨-, hq⟩
    · exact h.window u g hw
    · rcases ha.window g hq with hw | ⟨htask, hm⟩
      · exact h.window t g ⟨p, hp, hw⟩
      · exact h.outstanding g (Or.inr ⟨t, p, hp, htask⟩) hm
  · intro g ho hm
    rw [hgen]
    rw [generationMatches_of_identity ha.identity] at hm
    exact h.outstanding g (ha.outstanding hp ho) hm
  · rcases ha.effects with he | ⟨call, g, hw, he⟩
    · rw [Fresh, he]
      exact h.fresh
    · intro e hmem
      rw [he, List.mem_append, List.mem_singleton] at hmem
      rcases hmem with hmem | rfl
      · exact h.fresh e hmem
      · exact (h.window t g ⟨p, hp, hw⟩).symm

/-- A bump in a calm state. -/
theorem Tagged.bump {c : HttpConn} {loop : Loop} {armed : Option Interest} (h : Tagged s)
    (hc : Calm s) (hgen : c.generation = s.conn.generation + 1) :
    Tagged { s with conn := c, loop := loop, armed := armed } := by
  refine ⟨?_, ?_, h.fresh⟩
  · rintro t g ⟨p, hp, hw⟩
    rw [hc.1 p (List.mem_of_getElem? hp)] at hw
    cases hw
  · intro g ho hm
    have hmod : g % 2 ^ 64 = (s.conn.generation + 1) % 2 ^ 64 := by
      rw [← hgen]
      exact (of_decide_eq_true hm).symm
    rcases ho with hq | ⟨t, p, hp, ht⟩
    · exact absurd hmod (hc.2.1 g hq)
    · exact absurd hmod (hc.2.2 p (List.mem_of_getElem? hp) g ht)

theorem Tagged.step {l : Label} (h : Tagged s) (hq : Quiet s l)
    (hs : s.step dispatch l = some s') : Tagged s' := by
  cases l with
  | init connfd trigMode =>
    simp only [State.step] at hs
    split at hs
    · cases hs
      exact h.bump hq rfl
    · cases hs
  | invalidate =>
    simp only [State.step] at hs
    split at hs
    · cases hs
      exact h.bump hq rfl
    · cases hs
  | readable rs a => exact h.handled (State.step_readable hs).2.1
  | writable ws a => exact h.handled (State.step_writable hs).2
  | take =>
    obtain ⟨g, queue, hqueue, rfl⟩ := State.step_take hs
    refine ⟨?_, ?_, h.fresh⟩
    · intro t g' hw
      exact h.window t g' ((Threads.at_append_of_none rfl).mp hw)
    · intro g' ho hm
      refine h.outstanding g' ?_ hm
      rcases ho with hmem | ⟨t, ht⟩
      · exact Or.inl (hqueue ▸ List.mem_cons_of_mem g hmem)
      · rcases Threads.at_append.mp ht with ht | ⟨-, htask⟩
        · exact Or.inr ⟨t, ht⟩
        · cases htask
          exact Or.inl (hqueue ▸ List.mem_cons_self)
  | work t =>
    obtain ⟨p, q, hp, ha⟩ := State.step_work hs
    exact h.advance hp ha

variable (dispatch) in
/-- **No late effect.** If slots are closed and reused in calm states only, then in every state of
every run, over any number of connections, every effect of a worker was made while the slot still
had the generation of its task. -/
theorem effects_fresh (st : σ) (slot : HttpConn) (ls : List Label) (s : State σ)
    (hq : Machine.Along (State.step dispatch) Quiet { store := st, conn := slot } ls)
    (hr : Machine.run (State.step dispatch) { store := st, conn := slot } ls = some s) : Fresh s :=
  (Machine.run_invariant (State.step dispatch) (fun _ _ _ h hq hs => Tagged.step h hq hs)
    (tagged_init st slot) hq hr).fresh

/-- A bad request whose connection is closed and whose slot is reused while the worker has its
answer and has not yet checked the generation again. -/
def reusedBehindDispatch : List Label :=
  [.init 5 0, .readable [.data [LF]] .accepted, .take, .work 0, .work 0, .work 0, .work 0,
    .invalidate, .init 5 0, .work 0]

theorem effects_fresh_reused : ∃ s,
    Machine.run (State.step Session.noRoutes) ({ store := () } : State Unit)
        reusedBehindDispatch = some s ∧
      s.workers = [.returned] ∧ s.effects = [⟨.processRead, 1, 1⟩] ∧ Fresh s := by
  have hrun : (Machine.run (State.step Session.noRoutes) ({ store := () } : State Unit)
      reusedBehindDispatch).map (fun s => (s.workers, s.effects)) =
        some ([.returned], [⟨.processRead, 1, 1⟩]) := by
    decide +kernel
  obtain ⟨s, hs, he⟩ := Option.map_eq_some_iff.mp hrun
  obtain ⟨hw, heff⟩ := Prod.mk.inj he
  exact ⟨s, hs, hw, heff, effects_fresh Session.noRoutes () {} _ s (by decide +kernel) hs⟩

/-- The slot is reused between the entry check of `process` and its `process_read`, which then
works on the new connection. -/
theorem effects_fresh_fails : ¬ ∀ (ls : List Label) (s : State Unit),
    Machine.run (State.step Session.noRoutes) { store := () } ls = some s → Fresh s := by
  intro hall
  have hrun : (Machine.run (State.step Session.noRoutes) ({ store := () } : State Unit)
      [.init 5 0, .readable [.data [LF]] .accepted, .take, .work 0, .work 0,
        .invalidate, .init 5 0, .work 0]).map State.effects = some [⟨.processRead, 1, 3⟩] := by
    decide +kernel
  obtain ⟨s, hs, he⟩ := Option.map_eq_some_iff.mp hrun
  have hfresh := hall _ s hs ⟨.processRead, 1, 3⟩ (by simp [he])
  cases hfresh

end Slot
end Http
end UrlShortener
