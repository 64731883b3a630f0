import Mathlib.Data.Option.Basic

/-!
# UrlShortener.Base.Machine

Machines given by a step function `S → L → Option S`; `none` says that the action is not possible
in that state. `run` does a list of actions, `Along ok` says that every action of a run is done in
a state that allows it, and `run_invariant` is the induction over runs.
-/

namespace UrlShortener
namespace Machine

variable {S L : Type} (step : S → L → Option S)

def run : S → List L → Option S
  | s, [] => some s
  | s, a :: as => (step s a).bind fun s' => run s' as

/-- Every action `a` of the run is done in a state `s` with `ok s a`. -/
def Along (ok : S → L → Prop) : S → List L → Prop
  | _, [] => True
  | s, a :: as => ok s a ∧ ∀ s', step s a = some s' → Along ok s' as

instance decidableAlong {ok : S → L → Prop} [∀ s a, Decidable (ok s a)] :
    ∀ (s : S) (as : List L), Decidable (Along step ok s as)
  | _, [] => isTrue trivial
  | s, a :: as =>
    match h : step s a with
    | none => decidable_of_iff (ok s a)
        ⟨fun ha => ⟨ha, fun _ hs => by rw [h] at hs; cases hs⟩, fun ha => ha.1⟩
    | some s' =>
      have : Decidable (Along step ok s' as) := decidableAlong s' as
      decidable_of_iff (ok s a ∧ Along step ok s' as)
        ⟨fun ha => ⟨ha.1, fun _ hs => by rw [h] at hs; cases hs; exact ha.2⟩,
          fun ha => ⟨ha.1, ha.2 s' h⟩⟩

theorem run_single (s : S) (a : L) : run step s [a] = step s a := by
  cases h : step s a <;> simp only [run, h] <;> rfl

theorem run_append (s : S) (as bs : List L) :
    run step s (as ++ bs) = (run step s as).bind fun s' => run step s' bs := by
  induction as generalizing s with
  | nil => rfl
  | cons a as ih =>
    simp only [List.cons_append, run, Option.bind_assoc]
    congr 1
    funext s'
    exact ih s'

/-- **Invariants.** What holds at the start and is kept by every allowed step holds at the end. -/
theorem run_invariant {I : S → Prop} {ok : S → L → Prop}
    (hstep : ∀ s a s', I s → ok s a → step s a = some s' → I s') {s s' : S} {as : List L}
    (h0 : I s) (hok : Along step ok s as) (hr : run step s as = some s') : I s' := by
  induction as generalizing s with
  | nil => cases hr; exact h0
  | cons a as ih =>
    obtain ⟨s₁, h1, h2⟩ := Option.bind_eq_some_iff.mp hr
    exact ih (hstep s a s₁ h0 hok.1 h1) (hok.2 s₁ h1) h2

/-- The same without a condition on the actions. -/
theorem run_preserves {I : S → Prop} (hstep : ∀ s a s', I s → step s a = some s' → I s')
    {s s' : S} {as : List L} (h0 : I s) (hr : run step s as = some s') : I s' := by
  induction as generalizing s with
  | nil => cases hr; exact h0
  | cons a as ih =>
    obtain ⟨s₁, h1, h2⟩ := Option.bind_eq_some_iff.mp hr
    exact ih (hstep s a s₁ h0 h1) h2

/-- When an allowed action is always possible, so is every allowed run. -/
theorem run_total {I : S → Prop} {ok : S → L → Prop}
    (hstep : ∀ s a, I s → ok s a → ∃ s', step s a = some s' ∧ I s') {s : S} {as : List L}
    (h0 : I s) (hok : Along step ok s as) : ∃ s', run step s as = some s' ∧ I s' := by
  induction as generalizing s with
  | nil => exact ⟨s, rfl, h0⟩
  | cons a as ih =>
    obtain ⟨s₁, h1, hI⟩ := hstep s a h0 hok.1
    obtain ⟨s', hr, hI'⟩ := ih hI (hok.2 s₁ h1)
    exact ⟨s', by rw [run, h1]; exact hr, hI'⟩

/-- An invariant that may speak of the actions done so far. -/
theorem run_history {I : List L → S → Prop}
    (hstep : ∀ as s a s', I as s → step s a = some s' → I (as ++ [a]) s')
    {s s' : S} {as : List L} (h0 : I [] s) (hr : run step s as = some s') : I as s' := by
  have key : ∀ (bs : List L) (s : S), I bs s → ∀ (as : List L), run step s as = some s' →
      I (bs ++ as) s' := by
    intro bs s h as
    induction as generalizing bs s with
    | nil => intro hr; cases hr; simpa using h
    | cons a as ih =>
      intro hr
      obtain ⟨s₁, h1, h2⟩ := Option.bind_eq_some_iff.mp hr
      simpa using ih (bs ++ [a]) s₁ (hstep bs s a s₁ h h1) h2
  exact key [] s h0 as hr

theorem Along.mono {ok ok' : S → L → Prop} (h : ∀ s a, ok s a → ok' s a) {s : S} {as : List L}
    (hs : Along step ok s as) : Along step ok' s as := by
  induction as generalizing s with
  | nil => trivial
  | cons a as ih => exact ⟨h s a hs.1, fun s' hs' => ih (hs.2 s' hs')⟩

/-- Two conditions that agree as long as they have held. -/
theorem along_congr {I : S → Prop} {ok ok' : S → L → Prop}
    (hiff : ∀ s a, I s → (ok s a ↔ ok' s a))
    (hstep : ∀ s a s', I s → ok s a → step s a = some s' → I s') {s : S} {as : List L} (h0 : I s) :
    Along step ok s as ↔ Along step ok' s as := by
  induction as generalizing s with
  | nil => exact Iff.rfl
  | cons a as ih =>
    constructor
    · rintro ⟨ha, hrest⟩
      exact ⟨(hiff s a h0).mp ha, fun s' hs => (ih (hstep s a s' h0 ha hs)).mp (hrest s' hs)⟩
    · rintro ⟨ha, hrest⟩
      have ha := (hiff s a h0).mpr ha
      exact ⟨ha, fun s' hs => (ih (hstep s a s' h0 ha hs)).mpr (hrest s' hs)⟩

theorem along_of_forall {ok : S → L → Prop} {s : S} {as : List L}
    (h : ∀ a ∈ as, ∀ s, ok s a) : Along step ok s as := by
  induction as generalizing s with
  | nil => trivial
  | cons a as ih =>
    exact ⟨h a (by simp) s, fun s' _ => ih fun a' ha => h a' (by simp [ha])⟩

theorem Along.and_forall {ok : S → L → Prop} {P : L → Prop} {s : S} {as : List L}
    (h : Along step ok s as) (hP : ∀ a ∈ as, P a) :
    Along step (fun s a => P a ∧ ok s a) s as := by
  induction as generalizing s with
  | nil => trivial
  | cons a as ih =>
    exact ⟨⟨hP a (by simp), h.1⟩, fun s' hs' => ih (h.2 s' hs') fun a' ha => hP a' (by simp [ha])⟩

theorem along_append {ok : S → L → Prop} {s : S} {as bs : List L}
    (ha : Along step ok s as) (hb : ∀ s', run step s as = some s' → Along step ok s' bs) :
    Along step ok s (as ++ bs) := by
  induction as generalizing s with
  | nil => exact hb s rfl
  | cons a as ih =>
    refine ⟨ha.1, fun s' hs' => ih (ha.2 s' hs') fun s₂ h₂ => hb s₂ ?_⟩
    rw [run, hs']
    exact h₂

/-- What holds at the end of a run has held from the start, or some step has made it true. -/
theorem run_cause {P : S → Prop} {s s' : S} {as : List L} (hr : run step s as = some s')
    (h : P s') : P s ∨ ∃ before a after s₁ s₂, as = before ++ a :: after ∧
      run step s before = some s₁ ∧ step s₁ a = some s₂ ∧ ¬ P s₁ ∧ P s₂ := by
  induction as generalizing s with
  | nil =>
    cases hr
    exact Or.inl h
  | cons a as ih =>
    obtain ⟨s₁, h1, h2⟩ := Option.bind_eq_some_iff.mp hr
    rcases ih h2 with hP | ⟨before, b, after, s₂, s₃, rfl, hbefore, hb, hno, hyes⟩
    · by_cases hs : P s
      · exact Or.inl hs
      · exact Or.inr ⟨[], a, as, s, s₁, rfl, rfl, h1, hs, hP⟩
    · refine Or.inr ⟨a :: before, b, after, s₂, s₃, rfl, ?_, hb, hno, hyes⟩
      rw [run, h1]
      exact hbefore

/-! ## Runs that come to an end -/

section Measure

variable {I : S → Prop} {ok : L → Prop} {weight : S → Nat}

/-- When every step lowers a weight, a run is no longer than the weight it uses up. -/
theorem run_length_le
    (hstep : ∀ s a s', I s → ok a → step s a = some s' → I s' ∧ weight s' < weight s)
    {s s' : S} {as : List L} (h0 : I s) (hok : ∀ a ∈ as, ok a) (hr : run step s as = some s') :
    as.length + weight s' ≤ weight s := by
  induction as generalizing s with
  | nil =>
    cases hr
    exact Nat.le_of_eq (Nat.zero_add _)
  | cons a as ih =>
    obtain ⟨s₁, h1, h2⟩ := Option.bind_eq_some_iff.mp hr
    obtain ⟨hI, hlt⟩ := hstep s a s₁ h0 (hok a List.mem_cons_self) h1
    have hle := ih hI (fun b hb => hok b (List.mem_cons_of_mem a hb)) h2
    rw [List.length_cons]
    omega

/-- **Countdown.** Each tick of a run lowers the rank, and nothing else raises it; so the run comes
past the goal before it has ticked too often. -/
theorem run_countdown {tick : L → Bool} {goal : S → Prop}
    (hstep : ∀ s a s', I s → ok a → ¬ goal s → step s a = some s' →
      goal s' ∨ I s' ∧ weight s' + (tick a).toNat ≤ weight s)
    {s s' : S} {as : List L} (h0 : I s) (hok : ∀ a ∈ as, ok a) (hr : run step s as = some s')
    (hticks : weight s < as.countP tick) :
    ∃ before after s₁, as = before ++ after ∧ run step s before = some s₁ ∧ goal s₁ := by
  induction as generalizing s with
  | nil => exact absurd hticks (Nat.not_lt_zero _)
  | cons a as ih =>
    obtain ⟨s₁, h1, h2⟩ := Option.bind_eq_some_iff.mp hr
    by_cases hgoal : goal s
    · exact ⟨[], a :: as, s, rfl, rfl, hgoal⟩
    rcases hstep s a s₁ h0 (hok a List.mem_cons_self) hgoal h1 with hgoal | ⟨hI, hle⟩
    · exact ⟨[a], as, s₁, rfl, by rw [run_single, h1], hgoal⟩
    · have hticks' : weight s₁ < as.countP tick := by
        rw [List.countP_cons] at hticks
        cases htick : tick a with
        | true =>
          simp only [htick, if_true, Bool.toNat_true] at hticks hle
          omega
        | false =>
          simp only [htick, Bool.false_eq_true, if_false, Bool.toNat_false] at hticks hle
          omega
      obtain ⟨before, after, s₂, rfl, hbefore, hgoal⟩ :=
        ih hI (fun b hb => hok b (List.mem_cons_of_mem a hb)) h2 hticks'
      refine ⟨a :: before, after, s₂, rfl, ?_, hgoal⟩
      rw [run, h1]
      exact hbefore

/-- When every step lowers a weight, a run can be carried on until nothing is possible any more. -/
theorem exists_run_blocked
    (hstep : ∀ s a s', I s → ok a → step s a = some s' → I s' ∧ weight s' < weight s)
    (s : S) (h0 : I s) : ∃ as s', (∀ a ∈ as, ok a) ∧ run step s as = some s' ∧
      ∀ a, ok a → step s' a = none := by
  induction hw : weight s using Nat.strongRecOn generalizing s with
  | _ n ih =>
    by_cases hmove : ∃ a s₁, ok a ∧ step s a = some s₁
    · obtain ⟨a, s₁, ha, h1⟩ := hmove
      obtain ⟨hI, hlt⟩ := hstep s a s₁ h0 ha h1
      obtain ⟨as, s', hok, hr, hend⟩ := ih (weight s₁) (hw ▸ hlt) s₁ hI rfl
      refine ⟨a :: as, s', ?_, by rw [run, h1]; exact hr, hend⟩
      exact List.forall_mem_cons.mpr ⟨ha, hok⟩
    · refine ⟨[], s, by simp, rfl, fun a ha => ?_⟩
      cases h1 : step s a with
      | none => rfl
      | some s₁ => exact absurd ⟨a, s₁, ha, h1⟩ hmove

end Measure

end Machine
end UrlShortener
