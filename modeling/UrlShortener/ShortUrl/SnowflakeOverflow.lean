import UrlShortener.Base.Machine
import UrlShortener.ShortUrl.Snowflake

/-!
# UrlShortener.ShortUrl.SnowflakeOverflow

`next_id` when it throws. The range check stands between the two stores: `sequence_` is set
before it and `last_second_` after it. A call that throws because the clock is beyond the last
second an id can hold has put `sequence_` back to 0, and if the clock returns to `last_second_`
the sequence numbers of that second are counted once more.

Nothing is lost when `sequence_` was 0 already (`Harmless`).
-/

namespace UrlShortener
namespace Snowflake

/-- One generator and the ids it has returned, in this order. -/
structure History where
  generator : SnowflakeIdGenerator := {}
  ids : List UInt64 := []

/-- One call on the readings it gets; it does not end as long as it waits. -/
def History.call (w : WorkerId) (s : History) (clock : List Int64) : Option History :=
  match nextId w s.generator clock with
  | .returned id g _ => some { generator := g, ids := s.ids ++ [id] }
  | .threw g _ => some { s with generator := g }
  | .waiting => none

def throws (w : WorkerId) (g : SnowflakeIdGenerator) (clock : List Int64) : Bool :=
  match nextId w g clock with
  | .threw _ _ => true
  | _ => false

/-- The call throws and leaves both fields as they were. -/
def LeavesIntact (w : WorkerId) (g : SnowflakeIdGenerator) (clock : List Int64) : Prop :=
  ∀ g' rest, nextId w g clock = .threw g' rest →
    g'.lastSecond = g.lastSecond ∧ g'.sequence = g.sequence

/-- The first reading is behind `last_second_`, of which only the first sequence number was used. -/
def Harmless (g : SnowflakeIdGenerator) (clock : List Int64) : Prop :=
  g.sequence = 0 ∧ (clock.head?.any fun r => decide (g.lastSecond < currentSeconds r)) = true

instance (g : SnowflakeIdGenerator) (clock : List Int64) : Decidable (Harmless g clock) :=
  inferInstanceAs (Decidable (_ ∧ _))

variable {w : WorkerId} {g g' : SnowflakeIdGenerator} {clock rest : List Int64}

theorem throws_iff : throws w g clock = true ↔ ∃ g' rest, nextId w g clock = .threw g' rest := by
  unfold throws
  cases nextId w g clock <;> simp

theorem issue_threw {now : UInt64} (h : issue w g now clock = .threw g' rest) : g' = g := by
  simp only [issue] at h
  split at h
  · cases h
    rfl
  · cases h

/-- What a call that throws has done: `last_second_` stands, and `sequence_` was counted up within
a second that is already out of range or put back to 0. -/
theorem nextId_threw (h : nextId w g clock = .threw g' rest) : g'.lastSecond = g.lastSecond ∧
    ∃ r clock', clock = r :: clock' ∧
      ((g.lastSecond < currentSeconds r ∧ g'.sequence = 0) ∨
        (currentSeconds r ≤ g.lastSecond ∧ g.sequence < kMaxSequence ∧
          g'.sequence = g.sequence + 1) ∨
        (currentSeconds r ≤ g.lastSecond ∧ kMaxSequence ≤ g.sequence ∧ g'.sequence = 0)) := by
  cases clock with
  | nil => cases h
  | cons r clock =>
    simp only [nextId] at h
    by_cases hpast : g.lastSecond < currentSeconds r
    · have hnot : ¬ currentSeconds r < g.lastSecond :=
        fun hlt => UInt64.lt_irrefl _ (UInt64.lt_trans hpast hlt)
      have hne : currentSeconds r ≠ g.lastSecond :=
        fun he => UInt64.lt_irrefl _ (he ▸ hpast)
      rw [if_neg hnot, if_neg hne] at h
      obtain rfl := issue_threw h
      exact ⟨rfl, r, clock, rfl, Or.inl ⟨hpast, rfl⟩⟩
    · have hle : currentSeconds r ≤ g.lastSecond := UInt64.not_lt.mp hpast
      have hnow : (if currentSeconds r < g.lastSecond then g.lastSecond else currentSeconds r) =
          g.lastSecond := by
        split
        · rfl
        · rename_i hlt
          exact UInt64.le_antisymm hle (UInt64.not_lt.mp hlt)
      rw [hnow, if_pos rfl] at h
      split at h
      · rename_i hfull
        cases hw : waitNextSecond g.lastSecond clock with
        | none =>
          rw [hw] at h
          cases h
        | some p =>
          rw [hw] at h
          obtain rfl := issue_threw h
          exact ⟨rfl, r, clock, rfl, Or.inr (Or.inr ⟨hle, hfull, rfl⟩)⟩
      · rename_i hfull
        obtain rfl := issue_threw h
        exact ⟨rfl, r, clock, rfl, Or.inr (Or.inl ⟨hle, UInt64.not_le.mp hfull, rfl⟩)⟩

theorem succ_ne_self (x : UInt64) : x + 1 ≠ x := by
  intro he
  have := UInt64.toNat_inj.mpr he
  rw [UInt64.toNat_add, UInt64.toNat_one] at this
  have := x.toNat_lt
  omega

/-- **When a call that throws leaves the generator intact.** -/
theorem leavesIntact_iff (hthrows : throws w g clock = true) :
    LeavesIntact w g clock ↔ Harmless g clock := by
  obtain ⟨g', rest, h⟩ := throws_iff.mp hthrows
  obtain ⟨hlast, r, clock', rfl, hcases⟩ := nextId_threw h
  constructor
  · intro hintact
    have hseq := (hintact g' rest h).2
    rcases hcases with ⟨hpast, hzero⟩ | ⟨-, -, hsucc⟩ | ⟨-, hfull, hzero⟩
    · exact ⟨hseq ▸ hzero, by simpa using hpast⟩
    · exact absurd (hsucc.symm.trans hseq) (succ_ne_self _)
    · rw [← hseq, hzero] at hfull
      exact absurd hfull (by decide)
  · rintro ⟨hzero, hpast⟩ g₂ rest₂ h₂
    simp only [List.head?_cons, Option.any_some, decide_eq_true_eq] at hpast
    rw [h] at h₂
    cases h₂
    refine ⟨hlast, ?_⟩
    rcases hcases with ⟨-, hseq⟩ | ⟨hle, -⟩ | ⟨hle, -⟩
    · rw [hseq, hzero]
    · exact absurd (UInt64.lt_of_lt_of_le hpast hle) (UInt64.lt_irrefl _)
    · exact absurd (UInt64.lt_of_lt_of_le hpast hle) (UInt64.lt_irrefl _)

/-! ## Runs that mix both kinds of calls -/

/-- Every id returned so far was packed from fields that the generator has passed or holds. -/
structure Behind (w : WorkerId) (s : History) : Prop where
  sound : ∀ id ∈ s.ids, ∃ i : Issued, i.id = id ∧ i.Sound w ∧
    (Advances i.after s.generator ∨
      i.after.lastSecond = s.generator.lastSecond ∧ i.after.sequence = s.generator.sequence)
  growing : s.ids.Pairwise (· < ·)

theorem behind_init (w : WorkerId) : Behind w {} := ⟨by simp, .nil⟩

theorem Advances.of_eq {g₁ g₂ g₃ : SnowflakeIdGenerator} (hl : g₁.lastSecond = g₂.lastSecond)
    (hs : g₁.sequence = g₂.sequence) (h : Advances g₂ g₃) : Advances g₁ g₃ := by
  rw [Advances, hl, hs]
  exact h

theorem Behind.call {s s' : History} (h : Behind w s)
    (hok : throws w s.generator clock = true → Harmless s.generator clock)
    (hs : s.call w clock = some s') : Behind w s' := by
  unfold History.call at hs
  cases hc : nextId w s.generator clock with
  | waiting =>
    rw [hc] at hs
    cases hs
  | threw g' rest =>
    rw [hc] at hs
    cases hs
    have hthrows := throws_iff.mpr ⟨g', rest, hc⟩
    obtain ⟨hlast, hseq⟩ := (leavesIntact_iff hthrows).mpr (hok hthrows) g' rest hc
    refine ⟨fun id hid => ?_, h.growing⟩
    obtain ⟨i, hi, hsound, hbehind⟩ := h.sound id hid
    refine ⟨i, hi, hsound, ?_⟩
    simp only [Advances, hlast, hseq]
    exact hbehind
  | returned id g' rest =>
    rw [hc] at hs
    cases hs
    obtain ⟨hid, hlt, hadv⟩ := nextId_returned hc
    have hnew : Issued.Sound w ⟨id, g'⟩ := ⟨hid, hlt⟩
    -- an id from before is behind the generator, which has moved on
    have hold : ∀ old ∈ s.ids, ∃ i : Issued, i.id = old ∧ i.Sound w ∧ Advances i.after g' := by
      intro old hmem
      obtain ⟨i, hi, hsound, hbehind⟩ := h.sound old hmem
      refine ⟨i, hi, hsound, ?_⟩
      rcases hbehind with hbehind | ⟨hl, hsq⟩
      · exact hbehind.trans hadv
      · exact hadv.of_eq hl hsq
    refine ⟨fun id' hid' => ?_, ?_⟩
    · rcases List.mem_append.mp hid' with hmem | hmem
      · obtain ⟨i, hi, hsound, hbehind⟩ := hold id' hmem
        exact ⟨i, hi, hsound, Or.inl hbehind⟩
      · obtain rfl := List.mem_singleton.mp hmem
        exact ⟨⟨id', g'⟩, rfl, hnew, Or.inr ⟨rfl, rfl⟩⟩
    · refine List.pairwise_append.mpr ⟨h.growing, by simp, fun old hmem id' hid' => ?_⟩
      obtain rfl := List.mem_singleton.mp hid'
      obtain ⟨i, rfl, hsound, hbehind⟩ := hold old hmem
      exact hsound.lt hnew hbehind

/-- **Failed calls.** A call that throws leaves the generator intact exactly when it is harmless;
and in a run, under any clock, in which the calls that throw are harmless, the ids returned are
distinct, in fact growing. -/
theorem overflow_intact_iff (w : WorkerId) (clocks : List (List Int64)) (s : History)
    (hok : Machine.Along (History.call w)
      (fun s clock => throws w s.generator clock = true → Harmless s.generator clock) {} clocks)
    (hr : Machine.run (History.call w) {} clocks = some s) :
    (∀ g clock, throws w g clock = true → (LeavesIntact w g clock ↔ Harmless g clock)) ∧
      s.ids.Pairwise (· < ·) ∧ s.ids.Nodup := by
  have h : Behind w s := Machine.run_invariant (History.call w)
    (fun _ _ _ h hok hs => h.call hok hs) (behind_init w) hok hr
  exact ⟨fun g clock hthrows => leavesIntact_iff hthrows, h.growing,
    h.growing.imp fun hlt => UInt64.ne_of_lt hlt⟩

/-- One id in a second, a clock far beyond the range, and the same second again. -/
def overflowOnce : List (List Int64) := [[1767225605], [4000000000], [1767225605]]

theorem overflow_intact_iff_once : ∃ s, Machine.run (History.call (.mask 7)) {} overflowOnce = some s ∧
    s.ids.length = 2 ∧ s.ids.Nodup :=
  ⟨_, rfl, rfl, (overflow_intact_iff (.mask 7) overflowOnce _ (by decide +kernel) rfl).2.2⟩

/-- The same after two ids in the second. -/
def overflowTwice : List (List Int64) :=
  [[1767225605], [1767225605], [4000000000], [1767225605]]

/-- The second id is returned again. -/
theorem overflow_repeats : ¬ ∀ (w : WorkerId) (clocks : List (List Int64)) (s : History),
    Machine.run (History.call w) {} clocks = some s → s.ids.Nodup := by
  intro hall
  exact absurd (hall (.mask 7) overflowTwice _ rfl) (by decide +kernel)

end Snowflake
end UrlShortener
