import Mathlib.Data.List.Basic
import Mathlib.Algebra.Order.BigOperators.Group.Finset

/-!
# UrlShortener.Base.Threads

Threads that take turns: a table `ts : List P` of program points, indexed by thread. A step of
thread `t` from `p` to `q` is `ts.set t q` with `ts[t]? = some p`, and a new thread is appended.

A role `f : P → Option X` says what a thread at a program point stands for: the lock it holds, the
entry it has registered, the object it waits on. `At f ts t x` is "thread `t` has role `x`", and
`Owns` ties the owner field of a lock to the one thread that has the role of holding it.
-/

namespace UrlShortener
namespace Threads

variable {P X : Type} {f : P → Option X} {ts : List P} {t u : Nat} {p q : P} {x y : X}

/-- Thread `t` has role `x`. -/
def At (f : P → Option X) (ts : List P) (t : Nat) (x : X) : Prop :=
  ∃ p, ts[t]? = some p ∧ f p = some x

theorem lt_of_getElem? (h : ts[t]? = some p) : t < ts.length := (List.getElem?_eq_some_iff.mp h).1

theorem getElem?_set_self (h : ts[t]? = some p) : (ts.set t q)[t]? = some q := by
  rw [List.getElem?_set, if_pos rfl, if_pos (lt_of_getElem? h)]

theorem getElem?_set_ne (h : u ≠ t) : (ts.set t q)[u]? = ts[u]? := by
  rw [List.getElem?_set, if_neg (Ne.symm h)]

theorem at_here (h : ts[t]? = some p) : At f ts t x ↔ f p = some x := by
  constructor
  · rintro ⟨p', hp', hf⟩
    rw [h] at hp'
    cases hp'
    exact hf
  · intro hf
    exact ⟨p, h, hf⟩

theorem at_set_self (h : ts[t]? = some p) : At f (ts.set t q) t x ↔ f q = some x :=
  at_here (getElem?_set_self h)

theorem at_set_ne (h : u ≠ t) : At f (ts.set t q) u x ↔ At f ts u x := by
  simp only [At, getElem?_set_ne h]

/-- A step that neither takes nor gives up the role `x` leaves it where it was. -/
theorem at_set_iff (h : ts[t]? = some p) (hf : f q = some x ↔ f p = some x) :
    At f (ts.set t q) u x ↔ At f ts u x := by
  by_cases hu : u = t
  · subst hu
    rw [at_set_self h, at_here h, hf]
  · exact at_set_ne hu

theorem at_set_of_eq (h : ts[t]? = some p) (hf : f q = f p) :
    At f (ts.set t q) u x ↔ At f ts u x := at_set_iff h (by rw [hf])

theorem At.of_set (ha : At f (ts.set t q) u x) (h : ts[t]? = some p) (hf : f q = f p) :
    At f ts u x := (at_set_of_eq h hf).mp ha

theorem At.set (ha : At f ts u x) (h : ts[t]? = some p) (hf : f q = f p) :
    At f (ts.set t q) u x := (at_set_of_eq h hf).mpr ha

/-- Whoever has role `x` after the step had it before, or is the thread of the step. -/
theorem at_of_at_set (h : ts[t]? = some p) (ha : At f (ts.set t q) u x) :
    At f ts u x ∨ u = t ∧ f q = some x := by
  by_cases hu : u = t
  · subst hu
    exact Or.inr ⟨rfl, (at_set_self h).mp ha⟩
  · exact Or.inl ((at_set_ne hu).mp ha)

/-- A thread without a role takes one. -/
theorem exists_at_set_of_none (h : ts[t]? = some p) (hp : f p = none) :
    (∃ u, At f (ts.set t q) u x) ↔ (∃ u, At f ts u x) ∨ f q = some x := by
  constructor
  · rintro ⟨u, hu⟩
    rcases at_of_at_set h hu with hu | ⟨-, hq⟩
    · exact Or.inl ⟨u, hu⟩
    · exact Or.inr hq
  · rintro (⟨u, hu⟩ | hq)
    · have hne : u ≠ t := by
        rintro rfl
        rw [at_here h, hp] at hu
        cases hu
      exact ⟨u, (at_set_ne hne).mpr hu⟩
    · exact ⟨t, (at_set_self h).mpr hq⟩

theorem at_append : At f (ts ++ [q]) u x ↔ At f ts u x ∨ u = ts.length ∧ f q = some x := by
  constructor
  · rintro ⟨p, hp, hf⟩
    rcases Nat.lt_trichotomy u ts.length with hlt | heq | hgt
    · rw [List.getElem?_append_left hlt] at hp
      exact Or.inl ⟨p, hp, hf⟩
    · subst heq
      simp only [List.getElem?_concat_length, Option.some.injEq] at hp
      subst hp
      exact Or.inr ⟨rfl, hf⟩
    · rw [List.getElem?_eq_none (by simp; omega)] at hp
      cases hp
  · rintro (⟨p, hp, hf⟩ | ⟨rfl, hf⟩)
    · exact ⟨p, by rw [List.getElem?_append_left (lt_of_getElem? hp)]; exact hp, hf⟩
    · exact ⟨q, List.getElem?_concat_length, hf⟩

/-- A new thread that has no role yet. -/
theorem at_append_of_none (hf : f q = none) : At f (ts ++ [q]) u x ↔ At f ts u x := by
  rw [at_append, hf]
  simp

theorem at_map {g : P → P} (hg : ∀ p, f (g p) = f p) : At f (ts.map g) u x ↔ At f ts u x := by
  simp only [At, List.getElem?_map, Option.map_eq_some_iff]
  constructor
  · rintro ⟨p, ⟨p', hp', rfl⟩, hf⟩
    exact ⟨p', hp', (hg p').symm.trans hf⟩
  · rintro ⟨p, hp, hf⟩
    exact ⟨g p, ⟨p, hp, rfl⟩, (hg p).trans hf⟩

/-! ## Locks -/

/-- The lock `x` is held by `owner` and by no other thread. -/
def Owns (f : P → Option X) (ts : List P) (x : X) (owner : Option Nat) : Prop :=
  ∀ t, owner = some t ↔ At f ts t x

theorem Owns.keep {owner : Option Nat} (h : Owns f ts x owner) (ht : ts[t]? = some p)
    (hf : f q = f p) : Owns f (ts.set t q) x owner :=
  fun u => (h u).trans (at_set_of_eq ht hf).symm

/-- A step on another lock. -/
theorem Owns.pass {owner : Option Nat} (h : Owns f ts x owner) (ht : ts[t]? = some p)
    (hp : f p ≠ some x) (hq : f q ≠ some x) : Owns f (ts.set t q) x owner :=
  fun u => (h u).trans (at_set_iff ht (by simp [hp, hq])).symm

theorem Owns.acquire (h : Owns f ts x none) (ht : ts[t]? = some p) (hq : f q = some x) :
    Owns f (ts.set t q) x (some t) := by
  intro u
  by_cases hu : u = t
  · subst hu
    rw [at_set_self ht]
    simp [hq]
  · rw [at_set_ne hu, ← h u]
    simp [Ne.symm hu]

theorem Owns.release {owner : Option Nat} (h : Owns f ts x owner) (ht : ts[t]? = some p)
    (hp : f p = some x) (hq : f q ≠ some x) : Owns f (ts.set t q) x none := by
  intro u
  have howner : owner = some t := (h t).mpr ⟨p, ht, hp⟩
  by_cases hu : u = t
  · subst hu
    rw [at_set_self ht]
    simp [hq]
  · rw [at_set_ne hu, ← h u, howner]
    simp [Ne.symm hu]

theorem Owns.spawn {owner : Option Nat} (h : Owns f ts x owner) (hq : f q = none) :
    Owns f (ts ++ [q]) x owner :=
  fun u => (h u).trans (at_append_of_none hq).symm

theorem Owns.map {owner : Option Nat} (h : Owns f ts x owner) {g : P → P}
    (hg : ∀ p, f (g p) = f p) : Owns f (ts.map g) x owner :=
  fun u => (h u).trans (at_map hg).symm

/-! ## Counting -/

/-- How many threads have role `x`. -/
def count [DecidableEq X] (f : P → Option X) (ts : List P) (x : X) : Nat :=
  ts.countP fun p => decide (f p = some x)

section Count

variable [DecidableEq X]

theorem count_cons : count f (p :: ts) x = count f ts x + if f p = some x then 1 else 0 := by
  simp [count, List.countP_cons]

theorem count_set (h : ts[t]? = some p) : count f (ts.set t q) x + (if f p = some x then 1 else 0) =
    count f ts x + if f q = some x then 1 else 0 := by
  obtain ⟨hlt, rfl⟩ := List.getElem?_eq_some_iff.mp h
  have hpos : f ts[t] = some x → 0 < count f ts x := fun hp =>
    List.countP_pos_iff.mpr ⟨_, List.getElem_mem hlt, decide_eq_true hp⟩
  simp only [count, List.countP_set hlt, decide_eq_true_eq] at hpos ⊢
  split
  · rename_i hp
    have := hpos hp
    omega
  · omega

theorem count_set_of_eq (h : ts[t]? = some p) (hf : f q = f p) :
    count f (ts.set t q) x = count f ts x := by
  have := count_set (f := f) (x := x) (q := q) h
  rw [hf] at this
  omega

theorem count_append :
    count f (ts ++ [q]) x = count f ts x + if f q = some x then 1 else 0 := by
  simp [count, List.countP_append, List.countP_cons]

theorem count_append_of_none (hf : f q = none) : count f (ts ++ [q]) x = count f ts x := by
  simp [count, hf]

theorem count_map {g : P → P} (hg : ∀ p, f (g p) = f p) : count f (ts.map g) x = count f ts x := by
  simp [count, List.countP_map, Function.comp_def, hg]

theorem count_pos (h : At f ts t x) : 0 < count f ts x := by
  obtain ⟨p, hp, hf⟩ := h
  exact List.countP_pos_iff.mpr ⟨p, List.mem_of_getElem? hp, decide_eq_true hf⟩

end Count

/-! ## What the threads hold together -/

theorem sum_map_set {M : Type} [AddCommMonoid M] (g : P → M) : ∀ {ts : List P} {t : Nat},
    ts[t]? = some p → ((ts.set t q).map g).sum + g p = (ts.map g).sum + g q := by
  intro ts
  induction ts with
  | nil => intro t h; cases h
  | cons p₀ ts ih =>
    intro t h
    cases t with
    | zero =>
      cases h
      simp only [List.set_cons_zero, List.map_cons, List.sum_cons]
      ac_rfl
    | succ t =>
      have := ih (t := t) h
      simp only [List.set_cons_succ, List.map_cons, List.sum_cons, add_assoc, this]

/-! ## Measures -/

/-- The total weight of a table of threads. -/
def total (w : P → Nat) (ts : List P) : Nat :=
  ∑ t ∈ Finset.range ts.length, ((ts[t]?).map w).getD 0

/-- The weights may change for all threads; the total drops if no thread gains and `t` loses. -/
theorem total_lt {w w' : P → Nat} {ts' : List P} (hlen : ts'.length = ts.length)
    (hle : ∀ (u : Nat) p p', ts[u]? = some p → ts'[u]? = some p' → w' p' ≤ w p)
    (ht : ts[t]? = some p) (ht' : ts'[t]? = some q) (hlt : w' q < w p) :
    total w' ts' < total w ts := by
  rw [total, total, hlen]
  apply Finset.sum_lt_sum
  · intro u hu
    have hu : u < ts.length := Finset.mem_range.mp hu
    have h1 := List.getElem?_eq_getElem hu
    have h2 := List.getElem?_eq_getElem (hlen.symm ▸ hu)
    rw [h1, h2]
    exact hle u _ _ h1 h2
  · refine ⟨t, Finset.mem_range.mpr (lt_of_getElem? ht), ?_⟩
    rw [ht, ht']
    exact hlt

theorem total_set_lt {w w' : P → Nat} (ht : ts[t]? = some p) (hle : ∀ p, w' p ≤ w p)
    (hlt : w' q < w p) : total w' (ts.set t q) < total w ts := by
  refine total_lt (List.length_set ..) ?_ ht (getElem?_set_self ht) hlt
  intro u p₁ p₂ h₁ h₂
  by_cases hu : u = t
  · subst hu
    rw [getElem?_set_self ht] at h₂
    rw [ht] at h₁
    cases h₁
    cases h₂
    exact hlt.le
  · rw [getElem?_set_ne hu, h₁] at h₂
    cases h₂
    exact hle p₁

end Threads
end UrlShortener
