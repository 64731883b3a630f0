import Mathlib.Algebra.Group.Basic
import Mathlib.Data.List.Pairwise

/-!
# UrlShortener.Base.SortedMap

A map as the list of its entries, by ascending key. Two maps with the same values have the same
entries (`ext_find`), so whatever is made of them in key order is the same too.

Where the values can be added, so can the maps: `add` is what adding the entries of one map to
those of another does, one by one. A key with the value 0 is not a missing key.
-/

namespace UrlShortener

structure SortedMap (K V : Type) [LT K] where
  entries : List (K × V)
  sorted : entries.Pairwise fun a b => a.1 < b.1

namespace SortedMap

variable {K V : Type}

section Lookup

variable [DecidableEq K] {es : List (K × V)} {k : K} {v : V}

def lookup (k : K) : List (K × V) → Option V
  | [] => none
  | e :: es => if e.1 = k then some e.2 else lookup k es

theorem lookup_eq_none (h : ∀ e ∈ es, e.1 ≠ k) : lookup k es = none := by
  induction es with
  | nil => rfl
  | cons e es ih =>
    rw [lookup, if_neg (h e (by simp))]
    exact ih fun e he => h e (by simp [he])

theorem mem_of_lookup (h : lookup k es = some v) : (k, v) ∈ es := by
  induction es with
  | nil => cases h
  | cons e es ih =>
    rw [lookup] at h
    split at h
    · rename_i hk
      cases h
      subst hk
      exact List.mem_cons_self
    · exact List.mem_cons_of_mem e (ih h)

end Lookup

variable [LT K]

instance : EmptyCollection (SortedMap K V) := ⟨⟨[], .nil⟩⟩

instance : Zero (SortedMap K V) := ⟨∅⟩

section Find

variable [DecidableEq K] {es es' : List (K × V)} {m m' : SortedMap K V} {k x : K} {v : V}

def find (m : SortedMap K V) (k : K) : Option V := lookup k m.entries

@[simp] theorem find_empty (k : K) : (∅ : SortedMap K V).find k = none := rfl

@[simp] theorem find_zero (k : K) : (0 : SortedMap K V).find k = none := rfl

variable [Std.Irrefl (α := K) (· < ·)]

theorem lookup_of_lt (h : ∀ e ∈ es, k < e.1) : lookup k es = none :=
  lookup_eq_none fun e he heq => Std.Irrefl.irrefl (r := (· < ·)) k (heq ▸ h e he)

theorem lookup_of_mem (hs : es.Pairwise fun a b => a.1 < b.1) (h : (k, v) ∈ es) :
    lookup k es = some v := by
  induction es with
  | nil => cases h
  | cons e es ih =>
    obtain ⟨hlt, hs⟩ := List.pairwise_cons.mp hs
    rw [lookup]
    rcases List.mem_cons.mp h with rfl | h
    · exact if_pos rfl
    · have hk : e.1 ≠ k := by
        rintro rfl
        exact Std.Irrefl.irrefl (r := (· < ·)) e.1 (hlt (e.1, v) h)
      rw [if_neg hk]
      exact ih hs h

theorem filter_lookup (hs : es.Pairwise fun a b => a.1 < b.1) (k : K) :
    es.filter (fun e => decide (e.1 = k)) = ((lookup k es).map fun v => (k, v)).toList := by
  induction es with
  | nil => rfl
  | cons e es ih =>
    obtain ⟨hlt, hs⟩ := List.pairwise_cons.mp hs
    rw [lookup, List.filter_cons]
    by_cases hk : e.1 = k
    · subst hk
      rw [if_pos (decide_eq_true rfl), ih hs, lookup_of_lt hlt, if_pos rfl]
      rfl
    · rw [if_neg (by simpa using hk), ih hs, if_neg hk]

/-- The entries of one key. -/
theorem filter_entries (m : SortedMap K V) (k : K) :
    m.entries.filter (fun e => decide (e.1 = k)) = ((m.find k).map fun v => (k, v)).toList :=
  filter_lookup m.sorted k

theorem find_eq_some_iff : m.find k = some v ↔ (k, v) ∈ m.entries :=
  ⟨mem_of_lookup, lookup_of_mem m.sorted⟩

variable [Trans (α := K) (· < ·) (· < ·) (· < ·)] [Std.Trichotomous (α := K) (· < ·)]

theorem entries_ext (hs : es.Pairwise fun a b => a.1 < b.1)
    (hs' : es'.Pairwise fun a b => a.1 < b.1) (h : ∀ k, lookup k es = lookup k es') :
    es = es' := by
  induction es generalizing es' with
  | nil =>
    cases es' with
    | nil => rfl
    | cons e' es' =>
      have hk := h e'.1
      rw [lookup, lookup, if_pos rfl] at hk
      cases hk
  | cons e es ih =>
    cases es' with
    | nil =>
      have hk := h e.1
      rw [lookup, lookup, if_pos rfl] at hk
      cases hk
    | cons e' es' =>
      obtain ⟨hlt, hs⟩ := List.pairwise_cons.mp hs
      obtain ⟨hlt', hs'⟩ := List.pairwise_cons.mp hs'
      -- the smaller of the two first keys would be missing in the other list
      have hkey : e.1 = e'.1 := by
        refine Std.Trichotomous.trichotomous (r := (· < ·)) e.1 e'.1 (fun hless => ?_) fun hless => ?_
        · have hk := h e.1
          have hnone : lookup e.1 (e' :: es') = none := lookup_of_lt fun d hd => by
            rcases List.mem_cons.mp hd with rfl | hd
            · exact hless
            · exact Trans.trans hless (hlt' d hd)
          rw [lookup, if_pos rfl, hnone] at hk
          cases hk
        · have hk := h e'.1
          have hnone : lookup e'.1 (e :: es) = none := lookup_of_lt fun d hd => by
            rcases List.mem_cons.mp hd with rfl | hd
            · exact hless
            · exact Trans.trans hless (hlt d hd)
          rw [hnone, lookup, if_pos rfl] at hk
          cases hk
      have hvalue : e.2 = e'.2 := by
        have hk := h e.1
        rw [lookup, lookup, if_pos rfl, if_pos hkey.symm] at hk
        exact Option.some.inj hk
      have hrest : es = es' := by
        refine ih hs hs' fun k => ?_
        by_cases hk : e.1 = k
        · subst hk
          rw [lookup_of_lt hlt, lookup_of_lt (hkey ▸ hlt')]
        · have hboth := h k
          rw [lookup, lookup, if_neg hk, if_neg (hkey ▸ hk)] at hboth
          exact hboth
      rw [hrest, Prod.ext hkey hvalue]

/-- **Maps are what they find.** -/
theorem ext_find (h : ∀ k, m.find k = m'.find k) : m = m' := by
  obtain ⟨es, hs⟩ := m
  obtain ⟨es', hs'⟩ := m'
  cases entries_ext hs hs' h
  rfl

end Find

/-! ## Adding -/

section Add

variable [DecidableEq K] [DecidableLT K] [AddCommMonoid V]

/-- `m[k] += n` on the entries. -/
def bumpEntries (k : K) (n : V) : List (K × V) → List (K × V)
  | [] => [(k, 0 + n)]
  | e :: es =>
    if k < e.1 then (k, 0 + n) :: e :: es
    else if k = e.1 then (e.1, e.2 + n) :: es
    else e :: bumpEntries k n es

theorem mem_bumpEntries {k : K} {n : V} {es : List (K × V)} {e : K × V}
    (h : e ∈ bumpEntries k n es) : e.1 = k ∨ ∃ v, (e.1, v) ∈ es := by
  induction es with
  | nil =>
    rw [List.mem_singleton.mp h]
    exact Or.inl rfl
  | cons d es ih =>
    rw [bumpEntries] at h
    split at h
    · rcases List.mem_cons.mp h with rfl | h
      · exact Or.inl rfl
      · exact Or.inr ⟨e.2, h⟩
    · split at h
      · rename_i hk
        rcases List.mem_cons.mp h with rfl | h
        · exact Or.inl hk.symm
        · exact Or.inr ⟨e.2, List.mem_cons_of_mem d h⟩
      · rcases List.mem_cons.mp h with rfl | h
        · exact Or.inr ⟨e.2, List.mem_cons_self⟩
        · obtain hk | ⟨v, hv⟩ := ih h
          · exact Or.inl hk
          · exact Or.inr ⟨v, List.mem_cons_of_mem d hv⟩

variable [Trans (α := K) (· < ·) (· < ·) (· < ·)] [Std.Trichotomous (α := K) (· < ·)]

theorem sorted_bumpEntries (k : K) (n : V) {es : List (K × V)}
    (hs : es.Pairwise fun a b => a.1 < b.1) :
    (bumpEntries k n es).Pairwise fun a b => a.1 < b.1 := by
  induction es with
  | nil => exact List.pairwise_singleton _ _
  | cons e es ih =>
    obtain ⟨hlt, htail⟩ := List.pairwise_cons.mp hs
    rw [bumpEntries]
    split
    · rename_i hless
      refine List.pairwise_cons.mpr ⟨fun d hd => ?_, hs⟩
      rcases List.mem_cons.mp hd with rfl | hd
      · exact hless
      · exact Trans.trans hless (hlt d hd)
    · rename_i hless
      split
      · exact List.pairwise_cons.mpr ⟨hlt, htail⟩
      · rename_i hne
        refine List.pairwise_cons.mpr ⟨fun d hd => ?_, ih htail⟩
        obtain hk | ⟨v, hv⟩ := mem_bumpEntries hd
        · rw [hk]
          exact Decidable.byContradiction fun hnot =>
            hne (Std.Trichotomous.trichotomous (r := (· < ·)) k e.1 hless hnot)
        · exact hlt (d.1, v) hv

/-- `m[k] += n`. -/
def bump (m : SortedMap K V) (k : K) (n : V) : SortedMap K V :=
  ⟨bumpEntries k n m.entries, sorted_bumpEntries k n m.sorted⟩

/-- The entries of `m'` are added to `m`. -/
def add (m m' : SortedMap K V) : SortedMap K V := m'.entries.foldl (fun m e => m.bump e.1 e.2) m

variable [Std.Irrefl (α := K) (· < ·)]

theorem find_bump (m : SortedMap K V) (k x : K) (n : V) :
    (m.bump k n).find x = (m.find x).merge (· + ·) (if x = k then some n else none) := by
  obtain ⟨es, hs⟩ := m
  show lookup x (bumpEntries k n es) = (lookup x es).merge (· + ·) _
  induction es with
  | nil =>
    show (if k = x then some (0 + n) else none) = Option.merge (· + ·) none _
    rw [zero_add, Option.merge_none_left]
    by_cases hx : x = k
    · rw [if_pos hx, if_pos hx.symm]
    · rw [if_neg hx, if_neg (Ne.symm hx)]
  | cons e es ih =>
    obtain ⟨hlt, htail⟩ := List.pairwise_cons.mp hs
    rw [bumpEntries]
    split
    · rename_i hless
      by_cases hx : x = k
      · have hnone : lookup x (e :: es) = none := by
          subst hx
          refine lookup_of_lt fun d hd => ?_
          rcases List.mem_cons.mp hd with rfl | hd
          · exact hless
          · exact Trans.trans hless (hlt d hd)
        rw [lookup, if_pos hx.symm, hnone, if_pos hx, zero_add]
        rfl
      · rw [lookup, if_neg (Ne.symm hx), if_neg hx, Option.merge_none_right]
    · split
      · rename_i hk
        by_cases hx : x = k
        · rw [lookup, lookup, if_pos (hk ▸ hx.symm), if_pos (hk ▸ hx.symm), if_pos hx]
          rfl
        · rw [lookup, lookup, if_neg (fun heq => hx (hk ▸ heq.symm)),
            if_neg (fun heq => hx (hk ▸ heq.symm)), if_neg hx, Option.merge_none_right]
      · rename_i hk
        by_cases hx : e.1 = x
        · have hne : x ≠ k := fun heq => hk (hx.trans heq).symm
          rw [lookup, lookup, if_pos hx, if_neg hne, Option.merge_none_right, if_pos hx]
        · rw [lookup, lookup, if_neg hx, if_neg hx]
          exact ih htail

theorem find_add (m m' : SortedMap K V) (x : K) :
    (m.add m').find x = (m.find x).merge (· + ·) (m'.find x) := by
  obtain ⟨es, hs⟩ := m'
  show (es.foldl (fun m e => m.bump e.1 e.2) m).find x = (m.find x).merge (· + ·) (lookup x es)
  induction es generalizing m with
  | nil => exact (Option.merge_none_right).symm
  | cons e es ih =>
    obtain ⟨hlt, htail⟩ := List.pairwise_cons.mp hs
    rw [List.foldl_cons, ih _ htail, find_bump, lookup]
    by_cases hx : x = e.1
    · subst hx
      rw [if_pos rfl, if_pos rfl, lookup_of_lt hlt, Option.merge_none_right]
    · rw [if_neg hx, if_neg (Ne.symm hx), Option.merge_none_right]

instance : Add (SortedMap K V) := ⟨add⟩

@[simp] theorem find_plus (m m' : SortedMap K V) (k : K) :
    (m + m').find k = (m.find k).merge (· + ·) (m'.find k) := find_add m m' k

instance : AddCommMonoid (SortedMap K V) where
  add_assoc a b c := ext_find fun k => by
    simp only [find_plus]
    exact (inferInstance : Std.Associative (Option.merge fun m n : V => m + n)).assoc _ _ _
  zero_add a := ext_find fun k => by simp
  add_zero a := ext_find fun k => by simp
  add_comm a b := ext_find fun k => by
    simp only [find_plus]
    exact (inferInstance : Std.Commutative (Option.merge fun m n : V => m + n)).comm _ _
  nsmul := nsmulRec

def single (k : K) (n : V) : SortedMap K V := (∅ : SortedMap K V).bump k n

theorem find_single (k x : K) (n : V) :
    (single k n).find x = if x = k then some n else none := by
  rw [single, find_bump, find_empty, Option.merge_none_left]

theorem bump_eq (m : SortedMap K V) (k : K) (n : V) : m.bump k n = m + single k n :=
  ext_find fun x => by rw [find_bump, find_plus, find_single]

/-- One is added at a key for every event that has one: the value at a key is their number, and a
key that no event has is missing. -/
theorem find_sum {E : Type} (f : E → Option K) (one : V) (es : List E) (x : K) :
    ((es.map fun e => (f e).elim (0 : SortedMap K V) fun k => single k one).sum).find x =
      if (es.countP fun e => f e = some x) = 0 then none
      else some ((es.countP fun e => f e = some x) • one) := by
  induction es with
  | nil => rfl
  | cons e es ih =>
    rw [List.map_cons, List.sum_cons, find_plus, ih, List.countP_cons]
    cases hf : f e with
    | none => simp
    | some k =>
      by_cases hx : x = k
      · subst hx
        simp only [Option.elim_some, find_single, if_true, decide_true, Nat.succ_ne_zero, if_false]
        split
        · rename_i hzero
          rw [hzero, Option.merge_none_right, Nat.zero_add, one_nsmul]
        · rw [Option.merge_some_some, succ_nsmul']
      · have hne : ¬ some k = some x := fun heq => hx (Option.some.inj heq).symm
        simp only [Option.elim_some, find_single, if_neg hx, Option.merge_none_left, hne,
          decide_false, Bool.false_eq_true, if_false, Nat.add_zero]

end Add

end SortedMap
end UrlShortener
