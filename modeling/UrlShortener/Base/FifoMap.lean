import Mathlib.Data.List.AList
import Mathlib.Algebra.Order.BigOperators.Group.List
import Mathlib.Algebra.Order.Ring.Nat

/-!
# UrlShortener.Base.FifoMap

A map under a budget: entries have a size, `bytes` counts them, and a queue of keys says in which
order entries go when the count passes the budget. An entry that is dropped leaves its key in the
queue; the eviction loop skips such keys.

The counter is an unsigned machine word: a subtraction below zero wraps around, and `wrapped`
remembers that one did. What it counts is in memory, so sums do not wrap.

* `Counted`: the counter is the sum of the sizes and every entry has its key in the queue. All
  operations keep it, and eviction then always gets below the budget.
* `Exact`: the queue holds the keys of the entries, each once. Only storing and evicting keep it.

What an operation on one key does to the map is an `Action`: the lemmas about `act` are the rules
to reason about any sequence of operations.
-/

namespace UrlShortener

section Total

variable {K V : Type} [DecidableEq K] (w : V → Nat)

/-- The total size of the entries of a map. -/
def AList.totalSize (m : AList fun _ : K => V) : Nat := (m.entries.map fun x => w x.2).sum

variable {w}

theorem AList.totalSize_erase {m : AList fun _ : K => V} {k : K} {v : V}
    (h : m.lookup k = some v) : totalSize w m = w v + totalSize w (m.erase k) := by
  have hk : k ∈ m.entries.keys := AList.mem_keys.mp (AList.lookup_isSome.mp (by rw [h]; rfl))
  obtain ⟨v', l₁, l₂, hnot, he, hker⟩ := List.exists_of_kerase hk
  have hv : v' = v := by
    have hm : (⟨k, v'⟩ : Sigma fun _ : K => V) ∈ m.entries := by rw [he]; simp
    have := AList.mem_lookup_iff.mpr hm
    rw [h] at this
    exact (Option.some.inj this).symm
  subst hv
  have herase : (m.erase k).entries = l₁ ++ l₂ := hker
  simp only [totalSize, he, herase, List.map_append, List.map_cons, List.sum_append, List.sum_cons]
  omega

theorem AList.totalSize_insert_of_none {m : AList fun _ : K => V} {k : K} {v : V}
    (h : m.lookup k = none) : totalSize w (m.insert k v) = w v + totalSize w m := by
  rw [totalSize, AList.entries_insert_of_notMem (AList.lookup_eq_none.mp h), List.map_cons,
    List.sum_cons, totalSize]

theorem AList.totalSize_insert_of_some {m : AList fun _ : K => V} {k : K} {v old : V}
    (h : m.lookup k = some old) :
    totalSize w (m.insert k v) + w old = w v + totalSize w m := by
  have hinsert : totalSize w (m.insert k v) = w v + totalSize w (m.erase k) := by
    rw [totalSize, AList.entries_insert, List.map_cons, List.sum_cons]
    rfl
  have := totalSize_erase (w := w) h
  omega

omit [DecidableEq K] in
theorem AList.totalSize_eq_zero {m : AList fun _ : K => V} (h : ∀ k, k ∉ m) :
    totalSize w m = 0 := by
  have hkeys : m.keys = [] := List.eq_nil_iff_forall_not_mem.mpr fun k hk => h k hk
  have hentries : m.entries = [] := by simpa [AList.keys, List.keys] using hkeys
  rw [totalSize, hentries]
  rfl

end Total

structure FifoMap (K V : Type) [DecidableEq K] where
  map : AList fun _ : K => V := ∅
  fifo : List K := []
  bytes : Nat := 0
  /-- A subtraction from `bytes` has gone below zero. -/
  wrapped : Bool := false

namespace FifoMap

variable {K V : Type} [DecidableEq K] (w : V → Nat)

/-- `bytes -= n`. -/
def subtract (s : FifoMap K V) (n : Nat) : FifoMap K V :=
  if n ≤ s.bytes then { s with bytes := s.bytes - n }
  else { s with bytes := s.bytes + 2 ^ 64 - n, wrapped := true }

/-- Take an entry out, if there is one. -/
def drop (s : FifoMap K V) (k : K) : FifoMap K V :=
  match s.map.lookup k with
  | some e => { s.subtract (w e) with map := s.map.erase k }
  | none => s

/-- Store an entry: over the old one, or as a new one at the end of the queue. -/
def put (s : FifoMap K V) (k : K) (e : V) : FifoMap K V :=
  match s.map.lookup k with
  | some old =>
    let s := s.subtract (w old)
    { s with map := s.map.insert k e, bytes := s.bytes + w e }
  | none => { s with map := s.map.insert k e, fifo := s.fifo ++ [k], bytes := s.bytes + w e }

/-- The eviction loop, with the queue as its argument. -/
def evictLoop (budget : Nat) : List K → FifoMap K V → FifoMap K V
  | [], s => { s with fifo := [] }
  | victim :: fifo, s =>
    if budget < s.bytes then evictLoop budget fifo (s.drop w victim)
    else { s with fifo := victim :: fifo }

def evict (budget : Nat) (s : FifoMap K V) : FifoMap K V := evictLoop w budget s.fifo s

/-- What an operation on a key does: nothing, take the entry out, or store one and evict. -/
inductive Action (V : Type) where
  | keep
  | drop
  | store (e : V)

def act (budget : Nat) (s : FifoMap K V) (k : K) : Action V → FifoMap K V
  | .keep => s
  | .drop => s.drop w k
  | .store e => (s.put w k e).evict w budget

variable {w} {s : FifoMap K V} {k k' : K} {e : V} {budget : Nat} {a : Action V}

/-! ## Look-ups -/

@[simp] theorem subtract_map (n : Nat) : (s.subtract n).map = s.map := by
  unfold subtract
  split <;> rfl

@[simp] theorem subtract_fifo (n : Nat) : (s.subtract n).fifo = s.fifo := by
  unfold subtract
  split <;> rfl

@[simp] theorem drop_fifo : (s.drop w k).fifo = s.fifo := by
  unfold drop
  split <;> simp

theorem lookup_drop :
    (s.drop w k).map.lookup k' = if k' = k then none else s.map.lookup k' := by
  unfold drop
  by_cases hk : k' = k
  · subst hk
    rw [if_pos rfl]
    split
    · exact AList.lookup_erase _ _
    · assumption
  · rw [if_neg hk]
    split
    · exact AList.lookup_erase_ne hk
    · rfl

theorem lookup_put :
    (s.put w k e).map.lookup k' = if k' = k then some e else s.map.lookup k' := by
  unfold put
  by_cases hk : k' = k
  · subst hk
    rw [if_pos rfl]
    split <;> simp
  · rw [if_neg hk]
    split <;> simp [hk]

/-- Eviction only takes entries out. -/
theorem lookup_evictLoop : ∀ {q : List K} {s : FifoMap K V},
    (evictLoop w budget q s).map.lookup k = some e → s.map.lookup k = some e := by
  intro q
  induction q with
  | nil => intro s h; exact h
  | cons victim q ih =>
    intro s h
    simp only [evictLoop] at h
    split at h
    · have := ih h
      rw [lookup_drop] at this
      split at this
      · cases this
      · exact this
    · exact h

theorem lookup_evict (h : (s.evict w budget).map.lookup k = some e) : s.map.lookup k = some e :=
  lookup_evictLoop h

theorem mem_iff_lookup : k ∈ s.map ↔ ∃ e, s.map.lookup k = some e := by
  rw [← AList.lookup_isSome, Option.isSome_iff_exists]

theorem mem_drop : k' ∈ (s.drop w k).map ↔ k' ≠ k ∧ k' ∈ s.map := by
  simp only [mem_iff_lookup, lookup_drop]
  by_cases hk : k' = k <;> simp [hk]

theorem mem_put : k' ∈ (s.put w k e).map ↔ k' = k ∨ k' ∈ s.map := by
  simp only [mem_iff_lookup, lookup_put]
  by_cases hk : k' = k <;> simp [hk]

/-- An entry was there before and is not the one the action is about, unless that is kept; or it
is the one the action stores. -/
theorem lookup_act (h : (s.act w budget k a).map.lookup k' = some e) :
    (s.map.lookup k' = some e ∧ (k' = k → a = .keep)) ∨ (k' = k ∧ a = .store e) := by
  cases a with
  | keep => exact Or.inl ⟨h, fun _ => rfl⟩
  | drop =>
    simp only [act, lookup_drop] at h
    split at h
    · cases h
    · rename_i hne
      exact Or.inl ⟨h, fun hk => absurd hk hne⟩
  | store e' =>
    have h := lookup_evict h
    rw [lookup_put] at h
    split at h
    · rename_i hk
      cases h
      exact Or.inr ⟨hk, rfl⟩
    · rename_i hne
      exact Or.inl ⟨h, fun hk => absurd hk hne⟩

/-! ## The counter -/

/-- The counter is the sum of the sizes, and was so at every subtraction. -/
structure Sums (w : V → Nat) (s : FifoMap K V) : Prop where
  bytes_eq : s.bytes = AList.totalSize w s.map
  unwrapped : s.wrapped = false

/-- The counter is right, and no entry is out of reach of the eviction loop. -/
structure Counted (w : V → Nat) (s : FifoMap K V) : Prop extends Sums w s where
  mem_fifo : ∀ k ∈ s.map, k ∈ s.fifo

theorem counted_empty : Counted w ({} : FifoMap K V) where
  bytes_eq := rfl
  unwrapped := rfl
  mem_fifo k h := by cases h

theorem Sums.le_bytes (h : Sums w s) (hl : s.map.lookup k = some e) : w e ≤ s.bytes := by
  rw [h.bytes_eq, AList.totalSize_erase hl]
  exact Nat.le_add_right _ _

theorem subtract_of_le {n : Nat} (h : n ≤ s.bytes) :
    s.subtract n = { s with bytes := s.bytes - n } := if_pos h

theorem Sums.drop (h : Sums w s) : Sums w (s.drop w k) := by
  cases hl : s.map.lookup k with
  | none => simpa only [FifoMap.drop, hl] using h
  | some e =>
    have htot := AList.totalSize_erase (w := w) hl
    have hbytes := h.bytes_eq
    simp only [FifoMap.drop, hl, subtract_of_le (h.le_bytes hl)]
    refine ⟨?_, h.unwrapped⟩
    simp only
    omega

theorem Sums.put (h : Sums w s) : Sums w (s.put w k e) := by
  have hbytes := h.bytes_eq
  cases hl : s.map.lookup k with
  | none =>
    have htot := AList.totalSize_insert_of_none (w := w) (v := e) hl
    simp only [FifoMap.put, hl]
    refine ⟨?_, h.unwrapped⟩
    simp only
    omega
  | some old =>
    have htot := AList.totalSize_insert_of_some (w := w) (v := e) hl
    have hle := h.le_bytes hl
    simp only [FifoMap.put, hl, subtract_of_le hle]
    refine ⟨?_, h.unwrapped⟩
    simp only
    omega

theorem Sums.bytes_drop_le (h : Sums w s) : (s.drop w k).bytes ≤ s.bytes := by
  unfold FifoMap.drop
  split
  · rename_i e hl
    simp only [subtract_of_le (h.le_bytes hl)]
    exact Nat.sub_le _ _
  · exact le_refl _

theorem Counted.drop (h : Counted w s) : Counted w (s.drop w k) where
  toSums := h.toSums.drop
  mem_fifo k' hk' := by
    rw [drop_fifo]
    exact h.mem_fifo k' (mem_drop.mp hk').2

theorem put_fifo :
    (s.put w k e).fifo = if (s.map.lookup k).isSome then s.fifo else s.fifo ++ [k] := by
  unfold FifoMap.put
  cases hl : s.map.lookup k <;> simp

theorem Counted.put (h : Counted w s) : Counted w (s.put w k e) where
  toSums := h.toSums.put
  mem_fifo k' hk' := by
    rw [put_fifo]
    rcases mem_put.mp hk' with rfl | hk'
    · split
      · rename_i hs
        exact h.mem_fifo k' (AList.lookup_isSome.mp hs)
      · simp
    · split
      · exact h.mem_fifo k' hk'
      · exact List.mem_append_left _ (h.mem_fifo k' hk')

theorem Sums.evictLoop : ∀ {q : List K} {s : FifoMap K V}, Sums w s → (∀ k ∈ s.map, k ∈ q) →
    Counted w (evictLoop w budget q s) ∧ (evictLoop w budget q s).bytes ≤ budget := by
  intro q
  induction q with
  | nil =>
    intro s h hq
    refine ⟨⟨⟨h.bytes_eq, h.unwrapped⟩, hq⟩, ?_⟩
    -- no entry is left
    have hempty : s.bytes = 0 := by
      rw [h.bytes_eq]
      exact AList.totalSize_eq_zero fun k hk => by cases hq k hk
    exact hempty.symm ▸ Nat.zero_le _
  | cons victim q ih =>
    intro s h hq
    simp only [FifoMap.evictLoop]
    split
    · refine ih h.drop ?_
      intro k hk
      obtain ⟨hne, hm⟩ := mem_drop.mp hk
      exact (List.mem_cons.mp (hq k hm)).resolve_left hne
    · rename_i hle
      exact ⟨⟨⟨h.bytes_eq, h.unwrapped⟩, hq⟩, Nat.le_of_not_lt hle⟩

/-- **Eviction gets below the budget**, also for an entry that alone is larger. -/
theorem Counted.evict (h : Counted w s) :
    Counted w (s.evict w budget) ∧ (s.evict w budget).bytes ≤ budget :=
  h.toSums.evictLoop h.mem_fifo

theorem Counted.act (h : Counted w s) : Counted w (s.act w budget k a) := by
  cases a with
  | keep => exact h
  | drop => exact h.drop
  | store e => exact h.put.evict.1

theorem Counted.act_bytes_le (h : Counted w s) (hb : s.bytes ≤ budget) :
    (s.act w budget k a).bytes ≤ budget := by
  cases a with
  | keep => exact hb
  | drop => exact Nat.le_trans h.bytes_drop_le hb
  | store e => exact h.put.evict.2

/-- The map keeps to its budget, and no entry is smaller than `n`. -/
structure Bounded (w : V → Nat) (budget n : Nat) (s : FifoMap K V) : Prop extends Counted w s where
  bytes_le : s.bytes ≤ budget
  le_size : ∀ k e, s.map.lookup k = some e → n ≤ w e

theorem bounded_empty {n : Nat} : Bounded w budget n ({} : FifoMap K V) where
  toCounted := counted_empty
  bytes_le := Nat.zero_le _
  le_size k e h := by cases h

theorem Bounded.act {n : Nat} (h : Bounded w budget n s) (ha : ∀ e, a = .store e → n ≤ w e) :
    Bounded w budget n (s.act w budget k a) where
  toCounted := h.toCounted.act
  bytes_le := h.toCounted.act_bytes_le h.bytes_le
  le_size k' e hl := by
    rcases lookup_act hl with ⟨hl, -⟩ | ⟨-, hstore⟩
    · exact h.le_size k' e hl
    · exact ha e hstore

theorem Bounded.length_mul_le {n : Nat} (h : Bounded w budget n s) :
    s.map.keys.length * n ≤ budget := by
  have hle : ∀ y ∈ s.map.entries.map fun x => w x.2, n ≤ y := by
    intro y hy
    obtain ⟨x, hx, rfl⟩ := List.mem_map.mp hy
    exact h.le_size x.1 x.2 (AList.mem_lookup_iff.mpr hx)
  have hsum := List.card_nsmul_le_sum (s.map.entries.map fun x => w x.2) n hle
  have hlen : s.map.keys.length = s.map.entries.length := by simp [AList.keys, List.keys]
  calc s.map.keys.length * n = (s.map.entries.map fun x => w x.2).length • n := by simp [hlen]
    _ ≤ (s.map.entries.map fun x => w x.2).sum := hsum
    _ = s.bytes := h.bytes_eq.symm
    _ ≤ budget := h.bytes_le

/-! ## The queue -/

/-- The queue holds the keys of the entries, each once. -/
structure Exact (s : FifoMap K V) : Prop where
  nodup : s.fifo.Nodup
  mem_iff : ∀ k, k ∈ s.fifo ↔ k ∈ s.map

theorem exact_empty : Exact ({} : FifoMap K V) := ⟨.nil, fun k => iff_of_false (by simp) (by simp)⟩

theorem Exact.put (h : Exact s) : Exact (s.put w k e) := by
  cases hl : s.map.lookup k with
  | none =>
    have hnot := AList.lookup_eq_none.mp hl
    refine ⟨?_, ?_⟩
    · rw [put_fifo, hl]
      simp only [Option.isSome_none, Bool.false_eq_true, if_false]
      refine List.nodup_append.mpr ⟨h.nodup, by simp, ?_⟩
      rintro k' hk' k'' hk'' rfl
      rw [List.mem_singleton.mp hk''] at hk'
      exact hnot ((h.mem_iff k).mp hk')
    · intro k'
      rw [put_fifo, hl, mem_put]
      simp only [Option.isSome_none, Bool.false_eq_true, if_false, List.mem_append,
        List.mem_singleton, h.mem_iff]
      exact or_comm
  | some old =>
    have hin : k ∈ s.map := mem_iff_lookup.mpr ⟨old, hl⟩
    refine ⟨?_, ?_⟩
    · rw [put_fifo, hl]
      exact h.nodup
    · intro k'
      rw [put_fifo, hl, mem_put]
      simp only [Option.isSome_some, if_true, h.mem_iff]
      constructor
      · exact Or.inr
      · rintro (rfl | hk')
        · exact hin
        · exact hk'

/-- Eviction takes the oldest entries and their keys, and no others. -/
theorem exact_evictLoop : ∀ {q : List K} {s : FifoMap K V}, q.Nodup → (∀ k, k ∈ q ↔ k ∈ s.map) →
    Exact (evictLoop w budget q s) ∧ ∃ n, (evictLoop w budget q s).fifo = q.drop n := by
  intro q
  induction q with
  | nil => intro s hn hq; exact ⟨⟨.nil, hq⟩, 0, rfl⟩
  | cons victim q ih =>
    intro s hn hq
    obtain ⟨hnot, hn⟩ := List.nodup_cons.mp hn
    simp only [FifoMap.evictLoop]
    split
    · obtain ⟨hex, n, hf⟩ := ih (s := s.drop w victim) hn fun k => by
        rw [mem_drop, ← hq k, List.mem_cons]
        constructor
        · intro hk
          exact ⟨fun he => hnot (he ▸ hk), Or.inr hk⟩
        · rintro ⟨hne, hk⟩
          exact hk.resolve_left hne
      exact ⟨hex, n + 1, hf⟩
    · exact ⟨⟨List.nodup_cons.mpr ⟨hnot, hn⟩, hq⟩, 0, rfl⟩

theorem Exact.evict (h : Exact s) (w : V → Nat) (budget : Nat) :
    Exact (s.evict w budget) ∧ ∃ n, (s.evict w budget).fifo = s.fifo.drop n :=
  exact_evictLoop h.nodup h.mem_iff

/-- A dropped entry leaves its key behind. -/
theorem not_exact_drop (h : Exact s) (hk : k ∈ s.map) : ¬ Exact (s.drop w k) := by
  intro he
  have hf : k ∈ (s.drop w k).fifo := by
    rw [drop_fifo]
    exact (h.mem_iff k).mpr hk
  exact (mem_drop.mp ((he.mem_iff k).mp hf)).1 rfl

theorem drop_of_notMem (hk : k ∉ s.map) : s.drop w k = s := by
  unfold FifoMap.drop
  rw [AList.lookup_eq_none.mpr hk]

/-! ## The order of arrival -/

/-- The keys an action may evict from, in the order they came in. -/
def candidates (order : List K) (k : K) : Action V → List K
  | .store _ => if k ∈ order then order else order ++ [k]
  | _ => order

/-- The keys of the entries after an action, in the order they last came in. -/
def arrivals (order : List K) (k : K) (a : Action V) (s : FifoMap K V) : List K :=
  (candidates order k a).filter fun k => decide (k ∈ s.map)

theorem filter_mem_drop {l : List K} (h : l.Nodup) (n : Nat) :
    l.filter (fun k => decide (k ∈ l.drop n)) = l.drop n := by
  have hsplit := List.take_append_drop n l
  have hdisj := List.nodup_append.mp (hsplit.symm ▸ h)
  have htake : (l.take n).filter (fun k => decide (k ∈ l.drop n)) = [] := by
    rw [List.filter_eq_nil_iff]
    intro k hk hd
    exact hdisj.2.2 k hk k (of_decide_eq_true hd) rfl
  have hdrop : (l.drop n).filter (fun k => decide (k ∈ l.drop n)) = l.drop n := by
    rw [List.filter_eq_self]
    exact fun k hk => decide_eq_true hk
  conv_lhs => arg 2; rw [← hsplit]
  rw [List.filter_append, htake, hdrop, List.nil_append]

theorem Exact.filter_fifo (h : Exact s) : s.fifo.filter (fun k => decide (k ∈ s.map)) = s.fifo :=
  List.filter_eq_self.mpr fun k hk => decide_eq_true ((h.mem_iff k).mp hk)

theorem Exact.length_fifo (h : Exact s) : s.fifo.length = s.map.keys.length :=
  ((List.perm_ext_iff_of_nodup h.nodup s.map.nodupKeys).mpr h.mem_iff).length_eq

/-- **First in, first out**: as long as no entry is dropped, the queue is the entries in the order
they came in, and eviction takes the oldest. -/
theorem Exact.act (h : Exact s) (w : V → Nat) (budget : Nat) (hk : a = .drop → k ∉ s.map) :
    Exact (s.act w budget k a) ∧
      (s.act w budget k a).fifo = arrivals s.fifo k a (s.act w budget k a) ∧
      (s.act w budget k a).fifo <:+ candidates s.fifo k a := by
  cases a with
  | keep => exact ⟨h, h.filter_fifo.symm, List.suffix_rfl⟩
  | drop =>
    have hs : s.act w budget k .drop = s := drop_of_notMem (hk rfl)
    rw [hs]
    exact ⟨h, h.filter_fifo.symm, List.suffix_rfl⟩
  | store e =>
    have hput : Exact (s.put w k e) := h.put
    obtain ⟨hex, n, hf⟩ := hput.evict w budget
    have hcand : (s.put w k e).fifo = candidates s.fifo k (.store e) := by
      simp only [put_fifo, candidates, AList.lookup_isSome, h.mem_iff]
    refine ⟨hex, ?_, ?_⟩
    · have hfilter := filter_mem_drop hput.nodup n
      rw [← hf] at hfilter
      simp only [hex.mem_iff, hcand] at hfilter
      exact hfilter.symm
    · rw [← hcand]
      exact ⟨_, by rw [FifoMap.act, hf]; exact List.take_append_drop n _⟩

end FifoMap
end UrlShortener
