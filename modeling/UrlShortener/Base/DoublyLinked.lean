import Mathlib.Data.List.AList
import Mathlib.Data.List.Perm.Subperm

/-!
# UrlShortener.Base.DoublyLinked

Doubly linked lists in a heap. A pointer is an `Option Nat`; the heap holds the nodes that are
allocated. Reading or writing through a null or freed pointer is `none`.

`Seg h p l n` says that the nodes at the addresses `l` are linked in this order, with `p` before
the first and `n` behind the last. Segments are cut and joined by `seg_append`, and a pointer that
is set at one end of a segment only changes that end (`Seg.setNext`, `Seg.setPrev`).
-/

namespace UrlShortener
namespace DoublyLinked

structure Node (α : Type) where
  val : α
  prev : Option Nat := none
  next : Option Nat := none
deriving DecidableEq

abbrev Heap (α : Type) := AList fun _ : Nat => Node α

variable {α : Type}

namespace Heap

/-- `*p`. -/
def read (h : Heap α) (p : Option Nat) : Option (Node α) := p.bind h.lookup

/-- `p->next = n`. -/
def setNext (h : Heap α) (p n : Option Nat) : Option (Heap α) := do
  let a ← p
  let node ← h.lookup a
  return h.insert a { node with next := n }

/-- `p->prev = n`. -/
def setPrev (h : Heap α) (p n : Option Nat) : Option (Heap α) := do
  let a ← p
  let node ← h.lookup a
  return h.insert a { node with prev := n }

/-- Assigns to what is stored in a node. -/
def setVal (h : Heap α) (p : Option Nat) (f : α → α) : Option (Heap α) := do
  let a ← p
  let node ← h.lookup a
  return h.insert a { node with val := f node.val }

/-- `delete p`, for a pointer that is not null. -/
def free (h : Heap α) (a : Nat) : Option (Heap α) := (h.lookup a).map fun _ => h.erase a

/-- What is stored in a node. -/
def val (h : Heap α) (a : Nat) : Option α := (h.lookup a).map Node.val

variable {h h' : Heap α} {a b : Nat} {node : Node α} {n : Option Nat}

/-- Only links differ. -/
def SameVals (h h' : Heap α) : Prop := ∀ a, h'.val a = h.val a

theorem SameVals.refl (h : Heap α) : SameVals h h := fun _ => rfl

theorem SameVals.trans {h₁ h₂ h₃ : Heap α} (h12 : SameVals h₁ h₂) (h23 : SameVals h₂ h₃) :
    SameVals h₁ h₃ := fun a => (h23 a).trans (h12 a)

theorem sameVals_insert {node' : Node α} (ha : h.lookup a = some node)
    (hv : node'.val = node.val) : SameVals h (h.insert a node') := by
  intro b
  by_cases hb : b = a
  · subst hb
    simp [val, ha, hv]
  · simp [val, hb]

/-- What an assignment does: to its node, and to no other. -/
theorem setNext_spec (ha : h.lookup a = some node) (n : Option Nat) : ∃ h',
    h.setNext (some a) n = some h' ∧ h'.lookup a = some { node with next := n } ∧
      SameVals h h' ∧ ∀ b, b ≠ a → h'.lookup b = h.lookup b := by
  refine ⟨_, ?_, AList.lookup_insert _, sameVals_insert ha rfl,
    fun b hb => AList.lookup_insert_ne hb⟩
  simp [setNext, ha]

theorem setPrev_spec (ha : h.lookup a = some node) (n : Option Nat) : ∃ h',
    h.setPrev (some a) n = some h' ∧ h'.lookup a = some { node with prev := n } ∧
      SameVals h h' ∧ ∀ b, b ≠ a → h'.lookup b = h.lookup b := by
  refine ⟨_, ?_, AList.lookup_insert _, sameVals_insert ha rfl,
    fun b hb => AList.lookup_insert_ne hb⟩
  simp [setPrev, ha]

theorem free_spec (ha : h.lookup a = some node) : ∃ h', h.free a = some h' ∧
    (∀ b, h'.val b = if b = a then none else h.val b) ∧
      ∀ b, b ≠ a → h'.lookup b = h.lookup b := by
  refine ⟨h.erase a, by simp [free, ha], ?_, fun b hb => AList.lookup_erase_ne hb⟩
  intro b
  by_cases hb : b = a
  · subst hb
    simp [val]
  · simp [val, hb]

theorem mem_iff_val : a ∈ h ↔ ∃ v, h.val a = some v := by
  rw [← AList.lookup_isSome, val]
  cases h.lookup a <;> simp

end Heap

/-! ## Segments -/

def Seg (h : Heap α) : Option Nat → List Nat → Option Nat → Prop
  | _, [], _ => True
  | p, a :: l, n => (∃ v, h.lookup a = some ⟨v, p, l.head?.or n⟩) ∧ Seg h (some a) l n

variable {h h' : Heap α} {p p' n n' : Option Nat} {a b : Nat} {l l₁ l₂ : List Nat}

theorem seg_append : Seg h p (l₁ ++ l₂) n ↔
    Seg h p l₁ (l₂.head?.or n) ∧ Seg h (l₁.getLast?.or p) l₂ n := by
  induction l₁ generalizing p with
  | nil => simp [Seg]
  | cons a l₁ ih =>
    simp only [List.cons_append, Seg, ih, and_assoc, List.head?_append, Option.or_assoc]
    cases l₁ with
    | nil => simp
    | cons b l₁ => simp [List.getLast?_eq_getLast_of_ne_nil]

theorem Seg.congr (hs : Seg h p l n) (heq : ∀ a ∈ l, h'.lookup a = h.lookup a) :
    Seg h' p l n := by
  induction l generalizing p with
  | nil => trivial
  | cons a l ih =>
    obtain ⟨⟨v, hv⟩, hl⟩ := hs
    exact ⟨⟨v, by rw [heq a (by simp), hv]⟩, ih hl fun b hb => heq b (by simp [hb])⟩

/-- A change of one node that is not in the segment. -/
theorem Seg.frame (hs : Seg h p l n) (hf : ∀ b, b ≠ a → h'.lookup b = h.lookup b) (ha : a ∉ l) :
    Seg h' p l n :=
  hs.congr fun b hb => hf b fun he => ha (he ▸ hb)

theorem seg_cons : Seg h p (a :: l) n ↔
    (∃ v, h.lookup a = some ⟨v, p, l.head?.or n⟩) ∧ Seg h (some a) l n := Iff.rfl

theorem seg_concat : Seg h p (l ++ [a]) n ↔
    Seg h p l (some a) ∧ ∃ v, h.lookup a = some ⟨v, l.getLast?.or p, n⟩ := by
  rw [seg_append]
  simp [Seg]

/-- A node with what is before it and what is behind it. -/
theorem seg_middle : Seg h p (l₁ ++ a :: l₂) n ↔ Seg h p l₁ (some a) ∧
    (∃ v, h.lookup a = some ⟨v, l₁.getLast?.or p, l₂.head?.or n⟩) ∧ Seg h (some a) l₂ n := by
  rw [seg_append, seg_cons]
  simp

theorem Seg.setNext (hs : Seg h p (l ++ [a]) n) (hnd : (l ++ [a]).Nodup) (n' : Option Nat) : ∃ h',
    h.setNext (some a) n' = some h' ∧ Seg h' p (l ++ [a]) n' ∧ Heap.SameVals h h' ∧
      ∀ b, b ≠ a → h'.lookup b = h.lookup b := by
  obtain ⟨hl, v, hv⟩ := seg_concat.mp hs
  have hnot : a ∉ l := fun ha => (List.nodup_append.mp hnd).2.2 a ha a (by simp) rfl
  obtain ⟨h', he, ha, hsame, hf⟩ := Heap.setNext_spec hv n'
  exact ⟨h', he, seg_concat.mpr ⟨hl.frame hf hnot, v, ha⟩, hsame, hf⟩

theorem Seg.setPrev (hs : Seg h p (a :: l) n) (hnd : (a :: l).Nodup) (p' : Option Nat) : ∃ h',
    h.setPrev (some a) p' = some h' ∧ Seg h' p' (a :: l) n ∧ Heap.SameVals h h' ∧
      ∀ b, b ≠ a → h'.lookup b = h.lookup b := by
  obtain ⟨⟨v, hv⟩, hl⟩ := hs
  obtain ⟨h', he, ha, hsame, hf⟩ := Heap.setPrev_spec hv p'
  exact ⟨h', he, ⟨⟨v, ha⟩, hl.frame hf (List.nodup_cons.mp hnd).1⟩, hsame, hf⟩

/-- Taking a node out between `c` and `b`. -/
theorem Seg.unlink {c : Nat} (hs : Seg h p (l₁ ++ [c] ++ a :: b :: l₂) n)
    (hnd : (l₁ ++ [c] ++ a :: b :: l₂).Nodup) : ∃ h₁ h₂,
      h.setNext (some c) (some b) = some h₁ ∧ h₁.setPrev (some b) (some c) = some h₂ ∧
        Seg h₂ p (l₁ ++ [c] ++ b :: l₂) n ∧ Heap.SameVals h h₂ ∧ h₂.lookup a = h.lookup a := by
  obtain ⟨hnd₁, hnd₂, hdisj⟩ := List.nodup_append.mp hnd
  obtain ⟨hab, hnd₂⟩ := List.nodup_cons.mp hnd₂
  obtain ⟨hsA, -, hsB⟩ := seg_middle.mp hs
  have hcB : c ∉ b :: l₂ := fun hc => hdisj c (by simp) c (List.mem_cons_of_mem _ hc) rfl
  have hbA : b ∉ l₁ ++ [c] := fun hb => hdisj b hb b (by simp) rfl
  have hac : a ≠ c := fun he => hdisj c (by simp) a (by simp) he.symm
  have hab' : a ≠ b := fun he => hab (by simp [he])
  obtain ⟨h₁, he₁, hs₁, hv₁, hf₁⟩ := hsA.setNext hnd₁ (some b)
  obtain ⟨h₂, he₂, hs₂, hv₂, hf₂⟩ := (hsB.frame hf₁ hcB).setPrev hnd₂ (some c)
  refine ⟨h₁, h₂, he₁, he₂, seg_append.mpr ⟨hs₁.frame hf₂ hbA, ?_⟩, hv₁.trans hv₂,
    (hf₂ a hab').trans (hf₁ a hac)⟩
  simpa using hs₂

theorem Seg.setVal {node : Node α} (hs : Seg h p l n) (ha : h.lookup a = some node) (f : α → α) :
    ∃ h', h.setVal (some a) f = some h' ∧ Seg h' p l n ∧
      ∀ b, h'.val b = if b = a then some (f node.val) else h.val b := by
  refine ⟨h.insert a { node with val := f node.val }, by simp [Heap.setVal, ha], ?_, ?_⟩
  · induction l generalizing p with
    | nil => trivial
    | cons b l ih =>
      obtain ⟨⟨v, hv⟩, hl⟩ := hs
      refine ⟨?_, ih hl⟩
      by_cases hb : b = a
      · subst hb
        rw [ha] at hv
        cases hv
        exact ⟨_, AList.lookup_insert _⟩
      · exact ⟨v, by rw [AList.lookup_insert_ne hb, hv]⟩
  · intro b
    by_cases hb : b = a
    · subst hb
      simp [Heap.val]
    · simp [Heap.val, hb]

theorem Seg.mem_heap (hs : Seg h p l n) : ∀ a ∈ l, a ∈ h := by
  induction l generalizing p with
  | nil => intro a ha; cases ha
  | cons b l ih =>
    obtain ⟨⟨v, hv⟩, hl⟩ := hs
    intro a ha
    rcases List.mem_cons.mp ha with rfl | ha
    · rw [← AList.lookup_isSome, hv]
      rfl
    · exact ih hl a ha

theorem Seg.length_le (hs : Seg h p l n) (hnd : l.Nodup) : l.length ≤ h.keys.length :=
  (hnd.subperm fun a ha => AList.mem_keys.mp (hs.mem_heap a ha)).length_le

end DoublyLinked
end UrlShortener
