import Mathlib.Data.Bool.AllAny
import Mathlib.Data.List.Basic
import Mathlib.Data.List.AList
import Mathlib.Algebra.Order.Ring.Nat

/-!
# UrlShortener.Base.Bytes

Byte strings and flat byte memories.

A C++ `std::string` and a slice of a `char` array are both `Bytes`. A `char` array is a `Mem`:
a total function from offsets to bytes, together with the bounds its user proves. `Mem.seg`
reads a run of bytes and `Mem.cstr` reads a NUL-terminated string below a limit, so that a
statement about a buffer becomes a statement about lists.
-/

namespace UrlShortener

abbrev Bytes := List UInt8

/-- The bytes of an ASCII literal. -/
def ascii (s : String) : Bytes := s.toList.map fun c => UInt8.ofNat c.toNat

/-- The kernel is slow at taking a literal apart, and this does it before. -/
theorem ascii_ofList (l : List Char) :
    ascii (String.ofList l) = l.map fun c => UInt8.ofNat c.toNat := by
  rw [ascii, String.toList_ofList]

def NUL : UInt8 := 0
def TAB : UInt8 := 9
def LF : UInt8 := 10
def CR : UInt8 := 13
def SP : UInt8 := 32

/-- `std::to_string` of an unsigned integer. -/
def toDecimal (n : Nat) : Bytes := (Nat.toDigits 10 n).map fun c => UInt8.ofNat c.toNat

/-- `std::to_string` of a signed integer. -/
def toDecimalInt (n : Int) : Bytes :=
  if n < 0 then ascii "-" ++ toDecimal n.natAbs else toDecimal n.natAbs

/-- A `std::unordered_map` (or `std::map`) keyed by strings. -/
abbrev StrMap (α : Type) := AList fun _ : Bytes => α

/-- A flat byte array. -/
abbrev Mem := Nat → UInt8

namespace Mem

/-- `memset(m, 0, ..)`. -/
def zero : Mem := fun _ => 0

def set (m : Mem) (i : Nat) (b : UInt8) : Mem := fun j => if j = i then b else m j

/-- `memcpy(m + i, bs, bs.size())`. -/
def write (m : Mem) (i : Nat) (bs : Bytes) : Mem := fun j =>
  if i ≤ j ∧ j < i + bs.length then bs.getD (j - i) 0 else m j

/-- The `n` bytes from offset `i` on. -/
def seg (m : Mem) : Nat → Nat → Bytes
  | _, 0 => []
  | i, n + 1 => m i :: seg m (i + 1) n

/-- The C string at offset `i`, cut at the array's end `lim` if no NUL stands before it. -/
def cstr (m : Mem) (lim i : Nat) : Bytes := (m.seg i (lim - i)).takeWhile (· ≠ NUL)

@[simp] theorem set_same (m : Mem) (i : Nat) (b : UInt8) : (m.set i b) i = b := by simp [set]

theorem set_ne (m : Mem) {i j : Nat} (b : UInt8) (h : j ≠ i) : (m.set i b) j = m j := by
  simp [set, h]

@[simp] theorem seg_zero (m : Mem) (i : Nat) : m.seg i 0 = [] := rfl

theorem seg_succ (m : Mem) (i n : Nat) : m.seg i (n + 1) = m i :: m.seg (i + 1) n := rfl

@[simp] theorem seg_length (m : Mem) (i n : Nat) : (m.seg i n).length = n := by
  induction n generalizing i with
  | zero => rfl
  | succ n ih => simp [seg, ih]

theorem mem_seg {m : Mem} {i n : Nat} {b : UInt8} :
    b ∈ m.seg i n ↔ ∃ j, i ≤ j ∧ j < i + n ∧ m j = b := by
  induction n generalizing i with
  | zero =>
    simp only [seg_zero, List.not_mem_nil, false_iff, not_exists]
    omega
  | succ n ih =>
    rw [seg_succ, List.mem_cons, ih]
    constructor
    · rintro (he | ⟨j, h1, h2, h3⟩)
      · exact ⟨i, Nat.le_refl _, by omega, he.symm⟩
      · exact ⟨j, by omega, by omega, h3⟩
    · rintro ⟨j, h1, h2, h3⟩
      by_cases hj : j = i
      · exact Or.inl (hj ▸ h3).symm
      · exact Or.inr ⟨j, by omega, by omega, h3⟩

theorem seg_congr {m m' : Mem} {i n : Nat} (h : ∀ j, i ≤ j → j < i + n → m j = m' j) :
    m.seg i n = m'.seg i n := by
  induction n generalizing i with
  | zero => rfl
  | succ n ih =>
    simp only [seg]
    rw [h i (Nat.le_refl i) (by omega), ih (fun j h1 h2 => h j (by omega) (by omega))]

theorem seg_add (m : Mem) (i a b : Nat) : m.seg i (a + b) = m.seg i a ++ m.seg (i + a) b := by
  induction a generalizing i with
  | zero => simp
  | succ a ih =>
    have e : i + (a + 1) = i + 1 + a := by omega
    rw [Nat.succ_add, seg_succ, seg_succ, ih, e]
    rfl

theorem seg_drop (m : Mem) (i n k : Nat) (h : k ≤ n) : (m.seg i n).drop k = m.seg (i + k) (n - k) := by
  obtain ⟨d, rfl⟩ := Nat.exists_eq_add_of_le h
  rw [seg_add, List.drop_append_of_le_length (by simp), List.drop_of_length_le (by simp)]
  simp

theorem seg_take (m : Mem) (i n k : Nat) (h : k ≤ n) : (m.seg i n).take k = m.seg i k := by
  obtain ⟨d, rfl⟩ := Nat.exists_eq_add_of_le h
  rw [seg_add, List.take_append_of_le_length (by simp), List.take_of_length_le (by simp)]

theorem seg_set_of_lt (m : Mem) {i j n : Nat} (b : UInt8) (h : j < i) :
    (m.set j b).seg i n = m.seg i n :=
  seg_congr fun _ h1 _ => set_ne m b (by omega)

theorem seg_set_of_ge (m : Mem) {i j n : Nat} (b : UInt8) (h : i + n ≤ j) :
    (m.set j b).seg i n = m.seg i n :=
  seg_congr fun _ _ h2 => set_ne m b (by omega)

/-- Reading back what `memcpy` wrote. -/
theorem seg_write_same (m : Mem) (i : Nat) (bs : Bytes) : (m.write i bs).seg i bs.length = bs := by
  have key : ∀ (n k : Nat), k + n = bs.length → (m.write i bs).seg (i + k) n = bs.drop k := by
    intro n
    induction n with
    | zero => intro k hk; rw [List.drop_of_length_le (by omega)]; rfl
    | succ n ih =>
      intro k hk
      have hlt : k < bs.length := by omega
      rw [seg_succ, Nat.add_assoc, ih (k + 1) (by omega), List.drop_eq_getElem_cons hlt]
      congr 1
      simp [write, hlt]
  simpa using key bs.length 0 (by omega)

theorem write_of_lt (m : Mem) {i j : Nat} (bs : Bytes) (h : j < i) : (m.write i bs) j = m j := by
  simp only [write]
  rw [if_neg (by omega)]

theorem write_of_ge (m : Mem) {i j : Nat} (bs : Bytes) (h : i + bs.length ≤ j) :
    (m.write i bs) j = m j := by
  simp only [write]
  rw [if_neg (by omega)]

/-- Appending at offset `r` extends every run of bytes that ends there. -/
theorem seg_write_append (m : Mem) {i r : Nat} (bs : Bytes) (h : i ≤ r) :
    (m.write r bs).seg i (r + bs.length - i) = m.seg i (r - i) ++ bs := by
  have e : r + bs.length - i = (r - i) + bs.length := by omega
  rw [e, seg_add]
  have e2 : i + (r - i) = r := by omega
  rw [e2, seg_write_same]
  congr 1
  exact seg_congr fun j _ h2 => write_of_lt m bs (by omega)

/-- The C string at `i` is the text up to the first NUL, when one stands at `i + n`. -/
theorem cstr_of_nul {m : Mem} {lim i n : Nat} (hn : i + n < lim) (h0 : m (i + n) = NUL) :
    m.cstr lim i = (m.seg i n).takeWhile (· ≠ NUL) := by
  have e : lim - i = n + ((lim - i - n - 1) + 1) := by omega
  unfold cstr
  rw [e, seg_add, seg_succ, h0]
  generalize m.seg i n = l
  generalize m.seg (i + n + 1) _ = t
  induction l with
  | nil => simp [NUL]
  | cons a l ih =>
    simp only [List.cons_append, List.takeWhile_cons]
    split
    · rw [ih]
    · rfl

end Mem

end UrlShortener
