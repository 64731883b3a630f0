import Mathlib.Data.Nat.Bitwise
import Mathlib.Data.Set.Insert
import UrlShortener.Base.Bytes

/-!
# UrlShortener.Base.PackedBits

An array of bits, eight to a byte. Reading and setting are only possible inside the array; setting
a bit changes no other one. A Bloom filter asks whether all bits of a value are set
(`allBits_true_iff`); as bits are never cleared, what it has answered once it answers for ever.
-/

namespace UrlShortener
namespace PackedBits

/-- The bit with this index in its byte. -/
def mask (idx : Nat) : UInt8 := 1 <<< UInt8.ofNat (idx % 8)

/-- `none` is an index outside the array. -/
def setBit (bits : Bytes) (idx : Nat) : Option Bytes :=
  bits[idx / 8]?.map fun b => bits.set (idx / 8) (b ||| mask idx)

def getBit (bits : Bytes) (idx : Nat) : Option Bool :=
  bits[idx / 8]?.map fun b => decide (b &&& mask idx ≠ 0)

/-- Sets the bits one after the other. -/
def setBits (bits : Bytes) (idxs : List Nat) : Option Bytes := idxs.foldlM setBit bits

/-- Stops at the first bit that is not set. -/
def allBits (bits : Bytes) : List Nat → Option Bool
  | [] => some true
  | idx :: idxs =>
    match getBit bits idx with
    | none => none
    | some false => some false
    | some true => allBits bits idxs

/-- The indices of the bits that are set. -/
def members (bits : Bytes) : Set Nat := fun idx => getBit bits idx = some true

variable {bits bits' : Bytes} {idx : Nat} {idxs : List Nat}

theorem mem_members : idx ∈ members bits ↔ getBit bits idx = some true := Iff.rfl

/-- Of a byte the mask leaves one bit. -/
theorem and_mask_ne_zero (b : UInt8) (idx : Nat) :
    b &&& mask idx ≠ 0 ↔ b.toNat.testBit (idx % 8) = true := by
  have hlt : idx % 8 < 8 := Nat.mod_lt _ (by decide)
  have hmask : (mask idx).toNat = 2 ^ (idx % 8) := by
    have hpow : 2 ^ (idx % 8) < 2 ^ 8 := Nat.pow_lt_pow_right (by decide) hlt
    have hshift : (UInt8.ofNat (idx % 8)).toNat % 8 = idx % 8 := by
      rw [UInt8.toNat_ofNat']
      omega
    rw [mask, UInt8.toNat_shiftLeft, hshift, UInt8.toNat_one, Nat.shiftLeft_eq, Nat.one_mul,
      Nat.mod_eq_of_lt hpow]
  rw [Ne, ← UInt8.toNat_inj, UInt8.toNat_and, hmask, Nat.and_two_pow, UInt8.toNat_zero]
  cases b.toNat.testBit (idx % 8) with
  | false => simp
  | true => simp

/-- Setting a bit of a byte leaves the other seven. -/
theorem or_mask_testBit (b : UInt8) (idx i : Nat) :
    (b ||| mask idx) &&& mask i ≠ 0 ↔ b &&& mask i ≠ 0 ∨ i % 8 = idx % 8 := by
  have hself : ∀ i, mask idx &&& mask i ≠ 0 ↔ i % 8 = idx % 8 := by
    intro i
    have h8 : ∀ a < 8, ∀ c < 8, ((1 : UInt8) <<< UInt8.ofNat a) &&& (1 <<< UInt8.ofNat c) ≠ 0 ↔ c = a := by
      decide
    exact h8 _ (Nat.mod_lt _ (by decide)) _ (Nat.mod_lt _ (by decide))
  rw [and_mask_ne_zero, UInt8.toNat_or, Nat.testBit_or, Bool.or_eq_true, ← and_mask_ne_zero,
    ← and_mask_ne_zero, hself]

/-! ## One bit -/

theorem isSome_getElem? {i : Nat} : (bits[i]?).isSome = true ↔ i < bits.length := by
  rw [Option.isSome_iff_ne_none, Ne, List.getElem?_eq_none_iff, Nat.not_le]

theorem getBit_isSome : (getBit bits idx).isSome = true ↔ idx / 8 < bits.length := by
  rw [getBit, Option.isSome_map, isSome_getElem?]

theorem length_setBit (h : setBit bits idx = some bits') : bits'.length = bits.length := by
  obtain ⟨b, -, rfl⟩ := Option.map_eq_some_iff.mp h
  exact List.length_set

theorem setBit_isSome : (setBit bits idx).isSome = true ↔ idx / 8 < bits.length := by
  rw [setBit, Option.isSome_map, isSome_getElem?]

/-- **Setting a bit** adds it, and neither adds nor removes another. -/
theorem members_setBit (h : setBit bits idx = some bits') :
    members bits' = insert idx (members bits) := by
  obtain ⟨b, hb, rfl⟩ := Option.map_eq_some_iff.mp h
  have hlt : idx / 8 < bits.length := (List.getElem?_eq_some_iff.mp hb).1
  ext i
  rw [Set.mem_insert_iff, mem_members, mem_members, getBit, getBit]
  by_cases hbyte : i / 8 = idx / 8
  · -- the same byte: the index is told by its place in the byte
    have hplace : i % 8 = idx % 8 ↔ i = idx := by
      constructor
      · intro hmod
        rw [← Nat.div_add_mod i 8, hbyte, hmod, Nat.div_add_mod]
      · rintro rfl
        rfl
    rw [hbyte, List.getElem?_set_self hlt, hb]
    simp only [Option.map_some, Option.some.injEq, decide_eq_true_eq]
    rw [or_mask_testBit, hplace, or_comm]
  · have hne : i ≠ idx := by
      rintro rfl
      exact hbyte rfl
    rw [List.getElem?_set_ne (Ne.symm hbyte)]
    simp only [hne, false_or]

/-! ## Many bits -/

theorem length_setBits (h : setBits bits idxs = some bits') : bits'.length = bits.length := by
  induction idxs generalizing bits with
  | nil =>
    cases h
    rfl
  | cons idx idxs ih =>
    rw [setBits, List.foldlM_cons] at h
    obtain ⟨bits₁, h₁, h⟩ := Option.bind_eq_some_iff.mp h
    rw [ih h, length_setBit h₁]

theorem members_setBits (h : setBits bits idxs = some bits') :
    members bits' = members bits ∪ {idx | idx ∈ idxs} := by
  induction idxs generalizing bits with
  | nil =>
    cases h
    simp
  | cons idx idxs ih =>
    rw [setBits, List.foldlM_cons] at h
    obtain ⟨bits₁, h₁, h⟩ := Option.bind_eq_some_iff.mp h
    rw [ih h, members_setBit h₁]
    ext i
    simp only [Set.mem_union, Set.mem_insert_iff, Set.mem_ofPred_eq, List.mem_cons]
    tauto

/-- Inside the array nothing goes wrong. -/
theorem setBits_isSome (h : ∀ idx ∈ idxs, idx / 8 < bits.length) :
    (setBits bits idxs).isSome = true := by
  induction idxs generalizing bits with
  | nil => rfl
  | cons idx idxs ih =>
    obtain ⟨bits₁, h₁⟩ := Option.isSome_iff_exists.mp (setBit_isSome.mpr (h idx (by simp)))
    rw [setBits, List.foldlM_cons, h₁]
    apply ih
    intro i hi
    rw [length_setBit h₁]
    exact h i (by simp [hi])

theorem allBits_isSome (h : ∀ idx ∈ idxs, idx / 8 < bits.length) :
    (allBits bits idxs).isSome = true := by
  induction idxs with
  | nil => rfl
  | cons idx idxs ih =>
    obtain ⟨b, hb⟩ := Option.isSome_iff_exists.mp (getBit_isSome.mpr (h idx (by simp)))
    rw [allBits, hb]
    cases b with
    | false => rfl
    | true => exact ih fun i hi => h i (by simp [hi])

theorem allBits_true_iff : allBits bits idxs = some true ↔ ∀ idx ∈ idxs, idx ∈ members bits := by
  induction idxs with
  | nil => simp [allBits]
  | cons idx idxs ih =>
    rw [allBits, List.forall_mem_cons, mem_members]
    cases hbit : getBit bits idx with
    | none => simp
    | some b =>
      cases b with
      | false => simp
      | true => simpa using ih

end PackedBits
end UrlShortener
