import UrlShortener.Base.Positional
import UrlShortener.ShortUrl.Codes

/-!
# UrlShortener.ShortUrl.Base62

What `base62_encode` keeps of an id. The program has no decoder: `base62Value` reads a code as a
number in base 62, and a code is read back as the id that it was made from.
-/

namespace UrlShortener
namespace ShortUrl

/-- What a letter of the alphabet counts. -/
def digitOf (b : UInt8) : Nat := alphabet.idxOf b

def base62Value (code : Bytes) : Nat := Positional.value 62 (code.map digitOf)

/-- `short_code VARCHAR(16)`. -/
def SHORT_CODE_COLUMN : Nat := 16

theorem digitOf_alphabet : ∀ d : Fin 62, digitOf (alphabet.getD d.val NUL) = d.val := by
  decide +kernel

theorem digitOf_lt {b : UInt8} (h : b ∈ alphabet) : digitOf b < 62 := by
  have hlen : alphabet.length = 62 := by decide
  rw [← hlen]
  exact List.idxOf_lt_length_of_mem h

/-- The code `out` is extended to by the digits `ds`. -/
def letters (ds : List Nat) : Bytes := ds.map fun d => alphabet.getD d NUL

theorem digitOf_letters {ds : List Nat} (h : ∀ d ∈ ds, d < 62) : (letters ds).map digitOf = ds := by
  rw [letters, List.map_map]
  refine (List.map_congr_left fun d hd => ?_).trans (List.map_id ds)
  exact digitOf_alphabet ⟨d, h d hd⟩

theorem div_rem (value : UInt64) :
    value.toNat = (value / 62).toNat * 62 + (value % 62).toNat := by
  have h62 : (62 : UInt64).toNat = 62 := rfl
  rw [UInt64.toNat_div, UInt64.toNat_mod, h62]
  omega

/-- What the loop puts in front of `out`: the digits of the value, the first of them not zero. -/
theorem base62Loop_digits {n : Nat} {value : UInt64} {out : Bytes} (hn : value.toNat ≤ n) :
    ∃ ds, base62Loop n value out = letters ds ++ out ∧ (∀ d ∈ ds, d < 62) ∧
      Positional.value 62 ds = value.toNat ∧ ds.head? ≠ some 0 := by
  induction n generalizing value out with
  | zero => exact ⟨[], rfl, by simp, by simp [Nat.le_zero.mp hn], by simp⟩
  | succ n ih =>
    have hsplit := div_rem value
    have hrem : (value % 62).toNat < 62 := Nat.mod_lt _ (by decide)
    rw [base62Loop]
    split
    · rename_i hpos
      have hpos : 0 < value.toNat := UInt64.lt_iff_toNat_lt.mp hpos
      obtain ⟨ds, hout, hds, hvalue, hhead⟩ :=
        @ih (value / 62) (alphabet.getD (value % 62).toNat NUL :: out) (by omega)
      refine ⟨ds ++ [(value % 62).toNat], ?_, ?_, ?_, ?_⟩
      · rw [hout, letters, letters, List.map_append, List.append_assoc]
        rfl
      · intro d hd
        obtain hd | hd := List.mem_append.mp hd
        · exact hds d hd
        · rw [List.mem_singleton.mp hd]
          exact hrem
      · rw [Positional.value_concat, hvalue, ← hsplit]
      · -- the first digit is this one only if the quotient is zero
        cases ds with
        | nil =>
          have hzero : (value / 62).toNat = 0 := hvalue.symm
          simp only [List.nil_append, List.head?_cons, ne_eq, Option.some.injEq]
          omega
        | cons d ds => simpa using hhead
    · rename_i hpos
      have hzero : value.toNat = 0 := by
        rw [UInt64.lt_iff_toNat_lt] at hpos
        exact Nat.eq_zero_of_not_pos hpos
      exact ⟨[], rfl, by simp, hzero.symm, by simp⟩

/-- The digits of a code. -/
theorem base62Encode_digits (id : UInt64) : ∃ ds, base62Encode id = letters ds ∧
    (∀ d ∈ ds, d < 62) ∧ Positional.value 62 ds = id.toNat ∧ (ds.head? = some 0 → ds = [0]) := by
  unfold base62Encode
  split
  · rename_i hzero
    subst hzero
    exact ⟨[0], by decide, by simp, rfl, fun _ => rfl⟩
  · obtain ⟨ds, hout, hds, hvalue, hhead⟩ := @base62Loop_digits id.toNat id [] (Nat.le_refl _)
    exact ⟨ds, by simpa using hout, hds, hvalue, fun h => absurd h hhead⟩

/-- Reading a code gives the id back. -/
theorem base62Value_encode (id : UInt64) : base62Value (base62Encode id) = id.toNat := by
  obtain ⟨ds, hcode, hds, hvalue, -⟩ := base62Encode_digits id
  rw [base62Value, hcode, digitOf_letters hds, hvalue]

theorem base62Encode_injective : Function.Injective base62Encode := by
  intro id id' h
  have hvalue : id.toNat = id'.toNat := by rw [← base62Value_encode, h, base62Value_encode]
  exact UInt64.toNat_inj.mp hvalue

theorem base62Encode_length_le {id : UInt64} {k : Nat} (hk : k ≠ 0) (h : id.toNat < 62 ^ k) :
    (base62Encode id).length ≤ k := by
  unfold base62Encode
  split
  · exact Nat.pos_of_ne_zero hk
  · exact (base62Loop_length h).trans (by simp)

/-- A code says what its id is. -/
structure Faithful (id : UInt64) (code : Bytes) : Prop where
  nonempty : code ≠ []
  letters : ∀ b ∈ code, b ∈ alphabet
  /-- No zero in front. -/
  canonical : code.head? = some 48 → code = ascii "0"
  value : base62Value code = id.toNat
  length : code.length ≤ 11
  /-- Ids that `next_id` packs have 51 bits. -/
  short : id.toNat < 2 ^ 51 → code.length ≤ 9
  column : code.length ≤ SHORT_CODE_COLUMN

theorem canonical_letters {ds : List Nat} (hds : ∀ d ∈ ds, d < 62)
    (hhead : ds.head? = some 0 → ds = [0]) :
    (ShortUrl.letters ds).head? = some 48 → ShortUrl.letters ds = ascii "0" := by
  cases ds with
  | nil => simp [ShortUrl.letters]
  | cons d ds =>
    intro h
    have hletter : alphabet.getD d NUL = 48 := by simpa [ShortUrl.letters] using h
    have hd : digitOf 48 = d := by
      rw [← hletter]
      exact digitOf_alphabet ⟨d, hds d List.mem_cons_self⟩
    have hzero : d = 0 := hd.symm.trans (by decide)
    rw [hhead (by rw [hzero]; rfl)]
    decide

/-- **Codes are faithful.** Every id is read back from its code; different ids have different codes,
and among codes of one length the order of the ids is the order of the digits. -/
theorem base62_faithful :
    (∀ id, Faithful id (base62Encode id)) ∧ Function.Injective base62Encode ∧
      ∀ id id' : UInt64, (base62Encode id).length = (base62Encode id').length →
        (id < id' ↔ (base62Encode id).map digitOf < (base62Encode id').map digitOf) := by
  refine ⟨fun id => ?_, base62Encode_injective, fun id id' hlen => ?_⟩
  · obtain ⟨ds, hcode, hds, -, hhead⟩ := base62Encode_digits id
    refine ⟨base62Encode_ne_nil id, base62Encode_mem id, ?_, base62Value_encode id,
      base62Encode_length id, ?_, ?_⟩
    · rw [hcode]
      exact canonical_letters hds hhead
    · intro hsmall
      exact base62Encode_length_le (by decide) (Nat.lt_trans hsmall (by decide))
    · exact (base62Encode_length id).trans (by decide)
  · have hlt : ∀ id : UInt64, ∀ d ∈ (base62Encode id).map digitOf, d < 62 := by
      intro id d hd
      obtain ⟨b, hb, rfl⟩ := List.mem_map.mp hd
      exact digitOf_lt (base62Encode_mem id b hb)
    rw [← Positional.value_lt_iff (by simpa using hlen) (hlt id) (hlt id'), UInt64.lt_iff_toNat_lt,
      ← base62Value_encode id, ← base62Value_encode id']
    rfl

end ShortUrl
end UrlShortener
