import UrlShortener.Base.Bytes

/-!
# UrlShortener.Base.Json

The part of `nlohmann::json` the program's answers use: `dump()` of an object whose values are
strings or null, with the default strict error handler (a string that is not UTF-8 throws, here
`none`) and `ensure_ascii` off. An object is a `std::map`, so its fields are listed by key order.
-/

namespace UrlShortener
namespace Json

/-- A UTF-8 continuation byte within `[lo, hi]`. -/
def contIn (lo hi b : UInt8) : Bool := decide (lo ≤ b) && decide (b ≤ hi)

/-- Well-formed UTF-8: no overlong forms, no surrogates, nothing above U+10FFFF. -/
def utf8Valid : Bytes → Bool
  | [] => true
  | b :: bs =>
    if b < 0x80 then utf8Valid bs
    else if 0xC2 ≤ b ∧ b ≤ 0xDF then
      match bs with
      | c₁ :: r => contIn 0x80 0xBF c₁ && utf8Valid r
      | _ => false
    else if 0xE0 ≤ b ∧ b ≤ 0xEF then
      match bs with
      | c₁ :: c₂ :: r =>
        contIn (if b = 0xE0 then 0xA0 else 0x80) (if b = 0xED then 0x9F else 0xBF) c₁ &&
          contIn 0x80 0xBF c₂ && utf8Valid r
      | _ => false
    else if 0xF0 ≤ b ∧ b ≤ 0xF4 then
      match bs with
      | c₁ :: c₂ :: c₃ :: r =>
        contIn (if b = 0xF0 then 0x90 else 0x80) (if b = 0xF4 then 0x8F else 0xBF) c₁ &&
          contIn 0x80 0xBF c₂ && contIn 0x80 0xBF c₃ && utf8Valid r
      | _ => false
    else false

theorem utf8Valid_cons_ascii {b : UInt8} {bs : Bytes} (h : b < 0x80) :
    utf8Valid (b :: bs) = utf8Valid bs := by
  conv_lhs => unfold utf8Valid
  exact if_pos h

/-- ASCII is UTF-8. -/
theorem utf8Valid_of_ascii {s : Bytes} (h : ∀ b ∈ s, b < 0x80) : utf8Valid s = true := by
  induction s with
  | nil => rfl
  | cons b s ih =>
    rw [utf8Valid_cons_ascii (h b (by simp))]
    exact ih fun c hc => h c (by simp [hc])

def hexDigit (n : Nat) : UInt8 := UInt8.ofNat (if n < 10 then 48 + n else 87 + n)

/-- One byte of `dump_escaped`. Bytes of a multi-byte sequence are copied. -/
def escape (b : UInt8) : Bytes :=
  if b = 0x08 then ascii "\\b"
  else if b = 0x09 then ascii "\\t"
  else if b = 0x0A then ascii "\\n"
  else if b = 0x0C then ascii "\\f"
  else if b = 0x0D then ascii "\\r"
  else if b = 0x22 then ascii "\\\""
  else if b = 0x5C then ascii "\\\\"
  else if b ≤ 0x1F then ascii "\\u00" ++ [hexDigit (b.toNat / 16), hexDigit (b.toNat % 16)]
  else [b]

/-- The bytes with a short escape, each with the letter behind its backslash. -/
def shortEscapes : List (UInt8 × UInt8) :=
  [(0x08, 98), (0x09, 116), (0x0A, 110), (0x0C, 102), (0x0D, 114), (0x22, 0x22), (0x5C, 0x5C)]

/-- All that `escape` does. -/
theorem escape_cases (b : UInt8) :
    (∃ e ∈ shortEscapes, b = e.1 ∧ escape b = [0x5C, e.2]) ∨
    (b ≤ 0x1F ∧ escape b =
      [0x5C, 117, 48, 48, hexDigit (b.toNat / 16), hexDigit (b.toNat % 16)]) ∨
    (¬ b ≤ 0x1F ∧ b ≠ 0x22 ∧ b ≠ 0x5C ∧ escape b = [b]) := by
  by_cases hshort : ∃ e ∈ shortEscapes, b = e.1
  · have hall : ∀ e ∈ shortEscapes, escape e.1 = [0x5C, e.2] :=
      List.all_iff_forall_prop.mp (by decide +kernel)
    obtain ⟨e, he, rfl⟩ := hshort
    exact Or.inl ⟨e, he, rfl, hall e he⟩
  · simp only [shortEscapes, List.mem_cons, List.not_mem_nil, or_false, exists_eq_or_imp,
      exists_eq_left, not_or] at hshort
    obtain ⟨h1, h2, h3, h4, h5, h6, h7⟩ := hshort
    unfold escape
    rw [if_neg h1, if_neg h2, if_neg h3, if_neg h4, if_neg h5, if_neg h6, if_neg h7]
    by_cases hcontrol : b ≤ 0x1F
    · rw [if_pos hcontrol]
      exact Or.inr (Or.inl ⟨hcontrol, rfl⟩)
    · rw [if_neg hcontrol]
      exact Or.inr (Or.inr ⟨hcontrol, h6, h7, rfl⟩)

def dumpString (s : Bytes) : Option Bytes :=
  if utf8Valid s then some (ascii "\"" ++ s.flatMap escape ++ ascii "\"") else none

/-- A byte of ASCII that is copied. -/
def isPlain (b : UInt8) : Bool := decide (0x1F < b ∧ b < 0x80 ∧ b ≠ 0x22 ∧ b ≠ 0x5C)

theorem dumpString_plain {s : Bytes} (h : s.all isPlain = true) :
    dumpString s = some (ascii "\"" ++ s ++ ascii "\"") := by
  have hplain : ∀ b ∈ s, 0x1F < b ∧ b < 0x80 ∧ b ≠ 0x22 ∧ b ≠ 0x5C := fun b hb =>
    of_decide_eq_true (List.all_eq_true.mp h b hb)
  have hvalid : utf8Valid s = true := utf8Valid_of_ascii fun b hb => (hplain b hb).2.1
  have hescaped : ∀ e ∈ shortEscapes, isPlain e.1 = false :=
    List.all_iff_forall_prop.mp (by decide)
  have hcopied : ∀ b ∈ s, escape b = [b] := by
    intro b hb
    rcases escape_cases b with ⟨e, he, rfl, -⟩ | ⟨hcontrol, -⟩ | ⟨-, -, -, heq⟩
    · have hnot := List.all_eq_true.mp h e.1 hb
      rw [hescaped e he] at hnot
      cases hnot
    · exact absurd (hplain b hb).1 (UInt8.not_lt.mpr hcontrol)
    · exact heq
  rw [dumpString, if_pos hvalid, List.flatMap_congr hcopied, List.flatMap_singleton']

/-- A field value: a string, or null. -/
def dumpValue : Option Bytes → Option Bytes
  | some s => dumpString s
  | none => some (ascii "null")

def dumpFields : List (Bytes × Option Bytes) → Option Bytes
  | [] => some []
  | [(k, v)] => do
    let k ← dumpString k
    let v ← dumpValue v
    return k ++ ascii ":" ++ v
  | (k, v) :: rest => do
    let k ← dumpString k
    let v ← dumpValue v
    let rest ← dumpFields rest
    return k ++ ascii ":" ++ v ++ ascii "," ++ rest

/-- `json.dump()` of an object. -/
def dump (fields : List (Bytes × Option Bytes)) : Option Bytes := do
  let body ← dumpFields fields
  return ascii "\x7b" ++ body ++ ascii "\x7d"

theorem dumpString_isSome (s : Bytes) : (dumpString s).isSome = utf8Valid s := by
  unfold dumpString
  split <;> simp_all

theorem dumpValue_isSome (v : Option Bytes) : (dumpValue v).isSome = v.all utf8Valid := by
  cases v with
  | none => rfl
  | some s => exact dumpString_isSome s

/-- A field can be written when its key and its value can. -/
theorem dumpFields_isSome (fields : List (Bytes × Option Bytes)) :
    (dumpFields fields).isSome = fields.all fun f => utf8Valid f.1 && f.2.all utf8Valid := by
  induction fields using dumpFields.induct with
  | case1 => rfl
  | case2 k v =>
    rw [dumpFields, List.all_cons, List.all_nil, Bool.and_true, ← dumpString_isSome,
      ← dumpValue_isSome]
    cases dumpString k <;> cases dumpValue v <;> rfl
  | case3 k v rest hne ih =>
    rw [dumpFields, List.all_cons, ← ih, ← dumpString_isSome, ← dumpValue_isSome]
    · cases dumpString k <;> cases dumpValue v <;> cases dumpFields rest <;> rfl
    · exact hne

/-- **`dump()` throws exactly when some string is not UTF-8.** -/
theorem dump_isSome (fields : List (Bytes × Option Bytes)) :
    (dump fields).isSome = fields.all fun f => utf8Valid f.1 && f.2.all utf8Valid := by
  rw [← dumpFields_isSome, dump]
  cases dumpFields fields <;> rfl

example : dump [(ascii "error", some (ascii "a\"b\n")), (ascii "x", none)] =
    some (ascii "\x7b\"error\":\"a\\\"b\\n\",\"x\":null\x7d") := by decide

end Json
end UrlShortener
