import UrlShortener.Base.Json

/-!
# UrlShortener.Base.JsonLength

How long the text of `dump()` is. In a string a byte becomes one, two or six bytes; six only for a
control byte without a short escape.
-/

namespace UrlShortener
namespace Json

/-- The length of a string as it stands between its quotes. -/
def escapedLength (s : Bytes) : Nat := (s.flatMap escape).length

def valueLength : Option Bytes → Nat
  | some s => escapedLength s + 2
  | none => 4

/-- Two quotes, a colon and a comma come to each field; the braces are paid for by the comma that the
last field does not have, and one. -/
def dumpLength (fields : List (Bytes × Option Bytes)) : Nat :=
  1 + (fields.map fun f => escapedLength f.1 + valueLength f.2 + 4).sum

/-! ## Strings -/

theorem escape_length_le (b : UInt8) : (escape b).length ≤ 6 := by
  rcases escape_cases b with ⟨e, -, -, heq⟩ | ⟨-, heq⟩ | ⟨-, -, -, heq⟩
  · rw [heq]
    exact Nat.le_add_left 2 4
  · rw [heq]
    exact Nat.le_refl 6
  · rw [heq]
    exact Nat.le_add_left 1 5

@[simp] theorem escapedLength_nil : escapedLength [] = 0 := rfl

theorem escapedLength_cons (b : UInt8) (s : Bytes) :
    escapedLength (b :: s) = (escape b).length + escapedLength s := by
  rw [escapedLength, List.flatMap_cons, List.length_append]
  rfl

theorem escapedLength_le (s : Bytes) : escapedLength s ≤ 6 * s.length := by
  induction s with
  | nil => exact Nat.le_refl 0
  | cons b s ih =>
    have hb := escape_length_le b
    rw [escapedLength_cons, List.length_cons]
    omega

/-! ## Objects -/

theorem dumpString_length {s t : Bytes} (h : dumpString s = some t) :
    t.length = escapedLength s + 2 := by
  unfold dumpString at h
  split at h
  · cases h
    simp only [List.length_append, escapedLength]
    have hquote : (ascii "\"").length = 1 := by decide
    omega
  · cases h

theorem dumpValue_length {v : Option Bytes} {t : Bytes} (h : dumpValue v = some t) :
    t.length = valueLength v := by
  cases v with
  | none =>
    cases h
    rfl
  | some s => exact dumpString_length h

/-- Every field but the last is followed by a comma. -/
theorem dumpFields_length {fields : List (Bytes × Option Bytes)} {t : Bytes} (hne : fields ≠ [])
    (h : dumpFields fields = some t) :
    t.length + 1 = (fields.map fun f => escapedLength f.1 + valueLength f.2 + 4).sum := by
  have hcolon : (ascii ":").length = 1 := by decide
  have hcomma : (ascii ",").length = 1 := by decide
  induction fields using dumpFields.induct generalizing t with
  | case1 => exact absurd rfl hne
  | case2 k v =>
    simp only [dumpFields, Option.bind_eq_bind, Option.bind_eq_some_iff] at h
    obtain ⟨kt, hk, vt, hv, h⟩ := h
    cases h
    simp only [List.map_cons, List.map_nil, List.sum_cons, List.sum_nil, List.length_append,
      dumpString_length hk, dumpValue_length hv]
    omega
  | case3 k v rest hrest ih =>
    rw [dumpFields] at h
    · simp only [Option.bind_eq_bind, Option.bind_eq_some_iff] at h
      obtain ⟨kt, hk, vt, hv, rt, hr, h⟩ := h
      cases h
      have ih := ih hrest hr
      simp only [List.map_cons, List.sum_cons, List.length_append, dumpString_length hk,
        dumpValue_length hv] at ih ⊢
      omega
    · exact hrest

theorem dump_length {fields : List (Bytes × Option Bytes)} {body : Bytes} (hne : fields ≠ [])
    (h : dump fields = some body) : body.length = dumpLength fields := by
  obtain ⟨t, ht, h⟩ := Option.bind_eq_some_iff.mp h
  cases h
  have hlen := dumpFields_length hne ht
  have hopen : (ascii "\x7b").length = 1 := by decide
  have hclose : (ascii "\x7d").length = 1 := by decide
  rw [dumpLength, ← hlen]
  simp only [List.length_append]
  omega

end Json
end UrlShortener
