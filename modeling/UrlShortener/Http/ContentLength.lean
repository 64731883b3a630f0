import UrlShortener.Http.BodyFraming

/-!
# UrlShortener.Http.ContentLength

`parse_content_length` on every string. `parseContentLengthLoop` reduces each new value modulo
`2 ^ 64`, as the machine does; here the same loop is run with operations that stop when they leave
the range of `unsigned long long`, and none of them ever does.
-/

namespace UrlShortener
namespace Http

/-- A result of `unsigned long long` arithmetic, unless it wraps. -/
def checked (n : Int) : Option Nat :=
  if 0 ≤ n ∧ n ≤ ULLONG_MAX then some n.toNat else none

/-- `parseContentLengthLoop`; `none` if an operation wraps. -/
def parseContentLengthLoopChecked : Nat → Bool → Bytes → Option (Option Nat)
  | value, sawDigit, [] =>
    some (if !sawDigit || decide (LONG_MAX < value) then none else some value)
  | value, _, b :: text =>
    if b < 48 ∨ 57 < b then some none
    else do
      let digit := b.toNat - 48
      let limit ← checked (ULLONG_MAX - digit)
      if limit / 10 < value then some none
      else
        let product ← checked (value * 10)
        let sum ← checked (product + digit)
        parseContentLengthLoopChecked sum true text

/-- `parse_content_length(text, out)`: what it returns, and what `*out` holds afterwards. -/
def parseContentLengthTo (out : Int) (text : Bytes) : Bool × Int :=
  match parseContentLength text with
  | some v => (true, v)
  | none => (false, out)

/-- A decimal number, perhaps with one `+` in front. -/
def IsContentLength (text : Bytes) (v : Nat) : Prop :=
  ∃ digits, (text = digits ∨ text = 43 :: digits) ∧ IsDecimal digits v

theorem checked_of_le {n : Nat} (h : n ≤ ULLONG_MAX) : checked n = some n := by
  unfold checked
  rw [if_pos ⟨Int.natCast_nonneg n, Int.ofNat_le.mpr h⟩, Int.toNat_natCast]

/-- The test by a truncating division is exact. -/
theorem limit_iff {value digit : Nat} (hd : digit ≤ 9) :
    (ULLONG_MAX - digit) / 10 < value ↔ ULLONG_MAX < value * 10 + digit := by
  simp only [ULLONG_MAX]
  omega

/-- No operation wraps, whatever is read. -/
theorem parseContentLengthLoop_checked (text : Bytes) (value : Nat) (saw : Bool) :
    parseContentLengthLoopChecked value saw text = some (parseContentLengthLoop value saw text) := by
  induction text generalizing value saw with
  | nil => rfl
  | cons b text ih =>
    rw [parseContentLengthLoopChecked, parseContentLengthLoop]
    by_cases hb : b < 48 ∨ 57 < b
    · rw [if_pos hb, if_pos hb]
    · rw [if_neg hb, if_neg hb]
      rw [not_or, UInt8.not_lt, UInt8.not_lt] at hb
      have hdigit : b.toNat - 48 ≤ 9 := by
        have h57 : b.toNat ≤ 57 := UInt8.le_iff_toNat_le.mp hb.2
        omega
      have hlimit : checked ((ULLONG_MAX : Int) - ((b.toNat - 48 : Nat) : Int)) =
          some (ULLONG_MAX - (b.toNat - 48)) := by
        rw [← Int.ofNat_sub (Nat.le_trans hdigit (by decide))]
        exact checked_of_le (Nat.sub_le _ _)
      simp only [hlimit, Option.bind_eq_bind, Option.bind_some]
      by_cases hlt : (ULLONG_MAX - (b.toNat - 48)) / 10 < value
      · rw [if_pos hlt, if_pos hlt]
      · rw [if_neg hlt, if_neg hlt]
        have hle : value * 10 + (b.toNat - 48) ≤ ULLONG_MAX :=
          Nat.not_lt.mp fun h => hlt ((limit_iff hdigit).mpr h)
        have hproduct : checked ((value : Int) * 10) = some (value * 10) :=
          checked_of_le (Nat.le_trans (Nat.le_add_right _ _) hle)
        have hsum : checked (((value * 10 : Nat) : Int) + ((b.toNat - 48 : Nat) : Int)) =
            some (value * 10 + (b.toNat - 48)) := checked_of_le hle
        have hfit : value * 10 + (b.toNat - 48) < 2 ^ 64 := Nat.lt_of_le_of_lt hle (by decide)
        simp only [hproduct, Option.bind_some, hsum]
        rw [ih, Nat.mod_eq_of_lt hfit]

theorem IsDecimal.head {digits : Bytes} {v : Nat} (h : IsDecimal digits v) :
    ∃ b text, digits = b :: text ∧ b ≠ 43 ∧ b ≠ 45 := by
  obtain ⟨hne, hdigits, -⟩ := h
  cases digits with
  | nil => exact absurd rfl hne
  | cons b text =>
    obtain ⟨h48, -⟩ := hdigits b List.mem_cons_self
    refine ⟨b, text, rfl, ?_, ?_⟩
    · rintro rfl
      exact absurd h48 (by decide)
    · rintro rfl
      exact absurd h48 (by decide)

theorem IsDecimal.unique {digits : Bytes} {v w : Nat} (h : IsDecimal digits v)
    (h' : IsDecimal digits w) : v = w := h.2.2.symm.trans h'.2.2

theorem IsContentLength.unique {text : Bytes} {v w : Nat} (h : IsContentLength text v)
    (h' : IsContentLength text w) : v = w := by
  obtain ⟨digits, hd, hv⟩ := h
  obtain ⟨digits', hd', hw⟩ := h'
  have hsame : digits = digits' := by
    obtain ⟨b, rest, hb, hplus, -⟩ := hv.head
    obtain ⟨b', rest', hb', hplus', -⟩ := hw.head
    obtain rfl | rfl := hd
    · obtain hd' | hd' := hd'
      · exact hd'
      · rw [hb] at hd'
        exact absurd (List.cons.inj hd').1 hplus
    · obtain hd' | hd' := hd'
      · rw [hb'] at hd'
        exact absurd (List.cons.inj hd').1.symm hplus'
      · exact (List.cons.inj hd').2
  subst hsame
  exact hv.unique hw

/-- The loop is entered with the digits. -/
theorem parseContentLengthLoop_iff {text : Bytes} {v : Nat} :
    parseContentLengthLoop 0 false text = some v ↔ IsDecimal text v ∧ v ≤ LONG_MAX := by
  constructor
  · intro h
    have hle : ∀ {text : Bytes} {value : Nat} {saw : Bool},
        parseContentLengthLoop value saw text = some v → v ≤ LONG_MAX := by
      intro text
      induction text with
      | nil =>
        intro value saw h
        rw [parseContentLengthLoop] at h
        split at h
        · cases h
        · rename_i hsaw
          cases h
          simp only [Bool.or_eq_true, Bool.not_eq_true', decide_eq_true_eq, not_or, Nat.not_lt] at hsaw
          exact hsaw.2
      | cons b text ih =>
        intro value saw h
        rw [parseContentLengthLoop] at h
        split at h
        · cases h
        · simp only at h
          split at h
          · cases h
          · exact ih h
    obtain ⟨hdigits, hvalue, hne⟩ := parseContentLengthLoop_some h
    exact ⟨⟨hne rfl, hdigits, hvalue.symm⟩, hle h⟩
  · rintro ⟨⟨hne, hdigits, hvalue⟩, hle⟩
    rw [parseContentLengthLoop_decimal hdigits (fun h => absurd h hne) (by rw [hvalue]; exact hle), hvalue]

theorem parseContentLength_iff {text : Bytes} {v : Nat} :
    parseContentLength text = some v ↔ IsContentLength text v ∧ v ≤ LONG_MAX := by
  cases text with
  | nil =>
    refine iff_of_false (by simp [parseContentLength]) ?_
    rintro ⟨⟨digits, hd, hv⟩, -⟩
    obtain ⟨b, text, rfl, -⟩ := hv.head
    obtain hd | hd := hd
    · cases hd
    · cases hd
  | cons b rest =>
    rw [parseContentLength]
    by_cases hminus : b = 45
    · subst hminus
      refine iff_of_false (by simp) ?_
      rintro ⟨⟨digits, hd, hv⟩, -⟩
      obtain ⟨c, text, rfl, -, hc⟩ := hv.head
      obtain hd | hd := hd
      · exact hc (List.cons.inj hd).1.symm
      · exact absurd (List.cons.inj hd).1 (by decide)
    · rw [if_neg hminus]
      by_cases hplus : b = 43
      · subst hplus
        rw [if_pos rfl]
        have hiff : IsContentLength (43 :: rest) v ↔ IsDecimal rest v := by
          constructor
          · rintro ⟨digits, hd, hv⟩
            obtain ⟨c, text, rfl, hc, -⟩ := hv.head
            obtain hd | hd := hd
            · exact absurd (List.cons.inj hd).1.symm hc
            · rw [(List.cons.inj hd).2]
              exact hv
          · exact fun hv => ⟨rest, Or.inr rfl, hv⟩
        rw [hiff]
        by_cases hnil : rest = []
        · rw [if_pos hnil]
          exact iff_of_false (by simp) fun h => h.1.1 hnil
        · rw [if_neg hnil]
          exact parseContentLengthLoop_iff
      · rw [if_neg hplus]
        have hiff : IsContentLength (b :: rest) v ↔ IsDecimal (b :: rest) v := by
          constructor
          · rintro ⟨digits, hd, hv⟩
            obtain rfl | hd := hd
            · exact hv
            · exact absurd (List.cons.inj hd).1 hplus
          · exact fun hv => ⟨b :: rest, Or.inl rfl, hv⟩
        rw [hiff]
        exact parseContentLengthLoop_iff

/-- **`parse_content_length` is exact.** It returns true for the numbers up to `LONG_MAX`, with their
value in `*out`; otherwise `*out` keeps what it held. No operation on the way wraps. -/
theorem parse_content_length_exact (text : Bytes) (out : Int) :
    ((parseContentLengthTo out text).1 = true ↔ ∃ v, IsContentLength text v ∧ v ≤ LONG_MAX) ∧
      (∀ v, IsContentLength text v → (parseContentLengthTo out text).1 = true →
        (parseContentLengthTo out text).2 = v) ∧
      ((parseContentLengthTo out text).1 = false → (parseContentLengthTo out text).2 = out) ∧
      ∀ value saw, parseContentLengthLoopChecked value saw text =
        some (parseContentLengthLoop value saw text) := by
  refine ⟨?_, ?_, ?_, parseContentLengthLoop_checked text⟩
  · simp only [← parseContentLength_iff, parseContentLengthTo]
    cases parseContentLength text with
    | none => simp
    | some v => simp
  · intro v hv htrue
    unfold parseContentLengthTo at htrue ⊢
    cases hparse : parseContentLength text with
    | none =>
      rw [hparse] at htrue
      cases htrue
    | some w =>
      obtain ⟨hw, -⟩ := parseContentLength_iff.mp hparse
      rw [hv.unique hw]
  · intro hfalse
    unfold parseContentLengthTo at hfalse ⊢
    cases hparse : parseContentLength text with
    | none => rfl
    | some w =>
      rw [hparse] at hfalse
      cases hfalse

end Http
end UrlShortener
