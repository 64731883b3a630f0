import UrlShortener.Base.JsonText

/-!
# UrlShortener.Base.JsonRoundTrip

What `dump()` writes is read back: decimal numbers, strings, and objects of them. The lemmas are
about one token each; `Follows` puts tokens together, and `read_of_follows` is the whole text.
-/

namespace UrlShortener
namespace JsonText

open Json

/-! ## Numbers -/

theorem charByte_isDigit {c : Char} (h : c.isDigit = true) :
    isDigit (UInt8.ofNat c.toNat) = true ∧ (UInt8.ofNat c.toNat).toNat = c.toNat := by
  obtain ⟨h1, h2⟩ : 48 ≤ c.toNat ∧ c.toNat ≤ 57 := Char.isDigit_iff_toNat.mp h
  have htoNat : (UInt8.ofNat c.toNat).toNat = c.toNat := by
    rw [UInt8.toNat_ofNat']
    exact Nat.mod_eq_of_lt (by omega)
  refine ⟨?_, htoNat⟩
  rw [isDigit_iff, UInt8.le_iff_toNat_le, UInt8.le_iff_toNat_le, htoNat]
  exact ⟨h1, h2⟩

theorem toDecimal_isDigit (n : Nat) : ∀ b ∈ toDecimal n, isDigit b = true := by
  intro b hb
  obtain ⟨c, hc, rfl⟩ := List.mem_map.mp hb
  exact (charByte_isDigit (Nat.isDigit_of_mem_toDigits (by decide) (by decide) hc)).1

theorem toDecimal_length_le_iff {n k : Nat} (hk : 0 < k) :
    (toDecimal n).length ≤ k ↔ n < 10 ^ k := by
  rw [toDecimal, List.length_map]
  exact Nat.length_toDigits_le_iff (by decide) hk

theorem toDecimal_ne_nil (n : Nat) : toDecimal n ≠ [] := by
  rw [toDecimal, Ne, List.map_eq_nil_iff]
  exact Nat.toDigits_ne_nil

/-- Reading the digits gives the number back. -/
theorem ofDigits_toDecimal (n : Nat) : ofDigits (toDecimal n) = n := by
  have hfold : ∀ (cs : List Char) (m : Nat), (∀ c ∈ cs, c.isDigit = true) →
      (cs.map fun c => UInt8.ofNat c.toNat).foldl (fun n d => 10 * n + (d.toNat - 0x30)) m =
        Nat.ofDigitChars 10 cs m := by
    intro cs
    induction cs with
    | nil => intro m _; rfl
    | cons c cs ih =>
      intro m hcs
      rw [List.map_cons, List.foldl_cons, ih _ fun c hc => hcs c (by simp [hc]),
        Nat.ofDigitChars_cons, (charByte_isDigit (hcs c (by simp))).2]
      rfl
  rw [ofDigits, toDecimal, hfold _ _ fun c hc => Nat.isDigit_of_mem_toDigits (by decide) (by decide) hc]
  exact Nat.ofDigitChars_ten_toDigits

/-- Only the number zero begins with a zero. -/
theorem toDecimal_head {n : Nat} (hn : 0 < n) : ∃ d ds, toDecimal n = d :: ds ∧ d ≠ 0x30 := by
  induction n using Nat.strongRecOn with
  | _ n ih =>
    by_cases hlt : n < 10
    · refine ⟨UInt8.ofNat n.digitChar.toNat, [], ?_, ?_⟩
      · rw [toDecimal, Nat.toDigits_of_lt_base hlt]
        rfl
      · rw [Nat.toNat_digitChar_of_lt_ten hlt]
        intro heq
        have := congrArg UInt8.toNat heq
        rw [UInt8.toNat_ofNat', Nat.mod_eq_of_lt (by omega)] at this
        have hzero : (0x30 : UInt8).toNat = 48 := rfl
        omega
    · obtain ⟨d, ds, heq, hd⟩ := ih (n / 10) (by omega) (by omega)
      rw [toDecimal] at heq
      refine ⟨d, ds ++ [UInt8.ofNat (n % 10).digitChar.toNat], ?_, hd⟩
      rw [toDecimal, Nat.toDigits_of_base_le (by decide) (by omega), List.map_append, heq]
      rfl

/-- What may stand behind a value in a container. -/
def Closes (b : UInt8) : Prop := b = 0x2C ∨ b = 0x5D ∨ b = 0x7D

theorem Closes.not_number {b : UInt8} (h : Closes b) :
    isDigit b = false ∧ b ≠ 0x2E ∧ b ≠ 0x65 ∧ b ≠ 0x45 := by
  rcases h with rfl | rfl | rfl <;> decide

theorem takeWhile_digits {ds : Bytes} (h : ∀ b ∈ ds, isDigit b = true) {b : UInt8}
    (hb : isDigit b = false) (rest : Bytes) : (ds ++ b :: rest).takeWhile isDigit = ds ∧
      (ds ++ b :: rest).dropWhile isDigit = b :: rest := by
  rw [List.takeWhile_append_of_pos h, List.dropWhile_append_of_pos h, List.takeWhile_cons,
    List.dropWhile_cons, hb]
  exact ⟨List.append_nil ds, rfl⟩

theorem scanInteger_toDecimal (n : Nat) {b : UInt8} {rest : Bytes} (hb : isDigit b = false) :
    scanInteger (toDecimal n ++ b :: rest) = some (toDecimal n, b :: rest) := by
  cases Nat.eq_zero_or_pos n with
  | inl hzero => subst hzero; rfl
  | inr hpos =>
    obtain ⟨d, ds, heq, hd⟩ := toDecimal_head hpos
    have hdigits := toDecimal_isDigit n
    rw [heq] at hdigits
    obtain ⟨htake, hdrop⟩ :=
      takeWhile_digits (fun c hc => hdigits c (List.mem_cons_of_mem d hc)) hb rest
    rw [heq, List.cons_append, scanInteger, if_neg hd, if_pos (hdigits d (by simp)), htake, hdrop]

/-- An integer as a number. -/
def integer (negative : Bool) (n : Nat) : Number where
  negative := negative
  digits := n
  size := (toDecimal n).length

theorem scanUnsigned_toDecimal (negative : Bool) (n : Nat) {b : UInt8} (hb : Closes b)
    (rest : Bytes) :
    scanUnsigned negative (toDecimal n ++ b :: rest) = some (integer negative n, b :: rest) := by
  obtain ⟨hdigit, hpoint, he, hE⟩ := hb.not_number
  have hfraction : scanFraction (b :: rest) = none := by
    cases rest with
    | nil => rfl
    | cons d rest => rw [scanFraction, if_neg fun h => hpoint h.1]
  have hexponent : scanExponent (b :: rest) = none := by
    cases rest with
    | nil => rfl
    | cons s rest => rw [scanExponent, if_neg fun h => h.elim he hE]
  simp only [scanUnsigned, scanInteger_toDecimal n hdigit, hfraction, hexponent, Option.getD_none,
    Option.isSome_none, List.append_nil, ofDigits_toDecimal]
  rfl

/-- The text of an integer. -/
def integerText (negative : Bool) (n : Nat) : Bytes :=
  (if negative then [0x2D] else []) ++ toDecimal n

theorem toDecimalInt_eq (n : Int) : toDecimalInt n = integerText (decide (n < 0)) n.natAbs := by
  have hminus : ascii "-" = [0x2D] := by decide
  rw [toDecimalInt, integerText, hminus]
  by_cases h : n < 0
  · rw [if_pos h, decide_eq_true h, if_pos rfl]
  · rw [if_neg h, decide_eq_false h]
    rfl

theorem scanNumber_integerText (negative : Bool) (n : Nat) {b : UInt8} (hb : Closes b)
    (rest : Bytes) :
    scanNumber (integerText negative n ++ b :: rest) = some (integer negative n, b :: rest) := by
  cases negative with
  | true => exact scanUnsigned_toDecimal true n hb rest
  | false =>
    have hne : ∃ d ds, toDecimal n ++ b :: rest = d :: ds ∧ isDigit d = true := by
      cases hn : toDecimal n with
      | nil => exact absurd hn (toDecimal_ne_nil n)
      | cons d ds => exact ⟨d, _, rfl, toDecimal_isDigit n d (by rw [hn]; simp)⟩
    obtain ⟨d, ds, heq, hd⟩ := hne
    have hminus : d ≠ 0x2D := by
      rintro rfl
      revert hd
      decide
    have hunsigned := scanUnsigned_toDecimal false n hb rest
    show scanNumber (toDecimal n ++ b :: rest) = _
    rw [heq] at hunsigned ⊢
    rw [scanNumber, if_neg hminus, hunsigned]

/-- `whole.fraction` as a number. -/
def decimal (negative : Bool) (whole : Nat) (fraction : Bytes) : Number where
  negative := negative
  digits := ofDigits (toDecimal whole ++ fraction)
  scale := 0 - fraction.length
  size := (toDecimal whole).length
  hasPoint := true

/-- The text of a number with a point. -/
def decimalText (whole : Nat) (fraction : Bytes) : Bytes := toDecimal whole ++ 0x2E :: fraction

theorem scanUnsigned_decimalText (negative : Bool) (whole : Nat) {fraction : Bytes}
    (hne : fraction ≠ []) (hdigits : ∀ c ∈ fraction, isDigit c = true) {b : UInt8} (hb : Closes b)
    (rest : Bytes) : scanUnsigned negative (decimalText whole fraction ++ b :: rest) =
      some (decimal negative whole fraction, b :: rest) := by
  obtain ⟨hdigit, -, he, hE⟩ := hb.not_number
  have hexponent : scanExponent (b :: rest) = none := by
    cases rest with
    | nil => rfl
    | cons s rest => rw [scanExponent, if_neg fun h => h.elim he hE]
  have hfraction : scanFraction (0x2E :: (fraction ++ b :: rest)) = some (fraction, b :: rest) := by
    cases fraction with
    | nil => exact absurd rfl hne
    | cons d ds =>
      obtain ⟨htake, hdrop⟩ :=
        takeWhile_digits (fun c hc => hdigits c (List.mem_cons_of_mem d hc)) hdigit rest
      rw [List.cons_append, scanFraction, if_pos ⟨rfl, hdigits d (by simp)⟩, htake, hdrop]
  have hpoint : isDigit 0x2E = false := by decide
  rw [decimalText, List.append_assoc, List.cons_append]
  simp only [scanUnsigned, scanInteger_toDecimal whole hpoint, hfraction, hexponent,
    Option.getD_some, Option.getD_none, Option.isSome_some, Option.isSome_none]
  rfl

theorem scanNumber_decimalText (whole : Nat) {fraction : Bytes} (hne : fraction ≠ [])
    (hdigits : ∀ c ∈ fraction, isDigit c = true) {b : UInt8} (hb : Closes b) (rest : Bytes) :
    scanNumber (decimalText whole fraction ++ b :: rest) =
      some (decimal false whole fraction, b :: rest) := by
  have hunsigned := scanUnsigned_decimalText false whole hne hdigits hb rest
  cases hwhole : toDecimal whole with
  | nil => exact absurd hwhole (toDecimal_ne_nil whole)
  | cons d ds =>
    have hd : isDigit d = true := toDecimal_isDigit whole d (by rw [hwhole]; simp)
    have hminus : d ≠ 0x2D := by
      rintro rfl
      revert hd
      decide
    rw [decimalText, hwhole] at hunsigned ⊢
    exact Eq.trans (if_neg hminus) hunsigned

/-! ## Strings -/

theorem utf8Char_ascii {b : UInt8} {bs : Bytes} (h : b < 0x80) :
    utf8Char (b :: bs) = some ([b], bs) := by
  unfold utf8Char
  exact if_pos h

theorem hexValue_hexDigit : ∀ n < 16, hexValue (hexDigit n) = some n := by decide

theorem scanChar_escape {lone : Bool} {b : UInt8} (hb : b < 0x80) (rest : Bytes) :
    scanChar lone (escape b ++ rest) = some ([b], rest) := by
  have hlt : b.toNat < 128 := UInt8.lt_iff_toNat_lt.mp hb
  rcases escape_cases b with ⟨e, he, rfl, heq⟩ | ⟨-, heq⟩ | ⟨hcontrol, -, hslash, heq⟩
  · have hshort : ∀ e ∈ shortEscapes, scanChar lone (0x5C :: e.2 :: rest) = some ([e.1], rest) := by
      simp only [shortEscapes, List.forall_mem_cons]
      exact ⟨rfl, rfl, rfl, rfl, rfl, rfl, rfl, List.forall_mem_nil _⟩
    rw [heq]
    exact hshort e he
  · -- a control character, as four hex digits
    have hcp : scanCodepoint (0x30 :: 0x30 :: hexDigit (b.toNat / 16) :: hexDigit (b.toNat % 16) ::
        rest) = some (b.toNat, rest) := by
      have hzero : hexValue 0x30 = some 0 := rfl
      rw [scanCodepoint, hzero, hexValue_hexDigit _ (by omega), hexValue_hexDigit _ (by omega)]
      show some (0 * 0x1000 + 0 * 0x100 + b.toNat / 16 * 0x10 + b.toNat % 16, rest) = _
      congr 2
      omega
    rw [heq]
    show scanUnicode lone (0x30 :: 0x30 :: hexDigit (b.toNat / 16) :: hexDigit (b.toNat % 16) ::
        rest) = _
    rw [scanUnicode, hcp]
    simp only [if_neg (show ¬ (0xD800 ≤ b.toNat ∧ b.toNat ≤ 0xDBFF) by omega),
      if_neg (show ¬ (0xDC00 ≤ b.toNat ∧ b.toNat ≤ 0xDFFF) by omega), encodeUtf8, if_pos hlt,
      UInt8.ofNat_toNat]
  · have hspace : ¬ b < 0x20 := fun h =>
      hcontrol (UInt8.le_iff_toNat_le.mpr (Nat.le_of_lt_succ (UInt8.lt_iff_toNat_lt.mp h)))
    rw [heq, List.singleton_append, scanChar, if_neg hslash, if_neg hspace, utf8Char_ascii hb]

/-- The escape of a character does not begin with a quote. -/
theorem escape_head (b : UInt8) : ∃ x xs, escape b = x :: xs ∧ x ≠ 0x22 := by
  rcases escape_cases b with ⟨e, -, -, heq⟩ | ⟨-, heq⟩ | ⟨-, hquote, -, heq⟩
  · exact ⟨_, _, heq, by decide⟩
  · exact ⟨_, _, heq, by decide⟩
  · exact ⟨_, _, heq, hquote⟩

/-- The bytes of a longer character are copied. -/
theorem escape_high {b : UInt8} (hb : 0x80 ≤ b) : escape b = [b] := by
  have hle : 128 ≤ b.toNat := UInt8.le_iff_toNat_le.mp hb
  rcases escape_cases b with ⟨e, he, rfl, -⟩ | ⟨hcontrol, -⟩ | ⟨-, -, -, heq⟩
  · have hshort : ∀ e ∈ shortEscapes, e.1.toNat < 128 :=
      List.all_iff_forall_prop.mp (by decide)
    have hlow := hshort e he
    omega
  · have hlow : b.toNat ≤ 31 := UInt8.le_iff_toNat_le.mp hcontrol
    omega
  · exact heq

theorem contIn_high {lo hi c : UInt8} (hlo : 0x80 ≤ lo) (h : contIn lo hi c = true) : 0x80 ≤ c := by
  rw [contIn, Bool.and_eq_true, decide_eq_true_eq] at h
  exact UInt8.le_trans hlo h.1

/-- A longer character goes through the string scanner as it is. -/
theorem scanChar_high {lone : Bool} {b : UInt8} (hb : ¬ b < 0x80) (bs : Bytes) :
    scanChar lone (b :: bs) = utf8Char (b :: bs) := by
  have hle : 128 ≤ b.toNat := Nat.le_of_not_lt fun h => hb (UInt8.lt_iff_toNat_lt.mpr h)
  rw [scanChar, if_neg, if_neg]
  · intro h
    have : b.toNat < 32 := UInt8.lt_iff_toNat_lt.mp h
    omega
  · rintro rfl
    exact absurd hle (by decide)

theorem utf8Valid_ascii_append {s : Bytes} (h : ∀ b ∈ s, b < 0x80) (rest : Bytes) :
    utf8Valid (s ++ rest) = utf8Valid rest := by
  induction s with
  | nil => rfl
  | cons b s ih =>
    rw [List.cons_append, utf8Valid_cons_ascii (h b (by simp))]
    exact ih fun c hc => h c (by simp [hc])

theorem escape_ascii {b : UInt8} (hb : b < 0x80) : ∀ c ∈ escape b, c < 0x80 := by
  have hlt : b.toNat < 128 := UInt8.lt_iff_toNat_lt.mp hb
  rcases escape_cases b with ⟨e, he, -, heq⟩ | ⟨-, heq⟩ | ⟨-, -, -, heq⟩
  · have hshort : ∀ e ∈ shortEscapes, e.2 < 0x80 := List.all_iff_forall_prop.mp (by decide)
    rw [heq]
    simp only [List.forall_mem_cons]
    exact ⟨by decide, hshort e he, List.forall_mem_nil _⟩
  · have hhex : ∀ n < 16, hexDigit n < 0x80 := by decide
    rw [heq]
    simp only [List.forall_mem_cons]
    exact ⟨by decide, by decide, by decide, by decide, hhex _ (by omega), hhex _ (by omega),
      List.forall_mem_nil _⟩
  · rw [heq]
    simpa using hb

/-- The first character of a UTF-8 text, as it is and escaped. -/
structure FirstChar (lone : Bool) (s c r : Bytes) : Prop where
  split : s = c ++ r
  nonempty : c ≠ []
  valid : utf8Valid r = true
  join : ∀ rest, utf8Valid (c ++ rest) = utf8Valid rest
  joinEscaped : ∀ rest, utf8Valid (c.flatMap escape ++ rest) = utf8Valid rest
  scanned : ∀ rest, scanChar lone (c.flatMap escape ++ rest) = some (c, rest)

theorem firstChar_high {lone : Bool} {b : UInt8} {cs r : Bytes} (hb : ¬ b < 0x80)
    (hcs : ∀ c ∈ cs, 0x80 ≤ c) (hvalid : utf8Valid r = true)
    (hjoin : ∀ rest, utf8Valid (b :: (cs ++ rest)) = utf8Valid rest)
    (hscan : ∀ rest, utf8Char (b :: (cs ++ rest)) = some (b :: cs, rest)) :
    FirstChar lone (b :: (cs ++ r)) (b :: cs) r := by
  have hle : 0x80 ≤ b := by
    rw [UInt8.le_iff_toNat_le]
    exact Nat.le_of_not_lt fun h => hb (UInt8.lt_iff_toNat_lt.mpr h)
  have hcopy : ∀ cs : Bytes, (∀ c ∈ cs, 0x80 ≤ c) → cs.flatMap escape = cs := by
    intro cs h
    induction cs with
    | nil => rfl
    | cons c cs ih =>
      rw [List.flatMap_cons, escape_high (h c (by simp)), ih fun c hc => h c (by simp [hc])]
      rfl
  have hcopied : (b :: cs).flatMap escape = b :: cs := hcopy _ (by simpa using ⟨hle, hcs⟩)
  refine ⟨rfl, nofun, hvalid, hjoin, ?_, fun rest => ?_⟩
  · rw [hcopied]
    exact hjoin
  · rw [hcopied, List.cons_append, scanChar_high hb, hscan]

theorem exists_firstChar (lone : Bool) {b : UInt8} {bs : Bytes}
    (h : utf8Valid (b :: bs) = true) : ∃ c r, FirstChar lone (b :: bs) c r := by
  by_cases hb : b < 0x80
  · rw [utf8Valid_cons_ascii hb] at h
    refine ⟨[b], bs, rfl, by simp, h, fun _ => utf8Valid_cons_ascii hb, fun rest => ?_,
      fun rest => ?_⟩
    · rw [List.flatMap_singleton, utf8Valid_ascii_append (escape_ascii hb)]
    · rw [List.flatMap_singleton, scanChar_escape hb]
  · unfold utf8Valid at h
    rw [if_neg hb] at h
    split at h
    · rename_i h2
      cases bs with
      | nil => cases h
      | cons c₁ r =>
        rw [Bool.and_eq_true] at h
        have hc₁ : 0x80 ≤ c₁ := contIn_high (by decide) h.1
        have hjoin : ∀ rest, utf8Valid (b :: ([c₁] ++ rest)) = utf8Valid rest := by
          intro rest
          conv_lhs => unfold utf8Valid
          simp only [if_neg hb, if_pos h2, List.singleton_append, h.1, Bool.true_and]
        have hscan : ∀ rest, utf8Char (b :: ([c₁] ++ rest)) = some ([b, c₁], rest) := by
          intro rest
          simp only [utf8Char, if_neg hb, if_pos h2, List.singleton_append, if_pos h.1]
        exact ⟨[b, c₁], r, firstChar_high hb (by simpa using hc₁) h.2 hjoin hscan⟩
    · rename_i h2
      split at h
      · rename_i h3
        obtain ⟨c₁, c₂, r, rfl⟩ : ∃ c₁ c₂ r, bs = c₁ :: c₂ :: r := by
          rcases bs with _ | ⟨c₁, _ | ⟨c₂, r⟩⟩
          · cases h
          · cases h
          · exact ⟨c₁, c₂, r, rfl⟩
        rw [Bool.and_eq_true, Bool.and_eq_true] at h
        have hc₁ : 0x80 ≤ c₁ := contIn_high (by split <;> decide) h.1.1
        have hc₂ : 0x80 ≤ c₂ := contIn_high (by decide) h.1.2
        have hjoin : ∀ rest, utf8Valid (b :: ([c₁, c₂] ++ rest)) = utf8Valid rest := by
          intro rest
          conv_lhs => unfold utf8Valid
          simp only [if_neg hb, if_neg h2, if_pos h3, List.cons_append, List.nil_append, h.1,
            Bool.true_and]
        have hscan : ∀ rest, utf8Char (b :: ([c₁, c₂] ++ rest)) = some ([b, c₁, c₂], rest) := by
          intro rest
          simp only [utf8Char, if_neg hb, if_neg h2, if_pos h3, List.cons_append,
            List.nil_append, h.1, Bool.and_self, if_true]
        exact ⟨[b, c₁, c₂], r, firstChar_high hb (by simp [hc₁, hc₂]) h.2 hjoin hscan⟩
      · rename_i h3
        split at h
        · rename_i h4
          obtain ⟨c₁, c₂, c₃, r, rfl⟩ : ∃ c₁ c₂ c₃ r, bs = c₁ :: c₂ :: c₃ :: r := by
            rcases bs with _ | ⟨c₁, _ | ⟨c₂, _ | ⟨c₃, r⟩⟩⟩
            · cases h
            · cases h
            · cases h
            · exact ⟨c₁, c₂, c₃, r, rfl⟩
          rw [Bool.and_eq_true, Bool.and_eq_true, Bool.and_eq_true] at h
          have hc₁ : 0x80 ≤ c₁ := contIn_high (by split <;> decide) h.1.1.1
          have hc₂ : 0x80 ≤ c₂ := contIn_high (by decide) h.1.1.2
          have hc₃ : 0x80 ≤ c₃ := contIn_high (by decide) h.1.2
          have hjoin : ∀ rest, utf8Valid (b :: ([c₁, c₂, c₃] ++ rest)) = utf8Valid rest := by
            intro rest
            conv_lhs => unfold utf8Valid
            simp only [if_neg hb, if_neg h2, if_neg h3, if_pos h4, List.cons_append,
              List.nil_append, h.1, Bool.true_and]
          have hscan : ∀ rest, utf8Char (b :: ([c₁, c₂, c₃] ++ rest)) =
              some ([b, c₁, c₂, c₃], rest) := by
            intro rest
            simp only [utf8Char, if_neg hb, if_neg h2, if_neg h3, if_pos h4, List.cons_append,
              List.nil_append, h.1, Bool.and_self, if_true]
          exact ⟨[b, c₁, c₂, c₃], r,
            firstChar_high hb (by simp [hc₁, hc₂, hc₃]) h.2 hjoin hscan⟩
        · cases h

/-- **Induction over the characters** of a UTF-8 text. -/
theorem utf8_induction (lone : Bool) {P : Bytes → Prop} (nil : P [])
    (char : ∀ s c r, FirstChar lone s c r → P r → P s) {s : Bytes} (h : utf8Valid s = true) :
    P s := by
  induction hn : s.length using Nat.strongRecOn generalizing s with
  | _ n ih =>
    cases s with
    | nil => exact nil
    | cons b bs =>
      obtain ⟨c, r, hfirst⟩ := exists_firstChar lone h
      refine char _ c r hfirst (ih r.length ?_ hfirst.valid rfl)
      rw [← hn, hfirst.split, List.length_append]
      exact Nat.lt_add_of_pos_left (List.length_pos_iff.mpr hfirst.nonempty)

theorem utf8Valid_append {s : Bytes} (h : utf8Valid s = true) (rest : Bytes) :
    utf8Valid (s ++ rest) = utf8Valid rest := by
  refine utf8_induction true (P := fun s => utf8Valid (s ++ rest) = utf8Valid rest) rfl ?_ h
  intro s c r hfirst ih
  rw [hfirst.split, List.append_assoc, hfirst.join, ih]

theorem utf8Valid_escape {s : Bytes} (h : utf8Valid s = true) :
    utf8Valid (s.flatMap escape) = true := by
  refine utf8_induction true (P := fun s => utf8Valid (s.flatMap escape) = true) rfl ?_ h
  intro s c r hfirst ih
  rw [hfirst.split, List.flatMap_append, hfirst.joinEscaped, ih]

/-- A quoted string is read back. -/
theorem scanString_escape (lone : Bool) {s : Bytes} (h : utf8Valid s = true) (rest : Bytes) {n : Nat}
    (hn : (s.flatMap escape).length < n) :
    scanString lone n (s.flatMap escape ++ 0x22 :: rest) = some (s, rest) := by
  refine utf8_induction lone (P := fun s => ∀ n, (s.flatMap escape).length < n →
    scanString lone n (s.flatMap escape ++ 0x22 :: rest) = some (s, rest)) ?_ ?_ h n hn
  · rintro (_ | n) hn
    · exact absurd hn (Nat.not_lt_zero _)
    · rfl
  · intro s c r hfirst ih n hn
    cases c with
    | nil => exact absurd rfl hfirst.nonempty
    | cons b cs =>
      obtain ⟨x, xs, hx, hquote⟩ := escape_head b
      have hsplit : s.flatMap escape ++ 0x22 :: rest =
          (b :: cs).flatMap escape ++ (r.flatMap escape ++ 0x22 :: rest) := by
        rw [hfirst.split, List.flatMap_append, List.append_assoc]
      have hhead : (b :: cs).flatMap escape ++ (r.flatMap escape ++ 0x22 :: rest) =
          x :: (xs ++ cs.flatMap escape ++ (r.flatMap escape ++ 0x22 :: rest)) := by
        rw [List.flatMap_cons, hx]
        simp
      cases n with
      | zero => exact absurd hn (Nat.not_lt_zero _)
      | succ n =>
        have hlen : (r.flatMap escape).length < n := by
          rw [hfirst.split, List.flatMap_append, List.length_append, List.flatMap_cons, hx] at hn
          simp only [List.cons_append, List.length_cons] at hn
          omega
        rw [hsplit, hhead, scanString, if_neg hquote, ← hhead, hfirst.scanned]
        simp only [ih n hlen, Option.map_some]
        rw [← hfirst.split]

/-! ## Tokens -/

section Scan

variable (d : Dialect)

/-- A byte that is neither space nor the end of the text. -/
theorem scan_cons {b : UInt8} {bs : Bytes} (hspace : isSpace b = false) (hnul : b ≠ 0) :
    scan d (b :: bs) = scanToken d b bs := by
  rw [scan, List.dropWhile_cons, hspace]
  simp [hnul]

theorem scan_punctuation {b : UInt8} {t : Token} (h : punctuation b = some t) (rest : Bytes) :
    scan d (b :: rest) = (t, rest) := by
  have hne : isSpace b = false ∧ b ≠ 0 := by
    unfold punctuation at h
    split at h
    · subst_vars; decide
    split at h
    · subst_vars; decide
    split at h
    · subst_vars; decide
    split at h
    · subst_vars; decide
    split at h
    · subst_vars; decide
    split at h
    · subst_vars; decide
    · cases h
  rw [scan_cons d hne.1 hne.2, scanToken, h]

theorem scan_string {s text : Bytes} (h : dumpString s = some text) (rest : Bytes) :
    scan d (text ++ rest) = (.string s, rest) := by
  unfold dumpString at h
  split at h
  · rename_i hvalid
    cases h
    have htext : ascii "\"" ++ s.flatMap escape ++ ascii "\"" ++ rest =
        0x22 :: (s.flatMap escape ++ 0x22 :: rest) := by
      have hquote : ascii "\"" = [0x22] := by decide
      simp [hquote]
    have hpunctuation : punctuation 0x22 = none := rfl
    have hlen : (s.flatMap escape).length < (s.flatMap escape ++ 0x22 :: rest).length + 1 := by
      rw [List.length_append]
      omega
    rw [htext, scan_cons d (by decide) (by decide), scanToken, hpunctuation]
    simp only [if_true, scanString_escape d.loneSurrogates hvalid rest hlen]
  · cases h

/-- The text begins with a digit, or with a minus and a digit. -/
def startsNumber : Bytes → Bool
  | [] => false
  | b :: bs => isDigit b || decide (b = 0x2D) && (bs.head?.any isDigit)

theorem startsNumber_append {s : Bytes} (h : startsNumber s = true) (rest : Bytes) :
    startsNumber (s ++ rest) = true := by
  match s, h with
  | [b], h => simp_all [startsNumber]
  | b :: c :: s, h => exact h

/-- A word that is no number: two bytes show it. -/
def isWord : Bytes → Bool
  | x :: y :: _ => !isDigit x && (decide (x ≠ 0x2D) || !isDigit y)
  | _ => false

theorem stripWord_number {word text : Bytes} (hword : isWord word = true)
    (htext : startsNumber text = true) : stripWord word text = none := by
  match word, hword, text, htext with
  | x :: y :: word, hword, b :: bs, htext =>
    simp only [isWord, Bool.and_eq_true, Bool.or_eq_true, Bool.not_eq_true', decide_eq_true_eq]
      at hword
    simp only [startsNumber, Bool.or_eq_true, Bool.and_eq_true, decide_eq_true_eq] at htext
    obtain ⟨hx, hy⟩ := hword
    rw [stripWord]
    split
    · rename_i hxb
      subst hxb
      rw [hx] at htext
      obtain h | ⟨hminus, hdigit⟩ := htext
      · cases h
      · have hy := hy.resolve_left (fun hne => hne hminus)
        cases bs with
        | nil => cases hdigit
        | cons c cs =>
          rw [stripWord, if_neg]
          rintro rfl
          simp [hy] at hdigit
    · rfl

/-- A number does not begin like a word. -/
theorem scanWord_number {text : Bytes} (h : startsNumber text = true) :
    scanWord text (words d) = none := by
  have hliterals : ∀ w ∈ literals, isWord w.1 = true := by decide
  have hconstants : ∀ w ∈ constantNames, isWord w.1 = true := by decide
  have hwords : ∀ w ∈ words d, isWord w.1 = true := by
    intro w hw
    rcases List.mem_append.mp hw with hw | hw
    · exact hliterals w hw
    · split at hw
      · exact hconstants w hw
      · cases hw
  generalize words d = ws at hwords
  induction ws with
  | nil => rfl
  | cons w ws ih =>
    obtain ⟨word, t⟩ := w
    rw [scanWord, stripWord_number (hwords (word, t) (by simp)) h]
    exact ih fun w hw => hwords w (by simp [hw])

theorem startsNumber_integerText (negative : Bool) (n : Nat) :
    startsNumber (integerText negative n) = true := by
  cases hn : toDecimal n with
  | nil => exact absurd hn (toDecimal_ne_nil n)
  | cons c cs =>
    have hc : isDigit c = true := toDecimal_isDigit n c (by rw [hn]; simp)
    cases negative <;> simp [integerText, hn, startsNumber, hc]

/-- What a number begins with is neither space nor punctuation nor a quote. -/
theorem startsNumber_head {b : UInt8} {bs : Bytes} (h : startsNumber (b :: bs) = true) :
    isSpace b = false ∧ b ≠ 0 ∧ punctuation b = none ∧ b ≠ 0x22 := by
  have hb : isDigit b = true ∨ b = 0x2D := by
    simp only [startsNumber, Bool.or_eq_true, Bool.and_eq_true, decide_eq_true_eq] at h
    exact h.imp_right And.left
  have hne : ∀ c : UInt8, isDigit c = false → c ≠ 0x2D → b ≠ c := by
    rintro c hc hminus rfl
    rcases hb with hb | hb
    · rw [hc] at hb
      cases hb
    · exact hminus hb
  refine ⟨?_, hne _ (by decide) (by decide), ?_, hne _ (by decide) (by decide)⟩
  · simp only [isSpace, decide_eq_false (hne 0x20 (by decide) (by decide)),
      decide_eq_false (hne 0x09 (by decide) (by decide)),
      decide_eq_false (hne 0x0A (by decide) (by decide)),
      decide_eq_false (hne 0x0D (by decide) (by decide)), Bool.or_self]
  · simp only [punctuation, if_neg (hne 0x5B (by decide) (by decide)),
      if_neg (hne 0x5D (by decide) (by decide)), if_neg (hne 0x7B (by decide) (by decide)),
      if_neg (hne 0x7D (by decide) (by decide)), if_neg (hne 0x3A (by decide) (by decide)),
      if_neg (hne 0x2C (by decide) (by decide))]

theorem dangling_closes (n : Number) {b : UInt8} {rest : Bytes} (hb : Closes b) :
    dangling n (b :: rest) = false := by
  obtain ⟨-, hpoint, he, hE⟩ := hb.not_number
  simp [dangling, hpoint, he, hE]

theorem scan_number {text rest : Bytes} {n : Number} {b : UInt8}
    (hstarts : startsNumber (text ++ b :: rest) = true)
    (hnumber : scanNumber (text ++ b :: rest) = some (n, b :: rest)) (hb : Closes b) :
    scan d (text ++ b :: rest) = (.number n, b :: rest) := by
  generalize text ++ b :: rest = text at hstarts hnumber
  cases text with
  | nil => cases hstarts
  | cons c cs =>
    obtain ⟨hspace, hnul, hpunctuation, hquote⟩ := startsNumber_head hstarts
    rw [scan_cons d hspace hnul, scanToken, hpunctuation]
    simp only [if_neg hquote, scanWord_number d hstarts, hnumber, dangling_closes _ hb,
      Bool.and_false, Bool.false_eq_true, if_false]

theorem scan_integer (negative : Bool) (n : Nat) {b : UInt8} {rest : Bytes} (hb : Closes b) :
    scan d (integerText negative n ++ b :: rest) = (.number (integer negative n), b :: rest) :=
  scan_number d (startsNumber_append (startsNumber_integerText negative n) (b :: rest))
    (scanNumber_integerText negative n hb rest) hb

theorem scan_decimalText (whole : Nat) {fraction : Bytes} (hne : fraction ≠ [])
    (hdigits : ∀ c ∈ fraction, isDigit c = true) {b : UInt8} {rest : Bytes} (hb : Closes b) :
    scan d (decimalText whole fraction ++ b :: rest) =
      (.number (decimal false whole fraction), b :: rest) := by
  refine scan_number d ?_ (scanNumber_decimalText whole hne hdigits hb rest) hb
  rw [decimalText, List.append_assoc]
  exact startsNumber_append (startsNumber_integerText false whole) _

end Scan

/-! ## Texts -/

section Follows

variable {E : Type} {d : Dialect} {trap : Nat → Token → Option E}

theorem Lexes.append {text mid rest : Bytes} {ts us : List Token} (h₁ : Lexes d text ts mid)
    (h₂ : Lexes d mid us rest) : Lexes d text (ts ++ us) rest := by
  induction h₁ with
  | nil text => exact h₂
  | cons t text' first more ih => exact .cons t text' first (ih h₂)

/-- The tokens lead from `s` to `s'`, and the reader gives up on none of them. -/
inductive Follows (trap : Nat → Token → Option E) : State → List Token → State → Prop where
  | nil (s : State) : Follows trap s [] s
  | cons {s s₁ s' : State} {t : Token} {ts : List Token} (free : trapAt trap s t = none)
      (step : advance s t = some s₁) (more : Follows trap s₁ ts s') : Follows trap s (t :: ts) s'

theorem Follows.append {s s₁ s' : State} {ts us : List Token} (h₁ : Follows trap s ts s₁)
    (h₂ : Follows trap s₁ us s') : Follows trap s (ts ++ us) s' := by
  induction h₁ with
  | nil s => exact h₂
  | cons free step more ih => exact .cons free step (ih h₂)

theorem readLoop_of_follows {text rest : Bytes} {ts : List Token} (hlex : Lexes d text ts rest)
    {s s' : State} {v : Value} {n : Nat} (hfollows : Follows trap s ts s')
    (hended : s'.expects = .ended v) (hend : (scan d rest).1 = .endOfInput) (hn : text.length < n) :
    readLoop d trap n s text = .ok v := by
  induction hlex generalizing s n with
  | nil text =>
    cases hfollows
    cases n with
    | zero => exact absurd hn (Nat.not_lt_zero _)
    | succ n => simp only [readLoop, hended, if_pos hend]
  | cons t text' first more ih =>
    cases hfollows with
    | cons free step followsMore =>
      cases n with
      | zero => exact absurd hn (Nat.not_lt_zero _)
      | succ n =>
        have hne : t ≠ .endOfInput := by
          rintro rfl
          rw [advance_endOfInput] at step
          cases step
        have hlen := scan_length first hne
        rw [readLoop]
        split
        · rename_i v' hv'
          rw [advance_ended hv'] at step
          cases step
        · simp only [first, free, step]
          exact ih followsMore hend (Nat.lt_of_lt_of_le hlen (Nat.le_of_lt_succ hn))

/-- **Reading a text.** When its tokens lead to a value and nothing comes behind them, that value is
what is read. -/
theorem read_of_follows {text rest : Bytes} {ts : List Token} {s : State} {v : Value}
    (hlex : Lexes d text ts rest) (hfollows : Follows trap {} ts s) (hended : s.expects = .ended v)
    (hend : (scan d rest).1 = .endOfInput) : read d trap text = .ok v :=
  readLoop_of_follows hlex hfollows hended hend (Nat.lt_succ_self _)

end Follows

/-! ## Objects -/

/-- A member of an object: its key, the text of its value, and the token that the text is read as. -/
structure Member where
  key : Bytes
  text : Bytes
  token : Token

def Member.written (m : Member) : Bytes := ascii "\"" ++ m.key ++ ascii "\":" ++ m.text

def membersText : List Member → Bytes
  | [] => []
  | [m] => m.written
  | m :: ms => m.written ++ ascii "," ++ membersText ms

def Member.tokens (m : Member) : List Token := [.string m.key, .nameSeparator, m.token]

def membersTokens : List Member → List Token
  | [] => []
  | [m] => m.tokens
  | m :: ms => m.tokens ++ .valueSeparator :: membersTokens ms

/-- The fields that the members of an object add to it. -/
def addMembers (fields : List (Bytes × Value)) (ms : List (Bytes × Value)) : List (Bytes × Value) :=
  ms.foldl (fun fields m => setField fields m.1 m.2) fields

/-- Different keys do not get in each other's way. -/
theorem addMembers_eq {fields ms : List (Bytes × Value)}
    (hnodup : ((fields ++ ms).map Prod.fst).Nodup) : addMembers fields ms = fields ++ ms := by
  induction ms generalizing fields with
  | nil => exact (List.append_nil fields).symm
  | cons m ms ih =>
    obtain ⟨key, v⟩ := m
    have hkeep : setField fields key v = fields ++ [(key, v)] := by
      rw [setField, List.filter_eq_self.mpr]
      intro f hf
      rw [decide_eq_true_eq]
      rw [List.map_append, List.nodup_append] at hnodup
      exact hnodup.2.2 f.1 (List.mem_map_of_mem hf) key (by simp)
    have hassoc : fields ++ (key, v) :: ms = fields ++ [(key, v)] ++ ms := by simp
    rw [hassoc] at hnodup ⊢
    rw [← ih hnodup, ← hkeep]
    rfl

theorem lookup_of_mem {fields : List (Bytes × Value)} (hnodup : (fields.map Prod.fst).Nodup)
    {key : Bytes} {v : Value} (hf : (key, v) ∈ fields) :
    (Value.object fields).lookup key = some v := by
  induction fields with
  | nil => cases hf
  | cons g fields ih =>
    rw [List.map_cons, List.nodup_cons] at hnodup
    rcases List.mem_cons.mp hf with rfl | hf
    · simp [Value.lookup]
    · have hne : g.1 ≠ key := by
        rintro rfl
        exact hnodup.1 (List.mem_map.mpr ⟨(g.1, v), hf, rfl⟩)
      have ih := ih hnodup.2 hf
      rw [Value.lookup] at ih ⊢
      rw [List.find?_cons_of_neg (by simpa using hne), ih]

/-- The key needs no escapes, and the text of the value is read as its token. -/
structure Member.Readable (d : Dialect) (m : Member) : Prop where
  key : dumpString m.key = some (ascii "\"" ++ m.key ++ ascii "\"")
  value : ∀ (b : UInt8) (rest : Bytes), Closes b → scan d (m.text ++ b :: rest) = (m.token, b :: rest)

section Objects

variable {E : Type} {d : Dialect} {trap : Nat → Token → Option E}

theorem Member.Readable.lexes {m : Member} (h : m.Readable d) {b : UInt8} (hb : Closes b)
    (rest : Bytes) : Lexes d (m.written ++ b :: rest) m.tokens (b :: rest) := by
  have htext : m.written ++ b :: rest =
      (ascii "\"" ++ m.key ++ ascii "\"") ++ (0x3A :: (m.text ++ b :: rest)) := by
    have hsplit : ascii "\":" = ascii "\"" ++ [0x3A] := by decide
    rw [Member.written, hsplit]
    simp
  rw [htext]
  refine .cons _ _ (scan_string d h.key _) (.cons _ _ (scan_punctuation d rfl _) ?_)
  exact .cons _ _ (h.value b rest hb) (.nil _)

theorem lexes_members {ms : List Member} (hne : ms ≠ []) (h : ∀ m ∈ ms, m.Readable d) {b : UInt8}
    (hb : Closes b) (rest : Bytes) :
    Lexes d (membersText ms ++ b :: rest) (membersTokens ms) (b :: rest) := by
  induction ms with
  | nil => exact absurd rfl hne
  | cons m ms ih =>
    cases ms with
    | nil => exact (h m (by simp)).lexes hb rest
    | cons m' ms =>
      have hcomma : ascii "," = [0x2C] := by decide
      have htext : membersText (m :: m' :: ms) ++ b :: rest =
          m.written ++ 0x2C :: (membersText (m' :: ms) ++ b :: rest) := by
        rw [membersText, hcomma]
        · simp
        · nofun
      rw [htext]
      refine ((h m (by simp)).lexes (Or.inl rfl) _).append ?_
      refine .cons _ _ (scan_punctuation d rfl _) ?_
      exact ih nofun fun m hm => h m (by simp [hm])

/-- The members lead from inside the object to behind the last of them. -/
theorem follows_members {ms : List Member} {values : List Value} (stack : List Frame)
    (hvalues : ms.map (fun m => scalar m.token) = values.map some)
    (hfree : ∀ m ∈ ms, trap (stack.length + 1) m.token = none)
    {expects : Expects} (hexpects : expects = .firstKey ∨ expects = .key)
    (fields : List (Bytes × Value)) (key : Bytes) (hne : ms ≠ []) :
    ∃ key', Follows trap ⟨expects, .object fields key :: stack⟩ (membersTokens ms)
      ⟨.separator, .object (addMembers fields ((ms.map Member.key).zip values)) key' :: stack⟩ := by
  induction ms generalizing values expects fields key with
  | nil => exact absurd rfl hne
  | cons m ms ih =>
    cases values with
    | nil => cases hvalues
    | cons v values =>
      rw [List.map_cons, List.map_cons, List.cons.injEq] at hvalues
      obtain ⟨hv, hvalues⟩ := hvalues
      have hbegin : beginValue (.object fields m.key :: stack) m.token =
          some ⟨.separator, .object (setField fields m.key v) m.key :: stack⟩ := by
        have hscalar : beginValue (.object fields m.key :: stack) m.token =
            (scalar m.token).map fun v => complete v (.object fields m.key :: stack) := by
          cases ht : m.token with
          | beginObject => rw [ht] at hv; cases hv
          | beginArray => rw [ht] at hv; cases hv
          | _ => rfl
        rw [hscalar, hv]
        rfl
      have hkey : advance ⟨expects, .object fields key :: stack⟩ (.string m.key) =
          some ⟨.colon, .object fields m.key :: stack⟩ := by
        rcases hexpects with rfl | rfl <;> rfl
      have hnone : trapAt trap ⟨expects, .object fields key :: stack⟩ (.string m.key) = none := by
        rcases hexpects with rfl | rfl <;> rfl
      have hmember : Follows trap ⟨expects, .object fields key :: stack⟩ m.tokens
          ⟨.separator, .object (setField fields m.key v) m.key :: stack⟩ :=
        .cons hnone hkey (.cons rfl rfl (.cons (hfree m (by simp)) hbegin (.nil _)))
      cases ms with
      | nil =>
        cases values with
        | nil => exact ⟨m.key, hmember⟩
        | cons v' values => cases hvalues
      | cons m' ms =>
        obtain ⟨key', hmore⟩ := ih hvalues (fun m hm => hfree m (by simp [hm])) (Or.inr rfl)
          (setField fields m.key v) m.key nofun
        exact ⟨key', hmember.append (.cons rfl rfl hmore)⟩

/-- The text of members is UTF-8 when each member's is. -/
theorem utf8Valid_membersText {ms : List Member} (h : ∀ m ∈ ms, utf8Valid m.written = true) :
    utf8Valid (membersText ms) = true := by
  induction ms with
  | nil => rfl
  | cons m ms ih =>
    cases ms with
    | nil => exact h m (by simp)
    | cons m' ms =>
      have hcomma : ∀ b ∈ ascii ",", b < 0x80 := List.all_iff_forall_prop.mp (by decide +kernel)
      rw [membersText, List.append_assoc, utf8Valid_append (h m (by simp)),
        utf8Valid_ascii_append hcomma]
      · exact ih fun m hm => h m (by simp [hm])
      · nofun

def objectText (ms : List Member) : Bytes := ascii "\x7b" ++ membersText ms ++ ascii "\x7d"

theorem utf8Valid_objectText {ms : List Member} (h : ∀ m ∈ ms, utf8Valid m.written = true) :
    utf8Valid (objectText ms) = true := by
  have hopen : ∀ b ∈ ascii "\x7b", b < 0x80 := List.all_iff_forall_prop.mp (by decide +kernel)
  have hclose : utf8Valid (ascii "\x7d") = true := by decide +kernel
  rw [objectText, List.append_assoc, utf8Valid_ascii_append hopen,
    utf8Valid_append (utf8Valid_membersText h), hclose]

theorem lexes_object {ms : List Member} (hne : ms ≠ []) (h : ∀ m ∈ ms, m.Readable d)
    (rest : Bytes) :
    Lexes d (objectText ms ++ rest) (.beginObject :: (membersTokens ms ++ [.endObject])) rest := by
  have htext : objectText ms ++ rest = 0x7B :: (membersText ms ++ 0x7D :: rest) := by
    have hopen : ascii "\x7b" = [0x7B] := by decide
    have hclose : ascii "\x7d" = [0x7D] := by decide
    rw [objectText, hopen, hclose]
    simp
  rw [htext]
  refine .cons _ _ (scan_punctuation d rfl _) ?_
  refine (lexes_members hne h (Or.inr (Or.inr rfl)) rest).append ?_
  exact .cons _ _ (scan_punctuation d rfl _) (.nil _)

/-- **An object of scalars is read back**, with white space behind it or nothing. -/
theorem read_object_spaced {ms : List Member} {values : List Value} {rest : Bytes} (hne : ms ≠ [])
    (hreadable : ∀ m ∈ ms, m.Readable d)
    (hvalues : ms.map (fun m => scalar m.token) = values.map some)
    (hopen : trap 0 .beginObject = none) (hfree : ∀ m ∈ ms, trap 1 m.token = none)
    (hend : (scan d rest).1 = .endOfInput) :
    read d trap (objectText ms ++ rest) =
      .ok (.object (addMembers [] ((ms.map Member.key).zip values))) := by
  obtain ⟨key', hfollows⟩ := follows_members [] hvalues hfree (Or.inl rfl) [] [] hne
  have hwhole : Follows trap {} (.beginObject :: (membersTokens ms ++ [.endObject]))
      ⟨.ended (.object (addMembers [] ((ms.map Member.key).zip values))), []⟩ :=
    .cons hopen rfl (hfollows.append (.cons rfl rfl (.nil _)))
  exact read_of_follows (lexes_object hne hreadable rest) hwhole rfl hend

theorem read_object {ms : List Member} {values : List Value} (hne : ms ≠ [])
    (hreadable : ∀ m ∈ ms, m.Readable d)
    (hvalues : ms.map (fun m => scalar m.token) = values.map some)
    (hopen : trap 0 .beginObject = none) (hfree : ∀ m ∈ ms, trap 1 m.token = none) :
    read d trap (objectText ms) =
      .ok (.object (addMembers [] ((ms.map Member.key).zip values))) := by
  have hread := read_object_spaced hne hreadable hvalues hopen hfree
    (show (scan d []).1 = .endOfInput from rfl)
  rwa [List.append_nil] at hread

end Objects

end JsonText
end UrlShortener
