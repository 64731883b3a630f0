import UrlShortener.Base.JsonRoundTrip

/-!
# UrlShortener.Base.JsonBroken

Texts that no reader gets to the end of. A string that has a control character in it, as it is, is a
broken token (`scan_broken`), and an object with a broken member is malformed (`read_broken`).
-/

namespace UrlShortener
namespace JsonText

open Json

/-! ## Characters -/

/-- The bytes of a longer character. -/
theorem utf8Char_high {b : UInt8} {bs c r : Bytes} (hb : ¬ b < 0x80)
    (h : utf8Char (b :: bs) = some (c, r)) : ∀ x ∈ c, 0x80 ≤ x := by
  have hle : 0x80 ≤ b := by
    rw [UInt8.le_iff_toNat_le]
    exact Nat.le_of_not_lt fun hlt => hb (UInt8.lt_iff_toNat_lt.mpr hlt)
  unfold utf8Char at h
  simp only [if_neg hb] at h
  split at h
  · split at h
    · obtain ⟨hc₁, h⟩ := Option.ite_none_right_eq_some.mp h
      cases h
      simpa using ⟨hle, contIn_high (by decide) hc₁⟩
    · cases h
  · split at h
    · split at h
      · obtain ⟨hcs, h⟩ := Option.ite_none_right_eq_some.mp h
        rw [Bool.and_eq_true] at hcs
        cases h
        simpa using ⟨hle, contIn_high (by split <;> decide) hcs.1, contIn_high (by decide) hcs.2⟩
      · cases h
    · obtain ⟨-, h⟩ := Option.ite_none_right_eq_some.mp h
      split at h
      · obtain ⟨hcs, h⟩ := Option.ite_none_right_eq_some.mp h
        rw [Bool.and_eq_true, Bool.and_eq_true] at hcs
        cases h
        simpa using ⟨hle, contIn_high (by split <;> decide) hcs.1.1,
          contIn_high (by decide) hcs.1.2, contIn_high (by decide) hcs.2⟩
      · cases h

/-- A character is one byte of ASCII, or has none in it. -/
theorem FirstChar.ascii_or_high {lone : Bool} {s c r : Bytes} (h : FirstChar lone s c r) :
    (∃ b, b < 0x80 ∧ c = [b]) ∨ ∀ b ∈ c, 0x80 ≤ b := by
  cases c with
  | nil => exact absurd rfl h.nonempty
  | cons b cs =>
    have hscan := h.scanned []
    by_cases hb : b < 0x80
    · left
      rw [List.flatMap_cons, List.append_assoc, scanChar_escape hb] at hscan
      cases hscan
      exact ⟨b, hb, rfl⟩
    · right
      have hle : 0x80 ≤ b := by
        rw [UInt8.le_iff_toNat_le]
        exact Nat.le_of_not_lt fun hlt => hb (UInt8.lt_iff_toNat_lt.mpr hlt)
      rw [List.flatMap_cons, escape_high hle, List.append_assoc, List.singleton_append,
        scanChar_high hb] at hscan
      exact utf8Char_high hb hscan

/-! ## Escapers -/

/-- `esc` is `escape` but for some control characters, which it copies. -/
structure Copies (esc : UInt8 → Bytes) (raw : UInt8 → Prop) : Prop where
  control : ∀ b, raw b → b < 0x20
  copied : ∀ b, raw b → esc b = [b]
  escaped : ∀ b, ¬ raw b → esc b = escape b

section Copies

variable {esc : UInt8 → Bytes} {raw : UInt8 → Prop} (hesc : Copies esc raw) {s : Bytes}

include hesc

theorem Copies.flatMap_eq (h : ∀ b ∈ s, ¬ raw b) : s.flatMap esc = s.flatMap escape := by
  induction s with
  | nil => rfl
  | cons b s ih =>
    rw [List.flatMap_cons, List.flatMap_cons, hesc.escaped b (h b (by simp)),
      ih fun c hc => h c (by simp [hc])]

/-- The scanner stops at the first character that should have been escaped. -/
theorem Copies.scanString_none (lone : Bool) (hs : utf8Valid s = true) (hraw : ∃ b ∈ s, raw b)
    (rest : Bytes) (n : Nat) : scanString lone n (s.flatMap esc ++ rest) = none := by
  refine utf8_induction lone (P := fun s => (∃ b ∈ s, raw b) → ∀ n,
    scanString lone n (s.flatMap esc ++ rest) = none) ?_ ?_ hs hraw n
  · rintro ⟨b, hb, -⟩
    cases hb
  · intro s c r hfirst ih hraw n
    cases n with
    | zero => rfl
    | succ n =>
      have htext : s.flatMap esc ++ rest = c.flatMap esc ++ (r.flatMap esc ++ rest) := by
        rw [hfirst.split, List.flatMap_append, List.append_assoc]
      by_cases hc : ∃ b ∈ c, raw b
      · obtain ⟨b, hb, hrawb⟩ := hc
        have hlt := hesc.control b hrawb
        have hone : c = [b] := by
          rcases hfirst.ascii_or_high with ⟨b', -, rfl⟩ | hhigh
          · rw [List.mem_singleton.mp hb]
          · exact absurd (UInt8.lt_of_lt_of_le hlt (by decide)) (UInt8.not_lt.mpr (hhigh b hb))
        have hquote : b ≠ 0x22 := by
          rintro rfl
          revert hlt
          decide
        have hslash : b ≠ 0x5C := by
          rintro rfl
          revert hlt
          decide
        rw [htext, hone, List.flatMap_singleton, hesc.copied b hrawb, List.singleton_append,
          scanString, if_neg hquote, scanChar, if_neg hslash, if_pos hlt]
      · have hgood : ∀ b ∈ c, ¬ raw b := fun b hb hrawb => hc ⟨b, hb, hrawb⟩
        have hrest : ∃ b ∈ r, raw b := by
          obtain ⟨b, hb, hrawb⟩ := hraw
          rw [hfirst.split] at hb
          rcases List.mem_append.mp hb with hb | hb
          · exact absurd hrawb (hgood b hb)
          · exact ⟨b, hb, hrawb⟩
        have hscan := hfirst.scanned (r.flatMap esc ++ rest)
        rw [htext, hesc.flatMap_eq hgood]
        cases c with
        | nil => exact absurd rfl hfirst.nonempty
        | cons b cs =>
          obtain ⟨x, xs, hx, hquote⟩ := escape_head b
          rw [List.flatMap_cons, hx, List.append_assoc, List.cons_append] at hscan ⊢
          rw [scanString, if_neg hquote, hscan]
          simp only [ih hrest n, Option.map_none]

theorem Copies.scan_string (d : Dialect) (hs : utf8Valid s = true) (h : ∀ b ∈ s, ¬ raw b)
    (rest : Bytes) :
    scan d (ascii "\"" ++ s.flatMap esc ++ ascii "\"" ++ rest) = (.string s, rest) := by
  rw [hesc.flatMap_eq h]
  exact JsonText.scan_string d (if_pos hs) rest

theorem Copies.scan_broken (d : Dialect) (hs : utf8Valid s = true) (hraw : ∃ b ∈ s, raw b)
    (rest : Bytes) :
    (scan d (ascii "\"" ++ s.flatMap esc ++ ascii "\"" ++ rest)).1 = .parseError := by
  have htext : ascii "\"" ++ s.flatMap esc ++ ascii "\"" ++ rest =
      0x22 :: (s.flatMap esc ++ 0x22 :: rest) := by
    have hquote : ascii "\"" = [0x22] := by decide
    simp [hquote]
  have hpunctuation : punctuation 0x22 = none := rfl
  rw [htext, scan_cons d (by decide) (by decide), scanToken, hpunctuation]
  simp only [if_true, hesc.scanString_none d.loneSurrogates hs hraw]

end Copies

/-! ## Objects -/

section Fails

variable {E : Type} {d : Dialect} {trap : Nat → Token → Option E} {s s' : State}

/-- From here on the text is malformed. -/
def Fails (d : Dialect) (trap : Nat → Token → Option E) (s : State) (text : Bytes) : Prop :=
  ∀ n, readLoop d trap n s text = .error .malformed

theorem advance_parseError (s : State) : advance s .parseError = none := by
  obtain ⟨expects, stack⟩ := s
  rcases stack with _ | ⟨_ | _, stack⟩ <;> cases expects <;> rfl

theorem fails_parseError {text : Bytes} (h : (scan d text).1 = .parseError)
    (free : trapAt trap s .parseError = none) : Fails d trap s text := by
  intro n
  cases n with
  | zero => rfl
  | succ n =>
    rw [readLoop]
    split
    · rw [h]
      rfl
    · simp only [h, free, advance_parseError]

theorem fails_of_lexes {text rest : Bytes} {ts : List Token} (hlex : Lexes d text ts rest)
    (hfollows : Follows trap s ts s') (h : Fails d trap s' rest) : Fails d trap s text := by
  induction hlex generalizing s with
  | nil text =>
    cases hfollows
    exact h
  | cons t text' first more ih =>
    cases hfollows with
    | cons free step followsMore =>
      intro n
      cases n with
      | zero => rfl
      | succ n =>
        rw [readLoop]
        split
        · rename_i v hv
          rw [advance_ended hv] at step
          cases step
        · simp only [first, free, step]
          exact ih followsMore h n

/-- The text of the value is no token. -/
structure Member.Broken (d : Dialect) (m : Member) : Prop where
  key : dumpString m.key = some (ascii "\"" ++ m.key ++ ascii "\"")
  value : ∀ rest, (scan d (m.text ++ rest)).1 = .parseError

theorem Member.Broken.fails {m : Member} (h : m.Broken d) {expects : Expects}
    (hexpects : expects = .firstKey ∨ expects = .key) {fields : List (Bytes × Value)} {key : Bytes}
    {stack : List Frame} (htrap : ∀ n, trap n .parseError = none) (rest : Bytes) :
    Fails d trap ⟨expects, .object fields key :: stack⟩ (m.written ++ rest) := by
  have htext : m.written ++ rest =
      (ascii "\"" ++ m.key ++ ascii "\"") ++ (0x3A :: (m.text ++ rest)) := by
    have hsplit : ascii "\":" = ascii "\"" ++ [0x3A] := by decide
    rw [Member.written, hsplit]
    simp
  have hlex : Lexes d (m.written ++ rest) [.string m.key, .nameSeparator] (m.text ++ rest) := by
    rw [htext]
    exact .cons _ _ (JsonText.scan_string d h.key _) (.cons _ _ (scan_punctuation d rfl _) (.nil _))
  have hfollows : Follows trap ⟨expects, .object fields key :: stack⟩
      [.string m.key, .nameSeparator] ⟨.value, .object fields m.key :: stack⟩ := by
    rcases hexpects with rfl | rfl
    · exact .cons rfl rfl (.cons rfl rfl (.nil _))
    · exact .cons rfl rfl (.cons rfl rfl (.nil _))
  exact fails_of_lexes hlex hfollows (fails_parseError (h.value rest) (htrap _))

/-- A member that can be read, or one that stops the reader. -/
def Member.Known (d : Dialect) (trap : Nat → Token → Option E) (m : Member) : Prop :=
  m.Readable d ∧ (∃ v, scalar m.token = some v) ∧ (∀ n, trap n m.token = none) ∨ m.Broken d

theorem fails_members {ms : List Member} (hms : ∀ m ∈ ms, m.Known d trap)
    (hbroken : ∃ m ∈ ms, m.Broken d) (htrap : ∀ n, trap n .parseError = none) {expects : Expects}
    (hexpects : expects = .firstKey ∨ expects = .key) (fields : List (Bytes × Value)) (key : Bytes)
    (stack : List Frame) (rest : Bytes) :
    Fails d trap ⟨expects, .object fields key :: stack⟩ (membersText ms ++ rest) := by
  induction ms generalizing expects fields key with
  | nil =>
    obtain ⟨m, hm, -⟩ := hbroken
    cases hm
  | cons m ms ih =>
    have htext : ∃ rest', membersText (m :: ms) ++ rest = m.written ++ rest' ∧
        (ms ≠ [] → rest' = 0x2C :: (membersText ms ++ rest)) := by
      cases ms with
      | nil => exact ⟨rest, rfl, fun h => absurd rfl h⟩
      | cons m' ms =>
        have hcomma : ascii "," = [0x2C] := by decide
        refine ⟨_, ?_, fun _ => rfl⟩
        rw [membersText, hcomma]
        · simp
        · exact List.cons_ne_nil m' ms
    obtain ⟨rest', htext, hmore⟩ := htext
    rw [htext]
    rcases hms m (by simp) with ⟨hreadable, ⟨v, hv⟩, hfree⟩ | hm
    · have hlater : ∃ m ∈ ms, m.Broken d := by
        obtain ⟨m', hm', hbroken⟩ := hbroken
        rcases List.mem_cons.mp hm' with rfl | hm'
        · -- its value cannot be both
          have hscan := hreadable.value 0x2C [] (Or.inl rfl)
          have herror := hbroken.value [0x2C]
          rw [hscan] at herror
          have herror : m'.token = .parseError := herror
          rw [herror] at hv
          cases hv
        · exact ⟨m', hm', hbroken⟩
      have hne : ms ≠ [] := by
        obtain ⟨m', hm', -⟩ := hlater
        exact List.ne_nil_of_mem hm'
      rw [hmore hne]
      have hone : ∃ key', Follows trap ⟨expects, .object fields key :: stack⟩ (membersTokens [m])
          ⟨.separator, .object (addMembers fields ([m.key].zip [v])) key' :: stack⟩ := by
        refine follows_members stack (by simp [hv]) (fun m' hm' => ?_) hexpects fields key (by simp)
        rw [List.mem_singleton.mp hm']
        exact hfree _
      obtain ⟨key', hfollows⟩ := hone
      refine fails_of_lexes
        ((hreadable.lexes (Or.inl rfl) _).append (.cons _ _ (scan_punctuation d rfl _) (.nil _)))
        (hfollows.append (.cons rfl rfl (.nil _))) ?_
      exact ih (fun m' hm' => hms m' (by simp [hm'])) hlater (Or.inr rfl) _ _
    · exact hm.fails hexpects htrap rest'

/-- **One broken member is enough.** -/
theorem read_broken {ms : List Member} (hms : ∀ m ∈ ms, m.Known d trap)
    (hbroken : ∃ m ∈ ms, m.Broken d) (hopen : trap 0 .beginObject = none)
    (htrap : ∀ n, trap n .parseError = none) (rest : Bytes) :
    read d trap (objectText ms ++ rest) = .error .malformed := by
  have htext : objectText ms ++ rest = 0x7B :: (membersText ms ++ (ascii "\x7d" ++ rest)) := by
    have hbrace : ascii "\x7b" = [0x7B] := by decide
    rw [objectText, hbrace]
    simp
  have hlex : Lexes d (objectText ms ++ rest) [.beginObject]
      (membersText ms ++ (ascii "\x7d" ++ rest)) := by
    rw [htext]
    exact .cons _ _ (scan_punctuation d rfl _) (.nil _)
  have hfollows : Follows trap {} [.beginObject] ⟨.firstKey, [.object [] []]⟩ :=
    .cons hopen rfl (.nil _)
  exact fails_of_lexes hlex hfollows
    (fails_members hms hbroken htrap (Or.inl rfl) [] [] [] _) _

end Fails

end JsonText
end UrlShortener
