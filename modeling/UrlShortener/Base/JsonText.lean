import UrlShortener.Base.Json
import UrlShortener.Base.Machine

/-!
# UrlShortener.Base.JsonText

Reading JSON text.

* `scan` cuts one token off the text. What readers disagree on is in a `Dialect`.
* `advance` is the grammar: a pushdown machine over tokens that builds the value as it goes.
* `read` runs the machine over the text. A reader may also give up on a token that the grammar
  allows, because of its depth or its size: `trap` says on which.

`read_traps_iff` says when that happens, in terms of the tokens alone. Strings are UTF-8; a
surrogate on its own, where the dialect has them, is kept in the three bytes of its code point.
-/

namespace UrlShortener
namespace JsonText

open Json

/-! ## Strings -/

/-- The first character of a UTF-8 text, and what follows it. -/
def utf8Char : Bytes → Option (Bytes × Bytes)
  | [] => none
  | b :: bs =>
    if b < 0x80 then some ([b], bs)
    else if 0xC2 ≤ b ∧ b ≤ 0xDF then
      match bs with
      | c₁ :: r => if contIn 0x80 0xBF c₁ then some ([b, c₁], r) else none
      | _ => none
    else if 0xE0 ≤ b ∧ b ≤ 0xEF then
      match bs with
      | c₁ :: c₂ :: r =>
        if contIn (if b = 0xE0 then 0xA0 else 0x80) (if b = 0xED then 0x9F else 0xBF) c₁ &&
          contIn 0x80 0xBF c₂ then some ([b, c₁, c₂], r) else none
      | _ => none
    else if 0xF0 ≤ b ∧ b ≤ 0xF4 then
      match bs with
      | c₁ :: c₂ :: c₃ :: r =>
        if contIn (if b = 0xF0 then 0x90 else 0x80) (if b = 0xF4 then 0x8F else 0xBF) c₁ &&
          contIn 0x80 0xBF c₂ && contIn 0x80 0xBF c₃ then some ([b, c₁, c₂, c₃], r) else none
      | _ => none
    else none

def hexValue (b : UInt8) : Option Nat :=
  if 0x30 ≤ b ∧ b ≤ 0x39 then some (b.toNat - 0x30)
  else if 0x41 ≤ b ∧ b ≤ 0x46 then some (b.toNat - 0x37)
  else if 0x61 ≤ b ∧ b ≤ 0x66 then some (b.toNat - 0x57)
  else none

/-- Four hex digits. -/
def scanCodepoint : Bytes → Option (Nat × Bytes)
  | h₁ :: h₂ :: h₃ :: h₄ :: rest => do
    let a ← hexValue h₁
    let b ← hexValue h₂
    let c ← hexValue h₃
    let d ← hexValue h₄
    return (a * 0x1000 + b * 0x100 + c * 0x10 + d, rest)
  | _ => none

/-- The bytes of a code point. -/
def encodeUtf8 (cp : Nat) : Bytes :=
  if cp < 0x80 then [UInt8.ofNat cp]
  else if cp ≤ 0x7FF then [UInt8.ofNat (0xC0 + cp / 0x40), UInt8.ofNat (0x80 + cp % 0x40)]
  else if cp ≤ 0xFFFF then
    [UInt8.ofNat (0xE0 + cp / 0x1000), UInt8.ofNat (0x80 + cp / 0x40 % 0x40),
      UInt8.ofNat (0x80 + cp % 0x40)]
  else
    [UInt8.ofNat (0xF0 + cp / 0x40000), UInt8.ofNat (0x80 + cp / 0x1000 % 0x40),
      UInt8.ofNat (0x80 + cp / 0x40 % 0x40), UInt8.ofNat (0x80 + cp % 0x40)]

/-- The escape of a low surrogate. -/
def scanLowSurrogate : Bytes → Option (Nat × Bytes)
  | b :: u :: rest =>
    if b = 0x5C ∧ u = 0x75 then
      (scanCodepoint rest).filter fun r => decide (0xDC00 ≤ r.1) && decide (r.1 ≤ 0xDFFF)
    else none
  | _ => none

/-- What follows `\u`. A high surrogate takes the low one behind it; `lone` says whether a surrogate
may stand on its own. -/
def scanUnicode (lone : Bool) (bs : Bytes) : Option (Bytes × Bytes) :=
  match scanCodepoint bs with
  | none => none
  | some (cp, rest) =>
    if 0xD800 ≤ cp ∧ cp ≤ 0xDBFF then
      match scanLowSurrogate rest with
      | some (low, rest) => some (encodeUtf8 (0x10000 + (cp - 0xD800) * 0x400 + (low - 0xDC00)), rest)
      | none => if lone then some (encodeUtf8 cp, rest) else none
    else if 0xDC00 ≤ cp ∧ cp ≤ 0xDFFF then
      if lone then some (encodeUtf8 cp, rest) else none
    else some (encodeUtf8 cp, rest)

/-- The escapes of one letter. -/
def shortEscape (c : UInt8) : Option UInt8 :=
  if c = 0x22 then some 0x22
  else if c = 0x5C then some 0x5C
  else if c = 0x2F then some 0x2F
  else if c = 0x62 then some 0x08
  else if c = 0x66 then some 0x0C
  else if c = 0x6E then some 0x0A
  else if c = 0x72 then some 0x0D
  else if c = 0x74 then some 0x09
  else none

/-- What follows a backslash. -/
def scanEscape (lone : Bool) : Bytes → Option (Bytes × Bytes)
  | [] => none
  | c :: rest =>
    match shortEscape c with
    | some b => some ([b], rest)
    | none => if c = 0x75 then scanUnicode lone rest else none

/-- One character of a string, escaped or not. Control characters have to be escaped. -/
def scanChar (lone : Bool) : Bytes → Option (Bytes × Bytes)
  | [] => none
  | b :: bs =>
    if b = 0x5C then scanEscape lone bs
    else if b < 0x20 then none
    else utf8Char (b :: bs)

/-- A string up to its closing quote. Every character takes a byte, so the length of the text is
fuel enough. -/
def scanString (lone : Bool) : Nat → Bytes → Option (Bytes × Bytes)
  | 0, _ => none
  | _ + 1, [] => none
  | n + 1, b :: bs =>
    if b = 0x22 then some ([], bs)
    else
      match scanChar lone (b :: bs) with
      | none => none
      | some (c, rest) => (scanString lone n rest).map fun r => (c ++ r.1, r.2)

/-! ## Numbers -/

/-- The number `± digits * 10 ^ scale`. -/
structure Number where
  negative : Bool := false
  digits : Nat
  scale : Int := 0
  /-- How many digits stand before the point. -/
  size : Nat
  hasPoint : Bool := false
  hasExponent : Bool := false
deriving DecidableEq

def Number.isFloat (n : Number) : Bool := n.hasPoint || n.hasExponent

/-- The size of the number, as a numerator and a denominator. -/
def Number.fraction (n : Number) : Nat × Nat :=
  if 0 ≤ n.scale then (n.digits * 10 ^ n.scale.toNat, 1) else (n.digits, 10 ^ (-n.scale).toNat)

/-- Where the doubles end: a number from here on is rounded to infinity. -/
def doubleEnd : Nat := 2 ^ 1024 - 2 ^ 970

def Number.overflows (n : Number) : Bool := decide (doubleEnd * n.fraction.2 ≤ n.fraction.1)

/-- The number is rounded to a zero. -/
def Number.underflows (n : Number) : Bool := decide (n.fraction.1 * 2 ^ 1075 ≤ n.fraction.2)

/-- `p / q` to the nearest integer, and to the even one between two. -/
def roundDiv (p q : Nat) : Nat :=
  if 2 * (p % q) < q ∨ 2 * (p % q) = q ∧ p / q % 2 = 0 then p / q else p / q + 1

/-- The integer part of the double that is nearest to `p / q`. -/
def truncDouble (p q : Nat) : Nat :=
  if p < q then roundDiv (p * 2 ^ 53) q / 2 ^ 53
  else
    let e := Nat.log2 (p / q)
    if e ≤ 52 then roundDiv (p * 2 ^ (52 - e)) q / 2 ^ (52 - e)
    else roundDiv p (q * 2 ^ (e - 52)) * 2 ^ (e - 52)

def Number.signed (n : Number) (size : Nat) : Int := if n.negative then -(size : Int) else size

def isDigit (b : UInt8) : Bool := decide (0x30 ≤ b) && decide (b ≤ 0x39)

theorem isDigit_iff {b : UInt8} : isDigit b = true ↔ 0x30 ≤ b ∧ b ≤ 0x39 := by
  rw [isDigit, Bool.and_eq_true, decide_eq_true_eq, decide_eq_true_eq]

def ofDigits (ds : Bytes) : Nat := ds.foldl (fun n d => 10 * n + (d.toNat - 0x30)) 0

/-- The digits before the point: a zero, or a run that does not begin with one. -/
def scanInteger : Bytes → Option (Bytes × Bytes)
  | [] => none
  | b :: bs =>
    if b = 0x30 then some ([b], bs)
    else if isDigit b then some (b :: bs.takeWhile isDigit, bs.dropWhile isDigit)
    else none

/-- A point and the digits behind it. -/
def scanFraction : Bytes → Option (Bytes × Bytes)
  | b :: d :: bs =>
    if b = 0x2E ∧ isDigit d then some (d :: bs.takeWhile isDigit, bs.dropWhile isDigit) else none
  | _ => none

/-- The digits of an exponent behind its sign. -/
def scanExponentDigits : Bytes → Option (Nat × Bytes)
  | d :: bs =>
    if isDigit d then some (ofDigits (d :: bs.takeWhile isDigit), bs.dropWhile isDigit) else none
  | [] => none

def scanExponent : Bytes → Option (Int × Bytes)
  | b :: s :: bs =>
    if b = 0x65 ∨ b = 0x45 then
      if s = 0x2D then (scanExponentDigits bs).map fun r => (-(r.1 : Int), r.2)
      else if s = 0x2B then (scanExponentDigits bs).map fun r => ((r.1 : Int), r.2)
      else (scanExponentDigits (s :: bs)).map fun r => ((r.1 : Int), r.2)
    else none
  | _ => none

/-- The longest number the text begins with, after its sign. -/
def scanUnsigned (negative : Bool) (text : Bytes) : Option (Number × Bytes) :=
  match scanInteger text with
  | none => none
  | some (whole, rest) =>
    let (fraction, rest') := (scanFraction rest).getD ([], rest)
    let (exponent, rest'') := (scanExponent rest').getD (0, rest')
    some (
      { negative := negative
        digits := ofDigits (whole ++ fraction)
        scale := exponent - fraction.length
        size := whole.length
        hasPoint := (scanFraction rest).isSome
        hasExponent := (scanExponent rest').isSome }, rest'')

def scanNumber : Bytes → Option (Number × Bytes)
  | [] => none
  | b :: bs => if b = 0x2D then scanUnsigned true bs else scanUnsigned false (b :: bs)

/-- Behind the number stands a point or an `e` that it could have taken, had there been a digit. -/
def dangling (n : Number) : Bytes → Bool
  | [] => false
  | b :: _ =>
    decide (b = 0x2E) && !n.isFloat || (decide (b = 0x65) || decide (b = 0x45)) && !n.hasExponent

/-! ## Tokens -/

inductive Constant where
  | nan
  | infinity
  | negativeInfinity
deriving DecidableEq

inductive Token where
  | beginArray
  | endArray
  | beginObject
  | endObject
  | nameSeparator
  | valueSeparator
  | literalTrue
  | literalFalse
  | literalNull
  | string (s : Bytes)
  | number (n : Number)
  | constant (c : Constant)
  | parseError
  | endOfInput
deriving DecidableEq

/-- What readers of JSON disagree on. -/
structure Dialect where
  /-- `NaN`, `Infinity` and `-Infinity` are values. -/
  constants : Bool
  /-- A NUL byte between two tokens ends the text. -/
  nulEnds : Bool
  /-- An escaped surrogate may stand on its own. -/
  loneSurrogates : Bool
  /-- A dangling point or `e` spoils the number in front of it. -/
  strictNumbers : Bool

def isSpace (b : UInt8) : Bool :=
  decide (b = 0x20) || decide (b = 0x09) || decide (b = 0x0A) || decide (b = 0x0D)

/-- The text, when it begins with `word`, behind it. -/
def stripWord : (word text : Bytes) → Option Bytes
  | [], text => some text
  | _ :: _, [] => none
  | w :: word, b :: text => if w = b then stripWord word text else none

def literals : List (Bytes × Token) :=
  [(ascii "true", .literalTrue), (ascii "false", .literalFalse), (ascii "null", .literalNull)]

def constantNames : List (Bytes × Token) :=
  [(ascii "NaN", .constant .nan), (ascii "Infinity", .constant .infinity),
    (ascii "-Infinity", .constant .negativeInfinity)]

/-- The words that stand for a value. -/
def words (d : Dialect) : List (Bytes × Token) :=
  literals ++ if d.constants then constantNames else []

def scanWord (text : Bytes) : List (Bytes × Token) → Option (Token × Bytes)
  | [] => none
  | (word, t) :: rest =>
    match stripWord word text with
    | some text' => some (t, text')
    | none => scanWord text rest

def punctuation (b : UInt8) : Option Token :=
  if b = 0x5B then some .beginArray
  else if b = 0x5D then some .endArray
  else if b = 0x7B then some .beginObject
  else if b = 0x7D then some .endObject
  else if b = 0x3A then some .nameSeparator
  else if b = 0x2C then some .valueSeparator
  else none

/-- A token that begins with the byte `b`. -/
def scanToken (d : Dialect) (b : UInt8) (bs : Bytes) : Token × Bytes :=
  match punctuation b with
  | some t => (t, bs)
  | none =>
    if b = 0x22 then
      match scanString d.loneSurrogates (bs.length + 1) bs with
      | some (s, rest) => (.string s, rest)
      | none => (.parseError, bs)
    else
      match scanWord (b :: bs) (words d) with
      | some (t, rest) => (t, rest)
      | none =>
        match scanNumber (b :: bs) with
        | some (n, rest) =>
          if d.strictNumbers && dangling n rest then (.parseError, bs) else (.number n, rest)
        | none => (.parseError, bs)

/-- The next token, and the text behind it. -/
def scan (d : Dialect) (text : Bytes) : Token × Bytes :=
  match text.dropWhile isSpace with
  | [] => (.endOfInput, [])
  | b :: bs => if d.nulEnds && decide (b = 0) then (.endOfInput, bs) else scanToken d b bs

/-! ## Values -/

inductive Value where
  | null
  | bool (b : Bool)
  | number (n : Number)
  | constant (c : Constant)
  | string (s : Bytes)
  | array (items : List Value)
  | object (fields : List (Bytes × Value))

def Value.lookup (key : Bytes) : Value → Option Value
  | .object fields => (fields.find? fun f => decide (f.1 = key)).map Prod.snd
  | _ => none

/-- A container that is still open, with the key whose value comes next. -/
inductive Frame where
  | array (items : List Value)
  | object (fields : List (Bytes × Value)) (key : Bytes)

/-- What the grammar expects. -/
inductive Expects where
  | value
  /-- After `[`. -/
  | firstItem
  /-- After `{`. -/
  | firstKey
  | key
  | colon
  /-- After a value in a container. -/
  | separator
  /-- After the outermost value. -/
  | ended (v : Value)

structure State where
  expects : Expects := .value
  stack : List Frame := []

/-- The last value of a key counts. -/
def setField (fields : List (Bytes × Value)) (key : Bytes) (v : Value) : List (Bytes × Value) :=
  fields.filter (fun f => decide (f.1 ≠ key)) ++ [(key, v)]

/-- The value `v` is complete, inside of `stack`. -/
def complete (v : Value) : List Frame → State
  | [] => ⟨.ended v, []⟩
  | .array items :: stack => ⟨.separator, .array (items ++ [v]) :: stack⟩
  | .object fields key :: stack => ⟨.separator, .object (setField fields key v) key :: stack⟩

def scalar : Token → Option Value
  | .literalTrue => some (.bool true)
  | .literalFalse => some (.bool false)
  | .literalNull => some .null
  | .string s => some (.string s)
  | .number n => some (.number n)
  | .constant c => some (.constant c)
  | _ => none

def beginValue (stack : List Frame) : Token → Option State
  | .beginObject => some ⟨.firstKey, .object [] [] :: stack⟩
  | .beginArray => some ⟨.firstItem, .array [] :: stack⟩
  | t => (scalar t).map fun v => complete v stack

/-- The grammar: where a token leads, if it may stand here. -/
def advance : State → Token → Option State
  | ⟨.value, stack⟩, t => beginValue stack t
  | ⟨.firstItem, .array items :: stack⟩, .endArray => some (complete (.array items) stack)
  | ⟨.firstItem, stack⟩, t => beginValue stack t
  | ⟨.firstKey, .object fields _ :: stack⟩, .endObject => some (complete (.object fields) stack)
  | ⟨.firstKey, .object fields _ :: stack⟩, .string key =>
    some ⟨.colon, .object fields key :: stack⟩
  | ⟨.key, .object fields _ :: stack⟩, .string key => some ⟨.colon, .object fields key :: stack⟩
  | ⟨.colon, stack⟩, .nameSeparator => some ⟨.value, stack⟩
  | ⟨.separator, .array items :: stack⟩, .valueSeparator => some ⟨.value, .array items :: stack⟩
  | ⟨.separator, .array items :: stack⟩, .endArray => some (complete (.array items) stack)
  | ⟨.separator, .object fields key :: stack⟩, .valueSeparator =>
    some ⟨.key, .object fields key :: stack⟩
  | ⟨.separator, .object fields _ :: stack⟩, .endObject => some (complete (.object fields) stack)
  | _, _ => none

/-- A value may stand here. -/
def State.wantsValue (s : State) : Bool :=
  match s.expects with
  | .value => true
  | .firstItem => true
  | _ => false

/-! ## The reader -/

inductive Error (E : Type) where
  /-- The text is not JSON. -/
  | malformed
  | trapped (e : E)
deriving DecidableEq

section Read

variable {E : Type} (d : Dialect) (trap : Nat → Token → Option E)

/-- The reader gives up on `t` where a value may stand, inside of that many containers. -/
def trapAt (s : State) (t : Token) : Option E := if s.wantsValue then trap s.stack.length t else none

/-- Every token but the last takes a byte, so the length of the text is fuel enough. -/
def readLoop : Nat → State → Bytes → Except (Error E) Value
  | 0, _, _ => .error .malformed
  | n + 1, s, text =>
    match s.expects with
    | .ended v => if (scan d text).1 = .endOfInput then .ok v else .error .malformed
    | _ =>
      match trapAt trap s (scan d text).1 with
      | some e => .error (.trapped e)
      | none =>
        match advance s (scan d text).1 with
        | none => .error .malformed
        | some s' => readLoop n s' (scan d text).2

def read (text : Bytes) : Except (Error E) Value := readLoop d trap (text.length + 1) {} text

/-- The tokens `ts` come first in the text, and `rest` is behind them. -/
inductive Lexes : Bytes → List Token → Bytes → Prop where
  | nil (text : Bytes) : Lexes text [] text
  | cons {text : Bytes} {ts : List Token} {rest : Bytes} (t : Token) (text' : Bytes)
      (first : scan d text = (t, text')) (more : Lexes text' ts rest) : Lexes text (t :: ts) rest

/-- The text has a trap: the grammar takes the tokens in front of it, a value may stand there, and
the reader gives up on the token that does. -/
def TrapsFrom (s : State) (text : Bytes) : Prop :=
  ∃ ts rest s' e, Lexes d text ts rest ∧ Machine.run advance s ts = some s' ∧
    trapAt trap s' (scan d rest).1 = some e

def Traps (text : Bytes) : Prop := TrapsFrom d trap {} text

end Read

/-! ## Every token takes a byte -/

section Length

variable {lone : Bool} {text rest : Bytes}

theorem utf8Char_length {c : Bytes} (h : utf8Char text = some (c, rest)) :
    rest.length < text.length := by
  unfold utf8Char at h
  repeat' split at h
  all_goals first
    | cases h; done
    | (cases h; simp only [List.length_cons]; omega)

theorem scanCodepoint_length {cp : Nat} (h : scanCodepoint text = some (cp, rest)) :
    rest.length < text.length := by
  unfold scanCodepoint at h
  split at h
  · rename_i h₁ h₂ h₃ h₄ rest'
    simp only [Option.bind_eq_bind, Option.bind_eq_some_iff, Option.pure_def, Option.some.injEq,
      Prod.mk.injEq] at h
    obtain ⟨a, -, b, -, c, -, d, -, -, rfl⟩ := h
    simp only [List.length_cons]
    omega
  · cases h

theorem scanLowSurrogate_length {low : Nat} (h : scanLowSurrogate text = some (low, rest)) :
    rest.length < text.length := by
  unfold scanLowSurrogate at h
  split at h
  · split at h
    · have := scanCodepoint_length (Option.filter_eq_some_iff.mp h).1
      simp only [List.length_cons]
      omega
    · cases h
  · cases h

theorem scanUnicode_length {c : Bytes} (h : scanUnicode lone text = some (c, rest)) :
    rest.length < text.length := by
  unfold scanUnicode at h
  split at h
  · cases h
  · rename_i cp rest' hcp
    have hlen := scanCodepoint_length hcp
    split at h
    · split at h
      · rename_i low rest'' hlow
        obtain ⟨-, rfl⟩ := Prod.mk.inj (Option.some.inj h)
        exact (scanLowSurrogate_length hlow).trans hlen
      · split at h <;> cases h
        exact hlen
    · split at h
      · split at h <;> cases h
        exact hlen
      · cases h
        exact hlen

theorem scanEscape_length {c : Bytes} (h : scanEscape lone text = some (c, rest)) :
    rest.length < text.length := by
  cases text with
  | nil => cases h
  | cons b bs =>
    simp only [scanEscape] at h
    split at h
    · cases h
      exact Nat.lt_succ_self _
    · split at h
      · exact (scanUnicode_length h).trans (Nat.lt_succ_self _)
      · cases h

theorem scanChar_length {c : Bytes} (h : scanChar lone text = some (c, rest)) :
    rest.length < text.length := by
  cases text with
  | nil => cases h
  | cons b bs =>
    simp only [scanChar] at h
    split at h
    · exact (scanEscape_length h).trans (Nat.lt_succ_self _)
    · split at h
      · cases h
      · exact utf8Char_length h

theorem scanString_length {n : Nat} {s : Bytes} (h : scanString lone n text = some (s, rest)) :
    rest.length < text.length := by
  induction n generalizing text s with
  | zero => cases h
  | succ n ih =>
    cases text with
    | nil => cases h
    | cons b bs =>
      simp only [scanString] at h
      split at h
      · cases h
        exact Nat.lt_succ_self _
      · split at h
        · cases h
        · rename_i c rest' hc
          obtain ⟨⟨s', rest''⟩, hs, heq⟩ := Option.map_eq_some_iff.mp h
          cases heq
          exact (ih hs).trans (scanChar_length hc)

theorem dropWhile_length_le (f : UInt8 → Bool) (bs : Bytes) : (bs.dropWhile f).length ≤ bs.length :=
  (List.dropWhile_sublist f).length_le

theorem scanInteger_length {ds : Bytes} (h : scanInteger text = some (ds, rest)) :
    rest.length < text.length := by
  cases text with
  | nil => cases h
  | cons b bs =>
    simp only [scanInteger] at h
    split at h
    · cases h
      exact Nat.lt_succ_self _
    · split at h <;> cases h
      exact Nat.lt_succ_of_le (dropWhile_length_le isDigit bs)

theorem scanFraction_length {ds : Bytes} (h : scanFraction text = some (ds, rest)) :
    rest.length < text.length := by
  unfold scanFraction at h
  split at h
  · rename_i b d bs
    split at h <;> cases h
    have := dropWhile_length_le isDigit bs
    simp only [List.length_cons]
    omega
  · cases h

theorem scanExponentDigits_length {n : Nat} (h : scanExponentDigits text = some (n, rest)) :
    rest.length < text.length := by
  unfold scanExponentDigits at h
  split at h
  · rename_i d bs
    split at h <;> cases h
    exact Nat.lt_succ_of_le (dropWhile_length_le isDigit bs)
  · cases h

theorem scanExponent_length {e : Int} (h : scanExponent text = some (e, rest)) :
    rest.length < text.length := by
  unfold scanExponent at h
  split at h
  · rename_i b s bs
    split at h
    · repeat' split at h
      all_goals
        obtain ⟨⟨m, rest'⟩, hm, heq⟩ := Option.map_eq_some_iff.mp h
        cases heq
        have := scanExponentDigits_length hm
        simp only [List.length_cons] at this ⊢
        omega
    · cases h
  · cases h

theorem scanUnsigned_length {negative : Bool} {n : Number}
    (h : scanUnsigned negative text = some (n, rest)) : rest.length < text.length := by
  unfold scanUnsigned at h
  split at h
  · cases h
  · rename_i whole rest₁ hwhole
    have h1 := scanInteger_length hwhole
    have h2 : ((scanFraction rest₁).getD ([], rest₁)).2.length ≤ rest₁.length := by
      cases hf : scanFraction rest₁ with
      | none => exact Nat.le_refl _
      | some r => exact (scanFraction_length hf).le
    generalize (scanFraction rest₁).getD ([], rest₁) = r₂ at h h2
    obtain ⟨fraction, rest₂⟩ := r₂
    have h3 : ((scanExponent rest₂).getD (0, rest₂)).2.length ≤ rest₂.length := by
      cases he : scanExponent rest₂ with
      | none => exact Nat.le_refl _
      | some r => exact (scanExponent_length he).le
    cases h
    exact (h3.trans h2).trans_lt h1

theorem scanNumber_length {n : Number} (h : scanNumber text = some (n, rest)) :
    rest.length < text.length := by
  cases text with
  | nil => cases h
  | cons b bs =>
    simp only [scanNumber] at h
    split at h
    · exact (scanUnsigned_length h).trans (Nat.lt_succ_self _)
    · exact scanUnsigned_length h

theorem stripWord_length {word : Bytes} (h : stripWord word text = some rest) :
    rest.length + word.length = text.length := by
  induction word generalizing text with
  | nil => cases h; rfl
  | cons w word ih =>
    cases text with
    | nil => cases h
    | cons b text =>
      simp only [stripWord] at h
      split at h
      · exact congrArg (· + 1) (ih h)
      · cases h

theorem scanWord_length {ws : List (Bytes × Token)} {t : Token} (hne : ∀ w ∈ ws, w.1 ≠ [])
    (h : scanWord text ws = some (t, rest)) : rest.length < text.length := by
  induction ws with
  | nil => cases h
  | cons w ws ih =>
    obtain ⟨word, t'⟩ := w
    simp only [scanWord] at h
    split at h
    · rename_i text' hword
      cases h
      have := stripWord_length hword
      have : 0 < word.length := List.length_pos_iff.mpr (hne (word, t) (by simp))
      omega
    · exact ih (fun w hw => hne w (by simp [hw])) h

theorem words_ne_nil (d : Dialect) : ∀ w ∈ words d, w.1 ≠ [] := by
  have hliterals : ∀ w ∈ literals, w.1 ≠ [] := by decide
  have hconstants : ∀ w ∈ constantNames, w.1 ≠ [] := by decide
  intro w hw
  rcases List.mem_append.mp hw with hw | hw
  · exact hliterals w hw
  · split at hw
    · exact hconstants w hw
    · cases hw

theorem scanToken_length {d : Dialect} {b : UInt8} {bs : Bytes} {t : Token}
    (h : scanToken d b bs = (t, rest)) : rest.length ≤ bs.length := by
  unfold scanToken at h
  split at h
  · cases h
    exact Nat.le_refl _
  · split at h
    · split at h <;> cases h
      · exact (scanString_length ‹_›).le
      · exact Nat.le_refl _
    · split at h
      · cases h
        exact Nat.le_of_lt_succ (scanWord_length (words_ne_nil d) ‹_›)
      · split at h
        · rename_i n rest' hn
          split at h <;> cases h
          · exact Nat.le_refl _
          · exact Nat.le_of_lt_succ (scanNumber_length hn)
        · cases h
          exact Nat.le_refl _

/-- Every token but the end takes a byte. -/
theorem scan_length {d : Dialect} {t : Token} (h : scan d text = (t, rest)) (ht : t ≠ .endOfInput) :
    rest.length < text.length := by
  have hdrop := dropWhile_length_le isSpace text
  unfold scan at h
  split at h
  · cases h
    exact absurd rfl ht
  · rename_i b bs hbs
    rw [hbs, List.length_cons] at hdrop
    split at h
    · cases h
      exact absurd rfl ht
    · exact (Nat.lt_succ_of_le (scanToken_length h)).trans_le hdrop

end Length

/-! ## When the reader gives up -/

theorem advance_endOfInput (s : State) : advance s .endOfInput = none := by
  obtain ⟨expects, stack⟩ := s
  rcases stack with _ | ⟨_ | _, stack⟩ <;> cases expects <;> rfl

theorem advance_ended {s : State} {v : Value} (h : s.expects = .ended v) (t : Token) :
    advance s t = none := by
  obtain ⟨expects, stack⟩ := s
  subst h
  rfl

section Traps

variable {E : Type} {d : Dialect} {trap : Nat → Token → Option E}

theorem trapAt_ended {s : State} {v : Value} (h : s.expects = .ended v) (t : Token) :
    trapAt trap s t = none := by
  rw [trapAt, State.wantsValue, h]
  rfl

/-- The trap is the next token, or comes behind it. -/
theorem trapsFrom_iff {s : State} {text : Bytes} : TrapsFrom d trap s text ↔
    (∃ e, trapAt trap s (scan d text).1 = some e) ∨
    ∃ s', advance s (scan d text).1 = some s' ∧ TrapsFrom d trap s' (scan d text).2 := by
  constructor
  · rintro ⟨ts, rest, s', e, hlex, hrun, htrap⟩
    cases hlex with
    | nil =>
      cases hrun
      exact Or.inl ⟨e, htrap⟩
    | cons t text' first more =>
      obtain ⟨s₁, h1, h2⟩ := Option.bind_eq_some_iff.mp hrun
      rw [first]
      exact Or.inr ⟨s₁, h1, _, rest, s', e, more, h2, htrap⟩
  · rintro (⟨e, htrap⟩ | ⟨s₁, h1, ts, rest, s', e, hlex, hrun, htrap⟩)
    · exact ⟨[], text, s, e, .nil text, rfl, htrap⟩
    · refine ⟨(scan d text).1 :: ts, rest, s', e, .cons _ _ rfl hlex, ?_, htrap⟩
      rw [Machine.run, h1]
      exact hrun

theorem readLoop_traps_iff {n : Nat} {s : State} {text : Bytes} (hn : text.length < n) :
    (∃ e, readLoop d trap n s text = .error (.trapped e)) ↔ TrapsFrom d trap s text := by
  induction n generalizing s text with
  | zero => exact absurd hn (Nat.not_lt_zero _)
  | succ n ih =>
    rw [trapsFrom_iff, readLoop]
    split
    · -- after the outermost value there are no traps
      rename_i v hv
      simp only [trapAt_ended hv, advance_ended hv]
      split <;> simp
    · cases htrap : trapAt trap s (scan d text).1 with
      | some e => simp
      | none =>
        cases hadvance : advance s (scan d text).1 with
        | none => simp
        | some s' =>
          have hne : (scan d text).1 ≠ .endOfInput := by
            intro heq
            rw [heq, advance_endOfInput] at hadvance
            cases hadvance
          have hlen : (scan d text).2.length < text.length := scan_length (Prod.mk.eta.symm) hne
          simp only [reduceCtorEq, exists_false, false_or, Option.some.injEq, exists_eq_left']
          exact ih (Nat.lt_of_lt_of_le hlen (Nat.le_of_lt_succ hn))

/-- **When the reader gives up.** It does so exactly on the texts that have a trap. -/
theorem read_traps_iff {text : Bytes} :
    (∃ e, read d trap text = .error (.trapped e)) ↔ Traps d trap text :=
  readLoop_traps_iff (Nat.lt_succ_self _)

end Traps

end JsonText
end UrlShortener
