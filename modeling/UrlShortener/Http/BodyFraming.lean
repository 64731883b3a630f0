import Mathlib.Data.List.DropRight
import UrlShortener.Base.CrlfText
import UrlShortener.Http.Fragment
import UrlShortener.Http.Wire

/-!
# UrlShortener.Http.BodyFraming

The header lines of an accepted request and the body they announce.

`headerLines` are the lines on the wire, `fieldName` reads a line the way a proxy in front of the
server does: the name ends at the first colon, blanks before the colon are not part of it.
`parse_headers` instead compares fixed prefixes that include the colon (`prefix_iff`), so a line
with a blank before its colon is none of the framing headers to it; and of several
`Content-Length` lines the last one counts. It sees each line as a C string, up to the first that is
empty as one (`readAs`), so a line that begins with a NUL ends the head for it. For which header
lines the two readings agree on the body is what this module answers.
-/

namespace UrlShortener
namespace Http

/-! ## Reading a header line -/

def isBlank (b : UInt8) : Bool := decide (b ∈ blanks)

/-- The text before the first colon, without trailing spaces and tabs. -/
def fieldName (line : Bytes) : Option Bytes :=
  (strchr line COLON).map fun k => (line.take k).rdropWhile isBlank

/-- The line's field name is `name`, ignoring case. -/
def named (name line : Bytes) : Bool := (fieldName line).any fun n => strcasecmp n name

/-- Nothing stands between the field name and its colon. -/
def Tight (line : Bytes) : Prop := fieldName line = (strchr line COLON).map fun k => line.take k

instance (line : Bytes) : Decidable (Tight line) :=
  inferInstanceAs (Decidable (fieldName line = (strchr line COLON).map fun k => line.take k))

/-- The value of a number in decimal notation; a plus sign may stand before it. -/
def decimalValue (text : Bytes) : Option Nat :=
  let digits := if text.head? = some 43 then text.tail else text
  if digits ≠ [] ∧ digits.all (fun b => decide (48 ≤ b) && decide (b ≤ 57)) = true then
    some (digits.foldl (fun v b => v * 10 + (b.toNat - 48)) 0)
  else none

/-- The number behind the first colon, surrounding blanks removed. -/
def declaredLength (line : Bytes) : Option Nat :=
  (strchr line COLON).bind fun k =>
    decimalValue (((line.drop (k + 1)).dropWhile isBlank).rdropWhile isBlank)

def TRANSFER_ENCODING : Bytes := ascii "Transfer-Encoding"
def CONTENT_ENCODING : Bytes := ascii "Content-Encoding"
def CONTENT_LENGTH : Bytes := ascii "Content-Length"

/-- The lines of a stream before its first empty line. -/
def headLines (stream : Bytes) : List Bytes :=
  (CrlfText.crlfLines stream).dropLast.takeWhile fun l => decide (l ≠ [])

/-- The header lines of a request: what follows its request line. -/
def headerLines (stream : Bytes) : List Bytes := (headLines stream).tail

/-- The lines before the first that begins with a NUL. -/
def reached (lines : List Bytes) : List Bytes :=
  lines.takeWhile fun l => decide (l.head? ≠ some NUL)

/-- What `parse_headers` is given of these lines. -/
def readAs (lines : List Bytes) : List Bytes := (reached lines).map cString

/-- Whoever reads the header lines by field name finds the body where the server found it. -/
structure Unambiguous (lines : List Bytes) (body : Bytes) : Prop where
  no_encoding : ∀ l ∈ lines, named TRANSFER_ENCODING l = false ∧ named CONTENT_ENCODING l = false
  length : ∀ l ∈ lines, named CONTENT_LENGTH l = true → declaredLength l = some body.length
  none : (∀ l ∈ lines, named CONTENT_LENGTH l = false) → body = []

/-- Header lines that `parse_headers` reads as anyone else does. -/
structure Framed (lines : List Bytes) : Prop where
  encoding : ∀ l ∈ lines, named TRANSFER_ENCODING l = true ∨ named CONTENT_ENCODING l = true →
    l ∈ reached lines ∧ Tight l
  length : ∃ n, (∀ l ∈ lines, named CONTENT_LENGTH l = true → declaredLength l = some n) ∧
    (n = 0 ∨ ∃ l ∈ reached lines, named CONTENT_LENGTH l = true ∧ Tight l)

/-! ## Prefixes and names -/

theorem colon_of_tolower {line : Bytes} (h : COLON ∈ lower line) : COLON ∈ line := by
  obtain ⟨b, hb, he⟩ := List.mem_map.mp h
  by_contra hc
  exact WireRequest.tolower_ne_colon (fun e => hc (e ▸ hb)) he

/-- A prefix test of `parse_headers` looks for a name with its colon right behind it. -/
theorem prefix_iff {full lit : Bytes} {n : Nat} (hfull : full = lit ++ [COLON])
    (hn : n = lit.length + 1) (hlit : ∀ b ∈ lit, tolower b ≠ COLON) (hblank : ∀ b ∈ lit, b ∉ blanks)
    (line : Bytes) : strncasecmp line full n = true ↔ named lit line = true ∧ Tight line := by
  rw [named, Tight, fieldName]
  rcases hk : strchr line COLON with _ | k
  · simp only [Option.map_none, Option.any_none, Bool.false_eq_true, false_and, iff_false]
    intro h
    have hmem : COLON ∈ lower (line.take n) := by
      rw [eq_of_beq h, hfull, hn, List.take_of_length_le (by simp), lower_append]
      exact List.mem_append_right _ (by decide)
    have hin := List.mem_of_mem_take (colon_of_tolower hmem)
    simpa using List.findIdx?_eq_none_iff.mp hk COLON hin
  · obtain ⟨name, rest, rfl, rfl, hname⟩ := strchr_some hk
    have htest : strncasecmp (name ++ COLON :: rest) full n = strcasecmp name lit := by
      rw [hfull]
      exact strncasecmp_field hn (by decide)
        (fun b hb => WireRequest.tolower_ne_colon fun e => hname (e ▸ hb)) hlit
    rw [htest]
    simp only [Option.map_some, Option.any_some, List.take_left, Option.some.injEq]
    constructor
    · intro h
      have hfree := not_blank_of_lower (lower_eq_of_strcasecmp h) hblank
      have htight : name.rdropWhile isBlank = name :=
        List.rdropWhile_eq_self_iff.mpr fun hne => by
          simpa [isBlank] using hfree _ (List.getLast_mem hne)
      rw [htight]
      exact ⟨h, rfl⟩
    · rintro ⟨h, htight⟩
      rw [htight] at h
      exact h

/-- No line passes two prefix tests. -/
theorem named_unique {a b line : Bytes} (hne : lower a ≠ lower b) (ha : named a line = true) :
    named b line = false := by
  rw [named] at ha ⊢
  cases hf : fieldName line with
  | none => rfl
  | some n =>
    rw [hf] at ha
    simp only [Option.any_some] at ha ⊢
    by_contra hb
    rw [Bool.not_eq_false] at hb
    exact hne ((lower_eq_of_strcasecmp ha).symm.trans (lower_eq_of_strcasecmp hb))

theorem contentLength_prefixed (line : Bytes) :
    strncasecmp line (ascii "Content-length:") 15 = true ↔
      named CONTENT_LENGTH line = true ∧ Tight line := by
  have hlit : strncasecmp line (ascii "Content-length:") 15 =
      strncasecmp line (CONTENT_LENGTH ++ [COLON]) 15 := by
    rw [strncasecmp, strncasecmp]
    congr 1
  rw [hlit]
  exact prefix_iff rfl (by decide +kernel) (by decide +kernel) (by decide +kernel) line

theorem connection_prefixed (line : Bytes) :
    strncasecmp line (ascii "Connection:") 11 = true ↔
      named (ascii "Connection") line = true ∧ Tight line :=
  prefix_iff (by decide +kernel) (by decide +kernel) (by decide +kernel) (by decide +kernel) line

theorem encoding_prefixed (line : Bytes) :
    isUnsupportedBodyEncodingHeader line = true ↔
      (named TRANSFER_ENCODING line = true ∨ named CONTENT_ENCODING line = true) ∧ Tight line := by
  rw [isUnsupportedBodyEncodingHeader, Bool.or_eq_true, or_and_right]
  refine or_congr ?_ ?_
  · exact prefix_iff (by decide +kernel) (by decide +kernel) (by decide +kernel)
      (by decide +kernel) line
  · exact prefix_iff (by decide +kernel) (by decide +kernel) (by decide +kernel)
      (by decide +kernel) line

theorem not_encoding_of_named {a line : Bytes} (ht : lower a ≠ lower TRANSFER_ENCODING)
    (hc : lower a ≠ lower CONTENT_ENCODING) (ha : named a line = true) :
    isUnsupportedBodyEncodingHeader line = false := by
  by_contra henc
  rcases ((encoding_prefixed line).mp (Bool.not_eq_false _ ▸ henc)).1 with h | h
  · rw [named_unique ht ha] at h
    cases h
  · rw [named_unique hc ha] at h
    cases h

/-! ## Numbers -/

/-- What the digit loop accepts is a number, and it does not wrap. -/
theorem parseContentLengthLoop_some {text : Bytes} {v m : Nat} {saw : Bool}
    (h : parseContentLengthLoop v saw text = some m) :
    (∀ b ∈ text, 48 ≤ b ∧ b ≤ 57) ∧ m = text.foldl (fun v b => v * 10 + (b.toNat - 48)) v ∧
      (saw = false → text ≠ []) := by
  induction text generalizing v saw with
  | nil =>
    rw [parseContentLengthLoop] at h
    split at h
    · cases h
    · rename_i hsaw
      cases h
      refine ⟨by simp, rfl, fun hs => ?_⟩
      simp [hs] at hsaw
  | cons b text ih =>
    rw [parseContentLengthLoop] at h
    split at h
    · cases h
    · rename_i hb
      rw [not_or, UInt8.not_lt, UInt8.not_lt] at hb
      simp only at h
      split at h
      · cases h
      · rename_i hv
        have h2 : b.toNat ≤ 57 := UInt8.le_iff_toNat_le.mp hb.2
        rw [Nat.mod_eq_of_lt (by simp only [ULLONG_MAX] at hv; omega)] at h
        obtain ⟨hd, hm, -⟩ := ih h
        refine ⟨?_, hm, by simp⟩
        rintro x (_ | ⟨_, hx⟩)
        · exact hb
        · exact hd x hx

theorem digit_not_blank {b : UInt8} (h : 48 ≤ b ∧ b ≤ 57) : b ∉ blanks := by
  simp only [blanks, List.mem_cons, List.not_mem_nil, or_false]
  rintro (rfl | rfl)
  · exact absurd h.1 (by decide)
  · exact absurd h.1 (by decide)

theorem all_digits {text : Bytes} (h : ∀ b ∈ text, 48 ≤ b ∧ b ≤ 57) :
    text.all (fun b => decide (48 ≤ b) && decide (b ≤ 57)) = true :=
  List.all_eq_true.mpr fun b hb => by simpa using h b hb

theorem parseContentLength_some {text : Bytes} {m : Nat} (h : parseContentLength text = some m) :
    decimalValue text = some m ∧ text ≠ [] ∧ ∀ b ∈ text, b ∉ blanks := by
  cases text with
  | nil => cases h
  | cons b rest =>
    rw [parseContentLength] at h
    split at h
    · cases h
    · split at h
      · rename_i hplus
        subst hplus
        split at h
        · cases h
        · obtain ⟨hd, hm, hne⟩ := parseContentLengthLoop_some h
          refine ⟨?_, by simp, ?_⟩
          · simp only [decimalValue, List.head?_cons, if_true, List.tail_cons]
            rw [if_pos ⟨hne rfl, all_digits hd⟩, hm]
          · rintro x (_ | ⟨_, hx⟩)
            · decide
            · exact digit_not_blank (hd x hx)
      · rename_i hplus
        obtain ⟨hd, hm, hne⟩ := parseContentLengthLoop_some h
        refine ⟨?_, by simp, fun x hx => digit_not_blank (hd x hx)⟩
        simp only [decimalValue, List.head?_cons, Option.some.injEq, if_neg hplus]
        rw [if_pos ⟨hne rfl, all_digits hd⟩, hm]

theorem drop_strspn (s : Bytes) : s.drop (strspn s blanks) = s.dropWhile isBlank := by
  have hsplit : s.takeWhile isBlank ++ s.dropWhile isBlank = s := List.takeWhile_append_dropWhile
  calc s.drop (strspn s blanks)
      = (s.takeWhile isBlank ++ s.dropWhile isBlank).drop (s.takeWhile isBlank).length := by
        rw [hsplit]
        rfl
    _ = s.dropWhile isBlank := List.drop_left

/-- The number `parse_headers` takes from a `Content-Length:` line is the one it declares. -/
theorem declaredLength_of_prefixed {line : Bytes} {m : Nat}
    (hp : strncasecmp line (ascii "Content-length:") 15 = true)
    (h : parseContentLength (Parser.headerValue line 15) = some m) : declaredLength line = some m := by
  obtain ⟨hname, htight⟩ := (contentLength_prefixed line).mp hp
  rw [named] at hname
  rw [Tight] at htight
  rw [declaredLength]
  rcases hk : strchr line COLON with _ | k
  · rw [htight, hk] at hname
    cases hname
  · rw [htight, hk] at hname
    obtain ⟨name, rest, rfl, rfl, -⟩ := strchr_some hk
    simp only [Option.map_some, Option.any_some, List.take_left] at hname
    have hlen : name.length = 14 := WireRequest.length_of_strcasecmp hname
    have hvalue : Parser.headerValue (name ++ COLON :: rest) 15 = rest.dropWhile isBlank := by
      have hdrop : (name ++ COLON :: rest).drop 15 = rest := by
        have := drop_past name rest COLON
        rwa [hlen] at this
      rw [Parser.headerValue, hdrop, drop_strspn]
    rw [hvalue] at h
    obtain ⟨hd, -, hfree⟩ := parseContentLength_some h
    have htrim : (rest.dropWhile isBlank).rdropWhile isBlank = rest.dropWhile isBlank :=
      List.rdropWhile_eq_self_iff.mpr fun hne => by
        simpa [isBlank] using hfree _ (List.getLast_mem hne)
    simp only [Option.bind_some, drop_past, htrim]
    exact hd

theorem decimalValue_noNul {text : Bytes} {n : Nat} (h : decimalValue text = some n) :
    NUL ∉ text := by
  have hdigits : ∀ digits : Bytes, digits.all (fun b => decide (48 ≤ b) && decide (b ≤ 57)) = true →
      NUL ∉ digits := by
    intro digits hall hmem
    exact absurd (List.all_eq_true.mp hall NUL hmem) (by decide)
  rw [decimalValue] at h
  by_cases hplus : text.head? = some 43
  · cases text with
    | nil => cases hplus
    | cons b text =>
      cases hplus
      simp only [List.head?_cons, if_true, List.tail_cons] at h
      split at h
      · rename_i hall
        exact List.not_mem_cons_of_ne_of_not_mem (by decide) (hdigits text hall.2)
      · cases h
  · simp only [if_neg hplus] at h
    split at h
    · rename_i hall
      exact hdigits text hall.2
    · cases h

/-- What is not dropped stays. -/
theorem mem_dropWhile {p : UInt8 → Bool} {s : Bytes} {b : UInt8} (hb : p b = false) (h : b ∈ s) :
    b ∈ s.dropWhile p := by
  rw [← List.takeWhile_append_dropWhile (p := p) (l := s)] at h
  rcases List.mem_append.mp h with hin | hin
  · rw [List.mem_takeWhile_imp hin] at hb
    cases hb
  · exact hin

theorem mem_rdropWhile {p : UInt8 → Bool} {s : Bytes} {b : UInt8} (hb : p b = false) (h : b ∈ s) :
    b ∈ s.rdropWhile p :=
  List.mem_reverse.mpr (mem_dropWhile hb (List.mem_reverse.mpr h))

/-- A line that announces a number holds no NUL. -/
theorem noNul_of_declared {line : Bytes} {n : Nat} (hname : named CONTENT_LENGTH line = true)
    (h : declaredLength line = some n) : NUL ∉ line := by
  rw [named, fieldName] at hname
  rw [declaredLength] at h
  rcases hk : strchr line COLON with _ | k
  · rw [hk] at hname
    cases hname
  · rw [hk] at hname h
    obtain ⟨name, rest, rfl, rfl, -⟩ := strchr_some hk
    simp only [Option.map_some, Option.any_some, List.take_left, Option.bind_some, drop_past]
      at hname h
    have hblank : isBlank NUL = false := by decide
    have hlit : NUL ∉ name.rdropWhile isBlank := by
      intro hmem
      have hin := mem_of_lower_eq (by decide) (by decide) (lower_eq_of_strcasecmp hname).symm hmem
      revert hin
      decide +kernel
    have hvalue : NUL ∉ (rest.dropWhile isBlank).rdropWhile isBlank := decimalValue_noNul h
    intro hmem
    rcases List.mem_append.mp hmem with hin | hin
    · exact hlit (mem_rdropWhile hblank hin)
    · rcases List.mem_cons.mp hin with hin | hin
      · cases hin
      · exact hvalue (mem_rdropWhile hblank (mem_dropWhile hblank hin))

/-! ## Lines the parser passes -/

/-- All that a header line does to the framing fields when the parser goes on behind it. -/
theorem parseHeaders_passed {p p' : Parser} {i : Nat} {text : Bytes} (hne : text ≠ [])
    (h : p.parseHeaders i text = (p', .noRequest)) :
    isUnsupportedBodyEncodingHeader text = false ∧
      (strncasecmp text (ascii "Content-length:") 15 = true →
        parseContentLength (Parser.headerValue text 15) = some p'.contentLength) ∧
      (strncasecmp text (ascii "Content-length:") 15 = false →
        p'.contentLength = p.contentLength) ∧
      p'.checkState = p.checkState ∧ p'.request.body = p.request.body := by
  unfold Parser.parseHeaders at h
  rw [if_neg hne] at h
  by_cases hconn : strncasecmp text (ascii "Connection:") 11 = true
  · have hname := ((connection_prefixed text).mp hconn).1
    have hcl : strncasecmp text (ascii "Content-length:") 15 = false := by
      by_contra hcl
      have := ((contentLength_prefixed text).mp (Bool.not_eq_false _ ▸ hcl)).1
      rw [named_unique (by decide +kernel) hname] at this
      cases this
    have henc := not_encoding_of_named (by decide +kernel) (by decide +kernel) hname
    rw [if_pos hconn] at h
    have hp' := (congrArg Prod.fst h).symm
    simp only at hp'
    refine ⟨henc, fun hh => absurd (hh.symm.trans hcl) (by decide), fun _ => ?_, ?_, ?_⟩ <;>
      (rw [hp']; simp only [Parser.setHeader]; split <;> [rfl; (split <;> rfl)])
  · rw [if_neg hconn] at h
    by_cases hcl : strncasecmp text (ascii "Content-length:") 15 = true
    · have hname := ((contentLength_prefixed text).mp hcl).1
      have henc := not_encoding_of_named (by decide +kernel) (by decide +kernel) hname
      rw [if_pos hcl] at h
      simp only at h
      split at h
      · cases h
      · rename_i length hlen
        split at h
        · cases h
        · cases h
          exact ⟨henc, fun _ => hlen, fun hh => absurd (hcl.symm.trans hh) (by decide), rfl, rfl⟩
    · rw [if_neg hcl] at h
      have hcl' : strncasecmp text (ascii "Content-length:") 15 = false := by simpa using hcl
      split at h
      · cases h
      · rename_i henc
        refine ⟨by simpa using henc, fun hh => absurd hh hcl, fun _ => ?_, ?_⟩
        · split at h
          · cases h; rfl
          · split at h <;> (cases h; rfl)
        · split at h
          · cases h; exact ⟨rfl, rfl⟩
          · split at h <;> (cases h; exact ⟨rfl, rfl⟩)

theorem parseHeaders_code (p : Parser) (i : Nat) (text : Bytes) :
    (p.parseHeaders i text).2 ≠ .internalError ∧
      (p.parseHeaders i text).2 ≠ .closedConnection := by
  unfold Parser.parseHeaders
  split
  · split
    · split <;> simp
    · simp
  · split
    · simp
    · split
      · simp only
        split
        · simp
        · split <;> simp
      · split
        · simp
        · split
          · simp
          · split <;> simp

/-- The empty line ends the head; it changes nothing but the state. -/
theorem parseHeaders_nil {p : Parser} {i : Nat} :
    (p.parseHeaders i []).1.contentLength = p.contentLength ∧
      (p.parseHeaders i []).1.request = p.request ∧
      ((p.parseHeaders i []).2 = .noRequest → (p.parseHeaders i []).1.checkState = .content) ∧
      ((p.parseHeaders i []).2 = .getRequest → p.contentLength = 0) := by
  unfold Parser.parseHeaders
  rw [if_pos rfl]
  by_cases h0 : p.contentLength = 0
  · simp [h0]
  · rw [if_pos h0]
    split <;> simp

theorem parseHeaders_getRequest {p p' : Parser} {i : Nat} {text : Bytes}
    (h : p.parseHeaders i text = (p', .getRequest)) : text = [] := by
  by_contra hne
  unfold Parser.parseHeaders at h
  rw [if_neg hne] at h
  split at h
  · cases h
  · split at h
    · simp only at h
      split at h
      · cases h
      · split at h <;> cases h
    · split at h
      · cases h
      · split at h
        · cases h
        · split at h <;> cases h

/-- One header line, by the code it gives. -/
theorem step_header {p p' : Parser} {i : Nat} {text : Bytes} {code : Option HttpCode}
    (hp : p.checkState = .header) (h : p.step i text = (p', code)) :
    (code = none → p.parseHeaders i text = (p', .noRequest)) ∧
      (code = some .getRequest → p.parseHeaders i text = (p', .getRequest)) := by
  obtain ⟨h1, h2⟩ := parseHeaders_code p i text
  rcases hh : p.parseHeaders i text with ⟨p₁, ret⟩
  rw [hh] at h1 h2
  simp only [Parser.step, hp, hh] at h
  cases ret <;> cases h <;> simp_all

/-- What a list of passed header lines says about the announced length: the last
`Content-Length:` among them counts, and none leaves it as it was. -/
structure Passed (lines : List Bytes) (before after : Nat) : Prop where
  encoding : ∀ l ∈ lines, isUnsupportedBodyEncodingHeader l = false
  length : (∃ l ∈ lines, strncasecmp l (ascii "Content-length:") 15 = true ∧
      parseContentLength (Parser.headerValue l 15) = some after) ∨
    (∀ l ∈ lines, strncasecmp l (ascii "Content-length:") 15 = false) ∧ after = before

theorem Passed.nil (n : Nat) : Passed [] n n := ⟨by simp, Or.inr ⟨by simp, rfl⟩⟩

theorem Passed.cons {p p' : Parser} {i m : Nat} {text : Bytes} {lines : List Bytes}
    (hne : text ≠ []) (h : p.parseHeaders i text = (p', .noRequest))
    (hl : Passed lines p'.contentLength m) : Passed (text :: lines) p.contentLength m := by
  obtain ⟨henc, hval, hkeep, -, -⟩ := parseHeaders_passed hne h
  refine ⟨?_, ?_⟩
  · rintro l (_ | ⟨_, hmem⟩)
    · exact henc
    · exact hl.encoding l hmem
  · rcases hl.length with ⟨l, hmem, hp, hv⟩ | ⟨hnone, rfl⟩
    · exact Or.inl ⟨l, List.mem_cons_of_mem _ hmem, hp, hv⟩
    · cases hcl : strncasecmp text (ascii "Content-length:") 15 with
      | true => exact Or.inl ⟨text, List.mem_cons_self, hcl, hval hcl⟩
      | false =>
        refine Or.inr ⟨?_, hkeep hcl⟩
        rintro l (_ | ⟨_, hmem⟩)
        · exact hcl
        · exact hnone l hmem

theorem reached_subset {lines : List Bytes} {l : Bytes} (h : l ∈ reached lines) : l ∈ lines :=
  (List.takeWhile_prefix _).subset h

/-- A framing line that is reached is refused. -/
theorem Passed.not_encoding {lines : List Bytes} {n m : Nat} (h : Passed (readAs lines) n m)
    {l : Bytes} (hl : l ∈ reached lines)
    (hname : named TRANSFER_ENCODING l = true ∨ named CONTENT_ENCODING l = true) : ¬ Tight l := by
  intro htight
  have hpassed := h.encoding (cString l) (List.mem_map_of_mem hl)
  have hsame : isUnsupportedBodyEncodingHeader (cString l) = isUnsupportedBodyEncodingHeader l := by
    rw [isUnsupportedBodyEncodingHeader, isUnsupportedBodyEncodingHeader,
      strncasecmp_cString (by decide +kernel) (by decide +kernel),
      strncasecmp_cString (by decide +kernel) (by decide +kernel)]
  rw [hsame, (encoding_prefixed l).mpr ⟨hname, htight⟩] at hpassed
  cases hpassed

/-- The number that counts is that of a line that is reached, if there is one. -/
theorem Passed.counted {lines : List Bytes} {m : Nat} (h : Passed (readAs lines) 0 m) :
    (∃ l ∈ reached lines, named CONTENT_LENGTH l = true ∧ Tight l ∧
      (NUL ∉ l → declaredLength l = some m)) ∨
    (∀ l ∈ reached lines, named CONTENT_LENGTH l = true → ¬ Tight l) ∧ m = 0 := by
  have hsame : ∀ l, strncasecmp (cString l) (ascii "Content-length:") 15 =
      strncasecmp l (ascii "Content-length:") 15 := fun l =>
    strncasecmp_cString (by decide +kernel) (by decide +kernel)
  rcases h.length with ⟨text, hmem, hprefix, hv⟩ | ⟨hnone, h0⟩
  · obtain ⟨l, hl, rfl⟩ := List.mem_map.mp hmem
    rw [hsame] at hprefix
    obtain ⟨hname, htight⟩ := (contentLength_prefixed l).mp hprefix
    refine Or.inl ⟨l, hl, hname, htight, fun hnul => ?_⟩
    rw [cString_eq_self hnul] at hv
    exact declaredLength_of_prefixed hprefix hv
  · refine Or.inr ⟨fun l hl hname htight => ?_, h0⟩
    have hno := hnone (cString l) (List.mem_map_of_mem hl)
    rw [hsame, (contentLength_prefixed l).mpr ⟨hname, htight⟩] at hno
    cases hno

/-! ## Complete heads -/

/-- The head has been read to its end, leaving the parser `p`. -/
def HeadResult.Completes (p : Parser) : HeadResult → Prop
  | .ended code p' _ _ => code = .getRequest ∧ p' = p ∧ p.contentLength = 0
  | .body p' _ _ => p' = p
  | _ => False

theorem headLines_ok {u line : Bytes} (hs : scanLine u = (line, .lineOk)) :
    headLines u = if line = [] then [] else line :: headLines (u.drop (line.length + 2)) := by
  obtain ⟨hclean, hu⟩ := scanLine_ok hs
  have hcr : CR ∉ line := fun h => (hclean CR h).1 rfl
  have hlines : CrlfText.crlfLines u = line :: CrlfText.crlfLines (u.drop (line.length + 2)) := by
    conv_lhs => rw [hu]
    have happend := CrlfText.crlfLines_append hcr (u.drop (line.length + 2))
    rwa [CrlfText.CRLF, List.append_assoc] at happend
  rw [headLines, hlines, List.dropLast_cons_of_ne_nil (CrlfText.crlfLines_ne_nil _),
    List.takeWhile_cons]
  by_cases hne : line = []
  · simp [hne]
  · simp [hne, headLines]

theorem cString_eq_nil {line : Bytes} : cString line = [] ↔ line = [] ∨ line.head? = some NUL := by
  cases line with
  | nil => simp [cString]
  | cons b line =>
    by_cases hb : b = NUL
    · simp [cString, hb]
    · simp [cString, hb]

theorem readAs_headLines {u line : Bytes} (hs : scanLine u = (line, .lineOk)) :
    readAs (headLines u) =
      if cString line = [] then []
      else cString line :: readAs (headLines (u.drop (line.length + 2))) := by
  rw [headLines_ok hs]
  by_cases hnil : line = []
  · subst hnil
    rfl
  · rw [if_neg hnil, readAs, reached, List.takeWhile_cons]
    by_cases hhead : line.head? = some NUL
    · rw [if_neg (by simpa using hhead), if_pos (cString_eq_nil.mpr (Or.inr hhead))]
      rfl
    · rw [if_pos (by simpa using hhead), if_neg fun h => (cString_eq_nil.mp h).elim hnil hhead]
      rfl

/-- **What was read of a complete head was all passed.** -/
theorem readHead_passed (p : Parser) (pos : Nat) (u : Bytes) (hp : p.checkState = .header)
    (p' : Parser) (h : (readHead p pos u).Completes p') :
    Passed (readAs (headLines u)) p.contentLength p'.contentLength ∧
      p'.request.body = p.request.body := by
  revert hp h
  refine readHead_rec (motive := fun p _ u r => p.checkState = .header → r.Completes p' →
    Passed (readAs (headLines u)) p.contentLength p'.contentLength ∧
      p'.request.body = p.request.body)
    ?_ ?_ ?_ ?_ ?_ p pos u
  · intro _ _ _ _ _ _ h
    exact h.elim
  · intro _ _ _ _ _ _ h
    exact h.elim
  · rintro p pos u line p₁ code hs hst hp ⟨rfl, rfl, -⟩
    have hret := (step_header hp hst).2 rfl
    have hnil := parseHeaders_getRequest hret
    rw [hnil] at hret
    obtain ⟨hl, hr, -, -⟩ := parseHeaders_nil (p := p) (i := pos + line.length + 2)
    rw [hret] at hl hr
    rw [readAs_headLines hs, if_pos hnil]
    simp only at hl hr
    rw [hl, hr]
    exact ⟨Passed.nil _, rfl⟩
  · rintro p pos u line p₁ hs hst hc hp rfl
    have hret := (step_header hp hst).1 rfl
    have hnil : cString line = [] := by
      by_contra hne
      obtain ⟨-, -, -, hcs, -⟩ := parseHeaders_passed hne hret
      rw [hc, hp] at hcs
      cases hcs
    rw [hnil] at hret
    obtain ⟨hl, hr, -, -⟩ := parseHeaders_nil (p := p) (i := pos + line.length + 2)
    rw [hret] at hl hr
    rw [readAs_headLines hs, if_pos hnil]
    simp only at hl hr
    rw [hl, hr]
    exact ⟨Passed.nil _, rfl⟩
  · intro p pos u line p₁ hs hst hc ih hp h
    have hret := (step_header hp hst).1 rfl
    have hne : cString line ≠ [] := by
      intro hnil
      rw [hnil] at hret
      obtain ⟨-, -, hcs, -⟩ := parseHeaders_nil (p := p) (i := pos + line.length + 2)
      rw [hret] at hcs
      exact hc (hcs rfl)
    obtain ⟨-, -, -, hcs, hbody⟩ := parseHeaders_passed hne hret
    obtain ⟨hl, hb⟩ := ih (hcs.trans hp) h
    rw [readAs_headLines hs, if_neg hne]
    exact ⟨hl.cons hne hret, hb.trans hbody⟩

/-- A head that ends the request announces no body. -/
theorem readHead_getRequest {p p' : Parser} {pos pos' : Nat} {u rest : Bytes}
    (h : readHead p pos u = .ended .getRequest p' pos' rest) : p'.contentLength = 0 := by
  revert h
  refine readHead_rec (motive := fun _ _ _ r => r = .ended .getRequest p' pos' rest →
    p'.contentLength = 0) ?_ ?_ ?_ ?_ ?_ p pos u
  · intro _ _ _ _ _ h; cases h
  · intro _ _ _ _ _ h; cases h
  · intro p pos u line p₁ code hs hst h
    cases h
    cases hp : p.checkState with
    | requestLine =>
      simp only [Parser.step, hp] at hst
      split at hst <;> cases hst
    | header =>
      have hret := (step_header hp hst).2 rfl
      rw [parseHeaders_getRequest hret] at hret
      obtain ⟨hl, -, -, h0⟩ := parseHeaders_nil (p := p) (i := pos + line.length + 2)
      rw [hret] at hl h0
      exact hl.trans (h0 rfl)
    | content =>
      simp only [Parser.step, hp] at hst
      cases hst
  · intro _ _ _ _ _ _ _ _ h; cases h
  · intro _ _ _ _ _ _ _ _ ih h
    exact ih h

theorem parseRequestLine_passed {p p' : Parser} {text : Bytes} {code : HttpCode}
    (h : p.parseRequestLine text = (p', code)) (hcode : code ≠ .badRequest) :
    text ≠ [] ∧ p'.checkState = .header ∧ p'.contentLength = p.contentLength ∧
      p'.request.body = p.request.body := by
  unfold Parser.parseRequestLine at h
  split at h
  · cases h
    exact absurd rfl hcode
  · rename_i i hi
    have hne : text ≠ [] := by
      rintro rfl
      cases hi
    refine ⟨hne, ?_⟩
    simp only at h
    split at h
    · cases h
      exact absurd rfl hcode
    · split at h
      · cases h
        exact absurd rfl hcode
      · split at h
        · cases h
          exact absurd rfl hcode
        · split at h
          · cases h
            exact absurd rfl hcode
          · split at h
            · cases h
              exact absurd rfl hcode
            · cases h
              refine ⟨rfl, rfl, ?_⟩
              simp only
              split <;> rfl

/-- The same from the request line on. -/
theorem headerLines_passed {stream : Bytes} {p : Parser} (h : (readHead {} 0 stream).Completes p) :
    Passed (readAs (headerLines stream)) 0 p.contentLength ∧ p.request.body = [] := by
  rcases hs : scanLine stream with ⟨line, st⟩
  cases st with
  | lineOpen => rw [readHead_open hs] at h; exact h.elim
  | lineBad => rw [readHead_bad hs] at h; exact h.elim
  | lineOk =>
    rw [readHead_ok hs] at h
    rcases hline : Parser.parseRequestLine {} (cString line) with ⟨p₁, code⟩
    simp only [Parser.step, hline] at h
    by_cases hbad : code = .badRequest
    · rw [if_pos hbad] at h
      cases h.1
    · obtain ⟨hne, hcs, hl, hb⟩ := parseRequestLine_passed hline hbad
      rw [if_neg hbad] at h
      simp only [hcs, reduceCtorEq, if_false] at h
      obtain ⟨hp, hbody⟩ := readHead_passed p₁ _ _ hcs p h
      have hline : line ≠ [] := fun hnil => hne (by rw [hnil]; rfl)
      rw [headerLines, headLines_ok hs, if_neg hline, List.tail_cons]
      rw [hl] at hp
      exact ⟨hp, hbody.trans hb⟩

/-! ## Streams in chunks -/

namespace HttpConn

/-- Chunks read in the content state: a body that is accepted has the announced length. -/
theorem feed_content {ds : List Bytes} {c : HttpConn} (hc : c.checkState = .content)
    (h : (feed c ds).2 = .getRequest) : (feed c ds).1.request.body.length = c.contentLength := by
  induction ds generalizing c with
  | nil => cases h
  | cons d ds ih =>
    obtain ⟨h1, h2, h3⟩ := processReadLoop_content
      (2 * ((c.receive d).readIdx - (c.receive d).checkedIdx) + 2) (c := c.receive d) hc .lineOk
    rw [feed] at h ⊢
    rcases hr : (c.receive d).processRead with ⟨c₁, code⟩
    rw [show processReadLoop _ (c.receive d) .lineOk = (c₁, code) from hr] at h1 h2 h3
    rw [hr] at h
    cases code with
    | noRequest => exact (ih h1 h).trans h2
    | getRequest => exact h3 rfl
    | badRequest => cases h
    | requestEntityTooLarge => cases h
    | internalError => cases h
    | closedConnection => cases h

/-- **A chunked run that ends in a request has read a complete head.** -/
theorem feed_completes {ds : List Bytes} {c : HttpConn} (hat : c.AtLine)
    (hc : c.checkState ≠ .content) (hlen : c.readIdx + ds.flatten.length ≤ READ_BUFFER_SIZE)
    (h : (feed c ds).2 = .getRequest) :
    ∃ p, (readHead c.toParser c.startLine (c.pending ++ ds.flatten)).Completes p ∧
      ((feed c ds).1.request.body.length = p.contentLength ∨
        p.contentLength = 0 ∧ (feed c ds).1.request.body = p.request.body) := by
  induction ds generalizing c with
  | nil => cases h
  | cons d ds ih =>
    rw [List.flatten_cons, List.length_append] at hlen
    obtain ⟨hat', hpend⟩ := hat.receive (d := d) (by omega)
    have hreach := processReadLoop_head _ (c.receive d) .lineOk hat' hc (Nat.le_refl _)
    rw [hpend] at hreach
    rw [List.flatten_cons, ← List.append_assoc, readHead_append]
    rw [feed] at h ⊢
    have hreach : (c.receive d).Reaches _ .lineOk
        (readHead c.toParser c.startLine (c.pending ++ d)) := hreach
    cases hr : readHead c.toParser c.startLine (c.pending ++ d) with
    | more p pos rest =>
      rw [hr] at hreach
      obtain ⟨buf, hk, hrest, he⟩ := hreach
      rw [show (c.receive d).processRead = _ from he] at h ⊢
      obtain ⟨hat₁, hpend₁⟩ := hk.atLine_more (p := p) hat' hrest
      by_cases hfull : READ_BUFFER_SIZE ≤ (c.receive d).readIdx
      · rw [openCode, if_pos hfull] at h
        cases h
      · rw [openCode, if_neg hfull] at h ⊢
        have := ih hat₁ (readHead_more hc hr).1
          (by show c.readIdx + d.length + _ ≤ _; omega) h
        rw [hpend₁] at this
        exact this
    | badLine p pos rest =>
      rw [hr] at hreach
      obtain ⟨buf, s, -, -, -, -, he⟩ := hreach
      rw [show (c.receive d).processRead = _ from he] at h
      cases h
    | ended code p pos rest =>
      rw [hr] at hreach
      obtain ⟨buf, -, -, he⟩ := hreach
      rw [show (c.receive d).processRead = _ from he] at h ⊢
      obtain rfl : code = .getRequest := by
        rcases readHead_ended_code hr with rfl | rfl | rfl
        · cases h
        · cases h
        · rfl
      have h0 := readHead_getRequest hr
      exact ⟨p, ⟨rfl, rfl, h0⟩, Or.inr ⟨h0, rfl⟩⟩
    | body p pos rest =>
      rw [hr] at hreach
      obtain ⟨buf, m, -, -, -, hp, he⟩ := hreach
      obtain ⟨h1, h2, h3⟩ := processReadLoop_content m
        (c := (c.receive d).moved p buf pos pos) hp .lineOk
      rw [← show (c.receive d).processRead = _ from he] at h1 h2 h3
      refine ⟨p, rfl, Or.inl ?_⟩
      rcases hpr : (c.receive d).processRead with ⟨c₁, code⟩
      rw [hpr] at h h1 h2 h3
      cases code with
      | noRequest => exact (feed_content h1 h).trans h2
      | getRequest => exact h3 rfl
      | badRequest => cases h
      | requestEntityTooLarge => cases h
      | internalError => cases h
      | closedConnection => cases h

/-- What an accepted stream's header lines have announced is the length of its body. -/
theorem feed_passed (c : HttpConn) {chunks : List Bytes}
    (hlen : chunks.flatten.length ≤ READ_BUFFER_SIZE)
    (h : (feed c.init chunks).2 = .getRequest) :
    Passed (readAs (headerLines chunks.flatten)) 0 (feed c.init chunks).1.request.body.length := by
  obtain ⟨p, hp, hbody⟩ := feed_completes (init_atLine c) (by simp [init])
    (by show 0 + _ ≤ _; omega) h
  have hp : (readHead {} 0 chunks.flatten).Completes p := hp
  obtain ⟨hpass, hnil⟩ := headerLines_passed hp
  rcases hbody with hl | ⟨h0, hb⟩
  · rw [hl]
    exact hpass
  · rw [hb, hnil]
    rw [h0] at hpass
    exact hpass

/-- **When body framing is unambiguous.** For every stream, however it is cut into chunks, on
which `process_read` returns GET_REQUEST: a reader of the header lines by field name agrees with
the server on the body exactly when these lines are `Framed`. -/
theorem framing_iff (c : HttpConn) (chunks : List Bytes)
    (hlen : chunks.flatten.length ≤ READ_BUFFER_SIZE)
    (h : (feed c.init chunks).2 = .getRequest) :
    Unambiguous (headerLines chunks.flatten) (feed c.init chunks).1.request.body ↔
      Framed (headerLines chunks.flatten) := by
  have hp := feed_passed c hlen h
  generalize (feed c.init chunks).1.request.body = body at hp ⊢
  generalize headerLines chunks.flatten = lines at hp ⊢
  constructor
  · intro hu
    refine ⟨fun l hl hname => ?_, body.length, hu.length, ?_⟩
    · obtain ⟨h1, h2⟩ := hu.no_encoding l hl
      rw [h1, h2] at hname
      simp at hname
    · rcases hp.counted with ⟨l, hl, hname, htight, -⟩ | ⟨-, h0⟩
      · exact Or.inr ⟨l, hl, hname, htight⟩
      · exact Or.inl h0
  · rintro ⟨henc, n, hsame, hn⟩
    -- the number all lines agree on is the one that counted
    have hbody : n = body.length := by
      rcases hp.counted with ⟨l, hl, hname, -, hv⟩ | ⟨hnone, h0⟩
      · have hdeclared := hsame l (reached_subset hl) hname
        have hcounted := hv (noNul_of_declared hname hdeclared)
        rw [hdeclared] at hcounted
        exact Option.some.inj hcounted
      · rcases hn with rfl | ⟨l, hl, hname, htight⟩
        · exact h0.symm
        · exact absurd htight (hnone l hl hname)
    refine ⟨fun l hl => ?_, fun l hl hname => hbody ▸ hsame l hl hname, fun hnone => ?_⟩
    · have hfree : ¬ (named TRANSFER_ENCODING l = true ∨ named CONTENT_ENCODING l = true) := by
        intro hname
        obtain ⟨hreached, htight⟩ := henc l hl hname
        exact hp.not_encoding hreached hname htight
      rw [not_or, Bool.not_eq_true, Bool.not_eq_true] at hfree
      exact hfree
    · rcases hp.counted with ⟨l, hl, hname, -⟩ | ⟨-, h0⟩
      · rw [hnone l (reached_subset hl)] at hname
        cases hname
      · exact List.length_eq_zero_iff.mp h0

/-- A POST with one plain `Content-Length`, cut inside that line, and a NUL in another one. -/
def plainPost : List Bytes :=
  [ascii "POST / HTTP/1.1\r\nX-Id: 1" ++ NUL :: ascii "2\r\nContent-Le", ascii "ngth: 2\r\n\r\nab"]

theorem framing_iff_plainPost :
    (feed ({} : HttpConn).init plainPost).2 = .getRequest ∧
      (headerLines plainPost.flatten).length = 2 ∧
      Unambiguous (headerLines plainPost.flatten) (feed ({} : HttpConn).init plainPost).1.request.body := by
  have hget : (feed ({} : HttpConn).init plainPost).2 = .getRequest := by decide +kernel
  have hlines : headerLines plainPost.flatten =
      [ascii "X-Id: 1" ++ NUL :: ascii "2", ascii "Content-Length: 2"] := by decide +kernel
  refine ⟨hget, by rw [hlines]; rfl, (framing_iff {} plainPost (by decide +kernel) hget).mpr ?_⟩
  rw [hlines]
  refine ⟨?_, 2, ?_, Or.inr ⟨ascii "Content-Length: 2", ?_, ?_, ?_⟩⟩
  · decide +kernel
  · decide +kernel
  · decide +kernel
  · decide +kernel
  · decide +kernel

/-- A proxy reads this request as chunked; the server takes it as one without a body. -/
def spacedChunked : Bytes := ascii "POST / HTTP/1.1\r\nTransfer-Encoding : chunked\r\n\r\n"

/-- Here the server does not come to the line that announces the body. -/
def hiddenLength : Bytes :=
  ascii "POST / HTTP/1.1\r\nHost: a\r\n" ++ NUL :: ascii "\r\nContent-Length: 2\r\n\r\nab"

theorem framing_ambiguous_spacedChunked :
    ¬ ∀ (c : HttpConn) (chunks : List Bytes), chunks.flatten.length ≤ READ_BUFFER_SIZE →
      (feed c.init chunks).2 = .getRequest →
      Unambiguous (headerLines chunks.flatten) (feed c.init chunks).1.request.body := by
  intro hall
  have hu := hall {} [spacedChunked] (by decide +kernel) (by decide +kernel)
  have hlines : headerLines [spacedChunked].flatten = [ascii "Transfer-Encoding : chunked"] := by
    decide +kernel
  rw [hlines] at hu
  have := (hu.no_encoding _ (List.mem_singleton_self _)).1
  revert this
  decide +kernel

/-- It is accepted, and its body is not the announced one. -/
example : (feed ({} : HttpConn).init [hiddenLength]).2 = .getRequest ∧
    (feed ({} : HttpConn).init [hiddenLength]).1.request.body = [] ∧
    headerLines hiddenLength =
      [ascii "Host: a", [NUL], ascii "Content-Length: 2"] := by
  decide +kernel

end HttpConn

end Http
end UrlShortener
