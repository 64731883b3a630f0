import UrlShortener.Base.CrlfText
import UrlShortener.Base.JsonRoundTrip
import UrlShortener.Http.Message

/-!
# UrlShortener.Http.ResponseText

`serialize` and the client that reads what it writes. The client takes everything up to the first
CR LF CR LF for the head, cuts it into lines, and wants a status line, header lines and one
`Content-Length` that is the size of the rest (`parseResponse`).

A response is read back as it was as long as nobody has put a line end into a header (`Clean`).
The one header whose value comes from outside is `Location`, and `set_safe_location` is in its way.
-/

namespace UrlShortener
namespace Http

open CrlfText (CRLF crlfLines cutHead Line)
open JsonText (isDigit ofDigits)

/-! ## The client -/

def readInt : Bytes → Int
  | 45 :: ds => -(ofDigits ds : Int)
  | ds => (ofDigits ds : Int)

def parseStatusLine (line : Bytes) : Option Int :=
  if line.take 9 = ascii "HTTP/1.1 " then some (readInt ((line.drop 9).takeWhile fun b => decide (b ≠ SP)))
  else none

/-- The name ends at the first colon; one blank follows. -/
def parseHeaderLine (line : Bytes) : Option (Bytes × Bytes) :=
  match line.dropWhile (fun b => decide (b ≠ 58)) with
  | 58 :: 32 :: value => some (line.takeWhile fun b => decide (b ≠ 58), value)
  | _ => none

def contentLength : Bytes := ascii "Content-Length"

def parseHead (statusLine : Bytes) (fields : List (Bytes × Bytes)) (body : Bytes) :
    Option HttpResponse :=
  let lengths := fields.filter fun f => decide (f.1 = contentLength)
  if lengths.map (fun f => ofDigits f.2) = [body.length] then
    (parseStatusLine statusLine).map fun statusCode =>
      { statusCode, body
        headers := ((fields.filter fun f => decide (f.1 ≠ contentLength)).map
          fun f => ⟨f.1, f.2⟩).toAList }
  else none

def parseResponse (raw : Bytes) : Option HttpResponse := do
  let (head, body) ← cutHead raw
  match crlfLines head with
  | [] => none
  | statusLine :: lines => parseHead statusLine (← lines.mapM parseHeaderLine) body

/-! ## What is written -/

namespace HttpResponse

def statusLine (r : HttpResponse) : Bytes :=
  ascii "HTTP/1.1 " ++ toDecimalInt r.statusCode ++ ascii " " ++ statusText r.statusCode

def lengthLine (r : HttpResponse) : Bytes :=
  contentLength ++ ascii ": " ++ toDecimal r.body.length

def fieldLine (h : (_ : Bytes) × Bytes) : Bytes := h.1 ++ ascii ": " ++ h.2

def lines (r : HttpResponse) : List Bytes :=
  r.statusLine :: r.lengthLine :: r.headers.entries.map fieldLine

/-- No line end in a header, no colon in a name, and no second length. -/
structure Clean (r : HttpResponse) : Prop where
  nonempty : ∀ h ∈ r.headers.entries, h.1 ≠ []
  name : ∀ h ∈ r.headers.entries, CR ∉ h.1 ∧ LF ∉ h.1 ∧ 58 ∉ h.1
  value : ∀ h ∈ r.headers.entries, CR ∉ h.2 ∧ LF ∉ h.2
  noLength : ∀ h ∈ r.headers.entries, h.1 ≠ contentLength

variable {r : HttpResponse}

/-- **The text of a response**: its lines, an empty line, and the body. -/
theorem serialize_eq (r : HttpResponse) :
    r.serialize = CrlfText.join r.lines ++ CRLF ++ CRLF ++ r.body := by
  have hjoin : ∀ (line : Bytes) (hs : List ((_ : Bytes) × Bytes)),
      CrlfText.join (line :: hs.map fieldLine) ++ CRLF =
        line ++ CRLF ++ hs.flatMap fun h => headerLine (h.1, h.2) := by
    intro line hs
    induction hs generalizing line with
    | nil => simp [CrlfText.join]
    | cons h hs ih =>
      rw [List.map_cons, CrlfText.join, List.append_assoc, ih, List.flatMap_cons]
      · simp only [headerLine, fieldLine, List.append_assoc]
        rfl
      · simp
  have hlines : CrlfText.join r.lines ++ CRLF =
      r.statusLine ++ CRLF ++ (r.lengthLine ++ CRLF ++
        r.headers.entries.flatMap fun h => headerLine (h.1, h.2)) := by
    rw [← hjoin, lines, CrlfText.join, List.append_assoc]
    simp
  rw [hlines, serialize]
  simp only [statusLine, lengthLine, contentLength, List.append_assoc]
  rfl

/-! ## Lines that can be told apart -/

theorem toDecimalInt_bytes (n : Int) : ∀ b ∈ toDecimalInt n, isDigit b = true ∨ b = 45 := by
  intro b hb
  unfold toDecimalInt at hb
  split at hb
  · rcases List.mem_append.mp hb with hb | hb
    · exact Or.inr (List.mem_singleton.mp hb)
    · exact Or.inl (JsonText.toDecimal_isDigit _ b hb)
  · exact Or.inl (JsonText.toDecimal_isDigit _ b hb)

/-- No status text has a line end. -/
theorem statusText_bytes (code : Int) : CR ∉ statusText code ∧ LF ∉ statusText code := by
  unfold statusText
  split <;> decide +kernel

/-- No line of a clean response has a line end in it. -/
theorem Clean.noLineEnd (h : Clean r) : ∀ line ∈ r.lines, CR ∉ line ∧ LF ∉ line := by
  have hdigit : ∀ n : Nat, CR ∉ toDecimal n ∧ LF ∉ toDecimal n := by
    intro n
    constructor
    · intro hmem
      exact absurd (JsonText.toDecimal_isDigit n _ hmem) (by decide)
    · intro hmem
      exact absurd (JsonText.toDecimal_isDigit n _ hmem) (by decide)
  have hint : CR ∉ toDecimalInt r.statusCode ∧ LF ∉ toDecimalInt r.statusCode := by
    constructor
    · intro hmem
      exact absurd (toDecimalInt_bytes _ _ hmem) (by decide)
    · intro hmem
      exact absurd (toDecimalInt_bytes _ _ hmem) (by decide)
  have hblank : CR ∉ ascii " " ∧ LF ∉ ascii " " := by decide
  have hcolon : CR ∉ ascii ": " ∧ LF ∉ ascii ": " := by decide
  intro line hline
  rcases List.mem_cons.mp hline with rfl | hline
  · have hversion : CR ∉ ascii "HTTP/1.1 " ∧ LF ∉ ascii "HTTP/1.1 " := by decide
    have htext := statusText_bytes r.statusCode
    simp only [statusLine, List.mem_append, not_or]
    exact ⟨⟨⟨⟨hversion.1, hint.1⟩, hblank.1⟩, htext.1⟩, ⟨⟨hversion.2, hint.2⟩, hblank.2⟩, htext.2⟩
  · rcases List.mem_cons.mp hline with rfl | hline
    · have hname : CR ∉ contentLength ∧ LF ∉ contentLength := by decide
      have hlen := hdigit r.body.length
      simp only [lengthLine, List.mem_append, not_or]
      exact ⟨⟨⟨hname.1, hcolon.1⟩, hlen.1⟩, ⟨hname.2, hcolon.2⟩, hlen.2⟩
    · obtain ⟨field, hfield, rfl⟩ := List.mem_map.mp hline
      have hname := h.name field hfield
      have hvalue := h.value field hfield
      simp only [fieldLine, List.mem_append, not_or]
      exact ⟨⟨⟨hname.1, hcolon.1⟩, hvalue.1⟩, ⟨hname.2.1, hcolon.2⟩, hvalue.2⟩

theorem Clean.line (h : Clean r) : ∀ line ∈ r.lines, Line line := by
  intro line hline
  refine ⟨?_, (h.noLineEnd line hline).1⟩
  rcases List.mem_cons.mp hline with rfl | hline
  · simp [statusLine, ascii]
  · rcases List.mem_cons.mp hline with rfl | hline
    · simp [lengthLine, contentLength, ascii]
    · obtain ⟨field, hfield, rfl⟩ := List.mem_map.mp hline
      simp [fieldLine, h.nonempty field hfield]

/-- The head ends where it should. -/
theorem Clean.cutHead (h : Clean r) :
    cutHead r.serialize = some (CrlfText.join r.lines, r.body) ∧
      crlfLines (CrlfText.join r.lines) = r.lines := by
  rw [serialize_eq]
  exact ⟨CrlfText.cutHead_join (by simp [lines]) h.line r.body,
    CrlfText.crlfLines_join (by simp [lines]) fun line hline => (h.line line hline).noCr⟩

/-! ## Reading it back -/

theorem readInt_toDecimalInt (n : Int) : readInt (toDecimalInt n) = n := by
  unfold toDecimalInt
  split
  · rename_i hneg
    show -(ofDigits (toDecimal n.natAbs) : Int) = n
    rw [JsonText.ofDigits_toDecimal]
    omega
  · rename_i hpos
    have hread : readInt (toDecimal n.natAbs) = (ofDigits (toDecimal n.natAbs) : Int) := by
      unfold readInt
      split
      · rename_i ds heq
        have hdigit := JsonText.toDecimal_isDigit n.natAbs 45 (by rw [heq]; simp)
        exact absurd hdigit (by decide)
      · rfl
    rw [hread, JsonText.ofDigits_toDecimal]
    omega

theorem parseStatusLine_statusLine (r : HttpResponse) :
    parseStatusLine r.statusLine = some r.statusCode := by
  have hnine : (ascii "HTTP/1.1 ").length = 9 := by decide
  have htake : r.statusLine.take 9 = ascii "HTTP/1.1 " := by
    rw [statusLine, List.append_assoc, List.append_assoc, ← hnine, List.take_left]
  have hdrop : r.statusLine.drop 9 =
      toDecimalInt r.statusCode ++ SP :: statusText r.statusCode := by
    rw [statusLine, List.append_assoc, List.append_assoc, ← hnine, List.drop_left]
    rfl
  have hbytes : ∀ b ∈ toDecimalInt r.statusCode, decide (b ≠ SP) = true := by
    intro b hb
    rw [decide_eq_true_eq]
    rintro rfl
    exact absurd (toDecimalInt_bytes _ _ hb) (by decide)
  rw [parseStatusLine, if_pos htake, hdrop, List.takeWhile_append_of_pos hbytes,
    List.takeWhile_cons_of_neg (by simp), List.append_nil, readInt_toDecimalInt]

/-- A line is cut at the colon behind the name. -/
theorem parseHeaderLine_eq {name : Bytes} (h : 58 ∉ name) (value : Bytes) :
    parseHeaderLine (name ++ ascii ": " ++ value) = some (name, value) := by
  have hname : ∀ b ∈ name, decide (b ≠ (58 : UInt8)) = true := by
    intro b hb
    rw [decide_eq_true_eq]
    rintro rfl
    exact h hb
  have hcolon : ascii ": " = [58, 32] := by decide
  rw [parseHeaderLine, List.append_assoc, hcolon, List.cons_append,
    List.dropWhile_append_of_pos hname, List.takeWhile_append_of_pos hname,
    List.dropWhile_cons_of_neg (by simp), List.takeWhile_cons_of_neg (by simp), List.append_nil]
  rfl

theorem mapM_fieldLine {hs : List ((_ : Bytes) × Bytes)} (h : ∀ f ∈ hs, 58 ∉ f.1) :
    (hs.map fieldLine).mapM parseHeaderLine = some (hs.map fun f => (f.1, f.2)) := by
  induction hs with
  | nil => rfl
  | cons f hs ih =>
    rw [List.map_cons, List.mapM_cons, fieldLine, parseHeaderLine_eq (h f (by simp)),
      ih fun g hg => h g (by simp [hg])]
    rfl

theorem dedupKeys_of_nodupKeys {l : List ((_ : Bytes) × Bytes)} (h : l.NodupKeys) :
    l.dedupKeys = l := by
  induction l with
  | nil => rfl
  | cons x l ih =>
    rw [List.nodupKeys_cons] at h
    rw [List.dedupKeys_cons, ih h.2, List.kinsert_def, List.kerase_of_notMem_keys h.1]

/-- The fields that are no length are the headers. -/
theorem parseHead_eq (h : Clean r) : parseHead r.statusLine
    ((contentLength, toDecimal r.body.length) :: r.headers.entries.map fun f => (f.1, f.2)) r.body =
      some r := by
  have hne : ∀ f ∈ r.headers.entries.map (fun f => (f.1, f.2)), f.1 ≠ contentLength := by
    intro f hf
    obtain ⟨g, hg, rfl⟩ := List.mem_map.mp hf
    exact h.noLength g hg
  have hlengths : (r.headers.entries.map fun f => (f.1, f.2)).filter
      (fun f => decide (f.1 = contentLength)) = [] :=
    List.filter_eq_nil_iff.mpr fun f hf => by simp [hne f hf]
  have hfields : (r.headers.entries.map fun f => (f.1, f.2)).filter
      (fun f => decide (f.1 ≠ contentLength)) = r.headers.entries.map fun f => (f.1, f.2) :=
    List.filter_eq_self.mpr fun f hf => by simp [hne f hf]
  have hheaders : ((r.headers.entries.map fun f => (f.1, f.2)).map
      fun f => (⟨f.1, f.2⟩ : (_ : Bytes) × Bytes)).toAList = r.headers := by
    apply AList.ext
    rw [AList.entries_toAList, List.map_map]
    have hid : r.headers.entries.map
        ((fun f : Bytes × Bytes => (⟨f.1, f.2⟩ : (_ : Bytes) × Bytes)) ∘ fun f => (f.1, f.2)) =
          r.headers.entries := List.map_id' _
    rw [hid, dedupKeys_of_nodupKeys r.headers.nodupKeys]
  rw [parseHead, List.filter_cons_of_pos (by simp), List.filter_cons_of_neg (by simp), hlengths,
    hfields, hheaders, parseStatusLine_statusLine]
  simp [JsonText.ofDigits_toDecimal]

/-- **The client reads what `serialize` wrote.** -/
theorem Clean.parse (h : Clean r) : parseResponse r.serialize = some r := by
  obtain ⟨hcut, hlines⟩ := h.cutHead
  have hlength : parseHeaderLine r.lengthLine = some (contentLength, toDecimal r.body.length) :=
    parseHeaderLine_eq (by decide) _
  have hfields := mapM_fieldLine fun f hf => (h.name f hf).2.2
  simp only [parseResponse, hcut, Option.bind_eq_bind, Option.bind_some, hlines]
  simp only [lines, List.mapM_cons, hlength, hfields, Option.bind_eq_bind, Option.bind_some]
  exact parseHead_eq h

end HttpResponse
end Http
end UrlShortener
