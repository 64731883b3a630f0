import UrlShortener.Base.Bytes

/-!
# UrlShortener.Base.CrlfText

Texts of lines that end in CR LF: the lines of a text, and a head that ends at the first empty line.
Lines without CR are read back as they were written (`crlfLines_join`, `cutHead_join`).
-/

namespace UrlShortener
namespace CrlfText

def CRLF : Bytes := [CR, LF]

/-- Puts a byte in front of the first line. -/
def consLine (b : UInt8) : List Bytes → List Bytes
  | [] => [[b]]
  | line :: lines => (b :: line) :: lines

/-- The lines of a text, the last one without its end. -/
def crlfLines : Bytes → List Bytes
  | [] => [[]]
  | 13 :: 10 :: text => [] :: crlfLines text
  | b :: text => consLine b (crlfLines text)

/-- The text before the first CR LF CR LF, and what follows it. -/
def cutHead : Bytes → Option (Bytes × Bytes)
  | [] => none
  | 13 :: 10 :: 13 :: 10 :: text => some ([], text)
  | b :: text => (cutHead text).map fun p => (b :: p.1, p.2)

/-- Lines with CR LF between them. -/
def join : List Bytes → Bytes
  | [] => []
  | [line] => line
  | line :: lines => line ++ CRLF ++ join lines

/-- A line can be told from what follows it. -/
structure Line (line : Bytes) : Prop where
  nonempty : line ≠ []
  noCr : CR ∉ line

variable {line text : Bytes} {lines : List Bytes} {b : UInt8}

theorem crlfLines_cons (hb : b ≠ CR) (text : Bytes) :
    crlfLines (b :: text) = consLine b (crlfLines text) := by
  rw [crlfLines]
  intro text' h
  exact absurd h hb

theorem consLine_ne_nil (b : UInt8) (lines : List Bytes) : consLine b lines ≠ [] := by
  cases lines with
  | nil => simp [consLine]
  | cons line lines => simp [consLine]

theorem crlfLines_ne_nil (text : Bytes) : crlfLines text ≠ [] := by
  unfold crlfLines
  split
  · simp
  · simp
  · exact consLine_ne_nil _ _

theorem crlfLines_line (h : CR ∉ line) : crlfLines line = [line] := by
  induction line with
  | nil => rfl
  | cons b line ih =>
    rw [List.mem_cons, not_or] at h
    rw [crlfLines_cons (Ne.symm h.1), ih h.2, consLine]

theorem crlfLines_append (h : CR ∉ line) (text : Bytes) :
    crlfLines (line ++ CRLF ++ text) = line :: crlfLines text := by
  induction line with
  | nil => rfl
  | cons b line ih =>
    rw [List.mem_cons, not_or] at h
    rw [List.cons_append, List.cons_append, crlfLines_cons (Ne.symm h.1), ih h.2, consLine]

/-- The lines that were joined are read back. -/
theorem crlfLines_join (hne : lines ≠ []) (h : ∀ line ∈ lines, CR ∉ line) :
    crlfLines (join lines) = lines := by
  induction lines with
  | nil => exact absurd rfl hne
  | cons line rest ih =>
    cases rest with
    | nil => exact crlfLines_line (h line (by simp))
    | cons next rest =>
      rw [join, crlfLines_append (h line (by simp)), ih (by simp) fun l hl => h l (by simp [hl])]
      simp

theorem cutHead_cons (hb : b ≠ CR) (text : Bytes) :
    cutHead (b :: text) = (cutHead text).map fun p => (b :: p.1, p.2) := by
  rw [cutHead]
  intro text' h
  exact absurd h hb

theorem cutHead_append (h : CR ∉ line) (text : Bytes) :
    cutHead (line ++ text) = (cutHead text).map fun p => (line ++ p.1, p.2) := by
  induction line with
  | nil =>
    rw [List.nil_append]
    cases cutHead text <;> rfl
  | cons b line ih =>
    rw [List.mem_cons, not_or] at h
    rw [List.cons_append, cutHead_cons (Ne.symm h.1), ih h.2, Option.map_map]
    rfl

/-- The end of a line is not the end of the head when another line follows. -/
theorem cutHead_crlf (hb : b ≠ CR) (text : Bytes) :
    cutHead (CRLF ++ b :: text) = (cutHead (b :: text)).map fun p => (CRLF ++ p.1, p.2) := by
  have hlf : cutHead (LF :: b :: text) = (cutHead (b :: text)).map fun p => (LF :: p.1, p.2) :=
    cutHead_cons (by decide) _
  show cutHead (CR :: LF :: b :: text) = _
  rw [cutHead, hlf, Option.map_map]
  · rfl
  · intro text' _ h
    exact absurd (List.cons.inj (List.cons.inj h).2).1 hb

/-- **The head is cut off where it was joined to the rest**, whatever the rest is. -/
theorem cutHead_join (hne : lines ≠ []) (h : ∀ line ∈ lines, Line line) (text : Bytes) :
    cutHead (join lines ++ CRLF ++ CRLF ++ text) = some (join lines, text) := by
  induction lines with
  | nil => exact absurd rfl hne
  | cons line rest ih =>
    have hline := h line (by simp)
    cases rest with
    | nil =>
      rw [join, List.append_assoc, List.append_assoc, cutHead_append hline.noCr]
      simp [CRLF, CR, LF, cutHead]
    | cons next rest =>
      obtain ⟨b, next', hnext⟩ := List.exists_cons_of_ne_nil (h next (by simp)).nonempty
      have hb : b ≠ CR := by
        rintro rfl
        exact (h next (by simp)).noCr (by simp [hnext])
      have hhead : ∃ u, join (next :: rest) = b :: u := by
        cases rest with
        | nil => exact ⟨next', hnext⟩
        | cons l rest => exact ⟨next' ++ CRLF ++ join (l :: rest), by simp [join, hnext]⟩
      obtain ⟨u, hu⟩ := hhead
      have ih := ih (by simp) fun l hl => h l (by simp [hl])
      rw [hu] at ih
      have hsplit : join (line :: next :: rest) ++ CRLF ++ CRLF ++ text =
          line ++ (CRLF ++ b :: (u ++ CRLF ++ CRLF ++ text)) := by
        rw [join, hu]
        · simp only [List.append_assoc, List.cons_append]
        · simp
      rw [hsplit, cutHead_append hline.noCr, cutHead_crlf hb]
      have hcons : b :: (u ++ CRLF ++ CRLF ++ text) = b :: u ++ CRLF ++ CRLF ++ text := rfl
      rw [hcons, ih, join, hu]
      · simp
      · simp

end CrlfText
end UrlShortener
