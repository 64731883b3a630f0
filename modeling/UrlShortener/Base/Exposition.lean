import UrlShortener.Base.Bytes

/-!
# UrlShortener.Base.Exposition

The text format of a scrape: comments, and samples `name{key="value",...} number`, each with a line
feed behind it. `read` takes the samples out of a text. A value ends at the first quote that has no
backslash in front of it, so a line feed in a value does not end the sample.

How a writer escapes values is its own business: `read_items` is for every writer whose values are
read back. `line_of_mem` finds a sample as a line of the text.
-/

namespace UrlShortener
namespace Exposition

structure Sample where
  name : Bytes
  labels : List (Bytes × Bytes) := []
  /-- The number as text. -/
  value : Bytes
deriving DecidableEq

/-! ## Reading -/

/-- What a backslash and this byte stand for. -/
def unescape (c : UInt8) : UInt8 := if c = 110 then LF else c

/-- A value, up to its closing quote. -/
def readValue : Bytes → Option (Bytes × Bytes)
  | [] => none
  | [b] => if b = 34 then some ([], []) else none
  | b :: c :: text =>
    if b = 34 then some ([], c :: text)
    else if b = 92 then (readValue text).map fun r => (unescape c :: r.1, r.2)
    else (readValue (c :: text)).map fun r => (b :: r.1, r.2)

/-- `key="value"`. -/
def readLabel (text : Bytes) : Option ((Bytes × Bytes) × Bytes) :=
  match text.dropWhile fun b => decide (b ≠ 61) with
  | _ :: 34 :: rest =>
    (readValue rest).map fun r => ((text.takeWhile fun b => decide (b ≠ 61), r.1), r.2)
  | _ => none

/-- Labels up to the closing brace; each takes a byte at least. -/
def readLabels : Nat → Bytes → Option (List (Bytes × Bytes) × Bytes)
  | 0, _ => none
  | n + 1, text =>
    match readLabel text with
    | some (label, 44 :: rest) => (readLabels n rest).map fun r => (label :: r.1, r.2)
    | some (label, 125 :: rest) => some ([label], rest)
    | _ => none

/-- A byte of a name. -/
def inName (b : UInt8) : Bool := decide (b ≠ 123) && decide (b ≠ SP) && decide (b ≠ LF)

/-- Behind the name and the labels. -/
def readNumber (name : Bytes) (labels : List (Bytes × Bytes)) : Bytes → Option (Sample × Bytes)
  | 32 :: text =>
    match text.dropWhile fun b => decide (b ≠ LF) with
    | _ :: rest => some (⟨name, labels, text.takeWhile fun b => decide (b ≠ LF)⟩, rest)
    | [] => none
  | _ => none

def readSample (text : Bytes) : Option (Sample × Bytes) :=
  match text.dropWhile inName with
  | 123 :: rest =>
    (readLabels rest.length rest).bind fun r => readNumber (text.takeWhile inName) r.1 r.2
  | rest => readNumber (text.takeWhile inName) [] rest

/-- The samples of a text; each line takes a byte at least. -/
def readLines : Nat → Bytes → Option (List Sample)
  | _, [] => some []
  | 0, _ :: _ => none
  | n + 1, b :: text =>
    if b = 35 then readLines n ((text.dropWhile fun c => decide (c ≠ LF)).tail)
    else (readSample (b :: text)).bind fun r => (readLines n r.2).map fun ss => r.1 :: ss

def read (text : Bytes) : Option (List Sample) := readLines text.length text

/-! ## Writing -/

inductive Item where
  | comment (text : Bytes)
  | sample (s : Sample)

def Item.samples : Item → List Sample
  | .comment _ => []
  | .sample s => [s]

section Write

variable (escape : Bytes → Bytes)

def labelText (label : Bytes × Bytes) : Bytes :=
  label.1 ++ 61 :: 34 :: (escape label.2 ++ [34])

def joinLabels : List (Bytes × Bytes) → Bytes
  | [] => []
  | [label] => labelText escape label
  | label :: labels => labelText escape label ++ 44 :: joinLabels labels

def labelsText (labels : List (Bytes × Bytes)) : Bytes :=
  if labels = [] then [] else 123 :: (joinLabels escape labels ++ [125])

/-- A sample without its line feed. -/
def Sample.line (s : Sample) : Bytes := s.name ++ labelsText escape s.labels ++ SP :: s.value

def Item.text : Item → Bytes
  | .comment text => 35 :: (text ++ [LF])
  | .sample s => s.line escape ++ [LF]

end Write

/-- The names and keys are in order, and the number is on the line. -/
structure Sample.Plain (s : Sample) : Prop where
  name : ∃ b bs, s.name = b :: bs ∧ b ≠ 35
  inName : ∀ b ∈ s.name, inName b = true
  keys : ∀ l ∈ s.labels, ∀ b ∈ l.1, b ≠ 61
  value : LF ∉ s.value

def Item.Plain : Item → Prop
  | .comment text => LF ∉ text
  | .sample s => s.Plain

/-! ## What is written is read -/

theorem takeWhile_append {f : UInt8 → Bool} {s : Bytes} (hs : ∀ b ∈ s, f b = true) {c : UInt8}
    (hc : f c = false) (rest : Bytes) :
    (s ++ c :: rest).takeWhile f = s ∧ (s ++ c :: rest).dropWhile f = c :: rest := by
  rw [List.takeWhile_append_of_pos hs, List.dropWhile_append_of_pos hs, List.takeWhile_cons,
    List.dropWhile_cons, hc]
  exact ⟨List.append_nil s, rfl⟩

theorem readNumber_text {name : Bytes} {labels : List (Bytes × Bytes)} {value : Bytes}
    (hvalue : LF ∉ value) (rest : Bytes) :
    readNumber name labels (SP :: (value ++ LF :: rest)) = some (⟨name, labels, value⟩, rest) := by
  obtain ⟨htake, hdrop⟩ := takeWhile_append (f := fun b => decide (b ≠ LF)) (c := LF)
    (fun b hb => decide_eq_true fun heq => hvalue (heq ▸ hb)) (by decide) rest
  show readNumber name labels (32 :: (value ++ LF :: rest)) = _
  rw [readNumber, htake, hdrop]

theorem length_joinLabels (escape : Bytes → Bytes) (labels : List (Bytes × Bytes)) :
    labels.length ≤ (joinLabels escape labels).length := by
  induction labels with
  | nil => exact Nat.le_refl _
  | cons label labels ih =>
    have hone : 1 ≤ (labelText escape label).length := by
      rw [labelText, List.length_append, List.length_cons]
      omega
    cases labels with
    | nil => exact hone
    | cons label' labels =>
      rw [joinLabels]
      · simp only [List.length_append, List.length_cons] at ih ⊢
        omega
      · nofun

section RoundTrip

variable {escape : Bytes → Bytes}
  (hescape : ∀ value rest, readValue (escape value ++ 34 :: rest) = some (value, rest))

include hescape

theorem readLabel_text {label : Bytes × Bytes} (hkey : ∀ b ∈ label.1, b ≠ 61) (rest : Bytes) :
    readLabel (labelText escape label ++ rest) = some (label, rest) := by
  have htext : labelText escape label ++ rest =
      label.1 ++ 61 :: (34 :: (escape label.2 ++ 34 :: rest)) := by
    simp [labelText]
  obtain ⟨htake, hdrop⟩ := takeWhile_append (f := fun b => decide (b ≠ 61)) (c := 61)
    (fun b hb => decide_eq_true (hkey b hb)) (by decide) (34 :: (escape label.2 ++ 34 :: rest))
  rw [htext, readLabel, htake, hdrop]
  simp only [hescape, Option.map_some]

theorem readLabels_text {labels : List (Bytes × Bytes)} (hne : labels ≠ [])
    (hkeys : ∀ l ∈ labels, ∀ b ∈ l.1, b ≠ 61) (rest : Bytes) {n : Nat} (hn : labels.length ≤ n) :
    readLabels n (joinLabels escape labels ++ 125 :: rest) = some (labels, rest) := by
  induction labels generalizing n with
  | nil => exact absurd rfl hne
  | cons label labels ih =>
    cases n with
    | zero => cases hn
    | succ n =>
      have hfirst := readLabel_text hescape (hkeys label (by simp))
      cases labels with
      | nil =>
        rw [joinLabels, readLabels, hfirst]
        rfl
      | cons label' labels =>
        have htext : joinLabels escape (label :: label' :: labels) ++ 125 :: rest =
            labelText escape label ++ 44 :: (joinLabels escape (label' :: labels) ++ 125 :: rest) := by
          rw [joinLabels]
          · simp
          · nofun
        have ih := ih nofun (fun l hl => hkeys l (by simp [hl])) (Nat.le_of_succ_le_succ hn)
        rw [htext, readLabels, hfirst]
        simp only [ih, Option.map_some]

theorem readSample_line {s : Sample} (hs : s.Plain) (rest : Bytes) :
    readSample (s.line escape ++ LF :: rest) = some (s, rest) := by
  obtain ⟨name, labels, value⟩ := s
  by_cases hlabels : labels = []
  · subst hlabels
    have htext : Sample.line escape ⟨name, [], value⟩ ++ LF :: rest =
        name ++ SP :: (value ++ LF :: rest) := by
      simp [Sample.line, labelsText]
    obtain ⟨htake, hdrop⟩ :=
      takeWhile_append hs.inName (c := SP) (by decide) (value ++ LF :: rest)
    rw [htext, readSample, htake, hdrop]
    exact readNumber_text hs.value rest
  · have htext : Sample.line escape ⟨name, labels, value⟩ ++ LF :: rest =
        name ++ 123 :: (joinLabels escape labels ++ 125 :: (SP :: (value ++ LF :: rest))) := by
      simp [Sample.line, labelsText, hlabels]
    obtain ⟨htake, hdrop⟩ := takeWhile_append hs.inName (c := 123) (by decide)
      (joinLabels escape labels ++ 125 :: (SP :: (value ++ LF :: rest)))
    have hlen : labels.length ≤
        (joinLabels escape labels ++ 125 :: (SP :: (value ++ LF :: rest))).length := by
      have := length_joinLabels escape labels
      rw [List.length_append]
      omega
    have hread := readLabels_text hescape hlabels hs.keys (SP :: (value ++ LF :: rest)) hlen
    rw [htext, readSample, htake, hdrop]
    simp only [hread, Option.bind_some]
    exact readNumber_text hs.value rest

theorem readLines_items {items : List Item} (hitems : ∀ i ∈ items, i.Plain) {n : Nat}
    (hn : items.length ≤ n) :
    readLines n (items.flatMap (Item.text escape)) = some (items.flatMap Item.samples) := by
  induction items generalizing n with
  | nil => cases n <;> rfl
  | cons i items ih =>
    cases n with
    | zero => cases hn
    | succ n =>
      have ih := ih (fun i hi => hitems i (by simp [hi])) (Nat.le_of_succ_le_succ hn)
      rw [List.flatMap_cons, List.flatMap_cons]
      cases i with
      | comment text =>
        have hplain : LF ∉ text := hitems (.comment text) (by simp)
        obtain ⟨-, hdrop⟩ := takeWhile_append (f := fun b => decide (b ≠ LF)) (c := LF)
          (fun b hb => decide_eq_true fun heq => hplain (heq ▸ hb)) (by decide)
          (items.flatMap (Item.text escape))
        have htext : Item.text escape (.comment text) ++ items.flatMap (Item.text escape) =
            35 :: (text ++ LF :: items.flatMap (Item.text escape)) := by
          simp [Item.text]
        rw [htext, readLines, if_pos rfl, hdrop]
        exact ih
      | sample s =>
        have hplain : s.Plain := hitems (.sample s) (by simp)
        obtain ⟨b, bs, hname, hhash⟩ := hplain.name
        have hread := readSample_line hescape hplain (items.flatMap (Item.text escape))
        have htext : Item.text escape (.sample s) ++ items.flatMap (Item.text escape) =
            s.line escape ++ LF :: items.flatMap (Item.text escape) := by
          simp [Item.text]
        have hhead : ∃ text, s.line escape ++ LF :: items.flatMap (Item.text escape) = b :: text := by
          rw [Sample.line, hname]
          exact ⟨_, rfl⟩
        obtain ⟨text, hhead⟩ := hhead
        rw [hhead] at hread
        rw [htext, hhead, readLines, if_neg hhash, hread, Option.bind_some, ih]
        rfl

/-- **What is written is read**, by a writer whose values are. -/
theorem read_items {items : List Item} (hitems : ∀ i ∈ items, i.Plain) :
    read (items.flatMap (Item.text escape)) = some (items.flatMap Item.samples) := by
  refine readLines_items hescape hitems ?_
  clear hitems
  induction items with
  | nil => exact Nat.le_refl _
  | cons i items ih =>
    have hpos : 1 ≤ (Item.text escape i).length := by
      cases i with
      | comment text => simp [Item.text]
      | sample s => simp [Item.text]
    rw [List.flatMap_cons, List.length_append, List.length_cons]
    omega

end RoundTrip

/-! ## Lines -/

/-- A line of a text, its line feed behind it. -/
def HasLine (text line : Bytes) : Prop :=
  LF ∉ line ∧ ∃ front back, text = front ++ line ++ LF :: back ∧
    (front = [] ∨ ∃ front', front = front' ++ [LF])

theorem ends_flatMap (escape : Bytes → Bytes) (items : List Item) :
    items.flatMap (Item.text escape) = [] ∨
      ∃ front, items.flatMap (Item.text escape) = front ++ [LF] := by
  cases List.eq_nil_or_concat items with
  | inl h => exact Or.inl (by rw [h]; rfl)
  | inr h =>
    obtain ⟨items', i, rfl⟩ := h
    have htext : ∃ text, Item.text escape i = text ++ [LF] := by
      cases i with
      | comment text => exact ⟨35 :: text, rfl⟩
      | sample s => exact ⟨_, rfl⟩
    obtain ⟨text, htext⟩ := htext
    refine Or.inr ⟨items'.flatMap (Item.text escape) ++ text, ?_⟩
    rw [List.concat_eq_append, List.flatMap_append, List.flatMap_singleton, htext,
      List.append_assoc]

theorem lf_joinLabels {escape : Bytes → Bytes} (hescape : ∀ value, LF ∉ value → LF ∉ escape value)
    {labels : List (Bytes × Bytes)} (hlabels : ∀ l ∈ labels, LF ∉ l.1 ∧ LF ∉ l.2) :
    LF ∉ joinLabels escape labels := by
  have hlabel : ∀ l ∈ labels, LF ∉ labelText escape l := by
    intro l hl
    obtain ⟨hkey, hvalue⟩ := hlabels l hl
    have hequals : LF ≠ 61 := by decide
    have hquote : LF ≠ 34 := by decide
    simp only [labelText, List.mem_append, List.mem_cons, List.not_mem_nil, or_false, not_or]
    exact ⟨hkey, hequals, hquote, hescape l.2 hvalue, hquote⟩
  induction labels with
  | nil => exact List.not_mem_nil
  | cons label labels ih =>
    have ih := ih (fun l hl => hlabels l (List.mem_cons_of_mem _ hl))
      fun l hl => hlabel l (List.mem_cons_of_mem _ hl)
    have hfirst := hlabel label List.mem_cons_self
    cases labels with
    | nil => exact hfirst
    | cons label' labels =>
      rw [joinLabels]
      · refine List.not_mem_append hfirst fun h => ?_
        rcases List.mem_cons.mp h with h | h
        · exact absurd h (by decide)
        · exact ih h
      · nofun

theorem lf_line {escape : Bytes → Bytes} (hescape : ∀ value, LF ∉ value → LF ∉ escape value)
    {s : Sample} (hs : s.Plain) (hlabels : ∀ l ∈ s.labels, LF ∉ l.1 ∧ LF ∉ l.2) :
    LF ∉ s.line escape := by
  have hname : LF ∉ s.name := fun h => absurd (hs.inName LF h) (by decide)
  have htext : LF ∉ labelsText escape s.labels := by
    have hjoin := lf_joinLabels hescape hlabels
    unfold labelsText
    split
    · exact List.not_mem_nil
    · have hopen : LF ≠ 123 := by decide
      have hclose : LF ≠ 125 := by decide
      simp only [List.mem_append, List.mem_cons, List.not_mem_nil, or_false, not_or]
      exact ⟨hopen, hjoin, hclose⟩
  refine List.not_mem_append (List.not_mem_append hname htext) fun h => ?_
  rcases List.mem_cons.mp h with h | h
  · exact absurd h (by decide)
  · exact hs.value h

/-- A sample that has no line feed in it is a line. -/
theorem line_of_mem {escape : Bytes → Bytes} {items : List Item} {s : Sample}
    (hs : Item.sample s ∈ items) (hline : LF ∉ s.line escape) :
    HasLine (items.flatMap (Item.text escape)) (s.line escape) := by
  obtain ⟨before, after, rfl⟩ := List.append_of_mem hs
  refine ⟨hline, before.flatMap (Item.text escape), after.flatMap (Item.text escape), ?_,
    ends_flatMap escape before⟩
  rw [List.flatMap_append, List.flatMap_cons]
  simp [Item.text]

end Exposition
end UrlShortener
