import UrlShortener.Base.JsonRoundTrip

/-!
# UrlShortener.Base.JsonDump

What `dump` writes is read back as an object with the same fields.
-/

namespace UrlShortener
namespace JsonText

open Json (dump dumpFields dumpString dumpValue isPlain)

theorem scan_null (d : Dialect) (rest : Bytes) :
    scan d (ascii "null" ++ rest) = (.literalNull, rest) := by
  have htext : ascii "null" = [0x6E, 0x75, 0x6C, 0x6C] := by decide
  have hliterals : literals = [([0x74, 0x72, 0x75, 0x65], .literalTrue),
    ([0x66, 0x61, 0x6C, 0x73, 0x65], .literalFalse), ([0x6E, 0x75, 0x6C, 0x6C], .literalNull)] := by
    decide
  have hpunctuation : punctuation 0x6E = none := rfl
  rw [htext, List.cons_append, scan_cons d (by decide) (by decide), scanToken, hpunctuation, words,
    hliterals]
  simp [scanWord, stripWord]

/-- How a field of `dump` is read. -/
def fieldToken : Option Bytes → Token
  | none => .literalNull
  | some s => .string s

def fieldValue : Option Bytes → Value
  | none => .null
  | some s => .string s

def fieldPair (f : Bytes × Option Bytes) : Bytes × Value := (f.1, fieldValue f.2)

def fieldMember (f : Bytes × Option Bytes) : Member :=
  ⟨f.1, (dumpValue f.2).getD [], fieldToken f.2⟩

theorem fieldMember_readable (d : Dialect) {f : Bytes × Option Bytes} {text : Bytes}
    (hkey : f.1.all isPlain = true) (hvalue : dumpValue f.2 = some text) :
    (fieldMember f).Readable d := by
  refine ⟨Json.dumpString_plain hkey, fun b rest _ => ?_⟩
  obtain ⟨key, v⟩ := f
  rw [fieldMember, hvalue]
  cases v with
  | none =>
    cases hvalue
    exact scan_null d _
  | some s => exact scan_string d hvalue _

/-- The text of the fields is that of their members. -/
theorem dumpFields_members {fields : List (Bytes × Option Bytes)} {text : Bytes}
    (hkeys : ∀ f ∈ fields, f.1.all isPlain = true) (h : dumpFields fields = some text) :
    text = membersText (fields.map fieldMember) ∧
      ∀ f ∈ fields, ∃ written, dumpValue f.2 = some written := by
  induction fields generalizing text with
  | nil =>
    cases h
    exact ⟨rfl, by simp⟩
  | cons f fields ih =>
    obtain ⟨key, v⟩ := f
    have hkey : dumpString key = some (ascii "\"" ++ key ++ ascii "\"") :=
      Json.dumpString_plain (hkeys _ List.mem_cons_self)
    have hquote : ascii "\":" = ascii "\"" ++ ascii ":" := by decide
    cases fields with
    | nil =>
      simp only [dumpFields, hkey, Option.bind_eq_bind, Option.bind_some, Option.bind_eq_some_iff]
        at h
      obtain ⟨written, hv, h⟩ := h
      cases h
      refine ⟨?_, by simp [hv]⟩
      simp [membersText, Member.written, fieldMember, hv, hquote]
    | cons f' fields =>
      simp only [dumpFields, hkey, Option.bind_eq_bind, Option.bind_some, Option.bind_eq_some_iff]
        at h
      obtain ⟨written, hv, more, hmore, h⟩ := h
      cases h
      obtain ⟨rfl, hrest⟩ := ih (fun f hf => hkeys f (List.mem_cons_of_mem _ hf)) hmore
      refine ⟨?_, List.forall_mem_cons.mpr ⟨⟨written, hv⟩, hrest⟩⟩
      simp [membersText, Member.written, fieldMember, hv, hquote]

/-- **What `dump` writes is read back**, in any dialect and with any trap that lets strings and
nulls pass. -/
theorem read_dump {E : Type} {d : Dialect} {trap : Nat → Token → Option E}
    {fields : List (Bytes × Option Bytes)} {text : Bytes} (h : dump fields = some text)
    (hne : fields ≠ []) (hkeys : ∀ f ∈ fields, f.1.all isPlain = true)
    (hnodup : (fields.map Prod.fst).Nodup) (hopen : trap 0 .beginObject = none)
    (hfree : ∀ v, trap 1 (fieldToken v) = none) :
    read d trap text = .ok (.object (fields.map fieldPair)) := by
  obtain ⟨body, hbody, htext⟩ := Option.bind_eq_some_iff.mp h
  cases htext
  obtain ⟨rfl, hvalues⟩ := dumpFields_members hkeys hbody
  have hreadable : ∀ m ∈ fields.map fieldMember, m.Readable d := by
    intro m hm
    obtain ⟨f, hf, rfl⟩ := List.mem_map.mp hm
    obtain ⟨written, hv⟩ := hvalues f hf
    exact fieldMember_readable d (hkeys f hf) hv
  have hscalars : (fields.map fieldMember).map (fun m => scalar m.token) =
      (fields.map fun f => fieldValue f.2).map some := by
    rw [List.map_map, List.map_map]
    refine List.map_congr_left fun f _ => ?_
    obtain ⟨key, v⟩ := f
    cases v with
    | none => rfl
    | some s => rfl
  have hread := read_object (d := d) (by simpa using hne) hreadable hscalars hopen
    (by
      intro m hm
      obtain ⟨f, -, rfl⟩ := List.mem_map.mp hm
      exact hfree f.2)
  have hzip : ((fields.map fieldMember).map Member.key).zip (fields.map fun f => fieldValue f.2) =
      fields.map fieldPair := by
    rw [List.map_map, List.zip_map']
    rfl
  have hfields : (([] ++ fields.map fieldPair).map Prod.fst).Nodup := by
    rw [List.nil_append, List.map_map]
    exact hnodup
  rw [hzip, addMembers_eq hfields] at hread
  exact hread

end JsonText
end UrlShortener
