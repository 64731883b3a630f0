import UrlShortener.Base.JsonBroken
import UrlShortener.Handler.Access
import UrlShortener.Handler.Datetime

/-!
# UrlShortener.Handler.AccessLines

What a reader of the access log gets from a line. `json_escape` knows the quote, the backslash and
three control characters; the others go into the line as they are, and no reader of JSON takes them
there. `access_line_decodes_iff`: a line gives back what it was made of exactly if there are none.
-/

namespace UrlShortener
namespace Handler

open Http (HttpConn HttpRequest)
open JsonText (Member Value)
open Observability (Occasion StructuredLogger accessLine escapeByte escapeByte_cases escapes jsonEscape)

/-! ## The fields around the texts -/

/-- `now_iso8601`, on the fields of `localtime` and the milliseconds of the clock. -/
def nowIso8601 (t : DateTime) (millis : Nat) : Bytes :=
  toDecimal t.year ++ 45 :: (padded 2 t.month ++ 45 :: (padded 2 t.day ++ 84 :: (padded 2 t.hour ++
    58 :: (padded 2 t.minute ++ 58 :: (padded 2 t.second ++ 46 :: padded 3 (millis % 1000))))))

/-- `std::fixed << std::setprecision(3)`, on a duration in thousandths of a millisecond. -/
def fixed3 (thousandths : Nat) : Bytes :=
  JsonText.decimalText (thousandths / 1000) (padded 3 (thousandths % 1000))

/-- When a request was served, how long it took and for whom. -/
structure Moment where
  now : DateTime
  millis : Nat
  thousandths : Nat
  remoteAddr : Bytes

def Moment.occasion (m : Moment) : Occasion where
  ts := nowIso8601 m.now m.millis
  durationMs := fixed3 m.thousandths
  remoteAddr := m.remoteAddr

/-! ## The property and its condition -/

/-- The texts that a line shows, under their keys. -/
def shown (m : Moment) (req : HttpRequest) : List (Bytes × Bytes) :=
  [(ascii "method", req.method), (ascii "path", req.path), (ascii "route", req.routePattern),
    (ascii "remote_addr", m.remoteAddr),
    (ascii "user_agent", req.headerOrEmpty (ascii "User-Agent"))]

/-- A control character that `json_escape` lets through. -/
def Raw (b : UInt8) : Prop := b < 0x20 ∧ b ≠ 10 ∧ b ≠ 13 ∧ b ≠ 9

/-- The line is a JSON object, and gives back each of the texts under its key. -/
def Decodes (d : JsonText.Dialect) (line : Bytes) (texts : List (Bytes × Bytes)) : Prop :=
  ∃ fields, JsonText.read d (fun _ _ => (none : Option Empty)) line = .ok (.object fields) ∧
    ∀ f ∈ texts, (Value.object fields).lookup f.1 = some (.string f.2)

/-- The line ends with its only line feed. -/
def OneLine (line : Bytes) : Prop := ∃ text, line = text ++ [LF] ∧ LF ∉ text

/-! ## A line as an object -/

/-- A member that `log_access` escapes. -/
def textMember (key : String) (s : Bytes) : Member :=
  ⟨ascii key, ascii "\"" ++ jsonEscape s ++ ascii "\"", .string s⟩

def lineMembers (m : Moment) (req : HttpRequest) (status : Int) : List Member :=
  [textMember "ts" (nowIso8601 m.now m.millis),
    textMember "event" (ascii "http_access"),
    textMember "method" req.method,
    textMember "path" req.path,
    textMember "route" req.routePattern,
    ⟨ascii "status", toDecimalInt status,
      .number (JsonText.integer (decide (status < 0)) status.natAbs)⟩,
    ⟨ascii "duration_ms", fixed3 m.thousandths,
      .number (JsonText.decimal false (m.thousandths / 1000) (padded 3 (m.thousandths % 1000)))⟩,
    textMember "remote_addr" m.remoteAddr,
    textMember "user_agent" (req.headerOrEmpty (ascii "User-Agent"))]

/-- The keys of a line. -/
def lineKeys : List String :=
  ["ts", "event", "method", "path", "route", "status", "duration_ms", "remote_addr", "user_agent"]

theorem lineKeys_plain : ∀ key ∈ lineKeys, (ascii key).all Json.isPlain = true := by
  simp only [lineKeys, List.forall_mem_cons]
  repeat rw [ascii_ofList]
  decide +kernel

theorem dumpString_key {key : String} (hkey : key ∈ lineKeys) :
    Json.dumpString (ascii key) = some (ascii "\"" ++ ascii key ++ ascii "\"") :=
  Json.dumpString_plain (lineKeys_plain key hkey)

/-- The bytes of digits and of the signs between them. -/
def Between (b : UInt8) : Prop := 0x2D ≤ b ∧ b < 0x5C

theorem Digits.between {n : Nat} {s : Bytes} (h : Digits n s) : ∀ b ∈ s, Between b := by
  intro b hb
  obtain ⟨h1, h2⟩ := h.digit b hb
  exact ⟨UInt8.le_trans (by decide) h1, UInt8.lt_of_le_of_lt h2 (by decide)⟩

theorem nowIso8601_between (t : DateTime) (millis : Nat) :
    ∀ b ∈ nowIso8601 t millis, Between b := by
  intro b hb
  simp only [nowIso8601, List.mem_append, List.mem_cons] at hb
  rcases hb with hb | rfl | hb | rfl | hb | rfl | hb | rfl | hb | rfl | hb | rfl | hb
  · exact (toDecimal_digits _).between b hb
  · exact ⟨by decide, by decide⟩
  · exact (padded_digits _ _).between b hb
  · exact ⟨by decide, by decide⟩
  · exact (padded_digits _ _).between b hb
  · exact ⟨by decide, by decide⟩
  · exact (padded_digits _ _).between b hb
  · exact ⟨by decide, by decide⟩
  · exact (padded_digits _ _).between b hb
  · exact ⟨by decide, by decide⟩
  · exact (padded_digits _ _).between b hb
  · exact ⟨by decide, by decide⟩
  · exact (padded_digits _ _).between b hb

theorem jsonEscape_between {s : Bytes} (h : ∀ b ∈ s, Between b) : jsonEscape s = s := by
  induction s with
  | nil => rfl
  | cons b s ih =>
    have hb := h b (by simp)
    have hplain : ∀ e ∈ escapes, ¬ Between e.1 := by
      unfold Between
      exact List.all_iff_forall_prop.mp (by decide)
    have hone : escapeByte b = [b] := by
      rcases escapeByte_cases b with ⟨e, he, heq, -⟩ | ⟨-, heq⟩
      · exact absurd (heq ▸ hb) (hplain e he)
      · exact heq
    have ih : jsonEscape s = s := ih fun c hc => h c (by simp [hc])
    calc jsonEscape (b :: s) = escapeByte b ++ jsonEscape s := rfl
      _ = b :: s := by rw [hone, ih]; rfl

theorem accessLine_eq (m : Moment) (req : HttpRequest) (status : Int) :
    accessLine m.occasion req status =
      JsonText.objectText (lineMembers m req status) ++ [LF] := by
  have hnow := jsonEscape_between (nowIso8601_between m.now m.millis)
  obtain ⟨hmethod, hpath, hroute, hstatus, hduration⟩ :
      ascii "\"method\":\"" = ascii "\"" ++ ascii "method" ++ ascii "\":" ++ ascii "\"" ∧
      ascii "\"path\":\"" = ascii "\"" ++ ascii "path" ++ ascii "\":" ++ ascii "\"" ∧
      ascii "\"route\":\"" = ascii "\"" ++ ascii "route" ++ ascii "\":" ++ ascii "\"" ∧
      ascii "\"status\":" = ascii "\"" ++ ascii "status" ++ ascii "\":" ∧
      ascii "\"duration_ms\":" = ascii "\"" ++ ascii "duration_ms" ++ ascii "\":" := by
    repeat rw [ascii_ofList]
    exact ⟨rfl, rfl, rfl, rfl, rfl⟩
  obtain ⟨hts, haddr, hagent⟩ :
      ascii "\"ts\":\"" = ascii "\"" ++ ascii "ts" ++ ascii "\":" ++ ascii "\"" ∧
      ascii "\"remote_addr\":\"" =
        ascii "\"" ++ ascii "remote_addr" ++ ascii "\":" ++ ascii "\"" ∧
      ascii "\"user_agent\":\"" =
        ascii "\"" ++ ascii "user_agent" ++ ascii "\":" ++ ascii "\"" := by
    repeat rw [ascii_ofList]
    exact ⟨rfl, rfl, rfl⟩
  have hevent : ascii "\"event\":\"http_access\"," = ascii "\"" ++ ascii "event" ++
      ascii "\":" ++ ascii "\"" ++ jsonEscape (ascii "http_access") ++ ascii "\"" ++ ascii "," := by
    repeat rw [ascii_ofList]
    rfl
  have hcomma : ascii "\"," = ascii "\"" ++ ascii "," := by decide
  have hend : ascii "\x7d\n" = ascii "\x7d" ++ [LF] := by decide
  unfold accessLine
  simp only [Moment.occasion, JsonText.objectText, lineMembers, JsonText.membersText,
    Member.written, textMember, hnow, hts, hevent, hmethod, hpath, hroute, hstatus, hduration,
    haddr, hagent, hcomma, hend, List.append_assoc]

/-! ## One line -/

theorem lf_jsonEscape (s : Bytes) : LF ∉ jsonEscape s := by
  induction s with
  | nil => exact List.not_mem_nil
  | cons b s ih =>
    have hone : LF ∉ escapeByte b := by
      rcases escapeByte_cases b with ⟨e, he, -, heq⟩ | ⟨hne, heq⟩
      · have hall : ∀ e ∈ escapes, LF ∉ [92, e.2] :=
          List.all_iff_forall_prop.mp (by decide)
        rw [heq]
        exact hall e he
      · have hlf : b ≠ LF := hne (10, 110) (by decide)
        rw [heq]
        exact fun h => hlf (List.mem_singleton.mp h).symm
    show LF ∉ escapeByte b ++ jsonEscape s
    exact List.not_mem_append hone ih

theorem lf_toDecimalInt (n : Int) : LF ∉ toDecimalInt n := by
  have hdecimal : ∀ k, LF ∉ toDecimal k := fun k h =>
    absurd (JsonText.toDecimal_isDigit k LF h) (by decide)
  unfold toDecimalInt
  split
  · exact List.not_mem_append (by decide) (hdecimal _)
  · exact hdecimal _

theorem lf_fixed3 (n : Nat) : LF ∉ fixed3 n := by
  have hwhole : LF ∉ toDecimal (n / 1000) := fun h =>
    absurd (JsonText.toDecimal_isDigit _ LF h) (by decide)
  have hfraction : LF ∉ padded 3 (n % 1000) := fun h =>
    absurd ((padded_digits _ _).between LF h) (by unfold Between; decide)
  exact List.not_mem_append hwhole fun h => by
    rcases List.mem_cons.mp h with h | h
    · exact absurd h (by decide)
    · exact hfraction h

theorem lf_objectText {ms : List Member} (h : ∀ m ∈ ms, LF ∉ m.key ∧ LF ∉ m.text) :
    LF ∉ JsonText.objectText ms := by
  have hwritten : ∀ m ∈ ms, LF ∉ m.written := by
    intro m hm
    obtain ⟨hkey, htext⟩ := h m hm
    have hquoted : LF ∉ ascii "\"" ++ m.key ++ ascii "\":" :=
      List.not_mem_append (List.not_mem_append (by decide) hkey) (by decide)
    exact List.not_mem_append hquoted htext
  have hmembers : LF ∉ JsonText.membersText ms := by
    clear h
    induction ms with
    | nil => exact List.not_mem_nil
    | cons m ms ih =>
      cases ms with
      | nil => exact hwritten m (by simp)
      | cons m' ms =>
        rw [JsonText.membersText]
        · exact List.not_mem_append (List.not_mem_append (hwritten m (by simp)) (by decide))
            (ih fun m hm => hwritten m (by simp [hm]))
        · exact List.cons_ne_nil m' ms
  exact List.not_mem_append (List.not_mem_append (by decide) hmembers) (by decide)

theorem lf_key {key : String} (hkey : key ∈ lineKeys) : LF ∉ ascii key := fun hlf =>
  absurd (List.all_eq_true.mp (lineKeys_plain key hkey) LF hlf) (by decide)

theorem textMember_lf {key : String} (hkey : key ∈ lineKeys) (s : Bytes) :
    LF ∉ (textMember key s).key ∧ LF ∉ (textMember key s).text :=
  ⟨lf_key hkey, List.not_mem_append (List.not_mem_append (by decide) (lf_jsonEscape s)) (by decide)⟩

theorem accessLine_oneLine (m : Moment) (req : HttpRequest) (status : Int) :
    OneLine (accessLine m.occasion req status) := by
  refine ⟨_, accessLine_eq m req status, lf_objectText fun mem hmem => ?_⟩
  have hstatus : LF ∉ ascii "status" := lf_key (by simp [lineKeys])
  have hduration : LF ∉ ascii "duration_ms" := lf_key (by simp [lineKeys])
  simp only [lineMembers, List.mem_cons, List.not_mem_nil, or_false] at hmem
  rcases hmem with rfl | rfl | rfl | rfl | rfl | rfl | rfl | rfl | rfl
  · exact textMember_lf (by simp [lineKeys]) _
  · exact textMember_lf (by simp [lineKeys]) _
  · exact textMember_lf (by simp [lineKeys]) _
  · exact textMember_lf (by simp [lineKeys]) _
  · exact textMember_lf (by simp [lineKeys]) _
  · exact ⟨hstatus, lf_toDecimalInt status⟩
  · exact ⟨hduration, lf_fixed3 _⟩
  · exact textMember_lf (by simp [lineKeys]) _
  · exact textMember_lf (by simp [lineKeys]) _

/-! ## What a reader gets -/

theorem escapeByte_copies : JsonText.Copies escapeByte Raw where
  control := fun b h => h.1
  copied := by
    rintro b ⟨hlt, h10, h13, h9⟩
    have hslash : b ≠ 92 := by
      rintro rfl
      revert hlt
      decide
    have hquote : b ≠ 34 := by
      rintro rfl
      revert hlt
      decide
    simp only [escapeByte, if_neg hslash, if_neg hquote, if_neg h10, if_neg h13, if_neg h9]
  escaped := by
    intro b h
    by_cases hcontrol : b < 0x20
    · have hknown : b = 10 ∨ b = 13 ∨ b = 9 := by
        by_contra hnone
        rw [not_or, not_or] at hnone
        exact h ⟨hcontrol, hnone⟩
      rcases hknown with rfl | rfl | rfl
      · decide
      · decide
      · decide
    · have hne : ∀ c : UInt8, c < 0x20 → b ≠ c := by
        rintro c hc rfl
        exact hcontrol hc
      have hle : ¬ b ≤ 0x1F := fun hle =>
        hcontrol (UInt8.lt_of_le_of_lt hle (by decide))
      simp only [escapeByte, Json.escape, if_neg (hne 8 (by decide)), if_neg (hne 9 (by decide)),
        if_neg (hne 10 (by decide)), if_neg (hne 12 (by decide)), if_neg (hne 13 (by decide)),
        if_neg hle]
      by_cases hslash : b = 92
      · subst hslash
        decide
      · by_cases hquote : b = 34
        · subst hquote
          decide
        · simp only [if_neg hslash, if_neg hquote]

section Reading

variable {d : JsonText.Dialect} {m : Moment} {req : HttpRequest} {status : Int}

theorem textMember_readable {key : String} {s : Bytes} (hkey : key ∈ lineKeys)
    (hs : Json.utf8Valid s = true) (hraw : ∀ b ∈ s, ¬ Raw b) : (textMember key s).Readable d :=
  ⟨dumpString_key hkey, fun _ _ _ => escapeByte_copies.scan_string d hs hraw _⟩

theorem textMember_broken {key : String} {s : Bytes} (hkey : key ∈ lineKeys)
    (hs : Json.utf8Valid s = true) (hraw : ∃ b ∈ s, Raw b) : (textMember key s).Broken d :=
  ⟨dumpString_key hkey, fun rest => escapeByte_copies.scan_broken d hs hraw rest⟩

theorem textMember_known {key : String} {s : Bytes} (hkey : key ∈ lineKeys)
    (hs : Json.utf8Valid s = true) :
    (textMember key s).Known d (fun _ _ => (none : Option Empty)) := by
  by_cases hraw : ∃ b ∈ s, Raw b
  · exact Or.inr (textMember_broken hkey hs hraw)
  · have hreadable : (textMember key s).Readable d :=
      textMember_readable hkey hs fun b hb hr => hraw ⟨b, hb, hr⟩
    exact Or.inl ⟨hreadable, ⟨_, rfl⟩, fun _ => rfl⟩

theorem status_readable (n : Int) : (⟨ascii "status", toDecimalInt n,
    .number (JsonText.integer (decide (n < 0)) n.natAbs)⟩ : Member).Readable d := by
  refine ⟨dumpString_key (by simp [lineKeys]), fun b rest hb => ?_⟩
  show JsonText.scan d (toDecimalInt n ++ b :: rest) = _
  rw [JsonText.toDecimalInt_eq]
  exact JsonText.scan_integer d _ _ hb

theorem duration_readable (n : Nat) : (⟨ascii "duration_ms", fixed3 n,
    .number (JsonText.decimal false (n / 1000) (padded 3 (n % 1000)))⟩ : Member).Readable d := by
  refine ⟨dumpString_key (by simp [lineKeys]), fun b rest hb => ?_⟩
  have hdigits := padded_digits 3 (n % 1000)
  have hne : padded 3 (n % 1000) ≠ [] := List.ne_nil_of_length_eq_add_one hdigits.length
  exact JsonText.scan_decimalText d (n / 1000) hne hdigits.isDigit hb

theorem between_valid {s : Bytes} (h : ∀ b ∈ s, Between b) : Json.utf8Valid s = true :=
  Json.utf8Valid_of_ascii fun b hb => UInt8.lt_trans (h b hb).2 (by decide)

theorem between_not_raw {s : Bytes} (h : ∀ b ∈ s, Between b) : ∀ b ∈ s, ¬ Raw b :=
  fun b hb hraw => absurd (UInt8.lt_of_lt_of_le hraw.1 (UInt8.le_trans (by decide) (h b hb).1))
    (UInt8.lt_irrefl b)

/-- The texts are UTF-8. -/
def Utf8 (texts : List (Bytes × Bytes)) : Prop := ∀ f ∈ texts, Json.utf8Valid f.2 = true

/-- All control characters in the texts are among those that are escaped. -/
def NoneRaw (texts : List (Bytes × Bytes)) : Prop := ∀ f ∈ texts, ∀ b ∈ f.2, ¬ Raw b

theorem event_valid : Json.utf8Valid (ascii "http_access") = true := by
  rw [ascii_ofList]
  decide

theorem event_not_raw : ∀ b ∈ ascii "http_access", ¬ Raw b := by
  rw [ascii_ofList]
  unfold Raw
  exact List.all_iff_forall_prop.mp (by decide)

/-- The fields of a line. -/
def lineFields (m : Moment) (req : HttpRequest) (status : Int) : List (Bytes × Value) :=
  [(ascii "ts", .string (nowIso8601 m.now m.millis)),
    (ascii "event", .string (ascii "http_access")),
    (ascii "method", .string req.method),
    (ascii "path", .string req.path),
    (ascii "route", .string req.routePattern),
    (ascii "status", .number (JsonText.integer (decide (status < 0)) status.natAbs)),
    (ascii "duration_ms",
      .number (JsonText.decimal false (m.thousandths / 1000) (padded 3 (m.thousandths % 1000)))),
    (ascii "remote_addr", .string m.remoteAddr),
    (ascii "user_agent", .string (req.headerOrEmpty (ascii "User-Agent")))]

theorem lineFields_nodup (m : Moment) (req : HttpRequest) (status : Int) :
    ((lineFields m req status).map Prod.fst).Nodup := by
  show [ascii "ts", ascii "event", ascii "method", ascii "path", ascii "route", ascii "status",
    ascii "duration_ms", ascii "remote_addr", ascii "user_agent"].Nodup
  repeat rw [ascii_ofList]
  decide +kernel

theorem read_line (hutf8 : Utf8 (shown m req)) (hraw : NoneRaw (shown m req)) :
    JsonText.read d (fun _ _ => (none : Option Empty)) (accessLine m.occasion req status) =
      .ok (.object (lineFields m req status)) := by
  have hts := nowIso8601_between m.now m.millis
  have hreadable : ∀ mem ∈ lineMembers m req status, mem.Readable d := by
    simp only [Utf8, NoneRaw, shown, List.forall_mem_cons] at hutf8 hraw
    obtain ⟨h1, h2, h3, h4, h5, -⟩ := hutf8
    obtain ⟨r1, r2, r3, r4, r5, -⟩ := hraw
    intro mem hmem
    simp only [lineMembers, List.mem_cons, List.not_mem_nil, or_false] at hmem
    rcases hmem with rfl | rfl | rfl | rfl | rfl | rfl | rfl | rfl | rfl
    · exact textMember_readable (by simp [lineKeys]) (between_valid hts) (between_not_raw hts)
    · exact textMember_readable (by simp [lineKeys]) event_valid event_not_raw
    · exact textMember_readable (by simp [lineKeys]) h1 r1
    · exact textMember_readable (by simp [lineKeys]) h2 r2
    · exact textMember_readable (by simp [lineKeys]) h3 r3
    · exact status_readable status
    · exact duration_readable m.thousandths
    · exact textMember_readable (by simp [lineKeys]) h4 r4
    · exact textMember_readable (by simp [lineKeys]) h5 r5
  have hvalues : (lineMembers m req status).map (fun mem => JsonText.scalar mem.token) =
      ((lineFields m req status).map Prod.snd).map some := rfl
  have hne : lineMembers m req status ≠ [] := List.cons_ne_nil _ _
  have hend : (JsonText.scan d [LF]).1 = .endOfInput := rfl
  have hread : JsonText.read d (fun _ _ => (none : Option Empty))
      (JsonText.objectText (lineMembers m req status) ++ [LF]) = _ :=
    JsonText.read_object_spaced hne hreadable hvalues rfl (fun _ _ => rfl) hend
  have hfields : JsonText.addMembers [] (lineFields m req status) = lineFields m req status :=
    JsonText.addMembers_eq (lineFields_nodup m req status)
  rw [accessLine_eq, ← hfields]
  exact hread

theorem read_line_broken (hutf8 : Utf8 (shown m req))
    (hraw : ∃ f ∈ shown m req, ∃ b ∈ f.2, Raw b) :
    JsonText.read d (fun _ _ => (none : Option Empty)) (accessLine m.occasion req status) =
      .error .malformed := by
  have hts := nowIso8601_between m.now m.millis
  have hknown : ∀ mem ∈ lineMembers m req status,
      mem.Known d (fun _ _ => (none : Option Empty)) := by
    simp only [Utf8, shown, List.forall_mem_cons] at hutf8
    obtain ⟨h1, h2, h3, h4, h5, -⟩ := hutf8
    intro mem hmem
    simp only [lineMembers, List.mem_cons, List.not_mem_nil, or_false] at hmem
    rcases hmem with rfl | rfl | rfl | rfl | rfl | rfl | rfl | rfl | rfl
    · exact textMember_known (by simp [lineKeys]) (between_valid hts)
    · exact textMember_known (by simp [lineKeys]) event_valid
    · exact textMember_known (by simp [lineKeys]) h1
    · exact textMember_known (by simp [lineKeys]) h2
    · exact textMember_known (by simp [lineKeys]) h3
    · exact Or.inl ⟨status_readable status, ⟨_, rfl⟩, fun _ => rfl⟩
    · exact Or.inl ⟨duration_readable m.thousandths, ⟨_, rfl⟩, fun _ => rfl⟩
    · exact textMember_known (by simp [lineKeys]) h4
    · exact textMember_known (by simp [lineKeys]) h5
  have hbroken : ∃ mem ∈ lineMembers m req status, mem.Broken d := by
    obtain ⟨f, hf, hb⟩ := hraw
    have hvalid := hutf8 f hf
    simp only [shown, List.mem_cons, List.not_mem_nil, or_false] at hf
    rcases hf with rfl | rfl | rfl | rfl | rfl
    · exact ⟨textMember "method" _, by simp [lineMembers],
        textMember_broken (by simp [lineKeys]) hvalid hb⟩
    · exact ⟨textMember "path" _, by simp [lineMembers],
        textMember_broken (by simp [lineKeys]) hvalid hb⟩
    · exact ⟨textMember "route" _, by simp [lineMembers],
        textMember_broken (by simp [lineKeys]) hvalid hb⟩
    · exact ⟨textMember "remote_addr" _, by simp [lineMembers],
        textMember_broken (by simp [lineKeys]) hvalid hb⟩
    · exact ⟨textMember "user_agent" _, by simp [lineMembers],
        textMember_broken (by simp [lineKeys]) hvalid hb⟩
  rw [accessLine_eq]
  exact JsonText.read_broken hknown hbroken rfl (fun _ => rfl) _

theorem lookup_shown : ∀ f ∈ shown m req,
    (Value.object (lineFields m req status)).lookup f.1 = some (.string f.2) := by
  intro f hf
  refine JsonText.lookup_of_mem (lineFields_nodup m req status) ?_
  simp only [shown, List.mem_cons, List.not_mem_nil, or_false] at hf
  rcases hf with rfl | rfl | rfl | rfl | rfl
  · simp [lineFields]
  · simp [lineFields]
  · simp [lineFields]
  · simp [lineFields]
  · simp [lineFields]

theorem not_decodes (hutf8 : Utf8 (shown m req)) (hraw : ∃ f ∈ shown m req, ∃ b ∈ f.2, Raw b) :
    ¬ Decodes d (accessLine m.occasion req status) (shown m req) := by
  rintro ⟨fields, hread, -⟩
  rw [read_line_broken hutf8 hraw] at hread
  cases hread

end Reading

/-- **Lines decode back.** What `log_access` puts into the queue is one line. Read as JSON it is an
object with the texts that it was made of, exactly if no control character among them is let
through; this is so for every reader. -/
theorem access_line_decodes_iff (d : JsonText.Dialect) (l : StructuredLogger) (m : Moment)
    (req : HttpRequest) (status : Int) (line : Bytes)
    (hline : (l.logAccess m.occasion req status).queue = l.queue ++ [line])
    (hutf8 : Utf8 (shown m req)) :
    OneLine line ∧ (Decodes d line (shown m req) ↔ NoneRaw (shown m req)) := by
  have heq : line = accessLine m.occasion req status := by
    by_cases htakes : l.Takes
    · rw [StructuredLogger.logAccess_takes htakes] at hline
      have htail := List.append_cancel_left hline
      exact (List.singleton_inj.mp htail).symm
    · rw [StructuredLogger.logAccess_drops htakes] at hline
      have hlen := congrArg List.length hline
      simp at hlen
  rw [heq]
  refine ⟨accessLine_oneLine m req status, ?_, ?_⟩
  · intro hdecodes f hf b hb hraw
    exact not_decodes hutf8 ⟨f, hf, b, hb, hraw⟩ hdecodes
  · intro hraw
    exact ⟨_, read_line hutf8 hraw, lookup_shown⟩

/-- Noon, a tenth of a millisecond, for a client on the same host. -/
def atNoon : Moment where
  now := ⟨2026, 1, 1, 12, 0, 0⟩
  millis := 0
  thousandths := 100
  remoteAddr := ascii "127.0.0.1"

/-- What comes of `GET /health` with this `User-Agent`. -/
def healthFrom (userAgent : Bytes) : HttpRequest where
  method := ascii "GET"
  path := ascii "/health"
  routePattern := ascii "/health"
  headers := AList.insert (ascii "User-Agent") userAgent ∅

/-- A quote and a tab are no trouble. -/
theorem access_line_decodes_iff_quoted :
    ∃ line, OneLine line ∧ Decodes nlohmann line (shown atNoon (healthFrom (ascii "a\tb\""))) := by
  have htakes : Server.roomy.logger.Takes := ⟨rfl, by decide +kernel, rfl, by decide +kernel⟩
  have hlogger := StructuredLogger.logAccess_takes htakes atNoon.occasion
    (healthFrom (ascii "a\tb\"")) 200
  have hutf8 : Utf8 (shown atNoon (healthFrom (ascii "a\tb\""))) := by
    unfold Utf8
    decide +kernel
  have hraw : NoneRaw (shown atNoon (healthFrom (ascii "a\tb\""))) := by
    unfold NoneRaw Raw
    decide +kernel
  obtain ⟨hone, hiff⟩ := access_line_decodes_iff nlohmann Server.roomy.logger atNoon
    (healthFrom (ascii "a\tb\"")) 200 _ (congrArg StructuredLogger.queue hlogger) hutf8
  exact ⟨_, hone, hiff.mpr hraw⟩

/-- These bytes come in on a connection, and `line` is what the queue of the log has got from them:
the line for `req`. -/
def Server.Logs {cfg : Config} (o : Outside) (m : Moment) (s : Server cfg) (chunks : List Bytes)
    (req : HttpRequest) (status : Int) (line : Bytes) : Prop :=
  ∃ r, s.arrive o m.occasion (HttpConn.init {}) chunks = some r ∧
    accessed (table o : List (Http.Route (Server cfg))) r.2.1 r.2.2.2 = some (req, status) ∧
    r.1.logger.queue = s.logger.queue ++ [line]

/-- A `User-Agent` of one control character. -/
def soh : Bytes :=
  ascii "GET /health HTTP/1.1" ++ CR :: LF :: (ascii "User-Agent: " ++ 1 :: CR :: LF :: [CR, LF])

theorem access_line_spoiled : ¬ ∀ (d : JsonText.Dialect) (o : Outside) (m : Moment)
    (s : Server plainConfig) (chunks : List Bytes) (req : HttpRequest) (status : Int)
    (line : Bytes), s.Logs o m chunks req status line → Utf8 (shown m req) →
      Decodes d line (shown m req) := by
  intro hall
  have hrun : (Server.roomy.arrive quiet atNoon.occasion (HttpConn.init {}) [soh]).map (fun r =>
      ((Server.accessed (Server.table quiet : List (Http.Route (Server plainConfig))) r.2.1
        r.2.2.2).map fun e => shown atNoon e.1, r.1.logger.queue)) =
      some (some (shown atNoon (healthFrom [1])),
        [accessLine atNoon.occasion (healthFrom [1]) 200]) := by
    decide +kernel
  obtain ⟨r, hr, hpair⟩ := Option.map_eq_some_iff.mp hrun
  obtain ⟨haccessed, hqueue⟩ := Prod.mk.inj hpair
  obtain ⟨⟨req, status⟩, hreq, heq⟩ := Option.map_eq_some_iff.mp haccessed
  have heq : shown atNoon req = shown atNoon (healthFrom [1]) := heq
  have hutf8 : Utf8 (shown atNoon (healthFrom [1])) := by
    unfold Utf8
    decide +kernel
  have hraw : ∃ f ∈ shown atNoon (healthFrom [1]), ∃ b ∈ f.2, Raw b := by
    unfold Raw
    decide +kernel
  have hdecodes := hall nlohmann quiet atNoon _ _ _ _ _ ⟨r, hr, hreq, hqueue⟩
  rw [heq] at hdecodes
  exact not_decodes hutf8 hraw (hdecodes hutf8)

end Handler
end UrlShortener
