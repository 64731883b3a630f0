import UrlShortener.Analytics.Worker
import UrlShortener.Base.JsonRoundTrip
import UrlShortener.Consumer.Python
import Mathlib.Data.List.DropRight

/-!
# UrlShortener.Consumer.ClickFormat

One click through producer, consumer and table: the JSON that `build_event_json` writes, what
`parse_event` makes of it, and the row that `insert_event` leaves in `click_event`.

The table is that of `sql/002_click_event.sql` in strict mode. A `VARCHAR(n)` holds `n` characters;
a longer text is refused with 1406, unless only spaces are too many: these are cut off. How MySQL
writes numbers as text and how it compares event ids are parameters.
-/

namespace UrlShortener
namespace Click

open Analytics Http ShortUrl
open JsonText (Member Token Value)

/-! ## The table -/

/-- The characters of a UTF-8 text. -/
def charCount (s : Bytes) : Nat := s.countP fun b => decide (b < 0x80) || decide (0xC0 ≤ b)

/-- What a `VARCHAR(width)` column makes of a text, or the errno. -/
def varchar (width : Nat) (s : Bytes) : Except Int Bytes :=
  if charCount s ≤ width then .ok s
  else
    let trimmed := s.rdropWhile fun b => decide (b = SP)
    if charCount trimmed ≤ width then
      .ok (trimmed ++ List.replicate (width - charCount trimmed) SP)
    else .error 1406

def bigint (n : Int) : Except Int Int :=
  if -2 ^ 63 ≤ n ∧ n < 2 ^ 63 then .ok n else .error 1264

/-- A row of `click_event`; `consumed_at` is left out. -/
structure StoredClick where
  eventId : Bytes
  shortCode : Bytes
  clickedAtMs : Int
  userAgent : Option Bytes
  referer : Option Bytes
  xForwardedFor : Option Bytes
deriving DecidableEq

/-- MySQL's own ways: the text it stores for a parameter, and what it compares of an event id. -/
structure MySql (K : Type) where
  text : Value → Bytes
  text_string : ∀ s, text (.string s) = s
  key : Bytes → K

namespace MySql

variable {K : Type} (db : MySql K)

/-- A `NOT NULL` column. -/
def required (width : Nat) : Value → Except Int Bytes
  | .null => .error 1048
  | v => varchar width (db.text v)

def nullable (width : Nat) : Option Value → Except Int (Option Bytes)
  | none => .ok none
  | some v => (varchar width (db.text v)).map some

def store (row : Row Value) : Except Int StoredClick := do
  return {
    eventId := ← db.required 32 row.eventId
    shortCode := ← db.required 16 row.shortCode
    clickedAtMs := ← bigint row.clickedAtMs
    userAgent := ← db.nullable 512 row.userAgent
    referer := ← db.nullable 1024 row.referer
    xForwardedFor := ← db.nullable 255 row.xForwardedFor }

/-- What the connector can send: no lists and dicts, and text that can be encoded. -/
def sends : Value → Bool
  | .string s => Json.utf8Valid s
  | .array _ => false
  | .object _ => false
  | _ => true

/-- `INSERT ... ON DUPLICATE KEY UPDATE event_id = event_id`. -/
def insert [DecidableEq K] (rows : List StoredClick) (row : Row Value) :
    List StoredClick × Except PyError Unit :=
  if row.parameters.all sends then
    match db.store row with
    | .error errno => (rows, .error (.mysql errno))
    | .ok stored =>
      if db.key stored.eventId ∈ rows.map fun r => db.key r.eventId then (rows, .ok ())
      else (rows ++ [stored], .ok ())
  else (rows, .error (.mysql (-1)))

/-- `insert_event` on that table. -/
def insertEvent [DecidableEq K] (i : Interpreter) (rows : List StoredClick)
    (event : StrMap Value) : List StoredClick × Except PyError Unit :=
  match eventRow i.functions event with
  | .error e => (rows, .error e)
  | .ok row => db.insert rows row

end MySql

/-! ## The payload -/

def quoted (s : Bytes) : Bytes := ascii "\"" ++ s.flatMap Json.escape ++ ascii "\""

/-- A member whose value is a string. -/
def stringMember (key : String) (s : Bytes) : Member := ⟨ascii key, quoted s, .string s⟩

/-- The members of the payload, in its order. -/
def members (event : ClickEvent) : List Member :=
  [⟨ascii "clicked_at_ms", dumpInt event.clickedAtMs,
      .number (JsonText.integer (decide (event.clickedAtMs < 0)) event.clickedAtMs.natAbs)⟩,
    stringMember "event_id" event.eventId,
    stringMember "referer" event.referer,
    stringMember "short_code" event.code,
    stringMember "user_agent" event.userAgent,
    stringMember "x_forwarded_for" event.xForwardedFor]

def eventKeys : List String :=
  ["clicked_at_ms", "event_id", "referer", "short_code", "user_agent", "x_forwarded_for"]

theorem eventKeys_plain : ∀ key ∈ eventKeys, (ascii key).all Json.isPlain = true := by
  simp only [eventKeys, List.forall_mem_cons]
  repeat rw [ascii_ofList]
  decide +kernel

theorem dumpString_key {key : String} (hkey : key ∈ eventKeys) :
    Json.dumpString (ascii key) = some (ascii "\"" ++ ascii key ++ ascii "\"") :=
  Json.dumpString_plain (eventKeys_plain key hkey)

/-- The event's texts are UTF-8, its id included. -/
structure Clean (event : ClickEvent) : Prop where
  eventId : Json.utf8Valid event.eventId = true
  code : Json.utf8Valid event.code = true
  userAgent : Json.utf8Valid event.userAgent = true
  referer : Json.utf8Valid event.referer = true
  xForwardedFor : Json.utf8Valid event.xForwardedFor = true

theorem buildEventJson_eq {event : ClickEvent} (h : Clean event) :
    buildEventJson event = some (JsonText.objectText (members event)) := by
  simp only [buildEventJson, Json.dumpString, if_pos h.eventId, if_pos h.code, if_pos h.userAgent,
    if_pos h.referer, if_pos h.xForwardedFor]
  simp only [Option.pure_def, Option.bind_eq_bind, Option.bind_some, JsonText.objectText, members,
    stringMember, quoted, JsonText.membersText, Member.written, field, List.append_assoc]

/-! ## Reading it back -/

/-- The fields of the event, as `json.loads` returns them. -/
def eventFields (event : ClickEvent) : List (Bytes × Value) :=
  [(ascii "clicked_at_ms",
      .number (JsonText.integer (decide (event.clickedAtMs < 0)) event.clickedAtMs.natAbs)),
    (ascii "event_id", .string event.eventId),
    (ascii "referer", .string event.referer),
    (ascii "short_code", .string event.code),
    (ascii "user_agent", .string event.userAgent),
    (ascii "x_forwarded_for", .string event.xForwardedFor)]

theorem eventFields_nodup (event : ClickEvent) : ((eventFields event).map Prod.fst).Nodup := by
  show [ascii "clicked_at_ms", ascii "event_id", ascii "referer", ascii "short_code",
    ascii "user_agent", ascii "x_forwarded_for"].Nodup
  repeat rw [ascii_ofList]
  decide +kernel

/-- What C++ calls a `long long`. -/
def IsLongLong (n : Int) : Prop := -2 ^ 63 ≤ n ∧ n < 2 ^ 63

theorem integer_size {n : Int} (h : IsLongLong n) (negative : Bool) :
    (JsonText.integer negative n.natAbs).size ≤ 19 := by
  show (toDecimal n.natAbs).length ≤ 19
  rw [JsonText.toDecimal_length_le_iff (by decide)]
  have h1 : -(9223372036854775808 : Int) ≤ n := h.1
  have h2 : n < 9223372036854775808 := h.2
  have hpow : (10 : Nat) ^ 19 = 10000000000000000000 := rfl
  omega

theorem dumpInt_eq (n : Int) : dumpInt n = JsonText.integerText (decide (n < 0)) n.natAbs :=
  JsonText.toDecimalInt_eq n

theorem stringMember_readable {d : JsonText.Dialect} {key : String} {s : Bytes}
    (hkey : key ∈ eventKeys) (hs : Json.utf8Valid s = true) : (stringMember key s).Readable d :=
  ⟨dumpString_key hkey, fun b rest _ => JsonText.scan_string d (by rw [Json.dumpString, if_pos hs]; rfl) _⟩

theorem members_readable {d : JsonText.Dialect} {event : ClickEvent} (h : Clean event) :
    ∀ m ∈ members event, m.Readable d := by
  intro m hm
  simp only [members, List.mem_cons, List.not_mem_nil, or_false] at hm
  rcases hm with rfl | rfl | rfl | rfl | rfl | rfl
  · refine ⟨dumpString_key (by simp [eventKeys]), fun b rest hb => ?_⟩
    show JsonText.scan d (dumpInt _ ++ _) = _
    rw [dumpInt_eq]
    exact JsonText.scan_integer d _ _ hb
  · exact stringMember_readable (by simp [eventKeys]) h.eventId
  · exact stringMember_readable (by simp [eventKeys]) h.referer
  · exact stringMember_readable (by simp [eventKeys]) h.code
  · exact stringMember_readable (by simp [eventKeys]) h.userAgent
  · exact stringMember_readable (by simp [eventKeys]) h.xForwardedFor

section Read

variable {i : Interpreter} {event : ClickEvent}

theorem members_free (hnow : IsLongLong event.clickedAtMs) :
    ∀ m ∈ members event, i.loadsTrap 1 m.token = none := by
  intro m hm
  simp only [members, List.mem_cons, List.not_mem_nil, or_false] at hm
  rcases hm with rfl | rfl | rfl | rfl | rfl | rfl
  · show (if _ then _ else _) = none
    rw [if_neg]
    rintro ⟨-, limit, hlimit, hlt⟩
    have := i.maxStrDigits_ge limit hlimit
    have := integer_size hnow (decide (event.clickedAtMs < 0))
    omega
  all_goals rfl

theorem read_members (h : Clean event) (hnow : IsLongLong event.clickedAtMs) :
    JsonText.read python i.loadsTrap (JsonText.objectText (members event)) =
      .ok (.object (eventFields event)) := by
  have hopen : i.loadsTrap 0 .beginObject = none := if_neg (Nat.not_le.mpr i.nesting_pos)
  have hvalues : (members event).map (fun m => JsonText.scalar m.token) =
      ((eventFields event).map Prod.snd).map some := rfl
  have hne : members event ≠ [] := List.cons_ne_nil _ _
  have hread := JsonText.read_object (d := python) hne (members_readable h) hvalues hopen
    (members_free hnow)
  have hfields : JsonText.addMembers [] (eventFields event) = eventFields event :=
    JsonText.addMembers_eq (eventFields_nodup event)
  rw [← hfields]
  exact hread

theorem written_valid {m : Member} (hkey : m.key.all Json.isPlain = true)
    (htext : Json.utf8Valid m.text = true) : Json.utf8Valid m.written = true := by
  have hquote : ∀ b ∈ ascii "\"", b < 0x80 := List.all_iff_forall_prop.mp (by decide)
  have hcolon : ∀ b ∈ ascii "\":", b < 0x80 := List.all_iff_forall_prop.mp (by decide)
  have hkey' : ∀ b ∈ m.key, b < 0x80 := fun b hb =>
    (of_decide_eq_true (List.all_eq_true.mp hkey b hb)).2.1
  rw [Member.written, List.append_assoc, List.append_assoc,
    JsonText.utf8Valid_ascii_append hquote, JsonText.utf8Valid_ascii_append hkey',
    JsonText.utf8Valid_ascii_append hcolon, htext]

theorem quoted_valid {s : Bytes} (h : Json.utf8Valid s = true) :
    Json.utf8Valid (quoted s) = true := by
  have hquote : ∀ b ∈ ascii "\"", b < 0x80 := List.all_iff_forall_prop.mp (by decide)
  rw [quoted, List.append_assoc, JsonText.utf8Valid_ascii_append hquote,
    JsonText.utf8Valid_append (JsonText.utf8Valid_escape h)]
  exact Json.utf8Valid_of_ascii hquote

theorem dumpInt_valid (n : Int) : Json.utf8Valid (dumpInt n) = true := by
  refine Json.utf8Valid_of_ascii fun b hb => ?_
  have hdigit : ∀ m, ∀ b ∈ toDecimal m, b < 0x80 := by
    intro m b hb
    have hdigit := JsonText.isDigit_iff.mp (JsonText.toDecimal_isDigit m b hb)
    exact UInt8.lt_of_le_of_lt hdigit.2 (by decide)
  have hminus : ∀ b ∈ ascii "-", b < 0x80 := List.all_iff_forall_prop.mp (by decide)
  unfold dumpInt at hb
  split at hb
  · rcases List.mem_append.mp hb with hb | hb
    · exact hminus b hb
    · exact hdigit _ b hb
  · exact hdigit _ b hb

theorem payload_valid (h : Clean event) :
    Json.utf8Valid (JsonText.objectText (members event)) = true := by
  refine JsonText.utf8Valid_objectText fun m hm => ?_
  have hkey : m.key ∈ eventKeys.map ascii := List.mem_map_of_mem (f := Member.key) hm
  obtain ⟨key, hmem, hkey⟩ := List.mem_map.mp hkey
  simp only [members, List.mem_cons, List.not_mem_nil, or_false] at hm
  refine written_valid (hkey ▸ eventKeys_plain key hmem) ?_
  rcases hm with rfl | rfl | rfl | rfl | rfl | rfl
  · exact dumpInt_valid _
  · exact quoted_valid h.eventId
  · exact quoted_valid h.referer
  · exact quoted_valid h.code
  · exact quoted_valid h.userAgent
  · exact quoted_valid h.xForwardedFor

/-! ## The row -/

/-- An empty text becomes NULL. -/
def nullIfEmpty (s : Bytes) : Option Bytes := if s = [] then none else some s

def clickRow (event : ClickEvent) : Row Value where
  eventId := .string event.eventId
  shortCode := .string event.code
  clickedAtMs := event.clickedAtMs
  userAgent := (nullIfEmpty event.userAgent).map .string
  referer := (nullIfEmpty event.referer).map .string
  xForwardedFor := (nullIfEmpty event.xForwardedFor).map .string

theorem int_clickedAtMs (n : Int) :
    i.int (.number (JsonText.integer (decide (n < 0)) n.natAbs)) = .ok n := by
  have hsigned : (JsonText.integer (decide (n < 0)) n.natAbs).signed n.natAbs = n := by
    show (if decide (n < 0) = true then -(n.natAbs : Int) else n.natAbs) = n
    by_cases h : n < 0
    · rw [if_pos (decide_eq_true h)]
      omega
    · rw [if_neg (by simpa using h)]
      omega
  exact congrArg Except.ok hsigned

theorem getOrNone_string {fields : StrMap Value} {key s : Bytes}
    (h : fields.lookup key = some (.string s)) :
    getOrNone i.functions fields key = (nullIfEmpty s).map .string := by
  rw [getOrNone, h, nullIfEmpty, Option.filter_some]
  by_cases hs : s = []
  · subst hs
    rfl
  · rw [if_neg hs, if_pos]
    · rfl
    · exact decide_eq_true hs

theorem eventRow_payload (event : ClickEvent) :
    eventRow i.functions (Interpreter.dict (eventFields event)) = .ok (clickRow event) := by
  have hlookup : ∀ k v, (k, v) ∈ eventFields event →
      (Interpreter.dict (eventFields event)).lookup k = some v :=
    fun k v hmem => dict_lookup (eventFields_nodup event) hmem
  rw [eventRow_eq i.functions (hlookup _ (.string event.eventId) (by simp [eventFields]))
    (hlookup _ (.string event.code) (by simp [eventFields]))
    (hlookup _ _ (List.mem_cons_self ..)),
    getOrNone_string (hlookup _ (.string event.userAgent) (by simp [eventFields])),
    getOrNone_string (hlookup _ (.string event.referer) (by simp [eventFields])),
    getOrNone_string (hlookup _ (.string event.xForwardedFor) (by simp [eventFields]))]
  have hint : i.functions.int (.number (JsonText.integer (decide (event.clickedAtMs < 0))
      event.clickedAtMs.natAbs)) = .ok event.clickedAtMs := int_clickedAtMs (i := i) _
  rw [hint]
  rfl

/-- The consumer accepts what the producer writes. -/
theorem parseEvent_payload (h : Clean event) (hnow : IsLongLong event.clickedAtMs) :
    parseEvent i.functions ⟨some (JsonText.objectText (members event))⟩ =
      .event (Interpreter.dict (eventFields event)) := by
  have hlookup : ∀ k v, (k, v) ∈ eventFields event →
      (Interpreter.dict (eventFields event)).lookup k = some v :=
    fun k v hmem => dict_lookup (eventFields_nodup event) hmem
  have hmissing : missingField (Interpreter.dict (eventFields event)) = none := by
    rw [missingField, List.find?_eq_none]
    intro field hfield
    simp only [REQUIRED_EVENT_FIELDS, List.mem_cons, List.not_mem_nil, or_false] at hfield
    rw [decide_eq_true_eq]
    rcases hfield with rfl | rfl | rfl
    · rw [hlookup _ (.string event.eventId) (by simp [eventFields])]
      simp
    · rw [hlookup _ (.string event.code) (by simp [eventFields])]
      simp
    · rw [hlookup _ _ (List.mem_cons_self ..)]
      simp
  exact parseEvent_event (payload_valid h) (read_members h hnow) hmissing
    (hlookup _ _ (List.mem_cons_self ..)) (int_clickedAtMs _)

end Read

/-! ## What the table keeps -/

theorem charCount_append (s t : Bytes) : charCount (s ++ t) = charCount s + charCount t :=
  List.countP_append

theorem charCount_ascii {s : Bytes} (h : ∀ b ∈ s, b < 0x80) : charCount s = s.length := by
  rw [charCount, List.countP_eq_length]
  intro b hb
  rw [decide_eq_true (h b hb)]
  rfl

/-- A column keeps a text as it is exactly when it is wide enough. -/
theorem varchar_eq_ok_iff {width : Nat} {s : Bytes} :
    varchar width s = .ok s ↔ charCount s ≤ width := by
  unfold varchar
  split
  · rename_i h
    exact iff_of_true rfl h
  · rename_i h
    refine iff_of_false (fun heq => ?_) h
    dsimp only at heq
    split at heq
    · rename_i htrimmed
      -- what is left has as many characters as the column
      have hspaces : ∀ n, charCount (List.replicate n SP) = n := by
        intro n
        rw [charCount_ascii, List.length_replicate]
        intro b hb
        rw [List.eq_of_mem_replicate hb]
        decide
      have hcount := congrArg charCount (Except.ok.inj heq)
      rw [charCount_append, hspaces] at hcount
      omega
    · cases heq

/-- Longer than the column, and not by spaces alone. -/
def TooLong (width : Nat) (s : Bytes) : Prop :=
  width < charCount (s.rdropWhile fun b => decide (b = SP))

theorem varchar_of_tooLong {width : Nat} {s : Bytes} (h : TooLong width s) :
    varchar width s = .error 1406 := by
  have hle : charCount (s.rdropWhile fun b => decide (b = SP)) ≤ charCount s :=
    (List.rdropWhile_prefix _ s).sublist.countP_le
  rw [varchar, if_neg (Nat.not_le.mpr (Nat.lt_of_lt_of_le h hle))]
  exact if_neg (Nat.not_le.mpr h)

theorem varchar_cases (width : Nat) (s : Bytes) :
    (∃ t, varchar width s = .ok t) ∨ varchar width s = .error 1406 := by
  unfold varchar
  split
  · exact Or.inl ⟨_, rfl⟩
  · dsimp only
    split
    · exact Or.inl ⟨_, rfl⟩
    · exact Or.inr rfl

theorem bigint_of_longLong {n : Int} (h : IsLongLong n) : bigint n = .ok n := if_pos h

section Store

variable {K : Type} {db : MySql K} {i : Interpreter} {event : ClickEvent}

theorem required_string (width : Nat) (s : Bytes) :
    db.required width (.string s) = varchar width s := by
  show varchar width (db.text (.string s)) = _
  rw [db.text_string]

theorem nullable_eq_ok_iff (db : MySql K) {width : Nat} {s : Bytes} :
    db.nullable width ((nullIfEmpty s).map .string) = .ok (nullIfEmpty s) ↔
      charCount s ≤ width := by
  rw [nullIfEmpty]
  split
  · rename_i h
    subst h
    exact iff_of_true rfl (Nat.zero_le _)
  · rw [← varchar_eq_ok_iff]
    show (varchar width (db.text (.string s))).map some = .ok (some s) ↔ _
    rw [db.text_string]
    cases varchar width s with
    | ok t => simp [Except.map]
    | error e => simp [Except.map]

theorem nullable_of_tooLong {width : Nat} {s : Bytes} (h : TooLong width s) :
    db.nullable width ((nullIfEmpty s).map .string) = .error 1406 := by
  have hne : s ≠ [] := by
    rintro rfl
    exact Nat.not_lt_zero _ h
  rw [nullIfEmpty, if_neg hne]
  show (varchar width (db.text (.string s))).map some = _
  rw [db.text_string, varchar_of_tooLong h]
  rfl

theorem nullable_cases (db : MySql K) (width : Nat) (s : Bytes) :
    (∃ t, db.nullable width ((nullIfEmpty s).map .string) = .ok t) ∨
      db.nullable width ((nullIfEmpty s).map .string) = .error 1406 := by
  rw [nullIfEmpty]
  split
  · exact Or.inl ⟨_, rfl⟩
  · show (∃ t, (varchar width (db.text (.string s))).map some = .ok t) ∨
      (varchar width (db.text (.string s))).map some = .error 1406
    rw [db.text_string]
    rcases varchar_cases width s with ⟨t, h⟩ | h
    · exact Or.inl ⟨some t, by rw [h]; rfl⟩
    · exact Or.inr (by rw [h]; rfl)

/-- The row that a click should leave. -/
def StoredClick.ofEvent (event : ClickEvent) : StoredClick where
  eventId := event.eventId
  shortCode := event.code
  clickedAtMs := event.clickedAtMs
  userAgent := nullIfEmpty event.userAgent
  referer := nullIfEmpty event.referer
  xForwardedFor := nullIfEmpty event.xForwardedFor

theorem bind_eq_ok {α β : Type} {x : Except Int α} {f : α → Except Int β} {b : β} :
    (x >>= f) = .ok b ↔ ∃ a, x = .ok a ∧ f a = .ok b := by
  cases x with
  | ok a => exact ⟨fun h => ⟨a, rfl, h⟩, fun ⟨_, h, hf⟩ => by cases h; exact hf⟩
  | error e => exact ⟨nofun, fun ⟨_, h, _⟩ => nomatch h⟩

/-- The click's row is stored as it is exactly when every text fits its column. -/
theorem store_clickRow_iff (hnow : IsLongLong event.clickedAtMs) :
    db.store (clickRow event) = .ok (.ofEvent event) ↔
      charCount event.eventId ≤ 32 ∧ charCount event.code ≤ 16 ∧
        charCount event.userAgent ≤ 512 ∧ charCount event.referer ≤ 1024 ∧
        charCount event.xForwardedFor ≤ 255 := by
  rw [← varchar_eq_ok_iff, ← varchar_eq_ok_iff, ← nullable_eq_ok_iff db, ← nullable_eq_ok_iff db,
    ← nullable_eq_ok_iff db]
  simp only [MySql.store, bind_eq_ok, clickRow, required_string, bigint_of_longLong hnow,
    Except.ok.injEq, exists_eq_left', StoredClick.ofEvent]
  constructor
  · rintro ⟨eventId, h1, code, h2, userAgent, h3, referer, h4, xForwardedFor, h5, heq⟩
    cases heq
    exact ⟨h1, h2, h3, h4, h5⟩
  · rintro ⟨h1, h2, h3, h4, h5⟩
    exact ⟨_, h1, _, h2, _, h3, _, h4, _, h5, rfl⟩

/-- A header that is too long makes MySQL refuse the row. -/
theorem store_of_tooLong (hnow : IsLongLong event.clickedAtMs)
    (hid : charCount event.eventId ≤ 32) (hcode : charCount event.code ≤ 16)
    (h : TooLong 512 event.userAgent ∨ TooLong 1024 event.referer ∨
      TooLong 255 event.xForwardedFor) : db.store (clickRow event) = .error 1406 := by
  have hstore : db.store (clickRow event) = (do
      let userAgent ← db.nullable 512 ((nullIfEmpty event.userAgent).map .string)
      let referer ← db.nullable 1024 ((nullIfEmpty event.referer).map .string)
      let xForwardedFor ← db.nullable 255 ((nullIfEmpty event.xForwardedFor).map .string)
      return ⟨event.eventId, event.code, event.clickedAtMs, userAgent, referer, xForwardedFor⟩) := by
    simp only [MySql.store, clickRow, required_string, varchar_eq_ok_iff.mpr hid,
      varchar_eq_ok_iff.mpr hcode, bigint_of_longLong hnow]
    rfl
  rw [hstore]
  rcases h with h | h | h
  · rw [nullable_of_tooLong h]
    rfl
  · rw [nullable_of_tooLong h]
    rcases nullable_cases db 512 event.userAgent with ⟨t, ht⟩ | ht <;> rw [ht] <;> rfl
  · rw [nullable_of_tooLong h]
    rcases nullable_cases db 512 event.userAgent with ⟨t, ht⟩ | ht <;> rw [ht]
    · rcases nullable_cases db 1024 event.referer with ⟨u, hu⟩ | hu <;> rw [hu] <;> rfl
    · rfl

variable [DecidableEq K]

/-- Producer, consumer and table agree on the click: its payload is built and accepted, and the
insert adds one row, with the click's own values, to every table without that event id. -/
def Agrees (db : MySql K) (i : Interpreter) (event : ClickEvent) : Prop :=
  ∃ payload fields, buildEventJson event = some payload ∧
    parseEvent i.functions ⟨some payload⟩ = .event fields ∧
    ∀ rows : List StoredClick, db.key event.eventId ∉ rows.map (fun r => db.key r.eventId) →
      db.insertEvent i rows fields = (rows ++ [.ofEvent event], .ok ())

theorem sends_clickRow (h : Clean event) :
    (clickRow event).parameters.all MySql.sends = true := by
  have hnull : ∀ s, Json.utf8Valid s = true →
      ((nullIfEmpty s).map Value.string).toList.all MySql.sends = true := by
    intro s hs
    unfold nullIfEmpty
    split
    · rfl
    · simpa [MySql.sends] using hs
  simp only [Row.parameters, clickRow, List.all_append, hnull _ h.userAgent, hnull _ h.referer,
    hnull _ h.xForwardedFor, Bool.and_true]
  simp [MySql.sends, h.eventId, h.code]

theorem agrees_iff_store (h : Clean event) (hnow : IsLongLong event.clickedAtMs) :
    Agrees db i event ↔ db.store (clickRow event) = .ok (.ofEvent event) := by
  have hinsert : ∀ rows, db.insertEvent i rows (Interpreter.dict (eventFields event)) =
      db.insert rows (clickRow event) := by
    intro rows
    rw [MySql.insertEvent, eventRow_payload]
  constructor
  · rintro ⟨payload, fields, hpayload, hparse, hrows⟩
    rw [buildEventJson_eq h] at hpayload
    cases hpayload
    rw [parseEvent_payload h hnow] at hparse
    cases hparse
    have hempty := hrows [] (by simp)
    rw [hinsert, MySql.insert, if_pos (sends_clickRow h)] at hempty
    cases hstore : db.store (clickRow event) with
    | error errno =>
      rw [hstore] at hempty
      cases hempty
    | ok stored =>
      rw [hstore] at hempty
      simp only [List.map_nil, List.not_mem_nil, if_false, List.nil_append, Prod.mk.injEq,
        List.cons.injEq, and_true] at hempty
      rw [hempty]
  · intro hstore
    refine ⟨_, _, buildEventJson_eq h, parseEvent_payload h hnow, fun rows hfresh => ?_⟩
    have hfresh : db.key (StoredClick.ofEvent event).eventId ∉
        rows.map fun r => db.key r.eventId := hfresh
    rw [hinsert, MySql.insert, if_pos (sends_clickRow h), hstore]
    simp only [if_neg hfresh]

/-- The consumer drops the click as poison: the table is left as it is, and `insert_once` takes
MySQL's answer for final. -/
def Drops (db : MySql K) (i : Interpreter) (event : ClickEvent) : Prop :=
  ∃ payload fields, buildEventJson event = some payload ∧
    parseEvent i.functions ⟨some payload⟩ = .event fields ∧
    ∀ rows : List StoredClick, (db.insertEvent i rows fields).1 = rows ∧
      insertOnce (db.insertEvent i rows fields).2 = .poison

theorem drops_of_store (h : Clean event) (hnow : IsLongLong event.clickedAtMs)
    (hstore : db.store (clickRow event) = .error 1406) : Drops db i event := by
  refine ⟨_, _, buildEventJson_eq h, parseEvent_payload h hnow, fun rows => ?_⟩
  have hinsert : db.insertEvent i rows (Interpreter.dict (eventFields event)) =
      (rows, .error (.mysql 1406)) := by
    rw [MySql.insertEvent, eventRow_payload]
    simp only [MySql.insert, if_pos (sends_clickRow h), hstore]
  rw [hinsert]
  refine ⟨rfl, ?_⟩
  show insertOnce (.error (.mysql 1406)) = .poison
  rw [insertOnce, if_pos (by decide)]

/-- What `short_url.short_code VARCHAR(16)` can hold. -/
def IsStoredCode (code : Bytes) : Prop := Json.utf8Valid code = true ∧ charCount code ≤ 16

/-- The event of a request, with the id that the worker has given it. -/
def numbered (req : HttpRequest) (code : Bytes) (now : Int) (id : UInt64) : ClickEvent :=
  { clickEvent req code now with eventId := base62Encode id }

theorem charCount_base62Encode (id : UInt64) : charCount (base62Encode id) ≤ 11 := by
  have halphabet : ∀ b ∈ alphabet, b.toNat < 128 :=
    List.all_iff_forall_prop.mp (by decide +kernel)
  rw [charCount_ascii]
  · exact base62Encode_length id
  · intro b hb
    exact UInt8.lt_iff_toNat_lt.mpr (halphabet b (base62Encode_mem id b hb))

section Numbered

variable {req : HttpRequest} {code : Bytes} {now : Int} {id : UInt64}
  (hcode : IsStoredCode code) (hnow : IsLongLong now)
  (hagent : Json.utf8Valid (req.headerOrEmpty (ascii "User-Agent")) = true)
  (hreferer : Json.utf8Valid (req.headerOrEmpty (ascii "Referer")) = true)
  (hforwarded : Json.utf8Valid (req.headerOrEmpty (ascii "X-Forwarded-For")) = true)

include hcode hagent hreferer hforwarded

theorem numbered_clean : Clean (numbered req code now id) :=
  ⟨utf8Valid_base62Encode id, hcode.1, hagent, hreferer, hforwarded⟩

include hnow

theorem numbered_agrees_iff : Agrees db i (numbered req code now id) ↔
    charCount (req.headerOrEmpty (ascii "User-Agent")) ≤ 512 ∧
      charCount (req.headerOrEmpty (ascii "Referer")) ≤ 1024 ∧
      charCount (req.headerOrEmpty (ascii "X-Forwarded-For")) ≤ 255 := by
  have hid : charCount (numbered req code now id).eventId ≤ 32 :=
    (charCount_base62Encode id).trans (by decide)
  rw [agrees_iff_store (numbered_clean hcode hagent hreferer hforwarded) hnow,
    store_clickRow_iff hnow, and_iff_right hid,
    and_iff_right (show charCount (numbered req code now id).code ≤ 16 from hcode.2)]
  rfl

theorem numbered_drops (h : TooLong 512 (req.headerOrEmpty (ascii "User-Agent")) ∨
    TooLong 1024 (req.headerOrEmpty (ascii "Referer")) ∨
    TooLong 255 (req.headerOrEmpty (ascii "X-Forwarded-For"))) :
    Drops db i (numbered req code now id) := by
  have hid : charCount (numbered req code now id).eventId ≤ 32 :=
    (charCount_base62Encode id).trans (by decide)
  exact drops_of_store (numbered_clean hcode hagent hreferer hforwarded) hnow
    (store_of_tooLong hnow hid hcode.2 h)

end Numbered

end Store

/-- **The click format.** For every request with UTF-8 headers and every stored code, producer,
consumer and table agree on the click exactly when each header fits its column; a click with a
header that is too long is dropped as poison. -/
theorem click_stored_iff {K : Type} [DecidableEq K] (db : MySql K) (i : Interpreter)
    (req : HttpRequest) (code : Bytes) (now : Int) (id : UInt64) (hcode : IsStoredCode code)
    (hnow : IsLongLong now)
    (hagent : Json.utf8Valid (req.headerOrEmpty (ascii "User-Agent")) = true)
    (hreferer : Json.utf8Valid (req.headerOrEmpty (ascii "Referer")) = true)
    (hforwarded : Json.utf8Valid (req.headerOrEmpty (ascii "X-Forwarded-For")) = true) :
    (Agrees db i (numbered req code now id) ↔
      charCount (req.headerOrEmpty (ascii "User-Agent")) ≤ 512 ∧
        charCount (req.headerOrEmpty (ascii "Referer")) ≤ 1024 ∧
        charCount (req.headerOrEmpty (ascii "X-Forwarded-For")) ≤ 255) ∧
    (TooLong 512 (req.headerOrEmpty (ascii "User-Agent")) ∨
        TooLong 1024 (req.headerOrEmpty (ascii "Referer")) ∨
        TooLong 255 (req.headerOrEmpty (ascii "X-Forwarded-For")) →
      Drops db i (numbered req code now id)) :=
  ⟨numbered_agrees_iff hcode hnow hagent hreferer hforwarded,
    numbered_drops hcode hnow hagent hreferer hforwarded⟩

/-- A MySQL that compares event ids byte by byte. -/
def plainMySql : MySql Bytes where
  text
    | .string s => s
    | _ => []
  text_string _ := rfl
  key s := s

theorem isStoredCode_abc : IsStoredCode (ascii "abc") := ⟨by decide +kernel, by decide⟩

/-- The headers fit their columns. -/
def isShort (r : HttpConn × HttpCode) : Bool :=
  decide (charCount (r.1.request.headerOrEmpty (ascii "User-Agent")) ≤ 512) &&
    decide (charCount (r.1.request.headerOrEmpty (ascii "Referer")) ≤ 1024) &&
    decide (charCount (r.1.request.headerOrEmpty (ascii "X-Forwarded-For")) ≤ 255)

theorem isShort_of_agrees {S : Bytes} {now : Int} {id : UInt64} (hnow : IsLongLong now)
    (hagent : Json.utf8Valid ((received S).headerOrEmpty (ascii "User-Agent")) = true)
    (hreferer : Json.utf8Valid ((received S).headerOrEmpty (ascii "Referer")) = true)
    (hforwarded : Json.utf8Valid ((received S).headerOrEmpty (ascii "X-Forwarded-For")) = true)
    (h : Agrees plainMySql plainInterpreter (numbered (received S) (ascii "abc") now id)) :
    isShort (HttpConn.holding S).processRead = true := by
  obtain ⟨h1, h2, h3⟩ :=
    (numbered_agrees_iff isStoredCode_abc hnow hagent hreferer hforwarded).mp h
  simp only [isShort, Bool.and_eq_true, decide_eq_true_eq]
  exact ⟨⟨h1, h2⟩, h3⟩

theorem click_stored_iff_plainAgent :
    Agrees plainMySql plainInterpreter (numbered (received plainAgent) (ascii "abc") 7 1) := by
  have hplain : isClean (HttpConn.holding plainAgent).processRead = true ∧
      isShort (HttpConn.holding plainAgent).processRead = true := by decide +kernel
  obtain ⟨-, hagent, hreferer, hforwarded⟩ := isClean_received hplain.1
  have hshort := hplain.2
  simp only [isShort, Bool.and_eq_true, decide_eq_true_eq] at hshort
  exact (click_stored_iff plainMySql plainInterpreter _ _ _ _ isStoredCode_abc
    ⟨by decide, by decide⟩ hagent hreferer hforwarded).1.mpr ⟨hshort.1.1, hshort.1.2, hshort.2⟩

/-- A redirect that has come through many proxies. -/
def longForwarded : Bytes :=
  ascii "GET /abc HTTP/1.1\r\nX-Forwarded-For: " ++ List.replicate 256 0x31 ++ ascii "\r\n\r\n"

theorem click_lost_longForwarded :
    ¬ ∀ (req : HttpRequest) (code : Bytes) (now : Int) (id : UInt64), FromParser req →
      IsStoredCode code → IsLongLong now →
      Json.utf8Valid (req.headerOrEmpty (ascii "User-Agent")) = true →
      Json.utf8Valid (req.headerOrEmpty (ascii "Referer")) = true →
      Json.utf8Valid (req.headerOrEmpty (ascii "X-Forwarded-For")) = true →
      Agrees plainMySql plainInterpreter (numbered req code now id) := by
  intro hall
  have hlong : isClean (HttpConn.holding longForwarded).processRead = true ∧
      isShort (HttpConn.holding longForwarded).processRead = false := by decide +kernel
  obtain ⟨hparser, hagent, hreferer, hforwarded⟩ := isClean_received hlong.1
  have hnow : IsLongLong 7 := ⟨by decide, by decide⟩
  have hagrees := hall _ _ 7 1 hparser isStoredCode_abc hnow hagent hreferer hforwarded
  exact absurd (isShort_of_agrees hnow hagent hreferer hforwarded hagrees) (by rw [hlong.2]; nofun)

end Click
end UrlShortener
