import UrlShortener.Base.JsonText
import UrlShortener.Consumer.Click

/-!
# UrlShortener.Consumer.Python

The Python that the consumer runs on: `bytes.decode`, `json.loads` and `int` on the values that
JSON text can stand for. A `str` is kept in UTF-8, with a surrogate on its own in three bytes.

`json.loads` is more liberal than other readers (`NaN`, `Infinity`, and numbers that no double can
hold, which become infinite), and it can raise more than a `JSONDecodeError`: a `RecursionError` on
text that is nested too deep, a `ValueError` on an integer with too many digits.
-/

namespace UrlShortener
namespace Click

open JsonText (Dialect Token Value)

/-- The interpreter: its limits, `int` of a `str`, and the texts of exceptions that quote their
input. -/
structure Interpreter where
  /-- How deep `json.loads` can nest. -/
  nesting : Nat := 1000
  nesting_pos : 0 < nesting := by decide
  /-- `sys.get_int_max_str_digits()`. -/
  maxStrDigits : Option Nat := some 4300
  maxStrDigits_ge : ∀ n ∈ maxStrDigits, 640 ≤ n := by decide
  /-- A number, or the text of a `ValueError`. -/
  intOfStr : Bytes → Except Bytes Int
  unicodeDecodeError : Bytes → Bytes
  jsonDecodeError : Bytes → Bytes

def python : Dialect where
  constants := true
  nulEnds := false
  loneSurrogates := true
  strictNumbers := false

def typeName : Value → Bytes
  | .null => ascii "NoneType"
  | .bool _ => ascii "bool"
  | .number n => if n.isFloat then ascii "float" else ascii "int"
  | .constant _ => ascii "float"
  | .string _ => ascii "str"
  | .array _ => ascii "list"
  | .object _ => ascii "dict"

namespace Interpreter

variable (i : Interpreter)

/-- The exceptions other than `JSONDecodeError` that leave `json.loads`. -/
def loadsTrap (depth : Nat) : Token → Option PyError
  | .beginArray => if i.nesting ≤ depth then some .other else none
  | .beginObject => if i.nesting ≤ depth then some .other else none
  | .number n =>
    if n.isFloat = false ∧ ∃ limit ∈ i.maxStrDigits, limit < n.size then
      some (.valueError (ascii "Exceeds the limit for integer string conversion"))
    else none
  | _ => none

def decode (value : Bytes) : Except Bytes Bytes :=
  if Json.utf8Valid value then .ok value else .error (i.unicodeDecodeError value)

def dict (fields : List (Bytes × Value)) : StrMap Value :=
  fields.foldl (fun event f => event.insert f.1 f.2) ∅

def loads (raw : Bytes) : Except LoadsError (Loaded Value) :=
  match JsonText.read python i.loadsTrap raw with
  | .ok (.object fields) => .ok (.dict (dict fields))
  | .ok v => .ok (.other (typeName v))
  | .error .malformed => .error (.decodeError (i.jsonDecodeError raw))
  | .error (.trapped e) => .error (.other e)

/-- `int(v)`. An infinite float raises an `OverflowError`. -/
def int : Value → Except PyError Int
  | .bool b => .ok b.toNat
  | .number n =>
    if n.isFloat = false then .ok (n.signed n.digits)
    else if n.overflows then .error .other
    else .ok (n.signed (JsonText.truncDouble n.fraction.1 n.fraction.2))
  | .constant .nan => .error (.valueError (ascii "cannot convert float NaN to integer"))
  | .constant _ => .error .other
  | .string s =>
    match i.intOfStr s with
    | .ok n => .ok n
    | .error text => .error (.valueError text)
  | v => .error (.typeError (ascii "int() argument must be a string, a bytes-like object or a real number, not '" ++ typeName v ++ ascii "'"))

def truthy : Value → Bool
  | .null => false
  | .bool b => b
  | .number n => if n.isFloat then !n.underflows else decide (n.digits ≠ 0)
  | .constant _ => true
  | .string s => decide (s ≠ [])
  | .array items => !items.isEmpty
  | .object fields => !fields.isEmpty

/-- The interpreter's functions, as `parse_event` and `insert_event` call them. -/
def functions : Python Value where
  decode := i.decode
  loads := i.loads
  int := i.int
  truthy := truthy

end Interpreter

theorem dict_lookup_of_notMem {fields : List (Bytes × Value)} {event : StrMap Value} {k : Bytes}
    (h : k ∉ fields.map Prod.fst) :
    (fields.foldl (fun event f => event.insert f.1 f.2) event).lookup k = event.lookup k := by
  induction fields generalizing event with
  | nil => rfl
  | cons f fields ih =>
    rw [List.map_cons, List.mem_cons, not_or] at h
    rw [List.foldl_cons, ih h.2, AList.lookup_insert_ne h.1]

/-- A dict has the fields that were read. -/
theorem dict_lookup {fields : List (Bytes × Value)} {k : Bytes} {v : Value}
    (hnodup : (fields.map Prod.fst).Nodup) (h : (k, v) ∈ fields) :
    (Interpreter.dict fields).lookup k = some v := by
  have hall : ∀ event : StrMap Value,
      (fields.foldl (fun event f => event.insert f.1 f.2) event).lookup k = some v := by
    induction fields with
    | nil => cases h
    | cons f fields ih =>
      intro event
      rw [List.map_cons, List.nodup_cons] at hnodup
      rcases List.mem_cons.mp h with rfl | h
      · rw [List.foldl_cons, dict_lookup_of_notMem hnodup.1, AList.lookup_insert]
      · exact ih hnodup.2 h _
  exact hall ∅

/-! ## The connector and the log -/

/-- `mysql-connector` and a healthy MySQL behind it, whose answer depends on the row alone. A
parameter of a type that the connector cannot convert is an error before MySQL sees the row. -/
structure Connector where
  converts : Value → Bool
  list_unsupported : ∀ items, converts (.array items) = false
  dict_unsupported : ∀ fields, converts (.object fields) = false
  conversionErrno : Int
  conversionErrno_transient : conversionErrno ∉ PERMANENT_MYSQL_ERRNOS
  mysql : Row Value → Except PyError Unit
  /-- What can be written to standard output in a log line. -/
  printable : Value → Bool

def Row.parameters (row : Row Value) : List Value :=
  [row.eventId, row.shortCode] ++ row.userAgent.toList ++ row.referer.toList ++
    row.xForwardedFor.toList

namespace Connector

variable (c : Connector)

/-- `cursor.execute` and `commit`. -/
def execute (row : Row Value) : Except PyError Unit :=
  if row.parameters.all c.converts then c.mysql row else .error (.mysql c.conversionErrno)

/-- `log_json` with the given values of the event. -/
def logJson (quoted : List (Option Value)) : Except PyError Unit :=
  if quoted.all fun v => v.all c.printable then .ok ()
  else .error (.valueError (ascii "surrogates not allowed"))

variable (i : Interpreter)

/-- `insert_event` on a connection that works. -/
def insertEvent (event : StrMap Value) : Except PyError Unit := do
  let row ← eventRow i.functions event
  c.execute row

/-- What the line about a poison pill quotes of the event. -/
def quoted (event : StrMap Value) : Except PyError Unit → List (Option Value)
  | .error (.mysql _) => [event.lookup (ascii "event_id"), event.lookup (ascii "short_code")]
  | _ => [event.lookup (ascii "event_id")]

/-- `insert_once`, which returns true if it returns. -/
def insertOnce (event : StrMap Value) : Except PyError Unit :=
  match Click.insertOnce (c.insertEvent i event) with
  | .inserted => .ok ()
  | .poison => c.logJson (quoted event (c.insertEvent i event))
  | .raised e => .error e

/-- The loop of `process_message`, with that many attempts left. -/
def attempts (event : StrMap Value) : Nat → Except PyError Bool
  | 0 => .ok false
  | n + 1 =>
    match c.insertOnce i event with
    | .ok () => do
      c.logJson [event.lookup (ascii "event_id"), event.lookup (ascii "short_code")]
      return true
    | .error (.mysql _) => attempts event n
    | .error e => .error e

/-- The line about an invalid message is taken to be printable: what it says is the consumer's own
text and the exception's, where Python escapes what cannot be printed. -/
def processMessage (msg : Message) : Except PyError Bool :=
  match parseEvent i.functions msg with
  | .raised e => .error e
  | .invalid _ => .ok true
  | .event event => c.attempts i event (MAX_TRANSIENT_RETRIES + 1)

end Connector

/-! ## Which messages the consumer gets past -/

/-- `int` raises what `parse_event` does not catch. -/
def infinite : Value → Bool
  | .number n => n.isFloat && n.overflows
  | .constant .infinity => true
  | .constant .negativeInfinity => true
  | _ => false

/-- The row is stored, or refused in a way that `insert_once` takes for final. -/
def isFinal : Except PyError Unit → Bool
  | .ok () => true
  | .error (.mysql errno) => decide (errno ∈ PERMANENT_MYSQL_ERRNOS)
  | .error .other => false
  | .error _ => true

/-- The connector converts every parameter, MySQL's answer to the row is final, and the log line
can be written. -/
structure Connector.Takes (c : Connector) (row : Row Value) : Prop where
  converts : row.parameters.all c.converts = true
  answer : isFinal (c.mysql row) = true
  eventId : c.printable row.eventId = true
  shortCode : c.printable row.shortCode = true

/-- What a message must be for the consumer to get past it. -/
def Connector.Passes (c : Connector) (i : Interpreter) (msg : Message) : Prop :=
  ∃ value, msg.value = some value ∧ (Json.utf8Valid value = true →
    ¬ JsonText.Traps python i.loadsTrap value ∧
    ∀ fields, JsonText.read python i.loadsTrap value = .ok (.object fields) →
      missingField (Interpreter.dict fields) = none →
      (∀ v ∈ (Interpreter.dict fields).lookup (ascii "clicked_at_ms"), infinite v = false) ∧
      ∀ row, eventRow i.functions (Interpreter.dict fields) = .ok row → c.Takes row)

section Passes

variable {c : Connector} {i : Interpreter}

theorem int_ok_or_caught {v : Value} (h : infinite v = false) :
    (∃ n, i.int v = .ok n) ∨ (∃ text, i.int v = .error (.typeError text)) ∨
      ∃ text, i.int v = .error (.valueError text) := by
  unfold Interpreter.int
  split
  · exact Or.inl ⟨_, rfl⟩
  · rename_i n
    split
    · exact Or.inl ⟨_, rfl⟩
    · rename_i hfloat
      rw [infinite, Bool.eq_true_of_not_eq_false hfloat, Bool.true_and] at h
      rw [if_neg (by simp [h])]
      exact Or.inl ⟨_, rfl⟩
  · exact Or.inr (Or.inr ⟨_, rfl⟩)
  · rename_i c hc
    cases c with
    | nan => exact absurd rfl hc
    | infinity => cases h
    | negativeInfinity => cases h
  · split
    · exact Or.inl ⟨_, rfl⟩
    · exact Or.inr (Or.inr ⟨_, rfl⟩)
  · exact Or.inr (Or.inl ⟨_, rfl⟩)

theorem int_of_infinite {v : Value} (h : infinite v = true) : i.int v = .error .other := by
  unfold infinite at h
  split at h
  · rename_i n
    rw [Bool.and_eq_true] at h
    rw [Interpreter.int, if_neg (by simp [h.1]), if_pos h.2]
  · rfl
  · rfl
  · cases h

/-- An event with all required fields. -/
theorem lookup_of_missingField {V : Type} {event : StrMap V} (h : missingField event = none) :
    ∃ e code v, event.lookup (ascii "event_id") = some e ∧
      event.lookup (ascii "short_code") = some code ∧
      event.lookup (ascii "clicked_at_ms") = some v := by
  have hall : ∀ field ∈ REQUIRED_EVENT_FIELDS, ∃ v, event.lookup field = some v := by
    intro field hf
    have := List.find?_eq_none.mp h field hf
    rw [decide_eq_true_eq] at this
    exact Option.ne_none_iff_exists'.mp this
  obtain ⟨e, he⟩ := hall (ascii "event_id") (by simp [REQUIRED_EVENT_FIELDS])
  obtain ⟨code, hcode⟩ := hall (ascii "short_code") (by simp [REQUIRED_EVENT_FIELDS])
  obtain ⟨v, hv⟩ := hall (ascii "clicked_at_ms") (by simp [REQUIRED_EVENT_FIELDS])
  exact ⟨e, code, v, he, hcode, hv⟩

theorem getItem_of_lookup {V : Type} {event : StrMap V} {field : Bytes} {v : V}
    (h : event.lookup field = some v) : getItem event field = .ok v := by
  rw [getItem, h]

/-- With the required fields there, only `int` can fail. -/
theorem eventRow_eq {V : Type} (py : Python V) {event : StrMap V} {e code v : V}
    (he : event.lookup (ascii "event_id") = some e)
    (hcode : event.lookup (ascii "short_code") = some code)
    (hv : event.lookup (ascii "clicked_at_ms") = some v) :
    eventRow py event = (py.int v).map fun n =>
      { eventId := e, shortCode := code, clickedAtMs := n
        userAgent := getOrNone py event (ascii "user_agent")
        referer := getOrNone py event (ascii "referer")
        xForwardedFor := getOrNone py event (ascii "x_forwarded_for") } := by
  rw [eventRow, getItem_of_lookup he, getItem_of_lookup hcode, getItem_of_lookup hv]
  show (py.int v >>= fun n => _) = _
  cases py.int v <;> rfl

theorem attempts_transient {event : StrMap Value} {errno : Int}
    (h : c.insertOnce i event = .error (.mysql errno)) (n : Nat) :
    c.attempts i event n = .ok false := by
  induction n with
  | zero => rfl
  | succ n ih => rw [Connector.attempts, h, ih]

theorem logJson_ok_iff {quoted : List (Option Value)} :
    c.logJson quoted = .ok () ↔ ∀ v ∈ quoted, v.all c.printable = true := by
  rw [← List.all_eq_true, Connector.logJson]
  split <;> simp_all

/-- What a log line raises is passed on. -/
theorem logJson_error {quoted : List (Option Value)} (h : c.logJson quoted ≠ .ok ()) :
    ∃ text, c.logJson quoted = .error (.valueError text) := by
  unfold Connector.logJson at h ⊢
  split at h
  · exact absurd rfl h
  · rename_i hfalse
    exact ⟨_, if_neg hfalse⟩

/-- Behind `insert_once` comes one more log line. -/
theorem attempts_of_logged {event : StrMap Value} {e code : Value} {quoted : List (Option Value)}
    {n : Nat} (he : event.lookup (ascii "event_id") = some e)
    (hcode : event.lookup (ascii "short_code") = some code)
    (hquoted : ∀ v ∈ quoted, v = some e ∨ v = some code)
    (h : c.insertOnce i event = c.logJson quoted) : c.attempts i event (n + 1) = .ok true ↔
      c.printable e = true ∧ c.printable code = true := by
  have hline : c.logJson [some e, some code] = .ok () ↔
      c.printable e = true ∧ c.printable code = true := by
    rw [logJson_ok_iff]
    simp
  rw [← hline, Connector.attempts, h, he, hcode]
  by_cases hlog : c.logJson quoted = .ok ()
  · rw [hlog]
    cases c.logJson [some e, some code] with
    | ok u => exact ⟨fun _ => rfl, fun _ => rfl⟩
    | error err => exact ⟨nofun, nofun⟩
  · -- what the first line could not print, the second could not either
    obtain ⟨text, htext⟩ := logJson_error hlog
    rw [htext]
    refine iff_of_false nofun fun hboth => hlog ?_
    rw [logJson_ok_iff] at hboth ⊢
    intro v hv
    rcases hquoted v hv with rfl | rfl
    · exact hboth _ (by simp)
    · exact hboth _ (by simp)

theorem attempts_true_iff_final {event : StrMap Value} {e code : Value} {n : Nat}
    (he : event.lookup (ascii "event_id") = some e)
    (hcode : event.lookup (ascii "short_code") = some code) :
    c.attempts i event (n + 1) = .ok true ↔ isFinal (c.insertEvent i event) = true ∧
      c.printable e = true ∧ c.printable code = true := by
  cases hr : c.insertEvent i event with
  | ok u =>
    have hlogged : c.insertOnce i event = c.logJson [] := by
      rw [Connector.insertOnce, hr]
      rfl
    rw [attempts_of_logged he hcode (by simp) hlogged]
    exact (and_iff_right rfl).symm
  | error err =>
    have hone : c.insertOnce i event = match insertOnce (.error err) with
        | .inserted => .ok ()
        | .poison => c.logJson (Connector.quoted event (.error err))
        | .raised e => .error e := by
      rw [Connector.insertOnce, hr]
    cases err with
    | mysql errno =>
      by_cases hperm : errno ∈ PERMANENT_MYSQL_ERRNOS
      · rw [insertOnce, if_pos hperm] at hone
        rw [attempts_of_logged he hcode _ hone, isFinal, decide_eq_true hperm]
        · exact (and_iff_right rfl).symm
        · simp [Connector.quoted, he, hcode]
      · rw [insertOnce, if_neg hperm] at hone
        rw [attempts_transient hone, isFinal, decide_eq_false hperm]
        exact iff_of_false nofun nofun
    | other =>
      rw [Connector.attempts, hone]
      exact iff_of_false nofun nofun
    | keyError =>
      rw [attempts_of_logged he hcode (by simp [Connector.quoted, he]) hone]
      exact (and_iff_right rfl).symm
    | typeError text =>
      rw [attempts_of_logged he hcode (by simp [Connector.quoted, he]) hone]
      exact (and_iff_right rfl).symm
    | valueError text =>
      rw [attempts_of_logged he hcode (by simp [Connector.quoted, he]) hone]
      exact (and_iff_right rfl).symm

theorem isFinal_execute {row : Row Value} : isFinal (c.execute row) = true ↔
    row.parameters.all c.converts = true ∧ isFinal (c.mysql row) = true := by
  rw [Connector.execute]
  split
  · rename_i hconverts
    exact (and_iff_right hconverts).symm
  · rename_i hconverts
    rw [isFinal, decide_eq_false c.conversionErrno_transient]
    exact iff_of_false nofun fun h => hconverts h.1

/-- A row that gets to the connector is dealt with exactly when the connector takes it. -/
theorem attempts_true_iff {event : StrMap Value} {row : Row Value} {n : Nat}
    (hrow : eventRow i.functions event = .ok row)
    (he : event.lookup (ascii "event_id") = some row.eventId)
    (hcode : event.lookup (ascii "short_code") = some row.shortCode) :
    c.attempts i event (n + 1) = .ok true ↔ c.Takes row := by
  have hinsert : c.insertEvent i event = c.execute row := by
    rw [Connector.insertEvent, hrow]
    rfl
  rw [attempts_true_iff_final he hcode, hinsert, isFinal_execute]
  constructor
  · rintro ⟨⟨hconverts, hfinal⟩, hid, hshort⟩
    exact ⟨hconverts, hfinal, hid, hshort⟩
  · rintro ⟨hconverts, hfinal, hid, hshort⟩
    exact ⟨⟨hconverts, hfinal⟩, hid, hshort⟩

section Dict

variable {value : Bytes} {fields : List (Bytes × Value)} {v : Value}
  (hutf8 : Json.utf8Valid value = true)
  (hread : JsonText.read python i.loadsTrap value = .ok (.object fields))

include hutf8 hread

theorem parseEvent_missing {field : Bytes}
    (hmissing : missingField (Interpreter.dict fields) = some field) :
    parseEvent i.functions ⟨some value⟩ = .invalid (ascii "missing required field: " ++ field) := by
  simp only [parseEvent, Interpreter.functions, Interpreter.decode, if_pos hutf8, Interpreter.loads,
    hread, hmissing]

variable (hmissing : missingField (Interpreter.dict fields) = none)
  (hv : (Interpreter.dict fields).lookup (ascii "clicked_at_ms") = some v)

include hmissing hv

theorem parseEvent_event {n : Int} (hint : i.int v = .ok n) :
    parseEvent i.functions ⟨some value⟩ = .event (Interpreter.dict fields) := by
  have hitem : getItem (Interpreter.dict fields) (ascii "clicked_at_ms") >>= i.int = .ok n := by
    rw [getItem_of_lookup hv]
    exact hint
  simp only [parseEvent, Interpreter.functions, Interpreter.decode, if_pos hutf8, Interpreter.loads,
    hread, hmissing, hitem]

theorem parseEvent_caught {text : Bytes}
    (hint : i.int v = .error (.typeError text) ∨ i.int v = .error (.valueError text)) :
    parseEvent i.functions ⟨some value⟩ =
      .invalid (ascii "clicked_at_ms is not an integer: " ++ text) := by
  have hitem : getItem (Interpreter.dict fields) (ascii "clicked_at_ms") >>= i.int = i.int v := by
    rw [getItem_of_lookup hv]
    rfl
  simp only [parseEvent, Interpreter.functions, Interpreter.decode, if_pos hutf8, Interpreter.loads,
    hread, hmissing, hitem]
  rcases hint with hint | hint <;> rw [hint]

theorem parseEvent_infinite (hinfinite : infinite v = true) :
    parseEvent i.functions ⟨some value⟩ = .raised .other := by
  have hitem : getItem (Interpreter.dict fields) (ascii "clicked_at_ms") >>= i.int =
      .error .other := by
    rw [getItem_of_lookup hv]
    exact int_of_infinite hinfinite
  simp only [parseEvent, Interpreter.functions, Interpreter.decode, if_pos hutf8, Interpreter.loads,
    hread, hmissing, hitem]

end Dict

/-- The consumer commits the message and goes on: `parse_event` does not raise, and
`process_message` returns true. -/
def Connector.GetsPast (c : Connector) (i : Interpreter) (msg : Message) : Prop :=
  (∀ e, parseEvent i.functions msg ≠ .raised e) ∧ c.processMessage i msg = .ok true

theorem getsPast_of_invalid {msg : Message} {reason : Bytes}
    (h : parseEvent i.functions msg = .invalid reason) : c.GetsPast i msg := by
  refine ⟨fun e he => ?_, ?_⟩
  · rw [h] at he
    cases he
  · rw [Connector.processMessage, h]

theorem not_getsPast_of_raised {msg : Message} {e : PyError}
    (h : parseEvent i.functions msg = .raised e) : ¬ c.GetsPast i msg :=
  fun hpast => hpast.1 e h

/-- A dict with the required fields. -/
theorem getsPast_dict_iff {value : Bytes} {fields : List (Bytes × Value)}
    (hutf8 : Json.utf8Valid value = true)
    (hread : JsonText.read python i.loadsTrap value = .ok (.object fields))
    (hmissing : missingField (Interpreter.dict fields) = none) : c.GetsPast i ⟨some value⟩ ↔
      (∀ v ∈ (Interpreter.dict fields).lookup (ascii "clicked_at_ms"), infinite v = false) ∧
      ∀ row, eventRow i.functions (Interpreter.dict fields) = .ok row → c.Takes row := by
  obtain ⟨e, code, v, he, hcode, hv⟩ := lookup_of_missingField hmissing
  have hrow := eventRow_eq i.functions he hcode hv
  by_cases hinfinite : infinite v = true
  · refine iff_of_false (not_getsPast_of_raised
      (parseEvent_infinite hutf8 hread hmissing hv hinfinite)) fun h => ?_
    rw [h.1 v hv] at hinfinite
    cases hinfinite
  · have hfinite : infinite v = false := Bool.eq_false_of_not_eq_true hinfinite
    have hall : ∀ v ∈ (Interpreter.dict fields).lookup (ascii "clicked_at_ms"),
        infinite v = false := by
      intro v' hv'
      rw [hv] at hv'
      cases hv'
      exact hfinite
    rw [and_iff_right hall]
    rcases int_ok_or_caught (i := i) hfinite with ⟨n, hint⟩ | hcaught
    · have hint' : i.functions.int v = .ok n := hint
      rw [hint'] at hrow
      have hevent := parseEvent_event hutf8 hread hmissing hv hint
      constructor
      · rintro ⟨-, hpast⟩ row hrow'
        rw [hrow] at hrow'
        cases hrow'
        rw [Connector.processMessage, hevent] at hpast
        exact (attempts_true_iff hrow he hcode).mp hpast
      · intro htakes
        refine ⟨fun err herr => ?_, ?_⟩
        · rw [hevent] at herr
          cases herr
        · rw [Connector.processMessage, hevent]
          exact (attempts_true_iff hrow he hcode).mpr (htakes _ hrow)
    · obtain ⟨text, hint⟩ : ∃ text, i.int v = .error (.typeError text) ∨
          i.int v = .error (.valueError text) := by
        rcases hcaught with ⟨text, h⟩ | ⟨text, h⟩
        · exact ⟨text, Or.inl h⟩
        · exact ⟨text, Or.inr h⟩
      refine iff_of_true (getsPast_of_invalid
        (parseEvent_caught hutf8 hread hmissing hv hint)) fun row hrow' => ?_
      have hnot : ∀ n, i.functions.int v ≠ .ok n := by
        intro n hn
        have hn : i.int v = .ok n := hn
        rcases hint with h | h <;> rw [h] at hn <;> cases hn
      rw [hrow] at hrow'
      cases hint' : i.functions.int v with
      | ok n => exact absurd hint' (hnot n)
      | error err =>
        rw [hint'] at hrow'
        cases hrow'

/-- What `parse_event` does with what `json.loads` raises or returns, a dict apart. -/
theorem parseEvent_of_loads {value : Bytes} (hutf8 : Json.utf8Valid value = true) :
    (∀ exc, i.loads value = .error (.decodeError exc) →
      parseEvent i.functions ⟨some value⟩ = .invalid (ascii "invalid json: " ++ exc)) ∧
    (∀ e, i.loads value = .error (.other e) → parseEvent i.functions ⟨some value⟩ = .raised e) ∧
    ∀ name, i.loads value = .ok (.other name) → parseEvent i.functions ⟨some value⟩ =
      .invalid (ascii "expected a JSON object, got " ++ name) := by
  refine ⟨fun exc h => ?_, fun e h => ?_, fun name h => ?_⟩ <;>
    simp only [parseEvent, Interpreter.functions, Interpreter.decode, if_pos hutf8, h]

theorem loads_of_not_object {value : Bytes} {v : Value}
    (hread : JsonText.read python i.loadsTrap value = .ok v)
    (hv : ∀ fields, v ≠ .object fields) : i.loads value = .ok (.other (typeName v)) := by
  rw [Interpreter.loads, hread]
  cases v with
  | object fields => exact absurd rfl (hv fields)
  | _ => rfl

/-- **Which messages the consumer gets past.** `parse_event` returns and `process_message` returns
true exactly when the message has a value, `json.loads` raises nothing but a `JSONDecodeError`,
`clicked_at_ms` is not infinite, and the connector takes the row. -/
theorem processMessage_true_iff (c : Connector) (i : Interpreter) (msg : Message) :
    c.GetsPast i msg ↔ c.Passes i msg := by
  obtain ⟨value⟩ := msg
  cases value with
  | none => exact iff_of_false (not_getsPast_of_raised rfl) fun ⟨_, h, _⟩ => nomatch h
  | some value =>
    have hpasses : c.Passes i ⟨some value⟩ ↔ (Json.utf8Valid value = true →
        ¬ JsonText.Traps python i.loadsTrap value ∧ ∀ fields,
          JsonText.read python i.loadsTrap value = .ok (.object fields) →
          missingField (Interpreter.dict fields) = none →
          (∀ v ∈ (Interpreter.dict fields).lookup (ascii "clicked_at_ms"), infinite v = false) ∧
          ∀ row, eventRow i.functions (Interpreter.dict fields) = .ok row → c.Takes row) := by
      simp [Connector.Passes]
    rw [hpasses]
    by_cases hutf8 : Json.utf8Valid value = true
    · rw [imp_iff_right hutf8, ← JsonText.read_traps_iff]
      obtain ⟨hdecode, hraise, hother⟩ := parseEvent_of_loads (i := i) hutf8
      cases hread : JsonText.read python i.loadsTrap value with
      | error err =>
        cases err with
        | malformed =>
          have hloads : i.loads value = .error (.decodeError (i.jsonDecodeError value)) := by
            rw [Interpreter.loads, hread]
          exact iff_of_true (getsPast_of_invalid (hdecode _ hloads)) ⟨nofun, nofun⟩
        | trapped e =>
          have hloads : i.loads value = .error (.other e) := by rw [Interpreter.loads, hread]
          exact iff_of_false (not_getsPast_of_raised (hraise _ hloads)) fun h => h.1 ⟨e, rfl⟩
      | ok v =>
        rw [and_iff_right (by simp)]
        by_cases hobject : ∃ fields, v = .object fields
        · obtain ⟨fields, rfl⟩ := hobject
          have hfields : ∀ P : List (Bytes × Value) → Prop, (∀ fields',
              (.ok (.object fields) : Except (JsonText.Error PyError) Value) =
                .ok (.object fields') → P fields') ↔ P fields := by
            intro P
            constructor
            · intro h
              exact h fields rfl
            · rintro h fields' heq
              cases heq
              exact h
          rw [hfields]
          cases hmissing : missingField (Interpreter.dict fields) with
          | none => simpa using getsPast_dict_iff hutf8 hread hmissing
          | some field =>
            exact iff_of_true (getsPast_of_invalid (parseEvent_missing hutf8 hread hmissing)) nofun
        · have hloads := loads_of_not_object hread fun fields h => hobject ⟨fields, h⟩
          refine iff_of_true (getsPast_of_invalid (hother _ hloads)) fun fields heq => ?_
          cases heq
          exact absurd ⟨fields, rfl⟩ hobject
    · have hinvalid : parseEvent i.functions ⟨some value⟩ =
          .invalid (ascii "invalid utf-8: " ++ i.unicodeDecodeError value) := by
        simp only [parseEvent, Interpreter.functions, Interpreter.decode, if_neg hutf8]
      exact iff_of_true (getsPast_of_invalid hinvalid) fun h => absurd h hutf8

end Passes

def Parsed.isRaised : Parsed Value → Bool
  | .raised _ => true
  | _ => false

/-- Python as it is installed, as far as the message below needs it. -/
def plainInterpreter : Interpreter where
  intOfStr text := .error (ascii "invalid literal for int() with base 10: " ++ text)
  unicodeDecodeError _ := ascii "'utf-8' codec can't decode byte"
  jsonDecodeError _ := ascii "Expecting value"

/-- A connector and a MySQL that take every row without lists and dicts. -/
def plainConnector : Connector where
  converts
    | .array _ => false
    | .object _ => false
    | _ => true
  list_unsupported _ := rfl
  dict_unsupported _ := rfl
  conversionErrno := -1
  conversionErrno_transient := by decide
  mysql _ := .ok ()
  printable _ := true

/-- A click whose time is a number that no double can hold. -/
def endlessClick : Bytes :=
  ascii "\x7b\"event_id\":\"e\",\"short_code\":\"a\",\"clicked_at_ms\":1e999\x7d"

theorem endlessClick_raised : ¬ ∀ msg : Message, plainConnector.GetsPast plainInterpreter msg := by
  intro hall
  have hraised : (parseEvent plainInterpreter.functions ⟨some endlessClick⟩).isRaised = true := by
    decide +kernel
  have hreturns := (hall ⟨some endlessClick⟩).1
  cases hparse : parseEvent plainInterpreter.functions ⟨some endlessClick⟩ with
  | raised e => exact hreturns e hparse
  | event event => rw [hparse] at hraised; cases hraised
  | invalid reason => rw [hparse] at hraised; cases hraised

end Click
end UrlShortener
