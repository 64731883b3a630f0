import UrlShortener.Base.Bytes
import UrlShortener.Base.Machine

/-!
# UrlShortener.Consumer.Click

`consumer/click_consumer.py`: click events from Kafka into the table `click_event`.

A consumer process polls a message, parses it, tries the insert up to six times, and commits the
offset behind the message. It can die at any point; the next one starts from the committed
offsets. What is kept over a crash is the topic, the committed offsets and the table.

Python's own functions (`bytes.decode`, `json.loads`, `int`) and the way MySQL compares event ids
are parameters, and nothing is assumed of them. Each attempt to insert carries what MySQL and the
connector did. Log lines, metrics and the time between two attempts are left out.
-/

namespace UrlShortener
namespace Click

/-- An exception. -/
inductive PyError where
  /-- `mysql.connector.Error`. -/
  | mysql (errno : Int)
  | keyError
  | typeError (text : Bytes)
  | valueError (text : Bytes)
  | other
deriving DecidableEq

/-- What `json.loads` returns: a dict, or a value of another type. -/
inductive Loaded (V : Type) where
  | dict (fields : StrMap V)
  | other (typeName : Bytes)

/-- What `json.loads` raises: a `JSONDecodeError` with its text, or something else. -/
inductive LoadsError where
  | decodeError (text : Bytes)
  | other (e : PyError)

/-- Python's functions on values `V`. `decode` fails with the text of a `UnicodeDecodeError`. -/
structure Python (V : Type) where
  decode : Bytes → Except Bytes Bytes
  loads : Bytes → Except LoadsError (Loaded V)
  int : V → Except PyError Int
  truthy : V → Bool

def PERMANENT_MYSQL_ERRNOS : List Int := [1048, 1054, 1146, 1264, 1265, 1366, 1406, 3819]
def MAX_TRANSIENT_RETRIES : Nat := 5
def REQUIRED_EVENT_FIELDS : List Bytes := [ascii "event_id", ascii "short_code", ascii "clicked_at_ms"]

/-- A Kafka message; a tombstone has no value. -/
structure Message where
  value : Option Bytes

variable {V K : Type}

/-! ## parse_event -/

/-- `(event, None)`, `(None, reason)`, or an exception that `parse_event` does not catch. -/
inductive Parsed (V : Type) where
  | event (event : StrMap V)
  | invalid (reason : Bytes)
  | raised (e : PyError)

/-- The loop over the required fields: the first one that is missing. -/
def missingField (event : StrMap V) : Option Bytes :=
  REQUIRED_EVENT_FIELDS.find? fun field => decide (event.lookup field = none)

/-- `event[field]`. -/
def getItem (event : StrMap V) (field : Bytes) : Except PyError V :=
  match event.lookup field with
  | some v => .ok v
  | none => .error .keyError

def parseEvent (py : Python V) (msg : Message) : Parsed V :=
  match msg.value with
  -- `None` has no `decode`
  | none => .raised .other
  | some value =>
    match py.decode value with
    | .error exc => .invalid (ascii "invalid utf-8: " ++ exc)
    | .ok raw =>
      match py.loads raw with
      | .error (.decodeError exc) => .invalid (ascii "invalid json: " ++ exc)
      | .error (.other e) => .raised e
      | .ok (.other typeName) => .invalid (ascii "expected a JSON object, got " ++ typeName)
      | .ok (.dict event) =>
        match missingField event with
        | some field => .invalid (ascii "missing required field: " ++ field)
        | none =>
          match getItem event (ascii "clicked_at_ms") >>= py.int with
          | .ok _ => .event event
          | .error (.typeError exc) => .invalid (ascii "clicked_at_ms is not an integer: " ++ exc)
          | .error (.valueError exc) => .invalid (ascii "clicked_at_ms is not an integer: " ++ exc)
          | .error e => .raised e

/-! ## insert_event and insert_once -/

/-- The values of the `INSERT`; a null column is `none`. -/
structure Row (V : Type) where
  eventId : V
  shortCode : V
  clickedAtMs : Int
  userAgent : Option V
  referer : Option V
  xForwardedFor : Option V

/-- `event.get(field) or None`. -/
def getOrNone (py : Python V) (event : StrMap V) (field : Bytes) : Option V :=
  (event.lookup field).filter py.truthy

def eventRow (py : Python V) (event : StrMap V) : Except PyError (Row V) := do
  return {
    eventId := ← getItem event (ascii "event_id")
    shortCode := ← getItem event (ascii "short_code")
    clickedAtMs := ← getItem event (ascii "clicked_at_ms") >>= py.int
    userAgent := getOrNone py event (ascii "user_agent")
    referer := getOrNone py event (ascii "referer")
    xForwardedFor := getOrNone py event (ascii "x_forwarded_for") }

/-- What happens between `conn.cursor()` and `cursor.close()`: the row is committed and no exception
is raised; or one is, before or after the row was stored. -/
inductive Answer where
  | success
  | fails (e : PyError) (stored : Bool)

/-- `INSERT ... ON DUPLICATE KEY UPDATE event_id = event_id`, with `key` the primary key under which
MySQL files an event id. -/
def insertRow [DecidableEq K] (key : V → K) (rows : List (Row V)) (row : Row V) : List (Row V) :=
  if key row.eventId ∈ rows.map fun r => key r.eventId then rows else rows ++ [row]

def insertEvent [DecidableEq K] (py : Python V) (key : V → K) (rows : List (Row V))
    (event : StrMap V) (a : Answer) : List (Row V) × Except PyError Unit :=
  match eventRow py event with
  | .error e => (rows, .error e)
  | .ok row =>
    match a with
    | .success => (insertRow key rows row, .ok ())
    | .fails e stored => (if stored then insertRow key rows row else rows, .error e)

/-- How `insert_once` ends: the event is in the table, the event is given up as poison, or the
exception is passed on. Both of the first two return true. -/
inductive Verdict where
  | inserted
  | poison
  | raised (e : PyError)

def insertOnce : Except PyError Unit → Verdict
  | .ok () => .inserted
  | .error (.mysql errno) =>
    if errno ∈ PERMANENT_MYSQL_ERRNOS then .poison else .raised (.mysql errno)
  | .error .keyError => .poison
  | .error (.typeError _) => .poison
  | .error (.valueError _) => .poison
  | .error .other => .raised .other

/-! ## The consumer and what is around it -/

/-- Where the consumer stands, with the partition and offset of the message in hand. -/
inductive Phase (V : Type) where
  | polling
  /-- In `process_message`, about to make the given attempt. -/
  | inserting (p o : Nat) (event : StrMap V) (attempt : Nat)
  /-- `process_message` returned true. -/
  | committing (p o : Nat)
  /-- The process has ended: it crashed, an exception left `main`, or it gave up. -/
  | ended

structure State (V : Type) where
  /-- The messages of each partition. -/
  log : Nat → List Message := fun _ => []
  /-- The offset each partition is committed to. -/
  committed : Nat → Nat := fun _ => 0
  rows : List (Row V) := []
  /-- The offset of the next message of each partition, as the process sees it. -/
  position : Nat → Nat := fun _ => 0
  phase : Phase V := .ended
  /-- The messages that were polled. -/
  consumed : List (Nat × Nat) := []
  /-- The messages that `insert_once` gave up. -/
  poison : List (Nat × Nat) := []

inductive Label where
  | produce (p : Nat) (msg : Message)
  /-- A consumer process starts. -/
  | start
  /-- `poll` returns the next message of partition `p`. -/
  | poll (p : Nat)
  /-- `poll` gave partition `p` up and took it again. -/
  | rebalance (p : Nat)
  | attempt (a : Answer)
  /-- The commit returns; the broker may have failed to store it. -/
  | commit (stored : Bool)
  /-- The process ends, whatever it is doing. -/
  | crash

section Steps

variable [DecidableEq K] (py : Python V) (key : V → K)

/-- `process_message` up to its loop. -/
def State.receive (s : State V) (p : Nat) (msg : Message) : State V :=
  let o := s.position p
  let s := { s with
    position := Function.update s.position p (o + 1)
    consumed := s.consumed ++ [(p, o)] }
  match parseEvent py msg with
  | .invalid _ => { s with phase := .committing p o }
  | .event event => { s with phase := .inserting p o event 0 }
  | .raised _ => { s with phase := .ended }

/-- One round of the loop of `process_message`. Only a `mysql.connector.Error` is retried. -/
def State.attempt (s : State V) (p o : Nat) (event : StrMap V) (n : Nat) (a : Answer) : State V :=
  let (rows, result) := insertEvent py key s.rows event a
  let s := { s with rows }
  match insertOnce result with
  | .inserted => { s with phase := .committing p o }
  | .poison => { s with phase := .committing p o, poison := s.poison ++ [(p, o)] }
  | .raised (.mysql _) =>
    if n + 1 < MAX_TRANSIENT_RETRIES + 1 then { s with phase := .inserting p o event (n + 1) }
    else { s with phase := .ended }
  | .raised _ => { s with phase := .ended }

def step (s : State V) : Label → Option (State V)
  | .produce p msg => some { s with log := Function.update s.log p (s.log p ++ [msg]) }
  | .start =>
    match s.phase with
    | .ended => some { s with position := s.committed, phase := .polling }
    | _ => none
  | .poll p =>
    match s.phase, (s.log p)[s.position p]? with
    | .polling, some msg => some (s.receive py p msg)
    | _, _ => none
  | .rebalance p =>
    match s.phase with
    | .polling => some { s with position := Function.update s.position p (s.committed p) }
    | _ => none
  | .attempt a =>
    match s.phase with
    | .inserting p o event n => some (s.attempt py key p o event n a)
    | _ => none
  | .commit stored =>
    match s.phase with
    | .committing p o =>
      some { s with
        committed := if stored then Function.update s.committed p (o + 1) else s.committed
        phase := .polling }
    | _ => none
  | .crash => some { s with phase := .ended }

end Steps

end Click
end UrlShortener
