import UrlShortener.Http.Message

/-!
# UrlShortener.Observability.StructuredLogger

`log_access`: the request thread builds a line and puts it into a bounded queue, or drops it. The
thread that writes the queue to the file is the worker of `LogWorker`.
-/

namespace UrlShortener
namespace Observability

open Http (HttpRequest)

/-- `json_escape` on one byte. -/
def escapeByte (c : UInt8) : Bytes :=
  if c = 92 then [92, 92]
  else if c = 34 then [92, 34]
  else if c = 10 then [92, 110]
  else if c = 13 then [92, 114]
  else if c = 9 then [92, 116]
  else [c]

/-- The bytes that are escaped, each with the letter behind its backslash. -/
def escapes : List (UInt8 × UInt8) := [(92, 92), (34, 34), (10, 110), (13, 114), (9, 116)]

/-- All that `json_escape` does to a byte. -/
theorem escapeByte_cases (c : UInt8) :
    (∃ e ∈ escapes, c = e.1 ∧ escapeByte c = [92, e.2]) ∨
    ((∀ e ∈ escapes, c ≠ e.1) ∧ escapeByte c = [c]) := by
  by_cases hescaped : ∃ e ∈ escapes, c = e.1
  · have hall : ∀ e ∈ escapes, escapeByte e.1 = [92, e.2] :=
      List.all_iff_forall_prop.mp (by decide)
    obtain ⟨e, he, rfl⟩ := hescaped
    exact Or.inl ⟨e, he, rfl, hall e he⟩
  · have hne : ∀ e ∈ escapes, c ≠ e.1 := fun e he heq => hescaped ⟨e, he, heq⟩
    have hall := hne
    simp only [escapes, List.forall_mem_cons] at hall
    obtain ⟨h1, h2, h3, h4, h5, -⟩ := hall
    refine Or.inr ⟨hne, ?_⟩
    unfold escapeByte
    rw [if_neg h1, if_neg h2, if_neg h3, if_neg h4, if_neg h5]

def jsonEscape (value : Bytes) : Bytes := value.flatMap escapeByte

/-- What a line says of the moment and of the peer. -/
structure Occasion where
  /-- `now_iso8601()`. -/
  ts : Bytes
  /-- `duration_ms`, with three decimals. -/
  durationMs : Bytes
  remoteAddr : Bytes

/-- The line that `log_access` builds. -/
def accessLine (at_ : Occasion) (req : HttpRequest) (status : Int) : Bytes :=
  ascii "\x7b" ++
    ascii "\"ts\":\"" ++ at_.ts ++ ascii "\"," ++
    ascii "\"event\":\"http_access\"," ++
    ascii "\"method\":\"" ++ jsonEscape req.method ++ ascii "\"," ++
    ascii "\"path\":\"" ++ jsonEscape req.path ++ ascii "\"," ++
    ascii "\"route\":\"" ++ jsonEscape req.routePattern ++ ascii "\"," ++
    ascii "\"status\":" ++ toDecimalInt status ++ ascii "," ++
    ascii "\"duration_ms\":" ++ at_.durationMs ++ ascii "," ++
    ascii "\"remote_addr\":\"" ++ jsonEscape at_.remoteAddr ++ ascii "\"," ++
    ascii "\"user_agent\":\"" ++ jsonEscape (req.headerOrEmpty (ascii "User-Agent")) ++ ascii "\"" ++
    ascii "\x7d\n"

structure StructuredLogger where
  enabled : Bool
  path : Bytes
  accepting : Bool
  maxQueue : Nat
  queue : List Bytes := []
deriving DecidableEq

namespace StructuredLogger

def enqueue (l : StructuredLogger) (line : Bytes) : StructuredLogger × Bool :=
  if !l.accepting || decide (l.maxQueue ≤ l.queue.length) then (l, false)
  else ({ l with queue := l.queue ++ [line] }, true)

/-- The metrics are left out. -/
def logAccess (l : StructuredLogger) (at_ : Occasion) (req : HttpRequest) (status : Int) :
    StructuredLogger :=
  if !l.enabled || decide (l.path = []) || !l.accepting then l
  else (l.enqueue (accessLine at_ req status)).1

/-- The next line finds a place in the queue. -/
structure Takes (l : StructuredLogger) : Prop where
  enabled : l.enabled = true
  path : l.path ≠ []
  accepting : l.accepting = true
  room : l.queue.length < l.maxQueue

theorem logAccess_takes {l : StructuredLogger} (h : l.Takes) (at_ : Occasion) (req : HttpRequest)
    (status : Int) :
    l.logAccess at_ req status = { l with queue := l.queue ++ [accessLine at_ req status] } := by
  have hroom := Nat.not_le.mpr h.room
  unfold logAccess enqueue
  simp only [h.enabled, h.path, h.accepting, hroom, Bool.not_true, decide_false, Bool.or_self,
    Bool.false_eq_true, if_false]

theorem logAccess_drops {l : StructuredLogger} (h : ¬ l.Takes) (at_ : Occasion) (req : HttpRequest)
    (status : Int) : l.logAccess at_ req status = l := by
  unfold logAccess enqueue
  split
  · rfl
  · rename_i hon
    simp only [Bool.or_eq_true, Bool.not_eq_true', decide_eq_true_eq, not_or, Bool.not_eq_false] at hon
    obtain ⟨⟨henabled, hpath⟩, haccepting⟩ := hon
    split
    · rfl
    · rename_i hroom
      simp only [Bool.or_eq_true, Bool.not_eq_true', decide_eq_true_eq, not_or, Nat.not_le] at hroom
      exact absurd ⟨henabled, hpath, haccepting, hroom.2⟩ h

end StructuredLogger

/-! ## Lines -/

/-- What was escaped. -/
def jsonUnescape : Bytes → Bytes
  | [] => []
  | [c] => [c]
  | c :: d :: text =>
    if c = 92 then
      (if d = 110 then 10 else if d = 114 then 13 else if d = 116 then 9 else d) :: jsonUnescape text
    else c :: jsonUnescape (d :: text)

theorem jsonUnescape_escapeByte (c : UInt8) (text : Bytes) :
    jsonUnescape (escapeByte c ++ text) = c :: jsonUnescape text := by
  rcases escapeByte_cases c with ⟨e, he, rfl, heq⟩ | ⟨hne, heq⟩
  · have hall : ∀ e ∈ escapes, jsonUnescape (92 :: e.2 :: text) = e.1 :: jsonUnescape text := by
      simp only [escapes, List.forall_mem_cons]
      exact ⟨rfl, rfl, rfl, rfl, rfl, List.forall_mem_nil _⟩
    rw [heq]
    exact hall e he
  · have hslash : c ≠ 92 := hne (92, 92) List.mem_cons_self
    rw [heq]
    cases text with
    | nil => rfl
    | cons d text => exact if_neg hslash

/-- `json_escape` loses nothing. -/
theorem jsonUnescape_jsonEscape (value : Bytes) : jsonUnescape (jsonEscape value) = value := by
  induction value with
  | nil => rfl
  | cons c value ih =>
    calc jsonUnescape (jsonEscape (c :: value))
        = jsonUnescape (escapeByte c ++ jsonEscape value) := rfl
      _ = c :: jsonUnescape (jsonEscape value) := jsonUnescape_escapeByte c _
      _ = c :: value := by rw [ih]

theorem jsonEscape_injective : Function.Injective jsonEscape :=
  Function.LeftInverse.injective jsonUnescape_jsonEscape

/-- **Of the headers a line shows `User-Agent`**, and all of it. -/
theorem accessLine_headers (at_ : Occasion) (req : HttpRequest) (status : Int)
    (headers : StrMap Bytes) :
    accessLine at_ { req with headers := headers } status = accessLine at_ req status ↔
      ({ req with headers := headers } : HttpRequest).headerOrEmpty (ascii "User-Agent") =
        req.headerOrEmpty (ascii "User-Agent") := by
  unfold accessLine
  rw [List.append_cancel_right_eq, List.append_cancel_right_eq, List.append_cancel_left_eq]
  exact jsonEscape_injective.eq_iff

end Observability
end UrlShortener
