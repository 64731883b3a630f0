import UrlShortener.Analytics.ClickQueue
import UrlShortener.Http.Router

/-!
# UrlShortener.Analytics.Worker

Which events the worker thread survives.

The header values of a click are copied as they came from the wire. They become JSON only on the
worker thread, which has no handler: a header that is not UTF-8 ends the process.
-/

namespace UrlShortener
namespace Analytics

open Http ShortUrl

theorem utf8Valid_base62Encode (id : UInt64) : Json.utf8Valid (base62Encode id) = true := by
  refine Json.utf8Valid_of_ascii fun b hb => ?_
  have halphabet : ∀ b ∈ alphabet, b.toNat < 128 :=
    List.all_iff_forall_prop.mp (by decide +kernel)
  exact UInt8.lt_iff_toNat_lt.mpr (halphabet b (base62Encode_mem id b hb))

/-- The bytes of an event that came from the request. -/
def ClickEvent.texts (event : ClickEvent) : List Bytes :=
  [event.code, event.userAgent, event.referer, event.xForwardedFor]

theorem buildEventJson_isSome (event : ClickEvent) : (buildEventJson event).isSome =
    (Json.utf8Valid event.eventId && event.texts.all Json.utf8Valid) := by
  rw [buildEventJson, ClickEvent.texts]
  simp only [List.all_cons, List.all_nil, Bool.and_true, ← Json.dumpString_isSome]
  cases Json.dumpString event.eventId <;> cases Json.dumpString event.referer <;>
    cases Json.dumpString event.code <;> cases Json.dumpString event.userAgent <;>
    cases Json.dumpString event.xForwardedFor <;> rfl

/-- `publish_click` leaves the id to the worker. -/
theorem withId_clickEvent (req : HttpRequest) (code : Bytes) (now : Int) (id : Option UInt64) :
    (clickEvent req code now).withId id =
      id.map fun id => { clickEvent req code now with eventId := base62Encode id } := by
  cases id <;> rfl

/-- The worker's next step counts the event in its hand as accepted or failed, and the worker is
back in its loop. -/
def Survives (cfg : Config) (s : State) (w : Choice) : Prop :=
  ∃ s', step cfg s (.worker w) = some s' ∧ s'.worker = .loop ∧
    s'.produceAccepted + s'.produceFailed = s.produceAccepted + s.produceFailed + 1

theorem survives_iff_handle {cfg : Config} {s : State} {w : Choice} {t : Nat} {event : ClickEvent}
    (hw : s.worker = .handling t event) : Survives cfg s w ↔
      (handle cfg s event w).worker = .loop ∧ (handle cfg s event w).produceAccepted +
        (handle cfg s event w).produceFailed = s.produceAccepted + s.produceFailed + 1 := by
  have hstep : step cfg s (.worker w) = some (handle cfg s event w) := by
    rw [step, hw]
    rfl
  rw [Survives, hstep]
  simp

theorem observe_counts_one (s : State) (ok : Bool) :
    (s.observeKafkaProduceAccepted ok).produceAccepted +
      (s.observeKafkaProduceAccepted ok).produceFailed = s.produceAccepted + s.produceFailed + 1 := by
  cases ok with
  | true => exact Nat.add_right_comm ..
  | false => rfl

/-- With a producer, an event in hand is survived when it gets an id and can be serialized. -/
theorem handle_survives_iff {maxQueue : Nat} {s : State} {event : ClickEvent} {w : Choice} :
    ((handle { maxQueue } s event w).worker = .loop ∧
      (handle { maxQueue } s event w).produceAccepted +
        (handle { maxQueue } s event w).produceFailed = s.produceAccepted + s.produceFailed + 1) ↔
      ((event.withId w.id).bind buildEventJson).isSome = true := by
  unfold handle
  cases event.withId w.id with
  | none => simp
  | some event =>
    simp only [Bool.false_eq_true, if_false, reduceCtorEq, Option.bind_some]
    cases buildEventJson event with
    | none => simp
    | some payload => simpa using observe_counts_one s w.accepts

/-- **What the worker survives.** For every event that the worker has taken from the queue, in
every run: it produces the event and goes on exactly when the code and the three headers of the
request are UTF-8 and the generator gives out an id. -/
theorem worker_survives_iff {maxQueue : Nat} {ls : List Label} {s : State} {t : Nat}
    {event : ClickEvent} (hr : Machine.run (step { maxQueue }) {} ls = some s)
    (hw : s.worker = .handling t event) :
    ∃ call, s.calls[t]? = some call ∧ ∀ w : Choice, Survives { maxQueue } s w ↔
      w.id.isSome = true ∧ Json.utf8Valid call.code = true ∧
        Json.utf8Valid (call.req.headerOrEmpty (ascii "User-Agent")) = true ∧
        Json.utf8Valid (call.req.headerOrEmpty (ascii "Referer")) = true ∧
        Json.utf8Valid (call.req.headerOrEmpty (ascii "X-Forwarded-For")) = true := by
  have hkept := (Inv.of_run hr).kept
  have hpushed : (t, event) ∈ s.pushed := by
    rw [hkept.fifo]
    exact List.mem_append_left _ (hkept.in_hand t event hw)
  obtain ⟨call, hcall, henqueued⟩ := (hkept.pushed_iff t event).mp hpushed
  obtain ⟨now, rfl⟩ := hkept.copied t call event hcall (event_of_enqueued henqueued)
  refine ⟨call, hcall, fun w => ?_⟩
  rw [survives_iff_handle hw, handle_survives_iff, withId_clickEvent]
  cases w.id with
  | none => simp
  | some id =>
    simp [buildEventJson_isSome, ClickEvent.texts, utf8Valid_base62Encode, clickEvent]

/-- A click on `abc` with the given request, up to the point where the worker has its event. -/
def clickRun (req : HttpRequest) : List Label :=
  [.publish req (ascii "abc"), .call 0 7, .call 0 7, .call 0 7, .call 0 7, .call 0 7, .call 0 7,
    .worker {}, .worker {}, .worker {}, .worker {}]

theorem clickRun_handling (req : HttpRequest) : ∃ s,
    Machine.run (step { maxQueue := 1 }) {} (clickRun req) = some s ∧
    s.worker = .handling 0 (clickEvent req (ascii "abc") 7) ∧
    s.calls = [⟨req, ascii "abc", .returned (some (clickEvent req (ascii "abc") 7))⟩] :=
  ⟨_, rfl, rfl, rfl⟩

/-- The request that the connection holds after it has received `stream`. -/
def received (stream : Bytes) : HttpRequest := (HttpConn.holding stream).processRead.1.request

/-- The HTTP parser produces the request on some connection. -/
def FromParser (req : HttpRequest) : Prop :=
  ∃ c c₁ : HttpConn, c.processRead = (c₁, .getRequest) ∧ c₁.request = req

theorem received_fromParser {S : Bytes} (h : (HttpConn.holding S).processRead.2 = .getRequest) :
    FromParser (received S) := ⟨_, _, HttpConn.holding_reads h, rfl⟩

/-- The request is complete, and the headers that a click takes from it are UTF-8. -/
def isClean (r : HttpConn × HttpCode) : Bool :=
  decide (r.2 = .getRequest) &&
    Json.utf8Valid (r.1.request.headerOrEmpty (ascii "User-Agent")) &&
    Json.utf8Valid (r.1.request.headerOrEmpty (ascii "Referer")) &&
    Json.utf8Valid (r.1.request.headerOrEmpty (ascii "X-Forwarded-For"))

theorem isClean_received {S : Bytes} (h : isClean (HttpConn.holding S).processRead = true) :
    FromParser (received S) ∧
      Json.utf8Valid ((received S).headerOrEmpty (ascii "User-Agent")) = true ∧
      Json.utf8Valid ((received S).headerOrEmpty (ascii "Referer")) = true ∧
      Json.utf8Valid ((received S).headerOrEmpty (ascii "X-Forwarded-For")) = true := by
  simp only [isClean, Bool.and_eq_true, decide_eq_true_eq] at h
  exact ⟨received_fromParser h.1.1.1, h.1.1.2, h.1.2, h.2⟩

/-- A redirect with a header of ASCII text. -/
def plainAgent : Bytes := ascii "GET /abc HTTP/1.1\r\nUser-Agent: curl/8\r\n\r\n"

theorem worker_survives_iff_plainAgent : ∃ s,
    Machine.run (step { maxQueue := 1 }) {} (clickRun (received plainAgent)) = some s ∧
    FromParser (received plainAgent) ∧ Survives { maxQueue := 1 } s {} := by
  obtain ⟨hparser, hagent, hreferer, hforwarded⟩ :=
    isClean_received (show isClean (HttpConn.holding plainAgent).processRead = true by
      decide +kernel)
  obtain ⟨s, hr, hw, hcalls⟩ := clickRun_handling (received plainAgent)
  refine ⟨s, hr, hparser, ?_⟩
  obtain ⟨call, hcall, hiff⟩ := worker_survives_iff hr hw
  rw [hcalls] at hcall
  cases hcall
  exact (hiff {}).mpr ⟨rfl, by decide +kernel, hagent, hreferer, hforwarded⟩

/-- The same with a byte in the header that is never UTF-8. -/
def badAgent : Bytes := ascii "GET /abc HTTP/1.1\r\nUser-Agent: " ++ [255] ++ ascii "\r\n\r\n"

theorem worker_raises_badAgent :
    ¬ ∀ (maxQueue : Nat) (ls : List Label) (s : State) (t : Nat) (event : ClickEvent) (w : Choice),
      Machine.run (step { maxQueue }) {} ls = some s → s.worker = .handling t event →
      (∀ call ∈ s.calls, FromParser call.req ∧ call.code = ascii "abc") → w.id.isSome = true →
      Survives { maxQueue } s w := by
  intro hall
  obtain ⟨s, hr, hw, hcalls⟩ := clickRun_handling (received badAgent)
  have hparser : ∀ call ∈ s.calls, FromParser call.req ∧ call.code = ascii "abc" := by
    intro call hcall
    rw [hcalls] at hcall
    obtain rfl := List.mem_singleton.mp hcall
    exact ⟨received_fromParser (by decide +kernel), rfl⟩
  have hsurvives := hall 1 _ s 0 _ {} hr hw hparser rfl
  rw [survives_iff_handle hw, handle_survives_iff, withId_clickEvent] at hsurvives
  have hbad : Json.utf8Valid ((received badAgent).headerOrEmpty (ascii "User-Agent")) = false := by
    decide +kernel
  simp [buildEventJson_isSome, ClickEvent.texts, clickEvent, hbad] at hsurvives

end Analytics
end UrlShortener
