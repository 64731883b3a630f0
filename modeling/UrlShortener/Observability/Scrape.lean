import UrlShortener.Base.Exposition
import UrlShortener.Base.JsonRoundTrip
import UrlShortener.Observability.MetricsRegistry

/-!
# UrlShortener.Observability.Scrape

What a reader of `/metrics` gets: for each series the number of calls that count for it, whatever
thread made which call and in which order. `scrape_counts` puts the text of `render_prometheus`
through the reader of `Base.Exposition`.
-/

namespace UrlShortener
namespace Observability

open Exposition (HasLine Item Sample)

/-! ## What calls count for -/

namespace Observation

def isHttp (method route cls : Bytes) : Observation → Bool
  | .httpRequest m r status _ =>
    decide (m = method) && decide (r = route) && decide (statusClass status = cls)
  | _ => false

def isRequest : Observation → Bool
  | .httpRequest _ _ _ _ => true
  | _ => false

/-- A request of at most this duration. -/
def within (bound : ℚ) : Observation → Bool
  | .httpRequest _ _ _ duration => decide (duration ≤ bound)
  | _ => false

def duration : Observation → ℚ
  | .httpRequest _ _ _ duration => duration
  | _ => 0

def isCache (result : Bytes) : Observation → Bool
  | .cacheResult r => decide (r = result)
  | _ => false

def isOriginCap (kind : Bytes) (acquired : Bool) : Observation → Bool
  | .originCap k a => decide (k = kind) && a == acquired
  | _ => false

/-- Queueing counts as publishing too. -/
def isPublish (success : Bool) : Observation → Bool
  | .kafkaPublish s => s == success
  | .kafkaEnqueue a => a == success
  | _ => false

def isEnqueue (accepted : Bool) : Observation → Bool
  | .kafkaEnqueue a => a == accepted
  | _ => false

def isProduce (ok : Bool) : Observation → Bool
  | .kafkaProduceAccepted o => o == ok
  | _ => false

def isDelivery (success : Bool) : Observation → Bool
  | .kafkaDelivery s => s == success
  | _ => false

def isLogEnqueue (accepted : Bool) : Observation → Bool
  | .logEnqueue a => a == accepted
  | _ => false

end Observation

open Observation

/-- The counters that are always there: name, `result` and what they count. -/
def plainCounters : List (String × String × (Observation → Bool)) :=
  [("shorturl_kafka_publish_total", "success", isPublish true),
    ("shorturl_kafka_publish_total", "failure", isPublish false),
    ("shorturl_kafka_enqueue_total", "accepted", isEnqueue true),
    ("shorturl_kafka_enqueue_total", "dropped", isEnqueue false),
    ("shorturl_kafka_produce_total", "accepted", isProduce true),
    ("shorturl_kafka_produce_total", "failed", isProduce false),
    ("shorturl_kafka_delivery_total", "success", isDelivery true),
    ("shorturl_kafka_delivery_total", "failure", isDelivery false),
    ("shorturl_log_enqueue_total", "accepted", isLogEnqueue true),
    ("shorturl_log_enqueue_total", "dropped", isLogEnqueue false)]

/-- The numbers that a scrape gives for a series. -/
def reported (ss : List Sample) (name : String) (labels : List (Bytes × Bytes)) : List Bytes :=
  (ss.filter fun s => decide (s.name = ascii name) && decide (s.labels = labels)).map Sample.value

/-- A series that is there from its first event on. -/
def present (n : Nat) : List Bytes := if n = 0 then [] else [toDecimal n]

/-- The samples say what was called. -/
structure Scraped (os : List Observation) (ss : List Sample) : Prop where
  http : ∀ method route status, 124 ∉ method → 124 ∉ route →
    reported ss "shorturl_http_requests_total"
      [(ascii "method", method), (ascii "route", route),
        (ascii "status_class", statusClass status)] =
      present (os.countP (isHttp method route (statusClass status)))
  bucket : ∀ i, reported ss "shorturl_http_request_duration_seconds_bucket"
    [(ascii "le", fixed6 (kLatencyBuckets i))] = [toDecimal (os.countP (within (kLatencyBuckets i)))]
  ascending : ∀ i j, i ≤ j →
    os.countP (within (kLatencyBuckets i)) ≤ os.countP (within (kLatencyBuckets j))
  below : ∀ i, os.countP (within (kLatencyBuckets i)) ≤ os.countP isRequest
  infinity : reported ss "shorturl_http_request_duration_seconds_bucket"
    [(ascii "le", ascii "+Inf")] = [toDecimal (os.countP isRequest)]
  count : reported ss "shorturl_http_request_duration_seconds_count" [] =
    [toDecimal (os.countP isRequest)]
  sum : reported ss "shorturl_http_request_duration_seconds_sum" [] =
    [fixed6 (os.map Observation.duration).sum]
  cache : ∀ result, reported ss "shorturl_cache_requests_total" [(ascii "result", result)] =
    present (os.countP (isCache result))
  plain : ∀ c ∈ plainCounters, reported ss c.1 [(ascii "result", ascii c.2.1)] =
    [toDecimal (os.countP c.2.2)]
  originCap : ∀ kind acquired, reported ss "shorturl_origin_cap_total"
    [(ascii "kind", kind), (ascii "result", ascii (if acquired then "acquired" else "rejected"))] =
      present (os.countP (isOriginCap kind acquired))

/-! ## What one call adds -/

namespace Observation

/-- The key that a request counts under. -/
def requestKey : Observation → Option Bytes
  | .httpRequest method route status _ => some (httpKey method route status)
  | _ => none

def cacheKey : Observation → Option Bytes
  | .cacheResult result => some result
  | _ => none

def originKey (acquired : Bool) : Observation → Option Bytes
  | .originCap kind a => if a = acquired then some kind else none
  | _ => none

def inCell (i : Fin 13) : Observation → Bool
  | .httpRequest _ _ _ duration => inBucket duration i
  | _ => false

/-- What the call is worth, counter by counter. -/
def worth (o : Observation) : Shard where
  httpRequests := o.requestKey.elim 0 fun k => SortedMap.single k 1
  httpLatencyBuckets := fun i => if o.inCell i then 1 else 0
  httpLatencyCount := if o.isRequest then 1 else 0
  httpLatencySum := o.duration
  cacheResults := o.cacheKey.elim 0 fun k => SortedMap.single k 1
  kafkaPublishSuccess := if o.isPublish true then 1 else 0
  kafkaPublishFailure := if o.isPublish false then 1 else 0
  kafkaEnqueueAccepted := if o.isEnqueue true then 1 else 0
  kafkaEnqueueDropped := if o.isEnqueue false then 1 else 0
  kafkaProduceAccepted := if o.isProduce true then 1 else 0
  kafkaProduceFailed := if o.isProduce false then 1 else 0
  kafkaDelivered := if o.isDelivery true then 1 else 0
  kafkaDeliveryFailed := if o.isDelivery false then 1 else 0
  logEnqueueAccepted := if o.isLogEnqueue true then 1 else 0
  logEnqueueDropped := if o.isLogEnqueue false then 1 else 0
  originCapAcquired := (o.originKey true).elim 0 fun k => SortedMap.single k 1
  originCapRejected := (o.originKey false).elim 0 fun k => SortedMap.single k 1

end Observation

theorem observe_zero (o : Observation) : (0 : Shard).observe o = o.worth := by
  cases o with
  | httpRequest method route status duration =>
    apply Shard.ext
    case httpLatencyBuckets =>
      funext i
      show (if inBucket duration i then 0 + 1 else 0) = if inBucket duration i then 1 else 0
      rw [zero_add]
    case httpLatencySum => exact zero_add duration
    all_goals rfl
  | cacheResult result => rfl
  | kafkaPublish success =>
    cases success with
    | true => rfl
    | false => rfl
  | kafkaEnqueue accepted =>
    cases accepted with
    | true => rfl
    | false => rfl
  | kafkaProduceAccepted ok =>
    cases ok with
    | true => rfl
    | false => rfl
  | kafkaDelivery success =>
    cases success with
    | true => rfl
    | false => rfl
  | logEnqueue accepted =>
    cases accepted with
    | true => rfl
    | false => rfl
  | originCap kind acquired =>
    cases acquired with
    | true => rfl
    | false => rfl

/-! ## The sums -/

def number (n : UInt64) : Bytes := toDecimal n.toNat

section Tally

theorem tally_field {V : Type} [AddCommMonoid V] (field : Shard → V) (hzero : field 0 = 0)
    (hadd : ∀ a b, field (a + b) = field a + field b) (os : List Observation) :
    field (tally os) = (os.map fun o => field o.worth).sum := by
  induction os with
  | nil => exact hzero
  | cons o os ih =>
    show field ((0 : Shard).observe o + tally os) = _
    rw [hadd, ih, observe_zero, List.map_cons, List.sum_cons]

theorem nsmul_one_eq (n : Nat) : n • (1 : UInt64) = UInt64.ofNat n := by
  induction n with
  | zero => rfl
  | succ n ih => rw [succ_nsmul, ih, UInt64.ofNat_add]; rfl

theorem nsmul_one_toNat {n : Nat} (h : n < 2 ^ 64) : (n • (1 : UInt64)).toNat = n := by
  rw [nsmul_one_eq, UInt64.toNat_ofNat']
  exact Nat.mod_eq_of_lt h

variable {os : List Observation} (hlen : os.length < 2 ^ 64)

include hlen

/-- A counter that one kind of call moves by one. -/
theorem counter_tally (field : Shard → UInt64) (hzero : field 0 = 0)
    (hadd : ∀ a b, field (a + b) = field a + field b) (p : Observation → Bool)
    (hp : ∀ o, field o.worth = if p o then 1 else 0) :
    number (field (tally os)) = toDecimal (os.countP p) := by
  have hsum : (os.map fun o => field o.worth) = os.map fun o => if p o then 1 else 0 :=
    List.map_congr_left fun o _ => hp o
  have hlt : os.countP p < 2 ^ 64 := Nat.lt_of_le_of_lt List.countP_le_length hlen
  rw [number, tally_field field hzero hadd, hsum, Sharded.sum_ite, nsmul_one_toNat hlt]

/-- A map of counters, of which a call moves one by one. -/
theorem counts_tally (field : Shard → Counts) (hzero : field 0 = 0)
    (hadd : ∀ a b, field (a + b) = field a + field b) (key : Observation → Option Bytes)
    (hkey : ∀ o, field o.worth = (key o).elim 0 fun k => SortedMap.single k 1) (k : Bytes) :
    ((field (tally os)).find k).toList.map number =
      present (os.countP fun o => decide (key o = some k)) := by
  have hsum : (os.map fun o => field o.worth) =
      os.map fun o => (key o).elim (0 : Counts) fun k => SortedMap.single k 1 :=
    List.map_congr_left fun o _ => hkey o
  rw [tally_field field hzero hadd, hsum, SortedMap.find_sum, present]
  split
  · rfl
  · have hlt : (os.countP fun o => decide (key o = some k)) < 2 ^ 64 :=
      Nat.lt_of_le_of_lt List.countP_le_length hlen
    show [number _] = _
    rw [number, nsmul_one_toNat hlt]

end Tally

/-! ## The text as comments and samples -/

/-- A name and its samples: labels and number. -/
abbrev Family := String × List (List (Bytes × Bytes) × Bytes)

def Family.samples (f : Family) : List Sample := f.2.map fun row => ⟨ascii f.1, row.1, row.2⟩

def result (text : String) : List (Bytes × Bytes) := [(ascii "result", ascii text)]

def comments (name help type : String) : List Bytes :=
  [ascii " HELP " ++ ascii name ++ ascii " " ++ ascii help,
    ascii " TYPE " ++ ascii name ++ ascii " " ++ ascii type]

/-- The blocks of the text: comments, and the families below them. -/
def blocks (m : Shard) : List (List Bytes × List Family) :=
  [(comments "shorturl_http_requests_total" "Total HTTP requests by route and status class."
      "counter",
    [("shorturl_http_requests_total",
      m.httpRequests.entries.map fun e => (httpLabels e.1, number e.2))]),
    (comments "shorturl_http_request_duration_seconds" "HTTP request latency histogram."
      "histogram",
    [("shorturl_http_request_duration_seconds_bucket",
      ((List.finRange 12).map fun i =>
        ([(ascii "le", fixed6 (kLatencyBuckets i))], number (m.httpLatencyBuckets i.castSucc))) ++
      [([(ascii "le", ascii "+Inf")], number (m.httpLatencyBuckets (Fin.last 12)))]),
      ("shorturl_http_request_duration_seconds_sum", [([], fixed6 m.httpLatencySum)]),
      ("shorturl_http_request_duration_seconds_count", [([], number m.httpLatencyCount)])]),
    (comments "shorturl_cache_requests_total" "Cache lookups by result." "counter",
    [("shorturl_cache_requests_total",
      m.cacheResults.entries.map fun e => ([(ascii "result", e.1)], number e.2))]),
    (comments "shorturl_kafka_publish_total"
      "Kafka click enqueue on request path (accepted vs dropped/unavailable; not zero-loss)."
      "counter",
    [("shorturl_kafka_publish_total", [(result "success", number m.kafkaPublishSuccess),
      (result "failure", number m.kafkaPublishFailure)])]),
    (comments "shorturl_kafka_enqueue_total" "Bounded click-queue enqueue results." "counter",
    [("shorturl_kafka_enqueue_total", [(result "accepted", number m.kafkaEnqueueAccepted),
      (result "dropped", number m.kafkaEnqueueDropped)])]),
    (comments "shorturl_kafka_produce_total" "Background rd_kafka_producev accept/fail." "counter",
    [("shorturl_kafka_produce_total", [(result "accepted", number m.kafkaProduceAccepted),
      (result "failed", number m.kafkaProduceFailed)])]),
    (comments "shorturl_kafka_delivery_total" "Kafka delivery-report callback outcomes." "counter",
    [("shorturl_kafka_delivery_total", [(result "success", number m.kafkaDelivered),
      (result "failure", number m.kafkaDeliveryFailed)])]),
    (comments "shorturl_log_enqueue_total" "Bounded structured-log queue enqueue results." "counter",
    [("shorturl_log_enqueue_total", [(result "accepted", number m.logEnqueueAccepted),
      (result "dropped", number m.logEnqueueDropped)])]),
    (comments "shorturl_origin_cap_total" "MySQL origin budget acquire results when Redis is down."
      "counter",
    [("shorturl_origin_cap_total",
      (m.originCapAcquired.entries.map fun e =>
        ([(ascii "kind", e.1), (ascii "result", ascii "acquired")], number e.2)) ++
      (m.originCapRejected.entries.map fun e =>
        ([(ascii "kind", e.1), (ascii "result", ascii "rejected")], number e.2)))])]

def families (m : Shard) : List Family := (blocks m).flatMap Prod.snd

def items (m : Shard) : List Item :=
  (blocks m).flatMap fun b =>
    b.1.map Item.comment ++ (b.2.flatMap Family.samples).map Item.sample

theorem samples_items (m : Shard) :
    (items m).flatMap Item.samples = (families m).flatMap Family.samples := by
  have hsamples : ∀ ss : List Sample, (ss.map Item.sample).flatMap Item.samples = ss := by
    intro ss
    induction ss with
    | nil => rfl
    | cons s ss ih =>
      rw [List.map_cons, List.flatMap_cons, ih]
      rfl
  have hcomments : ∀ cs : List Bytes, (cs.map Item.comment).flatMap Item.samples = [] := by
    intro cs
    rw [List.flatMap_map]
    exact List.flatMap_eq_nil_iff.mpr fun _ _ => rfl
  rw [items, families, List.flatMap_assoc, List.flatMap_assoc]
  refine List.flatMap_congr fun b _ => ?_
  rw [List.flatMap_append, hcomments, hsamples]
  rfl

/-! ### render_prometheus writes them -/

theorem labels_eq (values : List (Bytes × Bytes)) :
    labels values = Exposition.labelsText escapeLabelValue values := by
  have hbrace : ascii "\x7b" = [123] := by decide
  have hclose : ascii "\x7d" = [125] := by decide
  have hcomma : ascii "," = [44] := by decide
  have hequals : ascii "=\"" = [61, 34] := by decide
  have hquote : ascii "\"" = [34] := by decide
  have hlater : ∀ values, labelsLoop false values =
      values.flatMap fun v => 44 :: Exposition.labelText escapeLabelValue v := by
    intro values
    induction values with
    | nil => rfl
    | cons v values ih =>
      rw [labelsLoop, ih, hcomma, hequals, hquote, List.flatMap_cons]
      simp [Exposition.labelText]
  have hjoin : ∀ v values, Exposition.joinLabels escapeLabelValue (v :: values) =
      Exposition.labelText escapeLabelValue v ++
        values.flatMap fun v => 44 :: Exposition.labelText escapeLabelValue v := by
    intro v values
    induction values generalizing v with
    | nil => exact (List.append_nil _).symm
    | cons v' values ih =>
      rw [Exposition.joinLabels, ih, List.flatMap_cons]
      · simp
      · exact List.cons_ne_nil v' values
  cases values with
  | nil => rfl
  | cons v values =>
    rw [labels, Exposition.labelsText, if_neg (List.cons_ne_nil _ _), if_neg (List.cons_ne_nil _ _),
      hjoin, labelsLoop, hlater, hbrace, hclose, hequals, hquote]
    simp [Exposition.labelText]

theorem sampleLine_eq (name : String) (values : List (Bytes × Bytes)) (text : Bytes) :
    sampleLine name values text =
      Item.text escapeLabelValue (.sample ⟨ascii name, values, text⟩) := by
  have hspace : ascii " " = [SP] := by decide
  have hend : ascii "\n" = [LF] := by decide
  rw [sampleLine, labels_eq, hspace, hend]
  simp [Item.text, Sample.line]

theorem header_eq (name help type : String) :
    header name help type =
      ((comments name help type).map Item.comment).flatMap (Item.text escapeLabelValue) := by
  have hhelp : ascii "# HELP " = 35 :: ascii " HELP " := by decide
  have htype : ascii "# TYPE " = 35 :: ascii " TYPE " := by decide
  have hend : ascii "\n" = [LF] := by decide
  rw [header, hhelp, htype, hend]
  simp [comments, Item.text]

theorem renderSums_eq (m : Shard) :
    renderSums m = (items m).flatMap (Item.text escapeLabelValue) := by
  unfold renderSums items blocks
  simp only [countLine, sampleLine_eq, header_eq, Family.samples,
    List.flatMap_cons, List.flatMap_nil, List.flatMap_append, List.map_append, List.map_map,
    List.flatMap_map, List.map_cons, List.map_nil, List.append_nil, List.append_assoc, number,
    result, Function.comp_def]

/-! ### and they can be read -/

theorem lf_toDecimal (n : Nat) : LF ∉ toDecimal n := fun h =>
  absurd (JsonText.toDecimal_isDigit n LF h) (by decide)

theorem lf_fixed6 (q : ℚ) : LF ∉ fixed6 q := by
  have hdigit : ∀ k i, UInt8.ofNat (48 + k / 10 ^ i % 10) ≠ LF := by
    intro k i heq
    have htoNat := congrArg UInt8.toNat heq
    rw [UInt8.toNat_ofNat', Nat.mod_eq_of_lt (by omega)] at htoNat
    have hten : LF.toNat = 10 := rfl
    omega
  have hsign : LF ∉ if q < 0 then ascii "-" else [] := by
    split
    · decide
    · decide
  refine List.not_mem_append (List.not_mem_append (List.not_mem_append hsign (lf_toDecimal _))
    (by decide)) fun h => ?_
  obtain ⟨i, -, hi⟩ := List.mem_map.mp h
  exact hdigit _ _ hi

/-- A name of the format. -/
def IsName (name : Bytes) : Prop :=
  (∃ b bs, name = b :: bs ∧ b ≠ 35) ∧ ∀ b ∈ name, Exposition.inName b = true

/-- The keys are without equals signs and line feeds. -/
def PlainKeys (values : List (Bytes × Bytes)) : Prop :=
  ∀ l ∈ values, ∀ b ∈ l.1, b ≠ 61 ∧ b ≠ LF

theorem plainKeys_nil : PlainKeys [] := fun _ hl => absurd hl List.not_mem_nil

theorem plainKeys_cons {key value : Bytes} {values : List (Bytes × Bytes)}
    (hkey : ∀ b ∈ key, b ≠ 61 ∧ b ≠ LF) (h : PlainKeys values) : PlainKeys ((key, value) :: values) := by
  intro l hl
  rcases List.mem_cons.mp hl with rfl | hl
  · exact hkey
  · exact h l hl

theorem families_plain (m : Shard) : ∀ f ∈ families m, ∀ row ∈ f.2, PlainKeys row.1 ∧ LF ∉ row.2 := by
  obtain ⟨hmethod, hroute, hclass⟩ : (∀ b ∈ ascii "method", b ≠ 61 ∧ b ≠ LF) ∧
      (∀ b ∈ ascii "route", b ≠ 61 ∧ b ≠ LF) ∧ (∀ b ∈ ascii "status_class", b ≠ 61 ∧ b ≠ LF) := by
    repeat rw [ascii_ofList]
    refine ⟨?_, ?_, ?_⟩
    all_goals exact List.all_iff_forall_prop.mp (by decide)
  obtain ⟨hle, hresult, hkind⟩ : (∀ b ∈ ascii "le", b ≠ 61 ∧ b ≠ LF) ∧
      (∀ b ∈ ascii "result", b ≠ 61 ∧ b ≠ LF) ∧ (∀ b ∈ ascii "kind", b ≠ 61 ∧ b ≠ LF) := by
    repeat rw [ascii_ofList]
    refine ⟨?_, ?_, ?_⟩
    all_goals exact List.all_iff_forall_prop.mp (by decide)
  have hnumber : ∀ n, LF ∉ number n := fun n => lf_toDecimal _
  intro f hf row hrow
  simp only [families, blocks, List.flatMap_cons, List.flatMap_nil, List.cons_append,
    List.nil_append, List.append_nil, List.mem_cons, List.not_mem_nil, or_false] at hf
  rcases hf with rfl | rfl | rfl | rfl | rfl | rfl | rfl | rfl | rfl | rfl | rfl
  case inl =>
    obtain ⟨e, -, rfl⟩ := List.mem_map.mp hrow
    exact ⟨plainKeys_cons hmethod (plainKeys_cons hroute (plainKeys_cons hclass plainKeys_nil)),
      hnumber _⟩
  case inr.inl =>
    rcases List.mem_append.mp hrow with hrow | hrow
    · obtain ⟨i, -, rfl⟩ := List.mem_map.mp hrow
      exact ⟨plainKeys_cons hle plainKeys_nil, hnumber _⟩
    · rw [List.mem_singleton.mp hrow]
      exact ⟨plainKeys_cons hle plainKeys_nil, hnumber _⟩
  case inr.inr.inl =>
    rw [List.mem_singleton.mp hrow]
    exact ⟨plainKeys_nil, lf_fixed6 _⟩
  case inr.inr.inr.inl =>
    rw [List.mem_singleton.mp hrow]
    exact ⟨plainKeys_nil, hnumber _⟩
  case inr.inr.inr.inr.inl =>
    obtain ⟨e, -, rfl⟩ := List.mem_map.mp hrow
    exact ⟨plainKeys_cons hresult plainKeys_nil, hnumber _⟩
  case inr.inr.inr.inr.inr.inr.inr.inr.inr.inr =>
    have hkeys : ∀ k r, PlainKeys [(ascii "kind", k), (ascii "result", r)] := fun k r =>
      plainKeys_cons hkind (plainKeys_cons hresult plainKeys_nil)
    rcases List.mem_append.mp hrow with hrow | hrow
    · obtain ⟨e, -, rfl⟩ := List.mem_map.mp hrow
      exact ⟨hkeys _ _, hnumber _⟩
    · obtain ⟨e, -, rfl⟩ := List.mem_map.mp hrow
      exact ⟨hkeys _ _, hnumber _⟩
  -- the plain counters
  all_goals
    rcases List.mem_cons.mp hrow with rfl | hrow
    · exact ⟨plainKeys_cons hresult plainKeys_nil, hnumber _⟩
    · rw [List.mem_singleton.mp hrow]
      exact ⟨plainKeys_cons hresult plainKeys_nil, hnumber _⟩

def familyNames : List String :=
  ["shorturl_http_requests_total", "shorturl_http_request_duration_seconds_bucket",
    "shorturl_http_request_duration_seconds_sum", "shorturl_http_request_duration_seconds_count",
    "shorturl_cache_requests_total", "shorturl_kafka_publish_total", "shorturl_kafka_enqueue_total",
    "shorturl_kafka_produce_total", "shorturl_kafka_delivery_total", "shorturl_log_enqueue_total",
    "shorturl_origin_cap_total"]

theorem families_names (m : Shard) : (families m).map Prod.fst = familyNames := rfl

theorem familyNames_isName : ∀ name ∈ familyNames, IsName (ascii name) := by
  have hfirst : ∀ name ∈ familyNames, (ascii name).head? = some 115 := by
    simp only [familyNames, List.forall_mem_cons]
    repeat rw [ascii_ofList]
    exact ⟨rfl, rfl, rfl, rfl, rfl, rfl, rfl, rfl, rfl, rfl, rfl, List.forall_mem_nil _⟩
  have hall : ∀ name ∈ familyNames, (ascii name).all Exposition.inName = true := by
    simp only [familyNames, List.forall_mem_cons]
    repeat rw [ascii_ofList]
    decide +kernel
  intro name hname
  refine ⟨?_, List.all_eq_true.mp (hall name hname)⟩
  obtain ⟨bs, hbs⟩ := List.head?_eq_some_iff.mp (hfirst name hname)
  exact ⟨115, bs, hbs, by decide⟩

theorem familyNames_nodup : (familyNames.map ascii).Nodup := by
  simp only [familyNames, List.map_cons, List.map_nil]
  repeat rw [ascii_ofList]
  decide +kernel

theorem comments_plain (m : Shard) : ∀ cs ∈ (blocks m).map Prod.fst, ∀ c ∈ cs, LF ∉ c := by
  show ∀ cs ∈ [comments "shorturl_http_requests_total"
      "Total HTTP requests by route and status class." "counter",
    comments "shorturl_http_request_duration_seconds" "HTTP request latency histogram." "histogram",
    comments "shorturl_cache_requests_total" "Cache lookups by result." "counter",
    comments "shorturl_kafka_publish_total"
      "Kafka click enqueue on request path (accepted vs dropped/unavailable; not zero-loss)."
      "counter",
    comments "shorturl_kafka_enqueue_total" "Bounded click-queue enqueue results." "counter",
    comments "shorturl_kafka_produce_total" "Background rd_kafka_producev accept/fail." "counter",
    comments "shorturl_kafka_delivery_total" "Kafka delivery-report callback outcomes." "counter",
    comments "shorturl_log_enqueue_total" "Bounded structured-log queue enqueue results." "counter",
    comments "shorturl_origin_cap_total" "MySQL origin budget acquire results when Redis is down."
      "counter"], ∀ c ∈ cs, LF ∉ c
  simp only [List.forall_mem_cons]
  refine ⟨?_, ?_, ?_, ?_, ?_, ?_, ?_, ?_, ?_, List.forall_mem_nil _⟩
  all_goals
    simp only [comments, List.forall_mem_cons]
    repeat rw [ascii_ofList]
    decide +kernel

/-- The samples are in order, and their keys on the line. -/
theorem samples_plain (m : Shard) :
    ∀ s ∈ (families m).flatMap Family.samples, s.Plain ∧ ∀ l ∈ s.labels, LF ∉ l.1 := by
  intro s hs
  obtain ⟨f, hf, hs⟩ := List.mem_flatMap.mp hs
  obtain ⟨row, hrow, rfl⟩ := List.mem_map.mp hs
  have hname : f.1 ∈ familyNames := families_names m ▸ List.mem_map_of_mem hf
  obtain ⟨hfirst, hall⟩ := familyNames_isName f.1 hname
  obtain ⟨hkeys, hnumber⟩ := families_plain m f hf row hrow
  exact ⟨⟨hfirst, hall, fun l hl b hb => (hkeys l hl b hb).1, hnumber⟩,
    fun l hl hlf => (hkeys l hl LF hlf).2 rfl⟩

theorem mem_items {m : Shard} {i : Item} (hi : i ∈ items m) :
    (∃ cs ∈ (blocks m).map Prod.fst, ∃ c ∈ cs, i = .comment c) ∨
      ∃ s ∈ (families m).flatMap Family.samples, i = .sample s := by
  obtain ⟨b, hb, hi⟩ := List.mem_flatMap.mp hi
  rcases List.mem_append.mp hi with hi | hi
  · obtain ⟨c, hc, rfl⟩ := List.mem_map.mp hi
    exact Or.inl ⟨b.1, List.mem_map_of_mem hb, c, hc, rfl⟩
  · obtain ⟨s, hs, rfl⟩ := List.mem_map.mp hi
    obtain ⟨f, hf, hs⟩ := List.mem_flatMap.mp hs
    exact Or.inr ⟨s, List.mem_flatMap.mpr ⟨f, List.mem_flatMap.mpr ⟨b, hb, hf⟩, hs⟩, rfl⟩

theorem mem_items_sample {m : Shard} {s : Sample} (hs : s ∈ (families m).flatMap Family.samples) :
    Item.sample s ∈ items m := by
  obtain ⟨f, hf, hs⟩ := List.mem_flatMap.mp hs
  obtain ⟨b, hb, hf⟩ := List.mem_flatMap.mp hf
  refine List.mem_flatMap.mpr ⟨b, hb, List.mem_append_right _ ?_⟩
  exact List.mem_map_of_mem (List.mem_flatMap.mpr ⟨f, hf, hs⟩)

theorem items_plain (m : Shard) : ∀ i ∈ items m, i.Plain := by
  intro i hi
  rcases mem_items hi with ⟨cs, hcs, c, hc, rfl⟩ | ⟨s, hs, rfl⟩
  · exact comments_plain m cs hcs c hc
  · exact (samples_plain m s hs).1

theorem readValue_escape (value rest : Bytes) :
    Exposition.readValue (escapeLabelValue value ++ 34 :: rest) = some (value, rest) := by
  induction value with
  | nil => cases rest <;> rfl
  | cons c value ih =>
    have hmore : ∃ d text, escapeLabelValue value ++ 34 :: rest = d :: text := by
      cases escapeLabelValue value with
      | nil => exact ⟨_, _, rfl⟩
      | cons d text => exact ⟨_, _, rfl⟩
    obtain ⟨d, text, hmore⟩ := hmore
    have htext : escapeLabelValue (c :: value) ++ 34 :: rest =
        (if c = 92 ∨ c = 34 then [92, c] else [c]) ++ d :: text := by
      rw [← hmore, ← List.append_assoc]
      rfl
    rw [hmore] at ih
    rw [htext]
    by_cases hspecial : c = 92 ∨ c = 34
    · have hplain : Exposition.unescape c = c := by
        rcases hspecial with rfl | rfl
        · rfl
        · rfl
      rw [if_pos hspecial]
      show (Exposition.readValue (d :: text)).map _ = _
      rw [ih, Option.map_some, hplain]
    · obtain ⟨hslash, hquote⟩ := not_or.mp hspecial
      rw [if_neg hspecial, List.singleton_append, Exposition.readValue, if_neg hquote,
        if_neg hslash, ih]
      rfl

theorem read_render (m : Shard) :
    Exposition.read (renderSums m) = some ((families m).flatMap Family.samples) := by
  rw [renderSums_eq, Exposition.read_items readValue_escape (items_plain m), samples_items]

theorem lf_escapeLabelValue {value : Bytes} (h : LF ∉ value) : LF ∉ escapeLabelValue value := by
  intro hmem
  obtain ⟨c, hc, hmem⟩ := List.mem_flatMap.mp hmem
  have hne : LF ≠ c := fun heq => h (heq ▸ hc)
  split at hmem
  · rcases List.mem_cons.mp hmem with heq | hmem
    · exact absurd heq (by decide)
    · exact hne (List.mem_singleton.mp hmem)
  · exact hne (List.mem_singleton.mp hmem)

/-- A sample is a line of the text, if its values are without line feeds. -/
theorem line_render {m : Shard} {s : Sample} (hs : s ∈ (families m).flatMap Family.samples)
    (hvalues : ∀ l ∈ s.labels, LF ∉ l.2) : HasLine (renderSums m) (s.line escapeLabelValue) := by
  obtain ⟨hplain, hkeys⟩ := samples_plain m s hs
  have hline : LF ∉ s.line escapeLabelValue :=
    Exposition.lf_line (fun _ => lf_escapeLabelValue) hplain fun l hl => ⟨hkeys l hl, hvalues l hl⟩
  rw [renderSums_eq]
  exact Exposition.line_of_mem (mem_items_sample hs) hline

/-! ## Series -/

/-- A series is looked up in the one family of its name. -/
theorem reported_family {fs : List Family} (hnodup : ((fs.map Prod.fst).map ascii).Nodup)
    {f : Family} (hf : f ∈ fs) (labels : List (Bytes × Bytes)) :
    reported (fs.flatMap Family.samples) f.1 labels =
      (f.2.filter fun row => decide (row.1 = labels)).map Prod.snd := by
  have hone : ∀ (g : Family), reported g.samples f.1 labels =
      if ascii g.1 = ascii f.1 then (g.2.filter fun row => decide (row.1 = labels)).map Prod.snd
      else [] := by
    intro g
    rw [reported, Family.samples, List.filter_map, List.map_map]
    split
    · rename_i hname
      simp [Function.comp_def, hname]
    · rename_i hname
      simp [Function.comp_def, hname]
  have hother : ∀ gs : List Family, ascii f.1 ∉ (gs.map Prod.fst).map ascii →
      reported (gs.flatMap Family.samples) f.1 labels = [] := by
    intro gs
    induction gs with
    | nil => exact fun _ => rfl
    | cons g gs ih =>
      intro hnot
      rw [List.map_cons, List.map_cons, List.mem_cons, not_or] at hnot
      rw [List.flatMap_cons, reported, List.filter_append, List.map_append]
      show reported g.samples f.1 labels ++ reported (gs.flatMap Family.samples) f.1 labels = []
      rw [hone, if_neg (Ne.symm hnot.1), ih hnot.2]
      rfl
  induction fs with
  | nil => cases hf
  | cons g gs ih =>
    rw [List.map_cons, List.map_cons, List.nodup_cons] at hnodup
    rw [List.flatMap_cons, reported, List.filter_append, List.map_append]
    show reported g.samples f.1 labels ++ reported (gs.flatMap Family.samples) f.1 labels = _
    rcases List.mem_cons.mp hf with rfl | hf
    · rw [hone, if_pos rfl, hother gs hnodup.1, List.append_nil]
    · have hne : ascii g.1 ≠ ascii f.1 := fun heq =>
        hnodup.1 (heq ▸ List.mem_map_of_mem (List.mem_map_of_mem hf))
      rw [hone, if_neg hne, ih hnodup.2 hf, List.nil_append]

theorem reported_families (m : Shard) {f : Family} (hf : f ∈ families m)
    (labels : List (Bytes × Bytes)) :
    reported ((families m).flatMap Family.samples) f.1 labels =
      (f.2.filter fun row => decide (row.1 = labels)).map Prod.snd :=
  reported_family (families_names m ▸ familyNames_nodup) hf labels

/-- The rows of a map, by a labelling that tells `k` from its other keys. -/
theorem filter_counts (m : Counts) (lab : Bytes → List (Bytes × Bytes)) {k : Bytes}
    (hinj : ∀ e ∈ m.entries, lab e.1 = lab k → e.1 = k) :
    ((m.entries.map fun e => (lab e.1, number e.2)).filter fun row =>
      decide (row.1 = lab k)).map Prod.snd = (m.find k).toList.map number := by
  have hkey : m.entries.filter (fun e => decide (lab e.1 = lab k)) =
      m.entries.filter fun e => decide (e.1 = k) := by
    refine List.filter_congr fun e he => ?_
    exact decide_eq_decide.mpr ⟨hinj e he, fun heq => by rw [heq]⟩
  rw [List.filter_map, List.map_map]
  show (m.entries.filter (fun e => decide (lab e.1 = lab k))).map (fun e => number e.2) = _
  rw [hkey, SortedMap.filter_entries]
  cases m.find k with
  | none => rfl
  | some n => rfl

/-- No row of a map has these labels. -/
theorem filter_counts_none (m : Counts) (lab : Bytes → List (Bytes × Bytes))
    {labels : List (Bytes × Bytes)} (h : ∀ k, lab k ≠ labels) :
    ((m.entries.map fun e => (lab e.1, number e.2)).filter fun row =>
      decide (row.1 = labels)) = [] := by
  rw [List.filter_eq_nil_iff]
  intro row hrow
  obtain ⟨e, -, rfl⟩ := List.mem_map.mp hrow
  simpa using h e.1

/-! ### Keys of requests -/

theorem bar_not_mem_statusClass (status : Int) : 124 ∉ statusClass status := by
  have hdecimal : ∀ n, 124 ∉ toDecimal n := fun n h =>
    absurd (JsonText.toDecimal_isDigit n 124 h) (by decide)
  unfold statusClass
  split
  · refine List.not_mem_append ?_ (by decide)
    unfold toDecimalInt
    split
    · exact List.not_mem_append (by decide) (hdecimal _)
    · exact hdecimal _
  · decide

/-- The first bar. -/
theorem findIdx_bar {a : Bytes} (ha : 124 ∉ a) (rest : Bytes) :
    (a ++ 124 :: rest).findIdx? (fun b => decide (b = 124)) = some a.length := by
  induction a with
  | nil => rfl
  | cons b a ih =>
    have hb : ¬ decide (b = 124) = true := fun h =>
      ha (by rw [of_decide_eq_true h]; exact List.mem_cons_self)
    rw [List.cons_append, List.findIdx?_cons, if_neg hb, ih fun h => ha (List.mem_cons_of_mem b h)]
    rfl

theorem splitKey_join {a b : Bytes} (ha : 124 ∉ a) (hb : 124 ∉ b) (c : Bytes) :
    splitKey (a ++ 124 :: (b ++ 124 :: c)) = (a, b, c) := by
  have hdrop : (a ++ 124 :: (b ++ 124 :: c)).drop (a.length + 1) = b ++ 124 :: c := by
    rw [← List.drop_drop, List.drop_left]
    rfl
  have hlast : (a ++ 124 :: (b ++ 124 :: c)).drop (a.length + 1 + b.length + 1) = c := by
    rw [Nat.add_assoc, ← List.drop_drop, hdrop, ← List.drop_drop, List.drop_left]
    rfl
  simp only [splitKey, findIdx_bar ha, hdrop, findIdx_bar hb, List.take_left, hlast]

/-- A text is without bars, or has a first one. -/
theorem exists_bar {s : Bytes} (h : 124 ∈ s) : ∃ a rest, s = a ++ 124 :: rest ∧ 124 ∉ a := by
  induction s with
  | nil => cases h
  | cons b s ih =>
    by_cases hb : b = 124
    · subst hb
      exact ⟨[], s, rfl, List.not_mem_nil⟩
    · have hs : 124 ∈ s := by
        rcases List.mem_cons.mp h with h | h
        · exact absurd h.symm hb
        · exact h
      obtain ⟨a, rest, rfl, ha⟩ := ih hs
      refine ⟨b :: a, rest, rfl, fun hmem => ?_⟩
      rcases List.mem_cons.mp hmem with h | h
      · exact hb h.symm
      · exact ha h

theorem httpKey_eq (method route : Bytes) (status : Int) :
    httpKey method route status = method ++ 124 :: (route ++ 124 :: statusClass status) := by
  have hbar : ascii "|" = [124] := by decide
  rw [httpKey, hbar]
  simp

def bars (s : Bytes) : Nat := s.count 124

theorem bars_httpKey (method route : Bytes) (status : Int) :
    bars (httpKey method route status) = bars method + bars route + 2 := by
  rw [httpKey_eq, bars, bars, bars, List.count_append, List.count_cons_self, List.count_append,
    List.count_cons_self, List.count_eq_zero.mpr (bar_not_mem_statusClass status)]
  omega

/-- A key is put together again from what it is split into. -/
theorem join_splitKey (method route : Bytes) (status : Int) :
    (splitKey (httpKey method route status)).1 ++ 124 ::
      ((splitKey (httpKey method route status)).2.1 ++ 124 ::
        (splitKey (httpKey method route status)).2.2) = httpKey method route status := by
  obtain ⟨a, rest, heq, ha⟩ : ∃ a rest, httpKey method route status = a ++ 124 :: rest ∧ 124 ∉ a :=
    exists_bar (by rw [httpKey_eq]; simp)
  have hrest : 124 ∈ rest := by
    have hcount := bars_httpKey method route status
    rw [heq, bars, List.count_append, List.count_cons_self, List.count_eq_zero.mpr ha] at hcount
    exact List.count_pos_iff.mp (by omega)
  obtain ⟨b, c, rfl, hb⟩ := exists_bar hrest
  rw [heq, splitKey_join ha hb]

theorem httpLabels_inj {method route method' route' : Bytes} {status status' : Int}
    (h : httpLabels (httpKey method' route' status') = httpLabels (httpKey method route status)) :
    httpKey method' route' status' = httpKey method route status := by
  simp only [httpLabels, List.cons.injEq, Prod.mk.injEq, true_and, and_true] at h
  obtain ⟨h1, h2, h3⟩ := h
  rw [← join_splitKey method' route' status', ← join_splitKey method route status, h1, h2, h3]

theorem httpLabels_good {method route : Bytes} {status : Int} (hm : 124 ∉ method) (hr : 124 ∉ route) :
    httpLabels (httpKey method route status) =
      [(ascii "method", method), (ascii "route", route),
        (ascii "status_class", statusClass status)] := by
  rw [httpLabels, httpKey_eq, splitKey_join hm hr]

/-- Two calls with the key of one whose method and route are without bars. -/
theorem httpKey_inj {method route method' route' : Bytes} {status status' : Int}
    (hm : 124 ∉ method) (hr : 124 ∉ route) :
    httpKey method' route' status' = httpKey method route status ↔
      method' = method ∧ route' = route ∧ statusClass status' = statusClass status := by
  constructor
  · intro h
    have hbars := congrArg bars h
    rw [bars_httpKey, bars_httpKey, bars, bars, bars, bars, List.count_eq_zero.mpr hm,
      List.count_eq_zero.mpr hr] at hbars
    have hm' : 124 ∉ method' := List.count_eq_zero.mp (by omega)
    have hr' : 124 ∉ route' := List.count_eq_zero.mp (by omega)
    have hsplit := congrArg splitKey h
    rw [httpKey_eq, httpKey_eq, splitKey_join hm' hr', splitKey_join hm hr] at hsplit
    simp only [Prod.mk.injEq] at hsplit
    exact hsplit
  · rintro ⟨rfl, rfl, hclass⟩
    rw [httpKey_eq, httpKey_eq, hclass]

theorem inCell_castSucc (i : Fin 12) (o : Observation) :
    o.inCell i.castSucc = o.within (kLatencyBuckets i) := by
  cases o with
  | httpRequest method route status duration => exact dif_pos i.isLt
  | _ => rfl

theorem inCell_last (o : Observation) : o.inCell (Fin.last 12) = o.isRequest := by
  cases o with
  | httpRequest method route status duration =>
    show inBucket duration (Fin.last 12) = true
    exact dif_neg (Nat.lt_irrefl 12)
  | _ => rfl

/-- Rows that all have different labels. -/
theorem filter_rows {rows : List (List (Bytes × Bytes) × Bytes)}
    (hnodup : (rows.map Prod.fst).Nodup) {labels : List (Bytes × Bytes)} {text : Bytes}
    (h : (labels, text) ∈ rows) :
    (rows.filter fun row => decide (row.1 = labels)).map Prod.snd = [text] := by
  induction rows with
  | nil => cases h
  | cons row rows ih =>
    rw [List.map_cons, List.nodup_cons] at hnodup
    rw [List.filter_cons]
    rcases List.mem_cons.mp h with rfl | h
    · have hnone : rows.filter (fun row => decide (row.1 = labels)) = [] := by
        refine List.filter_eq_nil_iff.mpr fun row hrow heq => ?_
        exact hnodup.1 (List.mem_map.mpr ⟨row, hrow, of_decide_eq_true heq⟩)
      rw [if_pos (decide_eq_true rfl), hnone]
      rfl
    · have hne : row.1 ≠ labels := by
        rintro rfl
        exact hnodup.1 (List.mem_map.mpr ⟨_, h, rfl⟩)
      rw [if_neg (by simpa using hne)]
      exact ih hnodup.2 h

theorem bounds_nodup (cells : Fin 13 → Bytes) :
    ((((List.finRange 12).map fun i =>
        ([(ascii "le", fixed6 (kLatencyBuckets i))], cells i.castSucc)) ++
      [([(ascii "le", ascii "+Inf")], cells (Fin.last 12))]).map Prod.fst).Nodup := by
  have hrange : List.finRange 12 = [0, 1, 2, 3, 4, 5, 6, 7, 8, 9, 10, 11] := rfl
  rw [hrange]
  show (([0, 1, 2, 3, 4, 5, 6, 7, 8, 9, 10, 11].map fun i : Fin 12 =>
    [(ascii "le", fixed6 (kLatencyBuckets i))]) ++ [[(ascii "le", ascii "+Inf")]]).Nodup
  decide +kernel

theorem kLatencyBuckets_mono : ∀ i j, i ≤ j → kLatencyBuckets i ≤ kLatencyBuckets j := by
  decide +kernel

theorem within_mono (os : List Observation) {i j : Fin 12} (h : i ≤ j) :
    os.countP (within (kLatencyBuckets i)) ≤ os.countP (within (kLatencyBuckets j)) := by
  refine List.countP_mono_left fun o _ ho => ?_
  cases o with
  | httpRequest method route status duration =>
    have hle : duration ≤ kLatencyBuckets i := of_decide_eq_true ho
    exact decide_eq_true (hle.trans (kLatencyBuckets_mono i j h))
  | _ => cases ho

theorem within_le (os : List Observation) (i : Fin 12) :
    os.countP (within (kLatencyBuckets i)) ≤ os.countP isRequest := by
  refine List.countP_mono_left fun o _ ho => ?_
  cases o with
  | httpRequest method route status duration => rfl
  | _ => cases ho

/-! ## What a scrape reports -/

section Scraped

variable {os : List Observation}

/-- The keys of a map are keys of calls. -/
theorem mem_counts (field : Shard → Counts) (hzero : field 0 = 0)
    (hadd : ∀ a b, field (a + b) = field a + field b) (key : Observation → Option Bytes)
    (hkey : ∀ o, field o.worth = (key o).elim 0 fun k => SortedMap.single k 1) {e : Bytes × UInt64}
    (he : e ∈ (field (tally os)).entries) : ∃ o ∈ os, key o = some e.1 := by
  have hfind := SortedMap.find_eq_some_iff.mpr he
  have hsum : (os.map fun o => field o.worth) =
      os.map fun o => (key o).elim (0 : Counts) fun k => SortedMap.single k 1 :=
    List.map_congr_left fun o _ => hkey o
  rw [tally_field field hzero hadd, hsum, SortedMap.find_sum] at hfind
  split at hfind
  · cases hfind
  · rename_i hcount
    obtain ⟨o, ho, hmem⟩ := List.countP_pos_iff.mp (Nat.pos_of_ne_zero hcount)
    exact ⟨o, ho, of_decide_eq_true hmem⟩

theorem reported_sum (os : List Observation) :
    reported ((families (tally os)).flatMap Family.samples)
      "shorturl_http_request_duration_seconds_sum" [] =
      [fixed6 (os.map Observation.duration).sum] := by
  have hfamily := reported_families (tally os)
    (List.mem_of_getElem? (show (families (tally os))[2]? = some _ from rfl)) []
  have hsum := tally_field Shard.httpLatencySum rfl (fun _ _ => rfl) os
  refine hfamily.trans ?_
  show [fixed6 (tally os).httpLatencySum] = _
  rw [hsum]
  rfl

/-- A family of two results. -/
theorem reported_result (m : Shard) {name : String} (one other : String) {a b : Bytes}
    (hne : ascii one ≠ ascii other)
    (hf : (name, [(result one, a), (result other, b)]) ∈ families m) :
    reported ((families m).flatMap Family.samples) name (result one) = [a] ∧
      reported ((families m).flatMap Family.samples) name (result other) = [b] := by
  have hnodup : ([(result one, a), (result other, b)].map Prod.fst).Nodup := by
    simpa [result] using hne
  exact ⟨(reported_families _ hf _).trans (filter_rows hnodup (by simp)),
    (reported_families _ hf _).trans (filter_rows hnodup (by simp))⟩

variable (hlen : os.length < 2 ^ 64)

include hlen

theorem reported_http (method route : Bytes) (status : Int) (hm : 124 ∉ method)
    (hr : 124 ∉ route) :
    reported ((families (tally os)).flatMap Family.samples) "shorturl_http_requests_total"
      [(ascii "method", method), (ascii "route", route),
        (ascii "status_class", statusClass status)] =
      present (os.countP (isHttp method route (statusClass status))) := by
  have hfamily := reported_families (tally os)
    (List.mem_of_getElem? (show (families (tally os))[0]? = some _ from rfl))
    (httpLabels (httpKey method route status))
  have hfilter := filter_counts (tally os).httpRequests httpLabels
    (k := httpKey method route status) fun e he heq => by
      obtain ⟨o, -, ho⟩ := mem_counts Shard.httpRequests rfl (fun _ _ => rfl) requestKey
        (fun _ => rfl) he
      cases o with
      | httpRequest method' route' status' duration =>
        rw [← Option.some.inj ho] at heq ⊢
        exact httpLabels_inj heq
      | _ => cases ho
  have hcount : (os.countP fun o => decide (requestKey o = some (httpKey method route status))) =
      os.countP (isHttp method route (statusClass status)) := by
    refine List.countP_congr fun o _ => ?_
    cases o with
    | httpRequest method' route' status' duration =>
      simp only [requestKey, Option.some.injEq, httpKey_inj hm hr, isHttp, decide_eq_true_eq,
        Bool.and_eq_true, and_assoc]
    | _ => simp [requestKey, isHttp]
  rw [← httpLabels_good hm hr, ← hcount, ← counts_tally hlen Shard.httpRequests rfl
    (fun _ _ => rfl) requestKey (fun _ => rfl)]
  exact hfamily.trans hfilter

theorem cell_tally (i : Fin 13) {p : Observation → Bool} (hp : ∀ o, o.inCell i = p o) :
    number ((tally os).httpLatencyBuckets i) = toDecimal (os.countP p) :=
  counter_tally hlen (fun s => s.httpLatencyBuckets i) rfl (fun _ _ => rfl) p fun o => by
    rw [← hp]
    rfl

theorem reported_bucket (i : Fin 12) :
    reported ((families (tally os)).flatMap Family.samples)
      "shorturl_http_request_duration_seconds_bucket"
      [(ascii "le", fixed6 (kLatencyBuckets i))] =
      [toDecimal (os.countP (within (kLatencyBuckets i)))] := by
  have hfamily := reported_families (tally os)
    (List.mem_of_getElem? (show (families (tally os))[1]? = some _ from rfl))
    [(ascii "le", fixed6 (kLatencyBuckets i))]
  rw [← cell_tally hlen i.castSucc (inCell_castSucc i)]
  refine hfamily.trans
    (filter_rows (bounds_nodup fun i => number ((tally os).httpLatencyBuckets i)) ?_)
  exact List.mem_append_left _ (List.mem_map_of_mem (List.mem_finRange i))

theorem reported_inf :
    reported ((families (tally os)).flatMap Family.samples)
      "shorturl_http_request_duration_seconds_bucket" [(ascii "le", ascii "+Inf")] =
      [toDecimal (os.countP isRequest)] := by
  have hfamily := reported_families (tally os)
    (List.mem_of_getElem? (show (families (tally os))[1]? = some _ from rfl))
    [(ascii "le", ascii "+Inf")]
  rw [← cell_tally hlen (Fin.last 12) inCell_last]
  refine hfamily.trans
    (filter_rows (bounds_nodup fun i => number ((tally os).httpLatencyBuckets i)) ?_)
  exact List.mem_append_right _ List.mem_cons_self

theorem reported_count :
    reported ((families (tally os)).flatMap Family.samples)
      "shorturl_http_request_duration_seconds_count" [] = [toDecimal (os.countP isRequest)] := by
  have hfamily := reported_families (tally os)
    (List.mem_of_getElem? (show (families (tally os))[3]? = some _ from rfl)) []
  rw [← counter_tally hlen Shard.httpLatencyCount rfl (fun _ _ => rfl) isRequest fun _ => rfl]
  exact hfamily

theorem reported_cache (text : Bytes) :
    reported ((families (tally os)).flatMap Family.samples) "shorturl_cache_requests_total"
      [(ascii "result", text)] = present (os.countP (isCache text)) := by
  have hfamily := reported_families (tally os)
    (List.mem_of_getElem? (show (families (tally os))[4]? = some _ from rfl))
    [(ascii "result", text)]
  have hfilter := filter_counts (tally os).cacheResults (fun k => [(ascii "result", k)])
    (k := text) fun e _ heq => by simpa using heq
  have hcount : (os.countP fun o => decide (cacheKey o = some text)) =
      os.countP (isCache text) := by
    refine List.countP_congr fun o _ => ?_
    cases o with
    | cacheResult r => simp [cacheKey, isCache]
    | _ => simp [cacheKey, isCache]
  rw [← hcount, ← counts_tally hlen Shard.cacheResults rfl (fun _ _ => rfl) cacheKey fun _ => rfl]
  exact hfamily.trans hfilter

theorem reported_originCap (kind : Bytes) (acquired : Bool) :
    reported ((families (tally os)).flatMap Family.samples) "shorturl_origin_cap_total"
      [(ascii "kind", kind), (ascii "result", ascii (if acquired then "acquired" else "rejected"))] =
      present (os.countP (isOriginCap kind acquired)) := by
  have hfamily := reported_families (tally os)
    (List.mem_of_getElem? (show (families (tally os))[10]? = some _ from rfl))
    [(ascii "kind", kind), (ascii "result", ascii (if acquired then "acquired" else "rejected"))]
  have hne : ascii "acquired" ≠ ascii "rejected" := by decide
  have hcount : (os.countP fun o => decide (originKey acquired o = some kind)) =
      os.countP (isOriginCap kind acquired) := by
    refine List.countP_congr fun o _ => ?_
    cases o with
    | originCap k a =>
      simp only [originKey, isOriginCap, decide_eq_true_eq, Bool.and_eq_true, beq_iff_eq]
      split
      · rename_i ha
        simp [ha]
      · rename_i ha
        simp [ha]
    | _ => simp [originKey, isOriginCap]
  -- the rows of one result, and none of the other
  have hown : ∀ m : Counts, ∀ r, ((m.entries.map fun e =>
      ([(ascii "kind", e.1), (ascii "result", r)], number e.2)).filter fun row =>
        decide (row.1 = [(ascii "kind", kind), (ascii "result", r)])).map Prod.snd =
      (m.find kind).toList.map number := fun m r =>
    filter_counts m (fun k => [(ascii "kind", k), (ascii "result", r)]) fun e _ heq => by
      simpa using heq
  have hother : ∀ m : Counts, ∀ r r', r ≠ r' → ((m.entries.map fun e =>
      ([(ascii "kind", e.1), (ascii "result", r)], number e.2)).filter fun row =>
        decide (row.1 = [(ascii "kind", kind), (ascii "result", r')])) = [] := fun m r r' hr =>
    filter_counts_none m (fun k => [(ascii "kind", k), (ascii "result", r)]) fun k heq =>
      hr (by simpa using (List.cons.inj (List.cons.inj heq).2).1)
  rw [← hcount]
  refine hfamily.trans ?_
  rw [List.filter_append, List.map_append]
  cases acquired with
  | true =>
    rw [if_pos rfl, hother _ (ascii "rejected") (ascii "acquired") hne.symm,
      ← counts_tally hlen Shard.originCapAcquired rfl (fun _ _ => rfl) (originKey true) fun _ => rfl]
    exact (List.append_nil _).trans (hown _ (ascii "acquired"))
  | false =>
    rw [if_neg Bool.false_ne_true, hother _ (ascii "acquired") (ascii "rejected") hne,
      ← counts_tally hlen Shard.originCapRejected rfl (fun _ _ => rfl) (originKey false)
        fun _ => rfl]
    exact hown _ (ascii "rejected")

theorem reported_plain : ∀ c ∈ plainCounters,
    reported ((families (tally os)).flatMap Family.samples) c.1 [(ascii "result", ascii c.2.1)] =
      [toDecimal (os.countP c.2.2)] := by
  have hcounter : ∀ field : Shard → UInt64, ∀ p : Observation → Bool, field 0 = 0 →
      (∀ a b, field (a + b) = field a + field b) → (∀ o, field o.worth = if p o then 1 else 0) →
      number (field (tally os)) = toDecimal (os.countP p) := fun field p hzero hadd hp =>
    counter_tally hlen field hzero hadd p hp
  obtain ⟨hpublish, hpublish'⟩ := reported_result (tally os) "success" "failure"
    (by decide) (List.mem_of_getElem? (show (families (tally os))[5]? = some _ from rfl))
  obtain ⟨henqueue, henqueue'⟩ := reported_result (tally os) "accepted" "dropped"
    (by decide) (List.mem_of_getElem? (show (families (tally os))[6]? = some _ from rfl))
  obtain ⟨hproduce, hproduce'⟩ := reported_result (tally os) "accepted" "failed"
    (by decide) (List.mem_of_getElem? (show (families (tally os))[7]? = some _ from rfl))
  obtain ⟨hdelivery, hdelivery'⟩ := reported_result (tally os) "success" "failure"
    (by decide) (List.mem_of_getElem? (show (families (tally os))[8]? = some _ from rfl))
  obtain ⟨hlog, hlog'⟩ := reported_result (tally os) "accepted" "dropped"
    (by decide) (List.mem_of_getElem? (show (families (tally os))[9]? = some _ from rfl))
  intro c hc
  simp only [plainCounters, List.mem_cons, List.not_mem_nil, or_false] at hc
  rcases hc with rfl | rfl | rfl | rfl | rfl | rfl | rfl | rfl | rfl | rfl
  · rw [← hcounter Shard.kafkaPublishSuccess _ rfl (fun _ _ => rfl) fun _ => rfl]
    exact hpublish
  · rw [← hcounter Shard.kafkaPublishFailure _ rfl (fun _ _ => rfl) fun _ => rfl]
    exact hpublish'
  · rw [← hcounter Shard.kafkaEnqueueAccepted _ rfl (fun _ _ => rfl) fun _ => rfl]
    exact henqueue
  · rw [← hcounter Shard.kafkaEnqueueDropped _ rfl (fun _ _ => rfl) fun _ => rfl]
    exact henqueue'
  · rw [← hcounter Shard.kafkaProduceAccepted _ rfl (fun _ _ => rfl) fun _ => rfl]
    exact hproduce
  · rw [← hcounter Shard.kafkaProduceFailed _ rfl (fun _ _ => rfl) fun _ => rfl]
    exact hproduce'
  · rw [← hcounter Shard.kafkaDelivered _ rfl (fun _ _ => rfl) fun _ => rfl]
    exact hdelivery
  · rw [← hcounter Shard.kafkaDeliveryFailed _ rfl (fun _ _ => rfl) fun _ => rfl]
    exact hdelivery'
  · rw [← hcounter Shard.logEnqueueAccepted _ rfl (fun _ _ => rfl) fun _ => rfl]
    exact hlog
  · rw [← hcounter Shard.logEnqueueDropped _ rfl (fun _ _ => rfl) fun _ => rfl]
    exact hlog'

theorem scraped : Scraped os ((families (tally os)).flatMap Family.samples) where
  http := fun method route status hm hr => reported_http hlen method route status hm hr
  bucket := reported_bucket hlen
  ascending := fun _ _ hij => within_mono os hij
  below := fun i => within_le os i
  infinity := reported_inf hlen
  count := reported_count hlen
  sum := reported_sum os
  cache := reported_cache hlen
  plain := reported_plain hlen
  originCap := reported_originCap hlen

end Scraped

namespace MetricsRegistry

/-- **A scrape says what was called.** After a reset and fewer than 2^64 calls the text is read back
as samples that count the calls, each of them a line of its own where no value has a line feed; and
the text depends on the calls alone, not on their order and their threads. -/
theorem scrape_counts (r : MetricsRegistry) (history : List (Fin kShardCount × Observation))
    (hlen : history.length < 2 ^ 64) :
    (∃ samples, Exposition.read (r.resetForTest.run history).renderPrometheus = some samples ∧
      Scraped (history.map Prod.snd) samples ∧
      ∀ s ∈ samples, (∀ l ∈ s.labels, LF ∉ l.2) →
        HasLine (r.resetForTest.run history).renderPrometheus (s.line escapeLabelValue)) ∧
    ∀ (r' : MetricsRegistry) (history' : List (Fin kShardCount × Observation)),
      (history.map Prod.snd).Perm (history'.map Prod.snd) →
        (r'.resetForTest.run history').renderPrometheus =
          (r.resetForTest.run history).renderPrometheus := by
  have htext : ∀ (r : MetricsRegistry) (history : List (Fin kShardCount × Observation)),
      (r.resetForTest.run history).renderPrometheus =
        renderSums (tally (history.map Prod.snd)) := fun r history => by
    rw [renderPrometheus, merged_run]
  refine ⟨⟨_, (congrArg _ (htext r history)).trans (read_render _), ?_, ?_⟩, ?_⟩
  · exact scraped (by rw [List.length_map]; exact hlen)
  · intro s hs hvalues
    rw [htext]
    exact line_render hs hvalues
  · intro r' history' hperm
    exact congrArg renderSums (merged_run_perm r r' hperm).symm

/-- Two calls in one series, of threads of different shards. -/
def twoCalls : List (Fin kShardCount × Observation) :=
  [(⟨3, by decide⟩, .httpRequest (ascii "GET") (ascii "/\"") 200 (mkRat 1 100)),
    (⟨11, by decide⟩, .httpRequest (ascii "GET") (ascii "/\"") 204 (mkRat 3 1))]

theorem scrape_counts_two : ∃ samples,
    Exposition.read ((resetForTest fun _ => {}).run twoCalls).renderPrometheus = some samples ∧
    reported samples "shorturl_http_requests_total"
      [(ascii "method", ascii "GET"), (ascii "route", ascii "/\""),
        (ascii "status_class", statusClass 200)] = [ascii "2"] := by
  obtain ⟨⟨samples, hread, hscraped, -⟩, -⟩ := scrape_counts (fun _ => {}) twoCalls (by decide)
  have hhttp := hscraped.http (ascii "GET") (ascii "/\"") 200 (by decide +kernel) (by decide +kernel)
  refine ⟨samples, hread, hhttp.trans ?_⟩
  decide +kernel

end MetricsRegistry

end Observability
end UrlShortener
