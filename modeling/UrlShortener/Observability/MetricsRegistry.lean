import Mathlib.Algebra.Order.Ring.Rat
import Mathlib.Data.Fin.VecNotation
import Mathlib.Data.UInt
import UrlShortener.Base.JsonText
import UrlShortener.Base.Sharded
import UrlShortener.Base.SortedMap

/-!
# UrlShortener.Observability.MetricsRegistry

`MetricsRegistry`: sixteen shards of counters, each behind its mutex. An `observe` call changes the
shard that the id of its thread is hashed to; `render_prometheus` adds up the shards and writes the
sums as text. Counters are 64 bits wide. Durations and their sum are rationals here.
-/

namespace UrlShortener
namespace Observability

-- The order of the keys, as `std::map` has it for `std::string`.
instance uint8Preorder : Std.IsPreorder UInt8 := inferInstance

instance bytesTrichotomous : Std.Trichotomous (α := Bytes) (· < ·) := inferInstance

abbrev Counts := SortedMap Bytes UInt64

def kShardCount : Nat := 16

def kLatencyBuckets : Fin 12 → ℚ :=
  ![mkRat 1 1000, mkRat 5 1000, mkRat 10 1000, mkRat 25 1000, mkRat 50 1000, mkRat 100 1000,
    mkRat 250 1000, mkRat 500 1000, mkRat 1 1, mkRat 25 10, mkRat 5 1, mkRat 10 1]

def statusClass (status : Int) : Bytes :=
  if 100 ≤ status ∧ status < 600 then toDecimalInt (status / 100) ++ ascii "xx"
  else ascii "unknown"

@[ext] structure Shard where
  httpRequests : Counts := ∅
  httpLatencyBuckets : Fin 13 → UInt64 := fun _ => 0
  httpLatencyCount : UInt64 := 0
  httpLatencySum : ℚ := 0
  cacheResults : Counts := ∅
  kafkaPublishSuccess : UInt64 := 0
  kafkaPublishFailure : UInt64 := 0
  kafkaEnqueueAccepted : UInt64 := 0
  kafkaEnqueueDropped : UInt64 := 0
  kafkaProduceAccepted : UInt64 := 0
  kafkaProduceFailed : UInt64 := 0
  kafkaDelivered : UInt64 := 0
  kafkaDeliveryFailed : UInt64 := 0
  logEnqueueAccepted : UInt64 := 0
  logEnqueueDropped : UInt64 := 0
  originCapAcquired : Counts := ∅
  originCapRejected : Counts := ∅

/-- A duration counts in the cells of the bounds that it does not exceed, and in the last cell. -/
def inBucket (duration : ℚ) (i : Fin 13) : Bool :=
  if h : i.val < 12 then decide (duration ≤ kLatencyBuckets ⟨i.val, h⟩) else true

def httpKey (method route : Bytes) (status : Int) : Bytes :=
  method ++ ascii "|" ++ route ++ ascii "|" ++ statusClass status

/-- A call of one of the `observe` functions. -/
inductive Observation where
  | httpRequest (method route : Bytes) (status : Int) (duration : ℚ)
  | cacheResult (result : Bytes)
  | kafkaPublish (success : Bool)
  | kafkaEnqueue (accepted : Bool)
  | kafkaProduceAccepted (ok : Bool)
  | kafkaDelivery (success : Bool)
  | logEnqueue (accepted : Bool)
  | originCap (kind : Bytes) (acquired : Bool)

namespace Shard

def observeHttpRequest (s : Shard) (method route : Bytes) (status : Int) (duration : ℚ) : Shard :=
  { s with
    httpRequests := s.httpRequests.bump (httpKey method route status) 1
    httpLatencyBuckets := fun i =>
      if inBucket duration i then s.httpLatencyBuckets i + 1 else s.httpLatencyBuckets i
    httpLatencyCount := s.httpLatencyCount + 1
    httpLatencySum := s.httpLatencySum + duration }

def observeCacheResult (s : Shard) (result : Bytes) : Shard :=
  { s with cacheResults := s.cacheResults.bump result 1 }

def observeKafkaPublish (s : Shard) (success : Bool) : Shard :=
  if success then { s with kafkaPublishSuccess := s.kafkaPublishSuccess + 1 }
  else { s with kafkaPublishFailure := s.kafkaPublishFailure + 1 }

def observeKafkaEnqueue (s : Shard) (accepted : Bool) : Shard :=
  if accepted then
    { s with
      kafkaEnqueueAccepted := s.kafkaEnqueueAccepted + 1
      kafkaPublishSuccess := s.kafkaPublishSuccess + 1 }
  else
    { s with
      kafkaEnqueueDropped := s.kafkaEnqueueDropped + 1
      kafkaPublishFailure := s.kafkaPublishFailure + 1 }

def observeKafkaProduceAccepted (s : Shard) (ok : Bool) : Shard :=
  if ok then { s with kafkaProduceAccepted := s.kafkaProduceAccepted + 1 }
  else { s with kafkaProduceFailed := s.kafkaProduceFailed + 1 }

def observeKafkaDelivery (s : Shard) (success : Bool) : Shard :=
  if success then { s with kafkaDelivered := s.kafkaDelivered + 1 }
  else { s with kafkaDeliveryFailed := s.kafkaDeliveryFailed + 1 }

def observeLogEnqueue (s : Shard) (accepted : Bool) : Shard :=
  if accepted then { s with logEnqueueAccepted := s.logEnqueueAccepted + 1 }
  else { s with logEnqueueDropped := s.logEnqueueDropped + 1 }

def observeOriginCap (s : Shard) (kind : Bytes) (acquired : Bool) : Shard :=
  if acquired then { s with originCapAcquired := s.originCapAcquired.bump kind 1 }
  else { s with originCapRejected := s.originCapRejected.bump kind 1 }

def observe (s : Shard) : Observation → Shard
  | .httpRequest method route status duration => s.observeHttpRequest method route status duration
  | .cacheResult result => s.observeCacheResult result
  | .kafkaPublish success => s.observeKafkaPublish success
  | .kafkaEnqueue accepted => s.observeKafkaEnqueue accepted
  | .kafkaProduceAccepted ok => s.observeKafkaProduceAccepted ok
  | .kafkaDelivery success => s.observeKafkaDelivery success
  | .logEnqueue accepted => s.observeLogEnqueue accepted
  | .originCap kind acquired => s.observeOriginCap kind acquired

/-- The loop of `render_prometheus` over the shards, on one of them; `add_map` is that of the maps. -/
def merge (acc s : Shard) : Shard where
  httpRequests := acc.httpRequests.add s.httpRequests
  httpLatencyBuckets := fun i => acc.httpLatencyBuckets i + s.httpLatencyBuckets i
  httpLatencyCount := acc.httpLatencyCount + s.httpLatencyCount
  httpLatencySum := acc.httpLatencySum + s.httpLatencySum
  cacheResults := acc.cacheResults.add s.cacheResults
  kafkaPublishSuccess := acc.kafkaPublishSuccess + s.kafkaPublishSuccess
  kafkaPublishFailure := acc.kafkaPublishFailure + s.kafkaPublishFailure
  kafkaEnqueueAccepted := acc.kafkaEnqueueAccepted + s.kafkaEnqueueAccepted
  kafkaEnqueueDropped := acc.kafkaEnqueueDropped + s.kafkaEnqueueDropped
  kafkaProduceAccepted := acc.kafkaProduceAccepted + s.kafkaProduceAccepted
  kafkaProduceFailed := acc.kafkaProduceFailed + s.kafkaProduceFailed
  kafkaDelivered := acc.kafkaDelivered + s.kafkaDelivered
  kafkaDeliveryFailed := acc.kafkaDeliveryFailed + s.kafkaDeliveryFailed
  logEnqueueAccepted := acc.logEnqueueAccepted + s.logEnqueueAccepted
  logEnqueueDropped := acc.logEnqueueDropped + s.logEnqueueDropped
  originCapAcquired := acc.originCapAcquired.add s.originCapAcquired
  originCapRejected := acc.originCapRejected.add s.originCapRejected

end Shard

/-- What the mutexes guard, by shard. -/
abbrev MetricsRegistry := Fin kShardCount → Shard

namespace MetricsRegistry

/-- Calls, each with the shard of its thread. -/
def run (r : MetricsRegistry) (history : List (Fin kShardCount × Observation)) : MetricsRegistry :=
  Sharded.run Shard.observe r history

def resetForTest (_ : MetricsRegistry) : MetricsRegistry := fun _ => {}

def merged (r : MetricsRegistry) : Shard :=
  (List.finRange kShardCount).foldl (fun acc i => acc.merge (r i)) {}

end MetricsRegistry

/-! ## render_prometheus -/

/-- `out << std::fixed << std::setprecision(6)`, and `std::to_string`, on a number that is not
rounded before. -/
def fixed6 (q : ℚ) : Bytes :=
  let n := JsonText.roundDiv (q.num.natAbs * 10 ^ 6) q.den
  (if q < 0 then ascii "-" else []) ++ toDecimal (n / 10 ^ 6) ++ ascii "." ++
    ([5, 4, 3, 2, 1, 0].map fun i => UInt8.ofNat (48 + n / 10 ^ i % 10))

def escapeLabelValue (value : Bytes) : Bytes :=
  value.flatMap fun c => if c = 92 ∨ c = 34 then [92, c] else [c]

def labelsLoop : Bool → List (Bytes × Bytes) → Bytes
  | _, [] => []
  | first, (key, value) :: values =>
    (if first then [] else ascii ",") ++ key ++ ascii "=\"" ++ escapeLabelValue value ++ ascii "\"" ++
      labelsLoop false values

/-- The values are those of a `std::map`, by ascending key. -/
def labels (values : List (Bytes × Bytes)) : Bytes :=
  if values = [] then [] else ascii "\x7b" ++ labelsLoop true values ++ ascii "\x7d"

/-- Method, route and status class of a key. Where there is no `|`, `find` returns the largest
number and `substr` takes what there is, from the start again for that number and one. -/
def splitKey (key : Bytes) : Bytes × Bytes × Bytes :=
  match key.findIdx? fun b => decide (b = 124) with
  | none => (key, key, key)
  | some first =>
    match (key.drop (first + 1)).findIdx? fun b => decide (b = 124) with
    | none => (key.take first, key.drop (first + 1), key)
    | some gap =>
      (key.take first, (key.drop (first + 1)).take gap, key.drop (first + 1 + gap + 1))

def httpLabels (key : Bytes) : List (Bytes × Bytes) :=
  [(ascii "method", (splitKey key).1), (ascii "route", (splitKey key).2.1),
    (ascii "status_class", (splitKey key).2.2)]

def header (name help type : String) : Bytes :=
  ascii "# HELP " ++ ascii name ++ ascii " " ++ ascii help ++ ascii "\n" ++
    ascii "# TYPE " ++ ascii name ++ ascii " " ++ ascii type ++ ascii "\n"

def sampleLine (name : String) (values : List (Bytes × Bytes)) (number : Bytes) : Bytes :=
  ascii name ++ labels values ++ ascii " " ++ number ++ ascii "\n"

def countLine (name : String) (values : List (Bytes × Bytes)) (n : UInt64) : Bytes :=
  sampleLine name values (toDecimal n.toNat)

/-- `render_prometheus`, on the sums. -/
def renderSums (m : Shard) : Bytes :=
  header "shorturl_http_requests_total" "Total HTTP requests by route and status class."
    "counter" ++
  m.httpRequests.entries.flatMap (fun item =>
    countLine "shorturl_http_requests_total" (httpLabels item.1) item.2) ++
  header "shorturl_http_request_duration_seconds" "HTTP request latency histogram." "histogram" ++
  (List.finRange 12).flatMap (fun i =>
    countLine "shorturl_http_request_duration_seconds_bucket"
      [(ascii "le", fixed6 (kLatencyBuckets i))] (m.httpLatencyBuckets i.castSucc)) ++
  countLine "shorturl_http_request_duration_seconds_bucket" [(ascii "le", ascii "+Inf")]
    (m.httpLatencyBuckets (Fin.last 12)) ++
  sampleLine "shorturl_http_request_duration_seconds_sum" [] (fixed6 m.httpLatencySum) ++
  countLine "shorturl_http_request_duration_seconds_count" [] m.httpLatencyCount ++
  header "shorturl_cache_requests_total" "Cache lookups by result." "counter" ++
  m.cacheResults.entries.flatMap (fun item =>
    countLine "shorturl_cache_requests_total" [(ascii "result", item.1)] item.2) ++
  header "shorturl_kafka_publish_total"
    "Kafka click enqueue on request path (accepted vs dropped/unavailable; not zero-loss)."
    "counter" ++
  countLine "shorturl_kafka_publish_total" [(ascii "result", ascii "success")]
    m.kafkaPublishSuccess ++
  countLine "shorturl_kafka_publish_total" [(ascii "result", ascii "failure")]
    m.kafkaPublishFailure ++
  header "shorturl_kafka_enqueue_total" "Bounded click-queue enqueue results." "counter" ++
  countLine "shorturl_kafka_enqueue_total" [(ascii "result", ascii "accepted")]
    m.kafkaEnqueueAccepted ++
  countLine "shorturl_kafka_enqueue_total" [(ascii "result", ascii "dropped")]
    m.kafkaEnqueueDropped ++
  header "shorturl_kafka_produce_total" "Background rd_kafka_producev accept/fail." "counter" ++
  countLine "shorturl_kafka_produce_total" [(ascii "result", ascii "accepted")]
    m.kafkaProduceAccepted ++
  countLine "shorturl_kafka_produce_total" [(ascii "result", ascii "failed")]
    m.kafkaProduceFailed ++
  header "shorturl_kafka_delivery_total" "Kafka delivery-report callback outcomes." "counter" ++
  countLine "shorturl_kafka_delivery_total" [(ascii "result", ascii "success")]
    m.kafkaDelivered ++
  countLine "shorturl_kafka_delivery_total" [(ascii "result", ascii "failure")]
    m.kafkaDeliveryFailed ++
  header "shorturl_log_enqueue_total" "Bounded structured-log queue enqueue results." "counter" ++
  countLine "shorturl_log_enqueue_total" [(ascii "result", ascii "accepted")]
    m.logEnqueueAccepted ++
  countLine "shorturl_log_enqueue_total" [(ascii "result", ascii "dropped")]
    m.logEnqueueDropped ++
  header "shorturl_origin_cap_total" "MySQL origin budget acquire results when Redis is down."
    "counter" ++
  m.originCapAcquired.entries.flatMap (fun item =>
    countLine "shorturl_origin_cap_total"
      [(ascii "kind", item.1), (ascii "result", ascii "acquired")] item.2) ++
  m.originCapRejected.entries.flatMap (fun item =>
    countLine "shorturl_origin_cap_total"
      [(ascii "kind", item.1), (ascii "result", ascii "rejected")] item.2)

def MetricsRegistry.renderPrometheus (r : MetricsRegistry) : Bytes := renderSums r.merged

/-! ## Shards add up -/

instance : Zero Shard := ⟨{}⟩

instance : Add Shard := ⟨Shard.merge⟩

instance : AddCommMonoid Shard where
  add_assoc a b c := by
    apply Shard.ext
    all_goals exact add_assoc _ _ _
  zero_add a := by
    apply Shard.ext
    all_goals exact zero_add _
  add_zero a := by
    apply Shard.ext
    all_goals exact add_zero _
  add_comm a b := by
    apply Shard.ext
    all_goals exact add_comm _ _
  nsmul := nsmulRec

theorem add_one_eq (n : UInt64) : n + 1 = n + (0 + 1) := by rw [zero_add]

/-- A call adds to its shard what it makes of an empty one. -/
theorem observe_eq (s : Shard) (o : Observation) : s.observe o = s + (0 : Shard).observe o := by
  cases o with
  | httpRequest method route status duration =>
    apply Shard.ext
    case httpRequests => exact SortedMap.bump_eq _ _ _
    case httpLatencyBuckets =>
      funext i
      show (if inBucket duration i then s.httpLatencyBuckets i + 1 else s.httpLatencyBuckets i) =
        s.httpLatencyBuckets i + if inBucket duration i then 0 + 1 else 0
      cases inBucket duration i with
      | true => exact add_one_eq _
      | false => exact (add_zero _).symm
    case httpLatencyCount => exact add_one_eq _
    case httpLatencySum => exact congrArg (s.httpLatencySum + ·) (zero_add duration).symm
    all_goals exact (add_zero _).symm
  | cacheResult result =>
    apply Shard.ext
    case cacheResults => exact SortedMap.bump_eq _ _ _
    all_goals exact (add_zero _).symm
  | kafkaPublish success =>
    cases success with
    | true =>
      apply Shard.ext
      case kafkaPublishSuccess => exact add_one_eq _
      all_goals exact (add_zero _).symm
    | false =>
      apply Shard.ext
      case kafkaPublishFailure => exact add_one_eq _
      all_goals exact (add_zero _).symm
  | kafkaEnqueue accepted =>
    cases accepted with
    | true =>
      apply Shard.ext
      case kafkaEnqueueAccepted => exact add_one_eq _
      case kafkaPublishSuccess => exact add_one_eq _
      all_goals exact (add_zero _).symm
    | false =>
      apply Shard.ext
      case kafkaEnqueueDropped => exact add_one_eq _
      case kafkaPublishFailure => exact add_one_eq _
      all_goals exact (add_zero _).symm
  | kafkaProduceAccepted ok =>
    cases ok with
    | true =>
      apply Shard.ext
      case kafkaProduceAccepted => exact add_one_eq _
      all_goals exact (add_zero _).symm
    | false =>
      apply Shard.ext
      case kafkaProduceFailed => exact add_one_eq _
      all_goals exact (add_zero _).symm
  | kafkaDelivery success =>
    cases success with
    | true =>
      apply Shard.ext
      case kafkaDelivered => exact add_one_eq _
      all_goals exact (add_zero _).symm
    | false =>
      apply Shard.ext
      case kafkaDeliveryFailed => exact add_one_eq _
      all_goals exact (add_zero _).symm
  | logEnqueue accepted =>
    cases accepted with
    | true =>
      apply Shard.ext
      case logEnqueueAccepted => exact add_one_eq _
      all_goals exact (add_zero _).symm
    | false =>
      apply Shard.ext
      case logEnqueueDropped => exact add_one_eq _
      all_goals exact (add_zero _).symm
  | originCap kind acquired =>
    cases acquired with
    | true =>
      apply Shard.ext
      case originCapAcquired => exact SortedMap.bump_eq _ _ _
      all_goals exact (add_zero _).symm
    | false =>
      apply Shard.ext
      case originCapRejected => exact SortedMap.bump_eq _ _ _
      all_goals exact (add_zero _).symm

/-- What calls add up to. -/
def tally (os : List Observation) : Shard := (os.map (0 : Shard).observe).sum

/-- **The shards do not show.** What is scraped after a reset is what the calls add up to. -/
theorem merged_run (r : MetricsRegistry) (history : List (Fin kShardCount × Observation)) :
    (r.resetForTest.run history).merged = tally (history.map Prod.snd) := by
  have hempty : Sharded.total r.resetForTest = 0 := by
    show (List.finRange kShardCount).foldl (fun acc _ => acc + (0 : Shard)) 0 = 0
    rw [Sharded.foldl_add (fun _ => (0 : Shard))]
    simp
  have htotal := Sharded.total_run observe_eq r.resetForTest history
  rw [hempty, zero_add] at htotal
  rw [tally, List.map_map]
  exact htotal

/-- The same calls in another order, of other threads. -/
theorem merged_run_perm (r r' : MetricsRegistry)
    {history history' : List (Fin kShardCount × Observation)}
    (h : (history.map Prod.snd).Perm (history'.map Prod.snd)) :
    (r.resetForTest.run history).merged = (r'.resetForTest.run history').merged :=
  Sharded.total_run_perm observe_eq r.resetForTest h

end Observability
end UrlShortener
