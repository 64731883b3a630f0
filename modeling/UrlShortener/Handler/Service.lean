import UrlShortener.Handler.Kept
import UrlShortener.Handler.Minted

/-!
# UrlShortener.Handler.Service

The process with its Bloom filter, over its whole life: requests one after the other, time that
passes, entries that Redis loses, and restarts. A restart keeps the tables and Redis; the local
cache is empty, and `warmup` fills a new filter with the codes that MySQL lists.

With `bloom_hard_filter` on, a code that the filter does not hold is answered with 404 before any
cache is asked. `Holding` is the invariant: the stores keep what was promised, and the filter lets
every promised code through that has not expired. A code that expires before a restart is not
listed, and may be a 404 where it was a 410.
-/

namespace UrlShortener
namespace Handler

open Http (Dispatched HttpConn HttpRequest HttpResponse splitPath)
open LocalCache (EntryView isBusinessExpired)
open ShortUrl

/-! ## The calls of `add_legal_code` -/

section Passed

variable {cfg : Config}

/-- The codes that `origin_lookup` passes to `set`. -/
def originPassed (s : Process cfg) (code : Bytes) (env : Env) : List Bytes :=
  if !s.redisAvailable && !env.slot then []
  else
    match s.getRedis code env with
    | (_, .hit _) => []
    | (_, .expired _) => []
    | (s, _) =>
      match findLongUrl cfg.coll cfg.router s.db env.mysql code s.wall env.find with
      | .ok _ _ => [code]
      | _ => []

/-- The codes that `redirect` passes to `set`. -/
def redirectPassed (s : Process cfg) (code : Bytes) (v : Visit) : List Bytes :=
  if v.bloom.hardMiss code = some true then []
  else
    match LocalCache.get cfg.cache s.shards code s.now s.wall, v.flight with
    | .miss, none => originPassed (s.perform (.get code s.now s.wall)) code v.env
    | _, _ => []

/-- The codes that `shorten` passes to `set`. -/
def shortenPassed (o : Outside) (s : Process cfg) (body : Bytes) : List Bytes :=
  match decodeShorten body with
  | .accepted longUrl expireAt =>
    if !s.redisAvailable && !o.env.slot then []
    else if !o.env.mysql then []
    else
      match (s.createLoop longUrl expireAt o.env (List.ofFn o.tries)).2 with
      | .created code => [code]
      | _ => []
  | _ => []

/-- The codes that the handler of a request passes to `set`. -/
def passed (o : Outside) (s : Process cfg) (req : HttpRequest) : List Bytes :=
  match target req with
  | .shorten => shortenPassed o s req.body
  | .redirect => (splitPath req.path).flatMap fun code => redirectPassed s code o.toVisit
  | _ => []

end Passed

/-- `add_legal_code`. -/
def addLegalCode (b : BloomState) (code : Bytes) : BloomState := (b.step (.set code)).getD b

section Filter

variable {b : BloomState} {code c : Bytes}

theorem addLegalCode_spec (h : b.bloom.Covered) (code : Bytes) :
    (addLegalCode b code).bloom.Covered ∧ (addLegalCode b code).bloom.Holds code ∧
      (∀ c, b.hardMiss c = some false → (addLegalCode b code).hardMiss c = some false) := by
  obtain ⟨bloom, hadd⟩ := Option.isSome_iff_exists.mp (h.add_isSome code)
  have he : addLegalCode b code = { b with bloom, passed := b.passed ++ [code] } := by
    rw [addLegalCode, BloomState.step, hadd]
    rfl
  rw [he]
  refine ⟨h.add hadd, BloomFilter.holds_of_add hadd, ?_⟩
  intro c hc
  rw [BloomState.hardMiss] at hc ⊢
  simp only
  split
  · rename_i hhard
    rw [if_pos hhard] at hc
    have hold : b.bloom.Holds c := by
      obtain ⟨holds, hmight, hnot⟩ := Option.map_eq_some_iff.mp hc
      rw [BloomFilter.Holds, hmight]
      simpa using hnot
    rw [hold.add hadd]
    rfl
  · rfl

/-- What is let through stays so, whatever is added. -/
theorem addAll_spec (codes : List Bytes) (h : b.bloom.Covered) :
    (codes.foldl addLegalCode b).bloom.Covered ∧
      (∀ code ∈ codes, (codes.foldl addLegalCode b).hardMiss code = some false) ∧
      ∀ c, b.hardMiss c = some false → (codes.foldl addLegalCode b).hardMiss c = some false := by
  induction codes generalizing b with
  | nil =>
    refine ⟨h, ?_, fun c hc => hc⟩
    intro code hc
    cases hc
  | cons code codes ih =>
    obtain ⟨hcovered, hholds, hold⟩ := addLegalCode_spec h code
    obtain ⟨hcovered', hnew, hold'⟩ := ih hcovered
    refine ⟨hcovered', ?_, fun c hc => hold' c (hold c hc)⟩
    intro c hc
    rcases List.mem_cons.mp hc with rfl | hc
    · exact hold' c (BloomState.hardMiss_of_holds hholds)
    · exact hnew c hc

end Filter

/-! ## warmup -/

/-- The steps of `warmup` after this listing. -/
def warmupSteps (listing : Listing) : List BloomState.Label :=
  .list listing ::
    if listing.error.isSome then [] else List.replicate (listing.codes.length + 1) .warm

/-- The filter of a process that has just been started. -/
def warmup (config : BloomConfig) (listing : Listing) : BloomState :=
  (Machine.run BloomState.step (.init config) (warmupSteps listing)).getD (.init config)

/-- The loop of `warmup` comes to its end. -/
theorem warm_run {codes : List Bytes} (rest : List Bytes) {b : BloomState} (h : b.bloom.Covered)
    (hw : b.warmup = some (codes, rest)) :
    ∃ b', Machine.run BloomState.step b (List.replicate (rest.length + 1) .warm) = some b' ∧
      b'.listed = b.listed ++ codes := by
  induction rest generalizing b with
  | nil =>
    refine ⟨{ b with bloomReady := true, warmup := none, listed := b.listed ++ codes }, ?_, rfl⟩
    show (b.step .warm).bind _ = _
    rw [BloomState.step, hw]
    rfl
  | cons code rest ih =>
    obtain ⟨bloom, hadd⟩ := Option.isSome_iff_exists.mp (h.add_isSome code)
    have hstep : b.step .warm = some { b with bloom, warmup := some (codes, rest) } := by
      rw [BloomState.step, hw]
      simp only [hadd, Option.map_some]
    obtain ⟨b', hrun, hlisted⟩ := ih (b := { b with bloom, warmup := some (codes, rest) })
      (h.add hadd) rfl
    refine ⟨b', ?_, hlisted⟩
    rw [List.length_cons, List.replicate_succ, Machine.run, hstep]
    exact hrun

/-- **After `warmup`** every listed code is let through, and if the listing failed every code is. -/
theorem warmup_spec (config : BloomConfig) (listing : Listing) :
    (warmup config listing).bloom.Covered ∧
      ∀ code, (listing.error = none → code ∈ listing.codes) →
        (warmup config listing).hardMiss code = some false := by
  have hinit := BloomState.inv_init config
  cases herror : listing.error with
  | some error =>
    have hwarm : warmup config listing = .init config := by
      rw [warmup, warmupSteps, herror]
      simp only [Machine.run, BloomState.step, herror, Option.isSome_some, if_true]
      rfl
    rw [hwarm]
    exact ⟨hinit.covered, fun code _ => by simp [BloomState.hardMiss, BloomState.init]⟩
  | none =>
    obtain ⟨b, hrun, hlisted⟩ := warm_run listing.codes
      (b := { BloomState.init config with warmup := some (listing.codes, listing.codes) })
      hinit.covered rfl
    have hall : Machine.run BloomState.step (.init config) (warmupSteps listing) = some b := by
      rw [warmupSteps, herror, Machine.run]
      simp only [BloomState.step, herror, Option.isSome_none]
      exact hrun
    have hinv : b.Inv := BloomState.inv_run hall
    rw [warmup, hall, Option.getD_some]
    refine ⟨hinv.covered, fun code hcode => BloomState.hardMiss_of_holds (hinv.listed code ?_)⟩
    rw [hlisted]
    exact List.mem_append_right _ (hcode rfl)

/-! ## What a request leaves behind -/

section Requests

variable {cfg : Config} {P : Promised} {s : Process cfg}

/-- No request moves the clock. -/
theorem refill_wall (s : Process cfg) (code : Bytes) (env : Env) :
    (s.refill code env).1.wall = s.wall := by
  unfold Process.refill
  cases findLongUrl cfg.coll cfg.router s.db env.mysql code s.wall env.find with
  | ok longUrl expireAt => exact Process.writeRedis_wall _ _ _ _
  | expired longUrl expireAt => exact Process.writeRedis_wall _ _ _ _
  | notFound => rfl
  | dbError error => rfl

theorem originLookup_wall (s : Process cfg) (code : Bytes) (env : Env) :
    (s.originLookup code env).1.wall = s.wall := by
  obtain ⟨-, hwall, -⟩ := getRedis_says s code env
  unfold Process.originLookup
  split
  · rfl
  · rcases hget : s.getRedis code env with ⟨s₁, status⟩
    rw [hget] at hwall
    cases status with
    | hit v => exact hwall
    | expired v => exact hwall
    | miss => exact (refill_wall s₁ code env).trans hwall
    | unavailable => exact (refill_wall s₁ code env).trans hwall

theorem doFlight_wall (s : Process cfg) (code : Bytes) (v : Visit) :
    (doFlight s code v).1.wall = s.wall := by
  unfold doFlight
  cases v.flight with
  | some r => rfl
  | none => exact originLookup_wall s code v.env

theorem redirect_wall (s : Process cfg) (req : HttpRequest) (v : Visit) :
    (redirect s req v).process.wall = s.wall := by
  unfold redirect
  cases req.params.lookup (ascii "code") with
  | none => rfl
  | some code =>
    simp only
    split
    · rfl
    · split
      · rfl
      · cases LocalCache.get cfg.cache s.shards code s.now s.wall with
        | hit e => rfl
        | expired e => exact Process.writeRedis_wall _ _ _ _
        | negHit => rfl
        | miss => exact doFlight_wall _ code v

theorem createLoop_wall (s : Process cfg) (longUrl expireAt : Bytes) (env : Env)
    (tries : List (Option UInt64 × Reply)) :
    (s.createLoop longUrl expireAt env tries).1.wall = s.wall := by
  induction tries generalizing s with
  | nil => rfl
  | cons next tries ih =>
    obtain ⟨id, reply⟩ := next
    cases id with
    | none => rfl
    | some id =>
      rw [Process.createLoop]
      rcases create cfg.coll cfg.router s.db env.mysql ⟨id, base62Encode id, longUrl, expireAt⟩
        reply with ⟨db, status⟩
      cases status with
      | ok => exact Process.writeRedis_wall _ _ _ _
      | duplicateCode => exact ih _
      | dbError error => rfl

theorem shorten_wall (o : Outside) (s : Process cfg) (req : HttpRequest) :
    (shorten o s req).1.wall = s.wall := by
  unfold shorten
  cases decodeShorten req.body with
  | answered resp => rfl
  | raised e => rfl
  | accepted longUrl expireAt =>
    simp only
    split
    · rfl
    · split
      · rfl
      · exact createLoop_wall s longUrl expireAt o.env _

/-- A redirect breaks no promise, whatever its flight returns. -/
theorem Kept.redirectRequest (h : Kept P s) (req : HttpRequest) (v : Visit) :
    Kept P (Handler.redirect s req v).process := by
  unfold Handler.redirect
  cases req.params.lookup (ascii "code") with
  | none => exact h
  | some code =>
    have hget : Kept P (s.perform (.get code s.now s.wall)) := h.perform (by simp) (by simp)
    simp only
    split
    · exact h
    · split
      · exact h
      · cases LocalCache.get cfg.cache s.shards code s.now s.wall with
        | hit e => exact hget
        | expired e => exact hget.erase
        | negHit => exact hget
        | miss =>
          unfold doFlight
          cases v.flight with
          | some r => exact hget
          | none => exact (hget.originLookup code v.env).1

/-- Nor does a `shorten`. -/
theorem Kept.shorten (h : Kept P s) (o : Outside) (req : HttpRequest) :
    Kept P (Handler.shorten o s req).1 := by
  unfold Handler.shorten
  cases hbody : decodeShorten req.body with
  | answered resp => exact h
  | raised e => exact h
  | accepted longUrl expireAt =>
    simp only
    split
    · exact h
    · split
      · exact h
      · exact (h.createLoop o.env (Traffic.sound_of_decoded hbody) (List.ofFn o.tries)).1

theorem returned_fst {σ : Type} (r : σ × Option HttpResponse) : (returned r).1 = r.1 := by
  obtain ⟨s, resp⟩ := r
  cases resp with
  | none => rfl
  | some resp => rfl

theorem Kept.dispatch (h : Kept P s) (o : Outside) (req : HttpRequest) :
    Kept P (Handler.dispatch o s req).1 ∧ (Handler.dispatch o s req).1.wall = s.wall := by
  obtain ⟨params, pattern, hdispatch⟩ := dispatch_routes (handlers o) s req
  rw [Handler.dispatch, hdispatch]
  cases target req with
  | health =>
    rw [answerBy, returned_fst]
    exact ⟨h, rfl⟩
  | metrics =>
    rw [answerBy, returned_fst]
    exact ⟨h, rfl⟩
  | shorten =>
    rw [answerBy, returned_fst]
    exact ⟨h.shorten o _, shorten_wall o s _⟩
  | redirect =>
    rw [answerBy, returned_fst]
    exact ⟨h.redirectRequest _ o.toVisit, redirect_wall s _ o.toVisit⟩
  | unmatched => exact ⟨h, rfl⟩

end Requests

/-! ## The system -/

namespace Service

structure Config where
  process : Handler.Config
  bloom : BloomConfig

/-- What the outside does while `main` starts. -/
structure Boot where
  now : Int
  redisAvailable : Bool
  mysql : Bool := true
  /-- What becomes of the statement that lists a table. -/
  reply : Bytes → Reply := fun _ => .answered

structure State (cfg : Config) where
  process : Process cfg.process
  bloom : BloomState

inductive Label where
  /-- A request, whatever its answer is. -/
  | request (o : Outside) (req : HttpRequest)
  | tick (now : Int) (wall : Bytes)
  /-- Redis loses an entry, or somebody else writes what does not decode. -/
  | redis (key : Bytes) (value : Option Bytes)
  | available (up : Bool)
  /-- The process dies and is started again. -/
  | restart (b : Boot)

namespace State

variable {cfg : Config}

/-- `main`, up to its event loop. -/
def boot (cfg : Config) (b : Boot) (wall : Bytes) (db : Tables) (redis : Bytes → Option Bytes) :
    State cfg where
  process := {
    now := b.now
    wall
    db
    shards := LocalCache.empty cfg.process.cache
    redis
    redisAvailable := b.redisAvailable }
  bloom := warmup cfg.bloom
    (listActiveCodes cfg.process.router db b.mysql fun table => ⟨wall, b.reply table⟩)

/-- With nothing stored. -/
def start (cfg : Config) (b : Boot) (wall : Bytes) : State cfg :=
  boot cfg b wall (fun _ => []) (fun _ => none)

/-- `Router::dispatch`, with the filter that is there. -/
def dispatch (o : Outside) (s : State cfg) (req : HttpRequest) : State cfg × Dispatched :=
  let o := { o with bloom := s.bloom }
  let (process, answer) := Handler.dispatch o s.process req
  ({ process, bloom := (passed o s.process req).foldl addLegalCode s.bloom }, answer)

/-- The wall clock is not set back. -/
def step (s : State cfg) : Label → Option (State cfg)
  | .request o req => some (s.dispatch o req).1
  | .tick now wall =>
    if s.process.wall ≤ wall then some { s with process := { s.process with now, wall } } else none
  | .redis key value =>
    if value.bind decodeRedisValue = none then
      some { s with process := s.process.setRedis key value }
    else none
  | .available up => some { s with process := { s.process with redisAvailable := up } }
  | .restart b => some (boot cfg b s.process.wall s.process.db s.process.redis)

end State

/-! ## The invariant -/

variable {cfg : Config} {P : Promised} {s s' : State cfg}

structure Holding (P : Promised) (s : State cfg) : Prop where
  kept : Kept P s.process
  covered : s.bloom.bloom.Covered
  /-- The filter lets a promised code through until it expires. -/
  shown : ∀ code v, P code v → isBusinessExpired v.expireAt s.process.wall = false →
    s.bloom.hardMiss code = some false

/-- A row that has not expired is listed. -/
theorem listed_of_owns {coll : Collation} {router : ShardRouter} (hcounted : router.Counted)
    {db : Tables} {mysql : Bool} {reply : Bytes → Reply}
    {wall code : Bytes} (hnul : NUL ∉ code) {v : EntryView} (hown : Owns coll router db code v)
    (hlive : isBusinessExpired v.expireAt wall = false)
    (hok : (listActiveCodes router db mysql fun table => ⟨wall, reply table⟩).error = none) :
    code ∈ (listActiveCodes router db mysql fun table => ⟨wall, reply table⟩).codes := by
  obtain ⟨row, hsel, hcode, rfl⟩ := hown
  refine mem_listActiveCodes hcounted hok (List.mem_map.mpr
    ⟨row, List.mem_filter.mpr ⟨(select_some hsel).1, ?_⟩, by rw [hcode, cString_eq_self hnul]⟩)
  rw [isBusinessExpired] at hlive
  rw [isActive]
  split at hlive
  · rename_i hnil
    rw [decide_eq_true (show row.expireAt = [] from hnil), Bool.true_or]
  · have hlt : wall < row.expireAt := List.not_le.mp (of_decide_eq_false hlive)
    rw [decide_eq_true hlt, Bool.or_true]

/-- **A start keeps every promise** that the tables keep. -/
theorem holding_boot (hcounted : cfg.process.router.Counted) {p : Process cfg.process}
    (h : Kept P p) (b : Boot) : Holding P (State.boot cfg b p.wall p.db p.redis) := by
  obtain ⟨hcovered, hlisted⟩ := warmup_spec cfg.bloom
    (listActiveCodes cfg.process.router p.db b.mysql fun table => ⟨p.wall, b.reply table⟩)
  refine ⟨?_, hcovered, ?_⟩
  · exact ⟨h.keyed, h.sound, ⟨LocalCache.known_empty _ _, h.caches.redis⟩,
      LocalCache.known_empty _ _, h.stored⟩
  · intro code v hv hlive
    obtain ⟨row, hsound, rfl, -⟩ := h.row hv
    exact hlisted _ fun hok => listed_of_owns hcounted hsound.named (h.stored _ v hv) hlive hok

theorem holding_start (hcounted : cfg.process.router.Counted) (b : Boot) (wall : Bytes) :
    Holding (fun _ _ => False) (State.start cfg b wall) :=
  holding_boot hcounted (kept_start 0 wall true) b

/-- What has expired stays expired. -/
theorem live_of_le {expireAt wall wall' : Bytes} (hle : wall ≤ wall')
    (h : isBusinessExpired expireAt wall' = false) : isBusinessExpired expireAt wall = false := by
  rw [isBusinessExpired] at h ⊢
  split
  · rfl
  · rename_i hne
    rw [if_neg hne] at h
    exact decide_eq_false fun hexp => of_decide_eq_false h (List.le_trans hexp hle)

/-- What a request leaves, and what it has told the filter. -/
theorem Holding.dispatch (h : Holding P s) (o : Outside) (req : HttpRequest) :
    Holding P (s.dispatch o req).1 ∧
      ∀ code ∈ passed { o with bloom := s.bloom } s.process req,
        (s.dispatch o req).1.bloom.hardMiss code = some false := by
  obtain ⟨hkept, hwall⟩ := h.kept.dispatch { o with bloom := s.bloom } req
  obtain ⟨hcovered, hnew, hold⟩ :=
    addAll_spec (passed { o with bloom := s.bloom } s.process req) h.covered
  refine ⟨⟨hkept, hcovered, ?_⟩, hnew⟩
  intro code v hv hlive
  have hlive' : isBusinessExpired v.expireAt s.process.wall = false := hwall ▸ hlive
  exact hold code (h.shown code v hv hlive')

/-- **Every step keeps the promises.** -/
theorem Holding.step (hcounted : cfg.process.router.Counted) {l : Label} (h : Holding P s)
    (hs : s.step l = some s') : Holding P s' := by
  cases l with
  | request o req =>
    cases hs
    exact (h.dispatch o req).1
  | tick now wall =>
    simp only [State.step] at hs
    split at hs
    · rename_i hle
      cases hs
      exact ⟨h.kept.of_eq rfl rfl rfl, h.covered,
        fun code v hv hlive => h.shown code v hv (live_of_le hle hlive)⟩
    · cases hs
  | redis key value =>
    simp only [State.step] at hs
    split at hs
    · rename_i hvalue
      cases hs
      refine ⟨h.kept.of_caches rfl (h.kept.caches.setRedis ?_) h.kept.negative, h.covered, h.shown⟩
      intro c raw v _ hraw hdec
      rw [hraw, Option.bind_some, hdec] at hvalue
      cases hvalue
    · cases hs
  | available up =>
    cases hs
    exact ⟨h.kept.of_eq rfl rfl rfl, h.covered, h.shown⟩
  | restart b =>
    cases hs
    exact holding_boot hcounted h.kept b

theorem Holding.run (hcounted : cfg.process.router.Counted) {ls : List Label} (h : Holding P s)
    (hr : Machine.run State.step s ls = some s') : Holding P s' :=
  Machine.run_preserves State.step (fun _ _ _ h hs => h.step hcounted hs) h hr

end Service

end Handler
end UrlShortener
