import UrlShortener.ShortUrl.LocalCacheSpec

/-!
# UrlShortener.ShortUrl.LocalCacheBudget

How much the local cache holds, and in which order it lets go.

The byte counters are exact and within the budgets after every sequence of operations. The queues are not: an entry that leaves in another way than by eviction
leaves its code behind in the queue, and a second one is added when the code comes in again.
So a queue is what it is meant to be as long as no entry lapses, is erased, or changes sides.
-/

namespace UrlShortener
namespace LocalCache

open FifoMap (Bounded Exact candidates arrivals)

variable {cfg : Config} {sh : Shard} {c : Bytes}

/-! ## The counters -/

theorem Op.onPositive_size (op : Op) (e : PositiveEntry) (h : op.onPositive cfg sh = .store e) :
    64 ≤ e.bytes := by
  cases op with
  | putPositive code v now draw =>
    cases h
    simp only [positiveEntry, estimatePositiveBytes]
    omega
  | putNegative code now => cases h
  | erase code => cases h
  | get code now wall =>
    simp only [Op.onPositive] at h
    split at h <;> cases h

theorem Op.onNegative_size (op : Op) (e : NegativeEntry) (h : op.onNegative cfg sh = .store e) :
    32 ≤ e.bytes := by
  cases op with
  | putPositive code v now draw => cases h
  | putNegative code now =>
    cases h
    simp only [negativeEntry, estimateNegativeBytes]
    omega
  | erase code => cases h
  | get code now wall =>
    simp only [Op.onNegative] at h
    split at h <;> cases h

structure Within (cfg : Config) (sh : Shard) : Prop where
  positive : Bounded PositiveEntry.bytes cfg.positiveByteBudget 64 sh.positive
  negative : Bounded NegativeEntry.bytes cfg.negativeByteBudget 32 sh.negative

theorem within_empty : Within cfg {} := ⟨FifoMap.bounded_empty, FifoMap.bounded_empty⟩

theorem Within.apply (h : Within cfg sh) (op : Op) : Within cfg (op.apply cfg sh) where
  positive := by
    rw [Op.apply_positive]
    exact h.positive.act op.onPositive_size
  negative := by
    rw [Op.apply_negative]
    exact h.negative.act op.onNegative_size

theorem within_run {ops : List Op} {s : Shards cfg}
    (hr : Machine.run (step cfg) (empty cfg) ops = some s) (i : Fin cfg.shardCount) :
    Within cfg (s i) :=
  run_shards cfg (I := fun _ => Within cfg) (fun op _ h => h.apply op) (fun _ => within_empty) hr i

theorem sum_map_le {α : Type} {f : α → Nat} {b : Nat} (h : ∀ x, f x ≤ b) (l : List α) :
    (l.map f).sum ≤ l.length * b := by
  have := List.sum_le_card_nsmul (l.map f) b fun y hy => by
    obtain ⟨x, -, rfl⟩ := List.mem_map.mp hy
    exact h x
  simpa using this

/-- **The counters.** Each is the sum over the entries of its map, no subtraction has gone below
zero, every entry can be reached by eviction, and the budgets are kept. -/
theorem bytes_within_budget (shardCount positiveByteBudget negativeByteBudget : Nat)
    (positiveTtlSeconds positiveTtlJitterSeconds negativeTtlSeconds : Int) (cfg : Config)
    (hcfg : cfg = configure shardCount positiveByteBudget negativeByteBudget positiveTtlSeconds
      positiveTtlJitterSeconds negativeTtlSeconds) (ops : List Op) (s : Shards cfg)
    (hr : Machine.run (step cfg) (empty cfg) ops = some s) :
    (∀ i, FifoMap.Counted PositiveEntry.bytes (s i).positive ∧
      FifoMap.Counted NegativeEntry.bytes (s i).negative ∧
      (s i).positive.bytes ≤ cfg.positiveByteBudget ∧
      (s i).negative.bytes ≤ cfg.negativeByteBudget) ∧
    positiveBytes cfg s ≤
      max 1 shardCount * max 1024 (positiveByteBudget / max 1 shardCount) ∧
    negativeBytes cfg s ≤
      max 1 shardCount * max 1024 (negativeByteBudget / max 1 shardCount) := by
  have h := fun i => within_run hr i
  have hpos := sum_map_le (fun i => (h i).positive.bytes_le) (List.finRange cfg.shardCount)
  have hneg := sum_map_le (fun i => (h i).negative.bytes_le) (List.finRange cfg.shardCount)
  rw [List.length_finRange] at hpos hneg
  refine ⟨?_, ?_, ?_⟩
  · intro i
    exact ⟨(h i).positive.toCounted, (h i).negative.toCounted, (h i).positive.bytes_le,
      (h i).negative.bytes_le⟩
  · subst hcfg
    exact hpos
  · subst hcfg
    exact hneg

/-- An entry larger than the budget, stored twice. -/
def oversized : List Op :=
  [.putPositive [97] ⟨List.replicate 2000 47, []⟩ 0 0, .putPositive [98] ⟨[47], []⟩ 1 0,
    .putNegative [98] 2, .putPositive [97] ⟨List.replicate 2000 47, []⟩ 3 0]

theorem bytes_within_budget_oversized : ∃ s,
    Machine.run (step (configure 1 4 4 60 0 30)) (empty _) oversized = some s ∧
      positiveBytes _ s ≤ 1024 ∧ negativeBytes _ s ≤ 1024 :=
  ⟨_, rfl, (bytes_within_budget 1 4 4 60 0 30 _ rfl oversized _ rfl).2⟩

/-! ## The queues -/

/-- The cache, and beside it the codes of each map in the order they last came in. -/
structure Watched (cfg : Config) where
  shards : Shards cfg
  positiveOrder : Fin cfg.shardCount → List Bytes
  negativeOrder : Fin cfg.shardCount → List Bytes

def watched (cfg : Config) : Watched cfg where
  shards := empty cfg
  positiveOrder _ := []
  negativeOrder _ := []

def watch (cfg : Config) (s : Watched cfg) (op : Op) : Option (Watched cfg) :=
  (step cfg s.shards op).map fun shards =>
    let i := shardIndex cfg op.code
    { shards
      positiveOrder := Function.update s.positiveOrder i
        (arrivals (s.positiveOrder i) op.code (op.onPositive cfg (s.shards i)) (shards i).positive)
      negativeOrder := Function.update s.negativeOrder i
        (arrivals (s.negativeOrder i) op.code (op.onNegative cfg (s.shards i))
          (shards i).negative) }

/-- The queue is the keys of the map, each once, in the given order, and as short as the budget
makes it when no entry is smaller than `n`. -/
structure Lined {K V : Type} [DecidableEq K] (budget n : Nat) (m : FifoMap K V) (order : List K) :
    Prop where
  exact : Exact m
  fifo_eq : m.fifo = order
  length_le : m.fifo.length * n ≤ budget

structure InOrder (cfg : Config) (s : Watched cfg) : Prop where
  positive : ∀ i, Lined cfg.positiveByteBudget 64 (s.shards i).positive (s.positiveOrder i)
  negative : ∀ i, Lined cfg.negativeByteBudget 32 (s.shards i).negative (s.negativeOrder i)

/-- What a put leaves of the codes it may evict from are the ones that came in last. -/
structure EvictsOldest (cfg : Config) (s : Watched cfg) (op : Op) (s' : Watched cfg) : Prop where
  positive : ∀ e, op.onPositive cfg (s.shards (shardIndex cfg op.code)) = .store e →
    s'.positiveOrder (shardIndex cfg op.code) <:+
      candidates (s.positiveOrder (shardIndex cfg op.code)) op.code (.store e)
  negative : ∀ e, op.onNegative cfg (s.shards (shardIndex cfg op.code)) = .store e →
    s'.negativeOrder (shardIndex cfg op.code) <:+
      candidates (s.negativeOrder (shardIndex cfg op.code)) op.code (.store e)

/-- The operation takes no entry out: it does not find its code on the other side, does not erase
a stored code, and does not read an entry that is past its time to live or its business expiry. -/
def Op.TakesNone (sh : Shard) : Op → Prop
  | .putPositive code _ _ _ => code ∉ sh.negative.map
  | .putNegative code _ => code ∉ sh.positive.map
  | .erase code => code ∉ sh.positive.map ∧ code ∉ sh.negative.map
  | .get code now wall =>
    sh.lapsedPositive code now wall = false ∧ sh.lapsedNegative code now = false

theorem Shard.mem_of_lapsedPositive {now : Int} {wall : Bytes}
    (h : sh.lapsedPositive c now wall = true) : c ∈ sh.positive.map := by
  unfold lapsedPositive at h
  rw [Option.any_eq_true] at h
  obtain ⟨e, he, -⟩ := h
  exact FifoMap.mem_iff_lookup.mpr ⟨e, he⟩

theorem Shard.mem_of_lapsedNegative {now : Int} (h : sh.lapsedNegative c now = true) :
    c ∈ sh.negative.map := by
  unfold lapsedNegative at h
  rw [Bool.and_eq_true, Option.any_eq_true] at h
  obtain ⟨-, e, he, -⟩ := h
  exact FifoMap.mem_iff_lookup.mpr ⟨e, he⟩

theorem Op.takesNone_iff (cfg : Config) (op : Op) : op.TakesNone sh ↔
    (op.onPositive cfg sh = .drop → op.code ∉ sh.positive.map) ∧
      (op.onNegative cfg sh = .drop → op.code ∉ sh.negative.map) := by
  cases op with
  | putPositive code v now draw => simp [Op.TakesNone, Op.onPositive, Op.onNegative, Op.code]
  | putNegative code now => simp [Op.TakesNone, Op.onPositive, Op.onNegative, Op.code]
  | erase code => simp [Op.TakesNone, Op.onPositive, Op.onNegative, Op.code]
  | get code now wall =>
    simp only [Op.TakesNone, Op.onPositive, Op.onNegative, Op.code]
    constructor
    · rintro ⟨hp, hn⟩
      simp [hp, hn]
    · rintro ⟨hp, hn⟩
      constructor
      · rw [← Bool.not_eq_true]
        intro h
        exact hp (by simp [h]) (Shard.mem_of_lapsedPositive h)
      · rw [← Bool.not_eq_true]
        intro h
        exact hn (by simp [h]) (Shard.mem_of_lapsedNegative h)

theorem lined_empty {K V : Type} [DecidableEq K] {budget n : Nat} :
    Lined budget n ({} : FifoMap K V) [] where
  exact := FifoMap.exact_empty
  fifo_eq := rfl
  length_le := by simp

theorem Lined.act {K V : Type} [DecidableEq K] {w : V → Nat} {budget n : Nat} {m : FifoMap K V}
    {order : List K} {k : K} {a : FifoMap.Action V} (h : Lined budget n m order)
    (hb : Bounded w budget n (m.act w budget k a)) (ha : a = .drop → k ∉ m.map) :
    Lined budget n (m.act w budget k a) (arrivals order k a (m.act w budget k a)) ∧
      arrivals order k a (m.act w budget k a) <:+ candidates order k a := by
  obtain ⟨hexact, hfifo, hsuffix⟩ := h.exact.act w budget ha
  rw [h.fifo_eq] at hfifo hsuffix
  refine ⟨⟨hexact, hfifo, ?_⟩, hfifo ▸ hsuffix⟩
  rw [hexact.length_fifo]
  exact hb.length_mul_le

/-- What the induction carries: the queues are in order and the counters right. -/
structure Orderly (cfg : Config) (s : Watched cfg) : Prop extends InOrder cfg s where
  within : ∀ i, Within cfg (s.shards i)

theorem orderly_watched : Orderly cfg (watched cfg) where
  positive _ := lined_empty
  negative _ := lined_empty
  within _ := within_empty

theorem Orderly.watch {s s' : Watched cfg} {op : Op} (h : Orderly cfg s)
    (hop : op.TakesNone (s.shards (shardIndex cfg op.code))) (hs : watch cfg s op = some s') :
    Orderly cfg s' ∧ EvictsOldest cfg s op s' := by
  cases hs
  obtain ⟨hp, hn⟩ := (Op.takesNone_iff cfg op).mp hop
  have hw := (h.within (shardIndex cfg op.code)).apply op
  have hpos := (h.positive (shardIndex cfg op.code)).act (Op.apply_positive op ▸ hw.positive) hp
  have hneg := (h.negative (shardIndex cfg op.code)).act (Op.apply_negative op ▸ hw.negative) hn
  rw [← Op.apply_positive] at hpos
  rw [← Op.apply_negative] at hneg
  refine ⟨⟨⟨?_, ?_⟩, ?_⟩, ⟨?_, ?_⟩⟩
  · intro i
    by_cases hi : i = shardIndex cfg op.code
    · subst hi
      simpa only [Function.update_self] using hpos.1
    · simpa only [Function.update_of_ne hi] using h.positive i
  · intro i
    by_cases hi : i = shardIndex cfg op.code
    · subst hi
      simpa only [Function.update_self] using hneg.1
    · simpa only [Function.update_of_ne hi] using h.negative i
  · intro i
    by_cases hi : i = shardIndex cfg op.code
    · subst hi
      simpa only [Function.update_self] using hw
    · simpa only [Function.update_of_ne hi] using h.within i
  · intro e he
    simpa only [Function.update_self, he] using hpos.2
  · intro e he
    simpa only [Function.update_self, he] using hneg.2

/-- An entry taken out leaves its code in the queue. -/
theorem InOrder.takesNone {s s' : Watched cfg} {op : Op} (h : InOrder cfg s)
    (hs : LocalCache.watch cfg s op = some s') (h' : InOrder cfg s') :
    op.TakesNone (s.shards (shardIndex cfg op.code)) := by
  cases hs
  refine (Op.takesNone_iff cfg op).mpr ⟨?_, ?_⟩
  · intro hdrop hmem
    have hexact := (h'.positive (shardIndex cfg op.code)).exact
    simp only [Function.update_self, Op.apply_positive, hdrop] at hexact
    exact FifoMap.not_exact_drop (h.positive _).exact hmem hexact
  · intro hdrop hmem
    have hexact := (h'.negative (shardIndex cfg op.code)).exact
    simp only [Function.update_self, Op.apply_negative, hdrop] at hexact
    exact FifoMap.not_exact_drop (h.negative _).exact hmem hexact

/-- **When the queues are in order.** After every step of a run each queue is exactly the live
codes in the order they came in, short, and evicted from the front, if and only if no operation of
the run takes an entry out. -/
theorem fifo_in_order_iff (cfg : Config) (ops : List Op) :
    Machine.Along (watch cfg)
      (fun s op => ∀ s', watch cfg s op = some s' → InOrder cfg s' ∧ EvictsOldest cfg s op s')
      (watched cfg) ops ↔
    Machine.Along (watch cfg) (fun s op => op.TakesNone (s.shards (shardIndex cfg op.code)))
      (watched cfg) ops := by
  refine (Machine.along_congr (watch cfg) (I := Orderly cfg) ?_ ?_ orderly_watched).symm
  · intro s op h
    constructor
    · intro hop s' hs
      obtain ⟨ho, he⟩ := h.watch hop hs
      exact ⟨ho.toInOrder, he⟩
    · intro hstep
      exact h.toInOrder.takesNone rfl (hstep _ rfl).1
  · intro s op s' h hop hs
    exact (h.watch hop hs).1

/-- A code that lapses and is stored again stands in the queue twice. -/
def relapsed : List Op :=
  [.putPositive [97] ⟨[47], []⟩ 0 0, .get [97] 60000000000 [],
    .putPositive [97] ⟨[47], []⟩ 60000000000 0]

theorem fifo_in_order_fails_relapsed :
    ¬ Machine.Along (watch (configure 1 4096 4096 60 0 30))
      (fun s op => ∀ s', watch _ s op = some s' → InOrder _ s' ∧ EvictsOldest _ s op s')
      (watched _) relapsed := by
  rintro ⟨-, hrest⟩
  obtain ⟨-, hrest⟩ := hrest _ rfl
  obtain ⟨hlast, -⟩ := hrest _ rfl
  have hnodup := ((hlast _ rfl).1.positive ⟨0, by decide⟩).exact.nodup
  revert hnodup
  decide +kernel

end LocalCache
end UrlShortener
