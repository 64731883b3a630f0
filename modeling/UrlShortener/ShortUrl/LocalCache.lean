import UrlShortener.Base.Bytes
import UrlShortener.Base.FifoMap
import UrlShortener.Base.Machine

/-!
# UrlShortener.ShortUrl.LocalCache

`LocalUrlCache`, the sharded in-process cache. A shard has two maps under separate byte budgets:
known codes with their long URL and business expiry, and codes known to be missing. The two maps
work alike, so both are a `FifoMap`; what differs is what an entry holds and how large it is taken
to be.

Clocks and the random draw are inputs. `now` is the steady clock in nanoseconds, `wall` what
`now_datetime()` returns. Each operation holds its shard's mutex from beginning to end, so the
operations on the cache are one sequence.
-/

namespace UrlShortener
namespace LocalCache

structure EntryView where
  longUrl : Bytes
  expireAt : Bytes
deriving DecidableEq

structure PositiveEntry extends EntryView where
  cacheExpire : Int
  bytes : Nat
deriving DecidableEq

structure NegativeEntry where
  cacheExpire : Int
  bytes : Nat
deriving DecidableEq

structure Shard where
  positive : FifoMap Bytes PositiveEntry := {}
  negative : FifoMap Bytes NegativeEntry := {}

/-- The fields `configure` sets. -/
structure Config where
  shardCount : Nat
  positiveByteBudget : Nat
  negativeByteBudget : Nat
  positiveTtlSeconds : Int
  positiveTtlJitterSeconds : Int
  negativeTtlSeconds : Int
  shardCount_pos : 0 < shardCount

def configure (shardCount positiveByteBudget negativeByteBudget : Nat)
    (positiveTtlSeconds positiveTtlJitterSeconds negativeTtlSeconds : Int) : Config where
  shardCount := max 1 shardCount
  positiveByteBudget := max 1024 (positiveByteBudget / max 1 shardCount)
  negativeByteBudget := max 1024 (negativeByteBudget / max 1 shardCount)
  positiveTtlSeconds := max 1 positiveTtlSeconds
  positiveTtlJitterSeconds := max 0 positiveTtlJitterSeconds
  negativeTtlSeconds := max 1 negativeTtlSeconds
  shardCount_pos := Nat.lt_of_lt_of_le Nat.zero_lt_one (Nat.le_max_left _ _)

abbrev Shards (cfg : Config) := Fin cfg.shardCount → Shard

/-- FNV-1a, 64 bits. -/
def fnv1a (code : Bytes) : UInt64 :=
  code.foldl (fun h c => (h ^^^ c.toUInt64) * 1099511628211) 1469598103934665603

def shardIndex (cfg : Config) (code : Bytes) : Fin cfg.shardCount :=
  ⟨(fnv1a code).toNat % cfg.shardCount, Nat.mod_lt _ cfg.shardCount_pos⟩

def isBusinessExpired (expireAt wall : Bytes) : Bool :=
  if expireAt = [] then false else decide (expireAt ≤ wall)

def estimatePositiveBytes (code : Bytes) (v : EntryView) : Nat :=
  code.length + v.longUrl.length + v.expireAt.length + 64

def estimateNegativeBytes (code : Bytes) : Nat := code.length + 32

/-- `std::chrono::seconds` on the steady clock. -/
def seconds (n : Int) : Int := n * 1000000000

/-- `draw` stands for the random generator; the distribution keeps it within the jitter. -/
def ttlWithJitter (cfg : Config) (draw : Nat) : Int :=
  if cfg.positiveTtlJitterSeconds ≤ 0 then cfg.positiveTtlSeconds
  else cfg.positiveTtlSeconds + min (draw : Int) cfg.positiveTtlJitterSeconds

inductive Status where
  | hit (v : EntryView)
  | expired (v : EntryView)
  | miss
  | negHit
deriving DecidableEq

namespace Shard

def dropPositive (sh : Shard) (code : Bytes) : Shard :=
  { sh with positive := sh.positive.drop PositiveEntry.bytes code }

def dropNegative (sh : Shard) (code : Bytes) : Shard :=
  { sh with negative := sh.negative.drop NegativeEntry.bytes code }

def evictPositiveLocked (cfg : Config) (sh : Shard) : Shard :=
  { sh with positive := sh.positive.evict PositiveEntry.bytes cfg.positiveByteBudget }

def evictNegativeLocked (cfg : Config) (sh : Shard) : Shard :=
  { sh with negative := sh.negative.evict NegativeEntry.bytes cfg.negativeByteBudget }

/-- The second half of `get`: no live positive entry. -/
def getNegative (sh : Shard) (code : Bytes) (now : Int) : Shard × Status :=
  match sh.negative.map.lookup code with
  | some e => if e.cacheExpire ≤ now then (sh.dropNegative code, .miss) else (sh, .negHit)
  | none => (sh, .miss)

def get (sh : Shard) (code : Bytes) (now : Int) (wall : Bytes) : Shard × Status :=
  match sh.positive.map.lookup code with
  | some e =>
    if e.cacheExpire ≤ now then (sh.dropPositive code).getNegative code now
    else if isBusinessExpired e.expireAt wall then (sh.dropPositive code, .expired e.toEntryView)
    else (sh, .hit e.toEntryView)
  | none => sh.getNegative code now

def putPositive (cfg : Config) (sh : Shard) (code : Bytes) (v : EntryView) (now : Int)
    (draw : Nat) : Shard :=
  let sh := sh.dropNegative code
  let entry : PositiveEntry :=
    { toEntryView := v
      cacheExpire := now + seconds (ttlWithJitter cfg draw)
      bytes := estimatePositiveBytes code v }
  { sh with positive := sh.positive.put PositiveEntry.bytes code entry }.evictPositiveLocked cfg

def putNegative (cfg : Config) (sh : Shard) (code : Bytes) (now : Int) : Shard :=
  let sh := sh.dropPositive code
  let entry : NegativeEntry :=
    { cacheExpire := now + seconds cfg.negativeTtlSeconds
      bytes := estimateNegativeBytes code }
  { sh with negative := sh.negative.put NegativeEntry.bytes code entry }.evictNegativeLocked cfg

def erase (sh : Shard) (code : Bytes) : Shard := (sh.dropPositive code).dropNegative code

end Shard

inductive Op where
  | putPositive (code : Bytes) (v : EntryView) (now : Int) (draw : Nat)
  | putNegative (code : Bytes) (now : Int)
  | erase (code : Bytes)
  | get (code : Bytes) (now : Int) (wall : Bytes)

namespace Op

def code : Op → Bytes
  | .putPositive code _ _ _ => code
  | .putNegative code _ => code
  | .erase code => code
  | .get code _ _ => code

/-- What the operation does to the shard of its code. -/
def apply (cfg : Config) (sh : Shard) : Op → Shard
  | .putPositive code v now draw => sh.putPositive cfg code v now draw
  | .putNegative code now => sh.putNegative cfg code now
  | .erase code => sh.erase code
  | .get code now wall => (sh.get code now wall).1

end Op

section Runs

variable (cfg : Config)

def step (s : Shards cfg) (op : Op) : Option (Shards cfg) :=
  some (Function.update s (shardIndex cfg op.code) (op.apply cfg (s (shardIndex cfg op.code))))

/-- After `configure`. -/
def empty : Shards cfg := fun _ => {}

/-- What `get` answers. -/
def get (s : Shards cfg) (code : Bytes) (now : Int) (wall : Bytes) : Status :=
  ((s (shardIndex cfg code)).get code now wall).2

def positiveBytes (s : Shards cfg) : Nat :=
  ((List.finRange cfg.shardCount).map fun i => (s i).positive.bytes).sum

def negativeBytes (s : Shards cfg) : Nat :=
  ((List.finRange cfg.shardCount).map fun i => (s i).negative.bytes).sum

/-- What is kept by every operation on its shard holds in every shard after every run. -/
theorem run_shards {I : Fin cfg.shardCount → Shard → Prop}
    (hstep : ∀ (op : Op) (sh : Shard), I (shardIndex cfg op.code) sh →
      I (shardIndex cfg op.code) (op.apply cfg sh))
    {s s' : Shards cfg} {ops : List Op} (h0 : ∀ i, I i (s i))
    (hr : Machine.run (step cfg) s ops = some s') : ∀ i, I i (s' i) := by
  refine Machine.run_preserves (step cfg) (I := fun s => ∀ i, I i (s i)) ?_ h0 hr
  intro s op s' h hs i
  cases hs
  by_cases hi : i = shardIndex cfg op.code
  · subst hi
    rw [Function.update_self]
    exact hstep op _ (h _)
  · rw [Function.update_of_ne hi]
    exact h i

end Runs

end LocalCache
end UrlShortener
