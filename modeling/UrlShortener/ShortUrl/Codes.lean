import UrlShortener.ShortUrl.LocalCache

/-!
# UrlShortener.ShortUrl.Codes

Short codes: how an id becomes one (`base62.cpp`), and in which table it is kept
(`shard_router.cpp`).
-/

namespace UrlShortener
namespace ShortUrl

def alphabet : Bytes := ascii "0123456789abcdefghijklmnopqrstuvwxyzABCDEFGHIJKLMNOPQRSTUVWXYZ"

/-- The loop of `base62_encode`. Digits are put in front, which saves the reversal at the end;
`value` drops in every round, so its own size is counter enough. -/
def base62Loop : Nat → UInt64 → Bytes → Bytes
  | 0, _, out => out
  | n + 1, value, out =>
    if 0 < value then base62Loop n (value / 62) (alphabet.getD (value % 62).toNat NUL :: out)
    else out

def base62Encode (value : UInt64) : Bytes :=
  if value = 0 then ascii "0" else base62Loop value.toNat value []

theorem base62Loop_ne_nil {n : Nat} {value : UInt64} {out : Bytes} (h : out ≠ []) :
    base62Loop n value out ≠ [] := by
  induction n generalizing value out with
  | zero => exact h
  | succ n ih =>
    unfold base62Loop
    split
    · exact ih (by simp)
    · exact h

theorem base62Encode_ne_nil (id : UInt64) : base62Encode id ≠ [] := by
  unfold base62Encode
  split
  · decide +kernel
  · rename_i hne
    have hpos : 0 < id.toNat := by
      rw [Nat.pos_iff_ne_zero]
      exact fun h => hne (UInt64.toNat_inj.mp (by simpa using h))
    obtain ⟨n, hn⟩ := Nat.exists_eq_succ_of_ne_zero (Nat.ne_of_gt hpos)
    have hid : 0 < id := UInt64.lt_iff_toNat_lt.mpr (by simpa using hpos)
    rw [hn, base62Loop, if_pos hid]
    exact base62Loop_ne_nil (by simp)

theorem alphabet_getD_mem (value : UInt64) :
    alphabet.getD (value % 62).toNat NUL ∈ alphabet := by
  have hlt : (value % 62).toNat < alphabet.length := by
    have hlen : alphabet.length = 62 := by decide
    rw [hlen, UInt64.toNat_mod]
    exact Nat.mod_lt _ (by decide)
  rw [List.getD_eq_getElem?_getD, List.getElem?_eq_getElem hlt]
  exact List.getElem_mem hlt

theorem base62Loop_mem {n : Nat} {value : UInt64} {out : Bytes} (h : ∀ b ∈ out, b ∈ alphabet) :
    ∀ b ∈ base62Loop n value out, b ∈ alphabet := by
  induction n generalizing value out with
  | zero => exact h
  | succ n ih =>
    unfold base62Loop
    split
    · apply ih
      intro b hb
      rcases List.mem_cons.mp hb with rfl | hb
      · exact alphabet_getD_mem value
      · exact h b hb
    · exact h

/-- A code is made of the letters of the alphabet. -/
theorem base62Encode_mem (id : UInt64) : ∀ b ∈ base62Encode id, b ∈ alphabet := by
  unfold base62Encode
  split
  · decide +kernel
  · exact base62Loop_mem (by simp)

theorem base62Encode_noNul (id : UInt64) : NUL ∉ base62Encode id := fun h =>
  absurd (base62Encode_mem id NUL h) (by decide)

theorem base62Loop_length {k : Nat} : ∀ {n : Nat} {value : UInt64} {out : Bytes},
    value.toNat < 62 ^ k → (base62Loop n value out).length ≤ out.length + k := by
  induction k with
  | zero =>
    intro n value out h
    have hzero : ¬ 0 < value := by
      rw [UInt64.lt_iff_toNat_lt]
      exact fun hpos => absurd (Nat.lt_of_lt_of_le hpos (Nat.le_of_lt_succ h)) (by decide)
    cases n with
    | zero => exact Nat.le_refl _
    | succ n =>
      rw [base62Loop, if_neg hzero]
      exact Nat.le_refl _
  | succ k ih =>
    intro n value out h
    cases n with
    | zero => exact Nat.le_add_right _ _
    | succ n =>
      rw [base62Loop]
      split
      · have hdiv : (value / 62).toNat < 62 ^ k := by
          have h62 : (62 : UInt64).toNat = 62 := rfl
          rw [UInt64.toNat_div, h62]
          exact Nat.div_lt_of_lt_mul (by rwa [Nat.pow_succ, Nat.mul_comm] at h)
        refine (ih hdiv).trans (Nat.le_of_eq ?_)
        rw [List.length_cons]
        omega
      · exact Nat.le_add_right _ _

/-- Eleven digits are enough for 64 bits. -/
theorem base62Encode_length (id : UInt64) : (base62Encode id).length ≤ 11 := by
  unfold base62Encode
  split
  · decide +kernel
  · refine (base62Loop_length (k := 11) ?_).trans (by simp)
    exact Nat.lt_trans id.toNat_lt (by decide)

structure ShardRoute where
  databaseIndex : Nat
  tableIndex : Nat
  databaseName : Bytes
  tableName : Bytes
  qualifiedTable : Bytes
deriving DecidableEq

structure ShardRouter where
  enabled : Bool := false
  databasePrefix : Bytes := ascii "shorturl_"
  tablePrefix : Bytes := ascii "short_url_"
  databaseCount : Nat := 4
  tableCount : Nat := 4

namespace ShardRouter

def init (shardingEnabled : Bool) (shardDatabasePrefix shardTablePrefix : Bytes)
    (shardDatabaseCount shardTableCount : Int) : ShardRouter where
  enabled := shardingEnabled
  databasePrefix := shardDatabasePrefix
  tablePrefix := shardTablePrefix
  databaseCount := (max 1 shardDatabaseCount).toNat
  tableCount := (max 1 shardTableCount).toNat

/-- The same FNV-1a as the shards of the local cache use. -/
def hashCode (shortCode : Bytes) : UInt64 := LocalCache.fnv1a shortCode

/-- At least two digits. -/
def formatName (start : Bytes) (index : Nat) : Bytes :=
  start ++ (if index < 10 then ascii "0" ++ toDecimal index else toDecimal index)

def qualified (database table : Bytes) : Bytes :=
  ascii "\x60" ++ database ++ ascii "\x60.\x60" ++ table ++ ascii "\x60"

variable (router : ShardRouter)

def route (databaseIndex tableIndex : Nat) : ShardRoute :=
  let databaseName := formatName router.databasePrefix databaseIndex
  let tableName := formatName router.tablePrefix tableIndex
  { databaseIndex, tableIndex, databaseName, tableName
    qualifiedTable := qualified databaseName tableName }

def routeForCode (shortCode : Bytes) : ShardRoute :=
  let hash := (hashCode shortCode).toNat
  let bucketCount := router.databaseCount * router.tableCount
  let bucket := if bucketCount = 0 then 0 else hash % bucketCount
  router.route (bucket / router.tableCount) (bucket % router.tableCount)

/-- `short_url_table_for_code`. -/
def tableForCode (shortCode : Bytes) : Bytes :=
  if router.enabled then (router.routeForCode shortCode).qualifiedTable else ascii "short_url"

end ShardRouter

end ShortUrl
end UrlShortener
