import UrlShortener.ShortUrl.LocalCacheSpec

/-!
# UrlShortener.ShortUrl.LocalCacheFrame

What operations on other codes leave of a code's entries.

The two kinds of entries are evicted apart. Only `put_positive` can take the positive entry of
another code out, only `put_negative` the negative one. So traffic of missing codes leaves every
known code alone; but it does evict other missing codes, and these are then looked up again.
-/

namespace UrlShortener

namespace FifoMap

variable {K V : Type} [DecidableEq K] {w : V → Nat} {s : FifoMap K V} {k k' : K} {e : V}
  {budget : Nat} {a : Action V}

/-- Only a store can do something to another key. -/
theorem lookup_act_of_ne (hk : k' ≠ k) (ha : ∀ e, a ≠ .store e) :
    (s.act w budget k a).map.lookup k' = s.map.lookup k' := by
  cases a with
  | keep => rfl
  | drop => rw [act, lookup_drop, if_neg hk]
  | store e => exact absurd rfl (ha e)

/-- All it can do is to evict it. -/
theorem lookup_act_or_none (hk : k' ≠ k) : (s.act w budget k a).map.lookup k' = s.map.lookup k' ∨
    (s.act w budget k a).map.lookup k' = none := by
  rcases Option.eq_none_or_eq_some ((s.act w budget k a).map.lookup k') with hl | ⟨e, hl⟩
  · exact Or.inr hl
  · rcases lookup_act hl with ⟨hold, -⟩ | ⟨rfl, -⟩
    · exact Or.inl (hl.trans hold.symm)
    · exact absurd rfl hk

end FifoMap

namespace LocalCache

def Op.isPutPositive : Op → Bool
  | .putPositive _ _ _ _ => true
  | _ => false

def Op.isPutNegative : Op → Bool
  | .putNegative _ _ => true
  | _ => false

variable {cfg : Config} {sh : Shard} {s s' : Shards cfg} {c : Bytes} {op : Op} {ops : List Op}

theorem Op.onPositive_ne_store (h : op.isPutPositive = false) (e : PositiveEntry) :
    op.onPositive cfg sh ≠ .store e := by
  cases op with
  | putPositive code v now draw => cases h
  | putNegative code now => simp [Op.onPositive]
  | erase code => simp [Op.onPositive]
  | get code now wall =>
    rw [Op.onPositive]
    split <;> simp

theorem Op.onNegative_ne_store (h : op.isPutNegative = false) (e : NegativeEntry) :
    op.onNegative cfg sh ≠ .store e := by
  cases op with
  | putPositive code v now draw => simp [Op.onNegative]
  | putNegative code now => cases h
  | erase code => simp [Op.onNegative]
  | get code now wall =>
    rw [Op.onNegative]
    split <;> simp

/-- The entries of `c` in all shards. -/
def positiveOf (s : Shards cfg) (c : Bytes) (i : Fin cfg.shardCount) : Option PositiveEntry :=
  (s i).positive.map.lookup c

def negativeOf (s : Shards cfg) (c : Bytes) (i : Fin cfg.shardCount) : Option NegativeEntry :=
  (s i).negative.map.lookup c

/-! ## One operation -/

section Step

variable (hne : op.code ≠ c) (hs : step cfg s op = some s') (i : Fin cfg.shardCount)

include hne hs

theorem step_positiveOf (h : op.isPutPositive = false) : positiveOf s' c i = positiveOf s c i := by
  cases hs
  unfold positiveOf
  by_cases hi : i = shardIndex cfg op.code
  · subst hi
    rw [Function.update_self, Op.apply_positive]
    exact FifoMap.lookup_act_of_ne hne.symm fun e => Op.onPositive_ne_store h e
  · rw [Function.update_of_ne hi]

theorem step_negativeOf (h : op.isPutNegative = false) : negativeOf s' c i = negativeOf s c i := by
  cases hs
  unfold negativeOf
  by_cases hi : i = shardIndex cfg op.code
  · subst hi
    rw [Function.update_self, Op.apply_negative]
    exact FifoMap.lookup_act_of_ne hne.symm fun e => Op.onNegative_ne_store h e
  · rw [Function.update_of_ne hi]

theorem step_negativeOf_or_none :
    negativeOf s' c i = negativeOf s c i ∨ negativeOf s' c i = none := by
  cases hs
  unfold negativeOf
  by_cases hi : i = shardIndex cfg op.code
  · subst hi
    rw [Function.update_self, Op.apply_negative]
    exact FifoMap.lookup_act_or_none hne.symm
  · rw [Function.update_of_ne hi]
    exact Or.inl rfl

end Step

/-! ## Runs -/

section Run

variable (hne : ∀ op ∈ ops, op.code ≠ c) (hr : Machine.run (step cfg) s ops = some s')

include hne hr

theorem run_positiveOf (h : ∀ op ∈ ops, op.isPutPositive = false) (i : Fin cfg.shardCount) :
    positiveOf s' c i = positiveOf s c i :=
  Machine.run_invariant (step cfg) (I := fun x => positiveOf x c i = positiveOf s c i)
    (fun _ op _ hI (hok : op.code ≠ c ∧ op.isPutPositive = false) hs => (step_positiveOf hok.1 hs i hok.2).trans hI) rfl
    (Machine.along_of_forall (step cfg) fun op hop _ => ⟨hne op hop, h op hop⟩) hr

theorem run_negativeOf (h : ∀ op ∈ ops, op.isPutNegative = false) (i : Fin cfg.shardCount) :
    negativeOf s' c i = negativeOf s c i :=
  Machine.run_invariant (step cfg) (I := fun x => negativeOf x c i = negativeOf s c i)
    (fun _ op _ hI (hok : op.code ≠ c ∧ op.isPutNegative = false) hs => (step_negativeOf hok.1 hs i hok.2).trans hI) rfl
    (Machine.along_of_forall (step cfg) fun op hop _ => ⟨hne op hop, h op hop⟩) hr

theorem run_negativeOf_or_none (i : Fin cfg.shardCount) :
    negativeOf s' c i = negativeOf s c i ∨ negativeOf s' c i = none := by
  refine Machine.run_invariant (step cfg)
    (I := fun x => negativeOf x c i = negativeOf s c i ∨ negativeOf x c i = none)
    (fun x op x' hI (hok : op.code ≠ c) hs => ?_) (Or.inl rfl)
    (Machine.along_of_forall (step cfg) fun op hop _ => hne op hop) hr
  rcases step_negativeOf_or_none hok hs i with hkeep | hgone
  · rw [hkeep]
    exact hI
  · exact Or.inr hgone

end Run

/-! ## The next `get` -/

/-- What the second half of `get` answers depends on the negative entry alone. -/
theorem getNegative_status (sh : Shard) (c : Bytes) (now : Int) : (sh.getNegative c now).2 =
    if (sh.negative.map.lookup c).any fun e => decide (now < e.cacheExpire) then .negHit
    else .miss := by
  unfold Shard.getNegative
  cases sh.negative.map.lookup c with
  | none => rfl
  | some e =>
    by_cases hlapsed : e.cacheExpire ≤ now
    · simp [hlapsed]
    · simp [hlapsed, Int.not_le.mp hlapsed]

/-- With one positive entry and one negative entry kept or gone, `get` answers the same, or `Miss`
where it answered from the negative entry. -/
theorem get_of_entries {now : Int} {wall : Bytes}
    (hpos : positiveOf s' c (shardIndex cfg c) = positiveOf s c (shardIndex cfg c))
    (hneg : negativeOf s' c (shardIndex cfg c) = negativeOf s c (shardIndex cfg c) ∨
      negativeOf s' c (shardIndex cfg c) = none) :
    get cfg s' c now wall =
      if get cfg s c now wall = .negHit ∧ negativeOf s' c (shardIndex cfg c) = none then .miss
      else get cfg s c now wall := by
  unfold positiveOf negativeOf at *
  -- the negative half, for shards with these negative entries
  have half : ∀ sh sh' : Shard, sh.negative = (s (shardIndex cfg c)).negative →
      sh'.negative = (s' (shardIndex cfg c)).negative → (sh'.getNegative c now).2 =
        if (sh.getNegative c now).2 = .negHit ∧
          (s' (shardIndex cfg c)).negative.map.lookup c = none then .miss
        else (sh.getNegative c now).2 := by
    intro sh sh' hsh hsh'
    rw [getNegative_status, getNegative_status, hsh, hsh']
    rcases hneg with hkeep | hgone
    · rw [hkeep]
      cases (s (shardIndex cfg c)).negative.map.lookup c <;> simp
    · rw [hgone]
      cases (s (shardIndex cfg c)).negative.map.lookup c with
      | none => simp
      | some e => by_cases hlive : now < e.cacheExpire <;> simp [hlive]
  unfold LocalCache.get Shard.get
  rw [hpos]
  cases (s (shardIndex cfg c)).positive.map.lookup c with
  | none => exact half _ _ rfl rfl
  | some e =>
    by_cases hlapsed : e.cacheExpire ≤ now
    · simp only [hlapsed, if_true]
      exact half _ _ rfl rfl
    · by_cases hexp : isBusinessExpired e.expireAt wall = true <;> simp [hlapsed, hexp]

/-- **Traffic on other codes.** From any state of the cache: `put_negative`, `get` and `erase` on
other codes leave the positive entry of `c` as it is, and a following `get` of `c` answers what it
would have answered, but for `Miss` in place of a negative hit whose entry was evicted. `put_positive`,
`get` and `erase` on other codes leave the negative entry of `c` as it is. -/
theorem others_leave (cfg : Config) (s s' : Shards cfg) (ops : List Op) (c : Bytes)
    (hne : ∀ op ∈ ops, op.code ≠ c) (hr : Machine.run (step cfg) s ops = some s') :
    ((∀ op ∈ ops, op.isPutPositive = false) → (∀ i, positiveOf s' c i = positiveOf s c i) ∧
      ∀ now wall, get cfg s' c now wall =
        if get cfg s c now wall = .negHit ∧ negativeOf s' c (shardIndex cfg c) = none then .miss
        else get cfg s c now wall) ∧
    ((∀ op ∈ ops, op.isPutNegative = false) → ∀ i, negativeOf s' c i = negativeOf s c i) := by
  constructor
  · intro h
    exact ⟨run_positiveOf hne hr h, fun now wall =>
      get_of_entries (run_positiveOf hne hr h _) (run_negativeOf_or_none hne hr _)⟩
  · intro h
    exact run_negativeOf hne hr h

/-- A known code, then a missing code whose name alone is over the negative budget. -/
def crowded : Config := configure 1 4096 1024 60 0 30

def known : Option (Shards crowded) :=
  Machine.run (step crowded) (empty crowded) [.putPositive [97] ⟨[47], []⟩ 0 0]

def longMissing : Op := .putNegative (List.replicate 1000 98) 1

theorem others_leave_known : ∃ s s', known = some s ∧
    Machine.run (step crowded) s [longMissing] = some s' ∧
      get crowded s' [97] 2 [] = .hit ⟨[47], []⟩ ∧
      ∀ i, positiveOf s' [97] i = positiveOf s [97] i := by
  refine ⟨_, _, rfl, rfl, by decide +kernel, ?_⟩
  exact ((others_leave crowded _ _ [longMissing] [97] (by decide +kernel) rfl).1
    (by decide +kernel)).1

/-- The code that is missing is evicted and forgotten. -/
theorem missing_forgotten : ¬ ∀ (cfg : Config) (s s' : Shards cfg) (ops : List Op) (c : Bytes),
    (∀ op ∈ ops, op.code ≠ c ∧ op.isPutPositive = false) →
      Machine.run (step cfg) s ops = some s' →
      ∀ now wall, get cfg s' c now wall = get cfg s c now wall := by
  intro hall
  obtain ⟨s, hs⟩ : ∃ s, Machine.run (step crowded) (empty crowded) [.putNegative [97] 0] = some s :=
    ⟨_, rfl⟩
  obtain ⟨s', hs'⟩ : ∃ s', Machine.run (step crowded) s [longMissing] = some s' := ⟨_, rfl⟩
  have h := hall crowded s s' [longMissing] [97] (by decide +kernel) hs' 2 []
  cases hs
  cases hs'
  revert h
  decide +kernel

end LocalCache
end UrlShortener
