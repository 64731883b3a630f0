import UrlShortener.ShortUrl.LocalCache

/-!
# UrlShortener.ShortUrl.LocalCacheSpec

What the local cache may answer. The specification is a map from codes to the latest write that
may forget: `get` answers from the latest `put_positive` or `put_negative` of the code, within its
time to live, or says `Miss`.

An entry leaves a shard in many ways, but comes in by one only. So the simulation is
`Tracks`: every entry is the latest write to its code. That no code is in both maps follows,
since a code has one latest write.
-/

namespace UrlShortener
namespace LocalCache

/-! ## The specification -/

def Op.isWrite : Op → Bool
  | .get _ _ _ => false
  | _ => true

/-- The latest write to a code. -/
def latest (ops : List Op) (code : Bytes) : Option Op :=
  (ops.filter fun op => op.isWrite && decide (op.code = code)).getLast?

/-- What may be answered `now` when `last` is the latest write to the code. -/
def MayAnswer (cfg : Config) (last : Option Op) (code : Bytes) (now : Int) (wall : Bytes) :
    Status → Prop
  | .hit v => ∃ t draw, last = some (.putPositive code v t draw) ∧
      now < t + seconds (ttlWithJitter cfg draw) ∧ isBusinessExpired v.expireAt wall = false
  | .expired v => ∃ t draw, last = some (.putPositive code v t draw) ∧
      now < t + seconds (ttlWithJitter cfg draw) ∧ isBusinessExpired v.expireAt wall = true
  | .negHit => ∃ t, last = some (.putNegative code t) ∧ now < t + seconds cfg.negativeTtlSeconds
  | .miss => True

theorem latest_concat (ops : List Op) (op : Op) (code : Bytes) :
    latest (ops ++ [op]) code =
      if op.isWrite = true ∧ op.code = code then some op else latest ops code := by
  unfold latest
  by_cases h : op.isWrite = true ∧ op.code = code
  · rw [if_pos h, List.filter_append, List.filter_cons_of_pos (by simp [h])]
    simp
  · rw [if_neg h, List.filter_append, List.filter_cons_of_neg (by simpa using h)]
    simp

/-! ## What an operation does to the two maps -/

section Actions

open FifoMap (Action)

/-- The entry a `put_positive` makes. -/
def positiveEntry (cfg : Config) (code : Bytes) (v : EntryView) (now : Int) (draw : Nat) :
    PositiveEntry :=
  { toEntryView := v
    cacheExpire := now + seconds (ttlWithJitter cfg draw)
    bytes := estimatePositiveBytes code v }

def negativeEntry (cfg : Config) (code : Bytes) (now : Int) : NegativeEntry :=
  { cacheExpire := now + seconds cfg.negativeTtlSeconds
    bytes := estimateNegativeBytes code }

/-- `get` takes a positive entry out that is past its time to live or its business expiry. -/
def Shard.lapsedPositive (sh : Shard) (code : Bytes) (now : Int) (wall : Bytes) : Bool :=
  (sh.positive.map.lookup code).any fun e =>
    decide (e.cacheExpire ≤ now) || isBusinessExpired e.expireAt wall

/-- `get` takes a negative entry out that is past its time to live, if it gets that far. -/
def Shard.lapsedNegative (sh : Shard) (code : Bytes) (now : Int) : Bool :=
  (sh.positive.map.lookup code).all (fun e => decide (e.cacheExpire ≤ now)) &&
    (sh.negative.map.lookup code).any fun e => decide (e.cacheExpire ≤ now)

def Op.onPositive (cfg : Config) (sh : Shard) : Op → Action PositiveEntry
  | .putPositive code v now draw => .store (positiveEntry cfg code v now draw)
  | .putNegative _ _ => .drop
  | .erase _ => .drop
  | .get code now wall => if sh.lapsedPositive code now wall then .drop else .keep

def Op.onNegative (cfg : Config) (sh : Shard) : Op → Action NegativeEntry
  | .putPositive _ _ _ _ => .drop
  | .putNegative code now => .store (negativeEntry cfg code now)
  | .erase _ => .drop
  | .get code now _ => if sh.lapsedNegative code now then .drop else .keep

end Actions

variable {cfg : Config} {sh : Shard} {code c : Bytes} {v : EntryView} {now : Int} {wall : Bytes}

theorem Shard.getNegative_positive : (sh.getNegative code now).1.positive = sh.positive := by
  unfold getNegative
  split
  · split <;> rfl
  · rfl

theorem Shard.getNegative_negative : (sh.getNegative code now).1.negative =
    if (sh.negative.map.lookup code).any (fun e => decide (e.cacheExpire ≤ now)) then
      sh.negative.drop NegativeEntry.bytes code else sh.negative := by
  unfold getNegative
  cases sh.negative.map.lookup code with
  | none => rfl
  | some e => by_cases hlapsed : e.cacheExpire ≤ now <;> simp [hlapsed, dropNegative]

theorem Op.apply_positive (op : Op) : (op.apply cfg sh).positive =
    sh.positive.act PositiveEntry.bytes cfg.positiveByteBudget op.code (op.onPositive cfg sh) := by
  cases op with
  | putPositive code v now draw => rfl
  | putNegative code now => rfl
  | erase code => rfl
  | get code now wall =>
    rcases Option.eq_none_or_eq_some (sh.positive.map.lookup code) with hl | ⟨e, hl⟩ <;>
      simp only [Op.apply, Op.onPositive, Op.code, Shard.get, Shard.lapsedPositive, hl]
    · exact Shard.getNegative_positive
    · by_cases hlapsed : e.cacheExpire ≤ now
      · simp only [hlapsed, if_true, Shard.getNegative_positive]
        simp [hlapsed, FifoMap.act, Shard.dropPositive]
      · by_cases hexp : isBusinessExpired e.expireAt wall = true <;>
          simp [hlapsed, hexp, FifoMap.act, Shard.dropPositive]

theorem Op.apply_negative (op : Op) : (op.apply cfg sh).negative =
    sh.negative.act NegativeEntry.bytes cfg.negativeByteBudget op.code (op.onNegative cfg sh) := by
  cases op with
  | putPositive code v now draw => rfl
  | putNegative code now => rfl
  | erase code => rfl
  | get code now wall =>
    rcases Option.eq_none_or_eq_some (sh.positive.map.lookup code) with hl | ⟨e, hl⟩ <;>
      simp only [Op.apply, Op.onNegative, Op.code, Shard.get, Shard.lapsedNegative, hl]
    · simp only [Shard.getNegative_negative, Option.all_none, Bool.true_and]
      split <;> rfl
    · by_cases hlapsed : e.cacheExpire ≤ now
      · simp only [hlapsed, if_true, Shard.getNegative_negative, Option.all_some, decide_true,
          Bool.true_and, Shard.dropPositive]
        split <;> rfl
      · by_cases hexp : isBusinessExpired e.expireAt wall = true <;>
          simp [hlapsed, hexp, FifoMap.act, Shard.dropPositive]

/-- An entry after a step was there before and is not written, or is the one that is stored. -/
theorem Op.lookup_positive {op : Op} {e : PositiveEntry}
    (h : (op.apply cfg sh).positive.map.lookup c = some e) :
    (sh.positive.map.lookup c = some e ∧ ¬ (op.isWrite = true ∧ op.code = c)) ∨
      ∃ t draw, op = .putPositive c e.toEntryView t draw ∧
        e.cacheExpire = t + seconds (ttlWithJitter cfg draw) := by
  rw [Op.apply_positive] at h
  rcases FifoMap.lookup_act h with ⟨h, hkeep⟩ | ⟨rfl, hstore⟩
  · refine Or.inl ⟨h, ?_⟩
    rintro ⟨hw, hc⟩
    have hkeep := hkeep hc.symm
    cases op with
    | get code now wall => cases hw
    | _ => cases hkeep
  · cases op with
    | putPositive code v now draw =>
      cases hstore
      exact Or.inr ⟨now, draw, rfl, rfl⟩
    | putNegative code now => cases hstore
    | erase code => cases hstore
    | get code now wall =>
      simp only [Op.onPositive] at hstore
      split at hstore <;> cases hstore

theorem Op.lookup_negative {op : Op} {e : NegativeEntry}
    (h : (op.apply cfg sh).negative.map.lookup c = some e) :
    (sh.negative.map.lookup c = some e ∧ ¬ (op.isWrite = true ∧ op.code = c)) ∨
      ∃ t, op = .putNegative c t ∧ e.cacheExpire = t + seconds cfg.negativeTtlSeconds := by
  rw [Op.apply_negative] at h
  rcases FifoMap.lookup_act h with ⟨h, hkeep⟩ | ⟨rfl, hstore⟩
  · refine Or.inl ⟨h, ?_⟩
    rintro ⟨hw, hc⟩
    have hkeep := hkeep hc.symm
    cases op with
    | get code now wall => cases hw
    | _ => cases hkeep
  · cases op with
    | putPositive code v now draw => cases hstore
    | putNegative code now =>
      cases hstore
      exact Or.inr ⟨now, rfl, rfl⟩
    | erase code => cases hstore
    | get code now wall =>
      simp only [Op.onNegative] at hstore
      split at hstore <;> cases hstore

/-! ## The simulation -/

/-- Every entry is in the shard of its code and is the latest write to it. -/
structure Tracks (cfg : Config) (ops : List Op) (s : Shards cfg) : Prop where
  positive : ∀ i c e, (s i).positive.map.lookup c = some e →
    shardIndex cfg c = i ∧ ∃ t draw, latest ops c = some (.putPositive c e.toEntryView t draw) ∧
      e.cacheExpire = t + seconds (ttlWithJitter cfg draw)
  negative : ∀ i c e, (s i).negative.map.lookup c = some e →
    shardIndex cfg c = i ∧ ∃ t, latest ops c = some (.putNegative c t) ∧
      e.cacheExpire = t + seconds cfg.negativeTtlSeconds

theorem tracks_empty : Tracks cfg [] (empty cfg) where
  positive i c e h := by cases h
  negative i c e h := by cases h

/-- A write to a code of another shard. -/
theorem latest_concat_of_ne {ops : List Op} {op : Op} {i : Fin cfg.shardCount}
    (hi : i ≠ shardIndex cfg op.code) (hc : shardIndex cfg c = i) :
    latest (ops ++ [op]) c = latest ops c := by
  have hne : op.code ≠ c := fun he => hi (by rw [he, hc])
  rw [latest_concat, if_neg fun hw => hne hw.2]

theorem Tracks.step {ops : List Op} {s s' : Shards cfg} {op : Op} (h : Tracks cfg ops s)
    (hs : step cfg s op = some s') : Tracks cfg (ops ++ [op]) s' := by
  cases hs
  constructor
  · intro i c e hl
    by_cases hi : i = shardIndex cfg op.code
    · subst hi
      rw [Function.update_self] at hl
      rcases Op.lookup_positive hl with ⟨hl, hw⟩ | ⟨t, draw, rfl, he⟩
      · rw [latest_concat, if_neg hw]
        exact h.positive _ c e hl
      · exact ⟨rfl, t, draw, by rw [latest_concat, if_pos ⟨rfl, rfl⟩], he⟩
    · rw [Function.update_of_ne hi] at hl
      obtain ⟨hc, hlast⟩ := h.positive i c e hl
      rw [latest_concat_of_ne hi hc]
      exact ⟨hc, hlast⟩
  · intro i c e hl
    by_cases hi : i = shardIndex cfg op.code
    · subst hi
      rw [Function.update_self] at hl
      rcases Op.lookup_negative hl with ⟨hl, hw⟩ | ⟨t, rfl, he⟩
      · rw [latest_concat, if_neg hw]
        exact h.negative _ c e hl
      · exact ⟨rfl, t, by rw [latest_concat, if_pos ⟨rfl, rfl⟩], he⟩
    · rw [Function.update_of_ne hi] at hl
      obtain ⟨hc, hlast⟩ := h.negative i c e hl
      rw [latest_concat_of_ne hi hc]
      exact ⟨hc, hlast⟩

theorem tracks_run {ops : List Op} {s : Shards cfg}
    (hr : Machine.run (step cfg) (empty cfg) ops = some s) : Tracks cfg ops s :=
  Machine.run_history (LocalCache.step cfg) (fun _ _ _ _ h hs => h.step hs) tracks_empty hr

theorem Tracks.disjoint {ops : List Op} {s : Shards cfg} (h : Tracks cfg ops s)
    (i : Fin cfg.shardCount) (hp : c ∈ (s i).positive.map) : c ∉ (s i).negative.map := by
  intro hn
  obtain ⟨e, he⟩ := FifoMap.mem_iff_lookup.mp hp
  obtain ⟨e', he'⟩ := FifoMap.mem_iff_lookup.mp hn
  obtain ⟨-, t, draw, h1, -⟩ := h.positive i c e he
  obtain ⟨-, t', h2, -⟩ := h.negative i c e' he'
  rw [h1] at h2
  cases h2

theorem Tracks.getNegative {ops : List Op} {s : Shards cfg} (h : Tracks cfg ops s)
    (i : Fin cfg.shardCount) (hn : sh.negative = (s i).negative) :
    MayAnswer cfg (latest ops c) c now wall (sh.getNegative c now).2 := by
  unfold Shard.getNegative
  split
  · rename_i e hl
    rw [hn] at hl
    obtain ⟨-, t, hlast, he⟩ := h.negative i c e hl
    split
    · trivial
    · rename_i hlive
      exact ⟨t, hlast, by omega⟩
  · trivial

theorem Tracks.get {ops : List Op} {s : Shards cfg} (h : Tracks cfg ops s) :
    MayAnswer cfg (latest ops c) c now wall (get cfg s c now wall) := by
  unfold LocalCache.get Shard.get
  split
  · rename_i e hl
    obtain ⟨-, t, draw, hlast, he⟩ := h.positive _ c e hl
    split
    · exact h.getNegative (shardIndex cfg c) rfl
    · rename_i hlive
      have hnow : now < t + seconds (ttlWithJitter cfg draw) := by omega
      split
      · rename_i hexp
        exact ⟨t, draw, hlast, hnow, hexp⟩
      · rename_i hexp
        exact ⟨t, draw, hlast, hnow, by simpa using hexp⟩
  · exact h.getNegative (shardIndex cfg c) rfl

/-- **The cache is a latest-write map that may forget**: after every sequence of operations, with
any clocks and draws, each answer comes from the latest write to its code, and no code is both
known and known to be missing. -/
theorem get_latest (cfg : Config) (ops : List Op) (s : Shards cfg)
    (hr : Machine.run (step cfg) (empty cfg) ops = some s) :
    (∀ code now wall, MayAnswer cfg (latest ops code) code now wall (get cfg s code now wall)) ∧
      ∀ i code, ¬ (code ∈ (s i).positive.map ∧ code ∈ (s i).negative.map) := by
  have h := tracks_run hr
  exact ⟨fun code now wall => h.get, fun i code hc => h.disjoint i hc.1 hc.2⟩

/-! ## Facts about what is cached -/

/-- Every cached value of a code satisfies `P`, every code cached as missing satisfies `N`. -/
structure Known (P : Bytes → EntryView → Prop) (N : Bytes → Prop) (s : Shards cfg) : Prop where
  positive : ∀ i c e, (s i).positive.map.lookup c = some e → shardIndex cfg c = i ∧ P c e.toEntryView
  negative : ∀ i c e, (s i).negative.map.lookup c = some e → shardIndex cfg c = i ∧ N c

/-- What an answer says of the code. -/
def Status.Says (P : EntryView → Prop) (N : Prop) (wall : Bytes) : Status → Prop
  | .hit v => P v ∧ isBusinessExpired v.expireAt wall = false
  | .expired v => P v ∧ isBusinessExpired v.expireAt wall = true
  | .negHit => N
  | .miss => True

theorem known_empty (P : Bytes → EntryView → Prop) (N : Bytes → Prop) :
    Known P N (empty cfg) where
  positive i c e h := by cases h
  negative i c e h := by cases h

section Known

variable {P P' : Bytes → EntryView → Prop} {N N' : Bytes → Prop} {s s' : Shards cfg}

theorem Known.imp (h : Known P N s) (hP : ∀ c v, P c v → P' c v) (hN : ∀ c, N c → N' c) :
    Known P' N' s where
  positive i c e hl := ⟨(h.positive i c e hl).1, hP c _ (h.positive i c e hl).2⟩
  negative i c e hl := ⟨(h.negative i c e hl).1, hN c (h.negative i c e hl).2⟩

/-- The facts may change with the operation: what it does not write must stay true, and what it
writes must be true after it. -/
theorem Known.step (h : Known P N s) (op : Op) (hs : LocalCache.step cfg s op = some s')
    (hP : ∀ c v, ¬ (op.isWrite = true ∧ op.code = c) → P c v → P' c v)
    (hput : ∀ c v t draw, op = .putPositive c v t draw → P' c v)
    (hN : ∀ c, ¬ (op.isWrite = true ∧ op.code = c) → N c → N' c)
    (hneg : ∀ c t, op = .putNegative c t → N' c) : Known P' N' s' := by
  cases hs
  constructor
  · intro i c e hl
    by_cases hi : i = shardIndex cfg op.code
    · subst hi
      rw [Function.update_self] at hl
      rcases Op.lookup_positive hl with ⟨hl, hw⟩ | ⟨t, draw, rfl, -⟩
      · obtain ⟨hc, hp⟩ := h.positive _ c e hl
        exact ⟨hc, hP c _ hw hp⟩
      · exact ⟨rfl, hput c _ t draw rfl⟩
    · rw [Function.update_of_ne hi] at hl
      obtain ⟨hc, hp⟩ := h.positive i c e hl
      exact ⟨hc, hP c _ (fun hw => hi (by rw [hw.2, hc])) hp⟩
  · intro i c e hl
    by_cases hi : i = shardIndex cfg op.code
    · subst hi
      rw [Function.update_self] at hl
      rcases Op.lookup_negative hl with ⟨hl, hw⟩ | ⟨t, rfl, -⟩
      · obtain ⟨hc, hn⟩ := h.negative _ c e hl
        exact ⟨hc, hN c hw hn⟩
      · exact ⟨rfl, hneg c t rfl⟩
    · rw [Function.update_of_ne hi] at hl
      obtain ⟨hc, hn⟩ := h.negative i c e hl
      exact ⟨hc, hN c (fun hw => hi (by rw [hw.2, hc])) hn⟩

theorem Known.get (h : Known P N s) (c : Bytes) (now : Int) (wall : Bytes) :
    (LocalCache.get cfg s c now wall).Says (P c) (N c) wall := by
  have hneg : ∀ sh : Shard, sh.negative = (s (shardIndex cfg c)).negative →
      (sh.getNegative c now).2 = .miss ∨ (sh.getNegative c now).2 = .negHit ∧ N c := by
    intro sh hsh
    unfold Shard.getNegative
    cases hl : sh.negative.map.lookup c with
    | none => exact Or.inl rfl
    | some e =>
      by_cases hlapsed : e.cacheExpire ≤ now
      · exact Or.inl (by simp [hlapsed])
      · exact Or.inr ⟨by simp [hlapsed], (h.negative _ c e (hsh ▸ hl)).2⟩
  unfold LocalCache.get Shard.get
  cases hl : (s (shardIndex cfg c)).positive.map.lookup c with
  | none =>
    rcases hneg _ rfl with hm | ⟨hm, hn⟩
    · simp only [hm, Status.Says]
    · simpa only [hm, Status.Says] using hn
  | some e =>
    have hp := (h.positive _ c e hl).2
    by_cases hlapsed : e.cacheExpire ≤ now
    · simp only [hlapsed, if_true]
      rcases hneg ((s (shardIndex cfg c)).dropPositive c) rfl with hm | ⟨hm, hn⟩
      · simp only [hm, Status.Says]
      · simpa only [hm, Status.Says] using hn
    · by_cases hexp : isBusinessExpired e.expireAt wall = true
      · simpa [hlapsed, hexp, Status.Says] using hp
      · simpa [hlapsed, hexp, Status.Says] using hp

end Known

/-- A code that was missing and is then stored. -/
def refilled : List Op :=
  [.putNegative [97] 0, .putPositive [97] ⟨[47], []⟩ 1 3, .get [98] 2 []]

theorem get_latest_refilled : ∃ s,
    Machine.run (step (configure 2 4096 4096 60 5 30)) (empty _) refilled = some s ∧
      get _ s [97] 63000000000 [] = .hit ⟨[47], []⟩ ∧
      MayAnswer (configure 2 4096 4096 60 5 30) (latest refilled [97]) [97] 63000000000 []
        (.hit ⟨[47], []⟩) :=
  ⟨_, rfl, by decide +kernel, (get_latest _ refilled _ rfl).1 [97] 63000000000 []⟩

end LocalCache
end UrlShortener
