import UrlShortener.Base.Machine
import UrlShortener.Base.PackedBits
import UrlShortener.ShortUrl.Sharding

/-!
# UrlShortener.ShortUrl.BloomFilter

`BloomFilter`, and what `ShortUrlCache` does with it: `warmup` adds the codes of the database and
then says that the filter is ready, `set` adds the code it is given. An operation of the filter
that would leave its array of bytes is `none`.
-/

namespace UrlShortener
namespace ShortUrl

open PackedBits (setBits allBits members)

structure BloomFilter where
  bits : Bytes := []
  bitCount : UInt64 := 0
  hashCount : UInt64 := 0
  insertedCount : UInt64 := 0
deriving DecidableEq

namespace BloomFilter

/-- `reset`; nothing of the filter is left. -/
def reset (bitCount hashCount : UInt64) : BloomFilter :=
  let bitCount := max bitCount 8
  { bits := List.replicate ((bitCount + 7) / 8).toNat 0
    bitCount
    hashCount := max hashCount 1 }

def hash (value : Bytes) (seed : UInt64) : UInt64 :=
  let h := value.foldl (fun h c => (h ^^^ c.toUInt64) * 1099511628211) (1469598103934665603 ^^^ seed)
  let h := (h ^^^ (h >>> 33)) * 0xff51afd7ed558ccd
  let h := (h ^^^ (h >>> 33)) * 0xc4ceb9fe1a85ec53
  h ^^^ (h >>> 33)

/-- The bits of a value, in the order the loops go through them. -/
def indices (f : BloomFilter) (value : Bytes) : List Nat :=
  let h1 := hash value 0x9e3779b185ebca87
  let h2 := hash value 0xc2b2ae3d27d4eb4f
  (List.range f.hashCount.toNat).map fun i => ((h1 + UInt64.ofNat i * h2) % f.bitCount).toNat

def add (f : BloomFilter) (value : Bytes) : Option BloomFilter :=
  if f.bitCount = 0 ∨ f.hashCount = 0 then some f
  else (setBits f.bits (f.indices value)).map fun bits =>
    { f with bits, insertedCount := f.insertedCount + 1 }

def mightContain (f : BloomFilter) (value : Bytes) : Option Bool :=
  if f.bitCount = 0 ∨ f.hashCount = 0 then some true else allBits f.bits (f.indices value)

variable {f f' : BloomFilter} {value : Bytes}

/-- There is a byte for every bit. -/
structure Covered (f : BloomFilter) : Prop where
  bitCount_pos : 0 < f.bitCount.toNat
  bitCount_le : f.bitCount.toNat ≤ 8 * f.bits.length

/-- Adding seven does not overflow for the arguments `ShortUrlCache` passes. -/
theorem covered_reset {bitCount : UInt64} (hashCount : UInt64)
    (h : bitCount.toNat ≤ 2147483647) : Covered (reset bitCount hashCount) := by
  have hmax : (max bitCount 8).toNat = max bitCount.toNat 8 := by
    have hdef : max bitCount 8 = if bitCount ≤ 8 then 8 else bitCount := rfl
    rw [hdef, max_def, apply_ite UInt64.toNat]
    exact if_congr UInt64.le_iff_toNat_le rfl rfl
  have hsize : ((max bitCount 8 + 7) / 8).toNat = (max bitCount.toNat 8 + 7) / 8 := by
    have h8 : (8 : UInt64).toNat = 8 := rfl
    have h7 : (7 : UInt64).toNat = 7 := rfl
    rw [UInt64.toNat_div, UInt64.toNat_add, hmax, h8, h7]
    congr 1
    exact Nat.mod_eq_of_lt (by omega)
  constructor
  · show 0 < (max bitCount 8).toNat
    omega
  · show (max bitCount 8).toNat ≤ 8 * (List.replicate ((max bitCount 8 + 7) / 8).toNat 0).length
    rw [List.length_replicate, hsize]
    omega

namespace Covered

/-- **Every bit that is used is there.** -/
theorem index_lt (h : Covered f) {value : Bytes} {idx : Nat} (hidx : idx ∈ f.indices value) :
    idx < f.bitCount.toNat ∧ idx / 8 < f.bits.length := by
  obtain ⟨i, -, rfl⟩ := List.mem_map.mp hidx
  have hlt := Nat.mod_lt (hash value 0x9e3779b185ebca87 +
    UInt64.ofNat i * hash value 0xc2b2ae3d27d4eb4f).toNat h.bitCount_pos
  have hle := h.bitCount_le
  simp only [UInt64.toNat_mod]
  exact ⟨hlt, by omega⟩

theorem add_isSome (h : Covered f) (value : Bytes) : (f.add value).isSome = true := by
  unfold add
  split
  · rfl
  · rw [Option.isSome_map]
    exact PackedBits.setBits_isSome fun idx hidx => (h.index_lt hidx).2

theorem mightContain_isSome (h : Covered f) (value : Bytes) :
    (f.mightContain value).isSome = true := by
  unfold mightContain
  split
  · rfl
  · exact PackedBits.allBits_isSome fun idx hidx => (h.index_lt hidx).2

end Covered

/-- What `add` changes: the bits of the value are set, the others are as they were. -/
theorem add_spec (hs : f.add value = some f') :
    f'.bitCount = f.bitCount ∧ f'.hashCount = f.hashCount ∧ f'.bits.length = f.bits.length ∧
    (f.bitCount = 0 ∨ f.hashCount = 0 ∨
      members f'.bits = members f.bits ∪ {idx | idx ∈ f.indices value}) := by
  unfold add at hs
  split at hs
  · rename_i hzero
    cases hs
    exact ⟨rfl, rfl, rfl, hzero.elim Or.inl fun h => Or.inr (Or.inl h)⟩
  · obtain ⟨bits, hbits, rfl⟩ := Option.map_eq_some_iff.mp hs
    exact ⟨rfl, rfl, PackedBits.length_setBits hbits,
      Or.inr (Or.inr (PackedBits.members_setBits hbits))⟩

theorem Covered.add (h : Covered f) (hs : f.add value = some f') : Covered f' := by
  obtain ⟨hbits, -, hlen, -⟩ := add_spec hs
  constructor
  · rw [hbits]
    exact h.bitCount_pos
  · rw [hbits, hlen]
    exact h.bitCount_le

theorem indices_add (hs : f.add value = some f') (v : Bytes) : f'.indices v = f.indices v := by
  obtain ⟨hbits, hhash, -, -⟩ := add_spec hs
  unfold indices
  rw [hbits, hhash]

/-- The filter answers true for this value. -/
def Holds (f : BloomFilter) (value : Bytes) : Prop := f.mightContain value = some true

theorem holds_iff : Holds f value ↔
    f.bitCount = 0 ∨ f.hashCount = 0 ∨ ∀ idx ∈ f.indices value, idx ∈ members f.bits := by
  unfold Holds mightContain
  split
  · rename_i hzero
    rw [← or_assoc]
    exact ⟨fun _ => Or.inl hzero, fun _ => rfl⟩
  · rename_i hzero
    rw [PackedBits.allBits_true_iff, ← or_assoc]
    exact ⟨Or.inr, fun h => h.resolve_left hzero⟩

/-- A value that has been added is held. -/
theorem holds_of_add (hs : f.add value = some f') : Holds f' value := by
  obtain ⟨hbits, hhash, -, hzero | hzero | hmembers⟩ := add_spec hs
  · exact holds_iff.mpr (Or.inl (hbits.trans hzero))
  · exact holds_iff.mpr (Or.inr (Or.inl (hhash.trans hzero)))
  · refine holds_iff.mpr (Or.inr (Or.inr fun idx hidx => ?_))
    rw [hmembers]
    exact Or.inr (indices_add hs value ▸ hidx)

/-- And stays held, whatever is added. -/
theorem Holds.add {v : Bytes} (h : Holds f v) (hs : f.add value = some f') : Holds f' v := by
  obtain ⟨hbits, hhash, -, hmembers⟩ := add_spec hs
  rcases holds_iff.mp h with hzero | hzero | hall
  · exact holds_iff.mpr (Or.inl (hbits.trans hzero))
  · exact holds_iff.mpr (Or.inr (Or.inl (hhash.trans hzero)))
  · rcases hmembers with hzero | hzero | hmembers
    · exact holds_iff.mpr (Or.inl (hbits.trans hzero))
    · exact holds_iff.mpr (Or.inr (Or.inl (hhash.trans hzero)))
    · refine holds_iff.mpr (Or.inr (Or.inr fun idx hidx => ?_))
      rw [hmembers]
      exact Or.inl (hall idx (indices_add hs v ▸ hidx))

end BloomFilter

/-! ## The filter of the cache -/

/-- The part of `Config` that `ShortUrlCache::init` passes to the filter. -/
structure BloomConfig where
  bloomBits : Int
  bloomHashes : Int
  bloomHardFilter : Bool
  /-- They are `int`s. -/
  bloomBits_le : bloomBits ≤ 2147483647
  bloomHashes_le : bloomHashes ≤ 2147483647

structure BloomState where
  bloom : BloomFilter
  bloomHardFilter : Bool
  bloomReady : Bool := false
  /-- While `warmup` is in its loop: what `list_active_codes` returned, and what of it is left. -/
  warmup : Option (List Bytes × List Bytes) := none
  /-- The codes of the warmups that succeeded. -/
  listed : List Bytes := []
  /-- The codes passed to `set`. -/
  passed : List Bytes := []

namespace BloomState

/-- `ShortUrlCache::init`. -/
def init (config : BloomConfig) : BloomState where
  bloom := .reset (UInt64.ofNat (max 8 config.bloomBits).toNat)
    (UInt64.ofNat (max 1 config.bloomHashes).toNat)
  bloomHardFilter := config.bloomHardFilter

inductive Label where
  /-- `set`, in any thread. -/
  | set (code : Bytes)
  /-- `warmup` is called, and this is what `list_active_codes` found. -/
  | list (listing : Listing)
  /-- `warmup` adds the next code, or is done. -/
  | warm

def step (s : BloomState) : Label → Option BloomState
  | .set code => (s.bloom.add code).map fun bloom => { s with bloom, passed := s.passed ++ [code] }
  | .list listing =>
    if s.warmup.isSome then none
    else if listing.error.isSome then some s
    else some { s with warmup := some (listing.codes, listing.codes) }
  | .warm =>
    match s.warmup with
    | none => none
    | some (codes, []) =>
      some { s with bloomReady := true, warmup := none, listed := s.listed ++ codes }
    | some (codes, code :: rest) =>
      (s.bloom.add code).map fun bloom => { s with bloom, warmup := some (codes, rest) }

/-- The test at the beginning of `redirect`: a hard miss is answered with 404. -/
def hardMiss (s : BloomState) (code : Bytes) : Option Bool :=
  if s.bloomHardFilter && s.bloomReady then (s.bloom.mightContain code).map not else some false

/-- What is listed or passed is held, and so is the part of the listing that has been added. -/
structure Inv (s : BloomState) : Prop where
  covered : s.bloom.Covered
  listed : ∀ code ∈ s.listed, s.bloom.Holds code
  passed : ∀ code ∈ s.passed, s.bloom.Holds code
  warming : ∀ codes rest, s.warmup = some (codes, rest) →
    ∀ code ∈ codes, code ∈ rest ∨ s.bloom.Holds code

variable {s s' : BloomState} {l : Label}

theorem inv_init (config : BloomConfig) : Inv (init config) where
  covered := by
    apply BloomFilter.covered_reset
    have hle := config.bloomBits_le
    rw [UInt64.toNat_ofNat']
    omega
  listed code hcode := by cases hcode
  passed code hcode := by cases hcode
  warming codes rest h := by cases h

theorem Inv.step (h : Inv s) (hs : s.step l = some s') : Inv s' := by
  cases l with
  | set code =>
    obtain ⟨bloom, hadd, rfl⟩ := Option.map_eq_some_iff.mp hs
    constructor
    · exact h.covered.add hadd
    · intro c hc
      exact (h.listed c hc).add hadd
    · intro c hc
      rcases List.mem_append.mp hc with hc | hc
      · exact (h.passed c hc).add hadd
      · obtain rfl := List.mem_singleton.mp hc
        exact BloomFilter.holds_of_add hadd
    · intro codes rest hw c hc
      exact (h.warming codes rest hw c hc).imp_right fun hold => hold.add hadd
  | list listing =>
    simp only [BloomState.step] at hs
    split at hs
    · cases hs
    · split at hs
      · cases hs
        exact h
      · cases hs
        refine ⟨h.covered, h.listed, h.passed, ?_⟩
        intro codes rest hw c hc
        cases hw
        exact Or.inl hc
  | warm =>
    simp only [BloomState.step] at hs
    split at hs
    · cases hs
    · rename_i codes hw
      cases hs
      refine ⟨h.covered, ?_, h.passed, ?_⟩
      · intro c hc
        rcases List.mem_append.mp hc with hc | hc
        · exact h.listed c hc
        · rcases h.warming codes [] hw c hc with hnil | hold
          · cases hnil
          · exact hold
      · intro codes' rest hw'
        cases hw'
    · rename_i codes code rest hw
      obtain ⟨bloom, hadd, rfl⟩ := Option.map_eq_some_iff.mp hs
      constructor
      · exact h.covered.add hadd
      · intro c hc
        exact (h.listed c hc).add hadd
      · intro c hc
        exact (h.passed c hc).add hadd
      · intro codes' rest' hw' c hc
        cases hw'
        rcases h.warming codes (code :: rest) hw c hc with hmem | hold
        · rcases List.mem_cons.mp hmem with rfl | hmem
          · exact Or.inr (BloomFilter.holds_of_add hadd)
          · exact Or.inl hmem
        · exact Or.inr (hold.add hadd)

theorem inv_run {config : BloomConfig} {ls : List Label}
    (hr : Machine.run step (init config) ls = some s) : Inv s :=
  Machine.run_preserves step (fun _ _ _ h hs => h.step hs) (inv_init config) hr

/-- The test lets a code through that is held. -/
theorem hardMiss_of_holds {code : Bytes} (h : s.bloom.Holds code) :
    s.hardMiss code = some false := by
  unfold hardMiss
  split
  · rw [h]
    rfl
  · rfl

end BloomState

namespace BloomFilter

/-- Adding many values. -/
theorem Covered.addAll {f : BloomFilter} (h : Covered f) (values : List Bytes) :
    ∃ f', values.foldlM BloomFilter.add f = some f' ∧ Covered f' ∧ (∀ v ∈ values, Holds f' v) ∧
      ∀ v, Holds f v → Holds f' v := by
  induction values generalizing f with
  | nil =>
    refine ⟨f, rfl, h, ?_, fun v hv => hv⟩
    intro v hv
    cases hv
  | cons value values ih =>
    obtain ⟨f₁, hadd⟩ := Option.isSome_iff_exists.mp (h.add_isSome value)
    obtain ⟨f', hall, hcovered, hnew, hold⟩ := ih (h.add hadd)
    refine ⟨f', by rw [List.foldlM_cons, hadd]; exact hall, hcovered, ?_, ?_⟩
    · intro v hv
      rcases List.mem_cons.mp hv with rfl | hv
      · exact hold v (holds_of_add hadd)
      · exact hnew v hv
    · intro v hv
      exact hold v (hv.add hadd)

end BloomFilter

/-- **No false negatives**: of the filter after `reset` and any additions, and of the test of
`redirect` in every state that the calls of `set` and `warmup` can reach, in any order of their
steps. No operation uses a bit or a byte that is not there. -/
theorem bloom_complete (bitCount hashCount : UInt64) (hbits : bitCount.toNat ≤ 2147483647)
    (values : List Bytes) (config : BloomConfig) (ls : List BloomState.Label) (s : BloomState)
    (hr : Machine.run BloomState.step (.init config) ls = some s) :
    (∃ f, values.foldlM BloomFilter.add (.reset bitCount hashCount) = some f ∧
      (∀ v ∈ values, f.mightContain v = some true) ∧
      ∀ value, (f.add value).isSome = true ∧ (f.mightContain value).isSome = true ∧
        ∀ idx ∈ f.indices value, idx < f.bitCount.toNat ∧ idx / 8 < f.bits.length) ∧
    (∀ code, (s.bloom.add code).isSome = true ∧ (s.bloom.mightContain code).isSome = true ∧
      ∀ idx ∈ s.bloom.indices code, idx < s.bloom.bitCount.toNat ∧ idx / 8 < s.bloom.bits.length) ∧
    ∀ code, code ∈ s.listed ∨ code ∈ s.passed → s.hardMiss code = some false := by
  refine ⟨?_, ?_, ?_⟩
  · obtain ⟨f, hall, hcovered, hnew, -⟩ :=
      (BloomFilter.covered_reset hashCount hbits).addAll values
    exact ⟨f, hall, hnew, fun value => ⟨hcovered.add_isSome value, hcovered.mightContain_isSome value,
      fun _ hidx => hcovered.index_lt hidx⟩⟩
  · have hcovered := (BloomState.inv_run hr).covered
    exact fun code => ⟨hcovered.add_isSome code, hcovered.mightContain_isSome code,
      fun _ hidx => hcovered.index_lt hidx⟩
  · have h := BloomState.inv_run hr
    rintro code (hlisted | hpassed)
    · exact BloomState.hardMiss_of_holds (h.listed code hlisted)
    · exact BloomState.hardMiss_of_holds (h.passed code hpassed)

/-- Sixteen bits, two hashes, and a hard filter. -/
def smallBloom : BloomConfig where
  bloomBits := 16
  bloomHashes := 2
  bloomHardFilter := true
  bloomBits_le := by decide
  bloomHashes_le := by decide

/-- A code is set while the warmup adds another. -/
def warmupAndSet : List BloomState.Label :=
  [.list ⟨[ascii "a"], none⟩, .set (ascii "b"), .warm, .warm]

theorem bloom_complete_warm :
    (∃ f, [ascii "a", ascii "b"].foldlM BloomFilter.add (.reset 16 2) = some f ∧
      f.mightContain (ascii "a") = some true ∧ f.mightContain (ascii "b") = some true) ∧
    ∃ s, Machine.run BloomState.step (.init smallBloom) warmupAndSet = some s ∧
      s.bloomReady = true ∧ s.hardMiss (ascii "a") = some false ∧
      s.hardMiss (ascii "b") = some false ∧ s.hardMiss (ascii "c") = some true := by
  obtain ⟨⟨f, hall, hcontains, -⟩, -, hlookups⟩ :=
    bloom_complete 16 2 (by decide) [ascii "a", ascii "b"] smallBloom warmupAndSet _ rfl
  refine ⟨⟨f, hall, hcontains _ (by simp), hcontains _ (by simp)⟩,
    _, rfl, rfl, hlookups _ (Or.inl (by simp)), hlookups _ (Or.inr (by simp)), by decide +kernel⟩

end ShortUrl
end UrlShortener
