import Mathlib.Data.Nat.Bitwise
import Mathlib.Data.UInt
import Mathlib.Data.List.Pairwise

/-!
# UrlShortener.ShortUrl.Snowflake

`SnowflakeIdGenerator`. An id is packed from the second since the epoch, the worker id and a
sequence number within the second.

The clock is an input: the list of what `system_clock::now()` answers, call after call, in whole
seconds. It may stall or run backwards. A call takes its readings from the front of the list; a
call that has used up the list is still inside `wait_next_second`.

* `pack_fields`: the three fields of an id are read back from it.
* `nextId_returned`: what a call that returns has done, whatever the clock showed.

Ids only grow, and generators with different worker ids share none.
-/

namespace UrlShortener
namespace Snowflake

def kEpochSeconds : UInt64 := 1767225600
def kSequenceBits : UInt64 := 12
def kWorkerBits : UInt64 := 10
def kMaxSequence : UInt64 := (1 <<< kSequenceBits) - 1
def kMaxWorkerId : UInt64 := (1 <<< kWorkerBits) - 1
def kMaxTimestampDelta : UInt64 := ((1 : UInt64) <<< 29) - 1

/-- A value of `s_worker_id_`: whatever is stored there is masked first. -/
structure WorkerId where
  val : UInt64
  masked : val ≤ kMaxWorkerId

namespace WorkerId

def mask (x : UInt64) : WorkerId :=
  ⟨x &&& kMaxWorkerId, UInt64.le_iff_toNat_le.mpr (UInt64.toNat_and _ _ ▸ Nat.and_le_right)⟩

/-- The default, from `getpid()`. -/
def ofPid (pid : Int32) : WorkerId := mask pid.toInt64.toUInt64

def setWorkerId (w : WorkerId) (id : Int64) : WorkerId :=
  if id < 0 then w else mask id.toUInt64

end WorkerId

structure SnowflakeIdGenerator where
  lastSecond : UInt64 := 0
  sequence : UInt64 := 0
  sequence_le : sequence ≤ kMaxSequence := by decide

/-- `++sequence_` below the maximum. -/
theorem succ_sequence_le {x : UInt64} (h : ¬ kMaxSequence ≤ x) : x + 1 ≤ kMaxSequence := by
  have hx : x.toNat < 4095 := UInt64.lt_iff_toNat_lt.mp (UInt64.not_le.mp h)
  have h1 : (x + 1).toNat = x.toNat + 1 := by
    rw [UInt64.toNat_add, UInt64.toNat_one]
    exact Nat.mod_eq_of_lt (by omega)
  apply UInt64.le_iff_toNat_le.mpr
  rw [h1]
  exact hx

/-- How a call of `next_id` stands: returned, left by the exception, or still waiting. -/
inductive Call where
  | returned (id : UInt64) (g : SnowflakeIdGenerator) (clock : List Int64)
  | threw (g : SnowflakeIdGenerator) (clock : List Int64)
  | waiting

/-- `current_seconds()` on one reading of the clock. -/
def currentSeconds (reading : Int64) : UInt64 :=
  let unixSeconds := reading.toUInt64
  if unixSeconds ≤ kEpochSeconds then 0 else unixSeconds - kEpochSeconds

def waitNextSecond (lastSecond : UInt64) : List Int64 → Option (UInt64 × List Int64)
  | [] => none
  | r :: clock =>
    let now := currentSeconds r
    if now ≤ lastSecond then waitNextSecond lastSecond clock else some (now, clock)

def pack (now worker sequence : UInt64) : UInt64 :=
  (now <<< (kSequenceBits + kWorkerBits)) ||| (worker <<< kSequenceBits) ||| sequence

/-- The end of `next_id`, with `sequence_` already set: the range check, then `last_second_`. -/
def issue (w : WorkerId) (g : SnowflakeIdGenerator) (now : UInt64) (clock : List Int64) : Call :=
  if kMaxTimestampDelta < now then .threw g clock
  else .returned (pack now w.val g.sequence) { g with lastSecond := now } clock

def nextId (w : WorkerId) (g : SnowflakeIdGenerator) : List Int64 → Call
  | [] => .waiting
  | r :: clock =>
    let now := currentSeconds r
    let now := if now < g.lastSecond then g.lastSecond else now
    if now = g.lastSecond then
      if h : kMaxSequence ≤ g.sequence then
        match waitNextSecond g.lastSecond clock with
        | none => .waiting
        | some (now, clock) => issue w ⟨g.lastSecond, 0, by decide⟩ now clock
      else issue w ⟨g.lastSecond, g.sequence + 1, succ_sequence_le h⟩ now clock
    else issue w ⟨g.lastSecond, 0, by decide⟩ now clock

/-- An id that was returned, with the generator as the call left it: `last_second_` is the second
used and `sequence_` the sequence number used. -/
structure Issued where
  id : UInt64
  after : SnowflakeIdGenerator

/-- `n` calls one after the other; `none` unless all of them return. -/
def calls (w : WorkerId) : Nat → SnowflakeIdGenerator → List Int64 → Option (List Issued)
  | 0, _, _ => some []
  | n + 1, g, clock =>
    match nextId w g clock with
    | .returned id g clock => (calls w n g clock).map fun out => ⟨id, g⟩ :: out
    | _ => none

/-! ## The layout of an id -/

theorem WorkerId.val_lt (w : WorkerId) : w.val.toNat < 2 ^ 10 := by
  have h := UInt64.le_iff_toNat_le.mp w.masked
  exact Nat.lt_of_le_of_lt h (by decide)

theorem SnowflakeIdGenerator.sequence_lt (g : SnowflakeIdGenerator) :
    g.sequence.toNat < 2 ^ 12 := by
  have h := UInt64.le_iff_toNat_le.mp g.sequence_le
  exact Nat.lt_of_le_of_lt h (by decide)

section Pack

variable {now worker sequence : UInt64} (hn : now.toNat < 2 ^ 29) (hw : worker.toNat < 2 ^ 10)
  (hs : sequence.toNat < 2 ^ 12)

include hn hw hs

theorem pack_toNat : (pack now worker sequence).toNat =
    now.toNat * 2 ^ 22 + worker.toNat * 2 ^ 12 + sequence.toNat := by
  have e1 : (now <<< (kSequenceBits + kWorkerBits)).toNat = now.toNat <<< 22 := by
    rw [UInt64.toNat_shiftLeft, show (kSequenceBits + kWorkerBits).toNat % 64 = 22 from rfl]
    apply Nat.mod_eq_of_lt
    rw [Nat.shiftLeft_eq]
    omega
  have e2 : (worker <<< kSequenceBits).toNat = worker.toNat <<< 12 := by
    rw [UInt64.toNat_shiftLeft, show kSequenceBits.toNat % 64 = 12 from rfl]
    apply Nat.mod_eq_of_lt
    rw [Nat.shiftLeft_eq]
    omega
  have hlow : worker.toNat <<< 12 ||| sequence.toNat = worker.toNat * 2 ^ 12 + sequence.toNat := by
    rw [← Nat.shiftLeft_add_eq_or_of_lt hs, Nat.shiftLeft_eq]
  have hlt : worker.toNat * 2 ^ 12 + sequence.toNat < 2 ^ 22 := by omega
  rw [pack, UInt64.toNat_or, UInt64.toNat_or, e1, e2, Nat.or_assoc, hlow,
    ← Nat.shiftLeft_add_eq_or_of_lt hlt, Nat.shiftLeft_eq, Nat.add_assoc]

/-- The fields of an id do not overlap. -/
theorem pack_fields : pack now worker sequence >>> 22 = now ∧
    (pack now worker sequence >>> 12) &&& 1023 = worker ∧
    pack now worker sequence &&& 4095 = sequence := by
  have hp := pack_toNat hn hw hs
  have and_mask : ∀ (x k : Nat), x &&& (2 ^ k - 1) = x % 2 ^ k := Nat.and_two_pow_sub_one_eq_mod
  refine ⟨?_, ?_, ?_⟩ <;> apply UInt64.toNat_inj.mp
  · rw [UInt64.toNat_shiftRight, hp, show (22 : UInt64).toNat % 64 = 22 from rfl,
      Nat.shiftRight_eq_div_pow]
    omega
  · rw [UInt64.toNat_and, UInt64.toNat_shiftRight, hp, show (12 : UInt64).toNat % 64 = 12 from rfl,
      Nat.shiftRight_eq_div_pow, show (1023 : UInt64).toNat = 2 ^ 10 - 1 from rfl, and_mask]
    omega
  · rw [UInt64.toNat_and, hp, show (4095 : UInt64).toNat = 2 ^ 12 - 1 from rfl, and_mask]
    omega

theorem pack_lt : pack now worker sequence < 2 ^ 51 := by
  apply UInt64.lt_iff_toNat_lt.mpr
  rw [pack_toNat hn hw hs, show (2 ^ 51 : UInt64).toNat = 2 ^ 51 from by decide]
  omega

end Pack

/-! ## One call -/

theorem waitNextSecond_lt {lastSecond now : UInt64} : ∀ {clock rest : List Int64},
    waitNextSecond lastSecond clock = some (now, rest) → lastSecond < now := by
  intro clock
  induction clock with
  | nil => intro rest h; cases h
  | cons r clock ih =>
    intro rest h
    simp only [waitNextSecond] at h
    split at h
    · exact ih h
    · rename_i hlt
      cases h
      exact UInt64.not_le.mp hlt

/-- The call comes back once the clock shows a later second. -/
theorem waitNextSecond_isSome {lastSecond : UInt64} : ∀ {clock : List Int64},
    (waitNextSecond lastSecond clock).isSome = clock.any fun r => lastSecond < currentSeconds r := by
  intro clock
  induction clock with
  | nil => rfl
  | cons r clock ih =>
    simp only [waitNextSecond, List.any_cons]
    split
    · rename_i hle
      rw [ih, decide_eq_false (UInt64.not_lt.mpr hle), Bool.false_or]
    · rename_i hlt
      rw [decide_eq_true (UInt64.not_le.mp hlt), Bool.true_or]
      rfl

/-- `next_id` passes over the second or moves on within it. -/
def Advances (g g' : SnowflakeIdGenerator) : Prop :=
  g.lastSecond < g'.lastSecond ∨ g.lastSecond = g'.lastSecond ∧ g.sequence < g'.sequence

theorem Advances.trans {g₁ g₂ g₃ : SnowflakeIdGenerator} (h₁ : Advances g₁ g₂)
    (h₂ : Advances g₂ g₃) : Advances g₁ g₃ := by
  simp only [Advances, UInt64.lt_iff_toNat_lt, ← UInt64.toNat_inj] at h₁ h₂ ⊢
  omega

theorem issue_returned {w : WorkerId} {g g' : SnowflakeIdGenerator} {now id : UInt64}
    {clock rest : List Int64} (h : issue w g now clock = .returned id g' rest) :
    id = pack now w.val g'.sequence ∧ g'.lastSecond = now ∧ g'.sequence = g.sequence ∧
      now.toNat < 2 ^ 29 := by
  simp only [issue] at h
  split at h
  · cases h
  · rename_i hle
    cases h
    have := UInt64.le_iff_toNat_le.mp (UInt64.not_lt.mp hle)
    exact ⟨rfl, rfl, rfl, Nat.lt_of_le_of_lt this (by decide)⟩

/-- **What a call that returns has done**, whatever the clock showed. -/
theorem nextId_returned {w : WorkerId} {g g' : SnowflakeIdGenerator} {id : UInt64}
    {clock rest : List Int64} (h : nextId w g clock = .returned id g' rest) :
    id = pack g'.lastSecond w.val g'.sequence ∧ g'.lastSecond.toNat < 2 ^ 29 ∧ Advances g g' := by
  cases clock with
  | nil => cases h
  | cons r clock =>
    -- the second the call starts from: a clock that went back counts as stalled
    have hnow : g.lastSecond ≤ if currentSeconds r < g.lastSecond then g.lastSecond
        else currentSeconds r := by
      split
      · exact UInt64.le_refl _
      · rename_i hlt
        exact UInt64.not_lt.mp hlt
    simp only [nextId] at h
    generalize (if currentSeconds r < g.lastSecond then g.lastSecond else currentSeconds r) = now
      at h hnow
    split at h
    · rename_i heq
      split at h
      · cases hw : waitNextSecond g.lastSecond clock with
        | none => rw [hw] at h; cases h
        | some p =>
          rw [hw] at h
          obtain ⟨hid, hsec, -, hlt⟩ := issue_returned h
          rw [← hsec] at hid hlt
          exact ⟨hid, hlt, Or.inl (hsec ▸ waitNextSecond_lt hw)⟩
      · rename_i hfull
        obtain ⟨hid, hsec, hseq, hlt⟩ := issue_returned h
        rw [← hsec] at hid hlt
        refine ⟨hid, hlt, Or.inr ⟨(hsec.trans heq).symm, ?_⟩⟩
        rw [hseq]
        exact UInt64.lt_add_one (by rintro he; rw [he] at hfull; exact hfull (by decide))
    · rename_i hne
      obtain ⟨hid, hsec, -, hlt⟩ := issue_returned h
      rw [← hsec] at hid hlt
      refine ⟨hid, hlt, Or.inl (hsec ▸ ?_)⟩
      exact UInt64.lt_of_le_of_ne hnow fun he => hne he.symm

theorem issue_ne_waiting {w : WorkerId} {g : SnowflakeIdGenerator} {now : UInt64}
    {clock : List Int64} : issue w g now clock ≠ .waiting := by
  simp only [issue]
  split <;> simp

/-- A call does not wait for ever: it is over once the clock has shown a later second. -/
theorem nextId_ne_waiting {w : WorkerId} {g : SnowflakeIdGenerator} {r : Int64}
    {clock : List Int64} (h : ∃ r' ∈ clock, g.lastSecond < currentSeconds r') :
    nextId w g (r :: clock) ≠ .waiting := by
  have hwait : (waitNextSecond g.lastSecond clock).isSome = true := by
    rw [waitNextSecond_isSome]
    simpa using h
  simp only [nextId]
  generalize (if currentSeconds r < g.lastSecond then g.lastSecond else currentSeconds r) = now
  split
  · split
    · obtain ⟨p, hp⟩ := Option.isSome_iff_exists.mp hwait
      rw [hp]
      exact issue_ne_waiting
    · exact issue_ne_waiting
  · exact issue_ne_waiting

/-! ## Runs of calls -/

/-- What a run of calls guarantees of each id. -/
structure Issued.Sound (w : WorkerId) (i : Issued) : Prop where
  id_eq : i.id = pack i.after.lastSecond w.val i.after.sequence
  second_lt : i.after.lastSecond.toNat < 2 ^ 29

theorem Issued.Sound.toNat {w : WorkerId} {i : Issued} (h : i.Sound w) :
    i.id.toNat = i.after.lastSecond.toNat * 2 ^ 22 + w.val.toNat * 2 ^ 12 +
      i.after.sequence.toNat := by
  rw [h.id_eq]
  exact pack_toNat h.second_lt w.val_lt i.after.sequence_lt

/-- Under one worker id, an id is smaller than those of later calls. -/
theorem Issued.Sound.lt {w : WorkerId} {i j : Issued} (hi : i.Sound w) (hj : j.Sound w)
    (h : Advances i.after j.after) : i.id < j.id := by
  apply UInt64.lt_iff_toNat_lt.mpr
  have si := i.after.sequence_lt
  have sj := j.after.sequence_lt
  simp only [Advances, UInt64.lt_iff_toNat_lt, ← UInt64.toNat_inj] at h
  rw [hi.toNat, hj.toNat]
  omega

theorem calls_sound {w : WorkerId} : ∀ {n : Nat} {g : SnowflakeIdGenerator} {clock : List Int64}
    {out : List Issued}, calls w n g clock = some out →
    (∀ i ∈ out, i.Sound w ∧ Advances g i.after) ∧
      out.Pairwise fun i j => Advances i.after j.after := by
  intro n
  induction n with
  | zero => intro g clock out h; cases h; exact ⟨by simp, .nil⟩
  | succ n ih =>
    intro g clock out h
    simp only [calls] at h
    cases hc : nextId w g clock with
    | threw g' rest => rw [hc] at h; cases h
    | waiting => rw [hc] at h; cases h
    | returned id g' rest =>
      rw [hc] at h
      obtain ⟨out', h', rfl⟩ := Option.map_eq_some_iff.mp h
      obtain ⟨hid, hlt, hadv⟩ := nextId_returned hc
      obtain ⟨hall, hpair⟩ := ih h'
      constructor
      · intro i hi
        rcases List.mem_cons.mp hi with rfl | hi
        · exact ⟨⟨hid, hlt⟩, hadv⟩
        · exact ⟨(hall i hi).1, hadv.trans (hall i hi).2⟩
      · exact .cons (fun i hi => (hall i hi).2) hpair

/-- **Ids are unique.** The calls of one generator return growing ids below `2^51` from which the
second, the worker and the sequence number are read back, and a generator with another worker id
returns none of them, whatever either clock shows. -/
theorem calls_unique (w w' : WorkerId) (n n' : Nat) (clock clock' : List Int64)
    (out out' : List Issued) (h : calls w n {} clock = some out)
    (h' : calls w' n' {} clock' = some out') :
    out.Pairwise (fun i j => i.id < j.id) ∧
    (∀ i ∈ out, i.id < 2 ^ 51 ∧ i.id >>> 22 = i.after.lastSecond ∧
      (i.id >>> 12) &&& 1023 = w.val ∧ i.id &&& 4095 = i.after.sequence) ∧
    (w.val ≠ w'.val → ∀ i ∈ out, ∀ j ∈ out', i.id ≠ j.id) := by
  obtain ⟨hall, hpair⟩ := calls_sound h
  obtain ⟨hall', -⟩ := calls_sound h'
  have hfields : ∀ {w : WorkerId} {i : Issued}, i.Sound w → i.id >>> 22 = i.after.lastSecond ∧
      (i.id >>> 12) &&& 1023 = w.val ∧ i.id &&& 4095 = i.after.sequence := by
    intro w i hi
    rw [hi.id_eq]
    exact pack_fields hi.second_lt w.val_lt i.after.sequence_lt
  refine ⟨?_, ?_, ?_⟩
  · exact hpair.imp_of_mem fun hi hj hadv => (hall _ hi).1.lt (hall _ hj).1 hadv
  · intro i hi
    have hs := (hall i hi).1
    refine ⟨?_, hfields hs⟩
    rw [hs.id_eq]
    exact pack_lt hs.second_lt w.val_lt i.after.sequence_lt
  · intro hne i hi j hj he
    apply hne
    rw [← (hfields (hall i hi).1).2.1, ← (hfields (hall' j hj).1).2.1, he]

/-- A clock that goes back five seconds, next to another worker in the same second. -/
theorem calls_unique_rollback :
    ∃ out out', calls (.mask 7) 3 {} [1767225605, 1767225600, 1767225606] = some out ∧
      calls (.mask 8) 1 {} [1767225605] = some out' ∧ out.length = 3 ∧
      out.Pairwise (fun i j => i.id < j.id) ∧ ∀ i ∈ out, ∀ j ∈ out', i.id ≠ j.id := by
  refine ⟨_, _, rfl, rfl, rfl, ?_⟩
  obtain ⟨hpair, -, hother⟩ := calls_unique (.mask 7) (.mask 8) 3 1
    [1767225605, 1767225600, 1767225606] [1767225605] _ _ rfl rfl
  exact ⟨hpair, hother (by decide)⟩

end Snowflake
end UrlShortener
