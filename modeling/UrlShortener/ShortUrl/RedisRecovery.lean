import Mathlib.Algebra.Order.Ring.Nat
import UrlShortener.ShortUrl.RedisProbe

/-!
# UrlShortener.ShortUrl.RedisRecovery

How an outage and a shutdown end. A probe that gets answers needs eight of its own steps to make
Redis available again, whatever the callers do in between. And `shutdown` comes back: the probe waits
with a timeout, so it sees `probe_stop_` even when the notification has been missed.
-/

namespace UrlShortener
namespace ShortUrl

open Threads

/-! ## Recovery -/

/-- How many steps the probe is away from the one that makes Redis available. -/
def ProbePc.distance : ProbePc → Nat
  | .counting => 7
  | .top => 6
  | .waiting => 5
  | .woken => 4
  | .testing => 3
  | .fetching => 2
  | .pinging => 1
  | .restoring | .leaving | .exited => 0

/-- Everybody but `shutdown` goes on, and Redis answers the probes. -/
def RedisLabel.Answered : RedisLabel → Prop
  | .shutdown => False
  | .probe _ ok => ok = true
  | _ => True

/-- A step of probe `i`. -/
def RedisLabel.isProbe (i : Nat) : RedisLabel → Bool
  | .probe j _ => decide (j = i)
  | _ => false

/-- Probe `i` is in its loop and has a client to ask. -/
structure Probing (i : Nat) (s : RedisHealth) : Prop where
  guarded : ∃ starter, Guarded starter s
  up : s.owner = .up
  client : s.client = true
  runs : ∃ pc, s.probes[i]? = some pc ∧ pc.runs = true

def RedisHealth.distance (s : RedisHealth) (i : Nat) : Nat :=
  ((s.probes[i]?).map ProbePc.distance).getD 0

theorem distance_eq {s : RedisHealth} {i : Nat} {pc : ProbePc} (h : s.probes[i]? = some pc) :
    s.distance i = pc.distance := by
  rw [RedisHealth.distance, h]
  rfl

variable {s s' : RedisHealth} {i : Nat}

/-- The step of a probe that gets an answer, while Redis is not available. -/
theorem probeStep_nearer {pc pc' : ProbePc} (hstop : s.stop = false) (hclient : s.client = true)
    (hav : s.available = false) (hruns : pc.runs = true)
    (hs : s.probeStep pc true = some (s', pc')) :
    s'.available = true ∨ s'.owner = s.owner ∧ s'.client = s.client ∧ pc'.runs = true ∧
      pc'.distance + 1 ≤ pc.distance := by
  unfold RedisHealth.probeStep at hs
  simp only [hstop, hclient, hav, Bool.false_eq_true, if_false, if_true] at hs
  split at hs <;> cases hs
  · exact Or.inr ⟨rfl, rfl, rfl, by decide⟩
  · exact Or.inr ⟨rfl, rfl, rfl, by decide⟩
  · exact Or.inr ⟨rfl, rfl, rfl, by decide⟩
  · exact Or.inr ⟨rfl, rfl, rfl, by decide⟩
  · exact Or.inr ⟨rfl, rfl, rfl, by decide⟩
  · exact Or.inr ⟨rfl, rfl, rfl, by decide⟩
  · exact Or.inl rfl
  · exact Or.inr ⟨rfl, hclient.symm, rfl, by decide⟩
  · cases hruns

theorem Probing.step {l : RedisLabel} (h : Probing i s) (hl : l.Answered)
    (hav : ¬ s.available = true) (hs : s.step l = some s') :
    s'.available = true ∨
      Probing i s' ∧ s'.distance i + (l.isProbe i).toNat ≤ s.distance i := by
  obtain ⟨starter, hg⟩ := h.guarded
  obtain ⟨pc, hpc, hruns⟩ := h.runs
  have hup := h.up
  rw [distance_eq hpc]
  -- a step that leaves the probe where it is
  have keep : s'.owner = .up → s'.client = true → s'.probes[i]? = some pc → l.isProbe i = false →
      Probing i s' ∧ s'.distance i + (l.isProbe i).toNat ≤ pc.distance := by
    intro hup' hclient' hpc' hother
    refine ⟨⟨hg.step hs, hup', hclient', pc, hpc', hruns⟩, ?_⟩
    rw [distance_eq hpc', hother]
    exact Nat.le_refl _
  rcases redisStep_cases hs with ⟨enabled, client, ping, -, hdown, -⟩ | ⟨rfl, -, rfl⟩ |
    ⟨t, ok, q, s₁, q', rfl, hq, hm, rfl⟩ | ⟨j, ok, q, s₁, q', rfl, hq, -, -⟩ | ⟨rfl, -⟩
  · exact nomatch hup.symm.trans hdown
  · exact Or.inr (keep hup h.client hpc rfl)
  · right
    cases hm with
    | spawn free =>
      refine keep hup h.client ?_ rfl
      show (s.probes ++ [ProbePc.top])[i]? = some pc
      rw [List.getElem?_append_left (lt_of_getElem? hpc)]
      exact hpc
    | _ => exact keep hup h.client hpc rfl
  · -- the probe itself: there is no other
    obtain rfl : ok = true := hl
    obtain ⟨r, hr, hstep⟩ := Option.bind_eq_some_iff.mp hs
    obtain ⟨⟨s₁, pc'⟩, hprobe, rfl⟩ := Option.map_eq_some_iff.mp hstep
    by_cases hji : j = i
    · subst hji
      obtain rfl : pc = r := Option.some.inj (hpc.symm.trans hr)
      rcases probeStep_nearer (hg.stop hup) h.client (Bool.eq_false_of_not_eq_true hav) hruns
          hprobe with hdone | ⟨howner, hclient, hruns', hle⟩
      · exact Or.inl hdone
      · right
        have hpc' : (s.probes.set j pc')[j]? = some pc' := getElem?_set_self hpc
        refine ⟨⟨hg.step hs, howner.trans hup, hclient.trans h.client, pc', hpc', hruns'⟩, ?_⟩
        rw [distance_eq hpc']
        simpa [RedisLabel.isProbe] using hle
    · have hexited : q = .exited := by
        by_contra hne
        exact hji (Option.some.inj ((hg.only j q hq hne).symm.trans
          (hg.only i pc hpc (by rintro rfl; cases hruns))))
      obtain rfl : q = r := Option.some.inj (hq.symm.trans hr)
      rw [hexited] at hprobe
      cases hprobe
  · cases hl

/-- **An outage ends.** In every order of the steps of callers and probe in which Redis answers the
probe, Redis has been made available again by the time the probe has done eight steps. -/
theorem outage_ends (ls : List RedisLabel) (s : RedisHealth)
    (hr : Machine.run RedisHealth.step {} ls = some s) (hup : s.owner = .up)
    (hclient : s.client = true) (i : Nat) (pc : ProbePc) (hpc : s.probes[i]? = some pc)
    (hruns : pc.runs = true) (more : List RedisLabel) (s' : RedisHealth)
    (hanswered : ∀ l ∈ more, l.Answered) (hmore : Machine.run RedisHealth.step s more = some s')
    (hticks : 8 ≤ more.countP (RedisLabel.isProbe i)) :
    ∃ before after s₁, more = before ++ after ∧
      Machine.run RedisHealth.step s before = some s₁ ∧ s₁.available = true := by
  have hprobing : Probing i s := ⟨(RedisInv.of_run hr).guarded, hup, hclient, pc, hpc, hruns⟩
  have hdistance : s.distance i < more.countP (RedisLabel.isProbe i) := by
    have hle : pc.distance ≤ 7 := by cases pc <;> decide
    rw [distance_eq hpc]
    omega
  exact Machine.run_countdown RedisHealth.step
    (fun s l s' h hl hav hs => h.step hl hav hs) hprobing hanswered hmore hdistance

/-- Redis is down when the server starts. -/
def lateRedis : List RedisLabel :=
  .init true true false :: List.replicate 4 (.caller 0 false)

theorem outage_ends_late : ∃ s s' before s₁, Machine.run RedisHealth.step {} lateRedis = some s ∧
    s.available = false ∧
    Machine.run RedisHealth.step s (List.replicate 8 (.probe 0 true)) = some s' ∧
    Machine.run RedisHealth.step s before = some s₁ ∧ s₁.available = true := by
  have hrun : (Machine.run RedisHealth.step {} lateRedis).bind (fun s =>
      (Machine.run RedisHealth.step s (List.replicate 8 (.probe 0 true))).map fun _ =>
        (s.owner, s.client, s.available, s.probes)) = some (.up, true, false, [.top]) := by
    decide +kernel
  obtain ⟨s, hr, hrest⟩ := Option.bind_eq_some_iff.mp hrun
  obtain ⟨s', hmore, heq⟩ := Option.map_eq_some_iff.mp hrest
  simp only [Prod.mk.injEq] at heq
  obtain ⟨hup, hclient, havailable, hprobes⟩ := heq
  have hanswered : ∀ l ∈ List.replicate 8 (RedisLabel.probe 0 true), l.Answered := by
    intro l hl
    rw [List.eq_of_mem_replicate hl]
    rfl
  obtain ⟨before, after, s₁, -, hbefore, hdone⟩ := outage_ends lateRedis s hr hup hclient 0 .top
    (by rw [hprobes]; rfl) rfl _ s' hanswered hmore (by decide)
  exact ⟨s, s', before, s₁, hr, havailable, hmore, hbefore, hdone⟩

/-! ## Shutdown -/

/-- A step that is left to take when the callers have been joined. -/
def RedisLabel.InShutdown : RedisLabel → Prop
  | .probe _ _ | .shutdown => True
  | _ => False

/-- How much a probe has still to do once `probe_stop_` is set. -/
def ProbePc.weight : ProbePc → Nat
  | .testing => 7
  | .fetching => 6
  | .pinging => 5
  | .restoring => 4
  | .counting | .waiting => 3
  | .top | .woken => 2
  | .leaving => 1
  | .exited => 0

def OwnerPc.weight : OwnerPc → Nat
  | .up => 3
  | .stopped => 2
  | .joined => 1
  | .down => 0

def RedisHealth.weight (s : RedisHealth) : Nat :=
  s.owner.weight + (s.probes.map ProbePc.weight).sum

theorem probeStep_weight {pc pc' : ProbePc} {ok : Bool} (hstop : s.stop = true)
    (hs : s.probeStep pc ok = some (s', pc')) :
    s'.owner = s.owner ∧ pc'.weight < pc.weight := by
  unfold RedisHealth.probeStep at hs
  simp only [hstop, if_true] at hs
  split at hs <;> cases hs <;> refine ⟨rfl, ?_⟩
  · decide
  · decide
  · decide
  · split <;> decide
  · split <;> decide
  · split <;> decide
  · decide
  · decide
  · decide

theorem weight_lt_of_shutdown {l : RedisLabel} {starter : Option Nat} (hg : Guarded starter s)
    (hdown : s.owner ≠ .up) (hl : l.InShutdown) (hs : s.step l = some s') :
    s'.owner ≠ .up ∧ s'.weight < s.weight := by
  cases l with
  | init enabled client ping => cases hl
  | begin => cases hl
  | caller t ok => cases hl
  | probe j ok =>
    obtain ⟨pc, hpc, hstep⟩ := Option.bind_eq_some_iff.mp hs
    obtain ⟨⟨s₁, pc'⟩, hprobe, rfl⟩ := Option.map_eq_some_iff.mp hstep
    have hmine := hg.only j pc hpc (by rintro rfl; cases hprobe)
    have hstop : s.stop = true := by
      refine hg.stopped ?_
      cases howner : s.owner with
      | up => exact absurd howner hdown
      | stopped => rfl
      | joined => exact nomatch (hg.joined (Or.inl howner)).symm.trans hmine
      | down => exact nomatch (hg.joined (Or.inr howner)).symm.trans hmine
    obtain ⟨howner, hlt⟩ := probeStep_weight hstop hprobe
    have hsum := sum_map_set ProbePc.weight (q := pc') hpc
    refine ⟨by rw [show _ = s₁.owner from rfl, howner]; exact hdown, ?_⟩
    simp only [RedisHealth.weight, howner]
    omega
  | shutdown =>
    have hm := shutdownStep_move hs
    simp only [RedisHealth.weight]
    generalize howner : s.owner = owner at hm hdown
    cases hm with
    | stop quiet => exact absurd rfl hdown
    | skip free => exact ⟨nofun, by simp only [OwnerPc.weight]; omega⟩
    | join i handle exited => exact ⟨nofun, by simp only [OwnerPc.weight]; omega⟩
    | done => exact ⟨nofun, by simp only [OwnerPc.weight]; omega⟩

/-- When neither the probe nor `shutdown` can go on, `shutdown` has returned. -/
theorem down_of_blocked {starter : Option Nat} (hg : Guarded starter s) (hdown : s.owner ≠ .up)
    (hb : ∀ l : RedisLabel, l.InShutdown → s.step l = none) : s.owner = .down := by
  have hnone : s.shutdownStep = none := hb .shutdown trivial
  unfold RedisHealth.shutdownStep at hnone
  split at hnone <;> rename_i howner
  · exact howner
  · exact absurd howner hdown
  · split at hnone <;> rename_i hhandle
    · cases hnone
    · rename_i i
      split at hnone <;> rename_i hover
      · cases hnone
      · -- the thread that it waits for can go on
        obtain ⟨pc, hpc⟩ := hg.valid i hhandle
        have hstuck := hb (.probe i true) trivial
        simp only [RedisHealth.step, hpc, Option.bind_some, Option.map_eq_none_iff] at hstuck
        have hexited : pc = .exited := by
          unfold RedisHealth.probeStep at hstuck
          split at hstuck <;> first | rfl | cases hstuck
        rw [RedisHealth.isOver, hpc, hexited] at hover
        exact absurd rfl hover
  · cases hnone

/-- **`shutdown` comes back.** From every state inside a shutdown, every run of its steps and those of
the probe is bounded, and it can only stop when `shutdown` has returned. -/
theorem shutdown_returns (ls : List RedisLabel) (s : RedisHealth)
    (hr : Machine.run RedisHealth.step {} ls = some s) (hdown : s.owner ≠ .up) :
    (∃ more s', (∀ l ∈ more, l.InShutdown) ∧ Machine.run RedisHealth.step s more = some s' ∧
      s'.owner = .down) ∧
    ∀ (more : List RedisLabel) (s' : RedisHealth), (∀ l ∈ more, l.InShutdown) →
      Machine.run RedisHealth.step s more = some s' → more.length ≤ s.weight ∧
        ((∀ l : RedisLabel, l.InShutdown → s'.step l = none) → s'.owner = .down) := by
  have hlower : ∀ (s : RedisHealth) (l : RedisLabel) (s' : RedisHealth),
      ((∃ starter, Guarded starter s) ∧ s.owner ≠ .up) → l.InShutdown → s.step l = some s' →
      ((∃ starter, Guarded starter s') ∧ s'.owner ≠ .up) ∧ s'.weight < s.weight := by
    rintro s l s' ⟨⟨starter, hg⟩, hdown⟩ hl hs
    obtain ⟨hdown', hlt⟩ := weight_lt_of_shutdown hg hdown hl hs
    exact ⟨⟨hg.step hs, hdown'⟩, hlt⟩
  have hinv : (∃ starter, Guarded starter s) ∧ s.owner ≠ .up :=
    ⟨(RedisInv.of_run hr).guarded, hdown⟩
  have hkeep : ∀ (more : List RedisLabel) (s' : RedisHealth), (∀ l ∈ more, l.InShutdown) →
      Machine.run RedisHealth.step s more = some s' →
      (∃ starter, Guarded starter s') ∧ s'.owner ≠ .up := fun more s' hmore hrun =>
    Machine.run_invariant RedisHealth.step (fun s l s' h hl hs => (hlower s l s' h hl hs).1) hinv
      (Machine.along_of_forall RedisHealth.step fun l hl _ => hmore l hl) hrun
  constructor
  · obtain ⟨more, s', hmore, hrun, hblocked⟩ :=
      Machine.exists_run_blocked RedisHealth.step hlower s hinv
    obtain ⟨⟨starter, hg⟩, hdown'⟩ := hkeep more s' hmore hrun
    exact ⟨more, s', hmore, hrun, down_of_blocked hg hdown' hblocked⟩
  · intro more s' hmore hrun
    obtain ⟨⟨starter, hg⟩, hdown'⟩ := hkeep more s' hmore hrun
    have hle := Machine.run_length_le RedisHealth.step hlower hinv hmore hrun
    exact ⟨by omega, fun hblocked => down_of_blocked hg hdown' hblocked⟩

/-- A shutdown during the outage of `lateRedis`. -/
theorem shutdown_returns_late : ∃ s more s',
    Machine.run RedisHealth.step {} (lateRedis ++ [.shutdown]) = some s ∧
    Machine.run RedisHealth.step s more = some s' ∧ s'.owner = .down := by
  have hrun : (Machine.run RedisHealth.step {} (lateRedis ++ [.shutdown])).map
      (fun s => s.owner) = some .stopped := by
    decide +kernel
  obtain ⟨s, hr, howner⟩ := Option.map_eq_some_iff.mp hrun
  obtain ⟨⟨more, s', -, hmore, hdown⟩, -⟩ :=
    shutdown_returns _ s hr (by rw [howner]; nofun)
  exact ⟨s, more, s', hr, hmore, hdown⟩

end ShortUrl
end UrlShortener
