import UrlShortener.ShortUrl.RedisHealth

/-!
# UrlShortener.ShortUrl.RedisProbe

The probe thread. `probe_running_` is the right to start one: whoever changes it from false to true
is alone until it has stored the new thread, and the thread gives it back at its end (`Guarded`). So
there is one probe at most, and an outage has one, or a caller that is about to start it.
-/

namespace UrlShortener
namespace ShortUrl

open Threads

/-! ## Roles -/

/-- The caller has changed `probe_running_` and not yet started the thread. -/
def CallerPc.isStarting : CallerPc → Option Unit
  | .clearing | .resetting | .spawning => some ()
  | _ => none

/-- The caller has seen the outage and not yet looked after the probe. -/
def CallerPc.isComing : CallerPc → Option Unit
  | .losing | .asking | .clearing | .resetting | .spawning => some ()
  | _ => none

def CallerPc.isLosing : CallerPc → Option Unit
  | .losing => some ()
  | _ => none

def ProbePc.isCounting : ProbePc → Option Unit
  | .counting => some ()
  | _ => none

/-- The thread is in its loop. -/
def ProbePc.runs : ProbePc → Bool
  | .leaving | .exited => false
  | _ => true

/-- The thread has seen that Redis is not available. -/
def ProbePc.hopes : ProbePc → Bool
  | .fetching | .pinging | .restoring => true
  | _ => false

/-! ## The right to start a probe -/

/-- `starter` is the caller that may start a probe. -/
structure Guarded (starter : Option Nat) (s : RedisHealth) : Prop where
  owns : Owns CallerPc.isStarting s.callers () starter
  free : starter ≠ none → s.handle = none
  running : s.owner = .up → (s.running = true ↔ starter ≠ none ∨ s.handle ≠ none)
  stop : s.owner = .up → s.stop = false
  live : s.owner = .up → ∀ i pc, s.handle = some i → s.probes[i]? = some pc → pc.runs = true
  only : ∀ i pc, s.probes[i]? = some pc → pc ≠ .exited → s.handle = some i
  valid : ∀ i, s.handle = some i → ∃ pc, s.probes[i]? = some pc
  quiet : s.owner ≠ .up → ∀ pc ∈ s.callers, pc = .returned
  stopped : s.owner = .stopped → s.stop = true
  joined : s.owner = .joined ∨ s.owner = .down → s.handle = none
  down : s.owner = .down → s.running = false
  sane : s.terminated = false

theorem Guarded.start : Guarded none {} where
  owns t := by simp [At]
  free h := absurd rfl h
  running := nofun
  stop := nofun
  live := nofun
  only i pc h := nomatch h
  valid i h := nomatch h
  quiet _ pc h := nomatch h
  stopped := nofun
  joined _ := rfl
  down _ := rfl
  sane := rfl

variable {starter : Option Nat} {s s' : RedisHealth}

/-- A thread that has not returned keeps the owner where it is. -/
theorem Guarded.up (h : Guarded starter s) {t : Nat} {pc : CallerPc} (hpc : s.callers[t]? = some pc)
    (hne : pc ≠ .returned) : s.owner = .up := by
  by_contra hdown
  exact hne (h.quiet hdown pc (List.mem_of_getElem? hpc))

theorem Guarded.init (h : Guarded starter s) (hdown : s.owner = .down)
    (enabled client ping : Bool) : Guarded none (s.init enabled client ping) := by
  have hnone : s.handle = none := h.joined (Or.inr hdown)
  have hquiet := h.quiet (by rw [hdown]; nofun)
  have hstarting : ∀ t, ¬ At CallerPc.isStarting s.callers t () := by
    rintro t ⟨pc, hpc, hstarting⟩
    rw [hquiet pc (List.mem_of_getElem? hpc)] at hstarting
    cases hstarting
  refine ⟨fun t => ?_, fun hne => absurd rfl hne, fun _ => ?_, fun _ => rfl, fun _ i pc hi => ?_,
    h.only, h.valid, fun hne => absurd rfl hne, nofun, nofun, nofun, h.sane⟩
  · refine iff_of_false nofun fun ht => hstarting t ?_
    unfold RedisHealth.init at ht
    dsimp only at ht
    split at ht
    · exact (at_append_of_none rfl).mp ht
    · exact ht
  · refine iff_of_false nofun ?_
    rintro (hne | hne)
    · exact hne rfl
    · exact hne hnone
  · exact nomatch hnone.symm.trans hi

theorem Guarded.caller_step {t : Nat} {pc pc' : CallerPc} {s₁ : RedisHealth}
    (h : Guarded starter s) (hpc : s.callers[t]? = some pc) (hm : CallerMove s pc s₁ pc') :
    ∃ starter', Guarded starter' { s₁ with callers := s.callers.set t pc' } := by
  have hup : s.owner = .up := h.up hpc (by cases hm <;> simp)
  have hquiet : ∀ {q : Prop}, s.owner ≠ .up → q := fun hne => absurd hup hne
  -- a step that leaves the right where it is
  have keep : ∀ q : CallerPc, q.isStarting = pc.isStarting →
      Guarded starter { s with callers := s.callers.set t q } := fun q hq =>
    { h with owns := h.owns.keep hpc hq, quiet := hquiet }
  cases hm with
  | talk => exact ⟨starter, keep _ rfl⟩
  | miss => exact ⟨starter, keep _ rfl⟩
  | done => exact ⟨starter, keep _ rfl⟩
  | throw => exact ⟨starter, keep _ rfl⟩
  | leave why => exact ⟨starter, keep _ rfl⟩
  | skip free => exact ⟨starter, keep _ rfl⟩
  | lose up =>
    exact ⟨starter, { keep .losing rfl with }⟩
  | lost down =>
    exact ⟨starter, { keep .asking rfl with }⟩
  | count =>
    exact ⟨starter, { keep .asking rfl with }⟩
  | reset =>
    exact ⟨starter, { keep .spawning rfl with
      stop := fun _ => rfl
      stopped := fun hs => hquiet (by rw [hs]; simp) }⟩
  | win idle =>
    -- nobody has the right, and no thread is left
    have hno := mt (h.running hup).mpr (by rw [idle]; simp)
    rw [not_or, not_not, not_not] at hno
    obtain ⟨rfl, hnone⟩ := hno
    exact ⟨some t, { h with
      owns := h.owns.acquire hpc rfl
      free := fun _ => hnone
      running := fun _ => iff_of_true rfl (Or.inl (Option.some_ne_none t))
      quiet := hquiet
      down := fun hd => hquiet (by rw [hd]; simp) }⟩
  | join i handle =>
    have hmine : starter = some t := (h.owns t).mpr ⟨.clearing, hpc, rfl⟩
    rw [h.free (by rw [hmine]; simp)] at handle
    cases handle
  | spawn free =>
    have hover : ∀ (i : Nat) (q : ProbePc), s.probes[i]? = some q → q = .exited := by
      intro i q hi
      by_contra hne
      rw [h.only i q hi hne] at free
      cases free
    have hnew : ∀ {i : Nat} {q : ProbePc}, (s.probes ++ [ProbePc.top])[i]? = some q →
        q = .exited ∨ i = s.probes.length ∧ q = .top := by
      intro i q hi
      rcases Nat.lt_trichotomy i s.probes.length with hlt | rfl | hgt
      · rw [List.getElem?_append_left hlt] at hi
        exact Or.inl (hover i q hi)
      · rw [List.getElem?_concat_length] at hi
        exact Or.inr ⟨rfl, (Option.some.inj hi).symm⟩
      · rw [List.getElem?_eq_none (by simp; omega)] at hi
        cases hi
    have hmine : starter = some t := (h.owns t).mpr ⟨.spawning, hpc, rfl⟩
    have hrunning := (h.running hup).mpr (Or.inl (by rw [hmine]; simp))
    refine ⟨none, { h with
      owns := h.owns.release hpc rfl (by simp [CallerPc.isStarting])
      free := fun hne => absurd rfl hne
      running := fun _ => iff_of_true hrunning (Or.inr (Option.some_ne_none _))
      live := fun _ i q hi hq => ?_
      only := fun i q hq hne => ?_
      valid := fun i hi => ?_
      quiet := hquiet
      joined := ?_ }⟩
    · cases hi
      have hq : (s.probes ++ [ProbePc.top])[s.probes.length]? = some q := hq
      rw [List.getElem?_concat_length] at hq
      cases hq
      rfl
    · rcases hnew hq with hover | ⟨rfl, -⟩
      · exact absurd hover hne
      · rfl
    · cases hi
      exact ⟨.top, List.getElem?_concat_length⟩
    · rintro (hj | hj)
      · exact hquiet (by rw [show s.owner = _ from hj]; simp)
      · exact hquiet (by rw [show s.owner = _ from hj]; simp)
  | terminate i handle =>
    have hmine : starter = some t := (h.owns t).mpr ⟨.spawning, hpc, rfl⟩
    rw [h.free (by rw [hmine]; simp)] at handle
    cases handle

theorem Guarded.probe_step {i : Nat} {pc pc' : ProbePc} {s₁ : RedisHealth}
    (h : Guarded starter s) (hpc : s.probes[i]? = some pc) (hm : ProbeMove s pc s₁ pc') :
    Guarded starter { s₁ with probes := s.probes.set i pc' } := by
  have hmine : s.handle = some i := h.only i pc hpc (by cases hm <;> nofun)
  have hbusy : s.owner ≠ .joined ∧ s.owner ≠ .down := by
    rw [← not_or]
    intro hj
    exact nomatch (h.joined hj).symm.trans hmine
  have hvalid : ∀ (q : ProbePc) (j : Nat), s.handle = some j →
      ∃ r, (s.probes.set i q)[j]? = some r := by
    intro q j hj
    obtain rfl : i = j := Option.some.inj (hmine.symm.trans hj)
    exact ⟨q, getElem?_set_self hpc⟩
  have honly : ∀ (q : ProbePc) (j : Nat) (r : ProbePc), (s.probes.set i q)[j]? = some r →
      r ≠ .exited → s.handle = some j := by
    intro q j r hj hne
    by_cases hji : j = i
    · rw [hji]
      exact hmine
    · rw [getElem?_set_ne hji] at hj
      exact h.only j r hj hne
  have hlive : ∀ q : ProbePc, (s.owner = .up → q.runs = true) → s.owner = .up →
      ∀ (j : Nat) (r : ProbePc), s.handle = some j → (s.probes.set i q)[j]? = some r →
        r.runs = true := by
    intro q hq hup j r hj hr
    obtain rfl : i = j := Option.some.inj (hmine.symm.trans hj)
    rw [getElem?_set_self hpc] at hr
    cases hr
    exact hq hup
  have keep : ∀ q : ProbePc, (s.owner = .up → q.runs = true) →
      Guarded starter { s with probes := s.probes.set i q } := fun q hq =>
    { h with live := hlive q hq, only := honly q, valid := hvalid q }
  cases hm with
  | quit stop => exact keep _ fun hup => nomatch (h.stop hup).symm.trans stop
  | stop stop => exact keep _ fun hup => nomatch (h.stop hup).symm.trans stop
  | restore =>
    exact { keep .counting fun _ => rfl with }
  | count =>
    exact { keep .top fun _ => rfl with }
  | exit =>
    -- a thread leaves only in a shutdown
    have hnotup : s.owner ≠ .up := fun hup => nomatch h.live hup i .leaving hmine hpc
    exact { h with
      running := fun hup => absurd hup hnotup
      live := fun hup => absurd hup hnotup
      only := honly _
      valid := hvalid _
      down := fun _ => rfl }
  | _ => exact keep _ fun _ => rfl

theorem Guarded.owner_step (h : Guarded starter s) (hm : OwnerMove s s.owner s') :
    Guarded starter s' := by
  have hquiet := h.quiet
  have hjoined := h.joined
  generalize howner : s.owner = owner at hm hquiet hjoined
  cases hm with
  | stop quiet =>
    exact { h with
      running := nofun
      stop := nofun
      live := nofun
      quiet := fun _ => quiet
      stopped := fun _ => rfl
      joined := fun hj => by rcases hj with hj | hj <;> cases hj
      down := nofun }
  | skip free =>
    exact { h with
      running := nofun
      stop := nofun
      live := nofun
      quiet := fun _ => hquiet nofun
      stopped := nofun
      joined := fun _ => free
      down := nofun }
  | join i handle exited =>
    have honly : ∀ (j : Nat) (r : ProbePc), s.probes[j]? = some r → r ≠ .exited → none = some j := by
      intro j r hj hne
      obtain rfl : i = j := Option.some.inj (handle.symm.trans (h.only j r hj hne))
      rw [exited] at hj
      cases hj
      exact absurd rfl hne
    exact { h with
      free := fun _ => rfl
      running := nofun
      stop := nofun
      live := nofun
      only := honly
      valid := fun j hj => nomatch hj
      quiet := fun _ => hquiet nofun
      stopped := nofun
      joined := fun _ => rfl
      down := nofun }
  | done =>
    exact { h with
      running := nofun
      stop := nofun
      live := nofun
      quiet := fun _ => hquiet nofun
      stopped := nofun
      joined := fun _ => hjoined (Or.inl rfl)
      down := fun _ => rfl }

theorem Guarded.step {l : RedisLabel} (h : Guarded starter s) (hs : s.step l = some s') :
    ∃ starter', Guarded starter' s' := by
  rcases redisStep_cases hs with ⟨enabled, client, ping, -, hdown, rfl⟩ | ⟨-, hup, rfl⟩ |
    ⟨t, ok, pc, s₁, pc', -, hpc, hm, rfl⟩ | ⟨i, ok, pc, s₁, pc', -, hpc, hm, rfl⟩ | ⟨-, hm⟩
  · exact ⟨none, h.init hdown enabled client ping⟩
  · have hnone : CallerPc.isStarting (if s.enabled then .entered else .returned) = none := by
      split <;> rfl
    exact ⟨starter, { h with
      owns := h.owns.spawn hnone
      quiet := fun hne => absurd hup hne }⟩
  · exact h.caller_step hpc hm
  · exact ⟨starter, h.probe_step hpc hm⟩
  · exact ⟨starter, h.owner_step hm⟩

/-! ## Outages -/

/-- An outage has a probe, or a caller on its way to start one. -/
def Watched (s : RedisHealth) : Prop :=
  s.owner = .up → s.enabled = true → s.client = true → s.available = false →
    s.handle ≠ none ∨ ∃ t, At CallerPc.isComing s.callers t ()

theorem isStarting_isComing {pc : CallerPc} (h : pc.isStarting = some ()) :
    pc.isComing = some () := by
  cases pc with
  | clearing => rfl
  | resetting => rfl
  | spawning => rfl
  | _ => cases h

theorem Watched.caller_step {t : Nat} {pc pc' : CallerPc} {s₁ : RedisHealth} (h : Watched s)
    (hg : Guarded starter s) (hpc : s.callers[t]? = some pc) (hm : CallerMove s pc s₁ pc') :
    Watched { s₁ with callers := s.callers.set t pc' } := by
  -- the caller itself is on its way
  have coming : ∀ (s₂ : RedisHealth) (q : CallerPc), q.isComing = some () →
      Watched { s₂ with callers := s.callers.set t q } := fun s₂ q hq _ _ _ _ =>
    Or.inr ⟨t, (at_set_self hpc).mpr hq⟩
  -- the others still are
  have keep : ∀ q : CallerPc, pc.isComing = none → Watched { s with callers := s.callers.set t q } := by
    intro q hnone hup hen hcl hav
    rcases h hup hen hcl hav with hhandle | ⟨u, hu⟩
    · exact Or.inl hhandle
    · refine Or.inr ⟨u, (at_set_ne ?_).mpr hu⟩
      rintro rfl
      rw [at_here hpc, hnone] at hu
      cases hu
  cases hm with
  | talk => exact keep _ rfl
  | done => exact keep _ rfl
  | throw => exact keep _ rfl
  | leave why =>
    intro hup hen hcl hav
    rcases why with hdis | hrunning
    · exact nomatch hdis.symm.trans hen
    · rcases (hg.running hup).mp hrunning with hstarter | hhandle
      · -- somebody else is starting it
        obtain ⟨u, rfl⟩ := Option.ne_none_iff_exists'.mp hstarter
        have hu := (hg.owns u).mp rfl
        have hne : u ≠ t := by
          rintro rfl
          exact nomatch (at_here hpc).mp hu
        obtain ⟨q, hq, hstarting⟩ := hu
        exact Or.inr ⟨u, (at_set_ne hne).mpr ⟨q, hq, isStarting_isComing hstarting⟩⟩
      · exact Or.inl hhandle
  | spawn free => exact fun _ _ _ _ => Or.inl nofun
  | terminate i handle => exact fun _ _ _ _ => Or.inl (by rw [handle]; nofun)
  | _ => exact coming _ _ rfl

theorem Watched.step {l : RedisLabel} (h : Watched s) (hg : Guarded starter s)
    (hs : s.step l = some s') : Watched s' := by
  rcases redisStep_cases hs with ⟨enabled, client, ping, -, hdown, rfl⟩ | ⟨-, hup, rfl⟩ |
    ⟨t, ok, pc, s₁, pc', -, hpc, hm, rfl⟩ | ⟨i, ok, pc, s₁, pc', -, hpc, hm, rfl⟩ | ⟨-, hm⟩
  · -- the ping of `init` has failed
    intro _ hen hcl hav
    have hno : ping = false := by
      have hen : enabled = true := hen
      have hcl : (enabled && client) = true := hcl
      have hav : (enabled && client && ping) = false := hav
      simpa [hcl] using hav
    refine Or.inr ⟨s.callers.length, .asking, ?_, rfl⟩
    have hcl : (enabled && client) = true := hcl
    simp [RedisHealth.init, hcl, hno]
  · intro hup hen hcl hav
    exact (h hup hen hcl hav).imp_right fun ⟨t, pc, hpc, hcoming⟩ =>
      ⟨t, pc, by rw [List.getElem?_append_left (lt_of_getElem? hpc)]; exact hpc, hcoming⟩
  · exact h.caller_step hg hpc hm
  · cases hm with
    | restore => exact fun _ _ _ hav => nomatch hav
    | _ => exact h
  · generalize s.owner = owner at hm
    cases hm with
    | _ => exact nofun

/-- What the counters have to do with `redis_available_`. -/
structure Balanced (s : RedisHealth) : Prop where
  unseen : ∀ (i : Nat) (pc : ProbePc), s.probes[i]? = some pc → pc.hopes = true → s.available = false
  eq : s.markedDown + count CallerPc.isLosing s.callers () + s.dropped + s.available.toNat =
    s.recovered + count ProbePc.isCounting s.probes () + s.booted

theorem Balanced.start : Balanced {} := ⟨fun _ _ h => (nomatch h), rfl⟩

theorem Balanced.caller_step {t : Nat} {pc pc' : CallerPc} {s₁ : RedisHealth} (h : Balanced s)
    (hpc : s.callers[t]? = some pc) (hm : CallerMove s pc s₁ pc') :
    Balanced { s₁ with callers := s.callers.set t pc' } := by
  have heq := h.eq
  have hset := count_set (f := CallerPc.isLosing) (x := ()) (q := pc') hpc
  cases hm with
  | lose up =>
    refine ⟨fun _ _ _ _ => rfl, ?_⟩
    simp only [up, CallerPc.isLosing, if_true, reduceCtorEq, if_false, Bool.toNat_true,
      Bool.toNat_false] at heq hset ⊢
    omega
  | lost down =>
    refine ⟨fun _ _ _ _ => rfl, ?_⟩
    simp only [down, CallerPc.isLosing, reduceCtorEq, if_false, Bool.toNat_false] at heq hset ⊢
    omega
  | count =>
    refine ⟨h.unseen, ?_⟩
    simp only [CallerPc.isLosing, if_true, reduceCtorEq, if_false] at hset ⊢
    omega
  | spawn free =>
    refine ⟨fun i q hq hhopes => ?_, ?_⟩
    · rcases Nat.lt_or_ge i s.probes.length with hlt | hge
      · rw [List.getElem?_append_left hlt] at hq
        exact h.unseen i q hq hhopes
      · rw [List.getElem?_append_right hge] at hq
        obtain rfl := List.mem_singleton.mp (List.mem_of_getElem? hq)
        cases hhopes
    · have happend : count ProbePc.isCounting (s.probes ++ [.top]) () =
          count ProbePc.isCounting s.probes () := count_append_of_none rfl
      simp only [CallerPc.isLosing, reduceCtorEq, if_false] at hset
      simp only [happend]
      omega
  | _ =>
    refine ⟨h.unseen, ?_⟩
    simp only [CallerPc.isLosing, reduceCtorEq, if_false] at hset ⊢
    omega

theorem Balanced.probe_step {i : Nat} {pc pc' : ProbePc} {s₁ : RedisHealth} (h : Balanced s)
    (hg : Guarded starter s) (hpc : s.probes[i]? = some pc) (hm : ProbeMove s pc s₁ pc') :
    Balanced { s₁ with probes := s.probes.set i pc' } := by
  have heq := h.eq
  have hset := count_set (f := ProbePc.isCounting) (x := ()) (q := pc') hpc
  have hmine : s.handle = some i := hg.only i pc hpc (by cases hm <;> nofun)
  -- there is no other thread that hopes
  have unseen : ∀ q : ProbePc, (q.hopes = true → s.available = false) →
      ∀ (j : Nat) (r : ProbePc), (s.probes.set i q)[j]? = some r → r.hopes = true →
        j = i ∧ q.hopes = true ∧ s.available = false := by
    intro q hq j r hj hr
    by_cases hji : j = i
    · subst hji
      rw [getElem?_set_self hpc] at hj
      cases hj
      exact ⟨rfl, hr, hq hr⟩
    · rw [getElem?_set_ne hji] at hj
      have hother := hg.only j r hj (by rintro rfl; cases hr)
      exact absurd (Option.some.inj (hother.symm.trans hmine)) hji
  have hhere := h.unseen i pc hpc
  cases hm with
  | restore =>
    have hdown := hhere rfl
    refine ⟨fun j r hj hr => (nomatch (unseen .counting nofun j r hj hr).2.1), ?_⟩
    simp only [hdown, ProbePc.isCounting, if_true, reduceCtorEq, if_false, Bool.toNat_true,
      Bool.toNat_false] at heq hset ⊢
    omega
  | count =>
    refine ⟨fun j r hj hr => (unseen .top nofun j r hj hr).2.2, ?_⟩
    simp only [ProbePc.isCounting, if_true, reduceCtorEq, if_false] at hset ⊢
    omega
  | fetch down =>
    refine ⟨fun j r hj hr => down, ?_⟩
    simp only [ProbePc.isCounting, reduceCtorEq, if_false] at hset ⊢
    omega
  | ping =>
    refine ⟨fun j r hj hr => hhere rfl, ?_⟩
    simp only [ProbePc.isCounting, reduceCtorEq, if_false] at hset ⊢
    omega
  | answer =>
    refine ⟨fun j r hj hr => hhere rfl, ?_⟩
    simp only [ProbePc.isCounting, reduceCtorEq, if_false] at hset ⊢
    omega
  | _ =>
    refine ⟨fun j r hj hr => (unseen _ (by intro hq; cases hq) j r hj hr).2.2, ?_⟩
    simp only [ProbePc.isCounting, reduceCtorEq, if_false] at hset ⊢
    omega

theorem Balanced.step {l : RedisLabel} (h : Balanced s) (hg : Guarded starter s)
    (hs : s.step l = some s') : Balanced s' := by
  have heq := h.eq
  rcases redisStep_cases hs with ⟨enabled, client, ping, -, hdown, rfl⟩ | ⟨-, hup, rfl⟩ |
    ⟨t, ok, pc, s₁, pc', -, hpc, hm, rfl⟩ | ⟨i, ok, pc, s₁, pc', -, hpc, hm, rfl⟩ | ⟨-, hm⟩
  · have hnone : s.handle = none := hg.joined (Or.inr hdown)
    refine ⟨fun i pc hpc hhopes => ?_, ?_⟩
    · have := hg.only i pc hpc (by rintro rfl; cases hhopes)
      exact nomatch hnone.symm.trans this
    · have hlosing : count CallerPc.isLosing (s.init enabled client ping).callers () =
          count CallerPc.isLosing s.callers () := by
        unfold RedisHealth.init
        dsimp only
        split
        · exact count_append_of_none rfl
        · rfl
      rw [hlosing]
      simp only [RedisHealth.init]
      omega
  · refine ⟨h.unseen, ?_⟩
    have hnone : CallerPc.isLosing (if s.enabled then .entered else .returned) = none := by
      split <;> rfl
    simp only [count_append_of_none hnone]
    exact heq
  · exact h.caller_step hpc hm
  · exact h.probe_step hg hpc hm
  · generalize s.owner = owner at hm
    cases hm with
    | _ => exact ⟨h.unseen, heq⟩

/-! ## Whole runs -/

/-- All that is kept, together. -/
structure RedisInv (s : RedisHealth) : Prop where
  guarded : ∃ starter, Guarded starter s
  watched : Watched s
  balanced : Balanced s

theorem RedisInv.start : RedisInv {} := ⟨⟨none, Guarded.start⟩, nofun, Balanced.start⟩

theorem RedisInv.step {l : RedisLabel} (h : RedisInv s) (hs : s.step l = some s') : RedisInv s' := by
  obtain ⟨⟨starter, hg⟩, hw, hb⟩ := h
  exact ⟨hg.step hs, hw.step hg hs, hb.step hg hs⟩

theorem RedisInv.of_run {ls : List RedisLabel} (hr : Machine.run RedisHealth.step {} ls = some s) :
    RedisInv s :=
  Machine.run_preserves _ (fun _ _ _ h hs => h.step hs) RedisInv.start hr

end ShortUrl
end UrlShortener
