import Mathlib.Data.Multiset.Basic
import Mathlib.Data.Multiset.ZeroCons
import Mathlib.Data.Multiset.Filter
import UrlShortener.Base.Bytes
import UrlShortener.Base.Machine
import UrlShortener.Base.Threads
import UrlShortener.Log.BlockQueue

/-!
# UrlShortener.Log.WriteLog

`Log` after `init`: any number of threads in `write_log`, and the thread of `async_write_log`. The
sections under `m_mutex` and the operations of the queue are steps. `m_buf` is written and copied
within one section, so a call has its line to itself from there on.

`write_log` asks the queue whether it is full, and pushes in a second operation whose answer it does
not look at. `no_line_lost_iff`: a run loses lines exactly when such a push finds the queue full.
-/

namespace UrlShortener
namespace Log

structure Config where
  /-- `m_is_async`. -/
  isAsync : Bool
  splitLines : Int
  splitLines_ne : splitLines ≠ 0
  maxQueueSize : Int
  maxQueueSize_pos : 1 ≤ maxQueueSize

/-- A line and the call that wrote it, which nothing in the program reads. -/
structure Line where
  call : Nat
  text : Bytes
deriving DecidableEq

/-- Where a call of `write_log` stands; `text` is its line, `day` the day it was called on. -/
inductive Pc where
  /-- Before the section that may open another file. -/
  | entered (text : Bytes) (day : Int)
  /-- Has its line in `log_str`. -/
  | formatted (text : Bytes)
  /-- Has seen that the queue is not full. -/
  | pushing (text : Bytes)
  /-- Writes the line itself. -/
  | writing (text : Bytes)
  | returned (text : Bytes)
deriving DecidableEq

structure State where
  queue : BlockQueue Line
  /-- `m_fp` is not NULL. -/
  fp : Bool
  today : Int
  count : Int := 0
  calls : List Pc := []
  /-- What the thread of `async_write_log` has popped and not yet written. -/
  hand : Option Line := none
  /-- What `fputs` has written, over all files. -/
  file : List Line := []
  /-- What was to be written while `m_fp` was NULL. -/
  unwritten : List Line := []

inductive Label where
  | writeLog (text : Bytes) (day : Int)
  /-- The first section of call `t`; `opened` is whether `fopen` would succeed. -/
  | rotate (t : Nat) (opened : Bool)
  /-- `m_is_async && !m_log_queue->full()`. -/
  | choose (t : Nat)
  /-- `m_log_queue->push(log_str)`. -/
  | push (t : Nat)
  /-- `fputs` in `write_log`. -/
  | write (t : Nat)
  /-- `m_log_queue->pop(single_log)`. -/
  | pop
  /-- `fputs` in `async_write_log`. -/
  | flushWrite
deriving DecidableEq

namespace State

def go (s : State) (t : Nat) (p : Pc) : State := { s with calls := s.calls.set t p }

/-- `if (m_fp != NULL) fputs(..)`. -/
def fputs (s : State) (line : Line) : State :=
  if s.fp then { s with file := s.file ++ [line] } else { s with unwritten := s.unwritten ++ [line] }

/-- The first section of `write_log`. -/
def rotate (cfg : Config) (s : State) (day : Int) (opened : Bool) : State :=
  let count := s.count + 1
  if s.fp = false ∨ s.today ≠ day ∨ count.tmod cfg.splitLines = 0 then
    if s.today ≠ day then { s with today := day, count := 0, fp := opened }
    else { s with count, fp := opened }
  else { s with count }

def step (cfg : Config) (s : State) : Label → Option State
  | .writeLog text day => some { s with calls := s.calls ++ [.entered text day] }
  | .rotate t opened =>
    match s.calls[t]? with
    | some (.entered text day) => some ((s.rotate cfg day opened).go t (.formatted text))
    | _ => none
  | .choose t =>
    match s.calls[t]? with
    | some (.formatted text) =>
      some (s.go t (if cfg.isAsync && !s.queue.full then .pushing text else .writing text))
    | _ => none
  | .push t =>
    match s.calls[t]? with
    | some (.pushing text) =>
      (s.queue.push ⟨t, text⟩).map fun r => { s with queue := r.2 }.go t (.returned text)
    | _ => none
  | .write t =>
    match s.calls[t]? with
    | some (.writing text) => some ((s.fputs ⟨t, text⟩).go t (.returned text))
    | _ => none
  | .pop =>
    match s.hand, s.queue.pop with
    | none, some (.popped (some line), queue) => some { s with queue, hand := some line }
    | _, _ => none
  | .flushWrite => s.hand.map fun line => { s.fputs line with hand := none }

end State

/-- `init` with an open file. -/
def init (cfg : Config) (today : Int) : State where
  queue :=
    { array := List.replicate cfg.maxQueueSize.toNat ⟨0, []⟩, maxSize := cfg.maxQueueSize }
  fp := true
  today := today

/-! ## The property and its condition -/

/-- What the queue holds, oldest first. -/
def items (q : BlockQueue Line) : List Line :=
  (Ring.window q.array (q.front + 1).toNat q.size.toNat).filterMap id

/-- Where lines are: in the queue, popped, written, or met by a NULL `m_fp`. -/
def State.places (s : State) : Multiset Line :=
  (items s.queue : Multiset Line) + (s.hand.toList : Multiset Line) + (s.file : Multiset Line) +
    (s.unwritten : Multiset Line)

/-- The line of a call that has returned. -/
def Pc.wrote (t : Nat) : Pc → Multiset Line
  | .returned text => {⟨t, text⟩}
  | _ => 0

/-- Of each call that has returned its line is in one place, once; of the others no line is. -/
def NoLineLost (s : State) : Prop :=
  ∀ t p, s.calls[t]? = some p → (s.places.filter fun line => line.call = t) = p.wrote t

/-- The step is no push into a full queue. -/
def Room (s : State) : Label → Prop
  | .push _ => s.queue.full = false
  | _ => True

instance (s : State) : ∀ l, Decidable (Room s l)
  | .push _ => inferInstanceAs (Decidable (_ = _))
  | .writeLog _ _ => isTrue trivial
  | .rotate _ _ => isTrue trivial
  | .choose _ => isTrue trivial
  | .write _ => isTrue trivial
  | .pop => isTrue trivial
  | .flushWrite => isTrue trivial

/-- Steps of the thread of `async_write_log` alone empty the queue. -/
def Drains (cfg : Config) (s : State) : Prop :=
  ∃ ls s', (∀ l ∈ ls, l = .pop ∨ l = .flushWrite) ∧ Machine.run (State.step cfg) s ls = some s' ∧
    items s'.queue = [] ∧ s'.hand = none ∧ s'.places = s.places ∧ s'.calls = s.calls

/-! ## What a step can do -/

/-- The ring is in order. -/
def Sound (s : State) : Prop := ∃ xs, s.queue.Holds xs

theorem items_holds {q : BlockQueue Line} {xs : List Line} (h : q.Holds xs) : items q = xs := by
  unfold items
  rw [h.size, Int.toNat_natCast, h.window, List.filterMap_map]
  exact List.filterMap_some

theorem init_holds (cfg : Config) (today : Int) : (init cfg today).queue.Holds [] := by
  obtain ⟨q, hcreate, -, hholds⟩ := BlockQueue.create_holds (⟨0, []⟩ : Line) cfg.maxQueueSize_pos
  have hpos := cfg.maxQueueSize_pos
  unfold BlockQueue.create at hcreate
  rw [if_neg (by omega)] at hcreate
  rw [← Option.some.inj hcreate] at hholds
  exact hholds

/-- A step, seen from the calls and the places. -/
inductive Step (s : State) (l : Label) (s' : State) : Prop
  | call {text : Bytes} {day : Int} (hcalls : s'.calls = s.calls ++ [.entered text day])
      (hplaces : s'.places = s.places) (hroom : Room s l)
  /-- A call goes on and does not return. -/
  | inside {t : Nat} {p q : Pc} (ht : s.calls[t]? = some p) (hp : p.wrote t = 0)
      (hq : q.wrote t = 0) (hcalls : s'.calls = s.calls.set t q) (hplaces : s'.places = s.places)
      (hroom : Room s l)
  | place {t : Nat} {p : Pc} {text : Bytes} (ht : s.calls[t]? = some p) (hp : p.wrote t = 0)
      (hcalls : s'.calls = s.calls.set t (.returned text))
      (hplaces : s'.places = ⟨t, text⟩ ::ₘ s.places) (hroom : Room s l)
  /-- A push is refused. -/
  | lose {t : Nat} {text : Bytes} (ht : s.calls[t]? = some (.pushing text))
      (hcalls : s'.calls = s.calls.set t (.returned text)) (hplaces : s'.places = s.places)
      (hfull : ¬ Room s l)
  | flush (hcalls : s'.calls = s.calls) (hplaces : s'.places = s.places) (hroom : Room s l)

variable {cfg : Config} {s s' : State}

theorem places_fputs (s : State) (line : Line) : (s.fputs line).places = line ::ₘ s.places := by
  unfold State.fputs State.places
  cases s.fp with
  | true =>
    show _ + _ + ((s.file ++ [line] : List Line) : Multiset Line) + _ = _
    rw [← Multiset.coe_add, Multiset.coe_singleton, ← Multiset.singleton_add]
    ac_rfl
  | false =>
    show _ + _ + _ + ((s.unwritten ++ [line] : List Line) : Multiset Line) = _
    rw [← Multiset.coe_add, Multiset.coe_singleton, ← Multiset.singleton_add]
    ac_rfl

theorem queue_fputs (s : State) (line : Line) : (s.fputs line).queue = s.queue := by
  unfold State.fputs
  split
  · rfl
  · rfl

theorem calls_fputs (s : State) (line : Line) : (s.fputs line).calls = s.calls := by
  unfold State.fputs
  split
  · rfl
  · rfl

theorem rotate_eq (cfg : Config) (s : State) (day : Int) (opened : Bool) : ∃ fp today count,
    s.rotate cfg day opened = { s with fp, today, count } := by
  unfold State.rotate
  simp only
  split
  · split
    · exact ⟨_, _, _, rfl⟩
    · exact ⟨_, _, _, rfl⟩
  · exact ⟨_, _, _, rfl⟩

/-- A pop moves the oldest line into the hand. -/
theorem pop_places {x : Line} {xs : List Line} (hhand : s.hand = none)
    (hxs : s.queue.Holds (x :: xs)) :
    ∃ q', s.queue.pop = some (.popped (some x), q') ∧ q'.Holds xs ∧
      ({ s with queue := q', hand := some x } : State).places = s.places := by
  have hne : ¬ s.queue.size ≤ 0 := fun hle => List.cons_ne_nil x xs (hxs.empty_iff.mp hle)
  obtain ⟨q', htake, -, hholds⟩ := hxs.take_cons
  refine ⟨q', by rw [BlockQueue.pop, if_neg hne, htake], hholds, ?_⟩
  show (items q' : Multiset Line) + (([x] : List Line) : Multiset Line) + _ + _ = _
  rw [items_holds hholds, State.places, items_holds hxs, hhand, ← Multiset.cons_coe x xs,
    Multiset.coe_singleton, ← Multiset.singleton_add]
  show _ = ({x} : Multiset Line) + (xs : Multiset Line) + 0 + _ + _
  rw [add_zero]
  ac_rfl

theorem flush_places {line : Line} (hhand : s.hand = some line) :
    ({ s.fputs line with hand := none } : State).places = s.places := by
  have hsame : { s.fputs line with hand := none } = State.fputs { s with hand := none } line := by
    unfold State.fputs
    split
    · rfl
    · rfl
  rw [hsame, places_fputs, ← Multiset.singleton_add]
  unfold State.places
  rw [hhand]
  show ({line} : Multiset Line) + (_ + 0 + _ + _) = _ + ({line} : Multiset Line) + _ + _
  rw [add_zero]
  ac_rfl

theorem step_cases {l : Label} (hsound : Sound s) (h : s.step cfg l = some s') :
    Step s l s' ∧ Sound s' := by
  obtain ⟨xs, hxs⟩ := hsound
  cases l with
  | writeLog text day =>
    cases h
    exact ⟨.call rfl rfl trivial, xs, hxs⟩
  | rotate t opened =>
    simp only [State.step] at h
    split at h
    · rename_i text day ht
      cases h
      obtain ⟨fp, today, count, hrotate⟩ := rotate_eq cfg s day opened
      rw [hrotate]
      exact ⟨.inside ht rfl rfl rfl rfl trivial, xs, hxs⟩
    · cases h
  | choose t =>
    simp only [State.step] at h
    split at h
    · rename_i text ht
      cases h
      refine ⟨.inside ht rfl ?_ rfl rfl trivial, xs, hxs⟩
      split
      · rfl
      · rfl
    · cases h
  | push t =>
    simp only [State.step] at h
    split at h
    · rename_i text ht
      by_cases hfull : xs.length = s.queue.array.length
      · rw [hxs.push_full hfull] at h
        cases h
        refine ⟨.lose ht rfl rfl ?_, xs, hxs⟩
        simp only [Room, BlockQueue.full, decide_eq_false_iff_not, not_not]
        exact hxs.full_iff.mpr hfull
      · obtain ⟨q', hpush, -, hholds⟩ := hxs.push_room hfull ⟨t, text⟩
        rw [hpush] at h
        cases h
        refine ⟨.place ht rfl rfl ?_ ?_, _, hholds⟩
        · show (items q' : Multiset Line) + _ + _ + _ = _
          rw [items_holds hholds, ← Multiset.coe_add, Multiset.coe_singleton, State.places,
            items_holds hxs, ← Multiset.singleton_add]
          ac_rfl
        · simp only [Room, BlockQueue.full, decide_eq_false_iff_not]
          exact fun hle => hfull (hxs.full_iff.mp hle)
    · cases h
  | write t =>
    simp only [State.step] at h
    split at h
    · rename_i text ht
      cases h
      refine ⟨.place ht rfl ?_ (places_fputs s _) trivial, xs, ?_⟩
      · show (s.fputs _).calls.set t _ = _
        rw [calls_fputs]
      · show (s.fputs _).queue.Holds xs
        rw [queue_fputs]
        exact hxs
    · cases h
  | pop =>
    simp only [State.step] at h
    split at h
    · rename_i line q' hhand hpop
      cases h
      cases xs with
      | nil =>
        rw [BlockQueue.pop, if_pos (hxs.empty_iff.mpr rfl)] at hpop
        cases hpop
      | cons x xs =>
        obtain ⟨q'', hpop', hholds, hplaces⟩ := pop_places hhand hxs
        rw [hpop] at hpop'
        cases hpop'
        exact ⟨.flush rfl hplaces trivial, xs, hholds⟩
    · cases h
  | flushWrite =>
    simp only [State.step] at h
    obtain ⟨line, hhand, rfl⟩ := Option.map_eq_some_iff.mp h
    refine ⟨.flush (calls_fputs s line) (flush_places hhand) trivial, xs, ?_⟩
    show (s.fputs line).queue.Holds xs
    rw [queue_fputs]
    exact hxs

/-! ## Lines that are kept -/

theorem filter_own (t : Nat) (text : Bytes) (m : Multiset Line) :
    ((⟨t, text⟩ ::ₘ m).filter fun line => line.call = t) =
      ⟨t, text⟩ ::ₘ m.filter fun line => line.call = t :=
  Multiset.filter_cons_of_pos (p := fun line : Line => line.call = t) m rfl

theorem filter_other {t u : Nat} {text : Bytes} (h : t ≠ u) (m : Multiset Line) :
    ((⟨t, text⟩ ::ₘ m).filter fun line => line.call = u) = m.filter fun line => line.call = u :=
  Multiset.filter_cons_of_neg _ h

/-- No line of a call that has not begun is anywhere. -/
def Unborn (s : State) : Prop :=
  ∀ t, s.calls.length ≤ t → (s.places.filter fun line => line.call = t) = 0

theorem Step.unborn {l : Label} (h : Unborn s) (hs : Step s l s') : Unborn s' := by
  intro u hu
  cases hs with
  | call hcalls hplaces hroom =>
    rw [hcalls, List.length_append] at hu
    rw [hplaces]
    exact h u (Nat.le_of_succ_le hu)
  | inside ht hp hq hcalls hplaces hroom =>
    rw [hcalls, List.length_set] at hu
    rw [hplaces]
    exact h u hu
  | place ht hp hcalls hplaces hroom =>
    rw [hcalls, List.length_set] at hu
    have hne := Nat.ne_of_lt (Nat.lt_of_lt_of_le (Threads.lt_of_getElem? ht) hu)
    rw [hplaces, filter_other hne]
    exact h u hu
  | lose ht hcalls hplaces hfull =>
    rw [hcalls, List.length_set] at hu
    rw [hplaces]
    exact h u hu
  | flush hcalls hplaces hroom =>
    rw [hcalls] at hu
    rw [hplaces]
    exact h u hu

theorem Step.kept {l : Label} (h : NoLineLost s) (hunborn : Unborn s) (hroom : Room s l)
    (hs : Step s l s') : NoLineLost s' := by
  intro u p hu
  cases hs with
  | call hcalls hplaces hroom =>
    rw [hplaces]
    rw [hcalls] at hu
    obtain hlt | hge := Nat.lt_or_ge u s.calls.length
    · rw [List.getElem?_append_left hlt] at hu
      exact h u p hu
    · have hp : p ∈ [Pc.entered _ _] :=
        List.mem_of_getElem? (by rwa [List.getElem?_append_right hge] at hu)
      rw [List.mem_singleton.mp hp]
      exact hunborn u hge
  | @inside t p' q ht hp hq hcalls hplaces hroom =>
    rw [hplaces]
    rw [hcalls] at hu
    by_cases hut : u = t
    · subst hut
      rw [Threads.getElem?_set_self ht] at hu
      cases hu
      rw [h u p' ht, hp, hq]
    · rw [Threads.getElem?_set_ne hut] at hu
      exact h u p hu
  | @place t p' text ht hp hcalls hplaces hroom =>
    rw [hplaces]
    rw [hcalls] at hu
    by_cases hut : u = t
    · subst hut
      rw [Threads.getElem?_set_self ht] at hu
      cases hu
      have hnone := h u p' ht
      rw [hp] at hnone
      rw [filter_own, hnone]
      rfl
    · rw [Threads.getElem?_set_ne hut] at hu
      rw [filter_other (Ne.symm hut)]
      exact h u p hu
  | lose ht hcalls hplaces hfull => exact absurd hroom hfull
  | flush hcalls hplaces hroom =>
    rw [hplaces]
    rw [hcalls] at hu
    exact h u p hu

/-! ## Lines that are lost -/

/-- Call `t` has returned and its line is nowhere. -/
def Lost (t : Nat) (s : State) : Prop :=
  (∃ text, s.calls[t]? = some (.returned text)) ∧
    (s.places.filter fun line => line.call = t) = 0

theorem Lost.not_kept {t : Nat} (h : Lost t s) : ¬ NoLineLost s := by
  intro hkept
  obtain ⟨⟨text, ht⟩, hnone⟩ := h
  have hone := hkept t _ ht
  rw [hnone] at hone
  exact absurd hone.symm (Multiset.singleton_ne_zero _)

/-- What is lost stays lost. -/
theorem Step.lost {l : Label} {t : Nat} (h : Lost t s) (hs : Step s l s') : Lost t s' := by
  obtain ⟨⟨text, ht⟩, hnone⟩ := h
  -- the steps of a call are those of a call that has not returned
  have other : ∀ {u : Nat} {p : Pc}, s.calls[u]? = some p → p.wrote u = 0 → u ≠ t := by
    rintro u p hu hp rfl
    rw [ht] at hu
    cases hu
    exact absurd hp (Multiset.singleton_ne_zero _)
  cases hs with
  | call hcalls hplaces hroom =>
    refine ⟨⟨text, ?_⟩, hplaces ▸ hnone⟩
    rw [hcalls, List.getElem?_append_left (Threads.lt_of_getElem? ht)]
    exact ht
  | inside hu hp hq hcalls hplaces hroom =>
    refine ⟨⟨text, ?_⟩, hplaces ▸ hnone⟩
    rw [hcalls, Threads.getElem?_set_ne (Ne.symm (other hu hp))]
    exact ht
  | place hu hp hcalls hplaces hroom =>
    refine ⟨⟨text, ?_⟩, ?_⟩
    · rw [hcalls, Threads.getElem?_set_ne (Ne.symm (other hu hp))]
      exact ht
    · rw [hplaces, filter_other (other hu hp)]
      exact hnone
  | lose hu hcalls hplaces hfull =>
    refine ⟨⟨text, ?_⟩, hplaces ▸ hnone⟩
    rw [hcalls, Threads.getElem?_set_ne (Ne.symm (other hu rfl))]
    exact ht
  | flush hcalls hplaces hroom => exact ⟨⟨text, hcalls ▸ ht⟩, hplaces ▸ hnone⟩

theorem Lost.run {t : Nat} {ls : List Label} (h : Lost t s) (hsound : Sound s)
    (hr : Machine.run (State.step cfg) s ls = some s') : Lost t s' := by
  have hboth : Sound s' ∧ Lost t s' := by
    refine Machine.run_preserves (I := fun s => Sound s ∧ Lost t s) _ ?_ ⟨hsound, h⟩ hr
    rintro s l s' ⟨hsound, hlost⟩ hs
    obtain ⟨hstep, hsound'⟩ := step_cases hsound hs
    exact ⟨hsound', hstep.lost hlost⟩
  exact hboth.2

/-- A push into a full queue loses its line. -/
theorem Step.loses {l : Label} (h : NoLineLost s) (hroom : ¬ Room s l) (hs : Step s l s') :
    ∃ t, Lost t s' := by
  cases hs with
  | @lose t text ht hcalls hplaces hfull =>
    refine ⟨t, ⟨text, ?_⟩, ?_⟩
    · rw [hcalls]
      exact Threads.getElem?_set_self ht
    · rw [hplaces]
      exact h t _ ht
  | call hcalls hplaces hroom' => exact absurd hroom' hroom
  | inside ht hp hq hcalls hplaces hroom' => exact absurd hroom' hroom
  | place ht hp hcalls hplaces hroom' => exact absurd hroom' hroom
  | flush hcalls hplaces hroom' => exact absurd hroom' hroom

/-! ## The thread that writes -/

theorem init_sound (cfg : Config) (today : Int) : Sound (init cfg today) :=
  ⟨[], init_holds cfg today⟩

theorem init_places (cfg : Config) (today : Int) : (init cfg today).places = 0 := by
  show (items (init cfg today).queue : Multiset Line) + 0 + 0 + 0 = 0
  rw [items_holds (init_holds cfg today)]
  rfl

/-- The hand is empty: a pop and a write for every line in the queue. -/
theorem drains_items (cfg : Config) {xs : List Line} (hhand : s.hand = none)
    (hxs : s.queue.Holds xs) : Drains cfg s := by
  induction xs generalizing s with
  | nil => exact ⟨[], s, by simp, rfl, items_holds hxs, hhand, rfl, rfl⟩
  | cons x xs ih =>
    obtain ⟨q', hpop, hholds, hplaces⟩ := pop_places hhand hxs
    let mid : State := { s with queue := q', hand := some x }
    let last : State := { mid.fputs x with hand := none }
    have h1 : s.step cfg .pop = some mid := by
      simp only [State.step, hhand, hpop]
      rfl
    have h2 : mid.step cfg .flushWrite = some last := rfl
    have hqueue : last.queue.Holds xs := by
      show (mid.fputs x).queue.Holds xs
      rw [queue_fputs]
      exact hholds
    obtain ⟨ls, s', hls, hr, hitems, hhand', hkept, hcalls⟩ := ih rfl hqueue
    refine ⟨.pop :: .flushWrite :: ls, s', ?_, ?_, hitems, hhand', ?_, ?_⟩
    · intro l hl
      rcases List.mem_cons.mp hl with rfl | hl
      · exact Or.inl rfl
      · rcases List.mem_cons.mp hl with rfl | hl
        · exact Or.inr rfl
        · exact hls l hl
    · rw [Machine.run, h1, Option.bind_some, Machine.run, h2, Option.bind_some]
      exact hr
    · rw [hkept, ← hplaces]
      exact flush_places rfl
    · rw [hcalls]
      exact calls_fputs mid x

theorem drains (hsound : Sound s) : Drains cfg s := by
  obtain ⟨xs, hxs⟩ := hsound
  cases hhand : s.hand with
  | none => exact drains_items cfg hhand hxs
  | some line =>
    have hqueue : ({ s.fputs line with hand := none } : State).queue.Holds xs := by
      show (s.fputs line).queue.Holds xs
      rw [queue_fputs]
      exact hxs
    obtain ⟨ls, s', hls, hr, hitems, hhand', hkept, hcalls⟩ := drains_items cfg rfl hqueue
    refine ⟨.flushWrite :: ls, s', ?_, ?_, hitems, hhand', ?_, ?_⟩
    · intro l hl
      rcases List.mem_cons.mp hl with rfl | hl
      · exact Or.inr rfl
      · exact hls l hl
    · rw [Machine.run]
      simp only [State.step, hhand, Option.map_some, Option.bind_some]
      exact hr
    · rw [hkept]
      exact flush_places hhand
    · rw [hcalls]
      exact calls_fputs s line

/-- The file is open and no line has met a NULL `m_fp`. -/
def Open (s : State) : Prop := s.fp = true ∧ s.unwritten = []

theorem open_fputs (line : Line) (h : Open s) : Open (s.fputs line) := by
  unfold State.fputs
  rw [if_pos h.1]
  exact h

theorem open_rotate (day : Int) (h : Open s) : Open (s.rotate cfg day true) := by
  unfold State.rotate
  simp only
  split
  · split
    · exact ⟨rfl, h.2⟩
    · exact ⟨rfl, h.2⟩
  · exact h

theorem step_open {l : Label} (hl : ∀ t, l ≠ .rotate t false) (h : Open s)
    (hs : s.step cfg l = some s') : Open s' := by
  cases l with
  | writeLog text day =>
    cases hs
    exact h
  | rotate t opened =>
    cases opened with
    | false => exact absurd rfl (hl t)
    | true =>
      simp only [State.step] at hs
      split at hs
      · cases hs
        exact open_rotate _ h
      · cases hs
  | choose t =>
    simp only [State.step] at hs
    split at hs
    · cases hs
      exact h
    · cases hs
  | push t =>
    simp only [State.step] at hs
    split at hs
    · obtain ⟨r, -, rfl⟩ := Option.map_eq_some_iff.mp hs
      exact h
    · cases hs
  | write t =>
    simp only [State.step] at hs
    split at hs
    · cases hs
      exact open_fputs _ h
    · cases hs
  | pop =>
    simp only [State.step] at hs
    split at hs
    · cases hs
      exact h
    · cases hs
  | flushWrite =>
    simp only [State.step] at hs
    obtain ⟨line, -, rfl⟩ := Option.map_eq_some_iff.mp hs
    exact open_fputs line h

/-! ## Runs -/

theorem kept_iff {ls : List Label} (hsound : Sound s) (hunborn : Unborn s) (h : NoLineLost s)
    (hr : Machine.run (State.step cfg) s ls = some s') :
    NoLineLost s' ↔ Machine.Along (State.step cfg) Room s ls := by
  induction ls generalizing s with
  | nil =>
    cases hr
    exact ⟨fun _ => trivial, fun _ => h⟩
  | cons l ls ih =>
    obtain ⟨s₁, h1, h2⟩ := Option.bind_eq_some_iff.mp hr
    obtain ⟨hstep, hsound₁⟩ := step_cases hsound h1
    by_cases hroom : Room s l
    · rw [ih hsound₁ (hstep.unborn hunborn) (hstep.kept h hunborn hroom) h2]
      constructor
      · intro hrest
        refine ⟨hroom, fun s₂ hs₂ => ?_⟩
        rw [h1] at hs₂
        cases hs₂
        exact hrest
      · intro hall
        exact hall.2 s₁ h1
    · obtain ⟨t, hlost⟩ := hstep.loses h hroom
      constructor
      · intro hkept
        exact absurd hkept (hlost.run hsound₁ h2).not_kept
      · intro hall
        exact absurd hall.1 hroom

/-- **Lines kept.** After any run of any threads each returned call has its line in one place, once,
exactly if no push of the run found the queue full. While every `fopen` succeeds no line meets a
NULL `m_fp`, and the writing thread alone can always write what is queued. -/
theorem no_line_lost_iff (cfg : Config) (today : Int) {ls : List Label}
    (hr : Machine.run (State.step cfg) (init cfg today) ls = some s) :
    (NoLineLost s ↔ Machine.Along (State.step cfg) Room (init cfg today) ls) ∧
    ((∀ t, .rotate t false ∉ ls) → s.unwritten = []) ∧ Drains cfg s := by
  have hnone : ∀ (t : Nat) (p : Pc), (init cfg today).calls[t]? = some p → False := by
    intro t p ht
    cases ht
  have hunborn : Unborn (init cfg today) := by
    intro t _
    rw [init_places]
    rfl
  refine ⟨?_, ?_, ?_⟩
  · exact kept_iff (init_sound cfg today) hunborn (fun t p ht => (hnone t p ht).elim) hr
  · intro hopen
    have halong : Machine.Along (State.step cfg) (fun _ l => ∀ t, l ≠ .rotate t false)
        (init cfg today) ls :=
      Machine.along_of_forall _ fun l hl _ t heq => hopen t (heq ▸ hl)
    have hall : Open s :=
      Machine.run_invariant (State.step cfg) (fun _ _ _ h hl hs => step_open hl h hs)
        ⟨rfl, rfl⟩ halong hr
    exact hall.2
  · exact drains (Machine.run_preserves (I := Sound) (State.step cfg)
      (fun _ _ _ h hs => (step_cases h hs).2) (init_sound cfg today) hr)

/-- A queue with room for one line. -/
def narrow : Config where
  isAsync := true
  splitLines := 5000000
  splitLines_ne := by decide
  maxQueueSize := 1
  maxQueueSize_pos := by decide

/-- Two calls, of which the second asks after the first has pushed and writes its line itself. -/
def inTurn : List Label :=
  [.writeLog [97] 1, .writeLog [98] 1, .rotate 0 true, .rotate 1 true, .choose 0, .push 0, .choose 1,
    .write 1, .pop, .flushWrite]

theorem no_line_lost_iff_inTurn :
    ∃ s, Machine.run (State.step narrow) (init narrow 1) inTurn = some s ∧ NoLineLost s ∧
      s.unwritten = [] ∧ Drains narrow s := by
  obtain ⟨s, hr⟩ : ∃ s, Machine.run (State.step narrow) (init narrow 1) inTurn = some s := ⟨_, rfl⟩
  obtain ⟨hkept, hopen, hdrains⟩ := no_line_lost_iff narrow 1 hr
  exact ⟨s, hr, hkept.mpr (by decide), hopen (by simp [inTurn]), hdrains⟩

/-- Both calls see the free cell before either pushes. -/
def raced : List Label :=
  [.writeLog [97] 1, .writeLog [98] 1, .rotate 0 true, .rotate 1 true, .choose 0, .choose 1, .push 0,
    .push 1]

theorem line_lost_raced : ¬ ∀ cfg today ls s, cfg.isAsync = true →
    Machine.run (State.step cfg) (init cfg today) ls = some s → NoLineLost s := by
  intro h
  have hsecond := h narrow 1 raced _ rfl rfl 1 (.returned [98]) rfl
  exact absurd hsecond (by decide)

end Log
end UrlShortener
