import UrlShortener.Base.Ring

/-!
# UrlShortener.Log.BlockQueue

`block_queue`: a ring of `m_max_size` cells behind a lock. Each operation is one section under the
lock, and the two kinds of `pop` are two when they find the queue empty, with a wait between them
in which the lock is free. Any sequence of sections is a run of any number of threads.

`m_front` and `m_back` start at -1 and are moved before they are used. An operation that indexes the
array outside its bounds has no result (`none`); `block_queue_refines` says that this never happens,
and that every answer is that of a list of at most `m_max_size` elements.
-/

namespace UrlShortener
namespace Log

structure BlockQueue (α : Type) where
  array : List α
  maxSize : Int
  size : Int := 0
  front : Int := -1
  back : Int := -1

/-- The sections. `popWoken` and `popTimedWoken` go on after a wait; `woken` is what `wait` or
`timewait` returned. -/
inductive Op (α : Type) where
  | push (item : α)
  | pop
  | popWoken (woken : Bool)
  | popTimed
  | popTimedWoken (woken : Bool)
  | clear
  | size
  | maxSize
  | full
  | empty
deriving DecidableEq

inductive Answer (α : Type) where
  | pushed (ok : Bool)
  /-- `none`: `pop` returns false. -/
  | popped (item : Option α)
  | waits
  | cleared
  | count (n : Int)
  | flag (b : Bool)
deriving DecidableEq

namespace BlockQueue

variable {α : Type}

/-- The constructor, which calls `exit` if there is no room at all. -/
def create (blank : α) (maxSize : Int) : Option (BlockQueue α) :=
  if maxSize ≤ 0 then none
  else some { array := List.replicate maxSize.toNat blank, maxSize }

def load (q : BlockQueue α) (i : Int) : Option α := if 0 ≤ i then q.array[i.toNat]? else none

def store (q : BlockQueue α) (i : Int) (item : α) : Option (List α) :=
  if 0 ≤ i ∧ i < q.array.length then some (q.array.set i.toNat item) else none

def clear (q : BlockQueue α) : BlockQueue α := { q with size := 0, front := -1, back := -1 }

def full (q : BlockQueue α) : Bool := decide (q.maxSize ≤ q.size)

def empty (q : BlockQueue α) : Bool := decide (0 = q.size)

def push (q : BlockQueue α) (item : α) : Option (Answer α × BlockQueue α) :=
  if q.maxSize ≤ q.size then some (.pushed false, q)
  else
    let back := (q.back + 1).tmod q.maxSize
    (q.store back item).map fun array => (.pushed true, { q with array, back, size := q.size + 1 })

/-- The end of both kinds of `pop`. -/
def take (q : BlockQueue α) : Option (Answer α × BlockQueue α) :=
  let front := (q.front + 1).tmod q.maxSize
  (q.load front).map fun item => (.popped (some item), { q with front, size := q.size - 1 })

/-- `pop` up to its first wait, and from the head of its loop on. -/
def pop (q : BlockQueue α) : Option (Answer α × BlockQueue α) :=
  if q.size ≤ 0 then some (.waits, q) else q.take

def popWoken (q : BlockQueue α) (woken : Bool) : Option (Answer α × BlockQueue α) :=
  if !woken then some (.popped none, q) else q.pop

/-- `pop` with a timeout, up to its wait. -/
def popTimed (q : BlockQueue α) : Option (Answer α × BlockQueue α) :=
  if q.size ≤ 0 then some (.waits, q) else q.take

def popTimedWoken (q : BlockQueue α) (woken : Bool) : Option (Answer α × BlockQueue α) :=
  if !woken then some (.popped none, q)
  else if q.size ≤ 0 then some (.popped none, q)
  else q.take

def step (q : BlockQueue α) : Op α → Option (Answer α × BlockQueue α)
  | .push item => q.push item
  | .pop => q.pop
  | .popWoken woken => q.popWoken woken
  | .popTimed => q.popTimed
  | .popTimedWoken woken => q.popTimedWoken woken
  | .clear => some (.cleared, q.clear)
  | .size => some (.count q.size, q)
  | .maxSize => some (.count q.maxSize, q)
  | .full => some (.flag q.full, q)
  | .empty => some (.flag q.empty, q)

def answers : BlockQueue α → List (Op α) → Option (List (Answer α))
  | _, [] => some []
  | q, op :: ops => (q.step op).bind fun r => (answers r.2 ops).map fun as => r.1 :: as

end BlockQueue

/-! ## What the queue is for -/

namespace Bounded

variable {α : Type}

/-- The oldest element, or else `other`. -/
def takeOr (other : Answer α) : List α → Answer α × List α
  | [] => (other, [])
  | x :: items => (.popped (some x), items)

/-- A list of at most `n` elements. -/
def step (n : Nat) (items : List α) : Op α → Answer α × List α
  | .push item => if items.length = n then (.pushed false, items) else (.pushed true, items ++ [item])
  | .pop => takeOr .waits items
  | .popWoken woken => if woken then takeOr .waits items else (.popped none, items)
  | .popTimed => takeOr .waits items
  | .popTimedWoken woken => if woken then takeOr (.popped none) items else (.popped none, items)
  | .clear => (.cleared, [])
  | .size => (.count items.length, items)
  | .maxSize => (.count n, items)
  | .full => (.flag (decide (items.length = n)), items)
  | .empty => (.flag (decide (items = [])), items)

def answers (n : Nat) : List α → List (Op α) → List (Answer α)
  | _, [] => []
  | items, op :: ops => (step n items op).1 :: answers n (step n items op).2 ops

end Bounded

/-! ## The ring holds the list -/

namespace BlockQueue

variable {α : Type} {q q' : BlockQueue α} {items : List α}

/-- The elements stand behind `m_front`, in the order they came. -/
structure Holds (q : BlockQueue α) (items : List α) : Prop where
  maxSize : q.maxSize = q.array.length
  pos : 0 < q.array.length
  size : q.size = items.length
  fit : items.length ≤ q.array.length
  front : -1 ≤ q.front
  back : -1 ≤ q.back
  tail : (q.back + 1).toNat % q.array.length =
    ((q.front + 1).toNat + items.length) % q.array.length
  window : Ring.window q.array (q.front + 1).toNat items.length = items.map some

theorem create_holds (blank : α) {n : Int} (h : 1 ≤ n) :
    ∃ q, create blank n = some q ∧ q.array.length = n.toNat ∧ q.Holds [] := by
  have hlen : (List.replicate n.toNat blank).length = n.toNat := List.length_replicate
  refine ⟨_, if_neg (by omega), hlen, ?_⟩
  exact
    { maxSize := by
        show n = _
        rw [hlen]
        omega
      pos := by rw [hlen]; omega
      size := rfl
      fit := Nat.zero_le _
      front := Int.le_refl _
      back := Int.le_refl _
      tail := rfl
      window := rfl }

/-- The next index, from one that is -1 or in the array. -/
theorem next_index {i : Int} {n : Nat} (h : -1 ≤ i) :
    (i + 1).tmod n = (((i + 1).toNat % n : Nat) : Int) := by
  have hnat : i + 1 = ((i + 1).toNat : Int) := (Int.toNat_of_nonneg (by omega)).symm
  rw [hnat, ← Int.ofNat_tmod, Int.toNat_natCast]

theorem Holds.full_iff (h : q.Holds items) : q.maxSize ≤ q.size ↔ items.length = q.array.length := by
  have hfit := h.fit
  rw [h.maxSize, h.size]
  omega

theorem Holds.empty_iff (h : q.Holds items) : q.size ≤ 0 ↔ items = [] := by
  rw [h.size, ← List.length_eq_zero_iff]
  omega

theorem Holds.clear (h : q.Holds items) : q.clear.Holds [] where
  maxSize := h.maxSize
  pos := h.pos
  size := rfl
  fit := Nat.zero_le _
  front := Int.le_refl _
  back := Int.le_refl _
  tail := rfl
  window := rfl

theorem Holds.push_full (h : q.Holds items) (hfull : items.length = q.array.length) (item : α) :
    q.push item = some (.pushed false, q) := if_pos (h.full_iff.mpr hfull)

theorem Holds.push_eq (h : q.Holds items) (hroom : items.length ≠ q.array.length) (item : α) :
    q.push item = some (.pushed true, { q with
      array := q.array.set (((q.front + 1).toNat + items.length) % q.array.length) item
      back := (((q.front + 1).toNat + items.length) % q.array.length : Nat)
      size := q.size + 1 }) := by
  have hback := next_index (n := q.array.length) h.back
  rw [h.tail] at hback
  have hin : ((q.front + 1).toNat + items.length) % q.array.length < q.array.length :=
    Nat.mod_lt _ h.pos
  have hstore : q.store ((((q.front + 1).toNat + items.length) % q.array.length : Nat) : Int) item =
      some (q.array.set (((q.front + 1).toNat + items.length) % q.array.length) item) := by
    unfold store
    rw [if_pos ⟨by omega, by exact_mod_cast hin⟩, Int.toNat_natCast]
  unfold push
  rw [if_neg fun hfull => hroom (h.full_iff.mp hfull)]
  simp only [h.maxSize, hback, hstore, Option.map_some]

theorem Holds.push_room (h : q.Holds items) (hroom : items.length ≠ q.array.length) (item : α) :
    ∃ q', q.push item = some (.pushed true, q') ∧ q'.array.length = q.array.length ∧
      q'.Holds (items ++ [item]) := by
  have hlt : items.length < q.array.length := Nat.lt_of_le_of_ne h.fit hroom
  refine ⟨_, h.push_eq hroom item, List.length_set, ?_⟩
  constructor
  case maxSize =>
    rw [List.length_set]
    exact h.maxSize
  case pos => simpa only [List.length_set] using h.pos
  case size =>
    rw [List.length_append, h.size]
    rfl
  case fit =>
    rw [List.length_append, List.length_set]
    exact hlt
  case front => exact h.front
  case back =>
    show (-1 : Int) ≤ ((_ : Nat) : Int)
    omega
  case tail =>
    rw [List.length_append, List.length_set, List.length_singleton]
    show (((_ : Nat) : Int) + 1).toNat % _ = _
    rw [show ∀ m : Nat, ((m : Int) + 1).toNat = m + 1 from fun m => by omega, Nat.add_mod,
      Nat.mod_mod, ← Nat.add_mod, Nat.add_assoc]
  case window =>
    rw [List.length_append, List.length_singleton, Ring.window_push hlt, h.window, List.map_append]
    rfl

theorem Holds.head_cell {x : α} (h : q.Holds (x :: items)) :
    q.array[(q.front + 1).toNat % q.array.length]? = some x ∧
      Ring.window q.array ((q.front + 1).toNat + 1) items.length = items.map some := by
  have hwindow := h.window
  rw [List.length_cons, Ring.window, List.map_cons, List.cons.injEq] at hwindow
  exact hwindow

theorem Holds.take_eq {x : α} (h : q.Holds (x :: items)) :
    q.take = some (.popped (some x), { q with
      front := ((q.front + 1).toNat % q.array.length : Nat)
      size := q.size - 1 }) := by
  have hfront := next_index (n := q.array.length) h.front
  have hload : q.load (((q.front + 1).toNat % q.array.length : Nat) : Int) = some x := by
    unfold load
    rw [if_pos (by omega), Int.toNat_natCast, h.head_cell.1]
  unfold take
  simp only [h.maxSize, hfront, hload, Option.map_some]

theorem Holds.take_cons {x : α} (h : q.Holds (x :: items)) :
    ∃ q', q.take = some (.popped (some x), q') ∧ q'.array.length = q.array.length ∧
      q'.Holds items := by
  have hfit := h.fit
  have hsize := h.size
  refine ⟨_, h.take_eq, rfl, ?_⟩
  have hsucc : ∀ m : Nat, ((m : Int) + 1).toNat = m + 1 := fun m => by omega
  constructor
  case maxSize => exact h.maxSize
  case pos => exact h.pos
  case size =>
    rw [List.length_cons] at hsize
    show q.size - 1 = _
    omega
  case fit => exact Nat.le_of_succ_le hfit
  case front =>
    show (-1 : Int) ≤ ((_ : Nat) : Int)
    omega
  case back => exact h.back
  case tail =>
    show (q.back + 1).toNat % q.array.length =
      ((((_ : Nat) : Int) + 1).toNat + items.length) % q.array.length
    rw [hsucc, h.tail, List.length_cons, Nat.add_assoc _ 1, Nat.mod_add_mod, Nat.add_comm 1]
  case window =>
    show Ring.window q.array (((_ : Nat) : Int) + 1).toNat _ = _
    rw [hsucc, Ring.window_mod_succ, h.head_cell.2]

/-- One section answers as the list does, and keeps the ring. -/
theorem Holds.step (h : q.Holds items) (op : Op α) :
    ∃ q', q.step op = some ((Bounded.step q.array.length items op).1, q') ∧
      q'.array.length = q.array.length ∧ q'.Holds (Bounded.step q.array.length items op).2 := by
  have take : ∀ other : Answer α,
      ∃ q', (if q.size ≤ 0 then some (other, q) else q.take) =
          some ((Bounded.takeOr other items).1, q') ∧
        q'.array.length = q.array.length ∧ q'.Holds (Bounded.takeOr other items).2 := by
    intro other
    cases items with
    | nil =>
      rw [if_pos (h.empty_iff.mpr rfl)]
      exact ⟨q, rfl, rfl, h⟩
    | cons x items =>
      rw [if_neg fun hempty => absurd (h.empty_iff.mp hempty) (List.cons_ne_nil x items)]
      exact h.take_cons
  cases op with
  | push item =>
    by_cases hfull : items.length = q.array.length
    · rw [Bounded.step, if_pos hfull]
      exact ⟨q, h.push_full hfull item, rfl, h⟩
    · rw [Bounded.step, if_neg hfull]
      exact h.push_room hfull item
  | pop => exact take .waits
  | popWoken woken =>
    cases woken with
    | false => exact ⟨q, rfl, rfl, h⟩
    | true => exact take .waits
  | popTimed => exact take .waits
  | popTimedWoken woken =>
    cases woken with
    | false => exact ⟨q, rfl, rfl, h⟩
    | true => exact take (.popped none)
  | clear => exact ⟨q.clear, rfl, rfl, h.clear⟩
  | size =>
    refine ⟨q, ?_, rfl, h⟩
    rw [BlockQueue.step, h.size]
    rfl
  | maxSize =>
    refine ⟨q, ?_, rfl, h⟩
    rw [BlockQueue.step, h.maxSize]
    rfl
  | full =>
    refine ⟨q, ?_, rfl, h⟩
    rw [BlockQueue.step, full, decide_eq_decide.mpr h.full_iff]
    rfl
  | empty =>
    refine ⟨q, ?_, rfl, h⟩
    have hempty : 0 = q.size ↔ items = [] := by
      rw [h.size, ← List.length_eq_zero_iff]
      omega
    rw [BlockQueue.step, empty, decide_eq_decide.mpr hempty]
    rfl

theorem Holds.answers (h : q.Holds items) (ops : List (Op α)) :
    q.answers ops = some (Bounded.answers q.array.length items ops) := by
  induction ops generalizing q items with
  | nil => rfl
  | cons op ops ih =>
    obtain ⟨q', hstep, hlen, hholds⟩ := h.step op
    rw [BlockQueue.answers, hstep, Option.bind_some, ih hholds, hlen]
    rfl

/-- **`block_queue` is a bounded FIFO**, for every capacity and every sequence of operations. -/
theorem block_queue_refines (blank : α) {n : Int} (h : 1 ≤ n) (ops : List (Op α)) :
    (create blank n).bind (·.answers ops) = some (Bounded.answers n.toNat [] ops) := by
  obtain ⟨q, hcreate, hlen, hholds⟩ := create_holds blank h
  rw [hcreate, Option.bind_some, hholds.answers, hlen]

/-- Around the end of two cells, with a `clear` on the way. -/
theorem block_queue_refines_around :
    (create 0 2).bind (·.answers [.push 1, .push 2, .push 3, .pop, .push 4, .pop, .clear, .popTimed,
      .popTimedWoken false, .push 5, .pop]) =
    some [.pushed true, .pushed true, .pushed false, .popped (some 1), .pushed true,
      .popped (some 2), .cleared, .waits, .popped none, .pushed true, .popped (some 5)] :=
  block_queue_refines 0 (by decide) _

end BlockQueue

end Log
end UrlShortener
