import UrlShortener.Base.Machine
import UrlShortener.Log.BlockQueue

/-!
# UrlShortener.Log.Peeks

`front` and `back` of `block_queue`. `push` moves `m_back` before it writes, so `m_back` is the place
of the newest element and `back` reads it there. `pop` moves `m_front` before it reads, so `m_front`
is the place of an element that is gone; `front` reads there all the same. In a queue that has
popped nothing since it was made or cleared that place is in front of the array.

`peeks_agree_iff` says for which pasts the two are right.
-/

namespace UrlShortener
namespace Log

variable {α : Type}

namespace Peeks

/-- `none` is an access outside the array, `some none` the answer false. -/
def front (q : BlockQueue α) : Option (Option α) :=
  if 0 = q.size then some none else (q.load q.front).map some

def back (q : BlockQueue α) : Option (Option α) :=
  if 0 = q.size then some none else (q.load q.back).map some

/-! ## What has happened to a queue -/

/-- The past of a queue, by the answers that it gave. -/
structure Past (α : Type) where
  /-- Pushed, and since then neither popped nor cleared. -/
  items : List α := []
  /-- The element pushed last. -/
  pushed : Option α := none
  /-- The element popped last, if one was since the queue was made or cleared. -/
  popped : Option α := none
deriving DecidableEq

def Past.note (p : Past α) : Op α → Answer α → Past α
  | .push item, .pushed true => { p with items := p.items ++ [item], pushed := some item }
  | .clear, _ => { p with items := [], popped := none }
  | _, .popped (some item) => { p with items := p.items.tail, popped := some item }
  | _, _ => p

/-- A section, with its answer noted. -/
def watch (s : BlockQueue α × Past α) (op : Op α) : Option (BlockQueue α × Past α) :=
  (s.1.step op).map fun r => (r.2, s.2.note op r.1)

/-- `front` yields what `pop` would return. -/
structure FrontAgrees (q : BlockQueue α) : Prop where
  index : 0 ≤ q.front ∧ q.front < q.maxSize
  next : ∃ x q', q.pop = some (.popped (some x), q') ∧ front q = some (some x)

/-- `back` yields what was pushed last. -/
structure BackAgrees (q : BlockQueue α) (p : Past α) : Prop where
  index : 0 ≤ q.back ∧ q.back < q.maxSize
  newest : ∃ x, p.pushed = some x ∧ back q = some (some x)

/-- Something has been popped since the queue was made or cleared, and the element popped last is
equal to the oldest one. In a full queue the newest element has taken its place, and is equal to the
oldest one. -/
def Past.Repeats (p : Past α) (n : Nat) : Prop :=
  p.popped ≠ none ∧ (if p.items.length = n then p.pushed else p.popped) = p.items.head?

/-! ## The two places -/

/-- Besides the list, the ring still knows what was pushed last and what was popped last. -/
structure Tracks (q : BlockQueue α) (p : Past α) : Prop extends q.Holds p.items where
  backCell : p.items ≠ [] → ∃ i : Nat, q.back = i ∧ i < q.array.length ∧ q.array[i]? = p.pushed
  idle : p.popped = none → q.front = -1
  frontCell : ∀ x, p.popped = some x → ∃ i : Nat, q.front = i ∧ i < q.array.length ∧
    (p.items.length ≠ q.array.length → q.array[i]? = some x)

variable {q : BlockQueue α} {p : Past α}

theorem Tracks.clear (h : Tracks q p) : Tracks q.clear { p with items := [], popped := none } where
  toHolds := h.toHolds.clear
  backCell := fun hne => absurd rfl hne
  idle := fun _ => rfl
  frontCell := fun _ hx => nomatch hx

theorem Tracks.push (h : Tracks q p) (hroom : p.items.length ≠ q.array.length) (item : α) :
    ∃ q', q.push item = some (.pushed true, q') ∧ q'.array.length = q.array.length ∧
      Tracks q' { p with items := p.items ++ [item], pushed := some item } := by
  obtain ⟨q', hq', hlen, hholds⟩ := h.toHolds.push_room hroom item
  have heq := hq'.symm.trans (h.toHolds.push_eq hroom item)
  obtain rfl : q' = _ := congrArg Prod.snd (Option.some.inj heq)
  have hin : ((q.front + 1).toNat + p.items.length) % q.array.length < q.array.length :=
    Nat.mod_lt _ h.pos
  refine ⟨_, hq', hlen, ?_⟩
  constructor
  case toHolds => exact hholds
  case backCell =>
    intro _
    refine ⟨_, rfl, ?_, List.getElem?_set_self hin⟩
    rw [List.length_set]
    exact hin
  case idle => exact h.idle
  case frontCell =>
    intro x hx
    obtain ⟨i, hi, hlt, hcell⟩ := h.frontCell x hx
    refine ⟨i, hi, ?_, fun hstill => ?_⟩
    · rw [List.length_set]
      exact hlt
    · -- what is written stands behind the elements, and there is still a place between
      rw [List.length_append, List.length_set, List.length_singleton] at hstill
      have hfit := h.fit
      have hne := Ring.mod_ne (f := i) (j := 0) (l := p.items.length + 1) (n := q.array.length)
        (Nat.succ_pos _) (by omega)
      rw [Nat.add_zero, Nat.mod_eq_of_lt hlt] at hne
      have hplace : (q.front + 1).toNat + p.items.length = i + (p.items.length + 1) := by omega
      show (q.array.set _ item)[i]? = some x
      rw [hplace, List.getElem?_set_ne (Ne.symm hne)]
      exact hcell hroom

theorem Tracks.take {x : α} {items : List α} (h : Tracks q p) (hitems : p.items = x :: items) :
    ∃ q', q.take = some (.popped (some x), q') ∧ q'.array.length = q.array.length ∧
      Tracks q' { p with items, popped := some x } := by
  have hholds := h.toHolds
  rw [hitems] at hholds
  obtain ⟨q', hq', hlen, hholds'⟩ := hholds.take_cons
  have heq := hq'.symm.trans hholds.take_eq
  obtain rfl : q' = _ := congrArg Prod.snd (Option.some.inj heq)
  refine ⟨_, hq', hlen, ?_⟩
  constructor
  case toHolds => exact hholds'
  case backCell => exact fun _ => h.backCell (by rw [hitems]; exact List.cons_ne_nil x items)
  case idle => exact fun hx => nomatch hx
  case frontCell =>
    intro y hy
    obtain rfl : x = y := Option.some.inj hy
    exact ⟨_, rfl, Nat.mod_lt _ h.pos, fun _ => hholds.head_cell.1⟩

/-- A section answers, and what is known goes on with its answer. -/
theorem Tracks.step (h : Tracks q p) (op : Op α) :
    ∃ q' p', watch (q, p) op = some (q', p') ∧ q'.array.length = q.array.length ∧ Tracks q' p' := by
  have same : ∀ answer : Answer α, p.note op answer = p → q.step op = some (answer, q) →
      ∃ q' p', watch (q, p) op = some (q', p') ∧ q'.array.length = q.array.length ∧
        Tracks q' p' := by
    intro answer hnote hstep
    refine ⟨q, p, ?_, rfl, h⟩
    show (q.step op).map _ = _
    rw [hstep, Option.map_some, hnote]
  have take : ∀ other : Answer α, p.note op other = p →
      (∀ x, p.note op (.popped (some x)) = { p with items := p.items.tail, popped := some x }) →
      q.step op = (if q.size ≤ 0 then some (other, q) else q.take) →
      ∃ q' p', watch (q, p) op = some (q', p') ∧ q'.array.length = q.array.length ∧
        Tracks q' p' := by
    intro other hother hpopped hstep
    cases hitems : p.items with
    | nil =>
      rw [if_pos (h.toHolds.empty_iff.mpr hitems)] at hstep
      exact same other hother hstep
    | cons x items =>
      have hsome : ¬ q.size ≤ 0 := fun hempty =>
        absurd (hitems.symm.trans (h.toHolds.empty_iff.mp hempty)) (List.cons_ne_nil x items)
      rw [if_neg hsome] at hstep
      obtain ⟨q', htake, hlen, htracks⟩ := h.take hitems
      refine ⟨q', _, ?_, hlen, htracks⟩
      show (q.step op).map _ = _
      rw [hstep, htake, Option.map_some, hpopped, hitems, List.tail_cons]
  cases op with
  | push item =>
    by_cases hfull : p.items.length = q.array.length
    · exact same (.pushed false) rfl (h.toHolds.push_full hfull item)
    · obtain ⟨q', hpush, hlen, htracks⟩ := h.push hfull item
      refine ⟨q', _, ?_, hlen, htracks⟩
      show (q.push item).map _ = _
      rw [hpush]
      rfl
  | pop => exact take .waits rfl (fun _ => rfl) rfl
  | popWoken woken =>
    cases woken with
    | false => exact same (.popped none) rfl rfl
    | true => exact take .waits rfl (fun _ => rfl) rfl
  | popTimed => exact take .waits rfl (fun _ => rfl) rfl
  | popTimedWoken woken =>
    cases woken with
    | false => exact same (.popped none) rfl rfl
    | true => exact take (.popped none) rfl (fun _ => rfl) rfl
  | clear => exact ⟨_, _, rfl, rfl, h.clear⟩
  | size => exact same _ rfl rfl
  | maxSize => exact same _ rfl rfl
  | full => exact same _ rfl rfl
  | empty => exact same _ rfl rfl

theorem Tracks.run (h : Tracks q p) (ops : List (Op α)) :
    ∃ q' p', Machine.run watch (q, p) ops = some (q', p') ∧
      q'.array.length = q.array.length ∧ Tracks q' p' := by
  induction ops generalizing q p with
  | nil => exact ⟨q, p, rfl, rfl, h⟩
  | cons op ops ih =>
    obtain ⟨q₁, p₁, hwatch, hlen₁, h₁⟩ := h.step op
    obtain ⟨q', p', hrun, hlen, h'⟩ := ih h₁
    refine ⟨q', p', ?_, hlen.trans hlen₁, h'⟩
    rw [Machine.run, hwatch]
    exact hrun

theorem create_tracks (blank : α) {n : Int} (h : 1 ≤ n) :
    ∃ q, BlockQueue.create blank n = some q ∧ q.array.length = n.toNat ∧ Tracks q {} := by
  obtain ⟨q, hcreate, hlen, hholds⟩ := BlockQueue.create_holds blank h
  have hfront : q.front = -1 := by
    unfold BlockQueue.create at hcreate
    rw [if_neg (by omega)] at hcreate
    rw [← Option.some.inj hcreate]
  exact ⟨q, hcreate, hlen,
    { toHolds := hholds
      backCell := fun hne => absurd rfl hne
      idle := fun _ => hfront
      frontCell := fun _ hx => nomatch hx }⟩

/-! ## What is read -/

theorem Tracks.back_agrees (h : Tracks q p) (hne : p.items ≠ []) : BackAgrees q p := by
  obtain ⟨i, hi, hlt, hcell⟩ := h.backCell hne
  have hsize : ¬ 0 = q.size := fun hzero => hne (h.toHolds.empty_iff.mp (by omega))
  rw [List.getElem?_eq_getElem hlt] at hcell
  refine ⟨⟨by omega, ?_⟩, _, hcell.symm, ?_⟩
  · rw [hi, h.maxSize]
    exact_mod_cast hlt
  · unfold back BlockQueue.load
    rw [if_neg hsize, if_pos (by omega), hi, Int.toNat_natCast, List.getElem?_eq_getElem hlt]
    rfl

/-- The place of the element popped last. Only a queue that is full has another element there. -/
theorem Tracks.front_cell (h : Tracks q p) {y : α} (hy : p.popped = some y) :
    ∃ i : Nat, q.front = i ∧ i < q.array.length ∧
      q.array[i]? = if p.items.length = q.array.length then p.pushed else p.popped := by
  obtain ⟨i, hi, hlt, hcell⟩ := h.frontCell y hy
  refine ⟨i, hi, hlt, ?_⟩
  by_cases hfull : p.items.length = q.array.length
  · have hne : p.items ≠ [] := by
      intro hnil
      rw [hnil] at hfull
      exact absurd h.pos (by rw [← hfull]; exact Nat.lt_irrefl 0)
    obtain ⟨j, hj, hltj, hback⟩ := h.backCell hne
    have htail := h.tail
    have hsucc : ∀ m : Nat, ((m : Int) + 1).toNat = m + 1 := fun m => by omega
    rw [hi, hj, hsucc, hsucc, hfull, Nat.add_mod_right] at htail
    have hcancel : j % q.array.length = i % q.array.length := Nat.ModEq.add_right_cancel' 1 htail
    rw [Nat.mod_eq_of_lt hlt, Nat.mod_eq_of_lt hltj] at hcancel
    rw [if_pos hfull, ← hcancel]
    exact hback
  · rw [if_neg hfull, hy]
    exact hcell hfull

theorem Tracks.front_agrees_iff (h : Tracks q p) (hne : p.items ≠ []) :
    FrontAgrees q ↔ p.Repeats q.array.length := by
  obtain ⟨x, items, hitems⟩ := List.exists_cons_of_ne_nil hne
  have hsome : ¬ q.size ≤ 0 := fun hempty => hne (h.toHolds.empty_iff.mp hempty)
  obtain ⟨q', htake, -, -⟩ := h.take hitems
  have hpop : q.pop = some (.popped (some x), q') := (if_neg hsome).trans htake
  have hhead : p.items.head? = some x := by rw [hitems, List.head?_cons]
  cases hpopped : p.popped with
  | none =>
    have hfront := h.idle hpopped
    constructor
    · intro hagrees
      have hindex := hagrees.index.1
      omega
    · intro hrepeats
      exact absurd hpopped hrepeats.1
  | some y =>
    obtain ⟨i, hi, hlt, hcell⟩ := h.front_cell hpopped
    have hread : front q = (q.array[i]?).map some := by
      unfold front BlockQueue.load
      rw [if_neg (by omega), if_pos (by omega), hi, Int.toNat_natCast]
    constructor
    · rintro ⟨-, z, q₂, hnext, hz⟩
      have hzx : z = x := by
        have heq := hnext.symm.trans hpop
        simpa using congrArg Prod.fst (Option.some.inj heq)
      rw [hzx, hread, hcell] at hz
      refine ⟨by rw [hpopped]; exact Option.some_ne_none y, ?_⟩
      rw [hhead]
      obtain ⟨w, hw, hwx⟩ := Option.map_eq_some_iff.mp hz
      rw [hw, hwx]
    · intro hrepeats
      refine ⟨⟨by omega, ?_⟩, x, q', hpop, ?_⟩
      · rw [hi, h.maxSize]
        exact_mod_cast hlt
      · rw [hread, hcell, hrepeats.2, hhead]
        rfl

/-- **When the peeks are right**, in a queue that is not empty. `back` always is
(`Tracks.back_agrees`); `front` is if the element at `m_front` happens to be equal to the next. -/
theorem peeks_agree_iff (blank : α) {n : Int} (h : 1 ≤ n) (ops : List (Op α)) :
    ∃ q p, ((BlockQueue.create blank n).bind fun q => Machine.run watch (q, {}) ops) = some (q, p) ∧
      (0 < q.size → (FrontAgrees q ∧ BackAgrees q p ↔ p.Repeats n.toNat)) := by
  obtain ⟨q₀, hcreate, hlen₀, htracks₀⟩ := create_tracks blank h
  obtain ⟨q, p, hrun, hlen, htracks⟩ := htracks₀.run ops
  refine ⟨q, p, ?_, fun hsize => ?_⟩
  · rw [hcreate]
    exact hrun
  · have hne : p.items ≠ [] := by
      intro hnil
      have hempty := htracks.toHolds.empty_iff.mpr hnil
      omega
    rw [← hlen₀, ← hlen, ← htracks.front_agrees_iff hne]
    exact and_iff_left (htracks.back_agrees hne)

/-- Two elements that are equal, and one of them popped. -/
theorem peeks_agree_iff_equal : ∃ q p,
    ((BlockQueue.create 0 2).bind fun q =>
      Machine.run watch (q, {}) [.push 7, .push 7, .pop]) = some (q, p) ∧
    FrontAgrees q ∧ BackAgrees q p := by
  obtain ⟨q, p, hrun, hiff⟩ := peeks_agree_iff 0 (n := 2) (by decide) [.push 7, .push 7, .pop]
  have hstate := hrun.symm.trans (show _ = some
    (⟨[7, 7], 2, 1, 0, 1⟩, { items := [7], pushed := some 7, popped := some 7 }) from rfl)
  obtain ⟨rfl, rfl⟩ := Prod.mk.inj (Option.some.inj hstate)
  exact ⟨_, _, hrun, (hiff (by decide)).mpr ⟨Option.some_ne_none 7, rfl⟩⟩

/-- With one element pushed `front` reads in front of the array. With a second one, and the first
one popped, it yields the first one. -/
theorem front_lags :
    (∃ q p, ((BlockQueue.create 0 2).bind fun q => Machine.run watch (q, {}) [.push 1]) =
        some (q, p) ∧ 0 < q.size ∧ ¬ (FrontAgrees q ∧ BackAgrees q p) ∧ front q = none) ∧
    ∃ q p, ((BlockQueue.create 0 2).bind fun q =>
        Machine.run watch (q, {}) [.push 1, .push 2, .pop]) = some (q, p) ∧ 0 < q.size ∧
      ¬ (FrontAgrees q ∧ BackAgrees q p) ∧ front q = some (some 1) ∧
      ∃ q', q.pop = some (.popped (some 2), q') := by
  constructor
  · refine ⟨⟨[1, 0], 2, 1, -1, 0⟩, { items := [1], pushed := some 1 }, rfl, by decide, ?_, rfl⟩
    rintro ⟨hfront, -⟩
    exact absurd hfront.index.1 (by decide)
  · refine ⟨⟨[1, 2], 2, 1, 0, 1⟩, { items := [2], pushed := some 2, popped := some 1 }, rfl,
      by decide, ?_, rfl, _, rfl⟩
    rintro ⟨⟨-, x, q', hpop, hread⟩, -⟩
    have hanswer : Answer.popped (some 2) = .popped (some x) :=
      congrArg Prod.fst (Option.some.inj hpop)
    have hnext : some 2 = some x := Answer.popped.inj hanswer
    have hfront : some 1 = some x := Option.some.inj hread
    exact absurd (hnext.trans hfront.symm) (by decide)

end Peeks

end Log
end UrlShortener
