import Mathlib.Data.List.Induction
import UrlShortener.Server.Slots

/-!
# UrlShortener.Server.TimerRuns

Runs of the four operations of `sort_timer_lst`. The heap and its pointers are described by a plain
list of entries (`Refines`), on which each operation is a function: a new timer goes behind those
that do not end later than it, an adjusted one does the same among those behind it, and `tick` cuts
the list at the first timer that is still to come.

With a clock that does not go back the list is sorted, so what `tick` cuts off is all that is due.
-/

namespace UrlShortener
namespace Timers

open DoublyLinked

/-- A timer and what is stored in it. -/
abbrev Entry := Nat × UtilTimer

/-! ## The list -/

namespace Entries

/-- The timer does not end after `time`. -/
def endsBy (time : Int) (e : Entry) : Bool := decide (e.2.expire ≤ time)

def place (e : Entry) : List Entry → List Entry
  | [] => [e]
  | x :: es => if e.2.expire < x.2.expire then e :: x :: es else x :: place e es

def adjust (timer : Nat) (expire : Int) : List Entry → List Entry
  | [] => []
  | e :: es =>
    if e.1 = timer then place (timer, { e.2 with expire }) es else e :: adjust timer expire es

def remove (timer : Nat) (es : List Entry) : List Entry := es.filter fun e => decide (e.1 ≠ timer)

def Sorted (es : List Entry) : Prop := es.Pairwise fun e e' => e.2.expire ≤ e'.2.expire

variable {es es₁ es₂ : List Entry} {e : Entry} {time : Int}

theorem endsBy_iff : endsBy time e = true ↔ e.2.expire ≤ time := decide_eq_true_iff

theorem place_eq (h₁ : ∀ x ∈ es₁, x.2.expire ≤ e.2.expire)
    (h₂ : ∀ x ∈ es₂.head?, e.2.expire < x.2.expire) :
    place e (es₁ ++ es₂) = es₁ ++ e :: es₂ := by
  induction es₁ with
  | nil =>
    cases es₂ with
    | nil => rfl
    | cons x es₂ => exact if_pos (h₂ x rfl)
  | cons x es₁ ih =>
    rw [List.cons_append, place, if_neg (Int.not_lt.mpr (h₁ x (by simp))),
      ih fun y hy => h₁ y (by simp [hy])]
    rfl

theorem place_perm (e : Entry) (es : List Entry) : (place e es).Perm (e :: es) := by
  induction es with
  | nil => exact .refl _
  | cons x es ih =>
    unfold place
    split
    · exact .refl _
    · exact (ih.cons x).trans (.swap e x es)

theorem adjust_eq {timer : Nat} {v : UtilTimer} (expire : Int) (h₁ : ∀ x ∈ es₁, x.1 ≠ timer) :
    adjust timer expire (es₁ ++ (timer, v) :: es₂) =
      es₁ ++ place (timer, { v with expire }) es₂ := by
  induction es₁ with
  | nil => simp [adjust]
  | cons x es₁ ih =>
    rw [List.cons_append, adjust, if_neg (h₁ x (by simp)), ih fun y hy => h₁ y (by simp [hy])]
    rfl

theorem remove_eq {timer : Nat} {v : UtilTimer} (h₁ : ∀ x ∈ es₁, x.1 ≠ timer)
    (h₂ : ∀ x ∈ es₂, x.1 ≠ timer) : remove timer (es₁ ++ (timer, v) :: es₂) = es₁ ++ es₂ := by
  have hall : ∀ l : List Entry, (∀ x ∈ l, x.1 ≠ timer) →
      l.filter (fun e => decide (e.1 ≠ timer)) = l := by
    intro l hl
    exact List.filter_eq_self.mpr fun x hx => decide_eq_true (hl x hx)
  rw [remove, List.filter_append, hall es₁ h₁, List.filter_cons_of_neg (by simp), hall es₂ h₂]

/-! ### Sorted lists -/

theorem Sorted.place (h : Sorted es) (e : Entry) : Sorted (place e es) := by
  induction es with
  | nil => exact List.pairwise_singleton _ _
  | cons x es ih =>
    obtain ⟨hx, hes⟩ := List.pairwise_cons.mp h
    unfold Entries.place
    split
    · rename_i hlt
      refine List.pairwise_cons.mpr ⟨?_, h⟩
      intro y hy
      rcases List.mem_cons.mp hy with rfl | hy
      · exact Int.le_of_lt hlt
      · exact Int.le_trans (Int.le_of_lt hlt) (hx y hy)
    · rename_i hle
      refine List.pairwise_cons.mpr ⟨?_, ih hes⟩
      intro y hy
      rcases List.mem_cons.mp ((place_perm e es).mem_iff.mp hy) with rfl | hy
      · exact Int.not_lt.mp hle
      · exact hx y hy

/-- Adjusting changes the time of one timer. -/
theorem mem_adjust {timer : Nat} {expire : Int} {x : Entry} (hx : x ∈ adjust timer expire es) :
    x.2.expire = expire ∨ x ∈ es := by
  induction es with
  | nil => cases hx
  | cons y es ih =>
    unfold adjust at hx
    split at hx
    · rcases List.mem_cons.mp ((place_perm _ es).mem_iff.mp hx) with rfl | hx
      · exact Or.inl rfl
      · exact Or.inr (List.mem_cons_of_mem y hx)
    · rcases List.mem_cons.mp hx with rfl | hx
      · exact Or.inr (List.mem_cons_self ..)
      · exact (ih hx).imp_right fun h => List.mem_cons_of_mem y h

/-- A timer that is put off behind all others leaves the list sorted. -/
theorem Sorted.adjust {timer : Nat} {expire : Int} (h : Sorted es)
    (hlate : ∀ x ∈ es, x.2.expire ≤ expire) : Sorted (adjust timer expire es) := by
  induction es with
  | nil => exact h
  | cons x es ih =>
    obtain ⟨hx, hes⟩ := List.pairwise_cons.mp h
    unfold Entries.adjust
    split
    · exact Sorted.place hes _
    · refine List.pairwise_cons.mpr ⟨?_, ih hes fun y hy => hlate y (by simp [hy])⟩
      intro y hy
      rcases mem_adjust hy with hexp | hy
      · rw [hexp]
        exact hlate x (by simp)
      · exact hx y hy

/-- In a sorted list the timers that are due are those in front. -/
theorem Sorted.takeWhile_eq (h : Sorted es) (now : Int) :
    es.takeWhile (endsBy now) = es.filter (endsBy now) ∧
      es.dropWhile (endsBy now) = es.filter fun e => !endsBy now e := by
  induction es with
  | nil => exact ⟨rfl, rfl⟩
  | cons x es ih =>
    obtain ⟨hx, hes⟩ := List.pairwise_cons.mp h
    cases hdue : endsBy now x with
    | true =>
      obtain ⟨ih₁, ih₂⟩ := ih hes
      simp [hdue, ih₁, ih₂]
    | false =>
      have hlater : ∀ y ∈ es, endsBy now y = false := by
        intro y hy
        rw [← Bool.not_eq_true, endsBy_iff, Int.not_le] at hdue ⊢
        exact Int.lt_of_lt_of_le hdue (hx y hy)
      have hnone : es.filter (endsBy now) = [] :=
        List.filter_eq_nil_iff.mpr fun y hy => by simp [hlater y hy]
      have hall : (es.filter fun e => !endsBy now e) = es :=
        List.filter_eq_self.mpr fun y hy => by simp [hlater y hy]
      simp [hdue, hnone, hall]

end Entries

/-! ## The operations -/

namespace SortTimerLst

/-- The loop of `tick`, and for which timers `cb_func` was called. -/
def tickLoop (now : Int) : Nat → Option Nat → SortTimerLst → List Entry →
    Option (SortTimerLst × List Entry)
  | _, none, s, called => some (s, called)
  | 0, some _, _, _ => none
  | fuel + 1, some tmp, s, called => do
    let tmp' ← s.heap.lookup tmp
    if now < tmp'.val.expire then return (s, called)
    else
      let s ← s.popHead tmp
      tickLoop now fuel s.head s (called ++ [(tmp, tmp'.val)])

end SortTimerLst

structure State where
  timers : SortTimerLst := {}
  /-- The callbacks of all `tick`s, in this order. -/
  called : List Entry := []

inductive Label where
  /-- `new util_timer` returns this address; then `add_timer`. -/
  | add (timer : Nat) (t : UtilTimer)
  /-- `expire` is assigned; then `adjust_timer`. -/
  | adjust (timer : Nat) (expire : Int)
  | del (timer : Nat)
  | tick (now : Int)
deriving DecidableEq

namespace State

def step (s : State) : Label → Option State
  | .add timer t => do
    let heap := s.timers.heap.insert timer { val := t }
    let timers ← { s.timers with heap }.addTimer (some timer)
    return { s with timers }
  | .adjust timer expire => do
    let heap ← s.timers.heap.setVal (some timer) fun t => { t with expire }
    let timers ← { s.timers with heap }.adjustTimer (some timer)
    return { s with timers }
  | .del timer => do
    let timers ← s.timers.delTimer (some timer)
    return { s with timers }
  | .tick now => do
    let (timers, called) ←
      SortTimerLst.tickLoop now s.timers.heap.keys.length s.timers.head s.timers s.called
    return { timers, called }

/-- A new timer is at an address of its own; the others are those of the list. -/
def Allowed (s : State) : Label → Prop
  | .add timer _ => timer ∉ s.timers.heap
  | .adjust timer _ => timer ∈ s.timers.heap
  | .del timer => timer ∈ s.timers.heap
  | .tick _ => True

instance (s : State) : ∀ l, Decidable (s.Allowed l)
  | .add _ _ => inferInstanceAs (Decidable (¬ _))
  | .adjust _ _ => inferInstanceAs (Decidable (_ ∈ _))
  | .del _ => inferInstanceAs (Decidable (_ ∈ _))
  | .tick _ => isTrue trivial

end State

/-- The same on the entries: what the operation leaves. -/
def Entries.step (es : List Entry) : Label → List Entry
  | .add timer t => Entries.place (timer, t) es
  | .adjust timer expire => Entries.adjust timer expire es
  | .del timer => Entries.remove timer es
  | .tick now => es.dropWhile (Entries.endsBy now)

/-! ## Refinement -/

/-- The heap holds these entries, linked in this order, and nothing else. -/
structure Refines (s : SortTimerLst) (es : List Entry) : Prop where
  repr : SortTimerLst.Repr s (es.map Prod.fst)
  val : ∀ a v, s.heap.val a = some v ↔ (a, v) ∈ es

namespace Refines

open SortTimerLst (Repr Place)

variable {s s' : SortTimerLst} {es es₁ es₂ : List Entry} {timer : Nat} {v : UtilTimer}

theorem empty : Refines {} [] := by
  refine ⟨SortTimerLst.repr_empty, ?_⟩
  intro a v
  constructor
  · intro h
    cases h
  · intro h
    cases h

theorem mem_heap_iff (h : Refines s es) : timer ∈ s.heap ↔ ∃ v, (timer, v) ∈ es := by
  rw [Heap.mem_iff_val]
  exact exists_congr fun v => h.val timer v

/-- A timer is in one entry only. -/
theorem fst_ne (h : Refines s (es₁ ++ (timer, v) :: es₂)) :
    (∀ x ∈ es₁, x.1 ≠ timer) ∧ ∀ x ∈ es₂, x.1 ≠ timer := by
  have hnd := h.repr.nodup
  rw [List.map_append, List.map_cons] at hnd
  have hnot := (List.nodup_cons.mp (List.nodup_middle.mp hnd)).1
  rw [List.mem_append, not_or] at hnot
  constructor
  · intro x hx heq
    exact hnot.1 (List.mem_map.mpr ⟨x, hx, heq⟩)
  · intro x hx heq
    exact hnot.2 (List.mem_map.mpr ⟨x, hx, heq⟩)

/-- The place of a timer among the addresses is its place among the entries. -/
theorem place_eq (timer : Nat) {h : Heap UtilTimer} {t : UtilTimer} {m₁ m₂ : List Nat}
    (hval : ∀ x ∈ es, h.val x.1 = some x.2) (hl : es.map Prod.fst = m₁ ++ m₂)
    (hp : Place h t.expire m₁ m₂) : ∃ es₁ es₂, es = es₁ ++ es₂ ∧ es₁.map Prod.fst = m₁ ∧
      es₂.map Prod.fst = m₂ ∧ Entries.place (timer, t) es = es₁ ++ (timer, t) :: es₂ := by
  obtain ⟨es₁, es₂, rfl, h₁, h₂⟩ := List.map_eq_append_iff.mp hl
  refine ⟨es₁, es₂, rfl, h₁, h₂, Entries.place_eq ?_ ?_⟩
  · intro x hx
    have hmem : x.1 ∈ m₁ := h₁ ▸ List.mem_map_of_mem hx
    exact hp.before x.1 hmem x.2 (hval x (List.mem_append_left _ hx))
  · intro x hx
    have hmem : x.1 ∈ m₂.head? := by
      rw [← h₂, List.head?_map, hx]
      rfl
    exact hp.behind x.1 hmem x.2 (hval x (List.mem_append_right _ (List.mem_of_mem_head? hx)))

/-- What is stored, after one timer has been stored anew. -/
theorem val_of_perm {h h' : Heap UtilTimer} {es' : List Entry} {t : UtilTimer}
    (hperm : es'.Perm ((timer, t) :: es)) (hne : ∀ x ∈ es, x.1 ≠ timer)
    (hold : ∀ a w, a ≠ timer → (h.val a = some w ↔ (a, w) ∈ es))
    (hv : ∀ a, h'.val a = if a = timer then some t else h.val a) (a : Nat) (w : UtilTimer) :
    h'.val a = some w ↔ (a, w) ∈ es' := by
  rw [hperm.mem_iff, List.mem_cons, hv a, Prod.mk.injEq]
  by_cases ha : a = timer
  · subst ha
    have hnot : (a, w) ∉ es := fun hmem => hne _ hmem rfl
    simp [hnot, eq_comm]
  · simp [ha, hold a w ha]

/-- **`add_timer`.** -/
theorem add (h : Refines s es) (hnew : timer ∉ s.heap) (t : UtilTimer) : ∃ s',
    ({ s with heap := s.heap.insert timer { val := t } } : SortTimerLst).addTimer (some timer) =
      some s' ∧ Refines s' (Entries.place (timer, t) es) := by
  have hne : ∀ x ∈ es, x.1 ≠ timer := by
    rintro x hx rfl
    exact hnew (h.mem_heap_iff.mpr ⟨x.2, hx⟩)
  have hnot : timer ∉ es.map Prod.fst := by
    intro hmem
    obtain ⟨x, hx, hfst⟩ := List.mem_map.mp hmem
    exact hne x hx hfst
  let s₀ : SortTimerLst := { s with heap := s.heap.insert timer { val := t } }
  have hval₀ : ∀ a, s₀.heap.val a = if a = timer then some t else s.heap.val a := by
    intro a
    by_cases ha : a = timer
    · subst ha
      simp [s₀, Heap.val]
    · simp [s₀, Heap.val, ha]
  have hr₀ : Repr s₀ (es.map Prod.fst) :=
    ⟨h.repr.seg.frame (fun b hb => AList.lookup_insert_ne hb) hnot, h.repr.nodup, h.repr.head_eq,
      h.repr.tail_eq⟩
  obtain ⟨s', m₁, m₂, he, hl, hp, hr, hv⟩ :=
    SortTimerLst.addTimer_place hr₀ hnot (AList.lookup_insert _)
  obtain ⟨es₁, es₂, rfl, rfl, rfl, hplace⟩ := place_eq timer
    (fun x hx => by rw [hval₀, if_neg (hne x hx), h.val]; exact hx) hl hp
  refine ⟨s', he, ?_, val_of_perm (Entries.place_perm _ _) hne (fun a w _ => h.val a w) ?_⟩
  · rw [hplace, List.map_append, List.map_cons]
    exact hr
  · intro a
    rw [hv a, hval₀ a]

/-- **`adjust_timer`**, after the assignment to `expire`. -/
theorem adjust (h : Refines s es) (hin : timer ∈ s.heap) (expire : Int) : ∃ heap s',
    s.heap.setVal (some timer) (fun t => { t with expire }) = some heap ∧
      ({ s with heap } : SortTimerLst).adjustTimer (some timer) = some s' ∧
      Refines s' (Entries.adjust timer expire es) := by
  obtain ⟨v, hmem⟩ := h.mem_heap_iff.mp hin
  obtain ⟨es₁, es₂, rfl⟩ := List.append_of_mem hmem
  obtain ⟨hne₁, hne₂⟩ := h.fst_ne
  obtain ⟨node, hnode, rfl⟩ : ∃ node, s.heap.lookup timer = some node ∧ node.val = v :=
    Option.map_eq_some_iff.mp ((h.val timer v).mpr hmem)
  have hr := h.repr
  rw [List.map_append, List.map_cons] at hr
  obtain ⟨heap, he₁, hseg, hv₁⟩ := hr.seg.setVal hnode fun t => { t with expire }
  have hr₁ : Repr { s with heap } (es₁.map Prod.fst ++ timer :: es₂.map Prod.fst) :=
    ⟨hseg, hr.nodup, hr.head_eq, hr.tail_eq⟩
  obtain ⟨s', m₁, m₂, he₂, hl, hp, hr₂, hv₂⟩ :=
    SortTimerLst.adjustTimer_place hr₁ ((hv₁ timer).trans (if_pos rfl))
  obtain ⟨n₁, n₂, rfl, rfl, rfl, hplace⟩ := place_eq timer
    (fun x hx => by rw [hv₁, if_neg (hne₂ x hx), h.val]; exact List.mem_append_right _ (by simp [hx]))
    hl hp
  refine ⟨heap, s', he₁, he₂, ?_, ?_⟩
  · rw [Entries.adjust_eq expire hne₁, hplace]
    simpa using hr₂
  · rw [Entries.adjust_eq expire hne₁]
    have hperm : (es₁ ++ Entries.place (timer, { node.val with expire }) (n₁ ++ n₂)).Perm
        ((timer, { node.val with expire }) :: (es₁ ++ (n₁ ++ n₂))) :=
      ((Entries.place_perm _ _).append_left es₁).trans List.perm_middle
    refine val_of_perm (h := s.heap) hperm ?_ ?_ fun a => (hv₂ a).trans (hv₁ a)
    · intro x hx
      exact (List.mem_append.mp hx).elim (hne₁ x) (hne₂ x)
    · intro a w ha
      rw [h.val, List.mem_append, List.mem_append, List.mem_cons]
      simp [ha]

/-- **`del_timer`.** -/
theorem del (h : Refines s es) (hin : timer ∈ s.heap) : ∃ s',
    s.delTimer (some timer) = some s' ∧ Refines s' (Entries.remove timer es) := by
  obtain ⟨v, hmem⟩ := h.mem_heap_iff.mp hin
  obtain ⟨es₁, es₂, rfl⟩ := List.append_of_mem hmem
  obtain ⟨hne₁, hne₂⟩ := h.fst_ne
  have hr := h.repr
  rw [List.map_append, List.map_cons] at hr
  obtain ⟨s', he, hr', hv⟩ := SortTimerLst.delTimer_spec hr
  refine ⟨s', he, ?_, ?_⟩
  · rw [Entries.remove_eq hne₁ hne₂, List.map_append]
    exact hr'
  · intro a w
    rw [hv a, Entries.remove, List.mem_filter, decide_eq_true_eq]
    by_cases ha : a = timer
    · simp [ha]
    · simp [ha, h.val]

/-- **`tick`**: the timers in front that are due are called and freed. -/
theorem tick (now : Int) : ∀ {es : List Entry} {s : SortTimerLst} (called : List Entry) {fuel : Nat},
    Refines s es → es.length ≤ fuel → ∃ s',
      SortTimerLst.tickLoop now fuel s.head s called =
        some (s', called ++ es.takeWhile (Entries.endsBy now)) ∧
      Refines s' (es.dropWhile (Entries.endsBy now)) := by
  intro es
  induction es with
  | nil =>
    intro s called fuel h _
    have hhead : s.head = none := h.repr.head_eq
    refine ⟨s, ?_, h⟩
    rw [hhead, List.takeWhile_nil, List.append_nil]
    cases fuel <;> rfl
  | cons e es ih =>
    intro s called fuel h hfuel
    obtain ⟨fuel, rfl⟩ := Nat.exists_eq_succ_of_ne_zero (Nat.ne_of_gt (Nat.zero_lt_of_lt hfuel))
    have hhead : s.head = some e.1 := h.repr.head_eq
    obtain ⟨node, hnode, hval⟩ : ∃ node, s.heap.lookup e.1 = some node ∧ node.val = e.2 :=
      Option.map_eq_some_iff.mp ((h.val e.1 e.2).mpr (List.mem_cons_self ..))
    simp only [hhead, SortTimerLst.tickLoop, hnode, hval, Option.bind_eq_bind, Option.bind_some]
    split
    · rename_i hlater
      have hnot : ¬ Entries.endsBy now e = true := by
        rw [Entries.endsBy_iff]
        exact Int.not_le.mpr hlater
      refine ⟨s, ?_, ?_⟩
      · rw [List.takeWhile_cons_of_neg hnot, List.append_nil]
        rfl
      · rw [List.dropWhile_cons_of_neg hnot]
        exact h
    · rename_i hdue
      have hdue : Entries.endsBy now e = true := Entries.endsBy_iff.mpr (Int.not_lt.mp hdue)
      obtain ⟨s₁, he, hr, hv⟩ := SortTimerLst.popHead_spec (a := e.1) h.repr
      have hne : ∀ x ∈ es, x.1 ≠ e.1 := (@fst_ne s [] es e.1 e.2 h).2
      have h₁ : Refines s₁ es := by
        refine ⟨hr, ?_⟩
        intro a w
        rw [hv a]
        by_cases ha : a = e.1
        · have hnot : (a, w) ∉ es := fun hmem => hne _ hmem ha
          simp only [if_pos ha, hnot, reduceCtorEq]
        · have hfst : (a, w) ≠ e := fun heq => ha (congrArg Prod.fst heq)
          rw [if_neg ha, h.val, List.mem_cons]
          exact or_iff_right hfst
      obtain ⟨s', he', h'⟩ := ih (called ++ [(e.1, e.2)]) h₁ (Nat.le_of_succ_le_succ hfuel)
      refine ⟨s', ?_, ?_⟩
      · rw [he, Option.bind_some, he', List.takeWhile_cons_of_pos hdue, List.append_assoc]
        rfl
      · rw [List.dropWhile_cons_of_pos hdue]
        exact h'

theorem length_le (h : Refines s es) : es.length ≤ s.heap.keys.length := by
  have := h.repr.seg.length_le h.repr.nodup
  rwa [List.length_map] at this

end Refines

/-- The callbacks that an operation makes. -/
def Entries.due (es : List Entry) : Label → List Entry
  | .tick now => es.takeWhile (Entries.endsBy now)
  | _ => []

/-- **A step** does to the heap what it does to the entries. -/
theorem Refines.step {s : State} {es : List Entry} {l : Label} (h : Refines s.timers es)
    (hok : s.Allowed l) : ∃ s', s.step l = some s' ∧ Refines s'.timers (Entries.step es l) ∧
      s'.called = s.called ++ Entries.due es l := by
  cases l with
  | add timer t =>
    obtain ⟨timers, he, h'⟩ := h.add hok t
    refine ⟨{ s with timers }, ?_, h', (List.append_nil _).symm⟩
    simp only [State.step, he, Option.bind_eq_bind, Option.bind_some]
    rfl
  | adjust timer expire =>
    obtain ⟨heap, timers, he₁, he₂, h'⟩ := h.adjust hok expire
    refine ⟨{ s with timers }, ?_, h', (List.append_nil _).symm⟩
    simp only [State.step, he₁, he₂, Option.bind_eq_bind, Option.bind_some]
    rfl
  | del timer =>
    obtain ⟨timers, he, h'⟩ := h.del hok
    refine ⟨{ s with timers }, ?_, h', (List.append_nil _).symm⟩
    simp only [State.step, he, Option.bind_eq_bind, Option.bind_some]
    rfl
  | tick now =>
    obtain ⟨timers, he, h'⟩ := h.tick now s.called h.length_le
    refine ⟨{ timers, called := s.called ++ es.takeWhile (Entries.endsBy now) }, ?_, h', rfl⟩
    simp only [State.step, he, Option.bind_eq_bind, Option.bind_some]
    rfl

/-- **A run** does to the heap what it does to the entries. -/
theorem Refines.run {s : State} {es : List Entry} {ls : List Label} (h : Refines s.timers es)
    (hok : Machine.Along State.step State.Allowed s ls) : ∃ s',
      Machine.run State.step s ls = some s' ∧ Refines s'.timers (ls.foldl Entries.step es) := by
  induction ls generalizing s es with
  | nil => exact ⟨s, rfl, h⟩
  | cons l ls ih =>
    obtain ⟨s₁, he, h₁, -⟩ := h.step hok.1
    obtain ⟨s', he', h'⟩ := ih h₁ (hok.2 s₁ he)
    refine ⟨s', ?_, h'⟩
    rw [Machine.run, he]
    exact he'

/-! ## The event loop -/

open Slots (Server)

theorem cbFunc_timers (s : Server) (timers : SortTimerLst) (userData : Nat) :
    ({ s with timers } : Server).cbFunc userData = { s.cbFunc userData with timers } := by
  simp only [Server.cbFunc]
  split
  · rfl
  · simp only [Server.close]
    split
    · rfl
    · rfl

/-- `tick` of the event loop is this `tick`, with `cb_func` done for the timers called. -/
theorem tickLoop_slots {now : Int} {fuel : Nat} {tmp : Option Nat} {s : Server}
    {called called' : List Entry} {timers : SortTimerLst}
    (h : SortTimerLst.tickLoop now fuel tmp s.timers called = some (timers, called')) :
    ∃ due, called' = called ++ due ∧ Server.tickLoop now fuel tmp s =
      some { due.foldl (fun s e => s.cbFunc e.2.userData) s with timers } := by
  induction fuel generalizing tmp s called with
  | zero =>
    cases tmp with
    | none =>
      cases h
      exact ⟨[], (List.append_nil _).symm, rfl⟩
    | some tmp => cases h
  | succ fuel ih =>
    cases tmp with
    | none =>
      cases h
      exact ⟨[], (List.append_nil _).symm, rfl⟩
    | some tmp =>
      obtain ⟨tmp', hlookup, h⟩ := Option.bind_eq_some_iff.mp h
      simp only [Server.tickLoop, hlookup, Option.bind_eq_bind, Option.bind_some]
      split at h
      · rename_i hlater
        cases h
        exact ⟨[], (List.append_nil _).symm, if_pos hlater⟩
      · rename_i hdue
        obtain ⟨timers₁, hpop, h⟩ := Option.bind_eq_some_iff.mp h
        have hcb : (s.cbFunc tmp'.val.userData).timers = s.timers :=
          (congrArg Server.timers (cbFunc_timers s s.timers tmp'.val.userData) :)
        obtain ⟨due, rfl, he⟩ := ih (s := { s.cbFunc tmp'.val.userData with timers := timers₁ }) h
        refine ⟨(tmp, tmp'.val) :: due, by simp, ?_⟩
        rw [if_neg hdue, hcb, hpop, Option.bind_some, he, List.foldl_cons]
        have hfold : ∀ (es : List Entry) (s : Server),
            ({ es.foldl (fun s e => s.cbFunc e.2.userData) { s with timers := timers₁ } with timers } :
              Server) = { es.foldl (fun s e => s.cbFunc e.2.userData) s with timers } := by
          intro es
          induction es with
          | nil => intro s; rfl
          | cons e es ih =>
            intro s
            rw [List.foldl_cons, List.foldl_cons, cbFunc_timers, ih]
        rw [hfold]

/-! ## A clock that does not go back -/

open Slots (TIMESLOT)

/-- What `time` said, where the operation asks for it: `expire` is three slots later. -/
def Label.now : Label → Option Int
  | .add _ t => some (t.expire - 3 * TIMESLOT)
  | .adjust _ expire => some (expire - 3 * TIMESLOT)
  | .del _ => none
  | .tick now => some now

/-- The readings never go back. -/
def Forward (ls : List Label) : Prop := (ls.filterMap Label.now).Pairwise (· ≤ ·)

instance (ls : List Label) : Decidable (Forward ls) := inferInstanceAs (Decidable (List.Pairwise _ _))

/-- The list is sorted, and no timer ends later than three slots after the last reading. -/
structure InOrder (ls : List Label) (es : List Entry) : Prop where
  sorted : Entries.Sorted es
  bounded : ∀ e ∈ es, ∃ now ∈ ls.filterMap Label.now, e.2.expire ≤ now + 3 * TIMESLOT

theorem InOrder.step {ls : List Label} {es : List Entry} {l : Label} (h : InOrder ls es)
    (hclock : Forward (ls ++ [l])) : InOrder (ls ++ [l]) (Entries.step es l) := by
  -- a time that is set now is not before any other
  have hlatest : ∀ now, l.now = some now → ∀ e ∈ es, e.2.expire ≤ now + 3 * TIMESLOT := by
    intro now hnow e he
    obtain ⟨r, hr, hle⟩ := h.bounded e he
    rw [Forward, List.filterMap_append, List.pairwise_append] at hclock
    have := hclock.2.2 r hr now (by simp [hnow])
    omega
  have hold : ∀ e ∈ es, ∃ now ∈ (ls ++ [l]).filterMap Label.now,
      e.2.expire ≤ now + 3 * TIMESLOT := by
    intro e he
    obtain ⟨r, hr, hle⟩ := h.bounded e he
    exact ⟨r, by rw [List.filterMap_append]; exact List.mem_append_left _ hr, hle⟩
  have hnew : ∀ now, l.now = some now → ∀ expire, expire ≤ now + 3 * TIMESLOT →
      ∃ now ∈ (ls ++ [l]).filterMap Label.now, expire ≤ now + 3 * TIMESLOT := by
    intro now hnow expire hle
    refine ⟨now, ?_, hle⟩
    rw [List.filterMap_append]
    exact List.mem_append_right _ (by simp [hnow])
  cases l with
  | add timer t =>
    refine ⟨h.sorted.place _, ?_⟩
    intro e he
    rcases List.mem_cons.mp ((Entries.place_perm _ es).mem_iff.mp he) with rfl | he
    · exact hnew _ rfl t.expire (by omega)
    · exact hold e he
  | adjust timer expire =>
    refine ⟨h.sorted.adjust fun e he => ?_, ?_⟩
    · have := hlatest _ rfl e he
      omega
    · intro e he
      rcases Entries.mem_adjust he with hexp | he
      · exact hnew _ rfl _ (by omega)
      · exact hold e he
  | del timer => exact ⟨h.sorted.filter _, fun e he => hold e (List.mem_filter.mp he).1⟩
  | tick now =>
    have hsub := List.dropWhile_sublist (l := es) (Entries.endsBy now)
    exact ⟨h.sorted.sublist hsub, fun e he => hold e (hsub.mem he)⟩

theorem inOrder_run {ls : List Label} (hclock : Forward ls) :
    InOrder ls (ls.foldl Entries.step []) := by
  induction ls using List.reverseRecOn with
  | nil => exact ⟨.nil, fun e he => by cases he⟩
  | append_singleton ls l ih =>
    have hbefore : Forward ls := by
      rw [Forward, List.filterMap_append, List.pairwise_append] at hclock
      exact hclock.1
    rw [List.foldl_append]
    exact (ih hbefore).step hclock

/-- **The timer list**, after any sequence of the four operations. From `head` by `next` one comes
through the timers that were added and neither deleted nor called since, each once, with `prev` and
`tail` to match, and no other timer is allocated; and if the clock never goes back, the list is
sorted, and the next `tick` calls and frees the timers that are due, each once, and no other. -/
theorem timers_kept (ls : List Label) (hok : Machine.Along State.step State.Allowed {} ls) :
    ∃ (s : State) (es : List Entry), es = ls.foldl Entries.step [] ∧
      Machine.run State.step {} ls = some s ∧ SortTimerLst.Repr s.timers (es.map Prod.fst) ∧
      (∀ a v, s.timers.heap.val a = some v ↔ (a, v) ∈ es) ∧
      (Forward ls → es.Pairwise (fun e e' => e.2.expire ≤ e'.2.expire) ∧
        ∀ now, ∃ s', s.step (.tick now) = some s' ∧
          s'.called = s.called ++ es.filter (fun e => decide (e.2.expire ≤ now)) ∧
          SortTimerLst.Repr s'.timers
            ((es.filter fun e => !decide (e.2.expire ≤ now)).map Prod.fst) ∧
          ∀ a v, s'.timers.heap.val a = some v ↔ (a, v) ∈ es ∧ now < v.expire) := by
  obtain ⟨s, hr, h⟩ := Refines.run Refines.empty hok
  refine ⟨s, ls.foldl Entries.step [], rfl, hr, h.repr, h.val, ?_⟩
  intro hclock
  have hsorted := (inOrder_run hclock).sorted
  refine ⟨hsorted, ?_⟩
  intro now
  obtain ⟨s', he, h', hcalled⟩ := h.step (l := .tick now) trivial
  obtain ⟨htake, hdrop⟩ := hsorted.takeWhile_eq now
  rw [Entries.due, htake] at hcalled
  rw [Entries.step, hdrop] at h'
  refine ⟨s', he, hcalled, h'.repr, ?_⟩
  intro a v
  rw [h'.val, List.mem_filter]
  simp [Entries.endsBy]

/-- Three timers, the first of them put off and the third deleted, and a tick that finds the second
one due. -/
def putOff : List Label :=
  [.add 1 ⟨15, 4⟩, .add 2 ⟨17, 5⟩, .add 3 ⟨17, 6⟩, .adjust 1 20, .del 3, .tick 17]

theorem timers_kept_putOff : ∃ s, Machine.run State.step {} putOff = some s ∧
    s.called = [(2, ⟨17, 5⟩)] ∧ SortTimerLst.Repr s.timers [1] ∧
      s.timers.heap.val 1 = some ⟨20, 4⟩ ∧ s.timers.heap.val 3 = none := by
  obtain ⟨s, es, he, hr, hrepr, -, -⟩ := timers_kept putOff (by decide)
  have hs := hr
  cases hs
  have hentries : putOff.foldl Entries.step [] = [(1, ⟨20, 4⟩)] := by decide
  rw [he, hentries] at hrepr
  exact ⟨_, rfl, rfl, hrepr, rfl, rfl⟩

end Timers
end UrlShortener
