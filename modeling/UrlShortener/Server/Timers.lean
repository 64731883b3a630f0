import UrlShortener.Base.DoublyLinked

/-!
# UrlShortener.Server.Timers

`sort_timer_lst`, on the level of its pointers. The functions are partial: `none` is an access
through a null or freed pointer. `tick` closes connections while it walks the list, so it is with
the connection slots in `UrlShortener.Server.Slots`.

`Repr s l` says that `s` is the doubly linked list of the timers `l`. When `tick` has emptied the
list, `tail` still points to the last timer it freed; so `Repr` says what `tail` is only when the
list is not empty, which is all that `add_timer` and `del_timer` need.
-/

namespace UrlShortener
namespace Timers

open DoublyLinked

/-- `util_timer` without its links; `userData` is the index of the slot `user_data` points to. -/
structure UtilTimer where
  expire : Int
  userData : Nat
deriving DecidableEq

structure SortTimerLst where
  heap : Heap UtilTimer := ∅
  head : Option Nat := none
  tail : Option Nat := none

namespace SortTimerLst

/-- After the loop of the private `add_timer`, when it has run to the end of the list. -/
def linkLast (s : SortTimerLst) (timer : Nat) (prev : Option Nat) : Option SortTimerLst := do
  let heap ← s.heap.setNext prev (some timer)
  let heap ← heap.setPrev (some timer) prev
  let heap ← heap.setNext (some timer) none
  return { s with heap, tail := some timer }

/-- In the loop, when `tmp` ends later. -/
def linkBefore (s : SortTimerLst) (timer : Nat) (prev : Option Nat) (tmp : Nat) :
    Option SortTimerLst := do
  let heap ← s.heap.setNext prev (some timer)
  let heap ← heap.setNext (some timer) (some tmp)
  let heap ← heap.setPrev (some tmp) (some timer)
  let heap ← heap.setPrev (some timer) prev
  return { s with heap }

/-- The loop. It passes each timer of the list at most once, so the number of timers is enough
`fuel`. -/
def addLoop (timer : Nat) : Nat → Option Nat → Option Nat → SortTimerLst → Option SortTimerLst
  | 0, _, _, _ => none
  | fuel + 1, prev, tmp, s =>
    match tmp with
    | none => s.linkLast timer prev
    | some tmp => do
      let timer' ← s.heap.lookup timer
      let tmp' ← s.heap.lookup tmp
      if timer'.val.expire < tmp'.val.expire then s.linkBefore timer prev tmp
      else addLoop timer fuel (some tmp) tmp'.next s

/-- `add_timer(timer, lst_head)`. -/
def addTimerFrom (s : SortTimerLst) (timer : Nat) (lstHead : Option Nat) : Option SortTimerLst := do
  let prev ← s.heap.read lstHead
  addLoop timer s.heap.keys.length lstHead prev.next s

def addTimer (s : SortTimerLst) : Option Nat → Option SortTimerLst
  | none => some s
  | some timer =>
    match s.head with
    | none => some { s with head := some timer, tail := some timer }
    | some head => do
      let timer' ← s.heap.lookup timer
      let head' ← s.heap.lookup head
      if timer'.val.expire < head'.val.expire then
        let heap ← s.heap.setNext (some timer) (some head)
        let heap ← heap.setPrev (some head) (some timer)
        return { s with heap, head := some timer }
      else s.addTimerFrom timer s.head

/-- Whether `adjust_timer` leaves the timer where it is. -/
def inPlace (s : SortTimerLst) (timer : Node UtilTimer) : Option Bool :=
  match timer.next with
  | none => some true
  | some tmp => do
    let tmp' ← s.heap.lookup tmp
    return decide (timer.val.expire < tmp'.val.expire)

def adjustTimer (s : SortTimerLst) : Option Nat → Option SortTimerLst
  | none => some s
  | some timer => do
    let timer' ← s.heap.lookup timer
    if ← s.inPlace timer' then return s
    else if some timer = s.head then
      let heap ← s.heap.setPrev timer'.next none
      let heap ← heap.setNext (some timer) none
      { s with heap, head := timer'.next }.addTimerFrom timer timer'.next
    else
      let heap ← s.heap.setNext timer'.prev timer'.next
      let heap ← heap.setPrev timer'.next timer'.prev
      { s with heap }.addTimerFrom timer timer'.next

def delTimer (s : SortTimerLst) : Option Nat → Option SortTimerLst
  | none => some s
  | some timer =>
    if some timer = s.head ∧ some timer = s.tail then do
      let heap ← s.heap.free timer
      return { heap, head := none, tail := none }
    else if some timer = s.head then do
      let timer' ← s.heap.lookup timer
      let heap ← s.heap.setPrev timer'.next none
      let heap ← heap.free timer
      return { s with heap, head := timer'.next }
    else if some timer = s.tail then do
      let timer' ← s.heap.lookup timer
      let heap ← s.heap.setNext timer'.prev none
      let heap ← heap.free timer
      return { s with heap, tail := timer'.prev }
    else do
      let timer' ← s.heap.lookup timer
      let heap ← s.heap.setNext timer'.prev timer'.next
      let heap ← heap.setPrev timer'.next timer'.prev
      let heap ← heap.free timer
      return { s with heap }

/-- What `tick` does with a timer whose time has come, after its `cb_func`. -/
def popHead (s : SortTimerLst) (tmp : Nat) : Option SortTimerLst := do
  let tmp' ← s.heap.lookup tmp
  let heap ← match tmp'.next with
    | none => some s.heap
    | some head => s.heap.setPrev (some head) none
  let heap ← heap.free tmp
  return { s with heap, head := tmp'.next }

/-! ## The list -/

structure Repr (s : SortTimerLst) (l : List Nat) : Prop where
  seg : Seg s.heap none l none
  nodup : l.Nodup
  head_eq : s.head = l.head?
  tail_eq : l ≠ [] → s.tail = l.getLast?

theorem repr_empty : Repr {} [] := ⟨trivial, .nil, rfl, fun h => absurd rfl h⟩

variable {s : SortTimerLst} {l l₁ l₂ : List Nat} {a c timer : Nat}

theorem linkLast_spec {node : Node UtilTimer} (hr : Repr s (l₁ ++ [c])) (hnot : timer ∉ l₁ ++ [c])
    (hin : s.heap.lookup timer = some node) : ∃ s', s.linkLast timer (some c) = some s' ∧
      Repr s' (l₁ ++ [c] ++ [timer]) ∧ Heap.SameVals s.heap s'.heap := by
  have hne : timer ≠ c := fun he => hnot (by simp [he])
  obtain ⟨h₁, he₁, hs₁, hv₁, hf₁⟩ := hr.seg.setNext hr.nodup (some timer)
  obtain ⟨h₂, he₂, hl₂, hv₂, hf₂⟩ := Heap.setPrev_spec ((hf₁ timer hne).trans hin) (some c)
  obtain ⟨h₃, he₃, hl₃, hv₃, hf₃⟩ := Heap.setNext_spec hl₂ none
  refine ⟨{ s with heap := h₃, tail := some timer }, by simp [linkLast, he₁, he₂, he₃],
    ⟨?_, ?_, ?_, ?_⟩, hv₁.trans (hv₂.trans hv₃)⟩
  · refine seg_concat.mpr ⟨(hs₁.frame hf₂ hnot).frame hf₃ hnot, node.val, ?_⟩
    simpa using hl₃
  · refine List.nodup_append.mpr ⟨hr.nodup, by simp, ?_⟩
    rintro b hb b' hb' rfl
    exact hnot (List.mem_singleton.mp hb' ▸ hb)
  · rw [List.head?_append_of_ne_nil _ (by simp)]
    exact hr.head_eq
  · intro _
    simp

theorem linkBefore_spec {node : Node UtilTimer} {tmp : Nat} (hr : Repr s (l₁ ++ [c] ++ tmp :: l₂))
    (hnot : timer ∉ l₁ ++ [c] ++ tmp :: l₂) (hin : s.heap.lookup timer = some node) : ∃ s',
      s.linkBefore timer (some c) tmp = some s' ∧
        Repr s' (l₁ ++ [c] ++ timer :: tmp :: l₂) ∧ Heap.SameVals s.heap s'.heap := by
  obtain ⟨hnd₁, hnd₂, hdisj⟩ := List.nodup_append.mp hr.nodup
  obtain ⟨hsA, hsB⟩ := seg_append.mp hr.seg
  rw [List.mem_append, not_or] at hnot
  have hne : timer ≠ c := fun he => hnot.1 (by simp [he])
  have hne' : timer ≠ tmp := fun he => hnot.2 (by simp [he])
  have hcB : c ∉ tmp :: l₂ := fun hc => hdisj c (by simp) c hc rfl
  have htA : tmp ∉ l₁ ++ [c] := fun ht => hdisj tmp ht tmp (by simp) rfl
  obtain ⟨h₁, he₁, hs₁, hv₁, hf₁⟩ := hsA.setNext hnd₁ (some timer)
  obtain ⟨h₂, he₂, hl₂, hv₂, hf₂⟩ := Heap.setNext_spec ((hf₁ timer hne).trans hin) (some tmp)
  obtain ⟨h₃, he₃, hs₃, hv₃, hf₃⟩ :=
    ((hsB.frame hf₁ hcB).frame hf₂ hnot.2).setPrev hnd₂ (some timer)
  obtain ⟨h₄, he₄, hl₄, hv₄, hf₄⟩ := Heap.setPrev_spec ((hf₃ timer hne').trans hl₂) (some c)
  refine ⟨{ s with heap := h₄ }, by simp [linkBefore, he₁, he₂, he₃, he₄], ⟨?_, ?_, ?_, ?_⟩,
    hv₁.trans (hv₂.trans (hv₃.trans hv₄))⟩
  · refine seg_middle.mpr ⟨((hs₁.frame hf₂ hnot.1).frame hf₃ htA).frame hf₄ hnot.1,
      ⟨node.val, ?_⟩, hs₃.frame hf₄ hnot.2⟩
    simpa using hl₄
  · refine List.nodup_append.mpr ⟨hnd₁, List.nodup_cons.mpr ⟨hnot.2, hnd₂⟩, ?_⟩
    rintro b hb b' hb' rfl
    rcases List.mem_cons.mp hb' with rfl | hb'
    · exact hnot.1 hb
    · exact hdisj b hb b hb' rfl
  · rw [List.head?_append_of_ne_nil _ (by simp)]
    simpa using hr.head_eq
  · intro _
    have := hr.tail_eq (by simp)
    simpa [List.getLast?_append] using this

/-- The place for a timer that ends at `expire`: behind those that do not end later, before the
first one that does. -/
structure Place (h : Heap UtilTimer) (expire : Int) (m₁ m₂ : List Nat) : Prop where
  before : ∀ b ∈ m₁, ∀ v, h.val b = some v → v.expire ≤ expire
  behind : ∀ b ∈ m₂.head?, ∀ v, h.val b = some v → expire < v.expire

theorem Place.first {h : Heap UtilTimer} {expire : Int} {b : Nat} {node : Node UtilTimer}
    (hb : h.lookup b = some node) (hlt : expire < node.val.expire) : Place h expire [] (b :: l) := by
  constructor
  · intro c hc
    cases hc
  · intro c hc v hv
    obtain rfl : b = c := Option.some.inj hc
    rw [Heap.val, hb] at hv
    cases hv
    exact hlt

theorem Place.last (h : Heap UtilTimer) (expire : Int) : Place h expire [] [] := by
  constructor
  · intro c hc
    cases hc
  · intro c hc
    cases hc

theorem Place.cons {h : Heap UtilTimer} {expire : Int} {b : Nat} {node : Node UtilTimer}
    {m₁ m₂ : List Nat} (hp : Place h expire m₁ m₂) (hb : h.lookup b = some node)
    (hle : ¬ expire < node.val.expire) : Place h expire (b :: m₁) m₂ := by
  refine ⟨?_, hp.behind⟩
  intro c hc v hv
  rcases List.mem_cons.mp hc with rfl | hc
  · rw [Heap.val, hb] at hv
    cases hv
    exact Int.not_lt.mp hle
  · exact hp.before c hc v hv

theorem Place.congr {h h' : Heap UtilTimer} {expire : Int} {m₁ m₂ : List Nat}
    (hp : Place h' expire m₁ m₂) (hv : Heap.SameVals h h') : Place h expire m₁ m₂ :=
  ⟨fun b hb v hbv => hp.before b hb v ((hv b).trans hbv),
    fun b hb v hbv => hp.behind b hb v ((hv b).trans hbv)⟩

/-- **The loop of `add_timer`** puts the timer behind `c`, in its place. -/
theorem addLoop_spec {node : Node UtilTimer} (hin : s.heap.lookup timer = some node) :
    ∀ {l₂ l₁ : List Nat} {c : Nat} (fuel : Nat), Repr s (l₁ ++ [c] ++ l₂) → timer ∉ l₁ ++ [c] ++ l₂ →
      l₂.length < fuel →
      ∃ s' m₁ m₂, addLoop timer fuel (some c) l₂.head? s = some s' ∧ l₂ = m₁ ++ m₂ ∧
        Place s.heap node.val.expire m₁ m₂ ∧
        Repr s' (l₁ ++ [c] ++ m₁ ++ timer :: m₂) ∧ Heap.SameVals s.heap s'.heap := by
  intro l₂
  induction l₂ with
  | nil =>
    intro l₁ c fuel hr hnot hfuel
    obtain ⟨fuel, rfl⟩ := Nat.exists_eq_succ_of_ne_zero (Nat.ne_of_gt (Nat.zero_lt_of_lt hfuel))
    rw [List.append_nil] at hr hnot
    obtain ⟨s', he, hr', hv⟩ := linkLast_spec hr hnot hin
    exact ⟨s', [], [], he, rfl, .last _ _, by simpa using hr', hv⟩
  | cons tmp l₂ ih =>
    intro l₁ c fuel hr hnot hfuel
    obtain ⟨fuel, rfl⟩ := Nat.exists_eq_succ_of_ne_zero (Nat.ne_of_gt (Nat.zero_lt_of_lt hfuel))
    obtain ⟨-, ⟨v, htmp⟩, -⟩ := seg_middle.mp hr.seg
    simp only [addLoop, List.head?_cons, hin, htmp, Option.bind_eq_bind, Option.bind_some]
    split
    · rename_i hlt
      obtain ⟨s', he, hr', hv⟩ := linkBefore_spec hr hnot hin
      exact ⟨s', [], tmp :: l₂, he, rfl, .first htmp hlt, by simpa using hr', hv⟩
    · rename_i hle
      have hassoc : l₁ ++ [c] ++ tmp :: l₂ = l₁ ++ [c] ++ [tmp] ++ l₂ := by simp
      rw [hassoc] at hr hnot
      obtain ⟨s', m₁, m₂, he, hl, hp, hr', hv⟩ := ih fuel hr hnot (Nat.lt_of_succ_lt_succ hfuel)
      refine ⟨s', tmp :: m₁, m₂, ?_, by rw [hl]; rfl, hp.cons htmp hle, by simpa using hr', hv⟩
      rw [Option.or_none]
      exact he

theorem addTimerFrom_spec {node : Node UtilTimer} (hin : s.heap.lookup timer = some node)
    (hr : Repr s (l₁ ++ [c] ++ l₂)) (hnot : timer ∉ l₁ ++ [c] ++ l₂) :
    ∃ s' m₁ m₂, s.addTimerFrom timer (some c) = some s' ∧ l₂ = m₁ ++ m₂ ∧
      Place s.heap node.val.expire m₁ m₂ ∧
      Repr s' (l₁ ++ [c] ++ m₁ ++ timer :: m₂) ∧ Heap.SameVals s.heap s'.heap := by
  have hseg := hr.seg
  rw [List.append_assoc, List.singleton_append, seg_middle] at hseg
  obtain ⟨-, ⟨v, hc⟩, -⟩ := hseg
  have hlen := hr.seg.length_le hr.nodup
  simp only [List.length_append, List.length_singleton] at hlen
  obtain ⟨s', m₁, m₂, he, h⟩ := addLoop_spec hin s.heap.keys.length hr hnot (by omega)
  refine ⟨s', m₁, m₂, ?_, h⟩
  simpa [addTimerFrom, Heap.read, hc] using he

/-- **`add_timer`** puts a timer in its place. -/
theorem addTimer_place {v : UtilTimer} (hr : Repr s l) (hnot : timer ∉ l)
    (hin : s.heap.lookup timer = some ⟨v, none, none⟩) : ∃ s' m₁ m₂,
      s.addTimer (some timer) = some s' ∧ l = m₁ ++ m₂ ∧ Place s.heap v.expire m₁ m₂ ∧
        Repr s' (m₁ ++ timer :: m₂) ∧ Heap.SameVals s.heap s'.heap := by
  cases l with
  | nil =>
    have hhead : s.head = none := hr.head_eq
    exact ⟨{ s with head := some timer, tail := some timer }, [], [], by simp [addTimer, hhead],
      rfl, .last _ _, ⟨⟨⟨v, hin⟩, trivial⟩, by simp, rfl, fun _ => rfl⟩, .refl _⟩
  | cons head l₂ =>
    have hhead : s.head = some head := hr.head_eq
    obtain ⟨⟨w, hhd⟩, -⟩ := hr.seg
    simp only [addTimer, hhead, hin, hhd, Option.bind_eq_bind, Option.bind_some]
    split
    · rename_i hlt
      have hne : head ≠ timer := fun he => hnot (by simp [he])
      obtain ⟨h₁, he₁, hl₁, hv₁, hf₁⟩ := Heap.setNext_spec hin (some head)
      obtain ⟨h₂, he₂, hs₂, hv₂, hf₂⟩ := (hr.seg.frame hf₁ hnot).setPrev hr.nodup (some timer)
      refine ⟨{ s with heap := h₂, head := some timer }, [], head :: l₂, by simp [he₁, he₂],
        rfl, .first hhd hlt, ⟨⟨⟨v, ?_⟩, hs₂⟩, List.nodup_cons.mpr ⟨hnot, hr.nodup⟩, rfl, ?_⟩,
        hv₁.trans hv₂⟩
      · rw [hf₂ timer (Ne.symm hne), hl₁]
        rfl
      · intro _
        rw [List.nil_append, List.getLast?_cons_cons]
        exact hr.tail_eq (by simp)
    · rename_i hle
      obtain ⟨s', m₁, m₂, he, hl, hp, hr', hv⟩ := @addTimerFrom_spec _ [] _ _ _ _ hin hr hnot
      exact ⟨s', head :: m₁, m₂, he, by rw [hl]; rfl, hp.cons hhd hle, hr', hv⟩

theorem addTimer_spec {v : UtilTimer} (hr : Repr s l) (hnot : timer ∉ l)
    (hin : s.heap.lookup timer = some ⟨v, none, none⟩) : ∃ s' l',
      s.addTimer (some timer) = some s' ∧ l'.Perm (timer :: l) ∧ Repr s' l' ∧
        Heap.SameVals s.heap s'.heap := by
  obtain ⟨s', m₁, m₂, he, rfl, -, hr', hv⟩ := addTimer_place hr hnot hin
  exact ⟨s', m₁ ++ timer :: m₂, he, List.perm_middle, hr', hv⟩

theorem Repr.head_ne (hr : Repr s (l₁ ++ [c] ++ a :: l₂)) : some a ≠ s.head := by
  rw [hr.head_eq, List.head?_append_of_ne_nil _ (by simp)]
  intro he
  have hmem : a ∈ l₁ ++ [c] := List.mem_of_mem_head? he.symm
  exact (List.nodup_append.mp hr.nodup).2.2 a hmem a (by simp) rfl

theorem Repr.tail_ne {b : Nat} (hr : Repr s (l₁ ++ a :: b :: l₂)) : some a ≠ s.tail := by
  rw [hr.tail_eq (by simp), List.getLast?_append_of_ne_nil _ (by simp), List.getLast?_cons_cons]
  intro he
  have hmem : a ∈ b :: l₂ := List.mem_of_mem_getLast? he.symm
  exact (List.nodup_cons.mp (List.nodup_append.mp hr.nodup).2.1).1 hmem

theorem Repr.unlink {b : Nat} (hr : Repr s (l₁ ++ [c] ++ a :: b :: l₂)) : ∃ h₁ h₂,
    s.heap.setNext (some c) (some b) = some h₁ ∧ h₁.setPrev (some b) (some c) = some h₂ ∧
      Repr { s with heap := h₂ } (l₁ ++ [c] ++ b :: l₂) ∧ Heap.SameVals s.heap h₂ ∧
        h₂.lookup a = s.heap.lookup a := by
  obtain ⟨h₁, h₂, he₁, he₂, hs, hv, ha⟩ := hr.seg.unlink hr.nodup
  refine ⟨h₁, h₂, he₁, he₂, ⟨hs, ?_, ?_, ?_⟩, hv, ha⟩
  · exact hr.nodup.sublist (List.Sublist.append_left (List.sublist_cons_self a _) _)
  · rw [List.head?_append_of_ne_nil _ (by simp)]
    have := hr.head_eq
    rwa [List.head?_append_of_ne_nil _ (by simp)] at this
  · intro _
    have := hr.tail_eq (by simp)
    rw [List.getLast?_append_of_ne_nil _ (by simp), List.getLast?_cons_cons] at this
    rwa [List.getLast?_append_of_ne_nil _ (by simp)]

/-- Taking the first timer out, up to its deletion. -/
theorem Repr.uncons {b : Nat} (hr : Repr s (a :: b :: l₂)) : ∃ h₁,
    s.heap.setPrev (some b) none = some h₁ ∧
      Repr { s with heap := h₁, head := some b } (b :: l₂) ∧ Heap.SameVals s.heap h₁ ∧
        h₁.lookup a = s.heap.lookup a := by
  obtain ⟨hab, hnd⟩ := List.nodup_cons.mp hr.nodup
  obtain ⟨h₁, he₁, hs₁, hv₁, hf₁⟩ := hr.seg.2.setPrev hnd none
  refine ⟨h₁, he₁, ⟨hs₁, hnd, rfl, ?_⟩, hv₁, hf₁ a fun he => hab (by simp [he])⟩
  intro _
  have := hr.tail_eq (by simp)
  rwa [List.getLast?_cons_cons] at this

/-- **`adjust_timer`** moves a timer to its place among those behind it. -/
theorem adjustTimer_place {v : UtilTimer} (hr : Repr s (l₁ ++ a :: l₂))
    (hval : s.heap.val a = some v) : ∃ s' m₁ m₂,
      s.adjustTimer (some a) = some s' ∧ l₂ = m₁ ++ m₂ ∧ Place s.heap v.expire m₁ m₂ ∧
        Repr s' (l₁ ++ m₁ ++ a :: m₂) ∧ Heap.SameVals s.heap s'.heap := by
  obtain ⟨-, ⟨u, ha⟩, -⟩ := seg_middle.mp hr.seg
  obtain rfl : u = v := by simpa [Heap.val, ha] using hval
  have hnot := (List.nodup_middle.mp hr.nodup)
  cases l₂ with
  | nil =>
    refine ⟨s, [], [], ?_, rfl, .last _ _, by simpa using hr, .refl _⟩
    simp [adjustTimer, ha, inPlace]
  | cons b l₂ =>
    obtain ⟨-, ⟨w, hb⟩, -⟩ := seg_middle.mp (List.append_cons l₁ a (b :: l₂) ▸ hr.seg)
    by_cases hplace : u.expire < w.expire
    · refine ⟨s, [], b :: l₂, ?_, rfl, .first hb hplace, by simpa using hr, .refl _⟩
      simp [adjustTimer, ha, inPlace, hb, hplace]
    · rcases List.eq_nil_or_concat l₁ with rfl | ⟨l₁, c, rfl⟩
      · obtain ⟨h₁, he₁, hr₁, hv₁, ha₁⟩ := hr.uncons
        obtain ⟨h₂, he₂, hl₂, hv₂, hf₂⟩ := Heap.setNext_spec (ha₁.trans ha) none
        have hab : a ∉ b :: l₂ := (List.nodup_cons.mp hr.nodup).1
        have hr₂ : Repr { s with heap := h₂, head := some b } (b :: l₂) :=
          ⟨hr₁.seg.frame hf₂ hab, hr₁.nodup, rfl, hr₁.tail_eq⟩
        obtain ⟨s', m₁, m₂, he, hl, hp, hr', hv⟩ := @addTimerFrom_spec _ [] _ _ _ _ hl₂ hr₂ hab
        refine ⟨s', b :: m₁, m₂, ?_, by rw [hl]; rfl, (hp.congr (hv₁.trans hv₂)).cons hb hplace,
          hr', hv₁.trans (hv₂.trans hv)⟩
        have hhead : s.head = some a := hr.head_eq
        simpa [adjustTimer, ha, inPlace, hb, hplace, hhead, he₁, he₂] using he
      · rw [List.concat_eq_append] at *
        obtain ⟨h₁, h₂, he₁, he₂, hr₂, hv₂, ha₂⟩ := hr.unlink
        have hab : a ∉ l₁ ++ [c] ++ [b] ++ l₂ := by simpa using (List.nodup_cons.mp hnot).1
        obtain ⟨s', m₁, m₂, he, hl, hp, hr', hv⟩ := addTimerFrom_spec (ha₂.trans ha)
          (List.append_cons (l₁ ++ [c]) b l₂ ▸ hr₂) hab
        refine ⟨s', b :: m₁, m₂, ?_, by rw [hl]; rfl, (hp.congr hv₂).cons hb hplace,
          by simpa using hr', hv₂.trans hv⟩
        have hhead := hr.head_ne
        simpa [adjustTimer, ha, inPlace, hb, hplace, hhead, he₁, he₂] using he

theorem adjustTimer_spec (hr : Repr s (l₁ ++ a :: l₂)) : ∃ s' l',
    s.adjustTimer (some a) = some s' ∧ l'.Perm (l₁ ++ a :: l₂) ∧ Repr s' l' ∧
      Heap.SameVals s.heap s'.heap := by
  obtain ⟨-, ⟨v, ha⟩, -⟩ := seg_middle.mp hr.seg
  obtain ⟨s', m₁, m₂, he, rfl, -, hr', hv⟩ :=
    adjustTimer_place hr (v := v) (by rw [Heap.val, ha]; rfl)
  refine ⟨s', l₁ ++ m₁ ++ a :: m₂, he, ?_, hr', hv⟩
  rw [List.append_assoc]
  exact List.perm_middle.append_left l₁

/-- Deleting a timer that is out of the list. -/
theorem Repr.free {node : Node UtilTimer} (hr : Repr s l) (ha : a ∉ l)
    (hnode : s.heap.lookup a = some node) : ∃ h', s.heap.free a = some h' ∧
      Repr { s with heap := h' } l ∧ ∀ b, h'.val b = if b = a then none else s.heap.val b := by
  obtain ⟨h', he, hv, hf⟩ := Heap.free_spec hnode
  exact ⟨h', he, ⟨hr.seg.frame hf ha, hr.nodup, hr.head_eq, hr.tail_eq⟩, hv⟩

/-- **`del_timer`** takes one timer out and frees it. -/
theorem delTimer_spec (hr : Repr s (l₁ ++ a :: l₂)) : ∃ s',
    s.delTimer (some a) = some s' ∧ Repr s' (l₁ ++ l₂) ∧
      ∀ b, s'.heap.val b = if b = a then none else s.heap.val b := by
  obtain ⟨-, ⟨v, ha⟩, -⟩ := seg_middle.mp hr.seg
  have hnot : a ∉ l₁ ++ l₂ := (List.nodup_cons.mp (List.nodup_middle.mp hr.nodup)).1
  rcases List.eq_nil_or_concat l₁ with rfl | ⟨l₁, c, rfl⟩
  · have hhead : s.head = some a := hr.head_eq
    cases l₂ with
    | nil =>
      have htail : s.tail = some a := hr.tail_eq (by simp)
      obtain ⟨h', he, hv, -⟩ := Heap.free_spec ha
      refine ⟨{ heap := h', head := none, tail := none }, by simp [delTimer, hhead, htail, he],
        ⟨trivial, .nil, rfl, fun h => absurd rfl h⟩, hv⟩
    | cons b l₂ =>
      have htail := @Repr.tail_ne _ [] _ _ _ hr
      obtain ⟨h₁, he₁, hr₁, hv₁, ha₁⟩ := hr.uncons
      obtain ⟨h₂, he₂, hr₂, hv₂⟩ := hr₁.free hnot (ha₁.trans ha)
      refine ⟨_, ?_, hr₂, fun x => ?_⟩
      · simp [delTimer, hhead, htail, ha, he₁, he₂]
      · rw [hv₂, hv₁]
  · rw [List.concat_eq_append] at *
    have hhead := hr.head_ne
    cases l₂ with
    | nil =>
      have htail : s.tail = some a := (hr.tail_eq (by simp)).trans (by simp)
      obtain ⟨hsA, -, -⟩ := seg_middle.mp hr.seg
      have hnd : (l₁ ++ [c]).Nodup := (List.nodup_append.mp hr.nodup).1
      rw [List.append_nil] at hnot
      have hac : a ≠ c := fun he => hnot (by simp [he])
      obtain ⟨h₁, he₁, hs₁, hv₁, hf₁⟩ := hsA.setNext hnd none
      obtain ⟨h₂, he₂, hv₂, hf₂⟩ := Heap.free_spec ((hf₁ a hac).trans ha)
      refine ⟨{ s with heap := h₂, tail := some c }, ?_, ⟨?_, by simpa using hnd, ?_, ?_⟩, fun x => ?_⟩
      · simp [delTimer, hhead, htail, ha, he₁, he₂]
      · simpa using hs₁.frame hf₂ hnot
      · have := hr.head_eq
        rw [List.head?_append_of_ne_nil _ (by simp)] at this
        simpa using this
      · intro _
        simp
      · rw [hv₂, hv₁]
    | cons b l₂ =>
      have htail := Repr.tail_ne hr
      obtain ⟨h₁, h₂, he₁, he₂, hr₂, hv₂, ha₂⟩ := hr.unlink
      obtain ⟨h₃, he₃, hr₃, hv₃⟩ := hr₂.free hnot (ha₂.trans ha)
      refine ⟨_, ?_, hr₃, fun x => ?_⟩
      · simp [delTimer, hhead, htail, ha, he₁, he₂, he₃]
      · rw [hv₃, hv₂]

/-- **`tick`** takes the first timer out and frees it. -/
theorem popHead_spec (hr : Repr s (a :: l)) : ∃ s', s.popHead a = some s' ∧ Repr s' l ∧
    ∀ b, s'.heap.val b = if b = a then none else s.heap.val b := by
  obtain ⟨⟨v, ha⟩, hl⟩ := hr.seg
  obtain ⟨hnot, hnd⟩ := List.nodup_cons.mp hr.nodup
  cases l with
  | nil =>
    obtain ⟨h', he, hv, -⟩ := Heap.free_spec ha
    refine ⟨{ s with heap := h', head := none }, ?_, ⟨trivial, .nil, rfl, fun h => absurd rfl h⟩,
      hv⟩
    simp [popHead, ha, he]
  | cons b l =>
    obtain ⟨h₁, he₁, hr₁, hv₁, ha₁⟩ := hr.uncons
    obtain ⟨h₂, he₂, hr₂, hv₂⟩ := hr₁.free hnot (ha₁.trans ha)
    refine ⟨_, ?_, hr₂, fun x => ?_⟩
    · simp [popHead, ha, he₁, he₂]
    · rw [hv₂, hv₁]

end SortTimerLst
end Timers
end UrlShortener
