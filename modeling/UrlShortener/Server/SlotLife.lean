import UrlShortener.Server.Slots
import Mathlib.Data.List.Range

/-!
# UrlShortener.Server.SlotLife

The life of a connection slot over whole runs of the event loop.

`Tied s l` relates the slots to the timers `l` of the list: each open slot has one timer, which
points back to it, and every timer is the one of an open slot. `Ledger` keeps the books of the
accepted connections. Opening a slot adds a timer to `l` and closing one takes it out; where in the
list that happens only matters to the list itself.
-/

namespace UrlShortener
namespace Slots

open DoublyLinked Timers SortTimerLst

variable {s s' : Server} {l l' l₁ l₂ : List Nat} {fd a id : Nat}

/-- The slot a timer points to. -/
def Server.user (s : Server) (a : Nat) : Option Nat :=
  (s.timers.heap.val a).map UtilTimer.userData

structure Tied (s : Server) (l : List Nat) : Prop where
  repr : s.timers.Repr l
  /-- A timer in the list is the one its slot points to. -/
  node : ∀ a ∈ l, ∃ fd, s.user a = some fd ∧ (s.usersTimer fd).timer = some a
  /-- Every timer that is allocated is in the list. -/
  heap : ∀ a fd, s.user a = some fd → a ∈ l
  opened : ∀ fd a, (s.usersTimer fd).timer = some a → s.user a = some fd ∧
    (s.usersTimer fd).sockfd = fd ∧ 0 < fd ∧ fd < MAX_FD ∧ (s.files fd).isSome ∧
    s.epoll fd = true
  closed : ∀ fd, (s.usersTimer fd).timer = none → (s.usersTimer fd).sockfd ≤ 0 ∧
    s.files fd = none ∧ s.epoll fd = false
  count : s.userCount = l.length

/-- The books of the accepted connections. -/
structure Ledger (s : Server) : Prop where
  open_lt : ∀ fd id, s.files fd = some id → id < s.accepted ∧ id ∉ s.closed
  inj : ∀ fd fd' id, s.files fd = some id → s.files fd' = some id → fd = fd'
  closed_lt : ∀ id ∈ s.closed, id < s.accepted
  nodup : s.closed.Nodup
  all : ∀ id, id < s.accepted → id ∈ s.closed ∨ ∃ fd, s.files fd = some id
  stray : s.strayCloses = 0

/-! ## The kernel's part -/

theorem ledger_init : Ledger {} := by
  refine ⟨?_, ?_, ?_, .nil, ?_, rfl⟩
  · intro fd id h
    cases h
  · intro fd fd' id h
    cases h
  · intro id h
    cases h
  · intro id h
    exact absurd h (Nat.not_lt_zero id)

/-- The fields the books are about. -/
theorem Ledger.of_eq (h : Ledger s) (hf : s'.files = s.files) (ha : s'.accepted = s.accepted)
    (hc : s'.closed = s.closed) (hs : s'.strayCloses = s.strayCloses) : Ledger s' := by
  refine ⟨?_, ?_, ?_, ?_, ?_, ?_⟩ <;> simp only [hf, ha, hc, hs]
  · exact h.open_lt
  · exact h.inj
  · exact h.closed_lt
  · exact h.nodup
  · exact h.all
  · exact h.stray

theorem Ledger.open_ (h : Ledger s) (hfd : s.files fd = none) : Ledger (s.open_ fd) where
  open_lt fd' id hid := by
    simp only [Server.open_] at hid ⊢
    by_cases hf : fd' = fd
    · subst hf
      rw [Function.update_self, Option.some.injEq] at hid
      subst hid
      exact ⟨Nat.lt_succ_self _, fun hc => Nat.lt_irrefl _ (h.closed_lt _ hc)⟩
    · rw [Function.update_of_ne hf] at hid
      obtain ⟨hlt, hnot⟩ := h.open_lt fd' id hid
      exact ⟨Nat.lt_succ_of_lt hlt, hnot⟩
  inj fd₁ fd₂ id h₁ h₂ := by
    simp only [Server.open_] at h₁ h₂
    by_cases hf₁ : fd₁ = fd <;> by_cases hf₂ : fd₂ = fd
    · rw [hf₁, hf₂]
    · rw [hf₁, Function.update_self, Option.some.injEq] at h₁
      rw [Function.update_of_ne hf₂, ← h₁] at h₂
      exact absurd (h.open_lt fd₂ _ h₂).1 (Nat.lt_irrefl _)
    · rw [hf₂, Function.update_self, Option.some.injEq] at h₂
      rw [Function.update_of_ne hf₁, ← h₂] at h₁
      exact absurd (h.open_lt fd₁ _ h₁).1 (Nat.lt_irrefl _)
    · rw [Function.update_of_ne hf₁] at h₁
      rw [Function.update_of_ne hf₂] at h₂
      exact h.inj fd₁ fd₂ id h₁ h₂
  closed_lt id hid := Nat.lt_succ_of_lt (h.closed_lt id hid)
  nodup := h.nodup
  all id hid := by
    simp only [Server.open_] at hid ⊢
    rcases Nat.lt_succ_iff_lt_or_eq.mp hid with hlt | rfl
    · rcases h.all id hlt with hc | ⟨fd', hf⟩
      · exact Or.inl hc
      · refine Or.inr ⟨fd', ?_⟩
        rw [Function.update_of_ne (fun he => by rw [he, hfd] at hf; cases hf)]
        exact hf
    · exact Or.inr ⟨fd, Function.update_self ..⟩
  stray := h.stray

theorem close_eq (hfd : s.files fd = some id) : s.close fd =
    { s with files := Function.update s.files fd none, closed := s.closed ++ [id] } := by
  simp only [Server.close, hfd]

theorem Ledger.close (h : Ledger s) (hfd : s.files fd = some id) : Ledger (s.close fd) := by
  obtain ⟨hlt, hnot⟩ := h.open_lt fd id hfd
  rw [close_eq hfd]
  refine ⟨?_, ?_, ?_, ?_, ?_, h.stray⟩
  · intro fd' id' hid
    by_cases hf : fd' = fd
    · simp [hf] at hid
    · simp only [Function.update_of_ne hf] at hid
      obtain ⟨hlt', hnot'⟩ := h.open_lt fd' id' hid
      refine ⟨hlt', ?_⟩
      simp only [List.mem_append, List.mem_singleton, not_or]
      exact ⟨hnot', fun he => hf (h.inj fd' fd id' hid (he ▸ hfd))⟩
  · intro fd₁ fd₂ id' h₁ h₂
    by_cases hf₁ : fd₁ = fd
    · simp [hf₁] at h₁
    · by_cases hf₂ : fd₂ = fd
      · simp [hf₂] at h₂
      · simp only [Function.update_of_ne hf₁] at h₁
        simp only [Function.update_of_ne hf₂] at h₂
        exact h.inj fd₁ fd₂ id' h₁ h₂
  · intro id' hid
    rcases List.mem_append.mp hid with hid | hid
    · exact h.closed_lt id' hid
    · rw [List.mem_singleton.mp hid]
      exact hlt
  · refine List.nodup_append.mpr ⟨h.nodup, by simp, ?_⟩
    rintro x hx y hy rfl
    rw [List.mem_singleton.mp hy] at hx
    exact hnot hx
  · intro id' hid
    rcases h.all id' hid with hc | ⟨fd', hf⟩
    · exact Or.inl (List.mem_append_left _ hc)
    · by_cases hfe : fd' = fd
      · rw [hfe, hfd, Option.some.injEq] at hf
        exact Or.inl (by simp [hf])
      · exact Or.inr ⟨fd', by simpa only [Function.update_of_ne hfe] using hf⟩

/-! ## Opening and closing a slot -/

theorem Tied.mem_of_timer (h : Tied s l) (ht : (s.usersTimer fd).timer = some a) : a ∈ l :=
  h.heap a fd (h.opened fd a ht).1

/-- What `cb_func` does to an open slot. -/
theorem cbFunc_eq (h : Tied s l) (ht : (s.usersTimer fd).timer = some a) : ∃ id,
    s.files fd = some id ∧ s.cbFunc fd = { s with
      usersTimer := Function.update s.usersTimer fd { sockfd := -1, timer := none }
      userCount := s.userCount - 1
      files := Function.update s.files fd none
      epoll := Function.update s.epoll fd false
      closed := s.closed ++ [id] } := by
  obtain ⟨-, hsock, -, -, hfile, -⟩ := h.opened fd a ht
  obtain ⟨id, hid⟩ := Option.isSome_iff_exists.mp hfile
  refine ⟨id, hid, ?_⟩
  unfold Server.cbFunc
  rw [hsock, if_neg (by omega)]
  simp only [Int.toNat_natCast]
  rw [close_eq (by exact hid)]

/-- **Closing**: `cb_func`, and its timer out of the list. -/
theorem Tied.close {timers : SortTimerLst} (h : Tied s (l₁ ++ a :: l₂))
    (ht : (s.usersTimer fd).timer = some a) (hr : timers.Repr (l₁ ++ l₂))
    (hv : ∀ b, timers.heap.val b = if b = a then none else s.timers.heap.val b) :
    Tied { s.cbFunc fd with timers } (l₁ ++ l₂) := by
  obtain ⟨id, hid, heq⟩ := cbFunc_eq h ht
  rw [heq]
  have huser : ∀ b, b ≠ a → Server.user { s with timers } b = s.user b := by
    intro b hb
    simp only [Server.user, hv, if_neg hb]
  have hself : Server.user { s with timers } a = none := by simp only [Server.user, hv]; rfl
  have hmem : ∀ b, b ∈ l₁ ++ l₂ ↔ b ≠ a ∧ b ∈ l₁ ++ a :: l₂ := by
    intro b
    have hnot := (List.nodup_cons.mp (List.nodup_middle.mp h.repr.nodup)).1
    simp only [List.mem_append, List.mem_cons] at hnot ⊢
    constructor
    · intro hb
      exact ⟨fun he => hnot (he ▸ hb), by tauto⟩
    · tauto
  refine ⟨hr, ?_, ?_, ?_, ?_, ?_⟩
  · intro b hb
    obtain ⟨hba, hb⟩ := (hmem b).mp hb
    obtain ⟨fd', hu, ht'⟩ := h.node b hb
    refine ⟨fd', (huser b hba).trans hu, ?_⟩
    have hne : fd' ≠ fd := by
      rintro rfl
      rw [ht] at ht'
      exact hba (Option.some.inj ht').symm
    simpa only [Function.update_of_ne hne] using ht'
  · intro b fd' hu
    have hba : b ≠ a := by
      rintro rfl
      exact absurd (hself.symm.trans hu) (by simp)
    exact (hmem b).mpr ⟨hba, h.heap b fd' ((huser b hba).symm.trans hu)⟩
  · intro fd' b ht'
    by_cases hne : fd' = fd
    · simp [hne] at ht'
    · simp only [Function.update_of_ne hne] at ht' ⊢
      obtain ⟨hu, hrest⟩ := h.opened fd' b ht'
      have hba : b ≠ a := by
        rintro rfl
        rw [(h.opened fd b ht).1] at hu
        exact hne (Option.some.inj hu).symm
      exact ⟨(huser b hba).trans hu, hrest⟩
  · intro fd' ht'
    by_cases hne : fd' = fd
    · simp [hne]
    · simp only [Function.update_of_ne hne] at ht' ⊢
      exact h.closed fd' ht'
  · have := h.count
    simp only [List.length_append, List.length_cons] at this ⊢
    push_cast at this ⊢
    omega

theorem Ledger.cbFunc (h : Ledger s) (htied : Tied s l) (ht : (s.usersTimer fd).timer = some a) :
    Ledger (s.cbFunc fd) := by
  obtain ⟨id, hid, heq⟩ := cbFunc_eq htied ht
  have hclose := h.close hid
  rw [close_eq hid] at hclose
  rw [heq]
  exact hclose.of_eq rfl rfl rfl rfl

/-- **Opening**: `timer` puts a new timer into the list. -/
theorem Tied.timer {now : Int} (h : Tied s l) (hfd : 0 < fd) (hmax : fd < MAX_FD)
    (hfile : s.files fd = none) (ha : a ∉ s.timers.heap) : ∃ s' l',
      (s.open_ fd).timer fd a now = some s' ∧ Tied s' l' ∧ s'.files = (s.open_ fd).files ∧
        s'.accepted = (s.open_ fd).accepted ∧ s'.closed = s.closed ∧
        s'.strayCloses = s.strayCloses ∧ s'.stopped = s.stopped := by
  have hclosed : (s.usersTimer fd).timer = none := by
    cases ht : (s.usersTimer fd).timer with
    | none => rfl
    | some b =>
      obtain ⟨-, -, -, -, hsome, -⟩ := h.opened fd b ht
      rw [hfile] at hsome
      cases hsome
  have hal : a ∉ l := fun hal => ha (h.repr.seg.mem_heap a hal)
  let timers₀ : SortTimerLst := { s.timers with
    heap := s.timers.heap.insert a { val := { expire := now + 3 * TIMESLOT, userData := fd } } }
  have hr₀ : timers₀.Repr l :=
    ⟨h.repr.seg.frame (fun b hb => AList.lookup_insert_ne hb) hal, h.repr.nodup, h.repr.head_eq,
      h.repr.tail_eq⟩
  obtain ⟨timers, l', he, hperm, hr, hv⟩ := addTimer_spec hr₀ hal (AList.lookup_insert _)
  have huser : ∀ b, (timers.heap.val b).map UtilTimer.userData =
      if b = a then some fd else s.user b := by
    intro b
    rw [hv b]
    by_cases hb : b = a
    · subst hb
      simp [Heap.val, timers₀]
    · simp [Heap.val, timers₀, hb, Server.user]
  have hnone : s.user a = none := by
    rw [Server.user, Heap.val, AList.lookup_eq_none.mpr ha]
    rfl
  let s' : Server := { s with
    timers
    usersTimer := Function.update s.usersTimer fd { sockfd := fd, timer := some a }
    userCount := s.userCount + 1
    files := Function.update s.files fd (some s.accepted)
    epoll := Function.update s.epoll fd true
    accepted := s.accepted + 1 }
  have hs' : (s.open_ fd).timer fd a now = some s' := by
    have he' : SortTimerLst.addTimer { s.timers with
        heap := s.timers.heap.insert a { val := { expire := now + 3 * TIMESLOT, userData := fd } } }
        (some a) = some timers := he
    simp only [Server.timer, Server.open_, he', Option.bind_eq_bind, Option.bind_some,
      Option.pure_def, s']
  refine ⟨s', l', hs', ⟨hr, ?_, ?_, ?_, ?_, ?_⟩, rfl, rfl, rfl, rfl, rfl⟩ <;>
    simp only [Server.user, s', huser]
  · intro b hb
    rcases List.mem_cons.mp (hperm.mem_iff.mp hb) with rfl | hb
    · exact ⟨fd, by simp, by simp⟩
    · obtain ⟨fd', hu, ht'⟩ := h.node b hb
      have hba : b ≠ a := fun he => hal (he ▸ hb)
      have hne : fd' ≠ fd := by
        rintro rfl
        rw [hclosed] at ht'
        cases ht'
      exact ⟨fd', by rw [if_neg hba]; exact hu, by simpa [hne] using ht'⟩
  · intro b fd' hu
    rw [hperm.mem_iff, List.mem_cons]
    by_cases hb : b = a
    · exact Or.inl hb
    · rw [if_neg hb] at hu
      exact Or.inr (h.heap b fd' hu)
  · intro fd' b ht'
    by_cases hne : fd' = fd
    · subst hne
      simp at ht'
      subst ht'
      simp [hfd, hmax]
    · simp only [Function.update_of_ne hne] at ht' ⊢
      obtain ⟨hu, hrest⟩ := h.opened fd' b ht'
      have hba : b ≠ a := by
        rintro rfl
        rw [hnone] at hu
        cases hu
      exact ⟨by rw [if_neg hba]; exact hu, hrest⟩
  · intro fd' ht'
    by_cases hne : fd' = fd
    · simp [hne] at ht'
    · simp only [Function.update_of_ne hne] at ht' ⊢
      exact h.closed fd' ht'
  · have := h.count
    rw [hperm.length_eq, List.length_cons]
    push_cast
    omega

/-- A step that only moves timers within the list. -/
theorem Tied.moved {timers : SortTimerLst} (h : Tied s l) (hperm : l'.Perm l)
    (hr : timers.Repr l')
    (hv : ∀ b, (timers.heap.val b).map UtilTimer.userData = s.user b) :
    Tied { s with timers } l' where
  repr := hr
  node b hb := by
    obtain ⟨fd, hu, ht⟩ := h.node b (hperm.mem_iff.mp hb)
    exact ⟨fd, (hv b).trans hu, ht⟩
  heap b fd hu := hperm.mem_iff.mpr (h.heap b fd ((hv b).symm.trans hu))
  opened fd b ht := by
    obtain ⟨hu, hrest⟩ := h.opened fd b ht
    exact ⟨(hv b).trans hu, hrest⟩
  closed := h.closed
  count := by
    rw [hperm.length_eq]
    exact h.count

/-! ## The steps -/

/-- The invariant. -/
structure Inv (s : Server) (l : List Nat) : Prop where
  tied : Tied s l
  ledger : Ledger s
  stopped : s.stopped = true → l = []

theorem inv_init : Inv {} [] where
  tied := by
    refine ⟨repr_empty, ?_, ?_, ?_, ?_, rfl⟩
    · intro a ha
      cases ha
    · intro a fd hu
      cases hu
    · intro fd a ht
      cases ht
    · intro fd _
      exact ⟨Int.le_refl 0, rfl, rfl⟩
  ledger := ledger_init
  stopped h := by cases h

/-- An open slot is closed by `deal_timer`; no other slot is opened. -/
theorem Inv.dealTimer (h : Inv s l) (ht : (s.usersTimer fd).timer = some a) : ∃ s' l',
    s.dealTimer (some a) fd = some s' ∧ Inv s' l' ∧ (s'.usersTimer fd).timer = none ∧
      ∀ fd', (s.usersTimer fd').timer = none → (s'.usersTimer fd').timer = none := by
  obtain ⟨l₁, l₂, rfl⟩ := List.append_of_mem (h.tied.mem_of_timer ht)
  obtain ⟨id, hid, heq⟩ := cbFunc_eq h.tied ht
  obtain ⟨-, ⟨v, ha⟩, -⟩ := seg_middle.mp h.tied.repr.seg
  obtain ⟨timers, he, hr, hv⟩ := delTimer_spec h.tied.repr
  have htied := h.tied.close ht hr hv
  have hledger := h.ledger.cbFunc h.tied ht
  have hstopped : s.stopped = true → l₁ ++ l₂ = [] := by
    intro hs
    have := h.stopped hs
    simp at this
  have hself : Function.update (s.cbFunc fd).usersTimer fd
      { (s.cbFunc fd).usersTimer fd with timer := none } = (s.cbFunc fd).usersTimer := by
    simp [heq]
  refine ⟨{ s.cbFunc fd with timers }, l₁ ++ l₂, ?_, ⟨htied, ?_, ?_⟩, ?_, ?_⟩
  · have htimers : (s.cbFunc fd).timers = s.timers := by rw [heq]
    simp only [Server.dealTimer, ha, htimers, he, Option.bind_eq_bind, Option.bind_some,
      Option.pure_def, hself]
  · exact hledger.of_eq rfl rfl rfl rfl
  · rw [heq]
    exact hstopped
  · simp [heq]
  · intro fd' hnone
    rw [heq]
    by_cases hne : fd' = fd
    · simp [hne]
    · simpa [hne] using hnone

theorem Inv.adjustTimer {now : Int} (h : Inv s l) (ha : a ∈ l) : ∃ s' l',
    s.adjustTimer a now = some s' ∧ Inv s' l' := by
  obtain ⟨l₁, l₂, rfl⟩ := List.append_of_mem ha
  obtain ⟨-, ⟨v, hnode⟩, -⟩ := seg_middle.mp h.tied.repr.seg
  obtain ⟨heap, he, hseg, hval⟩ := h.tied.repr.seg.setVal hnode
    fun t => { t with expire := now + 3 * TIMESLOT }
  have hr : Repr { s.timers with heap } (l₁ ++ a :: l₂) :=
    ⟨hseg, h.tied.repr.nodup, h.tied.repr.head_eq, h.tied.repr.tail_eq⟩
  obtain ⟨timers, l', he', hperm, hr', hv⟩ := adjustTimer_spec hr
  have huser : ∀ b, (timers.heap.val b).map UtilTimer.userData = s.user b := by
    intro b
    rw [hv b, hval b]
    by_cases hb : b = a
    · subst hb
      simp [Server.user, Heap.val, hnode]
    · simp [hb, Server.user]
  refine ⟨{ s with timers }, l', by simp [Server.adjustTimer, he, he'],
    h.tied.moved hperm hr' huser, h.ledger.of_eq rfl rfl rfl rfl, ?_⟩
  intro hs
  have := h.stopped hs
  simp at this

theorem Inv.dealwith {o : Outcome} (h : Inv s l) (hepoll : s.epoll fd = true) : ∃ s' l',
    s.dealwith fd o = some s' ∧ Inv s' l' := by
  obtain ⟨a, ht⟩ : ∃ a, (s.usersTimer fd).timer = some a := by
    cases ht : (s.usersTimer fd).timer with
    | some a => exact ⟨a, rfl⟩
    | none =>
      rw [(h.tied.closed fd ht).2.2] at hepoll
      cases hepoll
  obtain ⟨s', l', he, hinv, -⟩ := h.dealTimer ht
  cases o with
  | failed => exact ⟨s', l', by rw [Server.dealwith, ht]; exact he, hinv⟩
  | queueFull => exact ⟨s', l', by rw [Server.dealwith, ht]; exact he, hinv⟩
  | served now =>
    simp only [Server.dealwith, ht]
    exact h.adjustTimer (h.tied.mem_of_timer ht)

/-- The slot of a connection that is refused at once is left as it was. -/
theorem Inv.refuse (h : Inv s l) (hfile : s.files fd = none) : Inv ((s.open_ fd).close fd) l := by
  have hid : (s.open_ fd).files fd = some s.accepted := Function.update_self ..
  have hledger := (h.ledger.open_ hfile).close hid
  have hfiles : Function.update (s.open_ fd).files fd none = s.files := by
    rw [Server.open_, Function.update_idem, ← hfile, Function.update_eq_self]
  rw [close_eq hid, hfiles] at hledger ⊢
  exact ⟨⟨h.tied.repr, h.tied.node, h.tied.heap, h.tied.opened, h.tied.closed, h.tied.count⟩,
    hledger, h.stopped⟩

theorem Inv.acceptOne {r : AcceptResult} (h : Inv s l) (hs : s.stopped = false)
    (hfresh : s.Fresh r) : ∃ s' l' more, s.acceptOne r = some (s', more) ∧ Inv s' l' ∧
      s'.stopped = false := by
  cases r with
  | fails exhausted =>
    exact ⟨_, l, false, rfl, ⟨⟨h.tied.repr, h.tied.node, h.tied.heap, h.tied.opened, h.tied.closed,
      h.tied.count⟩, h.ledger.of_eq rfl rfl rfl rfl, h.stopped⟩, hs⟩
  | connfd fd t now =>
    obtain ⟨hpos, hmax, hfile, hnew⟩ := hfresh
    simp only [Server.acceptOne]
    split
    · refine ⟨_, l, false, rfl, h.refuse hfile, ?_⟩
      rw [close_eq (Function.update_self ..)]
      exact hs
    · obtain ⟨s', l', he, htied, hf, ha, hc, hst, hstop⟩ := h.tied.timer hpos hmax hfile hnew
      refine ⟨s', l', true, by rw [he]; rfl, ⟨htied, ?_, ?_⟩, hstop.trans hs⟩
      · exact (h.ledger.open_ hfile).of_eq hf ha hc hst
      · intro hs'
        rw [hstop, hs] at hs'
        cases hs'

theorem Inv.dealclientdata {et : Bool} : ∀ {rs : List AcceptResult} {s : Server} {l : List Nat},
    Inv s l → s.stopped = false → s.AllFresh et rs → ∃ s' l',
      s.dealclientdata et rs = some s' ∧ Inv s' l' := by
  intro rs
  induction rs with
  | nil => intro s l h _ _; exact ⟨s, l, rfl, h⟩
  | cons r rs ih =>
    intro s l h hs hfresh
    obtain ⟨s₁, l₁, more, he, h₁, hs₁⟩ := h.acceptOne hs hfresh.1
    simp only [Server.dealclientdata, he, Option.bind_eq_bind, Option.bind_some]
    split
    · rename_i hmore
      simp only [Bool.and_eq_true] at hmore
      obtain ⟨rfl, rfl⟩ := hmore
      exact ih h₁ hs₁ (hfresh.2 s₁ he rfl)
    · exact ⟨s₁, l₁, rfl, h₁⟩

theorem Inv.tickLoop (now : Int) : ∀ {l : List Nat} {s : Server} {fuel : Nat}, Inv s l →
    s.stopped = false → l.length ≤ fuel → ∃ s' l',
      Server.tickLoop now fuel s.timers.head s = some s' ∧ Inv s' l' := by
  intro l
  induction l with
  | nil =>
    intro s fuel h _ _
    have hhead : s.timers.head = none := h.tied.repr.head_eq
    rw [hhead]
    exact ⟨s, [], by cases fuel <;> rfl, h⟩
  | cons a l ih =>
    intro s fuel h hs hfuel
    have hhead : s.timers.head = some a := h.tied.repr.head_eq
    obtain ⟨fuel, rfl⟩ := Nat.exists_eq_succ_of_ne_zero (Nat.ne_of_gt (Nat.zero_lt_of_lt hfuel))
    obtain ⟨⟨v, ha⟩, -⟩ := h.tied.repr.seg
    obtain ⟨fd, hu, ht⟩ := h.tied.node a (by simp)
    have hfd : v.userData = fd := by simpa [Server.user, Heap.val, ha] using hu
    simp only [hhead, Server.tickLoop, ha, Option.bind_eq_bind, Option.bind_some]
    split
    · exact ⟨s, a :: l, rfl, h⟩
    · obtain ⟨id, hid, heq⟩ := cbFunc_eq h.tied ht
      obtain ⟨timers, he, hr, hv⟩ := popHead_spec h.tied.repr
      have hinv : Inv { s.cbFunc fd with timers } l :=
        ⟨@Tied.close _ [] _ _ _ _ h.tied ht hr hv, (h.ledger.cbFunc h.tied ht).of_eq rfl rfl rfl rfl,
          fun hs' => by simp [heq, hs] at hs'⟩
      have htimers : (s.cbFunc fd).timers = s.timers := by rw [heq]
      rw [hfd, htimers, he, Option.bind_some]
      exact ih hinv (by simp [heq, hs]) (Nat.le_of_succ_le_succ hfuel)

/-- The loop of `shutdown` closes the slots it passes. -/
theorem Inv.closeSlots : ∀ (fds : List Nat) {s : Server} {l : List Nat}, Inv s l → ∃ s' l',
    s.closeSlots fds = some s' ∧ Inv s' l' ∧ (∀ fd ∈ fds, (s'.usersTimer fd).timer = none) ∧
      ∀ fd, (s.usersTimer fd).timer = none → (s'.usersTimer fd).timer = none := by
  intro fds
  induction fds with
  | nil => intro s l h; exact ⟨s, l, rfl, h, by simp, fun _ h => h⟩
  | cons fd fds ih =>
    intro s l h
    obtain ⟨s₁, l₁, he₁, h₁, hfd, hkeep₁⟩ : ∃ s₁ l₁,
        (if 0 < (s.usersTimer fd).sockfd then s.dealTimer (s.usersTimer fd).timer fd else some s) =
          some s₁ ∧ Inv s₁ l₁ ∧ (s₁.usersTimer fd).timer = none ∧
          ∀ fd', (s.usersTimer fd').timer = none → (s₁.usersTimer fd').timer = none := by
      cases ht : (s.usersTimer fd).timer with
      | none =>
        refine ⟨s, l, ?_, h, ht, fun _ h => h⟩
        rw [if_neg (Int.not_lt.mpr (h.tied.closed fd ht).1)]
      | some a =>
        obtain ⟨-, hsock, hpos, -⟩ := h.tied.opened fd a ht
        rw [hsock, if_pos (by omega)]
        exact h.dealTimer ht
    obtain ⟨s', l', he', h', hfds, hkeep⟩ := ih h₁
    refine ⟨s', l', ?_, h', ?_, fun fd' hn => hkeep fd' (hkeep₁ fd' hn)⟩
    · simp only [Server.closeSlots, he₁, Option.bind_some, he']
    · intro fd' hmem
      rcases List.mem_cons.mp hmem with rfl | hmem
      · exact hkeep fd' hfd
      · exact hfds fd' hmem

theorem Inv.shutdown (h : Inv s l) : ∃ s' l', s.shutdown = some s' ∧ Inv s' l' := by
  obtain ⟨s₁, l₁, he, h₁, hfds, -⟩ := Inv.closeSlots (List.range MAX_FD) h
  have hnil : l₁ = [] := by
    refine List.eq_nil_iff_forall_not_mem.mpr fun a ha => ?_
    obtain ⟨fd, -, ht⟩ := h₁.tied.node a ha
    obtain ⟨-, -, -, hmax, -⟩ := h₁.tied.opened fd a ht
    rw [hfds fd (List.mem_range.mpr hmax)] at ht
    cases ht
  refine ⟨{ s₁ with stopped := true }, l₁, by simp [Server.shutdown, he],
    ⟨h₁.tied.repr, h₁.tied.node, h₁.tied.heap, h₁.tied.opened, h₁.tied.closed, h₁.tied.count⟩,
    h₁.ledger.of_eq rfl rfl rfl rfl, fun _ => hnil⟩

/-- **A step.** What the kernel may report is handled without touching freed memory, and keeps the
invariant. -/
theorem Inv.step {et : Bool} {lab : Label} (h : Inv s l) (hok : s.Allowed et lab) : ∃ s' l',
    s.step et lab = some s' ∧ Inv s' l' := by
  cases lab with
  | accept rs => exact h.dealclientdata hok.1 hok.2.2
  | read fd o => exact h.dealwith hok.2
  | write fd o => exact h.dealwith hok.2
  | hangup fd => exact h.dealwith (o := .failed) hok.2
  | tick now =>
    have hlen := h.tied.repr.seg.length_le h.tied.repr.nodup
    obtain ⟨s', l', he, h'⟩ := Inv.tickLoop now h hok hlen
    exact ⟨{ s' with listenPaused := false }, l', by simp [Server.step, Server.timerHandler, he],
      ⟨h'.tied.repr, h'.tied.node, h'.tied.heap, h'.tied.opened, h'.tied.closed, h'.tied.count⟩,
      h'.ledger.of_eq rfl rfl rfl rfl, h'.stopped⟩
  | shutdown => exact h.shutdown

/-! ## Whole runs -/

/-- The slots with a descriptor. -/
def Server.openSlots (s : Server) : List Nat :=
  (List.range MAX_FD).filter fun fd => decide (0 < (s.usersTimer fd).sockfd)

structure Safe (s : Server) : Prop where
  count : s.userCount = s.openSlots.length
  /-- The timer list, and each open slot's one timer in it. -/
  timers : ∃ l, s.timers.Repr l ∧ ∀ fd, 0 < (s.usersTimer fd).sockfd →
    ∃ a, (s.usersTimer fd).timer = some a ∧ l.count a = 1 ∧
      ∀ b ∈ l, s.user b = some fd ↔ b = a
  dangling : ∀ fd, ¬ 0 < (s.usersTimer fd).sockfd → (s.usersTimer fd).timer = none
  /-- A slot is open as long as its descriptor is. -/
  files : ∀ fd, 0 < (s.usersTimer fd).sockfd ↔ (s.files fd).isSome
  /-- No accepted connection is closed twice, none is forgotten. -/
  once : s.closed.Nodup
  accounted : ∀ id, id < s.accepted ↔ id ∈ s.closed ∨ ∃ fd, s.files fd = some id
  exclusive : ∀ fd id, s.files fd = some id → id ∉ s.closed
  stray : s.strayCloses = 0

theorem Tied.sockfd_pos (h : Tied s l) :
    0 < (s.usersTimer fd).sockfd ↔ ∃ a, (s.usersTimer fd).timer = some a := by
  constructor
  · intro hpos
    cases ht : (s.usersTimer fd).timer with
    | some a => exact ⟨a, rfl⟩
    | none => exact absurd hpos (Int.not_lt.mpr (h.closed fd ht).1)
  · rintro ⟨a, ht⟩
    obtain ⟨-, hsock, hpos, -⟩ := h.opened fd a ht
    omega

/-- The timers of the list and the open slots, one to one. -/
theorem Tied.length_eq (h : Tied s l) : l.length = s.openSlots.length := by
  have huser : ∀ a ∈ l, (s.usersTimer ((s.user a).getD 0)).timer = some a := by
    intro a ha
    obtain ⟨fd, hu, ht⟩ := h.node a ha
    rw [hu]
    exact ht
  have hnodup : (l.map fun a => (s.user a).getD 0).Nodup := by
    refine h.repr.nodup.map_on ?_
    intro a ha b hb he
    have hta := huser a ha
    rw [he, huser b hb] at hta
    exact (Option.some.inj hta).symm
  have hperm : (l.map fun a => (s.user a).getD 0).Perm s.openSlots := by
    refine (List.perm_ext_iff_of_nodup hnodup (List.nodup_range.filter _)).mpr fun fd => ?_
    simp only [List.mem_map, List.mem_filter, List.mem_range, decide_eq_true_eq]
    rw [h.sockfd_pos]
    constructor
    · rintro ⟨a, ha, rfl⟩
      obtain ⟨-, -, -, hmax, -⟩ := h.opened _ a (huser a ha)
      exact ⟨hmax, a, huser a ha⟩
    · rintro ⟨-, a, ht⟩
      exact ⟨a, h.mem_of_timer ht, by rw [(h.opened fd a ht).1]; rfl⟩
  rw [← hperm.length_eq, List.length_map]

theorem Inv.safe (h : Inv s l) : Safe s where
  count := by rw [h.tied.count, h.tied.length_eq]
  timers := by
    refine ⟨l, h.tied.repr, fun fd hpos => ?_⟩
    obtain ⟨a, ht⟩ := h.tied.sockfd_pos.mp hpos
    refine ⟨a, ht, List.count_eq_one_of_mem h.tied.repr.nodup (h.tied.mem_of_timer ht), ?_⟩
    intro b hb
    constructor
    · intro hu
      obtain ⟨fd', hu', ht'⟩ := h.tied.node b hb
      rw [hu, Option.some.injEq] at hu'
      rw [← hu', ht] at ht'
      exact (Option.some.inj ht').symm
    · rintro rfl
      exact (h.tied.opened fd b ht).1
  dangling fd hneg := by
    rw [h.tied.sockfd_pos, not_exists] at hneg
    exact Option.eq_none_iff_forall_ne_some.mpr hneg
  files fd := by
    rw [h.tied.sockfd_pos]
    constructor
    · rintro ⟨a, ht⟩
      exact (h.tied.opened fd a ht).2.2.2.2.1
    · intro hsome
      cases ht : (s.usersTimer fd).timer with
      | some a => exact ⟨a, rfl⟩
      | none =>
        rw [(h.tied.closed fd ht).2.1] at hsome
        cases hsome
  once := h.ledger.nodup
  accounted id := by
    constructor
    · exact h.ledger.all id
    · rintro (hc | ⟨fd, hf⟩)
      · exact h.ledger.closed_lt id hc
      · exact (h.ledger.open_lt fd id hf).1
  exclusive fd id hf := (h.ledger.open_lt fd id hf).2
  stray := h.ledger.stray

/-- A server that has stopped has no connection. -/
theorem Inv.files_none (h : Inv s l) (hs : s.stopped = true) (fd : Nat) : s.files fd = none := by
  cases ht : (s.usersTimer fd).timer with
  | none => exact (h.tied.closed fd ht).2.1
  | some a =>
    have hmem := h.tied.mem_of_timer ht
    rw [h.stopped hs] at hmem
    cases hmem

theorem Server.Allowed.running {et : Bool} {lab : Label} (h : s.Allowed et lab) :
    s.stopped = false := by
  cases lab with
  | accept rs => exact h.1
  | read fd o => exact h.1
  | write fd o => exact h.1
  | hangup fd => exact h.1
  | tick now => exact h
  | shutdown => exact h

/-- Nothing follows a `shutdown`. -/
theorem stopped_of_shutdown {et : Bool} {ls : List Label} {s' : Server}
    (hok : Machine.Along (Server.step et) (Server.Allowed et) s ls)
    (hr : Machine.run (Server.step et) s ls = some s') (hmem : Label.shutdown ∈ ls) :
    s'.stopped = true := by
  induction ls generalizing s with
  | nil => cases hmem
  | cons lab ls ih =>
    obtain ⟨s₁, h1, h2⟩ := Option.bind_eq_some_iff.mp hr
    rcases List.mem_cons.mp hmem with rfl | hmem
    · have hstopped : s₁.stopped = true := by
        have hshutdown := h1
        simp only [Server.step, Server.shutdown, Option.bind_eq_bind,
          Option.bind_eq_some_iff] at hshutdown
        obtain ⟨s₂, -, he⟩ := hshutdown
        cases he
        rfl
      cases ls with
      | nil =>
        cases h2
        exact hstopped
      | cons next ls =>
        have hrunning := (hok.2 s₁ h1).1.running
        rw [hstopped] at hrunning
        cases hrunning
    · exact ih (hok.2 s₁ h1) h2 hmem

/-- **The life of the slots.** Whatever the kernel reports, in whatever order: the event loop never
touches a freed timer, the counter is the number of open slots, each of them has its one timer in
the list, closed ones have none, and every accepted connection is closed once. After `shutdown` none
is left open. -/
theorem slots_safe (et : Bool) (ls : List Label)
    (hok : Machine.Along (Server.step et) (Server.Allowed et) {} ls) :
    ∃ s, Machine.run (Server.step et) {} ls = some s ∧ Safe s ∧
      (.shutdown ∈ ls → ∀ fd, s.files fd = none) := by
  obtain ⟨s, hr, l, hinv⟩ := Machine.run_total (Server.step et) (I := fun s => ∃ l, Inv s l)
    (fun s lab ⟨l, h⟩ hok => by
      obtain ⟨s', l', he, h'⟩ := h.step hok
      exact ⟨s', he, l', h'⟩) ⟨[], inv_init⟩ hok
  exact ⟨s, hr, hinv.safe, fun hmem => hinv.files_none (stopped_of_shutdown hok hr hmem)⟩

/-- Two connections, the first closed by its timer; its descriptor and the address of its timer are
used again. -/
def reused : List Label :=
  [.accept [.connfd 5 1 0, .connfd 6 2 1, .fails false], .read 6 (.served 10), .tick 16,
    .accept [.connfd 5 1 20, .fails true], .write 6 .failed]

theorem slots_safe_reused :
    ∃ s, Machine.run (Server.step true) {} (reused ++ [.shutdown]) = some s ∧ Safe s ∧
      ∀ fd, s.files fd = none := by
  have hok : Machine.Along (Server.step true) (Server.Allowed true) {} (reused ++ [.shutdown]) := by
    refine Machine.along_append _ (by decide +kernel) fun s hs => ?_
    have hstopped : (Machine.run (Server.step true) {} reused).map Server.stopped = some false := by
      decide +kernel
    rw [hs] at hstopped
    exact ⟨Option.some.inj hstopped, fun _ _ => trivial⟩
  obtain ⟨s, hr, hsafe, hended⟩ := slots_safe true (reused ++ [.shutdown]) hok
  exact ⟨s, hr, hsafe, hended (by simp)⟩

end Slots
end UrlShortener
