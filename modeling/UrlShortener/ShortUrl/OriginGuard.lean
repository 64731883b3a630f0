import UrlShortener.Base.Machine
import UrlShortener.Base.Threads

/-!
# UrlShortener.ShortUrl.OriginGuard

`try_acquire_origin` for both kinds of origin lookups, and the guards it returns, which may be moved
about before they are destroyed.

The loads and the compare-exchange of a call are steps of their own. An operation on a guard touches
one shared variable at most, the counter that it decrements, so it is one step. A slot is a number
that a successful exchange draws; guards carry it along, and nothing in the program reads it.

`guards_balance`: whatever is moved where, a counter counts the guards that hold a slot of its kind.
-/

namespace UrlShortener
namespace OriginGuard

inductive OriginKind where
  | redirect
  | create
deriving DecidableEq

/-- `origin_redirect_max_` and `origin_create_max_`, which `init` makes positive. -/
structure Caps where
  originRedirectMax : Int
  originCreateMax : Int
  redirect_pos : 1 ≤ originRedirectMax
  create_pos : 1 ≤ originCreateMax

def Caps.maxSlots (caps : Caps) (kind : OriginKind) : Int :=
  if kind = .create then caps.originCreateMax else caps.originRedirectMax

theorem Caps.maxSlots_pos (caps : Caps) (kind : OriginKind) : 1 ≤ caps.maxSlots kind := by
  unfold maxSlots
  split
  · exact caps.create_pos
  · exact caps.redirect_pos

structure OriginBudgetGuard where
  /-- `cache_` is not null. -/
  cache : Bool
  /-- Every `kind_` but `Create` counts as `Redirect`, the 0 of an empty guard too. -/
  kind : OriginKind
  held : Bool
  slot : Nat := 0
deriving DecidableEq

/-- What a move leaves behind. -/
def OriginBudgetGuard.moved (g : OriginBudgetGuard) : OriginBudgetGuard :=
  { g with held := false, cache := false }

/-- Where a call of `try_acquire_origin` stands. -/
inductive Pc where
  /-- Before `redis_available_.load()`. -/
  | start (kind : OriginKind)
  /-- Before `inflight.load()`. -/
  | load (kind : OriginKind)
  /-- At the head of the loop, with `cur`. -/
  | exchange (kind : OriginKind) (cur : Int)
  | returned
deriving DecidableEq

structure State where
  redisAvailable : Bool
  originRedirectInflight : Int := 0
  originCreateInflight : Int := 0
  calls : List Pc := []
  /-- All guards there ever were; `none` for one that is destroyed. -/
  guards : List (Option OriginBudgetGuard) := []
  /-- How many slots have been drawn. -/
  acquired : Nat := 0
  released : List Nat := []

inductive Label where
  | acquire (kind : OriginKind)
  /-- Call `t` goes on. -/
  | step (t : Nat)
  /-- `compare_exchange_weak` fails for no reason. -/
  | spurious (t : Nat)
  /-- A guard that was default-constructed. -/
  | construct
  | moveConstruct (j : Nat)
  /-- `guards[i] = std::move(guards[j])`. -/
  | moveAssign (i j : Nat)
  | destroy (i : Nat)
  | setRedis (available : Bool)

namespace State

def inflight (s : State) (kind : OriginKind) : Int :=
  if kind = .create then s.originCreateInflight else s.originRedirectInflight

def setInflight (s : State) (kind : OriginKind) (n : Int) : State :=
  if kind = .create then { s with originCreateInflight := n }
  else { s with originRedirectInflight := n }

def go (s : State) (t : Nat) (p : Pc) : State := { s with calls := s.calls.set t p }

def add (s : State) (g : OriginBudgetGuard) : State := { s with guards := s.guards ++ [some g] }

def put (s : State) (i : Nat) (g : Option OriginBudgetGuard) : State :=
  { s with guards := s.guards.set i g }

/-- `release_origin`. -/
def releaseOrigin (s : State) (g : OriginBudgetGuard) : State :=
  { s.setInflight g.kind (s.inflight g.kind - 1) with released := s.released ++ [g.slot] }

/-- `if (held_ && cache_)`, in the destructor and in the assignment. -/
def release (s : State) (g : OriginBudgetGuard) : State :=
  if g.held && g.cache then s.releaseOrigin g else s

/-- A successful `compare_exchange_weak(cur, cur + 1)`. -/
def draw (s : State) (t : Nat) (kind : OriginKind) (cur : Int) : State :=
  (({ s.setInflight kind (cur + 1) with acquired := s.acquired + 1 } : State).add
    { cache := true, kind, held := true, slot := s.acquired }).go t .returned

/-- `try_acquire_origin` returns without a slot. -/
def refuse (s : State) (t : Nat) (kind : OriginKind) : State :=
  (s.add { cache := false, kind, held := false }).go t .returned

def advance (caps : Caps) (s : State) (t : Nat) : Pc → Option State
  | .start kind => some (if s.redisAvailable then s.refuse t kind else s.go t (.load kind))
  | .load kind => some (s.go t (.exchange kind (s.inflight kind)))
  | .exchange kind cur =>
    if cur < caps.maxSlots kind then
      if s.inflight kind = cur then some (s.draw t kind cur)
      else some (s.go t (.exchange kind (s.inflight kind)))
    else some (s.refuse t kind)
  | .returned => none

/-- A guard that is alive. -/
def guard (s : State) (i : Nat) : Option OriginBudgetGuard := (s.guards[i]?).join

def step (caps : Caps) (s : State) : Label → Option State
  | .acquire kind => some { s with calls := s.calls ++ [.start kind] }
  | .step t => do s.advance caps t (← s.calls[t]?)
  | .spurious t =>
    match s.calls[t]? with
    | some (.exchange kind cur) =>
      if cur < caps.maxSlots kind then some (s.go t (.exchange kind (s.inflight kind))) else none
    | _ => none
  | .construct => some (s.add { cache := false, kind := .redirect, held := false })
  | .moveConstruct j => do
    let other ← s.guard j
    return (s.put j (some other.moved)).add other
  | .moveAssign i j => do
    let g ← s.guard i
    let other ← s.guard j
    if i = j then return s
    else return ((s.release g).put i (some other)).put j (some other.moved)
  | .destroy i => do
    let g ← s.guard i
    return (s.release g).put i none
  | .setRedis available => some { s with redisAvailable := available }

end State

/-! ## The balance -/

/-- `held()`, and the kind of the slot. -/
def heldKind : Option OriginBudgetGuard → Option OriginKind
  | some g => if g.held then some g.kind else none
  | none => none

def heldSlot : Option OriginBudgetGuard → Option Nat
  | some g => if g.held then some g.slot else none
  | none => none

/-- How many guards of the kind are alive and say `held()`. -/
def State.live (s : State) (kind : OriginKind) : Nat := Threads.count heldKind s.guards kind

structure Balanced (caps : Caps) (s : State) : Prop where
  counted : ∀ kind, s.inflight kind = s.live kind
  bounded : ∀ kind, 0 ≤ s.inflight kind ∧ s.inflight kind ≤ caps.maxSlots kind
  /-- A slot that was drawn is held by one guard, or was released, once. -/
  once : ∀ slot, Threads.count heldSlot s.guards slot + s.released.count slot =
    if slot < s.acquired then 1 else 0

/-- The kind whose counter the step may change. -/
def State.touched (s : State) : Label → Option OriginKind
  | .step t =>
    match s.calls[t]? with
    | some (.exchange kind _) => some kind
    | _ => none
  | .moveAssign i _ => heldKind (s.guard i)
  | .destroy i => heldKind (s.guard i)
  | _ => none

/-! ## What a step can do -/

section Fields

variable {s : State} {kind k : OriginKind} {n : Int}

theorem inflight_setInflight :
    (s.setInflight kind n).inflight k = if kind = k then n else s.inflight k := by
  unfold State.setInflight State.inflight
  cases kind with
  | redirect =>
    cases k with
    | redirect => rfl
    | create => rfl
  | create =>
    cases k with
    | redirect => rfl
    | create => rfl

theorem setInflight_eq : s.setInflight kind n =
    { s with
      originCreateInflight := (s.setInflight kind n).originCreateInflight
      originRedirectInflight := (s.setInflight kind n).originRedirectInflight } := by
  unfold State.setInflight
  split
  · rfl
  · rfl

@[simp] theorem setInflight_guards : (s.setInflight kind n).guards = s.guards := by
  rw [setInflight_eq]

@[simp] theorem setInflight_released : (s.setInflight kind n).released = s.released := by
  rw [setInflight_eq]

@[simp] theorem setInflight_acquired : (s.setInflight kind n).acquired = s.acquired := by
  rw [setInflight_eq]

end Fields

/-- The steps, seen from the counters, the guards and the slots. -/
inductive Step (caps : Caps) (s : State) (l : Label) (s' : State) : Prop
  /-- No counter changes, and no guard that holds a slot comes or goes. -/
  | quiet (hguards : s'.guards = s.guards ∨
        ∃ g : OriginBudgetGuard, g.held = false ∧ s'.guards = s.guards ++ [some g])
      (hinflight : ∀ k, s'.inflight k = s.inflight k) (hreleased : s'.released = s.released)
      (hacquired : s'.acquired = s.acquired)
  | draw {kind : OriginKind} (htouched : s.touched l = some kind)
      (hlt : s.inflight kind < caps.maxSlots kind)
      (hguards : s'.guards = s.guards ++
        [some { cache := true, kind, held := true, slot := s.acquired }])
      (hinflight : ∀ k, s'.inflight k = if kind = k then s.inflight k + 1 else s.inflight k)
      (hreleased : s'.released = s.released) (hacquired : s'.acquired = s.acquired + 1)
  | moveConstruct {j : Nat} {other : OriginBudgetGuard} (hj : s.guards[j]? = some (some other))
      (hguards : s'.guards = s.guards.set j (some other.moved) ++ [some other])
      (hinflight : ∀ k, s'.inflight k = s.inflight k) (hreleased : s'.released = s.released)
      (hacquired : s'.acquired = s.acquired)
  | moveAssign {i j : Nat} {g other : OriginBudgetGuard} (hij : i ≠ j)
      (hi : s.guards[i]? = some (some g)) (hj : s.guards[j]? = some (some other))
      (htouched : s.touched l = heldKind (some g))
      (hs : s' = ((s.release g).put i (some other)).put j (some other.moved))
  | destroy {i : Nat} {g : OriginBudgetGuard} (hi : s.guards[i]? = some (some g))
      (htouched : s.touched l = heldKind (some g)) (hs : s' = (s.release g).put i none)

variable {caps : Caps} {s s' : State}

theorem guard_some {i : Nat} {g : OriginBudgetGuard} (h : s.guard i = some g) :
    s.guards[i]? = some (some g) := Option.join_eq_some_iff.mp h

theorem refuse_step {l : Label} {t : Nat} {kind : OriginKind} :
    Step caps s l (s.refuse t kind) :=
  .quiet (Or.inr ⟨_, rfl, rfl⟩) (fun _ => rfl) rfl rfl

theorem advance_cases {t : Nat} {p : Pc} (ht : s.calls[t]? = some p)
    (h : s.advance caps t p = some s') : Step caps s (.step t) s' := by
  cases p with
  | start kind =>
    cases h
    cases hredis : s.redisAvailable with
    | true => exact refuse_step
    | false => exact .quiet (Or.inl rfl) (fun _ => rfl) rfl rfl
  | load kind =>
    cases h
    exact .quiet (Or.inl rfl) (fun _ => rfl) rfl rfl
  | exchange kind cur =>
    simp only [State.advance] at h
    split at h
    · rename_i hlt
      split at h
      · rename_i hcur
        cases h
        subst hcur
        have htouched : s.touched (.step t) = some kind := by simp only [State.touched, ht]
        refine .draw htouched hlt ?_ ?_ ?_ ?_
        · simp [State.draw, State.add, State.go]
        · intro k
          show ((s.setInflight kind (s.inflight kind + 1)).inflight k) = _
          rw [inflight_setInflight]
          split
          · rename_i hk
            rw [hk]
          · rfl
        · simp [State.draw, State.add, State.go]
        · simp [State.draw, State.add, State.go]
      · cases h
        exact .quiet (Or.inl rfl) (fun _ => rfl) rfl rfl
    · cases h
      exact refuse_step
  | returned => cases h

theorem step_cases {l : Label} (h : s.step caps l = some s') : Step caps s l s' := by
  cases l with
  | acquire kind =>
    cases h
    exact .quiet (Or.inl rfl) (fun _ => rfl) rfl rfl
  | step t =>
    obtain ⟨p, ht, h⟩ := Option.bind_eq_some_iff.mp h
    exact advance_cases ht h
  | spurious t =>
    simp only [State.step] at h
    split at h
    · split at h
      · cases h
        exact .quiet (Or.inl rfl) (fun _ => rfl) rfl rfl
      · cases h
    · cases h
  | construct =>
    cases h
    exact .quiet (Or.inr ⟨_, rfl, rfl⟩) (fun _ => rfl) rfl rfl
  | moveConstruct j =>
    obtain ⟨other, hj, h⟩ := Option.bind_eq_some_iff.mp h
    cases h
    exact .moveConstruct (guard_some hj) rfl (fun _ => rfl) rfl rfl
  | moveAssign i j =>
    obtain ⟨g, hi, h⟩ := Option.bind_eq_some_iff.mp h
    obtain ⟨other, hj, h⟩ := Option.bind_eq_some_iff.mp h
    have htouched : s.touched (.moveAssign i j) = heldKind (some g) := congrArg heldKind hi
    by_cases hij : i = j
    · simp only [hij, if_true] at h
      cases h
      exact .quiet (Or.inl rfl) (fun _ => rfl) rfl rfl
    · simp only [hij, if_false] at h
      cases h
      exact .moveAssign hij (guard_some hi) (guard_some hj) htouched rfl
  | destroy i =>
    obtain ⟨g, hi, h⟩ := Option.bind_eq_some_iff.mp h
    cases h
    exact .destroy (guard_some hi) (congrArg heldKind hi) rfl
  | setRedis available =>
    cases h
    exact .quiet (Or.inl rfl) (fun _ => rfl) rfl rfl

/-! ## The invariant -/

structure Inv (caps : Caps) (s : State) : Prop extends Balanced caps s where
  /-- Who says `held()` knows the cache that it must release to. -/
  owned : ∀ g, some g ∈ s.guards → g.held = true → g.cache = true

theorem inv_init (available : Bool) : Inv caps { redisAvailable := available } where
  counted kind := by
    cases kind with
    | redirect => rfl
    | create => rfl
  bounded kind := by
    have hpos := caps.maxSlots_pos kind
    have hzero : ({ redisAvailable := available } : State).inflight kind = 0 := by
      cases kind with
      | redirect => rfl
      | create => rfl
    omega
  once slot := by simp [Threads.count]
  owned g h := by cases h

/-- What a release does, seen from a guard that is still in its place. -/
structure Released (s s' : State) (g : OriginBudgetGuard) : Prop where
  guards : s'.guards = s.guards
  acquired : s'.acquired = s.acquired
  inflight : ∀ k, s'.inflight k =
    if heldKind (some g) = some k then s.inflight k - 1 else s.inflight k
  released : ∀ slot, s'.released.count slot =
    s.released.count slot + if heldSlot (some g) = some slot then 1 else 0

theorem released_release {g : OriginBudgetGuard} (hown : g.held = true → g.cache = true) :
    Released s (s.release g) g := by
  unfold State.release
  cases hheld : g.held with
  | false =>
    have hkind : heldKind (some g) = none := by simp [heldKind, hheld]
    have hslot : heldSlot (some g) = none := by simp [heldSlot, hheld]
    exact ⟨rfl, rfl, fun k => by simp [hkind], fun slot => by simp [hslot]⟩
  | true =>
    have hkind : heldKind (some g) = some g.kind := by simp [heldKind, hheld]
    have hslot : heldSlot (some g) = some g.slot := by simp [heldSlot, hheld]
    rw [hown hheld]
    refine ⟨by simp [State.releaseOrigin], by simp [State.releaseOrigin], fun k => ?_, fun slot => ?_⟩
    · show (s.setInflight g.kind (s.inflight g.kind - 1)).inflight k = _
      rw [inflight_setInflight, hkind]
      simp only [Option.some.injEq]
      split
      · rename_i hk
        rw [hk]
      · rfl
    · show (s.released ++ [g.slot]).count slot = _
      rw [List.count_append, hslot, List.count_singleton]
      simp only [Option.some.injEq, beq_iff_eq]

/-- The counters never run below zero. -/
theorem Balanced.of_counted (hcounted : ∀ kind, s'.inflight kind = s'.live kind)
    (hle : ∀ kind, s'.inflight kind ≤ caps.maxSlots kind)
    (honce : ∀ slot, Threads.count heldSlot s'.guards slot + s'.released.count slot =
      if slot < s'.acquired then 1 else 0) : Balanced caps s' where
  counted := hcounted
  bounded kind := ⟨by rw [hcounted]; exact Int.natCast_nonneg _, hle kind⟩
  once := honce

/-- A step that leaves counters and slots alone, and takes no slot from a guard. -/
theorem Balanced.keep (h : Balanced caps s) (hinflight : ∀ k, s'.inflight k = s.inflight k)
    (hreleased : s'.released = s.released) (hacquired : s'.acquired = s.acquired)
    (hkind : ∀ k, Threads.count heldKind s'.guards k = Threads.count heldKind s.guards k)
    (hslot : ∀ n, Threads.count heldSlot s'.guards n = Threads.count heldSlot s.guards n) :
    Balanced caps s' := by
  refine .of_counted (fun k => ?_) (fun k => ?_) fun n => ?_
  · rw [State.live, hkind, hinflight, h.counted]
    rfl
  · rw [hinflight]
    exact (h.bounded k).2
  · rw [hslot, hreleased, hacquired]
    exact h.once n

/-- What `g` held is given back. -/
theorem Balanced.giveBack {g : OriginBudgetGuard} {r : State} (h : Balanced caps s)
    (hr : Released s r g) (hinflight : ∀ k, s'.inflight k = r.inflight k)
    (hreleased : s'.released = r.released) (hacquired : s'.acquired = r.acquired)
    (hkind : ∀ k, Threads.count heldKind s'.guards k +
      (if heldKind (some g) = some k then 1 else 0) = Threads.count heldKind s.guards k)
    (hslot : ∀ n, Threads.count heldSlot s'.guards n +
      (if heldSlot (some g) = some n then 1 else 0) = Threads.count heldSlot s.guards n) :
    Balanced caps s' := by
  refine .of_counted (fun k => ?_) (fun k => ?_) fun n => ?_
  · have hk := hkind k
    have hcount := h.counted k
    unfold State.live at hcount ⊢
    rw [hinflight, hr.inflight]
    split
    · rename_i hheld
      rw [if_pos hheld] at hk
      omega
    · rename_i hheld
      rw [if_neg hheld] at hk
      omega
  · have hle := (h.bounded k).2
    rw [hinflight, hr.inflight]
    split
    · omega
    · exact hle
  · rw [hreleased, hr.released, hacquired, hr.acquired, ← h.once n, ← hslot n]
    omega

/-- Whoever is in a table of guards after an append was in it before, or is the new one. -/
theorem owned_append {g' : OriginBudgetGuard} {gs : List (Option OriginBudgetGuard)}
    (h : ∀ g, some g ∈ gs → g.held = true → g.cache = true)
    (hnew : g'.held = true → g'.cache = true) :
    ∀ g, some g ∈ gs ++ [some g'] → g.held = true → g.cache = true := by
  intro g hg hheld
  obtain hg | hg := List.mem_append.mp hg
  · exact h g hg hheld
  · rw [Option.some.inj (List.mem_singleton.mp hg)] at hheld ⊢
    exact hnew hheld

theorem owned_set {i : Nat} {o : Option OriginBudgetGuard} {gs : List (Option OriginBudgetGuard)}
    (h : ∀ g, some g ∈ gs → g.held = true → g.cache = true)
    (hnew : ∀ g, o = some g → g.held = true → g.cache = true) :
    ∀ g, some g ∈ gs.set i o → g.held = true → g.cache = true := by
  intro g hg hheld
  obtain hg | hg := List.mem_or_eq_of_mem_set hg
  · exact h g hg hheld
  · exact hnew g hg.symm hheld

theorem owned_moved (g : OriginBudgetGuard) :
    ∀ g', some g.moved = some g' → g'.held = true → g'.cache = true := by
  intro g' he hheld
  rw [← Option.some.inj he] at hheld
  cases hheld

theorem Inv.step {l : Label} (h : Inv caps s) (hs : s.step caps l = some s') : Inv caps s' := by
  have howned := h.owned
  cases step_cases hs with
  | quiet hguards hinflight hreleased hacquired =>
    obtain hguards | ⟨g, hheld, hguards⟩ := hguards
    · exact ⟨h.keep hinflight hreleased hacquired (fun k => by rw [hguards]) fun n => by rw [hguards],
        hguards ▸ howned⟩
    · have hkind : heldKind (some g) = none := by simp [heldKind, hheld]
      have hslot : heldSlot (some g) = none := by simp [heldSlot, hheld]
      refine ⟨h.keep hinflight hreleased hacquired (fun k => ?_) fun n => ?_, ?_⟩
      · rw [hguards, Threads.count_append_of_none hkind]
      · rw [hguards, Threads.count_append_of_none hslot]
      · rw [hguards]
        exact owned_append howned fun hg => by rw [hheld] at hg; cases hg
  | @draw kind htouched hlt hguards hinflight hreleased hacquired =>
    refine ⟨.of_counted (fun k => ?_) (fun k => ?_) fun n => ?_, ?_⟩
    · have hcount := h.counted k
      unfold State.live at hcount ⊢
      rw [hinflight, hguards, Threads.count_append, hcount]
      by_cases hk : kind = k
      · simp [heldKind, hk]
      · simp [heldKind, hk]
    · rw [hinflight]
      split
      · rename_i hk
        subst hk
        omega
      · exact (h.bounded k).2
    · have honce := h.once n
      rw [hguards, Threads.count_append, hreleased, hacquired]
      simp only [heldSlot, if_true, Option.some.injEq]
      split at honce <;> split <;> split <;> omega
    · rw [hguards]
      exact owned_append howned fun _ => rfl
  | @moveConstruct j other hj hguards hinflight hreleased hacquired =>
    have hcount : ∀ {X : Type} [DecidableEq X] (f : Option OriginBudgetGuard → Option X) (x : X),
        f (some other.moved) = none →
        Threads.count f s'.guards x = Threads.count f s.guards x := by
      intro X _ f x hf
      have hset := Threads.count_set (f := f) (x := x) (q := some other.moved) hj
      rw [hf] at hset
      rw [hguards, Threads.count_append]
      simp only [reduceCtorEq, if_false] at hset
      exact hset
    refine ⟨h.keep hinflight hreleased hacquired (fun k => hcount heldKind k rfl)
      fun n => hcount heldSlot n rfl, ?_⟩
    rw [hguards]
    exact owned_append (owned_set howned (owned_moved other))
      (howned other (List.mem_of_getElem? hj))
  | @moveAssign i j g other hij hi hj htouched hs' =>
    have hr : Released s (s.release g) g := released_release (howned g (List.mem_of_getElem? hi))
    have hset : s'.guards = (s.guards.set i (some other)).set j (some other.moved) := by
      rw [hs', ← hr.guards]
      rfl
    have hj' : (s.guards.set i (some other))[j]? = some (some other) := by
      rw [Threads.getElem?_set_ne (Ne.symm hij)]
      exact hj
    -- what the guards hold together, but for what the assigned one held before
    have hcount : ∀ {X : Type} [DecidableEq X] (f : Option OriginBudgetGuard → Option X) (x : X),
        f (some other.moved) = none →
        Threads.count f s'.guards x + (if f (some g) = some x then 1 else 0) =
          Threads.count f s.guards x := by
      intro X _ f x hf
      have h1 := Threads.count_set (f := f) (x := x) (q := some other) hi
      have h2 := Threads.count_set (f := f) (x := x) (q := some other.moved) hj'
      rw [hf] at h2
      rw [hset]
      simp only [reduceCtorEq, if_false] at h2
      omega
    refine ⟨h.giveBack hr (fun k => by rw [hs']; rfl) (by rw [hs']; rfl) (by rw [hs']; rfl)
      (fun k => hcount heldKind k rfl) fun n => hcount heldSlot n rfl, ?_⟩
    rw [hset]
    refine owned_set (owned_set howned fun g' he hheld => ?_) (owned_moved other)
    rw [← Option.some.inj he] at hheld ⊢
    exact howned other (List.mem_of_getElem? hj) hheld
  | @destroy i g hi htouched hs' =>
    have hr : Released s (s.release g) g := released_release (howned g (List.mem_of_getElem? hi))
    have hset : s'.guards = s.guards.set i none := by
      rw [hs', ← hr.guards]
      rfl
    have hcount : ∀ {X : Type} [DecidableEq X] (f : Option OriginBudgetGuard → Option X) (x : X),
        f none = none →
        Threads.count f s'.guards x + (if f (some g) = some x then 1 else 0) =
          Threads.count f s.guards x := by
      intro X _ f x hf
      have hset' := Threads.count_set (f := f) (x := x) (q := none) hi
      rw [hf] at hset'
      rw [hset, hset']
      simp
    refine ⟨h.giveBack hr (fun k => by rw [hs']; rfl) (by rw [hs']; rfl) (by rw [hs']; rfl)
      (fun k => hcount heldKind k rfl) fun n => hcount heldSlot n rfl, ?_⟩
    rw [hset]
    refine owned_set howned fun g' he => ?_
    cases he

/-- A step changes the counter of the kind that it touches, and no other. -/
theorem Inv.apart {l : Label} {kind : OriginKind} (h : Inv caps s)
    (hs : s.step caps l = some s') (hk : s.touched l ≠ some kind) :
    s'.inflight kind = s.inflight kind := by
  have released : ∀ {i : Nat} {g : OriginBudgetGuard}, s.guards[i]? = some (some g) →
      s.touched l = heldKind (some g) → (s.release g).inflight kind = s.inflight kind := by
    intro i g hi htouched
    rw [(released_release (h.owned g (List.mem_of_getElem? hi))).inflight, if_neg (htouched ▸ hk)]
  cases step_cases hs with
  | quiet hguards hinflight hreleased hacquired => exact hinflight kind
  | draw htouched hlt hguards hinflight hreleased hacquired =>
    rw [hinflight, if_neg]
    rintro rfl
    exact hk htouched
  | moveConstruct hj hguards hinflight hreleased hacquired => exact hinflight kind
  | moveAssign hij hi hj htouched hs' =>
    rw [hs']
    exact released hi htouched
  | destroy hi htouched hs' =>
    rw [hs']
    exact released hi htouched

/-- **Guards balance.** In every run the counter of each kind is the number of its guards that hold a
slot, between 0 and the cap; every slot is released once, when no guard is left that holds it; and a
step leaves the counter alone of a kind that it does not touch. -/
theorem guards_balance (caps : Caps) (available : Bool) (ls : List Label) (s : State)
    (hr : Machine.run (State.step caps) { redisAvailable := available } ls = some s) :
    Balanced caps s ∧
      ((∀ kind, s.live kind = 0) → (∀ slot, Threads.count heldSlot s.guards slot = 0) ∧
        ∀ slot < s.acquired, s.released.count slot = 1) ∧
      ∀ l s' kind, s.step caps l = some s' → s.touched l ≠ some kind →
        s'.inflight kind = s.inflight kind := by
  have hinv : Inv caps s :=
    Machine.run_preserves _ (fun _ _ _ h hs => h.step hs) (inv_init available) hr
  refine ⟨hinv.toBalanced, fun hlive => ?_, fun l s' kind hs hk => hinv.apart hs hk⟩
  have hnone : ∀ slot, Threads.count heldSlot s.guards slot = 0 := by
    intro slot
    refine List.countP_eq_zero.mpr fun g hg hslot => ?_
    have hslot := of_decide_eq_true hslot
    cases g with
    | none => cases hslot
    | some g =>
      simp only [heldSlot] at hslot
      split at hslot
      · rename_i hheld
        have hkind : heldKind (some g) = some g.kind := by simp [heldKind, hheld]
        have hpos := List.countP_eq_zero.mp (hlive g.kind) _ hg
        exact hpos (decide_eq_true hkind)
      · cases hslot
  refine ⟨hnone, fun slot hslot => ?_⟩
  have honce := hinv.once slot
  rw [hnone, if_pos hslot] at honce
  omega

def smallCaps : Caps where
  originRedirectMax := 1
  originCreateMax := 2
  redirect_pos := Int.one_pos
  create_pos := by decide

/-- A redirect slot is assigned over a create slot, and both are released. -/
def assigned : List Label :=
  [.acquire .redirect, .acquire .create, .step 0, .step 1, .step 0, .step 1, .spurious 1, .step 0,
    .step 1, .moveAssign 1 0, .moveAssign 1 1, .destroy 0, .destroy 1]

theorem guards_balance_assigned : ∃ s,
    Machine.run (State.step smallCaps) { redisAvailable := false } assigned = some s ∧
      s.released = [1, 0] ∧ Balanced smallCaps s :=
  ⟨_, rfl, rfl, (guards_balance smallCaps false assigned _ rfl).1⟩

end OriginGuard
end UrlShortener
