import UrlShortener.ShortUrl.SingleFlight

/-!
# UrlShortener.ShortUrl.FlightSafety

What holds in every state that calls of `do_flight` can reach, whatever the keys, the loaders and
the order of the critical sections.

The roles of a program point (`holdsMutex`, `holdsMu`, `waits`, `leads`, ..) say what its thread
stands for, and the invariant `Inv` relates the shared fields to the roles: each lock to the thread
that holds it, `waiters` to the number of threads that wait, `inflight_` to the leaders, `done` and
`result` to the loader runs that have ended.

* `Inv.step`: every step keeps the invariant.
* `Inv.progress`: with no loader running, an unfinished call means that some thread can go on.
* `Inv.completes`: every state can be run to one in which all calls have returned.
-/

namespace UrlShortener
namespace SingleFlight

open Threads

/-! ## Roles -/

namespace Pc

def holdsMutex : Pc → Option Unit
  | .lookup _ | .leaving _ _ | .removing _ _ _ => some ()
  | _ => none

def holdsMu : Pc → Option Nat
  | .checking c | .sharing c _ | .leaving c _ | .dropping c _ | .publishing _ c _ => some c
  | _ => none

/-- Counted in `call->waiters`. -/
def waits : Pc → Option Nat
  | .joining c | .checking c | .sleeping c | .sharing c _ | .leaving c _ => some c
  | _ => none

def sleeps : Pc → Option Nat
  | .sleeping c => some c
  | _ => none

/-- Between registration and removal. -/
def leads : Pc → Option (Bytes × Nat)
  | .loading key c | .loaded key c _ | .publishing key c _ | .published key c _
  | .notified key c _ | .removing key c _ => some (key, c)
  | _ => none

/-- A leader that will still call `notify_all`. -/
def announces : Pc → Option Nat
  | .loading _ c | .loaded _ c _ | .publishing _ c _ | .published _ c _ => some c
  | _ => none

/-- Inside the loader. -/
def loads : Pc → Option Nat
  | .loading _ c => some c
  | _ => none

/-- A result that is not published yet. -/
def carries : Pc → Option (Nat × SingleFlightResult)
  | .loaded _ c r | .publishing _ c r => some (c, r)
  | _ => none

/-- A result that was published or read from the `Call`. -/
def knows : Pc → Option (Nat × SingleFlightResult)
  | .sharing c r | .leaving c r | .dropping c r | .published _ c r | .notified _ c r
  | .removing _ c r | .returned (some c) r => some (c, r)
  | _ => none

/-- The `Call` an unfinished thread refers to. -/
def refers : Pc → Option Nat
  | .joining c | .checking c | .sleeping c | .sharing c _ | .leaving c _ | .dropping c _
  | .loading _ c | .loaded _ c _ | .publishing _ c _ | .published _ c _ | .notified _ c _
  | .removing _ c _ => some c
  | _ => none

/-- `notify_all` changes no role but that of sleeping. -/
theorem notify_role {X : Type} {f : Pc → Option X} (hf : ∀ c, f (.joining c) = f (.sleeping c))
    (c : Nat) (p : Pc) : f (p.notify c) = f p := by
  cases p with
  | sleeping d =>
    simp only [notify]
    split
    · exact hf d
    · rfl
  | _ => rfl

end Pc

namespace State

/-- A `Call` of the heap; what is not there yet counts as a new one. -/
def callAt (s : State) (c : Nat) : Call := (s.calls[c]?).getD {}

section

variable {cfg : Config} {s s' : State} {l : Label}

theorem callAt_eq {c : Nat} {call : Call} (h : s.calls[c]? = some call) : s.callAt c = call := by
  rw [callAt, h]
  rfl

theorem callAt_set {c d : Nat} {call call' : Call} (h : s.calls[c]? = some call) :
    ((s.calls.set c call')[d]?).getD {} = if d = c then call' else s.callAt d := by
  split
  · rename_i hd
    subst hd
    rw [getElem?_set_self h]
    rfl
  · rename_i hd
    rw [getElem?_set_ne hd]
    rfl

/-- A property of all `Call`s after an update of `c`. -/
theorem forall_callAt_set {Q : Nat → Call → Prop} {c : Nat} {call call' : Call}
    (h : s.calls[c]? = some call) (hc : Q c call') (hd : ∀ d, d ≠ c → Q d (s.callAt d)) :
    ∀ d, Q d (((s.calls.set c call')[d]?).getD {}) := by
  intro d
  rw [callAt_set h]
  split
  · rename_i he
    rw [he]
    exact hc
  · rename_i hne
    exact hd d hne

theorem callAt_register {d t : Nat} {key : Bytes} {p : Pc} :
    ((s.register key).go t p).callAt d = s.callAt d := by
  show ((s.calls ++ [({} : Call)])[d]?).getD {} = _
  rw [callAt]
  rcases Nat.lt_trichotomy d s.calls.length with hlt | heq | hgt
  · rw [List.getElem?_append_left hlt]
  · subst heq
    rw [List.getElem?_concat_length, List.getElem?_eq_none (le_refl _)]
    rfl
  · rw [List.getElem?_eq_none (by simp; omega), List.getElem?_eq_none (by omega)]

theorem notified_at {t c : Nat} {key : Bytes} {r : SingleFlightResult}
    (ht : s.threads[t]? = some (.published key c r)) (d : Nat) :
    (s.threads.map (Pc.notify d))[t]? = some (.published key c r) := by
  rw [List.getElem?_map, ht]
  rfl

/-! ## Locks -/

theorem mutex_step (h : Owns Pc.holdsMutex s.threads () s.mutex) (hs : Step cfg s l s') :
    Owns Pc.holdsMutex s'.threads () s'.mutex := by
  cases hs with
  | call key => exact h.spawn rfl
  | enter ht free => exact (free ▸ h).acquire ht rfl
  | full ht => exact h.release ht rfl (by simp [Pc.holdsMutex])
  | join ht => exact h.release ht rfl (by simp [Pc.holdsMutex])
  | refuse ht => exact h.release ht rfl (by simp [Pc.holdsMutex])
  | lead ht => exact h.release ht rfl (by simp [Pc.holdsMutex])
  | leave ht free => exact (free ▸ h).acquire ht rfl
  | drop ht => exact h.release ht rfl (by simp [Pc.holdsMutex])
  | claim ht free => exact (free ▸ h).acquire ht rfl
  | remove ht => exact h.release ht rfl (by simp [Pc.holdsMutex])
  | notify ht => exact (h.map (Pc.notify_role (fun _ => rfl) _)).keep (notified_at ht _) rfl
  | lock ht => exact h.keep ht rfl
  | share ht => exact h.keep ht rfl
  | sleep ht => exact h.keep ht rfl
  | answer ht => exact h.keep ht rfl
  | load out ht => exact h.keep ht rfl
  | hold ht => exact h.keep ht rfl
  | publish ht => exact h.keep ht rfl
  | wake ht => exact h.keep ht rfl

/-- Taking and releasing `call->mu`, for the other `Call`s too. -/
theorem mu_acquire {t c : Nat} {p q : Pc} {call : Call}
    (h : ∀ c, Owns Pc.holdsMu s.threads c (s.callAt c).mu) (ht : s.threads[t]? = some p)
    (hc : s.calls[c]? = some call) (free : call.mu = none) (hp : p.holdsMu = none)
    (hq : q.holdsMu = some c) :
    ∀ d, Owns Pc.holdsMu (s.threads.set t q) d
      (((s.calls.set c { call with mu := some t })[d]?).getD {}).mu := by
  apply forall_callAt_set (Q := fun d x => Owns Pc.holdsMu (s.threads.set t q) d x.mu) hc
  · have h0 := h c
    rw [callAt_eq hc, free] at h0
    exact h0.acquire ht hq
  · intro d hd
    exact (h d).pass ht (by simp [hp]) (by simp [hq, Ne.symm hd])

theorem mu_release {t c : Nat} {p q : Pc} {call call' : Call}
    (h : ∀ c, Owns Pc.holdsMu s.threads c (s.callAt c).mu) (ht : s.threads[t]? = some p)
    (hc : s.calls[c]? = some call) (free : call'.mu = none) (hp : p.holdsMu = some c)
    (hq : q.holdsMu = none) :
    ∀ d, Owns Pc.holdsMu (s.threads.set t q) d (((s.calls.set c call')[d]?).getD {}).mu := by
  apply forall_callAt_set (Q := fun d x => Owns Pc.holdsMu (s.threads.set t q) d x.mu) hc
  · rw [free]
    exact (h c).release ht hp (by simp [hq])
  · intro d hd
    exact (h d).pass ht (by simp [hp, Ne.symm hd]) (by simp [hq])

theorem mu_keep {t c : Nat} {p q : Pc} {call call' : Call}
    (h : ∀ c, Owns Pc.holdsMu s.threads c (s.callAt c).mu) (ht : s.threads[t]? = some p)
    (hc : s.calls[c]? = some call) (same : call'.mu = call.mu) (hq : q.holdsMu = p.holdsMu) :
    ∀ d, Owns Pc.holdsMu (s.threads.set t q) d (((s.calls.set c call')[d]?).getD {}).mu := by
  apply forall_callAt_set (Q := fun d x => Owns Pc.holdsMu (s.threads.set t q) d x.mu) hc
  · rw [same, ← callAt_eq hc]
    exact (h c).keep ht hq
  · intro d _
    exact (h d).keep ht hq

theorem mu_step (h : ∀ c, Owns Pc.holdsMu s.threads c (s.callAt c).mu) (hs : Step cfg s l s') :
    ∀ c, Owns Pc.holdsMu s'.threads c (s'.callAt c).mu := by
  cases hs with
  | call key => exact fun d => (h d).spawn rfl
  | join ht found hc => exact mu_keep h ht hc rfl rfl
  | lead ht =>
    intro d
    rw [callAt_register]
    exact (h d).keep ht rfl
  | lock ht hc free => exact mu_acquire h ht hc free rfl rfl
  | sleep ht hc => exact mu_release h ht hc rfl rfl rfl
  | drop ht hc => exact mu_keep h ht hc rfl rfl
  | answer ht hc => exact mu_release h ht hc rfl rfl rfl
  | hold ht hc free => exact mu_acquire h ht hc free rfl rfl
  | publish ht hc => exact mu_release h ht hc rfl rfl rfl
  | notify ht =>
    exact fun d => ((h d).map (Pc.notify_role (fun _ => rfl) _)).keep (notified_at ht _) rfl
  | enter ht => exact fun d => (h d).keep ht rfl
  | full ht => exact fun d => (h d).keep ht rfl
  | refuse ht => exact fun d => (h d).keep ht rfl
  | share ht => exact fun d => (h d).keep ht rfl
  | leave ht => exact fun d => (h d).keep ht rfl
  | load out ht => exact fun d => (h d).keep ht rfl
  | claim ht => exact fun d => (h d).keep ht rfl
  | remove ht => exact fun d => (h d).keep ht rfl
  | wake ht => exact fun d => (h d).keep ht rfl

/-! ## Counts -/

theorem waiters_set {t c : Nat} {p q : Pc} {call call' : Call}
    (h : ∀ c, (s.callAt c).waiters = count Pc.waits s.threads c) (ht : s.threads[t]? = some p)
    (hc : s.calls[c]? = some call)
    (hsum : call'.waiters + (if p.waits = some c then 1 else 0) =
      call.waiters + if q.waits = some c then 1 else 0)
    (hother : ∀ d, d ≠ c → (q.waits = some d ↔ p.waits = some d)) :
    ∀ d, (((s.calls.set c call')[d]?).getD {}).waiters =
      count Pc.waits (s.threads.set t q) d := by
  apply forall_callAt_set (Q := fun d x => x.waiters = count Pc.waits (s.threads.set t q) d) hc
  · have hcount := count_set (f := Pc.waits) (q := q) (x := c) ht
    have h0 := h c
    rw [callAt_eq hc] at h0
    omega
  · intro d hd
    have hcount := count_set (f := Pc.waits) (q := q) (x := d) ht
    simp only [hother d hd] at hcount
    rw [h d]
    omega

theorem waiters_step (h : ∀ c, (s.callAt c).waiters = count Pc.waits s.threads c)
    (hs : Step cfg s l s') : ∀ c, (s'.callAt c).waiters = count Pc.waits s'.threads c := by
  have keep : ∀ {t : Nat} {p q : Pc}, s.threads[t]? = some p → q.waits = p.waits →
      ∀ d, (s.callAt d).waiters = count Pc.waits (s.threads.set t q) d :=
    fun ht hq d => (h d).trans (count_set_of_eq ht hq).symm
  cases hs with
  | call key => exact fun d => (h d).trans (count_append_of_none rfl).symm
  | join ht found hc =>
    refine waiters_set h ht hc (by simp [Pc.waits]) ?_
    intro d hd
    simp [Pc.waits, Ne.symm hd]
  | lead ht =>
    intro d
    rw [callAt_register]
    exact keep (q := .loading _ _) ht rfl d
  | lock ht hc => exact waiters_set h ht hc rfl (fun _ _ => Iff.rfl)
  | sleep ht hc => exact waiters_set h ht hc rfl (fun _ _ => Iff.rfl)
  | drop ht hc =>
    -- the thread itself is one of the waiters, so there is one to take away
    have hpos := count_pos ((at_here ht).mpr (rfl : Pc.waits (.leaving _ _) = some _))
    rw [← h, callAt_eq hc] at hpos
    refine waiters_set h ht hc ?_ ?_
    · simp only [Pc.waits, if_true, reduceCtorEq, if_false]
      omega
    · intro d hd
      simp [Pc.waits, Ne.symm hd]
  | answer ht hc => exact waiters_set h ht hc rfl (fun _ _ => Iff.rfl)
  | hold ht hc => exact waiters_set h ht hc rfl (fun _ _ => Iff.rfl)
  | publish ht hc => exact waiters_set h ht hc rfl (fun _ _ => Iff.rfl)
  | notify ht =>
    intro d
    refine (h d).trans (Eq.symm ?_)
    refine (count_set_of_eq (notified_at ht _) ?_).trans
      (count_map (Pc.notify_role (fun _ => rfl) _))
    rfl
  | enter ht => exact keep ht rfl
  | full ht => exact keep ht rfl
  | refuse ht => exact keep ht rfl
  | share ht => exact keep ht rfl
  | leave ht => exact keep ht rfl
  | load out ht => exact keep ht rfl
  | claim ht => exact keep ht rfl
  | remove ht => exact keep ht rfl
  | wake ht => exact keep ht rfl

theorem waiters_le_step (h : ∀ c, (s.callAt c).waiters ≤ cfg.maxWaitersPerKey)
    (hs : Step cfg s l s') : ∀ c, (s'.callAt c).waiters ≤ cfg.maxWaitersPerKey := by
  have set : ∀ {c : Nat} {call call' : Call}, s.calls[c]? = some call →
      call'.waiters ≤ cfg.maxWaitersPerKey →
      ∀ d : Nat, (((s.calls.set c call')[d]?).getD ({} : Call)).waiters ≤ cfg.maxWaitersPerKey :=
    fun hc hle => forall_callAt_set (Q := fun _ x => x.waiters ≤ _) hc hle fun d _ => h d
  have less : ∀ {c : Nat} {call call' : Call}, s.calls[c]? = some call →
      call'.waiters ≤ call.waiters →
      ∀ d : Nat, (((s.calls.set c call')[d]?).getD ({} : Call)).waiters ≤ cfg.maxWaitersPerKey :=
    fun hc hle => set hc (hle.trans (callAt_eq hc ▸ h _))
  cases hs with
  | join ht found hc room => exact set hc room
  | lead ht =>
    intro d
    rw [callAt_register]
    exact h d
  | drop ht hc => exact less hc (Nat.sub_le _ _)
  | lock ht hc => exact less hc (le_refl _)
  | sleep ht hc => exact less hc (le_refl _)
  | answer ht hc => exact less hc (le_refl _)
  | hold ht hc => exact less hc (le_refl _)
  | publish ht hc => exact less hc (le_refl _)
  | _ => exact h

theorem size_step (h : s.inflight.entries.length ≤ cfg.maxInflight) (hs : Step cfg s l s') :
    s'.inflight.entries.length ≤ cfg.maxInflight := by
  cases hs with
  | lead ht absent room =>
    have hnew := AList.lookup_eq_none.mp absent
    simp only [go, register, AList.entries_insert_of_notMem hnew, List.length_cons]
    exact room
  | remove ht =>
    simp only [go, remove]
    split
    · refine le_trans ?_ h
      exact (List.kerase_sublist _ _).length_le
    · exact h
  | _ => exact h

/-! ## Leaders -/

/-- The `Call` that thread `t` joins when it looks its key up: there is one in `inflight_`, and room
for one more waiter. -/
def joins (cfg : Config) (s : State) (t : Nat) : Option Nat :=
  match s.threads[t]? with
  | some (.lookup key) => do
    let c ← s.inflight.lookup key
    let call ← s.calls[c]?
    if call.waiters < cfg.maxWaitersPerKey then some c else none
  | _ => none

theorem joins_eq {t c : Nat} {key : Bytes} {call : Call} (ht : s.threads[t]? = some (.lookup key))
    (found : s.inflight.lookup key = some c) (hc : s.calls[c]? = some call)
    (room : call.waiters < cfg.maxWaitersPerKey) : s.joins cfg t = some c := by
  simp [joins, ht, found, hc, room]

/-- A thread refers to the `Call` it referred to before, or joins one, or has made a new one. -/
theorem refers_of_step (hs : Step cfg s l s') {t c : Nat} (ha : At Pc.refers s'.threads t c) :
    At Pc.refers s.threads t c ∨
      l = .step t ∧ (s.joins cfg t = some c ∧ c < s.calls.length ∨
        c = s.calls.length ∧ s'.calls.length = s.calls.length + 1) := by
  have keep : ∀ {u : Nat} {p q : Pc}, s.threads[u]? = some p →
      (∀ c, q.refers = some c → p.refers = some c) → At Pc.refers (s.threads.set u q) t c →
      At Pc.refers s.threads t c := by
    intro u p q hu hq ha
    rcases at_of_at_set hu ha with ha | ⟨rfl, he⟩
    · exact ha
    · exact ⟨p, hu, hq c he⟩
  cases hs with
  | call key => exact Or.inl ((at_append_of_none rfl).mp ha)
  | join ht found hc room =>
    rcases at_of_at_set ht ha with ha | ⟨rfl, he⟩
    · exact Or.inl ha
    · cases he
      exact Or.inr ⟨rfl, Or.inl ⟨joins_eq ht found hc room, lt_of_getElem? hc⟩⟩
  | lead ht =>
    rcases at_of_at_set ht ha with ha | ⟨rfl, he⟩
    · exact Or.inl ha
    · cases he
      exact Or.inr ⟨rfl, Or.inr ⟨rfl, by simp [go, register]⟩⟩
  | notify ht =>
    exact Or.inl ((at_map (Pc.notify_role (fun _ => rfl) _)).mp
      ((at_set_of_eq (notified_at ht _) (by rfl)).mp ha))
  | enter ht => exact Or.inl (keep ht (by simp [Pc.refers]) ha)
  | full ht => exact Or.inl (keep ht (by simp [Pc.refers]) ha)
  | refuse ht => exact Or.inl (keep ht (by simp [Pc.refers]) ha)
  | lock ht => exact Or.inl (keep ht (by simp [Pc.refers]) ha)
  | share ht => exact Or.inl (keep ht (by simp [Pc.refers]) ha)
  | sleep ht => exact Or.inl (keep ht (by simp [Pc.refers]) ha)
  | leave ht => exact Or.inl (keep ht (by simp [Pc.refers]) ha)
  | drop ht => exact Or.inl (keep ht (by simp [Pc.refers]) ha)
  | answer ht => exact Or.inl (keep ht (by simp [Pc.refers]) ha)
  | load out ht => exact Or.inl (keep ht (by simp [Pc.refers]) ha)
  | hold ht => exact Or.inl (keep ht (by simp [Pc.refers]) ha)
  | publish ht => exact Or.inl (keep ht (by simp [Pc.refers]) ha)
  | claim ht => exact Or.inl (keep ht (by simp [Pc.refers]) ha)
  | remove ht => exact Or.inl (keep ht (by simp [Pc.refers]) ha)
  | wake ht => exact Or.inl (keep ht (by simp [Pc.refers]) ha)

theorem calls_length_step (hs : Step cfg s l s') : s.calls.length ≤ s'.calls.length := by
  cases hs <;> simp [go, setCall, register, State.remove]

/-- The `Call`s threads refer to are on the heap. -/
theorem refers_step (h : ∀ t c, At Pc.refers s.threads t c → c < s.calls.length)
    (hs : Step cfg s l s') : ∀ t c, At Pc.refers s'.threads t c → c < s'.calls.length := by
  intro t c ha
  have hle := calls_length_step hs
  rcases refers_of_step hs ha with ha | ⟨-, ⟨-, hc⟩ | ⟨hc, hlen⟩⟩
  · exact Nat.lt_of_lt_of_le (h t c ha) hle
  · exact Nat.lt_of_lt_of_le hc hle
  · omega

theorem refers_of_leads {t c : Nat} {key : Bytes} (h : At Pc.leads s.threads t (key, c)) :
    At Pc.refers s.threads t c := by
  obtain ⟨p, hp, hl⟩ := h
  refine ⟨p, hp, ?_⟩
  cases p <;> simp_all [Pc.leads, Pc.refers]

/-- `inflight_` lists the leaders, and no two lead the same `Call`. -/
structure Registry (s : State) : Prop where
  registered : ∀ key c, s.inflight.lookup key = some c ↔ ∃ t, At Pc.leads s.threads t (key, c)
  leader : ∀ {t t' c : Nat} {key key' : Bytes}, At Pc.leads s.threads t (key, c) →
    At Pc.leads s.threads t' (key', c) → t = t'

/-- A step that registers and removes nothing. -/
theorem Registry.keep {s₁ : State} (h : s.Registry) (hin : s₁.inflight = s.inflight)
    (hat : ∀ t x, At Pc.leads s₁.threads t x ↔ At Pc.leads s.threads t x) : s₁.Registry where
  registered key c := by
    rw [hin, h.registered]
    exact exists_congr fun t => (hat t _).symm
  leader h1 h2 := h.leader ((hat _ _).mp h1) ((hat _ _).mp h2)

theorem Registry.register {t : Nat} {key : Bytes} (h : s.Registry)
    (bound : ∀ t c, At Pc.refers s.threads t c → c < s.calls.length)
    (ht : s.threads[t]? = some (.lookup key)) (absent : s.inflight.lookup key = none) :
    ((s.register key).go t (.loading key s.calls.length)).Registry where
  registered key' c := by
    have hset := exists_at_set_of_none (f := Pc.leads) (q := .loading key s.calls.length)
      (x := (key', c)) ht rfl
    refine Iff.trans ?_ hset.symm
    simp only [go, State.register, Pc.leads, Option.some.injEq, Prod.mk.injEq]
    by_cases hk : key' = key
    · subst hk
      rw [AList.lookup_insert, ← h.registered, absent]
      simp
    · rw [AList.lookup_insert_ne hk, h.registered]
      simp [Ne.symm hk]
  leader := by
    intro u u' c k k' h1 h2
    -- the index of the new `Call` is used by nobody
    have fresh : ∀ {u : Nat} {k : Bytes}, ¬ At Pc.leads s.threads u (k, s.calls.length) :=
      fun hl => absurd (bound _ _ (refers_of_leads hl)) (lt_irrefl _)
    rcases at_of_at_set ht h1 with o1 | ⟨e1, f1⟩ <;>
      rcases at_of_at_set ht h2 with o2 | ⟨e2, f2⟩
    · exact h.leader o1 o2
    · cases f2
      exact absurd o1 fresh
    · cases f1
      exact absurd o2 fresh
    · rw [e1, e2]

theorem Registry.remove {t c : Nat} {key : Bytes} {r : SingleFlightResult} (h : s.Registry)
    (ht : s.threads[t]? = some (.removing key c r)) :
    ((s.remove key c).go t (.returned (some c) r)).Registry where
  registered key' d := by
    have hmine : At Pc.leads s.threads t (key, c) := ⟨_, ht, rfl⟩
    have hreg := (h.registered key c).mpr ⟨t, hmine⟩
    simp only [go, State.remove, if_pos hreg]
    by_cases hk : key' = key
    · subst hk
      rw [AList.lookup_erase]
      refine iff_of_false (by simp) ?_
      rintro ⟨u, hu⟩
      rcases at_of_at_set ht hu with hu' | ⟨-, hq⟩
      · have hd := (h.registered key' d).mpr ⟨u, hu'⟩
        rw [hreg] at hd
        cases hd
        cases h.leader hmine hu'
        cases (at_set_self ht).mp hu
      · cases hq
    · rw [AList.lookup_erase_ne hk, h.registered]
      refine exists_congr fun u => (at_set_iff ht ?_).symm
      simp [Pc.leads, Ne.symm hk]
  leader := by
    intro u u' d k k' h1 h2
    rcases at_of_at_set ht h1 with h1 | ⟨-, e1⟩
    · rcases at_of_at_set ht h2 with h2 | ⟨-, e2⟩
      · exact h.leader h1 h2
      · cases e2
    · cases e1

theorem Registry.step (h : s.Registry)
    (bound : ∀ t c, At Pc.refers s.threads t c → c < s.calls.length) (hs : Step cfg s l s') :
    s'.Registry := by
  cases hs with
  | call key => exact h.keep rfl fun t x => at_append_of_none rfl
  | lead ht absent => exact h.register bound ht absent
  | remove ht => exact h.remove ht
  | notify ht =>
    refine h.keep rfl fun t x => ?_
    exact (at_set_of_eq (notified_at ht _) (by rfl)).trans
      (at_map (Pc.notify_role (fun _ => rfl) _))
  | enter ht => exact h.keep rfl fun t x => at_set_of_eq ht rfl
  | full ht => exact h.keep rfl fun t x => at_set_of_eq ht rfl
  | join ht => exact h.keep rfl fun t x => at_set_of_eq ht rfl
  | refuse ht => exact h.keep rfl fun t x => at_set_of_eq ht rfl
  | lock ht => exact h.keep rfl fun t x => at_set_of_eq ht rfl
  | share ht => exact h.keep rfl fun t x => at_set_of_eq ht rfl
  | sleep ht => exact h.keep rfl fun t x => at_set_of_eq ht rfl
  | leave ht => exact h.keep rfl fun t x => at_set_of_eq ht rfl
  | drop ht => exact h.keep rfl fun t x => at_set_of_eq ht rfl
  | answer ht => exact h.keep rfl fun t x => at_set_of_eq ht rfl
  | load out ht => exact h.keep rfl fun t x => at_set_of_eq ht rfl
  | hold ht => exact h.keep rfl fun t x => at_set_of_eq ht rfl
  | publish ht => exact h.keep rfl fun t x => at_set_of_eq ht rfl
  | claim ht => exact h.keep rfl fun t x => at_set_of_eq ht rfl
  | wake ht => exact h.keep rfl fun t x => at_set_of_eq ht rfl

/-! ## Results -/

/-- What is published comes from the one loader run of its `Call`, and nobody sleeps on a `Call`
whose leader has already notified. -/
structure Results (s : State) : Prop where
  loads_lt : ∀ c out, (c, out) ∈ s.loads → c < s.calls.length
  once : (s.loads.map Prod.fst).Nodup
  loading : ∀ t c, At Pc.loads s.threads t c → ∀ out, (c, out) ∉ s.loads
  carried : ∀ t c r, At Pc.carries s.threads t (c, r) →
    (s.callAt c).done = false ∧ ∃ out, (c, out) ∈ s.loads ∧ r = outcome out
  known : ∀ t c r, At Pc.knows s.threads t (c, r) →
    (s.callAt c).done = true ∧ (s.callAt c).result = r
  done : ∀ c, (s.callAt c).done = true →
    ∃ out, (c, out) ∈ s.loads ∧ (s.callAt c).result = outcome out
  led : ∀ c, c < s.calls.length → (s.callAt c).done = false →
    ∃ t key, At Pc.leads s.threads t (key, c)
  asleep : ∀ t c, At Pc.sleeps s.threads t c → ∃ u, At Pc.announces s.threads u c

/-- The `Call`s are as before, up to locks and counts. -/
structure SameCalls (s s₁ : State) : Prop where
  length : s₁.calls.length = s.calls.length
  done : ∀ c, (s₁.callAt c).done = (s.callAt c).done
  result : ∀ c, (s₁.callAt c).result = (s.callAt c).result

theorem SameCalls.set {s₁ : State} {c : Nat} {call call' : Call} (hc : s.calls[c]? = some call)
    (h : s₁.calls = s.calls.set c call') (hd : call'.done = call.done)
    (hr : call'.result = call.result) : s.SameCalls s₁ where
  length := by rw [h, List.length_set]
  done := by
    rw [← callAt_eq hc] at hd
    intro d
    rw [callAt, h]
    exact forall_callAt_set (Q := fun d x => x.done = (s.callAt d).done) hc hd (fun _ _ => rfl) d
  result := by
    rw [← callAt_eq hc] at hr
    intro d
    rw [callAt, h]
    exact forall_callAt_set (Q := fun d x => x.result = (s.callAt d).result) hc hr (fun _ _ => rfl) d

theorem SameCalls.of_eq {s₁ : State} (h : s₁.calls = s.calls) : s.SameCalls s₁ where
  length := by rw [h]
  done c := by rw [callAt, h]; rfl
  result c := by rw [callAt, h]; rfl

/-- Roles of results are at most lost, roles of leaders kept. -/
structure Quiet (ts ts' : List Pc) : Prop where
  loads : ∀ t c, At Pc.loads ts' t c → At Pc.loads ts t c
  carries : ∀ t x, At Pc.carries ts' t x → At Pc.carries ts t x
  knows : ∀ t x, At Pc.knows ts' t x → At Pc.knows ts t x
  sleeps : ∀ t c, At Pc.sleeps ts' t c → At Pc.sleeps ts t c
  leads : ∀ t x, At Pc.leads ts t x → At Pc.leads ts' t x
  announces : ∀ t c, At Pc.announces ts t c → At Pc.announces ts' t c

theorem Results.quiet {s₁ : State} (h : s.Results) (hl : s₁.loads = s.loads)
    (hc : s.SameCalls s₁) (hq : Quiet s.threads s₁.threads) : s₁.Results where
  loads_lt c out hm := by
    rw [hc.length]
    exact h.loads_lt c out (hl ▸ hm)
  once := by
    rw [hl]
    exact h.once
  loading t c ha := by
    rw [hl]
    exact h.loading t c (hq.loads t c ha)
  carried t c r ha := by
    rw [hl, hc.done]
    exact h.carried t c r (hq.carries t _ ha)
  known t c r ha := by
    rw [hc.done, hc.result]
    exact h.known t c r (hq.knows t _ ha)
  done c hd := by
    rw [hl, hc.result]
    exact h.done c (hc.done c ▸ hd)
  led c hlt hd := by
    obtain ⟨t, key, ha⟩ := h.led c (hc.length ▸ hlt) (hc.done c ▸ hd)
    exact ⟨t, key, hq.leads t _ ha⟩
  asleep t c ha := by
    obtain ⟨u, hu⟩ := h.asleep t c (hq.sleeps t c ha)
    exact ⟨u, hq.announces u c hu⟩

/-- Only locks and counts of a `Call` change. -/
theorem Results.setCall {c : Nat} {call call' : Call} (h : s.Results)
    (hc : s.calls[c]? = some call) (hd : call'.done = call.done)
    (hr : call'.result = call.result) : (s.setCall c call').Results :=
  h.quiet rfl (.set hc rfl hd hr)
    ⟨fun _ _ => id, fun _ _ => id, fun _ _ => id, fun _ _ => id, fun _ _ => id, fun _ _ => id⟩

/-- A step of a thread that is neither leader nor the first to know a result. -/
def QuietMove (p q : Pc) : Prop :=
  (q.loads = none ∨ q.loads = p.loads) ∧ (q.carries = none ∨ q.carries = p.carries) ∧
    (q.knows = none ∨ q.knows = p.knows) ∧ (q.sleeps = none ∨ q.sleeps = p.sleeps) ∧
    q.leads = p.leads ∧ q.announces = p.announces

theorem quiet_set {t : Nat} {p q : Pc} (ht : s.threads[t]? = some p) (h : QuietMove p q) :
    Quiet s.threads (s.threads.set t q) := by
  have lost : ∀ {X : Type} {f : Pc → Option X}, f q = none ∨ f q = f p →
      ∀ u x, At f (s.threads.set t q) u x → At f s.threads u x := by
    intro X f hf u x ha
    rcases hf with hf | hf
    · rcases at_of_at_set ht ha with ha | ⟨-, he⟩
      · exact ha
      · rw [hf] at he
        cases he
    · exact (at_set_of_eq ht hf).mp ha
  obtain ⟨h1, h2, h3, h4, h5, h6⟩ := h
  exact ⟨lost h1, lost h2, lost h3, lost h4, fun u x => (at_set_of_eq ht h5).mpr,
    fun u x => (at_set_of_eq ht h6).mpr⟩

/-- A leader whose `Call` is not done has still to notify. -/
theorem Results.announces_of_todo {t c : Nat} {key : Bytes} (h : s.Results)
    (hl : At Pc.leads s.threads t (key, c)) (todo : (s.callAt c).done = false) :
    At Pc.announces s.threads t c := by
  obtain ⟨p, hp, hl⟩ := hl
  have unknown : ∀ r, p.knows ≠ some (c, r) := by
    intro r hk
    have := (h.known t c r ⟨p, hp, hk⟩).1
    rw [todo] at this
    cases this
  refine ⟨p, hp, ?_⟩
  cases p <;> simp_all [Pc.leads, Pc.announces, Pc.knows]

theorem Results.spawn {key : Bytes} (h : s.Results) :
    ({ s with threads := s.threads ++ [.enter key] } : State).Results := by
  refine h.quiet rfl (.of_eq rfl) ⟨?_, ?_, ?_, ?_, ?_, ?_⟩
  · exact fun t x ha => (at_append_of_none rfl).mp ha
  · exact fun t x ha => (at_append_of_none rfl).mp ha
  · exact fun t x ha => (at_append_of_none rfl).mp ha
  · exact fun t x ha => (at_append_of_none rfl).mp ha
  · exact fun t x ha => (at_append_of_none rfl).mpr ha
  · exact fun t x ha => (at_append_of_none rfl).mpr ha

theorem Results.register {t : Nat} {key : Bytes} (h : s.Results)
    (ht : s.threads[t]? = some (.lookup key)) :
    ((s.register key).go t (.loading key s.calls.length)).Results where
  loads_lt c out hm := by
    have := h.loads_lt c out hm
    simp only [go, State.register, List.length_append, List.length_singleton]
    omega
  once := h.once
  loading u c ha := by
    rcases at_of_at_set ht ha with ha | ⟨-, he⟩
    · exact h.loading u c ha
    · cases he
      intro out hm
      exact absurd (h.loads_lt _ out hm) (lt_irrefl _)
  carried u c r ha := by
    rw [callAt_register]
    rcases at_of_at_set ht ha with ha | ⟨-, he⟩
    · exact h.carried u c r ha
    · cases he
  known u c r ha := by
    rw [callAt_register]
    rcases at_of_at_set ht ha with ha | ⟨-, he⟩
    · exact h.known u c r ha
    · cases he
  done c hd := by
    rw [callAt_register] at hd ⊢
    exact h.done c hd
  led c hlt hd := by
    rw [callAt_register] at hd
    simp only [go, State.register, List.length_append, List.length_singleton] at hlt
    rcases Nat.lt_succ_iff_lt_or_eq.mp hlt with hlt | rfl
    · obtain ⟨u, k, hu⟩ := h.led c hlt hd
      obtain ⟨u', hu'⟩ := (exists_at_set_of_none ht rfl).mpr (Or.inl ⟨u, hu⟩)
      exact ⟨u', k, hu'⟩
    · exact ⟨t, key, (at_set_self ht).mpr rfl⟩
  asleep u c ha := by
    rcases at_of_at_set ht ha with ha | ⟨-, he⟩
    · exact (exists_at_set_of_none ht rfl).mpr (Or.inl (h.asleep u c ha))
    · cases he

theorem Results.share {t c : Nat} {call : Call} (h : s.Results)
    (ht : s.threads[t]? = some (.checking c)) (hc : s.calls[c]? = some call)
    (done : call.done = true) : (s.go t (.sharing c call.result)).Results where
  loads_lt := h.loads_lt
  once := h.once
  loading u d ha := h.loading u d (At.of_set ha ht rfl)
  carried u d r ha := h.carried u d r (At.of_set ha ht rfl)
  known u d r ha := by
    rcases at_of_at_set ht ha with ha | ⟨-, he⟩
    · exact h.known u d r ha
    · cases he
      have he := callAt_eq hc
      exact ⟨he.symm ▸ done, congrArg Call.result he⟩
  done := h.done
  led d hlt hd := by
    obtain ⟨u, key, hu⟩ := h.led d hlt hd
    exact ⟨u, key, At.set hu ht rfl⟩
  asleep u d ha := by
    obtain ⟨v, hv⟩ := h.asleep u d (At.of_set ha ht rfl)
    exact ⟨v, At.set hv ht rfl⟩

/-- A waiter falls asleep before its `Call` is done: the leader has still to notify. -/
theorem Results.sleep {t c : Nat} (h : s.Results) (ht : s.threads[t]? = some (.checking c))
    (hlt : c < s.calls.length) (todo : (s.callAt c).done = false) :
    (s.go t (.sleeping c)).Results where
  loads_lt := h.loads_lt
  once := h.once
  loading u d ha := h.loading u d (At.of_set ha ht rfl)
  carried u d r ha := h.carried u d r (At.of_set ha ht rfl)
  known u d r ha := h.known u d r (At.of_set ha ht rfl)
  done := h.done
  led d hd todo := by
    obtain ⟨u, key, hu⟩ := h.led d hd todo
    exact ⟨u, key, At.set hu ht rfl⟩
  asleep u d ha := by
    rcases at_of_at_set ht ha with ha | ⟨-, he⟩
    · obtain ⟨v, hv⟩ := h.asleep u d ha
      exact ⟨v, At.set hv ht rfl⟩
    · cases he
      obtain ⟨v, key, hv⟩ := h.led c hlt todo
      exact ⟨v, At.set (h.announces_of_todo hv todo) ht rfl⟩

theorem leads_of_loads {t c : Nat} (h : At Pc.loads s.threads t c) :
    ∃ key, At Pc.leads s.threads t (key, c) := by
  obtain ⟨p, hp, hl⟩ := h
  cases p <;> simp only [Pc.loads, reduceCtorEq, Option.some.injEq] at hl
  subst hl
  exact ⟨_, _, hp, rfl⟩

theorem leads_of_carries {t c : Nat} {r : SingleFlightResult}
    (h : At Pc.carries s.threads t (c, r)) : ∃ key, At Pc.leads s.threads t (key, c) := by
  obtain ⟨p, hp, hl⟩ := h
  cases p <;> simp only [Pc.carries, reduceCtorEq, Option.some.injEq, Prod.mk.injEq] at hl
  · obtain ⟨rfl, rfl⟩ := hl
    exact ⟨_, _, hp, rfl⟩
  · obtain ⟨rfl, rfl⟩ := hl
    exact ⟨_, _, hp, rfl⟩

theorem Results.load {t c : Nat} {key : Bytes} (out : Option SingleFlightResult) (h : s.Results)
    (hreg : s.Registry) (bound : ∀ t c, At Pc.refers s.threads t c → c < s.calls.length)
    (ht : s.threads[t]? = some (.loading key c)) :
    ({ s with loads := s.loads ++ [(c, out)] }.go t (.loaded key c (outcome out))).Results := by
  have fresh : ∀ out, (c, out) ∉ s.loads := h.loading t c ⟨_, ht, rfl⟩
  refine ⟨?_, ?_, ?_, ?_, ?_, ?_, ?_, ?_⟩
  · intro d o hm
    rcases List.mem_append.mp hm with hm | hm
    · exact h.loads_lt d o hm
    · cases List.mem_singleton.mp hm
      exact bound t c ⟨_, ht, rfl⟩
  · show ((s.loads ++ [(c, out)]).map Prod.fst).Nodup
    rw [List.map_append, List.nodup_append]
    refine ⟨h.once, by simp, ?_⟩
    rintro d hd e he rfl
    obtain ⟨⟨d', o⟩, hm, rfl⟩ := List.mem_map.mp hd
    simp only [List.map_cons, List.map_nil, List.mem_singleton] at he
    subst he
    exact fresh o hm
  · intro u d ha o hm
    rcases at_of_at_set ht ha with ha' | ⟨-, he⟩
    · rcases List.mem_append.mp hm with hm | hm
      · exact h.loading u d ha' o hm
      · cases List.mem_singleton.mp hm
        -- both lead `c`, so `u` is the thread whose loader has just ended
        obtain ⟨k, hl⟩ := leads_of_loads ha'
        cases hreg.leader hl ⟨_, ht, rfl⟩
        cases (at_set_self ht).mp ha
    · cases he
  · intro u d r ha
    rcases at_of_at_set ht ha with ha | ⟨-, he⟩
    · obtain ⟨hd, o, hm, hr⟩ := h.carried u d r ha
      exact ⟨hd, o, List.mem_append_left _ hm, hr⟩
    · cases he
      refine ⟨?_, out, by simp [go], rfl⟩
      refine Bool.eq_false_iff.mpr fun hd => ?_
      obtain ⟨o, hm, -⟩ := h.done c hd
      exact fresh o hm
  · exact fun u d r ha => h.known u d r (At.of_set ha ht rfl)
  · intro d hd
    obtain ⟨o, hm, hr⟩ := h.done d hd
    exact ⟨o, List.mem_append_left _ hm, hr⟩
  · intro d hlt hd
    obtain ⟨u, k, hu⟩ := h.led d hlt hd
    exact ⟨u, k, At.set hu ht rfl⟩
  · intro u d ha
    obtain ⟨v, hv⟩ := h.asleep u d (At.of_set ha ht rfl)
    exact ⟨v, At.set hv ht rfl⟩

theorem Results.publish {t c : Nat} {key : Bytes} {r : SingleFlightResult} {call : Call}
    (h : s.Results) (hreg : s.Registry) (ht : s.threads[t]? = some (.publishing key c r))
    (hc : s.calls[c]? = some call) :
    ((s.setCall c { call with result := r, done := true, mu := none }).go t
      (.published key c r)).Results := by
  obtain ⟨todo, out, hm, hr⟩ := h.carried t c r ⟨_, ht, rfl⟩
  have hother : ∀ {d : Nat}, d ≠ c →
      ((s.setCall c { call with result := r, done := true, mu := none }).go t
        (.published key c r)).callAt d = s.callAt d := by
    intro d hd
    refine (callAt_set hc).trans ?_
    rw [if_neg hd]
  have hmine : ((s.setCall c { call with result := r, done := true, mu := none }).go t
      (.published key c r)).callAt c = { call with result := r, done := true, mu := none } := by
    refine (callAt_set hc).trans ?_
    rw [if_pos rfl]
  refine ⟨?_, h.once, ?_, ?_, ?_, ?_, ?_, ?_⟩
  · intro d o hd
    simp only [go, State.setCall, List.length_set]
    exact h.loads_lt d o hd
  · exact fun u d ha => h.loading u d (At.of_set ha ht rfl)
  · intro u d r' ha
    rcases at_of_at_set ht ha with ha' | ⟨-, he⟩
    · have hd : d ≠ c := by
        rintro rfl
        obtain ⟨k, hl⟩ := leads_of_carries ha'
        cases hreg.leader hl ⟨_, ht, rfl⟩
        cases (at_set_self ht).mp ha
      rw [hother hd]
      exact h.carried u d r' ha'
    · cases he
  · intro u d r' ha
    rcases at_of_at_set ht ha with ha | ⟨-, he⟩
    · have hk := h.known u d r' ha
      have hd : d ≠ c := by
        rintro rfl
        rw [todo] at hk
        cases hk.1
      rw [hother hd]
      exact hk
    · cases he
      rw [hmine]
      exact ⟨rfl, rfl⟩
  · intro d hd
    by_cases he : d = c
    · subst he
      rw [hmine]
      exact ⟨out, hm, hr⟩
    · rw [hother he] at hd ⊢
      exact h.done d hd
  · intro d hlt hd
    by_cases he : d = c
    · subst he
      rw [hmine] at hd
      cases hd
    · rw [hother he] at hd
      simp only [go, State.setCall, List.length_set] at hlt
      obtain ⟨u, k, hu⟩ := h.led d hlt hd
      exact ⟨u, k, At.set hu ht rfl⟩
  · intro u d ha
    obtain ⟨v, hv⟩ := h.asleep u d (At.of_set ha ht rfl)
    exact ⟨v, At.set hv ht rfl⟩

/-- `notify_all` wakes whoever slept on `c`, and only those need its leader. -/
theorem Results.notify {t c : Nat} {key : Bytes} {r : SingleFlightResult} (h : s.Results)
    (ht : s.threads[t]? = some (.published key c r)) :
    ({ s with threads := s.threads.map (Pc.notify c) }.go t (.notified key c r)).Results := by
  have back : ∀ {X : Type} {f : Pc → Option X} {u : Nat} {x : X},
      (∀ c, f (.joining c) = f (.sleeping c)) → f (.notified key c r) = f (.published key c r) →
      (At f ((s.threads.map (Pc.notify c)).set t (.notified key c r)) u x ↔ At f s.threads u x) :=
    fun hf he => (at_set_of_eq (notified_at ht c) he).trans (at_map (Pc.notify_role hf c))
  refine ⟨h.loads_lt, h.once, ?_, ?_, ?_, h.done, ?_, ?_⟩
  · exact fun u d ha => h.loading u d ((back (fun _ => rfl) rfl).mp ha)
  · exact fun u d r ha => h.carried u d r ((back (fun _ => rfl) rfl).mp ha)
  · exact fun u d r ha => h.known u d r ((back (fun _ => rfl) rfl).mp ha)
  · intro d hlt hd
    obtain ⟨u, k, hu⟩ := h.led d hlt hd
    exact ⟨u, k, (back (fun _ => rfl) rfl).mpr hu⟩
  · intro u d ha
    rcases at_of_at_set (notified_at ht c) ha with ⟨p, hp, hs⟩ | ⟨-, he⟩
    · rw [List.getElem?_map, Option.map_eq_some_iff] at hp
      obtain ⟨p, hp, rfl⟩ := hp
      -- a thread that still sleeps slept before, on another `Call`
      cases p with
      | sleeping e =>
        simp only [Pc.notify] at hs
        split at hs
        · cases hs
        · rename_i hne
          cases hs
          obtain ⟨v, hv⟩ := h.asleep u d ⟨_, hp, rfl⟩
          have hvt : v ≠ t := by
            rintro rfl
            rw [at_here ht] at hv
            cases hv
            exact hne rfl
          exact ⟨v, (at_set_ne hvt).mpr ((at_map (Pc.notify_role (fun _ => rfl) c)).mpr hv)⟩
      | _ => cases hs
    · cases he

theorem Results.remove {t c : Nat} {key : Bytes} {r : SingleFlightResult} (h : s.Results)
    (ht : s.threads[t]? = some (.removing key c r)) :
    ((s.remove key c).go t (.returned (some c) r)).Results where
  loads_lt := h.loads_lt
  once := h.once
  loading u d ha := h.loading u d (At.of_set ha ht rfl)
  carried u d r ha := h.carried u d r (At.of_set ha ht rfl)
  known u d r ha := h.known u d r (At.of_set ha ht rfl)
  done := h.done
  led d hlt hd := by
    obtain ⟨u, k, hu⟩ := h.led d hlt hd
    have hut : u ≠ t := by
      rintro rfl
      rw [at_here ht] at hu
      cases hu
      have hdone := (h.known u c r ⟨_, ht, rfl⟩).1
      have hd : (s.callAt c).done = false := hd
      rw [hd] at hdone
      cases hdone
    exact ⟨u, k, (at_set_ne hut).mpr hu⟩
  asleep u d ha := by
    obtain ⟨v, hv⟩ := h.asleep u d (At.of_set ha ht rfl)
    exact ⟨v, At.set hv ht rfl⟩

theorem Results.step (h : s.Results) (hreg : s.Registry)
    (bound : ∀ t c, At Pc.refers s.threads t c → c < s.calls.length) (hs : Step cfg s l s') :
    s'.Results := by
  have quiet : ∀ {t : Nat} {p q : Pc}, s.threads[t]? = some p → QuietMove p q →
      Quiet s.threads (s.threads.set t q) := quiet_set
  have same : ∀ {p q : Pc}, q.loads = p.loads → q.carries = p.carries → q.knows = p.knows →
      q.sleeps = p.sleeps → q.leads = p.leads → q.announces = p.announces → QuietMove p q :=
    fun h1 h2 h3 h4 h5 h6 => ⟨.inr h1, .inr h2, .inr h3, .inr h4, h5, h6⟩
  cases hs with
  | call key => exact h.spawn
  | lead ht => exact h.register ht
  | share ht hc done => exact h.share ht hc done
  | @sleep t c call ht hc todo =>
    have same : s.SameCalls (s.setCall c { call with mu := none }) := .set hc rfl rfl rfl
    have h' : (s.setCall c { call with mu := none }).Results := h.setCall hc rfl rfl
    refine h'.sleep ht (same.length ▸ lt_of_getElem? hc) ?_
    rw [same.done, callAt_eq hc]
    exact todo
  | load out ht => exact h.load out hreg bound ht
  | publish ht hc => exact h.publish hreg ht hc
  | notify ht => exact h.notify ht
  | remove ht => exact h.remove ht
  | wake ht => exact h.quiet rfl (.of_eq rfl) (quiet ht ⟨.inr rfl, .inr rfl, .inr rfl, .inl rfl, rfl, rfl⟩)
  | join ht found hc =>
    exact h.quiet rfl (.set hc rfl rfl rfl) (quiet ht (same rfl rfl rfl rfl rfl rfl))
  | lock ht hc => exact h.quiet rfl (.set hc rfl rfl rfl) (quiet ht (same rfl rfl rfl rfl rfl rfl))
  | drop ht hc => exact h.quiet rfl (.set hc rfl rfl rfl) (quiet ht (same rfl rfl rfl rfl rfl rfl))
  | answer ht hc => exact h.quiet rfl (.set hc rfl rfl rfl) (quiet ht (same rfl rfl rfl rfl rfl rfl))
  | hold ht hc => exact h.quiet rfl (.set hc rfl rfl rfl) (quiet ht (same rfl rfl rfl rfl rfl rfl))
  | enter ht => exact h.quiet rfl (.of_eq rfl) (quiet ht (same rfl rfl rfl rfl rfl rfl))
  | full ht => exact h.quiet rfl (.of_eq rfl) (quiet ht (same rfl rfl rfl rfl rfl rfl))
  | refuse ht => exact h.quiet rfl (.of_eq rfl) (quiet ht (same rfl rfl rfl rfl rfl rfl))
  | leave ht => exact h.quiet rfl (.of_eq rfl) (quiet ht (same rfl rfl rfl rfl rfl rfl))
  | claim ht => exact h.quiet rfl (.of_eq rfl) (quiet ht (same rfl rfl rfl rfl rfl rfl))

/-! ## The invariant -/

structure Inv (cfg : Config) (s : State) : Prop where
  mutex : Owns Pc.holdsMutex s.threads () s.mutex
  mu : ∀ c, Owns Pc.holdsMu s.threads c (s.callAt c).mu
  waiters : ∀ c, (s.callAt c).waiters = count Pc.waits s.threads c
  waiters_le : ∀ c, (s.callAt c).waiters ≤ cfg.maxWaitersPerKey
  size : s.inflight.entries.length ≤ cfg.maxInflight
  refers : ∀ t c, At Pc.refers s.threads t c → c < s.calls.length
  registry : s.Registry
  results : s.Results

theorem inv_init (cfg : Config) : Inv cfg {} := by
  have none : ∀ {X : Type} {f : Pc → Option X} {t : Nat} {x : X}, ¬ At f [] t x := by
    rintro X f t x ⟨p, hp, -⟩
    cases hp
  refine ⟨fun t => iff_of_false (by simp) none, fun c t => iff_of_false (by simp [callAt]) none,
    fun c => rfl, fun c => Nat.zero_le _, Nat.zero_le _, fun t c ha => absurd ha none, ?_, ?_⟩
  · exact ⟨fun key c => iff_of_false (by simp) (fun ⟨t, ha⟩ => none ha), fun ha => absurd ha none⟩
  · refine ⟨by simp, by simp, fun t c ha => absurd ha none, fun t c r ha => absurd ha none,
      fun t c r ha => absurd ha none, ?_, ?_, fun t c ha => absurd ha none⟩
    · intro c hd
      cases hd
    · intro c hlt
      cases hlt

theorem Inv.step (h : Inv cfg s) (hs : s.step cfg l = some s') : Inv cfg s' where
  mutex := mutex_step h.mutex (step_cases hs)
  mu := mu_step h.mu (step_cases hs)
  waiters := waiters_step h.waiters (step_cases hs)
  waiters_le := waiters_le_step h.waiters_le (step_cases hs)
  size := size_step h.size (step_cases hs)
  refers := refers_step h.refers (step_cases hs)
  registry := h.registry.step h.refers (step_cases hs)
  results := h.results.step h.registry h.refers (step_cases hs)

theorem inv_run {ls : List Label} (hr : Machine.run (State.step cfg) {} ls = some s) : Inv cfg s :=
  Machine.run_preserves _ (fun _ _ _ h hs => h.step hs) (inv_init cfg) hr

end

end State

end SingleFlight
end UrlShortener
