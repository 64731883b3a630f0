import UrlShortener.Base.Machine
import UrlShortener.Base.Threads
import Mathlib.Data.Multiset.Basic
import Mathlib.Data.Multiset.ZeroCons

/-!
# UrlShortener.Mysql.Pool

`connection_pool` between `init` and `DestroyPool`, used by any number of threads through
`connectionRAII`: a thread gets connections and later releases what it holds.

The list and the counters are only used with `lock` held, so a critical section is one step. The
semaphore `reserve` is not under the lock: `GetConnection` waits on it before its locked pop, and
`ReleaseConnection` posts it after its locked push. Between the two steps of either, the list is
longer than the semaphore says; `Inv.length_eq` counts the threads that are there.
-/

namespace UrlShortener
namespace Mysql

variable {Conn : Type}

structure Pool (Conn : Type) where
  connList : List Conn := []
  freeConn : Int := 0
  curConn : Int := 0
  maxConn : Int := 0
  /-- The value of the semaphore. -/
  reserve : Nat := 0

/-- The loop of `init`. `connect i` is what `mysql_init` and `mysql_real_connect` give in round `i`;
`none` is a null pointer from either. -/
def connectLoop (connect : Nat → Option Conn) : Nat → Nat → Pool Conn → Pool Conn
  | 0, _, p => p
  | n + 1, i, p =>
    match connect i with
    | none => p
    | some con =>
      connectLoop connect n (i + 1)
        { p with connList := p.connList ++ [con], freeConn := p.freeConn + 1 }

def init (connect : Nat → Option Conn) (maxConn : Nat) : Pool Conn :=
  let p := connectLoop connect maxConn 0 {}
  { p with maxConn := p.freeConn, reserve := p.freeConn.toNat }

/-- Where a thread stands. -/
inductive Pc where
  | idle
  /-- Has called `GetConnection`. -/
  | entered
  /-- Has seen `max_conn > 0`, and waits on `reserve`. -/
  | waiting
  /-- Its wait succeeded; next is the locked pop. -/
  | waited
  /-- Found the list empty and must post `reserve` again. -/
  | foundEmpty
  /-- In `ReleaseConnection`, between the locked push and the post. -/
  | pushed
deriving DecidableEq

structure Thread (Conn : Type) where
  pc : Pc := .idle
  /-- The connections of its live `connectionRAII` objects. -/
  held : List Conn := []

structure State (Conn : Type) where
  pool : Pool Conn
  threads : List (Thread Conn) := []

inductive Label (Conn : Type) where
  | spawn
  /-- A `connectionRAII` is constructed. -/
  | getConnection (t : Nat)
  /-- A `connectionRAII` that holds `con` is destroyed. -/
  | releaseConnection (t : Nat) (con : Conn)
  /-- `reserve.wait` returns false: the time is over, or the wait was interrupted. -/
  | timeout (t : Nat)
  /-- Thread `t` goes on. -/
  | step (t : Nat)

namespace State

def go (s : State Conn) (t : Nat) (p : Thread Conn) : State Conn :=
  { s with threads := s.threads.set t p }

/-- The locked section after a wait that succeeded. -/
def pop (s : State Conn) (t : Nat) (p : Thread Conn) : State Conn :=
  match s.pool.connList with
  | [] => s.go t { p with pc := .foundEmpty }
  | con :: rest =>
    { s with pool := { s.pool with
        connList := rest
        freeConn := s.pool.freeConn - 1
        curConn := s.pool.curConn + 1 } }.go t
      { p with pc := .idle, held := con :: p.held }

/-- The locked section of `ReleaseConnection`. -/
def push [DecidableEq Conn] (s : State Conn) (t : Nat) (p : Thread Conn) (con : Conn) :
    State Conn :=
  { s with pool := { s.pool with
      connList := s.pool.connList ++ [con]
      freeConn := s.pool.freeConn + 1
      curConn := s.pool.curConn - 1 } }.go t
    { p with pc := .pushed, held := p.held.erase con }

/-- `reserve.post()`, the last thing a call does. -/
def post (s : State Conn) (t : Nat) (p : Thread Conn) : State Conn :=
  { s with pool := { s.pool with reserve := s.pool.reserve + 1 } }.go t { p with pc := .idle }

def advance (s : State Conn) (t : Nat) (p : Thread Conn) : Option (State Conn) :=
  match p.pc with
  | .idle => none
  | .entered =>
    if s.pool.maxConn ≤ 0 then some (s.go t { p with pc := .idle })
    else some (s.go t { p with pc := .waiting })
  | .waiting =>
    if 0 < s.pool.reserve then
      some ({ s with pool := { s.pool with reserve := s.pool.reserve - 1 } }.go t
        { p with pc := .waited })
    else none
  | .waited => some (s.pop t p)
  | .foundEmpty => some (s.post t p)
  | .pushed => some (s.post t p)

def step [DecidableEq Conn] (s : State Conn) : Label Conn → Option (State Conn)
  | .spawn => some { s with threads := s.threads ++ [{}] }
  | .getConnection t => do
    let p ← s.threads[t]?
    if p.pc = .idle then some (s.go t { p with pc := .entered }) else none
  | .releaseConnection t con => do
    let p ← s.threads[t]?
    if p.pc = .idle ∧ con ∈ p.held then some (s.push t p con) else none
  | .timeout t => do
    let p ← s.threads[t]?
    if p.pc = .waiting then some (s.go t { p with pc := .idle }) else none
  | .step t => do s.advance t (← s.threads[t]?)

/-- The connections that threads hold. -/
def held (s : State Conn) : Multiset Conn := (s.threads.map fun p => (p.held : Multiset Conn)).sum

end State

/-! ## What a step can do -/

section Steps

inductive Step [DecidableEq Conn] (s : State Conn) : Label Conn → State Conn → Prop
  | spawn : Step s .spawn { s with threads := s.threads ++ [{}] }
  /-- A step inside a call that changes nothing but where the thread stands. -/
  | move {l : Label Conn} {t : Nat} {p : Thread Conn} (pc : Pc) (ht : s.threads[t]? = some p)
      (hp : p.pc ≠ .waited ∧ p.pc ≠ .foundEmpty ∧ p.pc ≠ .pushed)
      (hpc : pc ≠ .waited ∧ pc ≠ .foundEmpty ∧ pc ≠ .pushed) : Step s l (s.go t { p with pc })
  | wait {t : Nat} {p : Thread Conn} (ht : s.threads[t]? = some p) (hp : p.pc = .waiting)
      (hpos : 0 < s.pool.reserve) :
      Step s (.step t) ({ s with pool := { s.pool with reserve := s.pool.reserve - 1 } }.go t
        { p with pc := .waited })
  | pop {t : Nat} {p : Thread Conn} (ht : s.threads[t]? = some p) (hp : p.pc = .waited) :
      Step s (.step t) (s.pop t p)
  | push {t : Nat} {p : Thread Conn} {con : Conn} (ht : s.threads[t]? = some p) (hp : p.pc = .idle)
      (hcon : con ∈ p.held) : Step s (.releaseConnection t con) (s.push t p con)
  | post {t : Nat} {p : Thread Conn} (ht : s.threads[t]? = some p)
      (hp : p.pc = .foundEmpty ∨ p.pc = .pushed) : Step s (.step t) (s.post t p)

variable [DecidableEq Conn] {s s' : State Conn}

theorem advance_cases {t : Nat} {p : Thread Conn} (ht : s.threads[t]? = some p)
    (h : s.advance t p = some s') : Step s (.step t) s' := by
  unfold State.advance at h
  split at h
  · cases h
  · rename_i hp
    split at h
    · cases h
      exact .move .idle ht (by simp [hp]) (by simp)
    · cases h
      exact .move .waiting ht (by simp [hp]) (by simp)
  · rename_i hp
    split at h
    · rename_i hpos
      cases h
      exact .wait ht hp hpos
    · cases h
  · rename_i hp
    cases h
    exact .pop ht hp
  · rename_i hp
    cases h
    exact .post ht (Or.inl hp)
  · rename_i hp
    cases h
    exact .post ht (Or.inr hp)

theorem step_cases {l : Label Conn} (h : s.step l = some s') : Step s l s' := by
  cases l with
  | spawn => cases h; exact .spawn
  | getConnection t =>
    obtain ⟨p, ht, h⟩ := Option.bind_eq_some_iff.mp h
    split at h
    · rename_i hp
      cases h
      exact .move .entered ht (by simp [hp]) (by simp)
    · cases h
  | releaseConnection t con =>
    obtain ⟨p, ht, h⟩ := Option.bind_eq_some_iff.mp h
    split at h
    · rename_i hp
      cases h
      exact .push ht hp.1 hp.2
    · cases h
  | timeout t =>
    obtain ⟨p, ht, h⟩ := Option.bind_eq_some_iff.mp h
    split at h
    · rename_i hp
      cases h
      exact .move .idle ht (by simp [hp]) (by simp)
    · cases h
  | step t =>
    obtain ⟨p, ht, h⟩ := Option.bind_eq_some_iff.mp h
    exact advance_cases ht h

end Steps

/-! ## The invariant -/

/-- A thread between the two steps of `GetConnection` or of `ReleaseConnection`: there is a
connection in the list that the semaphore does not count. -/
def Thread.between (p : Thread Conn) : Option Unit :=
  if p.pc = .waited ∨ p.pc = .foundEmpty ∨ p.pc = .pushed then some () else none

structure Inv (initial : List Conn) (s : State Conn) : Prop where
  conserved : (s.pool.connList : Multiset Conn) + s.held = initial
  free_eq : s.pool.freeConn = s.pool.connList.length
  sum_eq : s.pool.freeConn + s.pool.curConn = s.pool.maxConn
  max_eq : s.pool.maxConn = initial.length
  length_eq : s.pool.connList.length = s.pool.reserve + Threads.count Thread.between s.threads ()
  not_empty : ∀ p ∈ s.threads, p.pc ≠ .foundEmpty

variable {initial : List Conn} {s s' : State Conn}

theorem mem_of_mem_set {t : Nat} {p q : Thread Conn} (hq : q.pc ≠ .foundEmpty)
    (h : ∀ p ∈ s.threads, p.pc ≠ .foundEmpty) (hp : p ∈ s.threads.set t q) :
    p.pc ≠ .foundEmpty := by
  rcases List.mem_or_eq_of_mem_set hp with hp | rfl
  · exact h p hp
  · exact hq

theorem held_go {t : Nat} {p q : Thread Conn} (ht : s.threads[t]? = some p) :
    (s.go t q).held + (p.held : Multiset Conn) = s.held + (q.held : Multiset Conn) :=
  Threads.sum_map_set (fun p : Thread Conn => (p.held : Multiset Conn)) ht

/-- A step that hands no connection over. -/
theorem Inv.conserved_go {t : Nat} {p q : Thread Conn} {pool : Pool Conn} (h : Inv initial s)
    (ht : s.threads[t]? = some p) (hq : q.held = p.held) (hl : pool.connList = s.pool.connList) :
    (pool.connList : Multiset Conn) + (s.go t q).held = initial := by
  have := held_go (q := q) ht
  rw [hq] at this
  rw [add_right_cancel this, hl]
  exact h.conserved

theorem count_go {t : Nat} {p q : Thread Conn} (ht : s.threads[t]? = some p) :
    Threads.count Thread.between (s.go t q).threads () + (if p.between = some () then 1 else 0) =
      Threads.count Thread.between s.threads () + if q.between = some () then 1 else 0 :=
  Threads.count_set ht

theorem Inv.move {t : Nat} {p : Thread Conn} {pc : Pc} (h : Inv initial s)
    (ht : s.threads[t]? = some p)
    (hp : p.pc ≠ .waited ∧ p.pc ≠ .foundEmpty ∧ p.pc ≠ .pushed)
    (hpc : pc ≠ .waited ∧ pc ≠ .foundEmpty ∧ pc ≠ .pushed) :
    Inv initial (s.go t { p with pc }) where
  conserved := h.conserved_go ht rfl rfl
  free_eq := h.free_eq
  sum_eq := h.sum_eq
  max_eq := h.max_eq
  length_eq := by
    have hcount := count_go (q := { p with pc }) ht
    have hlen := h.length_eq
    simp only [Thread.between, hp, hpc] at hcount
    simp only [State.go] at hcount ⊢
    omega
  not_empty q hq := mem_of_mem_set hpc.2.1 h.not_empty hq

theorem Inv.wait {t : Nat} {p : Thread Conn} (h : Inv initial s) (ht : s.threads[t]? = some p)
    (hp : p.pc = .waiting) (hpos : 0 < s.pool.reserve) :
    Inv initial ({ s with pool := { s.pool with reserve := s.pool.reserve - 1 } }.go t
      { p with pc := .waited }) where
  conserved := h.conserved_go ht rfl rfl
  free_eq := h.free_eq
  sum_eq := h.sum_eq
  max_eq := h.max_eq
  length_eq := by
    have hcount := count_go (q := { p with pc := .waited }) ht
    have hlen := h.length_eq
    simp [Thread.between, hp] at hcount
    simp only [State.go] at hcount ⊢
    omega
  not_empty q hq := mem_of_mem_set (by simp) h.not_empty hq

/-- **A thread that has waited finds a connection.** -/
theorem Inv.connList_ne_nil {t : Nat} {p : Thread Conn} (h : Inv initial s)
    (ht : s.threads[t]? = some p) (hp : p.pc = .waited) : s.pool.connList ≠ [] := by
  have hpos : 0 < Threads.count Thread.between s.threads () :=
    Threads.count_pos ⟨p, ht, by simp [Thread.between, hp]⟩
  have hlen := h.length_eq
  intro hnil
  rw [hnil, List.length_nil] at hlen
  omega

theorem Inv.pop {t : Nat} {p : Thread Conn} (h : Inv initial s) (ht : s.threads[t]? = some p)
    (hp : p.pc = .waited) : Inv initial (s.pop t p) := by
  obtain ⟨con, rest, hlist⟩ := List.exists_cons_of_ne_nil (h.connList_ne_nil ht hp)
  have hfree := h.free_eq
  have hsum := h.sum_eq
  have hlen := h.length_eq
  rw [hlist, List.length_cons] at hfree hlen
  have hcount := count_go (q := { p with pc := .idle, held := con :: p.held }) ht
  have hheld := held_go (q := { p with pc := .idle, held := con :: p.held }) ht
  simp [Thread.between, hp] at hcount
  simp only [State.pop, hlist]
  refine ⟨?_, ?_, ?_, h.max_eq, ?_, fun q hq => mem_of_mem_set (by simp) h.not_empty hq⟩
  · have hcons := h.conserved
    rw [← Multiset.cons_coe] at hheld
    rw [hlist, ← Multiset.cons_coe] at hcons
    simp only [State.held, State.go] at hheld hcons ⊢
    rw [← hcons, Multiset.cons_add, ← Multiset.add_cons]
    congr 1
    rw [Multiset.add_cons, ← Multiset.cons_add] at hheld
    exact add_right_cancel hheld
  · simp only [State.go]
    push_cast at hfree
    omega
  · simp only [State.go]
    omega
  · simp only [State.go] at hcount ⊢
    omega

theorem Inv.push [DecidableEq Conn] {t : Nat} {p : Thread Conn} {con : Conn} (h : Inv initial s)
    (ht : s.threads[t]? = some p) (hp : p.pc = .idle) (hcon : con ∈ p.held) :
    Inv initial (s.push t p con) := by
  have hfree := h.free_eq
  have hsum := h.sum_eq
  have hlen := h.length_eq
  have hcount := count_go (q := { p with pc := .pushed, held := p.held.erase con }) ht
  have hheld := held_go (q := { p with pc := .pushed, held := p.held.erase con }) ht
  simp [Thread.between, hp] at hcount
  refine ⟨?_, ?_, ?_, h.max_eq, ?_, fun q hq => mem_of_mem_set (by simp) h.not_empty hq⟩
  · have hp : con ::ₘ (p.held.erase con : Multiset Conn) = p.held := by
      rw [Multiset.cons_coe, Multiset.coe_eq_coe]
      exact (List.perm_cons_erase hcon).symm
    rw [← hp, Multiset.add_cons, ← Multiset.cons_add] at hheld
    have hheld := add_right_cancel hheld
    rw [← h.conserved, ← hheld, Multiset.add_cons, ← Multiset.cons_add]
    simp only [State.push, State.go, State.held]
    congr 1
    rw [Multiset.cons_coe, Multiset.coe_eq_coe]
    exact List.perm_append_singleton con _
  · simp only [State.push, State.go, List.length_append, List.length_singleton]
    push_cast
    omega
  · simp only [State.push, State.go]
    omega
  · simp only [State.push, State.go, List.length_append, List.length_singleton] at hcount ⊢
    omega

theorem Inv.post {t : Nat} {p : Thread Conn} (h : Inv initial s) (ht : s.threads[t]? = some p)
    (hp : p.pc = .foundEmpty ∨ p.pc = .pushed) : Inv initial (s.post t p) where
  conserved := h.conserved_go ht rfl rfl
  free_eq := h.free_eq
  sum_eq := h.sum_eq
  max_eq := h.max_eq
  length_eq := by
    have hcount := count_go (q := { p with pc := .idle }) ht
    have hlen := h.length_eq
    have hb : p.between = some () := by rcases hp with hp | hp <;> simp [Thread.between, hp]
    simp [hb] at hcount
    simp [Thread.between] at hcount
    simp only [State.post, State.go] at hcount ⊢
    omega
  not_empty q hq := mem_of_mem_set (by simp) h.not_empty hq

theorem Inv.step [DecidableEq Conn] {l : Label Conn} (h : Inv initial s) (hs : s.step l = some s') :
    Inv initial s' := by
  cases step_cases hs with
  | spawn =>
    refine ⟨?_, h.free_eq, h.sum_eq, h.max_eq, ?_, ?_⟩
    · simpa [State.held] using h.conserved
    · rw [Threads.count_append_of_none (by simp [Thread.between])]
      exact h.length_eq
    · intro p hp
      rcases List.mem_append.mp hp with hp | hp
      · exact h.not_empty p hp
      · simp [List.mem_singleton.mp hp]
  | move pc ht hp hpc => exact h.move ht hp hpc
  | wait ht hp hpos => exact h.wait ht hp hpos
  | pop ht hp => exact h.pop ht hp
  | push ht hp hcon => exact h.push ht hp hcon
  | post ht hp => exact h.post ht hp

/-! ## From `init` on -/

/-- The loop of `init` adds the connections of the rounds before the first that fails. -/
theorem connectLoop_spec (connect : Nat → Option Conn)
    (hdistinct : ∀ i j c, connect i = some c → connect j = some c → i = j) :
    ∀ (n i : Nat) (p : Pool Conn), p.connList.Nodup →
      (∀ c ∈ p.connList, ∃ j < i, connect j = some c) → p.freeConn = p.connList.length →
      (connectLoop connect n i p).connList.Nodup ∧
        (connectLoop connect n i p).freeConn = (connectLoop connect n i p).connList.length ∧
        (connectLoop connect n i p).curConn = p.curConn := by
  intro n
  induction n with
  | zero => intro i p hn _ hf; exact ⟨hn, hf, rfl⟩
  | succ n ih =>
    intro i p hn hold hf
    unfold connectLoop
    cases hc : connect i with
    | none => exact ⟨hn, hf, rfl⟩
    | some con =>
      refine ih (i + 1) _ ?_ ?_ ?_
      · refine List.nodup_append.mpr ⟨hn, by simp, ?_⟩
        rintro c hmem c' hc' rfl
        obtain ⟨j, hj, hcj⟩ := hold c hmem
        rw [List.mem_singleton.mp hc'] at hcj
        exact absurd (hdistinct j i con hcj hc) (by omega)
      · intro c hmem
        rcases List.mem_append.mp hmem with hmem | hmem
        · obtain ⟨j, hj, hcj⟩ := hold c hmem
          exact ⟨j, by omega, hcj⟩
        · rw [List.mem_singleton.mp hmem]
          exact ⟨i, by omega, hc⟩
      · simp only [List.length_append, List.length_singleton, hf]
        push_cast
        rfl

section Init

variable {connect : Nat → Option Conn}
  (hdistinct : ∀ i j c, connect i = some c → connect j = some c → i = j)

include hdistinct in
theorem init_inv (maxConn : Nat) :
    (init connect maxConn).connList.Nodup ∧
      Inv (init connect maxConn).connList { pool := init connect maxConn } := by
  obtain ⟨hn, hf, hcur⟩ := connectLoop_spec connect hdistinct maxConn 0 {} .nil
    (by simp) rfl
  refine ⟨hn, ?_, hf, ?_, hf, ?_, by simp⟩
  · simp [State.held]
  · simp only [init, hcur]
    omega
  · simp only [init, hf, Threads.count, List.countP_nil]
    omega

end Init

/-- What holds between `init` and `DestroyPool`, when `init` made the connections `initial`. -/
structure Safe [DecidableEq Conn] (initial : List Conn) (s : State Conn) : Prop where
  distinct : initial.Nodup
  /-- None is lost, none is there twice. -/
  conserved : (s.pool.connList : Multiset Conn) + s.held = initial
  exclusive : ∀ (t u : Nat) p q c, s.threads[t]? = some p → s.threads[u]? = some q →
    c ∈ p.held → c ∈ q.held → t = u
  free_eq : s.pool.freeConn = s.pool.connList.length
  sum_eq : s.pool.freeConn + s.pool.curConn = s.pool.maxConn
  max_eq : s.pool.maxConn = initial.length
  /-- A thread whose wait succeeded finds a connection. -/
  finds : ∀ (t : Nat) p, s.threads[t]? = some p → p.pc = .waited → s.pool.connList ≠ []
  found : ∀ (t : Nat) p, s.threads[t]? = some p → p.pc ≠ .foundEmpty
  /-- A wait that runs out of time changes nothing. -/
  timeout : ∀ t s', s.step (.timeout t) = some s' →
    s'.pool = s.pool ∧ ∀ u : Nat, (s'.threads[u]?).map Thread.held = (s.threads[u]?).map Thread.held

theorem held_eq_flatten : s.held = ((s.threads.map Thread.held).flatten : Multiset Conn) := by
  unfold State.held
  induction s.threads with
  | nil => rfl
  | cons p ts ih => simp only [List.map_cons, List.sum_cons, ih, List.flatten_cons,
      Multiset.coe_add]

theorem Inv.exclusive (h : Inv initial s) (hn : initial.Nodup) {t u : Nat} {p q : Thread Conn}
    {c : Conn} (ht : s.threads[t]? = some p) (hu : s.threads[u]? = some q) (hp : c ∈ p.held)
    (hq : c ∈ q.held) : t = u := by
  have hnodup : (s.held).Nodup := by
    have hall : ((s.pool.connList : Multiset Conn) + s.held).Nodup := by
      rw [h.conserved]
      exact Multiset.coe_nodup.mpr hn
    exact (Multiset.nodup_add.mp hall).2.1
  rw [held_eq_flatten, Multiset.coe_nodup, List.nodup_flatten] at hnodup
  obtain ⟨hlt, rfl⟩ := List.getElem?_eq_some_iff.mp ht
  obtain ⟨hlu, rfl⟩ := List.getElem?_eq_some_iff.mp hu
  have hdisj := List.pairwise_iff_getElem.mp hnodup.2
  rcases Nat.lt_trichotomy t u with hlt' | heq | hgt
  · have := hdisj t u (by simpa using hlt) (by simpa using hlu) hlt'
    exact absurd hq (this (by simpa using hp) <| by simpa using ·)
  · exact heq
  · have := hdisj u t (by simpa using hlu) (by simpa using hlt) hgt
    exact absurd hp (this (by simpa using hq) <| by simpa using ·)

theorem timeout_changes_nothing [DecidableEq Conn] {t : Nat} (hs : s.step (.timeout t) = some s') :
    s'.pool = s.pool ∧ ∀ u : Nat, (s'.threads[u]?).map Thread.held = (s.threads[u]?).map Thread.held := by
  obtain ⟨p, ht, hs⟩ := Option.bind_eq_some_iff.mp hs
  split at hs
  · cases hs
    refine ⟨rfl, fun u => ?_⟩
    by_cases hu : u = t
    · subst hu
      simp only [State.go, Threads.getElem?_set_self ht, ht, Option.map_some]
    · simp only [State.go, Threads.getElem?_set_ne hu]
  · cases hs

/-- **No loss, no double hand-out.** After `init`, whatever the threads do and however their steps
interleave. `mysql_init` never returns a pointer twice. -/
theorem pool_safe [DecidableEq Conn] (connect : Nat → Option Conn)
    (hdistinct : ∀ i j c, connect i = some c → connect j = some c → i = j) (maxConn : Nat)
    (ls : List (Label Conn)) (s : State Conn)
    (hr : Machine.run State.step { pool := init connect maxConn } ls = some s) :
    Safe (init connect maxConn).connList s := by
  obtain ⟨hn, h0⟩ := init_inv hdistinct maxConn
  have h : Inv (init connect maxConn).connList s :=
    Machine.run_preserves State.step (fun _ _ _ h hs => h.step hs) h0 hr
  exact {
    distinct := hn
    conserved := h.conserved
    exclusive := fun t u p q c ht hu hp hq => h.exclusive hn ht hu hp hq
    free_eq := h.free_eq
    sum_eq := h.sum_eq
    max_eq := h.max_eq
    finds := fun t p ht hp => h.connList_ne_nil ht hp
    found := fun t p ht => h.not_empty p (List.mem_of_getElem? ht)
    timeout := fun t s' hs => timeout_changes_nothing hs }

/-- Two connections of three asked for; three threads, one runs out of time. -/
def contended : List (Label Nat) :=
  [.spawn, .spawn, .spawn, .getConnection 0, .getConnection 1, .getConnection 2, .step 0, .step 1,
    .step 2, .step 0, .step 1, .step 1, .timeout 2, .step 0, .releaseConnection 1 10,
    .getConnection 2, .step 2, .step 1, .step 2]

theorem pool_safe_contended : ∃ s,
    Machine.run State.step { pool := init (fun i => if i < 2 then some (i + 10) else none) 3 }
      contended = some s ∧
    s.pool.connList = [10] ∧ s.pool.reserve = 0 ∧ Safe [10, 11] s := by
  refine ⟨_, rfl, rfl, rfl, pool_safe (fun i => if i < 2 then some (i + 10) else none) ?_ 3
    contended _ rfl⟩
  intro i j c hi hj
  simp only [Option.ite_none_right_eq_some, Option.some.injEq] at hi hj
  omega

end Mysql
end UrlShortener
