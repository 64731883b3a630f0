import Mathlib.Algebra.Order.Ring.Nat
import UrlShortener.Base.Machine
import UrlShortener.Base.Threads

/-!
# UrlShortener.Server.ThreadPool

`threadpool`: calls of `append_p` put tasks into `m_workqueue`, workers take them out, `stop`
throws away what is left and waits for the workers. `m_workqueue` and `m_stop` are only used with
`m_queuelocker` held, so a critical section is one step.

The semaphore `m_queuestat` is posted after the push and outside the lock. Its value is no count
of the queue: an interrupted wait takes a task without taking from the semaphore, and `stop` drops
tasks whose posts remain. What holds is an inequality (`Inv.awake`): no task waits unless a post, a
worker past its wait or an `append_p` about to post answers for it.
-/

namespace UrlShortener
namespace ThreadPool

/-- `request` is null or the slot of a connection. -/
structure Task where
  request : Option Nat
  generation : Nat
deriving DecidableEq

def INT_MAX : Nat := 2147483647

/-- `sem_post` fails beyond this value; `post` returns false and nobody looks. -/
def SEM_VALUE_MAX : Nat := INT_MAX

/-- The arguments the constructor accepts. -/
structure Config where
  threadNumber : Nat
  maxRequests : Nat
  threadNumber_pos : 0 < threadNumber
  maxRequests_pos : 0 < maxRequests
  threadNumber_le : threadNumber ≤ INT_MAX
  maxRequests_le : maxRequests ≤ INT_MAX

/-- Where a worker stands in `run`. -/
inductive Worker where
  /-- In `m_queuestat.wait()`. -/
  | waiting
  /-- Behind the wait; next is the critical section. -/
  | woken
  /-- Has taken a task. -/
  | busy (t : Task)
  | returned
deriving DecidableEq

/-- Where a call of `append_p` stands. -/
inductive Append where
  | entered (t : Task)
  /-- Between the critical section and the post. -/
  | pushed
  | returned (ok : Bool)
deriving DecidableEq

inductive Stop where
  | notCalled
  /-- So many posts are still to come. -/
  | posting (left : Nat)
  /-- The next worker to be joined. -/
  | joining (i : Nat)
  /-- `m_joined`. -/
  | joined
deriving DecidableEq

structure State where
  workqueue : List Task := []
  queuestat : Nat := 0
  /-- `m_stop`. -/
  stopped : Bool := false
  workers : List Worker
  appends : List Append := []
  stop : Stop := .notCalled
  /-- The tasks that were pushed, in this order. -/
  accepted : List Task := []
  /-- Who took which task, in this order. -/
  taken : List (Nat × Task) := []
  /-- What `stop` cleared. -/
  discarded : List Task := []

inductive Label where
  /-- The event loop calls `append_p`. -/
  | call (t : Task)
  /-- Call `i` goes on. -/
  | append (i : Nat)
  /-- Worker `i` goes on. -/
  | worker (i : Nat)
  /-- The wait of worker `i` is interrupted. -/
  | interrupt (i : Nat)
  /-- `stop` is called, or goes on. -/
  | stop
deriving DecidableEq

/-- After the constructor. -/
def init (cfg : Config) : State := { workers := List.replicate cfg.threadNumber .waiting }

namespace State

def post (s : State) : State := { s with queuestat := min (s.queuestat + 1) SEM_VALUE_MAX }

def appendAt (s : State) (i : Nat) (a : Append) : State := { s with appends := s.appends.set i a }

def workerAt (s : State) (i : Nat) (w : Worker) : State := { s with workers := s.workers.set i w }

/-- The critical section of `append_p`. -/
def push (cfg : Config) (s : State) (i : Nat) (t : Task) : State :=
  if s.stopped || decide (cfg.maxRequests ≤ s.workqueue.length) then s.appendAt i (.returned false)
  else
    { s with workqueue := s.workqueue ++ [t], accepted := s.accepted ++ [t] }.appendAt i .pushed

/-- The critical section of `run`. -/
def take (s : State) (i : Nat) : State :=
  match s.workqueue with
  | [] => if s.stopped then s.workerAt i .returned else s.workerAt i .waiting
  | t :: rest => { s with workqueue := rest, taken := s.taken ++ [(i, t)] }.workerAt i (.busy t)

/-- The critical section of `stop`. -/
def clear (cfg : Config) (s : State) : State :=
  { s with
    stopped := true
    workqueue := []
    discarded := s.discarded ++ s.workqueue
    stop := .posting cfg.threadNumber }

def appendStep (cfg : Config) (s : State) (i : Nat) : Append → Option State
  | .entered t => some (s.push cfg i t)
  | .pushed => some (s.post.appendAt i (.returned true))
  | .returned _ => none

/-- A task that is null or stale is passed over, another one is processed. -/
def workerStep (s : State) (i : Nat) : Worker → Option State
  | .waiting =>
    if 0 < s.queuestat then
      some ({ s with queuestat := s.queuestat - 1 }.workerAt i .woken)
    else none
  | .woken => some (s.take i)
  | .busy _ => some (s.workerAt i .waiting)
  | .returned => none

def stopStep (cfg : Config) (s : State) : Option State :=
  match s.stop with
  | .notCalled => some (s.clear cfg)
  | .posting 0 => some { s with stop := .joining 0 }
  | .posting (left + 1) => some { s.post with stop := .posting left }
  | .joining i =>
    if cfg.threadNumber ≤ i then some { s with stop := .joined }
    else if s.workers[i]? = some .returned then some { s with stop := .joining (i + 1) }
    else none
  | .joined => none

def step (cfg : Config) (s : State) : Label → Option State
  | .call t => some { s with appends := s.appends ++ [.entered t] }
  | .append i => s.appends[i]?.bind (s.appendStep cfg i)
  | .worker i => s.workers[i]?.bind (s.workerStep i)
  | .interrupt i => if s.workers[i]? = some .waiting then some (s.workerAt i .woken) else none
  | .stop => s.stopStep cfg

end State

/-! ## What a step can do -/

inductive Step (cfg : Config) (s : State) : Label → State → Prop
  | call (t : Task) : Step cfg s (.call t) { s with appends := s.appends ++ [.entered t] }
  | refuse {i : Nat} {t : Task} (hi : s.appends[i]? = some (.entered t))
      (hfull : s.stopped = true ∨ cfg.maxRequests ≤ s.workqueue.length) :
      Step cfg s (.append i) (s.appendAt i (.returned false))
  | push {i : Nat} {t : Task} (hi : s.appends[i]? = some (.entered t)) (hrun : s.stopped = false)
      (hroom : s.workqueue.length < cfg.maxRequests) :
      Step cfg s (.append i)
        ({ s with workqueue := s.workqueue ++ [t], accepted := s.accepted ++ [t] }.appendAt i .pushed)
  | post {i : Nat} (hi : s.appends[i]? = some .pushed) :
      Step cfg s (.append i) (s.post.appendAt i (.returned true))
  | wait {i : Nat} (hi : s.workers[i]? = some .waiting) (hpos : 0 < s.queuestat) :
      Step cfg s (.worker i) ({ s with queuestat := s.queuestat - 1 }.workerAt i .woken)
  | interrupt {i : Nat} (hi : s.workers[i]? = some .waiting) :
      Step cfg s (.interrupt i) (s.workerAt i .woken)
  | leave {i : Nat} (hi : s.workers[i]? = some .woken) (hempty : s.workqueue = [])
      (hstop : s.stopped = true) : Step cfg s (.worker i) (s.workerAt i .returned)
  | again {i : Nat} (hi : s.workers[i]? = some .woken) (hempty : s.workqueue = [])
      (hrun : s.stopped = false) : Step cfg s (.worker i) (s.workerAt i .waiting)
  | take {i : Nat} {t : Task} {rest : List Task} (hi : s.workers[i]? = some .woken)
      (hqueue : s.workqueue = t :: rest) :
      Step cfg s (.worker i)
        ({ s with workqueue := rest, taken := s.taken ++ [(i, t)] }.workerAt i (.busy t))
  | done {i : Nat} {t : Task} (hi : s.workers[i]? = some (.busy t)) :
      Step cfg s (.worker i) (s.workerAt i .waiting)
  | clear (hstop : s.stop = .notCalled) : Step cfg s .stop (s.clear cfg)
  | wake {left : Nat} (hstop : s.stop = .posting (left + 1)) :
      Step cfg s .stop { s.post with stop := .posting left }
  | posted (hstop : s.stop = .posting 0) : Step cfg s .stop { s with stop := .joining 0 }
  | join {i : Nat} (hstop : s.stop = .joining i) (hi : i < cfg.threadNumber)
      (hreturned : s.workers[i]? = some .returned) : Step cfg s .stop { s with stop := .joining (i + 1) }
  | joined {i : Nat} (hstop : s.stop = .joining i) (hi : cfg.threadNumber ≤ i) :
      Step cfg s .stop { s with stop := .joined }

variable {cfg : Config} {s s' : State} {l : Label}

theorem step_cases (h : s.step cfg l = some s') : Step cfg s l s' := by
  cases l with
  | call t =>
    cases h
    exact .call t
  | append i =>
    obtain ⟨a, hi, h⟩ := Option.bind_eq_some_iff.mp h
    cases a with
    | entered t =>
      cases h
      unfold State.push
      split
      · rename_i hfull
        exact .refuse hi (by simpa using hfull)
      · rename_i hroom
        simp only [Bool.or_eq_true, decide_eq_true_eq, not_or, Bool.not_eq_true, Nat.not_le] at hroom
        exact .push hi hroom.1 hroom.2
    | pushed =>
      cases h
      exact .post hi
    | returned ok => cases h
  | worker i =>
    obtain ⟨w, hi, h⟩ := Option.bind_eq_some_iff.mp h
    cases w with
    | waiting =>
      simp only [State.workerStep] at h
      split at h
      · rename_i hpos
        cases h
        exact .wait hi hpos
      · cases h
    | woken =>
      cases h
      unfold State.take
      split
      · rename_i hempty
        split
        · rename_i hstop
          exact .leave hi hempty hstop
        · rename_i hrun
          exact .again hi hempty (by simpa using hrun)
      · rename_i t rest hqueue
        exact .take hi hqueue
    | busy t =>
      cases h
      exact .done hi
    | returned => cases h
  | interrupt i =>
    simp only [State.step] at h
    split at h
    · rename_i hi
      cases h
      exact .interrupt hi
    · cases h
  | stop =>
    simp only [State.step, State.stopStep] at h
    split at h
    · rename_i hstop
      cases h
      exact .clear hstop
    · rename_i hstop
      cases h
      exact .posted hstop
    · rename_i left hstop
      cases h
      exact .wake hstop
    · rename_i i hstop
      split at h
      · rename_i hall
        cases h
        exact .joined hstop hall
      · rename_i hnext
        split at h
        · rename_i hreturned
          cases h
          exact .join hstop (Nat.not_le.mp hnext) hreturned
        · cases h
    · cases h

/-! ## The invariant -/

def Worker.past : Worker → Option Unit
  | .woken => some ()
  | _ => none

def Worker.live : Worker → Option Unit
  | .returned => none
  | _ => some ()

def Append.owesPost : Append → Option Unit
  | .pushed => some ()
  | _ => none

/-- The call has pushed its task, or has returned true. -/
def Append.admitted : Append → Option Unit
  | .pushed => some ()
  | .returned true => some ()
  | _ => none

def Stop.postsLeft : Stop → Nat
  | .posting left => left
  | _ => 0

namespace State

/-- The workers past their wait. -/
def past (s : State) : Nat := Threads.count Worker.past s.workers ()

def live (s : State) : Nat := Threads.count Worker.live s.workers ()

/-- The calls of `append_p` that have yet to post. -/
def owed (s : State) : Nat := Threads.count Append.owesPost s.appends ()

def admitted (s : State) : Nat := Threads.count Append.admitted s.appends ()

end State

structure Inv (cfg : Config) (s : State) : Prop where
  workers_length : s.workers.length = cfg.threadNumber
  bounded : s.workqueue.length ≤ cfg.maxRequests
  ledger : s.accepted = s.taken.map Prod.snd ++ s.discarded ++ s.workqueue
  admitted_eq : s.admitted = s.accepted.length
  discarded_nil : s.stopped = false → s.discarded = []
  workqueue_nil : s.stopped = true → s.workqueue = []
  stopped_iff : s.stopped = false ↔ s.stop = .notCalled
  /-- No lost wakeup. -/
  awake : s.workqueue.length ≤ s.queuestat + s.past + s.owed
  /-- Once `stop` has been called there is a wakeup for each worker. -/
  leaving : s.stopped = true → s.live ≤ s.queuestat + s.past + s.stop.postsLeft

theorem live_le (s : State) : s.live ≤ s.workers.length := List.countP_le_length

theorem inv_init (cfg : Config) : Inv cfg (init cfg) where
  workers_length := List.length_replicate
  bounded := Nat.zero_le _
  ledger := rfl
  admitted_eq := rfl
  discarded_nil _ := rfl
  workqueue_nil h := by cases h
  stopped_iff := ⟨fun _ => rfl, fun _ => rfl⟩
  awake := Nat.zero_le _
  leaving h := by cases h

section Worker

variable {i : Nat} {w v : Worker}

theorem past_workerAt (hi : s.workers[i]? = some w) :
    (s.workerAt i v).past + (if w.past = some () then 1 else 0) =
      s.past + if v.past = some () then 1 else 0 := Threads.count_set hi

theorem live_workerAt (hi : s.workers[i]? = some w) :
    (s.workerAt i v).live + (if w.live = some () then 1 else 0) =
      s.live + if v.live = some () then 1 else 0 := Threads.count_set hi

/-- A step of a worker that leaves the queue as it is. -/
theorem Inv.worker {n : Nat} (h : Inv cfg s)
    (hpast : s.workqueue.length ≤ n + ({ s with queuestat := n }.workerAt i v).past + s.owed)
    (hlive : s.stopped = true → ({ s with queuestat := n }.workerAt i v).live ≤
      n + ({ s with queuestat := n }.workerAt i v).past + s.stop.postsLeft) :
    Inv cfg ({ s with queuestat := n }.workerAt i v) where
  workers_length := (List.length_set ..).trans h.workers_length
  bounded := h.bounded
  ledger := h.ledger
  admitted_eq := h.admitted_eq
  discarded_nil := h.discarded_nil
  workqueue_nil := h.workqueue_nil
  stopped_iff := h.stopped_iff
  awake := hpast
  leaving := hlive

theorem Inv.wait (h : Inv cfg s) (hi : s.workers[i]? = some .waiting) (hpos : 0 < s.queuestat) :
    Inv cfg ({ s with queuestat := s.queuestat - 1 }.workerAt i .woken) := by
  have hpast := past_workerAt (s := { s with queuestat := s.queuestat - 1 }) (v := .woken) hi
  have hlive := live_workerAt (s := { s with queuestat := s.queuestat - 1 }) (v := .woken) hi
  have hawake := h.awake
  simp only [Worker.past, Worker.live, reduceCtorEq, if_true, if_false] at hpast hlive
  simp only [State.past, State.live] at hpast hlive hawake
  refine h.worker ?_ fun hstop => ?_
  · simp only [State.past]
    omega
  · have hleave := h.leaving hstop
    simp only [State.past, State.live] at hleave ⊢
    omega

theorem Inv.interrupt (h : Inv cfg s) (hi : s.workers[i]? = some .waiting) :
    Inv cfg (s.workerAt i .woken) := by
  have hpast := past_workerAt (v := .woken) hi
  have hlive := live_workerAt (v := .woken) hi
  have hawake := h.awake
  simp only [Worker.past, Worker.live, reduceCtorEq, if_true, if_false] at hpast hlive
  refine h.worker (n := s.queuestat) ?_ fun hstop => ?_
  · show _ ≤ s.queuestat + (s.workerAt i .woken).past + s.owed
    omega
  · have hleave := h.leaving hstop
    show (s.workerAt i .woken).live ≤ s.queuestat + (s.workerAt i .woken).past + _
    omega

/-- A worker past its wait that finds nothing to do. -/
theorem Inv.idle (h : Inv cfg s) (hi : s.workers[i]? = some .woken) (hempty : s.workqueue = [])
    (hw' : v.past = none) (hstop : s.stopped = true → v = .returned) :
    Inv cfg (s.workerAt i v) := by
  have hpast := past_workerAt (v := v) hi
  have hlive := live_workerAt (v := v) hi
  refine h.worker (n := s.queuestat) ?_ fun hs => ?_
  · rw [hempty]
    exact Nat.zero_le _
  · have hleave := h.leaving hs
    obtain rfl := hstop hs
    simp only [Worker.past, Worker.live, reduceCtorEq, if_true, if_false] at hpast hlive
    show (s.workerAt i .returned).live ≤ s.queuestat + (s.workerAt i .returned).past + _
    omega

theorem Inv.take {t : Task} {rest : List Task} (h : Inv cfg s) (hi : s.workers[i]? = some .woken)
    (hqueue : s.workqueue = t :: rest) :
    Inv cfg ({ s with workqueue := rest, taken := s.taken ++ [(i, t)] }.workerAt i (.busy t)) := by
  have hrun : s.stopped = false := by
    by_contra hstop
    rw [Bool.not_eq_false] at hstop
    exact absurd (hqueue.symm.trans (h.workqueue_nil hstop)) (by simp)
  have hpast := past_workerAt
    (s := { s with workqueue := rest, taken := s.taken ++ [(i, t)] }) (v := .busy t) hi
  have hawake := h.awake
  have hbounded := h.bounded
  rw [hqueue, List.length_cons] at hawake hbounded
  simp only [Worker.past, reduceCtorEq, if_true, if_false] at hpast
  refine ⟨(List.length_set ..).trans h.workers_length, Nat.le_of_succ_le hbounded, ?_,
    h.admitted_eq, h.discarded_nil, fun hs => ?_, h.stopped_iff, ?_, fun hs => ?_⟩
  · have hledger := h.ledger
    rw [h.discarded_nil hrun, hqueue] at hledger
    simp only [State.workerAt]
    rw [hledger, h.discarded_nil hrun]
    simp
  · exact absurd (hs.symm.trans hrun) (by decide)
  · show rest.length ≤ s.queuestat + State.past _ + s.owed
    simp only [State.past] at hpast hawake ⊢
    omega
  · exact absurd (hs.symm.trans hrun) (by decide)

theorem Inv.done {t : Task} (h : Inv cfg s) (hi : s.workers[i]? = some (.busy t)) :
    Inv cfg (s.workerAt i .waiting) := by
  have hpast := past_workerAt (v := .waiting) hi
  have hlive := live_workerAt (v := .waiting) hi
  have hawake := h.awake
  simp only [Worker.past, Worker.live, reduceCtorEq, if_true, if_false] at hpast hlive
  refine h.worker (n := s.queuestat) ?_ fun hstop => ?_
  · show _ ≤ s.queuestat + (s.workerAt i .waiting).past + s.owed
    omega
  · have hleave := h.leaving hstop
    show (s.workerAt i .waiting).live ≤ s.queuestat + (s.workerAt i .waiting).past + _
    omega

end Worker

theorem le_post {n k : Nat} (h : n ≤ s.queuestat + 1 + k) (hn : n ≤ SEM_VALUE_MAX) :
    n ≤ s.post.queuestat + k := by
  have hpost : s.post.queuestat = min (s.queuestat + 1) SEM_VALUE_MAX := rfl
  rw [hpost]
  omega

theorem Inv.live_le_max (h : Inv cfg s) : s.live ≤ SEM_VALUE_MAX := by
  refine (live_le s).trans ?_
  rw [h.workers_length]
  exact cfg.threadNumber_le

section Append

variable {i : Nat} {a b : Append}

theorem owed_appendAt (hi : s.appends[i]? = some a) :
    (s.appendAt i b).owed + (if a.owesPost = some () then 1 else 0) =
      s.owed + if b.owesPost = some () then 1 else 0 := Threads.count_set hi

theorem admitted_appendAt (hi : s.appends[i]? = some a) :
    (s.appendAt i b).admitted + (if a.admitted = some () then 1 else 0) =
      s.admitted + if b.admitted = some () then 1 else 0 := Threads.count_set hi

theorem Inv.refuse {t : Task} (h : Inv cfg s) (hi : s.appends[i]? = some (.entered t)) :
    Inv cfg (s.appendAt i (.returned false)) := by
  have howed := owed_appendAt (b := .returned false) hi
  have hadmitted := admitted_appendAt (b := .returned false) hi
  simp only [Append.owesPost, Append.admitted, reduceCtorEq, if_false] at howed hadmitted
  refine ⟨h.workers_length, h.bounded, h.ledger, ?_, h.discarded_nil, h.workqueue_nil,
    h.stopped_iff, ?_, h.leaving⟩
  · exact Nat.add_right_cancel hadmitted ▸ h.admitted_eq
  · show _ ≤ s.queuestat + s.past + (s.appendAt i (.returned false)).owed
    exact Nat.add_right_cancel howed ▸ h.awake

theorem Inv.push {t : Task} (h : Inv cfg s) (hi : s.appends[i]? = some (.entered t))
    (hrun : s.stopped = false) (hroom : s.workqueue.length < cfg.maxRequests) :
    Inv cfg
      ({ s with workqueue := s.workqueue ++ [t], accepted := s.accepted ++ [t] }.appendAt i .pushed)
    := by
  have howed := owed_appendAt
    (s := { s with workqueue := s.workqueue ++ [t], accepted := s.accepted ++ [t] })
    (b := .pushed) hi
  have hadmitted := admitted_appendAt
    (s := { s with workqueue := s.workqueue ++ [t], accepted := s.accepted ++ [t] })
    (b := .pushed) hi
  have hawake := h.awake
  have hledger := h.ledger
  have heq := h.admitted_eq
  simp only [Append.owesPost, Append.admitted, reduceCtorEq, if_false, if_true] at howed hadmitted
  simp only [State.owed, State.admitted] at howed hadmitted hawake heq
  refine ⟨h.workers_length, ?_, ?_, ?_, h.discarded_nil, fun hs => ?_, h.stopped_iff, ?_,
    fun hs => ?_⟩
  · simp only [State.appendAt, List.length_append, List.length_singleton]
    exact hroom
  · simp only [State.appendAt]
    rw [hledger]
    simp
  · simp only [State.admitted, State.appendAt, List.length_append, List.length_singleton] at *
    omega
  · exact absurd (hs.symm.trans hrun) (by decide)
  · show (s.workqueue ++ [t]).length ≤ s.queuestat + s.past + State.owed _
    simp only [State.owed, List.length_append, List.length_singleton] at *
    omega
  · exact absurd (hs.symm.trans hrun) (by decide)

theorem Inv.post (h : Inv cfg s) (hi : s.appends[i]? = some .pushed) :
    Inv cfg (s.post.appendAt i (.returned true)) := by
  have howed := owed_appendAt (s := s.post) (b := .returned true) hi
  have hadmitted := admitted_appendAt (s := s.post) (b := .returned true) hi
  have hawake := h.awake
  simp only [Append.owesPost, Append.admitted, reduceCtorEq, if_false, if_true] at howed hadmitted
  refine ⟨h.workers_length, h.bounded, h.ledger, ?_, h.discarded_nil, h.workqueue_nil,
    h.stopped_iff, ?_, fun hs => ?_⟩
  · exact Nat.add_right_cancel hadmitted ▸ h.admitted_eq
  · show s.workqueue.length ≤ s.post.queuestat + s.past + (s.post.appendAt i (.returned true)).owed
    have howed' : s.post.owed = s.owed := rfl
    rw [Nat.add_assoc]
    exact le_post (by omega) (h.bounded.trans cfg.maxRequests_le)
  · show s.live ≤ s.post.queuestat + s.past + s.stop.postsLeft
    have hleave := h.leaving hs
    rw [Nat.add_assoc]
    exact le_post (by omega) h.live_le_max

end Append

theorem Inv.clear (h : Inv cfg s) (hstop : s.stop = .notCalled) : Inv cfg (s.clear cfg) := by
  have hrun := h.stopped_iff.mpr hstop
  refine ⟨h.workers_length, Nat.zero_le _, ?_, h.admitted_eq, ?_, fun _ => rfl, ?_,
    Nat.zero_le _, fun _ => ?_⟩
  · have hledger := h.ledger
    simp only [State.clear]
    rw [hledger]
    simp
  · intro hs
    cases hs
  · simp [State.clear]
  · have hlive := live_le s
    rw [h.workers_length] at hlive
    show s.live ≤ s.queuestat + s.past + cfg.threadNumber
    omega

theorem Inv.wake {left : Nat} (h : Inv cfg s) (hstop : s.stop = .posting (left + 1)) :
    Inv cfg { s.post with stop := .posting left } := by
  have hs : s.stopped = true := by
    by_contra hrun
    rw [Bool.not_eq_true] at hrun
    exact absurd (hstop.symm.trans (h.stopped_iff.mp hrun)) (by simp)
  have hleave := h.leaving hs
  rw [hstop] at hleave
  simp only [Stop.postsLeft] at hleave
  refine ⟨h.workers_length, h.bounded, h.ledger, h.admitted_eq, h.discarded_nil, h.workqueue_nil,
    ?_, ?_, fun _ => ?_⟩
  · exact ⟨fun hrun => absurd (hs.symm.trans hrun) (by decide), fun hto => by cases hto⟩
  · show s.workqueue.length ≤ _
    rw [h.workqueue_nil hs]
    exact Nat.zero_le _
  · show s.live ≤ s.post.queuestat + s.past + left
    rw [Nat.add_assoc]
    exact le_post (by omega) h.live_le_max

/-- `stop` goes on behind its posts. -/
theorem Inv.goOn {stop : Stop} (h : Inv cfg s) (hfrom : s.stop ≠ .notCalled)
    (hleft : s.stop.postsLeft = 0) (hto : stop ≠ .notCalled) : Inv cfg { s with stop } := by
  refine ⟨h.workers_length, h.bounded, h.ledger, h.admitted_eq, h.discarded_nil, h.workqueue_nil,
    ?_, h.awake, fun hs => ?_⟩
  · exact ⟨fun hrun => absurd (h.stopped_iff.mp hrun) hfrom, fun hcalled => absurd hcalled hto⟩
  · have hleave := h.leaving hs
    rw [hleft] at hleave
    exact hleave.trans (Nat.le_add_right _ _)

theorem Inv.step (h : Inv cfg s) (hs : s.step cfg l = some s') : Inv cfg s' := by
  cases step_cases hs with
  | call t =>
    refine ⟨h.workers_length, h.bounded, h.ledger, ?_, h.discarded_nil, h.workqueue_nil,
      h.stopped_iff, ?_, h.leaving⟩
    · rw [State.admitted, Threads.count_append_of_none rfl]
      exact h.admitted_eq
    · rw [State.owed, Threads.count_append_of_none rfl]
      exact h.awake
  | refuse hi hfull => exact h.refuse hi
  | push hi hrun hroom => exact h.push hi hrun hroom
  | post hi => exact h.post hi
  | wait hi hpos => exact h.wait hi hpos
  | interrupt hi => exact h.interrupt hi
  | leave hi hempty hstop => exact h.idle hi hempty rfl fun _ => rfl
  | again hi hempty hrun =>
    exact h.idle hi hempty rfl fun hstop => absurd (hstop.symm.trans hrun) (by decide)
  | take hi hqueue => exact h.take hi hqueue
  | done hi => exact h.done hi
  | clear hstop => exact h.clear hstop
  | wake hstop => exact h.wake hstop
  | posted hstop => exact h.goOn (by simp [hstop]) (by simp [hstop, Stop.postsLeft]) (by simp)
  | join hstop hi hreturned =>
    exact h.goOn (by simp [hstop]) (by simp [hstop, Stop.postsLeft]) (by simp)
  | joined hstop hi => exact h.goOn (by simp [hstop]) (by simp [hstop, Stop.postsLeft]) (by simp)

theorem inv_run {ls : List Label} (hr : Machine.run (State.step cfg) (init cfg) ls = some s) :
    Inv cfg s :=
  Machine.run_preserves (State.step cfg) (fun _ _ _ h hs => h.step hs) (inv_init cfg) hr

/-! ## After `stop` -/

/-- A step of a party that is there, not interrupted from outside. -/
def Label.inside : Label → Bool
  | .append _ => true
  | .worker _ => true
  | .stop => true
  | _ => false

/-- How far a worker is from its return when the queue is empty for good. -/
def Worker.weight : Worker → Nat
  | .returned => 0
  | .woken => 1
  | .waiting => 2
  | .busy _ => 3

def Append.weight : Append → Nat
  | .returned _ => 0
  | _ => 1

def Stop.weight (cfg : Config) : Stop → Nat
  | .notCalled => 0
  | .posting left => left + cfg.threadNumber + 2
  | .joining i => cfg.threadNumber - i + 1
  | .joined => 0

def State.measure (cfg : Config) (s : State) : Nat :=
  (s.workers.map Worker.weight).sum + (s.appends.map Append.weight).sum + s.stop.weight cfg

theorem measure_workerAt {i : Nat} {w v : Worker} (hi : s.workers[i]? = some w)
    (hlt : v.weight < w.weight) : ((s.workers.set i v).map Worker.weight).sum <
      (s.workers.map Worker.weight).sum := by
  have := Threads.sum_map_set Worker.weight (q := v) hi
  omega

theorem measure_appendAt {i : Nat} {a b : Append} (hi : s.appends[i]? = some a)
    (hlt : b.weight < a.weight) : ((s.appends.set i b).map Append.weight).sum <
      (s.appends.map Append.weight).sum := by
  have := Threads.sum_map_set Append.weight (q := b) hi
  omega

/-- After `stop` each step brings the pool nearer to its end. -/
theorem Inv.measure_lt (h : Inv cfg s) (hstop : s.stopped = true) (hl : l.inside = true)
    (hs : s.step cfg l = some s') : s'.stopped = true ∧ s'.measure cfg < s.measure cfg := by
  have hqueue := h.workqueue_nil hstop
  have hcalled : s.stop ≠ .notCalled := by
    intro hn
    rw [h.stopped_iff.mpr hn] at hstop
    cases hstop
  have sides : ∀ {a b c a' b' c' : Nat}, a' ≤ a → b' ≤ b → c' ≤ c →
      (a' < a ∨ b' < b ∨ c' < c) → a' + b' + c' < a + b + c := by omega
  unfold State.measure
  cases step_cases hs with
  | call t => cases hl
  | interrupt hi => cases hl
  | refuse hi hfull =>
    have := measure_appendAt (b := .returned false) hi (by simp [Append.weight])
    exact ⟨hstop, sides (Nat.le_refl _) this.le (Nat.le_refl _) (Or.inr (Or.inl this))⟩
  | push hi hrun hroom => exact absurd (hstop.symm.trans hrun) (by decide)
  | post hi =>
    have := measure_appendAt (b := .returned true) hi (by simp [Append.weight])
    exact ⟨hstop, sides (Nat.le_refl _) this.le (Nat.le_refl _) (Or.inr (Or.inl this))⟩
  | wait hi hpos =>
    have := measure_workerAt (v := .woken) hi (by simp [Worker.weight])
    exact ⟨hstop, sides this.le (Nat.le_refl _) (Nat.le_refl _) (Or.inl this)⟩
  | leave hi hempty hstop' =>
    have := measure_workerAt (v := .returned) hi (by simp [Worker.weight])
    exact ⟨hstop, sides this.le (Nat.le_refl _) (Nat.le_refl _) (Or.inl this)⟩
  | again hi hempty hrun => exact absurd (hstop.symm.trans hrun) (by decide)
  | take hi hq => exact absurd (hq.symm.trans hqueue) (by simp)
  | done hi =>
    have := measure_workerAt (v := .waiting) hi (by simp [Worker.weight])
    exact ⟨hstop, sides this.le (Nat.le_refl _) (Nat.le_refl _) (Or.inl this)⟩
  | clear hnot => exact absurd hnot hcalled
  | @wake left hleft =>
    have hlt : (Stop.posting left).weight cfg < s.stop.weight cfg := by
      rw [hleft]
      exact Nat.add_lt_add_right (Nat.add_lt_add_right (Nat.lt_succ_self _) _) _
    exact ⟨hstop, sides (Nat.le_refl _) (Nat.le_refl _) hlt.le (Or.inr (Or.inr hlt))⟩
  | posted hleft =>
    have hlt : (Stop.joining 0).weight cfg < s.stop.weight cfg := by
      simp [hleft, Stop.weight]
    exact ⟨hstop, sides (Nat.le_refl _) (Nat.le_refl _) hlt.le (Or.inr (Or.inr hlt))⟩
  | @join i hjoin hi hreturned =>
    have hlt : (Stop.joining (i + 1)).weight cfg < s.stop.weight cfg := by
      simp only [hjoin, Stop.weight]
      omega
    exact ⟨hstop, sides (Nat.le_refl _) (Nat.le_refl _) hlt.le (Or.inr (Or.inr hlt))⟩
  | joined hjoin hi =>
    have hlt : Stop.joined.weight cfg < s.stop.weight cfg := by
      simp [hjoin, Stop.weight]
    exact ⟨hstop, sides (Nat.le_refl _) (Nat.le_refl _) hlt.le (Or.inr (Or.inr hlt))⟩

theorem exists_woken (h : 0 < s.past) : ∃ i : Nat, s.workers[i]? = some .woken := by
  obtain ⟨w, hw, hrole⟩ := List.countP_pos_iff.mp h
  obtain ⟨i, hi⟩ := List.getElem?_of_mem hw
  cases w with
  | woken => exact ⟨i, hi⟩
  | waiting => simp [Worker.past] at hrole
  | busy t => simp [Worker.past] at hrole
  | returned => simp [Worker.past] at hrole

theorem exists_pushed (h : 0 < s.owed) : ∃ i : Nat, s.appends[i]? = some .pushed := by
  obtain ⟨a, ha, hrole⟩ := List.countP_pos_iff.mp h
  obtain ⟨i, hi⟩ := List.getElem?_of_mem ha
  cases a with
  | pushed => exact ⟨i, hi⟩
  | entered t => simp [Append.owesPost] at hrole
  | returned ok => simp [Append.owesPost] at hrole

/-- As long as `stop` has not returned, somebody can go on. -/
theorem Inv.progress (h : Inv cfg s) (hstop : s.stopped = true) (hnot : s.stop ≠ .joined) :
    ∃ l s', l.inside = true ∧ s.step cfg l = some s' := by
  by_cases hall : ∀ w ∈ s.workers, w = .returned
  · refine ⟨.stop, ?_⟩
    show ∃ s', true = true ∧ s.stopStep cfg = some s'
    unfold State.stopStep
    cases hs : s.stop with
    | notCalled => exact ⟨_, rfl, rfl⟩
    | posting left => cases left <;> exact ⟨_, rfl, rfl⟩
    | joining i =>
      by_cases hi : cfg.threadNumber ≤ i
      · simp [hi]
      · have hlt : i < s.workers.length := by
          rw [h.workers_length]
          exact Nat.not_le.mp hi
        have hreturned : s.workers[i]? = some .returned := by
          rw [List.getElem?_eq_getElem hlt, hall _ (List.getElem_mem hlt)]
        simp [hi, hreturned]
    | joined => exact absurd hs hnot
  · -- some worker has not returned
    simp only [not_forall] at hall
    obtain ⟨w, hw, hlive⟩ := hall
    obtain ⟨i, hi⟩ := List.getElem?_of_mem hw
    cases w with
    | returned => exact absurd rfl hlive
    | busy t => exact ⟨.worker i, _, rfl, by rw [State.step, hi]; rfl⟩
    | woken => exact ⟨.worker i, _, rfl, by rw [State.step, hi]; rfl⟩
    | waiting =>
      by_cases hsem : 0 < s.queuestat
      · refine ⟨.worker i, { s with queuestat := s.queuestat - 1 }.workerAt i .woken, rfl, ?_⟩
        simp [State.step, hi, State.workerStep, hsem]
      · -- the wakeup meant for it is with a worker past its wait, or still with `stop`
        have hleave := h.leaving hstop
        have hpos : 0 < s.live := Threads.count_pos (t := i) ⟨_, hi, rfl⟩
        by_cases hleft : 0 < s.stop.postsLeft
        · obtain ⟨left, hs⟩ : ∃ left, s.stop = .posting (left + 1) := by
            cases hs : s.stop with
            | posting left =>
              rw [hs] at hleft
              obtain ⟨m, rfl⟩ := Nat.exists_eq_succ_of_ne_zero (Nat.ne_of_gt hleft)
              exact ⟨m, rfl⟩
            | notCalled => simp [hs, Stop.postsLeft] at hleft
            | joining i => simp [hs, Stop.postsLeft] at hleft
            | joined => simp [hs, Stop.postsLeft] at hleft
          refine ⟨.stop, { s.post with stop := .posting left }, rfl, ?_⟩
          simp [State.step, State.stopStep, hs]
        · have hpast : 0 < s.past := by omega
          obtain ⟨j, hj⟩ := exists_woken hpast
          exact ⟨.worker j, _, rfl, by rw [State.step, hj]; rfl⟩

/-- `stop` joins the workers one after the other. -/
structure Joins (cfg : Config) (s : State) : Prop where
  joining : ∀ n, s.stop = .joining n → ∀ i < n, s.workers[i]? = some .returned
  joined : s.stop = .joined → ∀ i < cfg.threadNumber, s.workers[i]? = some .returned

/-- A worker that has returned stays where it is. -/
theorem Joins.worker {i : Nat} {w v : Worker} (h : Joins cfg s) (hi : s.workers[i]? = some w)
    (hw : w ≠ .returned) : Joins cfg (s.workerAt i v) := by
  have stays : ∀ j : Nat, s.workers[j]? = some Worker.returned →
      (s.workers.set i v)[j]? = some Worker.returned := by
    intro j hj
    rw [Threads.getElem?_set_ne, hj]
    rintro rfl
    rw [hi] at hj
    exact hw (Option.some.inj hj)
  exact ⟨fun n hn j hj => stays j (h.joining n hn j hj), fun hn j hj => stays j (h.joined hn j hj)⟩

theorem Joins.step (h : Joins cfg s) (hs : s.step cfg l = some s') : Joins cfg s' := by
  cases step_cases hs with
  | call t => exact ⟨h.joining, h.joined⟩
  | refuse hi hfull => exact ⟨h.joining, h.joined⟩
  | push hi hrun hroom => exact ⟨h.joining, h.joined⟩
  | post hi => exact ⟨h.joining, h.joined⟩
  | wait hi hpos =>
    exact Joins.worker (s := { s with queuestat := s.queuestat - 1 }) ⟨h.joining, h.joined⟩ hi
      (by simp)
  | interrupt hi => exact h.worker hi (by simp)
  | leave hi hempty hstop => exact h.worker hi (by simp)
  | again hi hempty hrun => exact h.worker hi (by simp)
  | @take i t rest hi hqueue =>
    exact Joins.worker (s := { s with workqueue := rest, taken := s.taken ++ [(i, t)] })
      ⟨h.joining, h.joined⟩ hi (by simp)
  | done hi => exact h.worker hi (by simp)
  | clear hstop =>
    constructor
    · intro n hn
      cases hn
    · intro hn
      cases hn
  | wake hstop =>
    constructor
    · intro n hn
      cases hn
    · intro hn
      cases hn
  | posted hstop =>
    constructor
    · intro n hn j hj
      cases hn
      exact absurd hj (Nat.not_lt_zero j)
    · intro hn
      cases hn
  | @join i hjoin hi hreturned =>
    constructor
    · intro n hn j hj
      cases hn
      rcases Nat.lt_succ_iff_lt_or_eq.mp hj with hlt | rfl
      · exact h.joining i hjoin j hlt
      · exact hreturned
    · intro hn
      cases hn
  | @joined i hjoin hi =>
    constructor
    · intro n hn
      cases hn
    · intro _ j hj
      exact h.joining i hjoin j (Nat.lt_of_lt_of_le hj hi)

theorem joins_init (cfg : Config) : Joins cfg (init cfg) := by
  constructor
  · intro n hn
    cases hn
  · intro hn
    cases hn

theorem Joins.returned (h : Joins cfg s) (hlen : s.workers.length = cfg.threadNumber)
    (hjoined : s.stop = .joined) : ∀ w ∈ s.workers, w = .returned := by
  intro w hw
  obtain ⟨i, hi⟩ := List.getElem?_of_mem hw
  have hlt : i < cfg.threadNumber := hlen ▸ (List.getElem?_eq_some_iff.mp hi).1
  rw [h.joined hjoined i hlt] at hi
  exact (Option.some.inj hi).symm

/-- **After `stop` the pool can be run to its end.** The induction is on the measure. -/
theorem Inv.completes (h : Inv cfg s) (hjoins : Joins cfg s) (hstop : s.stopped = true) :
    ∃ ls s', (∀ l ∈ ls, l.inside = true) ∧ Machine.run (State.step cfg) s ls = some s' ∧
      s'.stop = .joined ∧ ∀ w ∈ s'.workers, w = .returned := by
  induction hn : s.measure cfg using Nat.strongRecOn generalizing s with
  | _ n ih =>
    by_cases hjoined : s.stop = .joined
    · exact ⟨[], s, by simp, rfl, hjoined, hjoins.returned h.workers_length hjoined⟩
    · obtain ⟨l, s₁, hl, hs⟩ := h.progress hstop hjoined
      obtain ⟨hstop₁, hlt⟩ := h.measure_lt hstop hl hs
      obtain ⟨ls, s', hls, hr, hend⟩ := ih _ (hn ▸ hlt) (h.step hs) (hjoins.step hs) hstop₁ rfl
      refine ⟨l :: ls, s', ?_, ?_, hend⟩
      · intro l' hl'
        rcases List.mem_cons.mp hl' with rfl | hl'
        · exact hl
        · exact hls l' hl'
      · rw [Machine.run, hs]
        exact hr

/-- **The queue of the thread pool**, in every state that calls of `append_p`, the workers and one
`stop` can reach, interrupted waits included. The queue is bounded; the tasks accepted are those
taken, in the order of their acceptance, then those `stop` threw away, then those still queued; no
queued task is left without a wakeup; and once `stop` has been called, `append_p` refuses and every
worker can come to its return. -/
theorem queue_safe (cfg : Config) (ls : List Label) (s : State)
    (hr : Machine.run (State.step cfg) (init cfg) ls = some s) :
    s.workqueue.length ≤ cfg.maxRequests ∧
    s.accepted = s.taken.map Prod.snd ++ s.discarded ++ s.workqueue ∧
    s.accepted.length = s.admitted ∧
    (s.stopped = false → s.discarded = []) ∧
    (s.workqueue ≠ [] → 0 < s.queuestat ∨ (∃ i : Nat, s.workers[i]? = some .woken) ∨
      ∃ i : Nat, s.appends[i]? = some .pushed) ∧
    (s.stopped = true → s.workqueue = [] ∧
      (∀ (i : Nat) (t : Task), s.appends[i]? = some (.entered t) →
        s.step cfg (.append i) = some (s.appendAt i (.returned false))) ∧
      ∃ ls' s', (∀ l ∈ ls', l.inside = true) ∧ Machine.run (State.step cfg) s ls' = some s' ∧
        ∀ w ∈ s'.workers, w = .returned) := by
  have h := inv_run hr
  have hjoins : Joins cfg s :=
    Machine.run_preserves (State.step cfg) (fun _ _ _ h hs => h.step hs) (joins_init cfg) hr
  refine ⟨h.bounded, h.ledger, h.admitted_eq.symm, h.discarded_nil, fun hne => ?_, fun hstop => ?_⟩
  · have hpos := List.length_pos_iff.mpr hne
    have hawake := h.awake
    by_cases hsem : 0 < s.queuestat
    · exact Or.inl hsem
    · right
      by_cases hpast : 0 < s.past
      · left
        exact exists_woken hpast
      · right
        have howed : 0 < s.owed := by omega
        exact exists_pushed howed
  · refine ⟨h.workqueue_nil hstop, fun i t hi => ?_, ?_⟩
    · simp [State.step, hi, State.appendStep, State.push, hstop]
    · obtain ⟨ls', s', hls, hrun, -, hreturned⟩ := h.completes hjoins hstop
      exact ⟨ls', s', hls, hrun, hreturned⟩

/-- One worker; a task is pushed, an interrupted wait takes it before it is posted, and `stop`
comes. -/
def oneWorker : Config where
  threadNumber := 1
  maxRequests := 2
  threadNumber_pos := by decide
  maxRequests_pos := by decide
  threadNumber_le := by decide
  maxRequests_le := by decide

def interrupted : List Label :=
  [.call ⟨some 5, 1⟩, .append 0, .interrupt 0, .worker 0, .append 0, .stop]

theorem queue_safe_interrupted : ∃ s,
    Machine.run (State.step oneWorker) (init oneWorker) interrupted = some s ∧
      s.accepted = [⟨some 5, 1⟩] ∧ s.taken = [(0, ⟨some 5, 1⟩)] ∧ s.queuestat = 1 ∧
      ∃ ls' s', (∀ l ∈ ls', l.inside = true) ∧
        Machine.run (State.step oneWorker) s ls' = some s' ∧ ∀ w ∈ s'.workers, w = .returned := by
  refine ⟨_, rfl, rfl, rfl, rfl, ?_⟩
  exact ((queue_safe oneWorker interrupted _ rfl).2.2.2.2.2 rfl).2.2

end ThreadPool
end UrlShortener
