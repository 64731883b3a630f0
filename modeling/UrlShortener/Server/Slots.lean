import UrlShortener.Base.Machine
import UrlShortener.Server.Timers

/-!
# UrlShortener.Server.Slots

The connection slots of the event loop: `users_timer`, the timer list and `m_user_count`, from
`accept` to the close of a connection. A slot is closed by `deal_timer` (a failed read or write, a
full queue, a hang-up, the end of the server) or by `tick`.

Around the server is the part of the kernel it relies on: the descriptors that are open, those that
epoll watches, and for each accepted connection a serial number, so that "closed once" can be said
of a connection and not only of its descriptor, which is used again.

What the kernel and the allocator promise is `Allowed`. `none` as the result of a step is an access
through a null or freed pointer; it does not happen.
-/

namespace UrlShortener
namespace Slots

open DoublyLinked Timers

def MAX_FD : Nat := 65536
def TIMESLOT : Int := 5

structure ClientData where
  sockfd : Int := 0
  timer : Option Nat := none

structure Server where
  timers : SortTimerLst := {}
  usersTimer : Nat → ClientData := fun _ => {}
  userCount : Int := 0
  listenPaused : Bool := false
  stopped : Bool := false
  /-- The client descriptors that are open, with the serial number of their connection. -/
  files : Nat → Option Nat := fun _ => none
  /-- The client descriptors that epoll watches. -/
  epoll : Nat → Bool := fun _ => false
  accepted : Nat := 0
  /-- The connections that were closed, in this order. -/
  closed : List Nat := []
  /-- How often `close` was called on a descriptor that is no open connection. -/
  strayCloses : Nat := 0

inductive AcceptResult where
  /-- A new descriptor, and the address and time that `timer` gets from `new` and `time`. -/
  | connfd (fd timer : Nat) (now : Int)
  /-- `accept` fails; `exhausted` for EMFILE, ENFILE, ENOBUFS and ENOMEM. -/
  | fails (exhausted : Bool)

/-- How `dealwithread` and `dealwithwrite` go. -/
inductive Outcome where
  /-- `read_once` or `write` returns false. -/
  | failed
  /-- The thread pool does not take the task. -/
  | queueFull
  | served (now : Int)

inductive Label where
  | accept (rs : List AcceptResult)
  | read (fd : Nat) (o : Outcome)
  | write (fd : Nat) (o : Outcome)
  | hangup (fd : Nat)
  | tick (now : Int)
  | shutdown

namespace Server

/-- The kernel's part of `accept`. -/
def open_ (s : Server) (fd : Nat) : Server :=
  { s with files := Function.update s.files fd (some s.accepted), accepted := s.accepted + 1 }

/-- The kernel's part of `close`. -/
def close (s : Server) (fd : Nat) : Server :=
  match s.files fd with
  | some id => { s with files := Function.update s.files fd none, closed := s.closed ++ [id] }
  | none => { s with strayCloses := s.strayCloses + 1 }

def cbFunc (s : Server) (userData : Nat) : Server :=
  if (s.usersTimer userData).sockfd < 0 then s
  else
    let fd := (s.usersTimer userData).sockfd.toNat
    let s := { s with epoll := Function.update s.epoll fd false }.close fd
    { s with
      usersTimer := Function.update s.usersTimer userData { sockfd := -1, timer := none }
      userCount := s.userCount - 1 }

def dealTimer (s : Server) (timer : Option Nat) (sockfd : Nat) : Option Server := do
  let s ← match timer with
    | some t => do
      let _ ← s.timers.heap.lookup t
      let s := s.cbFunc sockfd
      let timers ← s.timers.delTimer (some t)
      pure { s with timers }
    | none => pure (s.cbFunc sockfd)
  return { s with
    usersTimer := Function.update s.usersTimer sockfd { s.usersTimer sockfd with timer := none } }

/-- `timer`, with `http_conn::init`. -/
def timer (s : Server) (connfd timer : Nat) (now : Int) : Option Server := do
  let s := { s with epoll := Function.update s.epoll connfd true, userCount := s.userCount + 1 }
  let s := { s with
    usersTimer := Function.update s.usersTimer connfd { sockfd := connfd, timer := some timer } }
  let heap := s.timers.heap.insert timer
    { val := { expire := now + 3 * TIMESLOT, userData := connfd } }
  let timers ← { s.timers with heap }.addTimer (some timer)
  return { s with timers }

def adjustTimer (s : Server) (timer : Nat) (now : Int) : Option Server := do
  let heap ← s.timers.heap.setVal (some timer) fun t => { t with expire := now + 3 * TIMESLOT }
  let timers ← { s.timers with heap }.adjustTimer (some timer)
  return { s with timers }

/-- One round of `dealclientdata`, and whether its loop goes on. -/
def acceptOne (s : Server) : AcceptResult → Option (Server × Bool)
  | .fails exhausted => some ({ s with listenPaused := s.listenPaused || exhausted }, false)
  | .connfd fd t now =>
    let s := s.open_ fd
    if (MAX_FD : Int) ≤ s.userCount then some (s.close fd, false)
    else (s.timer fd t now).map fun s => (s, true)

/-- `et` is `m_LISTENTrigmode`; without it there is one round. -/
def dealclientdata (et : Bool) : Server → List AcceptResult → Option Server
  | s, [] => some s
  | s, r :: rs => do
    let (s, more) ← s.acceptOne r
    if et && more then dealclientdata et s rs else return s

/-- What `dealwithread` and `dealwithwrite` do with the slot. -/
def dealwith (s : Server) (sockfd : Nat) (o : Outcome) : Option Server :=
  match o with
  | .failed => s.dealTimer (s.usersTimer sockfd).timer sockfd
  | .queueFull => s.dealTimer (s.usersTimer sockfd).timer sockfd
  | .served now =>
    match (s.usersTimer sockfd).timer with
    | some t => s.adjustTimer t now
    | none => some s

def dealwithread (s : Server) (sockfd : Nat) (o : Outcome) : Option Server := s.dealwith sockfd o

def dealwithwrite (s : Server) (sockfd : Nat) (o : Outcome) : Option Server := s.dealwith sockfd o

/-- The loop of `tick`. It frees a timer in each round. -/
def tickLoop (now : Int) : Nat → Option Nat → Server → Option Server
  | _, none, s => some s
  | 0, some _, _ => none
  | fuel + 1, some tmp, s => do
    let tmp' ← s.timers.heap.lookup tmp
    if now < tmp'.val.expire then return s
    else
      let s := s.cbFunc tmp'.val.userData
      let timers ← s.timers.popHead tmp
      tickLoop now fuel timers.head { s with timers }

/-- `timer_handler` and what follows it in the loop. -/
def timerHandler (s : Server) (now : Int) : Option Server := do
  let s ← tickLoop now s.timers.heap.keys.length s.timers.head s
  return { s with listenPaused := false }

/-- The loop of `shutdown` that closes the connections left. -/
def closeSlots : List Nat → Server → Option Server
  | [], s => some s
  | fd :: fds, s =>
    (if 0 < (s.usersTimer fd).sockfd then s.dealTimer (s.usersTimer fd).timer fd else some s).bind
      (closeSlots fds)

def shutdown (s : Server) : Option Server := do
  let s ← closeSlots (List.range MAX_FD) s
  return { s with stopped := true }

def step (et : Bool) (s : Server) : Label → Option Server
  | .accept rs => s.dealclientdata et rs
  | .read fd o => s.dealwithread fd o
  | .write fd o => s.dealwithwrite fd o
  | .hangup fd => s.dealTimer (s.usersTimer fd).timer fd
  | .tick now => s.timerHandler now
  | .shutdown => s.shutdown

/-- What `accept` and `new` may return. -/
def Fresh (s : Server) : AcceptResult → Prop
  | .connfd fd t _ => 0 < fd ∧ fd < MAX_FD ∧ s.files fd = none ∧ t ∉ s.timers.heap
  | .fails _ => True

def AllFresh (et : Bool) : Server → List AcceptResult → Prop
  | _, [] => True
  | s, r :: rs => s.Fresh r ∧ ∀ s', s.acceptOne r = some (s', true) → et = true → AllFresh et s' rs

instance (s : Server) : ∀ r, Decidable (s.Fresh r)
  | .connfd _ _ _ => inferInstanceAs (Decidable (_ ∧ _ ∧ _ ∧ _))
  | .fails _ => isTrue trivial

instance decidableAllFresh (et : Bool) : ∀ (s : Server) (rs : List AcceptResult),
    Decidable (AllFresh et s rs)
  | _, [] => isTrue trivial
  | s, r :: rs =>
    match h : s.acceptOne r with
    | some (s', true) =>
      have := decidableAllFresh et s' rs
      decidable_of_iff (s.Fresh r ∧ (et = true → AllFresh et s' rs))
        ⟨fun hr => ⟨hr.1, fun _ he het => by rw [h] at he; cases he; exact hr.2 het⟩,
          fun hr => ⟨hr.1, hr.2 s' h⟩⟩
    | some (_, false) => decidable_of_iff (s.Fresh r)
        ⟨fun hr => ⟨hr, fun _ he => by rw [h] at he; cases he⟩, fun hr => hr.1⟩
    | none => decidable_of_iff (s.Fresh r)
        ⟨fun hr => ⟨hr, fun _ he => by rw [h] at he; cases he⟩, fun hr => hr.1⟩

/-- What the kernel promises: accepted descriptors are positive, below `MAX_FD` and not open, and
epoll reports what it watches. -/
def Allowed (et : Bool) (s : Server) : Label → Prop
  | .accept rs => s.stopped = false ∧ s.listenPaused = false ∧ AllFresh et s rs
  | .read fd _ => s.stopped = false ∧ s.epoll fd = true
  | .write fd _ => s.stopped = false ∧ s.epoll fd = true
  | .hangup fd => s.stopped = false ∧ s.epoll fd = true
  | .tick _ => s.stopped = false
  | .shutdown => s.stopped = false

instance (et : Bool) (s : Server) : ∀ lab, Decidable (s.Allowed et lab)
  | .accept _ => inferInstanceAs (Decidable (_ ∧ _ ∧ _))
  | .read _ _ => inferInstanceAs (Decidable (_ ∧ _))
  | .write _ _ => inferInstanceAs (Decidable (_ ∧ _))
  | .hangup _ => inferInstanceAs (Decidable (_ ∧ _))
  | .tick _ => inferInstanceAs (Decidable (_ = _))
  | .shutdown => inferInstanceAs (Decidable (_ = _))

end Server
end Slots
end UrlShortener
