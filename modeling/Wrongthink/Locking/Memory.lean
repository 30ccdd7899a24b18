import Wrongthink.Concurrent.Expansion
import Wrongthink.Service.WrongthinkServiceImpl

/-!
# The channels, statement by statement

`SynchronizedChannel.cpp` with its mutex in sight. What the handlers perform as one action on a
channel is here the statements it consists of: take `channelMutex_`, work on the members one after
the other, give it back. Between any two statements everybody else may run.

A thread that finds the mutex taken waits (`Access.exec` is undefined there).
`channelCondition_.wait` gives the mutex back and blocks at once, and returns with it; `notify_all`
is called without it.

All other actions of the server stay as they are, each one step.
-/

namespace Wrongthink

open Concurrent Function

variable {b : Backend} {ι : Type}

/-! ## Members, one at a time -/

namespace SynchronizedChannel

variable {τ : Type}

/-- `msgVector_.push_back(msg)` -/
def push_back (msg : WrongthinkMessage) (ch : SynchronizedChannel τ) : SynchronizedChannel τ :=
  { ch with msgVector_ := ch.msgVector_ ++ [msg] }

/-- `lastMessage_ = msg` -/
def assign (msg : WrongthinkMessage) (ch : SynchronizedChannel τ) : SynchronizedChannel τ :=
  { ch with lastMessage_ := msg }

end SynchronizedChannel

/-! ## Memory -/

/-- The state of the server, and which thread holds the mutex of which channel. -/
structure Memory (b : Backend) (ι : Type) where
  world : World b
  channelMutex_ : ℤ → Option ι

namespace Memory

/-- A server whose mutexes are free. -/
def free (w : World b) : Memory b ι := ⟨w, fun _ ↦ none⟩

def hold (id : ℤ) (i : ι) (m : Memory b ι) : Memory b ι :=
  { m with channelMutex_ := update m.channelMutex_ id (some i) }

def release (id : ℤ) (m : Memory b ι) : Memory b ι :=
  { m with channelMutex_ := update m.channelMutex_ id none }

def modify (id : ℤ) (f : SynchronizedChannel ThreadId → SynchronizedChannel ThreadId)
    (m : Memory b ι) : Memory b ι := { m with world := m.world.modify id f }

end Memory

/-! ## Statements -/

inductive Access (ι : Type) where
  | plain (o : Op)
  /-- `std::lock_guard<std::mutex> lock(channelMutex_)` -/
  | lock (id : ℤ) (i : ι)
  | push_back (id : ℤ) (msg : WrongthinkMessage)
  | assign (id : ℤ) (msg : WrongthinkMessage)
  /-- The end of the scope of the lock. -/
  | unlock (id : ℤ)
  /-- `channelCondition_.wait(lock)`, until the thread blocks. -/
  | block (id : ℤ) (l : ThreadId)
  /-- `channelCondition_.wait(lock)`, from when the thread is woken. -/
  | reacquire (id : ℤ) (i : ι) (l : ThreadId)
  /-- `return lastMessage_` -/
  | read (id : ℤ)

namespace Access

abbrev Result : Access ι → Type
  | plain o => o.Result
  | read _ => WrongthinkMessage
  | _ => Unit

def exec : (a : Access ι) → Memory b ι → Option (Except Exn a.Result × Memory b ι)
  | plain o, m => some ((o.exec m.world).1, { m with world := (o.exec m.world).2 })
  | lock id i, m => if m.channelMutex_ id = none then some (.ok (), m.hold id i) else none
  | push_back id msg, m => some (.ok (), m.modify id (·.push_back msg))
  | assign id msg, m => some (.ok (), m.modify id (·.assign msg))
  | unlock id, m => some (.ok (), m.release id)
  | block id l, m => some (.ok (), (m.modify id (·.wait l)).release id)
  | reacquire id i l, m =>
    if m.channelMutex_ id = none then some (.ok (), (m.modify id (·.wake l)).hold id i) else none
  | read id, m => some (.ok ((m.world.channelMap id).getD default).lastMessage_, m)

/-- One step: a statement of a channel, or any other action of the server, which may drift or be
lost. -/
inductive Step : Semantics (Access ι) Access.Result Exn (Memory b ι) where
  | exec {a : Access ι} {m m' : Memory b ι} {r} (h : a.exec m = some (r, m')) : Step a m r m'
  | plain {o : Op} {m : Memory b ι} {r w'} (h : Op.Step o m.world r w') :
      Step (.plain o) m r { m with world := w' }

theorem step_exec (a : Access ι) (m : Memory b ι) (x : Except Exn a.Result × Memory b ι)
    (h : a.exec m = some x) : Step a m x.1 x.2 := .exec h

end Access

/-! ## Methods -/

/-- A piece of a handler, statement by statement. -/
abbrev Statements (ι α : Type) := Prog (Access ι) Access.Result Exn α

abbrev access (a : Access ι) : Statements ι a.Result := Prog.perform a

/-- The mutex an action takes. -/
def Op.locks : Op → Option ℤ
  | push id _ | wait id _ | wake id _ => some id
  | _ => none

/-- What the thread `i` does for an action of its handler. -/
def Op.statements (i : ι) : (o : Op) → Statements ι (Except Exn o.Result)
  | .push id msg => do
    access (.lock id i)
    access (.push_back id msg)
    access (.assign id msg)
    access (.unlock id)
    return .ok ()
  | .wait id l => do
    access (.lock id i)
    access (.block id l)
    return .ok ()
  | .wake id l => do
    access (.reacquire id i l)
    let msg ← access (.read id)
    access (.unlock id)
    return .ok msg
  | o => .act (.plain o) .done

/-- The handler of a request, on the thread `i`. -/
def Request.statements (r : Request) (i : ι) : Statements ι Reply :=
  r.handle.expand (Op.statements i)

end Wrongthink
