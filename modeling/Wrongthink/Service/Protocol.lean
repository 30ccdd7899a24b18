import Mathlib.Data.Int.Order.Basic
import Mathlib.Data.List.Basic

/-!
# Protocol messages and channels

The protobuf messages the handlers read and write, by the fields they use, and the
`SynchronizedChannel` that a message is handed to the listeners through.

A `std::condition_variable` is the set of the threads blocked on it. Waiting puts a thread there
and gives the mutex up; `notify_all` empties the set; a thread that is no longer in it may return
from the wait once it has the mutex. `appendMessage` releases its mutex *before* it notifies, so it
is two steps, `push` and `notifyAll`, and other threads may run between them.
-/

namespace Wrongthink

/-! ## Messages -/

inductive StatusCode where
  | OK
  | INVALID_ARGUMENT
  | UNAUTHENTICATED
  | INTERNAL
  deriving DecidableEq

structure Status where
  code : StatusCode
  message : String
  deriving DecidableEq

/-- `Status::OK` -/
def Status.OK : Status := ⟨.OK, ""⟩

/-- `Status(StatusCode::INTERNAL, "")` -/
def Status.INTERNAL : Status := ⟨.INTERNAL, ""⟩

/-- `Status(StatusCode::INVALID_ARGUMENT, "")` -/
def Status.INVALID_ARGUMENT : Status := ⟨.INVALID_ARGUMENT, ""⟩

structure WrongthinkMessage where
  uname : String
  channelname : String
  channelid : ℤ
  userid : ℤ
  threadid : ℤ
  threadchild : ℤ
  edited : Bool
  text : String
  date : ℤ
  messageid : ℤ
  deriving DecidableEq

instance : Inhabited WrongthinkMessage := ⟨⟨"", "", 0, 0, 0, 0, false, "", 0, 0⟩⟩

structure WrongthinkUser where
  uname : String
  token : String
  userid : ℤ
  admin : Bool
  deriving DecidableEq

instance : Inhabited WrongthinkUser := ⟨⟨"", "", 0, false⟩⟩

structure WrongthinkCommunity where
  communityid : ℤ
  name : String
  unameadmin : String
  deriving DecidableEq

instance : Inhabited WrongthinkCommunity := ⟨⟨0, "", ""⟩⟩

structure WrongthinkChannel where
  channelid : ℤ
  name : String
  anonymous : Bool
  communityid : ℤ
  unameadmin : String
  deriving DecidableEq

instance : Inhabited WrongthinkChannel := ⟨⟨0, "", false, 0, ""⟩⟩

structure BanUserRequest where
  uname : String
  days : ℤ

structure CreateUserRequest where
  uname : String
  password : String
  admin : Bool

structure CreateWrongthinkCommunityRequest where
  name : String
  adminid : ℤ
  public_ : Bool

structure CreateWrongThinkChannelRequest where
  name : String
  communityid : ℤ
  anonymous : Bool
  adminid : ℤ

/-! ## Channels -/

/-- A channel shared by the threads `τ`. `channelCondition_` lists the threads blocked on it. -/
structure SynchronizedChannel (τ : Type) where
  wtChannel_ : WrongthinkChannel
  lastMessage_ : WrongthinkMessage
  msgVector_ : List WrongthinkMessage
  channelCondition_ : List τ

namespace SynchronizedChannel

variable {τ : Type}

instance : Inhabited (SynchronizedChannel τ) := ⟨⟨default, default, [], []⟩⟩

/-- `SynchronizedChannel(int channelId, const std::string& channelName)` -/
def new (channelId : ℤ) (channelName : String) : SynchronizedChannel τ :=
  { (default : SynchronizedChannel τ) with
    wtChannel_ :=
      { (default : WrongthinkChannel) with channelid := channelId, name := channelName } }

/-- The section of `appendMessage` that holds the mutex. -/
def push (msg : WrongthinkMessage) (ch : SynchronizedChannel τ) : SynchronizedChannel τ :=
  { ch with msgVector_ := ch.msgVector_ ++ [msg], lastMessage_ := msg }

/-- `channelCondition_.notify_all()` -/
def notifyAll (ch : SynchronizedChannel τ) : SynchronizedChannel τ :=
  { ch with channelCondition_ := [] }

/-- The section of `waitMessage` before the thread blocks. -/
def wait (l : τ) (ch : SynchronizedChannel τ) : SynchronizedChannel τ :=
  { ch with channelCondition_ := l :: ch.channelCondition_ }

/-- A thread leaves the wait; `waitMessage` then returns `lastMessage_`. -/
def wake [DecidableEq τ] (l : τ) (ch : SynchronizedChannel τ) : SynchronizedChannel τ :=
  { ch with channelCondition_ := ch.channelCondition_.filter (· ≠ l) }

variable {ch : SynchronizedChannel τ} {msg : WrongthinkMessage} {l : τ}

@[simp] theorem wtChannel_push : (ch.push msg).wtChannel_ = ch.wtChannel_ := rfl

@[simp] theorem msgVector_push : (ch.push msg).msgVector_ = ch.msgVector_ ++ [msg] := rfl

@[simp] theorem lastMessage_push : (ch.push msg).lastMessage_ = msg := rfl

@[simp] theorem channelCondition_push :
    (ch.push msg).channelCondition_ = ch.channelCondition_ := rfl

@[simp] theorem wtChannel_notifyAll : ch.notifyAll.wtChannel_ = ch.wtChannel_ := rfl

@[simp] theorem msgVector_notifyAll : ch.notifyAll.msgVector_ = ch.msgVector_ := rfl

@[simp] theorem lastMessage_notifyAll : ch.notifyAll.lastMessage_ = ch.lastMessage_ := rfl

@[simp] theorem channelCondition_notifyAll : ch.notifyAll.channelCondition_ = [] := rfl

@[simp] theorem wtChannel_wait : (ch.wait l).wtChannel_ = ch.wtChannel_ := rfl

@[simp] theorem msgVector_wait : (ch.wait l).msgVector_ = ch.msgVector_ := rfl

@[simp] theorem lastMessage_wait : (ch.wait l).lastMessage_ = ch.lastMessage_ := rfl

@[simp] theorem channelCondition_wait :
    (ch.wait l).channelCondition_ = l :: ch.channelCondition_ := rfl

variable [DecidableEq τ]

@[simp] theorem wtChannel_wake : (ch.wake l).wtChannel_ = ch.wtChannel_ := rfl

@[simp] theorem msgVector_wake : (ch.wake l).msgVector_ = ch.msgVector_ := rfl

@[simp] theorem lastMessage_wake : (ch.wake l).lastMessage_ = ch.lastMessage_ := rfl

@[simp] theorem mem_channelCondition_wake {l' : τ} :
    l' ∈ (ch.wake l).channelCondition_ ↔ l' ∈ ch.channelCondition_ ∧ l' ≠ l := by
  simp [wake]

end SynchronizedChannel

end Wrongthink
