import Wrongthink.Service.WrongthinkServiceImpl

/-!
# The interceptor

`LoggingInterceptor::Intercept`, which the server runs for each batch of events of a call. It looks
at two of the hook points: when the initial metadata have come in it asks whether the peer is
banned, and when a message has come in whether the user is that its field `uname` belongs to. It is
not under a `catch`. What it writes to the log is left out.

A message is a list of its fields, which are looked up by reflection. A stream that has ended
delivers no message, and `GetRecvMessage` then is a null pointer.
-/

namespace Wrongthink

open Concurrent

/-- A field of a message: its `FieldDescriptor`, and the value the message has there. -/
structure Field where
  name : String
  default_value_string : String
  value : String

abbrev RecvMessage := List Field

/-- `descriptor->FindFieldByName(name)` -/
def RecvMessage.FindFieldByName (msg : RecvMessage) (name : String) : Option Field :=
  msg.find? (·.name = name)

/-- The hook points of a batch that `Intercept` does something at, with what it is handed there. -/
structure InterceptorBatchMethods where
  postRecvInitialMetadata : Bool
  postRecvMessage : Option (Option RecvMessage)

namespace LoggingInterceptor

def onInitialMetadata (peer : String) : Routine Unit := do
  let banned ← DBPostgres.isIPBanned peer
  if banned then perform .tryCancel else pure ()

def onMessage (peer : String) : Option RecvMessage → Routine Unit
  | none => perform .undefined
  | some msg =>
    match msg.FindFieldByName "uname" with
    | none => pure ()
    | some fDesc => do
      let uname := fDesc.default_value_string
      let banned ← DBPostgres.isUserBanned uname peer
      if banned then perform .tryCancel else pure ()

def intercept (methods : InterceptorBatchMethods) (peer : String) : Routine Unit := do
  (if methods.postRecvInitialMetadata then onInitialMetadata peer else pure ())
  (match methods.postRecvMessage with
    | some msg => onMessage peer msg
    | none => pure ())
  perform .proceed

/-- The batches of a call, one after the other. -/
def interceptAll (peer : String) : List InterceptorBatchMethods → Routine Unit
  | [] => pure ()
  | methods :: batches => do
    intercept methods peer
    interceptAll peer batches

end LoggingInterceptor

/-- A call: it passes the interceptor, and then its request is handled. A cancelled call is handled
as well; what is cancelled is the answer. -/
structure Call where
  peer : String
  batches : List InterceptorBatchMethods
  request : Request

def Call.run (c : Call) : Routine Reply := do
  LoggingInterceptor.interceptAll c.peer c.batches
  c.request.handle

/-! ## What it leaves alone -/

variable {T : Table}

namespace DBPostgres

theorem isIPBanned_target (hT : T ≠ .banned_ips) (ip : String) :
    (isIPBanned ip).Only fun o ↦ o.target ≠ some T := by
  simp only [isIPBanned, Prog.only_perform_bind]
  refine ⟨by simp [Op.target], fun _ ↦ ⟨by simp [Op.target, Statement.target], fun date ↦ ?_⟩⟩
  rcases date with _ | te
  · trivial
  refine (Prog.only_perform_bind _ _ _).mpr ⟨by simp [Op.target], fun tc ↦ ?_⟩
  split
  · refine (Prog.only_perform_bind _ _ _).mpr ⟨?_, fun _ ↦ trivial⟩
    simpa [Op.target, Statement.target] using hT.symm
  · trivial

theorem isUserBanned_target (hT : T ≠ .banned_ips) (uname ip : String) :
    (isUserBanned uname ip).Only fun o ↦ o.target ≠ some T := by
  simp only [isUserBanned, Prog.only_perform_bind]
  refine ⟨by simp [Op.target], fun _ ↦ ⟨by simp [Op.target, Statement.target], fun date ↦ ?_⟩⟩
  rcases date with _ | te
  · trivial
  refine (Prog.only_perform_bind _ _ _).mpr ⟨by simp [Op.target], fun tc ↦ ?_⟩
  split
  · exact (Prog.only_perform_bind _ _ _).mpr ⟨by simp [Op.target, Statement.target],
      fun _ ↦ trivial⟩
  refine (isIPBanned_target hT ip).bind fun ipBanned ↦ ?_
  split
  · trivial
  · refine (Prog.only_perform_bind _ _ _).mpr ⟨?_, fun _ ↦ trivial⟩
    simpa [Op.target, Statement.target] using hT.symm

end DBPostgres

namespace LoggingInterceptor

theorem interceptAll_target (hT : T ≠ .banned_ips) (peer : String)
    (batches : List InterceptorBatchMethods) :
    (interceptAll peer batches).Only fun o ↦ o.target ≠ some T := by
  have hcancel : ∀ banned : Bool,
      (if banned then perform .tryCancel else pure ()).Only fun o ↦ o.target ≠ some T := by
    intro banned
    rcases banned with _ | _
    · trivial
    · exact (Prog.only_perform _ _).mpr (by simp [Op.target])
  induction batches with
  | nil => trivial
  | cons methods batches ih =>
    obtain ⟨metadata, message⟩ := methods
    refine (Prog.Only.bind ?_ fun _ ↦ Prog.Only.bind ?_ fun _ ↦
      (Prog.only_perform _ _).mpr (by simp [Op.target])).bind fun _ ↦ ih
    · rcases metadata with _ | _
      · trivial
      · exact (DBPostgres.isIPBanned_target hT peer).bind hcancel
    · rcases message with _ | _ | msg
      · trivial
      · exact (Prog.only_perform _ _).mpr (by simp [Op.target])
      · dsimp only
        rw [onMessage]
        split
        · trivial
        · exact (DBPostgres.isUserBanned_target hT _ peer).bind hcancel

end LoggingInterceptor

end Wrongthink
