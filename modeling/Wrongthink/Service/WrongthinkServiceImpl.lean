import Wrongthink.Service.DBPostgres

/-!
# The request handlers

`WrongthinkServiceImpl` and the two credential functions of `WrongthinkTokenAuth`. A handler
answers with its status and with what it put into its response or wrote to its stream. Every
handler but the listening one runs under a `catch` that turns an exception into `INTERNAL`.

`GenerateUser` draws two uuids; their texts are arguments here. A reader is the list of the messages
it will yield. Listening never returns: the loop runs for any given number of turns, and what is
true after each number is true of the endless loop.
-/

namespace Wrongthink

open Concurrent

/-! ## Credentials -/

/-- The client metadata of a call, in the order of the multimap. -/
abbrev Metadata := List (String × String)

namespace WrongthinkTokenAuth

def AUTH_UNAME_KEY : String := "auth-uname"

def AUTH_TOKEN_KEY : String := "auth-token"

/-- `cmeta.count(key)` -/
def count (cmeta : Metadata) (key : String) : ℕ := cmeta.countP (·.1 = key)

/-- `cmeta.find(key)`: the first of the elements with this key. -/
def find (cmeta : Metadata) (key : String) : Option String :=
  (cmeta.find? (·.1 = key)).map Prod.snd

def hasCredentials (cmeta : Metadata) : Bool :=
  if count cmeta AUTH_UNAME_KEY = 0 then false
  else if count cmeta AUTH_TOKEN_KEY = 0 then false
  else true

/-- The two values, where both lookups succeed. -/
def credentials (cmeta : Metadata) : Option (String × String) :=
  match find cmeta AUTH_UNAME_KEY, find cmeta AUTH_TOKEN_KEY with
  | some uname, some token => some (uname, token)
  | _, _ => none

/-- Dereferences both iterators without a test. -/
def getCredentials (cmeta : Metadata) : Routine (String × String) :=
  match credentials cmeta with
  | some creds => return creds
  | none => do
    perform .undefined
    return ("", "")

end WrongthinkTokenAuth

namespace WrongthinkServiceImpl

/-- The `catch` block of the handlers. -/
def orInternal {α : Type} (none : α) (p : Routine (Status × α)) : Routine (Status × α) :=
  Prog.tryCatch p fun _ ↦ return (Status.INTERNAL, none)

/-! ## Users -/

/-- The texts of `boost::uuids::to_string` without their dashes. -/
def eraseDashes (id : String) : String := String.ofList (id.toList.filter (· ≠ '-'))

def banUser (cmeta : Metadata) (request : BanUserRequest) : Routine (Status × String) :=
  orInternal "" <|
    if !WrongthinkTokenAuth.hasCredentials cmeta then
      return (⟨.UNAUTHENTICATED, "No credentials attached to the channel"⟩, "")
    else do
      let creds ← WrongthinkTokenAuth.getCredentials cmeta
      let valid ← DBPostgres.isUserValid creds.1 creds.2
      if !valid then return (⟨.UNAUTHENTICATED, "Invalid user"⟩, "")
      else
        let admin ← DBPostgres.isUserAdmin creds.1
        if !admin then return (⟨.UNAUTHENTICATED, "Invalid permission"⟩, "")
        else
          DBPostgres.banUser request.uname request.days
          return (Status.OK, "test")

def generateUser (uuid uuid2 : String) : Routine (Status × WrongthinkUser) :=
  orInternal default do
    let id := eraseDashes uuid
    let id2 := eraseDashes uuid2
    let (uid, admin) ← DBPostgres.createUser id id2 false
    return (Status.OK, ⟨id, id2, uid, admin⟩)

def createUser (request : CreateUserRequest) : Routine (Status × WrongthinkUser) :=
  orInternal default do
    let (uid, admin) ← DBPostgres.createUser request.uname request.password request.admin
    return (Status.OK, ⟨request.uname, "", uid, admin⟩)

/-! ## Listings -/

/-- The loop over a rowset: decode each row and write it, until a decoder throws. -/
def writeRows {α : Type} (decode : SqlRow → Except Exn α) : List SqlRow → Status × List α
  | [] => (Status.OK, [])
  | row :: rs =>
    match decode row with
    | .error _ => (Status.INTERNAL, [])
    | .ok x =>
      let (status, xs) := writeRows decode rs
      (status, x :: xs)

def decodeCommunity (row : SqlRow) : Except Exn WrongthinkCommunity := do
  let communityid ← row.getInt 0
  let name ← row.getString 1
  let unameadmin ← row.getString 5
  return ⟨communityid, name, unameadmin⟩

def getWrongthinkCommunitiesImpl : Routine (Status × List WrongthinkCommunity) :=
  orInternal [] do
    perform .session
    let rs ← DBPostgres.getCommunityRowset
    return writeRows decodeCommunity rs

def decodeChannel (community : ℤ) (row : SqlRow) : Except Exn WrongthinkChannel := do
  let channelid ← row.getInt 0
  let name ← row.getString 1
  let anonymous ← row.getInt 2
  let unameadmin ← row.getString 6
  return ⟨channelid, name, anonymous ≠ 0, community, unameadmin⟩

def getWrongthinkChannelsImpl (communityid : ℤ) : Routine (Status × List WrongthinkChannel) :=
  orInternal [] do
    perform .session
    let rs ← DBPostgres.getCommunityChannelsRowset communityid
    return writeRows (decodeChannel communityid) rs

def decodeMessage (channelid : ℤ) (row : SqlRow) : Except Exn WrongthinkMessage := do
  let uname ← row.getStringNamed "uname"
  let userid ← row.getIntNamed "user_id"
  let threadid ← row.getIntNamed "thread_id"
  let threadchild ← row.getIntNamed "thread_child"
  let edited ← row.getIntNamed "edited"
  let text ← row.getStringNamed "mtext"
  let date ← row.getIntNamed "mdate"
  let messageid ← row.getIntNamed "msg_id"
  return ⟨uname, "", channelid, userid, threadid, threadchild, edited ≠ 0, text, date, messageid⟩

/-- The fields `limit`, `afterid` and `afterdate` of the request are read and not used. -/
def getWrongthinkMessagesImpl (channelid : ℤ) : Routine (Status × List WrongthinkMessage) :=
  orInternal [] do
    perform .session
    let rs ← DBPostgres.getChannelMessages channelid
    return writeRows (decodeMessage channelid) rs

/-! ## Creation -/

def createWrongthinkChannel (request : CreateWrongThinkChannelRequest) : Routine (Status × ℤ) :=
  orInternal 0 do
    let channelid ← DBPostgres.createChannel request.name request.communityid request.adminid
      request.anonymous
    return (Status.OK, channelid)

def createWrongthinkCommunity (request : CreateWrongthinkCommunityRequest) :
    Routine (Status × ℤ) :=
  orInternal 0 do
    let communityid ← DBPostgres.createCommunity request.name request.adminid request.public_
    return (Status.OK, communityid)

/-! ## Messages -/

def checkForChannel (channelid : ℤ) : Routine Bool := do
  let n ← perform (.count channelid)
  if n ≠ 1 then
    let r ← DBPostgres.getChannelRow channelid
    if r.indicator ≠ .i_null then
      perform (.emplace channelid r.name)
      return true
    else return false
  else return true

/-- `channelMap[id].appendMessage(msg)` -/
def appendMessage (id : ℤ) (msg : WrongthinkMessage) : Routine Unit := do
  perform (.index id)
  perform (.push id msg)
  perform (.notifyAll id)

def sendWrongthinkMessageWeb (msg : WrongthinkMessage) : Routine (Status × Unit) :=
  orInternal () do
    perform .session
    let found ← checkForChannel msg.channelid
    if !found then return (Status.INVALID_ARGUMENT, ())
    else
      appendMessage msg.channelid msg
      sql (.insertMessage msg.userid msg.channelid msg.threadid msg.threadchild msg.text)
      return (Status.OK, ())

/-- `while (reader->Read(&msg))`, executing the prepared insert on the fields of each message. -/
def sendLoop : List WrongthinkMessage → Routine (Status × Unit)
  | [] => return (Status.OK, ())
  | msg :: reader => do
    let found ← checkForChannel msg.channelid
    if !found then return (Status.INVALID_ARGUMENT, ())
    else
      appendMessage msg.channelid msg
      sql (.insertMessage msg.userid msg.channelid msg.threadid msg.threadchild msg.text)
      sendLoop reader

def sendWrongthinkMessageImpl (reader : List WrongthinkMessage) : Routine (Status × Unit) :=
  orInternal () do
    perform .session
    sendLoop reader

/-- `while (true) writer->Write(channel.waitMessage())`, for some number of turns. -/
def listenLoop (channelid : ℤ) (l : ThreadId) : ℕ → Routine Unit
  | 0 => return ()
  | turns + 1 => do
    perform (.wait channelid l)
    let msg ← perform (.wake channelid l)
    perform (.write msg)
    listenLoop channelid l turns

/-- Not under a `catch`. -/
def listenWrongthinkMessagesImpl (channelid : ℤ) (l : ThreadId) (turns : ℕ) :
    Routine (Status × Unit) := do
  perform .session
  let found ← checkForChannel channelid
  if !found then return (Status.INVALID_ARGUMENT, ())
  else
    perform (.index channelid)
    listenLoop channelid l turns
    return (Status.OK, ())

end WrongthinkServiceImpl

/-! ## Requests -/

/-- A request, with everything its handler reads. -/
inductive Request where
  | BanUser (cmeta : Metadata) (request : BanUserRequest)
  | GenerateUser (uuid uuid2 : String)
  | CreateUser (request : CreateUserRequest)
  | CreateWrongthinkCommunity (request : CreateWrongthinkCommunityRequest)
  | CreateWrongthinkChannel (request : CreateWrongThinkChannelRequest)
  | GetWrongthinkCommunities
  | GetWrongthinkChannels (communityid : ℤ)
  | GetWrongthinkMessages (channelid : ℤ)
  | SendWrongthinkMessageWeb (msg : WrongthinkMessage)
  | SendWrongthinkMessage (reader : List WrongthinkMessage)
  | ListenWrongthinkMessages (channelid : ℤ) (l : ThreadId) (turns : ℕ)

/-- What comes back beside the status. -/
inductive Response where
  | empty
  | generic (message : String)
  | user (u : WrongthinkUser)
  | id (n : ℤ)
  | communities (l : List WrongthinkCommunity)
  | channels (l : List WrongthinkChannel)
  | messages (l : List WrongthinkMessage)

abbrev Reply := Status × Response

/-- A handler, with its own kind of response among the others. -/
def respond {α : Type} (f : α → Response) (p : Routine (Status × α)) : Routine Reply := do
  let (status, a) ← p
  return (status, f a)

namespace Request

open WrongthinkServiceImpl in
def handle : Request → Routine Reply
  | BanUser cmeta request => respond .generic (banUser cmeta request)
  | GenerateUser uuid uuid2 => respond .user (generateUser uuid uuid2)
  | CreateUser request => respond .user (createUser request)
  | CreateWrongthinkCommunity request => respond .id (createWrongthinkCommunity request)
  | CreateWrongthinkChannel request => respond .id (createWrongthinkChannel request)
  | GetWrongthinkCommunities => respond .communities getWrongthinkCommunitiesImpl
  | GetWrongthinkChannels communityid => respond .channels (getWrongthinkChannelsImpl communityid)
  | GetWrongthinkMessages channelid => respond .messages (getWrongthinkMessagesImpl channelid)
  | SendWrongthinkMessageWeb msg => respond (fun _ ↦ .empty) (sendWrongthinkMessageWeb msg)
  | SendWrongthinkMessage reader => respond (fun _ ↦ .empty) (sendWrongthinkMessageImpl reader)
  | ListenWrongthinkMessages channelid l turns =>
    respond (fun _ ↦ .empty) (listenWrongthinkMessagesImpl channelid l turns)

end Request

end Wrongthink
