import Wrongthink.Service.World

/-!
# The database layer

The functions of `DBPostgres`, as the service and the interceptor call them. Each opens its own
session, so the statements of one function are separate steps, and so are two calls made by one
handler. The functions that are handed a session by their caller do not open another.

`SQLiteDB` overrides `banUser` with the same statements in SQLite's dialect; what the dialect
changes is the business of `Statement.exec`.
-/

namespace Wrongthink

open Concurrent

/-- The indicator SOCI keeps beside a column. -/
inductive Indicator where
  | i_ok
  | i_null
  deriving DecidableEq

/-- The first column of a `soci::row`, as far as `getChannelRow` fills it. -/
structure NameRow where
  indicator : Indicator
  name : String

namespace DBPostgres

def isUserValid (uname token : String) : Routine Bool := do
  perform .session
  sql (.selectUser uname token)

def isUserAdmin (uname : String) : Routine Bool := do
  perform .session
  sql (.selectAdmin uname)

def isIPBanned (ip : String) : Routine Bool := do
  perform .session
  let date ← sql (.selectBannedIp ip)
  match date with
  | none => return false
  | some te =>
    let tc ← perform .time
    if tc > te then
      sql (.deleteBannedIp ip)
      return false
    else return true

def isUserBanned (uname ip : String) : Routine Bool := do
  perform .session
  let date ← sql (.selectBan uname)
  match date with
  | none => return false
  | some te =>
    let tc ← perform .time
    if tc > te then
      sql (.deleteBan uname)
      return false
    else
      let ipBanned ← isIPBanned ip
      if ipBanned then return true
      else
        sql (.insertBannedIp ip te)
        return true

/-- `days * 24 * 60 * 60 * 1000`, in `int` -/
def banLength (days : ℤ) : ℤ := wrap32 (wrap32 (wrap32 (wrap32 (days * 24) * 60) * 60) * 1000)

def banUser (uname : String) (days : ℤ) : Routine Unit := do
  perform .session
  let days := banLength days
  let uid ← sql (.selectUserId uname)
  match uid with
  | some uid =>
    let found ← sql (.selectBannedUser uid)
    if found then sql (.updateBannedUser days uid)
    else sql (.insertBannedUser uid days)
  | none => throw .userNotFound

/-- Answers with the new id and with `admin`, which is an in-out parameter. -/
def createUser (uname token : String) (admin : Bool) : Routine (ℤ × Bool) := do
  perform .session
  let adminct ← sql .countAdmins
  let admin := if adminct = 0 then true else admin
  sql (.insertUser uname token admin)
  let uid ← sql (.selectUserId uname)
  return (uid.getD 0, admin)

def createChannel (name : String) (community admin_id : ℤ) (anonymous : Bool) : Routine ℤ := do
  perform .session
  sql (.insertChannel name community admin_id anonymous)
  let channel_id ← sql (.selectChannelId name)
  return channel_id.getD 0

/-- `community_id` is not initialised, so it is undefined when the lookup finds nothing. -/
def createCommunity (name : String) (admin : ℤ) (pub : Bool) : Routine ℤ := do
  perform .session
  sql (.insertCommunity name admin pub)
  let community_id ← sql (.selectCommunityId name)
  match community_id with
  | some id => return id
  | none =>
    perform .undefined
    return 0

def getCommunityRowset : Routine (List SqlRow) := sql .selectCommunities

def getCommunityChannelsRowset (community_id : ℤ) : Routine (List SqlRow) :=
  sql (.selectCommunityChannels community_id)

def getChannelMessages (channel_id : ℤ) : Routine (List SqlRow) :=
  sql (.selectChannelMessages channel_id)

/-- A select that matches nothing leaves the row as it was described: the indicator at `i_ok`, the
string empty. `channels.name` is never null. -/
def getChannelRow (channel_id : ℤ) : Routine NameRow := do
  let name ← sql (.selectChannelName channel_id)
  return ⟨.i_ok, name.getD ""⟩

end DBPostgres

end Wrongthink
