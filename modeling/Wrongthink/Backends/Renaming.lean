import Mathlib.Logic.Embedding.Basic
import Wrongthink.Creation.Handlers
import Wrongthink.Messages.History
import Wrongthink.Service.Inserts

/-!
# Two servers up to names

A server on Postgres and a server on SQLite that are sent the same requests do not generate the same
ids: Postgres does not give back the ids of rows that were refused, and the names of generated users
are fresh on either side. What can be compared is up to a renaming `ρ`, which takes each generated
id or name of the first server to that of the second. The requests are renamed along, since they
speak of what was generated before.

`Matches` says that `ρ` is the renaming of a pair of states: rows that stand opposite have their
keys renamed. `Mirrors` is the relation the two servers are kept in: everything else in opposite
rows corresponds too, but for the tokens and the dates.
-/

namespace Wrongthink

open Concurrent Relational WrongthinkServiceImpl

/-- How the ids and the names of users on Postgres are called on SQLite. -/
structure Renaming where
  user : ℤ ↪ ℤ
  community : ℤ ↪ ℤ
  channel : ℤ ↪ ℤ
  message : ℤ → ℤ
  thread : ℤ → ℤ
  uname : String ↪ String

namespace Renaming

variable (ρ : Renaming)

/-! ## Rows -/

/-- The tokens are left out: those of generated users differ, and nobody is shown them. -/
structure User (u u' : UserRow) : Prop where
  user_id : u'.user_id = ρ.user u.user_id
  uname : u'.uname = ρ.uname u.uname
  admin : u'.admin = u.admin

structure Community (c c' : CommunityRow) : Prop where
  community_id : c'.community_id = ρ.community c.community_id
  name : c'.name = c.name
  admin : c'.admin = ρ.user c.admin
  pub : c'.pub = c.pub

structure Channel (c c' : ChannelRow) : Prop where
  channel_id : c'.channel_id = ρ.channel c.channel_id
  name : c'.name = c.name
  community : c'.community = ρ.community c.community
  admin : c'.admin = ρ.user c.admin
  allow_anon : c'.allow_anon = c.allow_anon

/-- The dates are left out: each server has a clock of its own. -/
structure Message (m m' : MessageRow) : Prop where
  msg_id : m'.msg_id = ρ.message m.msg_id
  user_id : m'.user_id = ρ.user m.user_id
  channel : m'.channel = ρ.channel m.channel
  thread_id : m'.thread_id = ρ.thread m.thread_id
  thread_child : m'.thread_child = m.thread_child
  edited : m'.edited = m.edited
  mtext : m'.mtext = m.mtext

/-- The renaming of the rows of a table. The ban tables stay empty. -/
def Row : (T : Table) → T.Row → T.Row → Prop
  | .users => ρ.User
  | .communities => ρ.Community
  | .channels => ρ.Channel
  | .message => ρ.Message
  | .banned_users => fun _ _ ↦ True
  | .banned_ips => fun _ _ ↦ True

/-- The key of a row is renamed. -/
def Key : (T : Table) → T.Row → T.Row → Prop
  | .users => fun u u' ↦ u'.user_id = ρ.user u.user_id
  | .communities => fun c c' ↦ c'.community_id = ρ.community c.community_id
  | .channels => fun c c' ↦ c'.channel_id = ρ.channel c.channel_id
  | .message => fun m m' ↦ m'.msg_id = ρ.message m.msg_id
  | .banned_users => fun _ _ ↦ True
  | .banned_ips => fun _ _ ↦ True

/-! ## States -/

/-- Rows that stand opposite have their keys renamed. -/
def Matches (w : World .postgres) (w' : World .sqlite) : Prop :=
  ∀ T, ∀ x ∈ (w.db.rows T).zip (w'.db.rows T), ρ.Key T x.1 x.2

/-- The tables correspond row by row, and the same channels have an entry. -/
structure Mirrors (w : World .postgres) (w' : World .sqlite) : Prop where
  rows : ∀ T, List.Forall₂ (ρ.Row T) (w.db.rows T) (w'.db.rows T)
  channelMap : ∀ id, (w'.channelMap (ρ.channel id)).isSome = (w.channelMap id).isSome

variable {ρ}

theorem Matches.of_grows {w v : World .postgres} {w' v' : World .sqlite} (h : ρ.Matches v v')
    (hw : w.Grows v) (hw' : w'.Grows v') : ρ.Matches w w' := by
  intro T x hx
  cases T with
  | users => exact h .users x (zip_subset_of_grown hw.db.users hw'.db.users hx)
  | communities =>
    exact h .communities x (zip_subset_of_grown hw.db.communities hw'.db.communities hx)
  | channels => exact h .channels x (zip_subset_of_grown hw.db.channels hw'.db.channels hx)
  | message => exact h .message x (zip_subset_of_grown hw.db.message hw'.db.message hx)
  | banned_users => trivial
  | banned_ips => trivial

theorem mirrors_start (now now' : ℤ) :
    ρ.Mirrors (World.start .postgres now) (World.start .sqlite now') :=
  ⟨fun T ↦ by cases T <;> exact .nil, fun _ ↦ rfl⟩

variable (ρ)

/-! ## Requests and replies -/

def sent (msg : WrongthinkMessage) : WrongthinkMessage :=
  { msg with
    userid := ρ.user msg.userid
    channelid := ρ.channel msg.channelid
    threadid := ρ.thread msg.threadid }

/-- The same request to the two servers, for the requests that are compared. -/
inductive Asks : Request → Request → Prop where
  | generateUser {uuid uuid2 uuid' uuid2'} (h : eraseDashes uuid' = ρ.uname (eraseDashes uuid)) :
      Asks (.GenerateUser uuid uuid2) (.GenerateUser uuid' uuid2')
  | createUser (uname password admin) :
      Asks (.CreateUser ⟨uname, password, admin⟩) (.CreateUser ⟨ρ.uname uname, password, admin⟩)
  | createCommunity (name adminid public_) :
      Asks (.CreateWrongthinkCommunity ⟨name, adminid, public_⟩)
        (.CreateWrongthinkCommunity ⟨name, ρ.user adminid, public_⟩)
  | createChannel (name communityid anonymous adminid) :
      Asks (.CreateWrongthinkChannel ⟨name, communityid, anonymous, adminid⟩)
        (.CreateWrongthinkChannel ⟨name, ρ.community communityid, anonymous, ρ.user adminid⟩)
  | getCommunities : Asks .GetWrongthinkCommunities .GetWrongthinkCommunities
  | getChannels (communityid) :
      Asks (.GetWrongthinkChannels communityid) (.GetWrongthinkChannels (ρ.community communityid))
  | getMessages (channelid) :
      Asks (.GetWrongthinkMessages channelid) (.GetWrongthinkMessages (ρ.channel channelid))
  | sendWeb (msg) :
      Asks (.SendWrongthinkMessageWeb msg) (.SendWrongthinkMessageWeb (ρ.sent msg))
  | send (reader) :
      Asks (.SendWrongthinkMessage reader) (.SendWrongthinkMessage (reader.map ρ.sent))

def shownCommunity (x : WrongthinkCommunity) : WrongthinkCommunity :=
  ⟨ρ.community x.communityid, x.name, ρ.uname x.unameadmin⟩

def shownChannel (x : WrongthinkChannel) : WrongthinkChannel :=
  ⟨ρ.channel x.channelid, x.name, x.anonymous, ρ.community x.communityid, ρ.uname x.unameadmin⟩

/-- A message as the two servers show it, each with its own date. -/
def ShowsMessage (x x' : WrongthinkMessage) : Prop :=
  x' = { x with
    uname := ρ.uname x.uname
    channelid := ρ.channel x.channelid
    userid := ρ.user x.userid
    threadid := ρ.thread x.threadid
    date := x'.date
    messageid := ρ.message x.messageid }

/-- The responses to a request correspond; the communities are listed in any order. -/
def Shows : Request → Response → Response → Prop
  | .GenerateUser _ _, .user u, .user u' | .CreateUser _, .user u, .user u' =>
    u'.uname = ρ.uname u.uname ∧ u'.userid = ρ.user u.userid ∧ u'.admin = u.admin
  | .CreateWrongthinkCommunity _, .id n, .id n' => n' = ρ.community n
  | .CreateWrongthinkChannel _, .id n, .id n' => n' = ρ.channel n
  | .GetWrongthinkCommunities, .communities l, .communities l' => l'.Perm (l.map ρ.shownCommunity)
  | .GetWrongthinkChannels _, .channels l, .channels l' => l' = l.map ρ.shownChannel
  | .GetWrongthinkMessages _, .messages l, .messages l' => List.Forall₂ ρ.ShowsMessage l l'
  | .SendWrongthinkMessageWeb _, .empty, .empty | .SendWrongthinkMessage _, .empty, .empty => True
  | _, _, _ => False

/-- The two servers answer alike. -/
structure Replies (r : Request) (reply reply' : Reply) : Prop where
  status : reply'.1 = reply.1
  response : reply.1 = Status.OK → ρ.Shows r reply.2 reply'.2

end Renaming

/-! ## What Postgres takes as SQLite does -/

/-- Nothing but a name that is taken can make the engine refuse the call, and the name is stored as
it is. -/
def Creation.Fits {b : Backend} (q : Creation) (w : World b) : Prop :=
  varchar b q.width q.name = .ok q.name ∧ (q.name ∈ (w.entries q.table).map Prod.snd ∨
    match q with
    | user _ token _ => ∃ token', varchar b 50 token = .ok token'
    | channel _ community_id admin_id _ =>
      b = .postgres → w.db.communities.has community_id ∧ w.db.users.has admin_id
    | community _ admin _ => b = .postgres → w.db.users.has admin)

namespace World

variable (w : World .postgres)

/-- Nothing can make Postgres refuse the message. -/
def AdmitsMessage (msg : WrongthinkMessage) : Prop :=
  (w.db.users.has msg.userid ∧ w.db.channels.has msg.channelid) ∧
    (msg.threadchild = 0 ∨ msg.threadchild = 1)

/-- Postgres does with the request as SQLite does. -/
def Admits (r : Request) : Prop :=
  (∀ x, r.creates = some x → x.call.Fits w) ∧ ∀ msg ∈ r.sends, w.AdmitsMessage msg

end World

end Wrongthink
