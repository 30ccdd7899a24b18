import Mathlib.Algebra.Group.Int.Defs
import Mathlib.Algebra.Group.Nat.Defs
import Wrongthink.Store.Tables

/-!
# The SQL statements

Every statement the program sends, under one constructor each, with the values bound to it. A
statement is one atomic step of the engine: it answers, or it raises and leaves the tables as they
were. The clock it may read is an argument.

A `select … into` whose answer is only asked for `got_data()` answers with a `Bool`; one that reads
a column answers with an `Option`; a `rowset` is the list of its rows, each a list of named columns,
which the program then addresses by position or by name.

What a statement can do to the tables is said once, in `Statement.Effect`. The constraints and the
growth of the tables follow from it by cases.
-/

namespace Wrongthink

open Relational

/-! ## Result rows -/

/-- The value of a C++ `int` expression. -/
def wrap32 (n : ℤ) : ℤ := n.bmod (2 ^ 32)

/-- What a column holds. An `int32` is a key, a flag or what a request has bound, and is taken to
fit a C++ `int`; an `int` is computed by the engine, and SQLite has 64 bits for it. -/
inductive SqlValue where
  | int32 (n : ℤ)
  | int (n : ℤ)
  | text (s : String)
  deriving DecidableEq

namespace SqlValue

/-- A column, read as an `int`. -/
def toInt : SqlValue → Except Exn ℤ
  | int32 n => .ok n
  | int n => .ok (wrap32 n)
  | text _ => .error .badCast

/-- A column, read as a `std::string`. -/
def toString : SqlValue → Except Exn String
  | text s => .ok s
  | int32 _ | int _ => .error .badCast

end SqlValue

/-- A row of a `rowset`: its columns, in order. -/
abbrev SqlRow := List (String × SqlValue)

namespace SqlRow

/-- `row::get<int>(pos)`. -/
def getInt (r : SqlRow) (pos : ℕ) : Except Exn ℤ :=
  match r[pos]? with
  | some (_, v) => v.toInt
  | none => .error .outOfRange

/-- `row::get<std::string>(pos)`. -/
def getString (r : SqlRow) (pos : ℕ) : Except Exn String :=
  match r[pos]? with
  | some (_, v) => v.toString
  | none => .error .outOfRange

/-- The column a name stands for. Where two columns share a name, the index keeps the last. -/
def column (r : SqlRow) (name : String) : Option SqlValue :=
  (r.reverse.find? fun c ↦ c.1 = name).map Prod.snd

/-- `row::get<int>(name)`. -/
def getIntNamed (r : SqlRow) (name : String) : Except Exn ℤ :=
  match r.column name with
  | some v => v.toInt
  | none => .error .outOfRange

/-- `row::get<std::string>(name)`. -/
def getStringNamed (r : SqlRow) (name : String) : Except Exn String :=
  match r.column name with
  | some v => v.toString
  | none => .error .outOfRange

end SqlRow

/-- A stored boolean, as an `int` column of a result. -/
def sqlBool (p : Bool) : SqlValue := .int32 (if p then 1 else 0)

def UserRow.columns (u : UserRow) : SqlRow :=
  [("user_id", .int32 u.user_id), ("uname", .text u.uname), ("token", .text u.token),
    ("admin", sqlBool u.admin)]

def CommunityRow.columns (c : CommunityRow) : SqlRow :=
  [("community_id", .int32 c.community_id), ("name", .text c.name), ("admin", .int32 c.admin),
    ("public", sqlBool c.pub)]

def ChannelRow.columns (c : ChannelRow) : SqlRow :=
  [("channel_id", .int32 c.channel_id), ("name", .text c.name), ("community", .int32 c.community),
    ("admin", .int32 c.admin), ("allow_anon", sqlBool c.allow_anon)]

def MessageRow.columns (m : MessageRow) : SqlRow :=
  [("msg_id", .int32 m.msg_id), ("user_id", .int32 m.user_id), ("channel", .int32 m.channel),
    ("thread_id", .int32 m.thread_id), ("thread_child", .int32 m.thread_child),
    ("edited", sqlBool m.edited), ("mtext", .text m.mtext), ("mdate", .int m.mdate)]

/-! ## Column types -/

/-- A value stored into `varchar(n)`. Postgres refuses longer values, except that it cuts off
trailing blanks; SQLite stores any length. -/
def varchar : Backend → ℕ → String → Except Exn String
  | .sqlite, _, s => .ok s
  | .postgres, n, s =>
    if s.length ≤ n then .ok s
    else if (s.toList.drop n).all (· = ' ') then .ok (String.ofList (s.toList.take n))
    else .error .stringDataRightTruncation

/-- An `int` bound where Postgres expects a `boolean`: of the integers it reads `0` and `1`. -/
def boolean : Backend → ℤ → Except Exn ℤ
  | .sqlite, n => .ok n
  | .postgres, n => if n = 0 ∨ n = 1 then .ok n else .error .invalidTextRepresentation

/-- The result of an `int` expression. -/
def int4 : Backend → ℤ → Except Exn ℤ
  | .sqlite, n => .ok n
  | .postgres, n =>
    if -2 ^ 31 ≤ n ∧ n < 2 ^ 31 then .ok n else .error .numericValueOutOfRange

theorem varchar_of_length_le (b : Backend) {k : ℕ} {s : String} (h : s.length ≤ k) :
    varchar b k s = .ok s := by
  cases b with
  | postgres => exact if_pos h
  | sqlite => rfl

theorem eq_of_varchar_of_length_le {b : Backend} {k : ℕ} {s s' : String} (h : s.length ≤ k)
    (hs : varchar b k s = .ok s') : s' = s := by
  rw [varchar_of_length_le b h] at hs
  exact (Except.ok.inj hs).symm

theorem length_le_of_varchar {k : ℕ} {s s' : String} (h : varchar .postgres k s = .ok s') :
    s'.length ≤ k := by
  rw [varchar] at h
  split at h
  · rwa [← Except.ok.inj h]
  · split at h
    · rw [← Except.ok.inj h, String.length_ofList]
      exact List.length_take_le k _
    · cases h

theorem eq_of_int4 {b : Backend} {n m : ℤ} (h : int4 b n = .ok m) : m = n := by
  cases b with
  | postgres =>
    rw [int4] at h
    split at h
    · exact (Except.ok.inj h).symm
    · cases h
  | sqlite => exact (Except.ok.inj h).symm

theorem eq_of_boolean {b : Backend} {n n' : ℤ} (h : boolean b n = .ok n') : n' = n := by
  cases b with
  | sqlite => exact (Except.ok.inj h).symm
  | postgres =>
    rw [boolean] at h
    split at h
    · exact (Except.ok.inj h).symm
    · cases h

/-! ## Statements -/

inductive Statement where
  | selectUser (uname token : String)
  | selectAdmin (uname : String)
  | selectBan (uname : String)
  | deleteBan (uname : String)
  | insertBannedIp (ip : String) (expire : ℤ)
  | selectBannedIp (ip : String)
  | deleteBannedIp (ip : String)
  | selectUserId (uname : String)
  | selectBannedUser (uid : ℤ)
  | updateBannedUser (days uid : ℤ)
  | insertBannedUser (uid days : ℤ)
  | countAdmins
  | insertUser (uname token : String) (admin : Bool)
  | insertChannel (name : String) (community admin_id : ℤ) (anonymous : Bool)
  | selectChannelId (name : String)
  | insertCommunity (name : String) (admin : ℤ) (pub : Bool)
  | selectCommunityId (name : String)
  | selectCommunities
  | selectCommunityChannels (community_id : ℤ)
  | selectChannelMessages (channel_id : ℤ)
  | selectChannelName (channel_id : ℤ)
  | insertMessage (user_id channel thread_id thread_child : ℤ) (mtext : String)
  deriving DecidableEq

namespace Statement

abbrev Result : Statement → Type
  | selectUser _ _ => Bool
  | selectAdmin _ => Bool
  | selectBan _ => Option ℤ
  | selectBannedIp _ => Option ℤ
  | selectUserId _ => Option ℤ
  | selectBannedUser _ => Bool
  | countAdmins => ℕ
  | selectChannelId _ => Option ℤ
  | selectCommunityId _ => Option ℤ
  | selectCommunities => List SqlRow
  | selectCommunityChannels _ => List SqlRow
  | selectChannelMessages _ => List SqlRow
  | selectChannelName _ => Option String
  | _ => Unit

/-! ### The writes -/

variable (b : Backend) (now : ℤ) (t : Tables)

/-- `insert into banned_ips (ip,expire) values (:ip,:date)` -/
def addBannedIp (ip : String) (expire : ℤ) : Except Exn Tables := do
  let ip ← varchar b 50 ip
  if ip ∈ t.banned_ips.map (·.ip) then throw .uniqueViolation
  else pure { t with banned_ips := t.banned_ips ++ [⟨ip, expire⟩] }

/-- `update banned_users set expire = <epoch> + :days where user_id = :uid`. The new value is
computed for the rows that match. -/
def setBannedUser (days uid : ℤ) : Except Exn Tables := do
  if t.banned_users.any (·.user_id = uid) then
    let epoch ← int4 b now
    let expire ← int4 b (epoch + days)
    pure { t with
      banned_users := t.banned_users.map fun r ↦
        if r.user_id = uid then { r with expire := expire } else r }
  else pure t

/-- `insert into banned_users (user_id,expire) values(:uid, <epoch> + :days)` -/
def addBannedUser (uid days : ℤ) : Except Exn Tables := do
  let epoch ← int4 b now
  let expire ← int4 b (epoch + days)
  if b = .postgres ∧ ¬t.users.has uid then throw .foreignKeyViolation
  else pure { t with banned_users := t.banned_users ++ [⟨uid, expire⟩] }

/-- `insert into users (uname,token,admin) values(:uname,:token,:admin)` -/
def addUser (uname token : String) (admin : Bool) : Except Exn Tables := do
  let uname ← varchar b 50 uname
  let token ← varchar b 50 token
  if uname ∈ t.users.rows.map (·.uname) then throw .uniqueViolation
  else pure { t with users := t.users.push ⟨t.users.next, uname, token, admin⟩ rfl }

/-- `insert into channels(name, community, admin, allow_anon) values(…)` -/
def addChannel (name : String) (community admin_id : ℤ) (anonymous : Bool) :
    Except Exn Tables := do
  let name ← varchar b 100 name
  if name ∈ t.channels.rows.map (·.name) then throw .uniqueViolation
  else if b = .postgres ∧ ¬(t.communities.has community ∧ t.users.has admin_id) then
    throw .foreignKeyViolation
  else pure { t with
    channels := t.channels.push ⟨t.channels.next, name, community, admin_id, anonymous⟩ rfl }

/-- `insert into communities (name, admin, public) values(:name,:admin,:public)` -/
def addCommunity (name : String) (admin : ℤ) (pub : Bool) : Except Exn Tables := do
  let name ← varchar b 100 name
  if name ∈ t.communities.rows.map (·.name) then throw .uniqueViolation
  else if b = .postgres ∧ ¬t.users.has admin then throw .foreignKeyViolation
  else pure { t with
    communities := t.communities.push ⟨t.communities.next, name, admin, pub⟩ rfl }

/-- `insert into message(user_id,channel,thread_id,thread_child, mtext) values(…)`; `edited` and
`mdate` take their defaults. -/
def addMessage (user_id channel thread_id thread_child : ℤ) (mtext : String) :
    Except Exn Tables := do
  let thread_child ← boolean b thread_child
  let mdate ← int4 b now
  if b = .postgres ∧ ¬(t.users.has user_id ∧ t.channels.has channel) then
    throw .foreignKeyViolation
  else pure { t with
    message := t.message.push
      ⟨t.message.next, user_id, channel, thread_id, thread_child, false, mtext, mdate⟩ rfl }

/-- A write that raised leaves the tables alone. -/
def written (t : Tables) : Except Exn Tables → Except Exn Unit × Tables
  | .ok t' => (.ok (), t')
  | .error e => (.error e, t)

/-! ### Execution -/

/-- The engine. The text of each query stands in `DBPostgres.cpp`, in the function that sends
it. -/
def exec : (q : Statement) → Tables → Except Exn q.Result × Tables
  | selectUser uname token, t =>
    (.ok (t.users.rows.any fun u ↦ u.uname = uname ∧ u.token = token), t)
  | selectAdmin uname, t => (.ok (t.users.rows.any fun u ↦ u.uname = uname ∧ u.admin), t)
  | selectBan uname, t =>
    (.ok (((Serial.join t.banned_users t.users (·.user_id)).find? fun x ↦ x.2.uname = uname).map
      (·.1.expire)), t)
  -- `banned_users` has no column `uname`
  | deleteBan _, t => (.error .undefinedColumn, t)
  | insertBannedIp ip expire, t => written t (addBannedIp b t ip expire)
  | selectBannedIp ip, t => (.ok ((t.banned_ips.find? fun r ↦ r.ip = ip).map (·.expire)), t)
  | deleteBannedIp ip, t =>
    (.ok (), { t with banned_ips := t.banned_ips.filter fun r ↦ r.ip ≠ ip })
  | selectUserId uname, t =>
    (.ok ((t.users.rows.find? fun u ↦ u.uname = uname).map (·.user_id)), t)
  | selectBannedUser uid, t => (.ok (t.banned_users.any (·.user_id = uid)), t)
  | updateBannedUser days uid, t => written t (setBannedUser b now t days uid)
  | insertBannedUser uid days, t => written t (addBannedUser b now t uid days)
  | countAdmins, t => (.ok (t.users.rows.countP (·.admin)), t)
  | insertUser uname token admin, t => written t (addUser b t uname token admin)
  | insertChannel name community admin_id anonymous, t =>
    written t (addChannel b t name community admin_id anonymous)
  | selectChannelId name, t =>
    (.ok ((t.channels.rows.find? fun c ↦ c.name = name).map (·.channel_id)), t)
  | insertCommunity name admin pub, t => written t (addCommunity b t name admin pub)
  | selectCommunityId name, t =>
    (.ok ((t.communities.rows.find? fun c ↦ c.name = name).map (·.community_id)), t)
  | selectCommunities, t =>
    (.ok ((Serial.join t.communities.rows t.users (·.admin)).map fun x ↦
      x.1.columns ++ x.2.columns), t)
  -- the rows stand in the order of their keys, so `order by` has nothing to do here and below
  | selectCommunityChannels community_id, t =>
    (.ok ((Serial.join (t.channels.rows.filter fun c ↦ c.community = community_id) t.users
      (·.admin)).map fun x ↦ x.1.columns ++ x.2.columns), t)
  | selectChannelMessages channel_id, t =>
    (.ok ((Serial.join (t.message.rows.filter fun m ↦ m.channel = channel_id) t.users
      (·.user_id)).map fun x ↦ x.1.columns ++ x.2.columns), t)
  | selectChannelName channel_id, t =>
    (.ok ((t.channels.rows.find? fun c ↦ c.channel_id = channel_id).map (·.name)), t)
  | insertMessage user_id channel thread_id thread_child mtext, t =>
    written t (addMessage b now t user_id channel thread_id thread_child mtext)

/-! ### Effects -/

/-- The table that a statement changes when it does not raise. -/
def target : Statement → Option Table
  | insertBannedIp _ _ | deleteBannedIp _ => some .banned_ips
  | updateBannedUser _ _ | insertBannedUser _ _ => some .banned_users
  | insertUser _ _ _ => some .users
  | insertChannel _ _ _ _ => some .channels
  | insertCommunity _ _ _ => some .communities
  | insertMessage _ _ _ _ _ => some .message
  | _ => none

/-- Everything a statement can do to the tables `t`, by its answer. -/
inductive Effect : (q : Statement) → Except Exn q.Result → Tables → Prop where
  | same (q r) (h : q.target = none ∨ ∃ e, r = .error e) : Effect q r t
  | insertBannedIp (ip expire ip') (hip : varchar b 50 ip = .ok ip')
      (hnew : ip' ∉ t.banned_ips.map (·.ip)) :
      Effect (.insertBannedIp ip expire) (.ok ())
        { t with banned_ips := t.banned_ips ++ [⟨ip', expire⟩] }
  | deleteBannedIp (ip) :
      Effect (.deleteBannedIp ip) (.ok ())
        { t with banned_ips := t.banned_ips.filter fun r ↦ r.ip ≠ ip }
  | updateBannedUser (days uid epoch expire) (hepoch : int4 b now = .ok epoch)
      (hexpire : int4 b (epoch + days) = .ok expire) :
      Effect (.updateBannedUser days uid) (.ok ())
        { t with
          banned_users := t.banned_users.map fun r ↦
            if r.user_id = uid then { r with expire := expire } else r }
  | updateNobody (days uid) (h : ∀ r ∈ t.banned_users, r.user_id ≠ uid) :
      Effect (.updateBannedUser days uid) (.ok ()) t
  | insertBannedUser (uid days epoch expire) (hepoch : int4 b now = .ok epoch)
      (hexpire : int4 b (epoch + days) = .ok expire)
      (href : b = .postgres → ∃ u ∈ t.users.rows, u.user_id = uid) :
      Effect (.insertBannedUser uid days) (.ok ())
        { t with banned_users := t.banned_users ++ [⟨uid, expire⟩] }
  | insertUser (uname token admin uname' token') (huname : varchar b 50 uname = .ok uname')
      (htoken : varchar b 50 token = .ok token') (hnew : uname' ∉ t.users.rows.map (·.uname)) :
      Effect (.insertUser uname token admin) (.ok ())
        { t with users := t.users.push ⟨t.users.next, uname', token', admin⟩ rfl }
  | insertChannel (name community admin_id anonymous name')
      (hname : varchar b 100 name = .ok name') (hnew : name' ∉ t.channels.rows.map (·.name))
      (href : b = .postgres → (∃ c ∈ t.communities.rows, c.community_id = community) ∧
        ∃ u ∈ t.users.rows, u.user_id = admin_id) :
      Effect (.insertChannel name community admin_id anonymous) (.ok ())
        { t with
          channels := t.channels.push
            ⟨t.channels.next, name', community, admin_id, anonymous⟩ rfl }
  | insertCommunity (name admin pub name') (hname : varchar b 100 name = .ok name')
      (hnew : name' ∉ t.communities.rows.map (·.name))
      (href : b = .postgres → ∃ u ∈ t.users.rows, u.user_id = admin) :
      Effect (.insertCommunity name admin pub) (.ok ())
        { t with communities := t.communities.push ⟨t.communities.next, name', admin, pub⟩ rfl }
  | insertMessage (user_id channel thread_id thread_child mtext thread_child' mdate)
      (hchild : boolean b thread_child = .ok thread_child') (hdate : int4 b now = .ok mdate)
      (href : b = .postgres → (∃ u ∈ t.users.rows, u.user_id = user_id) ∧
        ∃ c ∈ t.channels.rows, c.channel_id = channel) :
      Effect (.insertMessage user_id channel thread_id thread_child mtext) (.ok ())
        { t with
          message := t.message.push ⟨t.message.next, user_id, channel, thread_id, thread_child',
            false, mtext, mdate⟩ rfl }

theorem ok_bind {α β : Type} (a : α) (f : α → Except Exn β) :
    ((Except.ok a : Except Exn α) >>= f) = f a := rfl

theorem bind_ok {α β : Type} {x : Except Exn α} {f : α → Except Exn β} {y : β}
    (h : (x >>= f) = .ok y) : ∃ a, x = .ok a ∧ f a = .ok y := by
  cases x with
  | error e => exact absurd h (by simp [bind, Except.bind])
  | ok a => exact ⟨a, rfl, h⟩

variable {b now t}

private theorem effect_insertUser {uname token : String} {admin : Bool} {t' : Tables}
    (h : addUser b t uname token admin = .ok t') :
    Effect b now t (.insertUser uname token admin) (.ok ()) t' := by
  obtain ⟨uname', huname, h⟩ := bind_ok h
  obtain ⟨token', htoken, h⟩ := bind_ok h
  by_cases hnew : uname' ∈ t.users.rows.map (·.uname)
  · rw [if_pos hnew] at h
    cases h
  · rw [if_neg hnew] at h
    cases h
    exact .insertUser uname token admin uname' token' huname htoken hnew

private theorem effect_insertBannedIp {ip : String} {expire : ℤ} {t' : Tables}
    (h : addBannedIp b t ip expire = .ok t') :
    Effect b now t (.insertBannedIp ip expire) (.ok ()) t' := by
  obtain ⟨ip', hip, h⟩ := bind_ok h
  by_cases hnew : ip' ∈ t.banned_ips.map (·.ip)
  · rw [if_pos hnew] at h
    cases h
  · rw [if_neg hnew] at h
    cases h
    exact .insertBannedIp ip expire ip' hip hnew

private theorem effect_updateBannedUser {days uid : ℤ} {t' : Tables}
    (h : setBannedUser b now t days uid = .ok t') :
    Effect b now t (.updateBannedUser days uid) (.ok ()) t' := by
  rw [setBannedUser] at h
  by_cases hany : t.banned_users.any (·.user_id = uid)
  · rw [if_pos hany] at h
    obtain ⟨epoch, hepoch, h⟩ := bind_ok h
    obtain ⟨expire, hexpire, h⟩ := bind_ok h
    cases h
    exact .updateBannedUser days uid epoch expire hepoch hexpire
  · rw [if_neg hany] at h
    cases h
    exact .updateNobody days uid (by simpa using hany)

private theorem effect_insertBannedUser {uid days : ℤ} {t' : Tables}
    (h : addBannedUser b now t uid days = .ok t') :
    Effect b now t (.insertBannedUser uid days) (.ok ()) t' := by
  obtain ⟨epoch, hepoch, h⟩ := bind_ok h
  obtain ⟨expire, hexpire, h⟩ := bind_ok h
  by_cases href : b = .postgres ∧ ¬t.users.has uid
  · rw [if_pos href] at h
    cases h
  · rw [if_neg href] at h
    cases h
    refine .insertBannedUser uid days epoch expire hepoch hexpire fun hb ↦ ?_
    rw [not_and_not_right] at href
    exact Serial.has_iff.mp (href hb)

private theorem effect_insertChannel {name : String} {community admin_id : ℤ} {anonymous : Bool}
    {t' : Tables} (h : addChannel b t name community admin_id anonymous = .ok t') :
    Effect b now t (.insertChannel name community admin_id anonymous) (.ok ()) t' := by
  obtain ⟨name', hname, h⟩ := bind_ok h
  by_cases hnew : name' ∈ t.channels.rows.map (·.name)
  · rw [if_pos hnew] at h
    cases h
  rw [if_neg hnew] at h
  by_cases href : b = .postgres ∧ ¬(t.communities.has community ∧ t.users.has admin_id)
  · rw [if_pos href] at h
    cases h
  · rw [if_neg href] at h
    cases h
    refine .insertChannel name community admin_id anonymous name' hname hnew fun hb ↦ ?_
    rw [not_and_not_right] at href
    exact ⟨Serial.has_iff.mp (href hb).1, Serial.has_iff.mp (href hb).2⟩

private theorem effect_insertCommunity {name : String} {admin : ℤ} {pub : Bool} {t' : Tables}
    (h : addCommunity b t name admin pub = .ok t') :
    Effect b now t (.insertCommunity name admin pub) (.ok ()) t' := by
  obtain ⟨name', hname, h⟩ := bind_ok h
  by_cases hnew : name' ∈ t.communities.rows.map (·.name)
  · rw [if_pos hnew] at h
    cases h
  rw [if_neg hnew] at h
  by_cases href : b = .postgres ∧ ¬t.users.has admin
  · rw [if_pos href] at h
    cases h
  · rw [if_neg href] at h
    cases h
    refine .insertCommunity name admin pub name' hname hnew fun hb ↦ ?_
    rw [not_and_not_right] at href
    exact Serial.has_iff.mp (href hb)

private theorem effect_insertMessage {user_id channel thread_id thread_child : ℤ}
    {mtext : String} {t' : Tables}
    (h : addMessage b now t user_id channel thread_id thread_child mtext = .ok t') :
    Effect b now t (.insertMessage user_id channel thread_id thread_child mtext) (.ok ()) t' := by
  obtain ⟨child, hchild, h⟩ := bind_ok h
  obtain ⟨mdate, hdate, h⟩ := bind_ok h
  by_cases href : b = .postgres ∧ ¬(t.users.has user_id ∧ t.channels.has channel)
  · rw [if_pos href] at h
    cases h
  · rw [if_neg href] at h
    cases h
    refine .insertMessage user_id channel thread_id thread_child mtext child mdate hchild hdate
      fun hb ↦ ?_
    rw [not_and_not_right] at href
    exact ⟨Serial.has_iff.mp (href hb).1, Serial.has_iff.mp (href hb).2⟩

variable (b now t)

theorem written_cases {P : Except Exn Unit → Tables → Prop} {x : Except Exn Tables}
    (herror : ∀ e, P (.error e) t) (hok : ∀ t', x = .ok t' → P (.ok ()) t') :
    P (written t x).1 (written t x).2 := by
  cases x with
  | error e => exact herror e
  | ok t' => exact hok t' rfl

/-- **The effect of a statement.** -/
theorem exec_effect (q : Statement) :
    Effect b now t q (q.exec b now t).1 (q.exec b now t).2 := by
  have hfails : ∀ (q : Statement) (e : Exn), Effect b now t q (.error e) t :=
    fun q e ↦ .same _ _ (.inr ⟨e, rfl⟩)
  cases q with
  | insertBannedIp ip expire =>
    exact written_cases t (P := Effect b now t (.insertBannedIp _ _)) (hfails _)
      fun _ h ↦ effect_insertBannedIp h
  | updateBannedUser days uid =>
    exact written_cases t (P := Effect b now t (.updateBannedUser _ _)) (hfails _)
      fun _ h ↦ effect_updateBannedUser h
  | insertBannedUser uid days =>
    exact written_cases t (P := Effect b now t (.insertBannedUser _ _)) (hfails _)
      fun _ h ↦ effect_insertBannedUser h
  | insertUser uname token admin =>
    exact written_cases t (P := Effect b now t (.insertUser _ _ _)) (hfails _)
      fun _ h ↦ effect_insertUser h
  | insertChannel name community admin_id anonymous =>
    exact written_cases t (P := Effect b now t (.insertChannel _ _ _ _)) (hfails _)
      fun _ h ↦ effect_insertChannel h
  | insertCommunity name admin pub =>
    exact written_cases t (P := Effect b now t (.insertCommunity _ _ _)) (hfails _)
      fun _ h ↦ effect_insertCommunity h
  | insertMessage user_id channel thread_id thread_child mtext =>
    exact written_cases t (P := Effect b now t (.insertMessage _ _ _ _ _)) (hfails _)
      fun _ h ↦ effect_insertMessage h
  | deleteBannedIp ip => exact .deleteBannedIp ip
  | deleteBan uname => exact hfails _ _
  | _ => exact .same _ _ (.inl rfl)

variable {b now t}

theorem Effect.valid {q : Statement} {r : Except Exn q.Result} {t' : Tables}
    (h : Effect b now t q r t') (ht : t.Valid b) : t'.Valid b := by
  cases h with
  | same _ _ _ => exact ht
  | insertBannedIp ip expire ip' _ hnew =>
    -- no foreign key starts or ends at `banned_ips`
    exact { ht with
      banned_ips_ip := nodup_map_append_singleton ht.banned_ips_ip hnew
      references := fun hb ↦
        let r := ht.references hb
        ⟨r.banned_user, r.community_admin, r.channel_community, r.channel_admin, r.message_user,
          r.message_channel⟩ }
  | deleteBannedIp ip =>
    exact { ht with
      banned_ips_ip := ht.banned_ips_ip.sublist (List.filter_sublist.map _)
      references := fun hb ↦
        let r := ht.references hb
        ⟨r.banned_user, r.community_admin, r.channel_community, r.channel_admin, r.message_user,
          r.message_channel⟩ }
  | updateBannedUser days uid epoch expire _ _ =>
    refine { ht with references := fun hb ↦ (ht.references hb).set_banned_users fun r hr ↦ ?_ }
    -- the update leaves the ids of the rows as they are
    obtain ⟨r₀, hr₀, rfl⟩ := List.mem_map.mp hr
    obtain ⟨u, hu, hur⟩ := (ht.references hb).banned_user r₀ hr₀
    refine ⟨u, hu, ?_⟩
    rw [hur]
    split <;> rfl
  | updateNobody _ _ _ => exact ht
  | insertBannedUser uid days epoch expire _ _ href =>
    refine { ht with references := fun hb ↦ (ht.references hb).set_banned_users fun r hr ↦ ?_ }
    rcases List.mem_append.mp hr with hr | hr
    · exact (ht.references hb).banned_user r hr
    · rw [List.mem_singleton.mp hr]
      exact href hb
  | insertUser uname token admin uname' token' _ _ hnew =>
    exact { ht with
      users_uname := nodup_map_append_singleton ht.users_uname hnew
      references := fun hb ↦ (ht.references hb).push_user rfl }
  | insertChannel name community admin_id anonymous name' _ hnew href =>
    exact { ht with
      channels_name := nodup_map_append_singleton ht.channels_name hnew
      references := fun hb ↦ (ht.references hb).push_channel rfl (href hb).1 (href hb).2 }
  | insertCommunity name admin pub name' _ hnew href =>
    exact { ht with
      communities_name := nodup_map_append_singleton ht.communities_name hnew
      references := fun hb ↦ (ht.references hb).push_community rfl (href hb) }
  | insertMessage user_id channel thread_id thread_child mtext child mdate _ _ href =>
    exact { ht with
      references := fun hb ↦ (ht.references hb).push_message rfl (href hb).1 (href hb).2 }

/-- No statement removes or changes a user, a community, a channel or a message. -/
theorem Effect.grows {q : Statement} {r : Except Exn q.Result} {t' : Tables}
    (h : Effect b now t q r t') : t.Grows t' := by
  have happ : ∀ {α : Type} (l l' : List α), l <+: l ++ l' := List.prefix_append
  cases h with
  | same _ _ _ => exact Tables.Grows.refl t
  | updateNobody _ _ _ => exact Tables.Grows.refl t
  | insertUser _ _ _ _ _ _ _ _ => exact { Tables.Grows.refl t with users := happ _ _ }
  | insertChannel _ _ _ _ _ _ _ _ => exact { Tables.Grows.refl t with channels := happ _ _ }
  | insertCommunity _ _ _ _ _ _ _ => exact { Tables.Grows.refl t with communities := happ _ _ }
  | insertMessage _ _ _ _ _ _ _ _ _ _ => exact { Tables.Grows.refl t with message := happ _ _ }
  | _ => exact ⟨List.prefix_refl _, List.prefix_refl _, List.prefix_refl _, List.prefix_refl _⟩

/-- **Frame.** A statement leaves the rows of every other table alone. -/
theorem Effect.frame {q : Statement} {r : Except Exn q.Result} {t' : Tables}
    (h : Effect b now t q r t') (T : Table) (hT : q.target ≠ some T) : t'.rows T = t.rows T := by
  cases h with
  | same _ _ _ => rfl
  | updateNobody _ _ _ => rfl
  | _ => cases T <;> first | rfl | exact absurd rfl hT

end Statement

/-- Run a statement on a database, which stays one. -/
def Database.exec {b : Backend} (d : Database b) (now : ℤ) (q : Statement) :
    Except Exn q.Result × Database b :=
  ((q.exec b now d.toTables).1,
    ⟨(q.exec b now d.toTables).2, (Statement.exec_effect b now d.toTables q).valid d.valid⟩)

theorem Database.exec_effect {b : Backend} (d : Database b) (now : ℤ) (q : Statement) :
    Statement.Effect b now d.toTables q (d.exec now q).1 (d.exec now q).2.toTables :=
  Statement.exec_effect b now d.toTables q

end Wrongthink
