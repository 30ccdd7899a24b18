import Wrongthink.Relational.Serial

/-!
# The tables

The schema of `DBPostgres::validate` and of its SQLite override, which differ in what the engine
enforces and not in the columns. Postgres checks the length of a `varchar`, the text of a
`boolean`, the range of an `int` and every `references` clause; SQLite keeps whatever it is given
and ignores `references`, since nothing switches `PRAGMA foreign_keys` on. Both enforce `unique`
and `not null`.

The table `control_message` is created and dropped but no query mentions it, and the columns
`entry_id` of the two ban tables are never read; they have no counterpart here.

## Constraints as fields

`Tables` is the plain data, and what the queries run on. `Database b` is the same data together
with the constraints that backend `b` enforces, so a database whose names repeat, or a Postgres
database with a dangling reference, cannot be written down.
-/

namespace Wrongthink

open Relational

/-- The engine behind the `soci::session`. -/
inductive Backend where
  | postgres
  | sqlite
  deriving DecidableEq

/-- What a database call can raise. The first seven come from the engine, under the names of their
`SQLSTATE` class. -/
inductive Exn where
  | uniqueViolation
  | foreignKeyViolation
  | stringDataRightTruncation
  | invalidTextRepresentation
  | numericValueOutOfRange
  | undefinedColumn
  | connectionFailure
  /-- `soci_error("user not found")`, thrown by `banUser`. -/
  | userNotFound
  /-- `std::bad_cast`, from `row::get` at another type. -/
  | badCast
  /-- `std::out_of_range`, from `row::get` at a missing column. -/
  | outOfRange
  deriving DecidableEq

/-! ## Rows -/

structure UserRow where
  user_id : ℤ
  uname : String
  token : String
  admin : Bool
  deriving DecidableEq

structure BannedUserRow where
  user_id : ℤ
  expire : ℤ
  deriving DecidableEq

structure BannedIpRow where
  ip : String
  expire : ℤ
  deriving DecidableEq

structure CommunityRow where
  community_id : ℤ
  name : String
  admin : ℤ
  pub : Bool
  deriving DecidableEq

structure ChannelRow where
  channel_id : ℤ
  name : String
  community : ℤ
  admin : ℤ
  allow_anon : Bool
  deriving DecidableEq

/-- `thread_child` is declared `boolean` and bound as a C++ `int`. -/
structure MessageRow where
  msg_id : ℤ
  user_id : ℤ
  channel : ℤ
  thread_id : ℤ
  thread_child : ℤ
  edited : Bool
  mtext : String
  mdate : ℤ
  deriving DecidableEq

/-! ## The database -/

structure Tables where
  users : Serial UserRow UserRow.user_id
  banned_users : List BannedUserRow
  banned_ips : List BannedIpRow
  communities : Serial CommunityRow CommunityRow.community_id
  channels : Serial ChannelRow ChannelRow.channel_id
  message : Serial MessageRow MessageRow.msg_id

inductive Table where
  | users
  | banned_users
  | banned_ips
  | communities
  | channels
  | message
  deriving DecidableEq

abbrev Table.Row : Table → Type
  | users => UserRow
  | banned_users => BannedUserRow
  | banned_ips => BannedIpRow
  | communities => CommunityRow
  | channels => ChannelRow
  | message => MessageRow

/-- `DBPostgres::clear`: after the drops there are no tables. -/
def clear (_ : Option Tables) : Option Tables := none

/-- `DBPostgres::validate` and `SQLiteDB::validate`: create the tables if they do not exist. -/
def validate : Option Tables → Tables
  | some t => t
  | none => ⟨.empty, [], [], .empty, .empty, .empty⟩

namespace Tables

/-- The rows of one table. -/
abbrev rows (t : Tables) : (T : Table) → List T.Row
  | .users => t.users.rows
  | .banned_users => t.banned_users
  | .banned_ips => t.banned_ips
  | .communities => t.communities.rows
  | .channels => t.channels.rows
  | .message => t.message.rows

/-- The `references` clauses of the schema. -/
structure References (t : Tables) : Prop where
  banned_user : ∀ r ∈ t.banned_users, ∃ u ∈ t.users.rows, u.user_id = r.user_id
  community_admin : ∀ r ∈ t.communities.rows, ∃ u ∈ t.users.rows, u.user_id = r.admin
  channel_community :
    ∀ r ∈ t.channels.rows, ∃ c ∈ t.communities.rows, c.community_id = r.community
  channel_admin : ∀ r ∈ t.channels.rows, ∃ u ∈ t.users.rows, u.user_id = r.admin
  message_user : ∀ r ∈ t.message.rows, ∃ u ∈ t.users.rows, u.user_id = r.user_id
  message_channel : ∀ r ∈ t.message.rows, ∃ c ∈ t.channels.rows, c.channel_id = r.channel

/-- Everything the engine enforces on stored rows. -/
structure Valid (b : Backend) (t : Tables) : Prop where
  users_uname : (t.users.rows.map (·.uname)).Nodup
  banned_ips_ip : (t.banned_ips.map (·.ip)).Nodup
  communities_name : (t.communities.rows.map (·.name)).Nodup
  channels_name : (t.channels.rows.map (·.name)).Nodup
  references : b = .postgres → t.References

theorem valid_validate_clear (b : Backend) (t : Option Tables) : (validate (clear t)).Valid b := by
  constructor <;> try exact List.nodup_nil
  intro _
  constructor <;> simp [validate, clear]

/-- No row of these four tables is ever removed or changed. -/
structure Grows (t t' : Tables) : Prop where
  users : t.users.rows <+: t'.users.rows
  communities : t.communities.rows <+: t'.communities.rows
  channels : t.channels.rows <+: t'.channels.rows
  message : t.message.rows <+: t'.message.rows

theorem Grows.refl (t : Tables) : t.Grows t :=
  ⟨List.prefix_refl _, List.prefix_refl _, List.prefix_refl _, List.prefix_refl _⟩

theorem Grows.trans {t₁ t₂ t₃ : Tables} (h : t₁.Grows t₂) (h' : t₂.Grows t₃) : t₁.Grows t₃ :=
  ⟨h.users.trans h'.users, h.communities.trans h'.communities, h.channels.trans h'.channels,
    h.message.trans h'.message⟩

/-- Sequence values that are drawn and not used. -/
structure Gaps where
  users : ℕ
  communities : ℕ
  channels : ℕ
  message : ℕ

def skip (g : Gaps) (t : Tables) : Tables :=
  { t with
    users := t.users.skip g.users
    communities := t.communities.skip g.communities
    channels := t.channels.skip g.channels
    message := t.message.skip g.message }

instance : Add Gaps := ⟨fun g g' ↦
  ⟨g.users + g'.users, g.communities + g'.communities, g.channels + g'.channels,
    g.message + g'.message⟩⟩

theorem skip_skip (t : Tables) (g g' : Gaps) : (t.skip g).skip g' = t.skip (g + g') := by
  simp only [skip, Serial.skip_skip]
  rfl

theorem Valid.skip {b : Backend} {t : Tables} (h : t.Valid b) (g : Gaps) : (t.skip g).Valid b :=
  ⟨h.users_uname, h.banned_ips_ip, h.communities_name, h.channels_name, fun hb ↦
    let r := h.references hb
    ⟨r.banned_user, r.community_admin, r.channel_community, r.channel_admin, r.message_user,
      r.message_channel⟩⟩

theorem grows_skip (t : Tables) (g : Gaps) : t.Grows (t.skip g) :=
  ⟨List.prefix_refl _, List.prefix_refl _, List.prefix_refl _, List.prefix_refl _⟩

theorem rows_skip (t : Tables) (g : Gaps) (T : Table) : (t.skip g).rows T = t.rows T := by
  cases T <;> rfl

theorem References.push_user {t : Tables} (h : t.References) {u : UserRow}
    (hu : u.user_id = t.users.next) : { t with users := t.users.push u hu }.References := by
  have hmem : ∀ {i : ℤ}, (∃ v ∈ t.users.rows, v.user_id = i) →
      ∃ v ∈ (t.users.push u hu).rows, v.user_id = i := by
    rintro i ⟨v, hv, rfl⟩
    exact ⟨v, by simp [hv], rfl⟩
  exact ⟨fun r hr ↦ hmem (h.banned_user r hr), fun r hr ↦ hmem (h.community_admin r hr),
    h.channel_community, fun r hr ↦ hmem (h.channel_admin r hr),
    fun r hr ↦ hmem (h.message_user r hr), h.message_channel⟩

theorem References.push_community {t : Tables} (h : t.References) {c : CommunityRow}
    (hc : c.community_id = t.communities.next) (hadmin : ∃ u ∈ t.users.rows, u.user_id = c.admin) :
    { t with communities := t.communities.push c hc }.References := by
  refine ⟨h.banned_user, fun r hr ↦ ?_, fun r hr ↦ ?_, h.channel_admin, h.message_user,
    h.message_channel⟩
  · rw [Serial.rows_push, List.mem_append, List.mem_singleton] at hr
    rcases hr with hr | rfl
    · exact h.community_admin r hr
    · exact hadmin
  · obtain ⟨d, hd, hdr⟩ := h.channel_community r hr
    exact ⟨d, by simp [hd], hdr⟩

theorem References.push_channel {t : Tables} (h : t.References) {c : ChannelRow}
    (hc : c.channel_id = t.channels.next)
    (hcommunity : ∃ d ∈ t.communities.rows, d.community_id = c.community)
    (hadmin : ∃ u ∈ t.users.rows, u.user_id = c.admin) :
    { t with channels := t.channels.push c hc }.References := by
  refine ⟨h.banned_user, h.community_admin, fun r hr ↦ ?_, fun r hr ↦ ?_, h.message_user,
    fun r hr ↦ ?_⟩
  · rw [Serial.rows_push, List.mem_append, List.mem_singleton] at hr
    rcases hr with hr | rfl
    · exact h.channel_community r hr
    · exact hcommunity
  · rw [Serial.rows_push, List.mem_append, List.mem_singleton] at hr
    rcases hr with hr | rfl
    · exact h.channel_admin r hr
    · exact hadmin
  · obtain ⟨d, hd, hdr⟩ := h.message_channel r hr
    exact ⟨d, by simp [hd], hdr⟩

theorem References.push_message {t : Tables} (h : t.References) {m : MessageRow}
    (hm : m.msg_id = t.message.next) (huser : ∃ u ∈ t.users.rows, u.user_id = m.user_id)
    (hchannel : ∃ c ∈ t.channels.rows, c.channel_id = m.channel) :
    { t with message := t.message.push m hm }.References := by
  refine ⟨h.banned_user, h.community_admin, h.channel_community, h.channel_admin, fun r hr ↦ ?_,
    fun r hr ↦ ?_⟩
  · rw [Serial.rows_push, List.mem_append, List.mem_singleton] at hr
    rcases hr with hr | rfl
    · exact h.message_user r hr
    · exact huser
  · rw [Serial.rows_push, List.mem_append, List.mem_singleton] at hr
    rcases hr with hr | rfl
    · exact h.message_channel r hr
    · exact hchannel

/-- The ban table may become any list whose users exist. -/
theorem References.set_banned_users {t : Tables} (h : t.References) {l : List BannedUserRow}
    (hl : ∀ r ∈ l, ∃ u ∈ t.users.rows, u.user_id = r.user_id) :
    { t with banned_users := l }.References :=
  ⟨hl, h.community_admin, h.channel_community, h.channel_admin, h.message_user, h.message_channel⟩

end Tables

/-- The tables of backend `b`, with the constraints it enforces. -/
structure Database (b : Backend) extends Tables where
  valid : toTables.Valid b

namespace Database

variable {b : Backend}

/-- A new server: what `validate` leaves after `clear`. -/
def fresh (b : Backend) (t : Option Tables) : Database b :=
  ⟨validate (clear t), Tables.valid_validate_clear b t⟩

def skip (g : Tables.Gaps) (d : Database b) : Database b := ⟨d.toTables.skip g, d.valid.skip g⟩

variable (d : Database b)

theorem eq_of_uname_eq {u v : UserRow} (hu : u ∈ d.users.rows) (hv : v ∈ d.users.rows)
    (h : u.uname = v.uname) : u = v :=
  List.inj_on_of_nodup_map d.valid.users_uname hu hv h

end Database

end Wrongthink
