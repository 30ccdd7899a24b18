import Wrongthink.Bans.Duration

/-!
# The table of the last bans

Bans that are imposed one after the other, each at its own time, on a table that was empty. Whether
a user was banned before decides between the two statements of `banUser`, and the engine between
their two dialects; what is stored does not depend on either. So the table is the result of writing
one row after the other over the row of the same user (`tables_after`), and that is the map of
the last bans (`last_bans`).

The values must fit their column. Whether they are the ones that were meant is another matter
(`Bans.Duration`).
-/

namespace Wrongthink

open Concurrent Relational

variable {b : Backend}

/-- A call of `banUser`, and when it is made. -/
structure BanCall where
  time : ℤ
  uname : String
  days : ℤ

namespace BanCall

/-- The call is made, with nobody else running and nothing failing. -/
def run (c : BanCall) (w : World b) : Except Exn Unit × World b :=
  ((DBPostgres.banUser c.uname c.days).exec Op.exec { w with now := c.time }).2

def expire (b : Backend) (c : BanCall) : Except Exn ℤ := DBPostgres.expireOf b c.time c.days

/-- The row that the call writes for `u`. -/
def row (c : BanCall) (u : UserRow) : BannedUserRow :=
  ⟨u.user_id, c.time + DBPostgres.banLength c.days⟩

/-- The row that the call writes, if it names a registered user. -/
def rowOf (users : List UserRow) (c : BanCall) : Option BannedUserRow :=
  (users.find? fun u ↦ u.uname = c.uname).map c.row

/-- What the calls leave behind. -/
def after (w : World b) (calls : List BanCall) : World b := calls.foldl (fun v c ↦ (c.run v).2) w

/-- The last call that names this user. -/
def last (calls : List BanCall) (uname : String) : Option BanCall :=
  (calls.filter fun c ↦ c.uname = uname).getLast?

theorem after_concat (w : World b) (calls : List BanCall) (c : BanCall) :
    after w (calls ++ [c]) = (c.run (after w calls)).2 := by
  rw [after, List.foldl_append]
  rfl

variable {w : World b} {c : BanCall} {u : UserRow}

theorem run_of_unregistered (h : ∀ u ∈ w.db.users.rows, u.uname ≠ c.uname) :
    (c.run w).1 = .error .userNotFound ∧ (c.run w).2.db = w.db := by
  have huid : Op.exec (.sql (.selectUserId c.uname)) { w with now := c.time } =
      (.ok none, { w with now := c.time }) := by
    have hfind : (w.db.users.rows.find? fun u ↦ u.uname = c.uname) = none := by
      simpa [List.find?_eq_none] using h
    have hresult : (w.db.users.rows.find? fun u ↦ u.uname = c.uname).map (·.user_id) = none := by
      rw [hfind, Option.map_none]
    exact Prod.ext (congrArg Except.ok hresult) rfl
  rw [run, DBPostgres.banUser,
    Prog.exec_perform_bind_snd (rfl : Op.exec .session { w with now := c.time } = (.ok (), _))]
  dsimp only
  rw [Prog.exec_perform_bind_snd huid]
  exact ⟨rfl, rfl⟩

theorem run_of_registered (hu : u ∈ w.db.users.rows) (hname : u.uname = c.uname)
    (hfits : ∃ e, c.expire b = .ok e) :
    (c.run w).1 = .ok () ∧ (c.run w).2.db.toTables =
      { w.db.toTables with
        banned_users := upsert (·.user_id) w.db.banned_users (c.row u) } := by
  obtain ⟨e, he⟩ := hfits
  obtain ⟨w', hexec, hdb⟩ :=
    DBPostgres.exec_banUser_of_expireOf (w := { w with now := c.time }) hu he
  rw [run, ← hname, hexec, row, ← DBPostgres.eq_of_expireOf he]
  exact ⟨rfl, hdb⟩

theorem run_tables (hfits : ∃ e, c.expire b = .ok e) :
    (c.run w).2.db.users = w.db.users ∧ (c.run w).2.db.banned_users =
      (c.rowOf w.db.users.rows).toList.foldl (upsert (·.user_id)) w.db.banned_users := by
  rcases hfind : w.db.users.rows.find? fun u ↦ u.uname = c.uname with _ | u
  · have hnone : ∀ u ∈ w.db.users.rows, u.uname ≠ c.uname := by
      simpa [List.find?_eq_none] using hfind
    rw [(run_of_unregistered hnone).2, rowOf, hfind]
    exact ⟨rfl, rfl⟩
  · obtain ⟨hu, hname⟩ := (find?_eq_some_iff w.db.valid.users_uname).mp hfind
    have hdb := (run_of_registered hu hname hfits).2
    rw [hdb, rowOf, hfind]
    exact ⟨rfl, rfl⟩

/-- **The ban table.** It is the rows of the calls, each written over the one before it. -/
theorem tables_after {calls : List BanCall} (hempty : w.db.banned_users = [])
    (hfits : ∀ c ∈ calls, ∃ e, c.expire b = .ok e) :
    (after w calls).db.users = w.db.users ∧ (after w calls).db.banned_users =
      upserts (·.user_id) (calls.filterMap (rowOf w.db.users.rows)) := by
  induction calls using List.reverseRecOn with
  | nil => exact ⟨rfl, hempty⟩
  | append_singleton calls c ih =>
    rw [List.forall_mem_append] at hfits
    obtain ⟨husers, hbans⟩ := ih hfits.1
    obtain ⟨husers', hbans'⟩ := run_tables (w := after w calls) (hfits.2 c List.mem_cons_self)
    have hlast : [c].filterMap (rowOf w.db.users.rows) = (c.rowOf w.db.users.rows).toList := by
      rcases h : c.rowOf w.db.users.rows with _ | r
      · rw [List.filterMap_cons_none h]
        rfl
      · rw [List.filterMap_cons_some h]
        rfl
    rw [after_concat, husers', husers, hbans', hbans, husers, List.filterMap_append, hlast, upserts,
      upserts, List.foldl_append]
    exact ⟨rfl, rfl⟩

theorem filter_rows {users : List UserRow} (hnames : (users.map (·.uname)).Nodup)
    (hids : (users.map (·.user_id)).Nodup) (hu : u ∈ users) (calls : List BanCall) :
    ((calls.filterMap (rowOf users)).filter fun r ↦ r.user_id = u.user_id) =
      (calls.filter fun c ↦ c.uname = u.uname).map (·.row u) := by
  induction calls with
  | nil => rfl
  | cons c calls ih =>
    by_cases hname : c.uname = u.uname
    · have hrow : rowOf users c = some (c.row u) := by
        have hfind : (users.find? fun v ↦ v.uname = c.uname) = some u :=
          (find?_eq_some_iff hnames).mpr ⟨hu, hname.symm⟩
        rw [rowOf, hfind, Option.map_some]
      rw [List.filterMap_cons_some hrow, List.filter_cons_of_pos (by simp [row]), ih,
        List.filter_cons_of_pos (by simpa using hname), List.map_cons]
    · rw [List.filter_cons_of_neg (by simpa using hname), ← ih]
      rcases hrow : rowOf users c with _ | r
      · rw [List.filterMap_cons_none hrow]
      · obtain ⟨v, hfind, rfl⟩ := Option.map_eq_some_iff.mp hrow
        obtain ⟨hv, hvname⟩ := (find?_eq_some_iff hnames).mp hfind
        -- ids are unique, so the call writes another id
        have hne : (c.row v).user_id ≠ u.user_id := fun hid ↦
          hname (hvname.symm.trans (congrArg _ (List.inj_on_of_nodup_map hids hv hu hid)))
        rw [List.filterMap_cons_some hrow, List.filter_cons_of_neg (by simpa using hne)]

/-- Of each registered user the table holds the row of the last call that names him, if there is
one. -/
theorem filter_banned_users_after {calls : List BanCall} (hempty : w.db.banned_users = [])
    (hfits : ∀ c ∈ calls, ∃ e, c.expire b = .ok e) (hu : u ∈ w.db.users.rows) :
    ((after w calls).db.banned_users.filter fun r ↦ r.user_id = u.user_id) =
      ((last calls u.uname).map (·.row u)).toList := by
  rw [(tables_after hempty hfits).2, filter_upserts,
    filter_rows w.db.valid.users_uname w.db.users.nodup_keys hu, last, List.getLast?_map]

end BanCall

open BanCall (after last)

/-! ## The map of the last bans -/

/-- The calls, made one after the other on `w`, leave the map of the last bans. -/
structure LeavesLastBans (w : World b) (calls : List BanCall) : Prop where
  /-- A registered user whom a call names has one row, with the value of the last of these calls. -/
  banned : ∀ u ∈ w.db.users.rows, ∀ c, last calls u.uname = some c → ∃ e, c.expire b = .ok e ∧
    ((after w calls).db.banned_users.filter fun r ↦ r.user_id = u.user_id) = [⟨u.user_id, e⟩]
  /-- Nobody else has a row. -/
  nobodyElse : ∀ r ∈ (after w calls).db.banned_users, ∃ u ∈ w.db.users.rows,
    u.user_id = r.user_id ∧ ∃ c ∈ calls, c.uname = u.uname
  /-- A call that names nobody registered raises, and leaves everything as it was. -/
  unregistered : ∀ calls₁ c calls₂, calls = calls₁ ++ c :: calls₂ →
    (∀ u ∈ w.db.users.rows, u.uname ≠ c.uname) →
      (c.run (after w calls₁)).1 = .error .userNotFound ∧
        (c.run (after w calls₁)).2.db = (after w calls₁).db
  /-- A call that names somebody stores its value, in the same way whether he has a row already, and
  the same value on both engines. -/
  registered : ∀ calls₁ c calls₂, calls = calls₁ ++ c :: calls₂ → ∀ u ∈ w.db.users.rows,
    u.uname = c.uname → (c.run (after w calls₁)).1 = .ok () ∧
      (c.run (after w calls₁)).2.db.banned_users =
        upsert (·.user_id) (after w calls₁).db.banned_users
          ⟨u.user_id, c.time + DBPostgres.banLength c.days⟩

/-- **The ban table is the map of the last bans.** -/
theorem last_bans {w : World b} {calls : List BanCall} (hempty : w.db.banned_users = [])
    (hfits : ∀ c ∈ calls, ∃ e, c.expire b = .ok e) : LeavesLastBans w calls := by
  have husers : ∀ calls₁ c calls₂, calls = calls₁ ++ c :: calls₂ →
      (after w calls₁).db.users = w.db.users := by
    rintro calls₁ c calls₂ rfl
    exact (BanCall.tables_after hempty (List.forall_mem_append.mp hfits).1).1
  constructor
  case banned =>
    intro u hu c hc
    have hmem : c ∈ calls := (List.mem_filter.mp (List.mem_of_getLast? hc)).1
    obtain ⟨e, he⟩ := hfits c hmem
    refine ⟨e, he, ?_⟩
    rw [BanCall.filter_banned_users_after hempty hfits hu, hc, DBPostgres.eq_of_expireOf he]
    rfl
  case nobodyElse =>
    intro r hr
    rw [(BanCall.tables_after hempty hfits).2] at hr
    obtain ⟨c, hc, hrow⟩ := List.mem_filterMap.mp (mem_of_mem_upserts hr)
    obtain ⟨u, hfind, rfl⟩ := Option.map_eq_some_iff.mp hrow
    obtain ⟨hu, hname⟩ := (find?_eq_some_iff w.db.valid.users_uname).mp hfind
    exact ⟨u, hu, rfl, c, hc, hname.symm⟩
  case unregistered =>
    intro calls₁ c calls₂ h hnone
    exact BanCall.run_of_unregistered (by rwa [husers calls₁ c calls₂ h])
  case registered =>
    intro calls₁ c calls₂ h u hu hname
    have hc : c ∈ calls := by rw [h]; exact List.mem_append_right _ List.mem_cons_self
    obtain ⟨hok, hdb⟩ := BanCall.run_of_registered (w := after w calls₁)
      (by rwa [husers calls₁ c calls₂ h]) hname (hfits c hc)
    rw [hdb]
    exact ⟨hok, rfl⟩

/-- The server of two registered users, nobody banned. -/
private def twoUsers : World .postgres :=
  ((do
      let _ ← DBPostgres.createUser "ann" "pw" false
      DBPostgres.createUser "bob" "pw" false).exec Op.exec (World.start .postgres 1000)).2.2

/-- Bob is banned twice, ann once in between, and somebody whom nobody knows. -/
theorem last_bans_bob :
    LeavesLastBans twoUsers
      [⟨1000, "bob", 1⟩, ⟨1010, "ann", 2⟩, ⟨1020, "eve", 1⟩, ⟨1030, "bob", 3⟩] :=
  last_bans rfl (by
    simp only [List.forall_mem_cons]
    exact ⟨⟨86401000, rfl⟩, ⟨172801010, rfl⟩, ⟨86401020, rfl⟩, ⟨259201030, rfl⟩, by simp⟩)

end Wrongthink
