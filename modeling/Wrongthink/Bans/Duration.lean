import Wrongthink.Relational.Upsert
import Wrongthink.Service.DBPostgres

/-!
# How long a ban lasts

`banUser` turns the days into milliseconds, in an `int`, and adds them to the epoch *seconds* of the
database. The product leaves the range of an `int` from 25 days on, and below that the sum is a
thousand times too far away; on Postgres it usually leaves the range of the column before that. The
only ban that ends when it should is the one of no days (`bansFor_iff`).
-/

namespace Wrongthink

open Concurrent Relational

/-! ## The product -/

/-- The values of a C++ `int`, and of an `int` column. -/
def IsInt (n : ℤ) : Prop := -2 ^ 31 ≤ n ∧ n < 2 ^ 31

instance (n : ℤ) : Decidable (IsInt n) := inferInstanceAs (Decidable (_ ∧ _))

theorem wrap32_of_isInt {n : ℤ} (h : IsInt n) : wrap32 n = n := by
  obtain ⟨hle, hlt⟩ := h
  apply Int.bmod_eq_of_le_mul_two <;> omega

theorem int4_of_isInt (b : Backend) {n : ℤ} (h : IsInt n) : int4 b n = .ok n := by
  cases b with
  | postgres => exact if_pos h
  | sqlite => rfl

namespace DBPostgres

/-- The products in `days * 24 * 60 * 60 * 1000`, from the left. -/
def products (days : ℤ) : List ℤ :=
  [days * 24, days * 24 * 60, days * 24 * 60 * 60, days * 24 * 60 * 60 * 1000]

theorem banLength_of_isInt {days : ℤ} (h : ∀ n ∈ products days, IsInt n) :
    banLength days = 86400000 * days := by
  simp only [products, List.forall_mem_cons] at h
  obtain ⟨h₁, h₂, h₃, h₄, _⟩ := h
  rw [banLength, wrap32_of_isInt h₁, wrap32_of_isInt h₂, wrap32_of_isInt h₃, wrap32_of_isInt h₄]
  omega

/-! ## The statement that is sent -/

/-- The last statement of `banUser`. -/
def storeBan (b : Backend) (now : ℤ) (t : Tables) (uid days : ℤ) : Except Exn Tables :=
  if t.banned_users.any (·.user_id = uid) then Statement.setBannedUser b now t days uid
  else Statement.addBannedUser b now t uid days

variable {b : Backend}

/-- Banning a registered user comes down to that statement. -/
theorem exec_banUser {w : World b} {u : UserRow} (hu : u ∈ w.db.users.rows) (days : ℤ) :
    ∃ w', ((banUser u.uname days).exec Op.exec w).2 = ((Statement.written w.db.toTables
        (storeBan b w.now w.db.toTables u.user_id (banLength days))).1, w') ∧
      w'.db.toTables = (Statement.written w.db.toTables
        (storeBan b w.now w.db.toTables u.user_id (banLength days))).2 := by
  have huid : Op.exec (.sql (.selectUserId u.uname)) w = (.ok (some u.user_id), w) := by
    have hfind : (w.db.users.rows.find? fun v ↦ v.uname = u.uname) = some u :=
      (find?_eq_some_iff w.db.valid.users_uname).mpr ⟨hu, rfl⟩
    have hresult : (w.db.users.rows.find? fun v ↦ v.uname = u.uname).map (·.user_id) =
        some u.user_id := by rw [hfind, Option.map_some]
    exact Prod.ext (congrArg Except.ok hresult) rfl
  have hfound : Op.exec (.sql (.selectBannedUser u.user_id)) w =
    (.ok (w.db.banned_users.any (·.user_id = u.user_id)), w) := rfl
  rw [banUser, Prog.exec_perform_bind_snd (rfl : Op.exec .session w = (.ok (), w))]
  dsimp only
  rw [Prog.exec_perform_bind_snd huid]
  dsimp only
  rw [Prog.exec_perform_bind_snd hfound, storeBan]
  split
  · rw [Prog.exec_perform_snd]
    exact ⟨_, rfl, rfl⟩
  · rw [Prog.exec_perform_snd]
    exact ⟨_, rfl, rfl⟩

/-- `<epoch> + :days`, where `:days` is the product. -/
def expireOf (b : Backend) (now days : ℤ) : Except Exn ℤ := do
  let epoch ← int4 b now
  int4 b (epoch + banLength days)

theorem eq_of_expireOf {now days expire : ℤ} (h : expireOf b now days = .ok expire) :
    expire = now + banLength days := by
  obtain ⟨epoch, hepoch, h⟩ := Statement.bind_ok h
  rw [eq_of_int4 h, eq_of_int4 hepoch]

theorem expireOf_of_isInt {now days : ℤ} (hnow : IsInt now) (hsum : IsInt (now + banLength days)) :
    expireOf b now days = .ok (now + banLength days) := by
  rw [expireOf, int4_of_isInt b hnow, Statement.ok_bind, int4_of_isInt b hsum]

/-- For a registered user, the update and the insert come to the same: the row of the user is
written. -/
theorem storeBan_eq {now uid days : ℤ} {t : Tables} (huid : ∃ u ∈ t.users.rows, u.user_id = uid) :
    storeBan b now t uid (banLength days) = (do
      let expire ← expireOf b now days
      pure { t with banned_users := upsert (·.user_id) t.banned_users ⟨uid, expire⟩ }) := by
  rw [storeBan, expireOf]
  by_cases hany : t.banned_users.any (·.user_id = uid)
  · have hmap : ∀ expire : ℤ, t.banned_users.map (fun r ↦
        if r.user_id = uid then { r with expire := expire } else r) =
        upsert (·.user_id) t.banned_users ⟨uid, expire⟩ := by
      intro expire
      rw [upsert, if_pos hany]
      refine List.map_congr_left fun r _ ↦ ?_
      rw [overwrite]
      split
      · next h => rw [← h]
      · rfl
    rw [if_pos hany, Statement.setBannedUser, if_pos hany]
    simp only [hmap, bind_assoc]
  · have hupsert : ∀ expire : ℤ, t.banned_users ++ [⟨uid, expire⟩] =
        upsert (·.user_id) t.banned_users ⟨uid, expire⟩ := fun expire ↦ (if_neg hany).symm
    have href : ¬(b = .postgres ∧ ¬t.users.has uid) := by
      rw [not_and_not_right]
      exact fun _ ↦ Serial.has_iff.mpr huid
    rw [if_neg hany, Statement.addBannedUser]
    simp only [if_neg href, hupsert, bind_assoc]

theorem exec_banUser_of_expireOf {w : World b} {u : UserRow} {days expire : ℤ}
    (hu : u ∈ w.db.users.rows) (h : expireOf b w.now days = .ok expire) :
    ∃ w', ((banUser u.uname days).exec Op.exec w).2 = (.ok (), w') ∧ w'.db.toTables =
      { w.db.toTables with
        banned_users := upsert (·.user_id) w.db.banned_users ⟨u.user_id, expire⟩ } := by
  obtain ⟨w', hexec, hdb⟩ := exec_banUser hu days
  rw [storeBan_eq ⟨u, hu, rfl⟩, h] at hexec hdb
  exact ⟨w', hexec, hdb⟩

theorem exists_expireOf {w : World b} {u : UserRow} {days : ℤ} (hu : u ∈ w.db.users.rows)
    (h : ((banUser u.uname days).exec Op.exec w).2.1 = .ok ()) :
    ∃ expire, expireOf b w.now days = .ok expire := by
  obtain ⟨w', hexec, _⟩ := exec_banUser hu days
  rw [hexec, storeBan_eq ⟨u, hu, rfl⟩] at h
  rcases hexpire : expireOf b w.now days with e | expire
  · rw [hexpire] at h
    cases h
  · exact ⟨expire, rfl⟩

end DBPostgres

/-! ## Banned for that many days -/

variable {b : Backend}

/-- What a ban of `days` days, imposed on `u` now, should come to. -/
structure BansFor (w : World b) (u : UserRow) (days : ℤ) : Prop where
  succeeds : ((DBPostgres.banUser u.uname days).exec Op.exec w).2.1 = .ok ()
  /-- No product overflows. -/
  inRange : ∀ n ∈ DBPostgres.products days, IsInt n
  banned : ∃ r ∈ ((DBPostgres.banUser u.uname days).exec Op.exec w).2.2.db.banned_users,
    r.user_id = u.user_id
  /-- The ban ends the epoch second `days` days later. -/
  expire : ∀ r ∈ ((DBPostgres.banUser u.uname days).exec Op.exec w).2.2.db.banned_users,
    r.user_id = u.user_id → r.expire = w.now + 86400 * days

/-- **Only a ban of no days ends when it should.** On either backend, at any time, for any
registered user, banned already or not. -/
theorem bansFor_iff {w : World b} {u : UserRow} {days : ℤ} (hu : u ∈ w.db.users.rows)
    (hnow : 0 ≤ w.now) (hdays : 0 ≤ days) (hlt : w.now + 86400 * days < 2 ^ 31) :
    BansFor w u days ↔ days = 0 := by
  constructor
  · intro h
    have hlength : DBPostgres.banLength days = 86400000 * days :=
      DBPostgres.banLength_of_isInt h.inRange
    obtain ⟨hok, _, ⟨r, hr, huid⟩, hexpire⟩ := h
    have hclaimed : r.expire = w.now + 86400 * days := hexpire r hr huid
    -- the length is in milliseconds, and what it is added to in seconds
    have hstored : r.expire = w.now + 86400000 * days := by
      obtain ⟨expire, he⟩ := DBPostgres.exists_expireOf hu hok
      obtain ⟨w', hexec, hdb⟩ := DBPostgres.exec_banUser_of_expireOf hu he
      rw [hexec] at hr
      dsimp only at hr
      rw [hdb] at hr
      rw [eq_of_mem_upsert hr huid, ← hlength]
      exact DBPostgres.eq_of_expireOf he
    omega
  · rintro rfl
    have hinRange : ∀ n ∈ DBPostgres.products 0, IsInt n := by decide
    have hnow' : IsInt w.now := ⟨by omega, by omega⟩
    have hlength : DBPostgres.banLength 0 = 0 := DBPostgres.banLength_of_isInt hinRange
    have hsum : IsInt (w.now + DBPostgres.banLength 0) := by rwa [hlength, Int.add_zero]
    have he := DBPostgres.expireOf_of_isInt (b := b) hnow' hsum
    rw [hlength] at he
    obtain ⟨w', hexec, hdb⟩ := DBPostgres.exec_banUser_of_expireOf hu he
    have hrows : w'.db.banned_users =
        upsert (·.user_id) w.db.banned_users ⟨u.user_id, w.now + 0⟩ := by rw [hdb]
    refine ⟨by rw [hexec], hinRange, ?_, ?_⟩
    · rw [hexec]
      dsimp only
      rw [hrows]
      exact ⟨_, mem_upsert_self _ _ _, rfl⟩
    · rw [hexec]
      dsimp only
      rw [hrows]
      intro r hr huid
      rw [eq_of_mem_upsert hr huid]
      rfl

/-- The server of bob, who registered at epoch second `1000`. -/
private def bobs : World .postgres :=
  ((DBPostgres.createUser "bob" "pw" false).exec Op.exec (World.start .postgres 1000)).2.2

private def bob : UserRow := ⟨1, "bob", "pw", true⟩

theorem bansFor_iff_bob : BansFor bobs bob 1 ↔ (1 : ℤ) = 0 :=
  bansFor_iff (by decide) (by decide) (by decide) (by decide)

/-- A ban of one day, which the code lets end a thousand days later. -/
theorem exists_longBan :
    ¬∀ (w : World .postgres) (u : UserRow) (days : ℤ), u ∈ w.db.users.rows → 0 ≤ w.now →
      0 ≤ days → w.now + 86400 * days < 2 ^ 31 → BansFor w u days := by
  intro h
  have hban := h bobs bob 1 (by decide) (by decide) (by decide) (by decide)
  have hexpire : ∀ r ∈ ((DBPostgres.banUser "bob" 1).exec Op.exec bobs).2.2.db.banned_users,
      r.expire = 86401000 := by decide
  obtain ⟨r, hr, huid⟩ := hban.banned
  have hclaimed := hban.expire r hr huid
  rw [hexpire r hr] at hclaimed
  exact absurd hclaimed (by decide)

end Wrongthink
