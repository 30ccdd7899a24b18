import Wrongthink.Bans.Enforcement

/-!
# Looking a ban up

`isUserBanned` reads the ban of a user, and does one of three things. Without a ban it says no. With
one that has expired it should remove it and say no; but its `delete` asks for a column that the
table does not have, and it raises. With one that has not it says yes, and sees to it that the peer
is in `banned_ips`; but a peer whose text does not fit its column is refused there, or cut.

So a lookup does what it should if the ban it reads, if there is one, has not expired and the peer
is recorded already or can be recorded as it is, and not otherwise (`looksUp_iff`).
-/

namespace Wrongthink

open Concurrent

variable {b : Backend}

/-! ## The rows of a user -/

namespace World

variable {w : World b} {uname ip : String} {te : ℤ}

/-- A user of this name has a row in `banned_users`. -/
def HasBan (w : World b) (uname : String) : Prop :=
  ∃ u ∈ w.db.users.rows, u.uname = uname ∧ ∃ r ∈ w.db.banned_users, r.user_id = u.user_id

theorem UserBanned.hasBan (h : w.UserBanned uname) : w.HasBan uname := by
  obtain ⟨u, hu, hname, r, hr, hid, _⟩ := h
  exact ⟨u, hu, hname, r, hr, hid⟩

theorem not_hasBan_of_ban (h : w.ban uname = none) : ¬w.HasBan uname := by
  rintro ⟨u, hu, hname, r, hr, hid⟩
  rw [ban, Option.map_eq_none_iff, List.find?_eq_none] at h
  exact h (r, u) (Relational.Serial.mem_join.mpr ⟨hr, hu, hid.symm⟩) (decide_eq_true hname)

theorem userBanned_of_ban (h : w.ban uname = some te) (hle : w.now ≤ te) : w.UserBanned uname := by
  obtain ⟨u, hu, hname, hr⟩ := exists_of_ban h
  exact ⟨u, hu, hname, _, hr, rfl, hle⟩

/-- A row of nobody called `uname`. -/
def OfOther (w : World b) (uname : String) (r : BannedUserRow) : Prop :=
  ∀ u ∈ w.db.users.rows, u.uname = uname → r.user_id ≠ u.user_id

instance (w : World b) (uname : String) : DecidablePred (w.OfOther uname) :=
  fun _ ↦ inferInstanceAs (Decidable (∀ u ∈ _, _ → _))

end World

/-! ## What a lookup should do -/

/-- What `isUserBanned` comes to, alone and at one moment. -/
def lookup (w : World b) (uname ip : String) : Except Exn Bool × World b :=
  ((DBPostgres.isUserBanned uname ip).exec Op.exec w).2

structure LooksUp (w : World b) (uname ip : String) : Prop where
  answers : ∃ banned, (lookup w uname ip).1 = .ok banned
  /-- The peer of a banned user is recorded, by the entry it had or with the end of the ban. -/
  active : w.UserBanned uname → (lookup w uname ip).1 = .ok true ∧
    ∃ r ∈ (lookup w uname ip).2.db.banned_ips, r.ip = ip ∧ w.now ≤ r.expire ∧
      (r ∈ w.db.banned_ips ∨ w.ban uname = some r.expire)
  /-- An expired ban is removed. -/
  expired : w.HasBan uname → ¬w.UserBanned uname →
    (lookup w uname ip).1 = .ok false ∧ ¬(lookup w uname ip).2.HasBan uname
  unbanned : ¬w.HasBan uname → lookup w uname ip = (.ok false, w)
  users : (lookup w uname ip).2.db.users = w.db.users
  otherUsers : (lookup w uname ip).2.db.banned_users.filter (w.OfOther uname ·) =
    w.db.banned_users.filter (w.OfOther uname ·)
  otherPeers : (lookup w uname ip).2.db.banned_ips.filter (·.ip ≠ ip) =
    w.db.banned_ips.filter (·.ip ≠ ip)

variable {w : World b} {uname ip : String} {te : ℤ}

theorem looksUp_of_none (h : w.ban uname = none) : LooksUp w uname ip := by
  have hlookup : lookup w uname ip = (.ok false, w) :=
    DBPostgres.exec_isUserBanned_of_none h ip
  have hnone : ¬w.HasBan uname := World.not_hasBan_of_ban h
  exact {
    answers := ⟨false, by rw [hlookup]⟩
    active := fun hactive ↦ absurd hactive.hasBan hnone
    expired := fun hban ↦ absurd hban hnone
    unbanned := fun _ ↦ hlookup
    users := by rw [hlookup]
    otherUsers := by rw [hlookup]
    otherPeers := by rw [hlookup] }

theorem looksUp_of_ipBanned (h : w.ban uname = some te) (hle : w.now ≤ te) (hip : w.IPBanned ip) :
    LooksUp w uname ip := by
  have hlookup : lookup w uname ip = (.ok true, w) :=
    DBPostgres.exec_isUserBanned_of_ipBanned h hle hip
  have hactive : w.UserBanned uname := World.userBanned_of_ban h hle
  obtain ⟨r, hr, hrip, hexpire⟩ := hip
  exact {
    answers := ⟨true, by rw [hlookup]⟩
    active := fun _ ↦ by
      rw [hlookup]
      exact ⟨rfl, r, hr, hrip, hexpire, .inl hr⟩
    expired := fun _ hexpired ↦ absurd hactive hexpired
    unbanned := fun hnone ↦ absurd hactive.hasBan hnone
    users := by rw [hlookup]
    otherUsers := by rw [hlookup]
    otherPeers := by rw [hlookup] }

theorem exec_insertBannedIp_eq (h : (Op.exec (.sql (.insertBannedIp ip te)) w).1 = .ok ()) :
    ∃ ip', varchar b 50 ip = .ok ip' ∧ (Op.exec (.sql (.insertBannedIp ip te)) w).2.db.toTables =
      { w.db.toTables with banned_ips := w.db.banned_ips ++ [⟨ip', te⟩] } := by
  have heffect := w.db.exec_effect w.now (.insertBannedIp ip te)
  change (w.db.exec w.now (.insertBannedIp ip te)).1 = .ok () at h
  change ∃ ip', _ ∧ (w.db.exec w.now (.insertBannedIp ip te)).2.toTables = _
  rw [h] at heffect
  generalize (w.db.exec w.now (.insertBannedIp ip te)).2.toTables = t' at heffect
  cases heffect with
  | same _ _ hsame => simp [Statement.target] at hsame
  | insertBannedIp _ _ ip' hip _ => exact ⟨ip', hip, rfl⟩

theorem lookup_of_recorded (h : w.ban uname = some te) (hle : w.now ≤ te) (hip : ¬w.IPBanned ip)
    (hyes : (lookup w uname ip).1 = .ok true) :
    ∃ ip' w', varchar b 50 ip = .ok ip' ∧ lookup w uname ip = (.ok true, w') ∧
      w'.db.users = w.db.users ∧ w'.db.banned_users = w.db.banned_users ∧
      w'.db.banned_ips = w.db.banned_ips.filter (·.ip ≠ ip) ++ [⟨ip', te⟩] := by
  obtain ⟨w₁, hcleared, hexec⟩ := DBPostgres.exec_isUserBanned_of_not_ipBanned h hle hip
  have hinsert : (Op.exec (.sql (.insertBannedIp ip te)) w₁).1 = .ok () := by
    rw [lookup, hexec] at hyes
    rcases hr : (Op.exec (.sql (.insertBannedIp ip te)) w₁).1 with e | v
    · rw [hr] at hyes
      cases hyes
    · rfl
  obtain ⟨ip', hip', hdb⟩ := exec_insertBannedIp_eq hinsert
  refine ⟨ip', (Op.exec (.sql (.insertBannedIp ip te)) w₁).2, hip', ?_, ?_, ?_, ?_⟩
  · rw [lookup, hexec, hinsert]
    rfl
  · rw [hdb, hcleared.users]
  · rw [hdb, hcleared.banned_users]
  · rw [hdb, hcleared.banned_ips]

theorem looksUp_of_kept (h : w.ban uname = some te) (hle : w.now ≤ te) (hip : ¬w.IPBanned ip)
    (hkept : varchar b 50 ip = .ok ip) : LooksUp w uname ip := by
  have hactive : w.UserBanned uname := World.userBanned_of_ban h hle
  have hyes : (lookup w uname ip).1 = .ok true :=
    DBPostgres.exec_isUserBanned_iff.mpr ⟨⟨te, h, hle⟩, .inr ⟨ip, hkept, by simp⟩⟩
  obtain ⟨ip', w', hip', hlookup, husers, hbans, hips⟩ := lookup_of_recorded h hle hip hyes
  obtain rfl : ip' = ip := Except.ok.inj (hip'.symm.trans hkept)
  exact {
    answers := ⟨true, hyes⟩
    active := fun _ ↦ by
      refine ⟨hyes, ⟨ip', te⟩, ?_, rfl, hle, .inr h⟩
      rw [hlookup, hips]
      simp
    expired := fun _ hexpired ↦ absurd hactive hexpired
    unbanned := fun hnone ↦ absurd hactive.hasBan hnone
    users := by rw [hlookup, husers]
    otherUsers := by rw [hlookup, hbans]
    otherPeers := by
      rw [hlookup, hips]
      simp [List.filter_append, List.filter_filter] }

/-- **When a lookup does what it should.** -/
theorem looksUp_iff :
    LooksUp w uname ip ↔ ∀ te, w.ban uname = some te →
      w.now ≤ te ∧ (w.IPBanned ip ∨ varchar b 50 ip = .ok ip) := by
  constructor
  · intro h te hban
    have hle : w.now ≤ te := by
      -- an expired ban raises
      by_contra hexpired
      obtain ⟨banned, hbanned⟩ := h.answers
      rw [lookup, DBPostgres.exec_isUserBanned_of_expired hban (not_le.mp hexpired)] at hbanned
      cases hbanned
    refine ⟨hle, ?_⟩
    by_cases hip : w.IPBanned ip
    · exact .inl hip
    · obtain ⟨hyes, r, hr, hrip, _⟩ := h.active (World.userBanned_of_ban hban hle)
      obtain ⟨ip', w', hip', hlookup, _, _, hips⟩ := lookup_of_recorded hban hle hip hyes
      rw [hlookup, hips] at hr
      -- the only row of this peer there can be is the new one
      rcases List.mem_append.mp hr with hr | hr
      · exact absurd hrip (of_decide_eq_true (List.mem_filter.mp hr).2)
      · rw [List.mem_singleton.mp hr] at hrip
        have hkept : ip' = ip := hrip
        rw [hkept] at hip'
        exact .inr hip'
  · intro h
    rcases hban : w.ban uname with _ | te
    · exact looksUp_of_none hban
    obtain ⟨hle, hpeer⟩ := h te hban
    by_cases hip : w.IPBanned ip
    · exact looksUp_of_ipBanned hban hle hip
    · exact looksUp_of_kept hban hle hip (hpeer.resolve_left hip)

/-- The server of bob, whom somebody banned at epoch second `1000`, for no days; a second later. -/
private def afterBan : World .postgres :=
  let registered :=
    (DBPostgres.createUser "bob" "pw" false).exec Op.exec (World.start .postgres 1000)
  let banned := (DBPostgres.banUser "bob" 0).exec Op.exec registered.2.2
  { banned.2.2 with now := 1001 }

/-- The ban has expired, and looking it up raises. -/
theorem exists_expiredBan :
    ¬∀ (w : World .postgres) (uname ip : String), LooksUp w uname ip := by
  intro h
  have hban : afterBan.ban "bob" = some 1000 := by decide
  obtain ⟨banned, hbanned⟩ := (h afterBan "bob" "ipv4:1.2.3.4:5678").answers
  have hraised := DBPostgres.exec_isUserBanned_of_expired hban (by decide) "ipv4:1.2.3.4:5678"
  rw [lookup, hraised] at hbanned
  cases hbanned

end Wrongthink
