import Wrongthink.Service.Interceptor
import Wrongthink.Service.Serve

/-!
# Whom the interceptor turns away

A call should be cancelled if its peer is banned, or if the user is that a message of it names. The
first test does what it says, but is made on the metadata only. The second looks the *default value*
of the field `uname` up, where it means the value, so whether a batch is cancelled does not depend
on whom its message names (`cancels_intercept_iff`). It is enforced as it should be only for a
banned peer that a test still meets, and where the user of the default name and the user of the
message happen to be treated alike (`enforced_iff`).

A batch is looked at undisturbed: the clock stands still, and nobody else is running. The batches of
a stream come at moments of their own, with anything in between.
-/

namespace Wrongthink

open Concurrent LoggingInterceptor

variable {b : Backend} {α β : Type}

/-! ## Who is banned -/

namespace World

/-- A user of this name has a ban that has not expired. -/
def UserBanned (w : World b) (uname : String) : Prop :=
  ∃ u ∈ w.db.users.rows, u.uname = uname ∧
    ∃ r ∈ w.db.banned_users, r.user_id = u.user_id ∧ w.now ≤ r.expire

/-- This peer has a ban that has not expired. -/
def IPBanned (w : World b) (ip : String) : Prop :=
  ∃ r ∈ w.db.banned_ips, r.ip = ip ∧ w.now ≤ r.expire

instance (w : World b) (uname : String) : Decidable (w.UserBanned uname) :=
  inferInstanceAs (Decidable (∃ u ∈ _, _ ∧ ∃ r ∈ _, _ ∧ _))

instance (w : World b) (ip : String) : Decidable (w.IPBanned ip) :=
  inferInstanceAs (Decidable (∃ r ∈ _, _ ∧ _))

/-- The ban that `isUserBanned` reads: the first there is. -/
def ban (w : World b) (uname : String) : Option ℤ :=
  ((Relational.Serial.join w.db.banned_users w.db.users (·.user_id)).find?
    fun x ↦ x.2.uname = uname).map (·.1.expire)

theorem exists_of_ban {w : World b} {uname : String} {te : ℤ} (h : w.ban uname = some te) :
    ∃ u ∈ w.db.users.rows, u.uname = uname ∧ ⟨u.user_id, te⟩ ∈ w.db.banned_users := by
  obtain ⟨⟨r, u⟩, hfind, hte⟩ := Option.map_eq_some_iff.mp h
  obtain ⟨hr, hu, huid⟩ := Relational.Serial.mem_join.mp (List.mem_of_find?_eq_some hfind)
  have huname : u.uname = uname := by simpa using List.find?_some hfind
  refine ⟨u, hu, huname, ?_⟩
  rw [huid, ← hte]
  exact hr

/-- The peer can be entered into `banned_ips`, once its expired entry is gone. -/
def Recordable (w : World b) (ip : String) : Prop :=
  ∃ ip', varchar b 50 ip = .ok ip' ∧ ip' ∉ (w.db.banned_ips.filter (·.ip ≠ ip)).map (·.ip)

/-- `isUserBanned` turns this user away: it finds the peer recorded, or can record it. -/
def TurnedAway (w : World b) (uname ip : String) : Prop :=
  (∃ te, w.ban uname = some te ∧ w.now ≤ te) ∧ (w.IPBanned ip ∨ w.Recordable ip)

/-- From `w` to `w'`, at most the entry of this peer is gone. -/
structure Cleared (ip : String) (w w' : World b) : Prop where
  now : w'.now = w.now
  users : w'.db.users = w.db.users
  banned_users : w'.db.banned_users = w.db.banned_users
  banned_ips : w'.db.banned_ips = w.db.banned_ips.filter (·.ip ≠ ip)

theorem Cleared.not_ipBanned {ip : String} {w w' : World b} (h : w.Cleared ip w') :
    ¬w'.IPBanned ip := by
  rintro ⟨r, hr, hip, _⟩
  rw [h.banned_ips, List.mem_filter] at hr
  exact of_decide_eq_true hr.2 hip

theorem Cleared.turnedAway_iff {ip uname : String} {w w' : World b} (h : w.Cleared ip w')
    (hip : ¬w.IPBanned ip) : w'.TurnedAway uname ip ↔ w.TurnedAway uname ip := by
  rw [TurnedAway, TurnedAway, or_iff_right h.not_ipBanned, or_iff_right hip, ban, ban, Recordable,
    Recordable, h.now, h.users, h.banned_users, h.banned_ips, List.filter_filter]
  simp only [Bool.and_self]

end World

/-! ## What the tests read -/

namespace Op.Step

variable {w w' : World b}

theorem selectBan_eq {uname : String} {date : Option ℤ}
    (h : Op.Step (.sql (.selectBan uname)) w (.ok date) w') : date = w.ban uname := by
  obtain ⟨d, hdate, _⟩ := h.ok
  exact Except.ok.inj hdate

theorem selectBannedIp_eq {ip : String} {date : Option ℤ}
    (h : Op.Step (.sql (.selectBannedIp ip)) w (.ok date) w') :
    date = (w.db.banned_ips.find? fun r ↦ r.ip = ip).map (·.expire) := by
  obtain ⟨d, hdate, _⟩ := h.ok
  exact Except.ok.inj hdate

theorem time_eq {tc : ℤ} (h : Op.Step .time w (.ok tc) w') : tc = w'.now := by
  obtain ⟨d, htc, rfl⟩ := h.ok
  exact Except.ok.inj htc

end Op.Step

open World (Cleared)

/-! ## Cancelled calls -/

/-- Run alone, at one moment, with nothing failing, the routine cancels the call. -/
def Cancels (p : Routine α) (w : World b) : Prop := ∃ e ∈ (p.exec Op.exec w).1, e.op = .tryCancel

instance (p : Routine α) (w : World b) : Decidable (Cancels p w) :=
  inferInstanceAs (Decidable (∃ e ∈ _, _))

/-- What is cancelled, is cancelled by the first part or, where that comes through, by the second.
-/
theorem cancels_bind_iff {p : Routine α} {k : α → Routine β} {w : World b} :
    Cancels (p >>= k) w ↔ Cancels p w ∨
      ∃ a w', (p.exec Op.exec w).2 = (.ok a, w') ∧ Cancels (k a) w' := by
  rcases hexec : p.exec Op.exec w with ⟨tr, e | a, w'⟩
  · rw [Cancels, Prog.exec_bind_error hexec, Cancels, hexec]
    simp
  · rw [Cancels, Prog.exec_bind_ok hexec, Cancels, hexec]
    simp only [List.mem_append, or_and_right, exists_or]
    refine or_congr_right ?_
    constructor
    · intro h
      exact ⟨a, w', rfl, h⟩
    · rintro ⟨a', w'', heq, h⟩
      rw [Prod.mk.injEq, Except.ok.injEq] at heq
      obtain ⟨rfl, rfl⟩ := heq
      exact h

theorem not_cancels_of_only {p : Routine α} (hp : p.Only (· ≠ .tryCancel)) (w : World b) :
    ¬Cancels p w := by
  rintro ⟨e, he, hop⟩
  obtain ⟨_, p', htr, _⟩ := Prog.exec_sound Op.step_exec p w
  exact (hp.trace htr).1 e he hop

theorem cancels_bind_of_ok {p : Routine α} {k : α → Routine β} {w w' : World b} {a : α}
    (hp : ¬Cancels p w) (hexec : (p.exec Op.exec w).2 = (.ok a, w')) :
    Cancels (p >>= k) w ↔ Cancels (k a) w' := by
  rw [cancels_bind_iff, or_iff_right hp, hexec]
  constructor
  · rintro ⟨a', w'', heq, h⟩
    rw [Prod.mk.injEq, Except.ok.injEq] at heq
    obtain ⟨rfl, rfl⟩ := heq
    exact h
  · exact fun h ↦ ⟨a, w', rfl, h⟩

theorem cancels_bind_of_only {p : Routine α} {k : α → Routine β}
    (hk : ∀ a, (k a).Only (· ≠ .tryCancel)) {w : World b} : Cancels (p >>= k) w ↔ Cancels p w := by
  rw [cancels_bind_iff, or_iff_left]
  rintro ⟨a, w', _, h⟩
  exact not_cancels_of_only (hk a) w' h

theorem cancels_tryCancel (w : World b) : Cancels (perform .tryCancel) w :=
  ⟨_, List.mem_singleton_self _, rfl⟩

theorem cancels_test_iff {p : Routine Bool} (hp : p.Only (· ≠ .tryCancel)) {w : World b} :
    Cancels (do let banned ← p; if banned then perform .tryCancel else pure ()) w ↔
      (p.exec Op.exec w).2.1 = .ok true := by
  rw [cancels_bind_iff, or_iff_right (not_cancels_of_only hp w)]
  constructor
  · rintro ⟨banned, w', hexec, h⟩
    rcases banned with _ | _
    · exact absurd h (not_cancels_of_only (Prog.only_done _ _) w')
    · rw [hexec]
  · intro hexec
    exact ⟨true, _, Prod.ext hexec rfl, cancels_tryCancel _⟩

/-! ## The two tests -/

namespace DBPostgres

/-- What a ban lookup does: it asks the database, and the clock. -/
def Consults (o : Op) : Prop := o.store = true ∨ o = .time

theorem isIPBanned_consults (ip : String) : (isIPBanned ip).Only Consults := by
  simp only [isIPBanned, Prog.only_perform_bind]
  refine ⟨.inl rfl, fun _ ↦ ⟨.inl rfl, fun date ↦ ?_⟩⟩
  rcases date with _ | te
  · trivial
  · refine (Prog.only_perform_bind _ _ _).mpr ⟨.inr rfl, fun tc ↦ ?_⟩
    split
    · exact (Prog.only_perform_bind _ _ _).mpr ⟨.inl rfl, fun _ ↦ trivial⟩
    · trivial

theorem isUserBanned_consults (uname ip : String) : (isUserBanned uname ip).Only Consults := by
  simp only [isUserBanned, Prog.only_perform_bind]
  refine ⟨.inl rfl, fun _ ↦ ⟨.inl rfl, fun date ↦ ?_⟩⟩
  rcases date with _ | te
  · trivial
  refine (Prog.only_perform_bind _ _ _).mpr ⟨.inr rfl, fun tc ↦ ?_⟩
  split
  · exact (Prog.only_perform_bind _ _ _).mpr ⟨.inl rfl, fun _ ↦ trivial⟩
  refine (isIPBanned_consults ip).bind fun ipBanned ↦ ?_
  split
  · trivial
  · exact (Prog.only_perform_bind _ _ _).mpr ⟨.inl rfl, fun _ ↦ trivial⟩

theorem Consults.ne_tryCancel {o : Op} (ho : Consults o) : o ≠ .tryCancel := by
  rintro rfl
  rcases ho with ho | ho <;> cases ho

theorem isIPBanned_only (ip : String) : (isIPBanned ip).Only (· ≠ .tryCancel) :=
  (isIPBanned_consults ip).mono fun _ ho ↦ ho.ne_tryCancel

theorem isUserBanned_only (uname ip : String) : (isUserBanned uname ip).Only (· ≠ .tryCancel) :=
  (isUserBanned_consults uname ip).mono fun _ ho ↦ ho.ne_tryCancel

theorem exec_selectBannedIp {w : World b} {ip : String} {date : Option ℤ}
    (h : (w.db.banned_ips.find? fun r ↦ r.ip = ip).map (·.expire) = date) :
    Op.exec (.sql (.selectBannedIp ip)) w = (.ok date, w) := Prod.ext (congrArg Except.ok h) rfl

theorem exec_selectBan {w : World b} {uname : String} {date : Option ℤ} (h : w.ban uname = date) :
    Op.exec (.sql (.selectBan uname)) w = (.ok date, w) := Prod.ext (congrArg Except.ok h) rfl

theorem exec_isIPBanned_of_banned {w : World b} {ip : String} (h : w.IPBanned ip) :
    ((isIPBanned ip).exec Op.exec w).2 = (.ok true, w) := by
  obtain ⟨r, hr, hip, hexpire⟩ := h
  have hfind : (w.db.banned_ips.find? fun r ↦ r.ip = ip) = some r :=
    (Relational.find?_eq_some_iff w.db.valid.banned_ips_ip).mpr ⟨hr, hip⟩
  have hread : (w.db.banned_ips.find? fun r ↦ r.ip = ip).map (·.expire) = some r.expire := by
    rw [hfind, Option.map_some]
  rw [isIPBanned, Prog.exec_perform_bind_snd (rfl : Op.exec .session w = (.ok (), w)),
    Prog.exec_perform_bind_snd (exec_selectBannedIp hread)]
  dsimp only
  rw [Prog.exec_perform_bind_snd (rfl : Op.exec .time w = (.ok w.now, w)),
    if_neg (not_lt.mpr hexpire)]
  rfl

/-- It has none: the test says so, and has removed an expired one. -/
theorem exec_isIPBanned_of_not {w : World b} {ip : String} (h : ¬w.IPBanned ip) :
    ∃ w', ((isIPBanned ip).exec Op.exec w).2 = (.ok false, w') ∧ w.Cleared ip w' := by
  rcases hfind : w.db.banned_ips.find? fun r ↦ r.ip = ip with _ | r
  · have hread : (w.db.banned_ips.find? fun r ↦ r.ip = ip).map (·.expire) = none := by
      rw [hfind, Option.map_none]
    rw [isIPBanned, Prog.exec_perform_bind_snd (rfl : Op.exec .session w = (.ok (), w)),
      Prog.exec_perform_bind_snd (exec_selectBannedIp hread)]
    refine ⟨w, rfl, rfl, rfl, rfl, ?_⟩
    rw [List.find?_eq_none] at hfind
    exact (List.filter_eq_self.mpr fun r hr ↦ by simpa using hfind r hr).symm
  · obtain ⟨hr, hip⟩ := (Relational.find?_eq_some_iff w.db.valid.banned_ips_ip).mp hfind
    have hexpired : w.now > r.expire := by
      by_contra hle
      exact h ⟨r, hr, hip, not_lt.mp hle⟩
    have hread : (w.db.banned_ips.find? fun r ↦ r.ip = ip).map (·.expire) = some r.expire := by
      rw [hfind, Option.map_some]
    rw [isIPBanned, Prog.exec_perform_bind_snd (rfl : Op.exec .session w = (.ok (), w)),
      Prog.exec_perform_bind_snd (exec_selectBannedIp hread)]
    dsimp only
    rw [Prog.exec_perform_bind_snd (rfl : Op.exec .time w = (.ok w.now, w)), if_pos hexpired,
      Prog.exec_perform_bind_snd (rfl : Op.exec (.sql (.deleteBannedIp ip)) w = (.ok (), _))]
    exact ⟨_, rfl, rfl, rfl, rfl, rfl⟩

theorem exec_insertBannedIp_iff {w w' : World b} {ip : String} (te : ℤ) (h : w.Cleared ip w') :
    (Op.exec (.sql (.insertBannedIp ip te)) w').1 = .ok () ↔ w.Recordable ip := by
  have hexec : (Op.exec (.sql (.insertBannedIp ip te)) w').1 =
    (Statement.written w'.db.toTables (Statement.addBannedIp b w'.db.toTables ip te)).1 := rfl
  rw [hexec, Statement.addBannedIp, World.Recordable, ← h.banned_ips]
  rcases hip : varchar b 50 ip with e | ip'
  · simp [Statement.written, bind, Except.bind]
  · rw [Statement.ok_bind]
    by_cases hnew : ip' ∈ w'.db.banned_ips.map (·.ip)
    · rw [if_pos hnew]
      simpa [Statement.written] using hnew
    · rw [if_neg hnew]
      simpa [Statement.written, pure, Except.pure] using hnew

theorem exec_isUserBanned_of_none {w : World b} {uname : String} (h : w.ban uname = none)
    (ip : String) : ((isUserBanned uname ip).exec Op.exec w).2 = (.ok false, w) := by
  rw [isUserBanned, Prog.exec_perform_bind_snd (rfl : Op.exec .session w = (.ok (), w)),
    Prog.exec_perform_bind_snd (exec_selectBan h)]
  rfl

/-- The ban has expired, and is to be deleted, by a column that does not exist. -/
theorem exec_isUserBanned_of_expired {w : World b} {uname : String} {te : ℤ}
    (h : w.ban uname = some te) (hexpired : te < w.now) (ip : String) :
    ((isUserBanned uname ip).exec Op.exec w).2 = (.error .undefinedColumn, w) := by
  have hdelete : Op.exec (.sql (.deleteBan uname)) w = (.error .undefinedColumn, w) := rfl
  rw [isUserBanned, Prog.exec_perform_bind_snd (rfl : Op.exec .session w = (.ok (), w)),
    Prog.exec_perform_bind_snd (exec_selectBan h)]
  dsimp only
  rw [Prog.exec_perform_bind_snd (rfl : Op.exec .time w = (.ok w.now, w)), if_pos hexpired,
    Prog.exec_bind_error (Prog.exec_perform_error hdelete)]

theorem exec_isUserBanned_of_le {w : World b} {uname : String} {te : ℤ}
    (h : w.ban uname = some te) (hle : w.now ≤ te) (ip : String) :
    ((isUserBanned uname ip).exec Op.exec w).2 = ((isIPBanned ip >>= fun ipBanned ↦
      if ipBanned then return true
      else do
        sql (.insertBannedIp ip te)
        return true).exec Op.exec w).2 := by
  rw [isUserBanned, Prog.exec_perform_bind_snd (rfl : Op.exec .session w = (.ok (), w)),
    Prog.exec_perform_bind_snd (exec_selectBan h)]
  dsimp only
  rw [Prog.exec_perform_bind_snd (rfl : Op.exec .time w = (.ok w.now, w)), if_neg (not_lt.mpr hle)]

theorem exec_isUserBanned_of_ipBanned {w : World b} {uname ip : String} {te : ℤ}
    (h : w.ban uname = some te) (hle : w.now ≤ te) (hip : w.IPBanned ip) :
    ((isUserBanned uname ip).exec Op.exec w).2 = (.ok true, w) := by
  have hexec : (isIPBanned ip).exec Op.exec w =
    (((isIPBanned ip).exec Op.exec w).1, .ok true, w) :=
    Prod.ext rfl (exec_isIPBanned_of_banned hip)
  rw [exec_isUserBanned_of_le h hle, Prog.exec_bind_ok hexec]
  rfl

theorem exec_isUserBanned_of_not_ipBanned {w : World b} {uname ip : String} {te : ℤ}
    (h : w.ban uname = some te) (hle : w.now ≤ te) (hip : ¬w.IPBanned ip) :
    ∃ w', w.Cleared ip w' ∧ ((isUserBanned uname ip).exec Op.exec w).2 =
      ((Op.exec (.sql (.insertBannedIp ip te)) w').1.map fun _ ↦ true,
        (Op.exec (.sql (.insertBannedIp ip te)) w').2) := by
  obtain ⟨w', hexec, hcleared⟩ := exec_isIPBanned_of_not hip
  have hexec' : (isIPBanned ip).exec Op.exec w =
    (((isIPBanned ip).exec Op.exec w).1, .ok false, w') := Prod.ext rfl hexec
  refine ⟨w', hcleared, ?_⟩
  rw [exec_isUserBanned_of_le h hle, Prog.exec_bind_ok hexec', if_neg (by simp)]
  rcases hinsert : Op.exec (.sql (.insertBannedIp ip te)) w' with ⟨e | v, w''⟩
  · rw [Prog.exec_bind_error (Prog.exec_perform_error hinsert)]
    rfl
  · rw [Prog.exec_perform_bind_snd hinsert]
    rfl

/-- A user whose ban is read and has not expired is turned away, if the peer can be recorded. -/
theorem exec_isUserBanned_iff {w : World b} {uname ip : String} :
    ((isUserBanned uname ip).exec Op.exec w).2.1 = .ok true ↔ w.TurnedAway uname ip := by
  rw [World.TurnedAway]
  rcases hban : w.ban uname with _ | te
  · rw [exec_isUserBanned_of_none hban]
    simp
  by_cases hle : w.now ≤ te
  · by_cases hip : w.IPBanned ip
    · rw [exec_isUserBanned_of_ipBanned hban hle hip]
      exact iff_of_true rfl ⟨⟨te, rfl, hle⟩, .inl hip⟩
    · obtain ⟨w', hcleared, hexec⟩ := exec_isUserBanned_of_not_ipBanned hban hle hip
      rw [hexec, or_iff_right hip, ← exec_insertBannedIp_iff te hcleared]
      rcases (Op.exec (.sql (.insertBannedIp ip te)) w').1 with e | v
      · simp [Except.map]
      · simpa [Except.map] using hle
  · rw [exec_isUserBanned_of_expired hban (not_le.mp hle)]
    simpa using fun hle' ↦ absurd hle' hle

end DBPostgres

/-! ## The interceptor -/

theorem cancels_onInitialMetadata_iff {w : World b} {peer : String} :
    Cancels (onInitialMetadata peer) w ↔ w.IPBanned peer := by
  rw [onInitialMetadata, cancels_test_iff (DBPostgres.isIPBanned_only peer)]
  by_cases h : w.IPBanned peer
  · rw [DBPostgres.exec_isIPBanned_of_banned h]
    simpa using h
  · obtain ⟨w', hexec, _⟩ := DBPostgres.exec_isIPBanned_of_not h
    rw [hexec]
    simpa using h

theorem exec_onInitialMetadata_of_not {w : World b} {peer : String} (h : ¬w.IPBanned peer) :
    ∃ w', ((onInitialMetadata peer).exec Op.exec w).2 = (.ok (), w') ∧ w.Cleared peer w' := by
  obtain ⟨w', hexec, hcleared⟩ := DBPostgres.exec_isIPBanned_of_not h
  have hexec' : (DBPostgres.isIPBanned peer).exec Op.exec w =
    (((DBPostgres.isIPBanned peer).exec Op.exec w).1, .ok false, w') := Prod.ext rfl hexec
  refine ⟨w', ?_, hcleared⟩
  rw [onInitialMetadata, Prog.exec_bind_ok hexec']
  rfl

theorem cancels_onMessage_iff {w : World b} {peer : String} {msg : Option RecvMessage} :
    Cancels (onMessage peer msg) w ↔ ∃ m f, msg = some m ∧ m.FindFieldByName "uname" = some f ∧
      w.TurnedAway f.default_value_string peer := by
  rcases msg with _ | m
  · have hundefined : ¬Cancels (onMessage peer none) w :=
      not_cancels_of_only ((Prog.only_perform _ _).mpr (by simp)) w
    simpa using hundefined
  rcases hf : m.FindFieldByName "uname" with _ | f
  · have hnone : ¬Cancels (onMessage peer (some m)) w := by
      rw [onMessage, hf]
      exact not_cancels_of_only (Prog.only_done _ _) w
    simpa [hf] using hnone
  · have hlookup : Cancels (onMessage peer (some m)) w ↔
        w.TurnedAway f.default_value_string peer := by
      rw [onMessage, hf]
      exact (cancels_test_iff (DBPostgres.isUserBanned_only _ peer)).trans
        DBPostgres.exec_isUserBanned_iff
    simpa [hf] using hlookup

/-- A batch meets a test that it does not pass: its metadata come from a banned peer, or its message
has a field `uname` whose default value is the name of a user who is turned away. -/
def Stops (peer : String) (methods : InterceptorBatchMethods) (w : World b) : Prop :=
  (methods.postRecvInitialMetadata = true ∧ w.IPBanned peer) ∨
    ∃ msg f, methods.postRecvMessage = some (some msg) ∧ msg.FindFieldByName "uname" = some f ∧
      w.TurnedAway f.default_value_string peer

theorem cancels_message_iff {w : World b} {peer : String} {message : Option (Option RecvMessage)} :
    Cancels (do
      (match message with
        | some msg => onMessage peer msg
        | none => pure ())
      perform .proceed) w ↔ Stops peer ⟨false, message⟩ w := by
  have hstops : Stops peer ⟨false, message⟩ w ↔
      ∃ msg f, message = some (some msg) ∧ msg.FindFieldByName "uname" = some f ∧
        w.TurnedAway f.default_value_string peer := or_iff_right (by simp)
  -- `Proceed` comes last, and cancels nothing
  rw [hstops, cancels_bind_of_only fun _ ↦ (Prog.only_perform _ _).mpr (by simp)]
  rcases message with _ | msg
  · simpa using not_cancels_of_only (Prog.only_done _ _) w
  · simpa using cancels_onMessage_iff

/-- **What the interceptor does.** Of the message it only takes the default value of the field. -/
theorem cancels_intercept_iff {w : World b} {peer : String} {methods : InterceptorBatchMethods} :
    Cancels (intercept methods peer) w ↔ Stops peer methods w := by
  obtain ⟨_ | _, message⟩ := methods
  · exact (cancels_bind_of_ok (not_cancels_of_only (Prog.only_done _ _) w) rfl).trans
      cancels_message_iff
  by_cases h : w.IPBanned peer
  · -- the metadata are enough
    exact iff_of_true (cancels_bind_iff.mpr (.inl (cancels_onInitialMetadata_iff.mpr h)))
      (.inl ⟨rfl, h⟩)
  · obtain ⟨w', hexec, hcleared⟩ := exec_onInitialMetadata_of_not h
    have hmessage : Stops peer ⟨false, message⟩ w' ↔ Stops peer ⟨true, message⟩ w := by
      simp only [Stops, hcleared.turnedAway_iff h, h, and_false, Bool.false_eq_true, false_and]
    rw [← hmessage, ← cancels_message_iff]
    exact cancels_bind_of_ok (cancels_onInitialMetadata_iff.not.mpr h) hexec

/-- A call is cancelled in one of these batches, each at its own moment. -/
def Cancelled (peer : String) (batches : List (InterceptorBatchMethods × World b)) : Prop :=
  ∃ x ∈ batches, Cancels (intercept x.1 peer) x.2

instance (peer : String) (batches : List (InterceptorBatchMethods × World b)) :
    Decidable (Cancelled peer batches) :=
  inferInstanceAs (Decidable (∃ x ∈ batches, _))

/-- **Enforced by accident.** A message comes in, with the metadata or behind other batches of its
call, which came at moments of their own. By then the call has been cancelled exactly if its peer or
the user that the message names is banned, if and only if

* where the peer is banned, there is a test that it does not pass: the metadata come in this batch,
  or an earlier batch has been stopped, or the user of the default name is turned away;
* where it is not, the user of the message is banned just as an earlier batch has been stopped or
  the user of the default name is turned away. -/
theorem enforced_iff {w : World b} {peer : String} {metadata : Bool} {msg : RecvMessage} {f : Field}
    {before : List (InterceptorBatchMethods × World b)}
    (hf : msg.FindFieldByName "uname" = some f) :
    (Cancelled peer (before ++ [(⟨metadata, some (some msg)⟩, w)]) ↔
        w.UserBanned f.value ∨ w.IPBanned peer) ↔
      (w.IPBanned peer → metadata = true ∨ (∃ x ∈ before, Stops peer x.1 x.2) ∨
          w.TurnedAway f.default_value_string peer) ∧
        (¬w.IPBanned peer → (w.UserBanned f.value ↔ (∃ x ∈ before, Stops peer x.1 x.2) ∨
          w.TurnedAway f.default_value_string peer)) := by
  have hlast : Stops peer ⟨metadata, some (some msg)⟩ w ↔
      (metadata = true ∧ w.IPBanned peer) ∨ w.TurnedAway f.default_value_string peer := by
    simp [Stops, hf]
  have hcancelled : Cancelled peer (before ++ [(⟨metadata, some (some msg)⟩, w)]) ↔
      (∃ x ∈ before, Stops peer x.1 x.2) ∨
        (metadata = true ∧ w.IPBanned peer) ∨ w.TurnedAway f.default_value_string peer := by
    simp only [Cancelled, cancels_intercept_iff, ← hlast, List.mem_append, List.mem_singleton,
      or_and_right, exists_or, exists_eq_left]
  rw [hcancelled]
  by_cases hip : w.IPBanned peer
  · simp only [hip, or_true, and_true, iff_true, forall_const, not_true_eq_false, false_implies]
    exact or_left_comm
  · simp only [hip, and_false, false_or, or_false, false_implies, true_and, not_false_eq_true,
      forall_const]
    exact Iff.comm

/-- The server after its admin has banned bob. -/
private def bobBanned : List (Served .postgres) × World .postgres :=
  serve (World.start .postgres 0) [.CreateUser ⟨"root", "pw", false⟩,
    .CreateUser ⟨"bob", "pw", false⟩,
    .BanUser [("auth-uname", "root"), ("auth-token", "pw")] ⟨"bob", 1⟩]

/-- The field of a message that names this user. -/
private def naming (uname : String) : Field := ⟨"uname", "", uname⟩

/-- A stream that was opened before anybody was banned, and now names root, and then bob. -/
theorem enforced_iff_bobBanned :
    (Cancelled "ipv4:1.2.3.4:5678" ([(⟨true, none⟩, World.start .postgres 0),
          (⟨false, some (some [naming "root"])⟩, bobBanned.2)] ++
            [(⟨false, some (some [naming "bob"])⟩, bobBanned.2)]) ↔
        bobBanned.2.UserBanned "bob" ∨ bobBanned.2.IPBanned "ipv4:1.2.3.4:5678") ↔
      (bobBanned.2.IPBanned "ipv4:1.2.3.4:5678" → false = true ∨
          (∃ x ∈ [(⟨true, none⟩, World.start .postgres 0),
            (⟨false, some (some [naming "root"])⟩, bobBanned.2)],
              Stops "ipv4:1.2.3.4:5678" x.1 x.2) ∨
          bobBanned.2.TurnedAway "" "ipv4:1.2.3.4:5678") ∧
        (¬bobBanned.2.IPBanned "ipv4:1.2.3.4:5678" → (bobBanned.2.UserBanned "bob" ↔
          (∃ x ∈ [(⟨true, none⟩, World.start .postgres 0),
            (⟨false, some (some [naming "root"])⟩, bobBanned.2)],
              Stops "ipv4:1.2.3.4:5678" x.1 x.2) ∨
          bobBanned.2.TurnedAway "" "ipv4:1.2.3.4:5678")) :=
  enforced_iff (rfl : RecvMessage.FindFieldByName [naming "bob"] "uname" = some (naming "bob"))

/-- Bob is banned, and his message passes. -/
theorem exists_unenforced :
    ¬∀ (ss : List (Served .postgres)) (w : World .postgres) (peer : String) (metadata : Bool)
      (msg : RecvMessage) (f : Field) (before : List (InterceptorBatchMethods × World .postgres)),
      Serve (World.start .postgres 0) ss w → msg.FindFieldByName "uname" = some f →
        (Cancelled peer (before ++ [(⟨metadata, some (some msg)⟩, w)]) ↔
          w.UserBanned f.value ∨ w.IPBanned peer) := by
  intro h
  have hiff := h bobBanned.1 bobBanned.2 "ipv4:1.2.3.4:5678" true [naming "bob"] (naming "bob") []
    (serve_sound _ _) rfl
  have hpasses : ¬Cancelled "ipv4:1.2.3.4:5678"
      ([] ++ [(⟨true, some (some [naming "bob"])⟩, bobBanned.2)]) := by decide
  exact hpasses (hiff.mpr (.inl (by decide)))

end Wrongthink
