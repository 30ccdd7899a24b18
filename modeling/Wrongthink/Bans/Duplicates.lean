import Wrongthink.Bans.Enforcement
import Wrongthink.Concurrent.CheckThenAct

/-!
# Two bans of one user

`banUser` looks whether the user has a ban, and then changes it or inserts one. The two are
statements of their own, and nothing in the table forbids a second row, so two calls that have both
found none insert one each (`exists_doubleBan`). There are two rows only if that happens
(`single_bans_iff`): rows are never removed, and an update makes none.

With one row a user, `isUserBanned` reads the ban that was imposed last. With two it reads one of
them.
-/

namespace Wrongthink

open Concurrent

variable {b : Backend}

/-! ## Looking, and inserting -/

namespace Op

/-- The user that was looked for in `banned_users` and not found. -/
def missing : (o : Op) → Except Exn o.Result → Option ℤ
  | sql (.selectBannedUser uid), .ok false => some uid
  | _, _ => none

/-- The user that a row was inserted for. -/
def banned : (o : Op) → Except Exn o.Result → Option ℤ
  | sql (.insertBannedUser uid _), .ok _ => some uid
  | _, _ => none

/-- The user whose ban was written, and for how long. -/
def banWritten : (o : Op) → Except Exn o.Result → Option (ℤ × ℤ)
  | sql (.updateBannedUser days uid), .ok _ => some (uid, days)
  | sql (.insertBannedUser uid days), .ok _ => some (uid, days)
  | _, _ => none

theorem eq_of_target_banned_users {o : Op} (h : o.target = some .banned_users) :
    ∃ uid days, o = .sql (.updateBannedUser days uid) ∨ o = .sql (.insertBannedUser uid days) := by
  cases o with
  | sql q =>
    cases q with
    | updateBannedUser days uid => exact ⟨uid, days, .inl rfl⟩
    | insertBannedUser uid days => exact ⟨uid, days, .inr rfl⟩
    | _ => cases h
  | _ => cases h

variable {o : Op} {r : Except Exn o.Result}

theorem eq_of_missing {uid : ℤ} (h : o.missing r = some uid) :
    o = .sql (.selectBannedUser uid) := by
  unfold missing at h
  split at h
  · rw [Option.some.inj h]
  · cases h

theorem eq_of_banned {uid : ℤ} (h : o.banned r = some uid) :
    ∃ days, o = .sql (.insertBannedUser uid days) := by
  unfold banned at h
  split at h
  · rename_i uid' days _
    rw [Option.some.injEq] at h
    exact ⟨days, by rw [h]⟩
  · cases h

theorem target_of_banned {uid : ℤ} (h : o.banned r = some uid) : o.target = some .banned_users := by
  unfold banned at h
  split at h
  · rfl
  · cases h

theorem target_of_banWritten {x : ℤ × ℤ} (h : o.banWritten r = some x) :
    o.target = some .banned_users := by
  unfold banWritten at h
  split at h
  · rfl
  · rfl
  · cases h

end Op

/-- The user has been looked for and has no ban. -/
def FindsNoBan (uid : ℤ) (e : Action b) : Prop := e.op.missing e.result = some uid

/-- A ban of the user has been inserted. -/
def InsertsBan (uid : ℤ) (e : Action b) : Prop := e.op.banned e.result = some uid

instance (uid : ℤ) : DecidablePred (InsertsBan (b := b) uid) := fun _ ↦
  inferInstanceAs (Decidable (_ = _))

/-- The rows of a user in `banned_users`. -/
def World.bans (w : World b) (uid : ℤ) : ℕ := w.db.banned_users.countP (·.user_id = uid)

/-! ## Steps -/

namespace Op.Step

variable {o : Op} {w w' : World b} {r : Except Exn o.Result}

theorem updateBannedUser_eq {uid days : ℤ} {r : Except Exn Unit}
    (h : Op.Step (.sql (.updateBannedUser days uid)) w r w') :
    (r = .ok () ∧ w'.db.banned_users = w.db.banned_users.map fun r ↦
        if r.user_id = uid then { r with expire := w'.now + days } else r) ∨
      ((∃ e, r = .error e) ∧ w'.db.banned_users = w.db.banned_users) := by
  obtain ⟨gaps, heffect⟩ := h.effect_now
  generalize w'.db.toTables = t' at *
  cases heffect with
  | same _ _ hsame => exact .inr ⟨hsame.resolve_left (by simp [Statement.target]), rfl⟩
  | updateBannedUser _ _ epoch expire hepoch hexpire =>
    rw [eq_of_int4 hepoch] at hexpire
    exact .inl ⟨rfl, by rw [eq_of_int4 hexpire]; rfl⟩
  | updateNobody _ _ hnobody =>
    have hmap : (w.db.banned_users.map fun r ↦
        if r.user_id = uid then { r with expire := w'.now + days } else r) = w.db.banned_users := by
      refine (List.map_congr_left (g := id) fun r hr ↦ ?_).trans (List.map_id _)
      exact if_neg (hnobody r hr)
    exact .inl ⟨rfl, hmap.symm⟩

theorem insertBannedUser_eq {uid days : ℤ} {r : Except Exn Unit}
    (h : Op.Step (.sql (.insertBannedUser uid days)) w r w') :
    (r = .ok () ∧ w'.db.banned_users = w.db.banned_users ++ [⟨uid, w'.now + days⟩]) ∨
      ((∃ e, r = .error e) ∧ w'.db.banned_users = w.db.banned_users) := by
  obtain ⟨gaps, heffect⟩ := h.effect_now
  generalize w'.db.toTables = t' at *
  cases heffect with
  | same _ _ hsame => exact .inr ⟨hsame.resolve_left (by simp [Statement.target]), rfl⟩
  | insertBannedUser _ _ epoch expire hepoch hexpire _ =>
    rw [eq_of_int4 hepoch] at hexpire
    exact .inl ⟨rfl, by rw [eq_of_int4 hexpire]; rfl⟩

theorem bans_eq (h : Op.Step o w r w') (uid : ℤ) :
    w'.bans uid = w.bans uid + if o.banned r = some uid then 1 else 0 := by
  by_cases ho : o.target = some .banned_users
  · obtain ⟨uid', days, rfl | rfl⟩ := Op.eq_of_target_banned_users ho
    · have hnone : (Op.sql (.updateBannedUser days uid')).banned r ≠ some uid := by
        simp [Op.banned]
      rw [if_neg hnone, World.bans, World.bans, Nat.add_zero]
      obtain ⟨_, hrows⟩ | ⟨_, hrows⟩ := h.updateBannedUser_eq
      · rw [hrows, List.countP_map]
        refine List.countP_congr fun r₀ _ ↦ ?_
        by_cases hr₀ : r₀.user_id = uid' <;> simp [hr₀]
      · rw [hrows]
    · obtain ⟨rfl, hrows⟩ | ⟨⟨e, rfl⟩, hrows⟩ := h.insertBannedUser_eq
      · rw [World.bans, hrows, List.countP_append, World.bans, List.countP_singleton]
        simp [Op.banned]
      · rw [World.bans, hrows, World.bans]
        simp [Op.banned]
  · have hrows : w'.db.banned_users = w.db.banned_users := h.frame .banned_users ho
    have hnone : o.banned r ≠ some uid := fun hbanned ↦ ho (Op.target_of_banned hbanned)
    rw [World.bans, hrows, if_neg hnone, World.bans, Nat.add_zero]

theorem bans_eq_zero (h : Op.Step o w r w') {uid : ℤ} (hmissing : o.missing r = some uid) :
    w.bans uid = 0 := by
  obtain rfl := Op.eq_of_missing hmissing
  rcases r with e | found
  · simp [Op.missing] at hmissing
  rcases found with _ | _
  · obtain ⟨d, hr, _⟩ := h.ok
    have hnone : false = w.db.banned_users.any (·.user_id = uid) := Except.ok.inj hr
    rw [World.bans, List.countP_eq_zero]
    intro r₀ hr₀
    rw [eq_comm, List.any_eq_false] at hnone
    exact hnone r₀ hr₀
  · simp [Op.missing] at hmissing

end Op.Step

/-! ## Calls -/

/-- A ban is only inserted for a user who has just been looked for. -/
def LooksFirst (s : Option ℤ) : Op → Prop
  | .sql (.insertBannedUser uid _) => s = some uid
  | _ => True

theorem looksFirst_of_target {o : Op} (ho : o.target ≠ some .banned_users) (s : Option ℤ) :
    LooksFirst s o := by
  unfold LooksFirst
  split
  · exact absurd rfl ho
  · trivial

/-- A routine that looks before it inserts, whatever it has done before. -/
abbrev LookingFirst {α : Type} (p : Routine α) (s : Option ℤ) : Prop :=
  p.Phased Op.missing LooksFirst (fun _ ↦ True) s

theorem lookingFirst_of_only {α : Type} {p : Routine α} {T : Option Table}
    (hT : T ≠ some .banned_users) (hp : p.Only (Op.Within T)) (s : Option ℤ) : LookingFirst p s :=
  Prog.Phased.of_allowed (fun _ ho s ↦ looksFirst_of_target (ho.target_ne hT) s) hp s

theorem dbBanUser_lookingFirst (uname : String) (days : ℤ) (s : Option ℤ) :
    LookingFirst (DBPostgres.banUser uname days) s := by
  refine Prog.phased_perform_bind trivial fun _ ↦ Prog.phased_perform_bind trivial fun uid ↦ ?_
  rcases uid with _ | uid
  · trivial
  refine Prog.phased_perform_bind trivial fun found ↦ ?_
  rcases found with _ | _
  · -- the phase is the user that was not found
    exact Prog.phased_perform rfl fun _ ↦ trivial
  · exact Prog.phased_perform trivial fun _ ↦ trivial

theorem handle_lookingFirst (r : Request) (s : Option ℤ) : LookingFirst r.handle s := by
  by_cases hr : r.target = some .banned_users
  · obtain ⟨cmeta, request, rfl⟩ : ∃ cmeta request, r = .BanUser cmeta request := by
      cases r with
      | BanUser cmeta request => exact ⟨cmeta, request, rfl⟩
      | _ => cases hr
    have hnone : (none : Option Table) ≠ some .banned_users := by simp
    refine Prog.Phased.bind (Prog.Phased.tryCatch ?_ fun _ _ ↦ trivial) fun _ _ _ ↦ trivial
    split
    · trivial
    refine (lookingFirst_of_only hnone ((WrongthinkServiceImpl.getCredentials_aside cmeta).mono
      fun _ ho ↦ ho.1) s).bind fun creds s₁ _ ↦ ?_
    refine (lookingFirst_of_only hnone ((DBPostgres.isUserValid_aside _ _).mono
      fun _ ho ↦ ho.1) s₁).bind fun valid s₂ _ ↦ ?_
    split
    · trivial
    refine (lookingFirst_of_only hnone ((DBPostgres.isUserAdmin_aside _).mono
      fun _ ho ↦ ho.1) s₂).bind fun admin s₃ _ ↦ ?_
    split
    · trivial
    exact (dbBanUser_lookingFirst _ _ s₃).bind fun _ _ _ ↦ trivial
  · exact lookingFirst_of_only hr r.handle_only s

/-! ## The ban that was imposed last -/

/-- When the user's ban ends, by what an action has written. -/
def expireWritten (uid : ℤ) (e : Action b) : Option ℤ :=
  (e.op.banWritten e.result).bind fun x ↦ if x.1 = uid then some (e.after.now + x.2) else none

/-- When the user's latest ban ends: the one that was written last or, where none was, the one that
is stored in `w`. -/
def IsLatest {ι : Type} (w : World b) (l : List (ι × Action b)) (uid te : ℤ) : Prop :=
  match (l.filterMap fun x ↦ expireWritten uid x.2).getLast? with
  | some te' => te = te'
  | none => ⟨uid, te⟩ ∈ w.db.banned_users

/-- What a step leaves of a user's bans, where it leaves only one. -/
theorem Op.Step.expire_eq {o : Op} {w w' : World b} {r : Except Exn o.Result}
    (h : Op.Step o w r w') {uid te : ℤ} (hone : w'.bans uid ≤ 1)
    (hmem : ⟨uid, te⟩ ∈ w'.db.banned_users) :
    match expireWritten uid ⟨w, o, r, w'⟩ with
    | some te' => te = te'
    | none => ⟨uid, te⟩ ∈ w.db.banned_users := by
  by_cases ho : o.target = some .banned_users
  swap
  · -- nothing is written to the table
    have hrows : w'.db.banned_users = w.db.banned_users := h.frame .banned_users ho
    have hnone : o.banWritten r = none := by
      rw [Option.eq_none_iff_forall_ne_some]
      exact fun x hx ↦ ho (Op.target_of_banWritten hx)
    rw [hrows] at hmem
    simpa [expireWritten, hnone] using hmem
  obtain ⟨uid', days, rfl | rfl⟩ := Op.eq_of_target_banned_users ho
  · -- an update gives every row of its user the same value
    obtain ⟨rfl, hrows⟩ | ⟨⟨e, rfl⟩, hrows⟩ := h.updateBannedUser_eq
    · rw [hrows, List.mem_map] at hmem
      obtain ⟨r₀, hr₀, heq⟩ := hmem
      by_cases huid : r₀.user_id = uid'
      · rw [if_pos huid, BannedUserRow.mk.injEq] at heq
        have huid' : uid' = uid := huid.symm.trans heq.1
        simpa [expireWritten, Op.banWritten, huid'] using heq.2.symm
      · rw [if_neg huid] at heq
        rw [heq] at hr₀ huid
        simpa [expireWritten, Op.banWritten, Ne.symm huid] using hr₀
    · rw [hrows] at hmem
      simpa [expireWritten, Op.banWritten] using hmem
  · obtain ⟨rfl, hrows⟩ | ⟨⟨e, rfl⟩, hrows⟩ := h.insertBannedUser_eq
    · have hcount := h.bans_eq uid
      rw [hrows, List.mem_append, List.mem_singleton, BannedUserRow.mk.injEq] at hmem
      by_cases huid : uid' = uid
      · rcases hmem with hold | ⟨_, hte⟩
        · -- there would be two
          have hpos : 0 < w.bans uid := List.countP_pos_iff.mpr ⟨_, hold, by simp⟩
          rw [if_pos (by simp [Op.banned, huid])] at hcount
          omega
        · simpa [expireWritten, Op.banWritten, huid] using hte
      · have hold := hmem.resolve_right fun hnew ↦ huid hnew.1.symm
        simpa [expireWritten, Op.banWritten, huid] using hold
    · rw [hrows] at hmem
      simpa [expireWritten, Op.banWritten] using hmem

theorem isLatest_of_mem {ι : Type} [DecidableEq ι]
    {c c' : Pool ι Op Op.Result Exn Reply (World b)} {l : List (ι × Action b)}
    (h : Pool.Steps Op.Step c l c') {uid te : ℤ} (hone : c'.state.bans uid ≤ 1)
    (hmem : ⟨uid, te⟩ ∈ c'.state.db.banned_users) : IsLatest c.state l uid te := by
  induction h generalizing te with
  | nil => exact hmem
  | @snoc c' l i o k r w' _ _ hs ih =>
    -- no step removes a ban, so there was at most one before
    have hone' : c'.state.bans uid ≤ 1 := by
      rw [hs.bans_eq uid] at hone
      omega
    have hstep := hs.expire_eq hone hmem
    rw [IsLatest, List.filterMap_append]
    rcases hwritten : expireWritten uid ⟨c'.state, o, r, w'⟩ with _ | te'
    · rw [hwritten] at hstep
      have hnothing : ([(i, ⟨c'.state, o, r, w'⟩)] : List (ι × Action b)).filterMap
          (fun x ↦ expireWritten uid x.2) = [] := by simp [hwritten]
      rw [hnothing, List.append_nil]
      exact ih hone' hstep
    · rw [hwritten] at hstep
      have hwrite : ([(i, ⟨c'.state, o, r, w'⟩)] : List (ι × Action b)).filterMap
          (fun x ↦ expireWritten uid x.2) = [te'] := by simp [hwritten]
      rw [hwrite, List.getLast?_concat]
      exact hstep

/-! ## Any number of admins -/

variable {ι : Type} [DecidableEq ι]

/-- No two rows of a user, and the one there is is the latest ban. -/
structure SingleBans (w w' : World b) (l : List (ι × Action b)) : Prop where
  bans : ∀ uid, w'.bans uid ≤ 1
  latest : ∀ uname te, w'.ban uname = some te →
    ∃ u ∈ w'.db.users.rows, u.uname = uname ∧ IsLatest w l u.user_id te

/-- **A second row needs an insert in between.** Whatever requests are handled at the same time, and
however their steps interleave: every user has at most one ban, and `isUserBanned` reads the latest,
if and only if nobody inserts a ban of a user between a call's look for one and the call's own
insert. -/
theorem single_bans_iff {c c' : Pool ι Op Op.Result Exn Reply (World b)} {l : List (ι × Action b)}
    (hstart : ∀ uid, c.state.bans uid ≤ 1) (hreq : ∀ i, ∃ r : Request, c.thread i = r.handle)
    (h : Pool.Steps Op.Step c l c') :
    SingleBans c.state c'.state l ↔ ∀ uid, Undisturbed (FindsNoBan uid) (InsertsBan uid) l := by
  have hphased : ∀ i, LookingFirst (c.thread i) none := by
    intro i
    obtain ⟨r, hr⟩ := hreq i
    rw [hr]
    exact handle_lookingFirst r none
  -- the count of a user's rows, which is checked before it is raised
  have hone : ∀ uid, c'.state.bans uid ≤ 1 ↔ Undisturbed (FindsNoBan uid) (InsertsBan uid) l := by
    intro uid
    refine le_one_iff (n := fun w : World b ↦ w.bans uid) (fun x _ hs ↦ hs.bans_eq uid) h.run
      (h.prepared hphased fun e' t hact hallowed ↦ ?_) (fun x hx hcheck ↦ ?_) (hstart uid)
    · obtain ⟨days, hop⟩ := Op.eq_of_banned hact
      rw [hop] at hallowed
      obtain rfl : t = some uid := hallowed
      exact ⟨by simp, fun e hnext ↦ hnext⟩
    · have hs : Op.Step x.2.op x.2.before x.2.result x.2.after := h.sem_of_mem hx
      refine ⟨hs.bans_eq_zero hcheck, fun hact ↦ ?_⟩
      have htarget := Op.target_of_banned hact
      rw [Op.eq_of_missing hcheck] at htarget
      simp [Op.target, Statement.target] at htarget
  constructor
  · intro hsingle uid
    exact (hone uid).mp (hsingle.bans uid)
  · intro hundisturbed
    have hbans : ∀ uid, c'.state.bans uid ≤ 1 := fun uid ↦ (hone uid).mpr (hundisturbed uid)
    refine ⟨hbans, fun uname te hban ↦ ?_⟩
    obtain ⟨u, hu, huname, hmem⟩ := World.exists_of_ban hban
    exact ⟨u, hu, huname, isLatest_of_mem h (hbans u.user_id) hmem⟩

/-! ## Two admins at once -/

/-- The server of root, an admin, and bob. -/
private def rootAndBob : World .postgres :=
  (serve (World.start .postgres 0) [.CreateUser ⟨"root", "pw", false⟩,
    .CreateUser ⟨"bob", "pw", false⟩]).2

/-- Root bans bob twice, from two clients. -/
private def banTwice : Pool Bool Op Op.Result Exn Reply (World .postgres) :=
  ⟨rootAndBob, fun i ↦ (Request.BanUser [("auth-uname", "root"), ("auth-token", "pw")]
    ⟨"bob", if i then 1 else 2⟩).handle⟩

private theorem bans_banTwice (uid : ℤ) : banTwice.state.bans uid ≤ 1 := by
  have hnone : banTwice.state.db.banned_users = [] := by decide
  rw [World.bans, hnone, List.countP_nil]
  exact Nat.zero_le 1

theorem single_bans_iff_inTurn :
    SingleBans banTwice.state (Pool.replay Op.exec banTwice
          (List.replicate 8 true ++ List.replicate 8 false)).2.state
        (Pool.replay Op.exec banTwice (List.replicate 8 true ++ List.replicate 8 false)).1 ↔
      ∀ uid, Undisturbed (FindsNoBan uid) (InsertsBan uid)
        (Pool.replay Op.exec banTwice (List.replicate 8 true ++ List.replicate 8 false)).1 :=
  single_bans_iff bans_banTwice (fun _ ↦ ⟨.BanUser _ _, rfl⟩) (Pool.replay_sound Op.step_exec _ _)

/-- Both calls look for a ban of bob before either has inserted one. -/
theorem exists_doubleBan :
    ¬∀ (c c' : Pool Bool Op Op.Result Exn Reply (World .postgres))
      (l : List (Bool × Action .postgres)), (∀ uid, c.state.bans uid ≤ 1) →
      (∀ i, ∃ cmeta request, c.thread i = (Request.BanUser cmeta request).handle) →
      Pool.Steps Op.Step c l c' → ∀ uid, c'.state.bans uid ≤ 1 := by
  intro h
  have hone := h banTwice _ _ bans_banTwice (fun _ ↦ ⟨_, _, rfl⟩)
    (Pool.replay_sound Op.step_exec banTwice
      (List.replicate 7 true ++ List.replicate 7 false ++ [true, false])) 2
  exact absurd hone (by decide)

end Wrongthink
