import Wrongthink.Atomicity.Linearizable
import Wrongthink.Users.Registration

/-!
# Checks that are overtaken

Two handlers look before they write: `createUser` counts the admins, and `banUser` looks for a ban
of the user. Where nobody comes in between, the calls might as well have been handled one after the
other. Where somebody does, two users are made admins, or one is banned twice, and no history
explains that. So a run has a history if and only if no check is overtaken (`linearizable_iff`).

On a server that has an admin, and where no two calls ban the same user for the first time, no check
can be overtaken, whatever the schedule (`linearizable_of_settled`).

The interceptor is left out. Its `isUserBanned` looks for a peer before it inserts it, and can be
overtaken like these.
-/

namespace Wrongthink

open Concurrent

variable {b : Backend} {ι : Type} [DecidableEq ι] {calls : ι → Request}
  {c c' : Pool ι Op Op.Result Exn Reply (World b)} {l : List (ι × Action b)}

/-! ## A server with an admin -/

theorem undisturbed_of_led (hled : c.state.Led) (h : Pool.Steps Op.Step c l c') :
    Undisturbed CountsNoAdmin InsertsUser l := by
  intro l₀ i e m e' l₂ hl _ hcounts
  have hs : Op.Step e.op e.before e.result e.after := h.sem_of_mem (x := (i, e)) (by rw [hl]; simp)
  obtain ⟨u, hu, hadmin⟩ := hled.grows ((h.upTo hl).le fun _ _ hs ↦ hs.grows).1
  have hnone := (hs.counted_iff hcounts).mpr rfl
  rw [List.countP_eq_zero] at hnone
  exact absurd hadmin (hnone u hu)

/-! ## Bans of different users -/

/-- A ban is only inserted for the user of this name. -/
def Naming (uname : String) : Semantics Op Op.Result Exn (World b) := fun o w _ _ ↦
  ∀ uid days, o = .sql (.insertBannedUser uid days) →
    ∃ u ∈ w.db.users.rows, u.uname = uname ∧ u.user_id = uid

abbrev Names {α : Type} (uname : String) (p : Routine α) (w : World b) : Prop :=
  p.Safe Op.Step World.Grows (Naming uname) (fun _ _ ↦ True) (fun _ _ ↦ True) w

theorem dbBanUser_names (uname : String) (days : ℤ) (w : World b) :
    Names uname (DBPostgres.banUser uname days) w := by
  refine Prog.Safe.perform_bind (fun _ _ _ _ _ _ _ ↦ nofun) (fun _ _ _ _ _ ↦ ?_)
    (fun _ _ _ _ _ _ _ ↦ trivial)
  refine Prog.Safe.perform_bind (fun _ _ _ _ _ _ _ ↦ nofun) (fun w₁ _ uid w₂ hs ↦ ?_)
    (fun _ _ _ _ _ _ _ ↦ trivial)
  cases uid with
  | none => exact fun _ _ ↦ trivial
  | some uid =>
    obtain ⟨d, hr, _⟩ := hs.ok
    have hfind : some uid = (w₁.db.users.rows.find? fun u ↦ u.uname = uname).map (·.user_id) :=
      Except.ok.inj hr
    obtain ⟨u, hu, huid⟩ := Option.map_eq_some_iff.mp hfind.symm
    have huname : u.uname = uname := by simpa using List.find?_some hu
    have hstored : u ∈ w₂.db.users.rows := hs.grows.db.users.subset (List.mem_of_find?_eq_some hu)
    -- from here on it is this user that is written
    have honly : ∀ found : Bool, (if found then
        sql (.updateBannedUser (DBPostgres.banLength days) uid)
        else sql (.insertBannedUser uid (DBPostgres.banLength days))).Only
          fun o ↦ ∀ uid' days', o = .sql (.insertBannedUser uid' days') → uid' = uid := by
      intro found
      cases found with
      | true => exact (Prog.only_perform _ _).mpr nofun
      | false =>
        refine (Prog.only_perform _ _).mpr fun uid' days' ho ↦ ?_
        injection ho with ho
        injection ho with huid' _
        exact huid'.symm
    refine Prog.Safe.of_only (I := fun v ↦ u ∈ v.db.users.rows)
      (P := fun o ↦ ∀ uid' days', o = .sql (.insertBannedUser uid' days') → uid' = uid)
      (fun _ _ hle hu ↦ hle.db.users.subset hu)
      (fun o w _ _ ho hu hs ↦ ⟨fun uid' days' heq ↦ ?_, hs.grows⟩)
      ?_ hstored
    · exact ⟨u, hu, huname, huid.trans (ho uid' days' heq).symm⟩
    · exact (Prog.only_perform_bind _ _ _).mpr ⟨nofun, honly⟩

theorem handle_names {cmeta : Metadata} {request : BanUserRequest} (w : World b) :
    Names request.uname (Request.BanUser cmeta request).handle w := by
  rcases hcreds : WrongthinkTokenAuth.credentials cmeta with _ | creds
  · have hhas : WrongthinkTokenAuth.hasCredentials cmeta = false := by
      rw [← Bool.not_eq_true, WrongthinkTokenAuth.hasCredentials_iff, hcreds]
      simp
    rw [handle_banUser_of_missing request hhas]
    exact fun _ _ ↦ trivial
  · rw [handle_banUser request hcreds]
    refine safe_caught ?_
    refine Prog.Safe.perform_bind (fun _ _ _ _ _ _ _ ↦ nofun) (fun _ _ _ _ _ ↦ ?_)
      (fun _ _ _ _ _ _ _ ↦ trivial)
    refine Prog.Safe.perform_bind (fun _ _ _ _ _ _ _ ↦ nofun) (fun _ _ valid _ _ ↦ ?_)
      (fun _ _ _ _ _ _ _ ↦ trivial)
    cases valid with
    | false => exact fun _ _ ↦ trivial
    | true =>
      refine Prog.Safe.perform_bind (fun _ _ _ _ _ _ _ ↦ nofun) (fun _ _ _ _ _ ↦ ?_)
        (fun _ _ _ _ _ _ _ ↦ trivial)
      refine Prog.Safe.perform_bind (fun _ _ _ _ _ _ _ ↦ nofun) (fun _ _ admin _ _ ↦ ?_)
        (fun _ _ _ _ _ _ _ ↦ trivial)
      cases admin with
      | false => exact fun _ _ ↦ trivial
      | true => exact (dbBanUser_names _ _ _).bind fun _ _ _ _ _ ↦ trivial

theorem exists_banUser_of_insertsBan (hcalls : ∀ i, c.thread i = (calls i).handle)
    (h : Pool.Steps Op.Step c l c') {i : ι} {e : Action b} (he : (i, e) ∈ l) {uid : ℤ}
    (hinserts : InsertsBan uid e) : ∃ cmeta request, calls i = .BanUser cmeta request ∧
      ∃ u ∈ c'.state.db.users.rows, u.uname = request.uname ∧ u.user_id = uid := by
  have htarget := Op.target_of_banned hinserts
  have htr := h.view_trace i
  rw [hcalls i] at htr
  have hwithin := ((calls i).handle_only.trace htr).1 e (mem_view.mpr he)
  obtain ⟨cmeta, request, hcall⟩ : ∃ cmeta request, calls i = .BanUser cmeta request := by
    cases hcall : calls i with
    | BanUser cmeta request => exact ⟨cmeta, request, rfl⟩
    | _ =>
      rw [hcall] at hwithin
      exact absurd htarget (hwithin.target_ne (by simp [Request.target]))
  have hnames : Names request.uname (c.thread i) c.state := by
    rw [hcalls i, hcall]
    exact handle_names _
  obtain ⟨days, hop⟩ := Op.eq_of_banned hinserts
  obtain ⟨u, hu, huname, huid⟩ := (Pool.Steps.safe_thread (fun _ _ _ _ hs ↦ hs.grows) hnames h).2 e
    (mem_view.mpr he) uid days hop
  have hgrows : e.before.Grows c'.state := (grows_of_steps h he).1
  exact ⟨cmeta, request, hcall, u, hgrows.db.users.subset hu, huname, huid⟩

/-- Of two calls that ban the same user, the second finds a ban already. -/
def BansApart (calls : ι → Request) (w : World b) : Prop := ∀ i j cmeta cmeta' request request',
  calls i = .BanUser cmeta request → calls j = .BanUser cmeta' request' →
    request.uname = request'.uname → i = j ∨ w.ban request.uname ≠ none

theorem undisturbed_of_bansApart (hapart : BansApart calls c.state)
    (hcalls : ∀ i, c.thread i = (calls i).handle) (h : Pool.Steps Op.Step c l c') (uid : ℤ) :
    Undisturbed (FindsNoBan uid) (InsertsBan uid) l := by
  rintro l₀ i e m e' l₂ hl hview hfinds hinserts ⟨j, f⟩ hf hact
  obtain ⟨cmeta, request, hi, u, hu, huname, huid⟩ :=
    exists_banUser_of_insertsBan hcalls h (i := i) (e := e') (by rw [hl]; simp) hinserts
  obtain ⟨cmeta', request', hj, u', hu', huname', huid'⟩ :=
    exists_banUser_of_insertsBan hcalls h (i := j) (e := f) (by rw [hl]; simp [hf]) hact
  obtain rfl : u = u' := List.inj_on_of_nodup_map c'.state.db.users.nodup_keys hu hu'
    (huid.trans huid'.symm)
  rcases hapart i j _ _ _ _ hi hj (huname.symm.trans huname') with rfl | hban
  · -- then the one in between would be an action of the same call
    have hmem := mem_view.mpr hf
    rw [hview] at hmem
    simp at hmem
  · -- the ban that was there from the start would have been found
    obtain ⟨te, hte⟩ := Option.ne_none_iff_exists'.mp hban
    obtain ⟨v, hv, hvname, hmem⟩ := World.exists_of_ban hte
    have hstart := (h.run.le (R := World.Grows) fun _ _ hs ↦ hs.grows).1
    obtain rfl : v = u := c'.state.db.eq_of_uname_eq (hstart.db.users.subset hv) hu
      (hvname.trans huname.symm)
    have hs : Op.Step e.op e.before e.result e.after :=
      h.sem_of_mem (x := (i, e)) (by rw [hl]; simp)
    have hpos : 0 < c.state.bans uid := List.countP_pos_iff.mpr ⟨_, hmem, by simpa using huid⟩
    have hretains := ((h.upTo hl).le (R := World.Retains) fun _ _ hs ↦ hs.retains).1.bans uid
    have hzero := hs.bans_eq_zero hfinds
    dsimp only at hretains
    omega

/-- **Any schedule of a settled server has a history.** There is an admin, and of the calls that go
on at the same time no two are the first to ban the same user. -/
theorem linearizable_of_settled (hled : c.state.Led) (hapart : BansApart calls c.state)
    (hstream : ∀ i reader, calls i ≠ .SendWrongthinkMessage reader)
    (hcalls : ∀ i, c.thread i = (calls i).handle) (h : Pool.Steps Op.Step c l c') :
    ∃ ss, Linearized calls c c' l ss :=
  exists_linearized hstream (undisturbed_of_led hled h)
    (undisturbed_of_bansApart hapart hcalls h) hcalls h

/-- Root bans a user, while somebody signs up. -/
private def banAndSignUp (i : Bool) : Request :=
  if i then .BanUser [("auth-uname", "root"), ("auth-token", "pw")] ⟨"root", 1⟩
  else .GenerateUser "a-b" "c"

private def rooted : Pool Bool Op Op.Result Exn Reply (World .postgres) :=
  ⟨(serve (World.start .postgres 0) [.CreateUser ⟨"root", "pw", false⟩]).2,
    fun i ↦ (banAndSignUp i).handle⟩

theorem linearizable_of_settled_banAndSignUp :
    let played := Pool.replay Op.exec rooted
      [true, false, true, false, true, false, true, false, true, true, true, true]
    ∃ ss, Linearized banAndSignUp rooted played.2 played.1 ss := by
  refine linearizable_of_settled ?_ ?_ ?_ (fun _ ↦ rfl) (Pool.replay_sound Op.step_exec _ _)
  · exact ⟨⟨1, "root", "pw", true⟩, by decide, rfl⟩
  · intro i j cmeta cmeta' request request' hi hj _
    cases i with
    | false => cases hi
    | true =>
      cases j with
      | false => cases hj
      | true => exact .inl rfl
  · intro i reader hi
    cases i <;> cases hi

/-! ## A run with a history -/

theorem World.Explains.rows {v w : World b} (h : v.Explains w) (T : Table) :
    w.db.rows T = v.db.rows T := by
  obtain ⟨gaps, hgaps⟩ := h
  rw [hgaps]
  exact Tables.rows_skip _ _ _

theorem bans_le_one_iff (hone : ∀ uid, c.state.bans uid ≤ 1)
    (hreq : ∀ i, ∃ r : Request, c.thread i = r.handle) (h : Pool.Steps Op.Step c l c') (uid : ℤ) :
    c'.state.bans uid ≤ 1 ↔ Undisturbed (FindsNoBan uid) (InsertsBan uid) l := by
  have hphased : ∀ i, LookingFirst (c.thread i) none := by
    intro i
    obtain ⟨r, hr⟩ := hreq i
    rw [hr]
    exact handle_lookingFirst r none
  refine le_one_iff (n := fun w : World b ↦ w.bans uid) (fun x _ hs ↦ hs.bans_eq uid) h.run
    (h.prepared hphased fun e' t hact hallowed ↦ ?_) (fun x hx hcheck ↦ ?_) (hone uid)
  · obtain ⟨days, hop⟩ := Op.eq_of_banned hact
    rw [hop] at hallowed
    obtain rfl : t = some uid := hallowed
    exact ⟨by simp, fun e hnext ↦ hnext⟩
  · have hs : Op.Step x.2.op x.2.before x.2.result x.2.after := h.sem_of_mem hx
    refine ⟨hs.bans_eq_zero hcheck, fun hact ↦ ?_⟩
    have htarget := Op.target_of_banned hact
    rw [Op.eq_of_missing hcheck] at htarget
    cases htarget

section Served

variable {s : Served b} {w w' : World b}

theorem Served.Handled.bans_le_one (h : s.Handled w w') (hw : ∀ uid, w.bans uid ≤ 1) (uid : ℤ) :
    w'.bans uid ≤ 1 := by
  refine (bans_le_one_iff hw (fun _ ↦ ⟨s.request, rfl⟩) (.of_trace h.trace h.run) uid).mpr ?_
  rintro l₀ i e m e' l₂ hl hview _ _ x hx
  have hmem : x.2 ∈ view i m := mem_view.mpr hx
  rw [hview] at hmem
  simp at hmem

theorem Served.Handled.bootstrapped (h : s.Handled w w') (hasks : s.request.asksForAdmin = false)
    (hfirst : w.AdminFirst) (hboot : Bootstrapped w) : Bootstrapped w' ∧ w'.AdminFirst := by
  have hleads : w.Leads w' := by
    have hsafe := (handle_leading s.request w).run h.trace h.run
    exact (h.run.le (R := World.Leads) fun e he _ ↦ hsafe.2 e he).1
  refine ⟨?_, hleads.adminFirst hfirst⟩
  have hsame : w'.db.users.rows = w.db.users.rows → Bootstrapped w' := by
    intro hrows
    refine bootstrapped_of_first fun u hu ↦ ?_
    rw [World.admins, hrows] at hu
    rw [hrows]
    exact hboot.first u hu
  rcases hg : s.request.registration with _ | g
  · exact hsame (h.frame (Request.target_of_registration_none hg))
  rcases h.registers hg with ⟨_, hrows, _⟩ | ⟨_, row, hsigns, _⟩
  · exact hsame hrows
  have hadmin : g.admin = false := by
    cases hr : s.request with
    | GenerateUser _ _ =>
      rw [hr] at hg
      obtain rfl := Option.some.inj hg
      rfl
    | CreateUser _ =>
      rw [hr] at hg hasks
      obtain rfl := Option.some.inj hg
      exact hasks
    | _ =>
      rw [hr] at hg
      cases hg
  refine bootstrapped_of_first fun u hu ↦ ?_
  rw [World.admins, hsigns.rows, List.filter_append, List.mem_append] at hu
  rw [hsigns.rows]
  by_cases hled : w.Led
  · -- the new user is no admin
    have hnot : row.admin = false := by
      rw [← Bool.not_eq_true, hsigns.admin, hadmin]
      simp [hled]
    obtain hu | hu := hu
    · rw [List.head?_append, hboot.first u hu]
      rfl
    · simp [hnot] at hu
  · have hnone : w.db.users.rows = [] := by
      by_contra hne
      exact hled (hfirst hne)
    rw [hnone] at hu ⊢
    have hrow : u = row := by
      rcases hu with hu | hu
      · cases hu
      · exact List.mem_singleton.mp (List.mem_of_mem_filter hu)
    rw [hrow]
    rfl

end Served

theorem Serve.bans_le_one {w w' : World b} {ss : List (Served b)} (h : Serve w ss w')
    (hw : ∀ uid, w.bans uid ≤ 1) : ∀ uid, w'.bans uid ≤ 1 := by
  induction h with
  | nil => exact hw
  | cons hs _ ih => exact ih (hs.bans_le_one hw)

theorem Serve.bootstrapped {w w' : World b} {ss : List (Served b)} (h : Serve w ss w')
    (hasks : ∀ s ∈ ss, s.request.asksForAdmin = false) (hfirst : w.AdminFirst)
    (hboot : Bootstrapped w) : Bootstrapped w' := by
  induction h with
  | nil => exact hboot
  | cons hs _ ih =>
    obtain ⟨hask, hasks⟩ := List.forall_mem_cons.mp hasks
    obtain ⟨hboot, hfirst⟩ := hs.bootstrapped hask hfirst hboot
    exact ih hasks hfirst hboot

/-- A count of no admins that is overtaken leaves a second one. -/
theorem undisturbed_of_bootstrapped (hstart : c.state.db.users.rows = [])
    (hasks : ∀ i, (calls i).asksForAdmin = false) (hcalls : ∀ i, c.thread i = (calls i).handle)
    (h : Pool.Steps Op.Step c l c') (hboot : Bootstrapped c'.state) :
    Undisturbed CountsNoAdmin InsertsUser l := by
  have hreq : ∀ i, ∃ r : Request, c.thread i = r.handle := fun i ↦ ⟨calls i, hcalls i⟩
  intro l₀ i e m e' l₂ hl hview hcounts hinserts
  have hphased : CountingFirst (c.thread i) none := by
    rw [hcalls i]
    exact handle_countingFirst (hasks i) none
  have hallowed : CountsFirst (e.op.counted e.result) e'.op := h.allowed_next hphased hl hview
  obtain ⟨admin, hadmin⟩ := Option.isSome_iff_exists.mp hinserts
  obtain ⟨uname, token, hop⟩ := Op.eq_of_registered hadmin
  rw [hop, hcounts] at hallowed
  obtain rfl : true = admin := Option.some.inj hallowed
  obtain ⟨hs, _, hgrows⟩ := leads_of_steps hreq h (x := (i, e')) (by rw [hl]; simp)
  exact (users_eq_nil_iff hstart hreq h hl hcounts).mp (hboot.eq_nil hs hgrows hadmin)

/-- **A run has a history if and only if no check is overtaken.** At the start no user has two bans
and the users, if there are any, are led by an admin; nobody asks for an admin. Then the calls can
be explained one after the other exactly if no user is inserted between a count of no admins and the
insert it is for, and no ban of a user between the look for one and the insert of one. -/
theorem linearizable_iff (hone : ∀ uid, c.state.bans uid ≤ 1) (hfirst : c.state.AdminFirst)
    (hasks : ∀ i, (calls i).asksForAdmin = false)
    (hstream : ∀ i reader, calls i ≠ .SendWrongthinkMessage reader)
    (hcalls : ∀ i, c.thread i = (calls i).handle) (h : Pool.Steps Op.Step c l c') :
    (∃ ss, Linearized calls c c' l ss) ↔ Undisturbed CountsNoAdmin InsertsUser l ∧
      ∀ uid, Undisturbed (FindsNoBan uid) (InsertsBan uid) l := by
  refine ⟨?_, fun ⟨hcount, hbans⟩ ↦ exists_linearized hstream hcount hbans hcalls h⟩
  rintro ⟨ss, hss⟩
  obtain ⟨w', hserve, hw'⟩ := hss.serve
  have husers : c'.state.db.users.rows = w'.db.users.rows := hw'.rows .users
  have hbanned : c'.state.db.banned_users = w'.db.banned_users := hw'.rows .banned_users
  refine ⟨?_, fun uid ↦ ?_⟩
  · by_cases hstart : c.state.db.users.rows = []
    · refine undisturbed_of_bootstrapped hstart hasks hcalls h ?_
      have hboot : Bootstrapped w' := by
        refine hserve.bootstrapped (fun s hs ↦ ?_) hfirst (bootstrapped_of_first fun u hu ↦ ?_)
        · obtain ⟨x, hx, rfl⟩ := List.mem_map.mp hs
          rw [(hss.accounts x hx).request]
          exact hasks x.1
        · rw [World.admins, hstart] at hu
          simp at hu
      refine bootstrapped_of_first fun u hu ↦ ?_
      rw [World.admins, husers] at hu
      rw [husers]
      exact hboot.first u hu
    · exact undisturbed_of_led (hfirst hstart) h
  · refine (bans_le_one_iff hone (fun i ↦ ⟨calls i, hcalls i⟩) h uid).mp ?_
    rw [World.bans, hbanned]
    exact hserve.bans_le_one hone uid

/-- Two users sign up on a new server, and both count no admin. -/
private def twoSignUps (i : Bool) : Request := .GenerateUser (if i then "a" else "b") "c"

theorem linearizable_iff_signUps :
    let start : Pool Bool Op Op.Result Exn Reply (World .postgres) :=
      ⟨World.start .postgres 0, fun i ↦ (twoSignUps i).handle⟩
    let played := Pool.replay Op.exec start [true, true, false, false, true, false, true, false]
    (∃ ss, Linearized twoSignUps start played.2 played.1 ss) ↔
      Undisturbed CountsNoAdmin InsertsUser played.1 ∧
        ∀ uid, Undisturbed (FindsNoBan uid) (InsertsBan uid) played.1 :=
  linearizable_iff (fun _ ↦ Nat.zero_le 1) (fun hne ↦ absurd rfl hne) (fun _ ↦ rfl)
    (fun _ _ ↦ nofun) (fun _ ↦ rfl) (Pool.replay_sound Op.step_exec _ _)

end Wrongthink
