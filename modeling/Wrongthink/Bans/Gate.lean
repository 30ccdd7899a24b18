import Wrongthink.Service.Frame

/-!
# The gate of `BanUser`

The handler asks whether the caller's name and token belong to a user, then whether that name is an
admin's, and only then bans. The three parts run in sessions of their own, and anything may happen
between them. The gate holds all the same: a user who has been found stays, with the same name,
token and rights, because no statement changes or removes a row of `users`; and since names are
unique, the admin that the second query finds is the user that the first one found.
-/

namespace Wrongthink

open Concurrent

variable {b : Backend}

/-! ## Credentials -/

namespace WrongthinkTokenAuth

theorem find_eq_none_iff {cmeta : Metadata} {key : String} :
    find cmeta key = none ↔ count cmeta key = 0 := by
  simp [find, count, List.countP_eq_zero]

/-- `hasCredentials` is exactly the precondition of `getCredentials`. -/
theorem hasCredentials_iff {cmeta : Metadata} :
    hasCredentials cmeta = true ↔ ∃ creds, credentials cmeta = some creds := by
  by_cases huname : count cmeta AUTH_UNAME_KEY = 0
  · have hfind : find cmeta AUTH_UNAME_KEY = none := find_eq_none_iff.mpr huname
    simp [hasCredentials, credentials, huname, hfind]
  by_cases htoken : count cmeta AUTH_TOKEN_KEY = 0
  · have hfind : find cmeta AUTH_TOKEN_KEY = none := find_eq_none_iff.mpr htoken
    simp [hasCredentials, credentials, htoken, hfind]
  · obtain ⟨uname, huname'⟩ := Option.ne_none_iff_exists'.mp (find_eq_none_iff.not.mpr huname)
    obtain ⟨token, htoken'⟩ := Option.ne_none_iff_exists'.mp (find_eq_none_iff.not.mpr htoken)
    simp [hasCredentials, credentials, huname, htoken, huname', htoken']

theorem getCredentials_eq {cmeta : Metadata} {creds : String × String}
    (h : credentials cmeta = some creds) : getCredentials cmeta = .done creds := by
  rw [getCredentials, h]
  rfl

end WrongthinkTokenAuth

/-! ## What the two queries establish -/

namespace World

/-- The users with this name and this token. -/
def usersOf (w : World b) (creds : String × String) : List UserRow :=
  w.db.users.rows.filter fun u ↦ u.uname = creds.1 ∧ u.token = creds.2

/-- One single user has this name and this token, and is an admin. -/
def Grants (w : World b) (creds : String × String) : Prop :=
  ∃ u, w.usersOf creds = [u] ∧ u.admin = true

theorem usersOf_eq_singleton {w : World b} {u : UserRow} (hu : u ∈ w.db.users.rows) :
    w.usersOf (u.uname, u.token) = [u] := by
  have hname : (w.db.users.rows.filter fun v ↦ v.uname = u.uname) = [u] :=
    Relational.filter_eq_singleton w.db.valid.users_uname hu
  have hsplit : w.usersOf (u.uname, u.token) =
      (w.db.users.rows.filter fun v ↦ v.uname = u.uname).filter fun v ↦ v.token = u.token := by
    rw [List.filter_filter, usersOf]
    congr 1
    funext v
    simp [Bool.and_comm]
  rw [hsplit, hname]
  simp

theorem grants_iff {w : World b} {creds : String × String} :
    w.Grants creds ↔
      ∃ u ∈ w.db.users.rows, u.uname = creds.1 ∧ u.token = creds.2 ∧ u.admin = true := by
  constructor
  · rintro ⟨u, hu, hadmin⟩
    have hmem : u ∈ w.usersOf creds := by simp [hu]
    simp only [usersOf, List.mem_filter, decide_eq_true_eq] at hmem
    exact ⟨u, hmem.1, hmem.2.1, hmem.2.2, hadmin⟩
  · rintro ⟨u, hu, huname, htoken, hadmin⟩
    have hcreds : creds = (u.uname, u.token) := Prod.ext huname.symm htoken.symm
    rw [hcreds]
    exact ⟨u, usersOf_eq_singleton hu, hadmin⟩

/-- Some user has this name and this token. -/
def HasPair (w : World b) (creds : String × String) : Prop :=
  ∃ u ∈ w.db.users.rows, u.uname = creds.1 ∧ u.token = creds.2

theorem HasPair.grows {w w' : World b} {creds : String × String} (h : w.HasPair creds)
    (hw : w.Grows w') : w'.HasPair creds := by
  obtain ⟨u, hu, hcreds⟩ := h
  exact ⟨u, hw.db.users.subset hu, hcreds⟩

/-- Names are unique, so an admin of this name is the user of the pair. -/
theorem HasPair.grants {w : World b} {creds : String × String} (h : w.HasPair creds)
    (hadmin : ∃ u ∈ w.db.users.rows, u.uname = creds.1 ∧ u.admin = true) : w.Grants creds := by
  obtain ⟨u, hu, huname, htoken⟩ := h
  obtain ⟨v, hv, hvname, hvadmin⟩ := hadmin
  have huv : u = v := w.db.eq_of_uname_eq hu hv (huname.trans hvname.symm)
  rw [← huv] at hvadmin
  exact grants_iff.mpr ⟨u, hu, huname, htoken, hvadmin⟩

theorem Grants.hasPair {w : World b} {creds : String × String} (h : w.Grants creds) :
    w.HasPair creds := by
  obtain ⟨u, hu, huname, htoken, _⟩ := grants_iff.mp h
  exact ⟨u, hu, huname, htoken⟩

theorem Grants.grows {w w' : World b} {creds : String × String} (h : w.Grants creds)
    (hw : w.Grows w') : w'.Grants creds := by
  rw [grants_iff] at h ⊢
  obtain ⟨u, hu, hcreds⟩ := h
  exact ⟨u, hw.db.users.subset hu, hcreds⟩

end World

theorem Op.Step.selectUser_iff {creds : String × String} {valid : Bool} {w w' : World b}
    (h : Op.Step (.sql (.selectUser creds.1 creds.2)) w (.ok valid) w') :
    valid = true ↔ w.HasPair creds := by
  obtain ⟨d, hr, _⟩ := h.ok
  have hvalid : valid = w.db.users.rows.any fun u ↦ u.uname = creds.1 ∧ u.token = creds.2 :=
    Except.ok.inj hr
  rw [hvalid, List.any_eq_true]
  simp only [decide_eq_true_eq]
  rfl

/-- `isUserAdmin` answers whether the name is an admin's; of a known pair it says whether the user
has the rights. -/
theorem Op.Step.selectAdmin_iff {creds : String × String} {admin : Bool} {w w' : World b}
    (h : Op.Step (.sql (.selectAdmin creds.1)) w (.ok admin) w') (hw : w.HasPair creds) :
    admin = true ↔ w.Grants creds := by
  obtain ⟨d, hr, _⟩ := h.ok
  have hadmin : admin = w.db.users.rows.any fun u ↦ u.uname = creds.1 ∧ u.admin :=
    Except.ok.inj hr
  rw [hadmin, List.any_eq_true]
  simp only [Bool.decide_and, Bool.decide_eq_true, Bool.and_eq_true, decide_eq_true_eq]
  refine ⟨hw.grants, fun hgrants ↦ ?_⟩
  obtain ⟨u, hu, huname, _, hua⟩ := World.grants_iff.mp hgrants
  exact ⟨u, hu, huname, hua⟩

/-! ## The call -/

/-- A step of a `BanUser` call: it asks about the rights of a pair it has found, and writes a ban
only for a caller who has them. -/
structure Guarded (cmeta : Metadata) (o : Op) (w : World b) (r : Except Exn o.Result)
    (w' : World b) : Prop where
  grows : w.Grows w'
  asks : ∀ creds, WrongthinkTokenAuth.credentials cmeta = some creds →
    o = .sql (.selectAdmin creds.1) → w.HasPair creds
  writes : o.target = some .banned_users →
    ∃ creds, WrongthinkTokenAuth.credentials cmeta = some creds ∧ w.Grants creds

/-- The judgement about a call, and what it has learned when it ends. -/
abbrev Guarding {α : Type} (cmeta : Metadata) (p : Routine α) (Q : α → World b → Prop)
    (w : World b) : Prop :=
  p.Safe Op.Step World.Grows (Guarded cmeta) Q (fun _ _ ↦ True) w

section Guarding

variable {cmeta : Metadata} {creds : String × String} {w : World b}
  (hcreds : WrongthinkTokenAuth.credentials cmeta = some creds)

theorem guarded_session {w' : World b} {r : Except Exn Unit} (h : Op.Step .session w r w') :
    Guarded cmeta .session w r w' := ⟨h.grows, fun _ _ ↦ nofun, nofun⟩

theorem isUserValid_guarding (w : World b) :
    Guarding cmeta (DBPostgres.isUserValid creds.1 creds.2)
      (fun valid w ↦ valid = true → w.HasPair creds) w := by
  refine Prog.Safe.perform_bind (fun _ _ _ _ h ↦ guarded_session h) (fun _ _ _ _ _ ↦ ?_)
    (fun _ _ _ _ _ _ _ ↦ trivial)
  refine Prog.Safe.perform (fun _ _ _ _ h ↦ ⟨h.grows, fun _ _ ↦ nofun, nofun⟩)
    (fun _ _ valid w' h t hle hvalid ↦ ?_) (fun _ _ _ _ _ _ _ ↦ trivial)
  exact (h.selectUser_iff.mp hvalid).grows (trans_of World.Grows h.grows hle)

include hcreds

theorem isUserAdmin_guarding (hw : w.HasPair creds) :
    Guarding cmeta (DBPostgres.isUserAdmin creds.1) (fun admin w ↦ admin = true → w.Grants creds)
      w := by
  refine Prog.Safe.perform_bind (fun _ _ _ _ h ↦ guarded_session h) (fun w₁ hle₁ _ w₂ h₂ ↦ ?_)
    (fun _ _ _ _ _ _ _ ↦ trivial)
  have hw₂ : w₂.HasPair creds := hw.grows (trans_of World.Grows hle₁ h₂.grows)
  refine Prog.Safe.perform (fun w₃ hle₃ _ _ h ↦ ⟨h.grows, fun creds' hcreds' _ ↦ ?_, nofun⟩)
    (fun w₃ hle₃ admin w' h t hle hadmin ↦ ?_) (fun _ _ _ _ _ _ _ ↦ trivial)
  · rw [hcreds, Option.some.injEq] at hcreds'
    rw [← hcreds']
    exact hw₂.grows hle₃
  · exact ((h.selectAdmin_iff (hw₂.grows hle₃)).mp hadmin).grows
      (trans_of World.Grows h.grows hle)

/-- Once the caller's rights are known, all that the rest of the call does is guarded by them. -/
theorem dbBanUser_guarding (uname : String) (days : ℤ) (hw : w.Grants creds) :
    Guarding cmeta (DBPostgres.banUser uname days) (fun _ _ ↦ True) w := by
  refine Prog.Safe.of_only (fun w w' hle (h : w.Grants creds) ↦ h.grows hle)
    (fun o _ _ _ _ hw h ↦ ?_)
    ((DBPostgres.banUser_aside uname days).mono fun _ ho ↦ ho.1) hw
  refine ⟨⟨h.grows, fun creds' hcreds' _ ↦ ?_, fun _ ↦ ⟨creds, hcreds, hw⟩⟩, h.grows⟩
  rw [hcreds, Option.some.injEq] at hcreds'
  rw [← hcreds']
  exact hw.hasPair

end Guarding

theorem banUser_guarding (cmeta : Metadata) (request : BanUserRequest) (w : World b) :
    Guarding cmeta (Request.BanUser cmeta request).handle (fun _ _ ↦ True) w := by
  refine safe_caught ?_
  by_cases hhas : WrongthinkTokenAuth.hasCredentials cmeta = true
  swap
  · rw [if_pos (by simpa using hhas)]
    exact fun _ _ ↦ trivial
  obtain ⟨creds, hcreds⟩ := WrongthinkTokenAuth.hasCredentials_iff.mp hhas
  rw [if_neg (by simp [hhas]), WrongthinkTokenAuth.getCredentials_eq hcreds, Prog.done_bind]
  refine (isUserValid_guarding w).bind fun valid w₁ hpair ↦ ?_
  cases valid with
  | false => exact fun _ _ ↦ trivial
  | true =>
    refine (isUserAdmin_guarding hcreds (hpair rfl)).bind fun admin w₂ hgrants ↦ ?_
    cases admin with
    | false => exact fun _ _ ↦ trivial
    | true =>
      exact (dbBanUser_guarding hcreds request.uname request.days (hgrants rfl)).bind
        fun _ _ _ _ _ ↦ trivial

/-! ## Refusals -/

/-- What the caller gets who is turned away. -/
abbrev refusal (message : String) : Routine Reply :=
  .done (⟨.UNAUTHENTICATED, message⟩, .generic "")

/-- The call is over, with a refusal, and has changed nothing. -/
def Refused (message : String) (tr : List (Action b)) (p' : Routine Reply) : Prop :=
  p' = refusal message ∧ ∀ e ∈ tr, e.op.target = none

theorem handle_banUser {cmeta : Metadata} {creds : String × String} (request : BanUserRequest)
    (hcreds : WrongthinkTokenAuth.credentials cmeta = some creds) :
    (Request.BanUser cmeta request).handle = caught .generic "" (do
      perform .session
      let valid ← sql (.selectUser creds.1 creds.2)
      if !valid then return (⟨.UNAUTHENTICATED, "Invalid user"⟩, "")
      else
        perform .session
        let admin ← sql (.selectAdmin creds.1)
        if !admin then return (⟨.UNAUTHENTICATED, "Invalid permission"⟩, "")
        else
          DBPostgres.banUser request.uname request.days
          return (Status.OK, "test")) := by
  have hhas : WrongthinkTokenAuth.hasCredentials cmeta = true :=
    WrongthinkTokenAuth.hasCredentials_iff.mpr ⟨creds, hcreds⟩
  rw [Request.handle, WrongthinkServiceImpl.banUser, if_neg (by simp [hhas]),
    WrongthinkTokenAuth.getCredentials_eq hcreds, Prog.done_bind]
  simp only [DBPostgres.isUserValid, DBPostgres.isUserAdmin, Prog.bind_assoc]

theorem handle_banUser_of_missing {cmeta : Metadata} (request : BanUserRequest)
    (hhas : WrongthinkTokenAuth.hasCredentials cmeta = false) :
    (Request.BanUser cmeta request).handle = refusal "No credentials attached to the channel" := by
  rw [Request.handle, WrongthinkServiceImpl.banUser, if_pos (by simp [hhas])]
  rfl

/-- The actions behind the gate: neither of the two queries among them. -/
def Op.BehindGate (o : Op) : Prop :=
  o ≠ .undefined ∧ (∀ uname token, o ≠ .sql (.selectUser uname token)) ∧
    ∀ uname, o ≠ .sql (.selectAdmin uname)

theorem dbBanUser_behindGate (uname : String) (days : ℤ) :
    (DBPostgres.banUser uname days).Only Op.BehindGate := by
  simp only [DBPostgres.banUser, Prog.only_perform_bind]
  refine ⟨by simp [Op.BehindGate], fun _ ↦ ⟨by simp [Op.BehindGate], fun uid ↦ ?_⟩⟩
  cases uid with
  | none => trivial
  | some uid =>
    refine (Prog.only_perform_bind _ _ _).mpr ⟨by simp [Op.BehindGate], fun found ↦ ?_⟩
    cases found <;> simp [Op.BehindGate]

theorem handle_banUser_defined (cmeta : Metadata) (request : BanUserRequest) :
    (Request.BanUser cmeta request).handle.Only (· ≠ .undefined) := by
  by_cases hhas : WrongthinkTokenAuth.hasCredentials cmeta = true
  · obtain ⟨creds, hcreds⟩ := WrongthinkTokenAuth.hasCredentials_iff.mp hhas
    rw [handle_banUser request hcreds]
    refine only_respond (WrongthinkServiceImpl.only_orInternal ?_)
    simp only [Prog.only_perform_bind]
    refine ⟨by simp, fun _ ↦ ⟨by simp, fun valid ↦ ?_⟩⟩
    cases valid with
    | false => trivial
    | true =>
      refine (Prog.only_perform_bind _ _ _).mpr ⟨by simp, fun _ ↦ ?_⟩
      refine (Prog.only_perform_bind _ _ _).mpr ⟨by simp, fun admin ↦ ?_⟩
      cases admin with
      | false => trivial
      | true =>
        exact ((dbBanUser_behindGate _ _).mono fun o ho ↦ ho.1).bind fun _ ↦ trivial
  · rw [handle_banUser_of_missing request (by simpa using hhas)]
    trivial

section Refusals

variable {cmeta : Metadata} {creds : String × String} {request : BanUserRequest}
  {tr : List (Action b)} {p' : Routine Reply} {w w' : World b}

theorem refused_of_trace (hcreds : WrongthinkTokenAuth.credentials cmeta = some creds)
    (h : (Request.BanUser cmeta request).handle.Trace tr p') :
    (⟨w, .sql (.selectUser creds.1 creds.2), .ok false, w'⟩ ∈ tr → Refused "Invalid user" tr p') ∧
      (⟨w, .sql (.selectAdmin creds.1), .ok false, w'⟩ ∈ tr →
        Refused "Invalid permission" tr p') := by
  rw [handle_banUser request hcreds] at h
  obtain ⟨q, hq, rfl⟩ := trace_caught h
  rcases Prog.trace_perform_bind_iff.mp hq with ⟨rfl, _⟩ | ⟨_, _, _, tr₁, rfl, h₁⟩ |
      ⟨_, _, _, rfl, _⟩
  · simp
  swap
  · simp
  rcases Prog.trace_perform_bind_iff.mp h₁ with
    ⟨rfl, _⟩ | ⟨_, valid, _, tr₂, rfl, h₂⟩ | ⟨_, _, _, rfl, _⟩
  · simp
  swap
  · simp
  cases valid with
  | false =>
    -- the call is over, and the second query is never made
    obtain ⟨rfl, rfl⟩ := Prog.trace_done_iff.mp h₂
    refine ⟨fun _ ↦ ⟨rfl, ?_⟩, by simp⟩
    simp [Op.target, Statement.target]
  | true =>
    rcases Prog.trace_perform_bind_iff.mp h₂ with
      ⟨rfl, _⟩ | ⟨_, _, _, tr₃, rfl, h₃⟩ | ⟨_, _, _, rfl, _⟩
    · simp
    swap
    · simp
    rcases Prog.trace_perform_bind_iff.mp h₃ with
      ⟨rfl, _⟩ | ⟨_, admin, _, tr₄, rfl, h₄⟩ | ⟨_, _, _, rfl, _⟩
    · simp
    swap
    · simp
    cases admin with
    | false =>
      obtain ⟨rfl, rfl⟩ := Prog.trace_done_iff.mp h₄
      refine ⟨by simp, fun _ ↦ ⟨rfl, ?_⟩⟩
      simp [Op.target, Statement.target]
    | true =>
      -- what is left of the call makes neither query
      have hlater : ∀ e ∈ tr₄, e.op.BehindGate := by
        refine (Prog.Only.trace ?_ h₄).1
        exact (dbBanUser_behindGate _ _).bind fun _ ↦ trivial
      refine ⟨fun he ↦ ?_, fun he ↦ ?_⟩
      · have he₄ : ⟨w, .sql (.selectUser creds.1 creds.2), .ok false, w'⟩ ∈ tr₄ := by
          simpa using he
        exact absurd rfl ((hlater _ he₄).2.1 _ _)
      · have he₄ : ⟨w, .sql (.selectAdmin creds.1), .ok false, w'⟩ ∈ tr₄ := by
          simpa using he
        exact absurd rfl ((hlater _ he₄).2.2 _)

/-- The call has ended, and no statement of it was lost. -/
structure Completed (tr : List (Action b)) (p' : Routine Reply) : Prop where
  ended : p'.outcome ≠ none
  linked : ∀ e ∈ tr, e.result ≠ .error .connectionFailure

/-- Such a call has made the first query; and the second, unless the first has found nobody. -/
theorem asked_of_trace (hcreds : WrongthinkTokenAuth.credentials cmeta = some creds)
    (h : (Request.BanUser cmeta request).handle.Trace tr p') (hp : Completed tr p')
    (hstep : ∀ e ∈ tr, Op.Step e.op e.before e.result e.after) :
    ∃ w valid w', ⟨w, .sql (.selectUser creds.1 creds.2), .ok valid, w'⟩ ∈ tr ∧
      (valid = true → ∃ v admin v', ⟨v, .sql (.selectAdmin creds.1), .ok admin, v'⟩ ∈ tr) := by
  have hok : ∀ {o : Op}, (∀ w : World b, ∃ v, (o.exec w).1 = .ok v) →
      ∀ e ∈ tr, e.op = o → e.result.isOk := by
    intro o ho e he hop
    subst hop
    rcases hr : e.result with x | v
    · have hs := hstep e he
      rw [hr] at hs
      rw [hs.error_eq ho] at hr
      exact absurd hr (hp.linked e he)
    · rfl
  rw [handle_banUser request hcreds] at h
  obtain ⟨q, hq, rfl⟩ := trace_caught h
  have hend : q.outcome ≠ none := fun hnone ↦ hp.ended (outcome_caught_eq_none hnone)
  obtain ⟨_, _, _, tr₁, rfl, h₁⟩ :=
    Prog.trace_perform_bind_ended hq hend (hok fun _ ↦ ⟨_, rfl⟩)
  obtain ⟨w, valid, w', tr₂, rfl, h₂⟩ := Prog.trace_perform_bind_ended h₁ hend
    fun e he ↦ hok (fun _ ↦ ⟨_, rfl⟩) e (List.mem_cons_of_mem _ he)
  refine ⟨w, valid, w', by simp, ?_⟩
  rintro rfl
  obtain ⟨_, _, _, tr₃, rfl, h₃⟩ := Prog.trace_perform_bind_ended h₂ hend
    fun e he ↦ hok (fun _ ↦ ⟨_, rfl⟩) e (List.mem_cons_of_mem _ (List.mem_cons_of_mem _ he))
  obtain ⟨v, admin, v', tr₄, rfl, _⟩ := Prog.trace_perform_bind_ended h₃ hend fun e he ↦
    hok (fun _ ↦ ⟨_, rfl⟩) e
      (List.mem_cons_of_mem _ (List.mem_cons_of_mem _ (List.mem_cons_of_mem _ he)))
  exact ⟨v, admin, v', by simp⟩

theorem admin_of_trace {response : Response}
    (hcreds : WrongthinkTokenAuth.credentials cmeta = some creds)
    (h : (Request.BanUser cmeta request).handle.Trace tr (.done (Status.OK, response))) :
    ∃ v v', ⟨v, .sql (.selectAdmin creds.1), .ok true, v'⟩ ∈ tr := by
  rw [handle_banUser request hcreds] at h
  obtain ⟨q, hq, hreply⟩ := trace_caught h
  obtain ⟨⟨status, answer⟩, rfl, heq⟩ | ⟨_, heq⟩ := caught_eq_done hreply.symm
  swap
  · cases (Prod.mk.inj heq).1
  obtain rfl : Status.OK = status := (Prod.mk.inj heq).1
  obtain ⟨_, _, _, tr₁, rfl, h₁⟩ := Prog.trace_perform_bind_done hq
  obtain ⟨_, valid, _, tr₂, rfl, h₂⟩ := Prog.trace_perform_bind_done h₁
  cases valid with
  | false => cases (Prog.trace_done_iff.mp h₂).2
  | true =>
    obtain ⟨_, _, _, tr₃, rfl, h₃⟩ := Prog.trace_perform_bind_done h₂
    obtain ⟨v, admin, v', tr₄, rfl, h₄⟩ := Prog.trace_perform_bind_done h₃
    cases admin with
    | false => cases (Prog.trace_done_iff.mp h₄).2
    | true => exact ⟨v, v', by simp⟩

end Refusals

/-! ## The gate -/

/-- What the gate promises about the actions of a call and what has become of it, in a run that has
come to `w'`. Nobody loses a name, a token or the rights, so a pair that is nobody's in `w'` has
never been anybody's. -/
structure GateKept (cmeta : Metadata) (tr : List (Action b)) (p' : Routine Reply) (w' : World b) :
    Prop where
  /-- A ban is written in the name of one single user, an admin, who gave name and token. -/
  authorised : ∀ e ∈ tr, e.op.target = some .banned_users →
    ∃ creds, WrongthinkTokenAuth.credentials cmeta = some creds ∧ e.before.Grants creds
  /-- A key is missing. -/
  missing : (∃ key ∈ [WrongthinkTokenAuth.AUTH_UNAME_KEY, WrongthinkTokenAuth.AUTH_TOKEN_KEY],
    key ∉ cmeta.map Prod.fst) →
      tr = [] ∧ p' = refusal "No credentials attached to the channel"
  /-- The pair matches no user when the first query looks for it. -/
  invalid : ∀ creds, WrongthinkTokenAuth.credentials cmeta = some creds → ∀ w valid w',
    ⟨w, .sql (.selectUser creds.1 creds.2), .ok valid, w'⟩ ∈ tr → ¬w.HasPair creds →
      Refused "Invalid user" tr p'
  /-- The user is no admin when the second query asks. -/
  notAdmin : ∀ creds, WrongthinkTokenAuth.credentials cmeta = some creds → ∀ w admin w',
    ⟨w, .sql (.selectAdmin creds.1), .ok admin, w'⟩ ∈ tr → ¬w.Grants creds →
      Refused "Invalid permission" tr p'
  /-- Unless it loses a statement, a call that has ended has made both queries; and it has left out
  the second only if the pair matched no user. -/
  asked : ∀ creds, WrongthinkTokenAuth.credentials cmeta = some creds → Completed tr p' →
    ∃ w valid w₁, ⟨w, .sql (.selectUser creds.1 creds.2), .ok valid, w₁⟩ ∈ tr ∧
      (w.HasPair creds → ∃ v admin v₁, ⟨v, .sql (.selectAdmin creds.1), .ok admin, v₁⟩ ∈ tr)
  unknown : ∀ creds, WrongthinkTokenAuth.credentials cmeta = some creds → Completed tr p' →
    ¬w'.HasPair creds → Refused "Invalid user" tr p'
  unauthorised : ∀ creds, WrongthinkTokenAuth.credentials cmeta = some creds → Completed tr p' →
    ¬w'.Grants creds → Refused "Invalid user" tr p' ∨ Refused "Invalid permission" tr p'
  /-- Whatever is lost, `OK` is for admins only. -/
  granted : ∀ response, p' = .done (Status.OK, response) →
    ∃ creds, WrongthinkTokenAuth.credentials cmeta = some creds ∧ w'.Grants creds
  /-- `getCredentials` dereferences nothing that is not there. -/
  defined : ∀ e ∈ tr, e.op ≠ .undefined

theorem not_hasCredentials {cmeta : Metadata}
    (h : ∃ key ∈ [WrongthinkTokenAuth.AUTH_UNAME_KEY, WrongthinkTokenAuth.AUTH_TOKEN_KEY],
      key ∉ cmeta.map Prod.fst) : WrongthinkTokenAuth.hasCredentials cmeta = false := by
  obtain ⟨key, hkey, hmem⟩ := h
  have hzero : WrongthinkTokenAuth.count cmeta key = 0 := by
    rw [WrongthinkTokenAuth.count, List.countP_eq_zero]
    intro x hx hxkey
    exact hmem (List.mem_map.mpr ⟨x, hx, by simpa using hxkey⟩)
  rw [WrongthinkTokenAuth.hasCredentials]
  rcases List.mem_pair.mp hkey with rfl | rfl
  · rw [if_pos hzero]
  · rw [if_pos hzero]
    split <;> rfl

section Gate

variable {ι : Type} [DecidableEq ι] {c c' : Pool ι Op Op.Result Exn Reply (World b)}
  {l : List (ι × Action b)} {i : ι} {cmeta : Metadata} {request : BanUserRequest}
  (hi : c.thread i = (Request.BanUser cmeta request).handle) (h : Pool.Steps Op.Step c l c')

include hi h

theorem banUser_trace :
    (Request.BanUser cmeta request).handle.Trace (view i l) (c'.thread i) := by
  rw [← hi]
  exact h.view_trace i

theorem banUser_guarded : ∀ e ∈ view i l, Guarded cmeta e.op e.before e.result e.after := by
  have hsafe := banUser_guarding cmeta request c.state
  rw [← hi] at hsafe
  exact (h.safe_thread (fun _ _ _ _ hs ↦ hs.grows) hsafe).2

variable {creds : String × String} (hcreds : WrongthinkTokenAuth.credentials cmeta = some creds)

include hcreds

theorem banUser_invalid {w w' : World b} {valid : Bool}
    (he : ⟨w, .sql (.selectUser creds.1 creds.2), .ok valid, w'⟩ ∈ view i l)
    (hpair : ¬w.HasPair creds) : Refused "Invalid user" (view i l) (c'.thread i) := by
  have hvalid : valid = false := by
    rw [Bool.eq_false_iff, ne_eq, (h.sem_of_view he).selectUser_iff]
    exact hpair
  rw [hvalid] at he
  exact (refused_of_trace hcreds (banUser_trace hi h)).1 he

theorem banUser_notAdmin {w w' : World b} {admin : Bool}
    (he : ⟨w, .sql (.selectAdmin creds.1), .ok admin, w'⟩ ∈ view i l)
    (hgrants : ¬w.Grants creds) : Refused "Invalid permission" (view i l) (c'.thread i) := by
  have hpair : w.HasPair creds := (banUser_guarded hi h _ he).asks creds hcreds rfl
  have hadmin : admin = false := by
    rw [Bool.eq_false_iff, ne_eq, (h.sem_of_view he).selectAdmin_iff hpair]
    exact hgrants
  rw [hadmin] at he
  exact (refused_of_trace hcreds (banUser_trace hi h)).2 he

theorem banUser_asked (hp : Completed (view i l) (c'.thread i)) :
    ∃ w valid w₁, ⟨w, .sql (.selectUser creds.1 creds.2), .ok valid, w₁⟩ ∈ view i l ∧
      (w.HasPair creds →
        ∃ v admin v₁, ⟨v, .sql (.selectAdmin creds.1), .ok admin, v₁⟩ ∈ view i l) := by
  obtain ⟨w, valid, w₁, he, hsecond⟩ :=
    asked_of_trace hcreds (banUser_trace hi h) hp fun e he ↦ h.sem_of_view he
  exact ⟨w, valid, w₁, he, fun hpair ↦ hsecond ((h.sem_of_view he).selectUser_iff.mpr hpair)⟩

theorem banUser_granted {response : Response}
    (hreply : c'.thread i = .done (Status.OK, response)) : c'.state.Grants creds := by
  have htr := banUser_trace hi h
  rw [hreply] at htr
  obtain ⟨v, v₁, he⟩ := admin_of_trace hcreds htr
  have hpair : v.HasPair creds := (banUser_guarded hi h _ he).asks creds hcreds rfl
  exact (((h.sem_of_view he).selectAdmin_iff hpair).mp rfl).grows
    (grows_of_steps h (mem_view.mp he)).1

end Gate

/-- **The gate holds under concurrency.** Whatever the metadata, the request, the state and the
other programs that are running, and however their steps interleave with those of the call. -/
theorem banUser_gate {ι : Type} [DecidableEq ι] {c c' : Pool ι Op Op.Result Exn Reply (World b)}
    {l : List (ι × Action b)} {i : ι} {cmeta : Metadata} {request : BanUserRequest}
    (hi : c.thread i = (Request.BanUser cmeta request).handle) (h : Pool.Steps Op.Step c l c') :
    GateKept cmeta (view i l) (c'.thread i) c'.state := by
  have htr := banUser_trace hi h
  have hgrows : ∀ e ∈ view i l, e.before.Grows c'.state :=
    fun e he ↦ (grows_of_steps h (mem_view.mp he)).1
  exact {
    authorised := fun e he ↦ (banUser_guarded hi h e he).writes
    missing := fun hmissing ↦ by
      rw [handle_banUser_of_missing request (not_hasCredentials hmissing)] at htr
      exact Prog.trace_done_iff.mp htr
    invalid := fun _ hcreds _ _ _ he ↦ banUser_invalid hi h hcreds he
    notAdmin := fun _ hcreds _ _ _ he ↦ banUser_notAdmin hi h hcreds he
    asked := fun _ hcreds ↦ banUser_asked hi h hcreds
    unknown := fun creds hcreds hp hnone ↦ by
      obtain ⟨w, valid, w₁, he, _⟩ := banUser_asked hi h hcreds hp
      exact banUser_invalid hi h hcreds he fun hpair ↦ hnone (hpair.grows (hgrows _ he))
    unauthorised := fun creds hcreds hp hnone ↦ by
      obtain ⟨w, valid, w₁, he, hsecond⟩ := banUser_asked hi h hcreds hp
      by_cases hpair : w.HasPair creds
      · obtain ⟨v, admin, v₁, he₂⟩ := hsecond hpair
        exact .inr (banUser_notAdmin hi h hcreds he₂
          fun hgrants ↦ hnone (hgrants.grows (hgrows _ he₂)))
      · exact .inl (banUser_invalid hi h hcreds he hpair)
    granted := fun response hreply ↦ by
      by_cases hhas : WrongthinkTokenAuth.hasCredentials cmeta = true
      · obtain ⟨creds, hcreds⟩ := WrongthinkTokenAuth.hasCredentials_iff.mp hhas
        exact ⟨creds, hcreds, banUser_granted hi h hcreds hreply⟩
      · rw [handle_banUser_of_missing request (by simpa using hhas), hreply] at htr
        cases (Prog.trace_done_iff.mp htr).2
    defined := ((handle_banUser_defined cmeta request).trace htr).1 }

/-- A registration and a ban by the same user, the one after the other. -/
private def registerAndBan : List (Bool × Action .postgres) × Pool Bool Op Op.Result Exn Reply
    (World .postgres) :=
  Pool.replay Op.exec
    ⟨World.start .postgres 0, fun i ↦
      if i then (Request.CreateUser ⟨"root", "pw", false⟩).handle
      else (Request.BanUser [("auth-token", "pw"), ("auth-uname", "root")] ⟨"root", 1⟩).handle⟩
    (List.replicate 4 true ++ List.replicate 8 false)

theorem banUser_gate_registerAndBan :
    GateKept [("auth-token", "pw"), ("auth-uname", "root")] (view false registerAndBan.1)
        (registerAndBan.2.thread false) registerAndBan.2.state ∧
      registerAndBan.2.state.db.banned_users ≠ [] :=
  ⟨banUser_gate rfl (Pool.replay_sound Op.step_exec _ _), by decide⟩

end Wrongthink
