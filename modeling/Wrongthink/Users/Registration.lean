import Wrongthink.Creation.Handlers
import Wrongthink.Service.Serve
import Wrongthink.Users.FirstAdmin

/-!
# Registration and authentication

A registration writes the name, the password and the admin flag of a user once, and nothing changes
them afterwards; so what `isUserValid` and `isUserAdmin` answer ever after should be what the
registration was answered. That is so if and only if every registration that the table accepts is
stored as it was given and answered `OK` (`agreement_iff`). Two things can go wrong: Postgres cuts
blanks off a name or a password that is too long, and then the user does not get in with what was
registered; and the lookup of the key may be lost, and then there is a user whom nobody was told of.
-/

namespace Wrongthink

open Concurrent WrongthinkServiceImpl

variable {b : Backend}

/-! ## What the checks answer -/

/-- A query in a session of its own answers from the rows that were there before. -/
theorem trace_query {q : Statement} {tr : List (Action b)} {v : q.Result} {w w' : World b}
    (h : Prog.Trace (do perform .session; sql q) tr (.done v)) (hrun : Run Op.Step w tr w') :
    ∃ w₁, (∀ T, w₁.db.rows T = w.db.rows T) ∧ Op.Step (.sql q) w₁ (.ok v) w' := by
  rcases Prog.trace_perform_bind_iff.mp h with
    ⟨_, hv⟩ | ⟨w₁, _, w₁', tr, rfl, hsql⟩ | ⟨_, _, _, _, hv⟩
  · exact absurd hv.symm (Prog.perform_bind_ne_done _ _ _)
  swap
  · cases hv
  obtain ⟨rfl, hsession, hrun⟩ := run_cons_iff.mp hrun
  rcases Prog.trace_act_iff.mp hsql with ⟨_, hv⟩ | ⟨w₂, r, w₂', tr, rfl, hrest⟩
  · cases hv
  obtain ⟨rfl, hquery, hrun⟩ := run_cons_iff.mp hrun
  refine ⟨w₂, fun T ↦ hsession.frame T (by simp [Op.target]), ?_⟩
  cases r with
  | error e =>
    obtain ⟨_, hraise⟩ := Prog.trace_raise_iff.mp hrest
    cases hraise
  | ok v' =>
    obtain ⟨rfl, hdone⟩ := Prog.trace_done_iff.mp hrest
    rw [run_nil_iff.mp hrun, Prog.done.inj hdone]
    exact hquery

namespace World

/-- In the state `w`, the answer of `p` is `v`, and it is no other if things drift. -/
structure Says {α : Type} (w : World b) (p : Routine α) (v : α) : Prop where
  answer : (p.exec Op.exec w).2.1 = .ok v
  only : ∀ {tr w' v'}, p.Trace tr (.done v') → Run Op.Step w tr w' → v' = v

theorem Says.unique {α : Type} {w : World b} {p : Routine α} {v v' : α} (h : w.Says p v)
    (h' : w.Says p v') : v = v' := by
  have hanswer := h.answer
  rw [h'.answer, Except.ok.injEq] at hanswer
  exact hanswer.symm

private theorem says_query {q : Statement} {g : List UserRow → q.Result}
    (hexec : ∀ w : World b, ((Op.sql q).exec w).1 = .ok (g w.db.users.rows)) (w : World b) :
    w.Says (do perform .session; sql q) (g w.db.users.rows) := by
  constructor
  · have hq : ((Op.sql q).exec w) = (.ok (g w.db.users.rows), ((Op.sql q).exec w).2) :=
      Prod.ext (hexec w) rfl
    rw [Prog.exec_bind_ok (Prog.exec_perform_ok rfl), Prog.exec_perform_ok hq]
  · intro tr w' v' htr hrun
    obtain ⟨w₁, hrows, hquery⟩ := trace_query htr hrun
    have husers : w₁.db.users.rows = w.db.users.rows := hrows .users
    obtain ⟨d, hv, _⟩ := hquery.ok
    rw [hexec, Except.ok.injEq] at hv
    rw [hv, ← husers]
    rfl

variable (w : World b)

theorem says_isUserValid (uname token : String) : w.Says (DBPostgres.isUserValid uname token)
    (w.db.users.rows.any fun u ↦ u.uname = uname ∧ u.token = token) :=
  says_query (q := .selectUser uname token)
    (g := fun l ↦ l.any fun u ↦ u.uname = uname ∧ u.token = token) (fun _ ↦ rfl) w

theorem says_isUserAdmin (uname : String) : w.Says (DBPostgres.isUserAdmin uname)
    (w.db.users.rows.any fun u ↦ u.uname = uname ∧ u.admin) :=
  says_query (q := .selectAdmin uname) (g := fun l ↦ l.any fun u ↦ u.uname = uname ∧ u.admin)
    (fun _ ↦ rfl) w

variable {w} {uname token : String} {v : Bool}

theorem says_isUserValid_iff : w.Says (DBPostgres.isUserValid uname token) v ↔
    (v = true ↔ ∃ u ∈ w.db.users.rows, u.uname = uname ∧ u.token = token) := by
  have hsays := w.says_isUserValid uname token
  have hany : (w.db.users.rows.any fun u ↦ u.uname = uname ∧ u.token = token) = true ↔
      ∃ u ∈ w.db.users.rows, u.uname = uname ∧ u.token = token := by simp
  rw [← hany, ← Bool.eq_iff_iff]
  constructor
  · exact fun h ↦ h.unique hsays
  · rintro rfl
    exact hsays

theorem says_isUserAdmin_iff : w.Says (DBPostgres.isUserAdmin uname) v ↔
    (v = true ↔ ∃ u ∈ w.db.users.rows, u.uname = uname ∧ u.admin = true) := by
  have hsays := w.says_isUserAdmin uname
  have hany : (w.db.users.rows.any fun u ↦ u.uname = uname ∧ u.admin) = true ↔
      ∃ u ∈ w.db.users.rows, u.uname = uname ∧ u.admin = true := by simp
  rw [← hany, ← Bool.eq_iff_iff]
  constructor
  · exact fun h ↦ h.unique hsays
  · rintro rfl
    exact hsays

theorem says_of_row {row : UserRow} (hrow : row ∈ w.db.users.rows) :
    (∀ t, w.Says (DBPostgres.isUserValid row.uname t) (decide (t = row.token))) ∧
      w.Says (DBPostgres.isUserAdmin row.uname) row.admin := by
  have hsame : ∀ u ∈ w.db.users.rows, u.uname = row.uname → u = row :=
    fun u hu huname ↦ w.db.eq_of_uname_eq hu hrow huname
  constructor
  · intro t
    rw [says_isUserValid_iff, decide_eq_true_eq]
    constructor
    · rintro rfl
      exact ⟨row, hrow, rfl, rfl⟩
    · rintro ⟨u, hu, huname, rfl⟩
      rw [hsame u hu huname]
  · rw [says_isUserAdmin_iff]
    constructor
    · exact fun hadmin ↦ ⟨row, hrow, rfl, hadmin⟩
    · rintro ⟨u, hu, huname, hadmin⟩
      rw [← hsame u hu huname, hadmin]

theorem says_of_nobody (h : ∀ u ∈ w.db.users.rows, u.uname ≠ uname) :
    (∀ t, w.Says (DBPostgres.isUserValid uname t) false) ∧
      w.Says (DBPostgres.isUserAdmin uname) false := by
  constructor
  · intro t
    rw [says_isUserValid_iff]
    exact ⟨nofun, fun ⟨u, hu, huname, _⟩ ↦ absurd huname (h u hu)⟩
  · rw [says_isUserAdmin_iff]
    exact ⟨nofun, fun ⟨u, hu, huname, _⟩ ↦ absurd huname (h u hu)⟩

end World

/-! ## Registrations -/

/-- What a user is registered with: the name, the password or the generated token, and whether an
admin is asked for. -/
structure Registration where
  uname : String
  token : String
  admin : Bool

def Request.registration : Request → Option Registration
  | GenerateUser uuid uuid2 => some ⟨eraseDashes uuid, eraseDashes uuid2, false⟩
  | CreateUser request => some ⟨request.uname, request.password, request.admin⟩
  | _ => none

variable {g : Registration} {r : Request} {s : Served b} {w w' : World b}

theorem Request.creates_of_registration (h : r.registration = some g) : ∃ x, r.creates = some x ∧
    x.call = .user g.uname g.token g.admin ∧ ∀ adminct uid, ∃ user,
      x.response adminct uid = .user user ∧ user.uname = g.uname ∧ user.userid = uid ∧
        user.admin = if adminct = 0 then true else g.admin := by
  cases r with
  | GenerateUser uuid uuid2 =>
    obtain rfl := Option.some.inj h
    exact ⟨_, rfl, rfl, fun adminct uid ↦ ⟨_, rfl, rfl, rfl, rfl⟩⟩
  | CreateUser request =>
    obtain rfl := Option.some.inj h
    exact ⟨_, rfl, rfl, fun adminct uid ↦ ⟨_, rfl, rfl, rfl, rfl⟩⟩
  | _ => cases h

theorem Request.target_of_registration_none (h : r.registration = none) :
    r.target ≠ some .users := by
  cases r with
  | GenerateUser _ _ | CreateUser _ => cases h
  | _ => simp [target]

namespace Served

/-- The insert of a user was accepted. -/
def Accepted (s : Served b) : Prop :=
  ∃ e ∈ s.actions, e.op.target = some .users ∧ e.result.isOk

/-- From `w` to `w'`, the user `row` was added for `g`. -/
structure SignsUp (g : Registration) (w w' : World b) (row : UserRow) : Prop where
  rows : w'.db.users.rows = w.db.users.rows ++ [row]
  uname : varchar b 50 g.uname = .ok row.uname
  token : varchar b 50 g.token = .ok row.token
  admin : row.admin = true ↔ g.admin = true ∨ ¬w.Led
  fresh : row.uname ∉ w.db.users.rows.map (·.uname)

/-- The response tells of the user `row`, with the name of `g`. -/
def TellsOf (g : Registration) (row : UserRow) (response : Response) : Prop :=
  ∃ user, response = .user user ∧ user.uname = g.uname ∧ user.admin = row.admin ∧
    (row.uname = g.uname → user.userid = row.user_id)

end Served

open Served (SignsUp TellsOf)

theorem Creation.prepare_user {uname token : String} {admin : Bool} {tr : List (Action b)} {n : ℕ}
    (h : (Creation.user uname token admin).prepare.Trace tr (.done n))
    (hrun : Run Op.Step w tr w') :
    w'.db.users.rows = w.db.users.rows ∧ (n = 0 ↔ ¬w.Led) := by
  have hidle : Creation.Idle tr := fun e he ↦ .inl (((prepare_reads _).trace h).1 e he).2
  refine ⟨rows_of_idle_run hrun hidle .users, ?_⟩
  obtain ⟨w₁, hrows, hcount⟩ := trace_query h hrun
  have husers : w₁.db.users.rows = w.db.users.rows := hrows .users
  rw [← not_iff_not, not_not, ← ne_eq, hcount.countAdmins_ne_zero_iff, World.Led, World.Led, husers]

theorem Creation.registers_of_insert {uname token : String} {admin : Bool} {n : ℕ} {v : Unit}
    {w₁ w₂ : World b} {tr₁ tr₂ : List (Action b)}
    (h : Run Op.Step w (tr₁ ++
      ⟨w₁, .sql ((Creation.user uname token admin).insert n), .ok v, w₂⟩ :: tr₂) w')
    (hprepare : (Creation.user uname token admin).prepare.Trace tr₁ (.done n))
    (hidle : Creation.Idle tr₂) : ∃ row, SignsUp ⟨uname, token, admin⟩ w w' row ∧
      Run Op.Step w₂ tr₂ w' ∧ w₂.db.users.rows = w.db.users.rows ++ [row] ∧
        row.admin = if n = 0 then true else admin := by
  obtain ⟨w₁', hrun₁, hrun⟩ := run_append_iff.mp h
  obtain ⟨hw₁, hs, hrun₂⟩ := run_cons_iff.mp hrun
  obtain rfl : w₁ = w₁' := hw₁
  obtain ⟨hrows₁, hcount⟩ := prepare_user hprepare hrun₁
  obtain ⟨_, row, hrows, huname, htoken, hadmin, hfresh⟩ := hs.insertUser_eq.resolve_right (by simp)
  have hrows₂ : w'.db.users.rows = w₂.db.users.rows := rows_of_idle_run hrun₂ hidle .users
  dsimp only at hrows
  rw [hrows₁] at hrows hfresh
  refine ⟨row, ⟨hrows₂.trans hrows, huname, htoken, ?_, hfresh⟩, hrun₂, hrows, hadmin⟩
  rw [hadmin, ← hcount]
  by_cases hzero : n = 0 <;> simp [hzero]

/-- **One registration.** It was not accepted, and nothing has changed; or there is one new user,
and the answer is `OK` if the key was looked up. -/
theorem Served.Handled.registers (h : s.Handled w w') (hg : s.request.registration = some g) :
    (¬s.Accepted ∧ w'.db.users.rows = w.db.users.rows ∧ s.reply.1 ≠ Status.OK) ∨
      (s.Accepted ∧ ∃ row, SignsUp g w w' row ∧ (s.reply.1 = Status.OK ↔ LookedUp s.actions) ∧
        (s.reply.1 = Status.OK → TellsOf g row s.reply.2)) := by
  obtain ⟨⟨call, response, none⟩, hx, hcall, hresponse⟩ := Request.creates_of_registration hg
  dsimp only at hcall hresponse
  subst hcall
  obtain ⟨request, actions, reply⟩ := s
  have houtcome := outcome_of_trace hx (fun e he ↦ h.run.sem_of_mem he) h.trace
  have hlookup := houtcome.ok_iff
  have hrun := h.run
  rw [Served.Accepted]
  dsimp only at hrun houtcome hlookup ⊢
  cases houtcome with
  | refused hidle =>
    refine .inl ⟨?_, Creation.rows_of_idle_run hrun hidle .users, nofun⟩
    rintro ⟨e, he, htarget, hok⟩
    exact Creation.not_idle_of_mem he htarget hok hidle
  | @lost tr₁ n w₁ v w₂ tr₂ hprepare hlost =>
    -- the user is there, and the answer is `INTERNAL` all the same
    obtain ⟨row, hregisters, _⟩ :=
      Creation.registers_of_insert hrun hprepare fun e he ↦ .inr (hlost e he)
    have hmem := List.mem_append_right tr₁ (List.mem_cons_self (l := tr₂)
      (a := ⟨w₁, .sql ((Creation.user g.uname g.token g.admin).insert n), .ok v, w₂⟩))
    exact .inr ⟨⟨_, hmem, rfl, rfl⟩, row, hregisters,
      hlookup (Creation.not_idle_of_mem hmem rfl rfl), nofun⟩
  | @answered tr₁ n w₁ v w₂ e tr₂ hprepare hlooks hrest =>
    have hidle : Creation.Idle (e :: tr₂) := by
      refine List.forall_mem_cons.mpr ⟨.inl (Op.reads_of_looksUp hlooks.1).2, fun f hf ↦ .inl ?_⟩
      rw [hrest f hf]
      rfl
    obtain ⟨row, hregisters, hrun₂, hrows, hadmin⟩ :=
      Creation.registers_of_insert hrun hprepare hidle
    have hmem := List.mem_append_right tr₁ (List.mem_cons_self (l := e :: tr₂)
      (a := ⟨w₁, .sql ((Creation.user g.uname g.token g.admin).insert n), .ok v, w₂⟩))
    refine .inr ⟨⟨_, hmem, rfl, rfl⟩, row, hregisters,
      hlookup (Creation.not_idle_of_mem hmem rfl rfl), fun _ ↦ ?_⟩
    obtain ⟨user, huser, huname, hid, hflag⟩ := hresponse n
      (((Creation.user g.uname g.token g.admin).lookup e.before).getD 0)
    refine ⟨user, huser, huname, hflag.trans hadmin.symm, fun hkept ↦ ?_⟩
    obtain ⟨hbefore, _, _⟩ := run_cons_iff.mp hrun₂
    -- the key is looked up in the state that the insert has left
    have hentry : (row.user_id, g.uname) ∈ e.before.entries .users := by
      rw [hbefore, World.entries, hrows, ← hkept]
      simp
    rw [hid, Creation.lookup_eq_some (q := .user g.uname g.token g.admin) hentry, Option.getD_some]

/-! ## Histories -/

variable {ss : List (Served b)}

/-- The request has registered `g`, as its answer says. -/
def Served.Registered (s : Served b) (g : Registration) : Prop :=
  s.request.registration = some g ∧ s.reply.1 = Status.OK

/-- What is registered in a history and what is authenticated after it agree. -/
structure Agreement (w : World b) (ss : List (Served b)) (w' : World b) : Prop where
  /-- A registration adds one user, and answers with it. -/
  added : ∀ s g v v', Serve.Passes w ss s v v' → s.Registered g → ∃ row user,
    v'.db.users.rows = v.db.users.rows ++ [row] ∧ s.reply.2 = .user user ∧
      user.userid = row.user_id ∧ user.uname = row.uname ∧ user.admin = row.admin ∧
        (row.admin = true ↔ g.admin = true ∨ ¬v.Led)
  valid : ∀ s ∈ ss, ∀ g, s.Registered g →
    ∀ t, w'.Says (DBPostgres.isUserValid g.uname t) (decide (t = g.token))
  admin : ∀ s ∈ ss, ∀ g user, s.Registered g → s.reply.2 = .user user →
    w'.Says (DBPostgres.isUserAdmin g.uname) user.admin
  stranger : ∀ uname, (∀ s ∈ ss, ∀ g, s.Registered g → g.uname ≠ uname) →
    (∀ t, w'.Says (DBPostgres.isUserValid uname t) false) ∧
      w'.Says (DBPostgres.isUserAdmin uname) false
  /-- A registration that is not answered `OK` changes no answer. -/
  refused : ∀ s g v v', Serve.Passes w ss s v v' → s.request.registration = some g →
    s.reply.1 ≠ Status.OK → ∀ uname x,
      (v'.Says (DBPostgres.isUserAdmin uname) x ↔ v.Says (DBPostgres.isUserAdmin uname) x) ∧
        ∀ t, v'.Says (DBPostgres.isUserValid uname t) x ↔ v.Says (DBPostgres.isUserValid uname t) x

/-- If the registration is accepted, the name and the password are stored as they were given, and
the key is looked up. -/
def Served.Kept (s : Served b) : Prop :=
  ∀ g, s.request.registration = some g → s.Accepted →
    varchar b 50 g.uname = .ok g.uname ∧ varchar b 50 g.token = .ok g.token ∧ LookedUp s.actions

/-! ## What is kept -/

/-- `row` is what the request was given and has answered. -/
structure Served.Stored (s : Served b) (g : Registration) (row : UserRow) : Prop where
  uname : row.uname = g.uname
  token : row.token = g.token
  reply : ∃ user, s.reply.2 = .user user ∧ user.userid = row.user_id ∧ user.uname = row.uname ∧
    user.admin = row.admin

namespace Served.Handled

variable (h : s.Handled w w') (hg : s.request.registration = some g) (hkept : s.Kept)

include h hg hkept

theorem added (hok : s.reply.1 = Status.OK) :
    ∃ row, SignsUp g w w' row ∧ s.Stored g row := by
  obtain ⟨_, _, herror⟩ | ⟨haccepted, row, hregisters, _, htells⟩ := h.registers hg
  · exact absurd hok herror
  obtain ⟨huname, htoken, _⟩ := hkept g hg haccepted
  have huname' : row.uname = g.uname :=
    Except.ok.inj (hregisters.uname.symm.trans huname)
  have htoken' : row.token = g.token :=
    Except.ok.inj (hregisters.token.symm.trans htoken)
  obtain ⟨user, hreply, hname, hadmin, hid⟩ := htells hok
  exact ⟨row, hregisters, huname', htoken', user, hreply, hid huname', hname.trans huname'.symm,
    hadmin⟩

theorem rows_of_not_ok (herror : s.reply.1 ≠ Status.OK) :
    w'.db.users.rows = w.db.users.rows := by
  obtain ⟨_, hrows, _⟩ | ⟨haccepted, row, _, hok, _⟩ := h.registers hg
  · exact hrows
  · exact absurd (hok.mpr (hkept g hg haccepted).2.2) herror

end Served.Handled

/-- **Every user was registered.** -/
theorem Serve.exists_stored (h : Serve w ss w') (hkept : ∀ s ∈ ss, s.Kept) {row : UserRow}
    (hrow : row ∈ w'.db.users.rows) :
    row ∈ w.db.users.rows ∨ ∃ s ∈ ss, ∃ g, s.Registered g ∧ s.Stored g row := by
  induction h with
  | nil w => exact .inl hrow
  | @cons s w w₁ w' ss hs _ ih =>
    obtain ⟨hkept, hkept'⟩ := List.forall_mem_cons.mp hkept
    obtain hrow | ⟨t, ht, hstored⟩ := ih hkept' hrow
    swap
    · exact .inr ⟨t, List.mem_cons_of_mem s ht, hstored⟩
    cases hg : s.request.registration with
    | none =>
      have hrows : w₁.db.users.rows = w.db.users.rows :=
        hs.frame (Request.target_of_registration_none hg)
      rw [hrows] at hrow
      exact .inl hrow
    | some g =>
      by_cases hok : s.reply.1 = Status.OK
      · obtain ⟨row', hregisters, hstored⟩ := hs.added hg hkept hok
        rw [hregisters.rows, List.mem_append, List.mem_singleton] at hrow
        rcases hrow with hrow | rfl
        · exact .inl hrow
        · exact .inr ⟨s, List.mem_cons_self, g, ⟨hg, hok⟩, hstored⟩
      · rw [hs.rows_of_not_ok hg hkept hok] at hrow
        exact .inl hrow

theorem Serve.exists_row (h : Serve w ss w') (hs : s ∈ ss) (hkept : s.Kept) (hg : s.Registered g) :
    ∃ row ∈ w'.db.users.rows, s.Stored g row := by
  obtain ⟨v, v', _, hhandled, hgrows⟩ := h.exists_passes hs
  obtain ⟨row, hregisters, hstored⟩ := hhandled.added hg.1 hkept hg.2
  refine ⟨row, hgrows.db.users.subset ?_, hstored⟩
  rw [hregisters.rows]
  simp

/-- If what is registered is kept, registration and authentication agree. -/
theorem Serve.agreement (h : Serve w ss w') (hstart : w.db.users.rows = [])
    (hkept : ∀ s ∈ ss, s.Kept) : Agreement w ss w' := by
  have hmem : ∀ {s v v'}, Serve.Passes w ss s v v' → s ∈ ss ∧ s.Handled v v' := by
    rintro s v v' ⟨ss₁, ss₂, rfl, _, hs⟩
    exact ⟨by simp, hs⟩
  constructor
  · intro s g v v' hpasses hg
    obtain ⟨hs, hhandled⟩ := hmem hpasses
    obtain ⟨row, hregisters, hstored⟩ := hhandled.added hg.1 (hkept s hs) hg.2
    obtain ⟨user, hreply, hid, huname, hadmin⟩ := hstored.reply
    exact ⟨row, user, hregisters.rows, hreply, hid, huname, hadmin, hregisters.admin⟩
  · intro s hs g hg t
    obtain ⟨row, hrow, hstored⟩ := h.exists_row hs (hkept s hs) hg
    rw [← hstored.uname, ← hstored.token]
    exact (World.says_of_row hrow).1 t
  · intro s hs g user hg hreply
    obtain ⟨row, hrow, hstored⟩ := h.exists_row hs (hkept s hs) hg
    obtain ⟨user', hreply', _, _, hadmin⟩ := hstored.reply
    obtain rfl : user = user' := Response.user.inj (hreply.symm.trans hreply')
    rw [← hstored.uname, hadmin]
    exact (World.says_of_row hrow).2
  · intro uname hnever
    -- who is there was registered, and under another name
    refine World.says_of_nobody fun u hu ↦ ?_
    obtain hu | ⟨s, hs, g, hg, hstored⟩ := h.exists_stored hkept hu
    · rw [hstart] at hu
      exact absurd hu List.not_mem_nil
    · rw [hstored.uname]
      exact hnever s hs g hg
  · intro s g v v' hpasses hg herror uname x
    obtain ⟨hs, hhandled⟩ := hmem hpasses
    have hrows := hhandled.rows_of_not_ok hg (hkept s hs) herror
    constructor
    · rw [World.says_isUserAdmin_iff, World.says_isUserAdmin_iff, hrows]
    · intro t
      rw [World.says_isUserValid_iff, World.says_isUserValid_iff, hrows]

/-- And what is not kept shows. -/
theorem Agreement.kept (h : Agreement w ss w') (hserve : Serve w ss w') (hs : s ∈ ss) : s.Kept := by
  intro g hg haccepted
  obtain ⟨v, v', hpasses, hhandled, hgrows⟩ := hserve.exists_passes hs
  obtain ⟨hidle, _⟩ | ⟨_, row, hregisters, hlookup, htells⟩ := hhandled.registers hg
  · exact absurd haccepted hidle
  have hrow : row ∈ v'.db.users.rows := by
    rw [hregisters.rows]
    simp
  -- the new user is one whom the checks did not know
  have hok : s.reply.1 = Status.OK := by
    by_contra herror
    have hsays : v'.Says (DBPostgres.isUserValid row.uname row.token) true :=
      World.says_isUserValid_iff.mpr ⟨fun _ ↦ ⟨row, hrow, rfl, rfl⟩, fun _ ↦ rfl⟩
    have hbefore := ((h.refused s g v v' hpasses hg herror row.uname true).2 row.token).mp hsays
    obtain ⟨u, hu, huname, _⟩ := (World.says_isUserValid_iff.mp hbefore).mp rfl
    exact hregisters.fresh (List.mem_map.mpr ⟨u, hu, huname⟩)
  obtain ⟨row', user, hrows, hreply, _, huname, _⟩ := h.added s g v v' hpasses ⟨hg, hok⟩
  obtain ⟨user', hreply', huname', _⟩ := htells hok
  have hname : row.uname = g.uname := by
    rw [hregisters.rows, List.append_cancel_left_eq, List.singleton_inj] at hrows
    obtain rfl : user = user' := Response.user.inj (hreply.symm.trans hreply')
    rw [hrows, ← huname, huname']
  have htoken : row.token = g.token := by
    have hsays := h.valid s hs g ⟨hg, hok⟩ g.token
    obtain ⟨u, hu, hu₁, hu₂⟩ := (World.says_isUserValid_iff.mp hsays).mp (by simp)
    have hsame : u = row := w'.db.eq_of_uname_eq hu (hgrows.db.users.subset hrow)
      (hu₁.trans hname.symm)
    rw [← hsame, hu₂]
  refine ⟨?_, ?_, hlookup.mp hok⟩
  · rw [hregisters.uname, hname]
  · rw [hregisters.token, htoken]

/-- **Registration and authentication agree** after every history from a server without users if and
only if every registration that is accepted is stored as it was given and has its key looked up. -/
theorem agreement_iff (h : Serve w ss w') (hstart : w.db.users.rows = []) :
    Agreement w ss w' ↔ ∀ s ∈ ss, s.Kept :=
  ⟨fun hagree _ hs ↦ hagree.kept h hs, h.agreement hstart⟩

/-- Two users are registered, and one of them again. -/
private def signUps : List (Served .postgres) × World .postgres :=
  serve (World.start .postgres 0) [.CreateUser ⟨"ann", "pw", false⟩, .GenerateUser "a-b" "c-d",
    .CreateUser ⟨"ann", "other", true⟩]

theorem agreement_iff_signUps : Agreement (World.start .postgres 0) signUps.1 signUps.2 ↔
    ∀ s ∈ signUps.1, s.Kept :=
  agreement_iff (serve_sound _ _) rfl

/-- A name of 50 letters, and a blank behind it. -/
private def paddedSignUp : Request :=
  .CreateUser ⟨String.ofList (List.replicate 50 'x' ++ [' ']), "pw", false⟩

/-- The user of a name that is cut is answered with the name as it was given. -/
theorem exists_unauthenticated :
    ¬∀ (ss : List (Served .postgres)) (w' : World .postgres),
      Serve (World.start .postgres 0) ss w' → Agreement (World.start .postgres 0) ss w' := by
  intro h
  have hserve := serve_sound (World.start .postgres 0) [paddedSignUp]
  have hkept := (h _ _ hserve).kept hserve (s := ⟨paddedSignUp, _, _⟩) List.mem_cons_self
  obtain ⟨hname, _⟩ := hkept _ rfl
    ⟨_, List.mem_cons_of_mem _ (List.mem_cons_of_mem _ List.mem_cons_self), rfl, rfl⟩
  revert hname
  decide

end Wrongthink
