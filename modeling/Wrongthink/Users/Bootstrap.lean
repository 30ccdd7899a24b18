import Wrongthink.Concurrent.CheckThenAct
import Wrongthink.Service.Inserts
import Wrongthink.Users.Escalation

/-!
# Several first users

`createUser` counts the admins and inserts the user in two statements, so of several registrations
on a fresh server more than one may count none, and each of those becomes an admin
(`exists_twoBootstraps`). The user who is inserted first is an admin in any case. That nobody else
is, if nobody asks to be, is true exactly if no user is inserted between a registration's count of
no admins and its own insert (`bootstrapped_iff`).
-/

namespace Wrongthink

open Concurrent

variable {b : Backend}

/-! ## Counting, and inserting -/

namespace Op

/-- Whether the count has found no admin. -/
def counted : (o : Op) → Except Exn o.Result → Option Bool
  | sql .countAdmins, .ok n => some (n = 0)
  | _, _ => none

/-- Whether the user that was inserted is an admin. -/
def registered : (o : Op) → Except Exn o.Result → Option Bool
  | sql (.insertUser _ _ admin), .ok _ => some admin
  | _, _ => none

theorem eq_of_target_users {o : Op} (h : o.target = some .users) :
    ∃ uname token admin, o = .sql (.insertUser uname token admin) := by
  cases o with
  | sql q =>
    cases q with
    | insertUser uname token admin => exact ⟨uname, token, admin, rfl⟩
    | _ => cases h
  | _ => cases h

variable {o : Op} {r : Except Exn o.Result}

theorem eq_of_counted {zero : Bool} (h : o.counted r = some zero) : o = .sql .countAdmins := by
  unfold counted at h
  split at h
  · rfl
  · cases h

theorem eq_of_registered {admin : Bool} (h : o.registered r = some admin) :
    ∃ uname token, o = .sql (.insertUser uname token admin) := by
  unfold registered at h
  split at h
  · rename_i uname token admin' _
    rw [Option.some.injEq] at h
    exact ⟨uname, token, by rw [h]⟩
  · cases h

end Op

/-- The admins have been counted, and there are none. -/
def CountsNoAdmin (e : Action b) : Prop := e.op.counted e.result = some true

/-- A user has been inserted. -/
def InsertsUser (e : Action b) : Prop := (e.op.registered e.result).isSome

instance : DecidablePred (InsertsUser (b := b)) := fun _ ↦ inferInstanceAs (Decidable (_ = true))

theorem Op.Step.users_eq {o : Op} {w w' : World b} {r : Except Exn o.Result}
    (h : Op.Step o w r w') :
    (∃ u : UserRow, o.registered r = some u.admin ∧ w'.db.users.rows = w.db.users.rows ++ [u]) ∨
      (o.registered r = none ∧ w'.db.users.rows = w.db.users.rows) := by
  by_cases ho : o.target = some .users
  · obtain ⟨uname, token, admin, rfl⟩ := Op.eq_of_target_users ho
    obtain ⟨rfl, u, hrows, _, _, hadmin, _⟩ | ⟨⟨e, rfl⟩, hrows⟩ := h.insertUser_eq
    · exact .inl ⟨u, by simp [Op.registered, hadmin], hrows⟩
    · exact .inr ⟨rfl, hrows⟩
  · have hrows : w'.db.users.rows = w.db.users.rows := h.frame .users ho
    refine .inr ⟨?_, hrows⟩
    rw [Option.eq_none_iff_forall_ne_some]
    intro admin hadmin
    obtain ⟨uname, token, rfl⟩ := Op.eq_of_registered hadmin
    exact ho rfl

theorem Op.Step.length_users_eq {o : Op} {w w' : World b} {r : Except Exn o.Result}
    (h : Op.Step o w r w') :
    w'.db.users.rows.length =
      w.db.users.rows.length + if (o.registered r).isSome then 1 else 0 := by
  obtain ⟨u, hsome, hrows⟩ | ⟨hnone, hrows⟩ := h.users_eq
  · rw [hrows, hsome, List.length_append]
    rfl
  · rw [hrows, hnone]
    rfl

/-! ## Calls -/

/-- A user is only inserted after the admins have been counted, as an admin if there were none. -/
def CountsFirst (s : Option Bool) : Op → Prop
  | .sql (.insertUser _ _ admin) => s = some admin
  | _ => True

theorem countsFirst_of_target {o : Op} (ho : o.target ≠ some .users) (s : Option Bool) :
    CountsFirst s o := by
  unfold CountsFirst
  split
  · exact absurd rfl ho
  · trivial

abbrev CountingFirst {α : Type} (p : Routine α) (s : Option Bool) : Prop :=
  p.Phased Op.counted CountsFirst (fun _ ↦ True) s

theorem createUser_countingFirst (uname token : String) (s : Option Bool) :
    CountingFirst (DBPostgres.createUser uname token false) s := by
  refine Prog.phased_perform_bind trivial fun _ ↦ Prog.phased_perform_bind trivial fun n ↦ ?_
  refine Prog.phased_perform_bind ?_ fun _ ↦ Prog.phased_perform_bind trivial fun _ ↦ trivial
  -- the phase is whether `n` is zero, and so is the flag
  by_cases hn : n = 0
  · simp [CountsFirst, Op.counted, hn]
  · simp [CountsFirst, Op.counted, hn]

/-- The requests that ask for no admin. -/
def Request.asksForAdmin : Request → Bool
  | CreateUser request => request.admin
  | _ => false

theorem handle_countingFirst {r : Request} (hr : r.asksForAdmin = false) (s : Option Bool) :
    CountingFirst r.handle s := by
  by_cases htarget : r.target = some .users
  · cases r with
    | GenerateUser uuid uuid2 =>
      refine Prog.Phased.bind (Prog.Phased.tryCatch ?_ fun _ _ ↦ trivial) fun _ _ _ ↦ trivial
      exact (createUser_countingFirst _ _ s).bind fun _ _ _ ↦ trivial
    | CreateUser request =>
      obtain ⟨uname, password, admin⟩ := request
      obtain rfl : admin = false := hr
      refine Prog.Phased.bind (Prog.Phased.tryCatch ?_ fun _ _ ↦ trivial) fun _ _ _ ↦ trivial
      exact (createUser_countingFirst _ _ s).bind fun _ _ _ ↦ trivial
    | _ => cases htarget
  · exact Prog.Phased.of_allowed (fun _ ho s ↦ countsFirst_of_target (ho.target_ne htarget) s)
      r.handle_only s

/-! ## The first user -/

/-- At most one admin, who is the first user there is. -/
structure Bootstrapped (w : World b) : Prop where
  atMostOne : w.admins.length ≤ 1
  first : ∀ u ∈ w.admins, w.db.users.rows.head? = some u

theorem bootstrapped_of_first {w : World b}
    (h : ∀ u ∈ w.admins, w.db.users.rows.head? = some u) : Bootstrapped w := by
  refine ⟨?_, h⟩
  have hnodup : w.admins.Nodup := w.nodup_users.filter _
  match hadmins : w.admins with
  | [] => exact Nat.zero_le 1
  | [_] => exact Nat.le_refl 1
  | u :: v :: _ =>
    rw [hadmins] at h hnodup
    have heq : u = v := Option.some.inj ((h u (by simp)).symm.trans (h v (by simp)))
    simp [heq] at hnodup

/-- A count of no admins, where users are led by one, is a count of no users. -/
theorem Op.Step.users_eq_nil {o : Op} {w w' : World b} {r : Except Exn o.Result}
    (h : Op.Step o w r w') (hcounted : o.counted r = some true) (hw : w.AdminFirst) :
    w.db.users.rows = [] := by
  obtain rfl := Op.eq_of_counted hcounted
  rcases r with e | n
  · simp [Op.counted] at hcounted
  · have hzero : n = 0 := by simpa [Op.counted] using hcounted
    by_contra hne
    exact h.countAdmins_ne_zero_iff.mpr (hw hne) hzero

/-! ## Any number of registrations -/

section Registrations

variable {ι : Type} [DecidableEq ι] {c c' : Pool ι Op Op.Result Exn Reply (World b)}
  {l : List (ι × Action b)}

/-- The action has inserted this user. -/
def Registers (u : UserRow) (e : Action b) : Prop :=
  e.op.registered e.result = some u.admin ∧ e.after.db.users.rows = e.before.db.users.rows ++ [u]

theorem exists_registers (h : Pool.Steps Op.Step c l c') {u : UserRow}
    (hu : u ∈ c'.state.db.users.rows) :
    u ∈ c.state.db.users.rows ∨ ∃ x ∈ l, Registers u x.2 := by
  induction h with
  | nil => exact .inl hu
  | @snoc c' l i o k r w' _ _ hs ih =>
    rcases hs.users_eq with ⟨v, hsome, hrows⟩ | ⟨_, hrows⟩
    · rw [hrows, List.mem_append, List.mem_singleton] at hu
      rcases hu with hu | rfl
      · exact (ih hu).imp_right fun ⟨x, hx, hxu⟩ ↦ ⟨x, List.mem_append_left _ hx, hxu⟩
      · exact .inr ⟨_, List.mem_append_right _ (List.mem_singleton_self _), hsome, hrows⟩
    · rw [hrows] at hu
      exact (ih hu).imp_right fun ⟨x, hx, hxu⟩ ↦ ⟨x, List.mem_append_left _ hx, hxu⟩

/-- Of what is inserted as an admin, there was nothing before it if in the end only the first user
is one. -/
theorem Bootstrapped.eq_nil {w : World b} (hboot : Bootstrapped w) {e : Action b}
    (hs : Op.Step e.op e.before e.result e.after) (hgrows : e.after.Grows w)
    (hadmin : e.op.registered e.result = some true) : e.before.db.users.rows = [] := by
  obtain ⟨u, hsome, hrows⟩ := hs.users_eq.resolve_right (by simp [hadmin])
  rw [hadmin, Option.some.injEq] at hsome
  have hgrown := hgrows.db.users
  rw [hrows] at hgrown
  have hhead := hboot.first u (List.mem_filter.mpr ⟨hgrown.subset (by simp), hsome.symm⟩)
  have hnodup := e.after.nodup_users
  rw [hrows] at hnodup
  rcases hbefore : e.before.db.users.rows with _ | ⟨v, rows⟩
  · rfl
  · obtain ⟨rest, hrest⟩ := hgrown
    rw [hbefore] at hrest hnodup
    -- the head of the rows is both `u` and a row before `u`
    rw [← hrest, List.cons_append, List.cons_append, List.head?_cons, Option.some.injEq] at hhead
    rw [hhead] at hnodup
    simp at hnodup

theorem leads_of_steps (hreq : ∀ i, ∃ r : Request, c.thread i = r.handle)
    (h : Pool.Steps Op.Step c l c') {x : ι × Action b} (hx : x ∈ l) :
    Op.Step x.2.op x.2.before x.2.result x.2.after ∧ c.state.Leads x.2.before ∧
      x.2.after.Grows c'.state := by
  have hsafe : ∀ i, Leading (c.thread i) c.state := by
    intro i
    obtain ⟨r, hi⟩ := hreq i
    rw [hi]
    exact handle_leading r c.state
  have hleads := (h.safe hsafe fun _ _ _ _ _ hle ↦ hle).2.2
  obtain ⟨_, hbetween⟩ := h.run.le (R := World.Leads) fun e he _ ↦ by
    obtain ⟨y, hy, rfl⟩ := List.mem_map.mp he
    exact hleads y hy
  obtain ⟨hbefore, _, hafter⟩ := hbetween x.2 (List.mem_map_of_mem hx)
  exact ⟨h.sem_of_mem hx, hbefore, hafter.grows⟩

/-- **Between a count of no admins and an insert**, users have been inserted or there are none. -/
theorem users_eq_nil_iff (hstart : c.state.db.users.rows = [])
    (hreq : ∀ i, ∃ r : Request, c.thread i = r.handle) (h : Pool.Steps Op.Step c l c')
    {l₀ m l₂ : List (ι × Action b)} {x y : ι × Action b} (hl : l = l₀ ++ x :: (m ++ y :: l₂))
    (hcounts : CountsNoAdmin x.2) :
    y.2.before.db.users.rows = [] ↔ ∀ z ∈ m, ¬InsertsUser z.2 := by
  have hx : x ∈ l := by rw [hl]; simp
  obtain ⟨hs, hleads, _⟩ := leads_of_steps hreq h hx
  have hnone : x.2.before.db.users.rows = [] :=
    hs.users_eq_nil hcounts (hleads.adminFirst fun hne ↦ absurd hstart hne)
  rw [← List.length_eq_zero_iff]
  refine eq_zero_iff (n := fun w : World b ↦ w.db.users.rows.length)
    (fun z _ hs ↦ hs.length_users_eq) h.run hl (List.length_eq_zero_iff.mpr hnone) fun hinserts ↦ ?_
  obtain ⟨admin, hadmin⟩ := Option.isSome_iff_exists.mp hinserts
  obtain ⟨uname, token, hop⟩ := Op.eq_of_registered hadmin
  rw [Op.eq_of_counted hcounts] at hop
  simp at hop

/-- **Only the first user, unless another comes in between.** On a server without users, whatever
requests are handled that ask for no admin, and however their steps interleave: there is at most one
admin, the user who was inserted first, if and only if no user is inserted between a registration's
count of no admins and its own insert. -/
theorem bootstrapped_iff (hstart : c.state.db.users.rows = [])
    (hreq : ∀ i, ∃ r : Request, r.asksForAdmin = false ∧ c.thread i = r.handle)
    (h : Pool.Steps Op.Step c l c') :
    Bootstrapped c'.state ↔ Undisturbed CountsNoAdmin InsertsUser l := by
  have hphased : ∀ i, CountingFirst (c.thread i) none := by
    intro i
    obtain ⟨r, hr, hi⟩ := hreq i
    rw [hi]
    exact handle_countingFirst hr none
  have hreq' : ∀ i, ∃ r : Request, c.thread i = r.handle := fun i ↦
    let ⟨r, _, hi⟩ := hreq i
    ⟨r, hi⟩
  constructor
  · intro hboot l₀ i e m e' l₂ hl hview hcounts hinserts
    have hallowed : CountsFirst (e.op.counted e.result) e'.op :=
      Pool.Steps.allowed_next (hphased i) h hl hview
    obtain ⟨admin, hadmin⟩ := Option.isSome_iff_exists.mp hinserts
    obtain ⟨uname, token, hop⟩ := Op.eq_of_registered hadmin
    rw [hop, hcounts] at hallowed
    obtain rfl : true = admin := Option.some.inj hallowed
    obtain ⟨hs, _, hgrows⟩ := leads_of_steps hreq' h (x := (i, e')) (by rw [hl]; simp)
    exact (users_eq_nil_iff hstart hreq' h hl hcounts).mp (hboot.eq_nil hs hgrows hadmin)
  · intro hundisturbed
    refine bootstrapped_of_first fun u hu ↦ ?_
    obtain ⟨hu, hadmin⟩ := List.mem_filter.mp hu
    rcases exists_registers h hu with hold | ⟨⟨i, e'⟩, hx, hsome, hrows⟩
    · rw [hstart] at hold
      exact absurd hold (by simp)
    rw [hadmin] at hsome
    have hprepared : Prepared CountsNoAdmin (fun e : Action b ↦
        e.op.registered e.result = some true) l := by
      refine h.prepared hphased fun e t hact hallowed ↦ ?_
      obtain ⟨uname, token, hop⟩ := Op.eq_of_registered hact
      rw [hop] at hallowed
      obtain rfl : t = some true := hallowed
      exact ⟨by simp, fun e hnext ↦ hnext⟩
    -- the admin was inserted after a count of none, and by then there was still no user
    obtain ⟨l₁, l₂, hl⟩ := List.append_of_mem hx
    obtain ⟨l₀, e, m, rfl, hview, hcounts⟩ := hprepared l₁ i e' l₂ hl hsome
    have hl' : l = l₀ ++ (i, e) :: (m ++ (i, e') :: l₂) := by rw [hl]; simp
    have hinserts : InsertsUser e' := by
      rw [InsertsUser, hsome]
      rfl
    have hnone := (users_eq_nil_iff hstart hreq' h hl' hcounts).mpr
      (hundisturbed l₀ i e m e' l₂ hl' hview hcounts hinserts)
    obtain ⟨_, _, hgrows⟩ := leads_of_steps hreq' h hx
    obtain ⟨rest, hrest⟩ := hgrows.db.users
    dsimp only at hrows hnone
    rw [← hrest, hrows, hnone]
    rfl

end Registrations

/-! ## Two at once -/

/-- Two users generated on a new server. -/
private def generateTwo : Pool Bool Op Op.Result Exn Reply (World .postgres) :=
  ⟨World.start .postgres 0, fun i ↦ (Request.GenerateUser (if i then "a" else "b") "c").handle⟩

theorem bootstrapped_iff_inTurn :
    Bootstrapped (Pool.replay Op.exec generateTwo
        (List.replicate 4 true ++ List.replicate 4 false)).2.state ↔
      Undisturbed CountsNoAdmin InsertsUser
        (Pool.replay Op.exec generateTwo (List.replicate 4 true ++ List.replicate 4 false)).1 :=
  bootstrapped_iff rfl (fun _ ↦ ⟨.GenerateUser _ _, rfl, rfl⟩) (Pool.replay_sound Op.step_exec _ _)

/-- Both registrations count before either has inserted its user. -/
theorem exists_twoBootstraps :
    ¬∀ (c c' : Pool Bool Op Op.Result Exn Reply (World .postgres))
      (l : List (Bool × Action .postgres)), c.state.db.users.rows = [] →
      (∀ i, ∃ r : Request, r.target = some .users ∧ r.asksForAdmin = false ∧
        c.thread i = r.handle) →
      Pool.Steps Op.Step c l c' → Bootstrapped c'.state := by
  intro h
  have hboot := h generateTwo _ _ rfl (fun _ ↦ ⟨.GenerateUser _ _, rfl, rfl, rfl⟩)
    (Pool.replay_sound Op.step_exec generateTwo [true, true, false, false, true, false])
  exact absurd hboot.atMostOne (by decide)

end Wrongthink
