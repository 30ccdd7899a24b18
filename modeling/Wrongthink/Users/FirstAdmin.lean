import Wrongthink.Service.Frame

/-!
# The first user is an admin

`createUser` makes the new user an admin when it has just counted none. Two calls may both count
none, and then both insert an admin; what cannot happen is that a user who is not an admin comes
before every admin, because the count that let it through had seen one and no admin ever leaves.

The argument is a rely. Every step of every handler respects `Leads`, so what a call in flight has
counted still stands when it inserts, however many others run in between.
-/

namespace Wrongthink

open Concurrent

variable {b : Backend} {α : Type}

namespace World

/-- Some user is an admin. -/
def Led (w : World b) : Prop := ∃ u ∈ w.db.users.rows, u.admin = true

/-- Where there are users, there is an admin. -/
def AdminFirst (w : World b) : Prop := w.db.users.rows ≠ [] → w.Led

/-- What every step may be relied on for. -/
structure Leads (w w' : World b) : Prop where
  grows : w.Grows w'
  adminFirst : w.AdminFirst → w'.AdminFirst

instance : IsPreorder (World b) Leads where
  refl w := ⟨refl_of Grows w, id⟩
  trans _ _ _ h h' := ⟨trans_of Grows h.grows h'.grows, h'.adminFirst ∘ h.adminFirst⟩

theorem Led.grows {w w' : World b} (h : w.Led) (hw : w.Grows w') : w'.Led := by
  obtain ⟨u, hu, hadmin⟩ := h
  exact ⟨u, hw.db.users.subset hu, hadmin⟩

end World

open World (Led AdminFirst Leads)

/-! ## Steps -/

theorem Op.Step.leads {o : Op} {w w' : World b} {r : Except Exn o.Result} (h : Op.Step o w r w')
    (ho : o.target ≠ some .users) : w.Leads w' := by
  have hrows : w'.db.users.rows = w.db.users.rows := h.frame .users ho
  refine ⟨h.grows, fun hw hne ↦ ?_⟩
  rw [hrows] at hne
  exact (hw hne).grows h.grows

theorem Op.Step.leads_insertUser {uname token : String} {admin : Bool} {w w' : World b}
    {r : Except Exn Unit} (h : Op.Step (.sql (.insertUser uname token admin)) w r w')
    (hadmin : admin = false → w.Led) : w.Leads w' := by
  have hgrows : w.Grows w' := h.grows
  refine ⟨hgrows, fun hw hne ↦ ?_⟩
  cases admin with
  | false => exact (hadmin rfl).grows hgrows
  | true =>
    obtain ⟨now, gaps, heffect⟩ := h.effect
    rw [Led]
    generalize w'.db.toTables = t' at *
    cases heffect with
    | same _ _ _ => exact hw hne
    | insertUser _ _ _ uname' token' _ _ _ =>
      exact ⟨_, List.mem_append_right _ (List.mem_singleton_self _), rfl⟩

theorem Op.Step.countAdmins_ne_zero_iff {n : ℕ} {w w' : World b}
    (h : Op.Step (.sql .countAdmins) w (.ok n) w') : n ≠ 0 ↔ w.Led := by
  obtain ⟨d, hr, _⟩ := h.ok
  have hcount : n = w.db.users.rows.countP (·.admin) := Except.ok.inj hr
  rw [hcount, ← Nat.pos_iff_ne_zero, List.countP_pos_iff]
  rfl

/-! ## Calls -/

/-- Every step of a call is relied on, and nothing is asked of its end. -/
abbrev Leading (p : Routine α) (w : World b) : Prop :=
  p.Safe Op.Step Leads (fun _ w _ w' ↦ Leads w w') (fun _ _ ↦ True) (fun _ _ ↦ True) w

/-- **The decision of `createUser` stands.** A call that is about to insert a user who is not an
admin has counted one, and the count is still right. -/
theorem createUser_leading (uname token : String) (admin : Bool) (w : World b) :
    Leading (DBPostgres.createUser uname token admin) w := by
  refine Prog.Safe.perform_bind (fun _ _ _ _ h ↦ h.leads (by decide)) (fun _ _ _ w₁ _ ↦ ?_)
    (fun _ _ _ _ _ _ _ ↦ trivial)
  refine Prog.Safe.perform_bind (fun _ _ _ _ h ↦ h.leads (by decide))
    (fun _ _ adminct w₂ hcount ↦ ?_) (fun _ _ _ _ _ _ _ ↦ trivial)
  have hled : (if adminct = 0 then true else admin) = false → w₂.Led := by
    intro hadmin
    refine (hcount.countAdmins_ne_zero_iff.mp fun hzero ↦ ?_).grows hcount.grows
    rw [if_pos hzero] at hadmin
    cases hadmin
  refine Prog.Safe.perform_bind (fun w₃ hle _ _ h ↦ ?_) (fun _ _ _ _ _ ↦ ?_)
    (fun _ _ _ _ _ _ _ ↦ trivial)
  · exact h.leads_insertUser fun hadmin ↦ (hled hadmin).grows hle.grows
  · refine Prog.Safe.perform_bind (fun _ _ _ _ h ↦ h.leads nofun) (fun _ _ _ _ _ ↦ ?_)
      (fun _ _ _ _ _ _ _ ↦ trivial)
    exact fun _ _ ↦ trivial

theorem handle_leading (r : Request) (w : World b) : Leading r.handle w := by
  by_cases hr : r.target = some .users
  · cases r with
    | GenerateUser uuid uuid2 =>
      exact safe_caught ((createUser_leading _ _ _ w).bind fun _ _ _ _ _ ↦ trivial)
    | CreateUser request =>
      exact safe_caught ((createUser_leading _ _ _ w).bind fun _ _ _ _ _ ↦ trivial)
    | _ => cases hr
  · refine Prog.Safe.of_only (fun _ _ _ _ ↦ trivial) (fun o w _ w' ho _ h ↦ ?_)
      r.handle_only trivial
    exact ⟨h.leads (ho.target_ne hr), h.leads (ho.target_ne hr)⟩

/-! ## The server -/

variable {ι : Type} [DecidableEq ι]

/-- **There is always an admin.** Whatever requests are handled at the same time, on a server that
has just set up its tables, and however their steps interleave, the first user to appear is an
admin. -/
theorem exists_admin {t : Option Tables} {c c' : Pool ι Op Op.Result Exn Reply (World b)}
    {l : List (ι × Action b)} (hdb : c.state.db = Database.fresh b t)
    (hreq : ∀ i, ∃ r : Request, c.thread i = r.handle) (h : Pool.Steps Op.Step c l c')
    (hne : c'.state.db.users.rows ≠ []) : ∃ u ∈ c'.state.db.users.rows, u.admin = true := by
  have hsafe : ∀ i, Leading (c.thread i) c.state := by
    intro i
    obtain ⟨r, hr⟩ := hreq i
    rw [hr]
    exact handle_leading r c.state
  have hfresh : c.state.AdminFirst := by
    intro hne
    rw [hdb] at hne
    exact absurd rfl hne
  obtain ⟨hleads, _⟩ := h.safe hsafe fun _ _ _ _ _ hle ↦ hle
  exact hleads.adminFirst hfresh hne

/-- Two calls that both count no admin, on a schedule that takes their steps in turn. -/
theorem exists_admin_twice :
    ∃ u ∈ (Pool.replay Op.exec ⟨World.start .postgres 0, fun i : Bool ↦
      (Request.GenerateUser (if i then "a-b" else "c-d") "e").handle⟩
        [true, false, true, false, true, false]).2.state.db.users.rows, u.admin = true :=
  exists_admin rfl (fun i ↦ ⟨.GenerateUser _ _, rfl⟩) (Pool.replay_sound Op.step_exec _ _)
    (by decide)

end Wrongthink
