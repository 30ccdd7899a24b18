import Wrongthink.Lifecycle.Schema
import Wrongthink.Service.Interceptor
import Wrongthink.Service.Serve
import Wrongthink.Users.FirstAdmin

/-!
# One life after another

What `main` does to the database, from the start of a process to its end. The end may come anywhere:
the process may be killed, or lose its connection, in the middle of `clear` or of `validate`, or
while any number of calls pass the interceptor and are handled. The next process finds the tables as
they were left, and starts with an empty `channelMap`.

A property of the tables that survives a `clear` which is cut off, and every run of the server,
holds in every life (`Lives.preserves`). So constraints hold in every life and users are led by an
admin, and no process is ever kept from serving by what an earlier one has left (`starts`). What has
been stored stays, unless somebody starts a process with `clear` (`Lives.nothing_lost`).
-/

namespace Wrongthink

open Concurrent Relational
open DBPostgres (execute)

/-! ## A process -/

/-- What `main` sends before it serves, by its arguments. With `sqlite` it returns at once. -/
def startup : List String → Option (List (Ddl SqlTable))
  | ["sqlite"] => none
  | ["clear"] => some (DBPostgres.clear ++ DBPostgres.validate)
  | _ => some DBPostgres.validate

/-- A process that is started with these arguments finds the tables of `k` and leaves those of
`k'`. -/
inductive Life : List String → Catalog → Catalog → Prop where
  | sqlite (k) : Life ["sqlite"] k k
  /-- It ends before it serves. -/
  | stopped {args script} (hscript : startup args = some script) (n : ℕ) (k) :
      Life args k (execute (script.take n) k).2
  /-- It ends while it serves, or when it has been shut down. -/
  | served {args script k} {ι : Type} [DecidableEq ι] {calls : ι → Call}
      {c c' : Pool ι Op Op.Result Exn Reply (World .postgres)} {l : List (ι × Action .postgres)}
      (hscript : startup args = some script)
      (hstart : execute script k = (true, c.state.db.toTables.catalogue))
      (hmap : c.state.channelMap = fun _ ↦ none) (hcalls : ∀ i, c.thread i = (calls i).run)
      (h : Pool.Steps Op.Step c l c') : Life args k c'.state.db.toTables.catalogue

/-- Processes one after the other, each with its arguments. -/
inductive Lives : List (List String) → Catalog → Catalog → Prop where
  | nil (k) : Lives [] k k
  | snoc {as args k k' k''} (h : Lives as k k') (h' : Life args k' k'') :
      Lives (as ++ [args]) k k''

/-! ## Before it serves -/

/-- The tables to be emptied include all that refer to one of them. -/
def Dependents (S : List SqlTable) : Prop := ∀ T U, U ∈ SqlTable.refs T → U ∈ S → T ∈ S

section Startup

variable {args : List String} {script : List (Ddl SqlTable)}

theorem eq_validate (hscript : startup args = some script) (hargs : args ≠ ["clear"]) :
    script = DBPostgres.validate := by
  rw [startup] at hscript
  · exact (Option.some.inj hscript).symm
  · rintro rfl
    cases hscript
  · exact hargs

/-- **Wherever the start is cut off**, nothing has been refused, and what is lost are the rows of
some tables and of all that refer to them. -/
theorem execute_take_startup (hscript : startup args = some script) (n : ℕ) (k : Catalog) :
    (execute (script.take n) k).1 = true ∧ ∃ S, Dependents S ∧ (args ≠ ["clear"] → S = []) ∧
      (execute (script.take n) k).2.stored = k.stored.emptied S := by
  by_cases hargs : args = ["clear"]
  · subst hargs
    obtain rfl := Option.some.inj hscript
    rw [List.take_append, DBPostgres.execute_append (DBPostgres.execute_take_clear n k),
      DBPostgres.execute_take_validate]
    refine ⟨rfl, DBPostgres.dropped.take n, fun T U hU hS ↦ ?_, fun hne ↦ absurd rfl hne, ?_⟩
    · exact ((DBPostgres.dropped_dependentsFirst.take n).mem hS hU).resolve_left List.not_mem_nil
    · exact (Catalog.stored_create _ _).trans (Catalog.stored_drop _ k)
  · obtain rfl := eq_validate hscript hargs
    rw [DBPostgres.execute_take_validate]
    refine ⟨rfl, [], nofun, fun _ ↦ rfl, ?_⟩
    rw [Tables.emptied_nil]
    exact Catalog.stored_create _ k

/-- What the server finds when the start is through. -/
theorem eq_emptied {k : Catalog} {t : Tables} (hscript : startup args = some script)
    (hstart : execute script k = (true, t.catalogue)) :
    ∃ S, Dependents S ∧ (args ≠ ["clear"] → S = []) ∧ t = k.stored.emptied S := by
  obtain ⟨_, S, hS, hnone, hstored⟩ := execute_take_startup hscript script.length k
  rw [List.take_length, hstart] at hstored
  exact ⟨S, hS, hnone, hstored⟩

/-- **A start that is not cut off** does what `clear` and `validate` are for. -/
theorem execute_startup (hscript : startup args = some script) (k : Catalog) :
    execute script k = (true, (validate (if args = ["clear"] then clear (some k.stored)
      else some k.stored)).catalogue) := by
  by_cases hargs : args = ["clear"]
  · subst hargs
    obtain rfl := Option.some.inj hscript
    rw [DBPostgres.execute_append (DBPostgres.execute_clear k)]
    exact DBPostgres.execute_validate _
  · obtain rfl := eq_validate hscript hargs
    rw [if_neg hargs]
    exact DBPostgres.execute_validate k

end Startup

/-! ## In every life -/

/-- A database without tables. -/
def Catalog.blank : Catalog := fun _ ↦ none

/-- **What holds in every life.** It has to hold of empty tables, to survive that tables are emptied
along with those that refer to them, and to survive a run of the server. -/
theorem Life.preserves {I : Tables → Prop} {args : List String} {k k' : Catalog}
    (h : Life args k k') (hemptied : ∀ t S, Dependents S → I t → I (t.emptied S))
    (hserve : ∀ {ι : Type} [DecidableEq ι] {calls : ι → Call}
      {c c' : Pool ι Op Op.Result Exn Reply (World .postgres)} {l : List (ι × Action .postgres)},
      (∀ i, c.thread i = (calls i).run) → Pool.Steps Op.Step c l c' → I c.state.db.toTables →
        I c'.state.db.toTables)
    (hk : I k.stored) : I k'.stored := by
  cases h with
  | sqlite => exact hk
  | stopped hscript n =>
    obtain ⟨_, S, hS, _, hstored⟩ := execute_take_startup hscript n k
    rw [hstored]
    exact hemptied _ S hS hk
  | served hscript hstart _ hcalls h =>
    obtain ⟨S, hS, _, hstored⟩ := eq_emptied hscript hstart
    refine hserve hcalls h ?_
    rw [hstored]
    exact hemptied _ S hS hk

theorem Lives.preserves {I : Tables → Prop} {as : List (List String)} {k k' : Catalog}
    (h : Lives as k k') (hemptied : ∀ t S, Dependents S → I t → I (t.emptied S))
    (hserve : ∀ {ι : Type} [DecidableEq ι] {calls : ι → Call}
      {c c' : Pool ι Op Op.Result Exn Reply (World .postgres)} {l : List (ι × Action .postgres)},
      (∀ i, c.thread i = (calls i).run) → Pool.Steps Op.Step c l c' → I c.state.db.toTables →
        I c'.state.db.toTables)
    (hk : I k.stored) : I k'.stored := by
  induction h with
  | nil => exact hk
  | snoc _ hlife ih => exact hlife.preserves hemptied hserve (ih hk)

/-- What is wanted of the tables that a process finds. -/
structure Tables.Sound (t : Tables) : Prop where
  valid : t.Valid .postgres
  led : t.users.rows ≠ [] → ∃ u ∈ t.users.rows, u.admin = true

theorem Tables.Sound.emptied {t : Tables} {S : List SqlTable} (hS : Dependents S) (h : t.Sound) :
    (t.emptied S).Sound := by
  refine ⟨h.valid.emptied hS, ?_⟩
  have husers : (t.emptied S).users = if SqlTable.users ∈ S then .empty else t.users := rfl
  rw [husers]
  split
  · exact fun hne ↦ absurd rfl hne
  · exact h.led

theorem Tables.sound_blank : Catalog.blank.stored.Sound :=
  ⟨valid_validate_clear .postgres none, fun hne ↦ absurd rfl hne⟩

theorem call_leading (call : Call) (w : World .postgres) : Leading call.run w := by
  have hintercept : Leading (LoggingInterceptor.interceptAll call.peer call.batches) w := by
    refine Prog.Safe.of_only (fun _ _ _ _ ↦ trivial) (fun o w _ w' ho _ h ↦ ?_)
      (LoggingInterceptor.interceptAll_target (T := .users) (by simp) _ _) trivial
    exact ⟨h.leads ho, h.leads ho⟩
  exact hintercept.bind fun _ w₁ _ ↦ handle_leading call.request w₁

theorem sound_of_steps {ι : Type} [DecidableEq ι] {calls : ι → Call}
    {c c' : Pool ι Op Op.Result Exn Reply (World .postgres)} {l : List (ι × Action .postgres)}
    (hcalls : ∀ i, c.thread i = (calls i).run) (h : Pool.Steps Op.Step c l c')
    (hc : c.state.db.toTables.Sound) : c'.state.db.toTables.Sound := by
  have hsafe : ∀ i, Leading (c.thread i) c.state := by
    intro i
    rw [hcalls]
    exact call_leading (calls i) c.state
  obtain ⟨hleads, _⟩ := h.safe hsafe fun _ _ _ _ _ hle ↦ hle
  exact ⟨c'.state.db.valid, hleads.adminFirst hc.led⟩

theorem Lives.sound {as : List (List String)} {k : Catalog} (h : Lives as .blank k) :
    k.stored.Sound :=
  h.preserves (fun _ _ hS ht ↦ ht.emptied hS)
    (fun hcalls hsteps ht ↦ sound_of_steps hcalls hsteps ht)
    Tables.sound_blank

/-- **Every start succeeds.** Whatever processes have been started before, on a database without
tables, and wherever each of them has ended: no statement of the next start is refused, and if it is
not cut off it finds a database that keeps its constraints and whose users, if there are any, have
an admin among them. After `clear` that database is a new one; otherwise it is all that is stored.
-/
theorem starts {as : List (List String)} {args : List String} {script : List (Ddl SqlTable)}
    {k : Catalog} (h : Lives as .blank k) (hscript : startup args = some script) :
    (∀ n, (execute (script.take n) k).1 = true) ∧ ∃ w : World .postgres,
      execute script k = (true, w.db.toTables.catalogue) ∧ w.channelMap = (fun _ ↦ none) ∧
        w.AdminFirst ∧ w.db.toTables =
          validate (if args = ["clear"] then clear (some k.stored) else some k.stored) := by
  refine ⟨fun n ↦ (execute_take_startup hscript n k).1, ?_⟩
  have hsound : (validate (if args = ["clear"] then clear (some k.stored)
      else some k.stored)).Sound := by
    split
    · exact Tables.sound_blank
    · exact h.sound
  exact ⟨⟨⟨_, hsound.valid⟩, fun _ ↦ none, 0⟩, execute_startup hscript k, rfl, hsound.led, rfl⟩

private def signing (_ : Unit) : Call :=
  ⟨"ipv4:1.2.3.4:5678", [⟨true, some (some [⟨"uname", "", "ann"⟩])⟩],
    .CreateUser ⟨"ann", "pw", false⟩⟩

private def opened : Pool Unit Op Op.Result Exn Reply (World .postgres) :=
  ⟨World.start .postgres 0, fun i ↦ (signing i).run⟩

/-- A process that has signed somebody up. -/
private def signedUp : List (Unit × Action .postgres) ×
    Pool Unit Op Op.Result Exn Reply (World .postgres) :=
  Pool.replay Op.exec opened (List.replicate 9 ())

private theorem opened_thread (i : Unit) : opened.thread i = (signing i).run := rfl

private theorem lives_signedUp : Lives [[]] .blank signedUp.2.state.db.toTables.catalogue :=
  .snoc (.nil _) (.served (c := opened) rfl (DBPostgres.execute_validate _) rfl opened_thread
    (Pool.replay_sound Op.step_exec _ _))

private theorem life_cleared (k : Catalog) :
    Life ["clear"] k (execute ((DBPostgres.clear ++ DBPostgres.validate).take 3) k).2 :=
  .stopped rfl 3 k

private theorem life_validated (k : Catalog) :
    Life [] k (execute (DBPostgres.validate.take 5) k).2 := .stopped rfl 5 k

private theorem startup_nil : startup [] = some DBPostgres.validate := rfl

/-- After a `clear` that was cut off behind its third statement. -/
theorem starts_signedUp :
    let k := (execute ((DBPostgres.clear ++ DBPostgres.validate).take 3)
      signedUp.2.state.db.toTables.catalogue).2
    (∀ n, (execute (DBPostgres.validate.take n) k).1 = true) ∧ ∃ w : World .postgres,
      execute DBPostgres.validate k = (true, w.db.toTables.catalogue) ∧
        w.channelMap = (fun _ ↦ none) ∧ w.AdminFirst ∧ w.db.toTables =
          validate (if [] = ["clear"] then clear (some k.stored) else some k.stored) :=
  starts (lives_signedUp.snoc (life_cleared _)) startup_nil

/-- **Nothing that is stored is lost**, wherever the processes have ended, unless one of them was to
clear the tables. -/
theorem Lives.nothing_lost {as : List (List String)} {k k' : Catalog} (h : Lives as k k')
    (hclear : ["clear"] ∉ as) : k.stored.Grows k'.stored := by
  induction h with
  | nil => exact .refl _
  | @snoc as args _ k k' _ hlife ih =>
    rw [List.mem_append, List.mem_singleton, not_or] at hclear
    refine (ih hclear.1).trans ?_
    cases hlife with
    | sqlite => exact .refl _
    | stopped hscript n =>
      obtain ⟨_, S, _, hnone, hstored⟩ := execute_take_startup hscript n k
      rw [hstored, hnone (Ne.symm hclear.2), Tables.emptied_nil]
      exact .refl _
    | served hscript hstart _ _ hsteps =>
      obtain ⟨S, _, hnone, hstored⟩ := eq_emptied hscript hstart
      rw [hnone (Ne.symm hclear.2), Tables.emptied_nil] at hstored
      rw [← hstored]
      exact (hsteps.run.le (R := World.Grows) fun _ _ hs ↦ hs.grows).1.db

theorem nothing_lost_signedUp :
    let k := signedUp.2.state.db.toTables.catalogue
    k.stored.Grows (execute (DBPostgres.validate.take 5) k).2.stored :=
  Lives.nothing_lost ((Lives.nil _).snoc (life_validated _)) (by decide)

end Wrongthink
