import Wrongthink.Channels.Entries

/-!
# Where senders and listeners meet

A channel is looked up, and made if need be, in four steps that no lock holds together, and any
number of handlers may be at it for the same id. `channelMap` nevertheless holds one channel for an
id and keeps it: `operator[]` is only evaluated on a key that is there, the first `emplace` makes
the channel and the others leave it alone, and from then on the entry is what the appends and the
waits make of it (`Op.Step.channelMap_eq`). So the reference that a listener has taken is to the
channel that later messages are appended to.
-/

namespace Wrongthink

open Concurrent

variable {b : Backend}

/-! ## The making of an entry -/

/-- An action leaves an entry for `id` where there was none. -/
def MakesEntry (id : ℤ) (e : Action b) : Prop :=
  (e.before.channelMap id).isNone ∧ (e.after.channelMap id).isSome

instance (id : ℤ) (e : Action b) : Decidable (MakesEntry id e) :=
  inferInstanceAs (Decidable (_ ∧ _))

/-- What an action does to the entry for `id`. -/
def Op.editOf (id : ℤ) (o : Op) (ch : SynchronizedChannel ThreadId) :
    SynchronizedChannel ThreadId :=
  match o.edit with
  | some (id', f) => if id' = id then f ch else ch
  | none => ch

/-- What some actions do to the entry for `id`, one after the other. -/
def edited (id : ℤ) (tr : List (Action b)) (ch : SynchronizedChannel ThreadId) :
    SynchronizedChannel ThreadId := tr.foldl (fun ch e ↦ e.op.editOf id ch) ch

namespace Op.Step

variable {o : Op} {w w' : World b} {r : Except Exn o.Result} {id : ℤ}

/-- **An entry stays, and is only edited.** -/
theorem channelMap_eq (h : Op.Step o w r w') {ch : SynchronizedChannel ThreadId}
    (hch : w.channelMap id = some ch) : w'.channelMap id = some (o.editOf id ch) := by
  cases hedit : o.edit with
  | some x =>
    obtain ⟨id', f⟩ := x
    obtain ⟨d, rfl⟩ := h.eq_modify hedit
    rw [editOf, hedit]
    by_cases hid : id' = id
    · subst hid
      rw [World.channelMap_modify_self, World.channelMap_drift, hch, Option.map_some]
      simp
    · rw [World.channelMap_modify_of_ne _ (Ne.symm hid), World.channelMap_drift, hch]
      simp [hid]
  | none =>
    have heq : o.editOf id ch = ch := by rw [editOf, hedit]
    rw [heq]
    obtain ⟨d, ⟨_, rfl⟩ | ⟨_, _, rfl⟩⟩ := h.cases
    swap
    · -- a lost statement
      exact hch
    have hinsert : ∀ (id' : ℤ) (new : SynchronizedChannel ThreadId),
        ((w.drift d).insertNew id' new).channelMap id = some ch := by
      intro id' new
      by_cases hid : id = id'
      · subst hid
        rw [World.channelMap_insertNew_self, World.channelMap_drift, hch, Option.getD_some]
      · rw [World.channelMap_insertNew_of_ne _ hid, World.channelMap_drift, hch]
    cases o with
    | emplace id' name => exact hinsert id' _
    | index id' => exact hinsert id' _
    | push _ _ | notifyAll _ | wait _ _ | wake _ _ => cases hedit
    | _ => exact hch

/-- An entry that was not there is made by `emplace`, or else by `operator[]`. -/
theorem eq_of_makesEntry (h : Op.Step o w r w') (hmakes : MakesEntry id ⟨w, o, r, w'⟩) :
    (∃ name, o = .emplace id name ∧ w'.channelMap id = some (.new id name)) ∨ o = .index id := by
  obtain ⟨hnone, hsome⟩ := hmakes
  rw [Option.isNone_iff_eq_none] at hnone
  dsimp only at hnone hsome
  cases hedit : o.edit with
  | some x =>
    obtain ⟨id', f⟩ := x
    obtain ⟨d, rfl⟩ := h.eq_modify hedit
    by_cases hid : id' = id
    · subst hid
      rw [World.channelMap_modify_self, World.channelMap_drift, hnone] at hsome
      cases hsome
    · rw [World.channelMap_modify_of_ne _ (Ne.symm hid), World.channelMap_drift, hnone] at hsome
      cases hsome
  | none =>
    obtain ⟨d, ⟨_, rfl⟩ | ⟨_, _, rfl⟩⟩ := h.cases
    swap
    · rw [World.channelMap_drift, hnone] at hsome
      cases hsome
    have hinsert : ∀ {id' : ℤ} {new : SynchronizedChannel ThreadId},
        (((w.drift d).insertNew id' new).channelMap id).isSome → id = id' := by
      intro id' new hsome
      by_contra hid
      rw [World.channelMap_insertNew_of_ne _ hid, World.channelMap_drift, hnone] at hsome
      cases hsome
    cases o with
    | emplace id' name =>
      obtain rfl := hinsert hsome
      refine .inl ⟨name, rfl, ?_⟩
      rw [Op.exec, World.channelMap_insertNew_self, World.channelMap_drift, hnone, Option.getD_none]
    | index id' =>
      obtain rfl := hinsert hsome
      exact .inr rfl
    | push _ _ | notifyAll _ | wait _ _ | wake _ _ => cases hedit
    | _ =>
      exfalso
      change (w.channelMap id).isSome at hsome
      rw [hnone] at hsome
      cases hsome

end Op.Step

theorem channelMap_of_run {w w' : World b} {tr : List (Action b)} {id : ℤ}
    {ch : SynchronizedChannel ThreadId} (h : Run Op.Step w tr w')
    (hch : w.channelMap id = some ch) :
    w'.channelMap id = some (edited id tr ch) := by
  induction h generalizing ch with
  | nil => exact hch
  | cons e he _ ih => exact ih (he.channelMap_eq hch)

theorem countP_makesEntry_le_one {w w' : World b} {tr : List (Action b)} {id : ℤ}
    (h : Run Op.Step w tr w') : tr.countP (fun e ↦ MakesEntry id e) ≤ 1 ∧
      ((w.channelMap id).isSome → tr.countP (fun e ↦ MakesEntry id e) = 0) := by
  induction h with
  | nil => simp
  | cons e he _ ih =>
    obtain ⟨hle, hzero⟩ := ih
    rw [List.countP_cons]
    by_cases hmakes : MakesEntry id e
    · have hnone := hmakes.1
      rw [Option.isNone_iff_eq_none] at hnone
      rw [hzero hmakes.2, hnone]
      simp [hmakes]
    · simp only [hmakes, decide_false, Bool.false_eq_true, if_false]
      exact ⟨hle, fun hsome ↦ hzero (he.grows.isSome hsome)⟩

/-! ## The meeting -/

variable {ι : Type}

/-- Every id has one channel, and everybody who uses it finds that one. -/
structure Meets (l : List (ι × Action b)) : Prop where
  /-- `operator[]` is evaluated on a key that is there. -/
  indexed : ∀ x ∈ l, ∀ id, x.2.op = .index id → (x.2.before.channelMap id).isSome
  once : ∀ id, l.countP (fun x ↦ MakesEntry id x.2) ≤ 1
  made : ∀ x ∈ l, ∀ id, MakesEntry id x.2 → ∃ name, x.2.op = .emplace id name ∧
    x.2.after.channelMap id = some (.new id name)
  /-- Whatever happens next, the entry is afterwards what it was, with the edits. -/
  kept : ∀ l₁ x m l₂ id ch, l = l₁ ++ (x :: m) ++ l₂ → x.2.before.channelMap id = some ch →
    ((x :: m).getLast (List.cons_ne_nil x m)).2.after.channelMap id =
      some (edited id ((x :: m).map Prod.snd) ch)
  /-- A reference that was taken is to the channel that later messages are appended to. -/
  reached : ∀ l₁ x m y l₂ id msg, l = l₁ ++ x :: (m ++ y :: l₂) → x.2.op = .index id →
    y.2.op = .push id msg → ∃ ch, x.2.before.channelMap id = some ch ∧
      y.2.after.channelMap id = some ((edited id (m.map Prod.snd) ch).push msg)
  /-- No later action discards a message. -/
  logged : ∀ l₁ x m y l₂ id msg, l = l₁ ++ x :: (m ++ y :: l₂) → x.2.op = .push id msg →
    x.2.after.log id <+: y.2.after.log id ∧ msg ∈ y.2.after.log id

variable [DecidableEq ι] {c c' : Pool ι Op Op.Result Exn Reply (World b)} {l : List (ι × Action b)}

theorem present_of_steps (hcalls : ∀ i, ∃ r : Request, c.thread i = r.handle)
    (h : Pool.Steps Op.Step c l c') {x : ι × Action b} (hx : x ∈ l) :
    Present x.2.op x.2.before x.2.result x.2.after := by
  obtain ⟨r, hr⟩ := hcalls x.1
  exact present_of_view hr h x.2 (mem_view.mpr hx)

/-- **Senders and listeners meet.** However the calls interleave, and whatever becomes of their
statements. -/
theorem meets (hcalls : ∀ i, ∃ r : Request, c.thread i = r.handle)
    (h : Pool.Steps Op.Step c l c') : Meets l := by
  have hpresent : ∀ x ∈ l, Present x.2.op x.2.before x.2.result x.2.after :=
    fun x hx ↦ present_of_steps hcalls h hx
  have hkept : ∀ l₁ x m l₂ id ch, l = l₁ ++ (x :: m) ++ l₂ → x.2.before.channelMap id = some ch →
      ((x :: m).getLast (List.cons_ne_nil x m)).2.after.channelMap id =
        some (edited id ((x :: m).map Prod.snd) ch) :=
    fun l₁ x m l₂ id ch hl hch ↦ channelMap_of_run (h.stretch hl) hch
  have hlast : ∀ x y (m : List (ι × Action b)),
      (x :: (m ++ [y])).getLast (List.cons_ne_nil _ _) = y := by simp
  refine ⟨fun x hx id hop ↦ ?_, fun id ↦ ?_, fun x hx id hmakes ↦ ?_, hkept,
    fun l₁ x m y l₂ id msg hl hindex hpush ↦ ?_, fun l₁ x m y l₂ id msg hl hpush ↦ ?_⟩
  · exact hpresent x hx id (by rw [hop]; rfl)
  · have hle : (l.map Prod.snd).countP (fun e ↦ MakesEntry id e) ≤ 1 :=
      (countP_makesEntry_le_one h.run).1
    rw [List.countP_map] at hle
    exact hle
  · rcases (h.sem_of_mem hx).eq_of_makesEntry hmakes with hemplace | hindex
    · exact hemplace
    · have hsome := hpresent x hx id (by rw [hindex]; rfl)
      rw [Option.isNone_iff_eq_none.mp hmakes.1] at hsome
      cases hsome
  · -- the entry is there when the reference is taken, and nobody replaces it
    have hx : x ∈ l := by rw [hl]; simp
    obtain ⟨ch, hch⟩ := Option.isSome_iff_exists.mp (hpresent x hx id (by rw [hindex]; rfl))
    refine ⟨ch, hch, ?_⟩
    have hy := hkept l₁ x (m ++ [y]) l₂ id ch (by rw [hl]; simp) hch
    rw [hlast, List.map_cons, List.map_append] at hy
    rw [hy]
    simp [edited, Op.editOf, Op.edit, hindex, hpush]
  · have hx : x ∈ l := by rw [hl]; simp
    have hsplit : l = l₁ ++ (x :: (m ++ [y])) ++ l₂ := by rw [hl]; simp
    have hrun := h.stretch hsplit
    rw [hlast] at hrun
    have hgrows : x.2.after.Grows y.2.after :=
      ((hrun.le fun _ _ hs ↦ hs.grows).2 x.2 (by simp)).2.2
    have hgrown := hgrows.log_prefix id
    refine ⟨hgrown, hgrown.subset ?_⟩
    obtain ⟨i, w, o, r, w'⟩ := x
    dsimp only at hpush
    subst hpush
    have hlog : w'.log id = w.log id ++ [msg] := (h.sem_of_mem hx).log_push (hpresent _ hx).indexed
    dsimp only
    rw [hlog]
    simp

/-- A listener and a sender that both find channel 1 missing. -/
private def racingForOne : Pool Bool Op Op.Result Exn Reply (World .postgres) :=
  ⟨World.start .postgres 0, fun i ↦ if i then
    (Request.ListenWrongthinkMessages 1 0 1).handle
    else (Request.SendWrongthinkMessageWeb
      { (default : WrongthinkMessage) with channelid := 1 }).handle⟩

theorem meets_racing :
    Meets (Pool.replay Op.exec racingForOne
      [true, false, true, false, true, false, false, true, false, true, true, false, false]).1 :=
  meets (fun i ↦ ⟨if i then .ListenWrongthinkMessages 1 0 1
    else .SendWrongthinkMessageWeb { (default : WrongthinkMessage) with channelid := 1 },
    by cases i <;> rfl⟩) (Pool.replay_sound Op.step_exec _ _)

end Wrongthink
