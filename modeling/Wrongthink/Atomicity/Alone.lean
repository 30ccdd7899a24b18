import Wrongthink.Bans.Duplicates
import Wrongthink.Creation.Answers
import Wrongthink.Creation.Handlers
import Wrongthink.Service.Listing

/-!
# A call that nobody disturbs

What a handler would do if it ran alone from some state, and which of its answers it would still get
there. Two things make this a useful question. A query that has found something finds it ever after,
since users stay as they are and bans stay where they are (`Op.Step.exec_eq_of_lasting`). And what a
statement does depends on the database and the clock only, so a state may be exchanged for another
that differs in its `channelMap`.

The execution may be one in which some database calls are lost (`Op.execBut`), to repeat the loss of
a call that is explained by it.
-/

namespace Wrongthink

open Concurrent Relational

variable {b : Backend}

/-! ## Drift -/

theorem World.drift_drift (d d' : World.Drift) (w : World b) :
    (w.drift d).drift d' = w.drift ⟨d'.now, d.gaps + d'.gaps⟩ := by
  simp only [drift, Database.skip, Tables.skip_skip]

theorem Op.Step.of_drift {o : Op} {d : World.Drift} {w w' : World b} {r : Except Exn o.Result}
    (h : Op.Step o (w.drift d) r w') : Op.Step o w r w' := by
  obtain ⟨d', ⟨rfl, rfl⟩ | ⟨hstore, rfl, rfl⟩⟩ := h.cases
  · rw [World.drift_drift]
    exact .exec _ o w
  · rw [World.drift_drift]
    exact .lost _ o w hstore

/-! ## Executions with losses -/

/-- Execute, but lose the database calls in `P`. -/
def Op.execBut (P : Op → Bool) (o : Op) (w : World b) : Except Exn o.Result × World b :=
  if o.store && P o then (.error .connectionFailure, w) else o.exec w

theorem Op.step_execBut (P : Op → Bool) (o : Op) (w : World b) :
    Op.Step o w (o.execBut P w).1 (o.execBut P w).2 := by
  rw [execBut]
  split
  · rename_i hlost
    have h := Op.Step.lost w.still o w (Bool.and_eq_true_iff.mp hlost).1
    have hw : w.drift w.still = w := by simp [World.drift, World.still, Database.skip, Tables.skip]
    rw [hw] at h
    exact h
  · exact Op.step_exec o w

@[simp] theorem Op.execBut_of_not {P : Op → Bool} {o : Op} (h : P o = false) (w : World b) :
    o.execBut P w = o.exec w := by
  rw [execBut, h, Bool.and_false]
  rfl

theorem Op.execBut_lost {P : Op → Bool} {o : Op} (hstore : o.store = true) (h : P o = true)
    (w : World b) : o.execBut P w = (.error .connectionFailure, w) := by
  rw [execBut, hstore, h]
  rfl

section Connection

private theorem bind_ne_error {α β : Type} {x : Except Exn α} {f : α → Except Exn β} {e : Exn}
    (hx : x ≠ .error e) (hf : ∀ a, f a ≠ .error e) : (x >>= f) ≠ .error e := by
  cases x with
  | error e' => exact fun h ↦ hx (congrArg Except.error (Except.error.inj h))
  | ok a => exact hf a

private theorem varchar_ne_lost (k : ℕ) (s : String) :
    varchar b k s ≠ .error .connectionFailure := by
  cases b with
  | sqlite => simp [varchar]
  | postgres =>
    rw [varchar]
    split
    · simp
    · split <;> simp

private theorem int4_ne_lost (n : ℤ) : int4 b n ≠ .error .connectionFailure := by
  cases b with
  | sqlite => simp [int4]
  | postgres =>
    rw [int4]
    split <;> simp

private theorem written_ne_lost (t : Tables) {x : Except Exn Tables}
    (hx : x ≠ .error .connectionFailure) :
    (Statement.written t x).1 ≠ .error .connectionFailure := by
  cases x with
  | ok t' => simp [Statement.written]
  | error e => exact fun h ↦ hx (congrArg Except.error (Except.error.inj h))

theorem Statement.exec_ne_lost (now : ℤ) (t : Tables) (q : Statement) :
    (q.exec b now t).1 ≠ .error .connectionFailure := by
  cases q with
  | insertBannedIp ip expire =>
    refine written_ne_lost t (bind_ne_error (varchar_ne_lost 50 ip) fun ip' ↦ ?_)
    split <;> simp [pure, Except.pure, throw, throwThe, MonadExceptOf.throw]
  | updateBannedUser days uid =>
    refine written_ne_lost t ?_
    rw [setBannedUser]
    split
    · exact bind_ne_error (int4_ne_lost now) fun epoch ↦
        bind_ne_error (int4_ne_lost _) fun expire ↦ by simp [pure, Except.pure]
    · simp [pure, Except.pure]
  | insertBannedUser uid days =>
    refine written_ne_lost t (bind_ne_error (int4_ne_lost now) fun epoch ↦
      bind_ne_error (int4_ne_lost _) fun expire ↦ ?_)
    split <;> simp [pure, Except.pure, throw, throwThe, MonadExceptOf.throw]
  | insertUser uname token admin =>
    refine written_ne_lost t (bind_ne_error (varchar_ne_lost 50 uname) fun uname' ↦
      bind_ne_error (varchar_ne_lost 50 token) fun token' ↦ ?_)
    split <;> simp [pure, Except.pure, throw, throwThe, MonadExceptOf.throw]
  | insertChannel name community admin_id anonymous =>
    refine written_ne_lost t (bind_ne_error (varchar_ne_lost 100 name) fun name' ↦ ?_)
    split
    · simp [throw, throwThe, MonadExceptOf.throw]
    · split <;> simp [pure, Except.pure, throw, throwThe, MonadExceptOf.throw]
  | insertCommunity name admin pub =>
    refine written_ne_lost t (bind_ne_error (varchar_ne_lost 100 name) fun name' ↦ ?_)
    split
    · simp [throw, throwThe, MonadExceptOf.throw]
    · split <;> simp [pure, Except.pure, throw, throwThe, MonadExceptOf.throw]
  | insertMessage user_id channel thread_id thread_child mtext =>
    have hboolean : boolean b thread_child ≠ .error .connectionFailure := by
      cases b with
      | sqlite => simp [boolean]
      | postgres =>
        rw [boolean]
        split <;> simp
    refine written_ne_lost t (bind_ne_error hboolean fun child ↦
      bind_ne_error (int4_ne_lost now) fun mdate ↦ ?_)
    split <;> simp [pure, Except.pure, throw, throwThe, MonadExceptOf.throw]
  | _ => simp [exec]

theorem Op.exec_ne_lost (o : Op) (w : World b) : (o.exec w).1 ≠ .error .connectionFailure := by
  cases o with
  | sql q => exact Statement.exec_ne_lost w.now w.db.toTables q
  | _ => simp [exec]

end Connection

/-- **A call alone.** What a handler comes to when it runs alone is one of the ways the request can
be handled, also if the surroundings have drifted before it begins. -/
theorem Served.exists_alone {P : Op → Bool} {r : Request} {w w' : World b} {d : World.Drift}
    {reply : Reply} (hact : r.handle.outcome = none)
    (hexec : (r.handle.exec (Op.execBut P) (w.drift d)).2 = (.ok reply, w')) :
    ∃ s : Served b, s.request = r ∧ s.reply = reply ∧ s.Handled w w' ∧
      ((∀ o, P o = false) → s.Linked) := by
  rcases hr : r.handle with x | e | ⟨o, k⟩
  · rw [hr] at hact
    cases hact
  · rw [hr] at hact
    cases hact
  rw [hr, Prog.exec_act] at hexec
  obtain ⟨hrun, p', htr, hout⟩ := Prog.exec_sound (Op.step_execBut P)
    (k (o.execBut P (w.drift d)).1) (o.execBut P (w.drift d)).2
  rw [hexec] at hrun hout
  rw [Prog.eq_done_of_outcome hout] at htr
  have hfirst := (Op.step_execBut P o (w.drift d)).of_drift
  -- the first action starts before the drift
  refine ⟨⟨r, ⟨w, o, (o.execBut P (w.drift d)).1, (o.execBut P (w.drift d)).2⟩ :: _, reply⟩,
    rfl, rfl,
    ⟨?_, .cons ⟨w, o, _, _⟩ hfirst hrun⟩, fun hP ↦ List.forall_mem_cons.mpr ⟨?_, fun e he ↦ ?_⟩⟩
  · rw [hr]
    exact .cons ⟨w, o, _, _⟩ htr
  · dsimp only
    rw [Op.execBut_of_not (hP o)]
    exact o.exec_ne_lost _
  · rw [Prog.result_of_mem_exec he, Op.execBut_of_not (hP _)]
    exact e.op.exec_ne_lost _

theorem Served.exists_lost {α : Type} {r : Request} {f : α → Response} {none : α}
    {k : Unit → Routine (Status × α)} (w : World b)
    (hr : r.handle = caught f none (perform .session >>= k)) :
    ∃ s : Served b, s.request = r ∧ s.reply = (Status.INTERNAL, f none) ∧ s.Handled w w := by
  have hw : w.drift w.still = w := by simp [World.drift, World.still, Database.skip, Tables.skip]
  have hstep := Op.Step.lost w.still Op.session w rfl
  rw [hw] at hstep
  refine ⟨⟨r, [⟨w, .session, .error .connectionFailure, w⟩], _⟩, rfl, rfl, ?_,
    .cons ⟨w, Op.session, _, w⟩ hstep (.nil w)⟩
  rw [hr]
  exact .cons (⟨w, Op.session, .error Exn.connectionFailure, w⟩ : Action b) (.nil _)

/-! ## Handlers under their `catch` -/

section Caught

variable {α : Type} {f : α → Response} {none : α} {p : Routine (Status × α)}
  {g : (o : Op) → World b → Except Exn o.Result × World b} {w w' : World b}

theorem exec_caught_ok {x : Status × α} (h : (p.exec g w).2 = (.ok x, w')) :
    ((caught f none p).exec g w).2 = (.ok (x.1, f x.2), w') := by
  induction p generalizing w with
  | done y =>
    rw [Prog.exec_done, Prod.mk.injEq, Except.ok.injEq] at h
    rw [← h.1, ← h.2]
    rfl
  | raise e => cases (Prod.mk.inj h).1
  | act o k ih =>
    rw [Prog.exec_act] at h
    exact ih _ h

theorem exec_caught_error {e : Exn} (h : (p.exec g w).2 = (.error e, w')) :
    ((caught f none p).exec g w).2 = (.ok (Status.INTERNAL, f none), w') := by
  induction p generalizing w with
  | done y => cases (Prod.mk.inj h).1
  | raise e' =>
    rw [Prog.exec_raise, Prod.mk.injEq] at h
    rw [← h.2]
    rfl
  | act o k ih => exact ih _ h

end Caught

/-! ## Answers that last -/

namespace World

/-- The users stay as they are, and the bans where they are. -/
structure Retains (w w' : World b) : Prop where
  users : w.db.users.rows <+: w'.db.users.rows
  bans : ∀ uid, w.bans uid ≤ w'.bans uid

instance : IsPreorder (World b) Retains where
  refl _ := ⟨List.prefix_refl _, fun _ ↦ Nat.le_refl _⟩
  trans _ _ _ h h' := ⟨h.users.trans h'.users, fun uid ↦ Nat.le_trans (h.bans uid) (h'.bans uid)⟩

end World

theorem Op.Step.retains {o : Op} {w w' : World b} {r : Except Exn o.Result} (h : Op.Step o w r w') :
    w.Retains w' :=
  ⟨h.grows.db.users, fun uid ↦ by
    rw [h.bans_eq uid]
    omega⟩

/-- The answers that are given for good: that a session is open, that the user is there, is an
admin, has this id, has a ban. -/
def Op.lasting : (o : Op) → Except Exn o.Result → Bool
  | session, .ok _ => true
  | sql (.selectUser _ _), .ok true => true
  | sql (.selectAdmin _), .ok true => true
  | sql (.selectUserId _), .ok (some _) => true
  | sql (.selectBannedUser _), .ok true => true
  | _, _ => false

private theorem any_of_grown {α : Type} {l l' : List α} {p : α → Bool} (h : l <+: l')
    (hl : l.any p = true) : l'.any p = true := by
  rw [List.any_eq_true] at hl ⊢
  obtain ⟨x, hx, hp⟩ := hl
  exact ⟨x, h.subset hx, hp⟩

private theorem find?_of_grown {α : Type} {l l' : List α} {p : α → Bool} {x : α} (h : l <+: l')
    (hl : l.find? p = some x) : l'.find? p = some x := by
  obtain ⟨l₂, rfl⟩ := h
  rw [List.find?_append, hl]
  rfl

theorem World.bans_pos_iff {w : World b} {uid : ℤ} :
    0 < w.bans uid ↔ w.db.banned_users.any (·.user_id = uid) = true := by
  rw [World.bans, List.countP_pos_iff, List.any_eq_true]

/-- **Who has found something** finds it in every later state. -/
theorem Op.Step.exec_eq_of_lasting {o : Op} {w w' v : World b} {r : Except Exn o.Result}
    (h : Op.Step o w r w') (hlasting : o.lasting r = true) (hv : w.Retains v) :
    o.exec v = (r, v) := by
  unfold Op.lasting at hlasting
  split at hlasting
  · rfl
  · obtain ⟨d, hr, _⟩ := h.ok
    have hold := (Except.ok.inj hr).symm
    exact Prod.ext (congrArg Except.ok (any_of_grown hv.users hold)) rfl
  · obtain ⟨d, hr, _⟩ := h.ok
    have hold := (Except.ok.inj hr).symm
    exact Prod.ext (congrArg Except.ok (any_of_grown hv.users hold)) rfl
  · rename_i uid
    obtain ⟨d, hr, _⟩ := h.ok
    have hold := (Except.ok.inj hr).symm
    obtain ⟨u, hu, huid⟩ := Option.map_eq_some_iff.mp hold
    have hnew := find?_of_grown hv.users hu
    refine Prod.ext (congrArg Except.ok ?_) rfl
    change (v.db.users.rows.find? _).map _ = _
    rw [hnew, Option.map_some, huid]
  · obtain ⟨d, hr, _⟩ := h.ok
    have hold := (Except.ok.inj hr).symm
    have hpos : 0 < w.bans _ := World.bans_pos_iff.mpr hold
    exact Prod.ext
      (congrArg Except.ok (World.bans_pos_iff.mp (Nat.lt_of_lt_of_le hpos (hv.bans _)))) rfl
  · cases hlasting

/-! ## The row that a creation finds -/

/-- The width of the column of the names. -/
def Table.width (T : Table) : ℕ := if T = .users then 50 else 100

namespace Creation

variable {q : Creation}

theorem width_eq (q : Creation) : q.width = q.table.width := by
  cases q <;> rfl

/-- The writes to the tables with names are the inserts of the creations. -/
theorem exists_of_target {o : Op} {T : Table} (ho : o.target = some T)
    (hT : T = .users ∨ T = .channels ∨ T = .communities) :
    ∃ (q : Creation) (adminct : ℕ), o = .sql (q.insert adminct) ∧ q.table = T := by
  cases o with
  | sql s =>
    cases s with
    | insertUser uname token admin =>
      exact ⟨.user uname token admin, 1, rfl, Option.some.inj ho⟩
    | insertChannel name community admin_id anonymous =>
      exact ⟨.channel name community admin_id anonymous, 0, rfl, Option.some.inj ho⟩
    | insertCommunity name admin pub =>
      exact ⟨.community name admin pub, 0, rfl, Option.some.inj ho⟩
    | _ =>
      -- no other statement writes to one of these tables
      rcases hT with rfl | rfl | rfl <;> cases ho
  | _ => cases ho

end Creation

/-- A step adds at most one name to a table, and one that fits the column. -/
theorem Op.Step.entries_eq {o : Op} {w w' : World b} {r : Except Exn o.Result}
    (h : Op.Step o w r w') (T : Table) : w'.entries T = w.entries T ∨
      ∃ n name, w'.entries T = w.entries T ++ [(n, name)] ∧
        (b = .postgres → name.length ≤ T.width) := by
  have hsame : w'.db.rows T = w.db.rows T → w'.entries T = w.entries T := by
    intro hrows
    cases T <;> simp_all [World.entries]
  by_cases ho : o.target = some T
  swap
  · exact .inl (hsame (h.frame T ho))
  by_cases hT : T = .users ∨ T = .channels ∨ T = .communities
  · obtain ⟨q, adminct, rfl, rfl⟩ := Creation.exists_of_target ho hT
    obtain ⟨_, n, name, hentries, hname, _⟩ | ⟨_, hrows⟩ := Creation.insert_eq h
    · refine .inr ⟨n, name, hentries, ?_⟩
      rintro rfl
      rw [← q.width_eq]
      exact length_le_of_varchar hname
    · exact .inl (hsame (hrows _))
  · cases T <;> simp_all [World.entries]

/-- **What a creation looks up** right after its insert, it looks up ever after: the row it has
inserted, or whatever else has a name that is too long to be stored. -/
theorem Creation.lookup_eq_of_run {q : Creation} {n : ℤ} {name : String} {w w' : World b}
    {tr : List (Action b)} (hname : varchar b q.width q.name = .ok name)
    (hmem : (n, name) ∈ w.entries q.table) (h : Run Op.Step w tr w') :
    q.lookup w' = q.lookup w := by
  by_cases hkept : name = q.name
  · subst hkept
    have hgrows : w.Grows w' := (h.le fun _ _ hs ↦ hs.grows).1
    rw [lookup_eq_some hmem, lookup_eq_some ((hgrows.entries q.table).subset hmem)]
  · have hlong : b = .postgres ∧ q.table.width < q.name.length := by
      cases b with
      | sqlite => exact absurd (Except.ok.inj hname).symm hkept
      | postgres =>
        refine ⟨rfl, Nat.lt_of_not_le fun hle ↦ hkept ?_⟩
        rw [← q.width_eq] at hle
        exact eq_of_varchar_of_length_le hle hname
    refine h.preserves (I := fun v ↦ q.lookup v = q.lookup w) (fun e _ hs hbefore ↦ ?_) rfl
    rcases hs.entries_eq q.table with hentries | ⟨m, new, hentries, hshort⟩
    · rw [lookup, hentries]
      exact hbefore
    · -- the new name is shorter than the one that is looked for
      have hne : new ≠ q.name := by
        rintro rfl
        exact absurd (hshort hlong.1) (Nat.not_le_of_lt hlong.2)
      rw [lookup, hentries, List.find?_append]
      simp only [List.find?_singleton, hne, decide_false, Bool.false_eq_true, if_false,
        Option.or_none]
      exact hbefore

end Wrongthink
