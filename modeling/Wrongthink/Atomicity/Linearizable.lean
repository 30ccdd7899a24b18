import Wrongthink.Atomicity.Repeats

/-!
# Requests are handled one after the other

However the steps of the calls interleave, and whichever of their statements are lost: there is a
history in which the calls are handled one after the other, each gets the reply it has got, and the
tables end up as they have (`exists_linearized`). A call has its place in the history where it has
its point, so the history keeps the order of calls that do not overlap.

This needs that no check of a call is overtaken before it has acted on it: no user is inserted
between a count of no admins and the insert it is for, and no ban of a user between the look for one
and the insert of one. When that is so, and what happens where it is not, is the subject of
`Wrongthink.Atomicity.Races`.

What the history does not explain is `channelMap`. A send appends to its channel before it inserts
its row, so channels may hold messages in an order that no history has. Nor is the interceptor part
of a call here: it is a handler alone that is given a place in the history.
-/

namespace Wrongthink

open Concurrent

variable {b : Backend} {ι : Type} [DecidableEq ι] {calls : ι → Request}
  {c c' : Pool ι Op Op.Result Exn Reply (World b)} {l : List (ι × Action b)}

/-! ## What is so at the point -/

/-- The tables of `w` are those of `v`, but for sequence values that have been drawn. -/
def World.Explains (v w : World b) : Prop := ∃ gaps, w.db.toTables = v.db.toTables.skip gaps

namespace World.Explains

theorem of_db {v w : World b} (h : v.db = w.db) : v.Explains w := by
  refine ⟨⟨0, 0, 0, 0⟩, ?_⟩
  rw [h]
  simp [Tables.skip]

theorem drift {v w : World b} (h : v.Explains w) (d : World.Drift) : v.Explains (w.drift d) := by
  obtain ⟨gaps, hgaps⟩ := h
  refine ⟨gaps + d.gaps, ?_⟩
  change w.db.toTables.skip d.gaps = _
  rw [hgaps, Tables.skip_skip]

theorem exists_drift {v w : World b} (h : v.Explains w) (now : ℤ) :
    ∃ d : World.Drift, (v.drift d).db = w.db ∧ (v.drift d).now = now := by
  obtain ⟨gaps, hgaps⟩ := h
  refine ⟨⟨now, gaps⟩, ?_, rfl⟩
  obtain ⟨⟨t, hvalid⟩, channelMap, now'⟩ := w
  change t = v.db.toTables.skip gaps at hgaps
  subst hgaps
  rfl

end World.Explains

/-- Without a write, only sequences move. -/
theorem Op.Step.explains {o : Op} {v w w' : World b} {r : Except Exn o.Result}
    (h : Op.Step o w r w') (ho : o.target = none) (hv : v.Explains w) : v.Explains w' := by
  obtain ⟨d, ⟨_, rfl⟩ | ⟨_, _, rfl⟩⟩ := h.cases
  · cases o with
    | sql q =>
      have heffect := (w.drift d).db.exec_effect d.now q
      obtain ⟨gaps, hgaps⟩ := hv.drift d
      refine ⟨gaps, ?_⟩
      change ((w.drift d).db.exec d.now q).2.toTables = _
      rw [← hgaps]
      generalize ((w.drift d).db.exec d.now q).1 = res at heffect
      generalize ((w.drift d).db.exec d.now q).2.toTables = t' at heffect ⊢
      cases heffect with
      | same _ _ _ => rfl
      | updateNobody _ _ _ => rfl
      | _ => cases ho
    | _ => exact hv.drift d
  · exact hv.drift d

theorem Op.Step.eq_drift {o : Op} {w w' : World b}
    (h : Op.Step o w (.error .connectionFailure) w') :
    ∃ d : World.Drift, w' = w.drift d := by
  obtain ⟨d, ⟨hr, _⟩ | ⟨_, _, rfl⟩⟩ := h.cases
  · exact absurd hr.symm (o.exec_ne_lost _)
  · exact ⟨d, rfl⟩

/-- A call comes to its point with a statement, unless it loses its session there. -/
theorem exists_sql_of_point {r : Request} {o : Op} {w w' : World b} {res : Except Exn o.Result}
    (h : Op.Step o w res w') (hpoint : r.point o res = true)
    (hlost : res ≠ .error .connectionFailure) : ∃ q, o = .sql q := by
  cases o with
  | sql q => exact ⟨q, rfl⟩
  | session =>
    rcases res with x | v
    · rw [h.error_eq fun _ ↦ ⟨_, rfl⟩] at hlost
      exact absurd rfl hlost
    · cases r <;> cases hpoint
  | _ =>
    obtain ⟨v, rfl⟩ := h.ok_of_not_store rfl
    cases r <;> cases hpoint

theorem Op.Step.counted_iff {o : Op} {w w' : World b} {r : Except Exn o.Result} {zero : Bool}
    (h : Op.Step o w r w') (hcounted : o.counted r = some zero) :
    w.db.users.rows.countP (·.admin) = 0 ↔ zero = true := by
  obtain rfl := Op.eq_of_counted hcounted
  rcases r with x | n
  · cases hcounted
  · obtain ⟨d, hr, _⟩ := h.ok
    have hn : n = w.db.users.rows.countP (·.admin) := Except.ok.inj hr
    have hzero : decide (n = 0) = zero := Option.some.inj hcounted
    rw [← hzero, decide_eq_true_eq, hn]

theorem retains_of_view (h : Pool.Steps Op.Step c l c') {i : ι} {tr₁ tr₂ : List (Action b)}
    {e f : Action b} (hview : view i l = tr₁ ++ e :: tr₂) (hf : f ∈ tr₁) :
    f.before.Retains e.before := by
  have hpairwise := h.pairwise_view (R := World.Retains) (fun _ _ hs ↦ hs.retains) i
  have hs : Op.Step f.op f.before f.result f.after := by
    refine h.sem_of_view (i := i) ?_
    rw [hview]
    exact List.mem_append_left _ hf
  rw [hview, List.pairwise_append] at hpairwise
  exact trans_of World.Retains hs.retains (hpairwise.2.2 f hf e List.mem_cons_self)

section Undisturbed

variable {l₀ m l₂ : List (ι × Action b)} {i : ι} {e f : Action b}

theorem bans_eq_zero_of_undisturbed {uid : ℤ}
    (hbans : Undisturbed (FindsNoBan uid) (InsertsBan uid) l) (h : Pool.Steps Op.Step c l c')
    (hl : l = l₀ ++ (i, f) :: (m ++ (i, e) :: l₂)) (hm : view i m = []) (hfinds : FindsNoBan uid f)
    (hinserts : InsertsBan uid e) : e.before.bans uid = 0 := by
  have hf : (i, f) ∈ l := by
    rw [hl]
    simp
  have hs : Op.Step f.op f.before f.result f.after := h.sem_of_mem hf
  have hidle : ¬InsertsBan uid f := by
    intro hact
    have htarget := Op.target_of_banned hact
    rw [Op.eq_of_missing hfinds] at htarget
    cases htarget
  exact (eq_zero_iff (n := fun w : World b ↦ w.bans uid) (fun _ _ hs ↦ hs.bans_eq uid) h.run hl
    (hs.bans_eq_zero hfinds) hidle).mpr (hbans l₀ i f m e l₂ hl hm hfinds hinserts)

theorem users_eq_of_steps (h : Pool.Steps Op.Step c l c')
    (hl : l = l₀ ++ (i, f) :: (m ++ (i, e) :: l₂)) (hf : ¬InsertsUser f)
    (hnobody : ∀ x ∈ m, ¬InsertsUser x.2) : e.before.db.users.rows = f.before.db.users.rows := by
  refine (h.between hl).preserves (I := fun w ↦ w.db.users.rows = f.before.db.users.rows)
    (fun g hg hs hgbefore ↦ ?_) rfl
  have hg' : ¬InsertsUser g := by
    rcases List.mem_cons.mp hg with rfl | hg
    · exact hf
    · obtain ⟨x, hx, rfl⟩ := List.mem_map.mp hg
      exact hnobody x hx
  rcases hs.users_eq with ⟨u, hsome, _⟩ | ⟨_, hrows⟩
  · refine absurd ?_ hg'
    rw [InsertsUser, hsome]
    rfl
  · exact hrows.trans hgbefore

/-- Where nobody has come in between, the count of the admins still holds when the call inserts its
user. Admins that were counted stay, so only a count of none can be overtaken. -/
theorem counted_iff_of_undisturbed {zero : Bool} (hcount : Undisturbed CountsNoAdmin InsertsUser l)
    (h : Pool.Steps Op.Step c l c') (hl : l = l₀ ++ (i, f) :: (m ++ (i, e) :: l₂))
    (hm : view i m = []) (hcounted : f.op.counted f.result = some zero) (hinserts : InsertsUser e) :
    e.before.db.users.rows.countP (·.admin) = 0 ↔ zero = true := by
  have hf : (i, f) ∈ l := by
    rw [hl]
    simp
  have hs : Op.Step f.op f.before f.result f.after := h.sem_of_mem hf
  have hbefore := hs.counted_iff hcounted
  cases zero with
  | true =>
    have hidle : ¬InsertsUser f := by
      intro hact
      obtain ⟨u, hsome⟩ := Option.isSome_iff_exists.mp hact
      obtain ⟨uname, token, hop⟩ := Op.eq_of_registered hsome
      rw [Op.eq_of_counted hcounted] at hop
      cases hop
    rw [users_eq_of_steps h hl hidle (hcount l₀ i f m e l₂ hl hm hcounted hinserts)]
    exact hbefore
  | false =>
    refine iff_of_false (fun hnone ↦ ?_) Bool.false_ne_true
    have hretains := ((h.between hl).le (R := World.Retains) fun _ _ hs ↦ hs.retains).1
    rw [List.countP_eq_zero] at hnone
    exact Bool.false_ne_true (hbefore.mp (List.countP_eq_zero.mpr fun u hu ↦
      hnone u (hretains.users.subset hu)))

end Undisturbed

/-- What a call has read is so at its point, if nobody has come in between. -/
theorem foresees {l₁ l₂ : List (ι × Action b)} {i : ι} {e : Action b} {q : Statement} {v : World b}
    {d : World.Drift} (hcount : Undisturbed CountsNoAdmin InsertsUser l)
    (hbans : ∀ uid, Undisturbed (FindsNoBan uid) (InsertsBan uid) l) (h : Pool.Steps Op.Step c l c')
    (hl : l = l₁ ++ (i, e) :: l₂) (hop : e.op = .sql q)
    (hresult : e.result = (e.op.exec (e.before.drift d)).1)
    (hafter : e.after = (e.op.exec (e.before.drift d)).2) (hdb : v.db = (e.before.drift d).db)
    (hnow : v.now = d.now) : Foresees (view i l₁) e (view i l₂) v := by
  have hview : view i l = view i l₁ ++ e :: view i l₂ := by
    rw [hl, view_append, view_cons_self]
  have hstep : ∀ f ∈ view i l₁ ++ e :: view i l₂, Op.Step f.op f.before f.result f.after := by
    intro f hf
    rw [← hview] at hf
    exact h.sem_of_view hf
  have husers : v.db.users.rows = e.before.db.users.rows := by
    rw [hdb]
    rfl
  have hbanned : ∀ uid, v.bans uid = e.before.bans uid := by
    intro uid
    rw [World.bans, hdb]
    rfl
  have hanswer : (e.op.exec v).1 = (e.op.exec (e.before.drift d)).1 ∧
      (e.op.exec v).2.db = (e.op.exec (e.before.drift d)).2.db := by
    have hexec : v.db.exec v.now q = (e.before.drift d).db.exec d.now q := by rw [hdb, hnow]
    have hfst := congrArg Prod.fst hexec
    have hsnd := congrArg Prod.snd hexec
    rw [hop]
    exact ⟨hfst, hsnd⟩
  -- the place of the action before the point
  have hprevious : ∀ {tr f}, view i l₁ = tr ++ [f] →
      ∃ l₀ m, l = l₀ ++ (i, f) :: (m ++ (i, e) :: l₂) ∧ view i m = [] := by
    intro tr f htr
    obtain ⟨l₀, m, rfl, hm⟩ :=
      exists_eq_append_of_getLast?_view (i := i) (by rw [htr, List.getLast?_concat])
    exact ⟨l₀, m, by rw [hl]; simp, hm⟩
  refine ⟨hstep, fun f hf hlasting ↦ ?_, fun tr f uid htr hmissing hinserts ↦ ?_,
    fun tr f zero htr hcounted hinserts ↦ ?_, ?_, ?_, fun f hf q' n name hinserts ↦ ?_⟩
  · have hretains := retains_of_view h hview hf
    refine (hstep f (List.mem_append_left _ hf)).exec_eq_of_lasting hlasting ⟨?_, fun uid ↦ ?_⟩
    · rw [husers]
      exact hretains.users
    · rw [hbanned]
      exact hretains.bans uid
  · obtain ⟨l₀, m, hl', hm⟩ := hprevious htr
    rw [hbanned]
    exact bans_eq_zero_of_undisturbed (hbans uid) h hl' hm hmissing hinserts
  · obtain ⟨l₀, m, hl', hm⟩ := hprevious htr
    rw [husers]
    exact counted_iff_of_undisturbed hcount h hl' hm hcounted hinserts
  · rw [hresult]
    exact hanswer.1
  · rw [hafter]
    exact hanswer.2
  · obtain ⟨m, m', rfl⟩ := List.append_of_mem (mem_view.mp hf)
    have hrun := (run_cons_iff.mp (h.between hl)).2.2
    have hmem : (n, name) ∈ e.after.entries q'.table := by
      rw [hinserts.entries]
      simp
    exact Creation.lookup_eq_of_run hinserts.stored hmem hrun

/-! ## A call at its point -/

/-- The request of a history, as the call that it stands for: with its reply, and with no failure
that it has not had. -/
structure Accounts (calls : ι → Request) (c' : Pool ι Op Op.Result Exn Reply (World b))
    (l : List (ι × Action b)) (i : ι) (s : Served b) : Prop where
  request : s.request = calls i
  reply : ∀ reply, c'.thread i = .done reply → s.reply = reply
  linked : (∀ f ∈ view i l, f.result ≠ .error .connectionFailure) → s.Linked

theorem outcome_of_view (hcalls : ∀ i, c.thread i = (calls i).handle)
    (h : Pool.Steps Op.Step c l c')
    {i : ι} (hview : view i l ≠ []) : (calls i).handle.outcome = none := by
  have htr := h.view_trace i
  rw [hcalls i] at htr
  cases hp : (calls i).handle with
  | done _ =>
    rw [hp] at htr
    exact absurd (Prog.trace_done_iff.mp htr).1 hview
  | raise _ =>
    rw [hp] at htr
    exact absurd (Prog.trace_raise_iff.mp htr).1 hview
  | act _ _ => rfl

theorem Repeats.caught {α : Type} {f : α → Response} {P : Op → Bool} {p q : Routine (Status × α)}
    {v : World b} {d : Database b} (none : α) (h : Repeats P p q v d) :
    ∃ (answer : Reply) (v' : World b),
      ((caught f none p).exec (Op.execBut P) v).2 = (.ok answer, v') ∧
      v'.db = d ∧ ∀ reply, caught f none q = .done reply → answer = reply := by
  obtain ⟨hdb, hout⟩ := h
  rcases hexec : (p.exec (Op.execBut P) v).2 with ⟨x | x, v'⟩
  · refine ⟨_, v', exec_caught_error hexec, by rw [← hdb, hexec], fun reply hdone ↦ ?_⟩
    obtain ⟨y, rfl, _⟩ | ⟨_, rfl⟩ := caught_eq_done hdone
    · have hsame := hout (.ok y) rfl
      rw [hexec] at hsame
      cases hsame
    · rfl
  · refine ⟨_, v', exec_caught_ok hexec, by rw [← hdb, hexec], fun reply hdone ↦ ?_⟩
    obtain ⟨y, rfl, rfl⟩ | ⟨⟨y, rfl⟩, _⟩ := caught_eq_done hdone
    · have hsame := hout (.ok y) rfl
      rw [hexec] at hsame
      rw [Option.some.inj hsame]
    · have hsame := hout (.error y) rfl
      rw [hexec] at hsame
      cases hsame

/-- **The whole call, at its point.** Alone, and from the tables that the history has come to by
then, it comes to what it has come to in company. -/
theorem exists_accounts_of_point {l₁ l₂ : List (ι × Action b)} {i : ι} {e : Action b} {v : World b}
    (hcount : Undisturbed CountsNoAdmin InsertsUser l)
    (hbans : ∀ uid, Undisturbed (FindsNoBan uid) (InsertsBan uid) l)
    (hcalls : ∀ i, c.thread i = (calls i).handle) (h : Pool.Steps Op.Step c l c')
    (hl : l = l₁ ++ (i, e) :: l₂) (hpoint : (calls i).point e.op e.result = true)
    (hv : v.Explains e.before) :
    ∃ (s : Served b) (v' : World b), Accounts calls c' l i s ∧ s.Handled v v' ∧
      v'.Explains e.after := by
  have hview : view i l = view i l₁ ++ e :: view i l₂ := by
    rw [hl, view_append, view_cons_self]
  have htr := h.view_trace i
  rw [hcalls i, hview] at htr
  have hr : (calls i).oneShot = true := by
    cases hcall : calls i with
    | SendWrongthinkMessage _ | ListenWrongthinkMessages _ _ _ =>
      rw [hcall] at hpoint
      cases hpoint
    | _ => rfl
  have hact : (calls i).handle.outcome = none := outcome_of_view hcalls h (by rw [hview]; simp)
  obtain ⟨β, f, none, p, hp, hbody⟩ := exists_body (b := b) hr hact
  rw [hp] at htr
  obtain ⟨q, hq, hend⟩ := trace_caught htr
  have hs : Op.Step e.op e.before e.result e.after := h.sem_of_view (by rw [hview]; simp)
  by_cases hlost : e.result = .error .connectionFailure
  · -- the call has been lost at its point, and alone it is lost at once
    obtain ⟨_, rfl⟩ := hbody.uncaught.of_error hq hlost
    obtain ⟨k, rfl⟩ := hbody.opens
    obtain ⟨s, hrequest, hreply, hhandled⟩ := Served.exists_lost v hp
    rw [hlost] at hs
    obtain ⟨d, hafter⟩ := hs.eq_drift
    refine ⟨s, v, ⟨hrequest, fun reply hdone ↦ ?_, fun hlinked ↦ ?_⟩, hhandled, ?_⟩
    · rw [hend, caught_raise, Prog.done.injEq] at hdone
      rw [hreply, hdone]
    · exact absurd hlost (hlinked e (by rw [hview]; simp))
    · rw [hafter]
      exact hv.drift d
  · obtain ⟨q', hop⟩ := exists_sql_of_point hs hpoint hlost
    obtain ⟨d, ⟨hresult, hafter⟩ | ⟨_, hresult, _⟩⟩ := hs.cases
    swap
    · exact absurd hresult hlost
    obtain ⟨d', hdb, hnow⟩ := (hv.drift d).exists_drift d.now
    have hforesees := foresees hcount hbans h hl hop hresult hafter hdb hnow
    obtain ⟨P, hrepeats, hP⟩ := hbody.repeats _ _ _ q _ hq hpoint hlost hforesees
    obtain ⟨answer, v', hcaught, hdb', hanswer⟩ := hrepeats.caught (f := f) none
    rw [← hp] at hcaught
    obtain ⟨s, hrequest, hreply, hhandled, hs⟩ := Served.exists_alone hact hcaught
    refine ⟨s, v', ⟨hrequest, fun reply hdone ↦ ?_, fun hlinked ↦ hs (hP fun g hg ↦ hlinked g ?_)⟩,
      hhandled, .of_db hdb'⟩
    · rw [hend] at hdone
      exact hreply.trans (hanswer reply hdone)
    · rw [hview]
      exact List.mem_append_right _ (List.mem_cons_of_mem _ hg)

/-! ## The history -/

/-- The history `ss` explains the run `l`. Each of its requests stands with the call that it is. -/
structure Linearized (calls : ι → Request) (c c' : Pool ι Op Op.Result Exn Reply (World b))
    (l : List (ι × Action b)) (ss : List (ι × Served b)) : Prop where
  serve : ∃ w', Serve c.state (ss.map Prod.snd) w' ∧ w'.Explains c'.state
  nodup : (ss.map Prod.fst).Nodup
  accounts : ∀ x ∈ ss, Accounts calls c' l x.1 x.2
  /-- A call that has ended is in the history, if it has done anything. -/
  ended : ∀ i, (calls i).oneShot = true → view i l ≠ [] → (c'.thread i).outcome ≠ none →
    i ∈ ss.map Prod.fst
  /-- What has ended before a cut comes before what begins behind it. -/
  realTime : ∀ l₁ l₂, l = l₁ ++ l₂ → ∃ ss₁ ss₂, ss = ss₁ ++ ss₂ ∧
    (∀ x ∈ ss₁, view x.1 l₁ ≠ []) ∧ ∀ x ∈ ss₂, view x.1 l₂ ≠ []

omit [DecidableEq ι] in
theorem serve_of_serially {spec : ι × Served b → World b → World b → Prop} {w w' : World b}
    {ss : List (ι × Served b)} (hspec : ∀ x v v', spec x v v' → x.2.Handled v v')
    (h : Serially spec w ss w') : Serve w (ss.map Prod.snd) w' := by
  induction h with
  | nil w => exact .nil w
  | cons hs _ ih => exact .cons (hspec _ _ _ hs) ih

theorem countP_point_le_one (hcalls : ∀ i, c.thread i = (calls i).handle)
    (h : Pool.Steps Op.Step c l c') (i : ι) :
    ((view i l).countP fun e ↦ (calls i).point e.op e.result) ≤ 1 := by
  have htr := h.view_trace i
  rw [hcalls i] at htr
  by_cases hr : (calls i).oneShot = true
  · rcases hview : view i l with _ | ⟨e, es⟩
    · simp
    · rw [← hview]
      refine (handle_pointed hr (outcome_of_view hcalls h (by rw [hview]; simp))).countP_le_one
        (fun _ ↦ Request.point_of_after) htr
  · have hnone : ∀ (o : Op) (r : Except Exn o.Result), (calls i).point o r = false := by
      cases hcall : calls i with
      | SendWrongthinkMessage _ | ListenWrongthinkMessages _ _ _ => exact fun _ _ ↦ rfl
      | _ =>
        rw [hcall] at hr
        exact absurd rfl hr
    simp [hnone]

theorem target_of_not_point (hstream : ∀ i reader, calls i ≠ .SendWrongthinkMessage reader)
    (hcalls : ∀ i, c.thread i = (calls i).handle) (h : Pool.Steps Op.Step c l c') {x : ι × Action b}
    (hx : x ∈ l) (hpoint : (calls x.1).point x.2.op x.2.result = false) : x.2.op.target = none := by
  by_cases hr : (calls x.1).oneShot = true
  · exact Request.target_of_not_point hr hpoint
  · have htr := h.view_trace x.1
    rw [hcalls x.1] at htr
    have honly := ((calls x.1).handle_only.trace htr).1 x.2 (mem_view.mpr hx)
    have htarget : (calls x.1).target = none := by
      cases hcall : calls x.1 with
      | SendWrongthinkMessage reader => exact absurd hcall (hstream _ _)
      | ListenWrongthinkMessages _ _ _ => rfl
      | _ =>
        rw [hcall] at hr
        exact absurd rfl hr
    rw [htarget] at honly
    exact honly.elim id id

/-- **The history of a run** in which no check is overtaken. -/
theorem exists_linearized (hstream : ∀ i reader, calls i ≠ .SendWrongthinkMessage reader)
    (hcount : Undisturbed CountsNoAdmin InsertsUser l)
    (hbans : ∀ uid, Undisturbed (FindsNoBan uid) (InsertsBan uid) l)
    (hcalls : ∀ i, c.thread i = (calls i).handle) (h : Pool.Steps Op.Step c l c') :
    ∃ ss, Linearized calls c c' l ss := by
  let abs (c : Pool ι Op Op.Result Exn Reply (World b)) (v : World b) : Prop := v.Explains c.state
  let spec (x : ι × Served b) (v v' : World b) : Prop :=
    Accounts calls c' l x.1 x.2 ∧ x.2.Handled v v'
  obtain ⟨ss, w', horder, hserial, hw'⟩ : ∃ (ss : List (ι × Served b)) (w' : World b),
      ss.map Prod.fst = pointOrder (fun i ↦ (calls i).point) l ∧ Serially spec c.state ss w' ∧
        abs c' w' := by
    have hstart : abs c c.state := .of_db rfl
    refine Pool.Steps.linearize hstart (fun l₁ x l₂ c₁ c₂ hl _ hx hnot v hv ↦ ?_)
      (fun l₁ x l₂ c₁ c₂ hl _ hx hpoint v hv ↦ ?_) h
    all_goals dsimp only [abs] at hv ⊢
    · obtain ⟨hbefore, hs, hend⟩ := run_cons_iff.mp hx.run
      rw [← hbefore] at hv
      rw [run_nil_iff.mp hend]
      exact hs.explains (target_of_not_point hstream hcalls h (by rw [hl]; simp) hnot) hv
    · obtain ⟨hbefore, hs, hend⟩ := run_cons_iff.mp hx.run
      rw [← hbefore] at hv
      rw [run_nil_iff.mp hend]
      obtain ⟨s, v', haccounts, hhandled, hv'⟩ :=
        exists_accounts_of_point hcount hbans hcalls h hl hpoint hv
      exact ⟨s, v', ⟨haccounts, hhandled⟩, hv'⟩
  -- whoever has a point has an action
  have hacts : ∀ {l' : List (ι × Action b)} {ss' : List (ι × Served b)},
      ss'.map Prod.fst = pointOrder (fun i ↦ (calls i).point) l' → ∀ x ∈ ss', view x.1 l' ≠ [] := by
    intro l' ss' hss' x hx
    have hmem : x.1 ∈ ss'.map Prod.fst := List.mem_map_of_mem hx
    rw [hss', mem_pointOrder] at hmem
    obtain ⟨e, he, _⟩ := hmem
    exact List.ne_nil_of_mem he
  refine ⟨ss, ⟨⟨w', serve_of_serially (fun _ _ _ hs ↦ hs.2) hserial, hw'⟩, ?_, fun x hx ↦ ?_,
    fun i hr hview hend ↦ ?_,
    fun l₁ l₂ hl ↦ ?_⟩⟩
  · rw [horder]
    exact nodup_pointOrder (countP_point_le_one hcalls h)
  · obtain ⟨_, _, haccounts, _⟩ := hserial.exists_of_mem hx
    exact haccounts
  · rw [horder, mem_pointOrder]
    have htr := h.view_trace i
    rw [hcalls i] at htr
    exact (handle_pointed hr (outcome_of_view hcalls h hview)).exists_of_ended htr hend
  · rw [hl, pointOrder_append, List.map_eq_append_iff] at horder
    obtain ⟨ss₁, ss₂, rfl, h₁, h₂⟩ := horder
    exact ⟨ss₁, ss₂, rfl, hacts h₁, hacts h₂⟩

end Wrongthink
