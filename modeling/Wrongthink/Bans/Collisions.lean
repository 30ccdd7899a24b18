import Wrongthink.Bans.Proceeding

/-!
# Calls that record the same peer

`isUserBanned` records the peer of a banned user in `banned_ips`, where a peer may stand only once:
it looks the peer up, and inserts it if the lookup has found nothing, or nothing that lasts. The two
are statements of their own. Of two calls from one peer that have both found nothing, the first
inserts its row, and the second runs into the constraint and raises (`exists_collision`).

That is the only way to fail, apart from a peer that does not fit its column and a connection that
breaks: if every insert finds no row of the peer, every call returns `true` and one row is left
(`noCollision_iff`). An expired row does no harm. A call that has found one deletes it, perhaps with
a row that somebody has inserted since, but then it inserts its own.
-/

namespace Wrongthink

open Concurrent

variable {b : Backend}

/-! ## Rows of a peer -/

/-- How many rows `banned_ips` has for the peer. -/
def World.ips (w : World b) (ip : String) : ℕ := w.db.banned_ips.countP (·.ip = ip)

theorem World.ips_le_one (w : World b) (ip : String) : w.ips ip ≤ 1 := by
  have hnodup := w.db.valid.banned_ips_ip
  have hcount : w.ips ip = (w.db.banned_ips.map (·.ip)).count ip := by
    rw [ips, List.count, List.countP_map]
    rfl
  rw [hcount]
  exact List.nodup_iff_count_le_one.mp hnodup ip

/-- What `isUserBanned` does to `banned_ips`, and that it changes no other table. -/
def Op.Checks (ip : String) (o : Op) : Prop :=
  o.target = none ∨ o = .sql (.deleteBannedIp ip) ∨ ∃ te, o = .sql (.insertBannedIp ip te)

namespace Op.Step

variable {o : Op} {w w' : World b} {r : Except Exn o.Result} {ip : String} {te : ℤ}

theorem insertBannedIp_eq {r : Except Exn Unit}
    (h : Op.Step (.sql (.insertBannedIp ip te)) w r w') :
    (r = .ok () ∧ ∃ ip', varchar b 50 ip = .ok ip' ∧ ip' ∉ w.db.banned_ips.map (·.ip) ∧
        w'.db.banned_ips = w.db.banned_ips ++ [⟨ip', te⟩]) ∨
      ((∃ e, r = .error e) ∧ w'.db.banned_ips = w.db.banned_ips) := by
  obtain ⟨gaps, heffect⟩ := h.effect_now
  generalize w'.db.toTables = t' at *
  cases heffect with
  | same _ _ hsame => exact .inr ⟨hsame.resolve_left (by simp [Statement.target]), rfl⟩
  | insertBannedIp _ _ ip' hip hnew => exact .inl ⟨rfl, ip', hip, hnew, rfl⟩

/-- An insert that reaches the engine is accepted if the peer fits and has no row. -/
theorem insertBannedIp_ok {r : Except Exn Unit} (h : Op.Step (.sql (.insertBannedIp ip te)) w r w')
    (hlinked : r ≠ .error .connectionFailure) (hip : varchar b 50 ip = .ok ip)
    (hnone : w.ips ip = 0) : r = .ok () := by
  obtain ⟨d, ⟨rfl, _⟩ | ⟨_, rfl, _⟩⟩ := h.cases
  · have hnew : ip ∉ w.db.banned_ips.map (·.ip) := by
      rw [World.ips, List.countP_eq_zero] at hnone
      simpa using hnone
    change (Statement.written _ (Statement.addBannedIp b (w.drift d).db.toTables ip te)).1 = _
    rw [Statement.addBannedIp, hip, Statement.ok_bind]
    have hrows : (w.drift d).db.banned_ips = w.db.banned_ips := rfl
    rw [hrows, if_neg hnew]
    rfl
  · exact absurd rfl hlinked

theorem deleteBannedIp_eq {v : Unit} (h : Op.Step (.sql (.deleteBannedIp ip)) w (.ok v) w') :
    w'.db.banned_ips = w.db.banned_ips.filter fun r ↦ r.ip ≠ ip := by
  obtain ⟨d, _, rfl⟩ := h.ok
  rfl

theorem ips_of_selectBannedIp_none (h : Op.Step (.sql (.selectBannedIp ip)) w (.ok none) w') :
    w'.ips ip = 0 := by
  have hrows : w'.db.banned_ips = w.db.banned_ips :=
    h.frame .banned_ips (by simp [Op.target, Statement.target])
  have hfind := h.selectBannedIp_eq
  rw [eq_comm, Option.map_eq_none_iff, List.find?_eq_none] at hfind
  rw [World.ips, hrows, List.countP_eq_zero]
  exact hfind

theorem ips_of_selectBannedIp_some (h : Op.Step (.sql (.selectBannedIp ip)) w (.ok (some te)) w') :
    0 < w.ips ip := by
  obtain ⟨r, hfind, _⟩ := Option.map_eq_some_iff.mp h.selectBannedIp_eq.symm
  have hip : r.ip = ip := by simpa using List.find?_some hfind
  exact List.countP_pos_iff.mpr ⟨r, List.mem_of_find?_eq_some hfind, decide_eq_true hip⟩

theorem ips_of_deleteBannedIp {v : Unit} (h : Op.Step (.sql (.deleteBannedIp ip)) w (.ok v) w') :
    w'.ips ip = 0 := by
  rw [World.ips, h.deleteBannedIp_eq, List.countP_filter, List.countP_eq_zero]
  intro r _
  simp

theorem ban_eq (h : Op.Step o w r w') (ho : o.Checks ip) : w'.ban = w.ban := by
  have hframe : ∀ T, T ≠ .banned_ips → w'.db.rows T = w.db.rows T := by
    intro T hT
    refine h.frame T ?_
    rcases ho with ho | rfl | ⟨te, rfl⟩
    · simp [ho]
    · simpa [Op.target, Statement.target] using Ne.symm hT
    · simpa [Op.target, Statement.target] using Ne.symm hT
  have husers : w'.db.users.rows = w.db.users.rows := hframe .users (by simp)
  have hbans : w'.db.banned_users = w.db.banned_users := hframe .banned_users (by simp)
  funext uname
  rw [World.ban, World.ban, Relational.Serial.join, Relational.Serial.join, husers, hbans]

theorem ips_le {ip' : String} (h : Op.Step o w r w') (ho : o.Checks ip)
    (hip : varchar b 50 ip = .ok ip') (hne : ip' ≠ ip) : w'.ips ip ≤ w.ips ip := by
  have hle : w'.db.banned_ips = w.db.banned_ips → w'.ips ip ≤ w.ips ip := by
    intro hrows
    rw [World.ips, hrows]
    exact Nat.le_refl _
  rcases ho with ho | rfl | ⟨te, rfl⟩
  · exact hle (h.frame .banned_ips (by simp [ho]))
  · rcases r with e | v
    · obtain ⟨d, ⟨hr, _⟩ | ⟨_, _, rfl⟩⟩ := h.cases
      · cases hr
      · exact hle rfl
    · rw [h.ips_of_deleteBannedIp]
      exact Nat.zero_le _
  · obtain ⟨_, ip'', hip'', _, hrows⟩ | ⟨_, hrows⟩ := h.insertBannedIp_eq
    · rw [hip, Except.ok.injEq] at hip''
      rw [World.ips, hrows, List.countP_append, ← hip'']
      simp [hne, World.ips]
    · exact hle hrows

end Op.Step

/-! ## One call -/

namespace DBPostgres

theorem isIPBanned_checks (ip : String) : (isIPBanned ip).Only (Op.Checks ip) := by
  simp only [isIPBanned, Prog.only_perform_bind]
  refine ⟨.inl rfl, fun _ ↦ ⟨.inl rfl, fun date ↦ ?_⟩⟩
  rcases date with _ | te
  · trivial
  · refine (Prog.only_perform_bind _ _ _).mpr ⟨.inl rfl, fun tc ↦ ?_⟩
    split
    · exact (Prog.only_perform_bind _ _ _).mpr ⟨.inr (.inl rfl), fun _ ↦ trivial⟩
    · trivial

theorem isUserBanned_checks (uname ip : String) : (isUserBanned uname ip).Only (Op.Checks ip) := by
  simp only [isUserBanned, Prog.only_perform_bind]
  refine ⟨.inl rfl, fun _ ↦ ⟨.inl rfl, fun date ↦ ?_⟩⟩
  rcases date with _ | te
  · trivial
  refine (Prog.only_perform_bind _ _ _).mpr ⟨.inl rfl, fun tc ↦ ?_⟩
  split
  · exact (Prog.only_perform_bind _ _ _).mpr ⟨.inl rfl, fun _ ↦ trivial⟩
  refine (isIPBanned_checks ip).bind fun ipBanned ↦ ?_
  split
  · trivial
  · exact (Prog.only_perform_bind _ _ _).mpr ⟨.inr (.inr ⟨te, rfl⟩), fun _ ↦ trivial⟩

end DBPostgres

/-- The call has found a row of the peer, and has left all rows alone. -/
def Finds (ip : String) (tr : List (Action b)) : Prop :=
  (∀ e ∈ tr, e.op.target = none) ∧ ∃ e ∈ tr, 0 < e.before.ips ip

/-- The call has recorded the peer with its last action, after it had found or left no row. -/
def Records (ip : String) (tr : List (Action b)) : Prop :=
  ∃ tr₀ w te w', tr = tr₀ ++ [⟨w, .sql (.insertBannedIp ip te), .ok (), w'⟩] ∧
    ∃ e ∈ tr₀, e.after.ips ip = 0

variable {uname ip : String} {tr : List (Action b)}

theorem trace_isIPBanned {found : Bool}
    (hstep : ∀ e ∈ tr, Op.Step e.op e.before e.result e.after)
    (h : (DBPostgres.isIPBanned ip).Trace tr (.done found)) :
    (found = true ∧ Finds ip tr) ∨ (found = false ∧ ∃ e ∈ tr, e.after.ips ip = 0) := by
  obtain ⟨w₁, v₁, w₁', tr₁, rfl, h₁⟩ := Prog.trace_perform_bind_done h
  obtain ⟨w₂, date, w₂', tr₂, rfl, h₂⟩ := Prog.trace_perform_bind_done h₁
  have hselect := hstep ⟨w₂, .sql (.selectBannedIp ip), .ok date, w₂'⟩ (by simp)
  rcases date with _ | te
  · obtain ⟨rfl, hfound⟩ := Prog.trace_done_iff.mp h₂
    exact .inr ⟨Prog.done.inj hfound, _, by simp, hselect.ips_of_selectBannedIp_none⟩
  obtain ⟨w₃, tc, w₃', tr₃, rfl, h₃⟩ := Prog.trace_perform_bind_done h₂
  by_cases hexpired : tc > te
  · rw [if_pos hexpired] at h₃
    obtain ⟨w₄, v₄, w₄', tr₄, rfl, h₄⟩ := Prog.trace_perform_bind_done h₃
    have hdelete := hstep ⟨w₄, .sql (.deleteBannedIp ip), .ok v₄, w₄'⟩ (by simp)
    obtain ⟨rfl, hfound⟩ := Prog.trace_done_iff.mp h₄
    exact .inr ⟨Prog.done.inj hfound, _, by simp, hdelete.ips_of_deleteBannedIp⟩
  · rw [if_neg hexpired] at h₃
    obtain ⟨rfl, hfound⟩ := Prog.trace_done_iff.mp h₃
    refine .inl ⟨Prog.done.inj hfound, ?_, _, ?_, hselect.ips_of_selectBannedIp_some⟩
    · simp [Op.target, Statement.target]
    · simp

/-- **A call that returns `true`** has found the peer or has recorded it. -/
theorem finds_or_records (hstep : ∀ e ∈ tr, Op.Step e.op e.before e.result e.after)
    (h : (DBPostgres.isUserBanned uname ip).Trace tr (.done true)) :
    Finds ip tr ∨ Records ip tr := by
  obtain ⟨w₁, v₁, w₁', tr₁, rfl, h₁⟩ := Prog.trace_perform_bind_done h
  obtain ⟨w₂, date, w₂', tr₂, rfl, h₂⟩ := Prog.trace_perform_bind_done h₁
  rcases date with _ | te
  · -- without a ban the answer is `false`
    cases (Prog.trace_done_iff.mp h₂).2
  obtain ⟨w₃, tc, w₃', tr₃, rfl, h₃⟩ := Prog.trace_perform_bind_done h₂
  by_cases hexpired : tc > te
  · rw [if_pos hexpired] at h₃
    obtain ⟨_, _, _, _, _, h₄⟩ := Prog.trace_perform_bind_done h₃
    cases (Prog.trace_done_iff.mp h₄).2
  rw [if_neg hexpired] at h₃
  obtain ⟨found, tr₄, tr₅, rfl, h₄, h₅⟩ := h₃.of_bind_done
  have hip := trace_isIPBanned (fun e he ↦ hstep e (by simp [he])) h₄
  obtain ⟨rfl, htarget, e, he, hrow⟩ | ⟨rfl, e, he, hnone⟩ := hip
  · obtain ⟨rfl, _⟩ := Prog.trace_done_iff.mp h₅
    refine .inl ⟨?_, e, by simp [he], hrow⟩
    simpa [Op.target, Statement.target] using htarget
  · obtain ⟨w₆, v₆, w₆', tr₆, rfl, h₆⟩ := Prog.trace_perform_bind_done h₅
    obtain ⟨rfl, _⟩ := Prog.trace_done_iff.mp h₆
    refine .inr ⟨⟨w₁, .session, .ok v₁, w₁'⟩ :: ⟨w₂, .sql (.selectBan uname), .ok (some te), w₂'⟩ ::
      ⟨w₃, .time, .ok tc, w₃'⟩ :: tr₄, w₆, te, w₆', rfl, e, by simp [he], hnone⟩

theorem Records.last {tr₁ tr₂ : List (Action b)} {e : Action b}
    (h : Records ip (tr₁ ++ e :: tr₂)) (htail : ∀ f ∈ tr₂, f.op.target ≠ some .banned_ips) :
    ∃ w te w', e = ⟨w, .sql (.insertBannedIp ip te), .ok (), w'⟩ := by
  obtain ⟨tr₀, w, te, w', heq, _⟩ := h
  rcases tr₂.eq_nil_or_concat with rfl | ⟨tr₃, f, rfl⟩
  · have hsame := List.append_inj_right' heq rfl
    exact ⟨w, te, w', List.head_eq_of_cons_eq hsame⟩
  · rw [List.concat_eq_append, ← List.cons_append, ← List.append_assoc] at heq
    have hsame := List.head_eq_of_cons_eq (List.append_inj_right' heq rfl)
    have htarget := htail f (by simp [List.concat_eq_append])
    rw [hsame] at htarget
    exact absurd rfl htarget

theorem isOk_of_linked {o : Op} (hstep : ∀ e ∈ tr, Op.Step e.op e.before e.result e.after)
    (hlinked : ∀ e ∈ tr, e.result ≠ .error .connectionFailure)
    (ho : ∀ w : World b, ∃ v, (o.exec w).1 = .ok v) : ∀ e ∈ tr, e.op = o → e.result.isOk := by
  rintro ⟨w, o', r, w'⟩ he rfl
  have hs : Op.Step o' w r w' := hstep _ he
  rcases r with x | v
  · exact absurd (congrArg Except.error (hs.error_eq ho)) (hlinked _ he)
  · rfl

variable {p' : Routine Bool} {te : ℤ}

theorem done_of_insert (hend : p'.outcome ≠ none)
    (hinsert : ∀ e ∈ tr, ∀ te, e.op = .sql (.insertBannedIp ip te) → e.result.isOk)
    (h : (do sql (.insertBannedIp ip te); return true : Routine Bool).Trace tr p') :
    p' = .done true := by
  obtain ⟨_, _, _, _, _, h₁⟩ :=
    Prog.trace_perform_bind_ended h hend fun e he hop ↦ hinsert e he te hop
  exact (Prog.trace_done_iff.mp h₁).2

/-- **A call that has ended** has returned `true`, if the ban is read, lasts, and the insert is
accepted. -/
theorem done_true (hstep : ∀ e ∈ tr, Op.Step e.op e.before e.result e.after)
    (hlinked : ∀ e ∈ tr, e.result ≠ .error .connectionFailure)
    (hban : ∀ e ∈ tr, e.before.ban uname = some te ∧ e.after.now ≤ te)
    (hinsert : ∀ e ∈ tr, ∀ te, e.op = .sql (.insertBannedIp ip te) → e.result.isOk)
    (hend : p'.outcome ≠ none) (h : (DBPostgres.isUserBanned uname ip).Trace tr p') :
    p' = .done true := by
  have hok : ∀ {o : Op}, (∀ w : World b, ∃ v, (o.exec w).1 = .ok v) →
      ∀ e ∈ tr, e.op = o → e.result.isOk := isOk_of_linked hstep hlinked
  obtain ⟨w₁, v₁, w₁', tr₁, rfl, h₁⟩ :=
    Prog.trace_perform_bind_ended h hend (hok fun _ ↦ ⟨_, rfl⟩)
  obtain ⟨w₂, date, w₂', tr₂, rfl, h₂⟩ :=
    Prog.trace_perform_bind_ended h₁ hend fun e he ↦ hok (fun _ ↦ ⟨_, rfl⟩) e (by simp [he])
  have hdate : date = some te := by
    have hselect := hstep ⟨w₂, .sql (.selectBan uname), .ok date, w₂'⟩ (by simp)
    exact hselect.selectBan_eq.trans (hban _ (by simp)).1
  subst hdate
  obtain ⟨w₃, tc, w₃', tr₃, rfl, h₃⟩ :=
    Prog.trace_perform_bind_ended h₂ hend fun e he ↦ hok (fun _ ↦ ⟨_, rfl⟩) e (by simp [he])
  have htc : tc ≤ te := by
    have htime := hstep ⟨w₃, .time, .ok tc, w₃'⟩ (by simp)
    rw [Op.Step.time_eq htime]
    exact (hban _ (by simp)).2
  rw [if_neg (not_lt.mpr htc), DBPostgres.isIPBanned, Prog.bind_assoc] at h₃
  obtain ⟨w₄, v₄, w₄', tr₄, rfl, h₄⟩ :=
    Prog.trace_perform_bind_ended h₃ hend fun e he ↦ hok (fun _ ↦ ⟨_, rfl⟩) e (by simp [he])
  rw [Prog.bind_assoc] at h₄
  obtain ⟨w₅, date, w₅', tr₅, rfl, h₅⟩ :=
    Prog.trace_perform_bind_ended h₄ hend fun e he ↦ hok (fun _ ↦ ⟨_, rfl⟩) e (by simp [he])
  rcases date with _ | te'
  · -- the peer is not known yet
    exact done_of_insert hend (fun e he ↦ hinsert e (by simp [he])) h₅
  dsimp only at h₅
  rw [Prog.bind_assoc] at h₅
  obtain ⟨w₆, tc', w₆', tr₆, rfl, h₆⟩ :=
    Prog.trace_perform_bind_ended h₅ hend fun e he ↦ hok (fun _ ↦ ⟨_, rfl⟩) e (by simp [he])
  by_cases hexpired : tc' > te'
  · -- its old row is deleted before it is inserted again
    rw [if_pos hexpired, Prog.bind_assoc] at h₆
    obtain ⟨w₇, v₇, w₇', tr₇, rfl, h₇⟩ :=
      Prog.trace_perform_bind_ended h₆ hend fun e he ↦ hok (fun _ ↦ ⟨_, rfl⟩) e (by simp [he])
    exact done_of_insert hend (fun e he ↦ hinsert e (by simp [he])) h₇
  · rw [if_neg hexpired] at h₆
    exact (Prog.trace_done_iff.mp h₆).2

/-! ## Any number of calls -/

section Calls

variable {ι : Type} [DecidableEq ι] {unames : ι → String}
  {c c' : Pool ι Op Op.Result Exn Bool (World b)} {l : List (ι × Action b)}

/-- Some calls of `isUserBanned` for one peer, each for a user whose ban lasts as long as the calls
do; those that have begun have ended. -/
structure BanChecks (unames : ι → String) (ip : String)
    (c : Pool ι Op Op.Result Exn Bool (World b)) (l : List (ι × Action b))
    (c' : Pool ι Op Op.Result Exn Bool (World b)) : Prop where
  calls : ∀ i, c.thread i = DBPostgres.isUserBanned (unames i) ip
  steps : Pool.Steps Op.Step c l c'
  banned : ∀ i, ∃ te, c.state.ban (unames i) = some te ∧ ∀ x ∈ l, x.2.after.now ≤ te
  begun : l ≠ []
  ended : ∀ i, view i l ≠ [] → (c'.thread i).outcome ≠ none

/-- What should have happened. -/
structure NoCollision (ip : String) (l : List (ι × Action b))
    (c' : Pool ι Op Op.Result Exn Bool (World b)) : Prop where
  returned : ∀ i, view i l ≠ [] → c'.thread i = .done true
  single : c'.state.ips ip = 1

/-- No statement is lost, and every insert can store the peer and finds no row of it. -/
structure Separate (ip : String) (l : List (ι × Action b)) : Prop where
  linked : ∀ x ∈ l, x.2.result ≠ .error .connectionFailure
  inserts : ∀ x ∈ l, ∀ te, x.2.op = .sql (.insertBannedIp ip te) →
    varchar b 50 ip = .ok ip ∧ x.2.before.ips ip = 0

namespace BanChecks

variable {i : ι}

theorem trace (h : BanChecks unames ip c l c') (i : ι) :
    (DBPostgres.isUserBanned (unames i) ip).Trace (view i l) (c'.thread i) := by
  rw [← h.calls i]
  exact h.steps.view_trace i

theorem step (h : BanChecks unames ip c l c') {e : Action b} (he : e ∈ view i l) :
    Op.Step e.op e.before e.result e.after :=
  h.steps.sem_of_view he

theorem checks (h : BanChecks unames ip c l c') {x : ι × Action b} (hx : x ∈ l) :
    x.2.op.Checks ip :=
  ((DBPostgres.isUserBanned_checks _ ip).trace (h.trace x.1)).1 x.2 (mem_view.mpr hx)

theorem ban_eq (h : BanChecks unames ip c l c') {x : ι × Action b} (hx : x ∈ l) :
    x.2.before.ban = c.state.ban := by
  obtain ⟨l₁, l₂, hl⟩ := List.append_of_mem hx
  refine (h.steps.upTo hl).preserves (I := fun w ↦ w.ban = c.state.ban)
    (fun e he hs hbefore ↦ ?_) rfl
  obtain ⟨y, hy, rfl⟩ := List.mem_map.mp he
  exact (hs.ban_eq (h.checks (by simp [hl, hy]))).trans hbefore

theorem returned (h : BanChecks unames ip c l c') (hs : Separate ip l) (hi : view i l ≠ []) :
    c'.thread i = .done true := by
  obtain ⟨te, hban, hnow⟩ := h.banned i
  have hmem : ∀ {e}, e ∈ view i l → (i, e) ∈ l := mem_view.mp
  have hban' : ∀ e ∈ view i l, e.before.ban (unames i) = some te ∧ e.after.now ≤ te :=
    fun e he ↦ ⟨(congrFun (h.ban_eq (hmem he)) (unames i)).trans hban, hnow _ (hmem he)⟩
  refine done_true (fun e he ↦ h.step he) (fun e he ↦ hs.linked _ (hmem he)) hban'
    (fun e he te hop ↦ ?_) (h.ended i hi) (h.trace i)
  obtain ⟨hip, hnone⟩ := hs.inserts _ (hmem he) te hop
  have hstep := h.step he
  have hlinked := hs.linked _ (hmem he)
  obtain ⟨w, o, r, w'⟩ := e
  obtain rfl : o = .sql (.insertBannedIp ip te) := hop
  have hr : r = .ok () := hstep.insertBannedIp_ok hlinked hip hnone
  dsimp only
  rw [hr]
  rfl

theorem ips_eq_of_last (h : BanChecks unames ip c l c') {l₁ l₂ : List (ι × Action b)}
    {x : ι × Action b} (hl : l = l₁ ++ x :: l₂)
    (hlast : ∀ y ∈ l₂, y.2.op.target ≠ some .banned_ips) : c'.state.ips ip = x.2.after.ips ip := by
  refine (h.steps.rest hl).preserves (I := fun w ↦ w.ips ip = x.2.after.ips ip)
    (fun e he hs hbefore ↦ ?_) rfl
  obtain ⟨y, hy, rfl⟩ := List.mem_map.mp he
  have hrows : y.2.after.db.banned_ips = y.2.before.db.banned_ips :=
    hs.frame .banned_ips (hlast y hy)
  rw [← hbefore, World.ips, World.ips, hrows]

theorem finds_or_records (h : BanChecks unames ip c l c') (hi : c'.thread i = .done true) :
    Finds ip (view i l) ∨ Records ip (view i l) := by
  have htrace := h.trace i
  rw [hi] at htrace
  exact Wrongthink.finds_or_records (fun e he ↦ h.step he) htrace

theorem ips_pos (h : BanChecks unames ip c l c') (hs : Separate ip l)
    (hreturned : ∀ i, view i l ≠ [] → c'.thread i = .done true) : 0 < c'.state.ips ip := by
  have hcall : ∀ {i e}, (i, e) ∈ l → Finds ip (view i l) ∨ Records ip (view i l) := fun hmem ↦
    h.finds_or_records (hreturned _ (List.ne_nil_of_mem (mem_view.mpr hmem)))
  by_cases hwrites : ∃ x ∈ l, x.2.op.target = some .banned_ips
  · -- the last write is the insert of a call that has recorded the peer
    obtain ⟨l₁, ⟨i, e⟩, l₂, hl, htarget, hlast⟩ := exists_last hwrites
    have hmem : (i, e) ∈ l := by simp [hl]
    rw [h.ips_eq_of_last hl hlast]
    obtain ⟨hfinds, _⟩ | hrecords := hcall hmem
    · rw [hfinds e (mem_view.mpr hmem)] at htarget
      cases htarget
    rw [hl, view_append, view_cons_self] at hrecords
    obtain ⟨w, te, w', rfl⟩ := hrecords.last fun f hf ↦ hlast _ (mem_view.mp hf)
    have hinsert : Op.Step (.sql (.insertBannedIp ip te)) w (.ok ()) w' :=
      h.step (mem_view.mpr hmem)
    obtain ⟨_, ip', hip', _, hrows⟩ := hinsert.insertBannedIp_eq.resolve_right (by simp)
    rw [(hs.inserts _ hmem te rfl).1, Except.ok.injEq] at hip'
    rw [World.ips, hrows, hip']
    exact List.countP_pos_iff.mpr ⟨⟨ip', te⟩, by simp, by simp⟩
  · -- nobody has written, and so somebody has found a row
    have hnone : ∀ x ∈ l, x.2.op.target ≠ some .banned_ips :=
      fun x hx htarget ↦ hwrites ⟨x, hx, htarget⟩
    obtain ⟨⟨i, e⟩, hmem⟩ := List.exists_mem_of_ne_nil l h.begun
    obtain ⟨_, f, hf, hfound⟩ | ⟨tr₀, w, te, w', hview, _⟩ := hcall hmem
    · obtain ⟨l₁, l₂, hl⟩ := List.append_of_mem (mem_view.mp hf)
      have hframe : f.after.db.banned_ips = f.before.db.banned_ips :=
        (h.step hf).frame .banned_ips (hnone _ (mem_view.mp hf))
      rw [h.ips_eq_of_last hl fun y hy ↦ hnone y (by simp [hl, hy]), World.ips, hframe]
      exact hfound
    · refine absurd rfl (hnone (i, ⟨w, .sql (.insertBannedIp ip te), .ok (), w'⟩) ?_)
      exact mem_view.mp (by simp [hview])

/-- A call that has recorded the peer has done so under its name, if a row of that name is left. -/
theorem stored_eq (h : BanChecks unames ip c l c') {ip' : String} (hpos : 0 < c'.state.ips ip)
    (hrecords : Records ip (view i l)) (hip : varchar b 50 ip = .ok ip') : ip' = ip := by
  by_contra hne
  obtain ⟨tr₀, w, te, w', hview, e, he, hnone⟩ := hrecords
  have hmem : (i, e) ∈ l := mem_view.mp (by simp [hview, he])
  obtain ⟨l₁, l₂, hl⟩ := List.append_of_mem hmem
  -- from there on nobody adds a row of that name
  have hend : c'.state.ips ip = 0 := by
    refine (h.steps.rest hl).preserves (I := fun w ↦ w.ips ip = 0) (fun f hf hs hbefore ↦ ?_) hnone
    obtain ⟨y, hy, rfl⟩ := List.mem_map.mp hf
    have hle := hs.ips_le (h.checks (by simp [hl, hy])) hip hne
    omega
  omega

end BanChecks

/-- **Collisions.** However the calls interleave: every one of them returns `true`, and one row of
the peer is left, if and only if no statement is lost and every insert can store the peer and finds
no row of it. -/
theorem noCollision_iff (h : BanChecks unames ip c l c') :
    NoCollision ip l c' ↔ Separate ip l := by
  constructor
  · intro hno
    have hreturned : ∀ {x}, x ∈ l → c'.thread x.1 = .done true := fun {x} hx ↦
      hno.returned x.1 (List.ne_nil_of_mem (mem_view.mpr hx))
    have hok : ∀ x ∈ l, x.2.result.isOk := by
      intro x hx
      have hdone := hreturned hx
      rcases (DBPostgres.isUserBanned_straight _ ip).ended (h.trace x.1)
        (by rw [hdone]; simp [Prog.outcome]) with
        ⟨hok, _⟩ | ⟨_, e, hraise⟩
      · exact hok x.2 (mem_view.mpr hx)
      · rw [hdone] at hraise
        cases hraise
    refine ⟨fun x hx hlost ↦ ?_, fun x hx te hop ↦ ?_⟩
    · have hfalse := hok x hx
      rw [hlost] at hfalse
      cases hfalse
    -- a call that inserts has not found the peer
    have hrecords : Records ip (view x.1 l) := by
      refine (h.finds_or_records (hreturned hx)).resolve_left fun hfinds ↦ ?_
      have htarget := hfinds.1 x.2 (mem_view.mpr hx)
      rw [hop] at htarget
      cases htarget
    have hstep := h.steps.sem_of_mem hx
    have hokx := hok x hx
    obtain ⟨i, w, o, r, w'⟩ := x
    obtain rfl : o = .sql (.insertBannedIp ip te) := hop
    obtain ⟨_, ip', hip, hnew, _⟩ | ⟨⟨e, hr⟩, _⟩ := hstep.insertBannedIp_eq
    · obtain rfl := h.stored_eq (by rw [hno.single]; exact Nat.one_pos) hrecords hip
      refine ⟨hip, List.countP_eq_zero.mpr fun r hr ↦ ?_⟩
      simpa using fun heq ↦ hnew (List.mem_map.mpr ⟨r, hr, heq⟩)
    · dsimp only at hr hokx
      rw [hr] at hokx
      cases hokx
  · intro hs
    refine ⟨fun i hi ↦ h.returned hs hi, ?_⟩
    have hpos := h.ips_pos hs fun i hi ↦ h.returned hs hi
    have hle := c'.state.ips_le_one ip
    omega

end Calls

/-! ## Two calls -/

/-- The server after its admin has banned bob. -/
private def bobShutOut : World .postgres :=
  (serve (World.start .postgres 0) [.CreateUser ⟨"root", "pw", false⟩,
    .CreateUser ⟨"bob", "pw", false⟩,
    .BanUser [("auth-uname", "root"), ("auth-token", "pw")] ⟨"bob", 1⟩]).2

/-- Two calls that bob makes from one connection. -/
private def bothCalls : Pool Bool Op Op.Result Exn Bool (World .postgres) :=
  ⟨bobShutOut, fun _ ↦ DBPostgres.isUserBanned "bob" "ipv4:1.2.3.4:5678"⟩

private def runBoth (schedule : List Bool) : List (Bool × Action .postgres) ×
    Pool Bool Op Op.Result Exn Bool (World .postgres) := Pool.replay Op.exec bothCalls schedule

/-- One after the other. -/
private def successive : List Bool := List.replicate 6 true ++ List.replicate 6 false

/-- Both look the peer up before either has inserted it. -/
private def overlapping : List Bool :=
  List.replicate 5 true ++ List.replicate 5 false ++ [true, false]

private theorem banChecks_bothCalls {schedule : List Bool}
    (hnow : ∀ x ∈ (runBoth schedule).1, x.2.after.now ≤ 86400000)
    (hbegun : (runBoth schedule).1 ≠ [])
    (hended : ∀ i, ((runBoth schedule).2.thread i).outcome.isSome) :
    BanChecks (fun _ ↦ "bob") "ipv4:1.2.3.4:5678" bothCalls (runBoth schedule).1
      (runBoth schedule).2 where
  calls _ := rfl
  steps := Pool.replay_sound Op.step_exec _ _
  banned _ := ⟨86400000, rfl, hnow⟩
  begun := hbegun
  ended i _ := Option.isSome_iff_ne_none.mp (hended i)

theorem noCollision_iff_successive :
    NoCollision "ipv4:1.2.3.4:5678" (runBoth successive).1 (runBoth successive).2 ↔
      Separate "ipv4:1.2.3.4:5678" (runBoth successive).1 :=
  noCollision_iff (banChecks_bothCalls (by decide) (by decide) (by decide))

/-- Both calls insert the peer, and the second raises. -/
theorem exists_collision :
    ¬∀ (unames : Bool → String) (ip : String)
        (c c' : Pool Bool Op Op.Result Exn Bool (World .postgres))
        (l : List (Bool × Action .postgres)),
      BanChecks unames ip c l c' → NoCollision ip l c' := by
  intro h
  have hno := h (fun _ ↦ "bob") "ipv4:1.2.3.4:5678" bothCalls (runBoth overlapping).2
    (runBoth overlapping).1 (banChecks_bothCalls (by decide) (by decide) (by decide))
  have hreturned := congrArg Prog.outcome (hno.returned false (by decide))
  exact absurd hreturned (by decide)

end Wrongthink
