import Wrongthink.Bans.Enforcement

/-!
# How far the ban of a peer reaches

A peer that comes with a banned user is entered into `banned_ips`, and turned away from then on. The
peer is known by the string of `ServerContext::peer`, which has the source port in it; and a new
connection has a new port. So the entry bans the one port (`host_banned_iff`), and another port of
the same host only if it has come to an entry of its own.

An entry is removed by who has read an expired one (`call_placed`). Between the two, a call may have
removed the expired entry, found the user of the default name banned, and made a new one; and then
it is the new entry that is removed. That is the only way to lose an entry before its time.
-/

namespace Wrongthink

open Concurrent LoggingInterceptor

variable {b : Backend} {α : Type} {ip : String} {te : ℤ}

/-- The peer is in `banned_ips`, until `te`. -/
def World.Recorded (ip : String) (te : ℤ) (w : World b) : Prop := ⟨ip, te⟩ ∈ w.db.banned_ips

open World (Recorded)

/-! ## What a step does to the entries -/

namespace Op

/-- The entry that was found when a peer was looked up. -/
def found : (o : Op) → Except Exn o.Result → Option (String × ℤ)
  | sql (.selectBannedIp ip), .ok (some te) => some (ip, te)
  | _, _ => none

/-- The entry that was made, with the text that the column has kept of the peer. -/
def entered (b : Backend) : (o : Op) → Except Exn o.Result → Option (String × ℤ)
  | sql (.insertBannedIp peer te), .ok _ => (varchar b 50 peer).toOption.map (·, te)
  | _, _ => none

/-- The peer whose entry was removed. -/
def removed : (o : Op) → Except Exn o.Result → Option String
  | sql (.deleteBannedIp ip), .ok _ => some ip
  | _, _ => none

theorem eq_of_found {o : Op} {r : Except Exn o.Result} {x : String × ℤ}
    (h : o.found r = some x) : o = .sql (.selectBannedIp x.1) ∧ r.isOk := by
  unfold found at h
  split at h
  · rw [← Option.some.inj h]
    exact ⟨rfl, rfl⟩
  · cases h

theorem entered_eq_none {o : Op} (ho : o.target ≠ some .banned_ips) (r : Except Exn o.Result) :
    o.entered b r = none := by
  unfold entered
  split
  · exact absurd rfl ho
  · rfl

theorem removed_eq_none {o : Op} (ho : o.target ≠ some .banned_ips) (r : Except Exn o.Result) :
    o.removed r = none := by
  unfold removed
  split
  · exact absurd rfl ho
  · rfl

theorem eq_of_target_banned_ips {o : Op} (h : o.target = some .banned_ips) :
    ∃ ip, (∃ te, o = .sql (.insertBannedIp ip te)) ∨ o = .sql (.deleteBannedIp ip) := by
  cases o with
  | sql q =>
    cases q with
    | insertBannedIp ip te => exact ⟨ip, .inl ⟨te, rfl⟩⟩
    | deleteBannedIp ip => exact ⟨ip, .inr rfl⟩
    | _ => cases h
  | _ => cases h

end Op

/-- The action finds this entry, or makes it. -/
def Shows (ip : String) (te : ℤ) (e : Action b) : Prop :=
  e.op.found e.result = some (ip, te) ∨ e.op.entered b e.result = some (ip, te)

/-- The action removes the entry of this peer. -/
def Removes (ip : String) (e : Action b) : Prop := e.op.removed e.result = some ip

namespace Op.Step

variable {o : Op} {w w' : World b} {r : Except Exn o.Result}

theorem recorded_insert_iff {peer : String} {te' : ℤ} {r : Except Exn Unit}
    (h : Op.Step (.sql (.insertBannedIp peer te')) w r w') : w'.Recorded ip te ↔
      (Op.sql (.insertBannedIp peer te')).entered b r = some (ip, te) ∨ w.Recorded ip te := by
  obtain ⟨now, gaps, heffect⟩ := h.effect
  rw [Recorded]
  generalize w'.db.toTables = t' at *
  cases heffect with
  | same _ _ hsame =>
    obtain ⟨e, rfl⟩ := hsame.resolve_left (by simp [Statement.target])
    simp [Op.entered, Recorded, Tables.skip]
  | insertBannedIp _ _ peer' hpeer _ =>
    simp [Op.entered, hpeer, Except.toOption, Recorded, Tables.skip, or_comm, eq_comm]

theorem recorded_delete_iff {peer : String} {r : Except Exn Unit}
    (h : Op.Step (.sql (.deleteBannedIp peer)) w r w') : w'.Recorded ip te ↔
      w.Recorded ip te ∧ (Op.sql (.deleteBannedIp peer)).removed r ≠ some ip := by
  obtain ⟨now, gaps, heffect⟩ := h.effect
  rw [Recorded]
  generalize w'.db.toTables = t' at *
  cases heffect with
  | same _ _ hsame =>
    obtain ⟨e, rfl⟩ := hsame.resolve_left (by simp [Statement.target])
    simp [Op.removed, Recorded, Tables.skip]
  | deleteBannedIp =>
    simp [Op.removed, Recorded, Tables.skip, ne_comm]

theorem recorded_iff (h : Op.Step o w r w') : w'.Recorded ip te ↔
    o.entered b r = some (ip, te) ∨ w.Recorded ip te ∧ o.removed r ≠ some ip := by
  by_cases ho : o.target = some .banned_ips
  · obtain ⟨peer, ⟨te', rfl⟩ | rfl⟩ := Op.eq_of_target_banned_ips ho
    · rw [recorded_insert_iff h]
      simp [Op.removed]
    · rw [recorded_delete_iff h]
      simp [Op.entered]
  · have hrows : w'.db.banned_ips = w.db.banned_ips := h.frame .banned_ips ho
    rw [Recorded, hrows, Op.entered_eq_none ho, Op.removed_eq_none ho]
    simp [Recorded]

theorem recorded_of_found (h : Op.Step o w r w') (hfound : o.found r = some (ip, te)) :
    w.Recorded ip te ∧ ∀ te', w.Recorded ip te' → te' = te := by
  obtain ⟨rfl, hok⟩ := Op.eq_of_found hfound
  rcases r with e | date
  · cases hok
  have hdate : date = some te := by
    rcases date with _ | te₀
    · cases hfound
    · simpa [Op.found] using hfound
  have hread := h.selectBannedIp_eq
  rw [hdate, eq_comm, Option.map_eq_some_iff] at hread
  obtain ⟨⟨ip', te₀⟩, hfind, rfl⟩ := hread
  obtain ⟨hmem, rfl⟩ := (Relational.find?_eq_some_iff w.db.valid.banned_ips_ip).mp hfind
  refine ⟨hmem, fun te' hte' ↦ ?_⟩
  have hfind' := (Relational.find?_eq_some_iff w.db.valid.banned_ips_ip).mpr ⟨hte', rfl⟩
  rw [hfind, Option.some.injEq, BannedIpRow.mk.injEq] at hfind'
  exact hfind'.2.symm

theorem recorded_of_shows {e : Action b} (h : Op.Step e.op e.before e.result e.after)
    (hshows : Shows ip te e) : e.after.Recorded ip te := by
  rw [h.recorded_iff]
  rcases hshows with hfound | hentered
  · have htarget : e.op.target ≠ some .banned_ips := by
      rw [(Op.eq_of_found hfound).1]
      simp [Op.target, Statement.target]
    rw [Op.removed_eq_none htarget]
    exact .inr ⟨(h.recorded_of_found hfound).1, by simp⟩
  · exact .inl hentered

end Op.Step

/-! ## What a call does to the entries -/

/-- An entry that is removed is one of a peer of whom an expired one has been read. -/
def AfterExpired (tr : List (Action b)) (e : Action b) : Prop :=
  ∀ ip, Removes ip e → ∃ te tc, te < tc ∧ (∃ z ∈ tr, z.op.found z.result = some (ip, te)) ∧
    ∃ w w', ⟨w, .time, .ok tc, w'⟩ ∈ tr

/-- By these actions, `isUserBanned` turns a user away. -/
def TurnsAway (tr : List (Action b)) : Prop :=
  ∃ uname peer, (DBPostgres.isUserBanned uname peer).Trace tr (.done true)

/-- What a call has done before it changes an entry, and what it does then: it removes an entry
after it has read an expired one, and makes one while it turns a user away. -/
structure Accounted (tr₁ : List (Action b)) (e : Action b) (tr₂ : List (Action b)) : Prop where
  removed : AfterExpired tr₁ e
  entered : ∀ x, e.op.entered b e.result = some x → ∃ tr₀ tr tr' tr₃,
    tr₁ = tr₀ ++ tr ∧ tr₂ = tr' ++ tr₃ ∧ TurnsAway (tr ++ e :: tr')

theorem AfterExpired.widen {tr : List (Action b)} {e : Action b} (h : AfterExpired tr e)
    (tr₀ : List (Action b)) : AfterExpired (tr₀ ++ tr) e := by
  intro ip hip
  obtain ⟨te, tc, hlt, ⟨z, hz, hfound⟩, w, w', htime⟩ := h ip hip
  exact ⟨te, tc, hlt, ⟨z, List.mem_append_right _ hz, hfound⟩, w, w',
    List.mem_append_right _ htime⟩

theorem Accounted.widen (tr₀ tr₁ : List (Action b)) (e : Action b) (tr₂ tr₃ : List (Action b))
    (h : Accounted tr₁ e tr₂) : Accounted (tr₀ ++ tr₁) e (tr₂ ++ tr₃) where
  removed := h.removed.widen tr₀
  entered x hx := by
    obtain ⟨s₀, tr, tr', s₃, rfl, rfl, haway⟩ := h.entered x hx
    exact ⟨tr₀ ++ s₀, tr, tr', s₃ ++ tr₃, by simp, by simp, haway⟩

theorem afterExpired_of_target {e : Action b} (he : e.op.target ≠ some .banned_ips)
    (tr : List (Action b)) : AfterExpired tr e := by
  intro ip hip
  rw [Removes, Op.removed_eq_none he] at hip
  cases hip

theorem accounted_of_target {e : Action b} (he : e.op.target ≠ some .banned_ips)
    (tr₁ tr₂ : List (Action b)) : Accounted tr₁ e tr₂ where
  removed := afterExpired_of_target he tr₁
  entered x hx := by
    rw [Op.entered_eq_none he] at hx
    cases hx

theorem placed_of_target {p : Routine α} (hp : p.Only fun o ↦ o.target ≠ some .banned_ips) :
    p.Placed (Accounted (b := b)) :=
  Prog.Placed.of_only hp fun tr₁ _ tr₂ he ↦ accounted_of_target he tr₁ tr₂

theorem isIPBanned_placed (ip : String) :
    (DBPostgres.isIPBanned ip).Placed fun (tr : List (Action b)) e _ ↦ AfterExpired tr e := by
  refine Prog.placed_perform_bind (fun _ _ _ _ ↦ afterExpired_of_target (by simp [Op.target]) _)
    fun _ _ _ ↦ Prog.placed_perform_bind
      (fun _ _ _ _ ↦ afterExpired_of_target (by simp [Op.target, Statement.target]) _)
      fun w date w' ↦ ?_
  rcases date with _ | te
  · exact Prog.placed_done false
  refine Prog.placed_perform_bind (fun _ _ _ _ ↦ afterExpired_of_target (by simp [Op.target]) _)
    fun v tc v' ↦ ?_
  by_cases hexpired : tc > te
  · rw [if_pos hexpired]
    refine Prog.placed_perform_bind (fun s r s' _ ip' hip ↦ ?_) fun _ _ _ ↦ Prog.placed_done false
    obtain rfl : ip = ip' := by
      rcases r with x | v
      · cases hip
      · simpa [Removes, Op.removed] using hip
    exact ⟨te, tc, hexpired, ⟨⟨w, .sql (.selectBannedIp ip), .ok (some te), w'⟩, by simp, rfl⟩, v,
      v', by simp⟩
  · rw [if_neg hexpired]
    exact Prog.placed_done true

theorem isIPBanned_enters (ip : String) :
    (DBPostgres.isIPBanned ip).Only fun o ↦ ∀ r, o.entered b r = none := by
  simp only [DBPostgres.isIPBanned, Prog.only_perform_bind]
  refine ⟨fun _ ↦ rfl, fun _ ↦ ⟨fun _ ↦ rfl, fun date ↦ ?_⟩⟩
  rcases date with _ | te
  · trivial
  refine (Prog.only_perform_bind _ _ _).mpr ⟨fun _ ↦ rfl, fun tc ↦ ?_⟩
  split
  · exact (Prog.only_perform_bind _ _ _).mpr ⟨fun _ ↦ rfl, fun _ ↦ trivial⟩
  · trivial

theorem eq_done_of_entered {uname peer : String} {tr : List (Action b)} {p' : Routine Bool}
    {e : Action b} {x : String × ℤ} (h : (DBPostgres.isUserBanned uname peer).Trace tr p')
    (he : e ∈ tr) (hx : e.op.entered b e.result = some x) : p' = .done true := by
  let P (f : Action b) : Prop := f.op.entered b f.result = some x
  have haside : ∀ f : Action b, f.op.target ≠ some .banned_ips → ¬P f := by
    intro f hf hP
    have hnone : f.op.entered b f.result = none := Op.entered_eq_none hf f.result
    exact absurd (hnone.symm.trans hP) (by simp)
  obtain ⟨_, _, _, tr₁, _, h₁, he₁⟩ := Prog.trace_perform_bind_of_mem (P := P) h he hx
    fun _ _ _ ↦ haside _ (by simp [Op.target])
  obtain ⟨_, date, _, tr₂, _, h₂, he₂⟩ := Prog.trace_perform_bind_of_mem (P := P) h₁ he₁ hx
    fun _ _ _ ↦ haside _ (by simp [Op.target, Statement.target])
  rcases date with _ | te
  · rw [(Prog.trace_done_iff.mp h₂).1] at he₂
    cases he₂
  obtain ⟨_, tc, _, tr₃, _, h₃, he₃⟩ := Prog.trace_perform_bind_of_mem (P := P) h₂ he₂ hx
    fun _ _ _ ↦ haside _ (by simp [Op.target])
  by_cases hexpired : tc > te
  · rw [if_pos hexpired] at h₃
    obtain ⟨_, _, _, tr₄, _, h₄, he₄⟩ := Prog.trace_perform_bind_of_mem (P := P) h₃ he₃ hx
      fun _ _ _ ↦ haside _ (by simp [Op.target, Statement.target])
    rw [(Prog.trace_done_iff.mp h₄).1] at he₄
    cases he₄
  rw [if_neg hexpired] at h₃
  have htest : ∀ {tr : List (Action b)} {q : Routine Bool},
      (DBPostgres.isIPBanned peer).Trace tr q → e ∉ tr := by
    intro tr q hq hmem
    rw [((isIPBanned_enters peer).trace hq).1 e hmem e.result] at hx
    cases hx
  rcases h₃.of_bind with ⟨q, hq, _, _⟩ | ⟨ipBanned, s₁, s₂, rfl, htested, hrest⟩
  · exact absurd he₃ (htest hq)
  have hmem : e ∈ s₂ := (List.mem_append.mp he₃).resolve_left (htest htested)
  rcases ipBanned with _ | _
  · obtain hnil | ⟨_, _, _, tr', _, hdone⟩ | ⟨w, y, w', hlost, _⟩ :=
      Prog.trace_perform_bind_iff.mp hrest
    · rw [hnil.1] at hmem
      cases hmem
    · exact (Prog.trace_done_iff.mp hdone).2
    · rw [hlost, List.mem_singleton] at hmem
      rw [hmem] at hx
      cases hx
  · rw [(Prog.trace_done_iff.mp hrest).1] at hmem
    cases hmem

theorem isUserBanned_placed (uname ip : String) :
    (DBPostgres.isUserBanned uname ip).Placed (Accounted (b := b)) := by
  have hremoved : (DBPostgres.isUserBanned uname ip).Placed
      fun (tr : List (Action b)) e _ ↦ AfterExpired tr e := by
    have hwiden : ∀ (tr₀ tr₁ : List (Action b)) (e : Action b) (tr₂ tr₃ : List (Action b)),
        AfterExpired tr₁ e → AfterExpired (tr₀ ++ tr₁) e := fun tr₀ _ _ _ _ h ↦ h.widen tr₀
    have haside : ∀ o : Op, o.target ≠ some .banned_ips →
        (perform o).Placed fun (tr : List (Action b)) e _ ↦ AfterExpired tr e := by
      intro o ho
      refine Prog.Placed.of_only ((Prog.only_perform (· = o) o).mpr rfl) fun tr e _ he ↦ ?_
      exact afterExpired_of_target (by rwa [he]) tr
    refine (haside _ (by simp [Op.target])).bind hwiden fun _ ↦
      (haside _ (by simp [Op.target, Statement.target])).bind hwiden fun date ↦ ?_
    rcases date with _ | te
    · exact Prog.placed_done false
    refine (haside _ (by simp [Op.target])).bind hwiden fun tc ↦ ?_
    split
    · exact (haside _ (by simp [Op.target, Statement.target])).bind hwiden
        fun _ ↦ Prog.placed_done false
    · refine (isIPBanned_placed ip).bind hwiden fun ipBanned ↦ ?_
      rcases ipBanned with _ | _
      · refine Prog.placed_perform_bind (fun _ _ _ _ ip' hip ↦ ?_) fun _ _ _ ↦ Prog.placed_done true
        simp [Removes, Op.removed] at hip
      · exact Prog.placed_done true
  intro tr₁ e tr₂ p' h
  refine ⟨hremoved tr₁ e tr₂ p' h, fun x hx ↦ ⟨[], tr₁, tr₂, [], by simp, by simp, uname, ip, ?_⟩⟩
  rw [← eq_done_of_entered h (by simp) hx]
  exact h

theorem intercept_placed (methods : InterceptorBatchMethods) (peer : String) :
    (intercept methods peer).Placed (Accounted (b := b)) := by
  have hcancel : ∀ banned : Bool,
      (if banned then perform .tryCancel else pure ()).Placed (Accounted (b := b)) := by
    intro banned
    rcases banned with _ | _
    · exact Prog.placed_done ()
    · exact placed_of_target ((Prog.only_perform _ _).mpr (by simp [Op.target]))
  obtain ⟨metadata, message⟩ := methods
  refine Prog.Placed.bind Accounted.widen ?_ fun _ ↦ Prog.Placed.bind Accounted.widen ?_ fun _ ↦
    placed_of_target ((Prog.only_perform _ _).mpr (by simp [Op.target]))
  · rcases metadata with _ | _
    · exact Prog.placed_done ()
    · refine Prog.Placed.bind Accounted.widen (fun tr₁ e tr₂ p' h ↦ ?_) hcancel
      refine ⟨isIPBanned_placed peer tr₁ e tr₂ p' h, fun x hx ↦ ?_⟩
      rw [((isIPBanned_enters peer).trace h).1 e (by simp) e.result] at hx
      cases hx
  · rcases message with _ | _ | msg
    · exact Prog.placed_done ()
    · exact placed_of_target ((Prog.only_perform _ _).mpr (by simp [Op.target]))
    · dsimp only
      rw [onMessage]
      split
      · exact Prog.placed_done ()
      · exact (isUserBanned_placed _ peer).bind Accounted.widen hcancel

theorem Request.target_ne_banned_ips (r : Request) : r.target ≠ some .banned_ips := by
  cases r <;> simp [Request.target]

/-- **Who changes the entries.** -/
theorem call_placed (call : Call) : call.run.Placed (Accounted (b := b)) := by
  have hbatches : ∀ batches, (interceptAll call.peer batches).Placed (Accounted (b := b)) := by
    intro batches
    induction batches with
    | nil => exact Prog.placed_done ()
    | cons methods batches ih =>
      exact (intercept_placed methods call.peer).bind Accounted.widen fun _ ↦ ih
  refine (hbatches call.batches).bind Accounted.widen fun _ ↦ placed_of_target ?_
  exact call.request.handle_only.mono fun _ ho ↦ ho.target_ne call.request.target_ne_banned_ips

/-! ## A clock that does not go back -/

/-- The clock does not go back. -/
def World.Earlier (w w' : World b) : Prop := w.now ≤ w'.now

instance : IsPreorder (World b) World.Earlier where
  refl w := le_refl w.now
  trans _ _ _ := le_trans (α := ℤ)

/-- The steps of a server whose clock does not go back. -/
def Advancing (b : Backend) : Semantics Op Op.Result Exn (World b) := fun o w r w' ↦
  Op.Step o w r w' ∧ w.Earlier w'

variable {ι : Type} [DecidableEq ι] {c c' : Pool ι Op Op.Result Exn Reply (World b)}
  {l l₁ l₂ : List (ι × Action b)} {x : ι × Action b}

theorem now_le_of_mem (h : Pool.Steps (Advancing b) c l c') (hx : x ∈ l) :
    x.2.after.now ≤ c'.state.now :=
  ((h.run.le (R := World.Earlier) fun _ _ hs ↦ hs.2).2 x.2 (List.mem_map_of_mem hx)).2.2

/-! ## How long an entry lasts -/

/-- With the step `x`, between `l₁` and `l₂`, a call that is turning its user away finds the entry
or makes it. -/
def Seen (ip : String) (te : ℤ) (l₁ : List (ι × Action b)) (x : ι × Action b)
    (l₂ : List (ι × Action b)) : Prop :=
  Shows ip te x.2 ∧ ∃ tr₀ tr tr' tr₃, view x.1 l₁ = tr₀ ++ tr ∧ view x.1 l₂ = tr' ++ tr₃ ∧
    TurnsAway (tr ++ x.2 :: tr')

/-- The entry is there at the start, or from when a call was seen, and is not removed since. -/
def Lasting (ip : String) (te : ℤ) (w : World b) (l : List (ι × Action b)) : Prop :=
  (w.Recorded ip te ∧ ∀ y ∈ l, ¬Removes ip y.2) ∨
    ∃ l₁ x l₂, l = l₁ ++ x :: l₂ ∧ Seen ip te l₁ x l₂ ∧ ∀ y ∈ l₂, ¬Removes ip y.2

/-- A call has read an entry of the peer before, in `l₁`, and removes the entry of the peer after,
in `l₂`. -/
def Overtaken (ip : String) (l₁ l₂ : List (ι × Action b)) : Prop :=
  ∃ y ∈ l₂, Removes ip y.2 ∧
    ∃ z ∈ l₁, z.1 = y.1 ∧ ∃ te, z.2.op.found z.2.result = some (ip, te)

theorem recorded_of_run {w w' : World b} {tr : List (Action b)} (h : Run Op.Step w tr w')
    (hw : w.Recorded ip te) (htr : ∀ e ∈ tr, ¬Removes ip e) : w'.Recorded ip te :=
  h.preserves (I := Recorded ip te) (fun e he hs hrec ↦ hs.recorded_iff.mpr (.inr ⟨hrec, htr e he⟩))
    hw

/-- Where an entry comes from. -/
theorem exists_of_recorded (h : Pool.Steps Op.Step c l c')
    (hrec : c'.state.Recorded ip te) :
    (c.state.Recorded ip te ∧ ∀ y ∈ l, ¬Removes ip y.2) ∨
      ∃ l₁ x l₂, l = l₁ ++ x :: l₂ ∧ x.2.op.entered b x.2.result = some (ip, te) ∧
        ∀ y ∈ l₂, ¬Removes ip y.2 := by
  induction h with
  | nil => exact .inl ⟨hrec, by simp⟩
  | @snoc c' l i o k r w' _ _ hs ih =>
    rcases hs.recorded_iff.mp hrec with hentered | ⟨hbefore, hkept⟩
    · exact .inr ⟨l, (i, ⟨c'.state, o, r, w'⟩), [], rfl, hentered, by simp⟩
    have hlast : ∀ y ∈ [(i, (⟨c'.state, o, r, w'⟩ : Action b))], ¬Removes ip y.2 := by
      simpa [Removes] using hkept
    rcases ih hbefore with ⟨hstart, hl⟩ | ⟨l₁, x, l₂, rfl, hx, hl₂⟩
    · exact .inl ⟨hstart, List.forall_mem_append.mpr ⟨hl, hlast⟩⟩
    · exact .inr ⟨l₁, x, l₂ ++ [(i, ⟨c'.state, o, r, w'⟩)], by simp, hx,
        List.forall_mem_append.mpr ⟨hl₂, hlast⟩⟩

section Calls

variable {calls : ι → Call} (hcalls : ∀ i, c.thread i = (calls i).run)
include hcalls

theorem accounted_of_steps (h : Pool.Steps Op.Step c l c') (hl : l = l₁ ++ x :: l₂) :
    Accounted (view x.1 l₁) x.2 (view x.1 l₂) := by
  have htrace := h.view_trace x.1
  rw [hcalls, hl, view_append, view_cons_self] at htrace
  exact call_placed (calls x.1) _ _ _ _ htrace

theorem seen_of_entered (h : Pool.Steps Op.Step c l c') (hl : l = l₁ ++ x :: l₂)
    (hx : x.2.op.entered b x.2.result = some (ip, te)) : Seen ip te l₁ x l₂ :=
  ⟨.inr hx, (accounted_of_steps hcalls h hl).entered _ hx⟩

/-- **The entries of a run.** -/
theorem recorded_iff_lasting (h : Pool.Steps Op.Step c l c') :
    c'.state.Recorded ip te ↔ Lasting ip te c.state l := by
  constructor
  · intro hrec
    refine (exists_of_recorded h hrec).imp_right ?_
    rintro ⟨l₁, x, l₂, hl, hx, hl₂⟩
    exact ⟨l₁, x, l₂, hl, seen_of_entered hcalls h hl hx, hl₂⟩
  · rintro (⟨hstart, hkept⟩ | ⟨l₁, x, l₂, hl, ⟨hshows, _⟩, hkept⟩)
    · refine recorded_of_run h.run hstart fun e he ↦ ?_
      obtain ⟨y, hy, rfl⟩ := List.mem_map.mp he
      exact hkept y hy
    · have hx : Op.Step x.2.op x.2.before x.2.result x.2.after := h.sem_of_mem (by simp [hl])
      refine recorded_of_run (h.rest hl) (hx.recorded_of_shows hshows) fun e he ↦ ?_
      obtain ⟨y, hy, rfl⟩ := List.mem_map.mp he
      exact hkept y hy

/-- **An entry is only lost to who has read the one before.** Until its time, it is removed by no
call that has not read an entry of the peer before. -/
theorem not_removes_of_not_overtaken (h : Pool.Steps (Advancing b) c l c')
    (hl : l = l₁ ++ x :: l₂) (hshows : Shows ip te x.2) (hnow : c'.state.now ≤ te)
    (hovertaken : ¬Overtaken ip l₁ l₂) : ∀ y ∈ l₂, ¬Removes ip y.2 := by
  have hsteps : Pool.Steps Op.Step c l c' := h.mono fun _ _ hs ↦ hs.1
  by_contra! hremoves
  -- the first removal
  obtain ⟨m, y, m', rfl, hy, hm⟩ := exists_first hremoves
  have hl' : l = (l₁ ++ x :: m) ++ y :: m' := by rw [hl]; simp
  obtain ⟨te₀, tc, hlt, ⟨z, hz, hfound⟩, v, v', htime⟩ :=
    (accounted_of_steps hcalls hsteps hl').removed ip hy
  -- what was found is the entry that was shown
  have hsame : te₀ = te := by
    rcases List.mem_append.mp (mem_view.mp hz) with hearlier | hlater
    · exact absurd ⟨y, by simp, hy, (y.1, z), hearlier, rfl, te₀, hfound⟩ hovertaken
    rcases List.mem_cons.mp hlater with rfl | hmid
    · rcases hshows with hshown | hentered
      · exact congrArg Prod.snd (Option.some.inj (hfound.symm.trans hshown))
      · rw [Op.entered_eq_none (by simp [(Op.eq_of_found hfound).1, Op.target,
          Statement.target])] at hentered
        cases hentered
    · obtain ⟨m₁, m₂, rfl⟩ := List.append_of_mem hmid
      have hl'' : l = l₁ ++ x :: (m₁ ++ (y.1, z) :: (m₂ ++ y :: m')) := by rw [hl]; simp
      obtain ⟨_, hx, hrun⟩ := run_cons_iff.mp (hsteps.between hl'')
      have hbefore : z.before.Recorded ip te := by
        refine recorded_of_run hrun (hx.recorded_of_shows hshows) fun e he ↦ ?_
        obtain ⟨f, hf, rfl⟩ := List.mem_map.mp he
        exact hm f (List.mem_append_left _ hf)
      have hread : Op.Step z.op z.before z.result z.after :=
        hsteps.sem_of_mem (x := (y.1, z)) (by simp [hl''])
      exact ((hread.recorded_of_found hfound).2 te hbefore).symm
  -- the time at which it was found expired is not over yet
  have htc : tc ≤ te := by
    have hmem : (y.1, ⟨v, .time, .ok tc, v'⟩) ∈ l := by
      rw [hl']
      exact List.mem_append_left _ (mem_view.mp htime)
    rw [(hsteps.sem_of_mem hmem).time_eq]
    exact le_trans (now_le_of_mem h hmem) hnow
  rw [hsame] at hlt
  exact absurd htc (not_le.mpr hlt)

end Calls

/-- A peer that the column keeps as it is, and that `isUserBanned` turns away, has an entry. -/
theorem exists_shows {uname peer : String} {tr : List (Action b)}
    (h : (DBPostgres.isUserBanned uname peer).Trace tr (.done true))
    (hpeer : varchar b 50 peer = .ok peer) : ∃ te, ∃ e ∈ tr, Shows peer te e := by
  obtain ⟨_, _, _, tr₁, rfl, h₁⟩ := Prog.trace_perform_bind_done h
  obtain ⟨_, date, _, tr₂, rfl, h₂⟩ := Prog.trace_perform_bind_done h₁
  rcases date with _ | te
  · cases (Prog.trace_done_iff.mp h₂).2
  obtain ⟨_, tc, _, tr₃, rfl, h₃⟩ := Prog.trace_perform_bind_done h₂
  by_cases hexpired : tc > te
  · rw [if_pos hexpired] at h₃
    obtain ⟨_, _, _, tr₄, rfl, h₄⟩ := Prog.trace_perform_bind_done h₃
    cases (Prog.trace_done_iff.mp h₄).2
  rw [if_neg hexpired] at h₃
  obtain ⟨ipBanned, s₁, s₂, rfl, htest, hrest⟩ := h₃.of_bind_done
  rcases ipBanned with _ | _
  · -- the entry is made
    obtain ⟨w, _, w', s₃, rfl, _⟩ := Prog.trace_perform_bind_done hrest
    exact ⟨te, ⟨w, .sql (.insertBannedIp peer te), .ok (), w'⟩, by simp,
      .inr (by simp [Op.entered, hpeer, Except.toOption])⟩
  · -- there is one
    obtain ⟨_, _, _, s₃, rfl, htest₁⟩ := Prog.trace_perform_bind_done htest
    obtain ⟨w, found, w', s₄, rfl, htest₂⟩ := Prog.trace_perform_bind_done htest₁
    rcases found with _ | te'
    · cases (Prog.trace_done_iff.mp htest₂).2
    · exact ⟨te', ⟨w, .sql (.selectBannedIp peer), .ok (some te'), w'⟩, by simp, .inl rfl⟩

/-- **Whom `isUserBanned` turns away is seen**, and so is recorded. -/
theorem exists_seen {uname peer : String} {i : ι} {tr₀ tr tr₃ : List (Action b)}
    (hview : view i l = tr₀ ++ tr ++ tr₃)
    (h : (DBPostgres.isUserBanned uname peer).Trace tr (.done true))
    (hpeer : varchar b 50 peer = .ok peer) :
    ∃ te l₁ x l₂, l = l₁ ++ x :: l₂ ∧ Seen peer te l₁ x l₂ := by
  obtain ⟨te, e, he, hshows⟩ := exists_shows h hpeer
  obtain ⟨s, s', rfl⟩ := List.append_of_mem he
  have hview' : view i l = (tr₀ ++ s) ++ e :: (s' ++ tr₃) := by simp [hview]
  obtain ⟨l₁, l₂, hl, hl₁, hl₂⟩ := exists_of_view_eq_append hview'
  exact ⟨te, l₁, (i, e), l₂, hl, hshows, tr₀, s, s', tr₃, hl₁, hl₂, uname, peer, h⟩

/-! ## The host -/

/-- The test of the peer, when the metadata of a call have come in, finds a ban and cancels the
call. -/
def Stopped (peer : String) (message : Option (Option RecvMessage)) (w : World b) : Prop :=
  ((DBPostgres.isIPBanned peer).exec Op.exec w).2.1 = .ok true ∧
    Cancels (intercept ⟨true, message⟩ peer) w

instance (peer : String) (message : Option (Option RecvMessage)) (w : World b) :
    Decidable (Stopped peer message w) := inferInstanceAs (Decidable (_ ∧ _))

theorem stopped_iff {peer : String} {message : Option (Option RecvMessage)} {w : World b} :
    Stopped peer message w ↔ w.IPBanned peer := by
  constructor
  · rintro ⟨htest, _⟩
    by_contra hnot
    obtain ⟨w', hexec, _⟩ := DBPostgres.exec_isIPBanned_of_not hnot
    rw [hexec] at htest
    simp at htest
  · intro h
    refine ⟨by rw [DBPostgres.exec_isIPBanned_of_banned h], ?_⟩
    exact cancels_bind_iff.mpr (.inl (cancels_onInitialMetadata_iff.mpr h))

/-- **The ban stays with the port.** Any calls come in, from any peers, and their steps interleave
in any way, while the clock does not go back. One of them, of a banned user, is seen at the step `x`
to come from a host and port, which then have an entry; the time of that entry is not over yet. A
later call from the same host is stopped if and only if

* it comes from the same port, and no call that had read an earlier entry of it has removed the new
  one;
* or its own port has come to an entry in the same way, or had one at the start, that is not over
  and has not been removed. -/
theorem host_banned_iff {H P : Type} {peer : H → P → String} {h : H} {p p' : P}
    {message : Option (Option RecvMessage)} {calls : ι → Call}
    (hcalls : ∀ i, c.thread i = (calls i).run) (hsteps : Pool.Steps (Advancing b) c l c')
    (hl : l = l₁ ++ x :: l₂) (hseen : Seen (peer h p) te l₁ x l₂) (hnow : c'.state.now ≤ te) :
    Stopped (peer h p') message c'.state ↔
      (p' = p ∧ ¬Overtaken (peer h p) l₁ l₂) ∨
        ∃ te', c'.state.now ≤ te' ∧ Lasting (peer h p') te' c.state l := by
  have hsteps' : Pool.Steps Op.Step c l c' := hsteps.mono fun _ _ hs ↦ hs.1
  rw [stopped_iff]
  constructor
  · rintro ⟨⟨_, te'⟩, hrec, rfl, hnow'⟩
    exact .inr ⟨te', hnow', (recorded_iff_lasting hcalls hsteps').mp hrec⟩
  · rintro (⟨rfl, hovertaken⟩ | ⟨te', hnow', hlasting⟩)
    · have hkept : ∀ y ∈ l₂, ¬Removes (peer h p') y.2 :=
        not_removes_of_not_overtaken hcalls hsteps hl hseen.1 hnow hovertaken
      exact ⟨_, (recorded_iff_lasting hcalls hsteps').mpr (.inr ⟨l₁, x, l₂, hl, hseen, hkept⟩), rfl,
        hnow⟩
    · exact ⟨_, (recorded_iff_lasting hcalls hsteps').mpr hlasting, rfl, hnow'⟩

/-! ## A change of ports -/

/-- The server after the user of the empty name has been banned. -/
private def nobodyBanned : World .postgres :=
  (serve (World.start .postgres 0) [.CreateUser ⟨"", "pw", false⟩,
    .BanUser [("auth-uname", ""), ("auth-token", "pw")] ⟨"", 1⟩]).2

private def withPort (host port : String) : String := host ++ ":" ++ port

/-- Requests whose message has a field `uname`, from two ports of a host. -/
private def calls (i : Bool) : Call :=
  ⟨withPort "ipv4:1.2.3.4" (if i then "5678" else "5679"),
    [⟨true, some (some [⟨"uname", "", "bob"⟩])⟩], .GetWrongthinkCommunities⟩

/-- The first of the two is on its way, and has been entered with its eighth step. -/
private def entering :
    List (Bool × Action .postgres) × Pool Bool Op Op.Result Exn Reply (World .postgres) :=
  Pool.replay Op.exec ⟨nobodyBanned, fun i ↦ (calls i).run⟩ (List.replicate 10 true)

private theorem steps_entering :
    Pool.Steps (Advancing .postgres) ⟨nobodyBanned, fun i ↦ (calls i).run⟩ entering.1 entering.2 :=
  Pool.replay_sound (fun o w ↦ ⟨Op.step_exec o w, le_of_eq (Op.now_exec o w).symm⟩) _ _

private theorem seven_lt : 7 < entering.1.length := by decide

private theorem entering_eq :
    entering.1 = entering.1.take 7 ++ entering.1.get ⟨7, seven_lt⟩ :: entering.1.drop 8 :=
  (List.take_append_drop 7 entering.1).symm.trans
    (congrArg (entering.1.take 7 ++ ·) (List.drop_eq_getElem_cons seven_lt))

private theorem seen_entering : Seen (withPort "ipv4:1.2.3.4" "5678") 86400000 (entering.1.take 7)
    (entering.1.get ⟨7, seven_lt⟩) (entering.1.drop 8) :=
  seen_of_entered (fun _ ↦ rfl) (steps_entering.mono fun _ _ hs ↦ hs.1) entering_eq (by decide)

theorem host_banned_iff_entering :
    Stopped (withPort "ipv4:1.2.3.4" "5678") none entering.2.state ↔
      ("5678" = "5678" ∧ ¬Overtaken (withPort "ipv4:1.2.3.4" "5678") (entering.1.take 7)
          (entering.1.drop 8)) ∨
        ∃ te', entering.2.state.now ≤ te' ∧
          Lasting (withPort "ipv4:1.2.3.4" "5678") te' nobodyBanned entering.1 :=
  host_banned_iff (fun _ ↦ rfl) steps_entering entering_eq seen_entering (by decide)

/-- The host comes back by another port. -/
theorem exists_portChange :
    ¬∀ (c c' : Pool Bool Op Op.Result Exn Reply (World .postgres)) (calls : Bool → Call)
      (l l₁ l₂ : List (Bool × Action .postgres)) (x : Bool × Action .postgres)
      (h p p' : String) (te : ℤ), (∀ i, c.thread i = (calls i).run) →
      Pool.Steps (Advancing .postgres) c l c' → l = l₁ ++ x :: l₂ →
      Seen (withPort h p) te l₁ x l₂ → c'.state.now ≤ te →
        Stopped (withPort h p') none c'.state := by
  intro h
  have hstopped := h _ _ calls _ _ _ _ "ipv4:1.2.3.4" "5678" "5679" _ (fun _ ↦ rfl) steps_entering
    entering_eq seen_entering (by decide)
  exact absurd hstopped (by decide)

end Wrongthink
