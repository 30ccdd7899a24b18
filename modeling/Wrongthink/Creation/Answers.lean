import Wrongthink.Creation.Calls

/-!
# The answer of a creation

A creation answers with the key that its lookup finds under the name it was given, not with one that
its insert has returned. Names are unique and no row is ever renamed or removed, so the row that is
found is the call's own, whoever else is creating rows: provided that the name was stored as it was
given (`answers_of_kept`). A name that Postgres has cut is looked up in vain, and the call answers
with `0`, or with a value that is not defined (`exists_strangeAnswer`).
-/

namespace Wrongthink

open Concurrent

variable {b : Backend}

namespace Creation

variable {q q' : Creation}

/-! ## The row of a call -/

/-- The name is stored as it was given, or not at all. -/
def Kept (b : Backend) (q : Creation) : Prop :=
  ∀ name, varchar b q.width q.name = .ok name → name = q.name

/-- The action has inserted the row of `q`, with the key `n` and the name `name`. -/
structure Inserts (q : Creation) (e : Action b) (n : ℤ) (name : String) : Prop where
  target : e.op.target = some q.table
  stored : varchar b q.width q.name = .ok name
  fresh : name ∉ (e.before.entries q.table).map Prod.snd
  entries : e.after.entries q.table = e.before.entries q.table ++ [(n, name)]

theorem width_eq_of_table (h : q.table = q'.table) : q.width = q'.width := by
  have hwidth : ∀ q : Creation, q.width = if q.table = .users then 50 else 100 := by
    intro q
    cases q <;> rfl
  rw [hwidth q, hwidth q', h]

/-- **A call that returns** has inserted its row; and if it has kept the name, it returns the key of
that row, and nothing undefined has happened. -/
theorem inserts_of_call {tr : List (Action b)} {n : ℤ}
    (hstep : ∀ e ∈ tr, Op.Step e.op e.before e.result e.after)
    (hgrows : tr.Pairwise fun e f ↦ e.after.Grows f.before) (h : q.call.Trace tr (.done n)) :
    ∃ e ∈ tr, ∃ m name, q.Inserts e m name ∧
      (q.Kept b → n = m ∧ ∀ f ∈ tr, f.op ≠ .undefined) := by
  rw [call_eq] at h
  obtain ⟨_, hne⟩ | ⟨adminct, tr₁, w, v, w', tr₂, rfl, hprepare, hrest⟩ := trace_steps h
  · exact absurd rfl (hne n)
  have hinsert := hstep ⟨w, .sql (q.insert adminct), .ok v, w'⟩ (by simp)
  obtain ⟨_, m, name, hentries, hname, hfresh⟩ := (insert_eq hinsert).resolve_right (by simp)
  refine ⟨⟨w, .sql (q.insert adminct), .ok v, w'⟩, by simp, m, name,
    ⟨q.target_insert adminct, hname, hfresh, hentries⟩, fun hkept ↦ ?_⟩
  have hstep₂ : ∀ e ∈ tr₂, Op.Step e.op e.before e.result e.after :=
    fun e he ↦ hstep e (List.mem_append_right _ (List.mem_cons_of_mem _ he))
  obtain ⟨_, hne⟩ | ⟨f, tr₃, rfl, ⟨hlooks, _⟩, hfinish⟩ := trace_find hstep₂ hrest
  · exact absurd rfl (hne n)
  -- between the insert and the lookup the row has stayed
  have hlater : w'.Grows f.before := by
    rw [List.pairwise_append] at hgrows
    exact (List.pairwise_cons.mp hgrows.2.1).1 f List.mem_cons_self
  have hmem : (m, q.name) ∈ f.before.entries q.table := by
    rw [← hkept name hname]
    refine (hlater.entries q.table).subset ?_
    rw [hentries]
    simp
  rw [lookup_eq_some hmem, finish_some] at hfinish
  obtain ⟨rfl, hdone⟩ := Prog.trace_done_iff.mp hfinish
  rw [Prog.done.injEq] at hdone
  refine ⟨hdone, fun e he hop ↦ ?_⟩
  rw [List.mem_append, List.mem_cons, List.mem_singleton] at he
  rcases he with he | rfl | rfl
  · have hstore := ((q.prepare_reads.trace hprepare).1 e he).1
    rw [hop] at hstore
    cases hstore
  · cases hop
  · have hstore := (Op.reads_of_looksUp hlooks).1
    rw [hop] at hstore
    cases hstore

theorem rows_of_rejected {tr : List (Action b)} {p' : Routine ℤ}
    (hstep : ∀ e ∈ tr, Op.Step e.op e.before e.result e.after) (h : q.call.Trace tr p')
    {e : Action b} (he : e ∈ tr) (htarget : e.op.target ≠ none)
    (hrejected : e.result.isOk = false) :
    ∀ f ∈ tr, ∀ T, f.after.db.rows T = f.before.db.rows T := by
  rw [call_eq] at h
  obtain ⟨hidle, _⟩ | ⟨adminct, tr₁, w, v, w', tr₂, rfl, hprepare, hrest⟩ := trace_steps h
  · exact fun f hf T ↦ rows_of_idle (hstep f hf) (hidle f hf) T
  · exfalso
    rw [List.mem_append, List.mem_cons] at he
    rcases he with he | rfl | he
    · exact htarget ((q.prepare_reads.trace hprepare).1 e he).2
    · cases hrejected
    · have hreads : (q.find >>= fun id ↦ q.finish id).Only fun o ↦ o.target = none :=
        (q.find_reads.mono fun _ ho ↦ ho.2).bind q.finish_reads
      exact htarget ((hreads.trace hrest).1 e he)

end Creation

/-! ## Any number of calls -/

variable {ι : Type} [DecidableEq ι] {c c' : Pool ι Op Op.Result Exn ℤ (World b)}
  {l : List (ι × Action b)}

/-- Every creation that has returned has answered with its own row. The threads with a creation are
those of `calls`. -/
structure Answers (calls : ι → Option Creation) (l : List (ι × Action b))
    (c' : Pool ι Op Op.Result Exn ℤ (World b)) : Prop where
  own : ∀ i q n, calls i = some q → c'.thread i = .done n →
    (∃ e ∈ view i l, ∃ name, q.Inserts e n name) ∧ ∀ e ∈ view i l, e.op ≠ .undefined
  apart : ∀ i j q q' n n', i ≠ j → calls i = some q → calls j = some q' → q.table = q'.table →
    c'.thread i = .done n → c'.thread j = .done n' → n ≠ n'
  once : ∀ i j q q' n n', i ≠ j → calls i = some q → calls j = some q' → q.table = q'.table →
    q.name = q'.name → c'.thread i = .done n → c'.thread j ≠ .done n'
  /-- A call whose insert is rejected adds no row. -/
  rejected : ∀ i q, calls i = some q → ∀ e ∈ view i l, e.op.target ≠ none →
    e.result.isOk = false → ∀ f ∈ view i l, ∀ T, f.after.db.rows T = f.before.db.rows T

theorem Creation.Inserts.ne {q q' : Creation} {e e' : Action b} {n n' : ℤ} {name name' : String}
    (h : q.Inserts e n name) (h' : q'.Inserts e' n' name') (htable : q.table = q'.table)
    (hgrows : e.after.Grows e'.before) : n ≠ n' ∧ name ≠ name' := by
  have hmem : (n, name) ∈ e'.before.entries q'.table := by
    rw [← htable]
    refine (hgrows.entries q.table).subset ?_
    rw [h.entries]
    simp
  constructor
  · rintro rfl
    have hnodup := e'.after.nodup_keys q'.table
    rw [h'.entries, List.map_append, List.nodup_append] at hnodup
    exact hnodup.2.2 n (List.mem_map.mpr ⟨_, hmem, rfl⟩) n (by simp) rfl
  · rintro rfl
    exact h'.fresh (List.mem_map.mpr ⟨_, hmem, rfl⟩)

/-- **Every creation answers with its own row**, if every creation that has returned keeps its name:
among any other programs, from any state, and whatever becomes of the statements. -/
theorem answers_of_kept {calls : ι → Option Creation}
    (hcalls : ∀ i q, calls i = some q → c.thread i = q.call)
    (hkept : ∀ i q n, calls i = some q → c'.thread i = .done n → q.Kept b)
    (h : Pool.Steps Op.Step c l c') : Answers calls l c' := by
  have hstep : ∀ i, ∀ e ∈ view i l, Op.Step e.op e.before e.result e.after :=
    fun i e he ↦ h.sem_of_view he
  have hgrows : ∀ i, (view i l).Pairwise fun e f ↦ e.after.Grows f.before :=
    fun i ↦ h.pairwise_view (fun _ _ hs ↦ hs.grows) i
  have hcall : ∀ i q n, calls i = some q → c'.thread i = .done n →
      ∃ e ∈ view i l, ∃ m name, q.Inserts e m name ∧
        (q.Kept b → n = m ∧ ∀ f ∈ view i l, f.op ≠ .undefined) := by
    intro i q n hq hdone
    have htr := h.view_trace i
    rw [hcalls i q hq, hdone] at htr
    exact Creation.inserts_of_call (hstep i) (hgrows i) htr
  -- of two inserts, one is over before the other begins
  have hordered : ∀ {i j e e'}, i ≠ j → e ∈ view i l → e' ∈ view j l →
      e.after.Grows e'.before ∨ e'.after.Grows e.before :=
    fun hij he he' ↦ h.ordered (fun _ _ _ _ hs ↦ hs.grows) hij he he'
  refine ⟨fun i q n hq hdone ↦ ?_, fun i j q q' n n' hij hq hq' htable hdone hdone' ↦ ?_,
    fun i j q q' n n' hij hq hq' htable hname hdone hdone' ↦ ?_,
    fun i q hq e he htarget hrejected ↦ ?_⟩
  · obtain ⟨e, he, m, name, hinserts, hown⟩ := hcall i q n hq hdone
    obtain ⟨rfl, hdefined⟩ := hown (hkept i q n hq hdone)
    exact ⟨⟨e, he, name, hinserts⟩, hdefined⟩
  · obtain ⟨e, he, m, name, hinserts, hown⟩ := hcall i q n hq hdone
    obtain ⟨e', he', m', name', hinserts', hown'⟩ := hcall j q' n' hq' hdone'
    rw [(hown (hkept i q n hq hdone)).1, (hown' (hkept j q' n' hq' hdone')).1]
    rcases hordered hij he he' with hle | hle
    · exact (hinserts.ne hinserts' htable hle).1
    · exact (hinserts'.ne hinserts htable.symm hle).1.symm
  · obtain ⟨e, he, m, name, hinserts, _⟩ := hcall i q n hq hdone
    obtain ⟨e', he', m', name', hinserts', _⟩ := hcall j q' n' hq' hdone'
    have hsame : name = name' := by
      have hwidth : q.width = q'.width := Creation.width_eq_of_table htable
      have hstored := hinserts.stored
      rw [hwidth, hname, hinserts'.stored, Except.ok.injEq] at hstored
      exact hstored.symm
    rcases hordered hij he he' with hle | hle
    · exact (hinserts.ne hinserts' htable hle).2 hsame
    · exact (hinserts'.ne hinserts htable.symm hle).2 hsame.symm
  · have htr := h.view_trace i
    rw [hcalls i q hq] at htr
    exact Creation.rows_of_rejected (hstep i) htr he htarget hrejected

/-! ## Names that are cut -/

/-- Two calls for one name, and one whose name would be cut. It asks for a channel in a community
that there is not, and is refused. -/
private def racing : Fin 3 → Creation
  | 0 => .user "ann" "a" false
  | 1 => .user "ann" "b" false
  | 2 => .channel (String.ofList (List.replicate 100 'x' ++ [' '])) 1 1 true

private def raced : List (Fin 3 × Action .postgres) × Pool (Fin 3) Op Op.Result Exn ℤ
    (World .postgres) :=
  Pool.replay Op.exec ⟨World.start .postgres 0, fun i ↦ (racing i).call⟩ [0, 1, 0, 1, 2, 0, 1, 2, 0]

private theorem raced_refused : (raced.2.thread 2).outcome.bind Except.toOption = none := by decide

theorem answers_of_kept_raced : Answers (fun i ↦ some (racing i)) raced.1 raced.2 := by
  refine answers_of_kept (fun i q hq ↦ ?_) (fun i q n hq hdone name hstored ↦ ?_)
    (Pool.replay_sound Op.step_exec _ _)
  · rw [← Option.some.inj hq]
  · have hann : varchar .postgres 50 "ann" = .ok "ann" := by decide
    obtain rfl := Option.some.inj hq
    match i with
    | 0 => exact (Except.ok.inj (hann.symm.trans hstored)).symm
    | 1 => exact (Except.ok.inj (hann.symm.trans hstored)).symm
    | 2 =>
      have hrefused := raced_refused
      rw [hdone] at hrefused
      cases hrefused

/-- A user whose name has 50 letters and a blank. -/
private def padded (i : Bool) : Creation :=
  .user (String.ofList (List.replicate 50 (if i then 'x' else 'y') ++ [' '])) "pw" false

private def paddedNames : Pool Bool Op Op.Result Exn ℤ (World .postgres) :=
  ⟨World.start .postgres 0, fun i ↦ (padded i).call⟩

/-- Two users whose names are cut are both answered with `0`. -/
theorem exists_strangeAnswer :
    ¬∀ (calls : Bool → Creation) (c c' : Pool Bool Op Op.Result Exn ℤ (World .postgres))
      (l : List (Bool × Action .postgres)), (∀ i, c.thread i = (calls i).call) →
        Pool.Steps Op.Step c l c' → Answers (fun i ↦ some (calls i)) l c' := by
  intro h
  have hanswers := h padded paddedNames _ _ (fun _ ↦ rfl)
    (Pool.replay_sound Op.step_exec paddedNames
    [true, true, true, true, false, false, false, false])
  exact hanswers.apart true false _ _ 0 0 (by decide) rfl rfl rfl rfl rfl rfl

end Wrongthink
