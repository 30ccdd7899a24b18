import Mathlib.Data.List.Pairwise
import Mathlib.Logic.Function.Basic
import Wrongthink.Concurrent.Program
import Wrongthink.Concurrent.View

/-!
# Interleavings, and reasoning about them one thread at a time

A pool is a shared state and a program for each thread. A step picks a thread that is about to act,
lets the state answer, and replaces the thread by its continuation; the threads may be infinitely
many, since only finitely many of them have moved after finitely many steps.

## Two ways to reason

*By traces.* The events of one thread are a trace of its program, and all the events together are
a run (`Pool.Steps.view_trace`, `Pool.Steps.run`). This is what one uses for a statement about the
order of events.

*By rely and guarantee.* Fix a preorder `R` on states that every step of every thread respects.
Then a thread may rely on it: whatever it has learned about the state is still true later if `R`
preserves it. `Prog.Safe` is the judgement "run among others that respect `R`, the program respects
`G` at each of its own steps", and `Pool.Steps.safe` puts the threads together. This is what one
uses for an invariant that depends on what each thread has already read.
-/

namespace Concurrent

open Function

variable {ι Op : Type} {Res : Op → Type} {ε α β σ : Type}

/-- A shared state and the programs that are running over it. -/
structure Pool (ι Op : Type) (Res : Op → Type) (ε α σ : Type) where
  state : σ
  thread : ι → Prog Op Res ε α

namespace Pool

variable [DecidableEq ι]

/-- Any number of steps, each by any thread that is about to act. -/
inductive Steps (sem : Semantics Op Res ε σ) : Pool ι Op Res ε α σ →
    List (ι × Event Op Res ε σ) → Pool ι Op Res ε α σ → Prop where
  | nil (c) : Steps sem c [] c
  | snoc {c c' : Pool ι Op Res ε α σ} {l} {i : ι} {o : Op} {k r s'} :
      Steps sem c l c' → c'.thread i = .act o k → sem o c'.state r s' →
      Steps sem c (l ++ [(i, ⟨c'.state, o, r, s'⟩)]) ⟨s', update c'.thread i (k r)⟩

variable {sem : Semantics Op Res ε σ} {c c' c'' : Pool ι Op Res ε α σ}
  {l l' : List (ι × Event Op Res ε σ)}

theorem Steps.append (h : Steps sem c l c') (h' : Steps sem c' l' c'') :
    Steps sem c (l ++ l') c'' := by
  induction h' with
  | nil => simpa using h
  | snoc _ hk hs ih =>
    rw [← List.append_assoc]
    exact ih.snoc hk hs

theorem Steps.mono {sem' : Semantics Op Res ε σ} (h : Steps sem c l c')
    (hsem : ∀ x ∈ l, sem x.2.op x.2.before x.2.result x.2.after →
      sem' x.2.op x.2.before x.2.result x.2.after) : Steps sem' c l c' := by
  induction h with
  | nil => exact .nil _
  | snoc _ hk hs ih =>
    obtain ⟨hsem, hlast⟩ := List.forall_mem_append.mp hsem
    exact (ih hsem).snoc hk (hlast _ (List.mem_singleton.mpr rfl) hs)

/-! ## The two projections -/

theorem Steps.run (h : Steps sem c l c') : Run sem c.state (l.map Prod.snd) c'.state := by
  induction h with
  | nil => exact .nil _
  | snoc _ _ hs ih =>
    rw [List.map_append, List.map_singleton]
    exact ih.append (.cons ⟨_, _, _, _⟩ hs (.nil _))

theorem Steps.view_trace (h : Steps sem c l c') (i : ι) :
    Prog.Trace (c.thread i) (view i l) (c'.thread i) := by
  induction h with
  | nil => exact .nil _
  | @snoc c' l j o k r s' _ hk _ ih =>
    rw [view_append]
    dsimp only
    by_cases hij : j = i
    · subst hij
      rw [view_cons_self, view_nil, update_self]
      exact ih.snoc ⟨c'.state, o, r, s'⟩ hk
    · rw [view_cons_of_ne hij, view_nil, List.append_nil, update_of_ne (Ne.symm hij)]
      exact ih

theorem Steps.thread_eq (h : Steps sem c l c') {i : ι} (hview : view i l = []) :
    c'.thread i = c.thread i := by
  have htrace := h.view_trace i
  rw [hview] at htrace
  exact htrace.eq_of_nil

theorem Steps.of_trace {p p' : Prog Op Res ε α} {tr : List (Event Op Res ε σ)} {s s' : σ}
    (htr : p.Trace tr p') (hrun : Run sem s tr s') :
    Steps sem ⟨s, fun _ : Unit ↦ p⟩ (tr.map fun e ↦ ((), e)) ⟨s', fun _ ↦ p'⟩ := by
  induction htr generalizing s with
  | nil p =>
    rw [run_nil_iff.mp hrun]
    exact .nil _
  | @cons e k tr p' _ ih =>
    obtain ⟨rfl, hs, hrun⟩ := run_cons_iff.mp hrun
    have hfirst := (Steps.nil ⟨e.before, fun _ : Unit ↦ Prog.act e.op k⟩).snoc (i := ()) rfl hs
    have hthread :
        update (fun _ : Unit ↦ Prog.act e.op k) () (k e.result) = fun _ ↦ k e.result := by
      funext i
      rw [update_self]
    rw [hthread] at hfirst
    exact hfirst.append (ih hrun)

theorem Steps.sem_of_mem (h : Steps sem c l c') {x : ι × Event Op Res ε σ} (hx : x ∈ l) :
    sem x.2.op x.2.before x.2.result x.2.after :=
  h.run.sem_of_mem (List.mem_map_of_mem hx)

theorem Steps.sem_of_view (h : Steps sem c l c') {i : ι} {e : Event Op Res ε σ}
    (he : e ∈ view i l) : sem e.op e.before e.result e.after :=
  h.sem_of_mem (mem_view.mp he)

/-- Of two steps of a thread, the one that comes later starts above where the other has ended. -/
theorem Steps.pairwise_view {R : σ → σ → Prop} [IsPreorder σ R]
    (hR : ∀ e ∈ l.map Prod.snd, sem e.op e.before e.result e.after → R e.before e.after)
    (h : Steps sem c l c') (i : ι) : (view i l).Pairwise fun e f ↦ R e.after f.before :=
  (h.run.pairwise hR).sublist (view_sublist i l)

theorem Steps.stretch (h : Steps sem c l c') {x : ι × Event Op Res ε σ}
    {l₁ m l₂ : List (ι × Event Op Res ε σ)} (hl : l = l₁ ++ (x :: m) ++ l₂) :
    Run sem x.2.before ((x :: m).map Prod.snd)
      ((x :: m).getLast (List.cons_ne_nil x m)).2.after := by
  have hrun := h.run
  rw [hl, List.map_append, List.map_append, List.map_cons] at hrun
  have hlast : ((x :: m).map Prod.snd).getLast (List.cons_ne_nil _ _) =
      ((x :: m).getLast (List.cons_ne_nil x m)).2 := List.getLast_map _
  rw [← hlast]
  exact hrun.stretch

theorem Steps.upTo (h : Steps sem c l c') {x : ι × Event Op Res ε σ}
    {l₁ l₂ : List (ι × Event Op Res ε σ)} (hl : l = l₁ ++ x :: l₂) :
    Run sem c.state (l₁.map Prod.snd) x.2.before := by
  have hrun := h.run
  rw [hl, List.map_append, List.map_cons, run_append_iff] at hrun
  obtain ⟨s₁, hrun, hrest⟩ := hrun
  rw [(run_cons_iff.mp hrest).1]
  exact hrun

theorem Steps.rest (h : Steps sem c l c') {x : ι × Event Op Res ε σ}
    {l₁ l₂ : List (ι × Event Op Res ε σ)} (hl : l = l₁ ++ x :: l₂) :
    Run sem x.2.after (l₂.map Prod.snd) c'.state := by
  have hrun := h.run
  rw [hl, List.map_append, List.map_cons, run_append_iff] at hrun
  obtain ⟨s₁, _, hrun⟩ := hrun
  exact (run_cons_iff.mp hrun).2.2

theorem Steps.between (h : Steps sem c l c') {x y : ι × Event Op Res ε σ}
    {l₀ m l₂ : List (ι × Event Op Res ε σ)} (hl : l = l₀ ++ x :: (m ++ y :: l₂)) :
    Run sem x.2.before (x.2 :: m.map Prod.snd) y.2.before := by
  have hrun := h.run
  rw [hl, List.map_append, List.map_cons, List.map_append, List.map_cons, run_append_iff] at hrun
  obtain ⟨s₁, _, hrun⟩ := hrun
  rw [← List.cons_append, run_append_iff] at hrun
  obtain ⟨s₂, hbetween, hrest⟩ := hrun
  obtain ⟨hs₁, _⟩ := run_cons_iff.mp hbetween
  obtain ⟨hs₂, _⟩ := run_cons_iff.mp hrest
  rw [← hs₁, ← hs₂] at hbetween
  exact hbetween

theorem Steps.ordered {R : σ → σ → Prop} [IsPreorder σ R] (hR : ∀ o s r s', sem o s r s' → R s s')
    (h : Steps sem c l c') {i j : ι} {e f : Event Op Res ε σ} (hij : i ≠ j) (he : e ∈ view i l)
    (hf : f ∈ view j l) : R e.after f.before ∨ R f.after e.before := by
  have hpairwise := h.run.pairwise fun e _ hs ↦ hR e.op _ _ _ hs
  rw [List.pairwise_map] at hpairwise
  let follows (x y : ι × Event Op Res ε σ) : Prop :=
    R x.2.after y.2.before ∨ R y.2.after x.2.before
  have : Std.Symm follows := ⟨fun _ _ ↦ Or.symm⟩
  have hfollows : l.Pairwise follows := hpairwise.imp Or.inl
  exact hfollows.forall (mem_view.mp he) (mem_view.mp hf) fun heq ↦ hij (Prod.mk.inj heq).1

/-! ## Replaying a schedule -/

/-- Let the threads of a schedule step in turn, for actions that are functions. A thread that has
nothing to do passes. -/
def replay (f : (o : Op) → σ → Except ε (Res o) × σ) : Pool ι Op Res ε α σ → List ι →
    List (ι × Event Op Res ε σ) × Pool ι Op Res ε α σ
  | c, [] => ([], c)
  | c, i :: is =>
    match c.thread i with
    | .act o k =>
      let (r, s') := f o c.state
      let (l, c') := replay f ⟨s', update c.thread i (k r)⟩ is
      ((i, ⟨c.state, o, r, s'⟩) :: l, c')
    | _ => replay f c is

theorem replay_sound {f : (o : Op) → σ → Except ε (Res o) × σ}
    (hf : ∀ o s, sem o s (f o s).1 (f o s).2) (c : Pool ι Op Res ε α σ) (is : List ι) :
    Steps sem c (replay f c is).1 (replay f c is).2 := by
  induction is generalizing c with
  | nil => exact .nil c
  | cons i is ih =>
    rw [replay]
    split
    · rename_i o k hk
      exact ((Steps.nil c).snoc hk (hf o c.state)).append (ih _)
    · exact ih c

end Pool

/-! ## Rely and guarantee -/

/-- Run among threads that respect `R`, the program respects `G` at each of its own steps, ends in
a state that satisfies `Q`, and fails only in one that satisfies `E`. -/
def Prog.Safe (sem : Semantics Op Res ε σ) (R : σ → σ → Prop) (G : Semantics Op Res ε σ)
    (Q : α → σ → Prop) (E : ε → σ → Prop) : Prog Op Res ε α → σ → Prop
  | .done a, s => ∀ s', R s s' → Q a s'
  | .raise e, s => ∀ s', R s s' → E e s'
  | .act o k, s => ∀ s', R s s' → ∀ r s'', sem o s' r s'' →
      G o s' r s'' ∧ (k r).Safe sem R G Q E s''

section Safe

variable {sem : Semantics Op Res ε σ} {R : σ → σ → Prop} {G : Semantics Op Res ε σ}
  {Q : α → σ → Prop} {E E' : ε → σ → Prop}

namespace Prog

/-- The judgement outlives what the others do. -/
theorem Safe.stable [IsPreorder σ R] {p : Prog Op Res ε α} {s s' : σ}
    (h : p.Safe sem R G Q E s) (hs : R s s') : p.Safe sem R G Q E s' := by
  cases p with
  | done a => exact fun s'' hs' ↦ h s'' (trans_of R hs hs')
  | raise e => exact fun s'' hs' ↦ h s'' (trans_of R hs hs')
  | act o k => exact fun s'' hs' ↦ h s'' (trans_of R hs hs')

theorem Safe.mono {G' : Semantics Op Res ε σ} {p : Prog Op Res ε α} {s : σ}
    (h : p.Safe sem R G Q E s) (hG : ∀ o s r s', G o s r s' → G' o s r s') :
    p.Safe sem R G' Q E s := by
  induction p generalizing s with
  | done a => exact h
  | raise e => exact h
  | act o k ih =>
    intro s' hs r s'' hsem
    obtain ⟨hGo, hk⟩ := h s' hs r s'' hsem
    exact ⟨hG o s' r s'' hGo, ih r hk⟩

theorem Safe.bind [IsPreorder σ R] {p : Prog Op Res ε α} {f : α → Prog Op Res ε β}
    {Q' : β → σ → Prop} {s : σ} (h : p.Safe sem R G Q E s)
    (hf : ∀ a s', Q a s' → (f a).Safe sem R G Q' E s') : (p >>= f).Safe sem R G Q' E s := by
  induction p generalizing s with
  | done a => exact hf a s (h s (refl_of R s))
  | raise e => exact h
  | act o k ih =>
    intro s' hs r s'' hsem
    obtain ⟨hG, hk⟩ := h s' hs r s'' hsem
    exact ⟨hG, ih r hk⟩

theorem Safe.tryCatch [IsPreorder σ R] {p : Prog Op Res ε α} {f : ε → Prog Op Res ε α} {s : σ}
    (h : p.Safe sem R G Q E s) (hf : ∀ e s', E e s' → (f e).Safe sem R G Q E' s') :
    (MonadExceptOf.tryCatch p f).Safe sem R G Q E' s := by
  induction p generalizing s with
  | done a => exact h
  | raise e => exact hf e s (h s (refl_of R s))
  | act o k ih =>
    intro s' hs r s'' hsem
    obtain ⟨hG, hk⟩ := h s' hs r s'' hsem
    exact ⟨hG, ih r hk⟩

/-- An action, and then the rest: what the action guarantees, and how things go on after each
kind of answer. -/
theorem Safe.perform_bind {o : Op} {f : Res o → Prog Op Res ε α} {s : σ}
    (hG : ∀ s', R s s' → ∀ r s'', sem o s' r s'' → G o s' r s'')
    (hok : ∀ s', R s s' → ∀ v s'', sem o s' (.ok v) s'' → (f v).Safe sem R G Q E s'')
    (herror : ∀ s', R s s' → ∀ e s'', sem o s' (.error e) s'' → ∀ t, R s'' t → E e t) :
    (perform o >>= f).Safe sem R G Q E s := by
  rw [Prog.perform_bind]
  intro s' hs r s'' hsem
  refine ⟨hG s' hs r s'' hsem, ?_⟩
  cases r with
  | ok v => exact hok s' hs v s'' hsem
  | error e => exact herror s' hs e s'' hsem

theorem Safe.perform {o : Op} {s : σ} {Q : Res o → σ → Prop}
    (hG : ∀ s', R s s' → ∀ r s'', sem o s' r s'' → G o s' r s'')
    (hok : ∀ s', R s s' → ∀ v s'', sem o s' (.ok v) s'' → ∀ t, R s'' t → Q v t)
    (herror : ∀ s', R s s' → ∀ e s'', sem o s' (.error e) s'' → ∀ t, R s'' t → E e t) :
    (Prog.perform o : Prog Op Res ε (Res o)).Safe sem R G Q E s := by
  have h : (Prog.perform o >>= done).Safe sem R G Q E s := Safe.perform_bind hG hok herror
  rw [Prog.perform_bind] at h
  exact h

/-- A program is safe if each of its actions guarantees `G` wherever the stable `I` holds. -/
theorem Safe.of_only {P : Op → Prop} {I : σ → Prop} (hI : ∀ s s', R s s' → I s → I s')
    (hG : ∀ o s r s', P o → I s → sem o s r s' → G o s r s' ∧ R s s')
    {p : Prog Op Res ε α} (hp : p.Only P) {s : σ} (hs : I s) :
    p.Safe sem R G (fun _ _ ↦ True) (fun _ _ ↦ True) s := by
  induction p generalizing s with
  | done a => exact fun _ _ ↦ trivial
  | raise e => exact fun _ _ ↦ trivial
  | act o k ih =>
    intro s' hle r s'' hsem
    have hs' : I s' := hI s s' hle hs
    obtain ⟨hGo, hle'⟩ := hG o s' r s'' hp.1 hs' hsem
    exact ⟨hGo, ih r (hp.2 r) (hI s' s'' hle' hs')⟩

theorem Safe.run [IsPreorder σ R] {p p' : Prog Op Res ε α} {s s' : σ}
    {tr : List (Event Op Res ε σ)} (h : p.Safe sem R G Q E s) (htr : p.Trace tr p')
    (hrun : Run sem s tr s') :
    p'.Safe sem R G Q E s' ∧ ∀ e ∈ tr, G e.op e.before e.result e.after := by
  induction htr generalizing s with
  | nil =>
    rw [run_nil_iff.mp hrun]
    exact ⟨h, by simp⟩
  | cons e _ ih =>
    obtain ⟨rfl, hsem, hrun⟩ := run_cons_iff.mp hrun
    obtain ⟨hG, hk⟩ := h e.before (refl_of R _) e.result e.after hsem
    obtain ⟨hend, hlog⟩ := ih hk hrun
    exact ⟨hend, List.forall_mem_cons.mpr ⟨hG, hlog⟩⟩

end Prog

/-- **Parallel composition.** Threads that are each safe against `R`, and whose own guarantees
imply it, stay safe together; the shared state only moves along `R`, and each recorded event met
the guarantee of the thread it belongs to. -/
theorem Pool.Steps.safe [DecidableEq ι] [IsPreorder σ R] {G : ι → Semantics Op Res ε σ}
    {Q : ι → α → σ → Prop} {E : ι → ε → σ → Prop} {c c' : Pool ι Op Res ε α σ}
    {l : List (ι × Event Op Res ε σ)}
    (hc : ∀ i, (c.thread i).Safe sem R (G i) (Q i) (E i) c.state)
    (hG : ∀ i o s r s', G i o s r s' → R s s') (h : Steps sem c l c') :
    R c.state c'.state ∧ (∀ i, (c'.thread i).Safe sem R (G i) (Q i) (E i) c'.state) ∧
      ∀ x ∈ l, G x.1 x.2.op x.2.before x.2.result x.2.after := by
  induction h with
  | nil => exact ⟨refl_of R _, hc, by simp⟩
  | @snoc c' l j o k r s' _ hk hs ih =>
    obtain ⟨hle, hsafe, hlog⟩ := ih
    have hj := hsafe j
    rw [hk] at hj
    obtain ⟨hGj, hkj⟩ := hj c'.state (refl_of R _) r s' hs
    have hstep : R c'.state s' := hG j o _ r _ hGj
    refine ⟨trans_of R hle hstep, fun i ↦ ?_, ?_⟩
    · dsimp only
      by_cases hij : i = j
      · subst hij
        rw [update_self]
        exact hkj
      · rw [update_of_ne hij]
        exact (hsafe i).stable hstep
    · rw [List.forall_mem_append]
      exact ⟨hlog, by simpa using hGj⟩

/-- **One thread among any others.** Where every action respects `R`, nothing need be known about
the programs that run beside a safe one. -/
theorem Pool.Steps.safe_thread [DecidableEq ι] [IsPreorder σ R]
    (hR : ∀ o s r s', sem o s r s' → R s s') {c c' : Pool ι Op Res ε α σ}
    {l : List (ι × Event Op Res ε σ)} {i : ι} (hc : (c.thread i).Safe sem R G Q E c.state)
    (h : Steps sem c l c') : (c'.thread i).Safe sem R G Q E c'.state ∧
      ∀ e ∈ view i l, G e.op e.before e.result e.after := by
  induction h with
  | nil => exact ⟨hc, by simp⟩
  | @snoc c' l j o k r s' _ hk hs ih =>
    obtain ⟨hsafe, hlog⟩ := ih
    rw [view_append]
    dsimp only
    by_cases hij : j = i
    · subst hij
      rw [hk] at hsafe
      obtain ⟨hGo, hsafe'⟩ := hsafe c'.state (refl_of R _) r s' hs
      rw [update_self, view_cons_self, view_nil, List.forall_mem_append]
      exact ⟨hsafe', hlog, by simpa using hGo⟩
    · rw [update_of_ne (Ne.symm hij), view_cons_of_ne hij, view_nil, List.append_nil]
      exact ⟨hsafe.stable (hR o _ r s' hs), hlog⟩

end Safe

end Concurrent
