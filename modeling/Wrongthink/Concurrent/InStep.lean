import Wrongthink.Concurrent.Pool

/-!
# Programs in step

Two programs are in step when they perform corresponding actions for as long as their answers
correspond, and end alike (`Prog.InStep`). Nothing is said of states here; which answers correspond
is part of the `Correspondence`.

Two pools whose threads are in step, pair by pair, can go through corresponding steps when the
actions respect a relation between the states (`Unwinds`). Threads whose actions do not show in that
relation may be left out: what they do in one pool need not be done in the other. So whatever the
visible threads of the one pool have seen, those of the other may see as well (`Pool.InStep.steps`).
-/

namespace Concurrent

open Function

variable {ι Op : Type} {Res : Op → Type} {ε α α' β β' σ : Type}

/-- Which actions correspond, and which values that they answer with. -/
structure Correspondence (Op : Type) (Res : Op → Type) where
  ops : Op → Op → Prop
  values : (o o' : Op) → Res o → Res o' → Prop

/-- Corresponding values, or the same exception. -/
inductive SameAnswer {ρ ρ' : Type} (R : ρ → ρ' → Prop) : Except ε ρ → Except ε ρ' → Prop where
  | ok {v v'} (h : R v v') : SameAnswer R (.ok v) (.ok v')
  | error (e) : SameAnswer R (.error e) (.error e)

namespace SameAnswer

variable {ρ ρ' : Type} {R : ρ → ρ' → Prop} {x : Except ε ρ} {x' : Except ε ρ'}

theorem refl {R : ρ → ρ → Prop} (hR : ∀ v, R v v) (x : Except ε ρ) : SameAnswer R x x := by
  cases x with
  | ok v => exact .ok (hR v)
  | error e => exact .error e

theorem bind {S : β → β' → Prop} {f : ρ → Except ε β} {f' : ρ' → Except ε β'}
    (h : SameAnswer R x x') (hf : ∀ v v', R v v' → SameAnswer S (f v) (f' v')) :
    SameAnswer S (x >>= f) (x' >>= f') := by
  cases h with
  | ok hv => exact hf _ _ hv
  | error e => exact .error e

end SameAnswer

namespace Prog

/-- The two programs perform corresponding actions and end alike. -/
def InStep (C : Correspondence Op Res) (Q : α → α' → Prop) :
    Prog Op Res ε α → Prog Op Res ε α' → Prop
  | done a, done a' => Q a a'
  | raise e, raise e' => e = e'
  | act o k, act o' k' => C.ops o o' ∧
      ∀ r r', SameAnswer (C.values o o') r r' → (k r).InStep C Q (k' r')
  | _, _ => False

namespace InStep

variable {C : Correspondence Op Res} {Q : α → α' → Prop} {p : Prog Op Res ε α}
  {p' : Prog Op Res ε α'}

theorem bind {Q' : β → β' → Prop} {f : α → Prog Op Res ε β} {f' : α' → Prog Op Res ε β'}
    (h : p.InStep C Q p') (hf : ∀ a a', Q a a' → (f a).InStep C Q' (f' a')) :
    (p >>= f).InStep C Q' (p' >>= f') := by
  induction p generalizing p' with
  | done a =>
    cases p' with
    | done a' => exact hf a a' h
    | _ => exact h.elim
  | raise e =>
    cases p' with
    | raise e' => exact h
    | _ => exact h.elim
  | act o k ih =>
    cases p' with
    | act o' k' => exact ⟨h.1, fun r r' hr ↦ ih r (h.2 r r' hr)⟩
    | _ => exact h.elim

theorem tryCatch {f : ε → Prog Op Res ε α} {f' : ε → Prog Op Res ε α'} (h : p.InStep C Q p')
    (hf : ∀ e, (f e).InStep C Q (f' e)) :
    (MonadExceptOf.tryCatch p f).InStep C Q (MonadExceptOf.tryCatch p' f') := by
  induction p generalizing p' with
  | done a =>
    cases p' with
    | done a' => exact h
    | _ => exact h.elim
  | raise e =>
    cases p' with
    | raise e' =>
      obtain rfl : e = e' := h
      exact hf e
    | _ => exact h.elim
  | act o k ih =>
    cases p' with
    | act o' k' => exact ⟨h.1, fun r r' hr ↦ ih r (h.2 r r' hr)⟩
    | _ => exact h.elim

theorem perform_bind {o o' : Op} {f : Res o → Prog Op Res ε α} {f' : Res o' → Prog Op Res ε α'}
    (ho : C.ops o o') (hf : ∀ v v', C.values o o' v v' → (f v).InStep C Q (f' v')) :
    (perform o >>= f).InStep C Q (perform o' >>= f') := by
  rw [Prog.perform_bind, Prog.perform_bind]
  refine ⟨ho, fun r r' hr ↦ ?_⟩
  cases hr with
  | ok hv => exact hf _ _ hv
  | error e => rfl

/-- A program is in step with itself, if its actions answer alike only by answering the same. -/
theorem of_only {P : Op → Prop} (hP : ∀ o, P o → C.ops o o ∧ ∀ v v', C.values o o v v' → v = v')
    (hp : p.Only P) : p.InStep C Eq p := by
  induction p with
  | done a => rfl
  | raise e => rfl
  | act o k ih =>
    refine ⟨(hP o hp.1).1, fun r r' hr ↦ ?_⟩
    cases hr with
    | ok hv =>
      rw [(hP o hp.1).2 _ _ hv]
      exact ih _ (hp.2 _)
    | error e => exact ih _ (hp.2 _)

theorem of_done {a : α} (h : (done a : Prog Op Res ε α).InStep C Q p') :
    ∃ a', p' = done a' ∧ Q a a' := by
  cases p' with
  | done a' => exact ⟨a', rfl, h⟩
  | _ => exact h.elim

theorem of_act {o : Op} {k : Except ε (Res o) → Prog Op Res ε α} (h : (act o k).InStep C Q p') :
    ∃ o' k', p' = act o' k' ∧ C.ops o o' ∧
      ∀ r r', SameAnswer (C.values o o') r r' → (k r).InStep C Q (k' r') := by
  cases p' with
  | act o' k' => exact ⟨o', k', rfl, h⟩
  | _ => exact h.elim

end InStep

end Prog

/-! ## Two pools -/

/-- Corresponding steps of the same thread. -/
def SameStep (C : Correspondence Op Res) (x y : ι × Event Op Res ε σ) : Prop :=
  y.1 = x.1 ∧ C.ops x.2.op y.2.op ∧ SameAnswer (C.values x.2.op y.2.op) x.2.result y.2.result

/-- The actions respect the relation `L`: a step on one side has one that corresponds on the other,
and the actions in `H` do not show. -/
structure Unwinds (sem : Semantics Op Res ε σ) (C : Correspondence Op Res) (H : Op → Prop)
    (L : σ → σ → Prop) : Prop where
  step : ∀ {o o' s s' r t}, C.ops o o' → L s s' → sem o s r t →
    ∃ r' t', sem o' s' r' t' ∧ SameAnswer (C.values o o') r r' ∧ L t t'
  hidden : ∀ {o s s' r t}, H o → L s s' → sem o s r t → L t s'

variable [DecidableEq ι] {sem : Semantics Op Res ε σ} {C : Correspondence Op Res} {H : Op → Prop}
  {L : σ → σ → Prop} {visible : ι → Bool} {Q : ι → α → α → Prop}
  {c c' d : Pool ι Op Res ε α σ} {l : List (ι × Event Op Res ε σ)}

/-- What holds between two pools whose visible threads are in step. -/
structure Pool.InStep (C : Correspondence Op Res) (H : Op → Prop) (L : σ → σ → Prop)
    (visible : ι → Bool) (Q : ι → α → α → Prop) (c d : Pool ι Op Res ε α σ) : Prop where
  state : L c.state d.state
  inStep : ∀ i, visible i → (c.thread i).InStep C (Q i) (d.thread i)
  hidden : ∀ i, visible i = false → (c.thread i).Only H

namespace Pool.InStep

theorem step (hL : Unwinds sem C H L) (h : InStep C H L visible Q c d) {i : ι} {o : Op}
    {k : Except ε (Res o) → Prog Op Res ε α} {r : Except ε (Res o)} {s' : σ}
    (hk : c.thread i = .act o k) (hs : sem o c.state r s') :
    ∃ m d', Steps sem d m d' ∧
      List.Forall₂ (SameStep C) ([(i, ⟨c.state, o, r, s'⟩)].filter fun x ↦ visible x.1) m ∧
      InStep C H L visible Q ⟨s', update c.thread i (k r)⟩ d' := by
  cases hi : visible i with
  | false =>
    -- the other pool waits
    have honly := h.hidden i hi
    rw [hk] at honly
    refine ⟨[], d, .nil d, by simp [hi], hL.hidden honly.1 h.state hs, fun j hj ↦ ?_, fun j hj ↦ ?_⟩
    · have hji : j ≠ i := by
        rintro rfl
        rw [hi] at hj
        cases hj
      dsimp only
      rw [update_of_ne hji]
      exact h.inStep j hj
    · dsimp only
      by_cases hji : j = i
      · subst hji
        rw [update_self]
        exact honly.2 r
      · rw [update_of_ne hji]
        exact h.hidden j hj
  | true =>
    have hstep := h.inStep i hi
    rw [hk] at hstep
    obtain ⟨o', k', hk', ho, hrest⟩ := hstep.of_act
    obtain ⟨r', t', hs', hr, hstate⟩ := hL.step ho h.state hs
    refine ⟨_, _, (Steps.nil d).snoc hk' hs', ?_, hstate, fun j hj ↦ ?_, fun j hj ↦ ?_⟩
    · simp [hi, SameStep, ho, hr]
    · dsimp only
      by_cases hji : j = i
      · subst hji
        rw [update_self, update_self]
        exact hrest r r' hr
      · rw [update_of_ne hji, update_of_ne hji]
        exact h.inStep j hj
    · have hji : j ≠ i := by
        rintro rfl
        rw [hi] at hj
        cases hj
      dsimp only
      rw [update_of_ne hji]
      exact h.hidden j hj

/-- **What the visible threads see, they may see without the hidden ones.** -/
theorem steps (hL : Unwinds sem C H L) (h : InStep C H L visible Q c d)
    (hsteps : Steps sem c l c') :
    ∃ m d', Steps sem d m d' ∧ List.Forall₂ (SameStep C) (l.filter fun x ↦ visible x.1) m ∧
      InStep C H L visible Q c' d' := by
  induction hsteps with
  | nil => exact ⟨[], d, .nil d, .nil, h⟩
  | snoc _ hk hs ih =>
    obtain ⟨m, d', hsteps, hsame, hstep⟩ := ih
    obtain ⟨m₂, d'', hsteps₂, hsame₂, hstep₂⟩ := hstep.step hL hk hs
    refine ⟨m ++ m₂, d'', hsteps.append hsteps₂, ?_, hstep₂⟩
    rw [List.filter_append]
    exact List.rel_append hsame hsame₂

end Pool.InStep

end Concurrent
