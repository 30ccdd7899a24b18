import Wrongthink.Concurrent.Program

/-!
# Two programs side by side

Two programs over the same actions are run on two states of their own, action by action. Nothing is
shared and nobody else is there; what is asked is only that the two go the same way, so that they
end alike in states that correspond. `Prog.Paired` is this judgement. It is a weakest precondition:
it says of two programs and two states that however the actions go, both programs end with values
and states in `Q`, or both raise with states in `E`.

The two semantics are parameters, and may be narrower than what the actions can do: `Run.imp` takes
a run to the narrower one when its events are known to be of that kind.
-/

namespace Concurrent

variable {Op : Type} {Res : Op → Type} {ε α α' β β' σ σ' : Type}

namespace Prog

/-- From `s` and `s'`, the two programs end together. -/
def Paired (sem : Semantics Op Res ε σ) (sem' : Semantics Op Res ε σ')
    (Q : α → σ → α' → σ' → Prop) (E : σ → σ' → Prop) :
    Prog Op Res ε α → Prog Op Res ε α' → σ → σ' → Prop
  | done a, done a', s, s' => Q a s a' s'
  | raise _, raise _, s, s' => E s s'
  | act o k, act o' k', s, s' => ∀ r t r' t', sem o s r t → sem' o' s' r' t' →
      (k r).Paired sem sem' Q E (k' r') t t'
  | _, _, _, _ => False

namespace Paired

variable {sem : Semantics Op Res ε σ} {sem' : Semantics Op Res ε σ'} {Q : α → σ → α' → σ' → Prop}
  {E : σ → σ' → Prop} {p : Prog Op Res ε α} {p' : Prog Op Res ε α'} {s : σ} {s' : σ'}

theorem mono {Q' : α → σ → α' → σ' → Prop} (h : p.Paired sem sem' Q E p' s s')
    (hQ : ∀ a t a' t', Q a t a' t' → Q' a t a' t') : p.Paired sem sem' Q' E p' s s' := by
  induction p generalizing p' s s' with
  | done a =>
    cases p' with
    | done a' => exact hQ _ _ _ _ h
    | _ => exact h.elim
  | raise e =>
    cases p' with
    | raise e' => exact h
    | _ => exact h.elim
  | act o k ih =>
    cases p' with
    | act o' k' => exact fun r t r' t' hs hs' ↦ ih r (h r t r' t' hs hs')
    | _ => exact h.elim

theorem bind {Q' : β → σ → β' → σ' → Prop} {f : α → Prog Op Res ε β} {f' : α' → Prog Op Res ε β'}
    (h : p.Paired sem sem' Q E p' s s')
    (hf : ∀ a t a' t', Q a t a' t' → (f a).Paired sem sem' Q' E (f' a') t t') :
    (p >>= f).Paired sem sem' Q' E (p' >>= f') s s' := by
  induction p generalizing p' s s' with
  | done a =>
    cases p' with
    | done a' => exact hf _ _ _ _ h
    | _ => exact h.elim
  | raise e =>
    cases p' with
    | raise e' => exact h
    | _ => exact h.elim
  | act o k ih =>
    cases p' with
    | act o' k' => exact fun r t r' t' hs hs' ↦ ih r (h r t r' t' hs hs')
    | _ => exact h.elim

theorem tryCatch {E' : σ → σ' → Prop} {f : ε → Prog Op Res ε α} {f' : ε → Prog Op Res ε α'}
    (h : p.Paired sem sem' Q E p' s s')
    (hf : ∀ e e' t t', E t t' → (f e).Paired sem sem' Q E' (f' e') t t') :
    (MonadExceptOf.tryCatch p f).Paired sem sem' Q E' (MonadExceptOf.tryCatch p' f') s s' := by
  induction p generalizing p' s s' with
  | done a =>
    cases p' with
    | done a' => exact h
    | _ => exact h.elim
  | raise e =>
    cases p' with
    | raise e' => exact hf e e' s s' h
    | _ => exact h.elim
  | act o k ih =>
    cases p' with
    | act o' k' => exact fun r t r' t' hs hs' ↦ ih r (h r t r' t' hs hs')
    | _ => exact h.elim

theorem perform_bind {o o' : Op} {f : Res o → Prog Op Res ε α} {f' : Res o' → Prog Op Res ε α'}
    (h : ∀ r t r' t', sem o s r t → sem' o' s' r' t' →
      (∃ v v', r = .ok v ∧ r' = .ok v' ∧ (f v).Paired sem sem' Q E (f' v') t t') ∨
        (∃ e e', r = .error e ∧ r' = .error e') ∧ E t t') :
    (perform o >>= f).Paired sem sem' Q E (perform o' >>= f') s s' := by
  rw [Prog.perform_bind, Prog.perform_bind]
  intro r t r' t' hs hs'
  obtain ⟨v, v', rfl, rfl, hrest⟩ | ⟨⟨e, e', rfl, rfl⟩, hE⟩ := h r t r' t' hs hs'
  · exact hrest
  · exact hE

theorem perform {o o' : Op} {Q : Res o → σ → Res o' → σ' → Prop}
    (h : ∀ r t r' t', sem o s r t → sem' o' s' r' t' →
      (∃ v v', r = .ok v ∧ r' = .ok v' ∧ Q v t v' t') ∨
        (∃ e e', r = .error e ∧ r' = .error e') ∧ E t t') :
    (Prog.perform o).Paired sem sem' Q E (Prog.perform o') s s' := by
  have hbind : (Prog.perform o >>= done).Paired sem sem' Q E (Prog.perform o' >>= done) s s' :=
    perform_bind h
  rw [Prog.perform_bind, Prog.perform_bind] at hbind
  exact hbind

/-- A program beside itself, where its actions keep the states alike and so answer the same. -/
theorem self {sem : Semantics Op Res ε σ} {P : Op → Prop} {L : σ → σ → Prop}
    (hL : ∀ o, P o → ∀ s s' r r' t t', L s s' → sem o s r t → sem o s' r' t' → r' = r ∧ L t t')
    {p : Prog Op Res ε α} (hp : p.Only P) {s s' : σ} (hs : L s s') :
    p.Paired sem sem (fun a t a' t' ↦ a' = a ∧ L t t') L p s s' := by
  induction p generalizing s s' with
  | done a => exact ⟨rfl, hs⟩
  | raise e => exact hs
  | act o k ih =>
    intro r t r' t' ht ht'
    obtain ⟨rfl, hL'⟩ := hL o hp.1 s s' r r' t t' hs ht ht'
    exact ih _ (hp.2 _) hL'

/-- **Two runs.** Programs that are paired and have ended have ended alike. -/
theorem ended {x : Except ε α} {x' : Except ε α'} {q : Prog Op Res ε α} {q' : Prog Op Res ε α'}
    {t : σ} {t' : σ'} {tr : List (Event Op Res ε σ)} {tr' : List (Event Op Res ε σ')}
    (h : p.Paired sem sem' Q E p' s s') (htr : p.Trace tr q) (htr' : p'.Trace tr' q')
    (hq : q.outcome = some x) (hq' : q'.outcome = some x') (hrun : Run sem s tr t)
    (hrun' : Run sem' s' tr' t') :
    (∃ a a', x = .ok a ∧ x' = .ok a' ∧ Q a t a' t') ∨
      (∃ e e', x = .error e ∧ x' = .error e') ∧ E t t' := by
  induction p generalizing p' s s' tr tr' with
  | done a =>
    obtain ⟨rfl, rfl⟩ := trace_done_iff.mp htr
    cases p' with
    | done a' =>
      obtain ⟨rfl, rfl⟩ := trace_done_iff.mp htr'
      rw [run_nil_iff.mp hrun, run_nil_iff.mp hrun']
      exact .inl ⟨a, a', (Option.some.inj hq).symm, (Option.some.inj hq').symm, h⟩
    | _ => exact h.elim
  | raise e =>
    obtain ⟨rfl, rfl⟩ := trace_raise_iff.mp htr
    cases p' with
    | raise e' =>
      obtain ⟨rfl, rfl⟩ := trace_raise_iff.mp htr'
      rw [run_nil_iff.mp hrun, run_nil_iff.mp hrun']
      exact .inr ⟨⟨e, e', (Option.some.inj hq).symm, (Option.some.inj hq').symm⟩, h⟩
    | _ => exact h.elim
  | act o k ih =>
    cases p' with
    | act o' k' =>
      obtain ⟨rfl, rfl⟩ | ⟨w, r, w₁, tr, rfl, hk⟩ := trace_act_iff.mp htr
      · cases hq
      obtain ⟨rfl, rfl⟩ | ⟨w', r', w₁', tr', rfl, hk'⟩ := trace_act_iff.mp htr'
      · cases hq'
      -- after a step of each, what is left is paired
      obtain ⟨rfl, hs, hrun⟩ := run_cons_iff.mp hrun
      obtain ⟨rfl, hs', hrun'⟩ := run_cons_iff.mp hrun'
      exact ih r (h r w₁ r' w₁' hs hs') hk hk' hrun hrun'
    | _ => exact h.elim

theorem run {a : α} {a' : α'} {t : σ} {t' : σ'} {tr : List (Event Op Res ε σ)}
    {tr' : List (Event Op Res ε σ')} (h : p.Paired sem sem' Q E p' s s')
    (htr : p.Trace tr (done a)) (htr' : p'.Trace tr' (done a')) (hrun : Run sem s tr t)
    (hrun' : Run sem' s' tr' t') : Q a t a' t' := by
  rcases h.ended htr htr' rfl rfl hrun hrun' with ⟨_, _, ha, ha', hQ⟩ | ⟨⟨_, _, he, _⟩, _⟩
  · rw [Except.ok.inj ha, Except.ok.inj ha']
    exact hQ
  · cases he

end Paired

end Prog

theorem Run.imp {sem sem₂ : Semantics Op Res ε σ} {s s' : σ} {tr : List (Event Op Res ε σ)}
    (h : Run sem s tr s')
    (htr : ∀ e ∈ tr, sem e.op e.before e.result e.after → sem₂ e.op e.before e.result e.after) :
    Run sem₂ s tr s' := by
  induction h with
  | nil s => exact .nil s
  | cons e hs _ ih =>
    obtain ⟨he, htr⟩ := List.forall_mem_cons.mp htr
    exact .cons e (he hs) (ih htr)

end Concurrent
