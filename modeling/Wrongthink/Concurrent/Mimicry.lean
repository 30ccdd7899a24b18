import Wrongthink.Concurrent.Pool

/-!
# Doing as others may have done

A program is mimicked by another if, whatever it does, the other one may do as well, with as many
actions of its own as it likes (`Prog.MimickedBy`). Whenever the first has performed an action, the
states have to be related by `L` again, and the two end alike. The second may wait: what the first
has done so far may be what the second would need no action for, or more.

The programs may be run among others, as long as these respect `L` too. So a pool in which each
thread is mimicked by its counterpart in another can come to nothing that the other cannot come to
(`Pool.MimickedBy.steps`). Threads that never show in `L` need no counterpart.
-/

namespace Concurrent

open Function

variable {ι Op : Type} {Res : Op → Type} {ε α β σ : Type} {sem : Semantics Op Res ε σ}
  {L : σ → σ → Prop}

namespace Prog

/-! ## What a program may come to when nobody else runs -/

/-- From `s`, by actions of its own, the program may get to `p'` and `s'`. -/
inductive Reaches (sem : Semantics Op Res ε σ) :
    Prog Op Res ε α → σ → Prog Op Res ε α → σ → Prop where
  | refl (p s) : Reaches sem p s p s
  | act {o k s r s₁ p' s'} (hs : sem o s r s₁) (h : Reaches sem (k r) s₁ p' s') :
      Reaches sem (.act o k) s p' s'

namespace Reaches

variable {p p' p'' : Prog Op Res ε α} {s s' s'' : σ}

theorem trans (h : p.Reaches sem s p' s') (h' : p'.Reaches sem s' p'' s'') :
    p.Reaches sem s p'' s'' := by
  induction h with
  | refl => exact h'
  | act hs _ ih => exact .act hs (ih h')

theorem bind (h : p.Reaches sem s p' s') (f : α → Prog Op Res ε β) :
    (p >>= f).Reaches sem s (p' >>= f) s' := by
  induction h with
  | refl => exact .refl _ _
  | act hs _ ih => exact .act hs ih

theorem tryCatch (h : p.Reaches sem s p' s') (f : ε → Prog Op Res ε α) :
    (MonadExceptOf.tryCatch p f).Reaches sem s (MonadExceptOf.tryCatch p' f) s' := by
  induction h with
  | refl => exact .refl _ _
  | act hs _ ih => exact .act hs ih

theorem perform_bind {o : Op} {f : Res o → Prog Op Res ε α} {v : Res o} (hs : sem o s (.ok v) s')
    (h : (f v).Reaches sem s' p'' s'') : (perform o >>= f).Reaches sem s p'' s'' := by
  rw [Prog.perform_bind]
  exact .act hs h

end Reaches

/-! ## Two programs -/

/-- Whatever the program does, `q` may do as well. -/
def MimickedBy (sem : Semantics Op Res ε σ) (L : σ → σ → Prop) :
    Prog Op Res ε α → Prog Op Res ε α → Prop
  | done a, q => q = done a
  | raise e, q => q = raise e
  | act o k, q => ∀ s t r s', L s t → sem o s r s' →
      ∃ q' t', q.Reaches sem t q' t' ∧ L s' t' ∧ (k r).MimickedBy sem L q'

namespace MimickedBy

variable {p q : Prog Op Res ε α}

theorem bind {f f' : α → Prog Op Res ε β} (h : p.MimickedBy sem L q)
    (hf : ∀ a, (f a).MimickedBy sem L (f' a)) : (p >>= f).MimickedBy sem L (q >>= f') := by
  induction p generalizing q with
  | done a =>
    obtain rfl : q = done a := h
    exact hf a
  | raise e =>
    obtain rfl : q = raise e := h
    rfl
  | act o k ih =>
    intro s t r s' hL hs
    obtain ⟨q', t', hq, hL', hk⟩ := h s t r s' hL hs
    exact ⟨_, t', hq.bind f', hL', ih r hk⟩

theorem tryCatch {f f' : ε → Prog Op Res ε α} (h : p.MimickedBy sem L q)
    (hf : ∀ e, (f e).MimickedBy sem L (f' e)) :
    (MonadExceptOf.tryCatch p f).MimickedBy sem L (MonadExceptOf.tryCatch q f') := by
  induction p generalizing q with
  | done a =>
    obtain rfl : q = done a := h
    rfl
  | raise e =>
    obtain rfl : q = raise e := h
    exact hf e
  | act o k ih =>
    intro s t r s' hL hs
    obtain ⟨q', t', hq, hL', hk⟩ := h s t r s' hL hs
    exact ⟨_, t', hq.tryCatch f', hL', ih r hk⟩

theorem perform_bind {o : Op} {f f' : Res o → Prog Op Res ε α}
    (ho : ∀ s t r s', L s t → sem o s r s' → ∃ t', sem o t r t' ∧ L s' t')
    (hf : ∀ v, (f v).MimickedBy sem L (f' v)) :
    (perform o >>= f).MimickedBy sem L (perform o >>= f') := by
  rw [Prog.perform_bind, Prog.perform_bind]
  intro s t r s' hL hs
  obtain ⟨t', ht, hL'⟩ := ho s t r s' hL hs
  refine ⟨_, t', .act ht (.refl _ _), hL', ?_⟩
  cases r with
  | ok v => exact hf v
  | error e => rfl

theorem of_only {P : Op → Prop}
    (hP : ∀ o, P o → ∀ s t r s', L s t → sem o s r s' → ∃ t', sem o t r t' ∧ L s' t')
    (hp : p.Only P) : p.MimickedBy sem L p := by
  induction p with
  | done a => rfl
  | raise e => rfl
  | act o k ih =>
    intro s t r s' hL hs
    obtain ⟨t', ht, hL'⟩ := hP o hp.1 s t r s' hL hs
    exact ⟨_, t', .act ht (.refl _ _), hL', ih r (hp.2 r)⟩

/-- `q` waits while the action is performed, if it answers; if not, `q` has to fail with it. -/
theorem wait {o : Op} {f : Res o → Prog Op Res ε α}
    (ho : ∀ s t v s', L s t → sem o s (.ok v) s' → L s' t)
    (hf : ∀ v, (f v).MimickedBy sem L q)
    (hfail : ∀ s t e s', L s t → sem o s (.error e) s' →
      ∃ t', q.Reaches sem t (raise e) t' ∧ L s' t') : (perform o >>= f).MimickedBy sem L q := by
  rw [Prog.perform_bind]
  intro s t r s' hL hs
  cases r with
  | ok v => exact ⟨q, t, .refl _ _, ho s t v s' hL hs, hf v⟩
  | error e =>
    obtain ⟨t', hq, hL'⟩ := hfail s t e s' hL hs
    exact ⟨_, t', hq, hL', rfl⟩

end MimickedBy

end Prog

/-! ## Two pools -/

variable [DecidableEq ι]

namespace Pool

theorem Steps.of_reaches {p p' : Prog Op Res ε α} {s s' : σ} (h : p.Reaches sem s p' s')
    {thread : ι → Prog Op Res ε α} {i : ι} (hi : thread i = p) :
    ∃ l, Steps sem ⟨s, thread⟩ l ⟨s', update thread i p'⟩ := by
  induction h generalizing thread with
  | refl p s =>
    rw [← hi, update_eq_self]
    exact ⟨[], .nil _⟩
  | @act o k s r s₁ p' s' hs _ ih =>
    obtain ⟨l, hl⟩ := ih (update_self i (k r) thread)
    rw [update_idem] at hl
    exact ⟨_, ((Steps.nil ⟨s, thread⟩).snoc hi hs).append hl⟩

variable {visible : ι → Bool} {H : Op → Prop} {c c' d : Pool ι Op Res ε α σ}
  {l : List (ι × Event Op Res ε σ)}

/-- The visible threads are mimicked by their counterparts, and the hidden ones do not show. -/
structure MimickedBy (sem : Semantics Op Res ε σ) (L : σ → σ → Prop) (H : Op → Prop)
    (visible : ι → Bool) (c d : Pool ι Op Res ε α σ) : Prop where
  state : L c.state d.state
  thread : ∀ i, visible i = true → (c.thread i).MimickedBy sem L (d.thread i)
  hidden : ∀ i, visible i = false → (c.thread i).Only H

namespace MimickedBy

theorem step (hH : ∀ o, H o → ∀ s t r s', L s t → sem o s r s' → L s' t)
    (h : c.MimickedBy sem L H visible d) {i : ι} {o : Op} {k : Except ε (Res o) → Prog Op Res ε α}
    {r : Except ε (Res o)} {s' : σ} (hk : c.thread i = .act o k) (hs : sem o c.state r s') :
    ∃ m d', Steps sem d m d' ∧ MimickedBy sem L H visible ⟨s', update c.thread i (k r)⟩ d' := by
  cases hi : visible i with
  | false =>
    -- the other pool waits
    have honly := h.hidden i hi
    rw [hk] at honly
    refine ⟨[], d, .nil d, hH o honly.1 _ _ _ _ h.state hs, ?_, ?_⟩
    · exact (forall_update_iff _ (p := fun j p ↦ visible j = true →
        Prog.MimickedBy sem L p (d.thread j))).mpr ⟨fun hj ↦ absurd (hi.symm.trans hj) (by simp),
          fun j _ ↦ h.thread j⟩
    · exact (forall_update_iff _ (p := fun j p ↦ visible j = false → Prog.Only H p)).mpr
        ⟨fun _ ↦ honly.2 r, fun j _ ↦ h.hidden j⟩
  | true =>
    have hmimicked := h.thread i hi
    rw [hk] at hmimicked
    obtain ⟨q', t', hq, hL, hrest⟩ := hmimicked _ _ _ _ h.state hs
    obtain ⟨m, hm⟩ := Steps.of_reaches hq rfl
    refine ⟨m, _, hm, hL, ?_, ?_⟩
    · refine (forall_update_iff _ (p := fun j p ↦ visible j = true →
        Prog.MimickedBy sem L p (update d.thread i q' j))).mpr ⟨fun _ ↦ ?_, fun j hji ↦ ?_⟩
      · rw [update_self]
        exact hrest
      · rw [update_of_ne hji]
        exact h.thread j
    · exact (forall_update_iff _ (p := fun j p ↦ visible j = false → Prog.Only H p)).mpr
        ⟨fun hj ↦ absurd (hi.symm.trans hj) (by simp), fun j _ ↦ h.hidden j⟩

/-- **What the one pool may come to, the other may come to as well.** -/
theorem steps (hH : ∀ o, H o → ∀ s t r s', L s t → sem o s r s' → L s' t)
    (h : c.MimickedBy sem L H visible d) (hsteps : Steps sem c l c') :
    ∃ m d', Steps sem d m d' ∧ c'.MimickedBy sem L H visible d' := by
  induction hsteps with
  | nil => exact ⟨[], d, .nil d, h⟩
  | snoc _ hk hs ih =>
    obtain ⟨m, d', hd, hmimicked⟩ := ih
    obtain ⟨m', d'', hd', hmimicked'⟩ := hmimicked.step hH hk hs
    exact ⟨m ++ m', d'', hd.append hd', hmimicked'⟩

end MimickedBy

end Pool

end Concurrent
