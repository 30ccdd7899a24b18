import Wrongthink.Concurrent.Pool

/-!
# Programs that keep to phases

Often what a program may do next depends only on what it has done last: after a `lock` comes an
`unlock`, after a request its answer is taken. The last action, with its answer, puts the program in
a *phase* (`next`), and each phase allows some actions. A program is `Phased` if it only ever
performs what its phase allows; then, in every pool, each thread is at all times in the phase of
its last event (`Pool.Steps.phased`).
-/

namespace Concurrent

variable {Op : Type} {Res : Op → Type} {ε α β σ S : Type} (next : (o : Op) → Except ε (Res o) → S)
  (allowed : S → Op → Prop)

/-- From the phase `s` on, every action is one that its phase allows, and the end comes in a phase
that satisfies `Q`. -/
def Prog.Phased (Q : S → Prop) : Prog Op Res ε α → S → Prop
  | .done _, s => Q s
  | .raise _, _ => True
  | .act o k, s => allowed s o ∧ ∀ r, (k r).Phased Q (next o r)

/-- The phase after some events. -/
def phaseAfter (s : S) (tr : List (Event Op Res ε σ)) : S :=
  (tr.getLast?.map fun e ↦ next e.op e.result).getD s

variable {next allowed} {Q Q' : S → Prop} {s : S}

theorem phaseAfter_cons (e : Event Op Res ε σ) (tr : List (Event Op Res ε σ)) :
    phaseAfter next s (e :: tr) = phaseAfter next (next e.op e.result) tr := by
  cases tr <;> simp [phaseAfter, List.getLast?_cons]

namespace Prog

theorem Phased.mono {p : Prog Op Res ε α} (hp : p.Phased next allowed Q s)
    (hQ : ∀ s, Q s → Q' s) : p.Phased next allowed Q' s := by
  induction p generalizing s with
  | done a => exact hQ s hp
  | raise e => trivial
  | act o k ih => exact ⟨hp.1, fun r ↦ ih r (hp.2 r)⟩

theorem Phased.bind {p : Prog Op Res ε α} {f : α → Prog Op Res ε β}
    (hp : p.Phased next allowed Q s) (hf : ∀ a s', Q s' → (f a).Phased next allowed Q' s') :
    (p >>= f).Phased next allowed Q' s := by
  induction p generalizing s with
  | done a => exact hf a s hp
  | raise e => trivial
  | act o k ih => exact ⟨hp.1, fun r ↦ ih r (hp.2 r)⟩

theorem Phased.tryCatch {p : Prog Op Res ε α} {h : ε → Prog Op Res ε α}
    (hp : p.Phased next allowed Q s) (hh : ∀ e s', (h e).Phased next allowed Q s') :
    (MonadExceptOf.tryCatch p h).Phased next allowed Q s := by
  induction p generalizing s with
  | done a => exact hp
  | raise e => exact hh e s
  | act o k ih => exact ⟨hp.1, fun r ↦ ih r (hp.2 r)⟩

theorem phased_perform_bind {o : Op} {f : Res o → Prog Op Res ε α} (ho : allowed s o)
    (hf : ∀ v, (f v).Phased next allowed Q (next o (.ok v))) :
    (perform o >>= f).Phased next allowed Q s := by
  rw [perform_bind]
  refine ⟨ho, fun r ↦ ?_⟩
  cases r with
  | ok v => exact hf v
  | error e => trivial

theorem phased_perform {o : Op} (ho : allowed s o) (hQ : ∀ v, Q (next o (.ok v))) :
    (perform o : Prog Op Res ε (Res o)).Phased next allowed Q s := by
  refine ⟨ho, fun r ↦ ?_⟩
  cases r with
  | ok v => exact hQ v
  | error e => trivial

theorem Phased.of_only {P : Op → Prop} (hP : ∀ o, P o → allowed s o ∧ ∀ r, next o r = s)
    {p : Prog Op Res ε α} (hp : p.Only P) : p.Phased next allowed (· = s) s := by
  induction p with
  | done a => exact rfl
  | raise e => trivial
  | act o k ih =>
    obtain ⟨ho, hnext⟩ := hP o hp.1
    refine ⟨ho, fun r ↦ ?_⟩
    rw [hnext r]
    exact ih r (hp.2 r)

theorem Phased.of_allowed {P : Op → Prop} (hP : ∀ o, P o → ∀ s, allowed s o)
    {p : Prog Op Res ε α} (hp : p.Only P) (s : S) : p.Phased next allowed (fun _ ↦ True) s := by
  induction p generalizing s with
  | done a => trivial
  | raise e => trivial
  | act o k ih => exact ⟨hP o hp.1 s, fun r ↦ ih r (hp.2 r) _⟩

/-- After a trace, the rest of the program is in the phase of the last event. -/
theorem Phased.trace {p p' : Prog Op Res ε α} {tr : List (Event Op Res ε σ)}
    (hp : p.Phased next allowed Q s) (h : p.Trace tr p') :
    p'.Phased next allowed Q (phaseAfter next s tr) := by
  induction h generalizing s with
  | nil => exact hp
  | @cons e k tr p' _ ih =>
    rw [phaseAfter_cons]
    exact ih (hp.2 e.result)

theorem Phased.allowed_of_trace {p p' : Prog Op Res ε α} {tr tr' : List (Event Op Res ε σ)}
    {e : Event Op Res ε σ} (hp : p.Phased next allowed Q s) (h : p.Trace (tr ++ e :: tr') p') :
    allowed (phaseAfter next s tr) e.op := by
  induction tr generalizing p s with
  | nil =>
    rcases h with _ | ⟨_, _⟩
    exact hp.1
  | cons f tr ih =>
    rw [phaseAfter_cons]
    rcases h with _ | ⟨_, h⟩
    exact ih (hp.2 f.result) h

end Prog

variable {ι : Type} [DecidableEq ι] {sem : Semantics Op Res ε σ} {c c' : Pool ι Op Res ε α σ}
  {l : List (ι × Event Op Res ε σ)}

/-- **Phases of a pool.** Each thread is in the phase of its last event. -/
theorem Pool.Steps.phased {i : ι} (hc : (c.thread i).Phased next allowed Q s)
    (h : Pool.Steps sem c l c') :
    (c'.thread i).Phased next allowed Q (phaseAfter next s (view i l)) :=
  hc.trace (h.view_trace i)

theorem exists_of_phaseAfter_ne {i : ι} (h : phaseAfter next s (view i l) ≠ s) :
    ∃ l₀ e m, l = l₀ ++ (i, e) :: m ∧ view i m = [] ∧
      next e.op e.result = phaseAfter next s (view i l) := by
  rcases hlast : (view i l).getLast? with _ | e
  · rw [phaseAfter, hlast] at h
    exact absurd rfl h
  · obtain ⟨l₀, m, hl, hm⟩ := exists_eq_append_of_getLast?_view hlast
    refine ⟨l₀, e, m, hl, hm, ?_⟩
    rw [phaseAfter, hlast]
    rfl

theorem phaseAfter_snoc_self (i : ι) (e : Event Op Res ε σ) :
    phaseAfter next s (view i (l ++ [(i, e)])) = next e.op e.result := by
  rw [view_append, view_cons_self, view_nil, phaseAfter, List.getLast?_concat]
  rfl

theorem phaseAfter_snoc_of_ne {i j : ι} (h : j ≠ i) (e : Event Op Res ε σ) :
    phaseAfter next s (view i (l ++ [(j, e)])) = phaseAfter next s (view i l) := by
  rw [view_append, view_cons_of_ne h, view_nil, List.append_nil]

end Concurrent
