import Wrongthink.Concurrent.Program

/-!
# Programs that catch nothing

A program without a `catch` fails with its first action that fails (`Uncaught.of_error`). It is
straight if moreover it throws nothing itself: the exception of an action ends it, and nothing else
does but its own end. So how a straight program ended can be read off its trace
(`Straight.ended`): either every action answered and the program is done, or it was the last action
that failed, and the program with it.
-/

namespace Concurrent

variable {Op : Type} {Res : Op → Type} {ε α β σ : Type}

namespace Prog

/-! ## Programs without a `catch` -/

def Uncaught : Prog Op Res ε α → Prop
  | done _ => True
  | raise _ => True
  | act _ k => (∀ e, k (.error e) = raise e) ∧ ∀ v, (k (.ok v)).Uncaught

@[simp] theorem uncaught_done (a : α) : (done a : Prog Op Res ε α).Uncaught := trivial

@[simp] theorem uncaught_raise (e : ε) : (raise e : Prog Op Res ε α).Uncaught := trivial

@[simp] theorem uncaught_perform (o : Op) : (perform o : Prog Op Res ε (Res o)).Uncaught :=
  ⟨fun _ ↦ rfl, fun _ ↦ trivial⟩

@[simp] theorem uncaught_perform_bind (o : Op) (f : Res o → Prog Op Res ε α) :
    (perform o >>= f).Uncaught ↔ ∀ v, (f v).Uncaught := by
  rw [perform_bind]
  exact ⟨fun h ↦ h.2, fun h ↦ ⟨fun _ ↦ rfl, h⟩⟩

theorem Uncaught.bind {p : Prog Op Res ε α} {f : α → Prog Op Res ε β} (hp : p.Uncaught)
    (hf : ∀ a, (f a).Uncaught) : (p >>= f).Uncaught := by
  induction p with
  | done a => exact hf a
  | raise e => trivial
  | act o k ih =>
    refine ⟨fun e ↦ ?_, fun v ↦ ih (.ok v) (hp.2 v)⟩
    change (k (.error e)).bind f = raise e
    rw [hp.1 e]
    rfl

theorem Uncaught.of_error {p p' : Prog Op Res ε α} {tr₁ tr₂ : List (Event Op Res ε σ)}
    {e : Event Op Res ε σ} {x : ε} (hp : p.Uncaught) (h : p.Trace (tr₁ ++ e :: tr₂) p')
    (he : e.result = .error x) : tr₂ = [] ∧ p' = raise x := by
  induction tr₁ generalizing p with
  | nil =>
    cases h with
    | cons _ h =>
      rw [he, hp.1 x] at h
      exact trace_raise_iff.mp h
  | cons f tr₁ ih =>
    cases h with
    | @cons _ k _ _ h =>
      rcases hf : f.result with y | v
      · rw [hf, hp.1 y] at h
        have hnil := (trace_raise_iff.mp h).1
        simp at hnil
      · rw [hf] at h
        exact ih (hp.2 v) h

/-! ## Straight programs -/

def Straight : Prog Op Res ε α → Prop
  | done _ => True
  | raise _ => False
  | act _ k => (∀ e, k (.error e) = raise e) ∧ ∀ v, (k (.ok v)).Straight

@[simp] theorem straight_done (a : α) : (done a : Prog Op Res ε α).Straight := trivial

@[simp] theorem straight_perform (o : Op) : (perform o : Prog Op Res ε (Res o)).Straight :=
  ⟨fun _ ↦ rfl, fun _ ↦ trivial⟩

@[simp] theorem straight_perform_bind (o : Op) (f : Res o → Prog Op Res ε α) :
    (perform o >>= f).Straight ↔ ∀ v, (f v).Straight := by
  rw [perform_bind]
  exact ⟨fun h ↦ h.2, fun h ↦ ⟨fun _ ↦ rfl, h⟩⟩

theorem Straight.bind {p : Prog Op Res ε α} {f : α → Prog Op Res ε β} (hp : p.Straight)
    (hf : ∀ a, (f a).Straight) : (p >>= f).Straight := by
  induction p with
  | done a => exact hf a
  | raise e => exact hp.elim
  | act o k ih =>
    refine ⟨fun e ↦ ?_, fun v ↦ ih (.ok v) (hp.2 v)⟩
    change (k (.error e)).bind f = raise e
    rw [hp.1 e]
    rfl

/-- **How it ended.** -/
theorem Straight.ended {p p' : Prog Op Res ε α} {tr : List (Event Op Res ε σ)} (hp : p.Straight)
    (h : Trace p tr p') (hend : p'.outcome ≠ none) :
    ((∀ e ∈ tr, e.result.isOk) ∧ ∃ a, p' = done a) ∨
      (∃ e ∈ tr, ¬e.result.isOk) ∧ ∃ x, p' = raise x := by
  induction h with
  | nil p =>
    cases p with
    | done a => exact .inl ⟨by simp, a, rfl⟩
    | raise e => exact hp.elim
    | act o k => exact absurd rfl hend
  | @cons e k tr p' h ih =>
    rcases hr : e.result with x | v
    · rw [hr, hp.1 x] at h
      obtain ⟨rfl, rfl⟩ := trace_raise_iff.mp h
      exact .inr ⟨⟨e, List.mem_cons_self, by rw [hr]; simp [Except.isOk, Except.toBool]⟩, x, rfl⟩
    · have hk : (k e.result).Straight := hr ▸ hp.2 v
      rcases ih hk hend with ⟨hok, hdone⟩ | ⟨⟨f, hf, hfail⟩, hraise⟩
      · refine .inl ⟨List.forall_mem_cons.mpr ⟨?_, hok⟩, hdone⟩
        rw [hr]
        rfl
      · exact .inr ⟨⟨f, List.mem_cons_of_mem _ hf, hfail⟩, hraise⟩

end Prog

end Concurrent
