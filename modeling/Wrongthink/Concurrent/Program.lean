import Mathlib.Data.List.Basic
import Mathlib.Order.Defs.Unbundled

/-!
# Programs cut at their atomic actions

A program that shares its state with others is not a state transformer: between two of its actions
anybody may move the state. What it *is* can still be written down without mentioning the state at
all, as the tree of the actions it performs, each followed by one continuation for every answer
the action can give. An action answers with a value or with an exception, and an exception that
nobody catches ends the program.

## Traces and runs

The two halves of an execution are kept apart. A *trace* says which actions a program performs and
how it goes on after their answers; the states play no part in it. A *run* says that the states
along a list of events follow one another; the programs play no part in it. A sequential execution
is an event list that is both, and an interleaving (`Concurrent.Pool`) is one run whose events,
filtered by thread, are a trace of each thread.
-/

namespace Concurrent

/-- A program over the actions `Op`: finished, failed, or about to perform one action and to go on
with its answer. -/
inductive Prog (Op : Type) (Res : Op → Type) (ε α : Type) where
  | done (a : α)
  | raise (e : ε)
  | act (o : Op) (k : Except ε (Res o) → Prog Op Res ε α)

/-- One performed action, with its answer and the states around it. -/
structure Event (Op : Type) (Res : Op → Type) (ε σ : Type) where
  before : σ
  op : Op
  result : Except ε (Res op)
  after : σ

variable {Op : Type} {Res : Op → Type} {ε α β σ : Type}

namespace Prog

/-! ## Sequencing and exceptions -/

protected def bind : Prog Op Res ε α → (α → Prog Op Res ε β) → Prog Op Res ε β
  | done a, f => f a
  | raise e, _ => raise e
  | act o k, f => act o fun r ↦ (k r).bind f

protected def tryCatch : Prog Op Res ε α → (ε → Prog Op Res ε α) → Prog Op Res ε α
  | done a, _ => done a
  | raise e, h => h e
  | act o k, h => act o fun r ↦ (k r).tryCatch h

instance : Monad (Prog Op Res ε) where
  pure := done
  bind := Prog.bind

instance : MonadExceptOf ε (Prog Op Res ε) where
  throw := raise
  tryCatch := Prog.tryCatch

/-- Perform one action; its exception is the program's. -/
def perform (o : Op) : Prog Op Res ε (Res o) :=
  act o fun
    | .ok v => done v
    | .error e => raise e

@[simp] theorem pure_eq (a : α) : (pure a : Prog Op Res ε α) = done a := rfl

@[simp] theorem throw_eq (e : ε) : (throw e : Prog Op Res ε α) = raise e := rfl

@[simp] theorem done_bind (a : α) (f : α → Prog Op Res ε β) : (done a >>= f) = f a := rfl

@[simp] theorem act_bind (o : Op) (k : Except ε (Res o) → Prog Op Res ε α)
    (f : α → Prog Op Res ε β) : (act o k >>= f) = act o fun r ↦ k r >>= f := rfl

theorem perform_bind (o : Op) (f : Res o → Prog Op Res ε α) :
    ((perform o : Prog Op Res ε (Res o)) >>= f) = act o fun
      | .ok v => f v
      | .error e => raise e := by
  change act o _ = act o _
  congr 1
  funext r
  cases r <;> rfl

theorem bind_assoc {γ : Type} (p : Prog Op Res ε α) (f : α → Prog Op Res ε β)
    (g : β → Prog Op Res ε γ) : (p >>= f >>= g) = p >>= fun a ↦ f a >>= g := by
  induction p with
  | done a => rfl
  | raise e => rfl
  | act o k ih =>
    rw [act_bind, act_bind, act_bind]
    congr 1
    exact funext fun r ↦ ih r

/-- What a program that performs no more actions has come to. -/
def outcome : Prog Op Res ε α → Option (Except ε α)
  | done a => some (.ok a)
  | raise e => some (.error e)
  | act _ _ => none

theorem eq_done_of_outcome {p : Prog Op Res ε α} {a : α} (h : p.outcome = some (.ok a)) :
    p = done a := by
  cases p with
  | done a' =>
    rw [outcome, Option.some.injEq, Except.ok.injEq] at h
    rw [h]
  | raise e => cases h
  | act o k => cases h

theorem eq_raise_of_outcome {p : Prog Op Res ε α} {e : ε} (h : p.outcome = some (.error e)) :
    p = raise e := by
  cases p with
  | raise e' =>
    rw [outcome, Option.some.injEq, Except.error.injEq] at h
    rw [h]
  | done a => cases h
  | act o k => cases h

theorem ne_done_of_outcome {p : Prog Op Res ε α} (h : p.outcome = none) (a : α) : p ≠ done a := by
  rintro rfl
  cases h

theorem bind_ne_done {p : Prog Op Res ε α} (hp : ∀ a, p ≠ done a) (f : α → Prog Op Res ε β)
    (y : β) : (p >>= f) ≠ done y := by
  cases p with
  | done a => exact absurd rfl (hp a)
  | raise e => exact nofun
  | act o k => exact nofun

theorem perform_bind_ne_done (o : Op) (f : Res o → Prog Op Res ε α) (y : α) :
    (perform o >>= f) ≠ done y := by
  rw [perform_bind]
  intro h
  cases h

theorem outcome_bind_eq_none {p : Prog Op Res ε α} (hp : p.outcome = none)
    (f : α → Prog Op Res ε β) : (p >>= f).outcome = none := by
  cases p with
  | done a => cases hp
  | raise e => cases hp
  | act o k => rfl

/-! ## The actions a program can perform -/

/-- Every action the program can ever perform satisfies `P`, whatever it is answered. -/
def Only (P : Op → Prop) : Prog Op Res ε α → Prop
  | done _ => True
  | raise _ => True
  | act o k => P o ∧ ∀ r, (k r).Only P

@[simp] theorem only_done (P : Op → Prop) (a : α) : (done a : Prog Op Res ε α).Only P := trivial

@[simp] theorem only_raise (P : Op → Prop) (e : ε) : (raise e : Prog Op Res ε α).Only P := trivial

@[simp] theorem only_act (P : Op → Prop) (o : Op) (k : Except ε (Res o) → Prog Op Res ε α) :
    (act o k).Only P ↔ P o ∧ ∀ r, (k r).Only P := Iff.rfl

@[simp] theorem only_perform (P : Op → Prop) (o : Op) :
    (perform o : Prog Op Res ε (Res o)).Only P ↔ P o := by
  refine ⟨fun h ↦ h.1, fun h ↦ ⟨h, fun r ↦ ?_⟩⟩
  cases r <;> trivial

@[simp] theorem only_perform_bind (P : Op → Prop) (o : Op) (f : Res o → Prog Op Res ε α) :
    (perform o >>= f).Only P ↔ P o ∧ ∀ v, (f v).Only P := by
  rw [perform_bind]
  refine ⟨fun h ↦ ⟨h.1, fun v ↦ h.2 (.ok v)⟩, fun h ↦ ⟨h.1, fun r ↦ ?_⟩⟩
  cases r with
  | ok v => exact h.2 v
  | error e => trivial

theorem Only.mono {P P' : Op → Prop} {p : Prog Op Res ε α} (hp : p.Only P)
    (h : ∀ o, P o → P' o) : p.Only P' := by
  induction p with
  | done a => trivial
  | raise e => trivial
  | act o k ih => exact ⟨h o hp.1, fun r ↦ ih r (hp.2 r)⟩

theorem Only.bind {P : Op → Prop} {p : Prog Op Res ε α} {f : α → Prog Op Res ε β}
    (hp : p.Only P) (hf : ∀ a, (f a).Only P) : (p >>= f).Only P := by
  induction p with
  | done a => exact hf a
  | raise e => trivial
  | act o k ih => exact ⟨hp.1, fun r ↦ ih r (hp.2 r)⟩

theorem Only.tryCatch {P : Op → Prop} {p : Prog Op Res ε α} {h : ε → Prog Op Res ε α}
    (hp : p.Only P) (hh : ∀ e, (h e).Only P) : (MonadExceptOf.tryCatch p h).Only P := by
  induction p with
  | done a => trivial
  | raise e => exact hh e
  | act o k ih => exact ⟨hp.1, fun r ↦ ih r (hp.2 r)⟩

/-! ## Traces -/

/-- Performing the actions of `tr`, with the answers recorded there, takes the program to `p'`. -/
inductive Trace : Prog Op Res ε α → List (Event Op Res ε σ) → Prog Op Res ε α → Prop where
  | nil (p) : Trace p [] p
  | cons (e : Event Op Res ε σ) {k : Except ε (Res e.op) → Prog Op Res ε α} {tr p'} :
      Trace (k e.result) tr p' → Trace (act e.op k) (e :: tr) p'

theorem Trace.snoc {p p' : Prog Op Res ε α} {tr : List (Event Op Res ε σ)}
    (e : Event Op Res ε σ) {k : Except ε (Res e.op) → Prog Op Res ε α}
    (h : Trace p tr p') (hk : p' = act e.op k) : Trace p (tr ++ [e]) (k e.result) := by
  induction h with
  | nil p =>
    subst hk
    exact .cons e (.nil _)
  | cons f _ ih => exact .cons f (ih hk)

theorem Trace.eq_of_nil {p p' : Prog Op Res ε α} (h : Trace (σ := σ) p [] p') : p' = p := by
  cases h
  rfl

theorem Trace.of_outcome {p p' : Prog Op Res ε α} {tr : List (Event Op Res ε σ)}
    (h : Trace p tr p') {x : Except ε α} (hp : p.outcome = some x) : tr = [] ∧ p' = p := by
  cases h with
  | nil => exact ⟨rfl, rfl⟩
  | cons e h => exact absurd hp (by simp [outcome])

@[simp] theorem trace_done_iff {a : α} {p' : Prog Op Res ε α} {tr : List (Event Op Res ε σ)} :
    Trace (done a) tr p' ↔ tr = [] ∧ p' = done a := by
  refine ⟨fun h ↦ h.of_outcome rfl, ?_⟩
  rintro ⟨rfl, rfl⟩
  exact .nil _

@[simp] theorem trace_raise_iff {e : ε} {p' : Prog Op Res ε α} {tr : List (Event Op Res ε σ)} :
    Trace (raise e) tr p' ↔ tr = [] ∧ p' = raise e := by
  refine ⟨fun h ↦ h.of_outcome rfl, ?_⟩
  rintro ⟨rfl, rfl⟩
  exact .nil _

/-- **Inversion.** A program about to act has performed nothing yet, or that action first. -/
theorem trace_act_iff {o : Op} {k : Except ε (Res o) → Prog Op Res ε α} {p' : Prog Op Res ε α}
    {tr : List (Event Op Res ε σ)} :
    Trace (act o k) tr p' ↔ (tr = [] ∧ p' = act o k) ∨
      ∃ s r s' tr', tr = ⟨s, o, r, s'⟩ :: tr' ∧ Trace (k r) tr' p' := by
  constructor
  · intro h
    cases h with
    | nil => exact .inl ⟨rfl, rfl⟩
    | cons e h => exact .inr ⟨e.before, e.result, e.after, _, rfl, h⟩
  · rintro (⟨rfl, rfl⟩ | ⟨s, r, s', tr', rfl, h⟩)
    · exact .nil _
    · exact .cons ⟨s, o, r, s'⟩ h

/-- The same for an action whose exception is the program's: it answered and the rest goes on, or it
failed and so has the program. -/
theorem trace_perform_bind_iff {o : Op} {f : Res o → Prog Op Res ε α} {p' : Prog Op Res ε α}
    {tr : List (Event Op Res ε σ)} :
    Trace (perform o >>= f) tr p' ↔ (tr = [] ∧ p' = (perform o >>= f)) ∨
      (∃ s v s' tr', tr = ⟨s, o, .ok v, s'⟩ :: tr' ∧ Trace (f v) tr' p') ∨
      ∃ s e s', tr = [⟨s, o, .error e, s'⟩] ∧ p' = raise e := by
  rw [perform_bind]
  constructor
  · intro h
    rcases trace_act_iff.mp h with hnil | ⟨s, r, s', tr', rfl, hk⟩
    · exact .inl hnil
    cases r with
    | ok v => exact .inr (.inl ⟨s, v, s', tr', rfl, hk⟩)
    | error e =>
      obtain ⟨rfl, rfl⟩ := trace_raise_iff.mp hk
      exact .inr (.inr ⟨s, e, s', rfl, rfl⟩)
  · rintro (hnil | ⟨s, v, s', tr', rfl, h⟩ | ⟨s, e, s', rfl, rfl⟩)
    · exact trace_act_iff.mpr (.inl hnil)
    · exact trace_act_iff.mpr (.inr ⟨s, .ok v, s', tr', rfl, h⟩)
    · exact trace_act_iff.mpr (.inr ⟨s, .error e, s', [], rfl, .nil _⟩)

/-- A trace of a sequence is a trace of its first part that has not finished it, or one that has,
followed by a trace of the rest. -/
theorem Trace.of_bind {p : Prog Op Res ε α} {f : α → Prog Op Res ε β} {q : Prog Op Res ε β}
    {tr : List (Event Op Res ε σ)} (h : Trace (p >>= f) tr q) :
    (∃ p', Trace p tr p' ∧ (∀ a, p' ≠ done a) ∧ q = (p' >>= f)) ∨
      ∃ a tr₁ tr₂, tr = tr₁ ++ tr₂ ∧ Trace p tr₁ (done a) ∧ Trace (f a) tr₂ q := by
  induction p generalizing tr with
  | done a => exact .inr ⟨a, [], tr, rfl, .nil _, h⟩
  | raise e =>
    obtain ⟨rfl, rfl⟩ := trace_raise_iff.mp h
    exact .inl ⟨raise e, .nil _, nofun, rfl⟩
  | act o k ih =>
    rcases trace_act_iff.mp h with ⟨rfl, rfl⟩ | ⟨s, r, s', tr', rfl, h'⟩
    · exact .inl ⟨act o k, .nil _, nofun, rfl⟩
    · rcases ih r h' with ⟨p', hp', hne, rfl⟩ | ⟨a, tr₁, tr₂, rfl, h₁, h₂⟩
      · exact .inl ⟨p', .cons ⟨s, o, r, s'⟩ hp', hne, rfl⟩
      · exact .inr ⟨a, ⟨s, o, r, s'⟩ :: tr₁, tr₂, rfl, .cons ⟨s, o, r, s'⟩ h₁, h₂⟩

theorem Trace.of_bind_done {p : Prog Op Res ε α} {f : α → Prog Op Res ε β} {y : β}
    {tr : List (Event Op Res ε σ)} (h : Trace (p >>= f) tr (done y)) :
    ∃ a tr₁ tr₂, tr = tr₁ ++ tr₂ ∧ Trace p tr₁ (done a) ∧ Trace (f a) tr₂ (done y) := by
  rcases h.of_bind with ⟨p', _, hne, hp'⟩ | hfinished
  · exact absurd hp'.symm (bind_ne_done hne f y)
  · exact hfinished

theorem trace_perform_bind_done {o : Op} {f : Res o → Prog Op Res ε α} {a : α}
    {tr : List (Event Op Res ε σ)} (h : Trace (perform o >>= f) tr (done a)) :
    ∃ s v s' tr', tr = ⟨s, o, .ok v, s'⟩ :: tr' ∧ Trace (f v) tr' (done a) := by
  rcases trace_perform_bind_iff.mp h with ⟨_, hdone⟩ | hpast | ⟨_, _, _, _, hdone⟩
  · exact absurd hdone.symm (perform_bind_ne_done _ _ _)
  · exact hpast
  · cases hdone

theorem trace_perform_bind_ended {o : Op} {f : Res o → Prog Op Res ε α} {p' : Prog Op Res ε α}
    {tr : List (Event Op Res ε σ)} (h : Trace (perform o >>= f) tr p') (hend : p'.outcome ≠ none)
    (hok : ∀ e ∈ tr, e.op = o → e.result.isOk) :
    ∃ s v s' tr', tr = ⟨s, o, .ok v, s'⟩ :: tr' ∧ Trace (f v) tr' p' := by
  rcases trace_perform_bind_iff.mp h with ⟨_, rfl⟩ | hpast | ⟨s, e, s', rfl, _⟩
  · exact absurd rfl hend
  · exact hpast
  · have hfalse := hok ⟨s, o, .error e, s'⟩ List.mem_cons_self rfl
    cases hfalse

/-- An event that satisfies `P`, as its first action never does, is one of the rest. -/
theorem trace_perform_bind_of_mem {o : Op} {f : Res o → Prog Op Res ε α} {p' : Prog Op Res ε α}
    {tr : List (Event Op Res ε σ)} {e : Event Op Res ε σ} {P : Event Op Res ε σ → Prop}
    (h : Trace (perform o >>= f) tr p') (he : e ∈ tr) (hP : P e)
    (ho : ∀ s r s', ¬P ⟨s, o, r, s'⟩) :
    ∃ s v s' tr', tr = ⟨s, o, .ok v, s'⟩ :: tr' ∧ Trace (f v) tr' p' ∧ e ∈ tr' := by
  rcases trace_perform_bind_iff.mp h with ⟨rfl, _⟩ | ⟨s, v, s', tr', rfl, h'⟩ | ⟨s, x, s', rfl, _⟩
  · cases he
  · refine ⟨s, v, s', tr', rfl, h', ?_⟩
    rcases List.mem_cons.mp he with rfl | he
    · exact absurd hP (ho _ _ _)
    · exact he
  · rw [List.mem_singleton] at he
    rw [he] at hP
    exact absurd hP (ho _ _ _)

/-- A trace of a program around one action: it has not come to the action; the action has failed,
and the program with it; or it has answered and the rest is under way. -/
theorem Trace.of_around {p : Prog Op Res ε β} {o : β → Op}
    {f : (x : β) → Res (o x) → Prog Op Res ε α} {q : Prog Op Res ε α} {tr : List (Event Op Res ε σ)}
    (h : Trace (p >>= fun x ↦ perform (o x) >>= f x) tr q) :
    ((∃ p', Trace p tr p') ∧ ∀ a, q ≠ done a) ∨
      (∃ x tr₁ s e s', tr = tr₁ ++ [⟨s, o x, .error e, s'⟩] ∧ Trace p tr₁ (done x) ∧ q = raise e) ∨
      ∃ x tr₁ s v s' tr₂, tr = tr₁ ++ ⟨s, o x, .ok v, s'⟩ :: tr₂ ∧ Trace p tr₁ (done x) ∧
        Trace (f x v) tr₂ q := by
  rcases h.of_bind with ⟨p', hp', hne, rfl⟩ | ⟨x, tr₁, tr₂, rfl, h₁, h₂⟩
  · exact .inl ⟨⟨p', hp'⟩, bind_ne_done hne _⟩
  rcases trace_perform_bind_iff.mp h₂ with
    ⟨rfl, rfl⟩ | ⟨s, v, s', tr', rfl, h'⟩ | ⟨s, e, s', rfl, rfl⟩
  · rw [List.append_nil]
    exact .inl ⟨⟨done x, h₁⟩, perform_bind_ne_done _ _⟩
  · exact .inr (.inr ⟨x, tr₁, s, v, s', tr', rfl, h₁, h'⟩)
  · exact .inr (.inl ⟨x, tr₁, s, e, s', rfl, h₁, rfl⟩)

theorem Only.trace {P : Op → Prop} {p p' : Prog Op Res ε α} {tr : List (Event Op Res ε σ)}
    (hp : p.Only P) (h : Trace p tr p') : (∀ e ∈ tr, P e.op) ∧ p'.Only P := by
  induction h with
  | nil => exact ⟨by simp, hp⟩
  | cons e _ ih =>
    obtain ⟨htr, hp'⟩ := ih (hp.2 _)
    exact ⟨List.forall_mem_cons.mpr ⟨hp.1, htr⟩, hp'⟩

/-! ## The place of an action in a trace -/

/-- Of every action that the program ever performs, `Q` says where it stands: what the program has
performed before it, and what it performs after it. -/
def Placed (Q : List (Event Op Res ε σ) → Event Op Res ε σ → List (Event Op Res ε σ) → Prop)
    (p : Prog Op Res ε α) : Prop :=
  ∀ tr₁ e tr₂ p', p.Trace (tr₁ ++ e :: tr₂) p' → Q tr₁ e tr₂

variable {Q : List (Event Op Res ε σ) → Event Op Res ε σ → List (Event Op Res ε σ) → Prop}

theorem Placed.of_only {P : Op → Prop} {p : Prog Op Res ε α} (hp : p.Only P)
    (hQ : ∀ tr₁ e tr₂, P e.op → Q tr₁ e tr₂) : p.Placed Q := by
  intro tr₁ e tr₂ p' h
  exact hQ tr₁ e tr₂ ((hp.trace h).1 e (by simp))

theorem placed_done (a : α) : (done a : Prog Op Res ε α).Placed Q :=
  Placed.of_only (only_done (fun _ ↦ False) a) fun _ _ _ ↦ False.elim

theorem placed_perform_bind {o : Op} {f : Res o → Prog Op Res ε α}
    (ho : ∀ s r s' tr, Q [] ⟨s, o, r, s'⟩ tr)
    (hf : ∀ s v s', (f v).Placed fun tr₁ e tr₂ ↦ Q (⟨s, o, .ok v, s'⟩ :: tr₁) e tr₂) :
    (perform o >>= f).Placed Q := by
  intro tr₁ e tr₂ p' h
  rcases trace_perform_bind_iff.mp h with
    ⟨hnil, _⟩ | ⟨s, v, s', tr', heq, htrace⟩ | ⟨s, x, s', heq, _⟩
  · simp at hnil
  · rcases tr₁ with _ | ⟨e₁, tr₁⟩
    · rw [List.nil_append, List.cons.injEq] at heq
      rw [heq.1]
      exact ho s (.ok v) s' tr₂
    · rw [List.cons_append, List.cons.injEq] at heq
      obtain ⟨rfl, rfl⟩ := heq
      exact hf s v s' tr₁ e tr₂ p' htrace
  · rw [List.append_eq_singleton_iff, List.cons.injEq] at heq
    obtain ⟨rfl, rfl, rfl⟩ | ⟨_, hcons⟩ := heq
    · exact ho s (.error x) s' []
    · cases hcons

/-- Where a place in a part is one in the whole, a sequence has what its parts have. -/
theorem Placed.bind {p : Prog Op Res ε α} {f : α → Prog Op Res ε β}
    (hQ : ∀ tr₀ tr₁ e tr₂ tr₃, Q tr₁ e tr₂ → Q (tr₀ ++ tr₁) e (tr₂ ++ tr₃)) (hp : p.Placed Q)
    (hf : ∀ a, (f a).Placed Q) : (p >>= f).Placed Q := by
  intro tr₁ e tr₂ q h
  rcases h.of_bind with ⟨p', hp', _, _⟩ | ⟨a, s₁, s₂, heq, h₁, h₂⟩
  · exact hp tr₁ e tr₂ p' hp'
  rcases List.append_eq_append_iff.mp heq with ⟨m, rfl, hm⟩ | ⟨m, rfl, rfl⟩
  · rcases m with _ | ⟨e₁, m⟩
    · rw [List.nil_append] at hm
      have hsecond := hf a [] e tr₂ q (by rwa [List.nil_append, hm])
      simpa using hQ tr₁ [] e tr₂ [] hsecond
    · rw [List.cons_append, List.cons.injEq] at hm
      obtain ⟨rfl, rfl⟩ := hm
      exact hQ [] tr₁ e m s₂ (hp tr₁ e m _ h₁)
  · simpa using hQ s₁ m e tr₂ [] (hf a m e tr₂ q h₂)

end Prog

/-! ## Runs -/

/-- What each action may answer and where it may leave the state. -/
abbrev Semantics (Op : Type) (Res : Op → Type) (ε σ : Type) :=
  (o : Op) → σ → Except ε (Res o) → σ → Prop

/-- The states along the events follow one another. -/
inductive Run (sem : Semantics Op Res ε σ) : σ → List (Event Op Res ε σ) → σ → Prop where
  | nil (s) : Run sem s [] s
  | cons (e : Event Op Res ε σ) {tr s'} :
      sem e.op e.before e.result e.after → Run sem e.after tr s' → Run sem e.before (e :: tr) s'

variable {sem : Semantics Op Res ε σ}

theorem run_nil_iff {s s' : σ} : Run sem s [] s' ↔ s' = s := by
  constructor
  · intro h
    cases h
    rfl
  · rintro rfl
    exact .nil _

theorem run_cons_iff {s s' : σ} {e : Event Op Res ε σ} {tr : List (Event Op Res ε σ)} :
    Run sem s (e :: tr) s' ↔
      e.before = s ∧ sem e.op e.before e.result e.after ∧ Run sem e.after tr s' := by
  constructor
  · intro h
    cases h with
    | cons _ hs h => exact ⟨rfl, hs, h⟩
  · rintro ⟨rfl, hs, h⟩
    exact .cons e hs h

theorem Run.append {s s₁ s' : σ} {tr tr' : List (Event Op Res ε σ)} (h : Run sem s tr s₁)
    (h' : Run sem s₁ tr' s') : Run sem s (tr ++ tr') s' := by
  induction h with
  | nil => exact h'
  | cons e hs _ ih => exact .cons e hs (ih h')

theorem run_append_iff {s s' : σ} {tr tr' : List (Event Op Res ε σ)} :
    Run sem s (tr ++ tr') s' ↔ ∃ s₁, Run sem s tr s₁ ∧ Run sem s₁ tr' s' := by
  refine ⟨fun h ↦ ?_, fun ⟨_, h₁, h₂⟩ ↦ h₁.append h₂⟩
  induction tr generalizing s with
  | nil => exact ⟨s, .nil s, h⟩
  | cons e tr ih =>
    obtain ⟨rfl, hs, h⟩ := run_cons_iff.mp h
    obtain ⟨s₁, h₁, h₂⟩ := ih h
    exact ⟨s₁, .cons e hs h₁, h₂⟩

theorem Run.unique {s s₁ s₂ : σ} {tr : List (Event Op Res ε σ)} (h₁ : Run sem s tr s₁)
    (h₂ : Run sem s tr s₂) : s₁ = s₂ := by
  induction h₁ with
  | nil s => exact (run_nil_iff.mp h₂).symm
  | cons e _ _ ih => exact ih (run_cons_iff.mp h₂).2.2

theorem Run.eq_after_getLast {s s' : σ} {e : Event Op Res ε σ} {tr : List (Event Op Res ε σ)}
    (h : Run sem s (e :: tr) s') : s' = ((e :: tr).getLast (List.cons_ne_nil e tr)).after := by
  induction tr generalizing s e with
  | nil => exact run_nil_iff.mp (run_cons_iff.mp h).2.2
  | cons f tr ih =>
    rw [List.getLast_cons (List.cons_ne_nil f tr)]
    exact ih (run_cons_iff.mp h).2.2

theorem Run.stretch {s s' : σ} {e : Event Op Res ε σ} {tr₁ tr tr₂ : List (Event Op Res ε σ)}
    (h : Run sem s (tr₁ ++ (e :: tr) ++ tr₂) s') :
    Run sem e.before (e :: tr) ((e :: tr).getLast (List.cons_ne_nil e tr)).after := by
  obtain ⟨s₂, h, _⟩ := run_append_iff.mp h
  obtain ⟨s₁, _, h⟩ := run_append_iff.mp h
  rw [(run_cons_iff.mp h).1, ← h.eq_after_getLast]
  exact h

theorem Run.sem_of_mem {s s' : σ} {tr : List (Event Op Res ε σ)} (h : Run sem s tr s')
    {e : Event Op Res ε σ} (he : e ∈ tr) : sem e.op e.before e.result e.after := by
  induction h with
  | nil => simp at he
  | cons f hs _ ih =>
    rcases List.mem_cons.mp he with rfl | he
    · exact hs
    · exact ih he

/-- **Invariants.** What every action preserves, a run preserves. -/
theorem Run.preserves {I : σ → Prop} {s s' : σ} {tr : List (Event Op Res ε σ)}
    (hI : ∀ e ∈ tr, sem e.op e.before e.result e.after → I e.before → I e.after)
    (h : Run sem s tr s') (hs : I s) : I s' := by
  induction h with
  | nil => exact hs
  | cons e he _ ih =>
    obtain ⟨hIe, hItr⟩ := List.forall_mem_cons.mp hI
    exact ih hItr (hIe he hs)

/-- **Orders.** If every action moves the state up a reflexive and transitive relation, so does a
run, and each state on the way lies between the two ends. -/
theorem Run.le {R : σ → σ → Prop} [IsPreorder σ R] {s s' : σ} {tr : List (Event Op Res ε σ)}
    (hR : ∀ e ∈ tr, sem e.op e.before e.result e.after → R e.before e.after)
    (h : Run sem s tr s') :
    R s s' ∧ ∀ e ∈ tr, R s e.before ∧ R e.before e.after ∧ R e.after s' := by
  induction h with
  | nil s => exact ⟨refl_of R s, by simp⟩
  | @cons e tr s' he _ ih =>
    obtain ⟨hRe, hRtr⟩ := List.forall_mem_cons.mp hR
    obtain ⟨hle, hmid⟩ := ih hRtr
    have hstep : R e.before e.after := hRe he
    refine ⟨trans_of R hstep hle,
      List.forall_mem_cons.mpr ⟨⟨refl_of R _, hstep, hle⟩, fun f hf ↦ ?_⟩⟩
    obtain ⟨h₁, h₂, h₃⟩ := hmid f hf
    exact ⟨trans_of R hstep h₁, h₂, h₃⟩

/-- Of two events of a run, the one that comes later starts above where the other has ended. -/
theorem Run.pairwise {R : σ → σ → Prop} [IsPreorder σ R] {s s' : σ} {tr : List (Event Op Res ε σ)}
    (hR : ∀ e ∈ tr, sem e.op e.before e.result e.after → R e.before e.after)
    (h : Run sem s tr s') : tr.Pairwise fun e f ↦ R e.after f.before := by
  induction h with
  | nil s => exact List.Pairwise.nil
  | @cons e tr s' _ h ih =>
    obtain ⟨_, hRtr⟩ := List.forall_mem_cons.mp hR
    exact List.pairwise_cons.mpr ⟨fun f hf ↦ ((h.le hRtr).2 f hf).1, ih hRtr⟩

/-- **Logs.** If every action appends to `f` what `g` says of its event, a run appends the whole
of it. -/
theorem Run.log {γ : Type} {f : σ → List γ} {g : Event Op Res ε σ → List γ} {s s' : σ}
    {tr : List (Event Op Res ε σ)}
    (hfg : ∀ e ∈ tr, sem e.op e.before e.result e.after → f e.after = f e.before ++ g e)
    (h : Run sem s tr s') : f s' = f s ++ tr.flatMap g := by
  induction h with
  | nil s => simp
  | cons e he _ ih =>
    obtain ⟨hfge, hfgtr⟩ := List.forall_mem_cons.mp hfg
    rw [ih hfgtr, hfge he, List.flatMap_cons, List.append_assoc]

/-- **Registers.** If every action overwrites `f` with what `g` says of its event, or leaves it
alone, a run leaves the last of what was written. -/
theorem Run.register {γ : Type} {f : σ → γ} {g : Event Op Res ε σ → Option γ} {s s' : σ}
    {tr : List (Event Op Res ε σ)}
    (hfg : ∀ e ∈ tr, sem e.op e.before e.result e.after → f e.after = (g e).getD (f e.before))
    (h : Run sem s tr s') : f s' = (tr.filterMap g).getLast?.getD (f s) := by
  induction h with
  | nil s => rfl
  | cons e he _ ih =>
    obtain ⟨hfge, hfgtr⟩ := List.forall_mem_cons.mp hfg
    rw [ih hfgtr, hfge he]
    cases hg : g e with
    | none => rw [List.filterMap_cons_none hg, Option.getD_none]
    | some y =>
      rw [List.filterMap_cons_some hg, List.getLast?_cons, Option.getD_some, Option.getD_some]

/-! ## Executing a program alone -/

/-- The execution of a program with nobody else running, for actions that are functions. -/
def Prog.exec (f : (o : Op) → σ → Except ε (Res o) × σ) :
    Prog Op Res ε α → σ → List (Event Op Res ε σ) × Except ε α × σ
  | .done a, s => ([], .ok a, s)
  | .raise e, s => ([], .error e, s)
  | .act o k, s =>
    let (r, s') := f o s
    let (tr, x, s'') := (k r).exec f s'
    (⟨s, o, r, s'⟩ :: tr, x, s'')

section Exec

variable {f : (o : Op) → σ → Except ε (Res o) × σ} {p : Prog Op Res ε α} {k : α → Prog Op Res ε β}
  {o : Op} {s s' : σ}

@[simp] theorem Prog.exec_done (a : α) (s : σ) :
    (Prog.done a : Prog Op Res ε α).exec f s = ([], .ok a, s) := rfl

@[simp] theorem Prog.exec_raise (e : ε) (s : σ) :
    (Prog.raise e : Prog Op Res ε α).exec f s = ([], .error e, s) := rfl

theorem Prog.exec_act (o : Op) (g : Except ε (Res o) → Prog Op Res ε α) (s : σ) :
    (Prog.act o g).exec f s =
      (⟨s, o, (f o s).1, (f o s).2⟩ :: ((g (f o s).1).exec f (f o s).2).1,
        ((g (f o s).1).exec f (f o s).2).2) := rfl

theorem Prog.exec_bind_ok {tr : List (Event Op Res ε σ)} {a : α}
    (h : p.exec f s = (tr, .ok a, s')) :
    (p >>= k).exec f s = (tr ++ ((k a).exec f s').1, ((k a).exec f s').2) := by
  induction p generalizing s tr with
  | done a' =>
    rw [exec_done, Prod.mk.injEq, Prod.mk.injEq, Except.ok.injEq] at h
    obtain ⟨rfl, rfl, rfl⟩ := h
    rfl
  | raise e =>
    rw [exec_raise, Prod.mk.injEq, Prod.mk.injEq] at h
    cases h.2.1
  | act o g ih =>
    rw [exec_act, Prod.mk.injEq] at h
    obtain ⟨rfl, h⟩ := h
    have hk : (g (f o s).1).exec f (f o s).2 = (((g (f o s).1).exec f (f o s).2).1, .ok a, s') :=
      Prod.ext rfl h
    rw [act_bind, exec_act, ih _ hk]
    rfl

theorem Prog.exec_bind_error {tr : List (Event Op Res ε σ)} {e : ε}
    (h : p.exec f s = (tr, .error e, s')) : (p >>= k).exec f s = (tr, .error e, s') := by
  induction p generalizing s tr with
  | done a =>
    rw [exec_done, Prod.mk.injEq, Prod.mk.injEq] at h
    cases h.2.1
  | raise e' =>
    rw [exec_raise, Prod.mk.injEq, Prod.mk.injEq, Except.error.injEq] at h
    obtain ⟨rfl, rfl, rfl⟩ := h
    rfl
  | act o g ih =>
    rw [exec_act, Prod.mk.injEq] at h
    obtain ⟨rfl, h⟩ := h
    have hk : (g (f o s).1).exec f (f o s).2 =
        (((g (f o s).1).exec f (f o s).2).1, .error e, s') := Prod.ext rfl h
    rw [act_bind, exec_act, ih _ hk]

theorem Prog.exec_perform_ok {v : Res o} (h : f o s = (.ok v, s')) :
    (Prog.perform o : Prog Op Res ε (Res o)).exec f s = ([⟨s, o, .ok v, s'⟩], .ok v, s') := by
  rw [perform, exec, h]
  rfl

theorem Prog.exec_perform_snd (o : Op) (s : σ) :
    ((Prog.perform o : Prog Op Res ε (Res o)).exec f s).2 = f o s := by
  rw [perform, exec_act]
  rcases f o s with ⟨e | v, s'⟩
  · rfl
  · rfl

theorem Prog.exec_perform_bind_snd {k : Res o → Prog Op Res ε α} {v : Res o}
    (h : f o s = (.ok v, s')) : ((Prog.perform o >>= k).exec f s).2 = ((k v).exec f s').2 := by
  rw [exec_bind_ok (exec_perform_ok h)]

theorem Prog.exec_perform_error {e : ε} (h : f o s = (.error e, s')) :
    (Prog.perform o : Prog Op Res ε (Res o)).exec f s = ([⟨s, o, .error e, s'⟩], .error e, s') := by
  rw [perform, exec, h]
  rfl

theorem Prog.result_of_mem_exec {e : Event Op Res ε σ} (he : e ∈ (p.exec f s).1) :
    e.result = (f e.op e.before).1 := by
  induction p generalizing s with
  | done a => simp at he
  | raise x => simp at he
  | act o k ih =>
    rw [exec_act] at he
    rcases List.mem_cons.mp he with rfl | he
    · rfl
    · exact ih _ he

end Exec

/-- An execution is a trace that finishes the program, and a run of every semantics that admits
the function. -/
theorem Prog.exec_sound {f : (o : Op) → σ → Except ε (Res o) × σ}
    (hf : ∀ o s, sem o s (f o s).1 (f o s).2) (p : Prog Op Res ε α) (s : σ) :
    Run sem s (p.exec f s).1 (p.exec f s).2.2 ∧
      ∃ p', p.Trace (p.exec f s).1 p' ∧ p'.outcome = some (p.exec f s).2.1 := by
  induction p generalizing s with
  | done a => exact ⟨.nil s, .done a, .nil _, rfl⟩
  | raise e => exact ⟨.nil s, .raise e, .nil _, rfl⟩
  | act o k ih =>
    obtain ⟨hrun, p', htr, hout⟩ := ih (f o s).1 (f o s).2
    exact ⟨.cons ⟨s, o, (f o s).1, (f o s).2⟩ (hf o s) hrun, p',
      .cons ⟨s, o, (f o s).1, (f o s).2⟩ htr, hout⟩

end Concurrent
