import Wrongthink.Concurrent.Pool

/-!
# Actions that are programs

What one level of a design takes for a single action, the level below it may carry out in several.
`Prog.expand` replaces every action by a program that comes to an answer, and leaves alone what lies
between the actions. So a program has ended after the expansion exactly if it has ended without
(`outcome_expand`).

On the lower level an action may have to wait until the state lets it through. A schedule with such
actions is replayed by `Pool.replayWhere`, where a thread that has to wait passes.
-/

namespace Concurrent

open Function

variable {ι Op Op' : Type} {Res : Op → Type} {Res' : Op' → Type} {ε α σ : Type}

namespace Prog

/-- Replace every action by a program for it. -/
def expand (f : (o : Op) → Prog Op' Res' ε (Except ε (Res o))) : Prog Op Res ε α →
    Prog Op' Res' ε α
  | done a => done a
  | raise e => raise e
  | act o k => f o >>= fun r ↦ (k r).expand f

variable {f : (o : Op) → Prog Op' Res' ε (Except ε (Res o))}

@[simp] theorem expand_done (a : α) : (done a : Prog Op Res ε α).expand f = done a := rfl

@[simp] theorem expand_raise (e : ε) : (raise e : Prog Op Res ε α).expand f = raise e := rfl

theorem expand_act (o : Op) (k : Except ε (Res o) → Prog Op Res ε α) :
    (act o k).expand f = f o >>= fun r ↦ (k r).expand f := rfl

theorem outcome_expand (hf : ∀ o, (f o).outcome = none) (p : Prog Op Res ε α) :
    (p.expand f).outcome = p.outcome := by
  cases p with
  | done a => rfl
  | raise e => rfl
  | act o k =>
    rw [expand_act]
    exact outcome_bind_eq_none (hf o) _

theorem expand_eq_done_iff (hf : ∀ o, (f o).outcome = none) {p : Prog Op Res ε α} {a : α} :
    p.expand f = done a ↔ p = done a := by
  constructor
  · intro h
    refine eq_done_of_outcome ?_
    rw [← outcome_expand hf p, h]
    rfl
  · rintro rfl
    rfl

end Prog

variable [DecidableEq ι]

/-- Let the threads of a schedule step in turn, for actions that are functions where they are
possible. A thread that has nothing to do, or has to wait, passes. -/
def Pool.replayWhere (f : (o : Op) → σ → Option (Except ε (Res o) × σ)) :
    Pool ι Op Res ε α σ → List ι → List (ι × Event Op Res ε σ) × Pool ι Op Res ε α σ
  | c, [] => ([], c)
  | c, i :: is =>
    match c.thread i with
    | .act o k =>
      match f o c.state with
      | some (r, s') =>
        let (l, c') := replayWhere f ⟨s', update c.thread i (k r)⟩ is
        ((i, ⟨c.state, o, r, s'⟩) :: l, c')
      | none => replayWhere f c is
    | _ => replayWhere f c is

theorem Pool.replayWhere_sound {sem : Semantics Op Res ε σ}
    {f : (o : Op) → σ → Option (Except ε (Res o) × σ)}
    (hf : ∀ o s x, f o s = some x → sem o s x.1 x.2) (c : Pool ι Op Res ε α σ) (is : List ι) :
    Steps sem c (replayWhere f c is).1 (replayWhere f c is).2 := by
  induction is generalizing c with
  | nil => exact .nil c
  | cons i is ih =>
    rw [replayWhere]
    split
    · rename_i o k hk
      split
      · rename_i r s' hfo
        exact ((Steps.nil c).snoc hk (hf o c.state _ hfo)).append (ih _)
      · exact ih c
    · exact ih c

end Concurrent
