import Mathlib.Data.List.Nodup
import Wrongthink.Concurrent.Pool

/-!
# Linearization

Calls that overlap are explained by a history in which they come one after the other. The
explanation picks one action of each call, its *point*, and lets the whole call happen there at
once. Which answer makes an action a point is said by a function `point` of the action and its
answer; that a program cannot end without one, and never has a second, is a property of its tree
(`Prog.Pointed`).

The order of the points is the order of the history (`pointOrder`). Since every point is an action
of its own call, a call that has ended before another begins also comes first in the history: there
is no separate argument for that (`pointOrder_append`).

## What is left to show

`Pool.Steps.linearize` asks for a relation `abs` between the pool and the state of the history that
no action but the points disturbs, and for each point that the call, happening there at once, keeps
it.
-/

namespace Concurrent

open Function

variable {ι Op : Type} {Res : Op → Type} {ε α β σ τ κ : Type}

/-! ## One after the other -/

/-- The operations `ks`, one after the other. -/
inductive Serially (spec : κ → τ → τ → Prop) : τ → List κ → τ → Prop where
  | nil (t) : Serially spec t [] t
  | cons {k t t₁ t' ks} : spec k t t₁ → Serially spec t₁ ks t' → Serially spec t (k :: ks) t'

theorem Serially.snoc {spec : κ → τ → τ → Prop} {t t₁ t' : τ} {ks : List κ} {k : κ}
    (h : Serially spec t ks t₁) (hk : spec k t₁ t') : Serially spec t (ks ++ [k]) t' := by
  induction h with
  | nil t => exact .cons hk (.nil _)
  | cons hk' _ ih => exact .cons hk' (ih hk)

theorem Serially.exists_of_mem {spec : κ → τ → τ → Prop} {t t' : τ} {ks : List κ}
    (h : Serially spec t ks t') {k : κ} (hk : k ∈ ks) : ∃ u u', spec k u u' := by
  induction h with
  | nil => simp at hk
  | @cons k' t t₁ _ _ hk' _ ih =>
    rcases List.mem_cons.mp hk with rfl | hk
    · exact ⟨t, t₁, hk'⟩
    · exact ih hk

/-! ## Programs with a point -/

namespace Prog

section Pointed

variable (point : (o : Op) → Except ε (Res o) → Bool) (B : (o : Op) → Except ε (Res o) → Prop)
  (A : Op → Prop)

/-- The program comes to a point before it ends. Up to there its actions and their answers satisfy
`B`, and what it performs afterwards satisfies `A`. -/
def Pointed : Prog Op Res ε α → Prop
  | done _ => False
  | raise _ => False
  | act o k => ∀ r, (point o r = true ∧ (k r).Only A) ∨ (point o r = false ∧ B o r ∧ (k r).Pointed)

variable {point B A} {p p' : Prog Op Res ε α}

theorem pointed_perform_bind {o : Op} {f : Res o → Prog Op Res ε α}
    (hok : ∀ v, (point o (.ok v) = true ∧ (f v).Only A) ∨
      (point o (.ok v) = false ∧ B o (.ok v) ∧ (f v).Pointed point B A))
    (herror : ∀ e, point o (.error e) = true) : (perform o >>= f).Pointed point B A := by
  rw [perform_bind]
  intro r
  cases r with
  | ok v => exact hok v
  | error e => exact .inl ⟨herror e, trivial⟩

theorem pointed_perform_bind_of_forall {o : Op} {f : Res o → Prog Op Res ε α}
    (ho : ∀ r, point o r = true) (hf : ∀ v, (f v).Only A) : (perform o >>= f).Pointed point B A :=
  pointed_perform_bind (fun v ↦ .inl ⟨ho _, hf v⟩) fun _ ↦ ho _

theorem pointed_perform {o : Op} (ho : ∀ r, point o r = true) :
    (perform o : Prog Op Res ε (Res o)).Pointed point B A := by
  intro r
  cases r with
  | ok v => exact .inl ⟨ho _, trivial⟩
  | error e => exact .inl ⟨ho _, trivial⟩

theorem Pointed.mono {B' : (o : Op) → Except ε (Res o) → Prop} (hp : p.Pointed point B A)
    (hB : ∀ o r, B o r → B' o r) : p.Pointed point B' A := by
  induction p with
  | done a => exact hp
  | raise e => exact hp
  | act o k ih =>
    intro r
    exact (hp r).imp_right fun ⟨hpoint, hBr, hk⟩ ↦ ⟨hpoint, hB o r hBr, ih r hk⟩

theorem Pointed.bind {f : α → Prog Op Res ε β} (hp : p.Pointed point B A)
    (hf : ∀ a, (f a).Only A) : (p >>= f).Pointed point B A := by
  induction p with
  | done a => exact hp.elim
  | raise e => exact hp.elim
  | act o k ih =>
    intro r
    rcases hp r with ⟨hpoint, hk⟩ | ⟨hpoint, hB, hk⟩
    · exact .inl ⟨hpoint, hk.bind hf⟩
    · exact .inr ⟨hpoint, hB, ih r hk⟩

theorem Pointed.tryCatch {h : ε → Prog Op Res ε α} (hp : p.Pointed point B A)
    (hh : ∀ e, (h e).Only A) : (MonadExceptOf.tryCatch p h).Pointed point B A := by
  induction p with
  | done a => exact hp.elim
  | raise e => exact hp.elim
  | act o k ih =>
    intro r
    rcases hp r with ⟨hpoint, hk⟩ | ⟨hpoint, hB, hk⟩
    · exact .inl ⟨hpoint, hk.tryCatch hh⟩
    · exact .inr ⟨hpoint, hB, ih r hk⟩

/-- **The point of a trace.** It has not been reached, or it has been passed. -/
theorem Pointed.trace {tr : List (Event Op Res ε σ)} (hp : p.Pointed point B A)
    (htr : p.Trace tr p') :
    ((∀ e ∈ tr, point e.op e.result = false ∧ B e.op e.result) ∧ p'.Pointed point B A) ∨
      ∃ tr₁ e tr₂, tr = tr₁ ++ e :: tr₂ ∧
        (∀ f ∈ tr₁, point f.op f.result = false ∧ B f.op f.result) ∧
        point e.op e.result = true ∧ (∀ f ∈ tr₂, A f.op) ∧ p'.Only A := by
  induction htr with
  | nil => exact .inl ⟨by simp, hp⟩
  | @cons e k tr p' htr ih =>
    rcases hp e.result with ⟨hpoint, hk⟩ | ⟨hpoint, hB, hk⟩
    · obtain ⟨hafter, hend⟩ := hk.trace htr
      exact .inr ⟨[], e, tr, rfl, by simp, hpoint, hafter, hend⟩
    · obtain ⟨hbefore, hend⟩ | ⟨tr₁, f, tr₂, rfl, hbefore, hf⟩ := ih hk
      · exact .inl ⟨List.forall_mem_cons.mpr ⟨⟨hpoint, hB⟩, hbefore⟩, hend⟩
      · exact .inr ⟨e :: tr₁, f, tr₂, rfl, List.forall_mem_cons.mpr ⟨⟨hpoint, hB⟩, hbefore⟩, hf⟩

theorem Pointed.exists_of_ended {tr : List (Event Op Res ε σ)} (hp : p.Pointed point B A)
    (htr : p.Trace tr p') (hend : p'.outcome ≠ none) : ∃ e ∈ tr, point e.op e.result = true := by
  obtain ⟨_, hpointed⟩ | ⟨tr₁, e, tr₂, rfl, _, hpoint, _⟩ := hp.trace htr
  · cases p' with
    | done a => exact hpointed.elim
    | raise e => exact hpointed.elim
    | act o k => exact absurd rfl hend
  · exact ⟨e, by simp, hpoint⟩

variable (hA : ∀ o, A o → ∀ r, point o r = false)
include hA

theorem Pointed.countP_le_one {tr : List (Event Op Res ε σ)} (hp : p.Pointed point B A)
    (htr : p.Trace tr p') : tr.countP (fun e ↦ point e.op e.result) ≤ 1 := by
  obtain ⟨hbefore, _⟩ | ⟨tr₁, e, tr₂, rfl, hbefore, hpoint, hafter, _⟩ := hp.trace htr
  · have hzero : tr.countP (fun e ↦ point e.op e.result) = 0 := by
      rw [List.countP_eq_zero]
      exact fun f hf ↦ by rw [(hbefore f hf).1]; simp
    omega
  · have hzero₁ : tr₁.countP (fun e ↦ point e.op e.result) = 0 := by
      rw [List.countP_eq_zero]
      exact fun f hf ↦ by rw [(hbefore f hf).1]; simp
    have hzero₂ : tr₂.countP (fun e ↦ point e.op e.result) = 0 := by
      rw [List.countP_eq_zero]
      exact fun f hf ↦ by rw [hA _ (hafter f hf)]; simp
    rw [List.countP_append, List.countP_cons, hzero₁, hzero₂, hpoint]
    simp

end Pointed

end Prog

/-! ## The order of the points -/

section PointOrder

variable (point : ι → (o : Op) → Except ε (Res o) → Bool)

/-- The threads, in the order of their points. -/
def pointOrder (l : List (ι × Event Op Res ε σ)) : List ι :=
  (l.filter fun x ↦ point x.1 x.2.op x.2.result).map Prod.fst

variable {point} {l l₁ l₂ : List (ι × Event Op Res ε σ)}

/-- **Real time.** Where a run is cut in two, so is the order. -/
theorem pointOrder_append :
    pointOrder point (l₁ ++ l₂) = pointOrder point l₁ ++ pointOrder point l₂ := by
  rw [pointOrder, List.filter_append, List.map_append, pointOrder, pointOrder]

theorem pointOrder_singleton (x : ι × Event Op Res ε σ) :
    pointOrder point [x] = if point x.1 x.2.op x.2.result then [x.1] else [] := by
  rw [pointOrder, List.filter_singleton]
  cases point x.1 x.2.op x.2.result <;> rfl

variable [DecidableEq ι]

theorem mem_pointOrder {i : ι} :
    i ∈ pointOrder point l ↔ ∃ e ∈ view i l, point i e.op e.result = true := by
  simp only [pointOrder, List.mem_map, List.mem_filter, mem_view]
  constructor
  · rintro ⟨⟨j, e⟩, ⟨hmem, hpoint⟩, rfl⟩
    exact ⟨e, hmem, hpoint⟩
  · rintro ⟨e, hmem, hpoint⟩
    exact ⟨(i, e), ⟨hmem, hpoint⟩, rfl⟩

theorem count_pointOrder (i : ι) : (pointOrder point l).count i =
    (view i l).countP fun e ↦ point i e.op e.result := by
  induction l with
  | nil => rfl
  | cons x l ih =>
    obtain ⟨j, e⟩ := x
    rw [← List.singleton_append, pointOrder_append, List.count_append, ih, pointOrder_singleton,
      List.singleton_append]
    dsimp only
    by_cases hij : j = i
    · subst hij
      rw [view_cons_self, List.countP_cons]
      cases point j e.op e.result <;> simp [Nat.add_comm]
    · rw [view_cons_of_ne hij]
      cases point j e.op e.result <;> simp [hij]

theorem nodup_pointOrder (h : ∀ i, ((view i l).countP fun e ↦ point i e.op e.result) ≤ 1) :
    (pointOrder point l).Nodup := by
  rw [List.nodup_iff_count_le_one]
  intro i
  rw [count_pointOrder]
  exact h i

end PointOrder

/-! ## The history -/

section Linearize

variable [DecidableEq ι] {sem : Semantics Op Res ε σ} {c c' : Pool ι Op Res ε α σ}
  {l : List (ι × Event Op Res ε σ)} {point : ι → (o : Op) → Except ε (Res o) → Bool}

/-- **Linearization.** If every action that is not a point keeps the pool related to the history,
and every point does when its call happens there at once, then the run is explained by the calls in
the order of their points. -/
theorem Pool.Steps.linearize {abs : Pool ι Op Res ε α σ → τ → Prop}
    {spec : ι × κ → τ → τ → Prop} {t₀ : τ} (hc : abs c t₀)
    (hother : ∀ l₁ x l₂ c₁ c₂, l = l₁ ++ x :: l₂ → Steps sem c l₁ c₁ → Steps sem c₁ [x] c₂ →
      point x.1 x.2.op x.2.result = false → ∀ t, abs c₁ t → abs c₂ t)
    (hpoint : ∀ l₁ x l₂ c₁ c₂, l = l₁ ++ x :: l₂ → Steps sem c l₁ c₁ → Steps sem c₁ [x] c₂ →
      point x.1 x.2.op x.2.result = true →
      ∀ t, abs c₁ t → ∃ k t', spec (x.1, k) t t' ∧ abs c₂ t')
    (h : Steps sem c l c') :
    ∃ ks t', ks.map Prod.fst = pointOrder point l ∧ Serially spec t₀ ks t' ∧ abs c' t' := by
  -- along the run, with what is still to come
  have hprefix : ∀ {l₁ c₁}, Steps sem c l₁ c₁ → ∀ l₂, l = l₁ ++ l₂ →
      ∃ ks t', ks.map Prod.fst = pointOrder point l₁ ∧ Serially spec t₀ ks t' ∧ abs c₁ t' := by
    intro l₁ c₁ h₁
    induction h₁ with
    | nil => exact fun _ _ ↦ ⟨[], t₀, rfl, .nil _, hc⟩
    | @snoc c₁ l₁ i o k r s' h₁ hk hs ih =>
      intro l₂ hl
      rw [List.append_assoc, List.singleton_append] at hl
      obtain ⟨ks, t, horder, hserial, habs⟩ := ih _ hl
      have hstep := (Steps.nil c₁).snoc hk hs
      rw [pointOrder_append, pointOrder_singleton, ← horder]
      cases hp : point i o r with
      | true =>
        obtain ⟨k', t', hspec, habs'⟩ := hpoint _ _ _ _ _ hl h₁ hstep hp t habs
        exact ⟨ks ++ [(i, k')], t', by simp, hserial.snoc hspec, habs'⟩
      | false => exact ⟨ks, t, by simp, hserial, hother _ _ _ _ _ hl h₁ hstep hp t habs⟩
  exact hprefix h [] (List.append_nil l).symm

end Linearize

end Concurrent
