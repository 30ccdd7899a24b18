import Mathlib.Data.List.Count
import Wrongthink.Concurrent.Phase

/-!
# Check, then act

A thread looks whether there is something, finds nothing, and makes it. The two are separate steps,
so another thread may have made it in between, and then there are two. That is also the only way to
get two: where nobody acts between the check of a thread and the act that it prepares
(`Undisturbed`), what was true at the check is true at the act (`eq_zero_iff`), and so at most one
thing is ever made (`le_one_iff`).

What is there is counted by a function `n` of the state, which every act increases by one and
nothing else changes.
-/

namespace Concurrent

variable {ι Op : Type} {Res : Op → Type} {ε α σ : Type} {sem : Semantics Op Res ε σ} {s s' : σ}

section Definitions

variable [DecidableEq ι] (check act : Event Op Res ε σ → Prop) (l : List (ι × Event Op Res ε σ))

/-- Every act is the next thing that its thread does after a check. -/
def Prepared : Prop := ∀ l₁ i e' l₂, l = l₁ ++ (i, e') :: l₂ → act e' →
  ∃ l₀ e m, l₁ = l₀ ++ (i, e) :: m ∧ view i m = [] ∧ check e

/-- Nobody acts between a check and the act that it prepares. -/
def Undisturbed : Prop := ∀ l₀ i e m e' l₂, l = l₀ ++ (i, e) :: (m ++ (i, e') :: l₂) →
  view i m = [] → check e → act e' → ∀ x ∈ m, ¬act x.2

end Definitions

theorem Pool.Steps.allowed_next [DecidableEq ι] {S : Type}
    {next : (o : Op) → Except ε (Res o) → S} {allowed : S → Op → Prop} {Q : S → Prop} {s₀ : S}
    {c c' : Pool ι Op Res ε α σ} {l l₀ m l₂ : List (ι × Event Op Res ε σ)} {i : ι}
    {e e' : Event Op Res ε σ} (hc : (c.thread i).Phased next allowed Q s₀)
    (h : Pool.Steps sem c l c') (hl : l = l₀ ++ (i, e) :: (m ++ (i, e') :: l₂))
    (hview : view i m = []) : allowed (next e.op e.result) e'.op := by
  have htrace := h.view_trace i
  have hsplit : view i l = view i (l₀ ++ [(i, e)]) ++ e' :: view i l₂ := by
    rw [hl, view_append, view_cons_self, view_append, hview, view_cons_self, view_append,
      view_cons_self, view_nil]
    simp
  rw [hsplit] at htrace
  have hallowed := hc.allowed_of_trace htrace
  rw [phaseAfter_snoc_self] at hallowed
  exact hallowed

theorem Pool.Steps.prepared [DecidableEq ι] {S : Type} {next : (o : Op) → Except ε (Res o) → S}
    {allowed : S → Op → Prop} {Q : S → Prop} {s₀ : S} {check act : Event Op Res ε σ → Prop}
    {c c' : Pool ι Op Res ε α σ} {l : List (ι × Event Op Res ε σ)}
    (hc : ∀ i, (c.thread i).Phased next allowed Q s₀)
    (hact : ∀ e' t, act e' → allowed t e'.op →
      t ≠ s₀ ∧ ∀ e : Event Op Res ε σ, next e.op e.result = t → check e)
    (h : Pool.Steps sem c l c') : Prepared check act l := by
  intro l₁ i e' l₂ hl hae'
  have htrace := h.view_trace i
  rw [hl, view_append, view_cons_self] at htrace
  obtain ⟨hne, hcheck⟩ := hact e' _ hae' ((hc i).allowed_of_trace htrace)
  obtain ⟨l₀, e, m, hl₁, hview, hnext⟩ := exists_of_phaseAfter_ne hne
  exact ⟨l₀, e, m, hl₁, hview, hcheck e hnext⟩

/-! ## Counting -/

variable {n : σ → ℕ} {check act : Event Op Res ε σ → Prop} [DecidablePred act]

theorem Run.count {tr : List (Event Op Res ε σ)}
    (hn : ∀ e ∈ tr, sem e.op e.before e.result e.after →
      n e.after = n e.before + if act e then 1 else 0)
    (h : Run sem s tr s') : n s' = n s + tr.countP act := by
  induction h with
  | nil s => simp
  | cons e he _ ih =>
    obtain ⟨hne, hntr⟩ := List.forall_mem_cons.mp hn
    rw [ih hntr, hne he, List.countP_cons]
    simp only [decide_eq_true_eq]
    omega

variable {l : List (ι × Event Op Res ε σ)}
  (hn : ∀ x ∈ l, sem x.2.op x.2.before x.2.result x.2.after →
    n x.2.after = n x.2.before + if act x.2 then 1 else 0)
  (h : Run sem s (l.map Prod.snd) s')

include hn h

theorem count_before {l₁ l₂ : List (ι × Event Op Res ε σ)} {x : ι × Event Op Res ε σ}
    (hl : l = l₁ ++ x :: l₂) : n x.2.before = n s + (l₁.map Prod.snd).countP act := by
  subst hl
  rw [List.map_append, List.map_cons, run_append_iff] at h
  obtain ⟨s₁, h₁, h₂⟩ := h
  obtain ⟨hs₁, _⟩ := run_cons_iff.mp h₂
  rw [hs₁]
  refine h₁.count fun e he hsem ↦ ?_
  obtain ⟨y, hy, rfl⟩ := List.mem_map.mp he
  exact hn y (List.mem_append_left _ hy) hsem

/-- **Between a check and the act that it prepares.** If there was nothing at the check, there is
nothing at the act exactly if nobody has acted since. -/
theorem eq_zero_iff {l₀ m l₂ : List (ι × Event Op Res ε σ)} {x y : ι × Event Op Res ε σ}
    (hl : l = l₀ ++ x :: (m ++ y :: l₂)) (hx : n x.2.before = 0) (hact : ¬act x.2) :
    n y.2.before = 0 ↔ ∀ z ∈ m, ¬act z.2 := by
  have hbefore : n x.2.before = n s + (l₀.map Prod.snd).countP act := count_before hn h hl
  have hl' : l = (l₀ ++ x :: m) ++ y :: l₂ := by rw [hl]; simp
  have hafter : n y.2.before = n s + ((l₀ ++ x :: m).map Prod.snd).countP act :=
    count_before hn h hl'
  have hm : n y.2.before = (m.map Prod.snd).countP act := by
    rw [hafter, List.map_append, List.map_cons, List.countP_append, List.countP_cons,
      if_neg (by simpa using hact)]
    omega
  rw [hm, List.countP_eq_zero]
  simp only [List.mem_map, decide_eq_true_eq]
  constructor
  · exact fun hnone z hz ↦ hnone z.2 ⟨z, hz, rfl⟩
  · rintro hnone _ ⟨z, hz, rfl⟩
    exact hnone z hz

/-- **At most one.** Where every act is prepared by a check that finds nothing, at most one thing
has come to be if and only if no act was disturbed. -/
theorem le_one_iff [DecidableEq ι] (hprep : Prepared check act l)
    (hcheck : ∀ x ∈ l, check x.2 → n x.2.before = 0 ∧ ¬act x.2) (hs : n s ≤ 1) :
    n s' ≤ 1 ↔ Undisturbed check act l := by
  have hcount : n s' = n s + (l.map Prod.snd).countP act := by
    refine h.count fun e he hsem ↦ ?_
    obtain ⟨y, hy, rfl⟩ := List.mem_map.mp he
    exact hn y hy hsem
  constructor
  · intro hle l₀ i e m e' l₂ hl hview hce hae' x hx hax
    -- the act in between and the act at the end are two
    have htwo : 2 ≤ (l.map Prod.snd).countP act := by
      rw [hl]
      have hone : 0 < (m.map Prod.snd).countP act :=
        List.countP_pos_iff.mpr ⟨x.2, List.mem_map_of_mem hx, by simpa using hax⟩
      simp only [List.map_append, List.map_cons, List.countP_append, List.countP_cons,
        decide_eq_true hae', if_true]
      omega
    omega
  · intro hundisturbed
    by_cases hsome : ∃ x ∈ l, act x.2
    · -- the last act found nothing, and none came after it
      obtain ⟨l₁, ⟨i, e'⟩, l₂, hl, hact, hlast⟩ := exists_last hsome
      obtain ⟨l₀, e, m, rfl, hview, hce⟩ := hprep l₁ i e' l₂ hl hact
      have hl' : l = l₀ ++ (i, e) :: (m ++ (i, e') :: l₂) := by rw [hl]; simp
      obtain ⟨hzero, hnot⟩ := hcheck (i, e) (by rw [hl']; simp) hce
      have hbefore : n e'.before = 0 := (eq_zero_iff hn h hl' hzero hnot).mpr
        (hundisturbed l₀ i e m e' l₂ hl' hview hce hact)
      have hfirst : n e'.before = n s + ((l₀ ++ (i, e) :: m).map Prod.snd).countP act :=
        count_before hn h hl
      have hrest : (l₂.map Prod.snd).countP act = 0 := by
        rw [List.countP_eq_zero]
        intro f hf
        obtain ⟨y, hy, rfl⟩ := List.mem_map.mp hf
        simpa using hlast y hy
      rw [hcount, hl, List.map_append, List.map_cons, List.countP_append, List.countP_cons, hrest,
        if_pos (by simpa using hact)]
      omega
    · have hzero : (l.map Prod.snd).countP act = 0 := by
        rw [List.countP_eq_zero]
        intro e he
        obtain ⟨y, hy, rfl⟩ := List.mem_map.mp he
        simpa using fun hact ↦ hsome ⟨y, hy, hact⟩
      omega

end Concurrent
