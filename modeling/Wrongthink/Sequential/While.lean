import Mathlib.Data.List.Basic

/-!
# Loops

The loop `while (test) body` over a state, whose body may throw. A turn is one function: it answers
`none` where the test fails, and otherwise what the body comes to. The loop counts its turns, and
runs on fuel; what it comes to does not depend on how much (`whileLoop_unique`).

The rule for it (`whileLoop_of_variant`) asks for an invariant and for a variant that every turn
lowers by one, so that the variant at the start is the number of turns.
-/

namespace Sequential

variable {σ ε : Type}

/-- Turn after turn, for no more than `fuel` evaluations of the test. -/
def whileLoop (turn : σ → Option (Except ε σ)) : ℕ → σ → Option (Except ε (σ × ℕ))
  | 0, _ => none
  | fuel + 1, s =>
    match turn s with
    | none => some (.ok (s, 0))
    | some (.error e) => some (.error e)
    | some (.ok s') => (whileLoop turn fuel s').map (·.map fun x ↦ (x.1, x.2 + 1))

variable {turn : σ → Option (Except ε σ)}

/-- **Invariant and variant.** -/
theorem whileLoop_of_variant {I : σ → Prop} {μ : σ → ℕ}
    (hexit : ∀ s, I s → μ s = 0 → turn s = none)
    (hturn : ∀ s, I s → μ s ≠ 0 → ∃ s', turn s = some (.ok s') ∧ I s' ∧ μ s = μ s' + 1) {s : σ}
    (hs : I s) {fuel : ℕ} (hfuel : μ s < fuel) :
    ∃ s', whileLoop turn fuel s = some (.ok (s', μ s)) ∧ I s' ∧ μ s' = 0 := by
  induction fuel generalizing s with
  | zero => exact absurd hfuel (Nat.not_lt_zero _)
  | succ fuel ih =>
    by_cases hzero : μ s = 0
    · exact ⟨s, by rw [whileLoop, hexit s hs hzero, hzero], hs, hzero⟩
    · obtain ⟨s₁, hs₁, hI, hμ⟩ := hturn s hs hzero
      obtain ⟨s', hloop, hs'⟩ := ih hI (by omega)
      refine ⟨s', ?_, hs'⟩
      rw [whileLoop, hs₁]
      dsimp only
      rw [hloop, hμ]
      rfl

theorem whileLoop_mono {fuel fuel' : ℕ} (hle : fuel ≤ fuel') {s : σ} {x : Except ε (σ × ℕ)}
    (h : whileLoop turn fuel s = some x) : whileLoop turn fuel' s = some x := by
  induction fuel generalizing fuel' s x with
  | zero => cases h
  | succ fuel ih =>
    obtain ⟨fuel', rfl⟩ : ∃ n, fuel' = n + 1 := ⟨fuel' - 1, by omega⟩
    rw [whileLoop] at h ⊢
    rcases hturn : turn s with _ | e | s'
    · rwa [hturn] at h
    · rwa [hturn] at h
    · rw [hturn] at h
      obtain ⟨y, hy, rfl⟩ := Option.map_eq_some_iff.mp h
      dsimp only
      rw [ih (by omega) hy]
      rfl

theorem whileLoop_unique {fuel fuel' : ℕ} {s : σ} {x x' : Except ε (σ × ℕ)}
    (h : whileLoop turn fuel s = some x) (h' : whileLoop turn fuel' s = some x') : x = x' := by
  rcases Nat.le_total fuel fuel' with hle | hle
  · exact Option.some.inj ((whileLoop_mono hle h).symm.trans h')
  · exact Option.some.inj (h.symm.trans (whileLoop_mono hle h'))

end Sequential
