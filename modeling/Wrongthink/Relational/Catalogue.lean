import Mathlib.Data.Fintype.Defs
import Mathlib.Logic.Function.Basic

/-!
# Tables that come and go

A catalogue says which tables a database has and what they contain. A table may refer to others, and
an engine that enforces this refuses to drop a table while another one refers to it, and to create
one that refers to a table which is not there (`Catalogue.exec`).

A script drops or creates tables one after the other. Each statement is a transaction of its own, so
a script that is cut off leaves what it has done until then. If tables are dropped after those that
refer to them (`DependentsFirst`), and created after those they refer to (`ReferencesFirst`), then
nothing is ever refused, whichever tables there were and wherever an earlier script was cut off
(`run_drops`, `run_creates`).
-/

namespace Relational

open Function

variable {τ : Type} {C : τ → Type}

/-- The tables that there are, with their contents. -/
abbrev Catalogue (C : τ → Type) := (T : τ) → Option (C T)

inductive Ddl (τ : Type) where
  /-- `drop table if exists` -/
  | drop (T : τ)
  /-- `create table if not exists` -/
  | create (T : τ)

namespace Catalogue

/-- The contents, where a table that is not there counts as one without rows. -/
def filled (new : (T : τ) → C T) (k : Catalogue C) (T : τ) : C T := (k T).getD (new T)

variable [DecidableEq τ] [Fintype τ] (refs : τ → List τ) (new : (T : τ) → C T)

/-- One statement, if the engine accepts it. -/
def exec (k : Catalogue C) : Ddl τ → Option (Catalogue C)
  | .drop T =>
    match k T with
    | none => some k
    | some _ =>
      if ∃ U, U ≠ T ∧ T ∈ refs U ∧ (k U).isSome then none else some (update k T none)
  | .create T =>
    match k T with
    | some _ => some k
    | none =>
      if ∀ U ∈ refs T, U = T ∨ (k U).isSome then some (update k T (some (new T))) else none

/-- Statement after statement, until one is refused. Says whether none was. -/
def run : List (Ddl τ) → Catalogue C → Bool × Catalogue C
  | [], k => (true, k)
  | s :: ss, k =>
    match exec refs new k s with
    | some k' => run ss k'
    | none => (false, k)

end Catalogue

/-! ## Orders -/

/-- Every table comes after all those that refer to it, some of which are gone already. -/
def DependentsFirst (refs : τ → List τ) : List τ → List τ → Prop
  | _, [] => True
  | gone, T :: Ts => (∀ U, T ∈ refs U → U = T ∨ U ∈ gone) ∧ DependentsFirst refs (T :: gone) Ts

/-- Every table comes after all those it refers to, some of which are there already. -/
def ReferencesFirst (refs : τ → List τ) : List τ → List τ → Prop
  | _, [] => True
  | there, T :: Ts => (∀ U ∈ refs T, U = T ∨ U ∈ there) ∧ ReferencesFirst refs (T :: there) Ts

variable {refs : τ → List τ} {gone there Ts : List τ}

theorem DependentsFirst.take (h : DependentsFirst refs gone Ts) (n : ℕ) :
    DependentsFirst refs gone (Ts.take n) := by
  induction Ts generalizing gone n with
  | nil => simpa using h
  | cons T Ts ih =>
    cases n with
    | zero => trivial
    | succ n => exact ⟨h.1, ih h.2 n⟩

theorem ReferencesFirst.take (h : ReferencesFirst refs there Ts) (n : ℕ) :
    ReferencesFirst refs there (Ts.take n) := by
  induction Ts generalizing there n with
  | nil => simpa using h
  | cons T Ts ih =>
    cases n with
    | zero => trivial
    | succ n => exact ⟨h.1, ih h.2 n⟩

theorem DependentsFirst.mem (h : DependentsFirst refs gone Ts) {T U : τ} (hU : U ∈ Ts)
    (hT : U ∈ refs T) : T ∈ gone ∨ T ∈ Ts := by
  induction Ts generalizing gone with
  | nil => cases hU
  | cons V Ts ih =>
    rcases List.mem_cons.mp hU with rfl | hU
    · rcases h.1 T hT with rfl | hgone
      · exact .inr List.mem_cons_self
      · exact .inl hgone
    · rcases ih h.2 hU with hgone | hmem
      · rcases List.mem_cons.mp hgone with rfl | hgone
        · exact .inr List.mem_cons_self
        · exact .inl hgone
      · exact .inr (List.mem_cons_of_mem _ hmem)

/-! ## Scripts -/

namespace Catalogue

variable [DecidableEq τ] [Fintype τ] {new : (T : τ) → C T} {k : Catalogue C}

theorem run_append (ss ss' : List (Ddl τ)) (k : Catalogue C) {k' : Catalogue C}
    (h : run refs new ss k = (true, k')) : run refs new (ss ++ ss') k = run refs new ss' k' := by
  induction ss generalizing k with
  | nil =>
    cases h
    rfl
  | cons s ss ih =>
    rw [List.cons_append, run]
    rw [run] at h
    cases hexec : exec refs new k s with
    | none =>
      rw [hexec] at h
      cases h
    | some k₁ =>
      rw [hexec] at h
      exact ih k₁ h

theorem exec_drop {T : τ} (hgone : ∀ U, T ∈ refs U → U = T ∨ k U = none) :
    exec refs new k (.drop T) = some (update k T none) := by
  rw [exec]
  cases hk : k T with
  | none => rw [update_eq_self_iff.mpr hk.symm]
  | some x =>
    dsimp only
    rw [if_neg]
    rintro ⟨U, hne, hmem, hsome⟩
    rcases hgone U hmem with heq | hnone
    · exact hne heq
    · rw [hnone] at hsome
      cases hsome

theorem exec_create {T : τ} (hthere : ∀ U ∈ refs T, U = T ∨ (k U).isSome) :
    exec refs new k (.create T) = some (update k T (some (k.filled new T))) := by
  rw [exec]
  cases hk : k T with
  | some x =>
    have hx : some (k.filled new T) = k T := by rw [filled, hk, Option.getD_some]
    dsimp only
    rw [update_eq_self_iff.mpr hx]
  | none =>
    dsimp only
    rw [if_pos hthere, filled, hk, Option.getD_none]

/-- **Drops in order are not refused.** What they leave is what they do not name. -/
theorem run_drops (h : DependentsFirst refs gone Ts) (hgone : ∀ T ∈ gone, k T = none) :
    run refs new (Ts.map .drop) k = (true, fun T ↦ if T ∈ Ts then none else k T) := by
  induction Ts generalizing gone k with
  | nil => simp [run]
  | cons T Ts ih =>
    have hexec : exec refs new k (.drop T) = some (update k T none) :=
      exec_drop fun U hU ↦ (h.1 U hU).imp_right (hgone U)
    rw [List.map_cons, run, hexec]
    dsimp only
    rw [ih h.2 fun U hU ↦ ?_]
    · congr 1
      funext U
      by_cases hU : U = T
      · subst hU
        simp
      · simp [hU]
    · by_cases hUT : U = T
      · rw [hUT, update_self]
      · rw [update_of_ne hUT]
        exact hgone U ((List.mem_cons.mp hU).resolve_left hUT)

/-- **Creations in order are not refused.** They leave alone what is there. -/
theorem run_creates (h : ReferencesFirst refs there Ts) (hthere : ∀ T ∈ there, (k T).isSome) :
    run refs new (Ts.map .create) k =
      (true, fun T ↦ if T ∈ Ts then some (k.filled new T) else k T) := by
  induction Ts generalizing there k with
  | nil => simp [run]
  | cons T Ts ih =>
    have hexec : exec refs new k (.create T) = some (update k T (some (k.filled new T))) :=
      exec_create fun U hU ↦ (h.1 U hU).imp_right (hthere U)
    rw [List.map_cons, run, hexec]
    dsimp only
    rw [ih h.2 fun U hU ↦ ?_]
    · congr 1
      funext U
      by_cases hU : U = T
      · subst hU
        simp [filled]
      · simp [hU, filled]
    · by_cases hUT : U = T
      · rw [hUT, update_self]
        rfl
      · rw [update_of_ne hUT]
        exact hthere U ((List.mem_cons.mp hU).resolve_left hUT)

end Catalogue

end Relational
