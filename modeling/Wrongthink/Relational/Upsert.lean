import Mathlib.Data.List.Induction

/-!
# Rows that replace one another

`upsert` writes a row in the place of the one with its key, and appends it where there is none. A
table that is only ever written this way holds, for each key, the row that was written last
(`filter_upserts`): it is a map, in which the last writer wins.
-/

namespace Relational

variable {ρ κ : Type} [DecidableEq κ] {key : ρ → κ} {r : ρ} {l : List ρ}

/-- The row `s`, unless it has the key of `r`. -/
def overwrite (key : ρ → κ) (r s : ρ) : ρ := if key s = key r then r else s

def upsert (key : ρ → κ) (l : List ρ) (r : ρ) : List ρ :=
  if l.any (key · = key r) then l.map (overwrite key r) else l ++ [r]

/-- Writing row after row into an empty table. -/
def upserts (key : ρ → κ) (rs : List ρ) : List ρ := rs.foldl (upsert key) []

theorem key_overwrite (r s : ρ) : key (overwrite key r s) = key s := by
  rw [overwrite]
  split
  · next h => exact h.symm
  · rfl

theorem filter_map_overwrite (k : κ) :
    ((l.map (overwrite key r)).filter fun s ↦ key s = k) =
      (l.filter fun s ↦ key s = k).map (overwrite key r) := by
  simp [List.filter_map, Function.comp_def, key_overwrite]

theorem filter_upsert_of_ne {k : κ} (h : k ≠ key r) :
    ((upsert key l r).filter fun s ↦ key s = k) = l.filter fun s ↦ key s = k := by
  rw [upsert]
  split
  · rw [filter_map_overwrite]
    have hkeep : ∀ s ∈ l.filter (fun s ↦ key s = k), overwrite key r s = id s := by
      intro s hs
      have hsk : key s = k := of_decide_eq_true (List.mem_filter.mp hs).2
      exact if_neg (hsk ▸ h)
    rw [List.map_congr_left hkeep, List.map_id]
  · rw [List.filter_append, List.filter_cons_of_neg (by simpa using h.symm), List.filter_nil,
      List.append_nil]

/-- The key that is written has the new row, and no other if it had at most one before. -/
theorem filter_upsert_self (h : (l.filter fun s ↦ key s = key r).length ≤ 1) :
    ((upsert key l r).filter fun s ↦ key s = key r) = [r] := by
  rw [upsert]
  split
  · next hany =>
    obtain ⟨s, hs, hsk⟩ := List.any_eq_true.mp hany
    obtain ⟨t, ht⟩ := List.length_eq_one_iff.mp
      (Nat.le_antisymm h (List.length_pos_of_mem (List.mem_filter.mpr ⟨hs, hsk⟩)))
    have htk : key t = key r := by
      have hmem : t ∈ l.filter fun s ↦ key s = key r := by simp [ht]
      exact of_decide_eq_true (List.mem_filter.mp hmem).2
    rw [filter_map_overwrite, ht, List.map_singleton, overwrite, if_pos htk]
  · next hany =>
    have hnone : (l.filter fun s ↦ key s = key r) = [] := by
      rw [List.filter_eq_nil_iff]
      simpa using hany
    rw [List.filter_append, hnone]
    simp

theorem mem_upsert_self (key : ρ → κ) (l : List ρ) (r : ρ) : r ∈ upsert key l r := by
  rw [upsert]
  split
  · next hany =>
    obtain ⟨s, hs, hsk⟩ := List.any_eq_true.mp hany
    exact List.mem_map.mpr ⟨s, hs, if_pos (of_decide_eq_true hsk)⟩
  · exact List.mem_append_right _ (List.mem_singleton_self r)

theorem eq_of_mem_upsert {s : ρ} (hs : s ∈ upsert key l r) (hkey : key s = key r) : s = r := by
  rw [upsert] at hs
  split at hs
  · obtain ⟨t, _, rfl⟩ := List.mem_map.mp hs
    exact if_pos ((key_overwrite r t).symm.trans hkey)
  · next hany =>
    rcases List.mem_append.mp hs with hs | hs
    · exact absurd (List.any_eq_true.mpr ⟨s, hs, decide_eq_true hkey⟩) hany
    · exact List.mem_singleton.mp hs

theorem mem_of_mem_upsert {s : ρ} (hs : s ∈ upsert key l r) : s ∈ l ∨ s = r := by
  rw [upsert] at hs
  split at hs
  · obtain ⟨t, ht, rfl⟩ := List.mem_map.mp hs
    rw [overwrite]
    split
    · exact .inr rfl
    · exact .inl ht
  · rcases List.mem_append.mp hs with hs | hs
    · exact .inl hs
    · exact .inr (List.mem_singleton.mp hs)

theorem upserts_concat (key : ρ → κ) (rs : List ρ) (r : ρ) :
    upserts key (rs ++ [r]) = upsert key (upserts key rs) r := by
  rw [upserts, List.foldl_append]
  rfl

theorem mem_of_mem_upserts {rs : List ρ} {s : ρ} (hs : s ∈ upserts key rs) : s ∈ rs := by
  induction rs using List.reverseRecOn with
  | nil => exact hs
  | append_singleton rs r ih =>
    rw [upserts_concat] at hs
    rcases mem_of_mem_upsert hs with hs | rfl
    · exact List.mem_append_left _ (ih hs)
    · exact List.mem_append_right _ (List.mem_singleton_self _)

/-- **The last writer wins.** -/
theorem filter_upserts (key : ρ → κ) (rs : List ρ) (k : κ) :
    ((upserts key rs).filter fun s ↦ key s = k) =
      (rs.filter fun s ↦ key s = k).getLast?.toList := by
  induction rs using List.reverseRecOn with
  | nil => rfl
  | append_singleton rs r ih =>
    rw [upserts_concat, List.filter_append]
    by_cases h : k = key r
    · subst h
      have hle : ((upserts key rs).filter fun s ↦ key s = key r).length ≤ 1 := by
        rw [ih]
        exact Option.length_toList_le
      rw [filter_upsert_self hle, List.filter_cons_of_pos (by simp), List.filter_nil,
        List.getLast?_concat, Option.toList_some]
    · rw [filter_upsert_of_ne h, ih, List.filter_cons_of_neg (by simpa using Ne.symm h),
        List.filter_nil, List.append_nil]

end Relational
