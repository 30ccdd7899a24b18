import Mathlib.Data.List.Induction
import Mathlib.Data.List.Perm.Basic

/-!
# Lists whose entries belong to someone

An interleaving is a list of entries, each with the thread it belongs to. The `view` of a thread is
its own entries, in their order. Two interleavings with the same views are permutations of each
other (`perm_of_view_eq`), and no more than that can be said in general: the views do not tell in
which order entries of different threads come.

Where every thread's entries come in pairs and no thread cuts in between the two of a pair, the
interleaving itself consists of pairs (`exists_pairs`).
-/

namespace Concurrent

variable {ι κ μ : Type}

/-- Apply `f` to the entries and keep whose they are. -/
def tagged (f : κ → Option μ) (l : List (ι × κ)) : List (ι × μ) :=
  l.filterMap fun x ↦ (f x.2).map fun y ↦ (x.1, y)

theorem map_snd_tagged (f : κ → Option μ) (l : List (ι × κ)) :
    (tagged f l).map Prod.snd = (l.map Prod.snd).filterMap f := by
  rw [tagged, List.map_filterMap, List.filterMap_map]
  congr 1
  funext x
  simp [Function.comp_def]

theorem tagged_cons_none {f : κ → Option μ} {i : ι} {k : κ} {l : List (ι × κ)} (h : f k = none) :
    tagged f ((i, k) :: l) = tagged f l := by
  rw [tagged, List.filterMap_cons_none (by rw [h, Option.map_none]), tagged]

theorem tagged_cons_some {f : κ → Option μ} {i : ι} {k : κ} {l : List (ι × κ)} {y : μ}
    (h : f k = some y) : tagged f ((i, k) :: l) = (i, y) :: tagged f l := by
  rw [tagged, List.filterMap_cons_some (by rw [h, Option.map_some]), tagged]

variable [DecidableEq ι]

/-- The entries of one thread. -/
def view (i : ι) (l : List (ι × κ)) : List κ := (l.filter fun x ↦ x.1 = i).map Prod.snd

@[simp] theorem view_nil (i : ι) : view i ([] : List (ι × κ)) = [] := rfl

theorem view_append (i : ι) (l l' : List (ι × κ)) : view i (l ++ l') = view i l ++ view i l' := by
  rw [view, List.filter_append, List.map_append, view, view]

theorem view_cons_self (i : ι) (k : κ) (l : List (ι × κ)) :
    view i ((i, k) :: l) = k :: view i l := by
  simp [view]

theorem view_cons_of_ne {i j : ι} (h : j ≠ i) (k : κ) (l : List (ι × κ)) :
    view i ((j, k) :: l) = view i l := by
  simp [view, h]

theorem mem_view {i : ι} {k : κ} {l : List (ι × κ)} : k ∈ view i l ↔ (i, k) ∈ l := by
  simp only [view, List.mem_map, List.mem_filter, decide_eq_true_eq]
  constructor
  · rintro ⟨⟨j, k'⟩, ⟨hmem, rfl⟩, rfl⟩
    exact hmem
  · intro h
    exact ⟨(i, k), ⟨h, rfl⟩, rfl⟩

theorem view_sublist (i : ι) (l : List (ι × κ)) : (view i l).Sublist (l.map Prod.snd) :=
  List.filter_sublist.map Prod.snd

theorem exists_of_view_eq_append {i : ι} {k : κ} {l : List (ι × κ)} {s s' : List κ}
    (h : view i l = s ++ k :: s') :
    ∃ l₁ l₂, l = l₁ ++ (i, k) :: l₂ ∧ view i l₁ = s ∧ view i l₂ = s' := by
  induction l generalizing s with
  | nil => simp at h
  | cons x l ih =>
    obtain ⟨j, k'⟩ := x
    by_cases hij : j = i
    · subst hij
      rw [view_cons_self] at h
      cases s with
      | nil =>
        rw [List.nil_append, List.cons.injEq] at h
        obtain ⟨rfl, rfl⟩ := h
        exact ⟨[], l, rfl, rfl, rfl⟩
      | cons k₁ s =>
        rw [List.cons_append, List.cons.injEq] at h
        obtain ⟨rfl, h⟩ := h
        obtain ⟨l₁, l₂, rfl, rfl, rfl⟩ := ih h
        exact ⟨(j, k') :: l₁, l₂, rfl, view_cons_self _ _ _, rfl⟩
    · rw [view_cons_of_ne hij] at h
      obtain ⟨l₁, l₂, rfl, rfl, rfl⟩ := ih h
      exact ⟨(j, k') :: l₁, l₂, rfl, view_cons_of_ne hij _ _, rfl⟩

theorem exists_eq_append_of_getLast?_view {i : ι} {k : κ} {l : List (ι × κ)}
    (h : (view i l).getLast? = some k) : ∃ l₀ m, l = l₀ ++ (i, k) :: m ∧ view i m = [] := by
  induction l using List.reverseRecOn with
  | nil => simp at h
  | append_singleton l x ih =>
    obtain ⟨j, k'⟩ := x
    by_cases hij : j = i
    · subst hij
      rw [view_append, view_cons_self, view_nil, List.getLast?_concat, Option.some.injEq] at h
      subst h
      exact ⟨l, [], rfl, rfl⟩
    · rw [view_append, view_cons_of_ne hij, view_nil, List.append_nil] at h
      obtain ⟨l₀, m, rfl, hm⟩ := ih h
      refine ⟨l₀, m ++ [(j, k')], by simp, ?_⟩
      rw [view_append, hm, view_cons_of_ne hij]
      rfl

/-- Two places where a thread has an entry, behind the second of which it has none: they are the
same, or the second comes later. -/
theorem eq_or_exists_of_view_eq_nil {i : ι} {k k' : κ} {l₀ l₁ m m' : List (ι × κ)}
    (h : l₀ ++ (i, k) :: m = l₁ ++ (i, k') :: m') (hm' : view i m' = []) :
    (k = k' ∧ m = m') ∨ ∃ m₀, m = m₀ ++ (i, k') :: m' := by
  rcases List.append_eq_append_iff.mp h with ⟨xs, _, htail⟩ | ⟨xs, _, htail⟩
  · cases xs with
    | nil =>
      rw [List.nil_append, List.cons.injEq, Prod.mk.injEq] at htail
      exact .inl ⟨htail.1.2, htail.2⟩
    | cons x xs =>
      rw [List.cons_append, List.cons.injEq] at htail
      exact .inr ⟨xs, htail.2⟩
  · cases xs with
    | nil =>
      rw [List.nil_append, List.cons.injEq, Prod.mk.injEq] at htail
      exact .inl ⟨htail.1.2.symm, htail.2.symm⟩
    | cons x xs =>
      -- then the first place lies behind the second
      rw [List.cons_append, List.cons.injEq] at htail
      rw [htail.2, view_append, view_cons_self] at hm'
      simp at hm'

theorem view_tagged (f : κ → Option μ) (i : ι) (l : List (ι × κ)) :
    view i (tagged f l) = (view i l).filterMap f := by
  induction l with
  | nil => rfl
  | cons x l ih =>
    obtain ⟨j, k⟩ := x
    by_cases hij : j = i
    · subst hij
      rw [view_cons_self]
      cases hk : f k with
      | none => rw [tagged_cons_none hk, List.filterMap_cons_none hk, ih]
      | some y => rw [tagged_cons_some hk, view_cons_self, List.filterMap_cons_some hk, ih]
    · rw [view_cons_of_ne hij]
      cases hk : f k with
      | none => rw [tagged_cons_none hk, ih]
      | some y => rw [tagged_cons_some hk, view_cons_of_ne hij, ih]

/-! ## Interleavings with the same views -/

theorem count_eq_count_view [DecidableEq κ] (i : ι) (k : κ) (l : List (ι × κ)) :
    l.count (i, k) = (view i l).count k := by
  induction l with
  | nil => rfl
  | cons x l ih =>
    obtain ⟨j, k'⟩ := x
    by_cases hij : j = i
    · subst hij
      rw [view_cons_self, List.count_cons, List.count_cons, ih]
      simp
    · rw [view_cons_of_ne hij, List.count_cons, ih]
      simp [hij]

theorem perm_of_view_eq [DecidableEq κ] {l l' : List (ι × κ)} (h : ∀ i, view i l = view i l') :
    l.Perm l' := by
  rw [List.perm_iff_count]
  rintro ⟨i, k⟩
  rw [count_eq_count_view, count_eq_count_view, h]

/-- **Pairs.** If every thread's entries come in pairs, and the first of a pair is always followed
by an entry of the same thread, the interleaving consists of pairs. -/
theorem exists_pairs {f g : μ → κ} {l : List (ι × κ)}
    (hview : ∀ i, ∃ ms : List μ, view i l = ms.flatMap fun m ↦ [f m, g m])
    (hnext : ∀ xs i m rest, l = xs ++ (i, f m) :: rest → ∃ k rest', rest = (i, k) :: rest') :
    ∃ ms : List μ, l.map Prod.snd = ms.flatMap fun m ↦ [f m, g m] := by
  match l with
  | [] => exact ⟨[], rfl⟩
  | (i, k) :: l =>
    obtain ⟨ms, hms⟩ := hview i
    rw [view_cons_self] at hms
    obtain _ | ⟨m, ms⟩ := ms
    · cases hms
    rw [List.flatMap_cons, List.cons_append, List.cons.injEq] at hms
    obtain ⟨rfl, hms⟩ := hms
    -- its partner is the next entry, and the two are taken off together
    obtain ⟨k', l', rfl⟩ := hnext [] i m l rfl
    rw [view_cons_self, List.cons_append, List.nil_append, List.cons.injEq] at hms
    obtain ⟨rfl, hms⟩ := hms
    have hview' : ∀ j, ∃ ms : List μ, view j l' = ms.flatMap fun m ↦ [f m, g m] := by
      intro j
      by_cases hij : i = j
      · subst hij
        exact ⟨ms, hms⟩
      · obtain ⟨ms', hms'⟩ := hview j
        rw [view_cons_of_ne hij, view_cons_of_ne hij] at hms'
        exact ⟨ms', hms'⟩
    have hnext' : ∀ xs j m' rest, l' = xs ++ (j, f m') :: rest →
        ∃ k rest', rest = (j, k) :: rest' := by
      intro xs j m' rest hl'
      refine hnext ((i, f m) :: (i, g m) :: xs) j m' rest ?_
      rw [hl']
      rfl
    obtain ⟨ms', hms'⟩ := exists_pairs hview' hnext'
    refine ⟨m :: ms', ?_⟩
    rw [List.map_cons, List.map_cons, hms', List.flatMap_cons]
    rfl
termination_by l.length

/-! ## Entries with what came before them -/

theorem exists_last {P : κ → Prop} {l : List κ} (h : ∃ x ∈ l, P x) :
    ∃ l₁ y l₂, l = l₁ ++ y :: l₂ ∧ P y ∧ ∀ x ∈ l₂, ¬P x := by
  induction l using List.reverseRecOn with
  | nil => simp at h
  | append_singleton l y ih =>
    by_cases hy : P y
    · exact ⟨l, y, [], rfl, hy, by simp⟩
    · have hl : ∃ x ∈ l, P x := by
        obtain ⟨x, hx, hPx⟩ := h
        rcases List.mem_append.mp hx with hx | hx
        · exact ⟨x, hx, hPx⟩
        · rw [List.mem_singleton] at hx
          subst hx
          exact absurd hPx hy
      obtain ⟨l₁, z, l₂, rfl, hz, hl₂⟩ := ih hl
      refine ⟨l₁, z, l₂ ++ [y], by simp, hz, fun x hx ↦ ?_⟩
      rcases List.mem_append.mp hx with hx | hx
      · exact hl₂ x hx
      · rw [List.mem_singleton] at hx
        subst hx
        exact hy

theorem exists_first {P : κ → Prop} {l : List κ} (h : ∃ x ∈ l, P x) :
    ∃ l₁ y l₂, l = l₁ ++ y :: l₂ ∧ P y ∧ ∀ x ∈ l₁, ¬P x := by
  have hreverse : ∃ x ∈ l.reverse, P x := by simpa using h
  obtain ⟨l₁, y, l₂, hl, hy, hl₂⟩ := exists_last hreverse
  refine ⟨l₂.reverse, y, l₁.reverse, ?_, hy, by simpa using hl₂⟩
  rw [← List.reverse_reverse l, hl]
  simp

/-- What is true of every entry and the entries before it can be checked place by place. -/
theorem forall_split_iff {P : List κ → κ → Prop} {l : List κ} :
    (∀ l₁ x l₂, l = l₁ ++ x :: l₂ → P l₁ x) ↔ ∀ n, (h : n < l.length) → P (l.take n) l[n] := by
  constructor
  · intro h n hn
    refine h (l.take n) l[n] (l.drop (n + 1)) ?_
    rw [← List.drop_eq_getElem_cons hn, List.take_append_drop]
  · rintro h l₁ x l₂ rfl
    have hn : l₁.length < (l₁ ++ x :: l₂).length := by simp
    have hx := h l₁.length hn
    rw [List.take_left', List.getElem_append_right (Nat.le_refl _)] at hx
    · simpa using hx
    · rfl

end Concurrent
