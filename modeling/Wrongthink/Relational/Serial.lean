import Mathlib.Data.Int.Order.Basic
import Mathlib.Data.List.Forall2
import Mathlib.Data.List.Nodup

/-!
# Append-only tables with a serial key

A table whose key is drawn from a sequence: rows are only ever appended, and every new row gets a
key above all the old ones. The sequence may skip values, since a database does not give back the
ones it drew for inserts that failed.

That the keys increase is carried by the structure, so a query that orders by the key is the list
of rows as it stands, and a join on the key finds at most one partner.
-/

namespace Relational

variable {ρ μ κ : Type}

/-! ## Columns without duplicates -/

/-- In a column without duplicates, looking a value up finds the row that holds it. -/
theorem find?_eq_some_iff [DecidableEq κ] {f : ρ → κ} {l : List ρ} (hl : (l.map f).Nodup) {x : κ}
    {r : ρ} : l.find? (fun r ↦ f r = x) = some r ↔ r ∈ l ∧ f r = x := by
  refine ⟨fun h ↦ ⟨List.mem_of_find?_eq_some h, by simpa using List.find?_some h⟩, ?_⟩
  rintro ⟨hr, rfl⟩
  have hsome : (l.find? fun s ↦ f s = f r).isSome := by
    rw [List.find?_isSome]
    exact ⟨r, hr, by simp⟩
  obtain ⟨s, hs⟩ := Option.isSome_iff_exists.mp hsome
  have hfs : f s = f r := by simpa using List.find?_some hs
  rw [hs, List.inj_on_of_nodup_map hl (List.mem_of_find?_eq_some hs) hr hfs]

theorem filter_eq_singleton [DecidableEq κ] {f : ρ → κ} {l : List ρ} (hl : (l.map f).Nodup) {r : ρ}
    (hr : r ∈ l) : (l.filter fun s ↦ f s = f r) = [r] := by
  induction l with
  | nil => simp at hr
  | cons s l ih =>
    rw [List.map_cons, List.nodup_cons] at hl
    rcases List.mem_cons.mp hr with rfl | hr
    · have hnone : (l.filter fun t ↦ f t = f r) = [] := by
        rw [List.filter_eq_nil_iff]
        intro t ht heq
        exact hl.1 (List.mem_map.mpr ⟨t, ht, by simpa using heq⟩)
      rw [List.filter_cons_of_pos (by simp), hnone]
    · have hne : f s ≠ f r := fun heq ↦ hl.1 (List.mem_map.mpr ⟨r, hr, heq.symm⟩)
      rw [List.filter_cons_of_neg (by simpa using hne), ih hl.2 hr]

theorem nodup_map_append_singleton {f : ρ → κ} {l : List ρ} {r : ρ} (hl : (l.map f).Nodup)
    (hr : f r ∉ l.map f) : ((l ++ [r]).map f).Nodup := by
  rw [List.map_append, List.map_singleton, List.nodup_append]
  refine ⟨hl, List.nodup_singleton _, fun a ha b hb ↦ ?_⟩
  rw [List.mem_singleton.mp hb]
  rintro rfl
  exact hr ha

theorem forall₂_of_map_eq {f : ρ → κ} {g : μ → κ} {l : List ρ} {l' : List μ}
    (h : l.map f = l'.map g) : List.Forall₂ (fun r m ↦ r ∈ l ∧ f r = g m) l l' := by
  rw [List.forall₂_and_left]
  refine ⟨fun r hr ↦ hr, ?_⟩
  rw [← List.forall₂_eq_eq_eq, List.forall₂_map_left_iff, List.forall₂_map_right_iff] at h
  exact h

theorem map_eq_of_forall₂ {R : ρ → μ → Prop} {f : ρ → κ} {g : μ → κ} {l : List ρ} {l' : List μ}
    (h : List.Forall₂ R l l') (hR : ∀ r m, R r m → f r = g m) : l.map f = l'.map g := by
  rw [← List.forall₂_eq_eq_eq, List.forall₂_map_left_iff, List.forall₂_map_right_iff]
  exact h.imp hR

theorem mem_map_filter_iff {f : ρ → κ} {l : List ρ} (hl : (l.map f).Nodup) {p q : ρ → Bool} :
    (∀ k, k ∈ (l.filter p).map f ↔ k ∈ (l.filter q).map f) ↔ ∀ r ∈ l, p r = q r := by
  have hmem : ∀ {p : ρ → Bool} {r}, r ∈ l → (f r ∈ (l.filter p).map f ↔ p r) := by
    intro p r hr
    rw [List.mem_map]
    constructor
    · rintro ⟨s, hs, hfs⟩
      rw [List.mem_filter] at hs
      rw [← List.inj_on_of_nodup_map hl hs.1 hr hfs]
      exact hs.2
    · intro hp
      exact ⟨r, List.mem_filter.mpr ⟨hr, hp⟩, rfl⟩
  constructor
  · intro h r hr
    rw [Bool.eq_iff_iff, ← hmem hr, ← hmem hr]
    exact h (f r)
  · intro h k
    rw [List.filter_congr h]

/-- If what was asked for and what was selected are shown alike, in whatever order, and what is
shown tells the rows apart, the two selections are the same. -/
theorem eq_of_shown {χ : Type} {f : ρ → κ} {g : χ → κ} {S : ρ → χ → Prop} {l order : List ρ}
    {out out' : List χ} (hl : (l.map f).Nodup) (hS : ∀ r x, S r x → f r = g x) {p q : ρ → Bool}
    (horder : ∀ r, r ∈ order ↔ r ∈ l ∧ p r) (hout : List.Forall₂ S (l.filter q) out)
    (hout' : List.Forall₂ S order out') (h : out'.Perm out) : ∀ r ∈ l, p r = q r := by
  refine (mem_map_filter_iff hl).mp fun k ↦ ?_
  have hk : k ∈ order.map f ↔ k ∈ (l.filter q).map f := by
    rw [map_eq_of_forall₂ hout' hS, map_eq_of_forall₂ hout hS]
    exact (h.map g).mem_iff
  rw [← hk]
  simp only [List.mem_map, List.mem_filter, horder]

theorem forall₂_mem_right {R : ρ → μ → Prop} {l : List ρ} {l' : List μ} (h : List.Forall₂ R l l') :
    List.Forall₂ (fun r m ↦ m ∈ l' ∧ R r m) l l' :=
  ((List.forall₂_and_left _ _).mpr ⟨fun _ hm ↦ hm, h.flip⟩).flip

theorem exists_of_forall₂ {R : ρ → μ → Prop} {l : List ρ} {l' : List μ} (h : List.Forall₂ R l l')
    {r : ρ} (hr : r ∈ l) : ∃ m ∈ l', R r m := by
  induction h with
  | nil => cases hr
  | @cons s m l l' hsm _ ih =>
    rcases List.mem_cons.mp hr with rfl | hr
    · exact ⟨m, List.mem_cons_self, hsm⟩
    · obtain ⟨m', hm', hrm⟩ := ih hr
      exact ⟨m', List.mem_cons_of_mem _ hm', hrm⟩

theorem mem_zip_append_singleton {l : List ρ} {l' : List μ} (h : l.length = l'.length) (r : ρ)
    (m : μ) : (r, m) ∈ (l ++ [r]).zip (l' ++ [m]) := by
  rw [List.zip_append h]
  simp

theorem zip_subset_of_grown {l₁ l₂ : List ρ} {l₁' l₂' : List μ} (h : l₁ <+: l₂)
    (h' : l₁' <+: l₂') : l₁.zip l₁' ⊆ l₂.zip l₂' := by
  induction l₁ generalizing l₂ l₁' l₂' with
  | nil => exact List.nil_subset _
  | cons r l₁ ih =>
    cases l₁' with
    | nil => exact List.nil_subset _
    | cons m l₁' =>
      obtain ⟨new, rfl⟩ := h
      obtain ⟨new', rfl⟩ := h'
      rw [List.cons_append, List.cons_append, List.zip_cons_cons, List.zip_cons_cons]
      exact List.cons_subset_cons _ (ih (List.prefix_append _ _) (List.prefix_append _ _))

/-! ## Serial tables -/

/-- Rows in the order of their keys `pk`, and a bound on the keys drawn so far. -/
structure Serial (ρ : Type) (pk : ρ → ℤ) where
  rows : List ρ
  /-- The next value of the sequence. -/
  next : ℤ
  /-- The keys increase along the table. -/
  sorted : rows.Pairwise fun r s ↦ pk r < pk s
  /-- The sequence is ahead of the table. -/
  fresh : ∀ r ∈ rows, pk r < next

namespace Serial

variable {pk : ρ → ℤ}

/-- A new table; sequences start at `1`. -/
def empty : Serial ρ pk where
  rows := []
  next := 1
  sorted := .nil
  fresh := by simp

/-- Draw `n` values that no row will carry. -/
def skip (n : ℕ) (t : Serial ρ pk) : Serial ρ pk where
  rows := t.rows
  next := t.next + n
  sorted := t.sorted
  fresh := fun r hr ↦ lt_of_lt_of_le (t.fresh r hr) (by omega)

/-- Append a row that carries the next value. -/
def push (t : Serial ρ pk) (r : ρ) (h : pk r = t.next) : Serial ρ pk where
  rows := t.rows ++ [r]
  next := t.next + 1
  sorted := by
    refine List.pairwise_append.mpr ⟨t.sorted, List.pairwise_singleton _ _, fun a ha b hb ↦ ?_⟩
    rw [List.mem_singleton.mp hb, h]
    exact t.fresh a ha
  fresh := by
    intro a ha
    rcases List.mem_append.mp ha with ha | ha
    · exact lt_trans (t.fresh a ha) (by omega)
    · rw [List.mem_singleton.mp ha, h]
      omega

@[simp] theorem rows_empty : (empty : Serial ρ pk).rows = [] := rfl

@[simp] theorem rows_push (t : Serial ρ pk) (r : ρ) (h : pk r = t.next) :
    (t.push r h).rows = t.rows ++ [r] := rfl

variable (t : Serial ρ pk)

@[simp] theorem skip_zero : t.skip 0 = t := by simp [skip]

theorem skip_skip (m n : ℕ) : (t.skip m).skip n = t.skip (m + n) := by
  simp only [skip, Int.natCast_add, Int.add_assoc]

theorem nodup_keys : (t.rows.map pk).Nodup := by
  rw [List.Nodup, List.pairwise_map]
  exact t.sorted.imp fun h ↦ ne_of_lt h

variable {t}

/-- A row with this key exists. -/
def has (t : Serial ρ pk) (i : ℤ) : Bool := t.rows.any fun r ↦ pk r = i

@[simp] theorem has_iff {i : ℤ} : t.has i = true ↔ ∃ r ∈ t.rows, pk r = i := by
  simp [has]

/-! ## Inner joins on the key -/

/-- `select * from l inner join t on fk = pk`, in the order of `l`. -/
def join (l : List μ) (t : Serial ρ pk) (fk : μ → ℤ) : List (μ × ρ) :=
  l.flatMap fun m ↦ (t.rows.filter fun r ↦ pk r = fk m).map fun r ↦ (m, r)

theorem join_append (l l' : List μ) (t : Serial ρ pk) (fk : μ → ℤ) :
    join (l ++ l') t fk = join l t fk ++ join l' t fk := List.flatMap_append

theorem mem_join {l : List μ} {fk : μ → ℤ} {x : μ × ρ} :
    x ∈ join l t fk ↔ x.1 ∈ l ∧ x.2 ∈ t.rows ∧ pk x.2 = fk x.1 := by
  simp only [join, List.mem_flatMap, List.mem_map, List.mem_filter, decide_eq_true_eq]
  constructor
  · rintro ⟨m, hm, r, ⟨hr, heq⟩, rfl⟩
    exact ⟨hm, hr, heq⟩
  · rintro ⟨hm, hr, heq⟩
    exact ⟨x.1, hm, x.2, ⟨hr, heq⟩, rfl⟩

theorem join_singleton_of_mem {m : μ} {fk : μ → ℤ} {r : ρ} (hr : r ∈ t.rows) (h : pk r = fk m) :
    join [m] t fk = [(m, r)] := by
  rw [join, List.flatMap_singleton, ← h, filter_eq_singleton t.nodup_keys hr, List.map_singleton]

/-- **No loss.** If every row of `l` has its partner, the join drops none and repeats none. -/
theorem join_map_fst {l : List μ} {fk : μ → ℤ} (h : ∀ m ∈ l, ∃ r ∈ t.rows, pk r = fk m) :
    (join l t fk).map Prod.fst = l := by
  induction l with
  | nil => rfl
  | cons m l ih =>
    obtain ⟨⟨r, hr, hpk⟩, hl⟩ := List.forall_mem_cons.mp h
    rw [← List.singleton_append, join_append, join_singleton_of_mem hr hpk, List.map_append, ih hl,
      List.map_singleton]

theorem join_singleton_of_not_has {m : μ} {fk : μ → ℤ} (h : t.has (fk m) = false) :
    join [m] t fk = [] := by
  have hnone : (t.rows.filter fun r ↦ pk r = fk m) = [] := by
    rw [List.filter_eq_nil_iff]
    intro r hr hpk
    have hhas : t.has (fk m) = true := has_iff.mpr ⟨r, hr, of_decide_eq_true hpk⟩
    rw [h] at hhas
    cases hhas
  rw [join, List.flatMap_singleton, hnone, List.map_nil]

/-- A list that corresponds to the rows of `l'` corresponds, where it has partners, to the join. -/
theorem forall₂_join {R : κ → μ → Prop} {p : κ → Bool} {l : List κ} {l' : List μ} {fk : μ → ℤ}
    (h : List.Forall₂ R l l') (hp : ∀ k m, R k m → p k = t.has (fk m)) :
    List.Forall₂ (fun k x ↦ R k x.1 ∧ x.2 ∈ t.rows ∧ pk x.2 = fk x.1) (l.filter p)
      (join l' t fk) := by
  induction h with
  | nil => exact .nil
  | @cons k m l l' hkm _ ih =>
    rw [← List.singleton_append (l := l'), join_append]
    cases hhas : t.has (fk m) with
    | true =>
      obtain ⟨r, hr, hpk⟩ := has_iff.mp hhas
      rw [List.filter_cons_of_pos ((hp k m hkm).trans hhas), join_singleton_of_mem hr hpk]
      exact .cons ⟨hkm, hr, hpk⟩ ih
    | false =>
      rw [List.filter_cons_of_neg (by simp [hp k m hkm, hhas]), join_singleton_of_not_has hhas]
      exact ih

theorem join_of_forall₂ {μ' ρ' : Type} {pk' : ρ' → ℤ} {t' : Serial ρ' pk'} {R : μ → μ' → Prop}
    {S : ρ → ρ' → Prop} {l : List μ} {l' : List μ'} (fk : μ → ℤ) (fk' : μ' → ℤ)
    (h : List.Forall₂ R l l') (ht : List.Forall₂ S t.rows t'.rows)
    (hkey : ∀ m m' r r', R m m' → S r r' → (pk r = fk m ↔ pk' r' = fk' m')) :
    List.Forall₂ (fun x x' ↦ R x.1 x'.1 ∧ S x.2 x'.2) (join l t fk) (join l' t' fk') := by
  induction h with
  | nil => exact .nil
  | @cons m m' l l' hm _ ih =>
    rw [join, join, List.flatMap_cons, List.flatMap_cons]
    refine List.rel_append ?_ ih
    rw [List.forall₂_map_left_iff, List.forall₂_map_right_iff]
    have hfilter := List.rel_filter (p := fun r ↦ decide (pk r = fk m))
      (q := fun r' ↦ decide (pk' r' = fk' m')) (fun r r' hr ↦ ?_) ht
    · exact hfilter.imp fun r r' hr ↦ ⟨hm, hr⟩
    · dsimp only
      rw [decide_eq_true_eq, decide_eq_true_eq]
      exact hkey m m' r r' hm hr

theorem join_of_prefix {t t' : Serial ρ pk} (ht : t.rows <+: t'.rows) {l : List μ} {fk : μ → ℤ}
    (h : ∀ m ∈ l, ∃ r ∈ t.rows, pk r = fk m) : join l t' fk = join l t fk := by
  induction l with
  | nil => rfl
  | cons m l ih =>
    obtain ⟨⟨r, hr, hpk⟩, hl⟩ := List.forall_mem_cons.mp h
    rw [← List.singleton_append, join_append, join_append, ih hl, join_singleton_of_mem hr hpk,
      join_singleton_of_mem (ht.subset hr) hpk]

end Serial

end Relational
