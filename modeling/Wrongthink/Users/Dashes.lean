import Mathlib.Data.List.Forall2
import Wrongthink.Sequential.While
import Wrongthink.Service.WrongthinkServiceImpl

/-!
# The names of generated users

`GenerateUser` takes two uuids and erases their dashes, one at a time, in a loop whose exit test
compares a `std::size_t` that has been through an `int`. The handler is modelled with the text that
remains (`eraseDashes`); here is the loop itself, and that it comes to that text (`cleans_iff`).

Erasing dashes is not injective. It is on the texts of uuids, which all have their dashes at the
same places (`eq_of_filter_eq`), so two generated names are equal only if the uuids are
(`keeps_identity`).
-/

namespace Wrongthink

/-! ## Strings -/

namespace StdString

/-- The characters of a `std::string`. -/
abbrev Chars := List Char

def npos : ℕ := 2 ^ 64 - 1

/-- `s.find(c)` -/
def find (s : Chars) (c : Char) : ℕ := if c ∈ s then s.idxOf c else npos

/-- `s.erase(pos, 1)` -/
def erase (s : Chars) (pos : ℕ) : Except Exn Chars :=
  if s.length < pos then .error .outOfRange else .ok (s.eraseIdx pos)

/-- An `int` where a `std::size_t` is expected. -/
def toSize (idx : ℤ) : ℕ := (idx % 2 ^ 64).toNat

theorem toSize_wrap32 {n : ℕ} (h : n < 2 ^ 31) : toSize (wrap32 n) = n := by
  have hwrap : wrap32 n = n := by apply Int.bmod_eq_of_le_mul_two <;> omega
  rw [toSize, hwrap]
  omega

/-- The value that stands for no position survives the `int`: it is `-1` there. -/
theorem toSize_wrap32_npos : toSize (wrap32 npos) = npos := by
  have hwrap : wrap32 npos = -1 := by simp [wrap32, npos, Int.bmod]
  rw [hwrap]
  rfl

end StdString

open Sequential StdString

/-! ## The loop -/

/-- One turn of `while ((idx = id.find('-')) != npos) id.erase(idx, 1);`. -/
def dashTurn (id : Chars) : Option (Except Exn Chars) :=
  let idx := wrap32 (find id '-')
  if toSize idx ≠ npos then some (erase id (toSize idx)) else none

/-- The loop on `id` ends, after `n` erasures and with the text `out`. -/
def Cleans (id out : Chars) (n : ℕ) : Prop :=
  ∃ fuel, whileLoop dashTurn fuel id = some (.ok (out, n))

variable {id out : Chars} {n : ℕ}

theorem dashTurn_of_notMem (h : '-' ∉ id) : dashTurn id = none := by
  rw [dashTurn, find, if_neg h, toSize_wrap32_npos, if_neg (not_not.mpr rfl)]

theorem dashTurn_of_mem (h : '-' ∈ id) (hlt : id.length < 2 ^ 31) :
    dashTurn id = some (.ok (id.erase '-')) := by
  have hidx : id.idxOf '-' < id.length := List.idxOf_lt_length_iff.mpr h
  have hne : id.idxOf '-' ≠ npos := by
    rw [npos]
    omega
  rw [dashTurn, find, if_pos h, toSize_wrap32 (Nat.lt_trans hidx hlt), if_pos hne, erase,
    if_neg (Nat.lt_asymm hidx), ← List.erase_eq_eraseIdx_of_idxOf rfl]

theorem filter_eq_self_of_notMem (h : '-' ∉ id) : id.filter (· ≠ '-') = id := by
  refine List.filter_eq_self.mpr fun c hc ↦ decide_eq_true ?_
  rintro rfl
  exact h hc

theorem filter_erase_dash (id : Chars) :
    (id.erase '-').filter (· ≠ '-') = id.filter (· ≠ '-') := by
  rw [← List.erase_filter]
  exact List.erase_of_not_mem (by simp)

/-- The loop ends, having erased every dash and nothing else. -/
theorem whileLoop_dashTurn (hlt : id.length < 2 ^ 31) {fuel : ℕ} (hfuel : id.count '-' < fuel) :
    whileLoop dashTurn fuel id = some (.ok (id.filter (· ≠ '-'), id.count '-')) := by
  have hturn : ∀ s : Chars, s.length < 2 ^ 31 ∧ s.filter (· ≠ '-') = id.filter (· ≠ '-') →
      s.count '-' ≠ 0 → ∃ s', dashTurn s = some (.ok s') ∧
        (s'.length < 2 ^ 31 ∧ s'.filter (· ≠ '-') = id.filter (· ≠ '-')) ∧
        s.count '-' = s'.count '-' + 1 := by
    rintro s ⟨hs, hkeep⟩ hcount
    have hmem : '-' ∈ s := List.count_pos_iff.mp (Nat.pos_of_ne_zero hcount)
    have hlength : (s.erase '-').length ≤ s.length := List.length_erase_le
    have herase : (s.erase '-').count '-' = s.count '-' - 1 := List.count_erase_self
    exact ⟨s.erase '-', dashTurn_of_mem hmem hs,
      ⟨Nat.lt_of_le_of_lt hlength hs, (filter_erase_dash s).trans hkeep⟩, by omega⟩
  -- the text that is to remain stays the same, and the dashes get fewer
  obtain ⟨out, hloop, ⟨_, hout⟩, hnone⟩ := whileLoop_of_variant
    (I := fun s : Chars ↦ s.length < 2 ^ 31 ∧ s.filter (· ≠ '-') = id.filter (· ≠ '-'))
    (μ := List.count '-')
    (fun s _ hs ↦ dashTurn_of_notMem (List.count_eq_zero.mp hs)) hturn ⟨hlt, rfl⟩ hfuel
  rw [filter_eq_self_of_notMem (List.count_eq_zero.mp hnone)] at hout
  rw [hloop, hout]

/-- **What the loop comes to.** -/
theorem cleans_iff (hlt : id.length < 2 ^ 31) :
    Cleans id out n ↔ out = id.filter (· ≠ '-') ∧ n = id.count '-' := by
  have hloop := whileLoop_dashTurn hlt (Nat.lt_succ_self (id.count '-'))
  constructor
  · rintro ⟨fuel, h⟩
    have heq := whileLoop_unique h hloop
    rwa [Except.ok.injEq, Prod.mk.injEq] at heq
  · rintro ⟨rfl, rfl⟩
    exact ⟨_, hloop⟩

/-- The handler's text is the loop's. -/
theorem cleans_eraseDashes {uuid : String} (hlt : uuid.length < 2 ^ 31) :
    Cleans uuid.toList (WrongthinkServiceImpl.eraseDashes uuid).toList (uuid.toList.count '-') :=
  (cleans_iff hlt).mpr ⟨String.toList_ofList, rfl⟩

/-! ## Uuids -/

def IsHexDigit (c : Char) : Prop := c ∈ "0123456789abcdefABCDEF".toList

instance (c : Char) : Decidable (IsHexDigit c) := inferInstanceAs (Decidable (_ ∈ _))

/-- The text of a uuid: hexadecimal digits, and dashes at four places. -/
structure Canonical (id : Chars) : Prop where
  length : id.length = 36
  dash : ∀ i (h : i < id.length), i ∈ [8, 13, 18, 23] → id[i] = '-'
  digit : ∀ i (h : i < id.length), i ∉ [8, 13, 18, 23] → IsHexDigit id[i]

theorem IsHexDigit.ne_dash {c : Char} (h : IsHexDigit c) : c ≠ '-' := by
  rintro rfl
  exact absurd h (by decide)

/-- Two texts with their dashes at the same places. -/
abbrev SameDashes : Chars → Chars → Prop := List.Forall₂ fun c c' ↦ c = '-' ↔ c' = '-'

theorem Canonical.sameDashes {id id' : Chars} (h : Canonical id) (h' : Canonical id') :
    SameDashes id id' := by
  refine List.forall₂_iff_get.mpr ⟨h.length.trans h'.length.symm, fun i hi hi' ↦ ?_⟩
  by_cases hdash : i ∈ [8, 13, 18, 23]
  · exact iff_of_true (h.dash i hi hdash) (h'.dash i hi' hdash)
  · exact iff_of_false (h.digit i hi hdash).ne_dash (h'.digit i hi' hdash).ne_dash

theorem SameDashes.length_filter {id id' : Chars} (h : SameDashes id id') :
    (id.filter (· ≠ '-')).length = (id'.filter (· ≠ '-')).length := by
  induction h with
  | nil => rfl
  | @cons c c' _ _ hc _ ih =>
    by_cases hdash : c = '-'
    · simpa [hdash, hc.mp hdash] using ih
    · have hdash' : c' ≠ '-' := fun hc' ↦ hdash (hc.mpr hc')
      simpa [hdash, hdash'] using ih

theorem SameDashes.eq_of_filter_eq {id id' : Chars} (h : SameDashes id id')
    (heq : id.filter (· ≠ '-') = id'.filter (· ≠ '-')) : id = id' := by
  induction h with
  | nil => rfl
  | @cons c c' _ _ hc _ ih =>
    by_cases hdash : c = '-'
    · have hdash' : c' = '-' := hc.mp hdash
      simp only [hdash, hdash'] at heq ⊢
      rw [ih (by simpa using heq)]
    · have hdash' : c' ≠ '-' := fun hc' ↦ hdash (hc.mpr hc')
      simp only [ne_eq, hdash, hdash', not_false_eq_true, decide_true, List.filter_cons_of_pos,
        List.cons.injEq] at heq
      rw [heq.1, ih (by simpa using heq.2)]

private def nilUuid : Chars := "00000000-0000-0000-0000-000000000000".toList

private theorem canonical_nilUuid : Canonical nilUuid := ⟨by decide, by decide, by decide⟩

theorem Canonical.length_lt {id : Chars} (h : Canonical id) : id.length < 2 ^ 31 := by
  rw [h.length]
  decide

theorem Canonical.length_filter {id : Chars} (h : Canonical id) :
    (id.filter (· ≠ '-')).length = 32 :=
  (h.sameDashes canonical_nilUuid).length_filter

/-- **Generated names keep the identity of their uuid.** The loop ends, with one erasure for each
dash, and keeps everything else; and of two uuids it leaves 32 characters each, that are stored as
they are and are the same only if the uuids were. -/
theorem keeps_identity :
    (∀ (id out : Chars) (n : ℕ), id.length < 2 ^ 31 →
      (Cleans id out n ↔ out = id.filter (· ≠ '-') ∧ n = id.count '-')) ∧
    ∀ (id id' out out' : Chars) (n n' : ℕ), Canonical id → Canonical id' → Cleans id out n →
      Cleans id' out' n' →
        out.length = 32 ∧ (∀ b, varchar b 50 (String.ofList out) = .ok (String.ofList out)) ∧
          (out = out' ↔ id = id') := by
  refine ⟨fun id out n hlt ↦ cleans_iff hlt, fun id id' out out' n n' h h' hout hout' ↦ ?_⟩
  obtain ⟨rfl, _⟩ := (cleans_iff h.length_lt).mp hout
  obtain ⟨rfl, _⟩ := (cleans_iff h'.length_lt).mp hout'
  have hlength : (id.filter (· ≠ '-')).length = 32 := h.length_filter
  refine ⟨hlength, fun b ↦ varchar_of_length_le b ?_, (h.sameDashes h').eq_of_filter_eq, ?_⟩
  · rw [String.length_ofList, hlength]
    decide
  · rintro rfl
    rfl

private def someUuid : Chars := "123e4567-e89b-12d3-A456-426614174000".toList

private theorem cleans_nilUuid : Cleans nilUuid (nilUuid.filter (· ≠ '-')) 4 := ⟨5, by decide⟩

private theorem cleans_someUuid : Cleans someUuid (someUuid.filter (· ≠ '-')) 4 := ⟨5, by decide⟩

/-- A text with one dash, and two uuids. -/
theorem keeps_identity_uuids :
    (Cleans ['a', '-', 'b'] ['a', 'b'] 1 ↔
      ['a', 'b'] = ['a', '-', 'b'].filter (· ≠ '-') ∧ 1 = ['a', '-', 'b'].count '-') ∧
    (nilUuid.filter (· ≠ '-')).length = 32 ∧
    (∀ b, varchar b 50 (String.ofList (nilUuid.filter (· ≠ '-'))) =
      .ok (String.ofList (nilUuid.filter (· ≠ '-')))) ∧
    (nilUuid.filter (· ≠ '-') = someUuid.filter (· ≠ '-') ↔ nilUuid = someUuid) :=
  ⟨keeps_identity.1 ['a', '-', 'b'] ['a', 'b'] 1 (by decide),
    keeps_identity.2 nilUuid someUuid _ _ 4 4 canonical_nilUuid ⟨by decide, by decide, by decide⟩
      cleans_nilUuid cleans_someUuid⟩

end Wrongthink
