import Wrongthink.Users.Dashes

/-!
# The texts of uuids

What `boost::uuids::to_string` writes, and what `GenerateUser` keeps of it. The loop of `to_string`
writes two digits for every byte and a dash behind some of the bytes, so all texts have their dashes
at the same places (`canonical_chars`), and what remains without the dashes still tells uuids apart
(`name_inj`).
-/

namespace Wrongthink

open StdString WrongthinkServiceImpl

/-- `boost::uuids::uuid` -/
structure Uuid where
  data : Vector UInt8 16
  deriving DecidableEq

namespace Uuid

/-- `detail::to_char` -/
def toChar (i : ℕ) : Char :=
  if i ≤ 9 then Char.ofNat ('0'.toNat + i) else Char.ofNat ('a'.toNat + (i - 10))

/-- The loop of `to_string`, from the byte number `i` on. -/
def chars : ℕ → List UInt8 → Chars
  | _, [] => []
  | i, byte :: data =>
    let hi := ((byte >>> 4) &&& 0x0F).toNat
    let lo := (byte &&& 0x0F).toNat
    let dash := if i = 3 ∨ i = 5 ∨ i = 7 ∨ i = 9 then ['-'] else []
    toChar hi :: toChar lo :: (dash ++ chars (i + 1) data)

/-- `boost::uuids::to_string` -/
def toString (u : Uuid) : String := String.ofList (chars 0 u.data.toList)

theorem isHexDigit_toChar {n : ℕ} (h : n < 16) : IsHexDigit (toChar n) := by
  revert n
  decide

theorem toChar_inj {m n : ℕ} (hm : m < 16) (hn : n < 16) (h : toChar m = toChar n) : m = n := by
  have hinj : ∀ m < 16, ∀ n < 16, toChar m = toChar n → m = n := by decide
  exact hinj m hm n hn h

theorem hi_eq (byte : UInt8) : ((byte >>> 4) &&& 0x0F).toNat = byte.toNat / 16 := by
  have hlt := byte.toNat_lt
  rw [UInt8.toNat_and, UInt8.toNat_shiftRight]
  have hmask : (0x0F : UInt8).toNat = 2 ^ 4 - 1 := rfl
  rw [hmask, Nat.and_two_pow_sub_one_eq_mod, Nat.shiftRight_eq_div_pow]
  have h4 : (4 : UInt8).toNat % 8 = 4 := rfl
  rw [h4]
  omega

theorem lo_eq (byte : UInt8) : (byte &&& 0x0F).toNat = byte.toNat % 16 := by
  rw [UInt8.toNat_and]
  exact Nat.and_two_pow_sub_one_eq_mod _ 4

theorem hi_lt (byte : UInt8) : ((byte >>> 4) &&& 0x0F).toNat < 16 := by
  have hlt := byte.toNat_lt
  rw [hi_eq]
  omega

theorem lo_lt (byte : UInt8) : (byte &&& 0x0F).toNat < 16 := by
  rw [lo_eq]
  omega

theorem byte_inj {byte byte' : UInt8}
    (hhi : toChar ((byte >>> 4) &&& 0x0F).toNat = toChar ((byte' >>> 4) &&& 0x0F).toNat)
    (hlo : toChar (byte &&& 0x0F).toNat = toChar (byte' &&& 0x0F).toNat) : byte = byte' := by
  have hhi' := toChar_inj (hi_lt byte) (hi_lt byte') hhi
  have hlo' := toChar_inj (lo_lt byte) (lo_lt byte') hlo
  rw [hi_eq, hi_eq] at hhi'
  rw [lo_eq, lo_eq] at hlo'
  apply UInt8.toNat_inj.mp
  omega

theorem chars_inj {data data' : List UInt8} {i : ℕ} (hlength : data.length = data'.length)
    (h : chars i data = chars i data') : data = data' := by
  induction data generalizing i data' with
  | nil => exact (List.length_eq_zero_iff.mp hlength.symm).symm
  | cons byte data ih =>
    cases data' with
    | nil => cases hlength
    | cons byte' data' =>
      rw [chars, chars, List.cons.injEq, List.cons.injEq, List.append_cancel_left_eq] at h
      rw [byte_inj h.1 h.2.1, ih (Nat.succ.inj hlength) h.2.2]

theorem sameDashes_chars {data data' : List UInt8} {i : ℕ} (hlength : data.length = data'.length) :
    SameDashes (chars i data) (chars i data') := by
  induction data generalizing i data' with
  | nil =>
    rw [List.length_eq_zero_iff.mp hlength.symm]
    exact .nil
  | cons byte data ih =>
    cases data' with
    | nil => cases hlength
    | cons byte' data' =>
      have hdigits : ∀ {m n : ℕ}, m < 16 → n < 16 → (toChar m = '-' ↔ toChar n = '-') :=
        fun hm hn ↦ iff_of_false (isHexDigit_toChar hm).ne_dash (isHexDigit_toChar hn).ne_dash
      refine .cons (hdigits (hi_lt _) (hi_lt _)) (.cons (hdigits (lo_lt _) (lo_lt _)) ?_)
      refine List.rel_append ?_ (ih (Nat.succ.inj hlength))
      exact List.forall₂_same.mpr fun _ _ ↦ Iff.rfl

theorem dash_or_digit {data : List UInt8} {i : ℕ} : ∀ c ∈ chars i data, c = '-' ∨ IsHexDigit c := by
  induction data generalizing i with
  | nil => exact fun _ hc ↦ absurd hc List.not_mem_nil
  | cons byte data ih =>
    intro c hc
    rw [chars, List.mem_cons, List.mem_cons, List.mem_append] at hc
    rcases hc with rfl | rfl | hdash | hc
    · exact .inr (isHexDigit_toChar (hi_lt byte))
    · exact .inr (isHexDigit_toChar (lo_lt byte))
    · left
      split at hdash <;> simp at hdash
      exact hdash
    · exact ih c hc

/-- **`to_string` writes canonical texts.** -/
theorem canonical_chars (u : Uuid) : Canonical (chars 0 u.data.toList) := by
  have hnil : Canonical (chars 0 (List.replicate 16 0)) := ⟨by decide, by decide, by decide⟩
  have hsame : SameDashes (chars 0 u.data.toList) (chars 0 (List.replicate 16 0)) :=
    sameDashes_chars (by simp)
  have hlength := hsame.length_eq
  have hiff : ∀ i (h : i < (chars 0 u.data.toList).length),
      (chars 0 u.data.toList)[i] = '-' ↔ i ∈ [8, 13, 18, 23] := by
    intro i h
    have h' : i < (chars 0 (List.replicate 16 0)).length := hlength ▸ h
    refine (List.forall₂_iff_get.mp hsame).2 i h h' |>.trans ⟨fun hdash ↦ ?_, hnil.dash i h'⟩
    by_contra hi
    exact (hnil.digit i h' hi).ne_dash hdash
  refine ⟨hlength.trans hnil.length, fun i h hi ↦ (hiff i h).mpr hi, fun i h hi ↦ ?_⟩
  exact (dash_or_digit _ (List.getElem_mem h)).resolve_left fun hdash ↦ hi ((hiff i h).mp hdash)

/-! ## Names -/

/-- What `GenerateUser` makes of a uuid. -/
def name (u : Uuid) : String := eraseDashes u.toString

theorem name_eq (u : Uuid) : u.name = String.ofList ((chars 0 u.data.toList).filter (· ≠ '-')) := by
  rw [name, eraseDashes, toString, String.toList_ofList]

theorem length_name (u : Uuid) : u.name.length = 32 := by
  rw [name_eq, String.length_ofList, u.canonical_chars.length_filter]

theorem varchar_name (b : Backend) (u : Uuid) : varchar b 50 u.name = .ok u.name :=
  varchar_of_length_le b (by rw [length_name]; decide)

/-- **Names tell uuids apart.** -/
theorem name_inj {u v : Uuid} : u.name = v.name ↔ u = v := by
  constructor
  · intro h
    rw [name_eq, name_eq, String.ofList_inj] at h
    have hchars := (u.canonical_chars.sameDashes v.canonical_chars).eq_of_filter_eq h
    have hdata := chars_inj (by simp) hchars
    obtain ⟨data⟩ := u
    obtain ⟨data'⟩ := v
    rw [Uuid.mk.injEq]
    exact Vector.toList_inj.mp hdata
  · rintro rfl
    rfl

end Uuid

end Wrongthink
