import BTreesMods.Extension.Keys
import BTreesMods.File.PageBytes
import BTreesMods.Lookup.Search

/-!
# The order of the keys

`ByteComparator` on records of one size (`btree_c.hpp`, lines 13–33).

* `byteComparator_strictWeak`, `byteComparator_equates`: it is a strict weak order, and `isEqual` is its
  equivalence.
* `zeroKey_least`: a key whose compared bytes are zero is not greater than any.
-/

namespace BTreesMods

namespace ByteComparator

variable {l m r : List UInt8}

theorem compareBytes_irrefl (l : List UInt8) : compareBytes l l = false := by
  induction l with
  | nil => rfl
  | cons a l ih =>
    rw [compareBytes, if_neg (UInt8.lt_irrefl a), if_neg (UInt8.lt_irrefl a)]
    exact ih

/-- Two keys of one length are equal or one of them is less. -/
theorem compareBytes_trichotomy (h : l.length = r.length) :
    compareBytes l r = true ∨ l = r ∨ compareBytes r l = true := by
  induction l generalizing r with
  | nil =>
    right; left
    exact (List.length_eq_zero_iff.mp h.symm).symm
  | cons a l ih =>
    cases r with
    | nil => cases h
    | cons b r =>
      rw [compareBytes, compareBytes]
      by_cases hab : a < b
      · left
        rw [if_pos hab]
      · by_cases hba : b < a
        · right; right
          rw [if_pos hba]
        · obtain rfl : a = b := UInt8.le_antisymm (UInt8.not_lt.mp hba) (UInt8.not_lt.mp hab)
          rw [if_neg hab, if_neg hab, List.cons.injEq]
          simpa using ih (by simpa using h)

theorem compareBytes_cotrans (hlm : l.length = m.length) (hmr : m.length = r.length)
    (hml : compareBytes m l = false) (hrm : compareBytes r m = false) : compareBytes r l = false := by
  rcases compareBytes_trichotomy hlm with hlt | rfl | hgt
  · rcases compareBytes_trichotomy hmr with hlt' | rfl | hgt'
    · exact compareBytes_asymm (compareBytes_trans hlt hlt')
    · exact hml
    · rw [hgt'] at hrm
      cases hrm
  · exact hrm
  · rw [hgt] at hml
    cases hml

theorem isEqualBytes_iff_not_less (h : l.length = r.length) :
    isEqualBytes l r = true ↔ compareBytes l r = false ∧ compareBytes r l = false := by
  rw [isEqualBytes_iff h]
  constructor
  · rintro rfl
    exact ⟨compareBytes_irrefl l, compareBytes_irrefl l⟩
  · rintro ⟨hlr, hrl⟩
    rcases compareBytes_trichotomy h with hlt | heq | hgt
    · rw [hlr] at hlt
      cases hlt
    · exact heq
    · rw [hrl] at hgt
      cases hgt

theorem compareBytes_replicate_zero (l : List UInt8) (n : ℕ) :
    compareBytes l (List.replicate n 0) = false := by
  induction l generalizing n with
  | nil => rfl
  | cons a l ih =>
    cases n with
    | zero => rfl
    | succ n =>
      rw [List.replicate_succ, compareBytes, if_neg UInt8.not_lt_zero]
      split
      · rfl
      · exact ih n

end ByteComparator

/-! ## Records of one size -/

/-- `byteComparator` with `firstPartBytes` on records of `n` bytes. -/
def byteComparator (n firstPartBytes : ℕ) : Comparator (Record n) where
  compare a b := (ByteComparator.mk firstPartBytes).compare a.1 b.1 n
  isEqual a b := (ByteComparator.mk firstPartBytes).isEqual a.1 b.1 n

section

variable {n firstPartBytes : ℕ}

theorem length_take_eq (a b : Record n) (m : ℕ) : (a.1.take m).length = (b.1.take m).length := by
  rw [List.length_take, List.length_take, a.2, b.2]

theorem byteComparator_strictWeak : StrictWeak (byteComparator n firstPartBytes).compare where
  irrefl _ := ByteComparator.compareBytes_irrefl _
  trans _ _ _ hab hbc := ByteComparator.compareBytes_trans hab hbc
  cotrans a b c := ByteComparator.compareBytes_cotrans (length_take_eq a b _) (length_take_eq b c _)

theorem byteComparator_equates : (byteComparator n firstPartBytes).Equates := by
  intro a b
  exact ByteComparator.isEqualBytes_iff_not_less (length_take_eq a b _)

/-- The record of the byte `x` and zeros. -/
def Record.ofByte (n : ℕ) (x : UInt8) : Record n := ⟨slot n [x], length_slot n _⟩

/-- A key whose compared bytes are zero is not greater than any. -/
theorem zeroKey_least {k : Record n} (hk : k.1.take firstPartBytes = List.replicate firstPartBytes 0)
    (x : Record n) : (byteComparator n firstPartBytes).compare x k = false := by
  show ByteComparator.compareBytes _ (k.1.take (min n firstPartBytes)) = false
  have hzero : k.1.take (min n firstPartBytes) = List.replicate (min n firstPartBytes) 0 := by
    have htake := congrArg (List.take (min n firstPartBytes)) hk
    rwa [List.take_take, List.take_replicate, Nat.min_eq_left (Nat.min_le_right _ _)] at htake
  rw [hzero]
  exact ByteComparator.compareBytes_replicate_zero _ _

end

end BTreesMods
