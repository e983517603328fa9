import BTreesMods.File.StreamTree

/-!
# Where the fields of the file lie

The offsets that `getPageOfs`, `getFreePagesInfoAreaOfs` and `getLastFreePageNumOfs` compute with
machine arithmetic are the intended ones while they stay below 4 GiB, with one exception: the entry
before the first one, of which `markPageFree` takes the successor when the list of free pages is
empty, comes out right only where `unsigned long` has 32 bits.
-/

namespace BTreesMods

/-! ## Page sizes -/

/-- A page size is at least 18 bytes, and 32 bytes more are still a `UInt`. -/
def Params.PageSizeFits (p : Params) : Prop := 18 ≤ p.nodePageSize ∧ p.nodePageSize + 32 < 2 ^ 32

theorem pageSizeFits_withLayout {p : Params} (hrec : p.recSize ≤ 65535) (hlo : 3 ≤ p.slots)
    (hhi : p.slots ≤ 32767) : p.withLayout.PageSizeFits := by
  have hmul : p.recSize * p.slots ≤ 65535 * 32767 := Nat.mul_le_mul hrec hhi
  simp only [Params.PageSizeFits, Params.withLayout, toUInt, KEYS_OFS, CURSOR_SZ]
  omega

theorem recSize_le (recSize : UInt16) : recSize.toNat ≤ 65535 := by
  have := recSize.toNat_lt
  omega

theorem two_le_order {order : UInt16} (h : ¬ order < 2) : 2 ≤ order.toNat := by
  have hle : 2 ≤ order := UInt16.not_lt.mp h
  exact UInt16.le_iff_toNat_le.mp hle

theorem four_le_order {order : UInt16} (h : ¬ order < 4) : 4 ≤ order.toNat := by
  have hle : 4 ≤ order := UInt16.not_lt.mp h
  exact UInt16.le_iff_toNat_le.mp hle

/-- What `setOrder` does: it throws `std::invalid_argument`, or it stores its arguments and computes a
page size that fits. -/
def SetOrderSpec (order recSize : UInt16) (r : Except Err Params) : Prop :=
  (∃ what, r = .error (.invalidArgument what)) ∨
    ∃ p, r = .ok p ∧ p.order = order.toNat ∧ p.recSize = recSize.toNat ∧ p.PageSizeFits

theorem BaseBStarTree.setOrder_spec (order recSize : UInt16) :
    SetOrderSpec order recSize (BaseBStarTree.setOrder order recSize) := by
  unfold BaseBStarTree.setOrder
  dsimp only
  split_ifs with hlo hhi
  · exact Or.inl ⟨_, rfl⟩
  · exact Or.inl ⟨_, rfl⟩
  · have hlo := four_le_order hlo
    simp only [MAX_KEYS_NUM] at hhi
    refine Or.inr ⟨_, rfl, rfl, rfl, pageSizeFits_withLayout (recSize_le recSize) ?_ ?_⟩
    · show 3 ≤ max order.toNat _
      omega
    · show max order.toNat (2 * ((2 * order.toNat - 2) / 3) + 1) ≤ 32767
      omega

theorem setOrder_spec (treeType : TreeType) (order recSize : UInt16) :
    SetOrderSpec order recSize (setOrder treeType order recSize) := by
  cases treeType with
  | bTree =>
    simp only [setOrder, BaseBTree.setOrder]
    split_ifs with hlo hhi
    · exact Or.inl ⟨_, rfl⟩
    · exact Or.inl ⟨_, rfl⟩
    · have hlo := two_le_order hlo
      simp only [MAX_KEYS_NUM] at hhi
      refine Or.inr ⟨_, rfl, rfl, rfl, pageSizeFits_withLayout (recSize_le recSize) ?_ ?_⟩
      · show 3 ≤ 2 * order.toNat - 1
        omega
      · show 2 * order.toNat - 1 ≤ 32767
        omega
  | bPlusTree =>
    simp only [setOrder, BaseBPlusTree.setOrder]
    split_ifs with hlo hhi
    · exact Or.inl ⟨_, rfl⟩
    · exact Or.inl ⟨_, rfl⟩
    · have hlo := two_le_order hlo
      simp only [MAX_KEYS_NUM] at hhi
      refine Or.inr ⟨_, rfl, rfl, rfl, pageSizeFits_withLayout (recSize_le recSize) ?_ ?_⟩
      · show 3 ≤ 2 * order.toNat - 1 + 1
        omega
      · show 2 * order.toNat - 1 + 1 ≤ 32767
        omega
  | bStarTree => exact BaseBStarTree.setOrder_spec order recSize
  | bStarPlusTree =>
    change SetOrderSpec order recSize ((BaseBStarTree.setOrder order recSize).bind _)
    rcases BaseBStarTree.setOrder_spec order recSize with ⟨what, h⟩ | ⟨p, h, horder, hrec, hfits⟩
    · rw [h]
      exact Or.inl ⟨what, rfl⟩
    · rw [h]
      exact Or.inr ⟨_, rfl, horder, hrec, hfits⟩

theorem setOrder_pageSizeFits {treeType : TreeType} {order recSize : UInt16} {p : Params}
    (h : setOrder treeType order recSize = .ok p) : p.PageSizeFits := by
  rcases setOrder_spec treeType order recSize with ⟨what, herr⟩ | ⟨q, hok, -, -, hfits⟩
  · rw [h] at herr
    cases herr
  · rw [h] at hok
    cases hok
    exact hfits

theorem setOrder_fields {treeType : TreeType} {order recSize : UInt16} {p : Params}
    (h : setOrder treeType order recSize = .ok p) :
    p.order = order.toNat ∧ p.recSize = recSize.toNat := by
  rcases setOrder_spec treeType order recSize with ⟨what, herr⟩ | ⟨q, hok, horder, hrec, -⟩
  · rw [h] at herr
    cases herr
  · rw [h] at hok
    cases hok
    exact ⟨horder, hrec⟩

namespace StreamTree

/-! ## Offsets -/

variable (t : StreamTree)

/-- The intended offset of page `pageNum`. -/
def pageOfs (pageNum : UInt32) : ℕ := 16 + (pageNum.toNat - 1) * t.params.nodePageSize

/-- The end of the last page, where the counter of the free pages is. -/
def pagesEnd : ℕ := 16 + t.lastPageNum.toNat * t.params.nodePageSize

/-- The end of a list of `n` free page numbers. -/
def listEnd (n : ℕ) : ℕ := t.pagesEnd + 4 + 4 * n

variable {t} {pl : Platform}

theorem one_le_toNat {n : UInt32} (h : n ≠ 0) : 1 ≤ n.toNat := by
  by_contra hzero
  exact h (UInt32.toNat_inj.mp (by simp; omega))

theorem toNat_sub_one {n : UInt32} (h : n ≠ 0) : (n - 1).toNat = n.toNat - 1 :=
  UInt32.toNat_sub_of_le n 1 (UInt32.le_iff_toNat_le.mpr (one_le_toNat h))

/-- The intended end of page `pageNum`. -/
theorem pageOfs_add {pageNum : UInt32} (h : pageNum ≠ 0) :
    t.pageOfs pageNum + t.params.nodePageSize = 16 + pageNum.toNat * t.params.nodePageSize := by
  have hsucc : pageNum.toNat - 1 + 1 = pageNum.toNat := Nat.sub_add_cancel (one_le_toNat h)
  rw [pageOfs, Nat.add_assoc, ← Nat.succ_mul, Nat.succ_eq_add_one, hsucc]

theorem ulong_of_lt {n : ℕ} (h : n < 2 ^ 32) : pl.ulong n = n := by
  cases pl with
  | windows => exact Nat.mod_eq_of_lt h
  | linux => exact Nat.mod_eq_of_lt (by omega)

theorem toNat_nodePageSize (h : t.params.PageSizeFits) :
    t.nodePageSize.toNat = t.params.nodePageSize := by
  have hlt : t.params.nodePageSize < 2 ^ 32 := by
    have := h.2
    omega
  exact UInt32.toNat_ofNat_of_lt' hlt

theorem getPageOfs_eq (h : t.params.PageSizeFits) {pageNum : UInt32} (hp : pageNum ≠ 0)
    (hlt : t.pageOfs pageNum < 2 ^ 32) : t.getPageOfs pl pageNum = t.pageOfs pageNum := by
  simp only [pageOfs] at hlt ⊢
  rw [getPageOfs, UInt32.toNat_mul, toNat_sub_one hp, toNat_nodePageSize h, Nat.mod_eq_of_lt (by omega)]
  exact ulong_of_lt hlt

theorem getFreePagesInfoAreaOfs_eq (h : t.params.PageSizeFits) (hlt : t.pagesEnd < 2 ^ 32) :
    t.getFreePagesInfoAreaOfs pl = t.pagesEnd := by
  simp only [pagesEnd] at hlt ⊢
  rw [getFreePagesInfoAreaOfs, getPageOfs, UInt32.add_sub_cancel, UInt32.toNat_mul,
    toNat_nodePageSize h, Nat.mod_eq_of_lt (by omega)]
  exact ulong_of_lt hlt

/-- The offset of the last entry of a list that has one. -/
theorem getLastFreePageNumOfs_eq (h : t.params.PageSizeFits) (hc : t.freePagesCounter ≠ 0)
    (hlt : t.listEnd t.freePagesCounter.toNat < 2 ^ 32) :
    t.getLastFreePageNumOfs pl = t.listEnd (t.freePagesCounter.toNat - 1) := by
  have hpos := one_le_toNat hc
  simp only [listEnd] at hlt ⊢
  rw [getLastFreePageNumOfs, getFreePagesInfoAreaOfs_eq h (by omega), UInt32.toNat_mul,
    toNat_sub_one hc]
  have hfour : (4 : UInt32).toNat = 4 := rfl
  rw [hfour, Nat.mod_eq_of_lt (by omega), ulong_of_lt (by omega)]
  omega

/-- The offset at which `markPageFree` writes. It is the end of the list, unless the list is empty
and `unsigned long` has 64 bits. -/
theorem markOfs_eq (h : t.params.PageSizeFits) (hc : pl = .windows ∨ t.freePagesCounter ≠ 0)
    (hlt : t.listEnd t.freePagesCounter.toNat < 2 ^ 32) :
    pl.ulong (t.getLastFreePageNumOfs pl + 4) = t.listEnd t.freePagesCounter.toNat := by
  by_cases hzero : t.freePagesCounter = 0
  · -- the product wraps around to the entry before the first one, and the sum back to the counter
    obtain rfl : pl = .windows := hc.resolve_right (not_not.mpr hzero)
    have hwrap : ((0 - 1 : UInt32) * 4).toNat = 2 ^ 32 - 4 := by decide
    simp only [listEnd, hzero, UInt32.toNat_zero] at hlt ⊢
    rw [getLastFreePageNumOfs, getFreePagesInfoAreaOfs_eq h (by omega), hzero, hwrap]
    simp only [Platform.ulong]
    omega
  · rw [getLastFreePageNumOfs_eq h hzero hlt]
    have hpos := one_le_toNat hzero
    simp only [listEnd] at hlt ⊢
    rw [ulong_of_lt (by omega)]
    omega

end StreamTree

end BTreesMods
