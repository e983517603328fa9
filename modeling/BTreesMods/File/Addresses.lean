import BTreesMods.File.FreeList
import Mathlib.Logic.Relation

/-!
# Where the addresses stop being apart

`gotoPage` computes an offset for reads and writes, `getPageOfs` one for allocations and for the list
of free pages. Both multiply `UInt`s.

* `pagesApart_iff`: the two agree, and header, pages and free list keep apart, exactly as long as the
  pages together have fewer than `2 ^ 32` bytes; where `unsigned long` has 32 bits, exactly as long as
  header, pages and free list together have.
* `exists_reaches_lastPageNum`: allocations reach every page count, so nothing keeps a tree below that.
* `pages_collide`: four pages of the largest B-tree but one collide.
-/

namespace BTreesMods

namespace StreamTree

variable (pl : Platform) (t : StreamTree)

/-! ## Byte ranges of the file -/

/-- The bytes of the header, the page counter and the root page number. -/
def headerArea : Set ℕ := Set.Ico 0 FIRST_PAGE_OFS

/-- The bytes that `readPage` and `writePage` access for page `pageNum`. -/
def pageArea (pageNum : UInt32) : Set ℕ :=
  Set.Ico (t.gotoPageOfs pageNum) (t.gotoPageOfs pageNum + t.params.nodePageSize)

/-- The offset of entry `i` of the list of free pages: where `getLastFreePageNum` reads when the list
has `i + 1` entries. -/
def entryOfs (i : ℕ) : ℕ :=
  getLastFreePageNumOfs pl { t with freePagesCounter := UInt32.ofNat (i + 1) }

/-- The bytes of the counter of the free pages and of the entries of their list. -/
def freeListArea : Set ℕ :=
  Set.Ico (t.getFreePagesInfoAreaOfs pl) (t.getFreePagesInfoAreaOfs pl + 4) ∪
    ⋃ i < t.freePagesCounter.toNat, Set.Ico (t.entryOfs pl i) (t.entryOfs pl i + 4)

/-- `pageNum` is the number of a page. -/
def HasPage (pageNum : UInt32) : Prop := pageNum ≠ 0 ∧ pageNum ≤ t.lastPageNum

/-- Both functions give a page its intended offset, and nothing overlaps. -/
structure PagesApart : Prop where
  offsets : ∀ p, t.HasPage p → t.gotoPageOfs p = t.pageOfs p ∧ t.getPageOfs pl p = t.pageOfs p
  pages : ∀ p q, t.HasPage p → t.HasPage q → p ≠ q → Disjoint (t.pageArea p) (t.pageArea q)
  header : ∀ p, t.HasPage p → Disjoint headerArea (t.pageArea p)
  freeList : ∀ p, t.HasPage p → Disjoint (t.freeListArea pl) (t.pageArea p)
  headerFreeList : Disjoint headerArea (t.freeListArea pl)

/-- The sizes for which the machine arithmetic of the addresses is exact. -/
def AddressesFit : Platform → StreamTree → Prop
  | .windows, t => t.pagesEnd + 4 * t.freePagesCounter.toNat < 2 ^ 32
  | .linux, t => t.lastPageNum.toNat * t.params.nodePageSize < 2 ^ 32

variable {pl t}

/-! ## Offsets of pages -/

theorem HasPage.toNat_le {p : UInt32} (h : t.HasPage p) : p.toNat ≤ t.lastPageNum.toNat :=
  UInt32.le_iff_toNat_le.mp h.2

/-- A page ends where the free list begins or before. -/
theorem HasPage.pageOfs_add_le {p : UInt32} (h : t.HasPage p) :
    t.pageOfs p + t.params.nodePageSize ≤ t.pagesEnd := by
  rw [pageOfs_add h.1, pagesEnd]
  exact Nat.add_le_add_left (Nat.mul_le_mul_right _ h.toNat_le) 16

theorem gotoPageOfs_eq (h : t.params.PageSizeFits) {p : UInt32} (hp : p ≠ 0)
    (hlt : t.pageOfs p < 2 ^ 32) : t.gotoPageOfs p = t.pageOfs p := by
  have hfirst : (UInt32.ofNat FIRST_PAGE_OFS).toNat = 16 := rfl
  simp only [pageOfs] at hlt ⊢
  rw [gotoPageOfs, UInt32.toNat_add, UInt32.toNat_mul, toNat_sub_one hp, toNat_nodePageSize h, hfirst,
    Nat.mul_comm, Nat.mod_eq_of_lt (by omega), Nat.mod_eq_of_lt (by omega)]

/-- The offset that `gotoPage` computes is a `UInt`, so an intended offset that it gives is one. -/
theorem PagesApart.pageOfs_lt (h : t.PagesApart pl) {p : UInt32} (hp : t.HasPage p) :
    t.pageOfs p < 2 ^ 32 := by
  rw [← (h.offsets p hp).1]
  exact UInt32.toNat_lt _

/-! ## Offsets of the free list -/

theorem getFreePagesInfoAreaOfs_mod (pl : Platform) (h : t.params.PageSizeFits) :
    t.getFreePagesInfoAreaOfs pl =
      pl.ulong (16 + t.lastPageNum.toNat * t.params.nodePageSize % 2 ^ 32) := by
  rw [getFreePagesInfoAreaOfs, getPageOfs, UInt32.add_sub_cancel, UInt32.toNat_mul,
    toNat_nodePageSize h]
  rfl

theorem entryOfs_eq (pl : Platform) {i : ℕ} (hi : i < t.freePagesCounter.toNat) :
    t.entryOfs pl i = pl.ulong (t.getFreePagesInfoAreaOfs pl + 4 + 4 * i % 2 ^ 32) := by
  have hlt : i + 1 < 2 ^ 32 := Nat.lt_of_le_of_lt hi t.freePagesCounter.toNat_lt
  have hof : (UInt32.ofNat (i + 1)).toNat = i + 1 := UInt32.toNat_ofNat_of_lt' hlt
  have hne : UInt32.ofNat (i + 1) ≠ 0 := by
    intro hzero
    rw [hzero] at hof
    exact Nat.succ_ne_zero i hof.symm
  have hsub : (UInt32.ofNat (i + 1) - 1).toNat = i := by
    rw [toNat_sub_one hne, hof, Nat.add_sub_cancel]
  show pl.ulong (t.getFreePagesInfoAreaOfs pl + 4 + ((UInt32.ofNat (i + 1) - 1) * 4).toNat) = _
  rw [UInt32.toNat_mul, hsub, Nat.mul_comm]
  rfl

theorem mem_freeListArea {a : ℕ} : a ∈ t.freeListArea pl ↔
    (t.getFreePagesInfoAreaOfs pl ≤ a ∧ a < t.getFreePagesInfoAreaOfs pl + 4) ∨
      ∃ i < t.freePagesCounter.toNat, t.entryOfs pl i ≤ a ∧ a < t.entryOfs pl i + 4 := by
  simp only [freeListArea, Set.mem_union, Set.mem_iUnion, Set.mem_Ico, exists_prop]

theorem areaOfs_mem_freeListArea : t.getFreePagesInfoAreaOfs pl ∈ t.freeListArea pl :=
  mem_freeListArea.mpr (Or.inl ⟨le_refl _, by omega⟩)

/-- With addresses that fit, the free list lies behind the pages. -/
theorem AddressesFit.pagesEnd_le (h : t.params.PageSizeFits) (hfit : AddressesFit pl t) {a : ℕ}
    (ha : a ∈ t.freeListArea pl) : t.pagesEnd ≤ a := by
  cases pl with
  | windows =>
    have hlt : t.pagesEnd + 4 * t.freePagesCounter.toNat < 2 ^ 32 := hfit
    have harea : t.getFreePagesInfoAreaOfs .windows = t.pagesEnd :=
      getFreePagesInfoAreaOfs_eq h (by omega)
    rcases mem_freeListArea.mp ha with ⟨hlo, -⟩ | ⟨i, hi, hlo, -⟩
    · omega
    · -- an entry of the list begins below `pagesEnd + 4 * freePagesCounter`
      rw [entryOfs_eq .windows hi, harea, Nat.mod_eq_of_lt (by omega : 4 * i < 2 ^ 32),
        ulong_of_lt (by omega)] at hlo
      omega
  | linux =>
    have hlt : t.lastPageNum.toNat * t.params.nodePageSize < 2 ^ 32 := hfit
    have harea : t.getFreePagesInfoAreaOfs .linux = t.pagesEnd := by
      rw [getFreePagesInfoAreaOfs_mod .linux h, Nat.mod_eq_of_lt hlt]
      exact Nat.mod_eq_of_lt (by omega)
    rcases mem_freeListArea.mp ha with ⟨hlo, -⟩ | ⟨i, hi, hlo, -⟩
    · omega
    · -- the offset inside the list is a `UInt`, so the sum stays far below `2 ^ 64`
      have hmod : 4 * i % 2 ^ 32 < 2 ^ 32 := Nat.mod_lt _ (by decide)
      rw [entryOfs_eq .linux hi, harea] at hlo
      simp only [Platform.ulong, pagesEnd] at hlo ⊢
      rw [Nat.mod_eq_of_lt (by omega)] at hlo
      omega

/-! ## When the addresses are apart -/

/-- Pages at intended offsets do not overlap. -/
theorem pageOfs_disjoint {p q : UInt32} (hp : t.HasPage p) (hq : t.HasPage q) (hne : p ≠ q) :
    Disjoint (Set.Ico (t.pageOfs p) (t.pageOfs p + t.params.nodePageSize))
      (Set.Ico (t.pageOfs q) (t.pageOfs q + t.params.nodePageSize)) := by
  have hindex : p.toNat - 1 ≠ q.toNat - 1 := by
    intro heq
    apply hne
    apply UInt32.toNat_inj.mp
    have := one_le_toNat hp.1
    have := one_le_toNat hq.1
    omega
  exact slots_disjoint 16 (Nat.zero_le t.params.nodePageSize) hindex

theorem AddressesFit.pageOfs_lt (h : t.params.PageSizeFits) (hfit : AddressesFit pl t) {p : UInt32}
    (hp : t.HasPage p) : t.pageOfs p < 2 ^ 32 := by
  have hend := hp.pageOfs_add_le
  have hsize := h.1
  cases pl with
  | windows =>
    have hlt : t.pagesEnd + 4 * t.freePagesCounter.toNat < 2 ^ 32 := hfit
    omega
  | linux =>
    -- a page is longer than the header
    have hlt : t.lastPageNum.toNat * t.params.nodePageSize < 2 ^ 32 := hfit
    simp only [pagesEnd] at hend
    omega

theorem AddressesFit.pagesApart (h : t.params.PageSizeFits) (hfit : AddressesFit pl t) :
    t.PagesApart pl := by
  have hgoto : ∀ p, t.HasPage p → t.gotoPageOfs p = t.pageOfs p := by
    intro p hp
    exact gotoPageOfs_eq h hp.1 (hfit.pageOfs_lt h hp)
  have hpage : ∀ p, t.HasPage p → ∀ a ∈ t.pageArea p, 16 ≤ a ∧ a < t.pagesEnd := by
    intro p hp a ha
    rw [pageArea, hgoto p hp, Set.mem_Ico] at ha
    have := hp.pageOfs_add_le
    have : 16 ≤ t.pageOfs p := Nat.le_add_right 16 _
    omega
  constructor
  · intro p hp
    exact ⟨hgoto p hp, getPageOfs_eq h hp.1 (hfit.pageOfs_lt h hp)⟩
  · intro p q hp hq hne
    rw [pageArea, pageArea, hgoto p hp, hgoto q hq]
    exact pageOfs_disjoint hp hq hne
  · intro p hp
    apply Set.disjoint_left.mpr
    intro a ha hap
    exact absurd ha.2 (Nat.not_lt.mpr (hpage p hp a hap).1)
  · intro p hp
    apply Set.disjoint_left.mpr
    intro a ha hap
    exact absurd (hpage p hp a hap).2 (Nat.not_lt.mpr (hfit.pagesEnd_le h ha))
  · apply Set.disjoint_left.mpr
    intro a ha hal
    have hend : 16 ≤ t.pagesEnd := Nat.le_add_right 16 _
    exact absurd ha.2 (Nat.not_lt.mpr (hend.trans (hfit.pagesEnd_le h hal)))

/-! ## When they are not -/

/-- Header and first page take up the file from its first byte on. -/
theorem PagesApart.le_of_mem_freeListArea (h : t.PagesApart pl) (hlast : t.lastPageNum ≠ 0) {a : ℕ}
    (ha : a ∈ t.freeListArea pl) : 16 + t.params.nodePageSize ≤ a := by
  have hone : t.HasPage 1 := ⟨by decide, UInt32.le_iff_toNat_le.mpr (one_le_toNat hlast)⟩
  have hfirst : t.gotoPageOfs 1 = 16 := by
    rw [(h.offsets 1 hone).1]
    exact congrArg (16 + ·) (Nat.zero_mul _)
  have hheader : a ∉ headerArea := by
    intro hmem
    exact Set.disjoint_left.mp h.headerFreeList hmem ha
  have hpage : a ∉ t.pageArea 1 := Set.disjoint_left.mp (h.freeList 1 hone) ha
  rw [headerArea, FIRST_PAGE_OFS, Set.mem_Ico] at hheader
  rw [pageArea, hfirst, Set.mem_Ico] at hpage
  omega

/-- The last page begins below `2 ^ 32`, so the pages end less than a page behind it. -/
theorem PagesApart.pagesEnd_lt (h : t.PagesApart pl) (hlast : t.lastPageNum ≠ 0) :
    t.pagesEnd < 2 ^ 32 + t.params.nodePageSize := by
  have hmem : t.HasPage t.lastPageNum := ⟨hlast, UInt32.le_iff_toNat_le.mpr (Nat.le_refl _)⟩
  have hlt := h.pageOfs_lt hmem
  have hend : t.pageOfs t.lastPageNum + t.params.nodePageSize = t.pagesEnd := pageOfs_add hlast
  omega

theorem lastPageNum_ne_zero (h : 16 < t.pagesEnd) : t.lastPageNum ≠ 0 := by
  intro hzero
  rw [pagesEnd, hzero] at h
  simp at h

/-- A list that runs over the 4 GiB bound has an entry that comes out in the header. -/
theorem exists_entryOfs_lt (h : t.params.PageSizeFits) (hend : t.pagesEnd < 2 ^ 32)
    (hover : 2 ^ 32 ≤ t.pagesEnd + 4 * t.freePagesCounter.toNat) :
    ∃ i < t.freePagesCounter.toNat, t.entryOfs .windows i < 4 := by
  refine ⟨(2 ^ 32 - 1 - t.pagesEnd) / 4, by omega, ?_⟩
  rw [entryOfs_eq .windows (by omega), getFreePagesInfoAreaOfs_eq h hend]
  show (t.pagesEnd + 4 + 4 * ((2 ^ 32 - 1 - t.pagesEnd) / 4) % 2 ^ 32) % 2 ^ 32 < 4
  omega

theorem PagesApart.addressesFit (h : t.params.PageSizeFits) (hapart : t.PagesApart pl) :
    AddressesFit pl t := by
  cases pl with
  | windows =>
    show t.pagesEnd + 4 * t.freePagesCounter.toNat < 2 ^ 32
    by_contra hover
    by_cases hend : t.pagesEnd < 2 ^ 32
    · obtain ⟨i, hi, hlt⟩ := exists_entryOfs_lt h hend (Nat.not_lt.mp hover)
      have hmem : t.entryOfs .windows i ∈ t.freeListArea .windows :=
        mem_freeListArea.mpr (Or.inr ⟨i, hi, le_refl _, by omega⟩)
      have hheader : t.entryOfs .windows i ∈ headerArea := ⟨Nat.zero_le _, hlt.trans (by decide)⟩
      exact Set.disjoint_left.mp hapart.headerFreeList hheader hmem
    · -- the counter comes out less than a page behind the first byte of the file
      have hlast : t.lastPageNum ≠ 0 := lastPageNum_ne_zero (by omega)
      have hle := hapart.le_of_mem_freeListArea hlast areaOfs_mem_freeListArea
      have hlt := hapart.pagesEnd_lt hlast
      rw [getFreePagesInfoAreaOfs_mod .windows h] at hle
      simp only [Platform.ulong, pagesEnd] at hle hlt hend
      have hsize := h.2
      omega
  | linux =>
    show t.lastPageNum.toNat * t.params.nodePageSize < 2 ^ 32
    by_contra hover
    have hlast : t.lastPageNum ≠ 0 := lastPageNum_ne_zero (by rw [pagesEnd]; omega)
    have hle := hapart.le_of_mem_freeListArea hlast areaOfs_mem_freeListArea
    have hlt := hapart.pagesEnd_lt hlast
    rw [getFreePagesInfoAreaOfs_mod .linux h] at hle
    simp only [Platform.ulong, pagesEnd] at hle hlt
    have hsize := h.2
    omega

/-! ## Page counts that allocations reach -/

/-- A call of `allocPage` that returns takes the object and its stream from `t` to `u`. -/
def AllocStep (pl : Platform) (uninit : UInt32) (t u : StreamTree) : Prop :=
  ∃ keysNum isLeaf pageNum, allocPage pl uninit keysNum isLeaf t = (.ok pageNum, u)

/-- The object has `n` pages, none of them free, and its stream is ready. -/
structure HasPages (treeType : TreeType) (params : Params) (n : UInt32) (t : StreamTree) : Prop where
  treeType : t.treeType = treeType
  params : t.params = params
  lastPageNum : t.lastPageNum = n
  freePagesCounter : t.freePagesCounter = 0
  hasStream : t.hasStream = true
  good : t.stream.Good

/-- An allocation that no free page serves adds a page, whatever offset it computes for it. -/
theorem HasPages.allocPage (pl : Platform) (uninit : UInt32) {treeType : TreeType} {params : Params}
    {n : UInt32} (h : t.HasPages treeType params n) (keysNum : UInt16) (isLeaf : Bool) :
    ∃ u, allocPage pl uninit keysNum isLeaf t = (.ok (n + 1), u) ∧
      u.HasPages treeType params (n + 1) := by
  refine ⟨(t.allocPageInternal pl keysNum isLeaf).writeFreePagesCounter pl, ?_, ?_⟩
  · rw [allocPage_run h.hasStream h.good, allocPageUsingFreePages, if_pos h.freePagesCounter,
      ← h.lastPageNum]
    rfl
  · refine ⟨h.treeType, h.params, congrArg (· + 1) h.lastPageNum, h.freePagesCounter, h.hasStream, ?_⟩
    -- the page, the page counter and the counter of the free pages are written one after another
    apply FileStream.good_seek_write
    apply FileStream.good_seek_write
    exact FileStream.good_seek_write h.good

/-- Every page count that `_lastPageNum` can hold is reached from a new tree by allocations. -/
theorem exists_reaches_lastPageNum (pl : Platform) (uninit : UInt32) (treeType : TreeType)
    (order recSize : UInt16) {params : Params}
    (hset : BTreesMods.setOrder treeType order recSize = .ok params) {n : UInt32} (hn : n ≠ 0) :
    ∃ t, Relation.ReflTransGen (AllocStep pl uninit)
        (created pl uninit treeType order recSize) t ∧ t.HasPages treeType params n := by
  have hrun (k : ℕ) : ∃ t, Relation.ReflTransGen (AllocStep pl uninit)
      (created pl uninit treeType order recSize) t ∧
        t.HasPages treeType params (UInt32.ofNat (k + 1)) := by
    induction k with
    | zero =>
      obtain ⟨u, hcreate, hinv, htype, hparams, hlast, -⟩ := createTree_spec pl uninit
        (t := onEmptyFile treeType) rfl ⟨rfl, rfl⟩ rfl rfl rfl hset
      rw [created, hcreate]
      exact ⟨u, Relation.ReflTransGen.refl, htype, hparams, hlast,
        (counter_eq_zero_iff hinv.counter).mpr rfl, hinv.hasStream, hinv.good⟩
    | succ k ih =>
      obtain ⟨t, hreach, hpages⟩ := ih
      obtain ⟨u, halloc, hpages'⟩ := hpages.allocPage pl uninit 0 true
      rw [← UInt32.ofNat_one, ← UInt32.ofNat_add] at hpages'
      exact ⟨u, hreach.tail ⟨0, true, _, halloc⟩, hpages'⟩
  obtain ⟨t, hreach, hpages⟩ := hrun (n.toNat - 1)
  rw [Nat.sub_add_cancel (one_le_toNat hn), UInt32.ofNat_toNat] at hpages
  exact ⟨t, hreach, hpages⟩

/-! ## The exact condition -/

/-- For the page sizes that `setOrder` computes, with any number of pages and of free pages, the
addresses are apart exactly when they fit. -/
theorem pagesApart_iff (pl : Platform) (t : StreamTree) (order recSize : UInt16)
    (hset : BTreesMods.setOrder t.treeType order recSize = .ok t.params) :
    t.PagesApart pl ↔ AddressesFit pl t := by
  have hfits : t.params.PageSizeFits := setOrder_pageSizeFits hset
  exact ⟨fun hapart => hapart.addressesFit hfits, fun hfit => hfit.pagesApart hfits⟩

theorem pagesApart_iff_onEmptyFile :
    let t : StreamTree := { onEmptyFile .bTree with
      params := { order := 2, recSize := 1, minKeys := 1, maxKeys := 3, slots := 3, keysSize := 3,
                  cursorsOfs := 5, nodePageSize := 21 }
      lastPageNum := 1000 }
    t.PagesApart .linux ↔ AddressesFit .linux t :=
  pagesApart_iff .linux _ 2 1 rfl

/-- A B-tree of order 16383 with keys of 65535 bytes, where `unsigned long` has 64 bits: page 4 is
read and written inside page 1. -/
theorem pages_collide :
    ∃ t, Relation.ReflTransGen (AllocStep .linux 0) (created .linux 0 .bTree 16383 65535) t ∧
      t.HasPage 1 ∧ t.HasPage 4 ∧ t.pageOfs 4 = 6442156039 ∧ t.gotoPageOfs 4 = 2147188743 ∧
      ¬ Disjoint (t.pageArea 1) (t.pageArea 4) ∧ ¬ t.PagesApart .linux := by
  obtain ⟨t, hreach, hpages⟩ := exists_reaches_lastPageNum .linux 0 .bTree 16383 65535 (n := 4)
    rfl (by decide)
  have hsize : t.params.nodePageSize = 2147385341 := by
    rw [hpages.params]
    rfl
  have hnode : t.nodePageSize = 2147385341 := by
    rw [nodePageSize, hsize]
    rfl
  have hone : t.HasPage 1 := ⟨by decide, by rw [hpages.lastPageNum]; decide⟩
  have hfour : t.HasPage 4 := ⟨by decide, by rw [hpages.lastPageNum]; decide⟩
  have hgoto1 : t.gotoPageOfs 1 = 16 := by
    rw [gotoPageOfs, hnode]
    decide
  have hgoto4 : t.gotoPageOfs 4 = 2147188743 := by
    rw [gotoPageOfs, hnode]
    decide
  have hmem1 : 2147188743 ∈ t.pageArea 1 := by
    rw [pageArea, hgoto1, hsize]
    exact ⟨by decide, by decide⟩
  have hmem4 : 2147188743 ∈ t.pageArea 4 := by
    rw [pageArea, hgoto4, hsize]
    exact ⟨le_refl _, by decide⟩
  have hmeet : ¬ Disjoint (t.pageArea 1) (t.pageArea 4) := by
    intro hdisj
    exact Set.disjoint_left.mp hdisj hmem1 hmem4
  refine ⟨t, hreach, hone, hfour, ?_, hgoto4, hmeet, ?_⟩
  · rw [pageOfs, hsize]
    rfl
  · intro hapart
    exact hmeet (hapart.pages 1 4 hone hfour (by decide))

end StreamTree

end BTreesMods
