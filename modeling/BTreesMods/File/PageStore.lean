import BTreesMods.File.Addresses
import BTreesMods.File.PageBytes
import BTreesMods.Storage.Bookkeeping

/-!
# The storage calls on the bytes of the file

Model of `readPage`, `writePage` and `setAsRoot` on the bytes of the stream (`btree.hpp`, lines 64–83,
723–739, 863–868, 1067–1078 and 1091–1097), next to the allocation and the free list of `StreamTree`.
`Stores p t s`: the object `t` and the bytes of its stream are those of the tree `s`, whose records are
`p.recSize` bytes each.

`StorageCall.exec_spec`: one storage call does on the bytes what it does on the tree, as long as the file
stays below 4 GiB.
-/

namespace BTreesMods

open StreamTree

/-! ## Pages of the stream -/

namespace StreamTree

/-- `readPage` and `readPageInternal` (lines 64–72 and 723–727). -/
def readPage (pnum : UInt32) : StreamM PageData := do
  checkForOpenStream
  if pnum = 0 ∨ pnum > (← get).lastPageNum then
    throw (.invalidArgument "Can't read a non-existing page")
  else modifyGet fun t =>
    let (bs, stream) := (t.stream.seek (t.gotoPageOfs pnum)).read t.params.nodePageSize
    (bs, { t with stream := stream })

/-- `PageWrapper::writePage`, `writePage` and `writePageInternal` (lines 1091–1097, 74–83 and 729–733). -/
def writePage (pnum : UInt32) (data : PageData) : StreamM Unit := do
  if pnum = 0 then throw (.runtimeError "Page number not set. Can't write")
  else do
    checkForOpenStream
    if pnum = 0 ∨ pnum > (← get).lastPageNum then
      throw (.invalidArgument "Can't write a non-existing page")
    else modify fun t => t.writeAt (t.gotoPageOfs pnum) data

/-- `PageWrapper::setAsRoot(true)` and `setRootPageNum` (lines 1067–1078 and 863–868). -/
def setPageAsRoot (pageNum : UInt32) : StreamM Unit := do
  modify fun t => { t with rootPageNum := pageNum }
  if pageNum = 0 then
    throw (.runtimeError "Can't set a page as root until allocate a page in a file")
  else modify writeRootPageNum

end StreamTree

namespace StorageCall

variable (pl : Platform) (uninit : UInt32) (p : Params)

/-- The call on the bytes of the stream, and the page that it reads or allocates. -/
def exec : StorageCall (Record p.recSize) → StreamM (Option (UInt32 × PageData))
  | readPage pnum => do
    let data ← StreamTree.readPage (UInt32.ofNat pnum)
    return some (UInt32.ofNat pnum, data)
  | writePage pw => do
    StreamTree.writePage (UInt32.ofNat pw.pageNum) (pw.data.bytes p)
    return none
  | allocPage keysNum isLeaf => do
    let pageNum ← StreamTree.allocPage pl uninit (UInt16.ofNat keysNum) isLeaf
    return some (pageNum, (← get).clearedPage (UInt16.ofNat keysNum) isLeaf)
  | markPageFree pageNum => do
    StreamTree.markPageFree pl (UInt32.ofNat pageNum)
    return none
  | setAsRoot pw => do
    setPageAsRoot (UInt32.ofNat pw.pageNum)
    return none
  | loadRootPage => do
    StreamTree.loadRootPage
    return none
  | assignRootPage pw => do
    modify fun t => { t with rootPage := pw.data.bytes p, rootPagePageNum := UInt32.ofNat pw.pageNum }
    return none
  | endWithoutReturn => return none

/-- The calls one after another, with what each of them returns. -/
def execAll : List (StorageCall (Record p.recSize)) → StreamM (List (Option (UInt32 × PageData)))
  | [] => return []
  | c :: cs => do
    let r ← c.exec pl uninit p
    let rs ← execAll cs
    return r :: rs

/-- The call is one that can be made: page numbers are of the type `UInt`, page 0 is not marked free,
and no page is marked free on an empty list unless `unsigned long` has 32 bits. -/
def InDomain (s : BTree (Record p.recSize)) : StorageCall (Record p.recSize) → Prop
  | markPageFree pageNum => pageNum ≠ 0 ∧ (pl = .windows ∨ s.stream.freePages ≠ [])
  | setAsRoot pw | assignRootPage pw => pw.pageNum < 2 ^ 32
  | _ => True

end StorageCall

/-- The header, the pages and the list of free pages take less than 4 GiB. -/
def BTree.FileFits (p : Params) {κ : Type} (s : BTree κ) : Prop :=
  20 + s.lastPageNum * p.nodePageSize + 4 * s.stream.freePages.length < 2 ^ 32

instance (p : Params) {κ : Type} (s : BTree κ) : Decidable (s.FileFits p) := inferInstanceAs (Decidable (_ < _))

/-- The file takes less than 4 GiB, and no page is free unless `unsigned long` has 32 bits. -/
def BTree.IdealStorage (pl : Platform) (p : Params) {κ : Type} (s : BTree κ) : Prop :=
  s.FileFits p ∧ (pl = .linux → s.stream.freePages = [])

instance (pl : Platform) (p : Params) {κ : Type} (s : BTree κ) : Decidable (s.IdealStorage pl p) :=
  inferInstanceAs (Decidable (_ ∧ _))

/-- The page number and the bytes of a wrapper. -/
def PageWrapper.bytes (p : Params) (pw : PageWrapper (Record p.recSize)) : UInt32 × PageData :=
  (UInt32.ofNat pw.pageNum, pw.data.bytes p)

/-- The object and its stream hold the tree. -/
structure Stores (p : Params) (t : StreamTree) (s : BTree (Record p.recSize)) : Prop where
  booked : s.Booked
  nonzero : 0 ∉ s.stream.freePages
  params_eq : t.params = p
  lastPageNum : t.lastPageNum.toNat = s.lastPageNum
  rootPageNum : t.rootPageNum.toNat = s.rootPageNum
  rootPagePageNum : t.rootPagePageNum.toNat = s.rootPage.pageNum
  rootPage : t.rootPage = s.rootPage.data.bytes p
  free : t.FreeListInv (s.stream.freePages.map UInt32.ofNat)
  header : t.stream.bytesAt 0 8 = leBytes 4 VALID_SIGN ++ leBytes 2 s.stream.order.toNat ++
    leBytes 2 s.stream.recSize.toNat
  pageCounter : t.stream.bytesAt 8 4 = leBytes 4 s.lastPageNum
  rootField : t.stream.bytesAt 12 4 = leBytes 4 s.rootPageNum
  pages : ∀ n, n ≠ 0 → n ≤ s.lastPageNum →
    t.stream.bytesAt (16 + (n - 1) * p.nodePageSize) p.nodePageSize = (s.stream.page n).bytes p

/-! ## The free list -/

section

variable {pl : Platform} {uninit : UInt32} {t u : StreamTree}

/-- The invariant of the free list depends on the bytes from the end of the pages on. -/
theorem StreamTree.FreeListInv.congr {free : List UInt32} (h : t.FreeListInv free)
    (hs : u.hasStream = true) (hg : u.stream.Good) (hparams : u.params = t.params)
    (hlast : u.lastPageNum = t.lastPageNum) (hcounter : u.freePagesCounter = t.freePagesCounter)
    (hsize : t.stream.size ≤ u.stream.size)
    (hbytes : ∀ o, t.pagesEnd ≤ o → o < t.listEnd free.length → u.stream.byte o = t.stream.byte o) :
    u.FreeListInv free := by
  have hend : u.pagesEnd = t.pagesEnd := by
    rw [pagesEnd, pagesEnd, hparams, hlast]
  have hlist (n : ℕ) : u.listEnd n = t.listEnd n := by
    rw [listEnd, listEnd, hend]
  refine ⟨hs, hg, ?_, ?_, ?_, ?_, ?_, ?_, ?_⟩
  · rw [hparams]
    exact h.fits
  · rw [hcounter]
    exact h.counter
  · rw [hlast]
    exact h.marked
  · rw [hlist]
    exact h.below
  · rw [hlist]
    exact h.inFile.trans hsize
  · rw [hend, ← h.counterStored]
    apply FileStream.bytesAt_congr
    intro o ho hhi
    exact hbytes o ho (by rw [listEnd]; omega)
  · apply h.entries.congr hend
    intro o ho hhi
    exact hbytes o (by omega) hhi

/-- A write in front of the free list leaves it alone. -/
theorem StreamTree.FreeListInv.writeAt {free : List UInt32} (h : t.FreeListInv free) {ofs : ℕ}
    {bs : List UInt8} (hin : ofs + bs.length ≤ t.pagesEnd) : (t.writeAt ofs bs).FreeListInv free := by
  have hgood : (t.writeAt ofs bs).stream.Good := FileStream.good_seek_write h.good
  refine h.congr h.hasStream hgood rfl rfl rfl ?_ ?_
  · show _ ≤ ((t.stream.seek ofs).write bs).size
    rw [FileStream.size_seek_write h.good]
    exact Nat.le_max_left _ _
  · intro o ho _
    exact FileStream.byte_seek_write_of_not_mem h.good (Or.inr (by omega))

/-- Two pages do not overlap. -/
theorem pages_apart (size : ℕ) {m n : ℕ} (hm : m ≠ 0) (hn : n ≠ 0) (hne : m ≠ n) :
    (m - 1) * size + size ≤ (n - 1) * size ∨ (n - 1) * size + size ≤ (m - 1) * size := by
  rw [← Nat.succ_mul, ← Nat.succ_mul]
  rcases Nat.lt_or_gt_of_ne hne with hlt | hgt
  · exact Or.inl (Nat.mul_le_mul_right _ (by omega))
  · exact Or.inr (Nat.mul_le_mul_right _ (by omega))

/-- The bytes of a new page. -/
theorem clearedPage_eq {p : Params} {treeType : TreeType} {order recSize : ℕ}
    (hsz : p.Sizes treeType order recSize) (hparams : t.params = p) (n : ℕ) (leaf : Bool) :
    t.clearedPage (UInt16.ofNat n) leaf = (Page.cleared n leaf).bytes p := by
  have hpage : KEYS_OFS ≤ p.nodePageSize := by
    rw [hsz.nodePageSize_eq]
    simp only [KEYS_OFS]
    omega
  rw [bytes_cleared hsz, clearedPage, hparams]
  show slot p.nodePageSize (leBytes KEYS_OFS _) = _
  rw [slot, List.take_of_length_le (by rw [length_leBytes]; exact hpage), length_leBytes]
  rfl

/-! ## The members for the root page -/

/-- The members `_rootPageNum` and `_rootPage` are the same. -/
structure SameRoot (t u : StreamTree) : Prop where
  rootPageNum : u.rootPageNum = t.rootPageNum
  rootPagePageNum : u.rootPagePageNum = t.rootPagePageNum
  rootPage : u.rootPage = t.rootPage

theorem allocPage_sameRoot {keysNum : UInt16} {isLeaf : Bool} {q : UInt32} (hs : t.hasStream = true)
    (hg : t.stream.Good) (hrun : StreamTree.allocPage pl uninit keysNum isLeaf t = (.ok q, u)) :
    SameRoot t u := by
  rw [StreamTree.allocPage_run hs hg] at hrun
  cases hrun
  unfold allocPageUsingFreePages
  split <;> exact ⟨rfl, rfl, rfl⟩

theorem markPageFree_sameRoot {q : UInt32} (hrun : StreamTree.markPageFree pl q t = (.ok (), u)) :
    SameRoot t u := by
  change (if q > t.lastPageNum then _ else _ : StreamM Unit) t = _ at hrun
  split at hrun
  · cases hrun
  · cases hrun
    exact ⟨rfl, rfl, rfl⟩

/-! ## Where the pages are -/

namespace Stores

variable {p : Params} {s : BTree (Record p.recSize)} (h : Stores p t s)

include h

theorem fits : p.PageSizeFits := by
  rw [← h.params_eq]
  exact h.free.fits

theorem pagesEnd_eq : t.pagesEnd = 16 + s.lastPageNum * p.nodePageSize := by
  rw [pagesEnd, h.lastPageNum, h.params_eq]

/-- The free list ends below 4 GiB, and the pages before it. -/
theorem pagesEnd_lt : t.pagesEnd + 4 < 2 ^ 32 := by
  have := h.free.below
  simp only [listEnd] at this
  omega

theorem toNat_ofNat {n : ℕ} (hn : n ≤ s.lastPageNum) : (UInt32.ofNat n).toNat = n := by
  have := t.lastPageNum.toNat_lt
  have := h.lastPageNum
  exact UInt32.toNat_ofNat_of_lt' (show n < 2 ^ 32 by omega)

theorem page_inside {n : ℕ} (h0 : n ≠ 0) (hn : n ≤ s.lastPageNum) :
    16 + (n - 1) * p.nodePageSize + p.nodePageSize ≤ t.pagesEnd := by
  have hmul : (n - 1) * p.nodePageSize + p.nodePageSize ≤ s.lastPageNum * p.nodePageSize := by
    rw [← Nat.succ_mul]
    exact Nat.mul_le_mul_right _ (by omega)
  rw [h.pagesEnd_eq]
  omega

theorem ofNat_ne_zero {n : ℕ} (h0 : n ≠ 0) (hn : n ≤ s.lastPageNum) : UInt32.ofNat n ≠ 0 := by
  intro hzero
  have := h.toNat_ofNat hn
  rw [hzero] at this
  exact h0 this.symm

theorem ofNat_le {n : ℕ} (hn : n ≤ s.lastPageNum) : UInt32.ofNat n ≤ t.lastPageNum := by
  rw [UInt32.le_iff_toNat_le, h.toNat_ofNat hn, h.lastPageNum]
  exact hn

theorem pageOfs_ofNat {n : ℕ} (hn : n ≤ s.lastPageNum) :
    t.pageOfs (UInt32.ofNat n) = 16 + (n - 1) * p.nodePageSize := by
  rw [pageOfs, h.toNat_ofNat hn, h.params_eq]

theorem gotoPageOfs_ofNat {n : ℕ} (h0 : n ≠ 0) (hn : n ≤ s.lastPageNum) :
    t.gotoPageOfs (UInt32.ofNat n) = 16 + (n - 1) * p.nodePageSize := by
  have hlt : t.pageOfs (UInt32.ofNat n) < 2 ^ 32 := by
    have := h.page_inside h0 hn
    have := h.pagesEnd_lt
    rw [h.pageOfs_ofNat hn]
    omega
  rw [gotoPageOfs_eq h.free.fits (h.ofNat_ne_zero h0 hn) hlt, h.pageOfs_ofNat hn]

theorem isOpened : t.isOpened = true := isOpened_of_good h.free.hasStream h.free.good

theorem pagesEnd_le_size : t.pagesEnd ≤ t.stream.size := by
  have := h.free.inFile
  simp only [listEnd] at this
  omega

/-- The position in the stream does not matter. -/
theorem seek (pos : ℕ) : Stores p { t with stream := { t.stream with pos := pos } } s :=
  { h with free := h.free.congr h.free.hasStream h.free.good rfl rfl rfl (Nat.le_refl _) fun _ _ _ => rfl }

/-- The pages that a write leaves alone. -/
theorem pages_congr (hbytes : ∀ o, 16 ≤ o → o < t.pagesEnd → u.stream.byte o = t.stream.byte o) (n : ℕ)
    (h0 : n ≠ 0) (hn : n ≤ s.lastPageNum) :
    u.stream.bytesAt (16 + (n - 1) * p.nodePageSize) p.nodePageSize = (s.stream.page n).bytes p := by
  rw [← h.pages n h0 hn]
  apply FileStream.bytesAt_congr
  intro o hlo hhi
  have := h.page_inside h0 hn
  exact hbytes o (by omega) (by omega)

/-! ## Reading and writing pages -/

theorem readPage {n : ℕ} (h0 : n ≠ 0) (hn : n ≤ s.lastPageNum) :
    StreamTree.readPage (UInt32.ofNat n) t = (.ok ((s.stream.page n).bytes p),
      { t with stream := { t.stream with pos := 16 + (n - 1) * p.nodePageSize + p.nodePageSize } }) := by
  have hgood : ¬(UInt32.ofNat n = 0 ∨ UInt32.ofNat n > t.lastPageNum) := by
    rw [not_or]
    exact ⟨h.ofNat_ne_zero h0 hn, UInt32.not_lt.mpr (h.ofNat_le hn)⟩
  have hin : 16 + (n - 1) * p.nodePageSize + p.nodePageSize ≤ t.stream.size :=
    (h.page_inside h0 hn).trans h.pagesEnd_le_size
  have hread : (t.stream.seek (t.gotoPageOfs (UInt32.ofNat n))).read t.params.nodePageSize =
      ((s.stream.page n).bytes p,
        { t.stream with pos := 16 + (n - 1) * p.nodePageSize + p.nodePageSize }) := by
    rw [h.gotoPageOfs_ofNat h0 hn, h.params_eq, FileStream.read_seek h.free.good hin, h.pages n h0 hn]
  have hopen : checkForOpenStream t = (.ok (), t) := by
    change (if t.isOpened then _ else _ : StreamM Unit) t = _
    rw [h.isOpened]
    rfl
  refine (StreamM.bind_ok hopen).trans ?_
  change (if UInt32.ofNat n = 0 ∨ UInt32.ofNat n > t.lastPageNum then _ else _ : StreamM PageData) t = _
  rw [if_neg hgood]
  change (Except.ok ((t.stream.seek (t.gotoPageOfs (UInt32.ofNat n))).read t.params.nodePageSize).1,
    { t with stream := ((t.stream.seek (t.gotoPageOfs (UInt32.ofNat n))).read t.params.nodePageSize).2 }) = _
  rw [hread]

theorem writePage {treeType : TreeType} {order recSize : ℕ} (hsz : p.Sizes treeType order recSize)
    {pw : PageWrapper (Record p.recSize)} (h0 : pw.pageNum ≠ 0) (hn : pw.pageNum ≤ s.lastPageNum) :
    ∃ u, StreamTree.writePage (UInt32.ofNat pw.pageNum) (pw.data.bytes p) t = (.ok (), u) ∧
      Stores p u { s with stream := s.stream.setPage pw.pageNum pw.data } := by
  have hlen : (pw.data.bytes p).length = p.nodePageSize := length_bytes hsz
  have hofs := h.gotoPageOfs_ofNat h0 hn
  have hin := h.page_inside h0 hn
  have hgood := h.free.good
  have hgood' : ¬(UInt32.ofNat pw.pageNum = 0 ∨ UInt32.ofNat pw.pageNum > t.lastPageNum) := by
    rw [not_or]
    exact ⟨h.ofNat_ne_zero h0 hn, UInt32.not_lt.mpr (h.ofNat_le hn)⟩
  have hopen : checkForOpenStream t = (.ok (), t) := by
    change (if t.isOpened then _ else _ : StreamM Unit) t = _
    rw [h.isOpened]
    rfl
  have hrun : StreamTree.writePage (UInt32.ofNat pw.pageNum) (pw.data.bytes p) t =
      (.ok (), t.writeAt (16 + (pw.pageNum - 1) * p.nodePageSize) (pw.data.bytes p)) := by
    change (if UInt32.ofNat pw.pageNum = 0 then _ else _ : StreamM Unit) t = _
    rw [if_neg (h.ofNat_ne_zero h0 hn)]
    refine (StreamM.bind_ok hopen).trans ?_
    change (if UInt32.ofNat pw.pageNum = 0 ∨ UInt32.ofNat pw.pageNum > t.lastPageNum then _ else _ :
      StreamM Unit) t = _
    rw [if_neg hgood', ← hofs]
    rfl
  -- bytes outside of the page stay
  have hout (o : ℕ) (ho : o < 16 + (pw.pageNum - 1) * p.nodePageSize ∨
      16 + (pw.pageNum - 1) * p.nodePageSize + p.nodePageSize ≤ o) :
      (t.writeAt (16 + (pw.pageNum - 1) * p.nodePageSize) (pw.data.bytes p)).stream.byte o =
        t.stream.byte o := by
    apply FileStream.byte_seek_write_of_not_mem hgood
    rwa [hlen]
  have hfield (o n : ℕ) (hon : o + n ≤ 16) :
      (t.writeAt (16 + (pw.pageNum - 1) * p.nodePageSize) (pw.data.bytes p)).stream.bytesAt o n =
        t.stream.bytesAt o n := by
    apply FileStream.bytesAt_congr
    intro o' _ hhi
    exact hout o' (Or.inl (by omega))
  refine ⟨_, hrun, ?_⟩
  refine { h with booked := ?_, free := ?_, header := ?_, pageCounter := ?_, rootField := ?_, pages := ?_ }
  · exact (StorageChange.page s pw.pageNum pw.data h0 hn).booked h.booked
  · exact h.free.writeAt (by rw [hlen]; exact hin)
  · exact (hfield 0 8 (by omega)).trans h.header
  · exact (hfield 8 4 (by omega)).trans h.pageCounter
  · exact (hfield 12 4 (by omega)).trans h.rootField
  · intro n hn0 hnle
    show _ = (Function.update s.stream.page pw.pageNum pw.data n).bytes p
    by_cases hne : n = pw.pageNum
    · subst hne
      rw [Function.update_self]
      have hself := FileStream.bytesAt_seek_write_self hgood
        (16 + (pw.pageNum - 1) * p.nodePageSize) (pw.data.bytes p)
      rwa [hlen] at hself
    · rw [Function.update_of_ne hne, ← h.pages n hn0 hnle]
      apply FileStream.bytesAt_congr
      intro o hlo hhi
      apply hout
      have := pages_apart p.nodePageSize hn0 h0 hne
      omega

/-! ## The root page -/

theorem setPageAsRoot {q : ℕ} (h0 : q ≠ 0) (hq : q < 2 ^ 32) :
    ∃ u, StreamTree.setPageAsRoot (UInt32.ofNat q) t = (.ok (), u) ∧ Stores p u (s.withRoot q) := by
  have hnum : (UInt32.ofNat q).toNat = q := UInt32.toNat_ofNat_of_lt' hq
  have hne : UInt32.ofNat q ≠ 0 := by
    intro hzero
    rw [hzero] at hnum
    exact h0 hnum.symm
  let v : StreamTree := { t with rootPageNum := UInt32.ofNat q }
  have hgood : v.stream.Good := h.free.good
  have hfree : v.FreeListInv (s.stream.freePages.map UInt32.ofNat) :=
    h.free.congr h.free.hasStream hgood rfl rfl rfl (Nat.le_refl _) fun _ _ _ => rfl
  have hrun : StreamTree.setPageAsRoot (UInt32.ofNat q) t = (.ok (), v.writeAt 12 (leBytes 4 q)) := by
    change (if UInt32.ofNat q = 0 then _ else _ : StreamM Unit) v = _
    rw [if_neg hne]
    show (Except.ok (), v.writeAt 12 (leBytes 4 (UInt32.ofNat q).toNat)) = _
    rw [hnum]
  have hout (o : ℕ) (ho : o < 12 ∨ 16 ≤ o) :
      (v.writeAt 12 (leBytes 4 q)).stream.byte o = t.stream.byte o := by
    apply FileStream.byte_seek_write_of_not_mem hgood
    rwa [length_leBytes]
  have hfield (o n : ℕ) (hon : o + n ≤ 12) :
      (v.writeAt 12 (leBytes 4 q)).stream.bytesAt o n = t.stream.bytesAt o n := by
    apply FileStream.bytesAt_congr
    intro o' _ hhi
    exact hout o' (Or.inl (by omega))
  refine ⟨_, hrun, { h with
    booked := (StorageChange.root s q h0).booked h.booked
    rootPageNum := hnum
    free := hfree.writeAt ?_
    header := (hfield 0 8 (by omega)).trans h.header
    pageCounter := (hfield 8 4 (by omega)).trans h.pageCounter
    rootField := ?_
    pages := ?_ }⟩
  · rw [length_leBytes]
    exact Nat.le_add_right _ _
  · have hself := FileStream.bytesAt_seek_write_self hgood 12 (leBytes 4 q)
    rwa [length_leBytes] at hself
  · apply h.pages_congr
    intro o ho _
    exact hout o (Or.inr ho)

/-- `loadRootPage` reads the page into `_rootPage`. -/
theorem loadRootPage (h0 : s.rootPageNum ≠ 0) (hn : s.rootPageNum ≤ s.lastPageNum) :
    ∃ u, StreamTree.loadRootPage t = (.ok (), u) ∧
      Stores p u { s with rootPage := s.wrapper s.rootPageNum } := by
  have hroot : t.rootPageNum = UInt32.ofNat s.rootPageNum := by
    rw [← h.rootPageNum, UInt32.ofNat_toNat]
  have hne : t.rootPageNum ≠ 0 := by
    rw [hroot]
    exact h.ofNat_ne_zero h0 hn
  have hgood : ¬(t.rootPageNum = 0 ∨ t.rootPageNum > t.lastPageNum) := by
    rw [not_or, hroot]
    exact ⟨h.ofNat_ne_zero h0 hn, UInt32.not_lt.mpr (h.ofNat_le hn)⟩
  have hin : 16 + (s.rootPageNum - 1) * p.nodePageSize + p.nodePageSize ≤ t.stream.size :=
    (h.page_inside h0 hn).trans h.pagesEnd_le_size
  have hread : (t.stream.seek (t.gotoPageOfs t.rootPageNum)).read t.params.nodePageSize =
      ((s.stream.page s.rootPageNum).bytes p,
        { t.stream with pos := 16 + (s.rootPageNum - 1) * p.nodePageSize + p.nodePageSize }) := by
    rw [hroot, h.gotoPageOfs_ofNat h0 hn, h.params_eq, FileStream.read_seek h.free.good hin,
      h.pages _ h0 hn]
  have hopen : checkForOpenStream t = (.ok (), t) := by
    change (if t.isOpened then _ else _ : StreamM Unit) t = _
    rw [h.isOpened]
    rfl
  let v : StreamTree := { t with
    rootPage := (s.stream.page s.rootPageNum).bytes p
    rootPagePageNum := t.rootPageNum
    stream := { t.stream with pos := 16 + (s.rootPageNum - 1) * p.nodePageSize + p.nodePageSize } }
  have hrun : readRootPage t.rootPageNum t = (.ok (), v) := by
    refine (StreamM.bind_ok hopen).trans ?_
    change (if t.rootPageNum = 0 ∨ t.rootPageNum > t.lastPageNum then _ else _ : StreamM Unit) t = _
    rw [if_neg hgood]
    change (Except.ok (), { t with
      rootPage := ((t.stream.seek (t.gotoPageOfs t.rootPageNum)).read t.params.nodePageSize).1
      rootPagePageNum := t.rootPageNum
      stream := ((t.stream.seek (t.gotoPageOfs t.rootPageNum)).read t.params.nodePageSize).2 }) = _
    rw [hread]
  refine ⟨v, ?_, { h with
    booked := (StorageChange.rootPage s _).booked h.booked
    rootPagePageNum := h.rootPageNum
    rootPage := rfl
    free := h.free.congr h.free.hasStream h.free.good rfl rfl rfl (Nat.le_refl _) fun _ _ _ => rfl }⟩
  change (if t.rootPageNum = 0 then _ else _ : StreamM Unit) t = _
  rw [if_neg hne]
  exact (StreamM.bind_ok hrun).trans rfl

/-! ## Allocating and freeing pages -/

/-- An allocation on an empty list appends a page. -/
theorem allocPage_appends (pl : Platform) (uninit : UInt32) {treeType : TreeType} {order recSize : ℕ}
    (hsz : p.Sizes treeType order recSize) (n : ℕ) (leaf : Bool) (hcounter : s.freePagesCounter = 0)
    (hroom : t.pagesEnd + p.nodePageSize + 4 < 2 ^ 32) :
    ∃ u, StreamTree.allocPage pl uninit (UInt16.ofNat n) leaf t = (.ok (UInt32.ofNat (s.lastPageNum + 1)), u) ∧
      Stores p u { s with
        lastPageNum := s.lastPageNum + 1
        stream := { s.stream.setPage (s.lastPageNum + 1) (Page.cleared n leaf) with
          pageCounter := s.lastPageNum + 1
          freePagesCounter := s.freePagesCounter } } := by
  have hempty : s.stream.freePages = [] := by
    rw [← List.length_eq_zero_iff, ← h.booked.counter]
    exact hcounter
  have hzero : t.freePagesCounter = 0 := by
    rw [counter_eq_zero_iff h.free.counter, hempty]
    rfl
  obtain ⟨u, hrun, hfree, -, hparams, hlast, hnum, hpage, hcount, hbytes⟩ :=
    StreamTree.allocPage_appends pl uninit h.free.hasStream h.free.good h.free.fits hzero (UInt16.ofNat n) leaf
      (by rw [h.params_eq]; exact hroom)
  have hroot := allocPage_sameRoot h.free.hasStream h.free.good hrun
  rw [h.lastPageNum] at hnum
  have hofNat : t.lastPageNum + 1 = UInt32.ofNat (s.lastPageNum + 1) := by
    rw [← hnum, UInt32.ofNat_toNat]
  have hend := h.pagesEnd_eq
  have hfield (o n : ℕ) (hon : o + n ≤ 8 ∨ 12 ≤ o ∧ o + n ≤ 16) :
      u.stream.bytesAt o n = t.stream.bytesAt o n := by
    apply FileStream.bytesAt_congr
    intro o' hlo hhi
    exact hbytes o' (by omega) (by omega)
  rw [hofNat] at hrun
  refine ⟨u, hrun, ?_⟩
  exact {
    booked := (StorageChange.appended s _ hcounter).booked h.booked
    nonzero := h.nonzero
    params_eq := hparams.trans h.params_eq
    lastPageNum := by rw [hlast]; exact hnum
    rootPageNum := by rw [hroot.rootPageNum]; exact h.rootPageNum
    rootPagePageNum := by rw [hroot.rootPagePageNum]; exact h.rootPagePageNum
    rootPage := by rw [hroot.rootPage]; exact h.rootPage
    free := by
      show u.FreeListInv (s.stream.freePages.map UInt32.ofNat)
      rw [hempty]
      exact hfree
    header := (hfield 0 8 (by omega)).trans h.header
    pageCounter := by
      rw [hcount, hnum]
    rootField := (hfield 12 4 (by omega)).trans h.rootField
    pages := by
      intro m hm0 hm
      show _ = (Function.update s.stream.page (s.lastPageNum + 1) (Page.cleared n leaf) m).bytes p
      by_cases hlt : m ≤ s.lastPageNum
      · rw [Function.update_of_ne (by omega), ← h.pages m hm0 hlt]
        apply FileStream.bytesAt_congr
        intro o hlo hhi
        have := h.page_inside hm0 hlt
        exact hbytes o (by omega) (by omega)
      · obtain rfl : m = s.lastPageNum + 1 := by
          have : m ≤ s.lastPageNum + 1 := hm
          omega
        rw [Function.update_self, ← clearedPage_eq hsz h.params_eq, ← hpage, hend, h.params_eq, Nat.add_sub_cancel] }

/-- An allocation takes the number marked last. -/
theorem allocPage_reuses (pl : Platform) (uninit : UInt32) {treeType : TreeType} {order recSize : ℕ}
    (hsz : p.Sizes treeType order recSize) (n : ℕ) (leaf : Bool) {q : ℕ} {rest : List ℕ}
    (hcounter : s.freePagesCounter ≠ 0)
    (hfree : s.stream.freePages = q :: rest) :
    ∃ u, StreamTree.allocPage pl uninit (UInt16.ofNat n) leaf t = (.ok (UInt32.ofNat q), u) ∧
      Stores p u { s with
        freePagesCounter := s.freePagesCounter - 1
        stream := { s.stream.setPage q (Page.cleared n leaf) with
          freePages := rest
          freePagesCounter := s.freePagesCounter - 1 } } := by
  have hq : q ≤ s.lastPageNum := h.booked.marked q (by rw [hfree]; exact List.mem_cons_self)
  have hq0 : q ≠ 0 := by
    rintro rfl
    exact h.nonzero (by rw [hfree]; exact List.mem_cons_self)
  have hin := h.page_inside hq0 hq
  have hend := h.pagesEnd_lt
  have hofs := h.pageOfs_ofNat hq
  have hinv : t.FreeListInv (UInt32.ofNat q :: rest.map UInt32.ofNat) := by
    have := h.free
    rwa [hfree, List.map_cons] at this
  have hgetOfs : t.getPageOfs pl (UInt32.ofNat q) = t.pageOfs (UInt32.ofNat q) :=
    getPageOfs_eq h.free.fits (h.ofNat_ne_zero hq0 hq) (by omega)
  obtain ⟨u, hrun, hu, hparams, hlast, hpage, hbytes⟩ := StreamTree.allocPage_reuses uninit hinv
    (UInt16.ofNat n) leaf (by rw [hgetOfs, hofs, h.params_eq]; omega)
  rw [hofs, h.params_eq] at hpage hbytes
  have hroot := allocPage_sameRoot h.free.hasStream h.free.good hrun
  have hpages := h.pagesEnd_eq
  have hfield (o n : ℕ) (hon : o + n ≤ 16) : u.stream.bytesAt o n = t.stream.bytesAt o n := by
    apply FileStream.bytesAt_congr
    intro o' hlo hhi
    exact hbytes o' (by omega) (Or.inl (by omega))
  refine ⟨u, hrun, ?_⟩
  exact {
    booked := (StorageChange.reused s _ q rest hcounter hfree).booked h.booked
    nonzero := fun hmem => h.nonzero (by rw [hfree]; exact List.mem_cons_of_mem q hmem)
    params_eq := hparams.trans h.params_eq
    lastPageNum := by rw [hlast]; exact h.lastPageNum
    rootPageNum := by rw [hroot.rootPageNum]; exact h.rootPageNum
    rootPagePageNum := by rw [hroot.rootPagePageNum]; exact h.rootPagePageNum
    rootPage := by rw [hroot.rootPage]; exact h.rootPage
    free := hu
    header := (hfield 0 8 (by omega)).trans h.header
    pageCounter := (hfield 8 4 (by omega)).trans h.pageCounter
    rootField := (hfield 12 4 (by omega)).trans h.rootField
    pages := by
      intro m hm0 hm
      show _ = (Function.update s.stream.page q (Page.cleared n leaf) m).bytes p
      by_cases hne : m = q
      · subst hne
        rw [Function.update_self, ← clearedPage_eq hsz h.params_eq, ← hpage]
      · rw [Function.update_of_ne hne, ← h.pages m hm0 hm]
        apply FileStream.bytesAt_congr
        intro o hlo hhi
        have := h.page_inside hm0 hm
        have := pages_apart p.nodePageSize hm0 hq0 hne
        exact hbytes o (by omega) (by omega) }

/-- Marking a page free pushes its number. -/
theorem markPageFree {q : ℕ} (hq0 : q ≠ 0) (hq : q ≤ s.lastPageNum)
    (hroom : t.listEnd (s.stream.freePages.length + 1) < 2 ^ 32)
    (hsafe : pl = .windows ∨ s.stream.freePages ≠ []) :
    ∃ u, StreamTree.markPageFree pl (UInt32.ofNat q) t = (.ok (), u) ∧
      Stores p u { s with
        freePagesCounter := s.freePagesCounter + 1
        stream := { s.stream with
          freePages := q :: s.stream.freePages
          freePagesCounter := s.freePagesCounter + 1 } } := by
  have hsafe' : pl = .windows ∨ s.stream.freePages.map UInt32.ofNat ≠ [] := by
    rwa [Ne, List.map_eq_nil_iff]
  obtain ⟨u, hrun, hu, hparams, hlast, hbytes⟩ := markPageFree_spec h.free (h.ofNat_le hq)
    (by rw [List.length_map]; exact hroom) hsafe'
  have hroot := markPageFree_sameRoot hrun
  have hpages := h.pagesEnd_eq
  have hfield (o n : ℕ) (hon : o + n ≤ 16) : u.stream.bytesAt o n = t.stream.bytesAt o n := by
    apply FileStream.bytesAt_congr
    intro o' hlo hhi
    exact hbytes o' (by omega)
  refine ⟨u, hrun, ?_⟩
  exact {
    booked := (StorageChange.freed s q hq).booked h.booked
    nonzero := by
      rw [List.mem_cons, not_or]
      exact ⟨Ne.symm hq0, h.nonzero⟩
    params_eq := hparams.trans h.params_eq
    lastPageNum := by rw [hlast]; exact h.lastPageNum
    rootPageNum := by rw [hroot.rootPageNum]; exact h.rootPageNum
    rootPagePageNum := by rw [hroot.rootPagePageNum]; exact h.rootPagePageNum
    rootPage := by rw [hroot.rootPage]; exact h.rootPage
    free := hu
    header := (hfield 0 8 (by omega)).trans h.header
    pageCounter := (hfield 8 4 (by omega)).trans h.pageCounter
    rootField := (hfield 12 4 (by omega)).trans h.rootField
    pages := h.pages_congr fun o _ ho => hbytes o ho }

end Stores

/-! ## One call -/

/-- A call that returns on the tree returns on the bytes, with the bytes of the page that it reads or
allocates, and leaves the bytes of the tree that is left. -/
theorem StorageCall.exec_spec (pl : Platform) (uninit : UInt32) {p : Params} {treeType : TreeType}
    {order recSize : ℕ}
    (hsz : p.Sizes treeType order recSize) {s s' : BTree (Record p.recSize)} (h : Stores p t s)
    (c : StorageCall (Record p.recSize)) (hdom : c.InDomain pl p s) (hfits : s'.FileFits p)
    {r : Option (PageWrapper (Record p.recSize))} (hrun : c.run s = .ok (r, s')) :
    ∃ u, c.exec pl uninit p t = (.ok (r.map (PageWrapper.bytes p)), u) ∧ Stores p u s' := by
  cases c with
  | readPage pnum =>
    obtain ⟨pw, s₁, hread, hpure⟩ := of_bind_run hrun
    cases hpure
    obtain ⟨rfl, rfl, h0, hlast⟩ := readPage_cases hread
    exact ⟨_, (StreamM.bind_ok (h.readPage h0 hlast)).trans rfl, h.seek _⟩
  | writePage pw =>
    obtain ⟨_, s₁, hwrite, hpure⟩ := of_bind_run hrun
    cases hpure
    obtain ⟨rfl, h0, hlast⟩ := writePage_cases hwrite
    obtain ⟨u, hexec, hu⟩ := h.writePage hsz h0 hlast
    exact ⟨u, (StreamM.bind_ok hexec).trans rfl, hu⟩
  | allocPage n leaf =>
    obtain ⟨pw, s₁, halloc, hpure⟩ := of_bind_run hrun
    cases hpure
    have hcleared {u : StreamTree} {q : ℕ} (hu : Stores p u s') (hexec : StreamTree.allocPage pl uninit
        (UInt16.ofNat n) leaf t = (.ok (UInt32.ofNat q), u)) :
        StorageCall.exec pl uninit p (.allocPage n leaf) t =
          (.ok (some (PageWrapper.bytes p ⟨q, Page.cleared n leaf⟩)), u) := by
      refine (StreamM.bind_ok hexec).trans ?_
      show (Except.ok (some (UInt32.ofNat q, u.clearedPage (UInt16.ofNat n) leaf)), u) = _
      rw [clearedPage_eq hsz hu.params_eq]
      rfl
    rcases allocPage_cases halloc with ⟨hcounter, rfl, rfl⟩ | ⟨q, rest, hcounter, hfree, rfl, rfl⟩
    · have hroom : t.pagesEnd + p.nodePageSize + 4 < 2 ^ 32 := by
        have hlt : 20 + (s.lastPageNum + 1) * p.nodePageSize + 4 * s.stream.freePages.length < 2 ^ 32 := hfits
        rw [Nat.succ_mul] at hlt
        rw [h.pagesEnd_eq]
        omega
      obtain ⟨u, hexec, hu⟩ := h.allocPage_appends pl uninit hsz n leaf hcounter hroom
      exact ⟨u, hcleared hu hexec, hu⟩
    · obtain ⟨u, hexec, hu⟩ := h.allocPage_reuses pl uninit hsz n leaf hcounter hfree
      exact ⟨u, hcleared hu hexec, hu⟩
  | markPageFree q =>
    obtain ⟨_, s₁, hmark, hpure⟩ := of_bind_run hrun
    cases hpure
    obtain ⟨hlast, rfl⟩ := markPageFree_cases hmark
    have hroom : t.listEnd (s.stream.freePages.length + 1) < 2 ^ 32 := by
      have hlt : 20 + s.lastPageNum * p.nodePageSize + 4 * (s.stream.freePages.length + 1) < 2 ^ 32 := hfits
      rw [listEnd, h.pagesEnd_eq]
      omega
    obtain ⟨u, hexec, hu⟩ := h.markPageFree hdom.1 hlast hroom hdom.2
    exact ⟨u, (StreamM.bind_ok hexec).trans rfl, hu⟩
  | setAsRoot pw =>
    obtain ⟨_, s₁, hset, hpure⟩ := of_bind_run hrun
    cases hpure
    obtain ⟨rfl, h0⟩ := setAsRoot_cases hset
    obtain ⟨u, hexec, hu⟩ := h.setPageAsRoot h0 hdom
    exact ⟨u, (StreamM.bind_ok hexec).trans rfl, hu⟩
  | loadRootPage =>
    obtain ⟨_, s₁, hload, hpure⟩ := of_bind_run hrun
    cases hpure
    obtain ⟨rfl, h0, hlast⟩ := loadRootPage_cases hload
    obtain ⟨u, hexec, hu⟩ := h.loadRootPage h0 hlast
    exact ⟨u, (StreamM.bind_ok hexec).trans rfl, hu⟩
  | assignRootPage pw =>
    cases hrun
    refine ⟨_, rfl, { h with
      booked := (StorageChange.rootPage s pw).booked h.booked
      rootPagePageNum := UInt32.toNat_ofNat_of_lt' hdom
      rootPage := rfl
      free := h.free.congr h.free.hasStream h.free.good rfl rfl rfl (Nat.le_refl _) fun _ _ _ => rfl }⟩
  | endWithoutReturn =>
    cases hrun
    exact ⟨t, rfl, { h with booked := (StorageChange.noReturn s _).booked h.booked }⟩

end

end BTreesMods
