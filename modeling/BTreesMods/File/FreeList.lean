import BTreesMods.File.Layout

/-!
# The list of free pages as a stack

`FreeListInv t s` says that the stream of `t` holds the pages, behind them the counter of `s`, and
behind it the numbers in `s`, the head of `s` last. `markPageFree` pushes a number, an allocation pops
one or appends a page.

Main results: `markPageFree_spec`, `allocPage_reuses` and `allocPage_appends`, one for each thing a
call can do, and `freeList_isStack` for every state that calls reach from `createTree`.
-/

namespace BTreesMods

namespace StreamTree

variable {pl : Platform} {uninit : UInt32} {t : StreamTree}

/-! ## The invariant -/

/-- The numbers of the list stand behind each other, the last one marked at the end. -/
def EntriesStored (t : StreamTree) : List UInt32 → Prop
  | [] => True
  | p :: s => t.stream.bytesAt (t.listEnd s.length) 4 = leBytes 4 p.toNat ∧ EntriesStored t s

/-- The pages and the list `s` of free pages are in the stream. -/
structure FreeListInv (t : StreamTree) (s : List UInt32) : Prop where
  hasStream : t.hasStream = true
  good : t.stream.Good
  fits : t.params.PageSizeFits
  counter : t.freePagesCounter.toNat = s.length
  marked : ∀ p ∈ s, p ≤ t.lastPageNum
  below : t.listEnd s.length < 2 ^ 32
  inFile : t.listEnd s.length ≤ t.stream.size
  counterStored : t.stream.bytesAt t.pagesEnd 4 = leBytes 4 s.length
  entries : t.EntriesStored s

theorem EntriesStored.congr {u : StreamTree} {s : List UInt32} (h : t.EntriesStored s)
    (hend : u.pagesEnd = t.pagesEnd)
    (hbytes : ∀ o, t.pagesEnd + 4 ≤ o → o < t.listEnd s.length → u.stream.byte o = t.stream.byte o) :
    u.EntriesStored s := by
  have hlist (n : ℕ) : u.listEnd n = t.listEnd n := by
    simp only [listEnd, hend]
  induction s with
  | nil => trivial
  | cons p s ih =>
    constructor
    · rw [hlist, ← h.1]
      apply FileStream.bytesAt_congr
      intro o hlo hhi
      simp only [listEnd, List.length_cons] at hlo hhi hbytes
      exact hbytes o (by omega) (by omega)
    · apply ih h.2
      intro o hlo hhi
      simp only [listEnd, List.length_cons] at hhi hbytes
      exact hbytes o hlo (by omega)

theorem counter_eq_zero_iff {s : List UInt32} (h : t.freePagesCounter.toNat = s.length) :
    t.freePagesCounter = 0 ↔ s = [] := by
  rw [← List.length_eq_zero_iff, ← h, ← UInt32.toNat_inj]
  exact Iff.rfl

/-- `writeFreePagesCounter` completes the invariant of a list whose entries are in place. -/
theorem writeFreePagesCounter_inv (pl : Platform) {s : List UInt32} (hasStream : t.hasStream = true)
    (good : t.stream.Good) (fits : t.params.PageSizeFits)
    (counter : t.freePagesCounter.toNat = s.length) (marked : ∀ p ∈ s, p ≤ t.lastPageNum)
    (below : t.listEnd s.length < 2 ^ 32) (inFile : s ≠ [] → t.listEnd s.length ≤ t.stream.size)
    (entries : t.EntriesStored s) :
    (t.writeFreePagesCounter pl).FreeListInv s ∧
      ∀ o < t.pagesEnd, (t.writeFreePagesCounter pl).stream.byte o = t.stream.byte o := by
  have harea : t.getFreePagesInfoAreaOfs pl = t.pagesEnd :=
    getFreePagesInfoAreaOfs_eq fits (by simp only [listEnd] at below; omega)
  have hrun : t.writeFreePagesCounter pl = t.writeAt t.pagesEnd (leBytes 4 s.length) := by
    rw [writeFreePagesCounter, harea, counter]
  rw [hrun]
  constructor
  · refine ⟨hasStream, FileStream.good_seek_write good, fits, counter, marked, below, ?_, ?_, ?_⟩
    · show t.listEnd s.length ≤ ((t.stream.seek t.pagesEnd).write (leBytes 4 s.length)).size
      rw [FileStream.size_seek_write good, length_leBytes]
      by_cases hs : s = []
      · subst hs
        simp only [listEnd, List.length_nil]
        omega
      · have := inFile hs
        omega
    · have := FileStream.bytesAt_seek_write_self good t.pagesEnd (leBytes 4 s.length)
      rwa [length_leBytes] at this
    · apply entries.congr (u := t.writeAt t.pagesEnd (leBytes 4 s.length)) rfl
      intro o hlo _
      apply FileStream.byte_seek_write_of_not_mem good
      right
      simpa using hlo
  · intro o ho
    exact FileStream.byte_seek_write_of_not_mem good (Or.inl ho)

/-! ## Marking a page free -/

/-- Marking a page free pushes its number and changes no byte of the header or of a page. -/
theorem markPageFree_spec {s : List UInt32} (h : t.FreeListInv s) {p : UInt32}
    (hp : p ≤ t.lastPageNum) (hroom : t.listEnd (s.length + 1) < 2 ^ 32)
    (hsafe : pl = .windows ∨ s ≠ []) :
    ∃ u, markPageFree pl p t = (.ok (), u) ∧ u.FreeListInv (p :: s) ∧
      u.params = t.params ∧ u.lastPageNum = t.lastPageNum ∧
      ∀ o < t.pagesEnd, u.stream.byte o = t.stream.byte o := by
  have hsafe' : pl = .windows ∨ t.freePagesCounter ≠ 0 := by
    rwa [Ne, counter_eq_zero_iff h.counter]
  have hofs : pl.ulong (t.getLastFreePageNumOfs pl + 4) = t.listEnd s.length := by
    rw [markOfs_eq h.fits hsafe' (by rw [h.counter]; exact h.below), h.counter]
  -- the entry, then the counter in memory, then the counter in the file
  let v : StreamTree := { t.writeAt (t.listEnd s.length) (leBytes 4 p.toNat) with
    freePagesCounter := t.freePagesCounter + 1 }
  have hrun : markPageFree pl p t = (.ok (), StreamTree.writeFreePagesCounter pl
      { t.writeAt (pl.ulong (t.getLastFreePageNumOfs pl + 4)) (leBytes 4 p.toNat) with
        freePagesCounter := t.freePagesCounter + 1 }) := by
    have hle : ¬ p > t.lastPageNum := UInt32.not_lt.mpr hp
    change (if p > t.lastPageNum then _ else _ : StreamM Unit) t = _
    rw [if_neg hle]
    rfl
  rw [hofs] at hrun
  have hcounter : v.freePagesCounter.toNat = (p :: s).length := by
    show (t.freePagesCounter + 1).toNat = s.length + 1
    have hlt : s.length + 1 < 2 ^ 32 := by
      simp only [listEnd] at hroom
      omega
    rw [UInt32.toNat_add, h.counter]
    exact Nat.mod_eq_of_lt hlt
  have hgood : v.stream.Good := FileStream.good_seek_write h.good
  have hentries : v.EntriesStored (p :: s) := by
    constructor
    · have := FileStream.bytesAt_seek_write_self h.good (t.listEnd s.length)
        (leBytes 4 p.toNat)
      rwa [length_leBytes] at this
    · apply h.entries.congr (u := v) rfl
      intro o _ hhi
      exact FileStream.byte_seek_write_of_not_mem h.good (Or.inl hhi)
  have hin : v.listEnd (p :: s).length ≤ v.stream.size := by
    show t.listEnd (s.length + 1) ≤
      ((t.stream.seek (t.listEnd s.length)).write (leBytes 4 p.toNat)).size
    rw [FileStream.size_seek_write h.good, length_leBytes]
    simp only [listEnd]
    omega
  obtain ⟨hinv, hbytes⟩ := writeFreePagesCounter_inv pl (t := v) (s := p :: s) h.hasStream
    hgood h.fits hcounter (List.forall_mem_cons.mpr ⟨hp, h.marked⟩) hroom (fun _ => hin) hentries
  refine ⟨v.writeFreePagesCounter pl, hrun, hinv, rfl, rfl, ?_⟩
  intro o ho
  rw [hbytes o ho]
  apply FileStream.byte_seek_write_of_not_mem h.good
  left
  simp only [listEnd]
  omega

/-! ## Allocating a page -/

@[simp]
theorem length_clearedPage (keysNum : UInt16) (isLeaf : Bool) :
    (t.clearedPage keysNum isLeaf).length = t.params.nodePageSize := length_slot _ _

theorem readInto_leBytes (old n : UInt32) : readInto old (leBytes 4 n.toNat) = n := by
  have hdrop : (leBytes 4 old.toNat).drop (leBytes 4 n.toNat).length = [] := by
    rw [length_leBytes]
    exact List.drop_eq_nil_of_le (by simp)
  have hmod : n.toNat % 256 ^ 4 = n.toNat := Nat.mod_eq_of_lt n.toNat_lt
  rw [readInto, hdrop, List.append_nil, leNat_leBytes, hmod]
  exact UInt32.ofNat_toNat

theorem isOpened_of_good (hs : t.hasStream = true) (hg : t.stream.Good) : t.isOpened = true := by
  simp [isOpened, hs, hg.2]

theorem allocPage_run (hs : t.hasStream = true) (hg : t.stream.Good) (keysNum : UInt16)
    (isLeaf : Bool) :
    allocPage pl uninit keysNum isLeaf t =
      (.ok (t.allocPageUsingFreePages pl uninit keysNum isLeaf).1,
        (t.allocPageUsingFreePages pl uninit keysNum isLeaf).2) := by
  change ((if t.isOpened then _ else _ : StreamM Unit) >>= _) t = _
  rw [isOpened_of_good hs hg]
  rfl

/-- The write of a page of number 0 runs over the 4 GiB bound. -/
theorem page_zero_out_of_range (pl : Platform) (h : t.params.PageSizeFits) :
    2 ^ 32 ≤ t.getPageOfs pl 0 + t.params.nodePageSize := by
  have hpos := h.1
  have hlt := h.2
  have hmul : ((0 - 1) * t.nodePageSize).toNat = 2 ^ 32 - t.params.nodePageSize := by
    have hminus : (0 - 1 : UInt32).toNat = 2 ^ 32 - 1 := by decide
    rw [UInt32.toNat_mul, toNat_nodePageSize h, hminus]
    omega
  rw [getPageOfs, hmul, ulong_of_lt (by simp only [FIRST_PAGE_OFS]; omega)]
  simp only [FIRST_PAGE_OFS]
  omega

/-- While the list is not empty, an allocation takes the number marked last, and changes no byte of
the header or of another page. -/
theorem allocPage_reuses (uninit : UInt32) {p : UInt32} {s : List UInt32} (h : t.FreeListInv (p :: s))
    (keysNum : UInt16) (isLeaf : Bool) (hroom : t.getPageOfs pl p + t.params.nodePageSize < 2 ^ 32) :
    ∃ u, allocPage pl uninit keysNum isLeaf t = (.ok p, u) ∧ u.FreeListInv s ∧
      u.params = t.params ∧ u.lastPageNum = t.lastPageNum ∧
      u.stream.bytesAt (t.pageOfs p) t.params.nodePageSize = t.clearedPage keysNum isLeaf ∧
      ∀ o < t.pagesEnd, o < t.pageOfs p ∨ t.pageOfs p + t.params.nodePageSize ≤ o →
        u.stream.byte o = t.stream.byte o := by
  have hlen : t.freePagesCounter.toNat = s.length + 1 := h.counter
  have hne : t.freePagesCounter ≠ 0 := by
    rw [Ne, counter_eq_zero_iff h.counter]
    exact List.cons_ne_nil p s
  have hp0 : p ≠ 0 := by
    rintro rfl
    have := page_zero_out_of_range pl h.fits
    omega
  have hplast : p.toNat ≤ t.lastPageNum.toNat := UInt32.le_iff_toNat_le.mp (h.marked p (by simp))
  have hpage : t.pageOfs p + t.params.nodePageSize ≤ t.pagesEnd := by
    rw [pageOfs_add hp0, pagesEnd]
    exact Nat.add_le_add_left (Nat.mul_le_mul_right t.params.nodePageSize hplast) 16
  have hbelow := h.below
  simp only [listEnd, List.length_cons] at hbelow
  have hpageOfs : t.getPageOfs pl p = t.pageOfs p := getPageOfs_eq h.fits hp0 (by omega)
  have hlastOfs : t.getLastFreePageNumOfs pl = t.listEnd s.length := by
    rw [getLastFreePageNumOfs_eq h.fits hne (by rw [hlen]; exact h.below), hlen]
    rfl
  have hread : t.getLastFreePageNum pl uninit =
      (p, { t with stream := { t.stream with pos := t.listEnd s.length + 4 } }) := by
    have hin : t.listEnd s.length + 4 ≤ t.stream.size := by
      have := h.inFile
      simp only [listEnd, List.length_cons] at this ⊢
      omega
    rw [getLastFreePageNum, readUIntAt, hlastOfs, FileStream.read_seek h.good hin]
    simp only [h.entries.1, readInto_leBytes]
  -- the page, then the counter in memory, then the counter in the file
  let w : StreamTree := { t with stream := { t.stream with pos := t.listEnd s.length + 4 } }
  have hwgood : w.stream.Good := h.good
  let v : StreamTree := { w.writeAt (t.pageOfs p) (t.clearedPage keysNum isLeaf) with
    freePagesCounter := t.freePagesCounter - 1 }
  have hrun : t.allocPageUsingFreePages pl uninit keysNum isLeaf =
      (p, v.writeFreePagesCounter pl) := by
    rw [allocPageUsingFreePages, if_neg hne, hread]
    have hw : w.getPageOfs pl p = t.pageOfs p := hpageOfs
    show (p, StreamTree.writeFreePagesCounter pl
      { w.writeAt (w.getPageOfs pl p) (t.clearedPage keysNum isLeaf) with
        freePagesCounter := t.freePagesCounter - 1 }) = _
    rw [hw]
  have hvgood : v.stream.Good := FileStream.good_seek_write hwgood
  have hcounter : v.freePagesCounter.toNat = s.length := by
    show (t.freePagesCounter - 1).toNat = s.length
    rw [UInt32.toNat_sub_of_le _ _ (UInt32.le_iff_toNat_le.mpr (by rw [hlen]; simp)), hlen]
    rfl
  have hentries : v.EntriesStored s := by
    apply h.entries.2.congr (u := v) rfl
    intro o hlo _
    apply FileStream.byte_seek_write_of_not_mem hwgood
    right
    rw [length_clearedPage]
    omega
  have hin : v.listEnd s.length ≤ v.stream.size := by
    have hle := h.inFile
    show t.listEnd s.length ≤ ((w.stream.seek (t.pageOfs p)).write _).size
    rw [FileStream.size_seek_write hwgood]
    show t.listEnd s.length ≤ max t.stream.size _
    simp only [listEnd, List.length_cons] at hle ⊢
    omega
  obtain ⟨hinv, hbytes⟩ := writeFreePagesCounter_inv pl (t := v) (s := s) h.hasStream hvgood
    h.fits hcounter (fun q hq => h.marked q (List.mem_cons_of_mem p hq))
    (by show t.listEnd s.length < 2 ^ 32; simp only [listEnd]; omega) (fun _ => hin) hentries
  refine ⟨v.writeFreePagesCounter pl, ?_, hinv, rfl, rfl, ?_, ?_⟩
  · rw [allocPage_run h.hasStream h.good, hrun]
  · rw [← FileStream.bytesAt_seek_write_self hwgood (t.pageOfs p)
      (t.clearedPage keysNum isLeaf), length_clearedPage]
    apply FileStream.bytesAt_congr
    intro o _ hhi
    exact hbytes o (by show o < t.pagesEnd; omega)
  · intro o ho hout
    rw [hbytes o ho]
    apply FileStream.byte_seek_write_of_not_mem hwgood
    rwa [length_clearedPage]

/-- While the list is empty, an allocation appends a page, and changes no byte of the header or of
another page but the page counter. The stored counter of free pages need not be there yet. -/
theorem allocPage_appends (pl : Platform) (uninit : UInt32) (hs : t.hasStream = true) (hg : t.stream.Good)
    (hfits : t.params.PageSizeFits) (hcounter : t.freePagesCounter = 0) (keysNum : UInt16)
    (isLeaf : Bool) (hroom : t.pagesEnd + t.params.nodePageSize + 4 < 2 ^ 32) :
    ∃ u, allocPage pl uninit keysNum isLeaf t = (.ok (t.lastPageNum + 1), u) ∧ u.FreeListInv [] ∧
      u.treeType = t.treeType ∧ u.params = t.params ∧ u.lastPageNum = t.lastPageNum + 1 ∧
      (t.lastPageNum + 1).toNat = t.lastPageNum.toNat + 1 ∧
      u.stream.bytesAt t.pagesEnd t.params.nodePageSize = t.clearedPage keysNum isLeaf ∧
      u.stream.bytesAt 8 4 = leBytes 4 (t.lastPageNum + 1).toNat ∧
      ∀ o < t.pagesEnd, o < 8 ∨ 12 ≤ o → u.stream.byte o = t.stream.byte o := by
  have hnum : (t.lastPageNum + 1).toNat = t.lastPageNum.toNat + 1 := by
    have hmul := Nat.mul_le_mul_left t.lastPageNum.toNat hfits.1
    have hpos := hfits.1
    rw [UInt32.toNat_add]
    apply Nat.mod_eq_of_lt
    simp only [pagesEnd] at hroom
    show t.lastPageNum.toNat + 1 < 2 ^ 32
    omega
  have harea : t.getFreePagesInfoAreaOfs pl = t.pagesEnd :=
    getFreePagesInfoAreaOfs_eq hfits (by omega)
  -- the page, then the page counter, then the counter of the free pages
  let w : StreamTree := { t.writeAt t.pagesEnd (t.clearedPage keysNum isLeaf) with
    lastPageNum := t.lastPageNum + 1 }
  have hwgood : w.stream.Good := FileStream.good_seek_write hg
  let v : StreamTree := w.writePageCounter
  have hvgood : v.stream.Good := FileStream.good_seek_write hwgood
  have hvend : v.pagesEnd = t.pagesEnd + t.params.nodePageSize := by
    show 16 + (t.lastPageNum + 1).toNat * t.params.nodePageSize = _
    rw [hnum, Nat.succ_mul, pagesEnd]
    omega
  have hrun : t.allocPageUsingFreePages pl uninit keysNum isLeaf =
      (t.lastPageNum + 1, v.writeFreePagesCounter pl) := by
    rw [allocPageUsingFreePages, if_pos hcounter, allocPageInternal, harea]
    rfl
  obtain ⟨hinv, hbytes⟩ := writeFreePagesCounter_inv pl (t := v) (s := []) hs hvgood hfits
    (by show t.freePagesCounter.toNat = 0; rw [hcounter]; rfl) (fun p hp => absurd hp (by simp))
    (by simp only [listEnd, hvend, List.length_nil]; omega) (fun hne => absurd rfl hne) trivial
  refine ⟨v.writeFreePagesCounter pl, ?_, hinv, rfl, rfl, rfl, hnum, ?_, ?_, ?_⟩
  · rw [allocPage_run hs hg, hrun]
  · rw [← FileStream.bytesAt_seek_write_self hg t.pagesEnd
      (t.clearedPage keysNum isLeaf), length_clearedPage]
    apply FileStream.bytesAt_congr
    intro o hlo hhi
    rw [hbytes o (by omega)]
    apply FileStream.byte_seek_write_of_not_mem hwgood
    right
    simp only [length_leBytes, pagesEnd] at hlo ⊢
    omega
  · rw [← FileStream.bytesAt_seek_write_self hwgood 8
      (leBytes 4 (t.lastPageNum + 1).toNat), length_leBytes]
    apply FileStream.bytesAt_congr
    intro o _ hhi
    exact hbytes o (by rw [hvend, pagesEnd]; omega)
  · intro o ho hout
    rw [hbytes o (by omega)]
    have hcounterField : v.stream.byte o = w.stream.byte o := by
      apply FileStream.byte_seek_write_of_not_mem hwgood
      simpa using hout
    rw [hcounterField]
    exact FileStream.byte_seek_write_of_not_mem hg (Or.inl ho)

/-! ## Creating a tree -/

/-- The invariant does not depend on the root page, and its number lies in front of the pages. -/
theorem FreeListInv.setRoot {s : List UInt32} (h : t.FreeListInv s) (rootPage : List UInt8)
    (rootPageNum rootPagePageNum : UInt32) :
    (writeRootPageNum { t with rootPage := rootPage, rootPageNum := rootPageNum,
                               rootPagePageNum := rootPagePageNum }).FreeListInv s := by
  have hend : 16 ≤ t.pagesEnd := by
    simp only [pagesEnd]
    omega
  refine ⟨h.hasStream, FileStream.good_seek_write h.good, h.fits, h.counter, h.marked, h.below, ?_, ?_,
    ?_⟩
  · show t.listEnd s.length ≤ ((t.stream.seek 12).write _).size
    rw [FileStream.size_seek_write h.good]
    have := h.inFile
    omega
  · rw [← h.counterStored]
    apply FileStream.bytesAt_seek_write_of_disjoint h.good
    right
    rw [length_leBytes]
    exact hend
  · refine EntriesStored.congr h.entries rfl ?_
    intro o hlo _
    apply FileStream.byte_seek_write_of_not_mem h.good
    right
    rw [length_leBytes]
    omega

/-- The bytes of the header. -/
def headerBytes (params : Params) : List UInt8 :=
  leBytes 4 VALID_SIGN ++ leBytes 2 params.order ++ leBytes 2 params.recSize

@[simp]
theorem length_headerBytes (params : Params) : (headerBytes params).length = 8 := by
  simp [headerBytes]

/-- `createTree` on a stream that is ready and at its first byte, by an object that has no pages
yet. -/
theorem createTree_spec (pl : Platform) (uninit : UInt32) (hs : t.hasStream = true)
    (hg : t.stream.Good) (hpos : t.stream.pos = 0) (hlast : t.lastPageNum = 0)
    (hcounter : t.freePagesCounter = 0) {order recSize : UInt16} {params : Params}
    (hset : BTreesMods.setOrder t.treeType order recSize = .ok params) :
    ∃ u, createTree pl uninit order recSize t = (.ok (), u) ∧ u.FreeListInv [] ∧
      u.treeType = t.treeType ∧ u.params = params ∧ u.lastPageNum = 1 ∧
      u.stream.bytesAt 0 8 = headerBytes params := by
  let t₁ : StreamTree := writeHeader { t with params := params, rootPage := [] }
  have hfits : params.PageSizeFits := setOrder_pageSizeFits hset
  have hwrite : t₁.stream = (t.stream.seek 0).write (headerBytes params) := by
    have hseek : t.stream.seek 0 = t.stream := by
      rw [FileStream.seek, if_pos hg, ← hpos]
    rw [hseek]
    rfl
  have hgood₁ : t₁.stream.Good := by
    rw [hwrite]
    exact FileStream.good_seek_write hg
  let w : StreamTree := writeRootPageNum (writePageCounter t₁)
  have hwgood : w.stream.Good := FileStream.good_seek_write (FileStream.good_seek_write hgood₁)
  have hwend : w.pagesEnd = 16 := by
    show 16 + t.lastPageNum.toNat * params.nodePageSize = 16
    rw [hlast]
    simp
  have hwheader : w.stream.bytesAt 0 8 = headerBytes params := by
    have h12 : w.stream.bytesAt 0 8 = (writePageCounter t₁).stream.bytesAt 0 8 :=
      FileStream.bytesAt_seek_write_of_disjoint (FileStream.good_seek_write hgood₁)
        (Or.inl (by omega))
    have h8 : (writePageCounter t₁).stream.bytesAt 0 8 = t₁.stream.bytesAt 0 8 :=
      FileStream.bytesAt_seek_write_of_disjoint hgood₁ (Or.inl (by omega))
    have h0 := FileStream.bytesAt_seek_write_self hg 0 (headerBytes params)
    rw [length_headerBytes] at h0
    rw [h12, h8, hwrite, h0]
  obtain ⟨v, halloc, hinv, htype, hparams, hnum, -, -, -, hbytes⟩ := allocPage_appends pl uninit
    (t := w) hs hwgood hfits hcounter 0 true
    (by rw [hwend]; have := hfits.2; show 16 + params.nodePageSize + 4 < 2 ^ 32; omega)
  have hone : w.lastPageNum + 1 = 1 := by
    show t.lastPageNum + 1 = 1
    rw [hlast]
    rfl
  rw [hone] at halloc hnum
  let x : StreamTree := writeRootPageNum { v with
    rootPage := v.clearedPage 0 true, rootPageNum := 1, rootPagePageNum := 1 }
  have hx : x.FreeListInv [] := hinv.setRoot _ _ _
  have hxheader : x.stream.bytesAt 0 8 = headerBytes params := by
    have h12 : x.stream.bytesAt 0 8 = v.stream.bytesAt 0 8 :=
      FileStream.bytesAt_seek_write_of_disjoint hinv.good (Or.inl (by omega))
    rw [h12, ← hwheader]
    apply FileStream.bytesAt_congr
    intro o _ ho
    exact hbytes o (by omega) (Or.inl (by omega))
  obtain ⟨hfinal, hkept⟩ := writeFreePagesCounter_inv pl (t := x) (s := []) hx.hasStream hx.good
    hx.fits hx.counter hx.marked hx.below (fun hne => absurd rfl hne) trivial
  refine ⟨x.writeFreePagesCounter pl, ?_, hfinal, htype, hparams, hnum, ?_⟩
  · have hroot : createRootPage pl uninit w = (.ok (), x) := (StreamM.bind_ok halloc).trans rfl
    exact (StreamM.bind_ok (setOrder_ok hset)).trans (StreamM.bind_ok hroot)
  · rw [← hxheader]
    apply FileStream.bytesAt_congr
    intro o _ ho
    apply hkept
    simp only [pagesEnd]
    omega

end StreamTree

/-! ## Runs -/

open StreamTree

/-- A call of `markPageFree` or an allocation. -/
inductive FreeListCall
  | markPageFree (pageNum : UInt32)
  | allocPage (keysNum : UInt16) (isLeaf : Bool)

namespace FreeListCall

variable (pl : Platform) (uninit : UInt32) (t u : StreamTree) (s : List UInt32)

/-- Runs the call; an allocation returns the number of the page. -/
def exec : FreeListCall → StreamM (Option UInt32)
  | markPageFree pageNum => do
    StreamTree.markPageFree pl pageNum
    return none
  | allocPage keysNum isLeaf => do
    let pageNum ← StreamTree.allocPage pl uninit keysNum isLeaf
    return some pageNum

/-- The numbers marked free and not reused after the call, the last one marked first. -/
def marksAfter : FreeListCall → List UInt32
  | markPageFree pageNum => pageNum :: s
  | allocPage _ _ => s.tail

/-- The call is one that can be made, and keeps the pages and the list below 4 GiB: `markPageFree`
gets the number of a page and has room for one more entry, an allocation has room for the page that
it writes. -/
def InDomain : FreeListCall → Prop
  | markPageFree pageNum => pageNum ≤ t.lastPageNum ∧ t.listEnd (s.length + 1) < 2 ^ 32
  | allocPage _ _ => match s with
    | [] => t.pagesEnd + t.params.nodePageSize + 4 < 2 ^ 32
    | pageNum :: _ => t.getPageOfs pl pageNum + t.params.nodePageSize < 2 ^ 32

instance (c : FreeListCall) : Decidable (c.InDomain pl t s) :=
  match c, s with
  | markPageFree _, _ => inferInstanceAs (Decidable (_ ∧ _))
  | allocPage _ _, [] => inferInstanceAs (Decidable (_ < _))
  | allocPage _ _, _ :: _ => inferInstanceAs (Decidable (_ < _))

/-- `unsigned long` has 32 bits, or a page is marked free while the list is not empty. -/
def Safe : FreeListCall → Prop
  | markPageFree _ => pl = .windows ∨ s ≠ []
  | allocPage _ _ => True

/-- What the call returns and what it does to the file, from `t` to `u`: the bytes of the header and
of the pages stay, except the page that an allocation hands out and the page counter when that page
is new. -/
def StackStep (r : Option UInt32) : FreeListCall → Prop
  | markPageFree _ => r = none ∧ u.lastPageNum = t.lastPageNum ∧
      ∀ o < t.pagesEnd, u.stream.byte o = t.stream.byte o
  | allocPage keysNum isLeaf => match s with
    | [] => r = some (t.lastPageNum + 1) ∧ u.lastPageNum = t.lastPageNum + 1 ∧
        u.stream.bytesAt t.pagesEnd t.params.nodePageSize = t.clearedPage keysNum isLeaf ∧
        u.stream.bytesAt 8 4 = leBytes 4 u.lastPageNum.toNat ∧
        ∀ o < t.pagesEnd, o < 8 ∨ 12 ≤ o → u.stream.byte o = t.stream.byte o
    | pageNum :: _ => r = some pageNum ∧ u.lastPageNum = t.lastPageNum ∧
        u.stream.bytesAt (t.pageOfs pageNum) t.params.nodePageSize =
          t.clearedPage keysNum isLeaf ∧
        ∀ o < t.pagesEnd, o < t.pageOfs pageNum ∨ t.pageOfs pageNum + t.params.nodePageSize ≤ o →
          u.stream.byte o = t.stream.byte o

/-- One call on a list that is in place. -/
theorem exec_spec {pl : Platform} (uninit : UInt32) {t : StreamTree} {s : List UInt32}
    (h : t.FreeListInv s) (c : FreeListCall) (hdom : c.InDomain pl t s) (hsafe : c.Safe pl s) :
    ∃ r u, c.exec pl uninit t = (.ok r, u) ∧ c.StackStep t u s r ∧
      u.FreeListInv (c.marksAfter s) := by
  cases c with
  | markPageFree pageNum =>
    obtain ⟨u, hrun, hinv, -, hlast, hbytes⟩ := markPageFree_spec h hdom.1 hdom.2 hsafe
    exact ⟨none, u, (StreamM.bind_ok hrun).trans rfl, ⟨rfl, hlast, hbytes⟩, hinv⟩
  | allocPage keysNum isLeaf =>
    cases s with
    | nil =>
      have hcounter : t.freePagesCounter = 0 := (counter_eq_zero_iff h.counter).mpr rfl
      obtain ⟨u, hrun, hinv, -, -, hlast, -, hpage, hnum, hbytes⟩ :=
        allocPage_appends pl uninit h.hasStream h.good h.fits hcounter keysNum isLeaf hdom
      refine ⟨some (t.lastPageNum + 1), u, (StreamM.bind_ok hrun).trans rfl, ?_, hinv⟩
      exact ⟨rfl, hlast, hpage, by rw [hlast]; exact hnum, hbytes⟩
    | cons pageNum s =>
      obtain ⟨u, hrun, hinv, -, hlast, hpage, hbytes⟩ := allocPage_reuses uninit h keysNum isLeaf hdom
      exact ⟨some pageNum, u, (StreamM.bind_ok hrun).trans rfl, ⟨rfl, hlast, hpage, hbytes⟩, hinv⟩

/-- The states that calls reach, with the numbers marked free and not reused. -/
inductive Reaches (t₀ : StreamTree) : StreamTree → List UInt32 → Prop
  | start : Reaches t₀ t₀ []
  | call {t u : StreamTree} {s : List UInt32} {c : FreeListCall} {r : Option UInt32} :
      Reaches t₀ t s → c.InDomain pl t s → c.Safe pl s → c.exec pl uninit t = (.ok r, u) →
      Reaches t₀ u (c.marksAfter s)

end FreeListCall

/-- An object before `createTree`, with a stream of an empty file. -/
def StreamTree.onEmptyFile (treeType : TreeType) : StreamTree :=
  { StreamTree.fresh treeType with hasStream := true, stream := FileStream.openTrunc }

/-- The state that `createTree` leaves on an empty file. -/
def StreamTree.created (pl : Platform) (uninit : UInt32) (treeType : TreeType)
    (order recSize : UInt16) : StreamTree :=
  (StreamTree.createTree pl uninit order recSize (StreamTree.onEmptyFile treeType)).2

theorem FreeListCall.Reaches.inv {pl : Platform} {uninit : UInt32} {treeType : TreeType}
    {order recSize : UInt16} {params : Params}
    (hset : setOrder treeType order recSize = .ok params) {t : StreamTree} {s : List UInt32}
    (h : Reaches pl uninit (StreamTree.created pl uninit treeType order recSize) t s) :
    t.FreeListInv s := by
  induction h with
  | start =>
    obtain ⟨u, hrun, hinv, -⟩ := createTree_spec pl uninit
      (t := StreamTree.onEmptyFile treeType) rfl ⟨rfl, rfl⟩ rfl rfl rfl hset
    rw [StreamTree.created, hrun]
    exact hinv
  | call _ hdom hsafe hrun ih =>
    obtain ⟨r, u, hrun', -, hinv⟩ := exec_spec uninit ih _ hdom hsafe
    rw [hrun] at hrun'
    cases hrun'
    exact hinv

/-- A call that can be made leads on. -/
theorem FreeListCall.Reaches.exec {pl : Platform} {uninit : UInt32} {treeType : TreeType}
    {order recSize : UInt16} {params : Params}
    (hset : setOrder treeType order recSize = .ok params) {t : StreamTree} {s : List UInt32}
    (h : Reaches pl uninit (StreamTree.created pl uninit treeType order recSize) t s) (c : FreeListCall)
    (hdom : c.InDomain pl t s) (hsafe : c.Safe pl s) :
    Reaches pl uninit (StreamTree.created pl uninit treeType order recSize) (c.exec pl uninit t).2
      (c.marksAfter s) := by
  obtain ⟨r, u, hrun, -⟩ := exec_spec uninit (h.inv hset) c hdom hsafe
  rw [hrun]
  exact h.call hdom hsafe hrun

/-- In every state that calls reach from `createTree`, where no page is marked free on an empty list
unless `unsigned long` has 32 bits: the counter behind the last page is `_freePagesCounter`, the
length of the list, and the next call works on the list as on a stack. -/
theorem freeList_isStack (pl : Platform) (uninit : UInt32) (treeType : TreeType)
    (order recSize : UInt16) (params : Params)
    (hset : setOrder treeType order recSize = .ok params) (t : StreamTree) (s : List UInt32)
    (h : FreeListCall.Reaches pl uninit (StreamTree.created pl uninit treeType order recSize) t s) :
    (t.freePagesCounter.toNat = s.length ∧
      t.stream.bytesAt t.pagesEnd 4 = leBytes 4 t.freePagesCounter.toNat) ∧
    ∀ c : FreeListCall, c.InDomain pl t s → c.Safe pl s →
      ∃ r u, c.exec pl uninit t = (.ok r, u) ∧ c.StackStep t u s r := by
  have hinv := h.inv hset
  refine ⟨⟨hinv.counter, by rw [hinv.counter]; exact hinv.counterStored⟩, ?_⟩
  intro c hdom hsafe
  obtain ⟨r, u, hrun, hstep, -⟩ := c.exec_spec uninit hinv hdom hsafe
  exact ⟨r, u, hrun, hstep⟩

/-- Pages 2 and 3 are allocated and marked free, and page 3 is used again. -/
theorem freeList_isStack_reused :
    let t := [FreeListCall.allocPage 0 true, .allocPage 0 true, .markPageFree 2, .markPageFree 3,
      .allocPage 1 false].foldl (fun t c => (c.exec .windows 0 t).2) (StreamTree.created .windows 0 .bTree 2 1)
    (t.freePagesCounter.toNat = 1 ∧ t.stream.bytesAt t.pagesEnd 4 = leBytes 4 t.freePagesCounter.toNat) ∧
    ∀ c : FreeListCall, c.InDomain .windows t [2] → c.Safe .windows [2] →
      ∃ r u, c.exec .windows 0 t = (.ok r, u) ∧ c.StackStep t u [2] r := by
  have hset : setOrder .bTree 2 1 = .ok _ := rfl
  have hstart : FreeListCall.Reaches .windows 0 (StreamTree.created .windows 0 .bTree 2 1)
      (StreamTree.created .windows 0 .bTree 2 1) [] := .start
  have halloc := hstart.exec hset (.allocPage 0 true) (by decide +kernel) trivial
  have halloc := halloc.exec hset (.allocPage 0 true) (by decide +kernel) trivial
  have hmark := halloc.exec hset (.markPageFree 2) (by decide +kernel) (Or.inl rfl)
  have hmark := hmark.exec hset (.markPageFree 3) (by decide +kernel) (Or.inl rfl)
  have hreuse := hmark.exec hset (.allocPage 1 false) (by decide +kernel) trivial
  exact freeList_isStack .windows 0 .bTree 2 1 _ rfl _ [2] hreuse

/-- Where `unsigned long` has 64 bits, page 1 of a new tree marked free is not handed out again. -/
theorem freeList_not_stack_linux :
    ((do
      let _ ← (FreeListCall.markPageFree 1).exec .linux 0
      (FreeListCall.allocPage 0 true).exec .linux 0 : StreamM (Option UInt32))
        (StreamTree.created .linux 0 .bTree 2 1)).1 = .ok (some 0) := by
  decide +kernel

end BTreesMods
