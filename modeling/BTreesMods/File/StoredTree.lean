import BTreesMods.File.OpenCreate
import BTreesMods.File.PageStore
import BTreesMods.File.Reuse
import BTreesMods.Tree.WellFormed

/-!
# The file of a tree

`createTree` leaves the bytes of a new tree (`created_stores`), storage calls do on the bytes what they do
on the tree (`StorageCall.execAll_spec`), and opening a file gives the tree that it holds
(`Stores.newOpen`).
-/

namespace BTreesMods

open StreamTree

/-! ## A new tree -/

section

variable {treeType : TreeType} {order recSize : UInt16} {p : Params}

/-- `createTree` on an empty file leaves the bytes of a new tree. -/
theorem created_stores (pl : Platform) (uninit : UInt32)
    (hset : BTreesMods.setOrder treeType order recSize = .ok p) (noReturn : ℕ → Bool) :
    Stores p (StreamTree.created pl uninit treeType order recSize)
      (BTree.created order recSize noReturn) := by
  have hsz := setOrder_sizes hset
  have hfits := setOrder_pageSizeFits hset
  have hfields := setOrder_fields hset
  obtain ⟨u, hrun, hfree, -, hparams, hlast, hheader⟩ := createTree_spec pl uninit
    (t := onEmptyFile treeType) rfl ⟨rfl, rfl⟩ rfl rfl rfl hset
  have hu : StreamTree.created pl uninit treeType order recSize = u := by
    rw [StreamTree.created, hrun]
  rw [hu]
  -- the object in front of the allocation of the root page
  let w : StreamTree := (onEmptyFile treeType).headed p
  have hwgood : w.stream.Good := headed_good
  have hwend : w.pagesEnd = 16 := by
    show 16 + (0 : UInt32).toNat * p.nodePageSize = 16
    simp
  obtain ⟨v, halloc, hv, -, hvparams, hvlast, -, hpage, hcount, -⟩ := StreamTree.allocPage_appends pl uninit
    (t := w) rfl hwgood hfits rfl 0 true (by
      have := hfits.2
      rw [hwend]
      show 16 + p.nodePageSize + 4 < 2 ^ 32
      omega)
  have hcleared : v.clearedPage 0 true = (Page.cleared 0 true).bytes p := clearedPage_eq hsz hvparams 0 true
  let y : StreamTree := { v with rootPage := v.clearedPage 0 true, rootPageNum := 1, rootPagePageNum := 1 }
  let x : StreamTree := y.writeRootPageNum
  have hygood : y.stream.Good := hv.good
  have hxrun : createRootPage pl uninit w = (.ok (), x) := (StreamM.bind_ok halloc).trans rfl
  have hux : u = x.writeFreePagesCounter pl := by
    rw [StreamTree.createTree_run hset] at hrun
    have := hrun.symm.trans (StreamM.bind_ok hxrun)
    cases this
    rfl
  have hxend : x.pagesEnd = 16 + p.nodePageSize := by
    show 16 + v.lastPageNum.toNat * v.params.nodePageSize = _
    rw [hvlast, hvparams]
    show 16 + (1 : UInt32).toNat * p.nodePageSize = _
    simp
  have hxinv : x.FreeListInv [] := hv.setRoot _ _ _
  have hbelow := (writeFreePagesCounter_inv pl hxinv.hasStream hxinv.good hxinv.fits hxinv.counter hxinv.marked
    hxinv.below (fun hne => absurd rfl hne) trivial).2
  rw [← hux, hxend] at hbelow
  have hout (o : ℕ) (ho : o < 12 ∨ 16 ≤ o) (hend : o < 16 + p.nodePageSize) :
      u.stream.byte o = v.stream.byte o := by
    rw [hbelow o hend]
    apply FileStream.byte_seek_write_of_not_mem hygood
    rwa [length_leBytes]
  refine {
    booked := created_booked order recSize noReturn
    nonzero := List.not_mem_nil
    params_eq := hparams
    lastPageNum := by rw [hlast]; rfl
    rootPageNum := by rw [hux]; rfl
    rootPagePageNum := by rw [hux]; rfl
    rootPage := by rw [hux]; exact hcleared
    free := hfree
    header := ?_
    pageCounter := ?_
    rootField := ?_
    pages := ?_ }
  · rw [hheader, headerBytes, hfields.1, hfields.2]
    rfl
  · have hfield : u.stream.bytesAt 8 4 = v.stream.bytesAt 8 4 := by
      apply FileStream.bytesAt_congr
      intro o _ hhi
      exact hout o (Or.inl hhi) (by omega)
    rw [hfield, hcount]
    rfl
  · have hfield : u.stream.bytesAt 12 4 = x.stream.bytesAt 12 4 := by
      apply FileStream.bytesAt_congr
      intro o _ hhi
      exact hbelow o (by omega)
    have hself := FileStream.bytesAt_seek_write_self hygood 12 (leBytes 4 1)
    rw [length_leBytes] at hself
    exact hfield.trans hself
  · intro n h0 hn
    obtain rfl : n = 1 := by
      have : n ≤ 1 := hn
      omega
    have hfield : u.stream.bytesAt 16 p.nodePageSize = v.stream.bytesAt 16 p.nodePageSize := by
      apply FileStream.bytesAt_congr
      intro o hlo hhi
      exact hout o (Or.inr hlo) hhi
    rw [hwend] at hpage
    show u.stream.bytesAt (16 + 0 * p.nodePageSize) p.nodePageSize = (Page.cleared 0 true).bytes p
    rw [Nat.zero_mul, Nat.add_zero, hfield, ← clearedPage_eq hsz rfl 0 true (t := w)]
    exact hpage

end

/-! ## Runs -/

section

variable {pl : Platform} {uninit : UInt32} {p : Params}

/-- What the calls of a run need: each can be made, and leaves a file below 4 GiB. -/
def StorageCall.Fits (pl : Platform) (p : Params) (c : StorageCall (Record p.recSize))
    (s : BTree (Record p.recSize)) : Prop :=
  c.InDomain pl p s ∧ ∀ r s', c.run s = .ok (r, s') → s'.FileFits p

theorem StorageCall.execAll_spec {treeType : TreeType} {order recSize : ℕ}
    (hsz : p.Sizes treeType order recSize) {calls : List (StorageCall (Record p.recSize))} {t : StreamTree}
    {s s' : BTree (Record p.recSize)} (h : Stores p t s) (hfits : MeetsEach run (Fits pl p) s calls)
    {rs : List (Option (PageWrapper (Record p.recSize)))} (hrun : runAll run calls s = .ok (rs, s')) :
    ∃ u, execAll pl uninit p calls t = (.ok (rs.map (Option.map (PageWrapper.bytes p))), u) ∧
      Stores p u s' := by
  induction calls generalizing t s rs with
  | nil =>
    obtain ⟨rfl, rfl⟩ := runAll_nil hrun
    exact ⟨t, rfl, h⟩
  | cons c calls ih =>
    obtain ⟨r, rs, s₁, rfl, hc, hrest⟩ := runAll_cons hrun
    obtain ⟨t₁, hexec, ht₁⟩ := c.exec_spec pl uninit hsz h hfits.1.1 (hfits.1.2 r s₁ hc) hc
    obtain ⟨u, hexecs, hu⟩ := ih ht₁ (hfits.2 r s₁ hc) hrest
    exact ⟨u, (StreamM.bind_ok hexec).trans ((StreamM.bind_ok hexecs).trans rfl), hu⟩

end

/-! ## Loading a file -/

/-- The bytes of a file. -/
def FileStream.content (f : FileStream) : List UInt8 := f.bytesAt 0 f.size

section

variable {pl : Platform} {t : StreamTree}

theorem FileStream.byte_content (f : FileStream) {o : ℕ} (h : o < f.size) :
    (FileStream.openExisting f.content).byte o = f.byte o := by
  show f.content.getD o 0 = f.byte o
  rw [List.getD_eq_getElem _ _ (by rw [FileStream.content, FileStream.length_bytesAt]; exact h)]
  simp [FileStream.content, FileStream.bytesAt]

theorem FileStream.bytesAt_content (f : FileStream) {o n : ℕ} (h : o + n ≤ f.size) :
    (FileStream.openExisting f.content).bytesAt o n = f.bytesAt o n := by
  apply FileStream.bytesAt_congr
  intro o' _ hhi
  exact f.byte_content (by omega)

theorem FileStream.bytesAt_add (f : FileStream) (o m n : ℕ) :
    f.bytesAt o (m + n) = f.bytesAt o m ++ f.bytesAt (o + m) n := by
  have hslice (o n : ℕ) : f.bytesAt o n = slice f.byte o n := rfl
  rw [hslice, hslice, hslice, slice_add]

theorem newOpen_of_loadTree {treeType : TreeType} {content : List UInt8}
    (h : StreamTree.loadTree pl (opening treeType content) = (.ok (), t)) :
    FileBaseBTree.newOpen pl treeType (some content) = (.ok (), t) := by
  have h' : StreamTree.loadTree pl { StreamTree.fresh treeType with
      stream := FileStream.openExisting content, hasStream := true } = (.ok (), t) := h
  unfold FileBaseBTree.newOpen FileBaseBTree.loadInternal
  simp only [h']

theorem leNat_leBytes_of_lt {n x : ℕ} (h : x < 256 ^ n) : leNat (leBytes n x) = x := by
  rw [leNat_leBytes, Nat.mod_eq_of_lt h]

theorem fieldAt_content {o n x : ℕ} (hin : o + n ≤ t.stream.size) (hbytes : t.stream.bytesAt o n = leBytes n x)
    (hlt : x < 256 ^ n) : fieldAt t.stream.content o n = x := by
  rw [fieldAt, FileStream.bytesAt_content t.stream hin, hbytes, leNat_leBytes_of_lt hlt]

variable {p : Params} {s : BTree (Record p.recSize)} {treeType : TreeType}

namespace Stores

variable (h : Stores p t s)

include h

theorem size_ge : 16 ≤ t.stream.size := by
  have := h.pagesEnd_le_size
  rw [pagesEnd] at this
  omega

/-- The header of the file passes the checks. -/
theorem headerAccepted (hset : BTreesMods.setOrder treeType s.stream.order s.stream.recSize = .ok p)
    (hrec : s.stream.recSize ≠ 0) : HeaderAccepted treeType t.stream.content p := by
  have hsize := h.size_ge
  have hsplit : t.stream.bytesAt 0 4 ++ (t.stream.bytesAt 4 2 ++ t.stream.bytesAt 6 2) =
      leBytes 4 VALID_SIGN ++ (leBytes 2 s.stream.order.toNat ++ leBytes 2 s.stream.recSize.toNat) := by
    rw [← List.append_assoc, ← FileStream.bytesAt_add, ← FileStream.bytesAt_add, h.header, List.append_assoc]
  obtain ⟨hsign, hrest⟩ := List.append_inj hsplit (by simp)
  obtain ⟨horder, hrecSize⟩ := List.append_inj hrest (by simp)
  have hsign := fieldAt_content (by omega) hsign (by decide)
  have horder := fieldAt_content (by omega) horder (UInt16.toNat_lt _)
  have hrecSize := fieldAt_content (by omega) hrecSize (UInt16.toNat_lt _)
  rw [HeaderAccepted, hsign, horder, hrecSize, UInt16.ofNat_toNat, UInt16.ofNat_toNat]
  refine ⟨rfl, ?_, UInt16.pos_iff_ne_zero.mpr hrec, hset⟩
  have htwo := (setOrder_sizes hset).two_le
  rw [UInt16.le_iff_toNat_le]
  show 1 ≤ s.stream.order.toNat
  omega

/-- Opening the file gives the tree, with its root page read again. -/
theorem newOpen (pl : Platform) (hset : BTreesMods.setOrder treeType s.stream.order s.stream.recSize = .ok p)
    (hrec : s.stream.recSize ≠ 0) (hroot : s.rootPageNum ≤ s.lastPageNum) :
    ∃ v, FileBaseBTree.newOpen pl treeType (some t.stream.content) = (.ok (), v) ∧
      Stores p v { s with rootPage := s.wrapper s.rootPageNum } := by
  have hsize := h.size_ge
  have hlen : t.stream.content.length = t.stream.size := FileStream.length_bytesAt _
  have hdr := h.headerAccepted hset hrec
  have hend := h.pagesEnd_eq
  have hfile := h.free.inFile
  have hend4 : t.pagesEnd + 4 ≤ t.stream.size := by
    rw [listEnd] at hfile
    omega
  have hrootZero := h.booked.root
  -- the numbers that are read
  have hlast : UInt32.ofNat (fieldAt t.stream.content 8 4) = t.lastPageNum := by
    rw [fieldAt_content (by omega) h.pageCounter, ← h.lastPageNum, UInt32.ofNat_toNat]
    rw [← h.lastPageNum]
    exact UInt32.toNat_lt _
  have hrootNum : UInt32.ofNat (fieldAt t.stream.content 12 4) = t.rootPageNum := by
    rw [fieldAt_content (by omega) h.rootField, ← h.rootPageNum, UInt32.ofNat_toNat]
    rw [← h.rootPageNum]
    exact UInt32.toNat_lt _
  let f : FileStream := FileStream.openExisting t.stream.content
  have hf : f.Good := ⟨rfl, rfl⟩
  have hfsize : f.size = t.stream.size := hlen
  let w : StreamTree := { StreamTree.fresh treeType with
    params := p, hasStream := true, lastPageNum := t.lastPageNum, rootPageNum := t.rootPageNum
    stream := { f with pos := 16 } }
  have hcounted : counted treeType t.stream.content p = w := by
    rw [counted, loading, hlast, hrootNum]
  -- the root page
  let ofs := 16 + (s.rootPageNum - 1) * p.nodePageSize
  let x : StreamTree := { w with
    rootPage := (s.stream.page s.rootPageNum).bytes p, rootPagePageNum := t.rootPageNum
    stream := { f with pos := ofs + p.nodePageSize } }
  have hroot32 : t.rootPageNum = UInt32.ofNat s.rootPageNum := by
    rw [← h.rootPageNum, UInt32.ofNat_toNat]
  have hin : ofs + p.nodePageSize ≤ t.stream.size :=
    (h.page_inside hrootZero hroot).trans h.pagesEnd_le_size
  have hgoto : w.gotoPageOfs t.rootPageNum = ofs := by
    have := h.gotoPageOfs_ofNat hrootZero hroot
    rw [gotoPageOfs, nodePageSize, h.params_eq, ← hroot32] at this
    exact this
  have hread : (w.stream.seek ofs).read p.nodePageSize =
      ((s.stream.page s.rootPageNum).bytes p, { f with pos := ofs + p.nodePageSize }) := by
    rw [FileStream.read_seek (s := w.stream) hf (by rw [← hfsize] at hin; exact hin)]
    rw [← h.pages _ hrootZero hroot, ← FileStream.bytesAt_content t.stream hin]
    rfl
  have hrooted : rooted treeType t.stream.content p = x := by
    rw [rooted, hcounted]
    show { w with
      rootPage := ((w.stream.seek (w.gotoPageOfs t.rootPageNum)).read p.nodePageSize).1
      rootPagePageNum := t.rootPageNum
      stream := ((w.stream.seek (w.gotoPageOfs t.rootPageNum)).read p.nodePageSize).2 } = x
    rw [hgoto, hread]
  -- the counter of the free pages
  let v : StreamTree := { x with
    freePagesCounter := t.freePagesCounter, stream := { f with pos := t.pagesEnd + 4 } }
  have harea : x.getFreePagesInfoAreaOfs pl = t.pagesEnd := by
    have hxend : x.pagesEnd = t.pagesEnd := by
      rw [pagesEnd, pagesEnd, h.params_eq]
    rw [getFreePagesInfoAreaOfs_eq (t := x) h.fits (by have := h.pagesEnd_lt; omega), hxend]
  have hcounter : x.loadFreePagesCounter pl = v := by
    have hbytes : x.stream.bytesAt t.pagesEnd 4 = leBytes 4 t.freePagesCounter.toNat := by
      rw [h.free.counter, ← h.free.counterStored]
      exact FileStream.bytesAt_content t.stream hend4
    rw [loadFreePagesCounter, harea, readUIntAt_run (t := x) hf (by rw [← hfsize] at hend4; exact hend4),
      hbytes, leNat_leBytes_of_lt (UInt32.toNat_lt _), UInt32.ofNat_toNat]
  have hload : StreamTree.loadTree pl (opening treeType t.stream.content) = (.ok (), v) := by
    rw [loadTree_accepts pl (by omega) hdr, loadFields_run (by omega)]
    have hrun : StreamTree.loadRootPage (counted treeType t.stream.content p) = (.ok (), x) := by
      rw [← hrooted]
      apply loadRootPage_run
      · rw [hcounted]
        show t.rootPageNum ≠ 0
        rw [hroot32]
        exact h.ofNat_ne_zero hrootZero hroot
      · rw [hcounted]
        show t.rootPageNum ≤ t.lastPageNum
        rw [hroot32]
        exact h.ofNat_le hroot
    refine (StreamM.bind_ok hrun).trans ?_
    rw [← hcounter]
    rfl
  refine ⟨v, ?_, ?_⟩
  · exact newOpen_of_loadTree hload
  · have hbyte (o n : ℕ) (hon : o + n ≤ t.stream.size) : v.stream.bytesAt o n = t.stream.bytesAt o n :=
      FileStream.bytesAt_content t.stream hon
    exact {
      booked := (StorageChange.rootPage s _).booked h.booked
      nonzero := h.nonzero
      params_eq := rfl
      lastPageNum := h.lastPageNum
      rootPageNum := h.rootPageNum
      rootPagePageNum := h.rootPageNum
      rootPage := rfl
      free := by
        refine h.free.congr (u := v) rfl hf h.params_eq.symm rfl rfl (by rw [← hfsize]) ?_
        intro o _ ho
        exact t.stream.byte_content (by omega)
      header := (hbyte 0 8 (by omega)).trans h.header
      pageCounter := (hbyte 8 4 (by omega)).trans h.pageCounter
      rootField := (hbyte 12 4 (by omega)).trans h.rootField
      pages := by
        intro n h0 hn
        have := h.page_inside h0 hn
        exact (hbyte _ _ (by omega)).trans (h.pages n h0 hn) }

end Stores

end

end BTreesMods
