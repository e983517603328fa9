import BTreesMods.File.FileTree
import BTreesMods.File.FreeList

/-!
# Using a `FileBaseBTree` again

`close` keeps the page counter, the root page number and the counter of the free pages. The next
`create` writes them into the new file and allocates the root page from them.

Main result: `create_reuses_iff`, which says for which states the object comes out as a new one does.
-/

namespace BTreesMods

open StreamTree

/-! ## Histories of an object -/

/-- The states that an object of `FileBaseBTree` can be in. Of `insert` and `remove` this leaves open
what they do to the pages, the counters and the stream: they keep the class, the values of `setOrder`
and the stream pointer, and do not close the file. -/
inductive FileBaseBTree.History (pl : Platform) (uninit : UInt32) (treeType : TreeType) :
    StreamTree → Prop
  | constructed : History pl uninit treeType (StreamTree.fresh treeType)
  | create {t : StreamTree} (order recSize : UInt16) (openable : Bool) :
      History pl uninit treeType t →
      History pl uninit treeType (FileBaseBTree.create pl uninit t order recSize openable).2
  | openFile {t : StreamTree} (file : Option (List UInt8)) : History pl uninit treeType t →
      History pl uninit treeType (FileBaseBTree.openFile pl t file).2
  | insertOrRemove {t u : StreamTree} : History pl uninit treeType t → u.treeType = t.treeType →
      u.params = t.params → u.hasStream = t.hasStream → u.stream.isOpen = t.stream.isOpen →
      History pl uninit treeType u
  | close {t : StreamTree} : History pl uninit treeType t →
      History pl uninit treeType (FileBaseBTree.close t)

/-- `create` on the closed object ends as `create` on a new one does: with the same exception, or
with the same object and the same file. -/
def FileBaseBTree.SameAsNew (pl : Platform) (uninit : UInt32) (treeType : TreeType)
    (order recSize : UInt16) (openable : Bool) (t : StreamTree) : Prop :=
  match FileBaseBTree.create pl uninit (FileBaseBTree.close t) order recSize openable,
      FileBaseBTree.newCreate pl uninit treeType order recSize openable with
  | (.ok (), u), (.ok (), v) => u = v
  | (.error e, _), (.error f, _) => e = f
  | _, _ => False

/-! ## The class of an object -/

/-- `x` keeps the class of the object, also when it throws. -/
def StreamM.KeepsType {α : Type} (x : StreamM α) : Prop := ∀ t, (x t).2.treeType = t.treeType

namespace StreamM.KeepsType

variable {α β : Type} {x : StreamM α} {f : α → StreamM β}

theorem bind (hx : x.KeepsType) (hf : ∀ a, (f a).KeepsType) : (x >>= f).KeepsType := by
  intro t
  cases hrun : x t with
  | mk r u =>
    have hu : u.treeType = t.treeType := by
      rw [← hx t, hrun]
    cases r with
    | ok a =>
      rw [StreamM.bind_ok hrun, hf a u, hu]
    | error e =>
      rw [StreamM.bind_error hrun, hu]

theorem modify {g : StreamTree → StreamTree} (hg : ∀ t, (g t).treeType = t.treeType) :
    (MonadState.modifyGet fun t => ((), g t) : StreamM Unit).KeepsType := hg

theorem ite {c : Prop} [Decidable c] {y : StreamM α} (hx : x.KeepsType) (hy : y.KeepsType) :
    (if c then x else y).KeepsType := by
  split_ifs
  · exact hx
  · exact hy

end StreamM.KeepsType

namespace StreamTree

theorem allocPageUsingFreePages_treeType (pl : Platform) (uninit : UInt32) (t : StreamTree)
    (keysNum : UInt16) (isLeaf : Bool) :
    (t.allocPageUsingFreePages pl uninit keysNum isLeaf).2.treeType = t.treeType := by
  unfold allocPageUsingFreePages
  split_ifs <;> rfl

theorem setOrder_keepsType (order recSize : UInt16) : (setOrder order recSize).KeepsType := by
  intro t
  rcases setOrder_spec t.treeType order recSize with ⟨what, h⟩ | ⟨params, h, -⟩
  · rw [setOrder_error h]
  · rw [setOrder_ok h]

theorem createTree_keepsType (pl : Platform) (uninit : UInt32) (order recSize : UInt16) :
    (createTree pl uninit order recSize).KeepsType := by
  have hset : setAsRoot.KeepsType :=
    .bind (.modify fun _ => rfl) fun _ => .bind (fun _ => rfl) fun t =>
      .ite (fun _ => rfl) (.modify fun _ => rfl)
  have halloc : (allocPage pl uninit 0 true).KeepsType :=
    .bind (.bind (fun _ => rfl) fun t => .ite (fun _ => rfl) fun _ => rfl) fun _ t =>
      allocPageUsingFreePages_treeType pl uninit t 0 true
  have hroot : (createRootPage pl uninit).KeepsType :=
    halloc.bind fun _ => .bind (.modify fun _ => rfl) fun _ => hset
  exact (setOrder_keepsType order recSize).bind fun _ => .bind (.modify fun _ => rfl) fun _ =>
    .bind (.modify fun _ => rfl) fun _ => .bind (.modify fun _ => rfl) fun _ =>
    hroot.bind fun _ => .modify fun _ => rfl

theorem loadTree_keepsType (pl : Platform) : (loadTree pl).KeepsType := by
  have hread (pnum : UInt32) : (readRootPage pnum).KeepsType :=
    .bind (.bind (fun _ => rfl) fun t => .ite (fun _ => rfl) fun _ => rfl) fun _ =>
      .bind (fun _ => rfl) fun t => .ite (fun _ => rfl) (.modify fun _ => rfl)
  have hroot : loadRootPage.KeepsType :=
    .bind (fun _ => rfl) fun t => .ite (fun _ => rfl) ((hread t.rootPageNum).bind fun _ =>
      .modify fun _ => rfl)
  have hfields : (loadFields pl).KeepsType :=
    .bind (.modify fun _ => rfl) fun _ => .bind (.modify fun _ => rfl) fun _ =>
      .bind (fun _ => rfl) fun t => .ite (fun _ => rfl) (hroot.bind fun _ => .modify fun _ => rfl)
  have hheader : readHeader.KeepsType := fun _ => rfl
  exact hheader.bind fun hdr => .bind (fun _ => rfl) fun t => .ite (fun _ => rfl)
    (.ite (fun _ => rfl) ((setOrder_keepsType hdr.order hdr.recSize).bind fun _ => hfields))

end StreamTree

namespace FileBaseBTree

variable {pl : Platform} {uninit : UInt32} {t : StreamTree}

theorem close_treeType (t : StreamTree) : (close t).treeType = t.treeType := by
  unfold close
  split_ifs <;> rfl

theorem create_treeType (order recSize : UInt16) (openable : Bool) :
    (create pl uninit t order recSize openable).2.treeType = t.treeType := by
  unfold create
  split_ifs
  · rfl
  cases checkTreeParams order recSize with
  | error e => rfl
  | ok r =>
    cases openable with
    | false => rfl
    | true =>
      have hkeeps := createTree_keepsType pl uninit order recSize
        { t with stream := FileStream.openTrunc, hasStream := true }
      cases hrun : StreamTree.createTree pl uninit order recSize
        { t with stream := FileStream.openTrunc, hasStream := true } with
      | mk r u =>
        rw [hrun] at hkeeps
        simp only [createInternal, hrun]
        cases r <;> exact hkeeps

theorem openFile_treeType (file : Option (List UInt8)) :
    (openFile pl t file).2.treeType = t.treeType := by
  unfold openFile
  split_ifs
  · rfl
  cases file with
  | none => rfl
  | some content =>
    have hkeeps := loadTree_keepsType pl
      { t with stream := FileStream.openExisting content, hasStream := true }
    cases hrun : StreamTree.loadTree pl
      { t with stream := FileStream.openExisting content, hasStream := true } with
    | mk r u =>
      rw [hrun] at hkeeps
      simp only [loadInternal, hrun]
      cases r <;> exact hkeeps

theorem History.treeType_eq {treeType : TreeType} (h : History pl uninit treeType t) :
    t.treeType = treeType := by
  induction h with
  | constructed => rfl
  | create order recSize openable _ ih => exact (create_treeType order recSize openable).trans ih
  | openFile file _ ih => exact (openFile_treeType file).trans ih
  | insertOrRemove _ htype _ _ _ ih => exact htype.trans ih
  | close _ ih => exact (close_treeType _).trans ih

end FileBaseBTree

/-! ## The root page of a new tree -/

namespace StreamTree

variable {pl : Platform} {uninit : UInt32} {t : StreamTree}

theorem createRootPage_run (pl : Platform) (uninit : UInt32) (hs : t.hasStream = true)
    (hg : t.stream.Good) :
    createRootPage pl uninit t =
      let r := t.allocPageUsingFreePages pl uninit 0 true
      let u := { r.2 with
        rootPage := r.2.clearedPage 0 true, rootPagePageNum := r.1, rootPageNum := r.1 }
      if r.1 = 0 then
        (.error (.runtimeError "Can't set a page as root until allocate a page in a file"), u)
      else (.ok (), u.writeRootPageNum) := by
  refine (StreamM.bind_ok (allocPage_run hs hg 0 true)).trans ?_
  by_cases hzero : (t.allocPageUsingFreePages pl uninit 0 true).1 = 0
  · simp only [if_pos hzero]
    show (if (t.allocPageUsingFreePages pl uninit 0 true).1 = 0 then throw _ else _ : StreamM Unit) _ = _
    rw [if_pos hzero]
    rfl
  · simp only [if_neg hzero]
    show (if (t.allocPageUsingFreePages pl uninit 0 true).1 = 0 then throw _ else _ : StreamM Unit) _ = _
    rw [if_neg hzero]
    rfl

/-- While the list of free pages is empty, creating the root page forgets the number of an earlier
root page and what was stored of it. -/
theorem createRootPage_forgets (pl : Platform) (uninit : UInt32) (hs : t.hasStream = true)
    (hg : t.stream.Good) (hlast : t.lastPageNum = 0) (hcounter : t.freePagesCounter = 0)
    (r q : UInt32) {s : FileStream} (hagree : FileStream.AgreeOff 12 16 t.stream s) :
    createRootPage pl uninit { t with rootPageNum := r, rootPagePageNum := q, stream := s } =
      createRootPage pl uninit t := by
  let t' : StreamTree := { t with rootPageNum := r, rootPagePageNum := q, stream := s }
  let v : StreamTree := (t.allocPageInternal pl 0 true).writeFreePagesCounter pl
  let v' : StreamTree := (t'.allocPageInternal pl 0 true).writeFreePagesCounter pl
  have hv : FileStream.AgreeOff 12 16 v.stream v'.stream :=
    ((hagree.seek_write hg (t.getFreePagesInfoAreaOfs pl) (t.clearedPage 0 true)).seek_write
      (FileStream.good_seek_write hg) 8 (leBytes 4 (t.lastPageNum + 1).toNat)).seek_write
      (FileStream.good_seek_write (FileStream.good_seek_write hg)) _ _
  have hgood : v.stream.Good :=
    FileStream.good_seek_write (FileStream.good_seek_write (FileStream.good_seek_write hg))
  have halloc : t.allocPageUsingFreePages pl uninit 0 true = (v.lastPageNum, v) := by
    rw [allocPageUsingFreePages, if_pos hcounter]
  have halloc' : t'.allocPageUsingFreePages pl uninit 0 true = (v.lastPageNum, v') := by
    rw [allocPageUsingFreePages, if_pos hcounter]
    rfl
  have hone : v.lastPageNum ≠ 0 := by
    show t.lastPageNum + 1 ≠ 0
    rw [hlast]
    decide
  have hstream : (v.stream.seek 12).write (leBytes 4 v.lastPageNum.toNat) =
      (v'.stream.seek 12).write (leBytes 4 v.lastPageNum.toNat) :=
    hv.eq_of_overwrite hgood (by rw [length_leBytes])
  rw [createRootPage_run pl uninit (t := t') hs (hagree.good hg), createRootPage_run pl uninit hs hg,
    halloc, halloc']
  simp only [if_neg hone, writeRootPageNum, writeAt]
  rw [hstream]
  rfl

/-! ## `createTree` -/

/-- The object when `createTree` has written the header and the two numbers. -/
def headed (t : StreamTree) (params : Params) : StreamTree :=
  writeRootPageNum (writePageCounter (writeHeader { t with params := params, rootPage := [] }))

theorem createTree_run {order recSize : UInt16} {params : Params}
    (hset : BTreesMods.setOrder t.treeType order recSize = .ok params) :
    createTree pl uninit order recSize t =
      (do createRootPage pl uninit; modify (writeFreePagesCounter pl) : StreamM Unit)
        (t.headed params) :=
  StreamM.bind_ok (setOrder_ok hset)

/-- An object in front of an empty file, as `createInternal` passes it to `createTree`. -/
def onNewFile (t : StreamTree) : StreamTree :=
  { t with stream := FileStream.openTrunc, hasStream := true }

variable {params : Params}

theorem headed_good : (t.onNewFile.headed params).stream.Good :=
  FileStream.good_seek_write (FileStream.good_seek_write ⟨rfl, rfl⟩)

theorem headed_size : (t.onNewFile.headed params).stream.size = 16 := rfl

/-- With both counters 0, `createTree` leaves what it leaves for a new object. -/
theorem createTree_forgets {order recSize : UInt16}
    (hset : BTreesMods.setOrder t.treeType order recSize = .ok params) (hlast : t.lastPageNum = 0)
    (hcounter : t.freePagesCounter = 0) :
    createTree pl uninit order recSize t.onNewFile =
      createTree pl uninit order recSize (onEmptyFile t.treeType) := by
  obtain ⟨treeType, p, hasStream, last, root, counter, rootPage, rootPagePageNum, stream⟩ := t
  obtain rfl : last = 0 := hlast
  obtain rfl : counter = 0 := hcounter
  let t : StreamTree := ⟨treeType, p, hasStream, 0, root, 0, rootPage, rootPagePageNum, stream⟩
  let u : StreamTree := (onEmptyFile treeType).headed params
  have hgood : (writePageCounter (writeHeader
      { onEmptyFile treeType with params := params, rootPage := [] })).stream.Good :=
    FileStream.good_seek_write ⟨rfl, rfl⟩
  have hagree : FileStream.AgreeOff 12 16 u.stream (t.onNewFile.headed params).stream :=
    FileStream.agreeOff_of_write hgood 12 (leBytes 4 0) (leBytes 4 root.toNat) (by simp)
  have hroot := createRootPage_forgets pl uninit (t := u) rfl headed_good rfl rfl root
    rootPagePageNum hagree
  rw [createTree_run (t := t.onNewFile) hset, createTree_run (t := onEmptyFile treeType) hset]
  exact StreamM.bind_congr _ hroot

/-- The stream fails when the last entry of the list is not in the file. -/
theorem failed_getLastFreePageNum (hg : t.stream.Good)
    (h : t.stream.size < t.getLastFreePageNumOfs pl + 4) :
    (t.getLastFreePageNum pl uninit).2.stream.failed = true :=
  FileStream.failed_read_seek hg h

/-- The first allocation of a `createTree` that finds a counter of free pages reads an entry that is
not in the file, or leaves other numbers than for a new object. -/
theorem createTree_remembers {order recSize : UInt16}
    (hset : BTreesMods.setOrder t.treeType order recSize = .ok params) {u v : StreamTree}
    (hu : createTree pl uninit order recSize t.onNewFile = (.ok (), u))
    (hv : createTree pl uninit order recSize (onEmptyFile t.treeType) = (.ok (), v)) (huv : u = v) :
    t.lastPageNum = 0 ∧ t.freePagesCounter = 0 := by
  obtain ⟨v', hv', hinv, -, -, hone, -⟩ := createTree_spec pl uninit (t := onEmptyFile t.treeType) rfl
    ⟨rfl, rfl⟩ rfl rfl rfl hset
  rw [hv] at hv'
  cases hv'
  subst huv
  let w : StreamTree := t.onNewFile.headed params
  rw [createTree_run (t := t.onNewFile) hset] at hu
  have hroot := createRootPage_run pl uninit (t := w) rfl headed_good
  -- the object after the allocation
  let r := w.allocPageUsingFreePages pl uninit 0 true
  have hrzero : r.1 ≠ 0 := by
    intro hzero
    rw [if_pos hzero] at hroot
    rw [StreamM.bind_error hroot] at hu
    cases hu
  rw [if_neg hrzero] at hroot
  rw [StreamM.bind_ok hroot] at hu
  cases hu
  have hlast : r.2.lastPageNum = 1 := hone
  have hcounter : r.2.freePagesCounter = 0 := (counter_eq_zero_iff hinv.counter).mpr rfl
  have hfailed : r.2.stream.failed ≠ true := by
    intro hfail
    have : (writeFreePagesCounter pl (writeRootPageNum { r.2 with
        rootPage := r.2.clearedPage 0 true, rootPagePageNum := r.1
        rootPageNum := r.1 })).stream.failed = true :=
      FileStream.failed_write (FileStream.failed_seek
        (FileStream.failed_write (FileStream.failed_seek hfail)))
    rw [hinv.good.2] at this
    cases this
  by_cases hzero : t.freePagesCounter = 0
  · have hnext : r.2.lastPageNum = t.lastPageNum + 1 := by
      have hr : r = _ := if_pos hzero
      rw [hr]
      rfl
    rw [hlast] at hnext
    refine ⟨?_, hzero⟩
    calc t.lastPageNum = t.lastPageNum + 1 - 1 := (UInt32.add_sub_cancel _ _).symm
      _ = 0 := by rw [← hnext]; rfl
  · exfalso
    have hr : r = _ := if_neg hzero
    have hlastOne : t.lastPageNum = 1 := by
      rw [← hlast, hr]
      rfl
    have hcounterOne : t.freePagesCounter = 1 := by
      have hminus : t.freePagesCounter - 1 = 0 := by
        rw [← hcounter, hr]
        rfl
      calc t.freePagesCounter = t.freePagesCounter - 1 + 1 := (UInt32.sub_add_cancel _ _).symm
        _ = 1 := by rw [hminus]; rfl
    -- the entry lies behind the first page, and the file has no page yet
    have hfits : params.PageSizeFits := setOrder_pageSizeFits hset
    have hofs : w.getLastFreePageNumOfs pl = 20 + params.nodePageSize := by
      have hroom := hfits.2
      have hwcounter : w.freePagesCounter = 1 := hcounterOne
      have hend : w.pagesEnd = 16 + params.nodePageSize := by
        show 16 + t.lastPageNum.toNat * params.nodePageSize = _
        rw [hlastOne]
        simp
      rw [getLastFreePageNumOfs_eq hfits (by rw [hwcounter]; decide)
        (by rw [hwcounter]; simp only [listEnd, hend, UInt32.toNat_one]; omega), hwcounter]
      simp only [listEnd, hend, UInt32.toNat_one]
      omega
    have hshort : (w.getLastFreePageNum pl uninit).2.stream.failed = true :=
      failed_getLastFreePageNum headed_good (by rw [headed_size, hofs]; omega)
    apply hfailed
    rw [hr]
    exact FileStream.failed_write (FileStream.failed_seek
      (FileStream.failed_write (FileStream.failed_seek hshort)))

end StreamTree

/-! ## Creating again -/

namespace FileBaseBTree

variable {pl : Platform} {uninit : UInt32} {t : StreamTree}

/-- `createInternal` on a file that can be opened. -/
theorem createInternal_run (order recSize : UInt16) :
    createInternal pl uninit t order recSize true =
      match StreamTree.createTree pl uninit order recSize t.onNewFile with
      | (.ok (), t) => (.ok (), t)
      | (.error e, t) => (.error (.thrown e), t) := rfl

theorem close_isOpen (t : StreamTree) : (close t).stream.isOpen = false := by
  unfold close
  split_ifs with h
  · rfl
  · simpa using h

theorem close_lastPageNum (t : StreamTree) : (close t).lastPageNum = t.lastPageNum := by
  unfold close
  split_ifs <;> rfl

theorem close_freePagesCounter (t : StreamTree) :
    (close t).freePagesCounter = t.freePagesCounter := by
  unfold close
  split_ifs <;> rfl

/-- `create` on a closed object whose parameters pass `checkTreeParams`. -/
theorem create_close {order recSize : UInt16} (hcheck : ¬ (order < 1 ∨ recSize = 0))
    (openable : Bool) : create pl uninit (close t) order recSize openable =
      createInternal pl uninit (close t) order recSize openable := by
  unfold create
  rw [if_neg (by rw [close_isOpen]; simp), checkTreeParams, if_neg hcheck]

theorem newCreate_run {treeType : TreeType} {order recSize : UInt16}
    (hcheck : ¬ (order < 1 ∨ recSize = 0)) (openable : Bool) :
    newCreate pl uninit treeType order recSize openable =
      createInternal pl uninit (StreamTree.fresh treeType) order recSize openable := by
  unfold newCreate
  rw [checkTreeParams, if_neg hcheck]

end FileBaseBTree

open FileBaseBTree

/-- After any history, `create` on the closed object ends as on a new object exactly when it throws
for its arguments, or both counters that the object has kept are 0. -/
theorem create_reuses_iff (pl : Platform) (uninit : UInt32) (treeType : TreeType) (t : StreamTree)
    (h : History pl uninit treeType t) (order recSize : UInt16) (openable : Bool) :
    SameAsNew pl uninit treeType order recSize openable t ↔
      (openable = false ∨ (order < 1 ∨ recSize = 0) ∨
        ∃ what, setOrder treeType order recSize = .error (.invalidArgument what)) ∨
      (t.lastPageNum = 0 ∧ t.freePagesCounter = 0) := by
  by_cases hcheck : order < 1 ∨ recSize = 0
  · have hsame : SameAsNew pl uninit treeType order recSize openable t := by
      unfold SameAsNew create newCreate checkTreeParams
      rw [if_neg (by rw [close_isOpen]; simp), if_pos hcheck]
    exact ⟨fun _ => Or.inl (Or.inr (Or.inl hcheck)), fun _ => hsame⟩
  unfold SameAsNew
  rw [create_close hcheck, newCreate_run hcheck]
  cases openable with
  | false => exact ⟨fun _ => Or.inl (Or.inl rfl), fun _ => rfl⟩
  | true =>
    have htype : (close t).treeType = treeType := (close_treeType t).trans h.treeType_eq
    rw [createInternal_run, createInternal_run]
    rcases setOrder_spec treeType order recSize with ⟨what, herr⟩ | ⟨params, hok, -⟩
    · have hboth (u : StreamTree) (hu : u.treeType = treeType) :
          StreamTree.createTree pl uninit order recSize u = (.error (.invalidArgument what), u) :=
        StreamM.bind_error (setOrder_error (by rw [hu]; exact herr))
      rw [hboth (close t).onNewFile htype, hboth (StreamTree.fresh treeType).onNewFile rfl]
      exact ⟨fun _ => Or.inl (Or.inr (Or.inr ⟨what, herr⟩)), fun _ => rfl⟩
    · have hset : setOrder (close t).treeType order recSize = .ok params := by
        rw [htype]
        exact hok
      have hnew : (StreamTree.fresh treeType).onNewFile = onEmptyFile (close t).treeType := by
        rw [htype]
        rfl
      obtain ⟨v, hv, -⟩ := createTree_spec pl uninit (t := onEmptyFile (close t).treeType) rfl
        ⟨rfl, rfl⟩ rfl rfl rfl hset
      rw [hnew, hv]
      have harguments : ¬ (true = false ∨ (order < 1 ∨ recSize = 0) ∨
          ∃ what, setOrder treeType order recSize = .error (.invalidArgument what)) := by
        rintro (hfalse | hbad | ⟨what, herr⟩)
        · cases hfalse
        · exact hcheck hbad
        · rw [hok] at herr
          cases herr
      constructor
      · intro hsame
        right
        cases hu : StreamTree.createTree pl uninit order recSize (close t).onNewFile with
        | mk r u =>
          rw [hu] at hsame
          cases r with
          | error e => exact hsame.elim
          | ok r =>
            rw [← close_lastPageNum t, ← close_freePagesCounter t]
            exact createTree_remembers hset hu hv hsame
      · intro hzero
        have hzero := hzero.resolve_left harguments
        rw [createTree_forgets hset ((close_lastPageNum t).trans hzero.1)
          ((close_freePagesCounter t).trans hzero.2), hv]

/-- An object that has created a file, was closed with three pages, one of them free, and has opened the file
as it was created. -/
theorem create_reuses_reopened :
    let u := (create .linux 0 (StreamTree.fresh .bTree) 2 1 true).2
    let t := (openFile .linux (close { u with lastPageNum := 3, freePagesCounter := 1 })
      (some (u.stream.bytesAt 0 u.stream.size))).2
    SameAsNew .linux 0 .bTree 3 4 true t ↔
      (true = false ∨ ((3 : UInt16) < 1 ∨ (4 : UInt16) = 0) ∨
        ∃ what, setOrder .bTree 3 4 = .error (.invalidArgument what)) ∨
      (t.lastPageNum = 0 ∧ t.freePagesCounter = 0) := by
  intro u t
  have hused : History .linux 0 .bTree { u with lastPageNum := 3, freePagesCounter := 1 } :=
    .insertOrRemove (.create 2 1 true .constructed) rfl rfl rfl rfl
  exact create_reuses_iff .linux 0 .bTree t (.openFile _ (.close hused)) 3 4 true

/-- An object that has created a file once counts two pages when it creates a file again. -/
theorem create_again_not_same :
    ¬ SameAsNew .linux 0 .bTree 2 1 true
      (create .linux 0 (StreamTree.fresh .bTree) 2 1 true).2 := by
  intro h
  have hcounter : (create .linux 0 (close (create .linux 0 (StreamTree.fresh .bTree) 2 1 true).2) 2
      1 true).2.lastPageNum = (newCreate .linux 0 .bTree 2 1 true).2.lastPageNum :=
    congrArg StreamTree.lastPageNum h
  revert hcounter
  decide +kernel

end BTreesMods
