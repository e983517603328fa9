import BTreesMods.File.FileTree
import BTreesMods.File.FreeList

/-!
# What `open` and `create` of the C interface let out

`Loadable` says of the contents of a file that the header, the counters, the root page and the
counter of the free pages are all there and pass the checks.

Main result: `capi_returns_iff`, which says for which files and parameters `open` and `create` return
normally with a null pointer or a usable tree.
-/

namespace BTreesMods

open StreamTree

/-! ## Contents of a file -/

/-- The number in the `n` bytes at `ofs` of a file. -/
def fieldAt (content : List UInt8) (ofs n : ℕ) : ℕ :=
  leNat ((FileStream.openExisting content).bytesAt ofs n)

/-- The object that `loadTree` works on, after its `setOrder`. -/
def StreamTree.loading (treeType : TreeType) (content : List UInt8) (params : Params) : StreamTree :=
  { StreamTree.fresh treeType with
    params := params
    hasStream := true
    lastPageNum := UInt32.ofNat (fieldAt content 8 4)
    rootPageNum := UInt32.ofNat (fieldAt content 12 4)
    stream := FileStream.openExisting content }

/-- The header passes `checkIntegrity` and `setOrder`, with the values `params`. -/
def HeaderAccepted (treeType : TreeType) (content : List UInt8) (params : Params) : Prop :=
  fieldAt content 0 4 = VALID_SIGN ∧ 1 ≤ UInt16.ofNat (fieldAt content 4 2) ∧
    0 < UInt16.ofNat (fieldAt content 6 2) ∧
    setOrder treeType (UInt16.ofNat (fieldAt content 4 2)) (UInt16.ofNat (fieldAt content 6 2)) =
      .ok params

/-- The file holds a header that passes the checks, a root page number between 1 and the page
counter, the whole root page and the whole counter of the free pages. -/
def Loadable (pl : Platform) (treeType : TreeType) (content : List UInt8) : Prop :=
  16 ≤ content.length ∧ ∃ params, HeaderAccepted treeType content params ∧
    let t := StreamTree.loading treeType content params
    t.rootPageNum ≠ 0 ∧ t.rootPageNum ≤ t.lastPageNum ∧
      t.gotoPageOfs t.rootPageNum + params.nodePageSize ≤ content.length ∧
      t.getFreePagesInfoAreaOfs pl + 4 ≤ content.length

/-- The header in the stream passes `checkIntegrity` and `setOrder`, which gave the values of the
object. -/
def HeaderPassed (t : StreamTree) : Prop :=
  ∃ order recSize : UInt16,
    t.stream.bytesAt 0 8 = leBytes 4 VALID_SIGN ++ leBytes 2 order.toNat ++ leBytes 2 recSize.toNat ∧
    1 ≤ order ∧ 0 < recSize ∧ setOrder t.treeType order recSize = .ok t.params

/-- `open` or `create` returned normally, with a null pointer or an open tree whose header has passed
the checks. -/
def CApi.Outcome.Fine : CApi.Outcome → Prop
  | .returned none => True
  | .returned (some t) => t.isOpened = true ∧ HeaderPassed t
  | .escaped _ => False

/-! ## Reading the fields -/

namespace StreamTree

variable {pl : Platform} {t : StreamTree}

theorem readHeader_short (hg : t.stream.Good) (h : t.stream.size < 8) :
    ∃ hdr u, readHeader t = (.ok hdr, u) ∧ u.stream.failed = true :=
  ⟨_, _, rfl, FileStream.failed_read_seek hg (by omega)⟩

theorem readHeader_run (hg : t.stream.Good) (h : 8 ≤ t.stream.size) :
    readHeader t = (.ok (Header.ofBytes (t.stream.bytesAt 0 8)),
      { t with stream := { t.stream with pos := 8 } }) := by
  change ((Except.ok (Header.ofBytes ((t.stream.seek 0).read 8).1),
    { t with stream := ((t.stream.seek 0).read 8).2 }) : Except Err Header × StreamTree) = _
  rw [FileStream.read_seek hg (by omega)]

/-- A field within the file. -/
theorem readUIntAt_run (hg : t.stream.Good) {ofs : ℕ} (h : ofs + 4 ≤ t.stream.size) (old : UInt32) :
    t.readUIntAt ofs old = (UInt32.ofNat (leNat (t.stream.bytesAt ofs 4)),
      { t with stream := { t.stream with pos := ofs + 4 } }) := by
  have hdrop : (leBytes 4 old.toNat).drop (t.stream.bytesAt ofs 4).length = [] :=
    List.drop_eq_nil_of_le (by simp)
  rw [readUIntAt, FileStream.read_seek hg h]
  simp only [readInto, hdrop, List.append_nil]

theorem readPageCounter_run (hg : t.stream.Good) (h : 12 ≤ t.stream.size) :
    t.readPageCounter = { t with
      lastPageNum := UInt32.ofNat (leNat (t.stream.bytesAt 8 4))
      stream := { t.stream with pos := 12 } } := by
  rw [readPageCounter, readUIntAt_run hg h]

theorem readRootPageNum_run (hg : t.stream.Good) (h : 16 ≤ t.stream.size) :
    t.readRootPageNum = { t with
      rootPageNum := UInt32.ofNat (leNat (t.stream.bytesAt 12 4))
      stream := { t.stream with pos := 16 } } := by
  rw [readRootPageNum, readUIntAt_run hg h]

/-- A field that is not within the file. -/
theorem readUIntAt_short (hg : t.stream.Good) (ofs : ℕ) (h : t.stream.size < ofs + 4) (old : UInt32) :
    (t.readUIntAt ofs old).2.stream.failed = true :=
  FileStream.failed_read_seek hg h

theorem readUIntAt_failed (h : t.stream.failed = true) (ofs : ℕ) (old : UInt32) :
    (t.readUIntAt ofs old).2.stream.failed = true :=
  FileStream.failed_read (FileStream.failed_seek h) 4

/-- The object that `loadFields` works on: a fresh one with the values of `setOrder`. -/
def accepted (treeType : TreeType) (content : List UInt8) (params : Params) : StreamTree :=
  { StreamTree.fresh treeType with
    params := params
    hasStream := true
    stream := { FileStream.openExisting content with pos := 8 } }

variable {treeType : TreeType} {content : List UInt8} {params : Params}

theorem loadFields_short (pl : Platform) (treeType : TreeType) (params : Params)
    (h : content.length < 16) :
    ∃ e u, loadFields pl (accepted treeType content params) = (.error e, u) := by
  let t := accepted treeType content params
  have hg : t.stream.Good := ⟨rfl, rfl⟩
  have hfail : (readRootPageNum (readPageCounter t)).stream.failed = true := by
    by_cases hcounter : content.length < 12
    · have hshort : (readPageCounter t).stream.failed = true :=
        readUIntAt_short hg 8 hcounter t.lastPageNum
      exact readUIntAt_failed hshort 12 (readPageCounter t).rootPageNum
    · rw [readPageCounter_run hg (by show 12 ≤ content.length; omega)]
      let v : StreamTree := { t with
        lastPageNum := UInt32.ofNat (leNat (t.stream.bytesAt 8 4))
        stream := { t.stream with pos := 12 } }
      have hgv : v.stream.Good := hg
      exact readUIntAt_short hgv 12 h v.rootPageNum
  refine ⟨.runtimeError "Can't read necessary fields. File corrupted",
    readRootPageNum (readPageCounter t), ?_⟩
  change (if (readRootPageNum (readPageCounter t)).stream.failed = true then _ else _ : StreamM Unit)
    (readRootPageNum (readPageCounter t)) = _
  rw [if_pos hfail]
  rfl

/-- The two counters of a file of at least 16 bytes. -/
theorem loadFields_run (h : 16 ≤ content.length) :
    loadFields pl (accepted treeType content params) =
      (do loadRootPage; modify (loadFreePagesCounter pl) : StreamM Unit)
        { loading treeType content params with
          stream := { FileStream.openExisting content with pos := 16 } } := by
  let t := accepted treeType content params
  have hg : t.stream.Good := ⟨rfl, rfl⟩
  have hroot : readRootPageNum (readPageCounter t) = { loading treeType content params with
      stream := { FileStream.openExisting content with pos := 16 } } := by
    rw [readPageCounter_run hg (by show 12 ≤ content.length; omega)]
    exact readRootPageNum_run (t := { t with
      lastPageNum := UInt32.ofNat (leNat (t.stream.bytesAt 8 4))
      stream := { t.stream with pos := 12 } }) hg h
  change (if (readRootPageNum (readPageCounter t)).stream.failed = true then _ else _ : StreamM Unit)
    (readRootPageNum (readPageCounter t)) = _
  rw [hroot, if_neg (by simp [FileStream.openExisting])]

/-! ## The root page and the counter of the free pages -/

/-- The object after the page counter and the root page number. -/
def counted (treeType : TreeType) (content : List UInt8) (params : Params) : StreamTree :=
  { loading treeType content params with
    stream := { FileStream.openExisting content with pos := 16 } }

/-- The object after the root page. -/
def rooted (treeType : TreeType) (content : List UInt8) (params : Params) : StreamTree :=
  let t := counted treeType content params
  let r := (t.stream.seek (t.gotoPageOfs t.rootPageNum)).read params.nodePageSize
  { t with rootPage := r.1, rootPagePageNum := t.rootPageNum, stream := r.2 }

theorem loadRootPage_error (h : (counted treeType content params).rootPageNum = 0 ∨
    (counted treeType content params).rootPageNum > (counted treeType content params).lastPageNum) :
    ∃ e u, loadRootPage (counted treeType content params) = (.error e, u) := by
  let t := counted treeType content params
  by_cases hzero : t.rootPageNum = 0
  · refine ⟨.runtimeError "Root page is not defined", t, ?_⟩
    change (if t.rootPageNum = 0 then _ else _ : StreamM Unit) t = _
    rw [if_pos hzero]
    rfl
  · refine ⟨.invalidArgument "Can't read a non-existing page", t, ?_⟩
    change (if t.rootPageNum = 0 then _ else _ : StreamM Unit) t = _
    rw [if_neg hzero]
    have hread : readRootPage t.rootPageNum t =
        (.error (.invalidArgument "Can't read a non-existing page"), t) := by
      change (if t.rootPageNum = 0 ∨ t.rootPageNum > t.lastPageNum then _ else _ : StreamM Unit) t = _
      rw [if_pos h]
      rfl
    exact StreamM.bind_error hread

theorem loadRootPage_run (h0 : (counted treeType content params).rootPageNum ≠ 0)
    (hle : (counted treeType content params).rootPageNum ≤
      (counted treeType content params).lastPageNum) :
    loadRootPage (counted treeType content params) = (.ok (), rooted treeType content params) := by
  let t := counted treeType content params
  change (if t.rootPageNum = 0 then _ else _ : StreamM Unit) t = _
  rw [if_neg h0]
  have hbad : ¬ (t.rootPageNum = 0 ∨ t.rootPageNum > t.lastPageNum) := by
    rw [not_or]
    exact ⟨h0, UInt32.not_lt.mpr hle⟩
  have hread : readRootPage t.rootPageNum t = (.ok (), rooted treeType content params) := by
    change (if t.rootPageNum = 0 ∨ t.rootPageNum > t.lastPageNum then _ else _ : StreamM Unit) t = _
    rw [if_neg hbad]
    rfl
  exact (StreamM.bind_ok hread).trans rfl

/-- The stream is still usable when both the page and the counter were in the file. -/
theorem loadFreePagesCounter_opened_iff :
    ((rooted treeType content params).loadFreePagesCounter pl).isOpened = true ↔
      (loading treeType content params).gotoPageOfs (loading treeType content params).rootPageNum +
          params.nodePageSize ≤ content.length ∧
        (loading treeType content params).getFreePagesInfoAreaOfs pl + 4 ≤ content.length := by
  let t := counted treeType content params
  have hg : t.stream.Good := ⟨rfl, rfl⟩
  have hopened : ((rooted treeType content params).loadFreePagesCounter pl).isOpened = true ↔
      ((rooted treeType content params).readUIntAt (t.getFreePagesInfoAreaOfs pl) 0).2.stream.failed =
        false := by
    show (true && !_) = true ↔ _
    simp only [Bool.true_and, Bool.not_eq_true']
    rfl
  rw [hopened]
  by_cases hpage : t.gotoPageOfs t.rootPageNum + params.nodePageSize ≤ content.length
  · have hrooted : (rooted treeType content params).stream = { t.stream with
        pos := t.gotoPageOfs t.rootPageNum + params.nodePageSize } := by
      show ((t.stream.seek (t.gotoPageOfs t.rootPageNum)).read params.nodePageSize).2 = _
      rw [FileStream.read_seek hg hpage]
    have hgr : (rooted treeType content params).stream.Good := by
      rw [hrooted]
      exact hg
    by_cases harea : t.getFreePagesInfoAreaOfs pl + 4 ≤ content.length
    · have hsize : t.getFreePagesInfoAreaOfs pl + 4 ≤
          (rooted treeType content params).stream.size := by
        rw [hrooted]
        exact harea
      rw [readUIntAt_run hgr hsize]
      exact ⟨fun _ => ⟨hpage, harea⟩, fun _ => hgr.2⟩
    · have hsize : (rooted treeType content params).stream.size <
          t.getFreePagesInfoAreaOfs pl + 4 := by
        rw [hrooted]
        exact Nat.not_le.mp harea
      rw [readUIntAt_short hgr _ hsize]
      exact ⟨fun h => absurd h (by simp), fun h => absurd h.2 harea⟩
  · have hfail : (rooted treeType content params).stream.failed = true :=
      FileStream.failed_read_seek hg (Nat.not_le.mp hpage)
    rw [readUIntAt_failed hfail]
    exact ⟨fun h => absurd h (by simp), fun h => absurd h.1 hpage⟩

/-! ## `loadTree` -/

/-- The object that `loadTree` gets from `loadInternal`. -/
def opening (treeType : TreeType) (content : List UInt8) : StreamTree :=
  { StreamTree.fresh treeType with stream := FileStream.openExisting content, hasStream := true }

/-- The header of a file. -/
def headerOf (content : List UInt8) : Header :=
  ⟨fieldAt content 0 4, UInt16.ofNat (fieldAt content 4 2), UInt16.ofNat (fieldAt content 6 2)⟩

theorem checkIntegrity_iff {hdr : Header} :
    hdr.checkIntegrity = true ↔ hdr.sign = VALID_SIGN ∧ 1 ≤ hdr.order ∧ 0 < hdr.recSize := by
  simp [Header.checkIntegrity, and_assoc]

theorem loadTree_short (pl : Platform) (treeType : TreeType) (h : content.length < 8) :
    ∃ e u, loadTree pl (opening treeType content) = (.error e, u) := by
  have hg : (opening treeType content).stream.Good := ⟨rfl, rfl⟩
  obtain ⟨hdr, u, hread, hfail⟩ := readHeader_short hg h
  refine ⟨.runtimeError "Can't read header", u, (StreamM.bind_ok hread).trans ?_⟩
  change (if u.stream.failed = true then _ else _ : StreamM Unit) u = _
  rw [if_pos hfail]
  rfl

/-- `loadTree` on a file with a whole header, from `checkIntegrity` on. -/
theorem loadTree_run (h : 8 ≤ content.length) :
    loadTree pl (opening treeType content) =
      (if !(headerOf content).checkIntegrity then
          throw (.runtimeError "Stream is not a valid btree B-tree file")
        else do
          setOrder (headerOf content).order (headerOf content).recSize
          loadFields pl : StreamM Unit) (accepted treeType content default) := by
  have hread : readHeader (opening treeType content) =
      (.ok (headerOf content), accepted treeType content default) := by
    rw [readHeader_run ⟨rfl, rfl⟩ h]
    rfl
  exact (StreamM.bind_ok hread).trans rfl

/-- A file whose header is not accepted is rejected. -/
theorem loadTree_rejects (pl : Platform) (h : 8 ≤ content.length)
    (hbad : ¬ ∃ params, HeaderAccepted treeType content params) :
    ∃ e u, loadTree pl (opening treeType content) = (.error e, u) := by
  rw [loadTree_run h]
  by_cases hcheck : (headerOf content).checkIntegrity = true
  · have hfields := checkIntegrity_iff.mp hcheck
    cases hset : BTreesMods.setOrder treeType (headerOf content).order (headerOf content).recSize with
    | ok params => exact absurd ⟨params, hfields.1, hfields.2.1, hfields.2.2, hset⟩ hbad
    | error e =>
      have hrun : setOrder (headerOf content).order (headerOf content).recSize
          (accepted treeType content default) = (.error e, accepted treeType content default) :=
        setOrder_error hset
      rw [if_neg (by simp [hcheck])]
      exact ⟨e, _, StreamM.bind_error hrun⟩
  · rw [if_pos (by simpa using hcheck)]
    exact ⟨_, _, rfl⟩

/-- A file whose header is accepted gets as far as the other fields. -/
theorem loadTree_accepts (pl : Platform) (h : 8 ≤ content.length)
    (hdr : HeaderAccepted treeType content params) :
    loadTree pl (opening treeType content) = loadFields pl (accepted treeType content params) := by
  have hcheck : (headerOf content).checkIntegrity = true :=
    checkIntegrity_iff.mpr ⟨hdr.1, hdr.2.1, hdr.2.2.1⟩
  have hrun : setOrder (headerOf content).order (headerOf content).recSize
      (accepted treeType content default) = (.ok (), accepted treeType content params) :=
    setOrder_ok hdr.2.2.2
  rw [loadTree_run h, if_neg (by simp [hcheck])]
  exact StreamM.bind_ok hrun

theorem bytesAt_header {s : FileStream} (hbyte : s.byte = (FileStream.openExisting content).byte)
    (hdr : HeaderAccepted treeType content params) :
    s.bytesAt 0 8 = leBytes 4 VALID_SIGN ++ leBytes 2 (headerOf content).order.toNat ++
      leBytes 2 (headerOf content).recSize.toNat := by
  have hfield (ofs n : ℕ) :
      (FileStream.openExisting content).bytesAt ofs n = leBytes n (fieldAt content ofs n) := by
    have := leBytes_leNat ((FileStream.openExisting content).bytesAt ofs n)
    rw [FileStream.length_bytesAt] at this
    exact this.symm
  have htwo (ofs : ℕ) : (UInt16.ofNat (fieldAt content ofs 2)).toNat = fieldAt content ofs 2 := by
    have := leNat_lt ((FileStream.openExisting content).bytesAt ofs 2)
    rw [FileStream.length_bytesAt] at this
    exact UInt16.toNat_ofNat_of_lt' this
  have hsplit : s.bytesAt 0 8 = (FileStream.openExisting content).bytesAt 0 4 ++
      (FileStream.openExisting content).bytesAt 4 2 ++
      (FileStream.openExisting content).bytesAt 6 2 := by
    simp only [FileStream.bytesAt, hbyte]
    rfl
  rw [hsplit, hfield, hfield, hfield, hdr.1]
  show _ = leBytes 4 VALID_SIGN ++ leBytes 2 (UInt16.ofNat (fieldAt content 4 2)).toNat ++
    leBytes 2 (UInt16.ofNat (fieldAt content 6 2)).toNat
  rw [htwo, htwo]

/-- `loadTree` returns with a usable stream exactly for a loadable file, and then the object has the
values of `setOrder` and the bytes of the file. -/
theorem loadTree_opened_iff :
    (∃ u, loadTree pl (opening treeType content) = (.ok (), u) ∧ u.isOpened = true ∧ HeaderPassed u) ↔
      Loadable pl treeType content := by
  constructor
  · rintro ⟨u, hrun, hopen, -⟩
    have hno {e : Err} {v : StreamTree}
        (h : loadTree pl (opening treeType content) = (.error e, v)) : False := by
      rw [hrun] at h
      cases h
    by_cases hlen : content.length < 8
    · obtain ⟨e, v, h⟩ := loadTree_short pl treeType hlen
      exact (hno h).elim
    by_cases hhdr : ∃ params, HeaderAccepted treeType content params
    case neg =>
      obtain ⟨e, v, h⟩ := loadTree_rejects pl (Nat.not_lt.mp hlen) hhdr
      exact (hno h).elim
    obtain ⟨params, hdr⟩ := hhdr
    have hfields := loadTree_accepts pl (Nat.not_lt.mp hlen) hdr
    by_cases hshort : content.length < 16
    · obtain ⟨e, v, h⟩ := loadFields_short pl treeType params hshort
      exact (hno (hfields.trans h)).elim
    rw [loadFields_run (Nat.not_lt.mp hshort)] at hfields
    by_cases hroot : (counted treeType content params).rootPageNum = 0 ∨
        (counted treeType content params).rootPageNum > (counted treeType content params).lastPageNum
    · obtain ⟨e, v, h⟩ := loadRootPage_error hroot
      exact (hno (hfields.trans (StreamM.bind_error h))).elim
    rw [not_or] at hroot
    have hload := hfields.trans
      (StreamM.bind_ok (loadRootPage_run hroot.1 (UInt32.not_lt.mp hroot.2)))
    rw [hrun] at hload
    cases hload
    have hin := loadFreePagesCounter_opened_iff.mp hopen
    exact ⟨Nat.not_lt.mp hshort, params, hdr, hroot.1, UInt32.not_lt.mp hroot.2, hin⟩
  · rintro ⟨hlen, params, hdr, h0, hle, hin⟩
    have hload := ((loadTree_accepts pl (by omega) hdr).trans (loadFields_run hlen)).trans
      (StreamM.bind_ok (loadRootPage_run h0 hle))
    refine ⟨_, hload, loadFreePagesCounter_opened_iff.mpr hin, (headerOf content).order,
      (headerOf content).recSize, ?_, hdr.2.1, hdr.2.2.1, hdr.2.2.2⟩
    refine bytesAt_header ?_ hdr
    exact (FileStream.byte_read_seek 4).trans (FileStream.byte_read_seek params.nodePageSize)

end StreamTree

/-! ## The C interface -/

/-- `open` is fine exactly on a file that cannot be opened or is loadable: an exception of `loadTree`
reaches the C interface as a `std::exception`, and a read over the end of the file only sets the fail
state. -/
theorem openTree_fine_iff (pl : Platform) (treeType : TreeType) (file : Option (List UInt8)) :
    (CApi.openTree pl treeType file).Fine ↔
      file = none ∨ ∃ content, file = some content ∧ Loadable pl treeType content := by
  cases file with
  | none => exact ⟨fun _ => Or.inl rfl, fun _ => trivial⟩
  | some content =>
    have hloadable : (some content = none ∨ ∃ c, some content = some c ∧ Loadable pl treeType c) ↔
        Loadable pl treeType content := by
      simp
    rw [hloadable, ← loadTree_opened_iff]
    cases hrun : StreamTree.loadTree pl (opening treeType content) with
    | mk r u =>
      have hload : CApi.openTree pl treeType (some content) = CApi.guarded (match (r, u) with
          | (.ok (), t) => (.ok (), t)
          | (.error _, t) => (.error .exception, { t with stream := t.stream.close })) := by
        rw [← hrun]
        rfl
      rw [hload]
      cases r with
      | error e =>
        constructor
        · intro h
          exact h.elim
        · rintro ⟨v, h, -⟩
          cases h
      | ok r =>
        constructor
        · rintro ⟨hopen, hpassed⟩
          exact ⟨u, rfl, hopen, hpassed⟩
        · rintro ⟨v, h, hopen, hpassed⟩
          cases h
          exact ⟨hopen, hpassed⟩

theorem createInternal_fresh (pl : Platform) (uninit : UInt32) (treeType : TreeType)
    (order keySize : UInt16) :
    FileBaseBTree.createInternal pl uninit (StreamTree.fresh treeType) order keySize true =
      match StreamTree.createTree pl uninit order keySize (StreamTree.onEmptyFile treeType) with
      | (.ok (), t) => (.ok (), t)
      | (.error e, t) => (.error (.thrown e), t) := rfl

/-- `create` is fine exactly when the order and the key size are at least 1 and the file cannot be
opened or `setOrder` accepts the values: the other errors are not `std::runtime_error`s. -/
theorem create_fine_iff (pl : Platform) (uninit : UInt32) (treeType : TreeType)
    (order keySize : UInt16) (openable : Bool) :
    (CApi.create pl uninit treeType order keySize openable).Fine ↔
      (1 ≤ order ∧ 0 < keySize) ∧
        (openable = true → ∃ params, setOrder treeType order keySize = .ok params) := by
  by_cases hcheck : order < 1 ∨ keySize = 0
  · have hrun : CApi.create pl uninit treeType order keySize openable =
        CApi.Outcome.escaped (.thrown (.invalidArgument
          "Tree order can't be less than 1 and record siaze can't be 0")) := by
      rw [CApi.create, FileBaseBTree.newCreate, FileBaseBTree.checkTreeParams, if_pos hcheck]
      rfl
    rw [hrun]
    constructor
    · intro h
      exact h.elim
    · rintro ⟨⟨horder, hsize⟩, -⟩
      rcases hcheck with h | h
      · exact absurd horder (UInt16.not_le.mpr h)
      · rw [h] at hsize
        exact absurd hsize (by decide)
  · have hpos : 1 ≤ order ∧ 0 < keySize := by
      rw [not_or] at hcheck
      exact ⟨UInt16.not_lt.mp hcheck.1, UInt16.pos_iff_ne_zero.mpr hcheck.2⟩
    have hrun : CApi.create pl uninit treeType order keySize openable = CApi.guarded
        (FileBaseBTree.createInternal pl uninit (StreamTree.fresh treeType) order keySize
          openable) := by
      rw [CApi.create, FileBaseBTree.newCreate, FileBaseBTree.checkTreeParams, if_neg hcheck]
    rw [hrun]
    cases openable with
    | false => exact ⟨fun _ => ⟨hpos, fun h => absurd h (by simp)⟩, fun _ => trivial⟩
    | true =>
      rw [createInternal_fresh]
      rcases setOrder_spec treeType order keySize with ⟨what, herr⟩ | ⟨params, hok, horder, hrec, -⟩
      · have hcreate : StreamTree.createTree pl uninit order keySize
            (StreamTree.onEmptyFile treeType) =
              (.error (.invalidArgument what), StreamTree.onEmptyFile treeType) :=
          StreamM.bind_error (setOrder_error herr)
        rw [hcreate]
        constructor
        · intro h
          exact h.elim
        · rintro ⟨-, h⟩
          obtain ⟨params, hok⟩ := h rfl
          rw [hok] at herr
          cases herr
      · obtain ⟨u, hcreate, hinv, htype, hparams, -, hheader⟩ := createTree_spec pl uninit
          (t := StreamTree.onEmptyFile treeType) rfl ⟨rfl, rfl⟩ rfl rfl rfl hok
        rw [hcreate]
        rw [headerBytes, horder, hrec] at hheader
        refine ⟨fun _ => ⟨hpos, fun _ => ⟨params, hok⟩⟩, fun _ => ⟨isOpened_of_good hinv.hasStream
          hinv.good, order, keySize, hheader, hpos.1, hpos.2, ?_⟩⟩
        rw [htype, hparams]
        exact hok

/-- For every file and all parameters, when `open` and `create` return normally and leave a null
pointer or an open tree whose header has passed the checks. -/
theorem capi_returns_iff (pl : Platform) (uninit : UInt32) (treeType : TreeType) :
    (∀ file : Option (List UInt8), (CApi.openTree pl treeType file).Fine ↔
      file = none ∨ ∃ content, file = some content ∧ Loadable pl treeType content) ∧
    (∀ (order keySize : UInt16) (openable : Bool),
      (CApi.create pl uninit treeType order keySize openable).Fine ↔
        (1 ≤ order ∧ 0 < keySize) ∧
          (openable = true → ∃ params, setOrder treeType order keySize = .ok params)) :=
  ⟨openTree_fine_iff pl treeType, create_fine_iff pl uninit treeType⟩

/-- Opening an empty file lets an exception out, and so does creating a B-tree of order 1. -/
theorem capi_lets_exceptions_out :
    ¬ (CApi.openTree .linux .bTree (some [])).Fine ∧
      ¬ (CApi.create .linux 0 .bTree 1 1 true).Fine := by
  constructor
  · intro h
    exact h
  · intro h
    exact h

end BTreesMods
