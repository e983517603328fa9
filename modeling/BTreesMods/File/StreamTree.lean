import BTreesMods.Lib.Bytes
import BTreesMods.Lib.FileStream
import BTreesMods.Model.Tree

/-!
# The tree's file, byte by byte

Model of the functions of `BaseBTree` that lay out the tree's file (`btree.hpp`, lines 56–101 and
609–889, and the constants of `btree.h`, lines 70–112): the header, the page counter and the root page
number, the pages, and after the last page the counter and the numbers of the free pages.

The machine types are kept: `UInt` has 32 bits, and `unsigned long` has the width of the platform.
A local variable that is read from the stream and not initialised before has the value `uninit` when
the read brings no bytes.
-/

namespace BTreesMods

/-- The platforms that the project is built for, by the width of their `unsigned long`. -/
inductive Platform
  | windows
  | linux
deriving DecidableEq, Repr

/-- The value of an expression of the type `ULong`. -/
def Platform.ulong : Platform → ℕ → ℕ
  | .windows, n => n % 2 ^ 32
  | .linux, n => n % 2 ^ 64

/-- A `BaseBTree` object and the stream that `_stream` points to, if `hasStream`. The bytes of
`_rootPage` are `rootPage`. -/
structure StreamTree where
  treeType : TreeType
  params : Params
  hasStream : Bool
  lastPageNum : UInt32
  rootPageNum : UInt32
  freePagesCounter : UInt32
  rootPage : List UInt8
  rootPagePageNum : UInt32
  stream : FileStream

/-- A member function: it returns or throws, and either way leaves a state behind. -/
abbrev StreamM (α : Type) := ExceptT Err (StateM StreamTree) α

theorem StreamM.bind_ok {α β : Type} {x : StreamM α} {f : α → StreamM β} {t u : StreamTree} {a : α}
    (h : x t = (.ok a, u)) : (x >>= f) t = f a u := by
  change (StateT.bind x (ExceptT.bindCont f)) t = f a u
  simp only [StateT.bind, h, ExceptT.bindCont]
  rfl

theorem StreamM.bind_error {α β : Type} {x : StreamM α} {f : α → StreamM β} {t u : StreamTree}
    {e : Err} (h : x t = (.error e, u)) : (x >>= f) t = (.error e, u) := by
  change (StateT.bind x (ExceptT.bindCont f)) t = (.error e, u)
  simp only [StateT.bind, h, ExceptT.bindCont]
  rfl

theorem StreamM.bind_congr {α β : Type} {x : StreamM α} (f : α → StreamM β) {t u : StreamTree}
    (h : x t = x u) : (x >>= f) t = (x >>= f) u := by
  change (StateT.bind x (ExceptT.bindCont f)) t = (StateT.bind x (ExceptT.bindCont f)) u
  simp only [StateT.bind, h]

namespace StreamTree

variable (pl : Platform) (uninit : UInt32) (t : StreamTree)

/-- The constructor of `BaseBTree` (lines 25–38), with a stream that is not open yet. -/
def fresh (treeType : TreeType) : StreamTree where
  treeType := treeType
  params := default
  hasStream := false
  lastPageNum := 0
  rootPageNum := 0
  freePagesCounter := 0
  rootPage := []
  rootPagePageNum := 0
  stream := FileStream.closed

/-- `resetBTree` (lines 56–62), without the comparator. -/
def resetBTree : StreamTree :=
  { t with params := { t.params with order := 0, recSize := 0 }, hasStream := false }

/-- `isOpened`. -/
def isOpened : Bool := t.hasStream && !t.stream.failed

/-- `checkForOpenStream` (lines 815–819). -/
def checkForOpenStream : StreamM Unit := do
  if (← get).isOpened then return () else throw (.runtimeError "Stream is not ready")

/-- `getNodePageSize`. -/
def nodePageSize : UInt32 := UInt32.ofNat t.params.nodePageSize

/-! ## Addresses -/

/-- `FIRST_PAGE_OFS`. -/
def FIRST_PAGE_OFS : ℕ := 16

/-- `getPageOfs` (lines 659–662): the product is one of `UInt`s. -/
def getPageOfs (pageNum : UInt32) : ℕ :=
  pl.ulong (FIRST_PAGE_OFS + ((pageNum - 1) * t.nodePageSize).toNat)

/-- `getFreePagesInfoAreaOfs` (lines 664–667). -/
def getFreePagesInfoAreaOfs : ℕ := t.getPageOfs pl (t.lastPageNum + 1)

/-- `getLastFreePageNumOfs` (lines 669–672): the product is one of `UInt`s. -/
def getLastFreePageNumOfs : ℕ :=
  pl.ulong (t.getFreePagesInfoAreaOfs pl + 4 + ((t.freePagesCounter - 1) * 4).toNat)

/-- The offset that `gotoPage` (lines 735–739) computes as a `UInt`. -/
def gotoPageOfs (pnum : UInt32) : ℕ :=
  (UInt32.ofNat FIRST_PAGE_OFS + t.nodePageSize * (pnum - 1)).toNat

/-! ## Fields of the file -/

/-- `seekg` and `write`. -/
def writeAt (ofs : ℕ) (bs : List UInt8) : StreamTree :=
  { t with stream := (t.stream.seek ofs).write bs }

/-- The value of a `UInt` after a `read` into it that brought the bytes `bs`. -/
def readInto (old : UInt32) (bs : List UInt8) : UInt32 :=
  UInt32.ofNat (leNat (bs ++ (leBytes 4 old.toNat).drop bs.length))

/-- `seekg` and `read` into a `UInt`. -/
def readUIntAt (ofs : ℕ) (old : UInt32) : UInt32 × StreamTree :=
  let (bs, stream) := (t.stream.seek ofs).read 4
  (readInto old bs, { t with stream := stream })

/-- `VALID_SIGN`. -/
def VALID_SIGN : ℕ := 0x19979AAA

/-- `writeHeader` (lines 821–826): at the current position. -/
def writeHeader : StreamTree :=
  let hdr := leBytes 4 VALID_SIGN ++ leBytes 2 t.params.order ++ leBytes 2 t.params.recSize
  { t with stream := t.stream.write hdr }

/-- `writePageCounter` (lines 835–840). -/
def writePageCounter : StreamTree := t.writeAt 8 (leBytes 4 t.lastPageNum.toNat)

/-- `readPageCounter` (lines 842–847). -/
def readPageCounter : StreamTree :=
  let (n, t) := t.readUIntAt 8 t.lastPageNum
  { t with lastPageNum := n }

/-- `writeRootPageNum` (lines 849–854). -/
def writeRootPageNum : StreamTree := t.writeAt 12 (leBytes 4 t.rootPageNum.toNat)

/-- `readRootPageNum` (lines 856–861). -/
def readRootPageNum : StreamTree :=
  let (n, t) := t.readUIntAt 12 t.rootPageNum
  { t with rootPageNum := n }

/-- `loadFreePagesCounter` (lines 627–632). -/
def loadFreePagesCounter : StreamTree :=
  let (n, t) := t.readUIntAt (t.getFreePagesInfoAreaOfs pl) t.freePagesCounter
  { t with freePagesCounter := n }

/-- `writeFreePagesCounter` (lines 634–639). -/
def writeFreePagesCounter : StreamTree :=
  t.writeAt (t.getFreePagesInfoAreaOfs pl) (leBytes 4 t.freePagesCounter.toNat)

/-- `getLastFreePageNum` (lines 641–648). -/
def getLastFreePageNum : UInt32 × StreamTree := t.readUIntAt (t.getLastFreePageNumOfs pl) uninit

/-! ## Allocating and freeing pages -/

/-- The bytes of a page after `clear` and `setKeyNumLeaf` (lines 927–941). -/
def clearedPage (keysNum : UInt16) (isLeaf : Bool) : List UInt8 :=
  slot t.params.nodePageSize (leBytes 2 (if isLeaf then keysNum ||| 0x8000 else keysNum).toNat)

/-- `allocPageInternal` (lines 700–721). -/
def allocPageInternal (keysNum : UInt16) (isLeaf : Bool) : StreamTree :=
  let t := t.writeAt (t.getFreePagesInfoAreaOfs pl) (t.clearedPage keysNum isLeaf)
  let t := { t with lastPageNum := t.lastPageNum + 1 }
  t.writePageCounter

/-- `allocPageUsingFreePagesInternal` (lines 650–657). -/
def allocPageUsingFreePagesInternal (keysNum : UInt16) (isLeaf : Bool) (freePageNum : UInt32) :
    StreamTree :=
  t.writeAt (t.getPageOfs pl freePageNum) (t.clearedPage keysNum isLeaf)

/-- `allocPageUsingFreePages` (lines 609–625): the number of the page and the state. -/
def allocPageUsingFreePages (keysNum : UInt16) (isLeaf : Bool) : UInt32 × StreamTree :=
  if t.freePagesCounter = 0 then
    let t := t.allocPageInternal pl keysNum isLeaf
    let t := t.writeFreePagesCounter pl
    (t.lastPageNum, t)
  else
    let (lastFree, t) := t.getLastFreePageNum pl uninit
    let t := t.allocPageUsingFreePagesInternal pl keysNum isLeaf lastFree
    let t := { t with freePagesCounter := t.freePagesCounter - 1 }
    let t := t.writeFreePagesCounter pl
    (lastFree, t)

/-- `allocPage` (lines 85–101). -/
def allocPage (keysNum : UInt16) (isLeaf : Bool) : StreamM UInt32 := do
  checkForOpenStream
  modifyGet fun t => t.allocPageUsingFreePages pl uninit keysNum isLeaf

/-- `markPageFree` (lines 674–685). -/
def markPageFree (pageNum : UInt32) : StreamM Unit := do
  if pageNum > (← get).lastPageNum then
    throw (.invalidArgument "No page with a such number")
  else do
    modify fun t => t.writeAt (pl.ulong (t.getLastFreePageNumOfs pl + 4)) (leBytes 4 pageNum.toNat)
    modify fun t => { t with freePagesCounter := t.freePagesCounter + 1 }
    modify fun t => t.writeFreePagesCounter pl

/-! ## Creating and loading a tree -/

/-- `setOrder` (lines 870–889, 1405–1427, 2077–2105 and 2609–2614), with `reallocWorkPages`. -/
def setOrder (order recSize : UInt16) : StreamM Unit := do
  match BTreesMods.setOrder (← get).treeType order recSize with
  | .error e => throw e
  | .ok params => modify fun t => { t with params := params, rootPage := [] }

theorem setOrder_ok {t : StreamTree} {order recSize : UInt16} {params : Params}
    (h : BTreesMods.setOrder t.treeType order recSize = .ok params) :
    setOrder order recSize t = (.ok (), { t with params := params, rootPage := [] }) := by
  change (match BTreesMods.setOrder t.treeType order recSize with
    | .error e => throw e
    | .ok params => modify fun t => { t with params := params, rootPage := [] } : StreamM Unit) t = _
  rw [h]
  rfl

theorem setOrder_error {t : StreamTree} {order recSize : UInt16} {e : Err}
    (h : BTreesMods.setOrder t.treeType order recSize = .error e) :
    setOrder order recSize t = (.error e, t) := by
  change (match BTreesMods.setOrder t.treeType order recSize with
    | .error e => throw e
    | .ok params => modify fun t => { t with params := params, rootPage := [] } : StreamM Unit) t = _
  rw [h]
  rfl

/-- `PageWrapper::setAsRoot(true)` and `setRootPageNum` on `_rootPage` (lines 863–868 and
1067–1078). -/
def setAsRoot : StreamM Unit := do
  modify fun t => { t with rootPageNum := t.rootPagePageNum }
  if (← get).rootPagePageNum = 0 then
    throw (.runtimeError "Can't set a page as root until allocate a page in a file")
  else modify writeRootPageNum

/-- `createRootPage` (lines 809–813). -/
def createRootPage : StreamM Unit := do
  let pageNum ← allocPage pl uninit 0 true
  modify fun t => { t with rootPage := t.clearedPage 0 true, rootPagePageNum := pageNum }
  setAsRoot

/-- `createTree` (lines 791–807). -/
def createTree (order recSize : UInt16) : StreamM Unit := do
  setOrder order recSize
  modify writeHeader
  modify writePageCounter
  modify writeRootPageNum
  createRootPage pl uninit
  modify (writeFreePagesCounter pl)

/-- `readPage` into `_rootPage` (lines 64–72 and 723–727). -/
def readRootPage (pnum : UInt32) : StreamM Unit := do
  checkForOpenStream
  if pnum = 0 ∨ pnum > (← get).lastPageNum then
    throw (.invalidArgument "Can't read a non-existing page")
  else modify fun t =>
    let (bs, stream) := (t.stream.seek (t.gotoPageOfs pnum)).read t.params.nodePageSize
    { t with rootPage := bs, rootPagePageNum := pnum, stream := stream }

/-- `loadRootPage` (lines 781–789). -/
def loadRootPage : StreamM Unit := do
  let t ← get
  if t.rootPageNum = 0 then throw (.runtimeError "Root page is not defined")
  else do
    readRootPage t.rootPageNum
    modify fun t => { t with rootPageNum := t.rootPagePageNum }

/-- `Header` (`btree.h`, lines 54–71). -/
structure Header where
  sign : ℕ
  order : UInt16
  recSize : UInt16

/-- `checkIntegrity` (lines 22–25). -/
def Header.checkIntegrity (hdr : Header) : Bool :=
  decide (hdr.sign = VALID_SIGN) && decide (hdr.order ≥ 1) && decide (hdr.recSize > 0)

/-- The header that bytes of the file stand for. -/
def Header.ofBytes (bs : List UInt8) : Header where
  sign := leNat (bs.take 4)
  order := UInt16.ofNat (leNat ((bs.drop 4).take 2))
  recSize := UInt16.ofNat (leNat (bs.drop 6))

/-- `readHeader` (lines 828–833). -/
def readHeader : StreamM Header :=
  modifyGet fun t =>
    let (bs, stream) := (t.stream.seek 0).read 8
    (Header.ofBytes bs, { t with stream := stream })

/-- `loadTree` after `setOrder` (lines 758–772). -/
def loadFields : StreamM Unit := do
  modify readPageCounter
  modify readRootPageNum
  if (← get).stream.failed then
    throw (.runtimeError "Can't read necessary fields. File corrupted")
  else do
    loadRootPage
    modify (loadFreePagesCounter pl)

/-- `loadTree` (lines 741–774). -/
def loadTree : StreamM Unit := do
  let hdr ← readHeader
  if (← get).stream.failed then throw (.runtimeError "Can't read header")
  else if !hdr.checkIntegrity then
    throw (.runtimeError "Stream is not a valid btree B-tree file")
  else do
    setOrder hdr.order hdr.recSize
    loadFields pl

end StreamTree

end BTreesMods
