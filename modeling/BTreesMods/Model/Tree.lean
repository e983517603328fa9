import BTreesMods.Model.Page

/-!
# Trees and their storage

Model of the fields of `BaseBTree` and its three derived classes, of `setOrder`, and of the page
storage (`btree.hpp`, lines 64–117, 609–889, 1405–1432, 2077–2110, 2609–2614).

The stream is the stored header, page counter, root page number, pages, and the list of free page
numbers that the code keeps after the last page, as an ideal stack whose head is the number marked
free last. Reads return what was written last. That is what the bytes of the file do below 4 GiB, if
`unsigned long` has 32 bits or no page is marked free while the list is empty (`IdealStorage`); with
64 bits `markPageFree` on an empty list writes the number 4 GiB behind its place
(`freeList_not_stack_linux`). The stream is ready throughout
(`checkForOpenStream`). Of the two statistics that no function reads, `_diskOperationsCount` is left out and
`_maxSearchDepth` is kept in `search` only.
-/

namespace BTreesMods

/-- `BaseBTree::TreeType`. -/
inductive TreeType
  | bTree
  | bPlusTree
  | bStarTree
  | bStarPlusTree
deriving DecidableEq, Repr

/-- The values that `setOrder` computes. A field that a class does not have is 0; `slots` is the
factor of `_recSize` in `_keysSize`. -/
structure Params where
  order : ℕ
  recSize : ℕ
  minKeys : ℕ
  maxKeys : ℕ
  minLeafKeys : ℕ := 0
  maxLeafKeys : ℕ := 0
  maxRootKeys : ℕ := 0
  leftSplitProductKeys : ℕ := 0
  middleSplitProductKeys : ℕ := 0
  rightSplitProductKeys : ℕ := 0
  shortRightSplitProductKeys : ℕ := 0
  middleLeafSplitProductKeys : ℕ := 0
  slots : ℕ
  keysSize : ℕ
  cursorsOfs : ℕ
  nodePageSize : ℕ
deriving DecidableEq, Repr, Inhabited

/-- `MAX_KEYS_NUM`. -/
def MAX_KEYS_NUM : ℕ := 32767

/-- `KEYS_OFS`. -/
def KEYS_OFS : ℕ := 2

/-- `CURSOR_SZ`. -/
def CURSOR_SZ : ℕ := 4

/-- The value of an expression of the 32-bit type `UInt`. -/
def toUInt (n : ℕ) : ℕ := n % 2 ^ 32

/-- The last three assignments of every `setOrder`. -/
def Params.withLayout (p : Params) : Params :=
  let keysSize := toUInt (p.recSize * p.slots)
  let cursorsOfs := toUInt (keysSize + KEYS_OFS)
  { p with
    keysSize := keysSize
    cursorsOfs := cursorsOfs
    nodePageSize := toUInt (cursorsOfs + CURSOR_SZ * (p.slots + 1)) }

/-- `BaseBTree::setOrder` (lines 870–889). -/
def BaseBTree.setOrder (order recSize : UInt16) : Except Err Params :=
  let maxKeys := 2 * order.toNat - 1
  if order < 2 then .error (.invalidArgument "Order should not be the less than 2")
  else if maxKeys > MAX_KEYS_NUM then .error (.invalidArgument
    "For a given B-tree order, there is an excess of the maximum number of keys")
  else .ok (Params.withLayout {
    order := order.toNat, recSize := recSize.toNat
    minKeys := order.toNat - 1, maxKeys := maxKeys
    slots := maxKeys, keysSize := 0, cursorsOfs := 0, nodePageSize := 0 })

/-- `BaseBPlusTree::setOrder` (lines 1405–1427). -/
def BaseBPlusTree.setOrder (order recSize : UInt16) : Except Err Params :=
  let minKeys := order.toNat - 1
  let maxKeys := 2 * order.toNat - 1
  if order < 2 then .error (.invalidArgument "Order should not be the less than 2")
  else if maxKeys + 1 > MAX_KEYS_NUM then .error (.invalidArgument
    "For a given B+-tree order, there is an excess of the maximum number of keys")
  else .ok (Params.withLayout {
    order := order.toNat, recSize := recSize.toNat
    minKeys := minKeys, maxKeys := maxKeys
    minLeafKeys := minKeys + 1, maxLeafKeys := maxKeys + 1
    slots := maxKeys + 1, keysSize := 0, cursorsOfs := 0, nodePageSize := 0 })

/-- `BaseBStarTree::setOrder` (lines 2077–2105). -/
def BaseBStarTree.setOrder (order recSize : UInt16) : Except Err Params :=
  let minKeys := (2 * order.toNat - 2) / 3
  let maxKeys := order.toNat
  let maxRootKeys := 2 * minKeys + 1
  let rightSplitProductKeys := (2 * order.toNat + 1) / 3
  if order < 4 then .error (.invalidArgument "Order should not be the less than 4")
  else if max maxKeys maxRootKeys > MAX_KEYS_NUM then .error (.invalidArgument
    "For a given B*-tree order, there is an excess of the maximum number of keys")
  else .ok (Params.withLayout {
    order := order.toNat, recSize := recSize.toNat
    minKeys := minKeys, maxKeys := maxKeys, maxRootKeys := maxRootKeys
    leftSplitProductKeys := (2 * order.toNat - 1) / 3
    middleSplitProductKeys := 2 * order.toNat / 3
    rightSplitProductKeys := rightSplitProductKeys
    shortRightSplitProductKeys := rightSplitProductKeys - 1
    slots := max maxKeys maxRootKeys, keysSize := 0, cursorsOfs := 0, nodePageSize := 0 })

/-- `BaseBStarPlusTree::setOrder` (lines 2609–2614). -/
def BaseBStarPlusTree.setOrder (order recSize : UInt16) : Except Err Params := do
  let p ← BaseBStarTree.setOrder order recSize
  return { p with middleLeafSplitProductKeys := p.middleSplitProductKeys + 1 }

/-- The virtual `setOrder`. -/
def setOrder : TreeType → UInt16 → UInt16 → Except Err Params
  | .bTree => BaseBTree.setOrder
  | .bPlusTree => BaseBPlusTree.setOrder
  | .bStarTree => BaseBStarTree.setOrder
  | .bStarPlusTree => BaseBStarPlusTree.setOrder

/-- `IComparator`. -/
structure Comparator (κ : Type) where
  compare : κ → κ → Bool
  isEqual : κ → κ → Bool

/-- What stays fixed while a tree is open: its class, the values of `setOrder` and the
comparator. -/
structure Cfg (κ : Type) extends Params, Comparator κ where
  treeType : TreeType

/-- `BaseBTree::PageWrapper`: the page number and the bytes in memory. -/
structure PageWrapper (κ : Type) where
  pageNum : ℕ
  data : Page κ

/-- The stored tree. -/
structure Stream (κ : Type) where
  order : UInt16
  recSize : UInt16
  pageCounter : ℕ
  rootPageNum : ℕ
  page : ℕ → Page κ
  freePagesCounter : ℕ
  freePages : List ℕ

/-- The fields of `BaseBTree` that change while the tree is open. `noReturn` are the values that
calls of `BaseBStarPlusTree::remove` return when they reach its end without a `return`. -/
structure BTree (κ : Type) where
  rootPage : PageWrapper κ
  lastPageNum : ℕ
  rootPageNum : ℕ
  freePagesCounter : ℕ
  stream : Stream κ
  noReturn : ℕ → Bool

/-- A member function of the tree. -/
abbrev TreeM (κ α : Type) := StateT (BTree κ) (Except Err) α

/-- A `PageWrapper&`: the member `_rootPage`, or a local variable with its value. -/
inductive PageRef (κ : Type)
  | rootPage
  | local (pw : PageWrapper κ)

section

variable {κ : Type}

/-- The wrapper that a reference refers to. -/
def PageRef.load : PageRef κ → TreeM κ (PageWrapper κ)
  | .rootPage => do return (← get).rootPage
  | .local pw => return pw

/-- Assigns to the wrapper that a reference refers to. -/
def PageRef.store : PageRef κ → PageWrapper κ → TreeM κ (PageRef κ)
  | .rootPage, pw => do
    modify fun s => { s with rootPage := pw }
    return .rootPage
  | .local _, pw => return .local pw

/-- Runs a function on page bytes. -/
def onPages {α : Type} (x : Except Err α) : TreeM κ α := fun s => x.map fun a => (a, s)

/-! ## Reading and writing pages -/

/-- `readPage` (lines 64–72). -/
def readPage (pnum : ℕ) : TreeM κ (PageWrapper κ) := do
  let s ← get
  if pnum = 0 ∨ pnum > s.lastPageNum then
    throw (.invalidArgument "Can't read a non-existing page")
  else return ⟨pnum, s.stream.page pnum⟩

/-- `PageWrapper::readPageFromChild` (lines 1080–1089). -/
def readPageFromChild (T : Cfg κ) (pw : PageWrapper κ) (chNum : ℕ) : TreeM κ (PageWrapper κ) := do
  let cur ← onPages (pw.data.getCursor T.slots chNum)
  if cur = 0 then throw (.invalidArgument "Cursor does not point to a existing node/page")
  else readPage cur

/-- The bytes of page `pnum` in the stream. -/
def Stream.setPage (st : Stream κ) (pnum : ℕ) (data : Page κ) : Stream κ :=
  { st with page := Function.update st.page pnum data }

/-- `PageWrapper::writePage` and `writePage` (lines 74–83 and 1091–1097). -/
def writePage (pw : PageWrapper κ) : TreeM κ Unit := do
  let s ← get
  if pw.pageNum = 0 then throw (.runtimeError "Page number not set. Can't write")
  else if pw.pageNum > s.lastPageNum then
    throw (.invalidArgument "Can't write a non-existing page")
  else set { s with stream := s.stream.setPage pw.pageNum pw.data }

/-! ## Allocating and freeing pages -/

/-- `writePageCounter` (lines 835–840). -/
def writePageCounter : TreeM κ Unit :=
  modify fun s => { s with stream := { s.stream with pageCounter := s.lastPageNum } }

/-- `writeRootPageNum` (lines 849–854). -/
def writeRootPageNum : TreeM κ Unit :=
  modify fun s => { s with stream := { s.stream with rootPageNum := s.rootPageNum } }

/-- `writeFreePagesCounter` (lines 634–639). -/
def writeFreePagesCounter : TreeM κ Unit :=
  modify fun s => { s with stream := { s.stream with freePagesCounter := s.freePagesCounter } }

/-- `allocPageInternal` (lines 700–721). -/
def allocPageInternal (data : Page κ) : TreeM κ Unit := do
  modify fun s => { s with
    lastPageNum := s.lastPageNum + 1
    stream := s.stream.setPage (s.lastPageNum + 1) data }
  writePageCounter

/-- `allocPageUsingFreePagesInternal` (lines 650–657), with the number that `getLastFreePageNum`
(lines 641–648) took from the stack. -/
def allocPageUsingFreePagesInternal (data : Page κ) (freePageNum : ℕ) (rest : List ℕ) :
    TreeM κ Unit :=
  modify fun s => { s with
    stream := { s.stream.setPage freePageNum data with freePages := rest } }

/-- `allocPage` and `allocPageUsingFreePages` (lines 85–101 and 609–625). -/
def allocPage [Inhabited κ] (keysNum : ℕ) (isLeaf : Bool) : TreeM κ (PageWrapper κ) := do
  let data := Page.cleared keysNum isLeaf
  let s ← get
  if s.freePagesCounter = 0 then do
    allocPageInternal data
    writeFreePagesCounter
    return ⟨s.lastPageNum + 1, data⟩
  else match s.stream.freePages with
    | [] => throw .overrun
    | lastFree :: rest => do
      allocPageUsingFreePagesInternal data lastFree rest
      modify fun s => { s with freePagesCounter := s.freePagesCounter - 1 }
      writeFreePagesCounter
      return ⟨lastFree, data⟩

/-- `markPageFree` (lines 674–685), of the ideal stack. -/
def markPageFree (pageNum : ℕ) : TreeM κ Unit := do
  let s ← get
  if pageNum > s.lastPageNum then throw (.invalidArgument "No page with a such number")
  else do
    set { s with
      freePagesCounter := s.freePagesCounter + 1
      stream := { s.stream with freePages := pageNum :: s.stream.freePages } }
    writeFreePagesCounter

/-! ## Memory -/

/-- `new Byte[keysNum * _recSize]`: the size is an `int`, and `new` throws when it overflows to a negative
number. -/
def newKeys (T : Cfg κ) (keysNum : ℕ) : TreeM κ Unit :=
  if keysNum * T.recSize < 2 ^ 31 then return () else throw .badArrayNewLength

/-! ## The root page -/

/-- `PageWrapper::isRoot`. -/
def isRoot (pw : PageWrapper κ) : TreeM κ Bool := do
  return (← get).rootPageNum == pw.pageNum

/-- `PageWrapper::setAsRoot(true)` and `setRootPageNum` (lines 863–868 and 1067–1078). -/
def setAsRoot (pw : PageWrapper κ) : TreeM κ Unit := do
  modify fun s => { s with rootPageNum := pw.pageNum }
  if pw.pageNum = 0 then
    throw (.runtimeError "Can't set a page as root until allocate a page in a file")
  else writeRootPageNum

/-- `loadRootPage` (lines 781–789). -/
def loadRootPage : TreeM κ Unit := do
  let s ← get
  if s.rootPageNum = 0 then throw (.runtimeError "Root page is not defined")
  else do
    let pw ← readPage s.rootPageNum
    modify fun s => { s with rootPage := pw, rootPageNum := pw.pageNum }

/-- The virtual `isFull` (lines 776–779, 1429–1432 and 2107–2110). -/
def isFull (T : Cfg κ) (pw : PageWrapper κ) : TreeM κ Bool := do
  let isRoot ← isRoot pw
  let keysNum := pw.data.keysNum
  return match T.treeType with
    | .bTree => keysNum == T.maxKeys
    | .bPlusTree => (!pw.data.isLeaf && keysNum == T.maxKeys) ||
        (pw.data.isLeaf && keysNum == T.maxLeafKeys)
    | .bStarTree | .bStarPlusTree => (!isRoot && keysNum == T.maxKeys) ||
        (isRoot && keysNum == T.maxRootKeys)

/-! ## Creating and loading a tree -/

/-- A `BaseBTree` object and an empty stream, before `createTree` and after its `setOrder` and
`writeHeader`. -/
def BTree.fresh [Inhabited κ] (order recSize : UInt16) (noReturn : ℕ → Bool) : BTree κ where
  rootPage := ⟨0, Page.cleared 0 false⟩
  lastPageNum := 0
  rootPageNum := 0
  freePagesCounter := 0
  stream := { order := order, recSize := recSize, pageCounter := 0, rootPageNum := 0
              page := fun _ => Page.cleared 0 false, freePagesCounter := 0, freePages := [] }
  noReturn := noReturn

/-- `createTree` after its `setOrder` (lines 791–813). -/
def createTree [Inhabited κ] : TreeM κ Unit := do
  writePageCounter
  writeRootPageNum
  let rootPage ← allocPage 0 true
  modify fun s => { s with rootPage := rootPage }
  setAsRoot rootPage
  writeFreePagesCounter

/-- `loadTree` (lines 741–774) on a stream with a valid signature: the values of `setOrder` and
the tree. -/
def loadTree (treeType : TreeType) (noReturn : ℕ → Bool) (old : PageWrapper κ) (st : Stream κ) :
    Except Err (Params × BTree κ) := do
  if st.order < 1 ∨ st.recSize = 0 then
    throw (.runtimeError "Stream is not a valid btree B-tree file")
  else do
    let params ← setOrder treeType st.order st.recSize
    let s : BTree κ :=
      { rootPage := old, lastPageNum := st.pageCounter, rootPageNum := st.rootPageNum
        freePagesCounter := 0, stream := st, noReturn := noReturn }
    let (_, s) ← loadRootPage s
    return (params, { s with freePagesCounter := st.freePagesCounter })

end

end BTreesMods
