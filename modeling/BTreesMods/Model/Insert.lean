import BTreesMods.Model.Split

/-!
# Insertion

Model of `insert`, of the two `insertNonFull` (`btree.hpp`, lines 119–176 and 1438–1517) and of the
functions that share keys with a sibling (lines 1705–1825 and 2451–2560).

The C++ functions recurse along a path of pages. The model gives the recursion as many steps as the
tree has pages and one more; a recursion that needs more would be on a path with a cycle.
-/

namespace BTreesMods

variable {κ : Type}

/-- The value of a difference that is assigned to a `UShort`. -/
def subUShort (a b : ℕ) : ℕ := (a + 2 ^ 16 - b) % 2 ^ 16

/-! ## Page bytes -/

/-- `for( ; i >= 0 && c->compare(k, getKey(i)); --i) copyKey(getKey(i + 1), getKey(i));` from
`i + 1 = n`: the final `i + 1` and the page. -/
def Page.makeRoom (slots : ℕ) (compare : κ → κ → Bool) (k : κ) :
    ℕ → Page κ → Except Err (ℕ × Page κ)
  | 0, pg => .ok (0, pg)
  | n + 1, pg => do
    let key ← pg.getKey slots n
    if compare k key then Page.makeRoom slots compare k n (← pg.moveKey slots (n + 1) n)
    else .ok (n + 1, pg)

/-- The leaf branch of `insertNonFull`. -/
def Page.insertKey (slots : ℕ) (compare : κ → κ → Bool) (k : κ) (pg : Page κ) :
    Except Err (Page κ) := do
  let keysNum := pg.keysNum
  let (i, pg) ← (pg.setKeyNum (keysNum + 1)).makeRoom slots compare k keysNum
  pg.copyKey slots i k

/-- `for( ; i >= 0 && c->compare(k, getKey(i)); --i) ;` from `i + 1 = n`: the final `i + 1`. -/
def Page.upperBound (slots : ℕ) (compare : κ → κ → Bool) (k : κ) (pg : Page κ) :
    ℕ → Except Err ℕ
  | 0 => .ok 0
  | n + 1 => do
    let key ← pg.getKey slots n
    if compare k key then pg.upperBound slots compare k n else .ok (n + 1)

/-- The page bytes of `BaseBStarTree::shareKeysWithLeftChildAndInsert` (lines 1736–1755). -/
def shareLeftPages (slots : ℕ) (node child left : Page κ)
    (iChild newLeftSiblingKeysNum movedKeys childLeftKeys : ℕ) :
    Except Err (Page κ × Page κ × Page κ) := do
  let leftSiblingKeysNum := left.keysNum
  let left := left.setKeyNum newLeftSiblingKeysNum
  let left ← left.copyKey slots leftSiblingKeysNum (← node.getKey slots (iChild - 1))
  let left ← left.copyKeys slots (leftSiblingKeysNum + 1)
    (← child.readKeys slots 0 (subUShort movedKeys 1)) (subUShort movedKeys 1)
  let node ← node.copyKey slots (iChild - 1) (← child.getKey slots (subUShort movedKeys 1))
  let left ← if child.isLeaf then pure left else do
    left.copyCursors slots (leftSiblingKeysNum + 1) (← child.readCursors slots 0 movedKeys)
      movedKeys
  let isLeaf := child.isLeaf
  let child ← forUp (fun j child => child.moveKey slots j (j + movedKeys)) 0 childLeftKeys child
  let child ← if isLeaf then pure child else
    forUp (fun j child => child.moveCursor slots j (j + movedKeys)) 0 (childLeftKeys + 1) child
  return (node, child.setKeyNum childLeftKeys, left)

/-- The page bytes of `BaseBStarTree::shareKeysWithRightChildAndInsert` (lines 1797–1815). -/
def shareRightPages (slots : ℕ) (node child right : Page κ)
    (iChild newRightSiblingKeysNum movedKeys childLeftKeys : ℕ) :
    Except Err (Page κ × Page κ × Page κ) := do
  let right := right.setKeyNum newRightSiblingKeysNum
  let right ← forDown (fun j right => right.moveKey slots (j + movedKeys) j) 0
    (newRightSiblingKeysNum - movedKeys) right
  let right ← if child.isLeaf then pure right else
    forDown (fun j right => right.moveCursor slots (j + movedKeys) j) 0
      (newRightSiblingKeysNum + 1 - movedKeys) right
  let right ← right.copyKey slots (subUShort movedKeys 1) (← node.getKey slots iChild)
  let right ← right.copyKeys slots 0
    (← child.readKeys slots (childLeftKeys + 1) (subUShort movedKeys 1)) (subUShort movedKeys 1)
  let right ← if child.isLeaf then pure right else do
    right.copyCursors slots 0 (← child.readCursors slots (childLeftKeys + 1) movedKeys) movedKeys
  let node ← node.copyKey slots iChild (← child.getKey slots childLeftKeys)
  return (node, child.setKeyNum childLeftKeys, right)

/-- The page bytes of `BaseBStarPlusTree::shareKeysWithLeftChildAndInsert` on leaves
(lines 2484–2491). -/
def shareLeftLeaves (slots : ℕ) (child left : Page κ)
    (newLeftSiblingKeysNum movedKeys childLeftKeys : ℕ) : Except Err (Page κ × Page κ) := do
  let leftSiblingKeysNum := left.keysNum
  let left := left.setKeyNum newLeftSiblingKeysNum
  let left ← left.copyKeys slots leftSiblingKeysNum (← child.readKeys slots 0 movedKeys) movedKeys
  let child ← forUp (fun j child => child.moveKey slots j (j + movedKeys)) 0 childLeftKeys child
  return (child.setKeyNum childLeftKeys, left)

/-- The page bytes of `BaseBStarPlusTree::shareKeysWithRightChildAndInsert` on leaves
(lines 2540–2547). -/
def shareRightLeaves (slots : ℕ) (child right : Page κ)
    (newRightSiblingKeysNum movedKeys childLeftKeys : ℕ) : Except Err (Page κ × Page κ) := do
  let right := right.setKeyNum newRightSiblingKeysNum
  let right ← forDown (fun j right => right.moveKey slots (j + movedKeys) j) 0
    (newRightSiblingKeysNum - movedKeys) right
  let right ← right.copyKeys slots 0 (← child.readKeys slots childLeftKeys movedKeys) movedKeys
  return (child.setKeyNum childLeftKeys, right)

/-! ## Sharing keys with a sibling -/

/-- The new number of keys of a sibling that has `siblingKeysNum` keys and shares with a child that
has `childKeysNum`: `sum / 2 + (sum % 2 == 1 ? 1 : 0)`. -/
def newSiblingKeys (childKeysNum siblingKeysNum : ℕ) : ℕ :=
  let sum := childKeysNum + siblingKeysNum
  sum / 2 + if sum % 2 = 1 then 1 else 0

/-- The checks at the head of the functions that share keys. -/
def shareHead (T : Cfg κ) (child sibling : PageWrapper κ) (what : String) (wrongCursor : Bool)
    (whatCursor : String) : TreeM κ Unit := do
  let childFull ← isFull T child
  let siblingFull ← isFull T sibling
  if !childFull then throw (.invalidArgument "Child that shares keys should be full")
  else if siblingFull then throw (.invalidArgument what)
  else if wrongCursor then throw (.invalidArgument whatCursor)
  else return ()

/-- Writes the three pages of a sharing step, after the assignment to the parent. -/
def writeShared (node : PageRef κ) (nd first second : PageWrapper κ) : TreeM κ (PageRef κ) := do
  let node ← node.store nd
  writePage first
  writePage second
  writePage nd
  return node

/-- `BaseBStarTree::shareKeysWithLeftChildAndInsert` (lines 1705–1764); `insertNonFull` is the
recursive call. -/
def BaseBStarTree.shareKeysWithLeftChildAndInsert (T : Cfg κ)
    (insertNonFull : PageRef κ → TreeM κ Unit) (k : κ) (node : PageRef κ) (iChild : ℕ)
    (child left : PageWrapper κ) : TreeM κ Bool := do
  let nd ← node.load
  shareHead T child left "Left sibling should not be full" (iChild > nd.data.keysNum)
    "Cursor not exists"
  let newLeftSiblingKeysNum := newSiblingKeys child.data.keysNum left.data.keysNum
  let movedKeys := subUShort newLeftSiblingKeysNum left.data.keysNum
  let childLeftKeys := subUShort child.data.keysNum movedKeys
  let firstKey ← onPages (child.data.getKey T.slots 0)
  if newLeftSiblingKeysNum == T.maxKeys && movedKeys == 1 && T.compare k firstKey then
    return false
  else do
    let (ndData, childData, leftData) ← onPages (shareLeftPages T.slots nd.data child.data
      left.data iChild newLeftSiblingKeysNum movedKeys childLeftKeys)
    let child : PageWrapper κ := ⟨child.pageNum, childData⟩
    let left : PageWrapper κ := ⟨left.pageNum, leftData⟩
    let node ← writeShared node ⟨nd.pageNum, ndData⟩ left child
    let nd ← node.load
    let median ← onPages (nd.data.getKey T.slots (iChild - 1))
    if T.compare k median then insertNonFull (.local left) else insertNonFull (.local child)
    return true

/-- `BaseBStarTree::shareKeysWithRightChildAndInsert` (lines 1766–1825). -/
def BaseBStarTree.shareKeysWithRightChildAndInsert (T : Cfg κ)
    (insertNonFull : PageRef κ → TreeM κ Unit) (k : κ) (node : PageRef κ) (iChild : ℕ)
    (child right : PageWrapper κ) : TreeM κ Bool := do
  let nd ← node.load
  shareHead T child right "Right sibling should not be full" (iChild ≥ nd.data.keysNum)
    "Cursor and/or right sibling not exists"
  let newRightSiblingKeysNum := newSiblingKeys child.data.keysNum right.data.keysNum
  let movedKeys := subUShort newRightSiblingKeysNum right.data.keysNum
  let childLeftKeys := subUShort child.data.keysNum movedKeys
  let lastKey ← onPages (child.data.getKey T.slots (child.data.keysNum - 1))
  if newRightSiblingKeysNum == T.maxKeys && movedKeys == 1 && T.compare lastKey k then
    return false
  else do
    let (ndData, childData, rightData) ← onPages (shareRightPages T.slots nd.data child.data
      right.data iChild newRightSiblingKeysNum movedKeys childLeftKeys)
    let child : PageWrapper κ := ⟨child.pageNum, childData⟩
    let right : PageWrapper κ := ⟨right.pageNum, rightData⟩
    let node ← writeShared node ⟨nd.pageNum, ndData⟩ child right
    let nd ← node.load
    let median ← onPages (nd.data.getKey T.slots iChild)
    if T.compare median k then insertNonFull (.local right) else insertNonFull (.local child)
    return true

/-- `BaseBStarPlusTree::shareKeysWithLeftChildAndInsert` (lines 2451–2504). -/
def BaseBStarPlusTree.shareKeysWithLeftChildAndInsert (T : Cfg κ)
    (insertNonFull : PageRef κ → TreeM κ Unit) (k : κ) (node : PageRef κ) (iChild : ℕ)
    (child left : PageWrapper κ) : TreeM κ Bool := do
  let nd ← node.load
  shareHead T child left "Left sibling should not be full" (iChild > nd.data.keysNum)
    "Cursor not exists"
  if !child.data.isLeaf then
    BaseBStarTree.shareKeysWithLeftChildAndInsert T insertNonFull k node iChild child left
  else do
    let newLeftSiblingKeysNum := newSiblingKeys child.data.keysNum left.data.keysNum
    let movedKeys := subUShort newLeftSiblingKeysNum left.data.keysNum
    let childLeftKeys := subUShort child.data.keysNum movedKeys
    let firstKey ← onPages (child.data.getKey T.slots 0)
    if newLeftSiblingKeysNum == T.maxKeys && movedKeys == 1 && T.compare k firstKey then
      return false
    else do
      let (childData, leftData) ← onPages (shareLeftLeaves T.slots child.data left.data
        newLeftSiblingKeysNum movedKeys childLeftKeys)
      let child : PageWrapper κ := ⟨child.pageNum, childData⟩
      let left : PageWrapper κ := ⟨left.pageNum, leftData⟩
      let node ← writeShared node nd left child
      let node ← setRouterKey T node (iChild - 1)
      let nd ← node.load
      let median ← onPages (nd.data.getKey T.slots (iChild - 1))
      if T.compare k median then insertNonFull (.local left) else insertNonFull (.local child)
      return true

/-- `BaseBStarPlusTree::shareKeysWithRightChildAndInsert` (lines 2506–2560). -/
def BaseBStarPlusTree.shareKeysWithRightChildAndInsert (T : Cfg κ)
    (insertNonFull : PageRef κ → TreeM κ Unit) (k : κ) (node : PageRef κ) (iChild : ℕ)
    (child right : PageWrapper κ) : TreeM κ Bool := do
  let nd ← node.load
  shareHead T child right "Right sibling should not be full" (iChild ≥ nd.data.keysNum)
    "Cursor and/or right sibling not exists"
  if !child.data.isLeaf then
    BaseBStarTree.shareKeysWithRightChildAndInsert T insertNonFull k node iChild child right
  else do
    let newRightSiblingKeysNum := newSiblingKeys child.data.keysNum right.data.keysNum
    let movedKeys := subUShort newRightSiblingKeysNum right.data.keysNum
    let childLeftKeys := subUShort child.data.keysNum movedKeys
    let lastButOne ← onPages (child.data.getKey T.slots (child.data.keysNum - 2))
    if newRightSiblingKeysNum == T.maxKeys && movedKeys == 1 && T.compare lastButOne k then
      return false
    else do
      let (childData, rightData) ← onPages (shareRightLeaves T.slots child.data right.data
        newRightSiblingKeysNum movedKeys childLeftKeys)
      let child : PageWrapper κ := ⟨child.pageNum, childData⟩
      let right : PageWrapper κ := ⟨right.pageNum, rightData⟩
      let node ← writeShared node nd child right
      let node ← setRouterKey T node iChild
      let nd ← node.load
      let median ← onPages (nd.data.getKey T.slots iChild)
      if T.compare median k then insertNonFull (.local right) else insertNonFull (.local child)
      return true

/-- The virtual `shareKeysWithLeftChildAndInsert`, of the classes that have it. -/
def shareKeysWithLeftChildAndInsert (T : Cfg κ) : (PageRef κ → TreeM κ Unit) → κ → PageRef κ → ℕ →
    PageWrapper κ → PageWrapper κ → TreeM κ Bool :=
  match T.treeType with
  | .bStarPlusTree => BaseBStarPlusTree.shareKeysWithLeftChildAndInsert T
  | _ => BaseBStarTree.shareKeysWithLeftChildAndInsert T

/-- The virtual `shareKeysWithRightChildAndInsert`, of the classes that have it. -/
def shareKeysWithRightChildAndInsert (T : Cfg κ) : (PageRef κ → TreeM κ Unit) → κ → PageRef κ →
    ℕ → PageWrapper κ → PageWrapper κ → TreeM κ Bool :=
  match T.treeType with
  | .bStarPlusTree => BaseBStarPlusTree.shareKeysWithRightChildAndInsert T
  | _ => BaseBStarTree.shareKeysWithRightChildAndInsert T

/-! ## `insertNonFull` -/

variable [Inhabited κ]

/-- The branch of `BaseBTree::insertNonFull` that inserts below child `i` (lines 159–174). -/
def BaseBTree.insertBelow (T : Cfg κ) (insertNonFull : PageRef κ → TreeM κ Unit) (k : κ)
    (currentNode : PageRef κ) (i : ℕ) (child : PageWrapper κ) : TreeM κ Unit := do
  let full ← isFull T child
  if full then do
    let (currentNode, child, newChild) ← BTreesMods.splitChild T currentNode i child
    let cur ← currentNode.load
    let median ← onPages (cur.data.getKey T.slots i)
    if T.compare median k then insertNonFull (.local newChild) else insertNonFull (.local child)
  else insertNonFull (.local child)

/-- The split of two pages into three in `BaseBStarTree::insertNonFull` (lines 1493–1511), of the
children `iLeft` and `iLeft + 1`. -/
def BaseBStarTree.insertBelowSplit (T : Cfg κ) (insertNonFull : PageRef κ → TreeM κ Unit) (k : κ)
    (currentNode : PageRef κ) (iLeft : ℕ) (left right : PageWrapper κ) (isShort : Bool) :
    TreeM κ Unit := do
  let (currentNode, left, middle, right) ← BTreesMods.splitChildren T currentNode iLeft left right isShort
  let cur ← currentNode.load
  let rightMedian ← onPages (cur.data.getKey T.slots (iLeft + 1))
  if T.compare rightMedian k then insertNonFull (.local right)
  else do
    let leftMedian ← onPages (cur.data.getKey T.slots iLeft)
    if T.compare leftMedian k then insertNonFull (.local middle) else insertNonFull (.local left)

/-- `if (i > 0)` of `BaseBStarTree::insertNonFull` (lines 1475–1481): the left sibling of a full child,
if there is one, and whether `k` was inserted. -/
def BaseBStarTree.tryLeft (T : Cfg κ) (insertNonFull : PageRef κ → TreeM κ Unit) (k : κ)
    (currentNode : PageRef κ) (cur : PageWrapper κ) (i : ℕ) (child : PageWrapper κ) :
    TreeM κ (PageWrapper κ × Bool) := do
  if i > 0 then do
    let leftSibling ← readPageFromChild T cur (i - 1)
    let leftFull ← isFull T leftSibling
    if !leftFull then do
      let done ← BTreesMods.shareKeysWithLeftChildAndInsert T insertNonFull k currentNode i child
        leftSibling
      return (leftSibling, done)
    else return (leftSibling, false)
  else return (child, false)

/-- `if (i < keysNum)` of `BaseBStarTree::insertNonFull` (lines 1483–1489): the same with the right
sibling. -/
def BaseBStarTree.tryRight (T : Cfg κ) (insertNonFull : PageRef κ → TreeM κ Unit) (k : κ)
    (currentNode : PageRef κ) (cur : PageWrapper κ) (i : ℕ) (child : PageWrapper κ) :
    TreeM κ (PageWrapper κ × Bool) := do
  if i < cur.data.keysNum then do
    let rightSibling ← readPageFromChild T cur (i + 1)
    let rightFull ← isFull T rightSibling
    if !rightFull then do
      let done ← BTreesMods.shareKeysWithRightChildAndInsert T insertNonFull k currentNode i child
        rightSibling
      return (rightSibling, done)
    else return (rightSibling, false)
  else return (child, false)

/-- The branch of `BaseBStarTree::insertNonFull` that inserts below child `i`
(lines 1467–1515). -/
def BaseBStarTree.insertBelow (T : Cfg κ) (insertNonFull : PageRef κ → TreeM κ Unit) (k : κ)
    (currentNode : PageRef κ) (i : ℕ) (child : PageWrapper κ) : TreeM κ Unit := do
  let cur ← currentNode.load
  let full ← isFull T child
  if full then do
    let (leftSibling, done) ← BaseBStarTree.tryLeft T insertNonFull k currentNode cur i child
    if done then return ()
    else do
      let (rightSibling, done) ← BaseBStarTree.tryRight T insertNonFull k currentNode cur i child
      if done then return ()
      else if i > 0 then do
        let leftFull ← isFull T leftSibling
        BaseBStarTree.insertBelowSplit T insertNonFull k currentNode (i - 1) leftSibling child
          (!leftFull)
      else do
        let rightFull ← isFull T rightSibling
        BaseBStarTree.insertBelowSplit T insertNonFull k currentNode i child rightSibling
          (!rightFull)
  else insertNonFull (.local child)

/-- The virtual `insertNonFull` below child `i`. -/
def insertBelow (T : Cfg κ) : (PageRef κ → TreeM κ Unit) → κ → PageRef κ → ℕ → PageWrapper κ →
    TreeM κ Unit :=
  match T.treeType with
  | .bTree | .bPlusTree => BaseBTree.insertBelow T
  | .bStarTree | .bStarPlusTree => BaseBStarTree.insertBelow T

/-- The virtual `insertNonFull` (lines 132–176 and 1438–1517). -/
def insertNonFull (T : Cfg κ) (k : κ) : ℕ → PageRef κ → TreeM κ Unit
  | 0, _ => throw .outOfFuel
  | fuel + 1, currentNode => do
    let cur ← currentNode.load
    let full ← isFull T cur
    if full then throw (.domainError "Node is full. Can't insert")
    else if cur.data.isLeaf then do
      let data ← onPages (cur.data.insertKey T.slots T.compare k)
      let _ ← currentNode.store ⟨cur.pageNum, data⟩
      writePage ⟨cur.pageNum, data⟩
    else do
      let i ← onPages (cur.data.upperBound T.slots T.compare k cur.data.keysNum)
      let child ← readPageFromChild T cur i
      insertBelow T (insertNonFull T k fuel) k currentNode i child

/-- The branch of `insert` for a full root (lines 122–128). -/
def splitRoot (T : Cfg κ) : TreeM κ Unit := do
  let prevRootPageNum := (← get).rootPageNum
  let rootPage ← allocPage 0 false
  let data ← onPages (rootPage.data.setCursor T.slots 0 prevRootPageNum)
  let rootPage : PageWrapper κ := ⟨rootPage.pageNum, data⟩
  modify fun s => { s with rootPage := rootPage }
  setAsRoot rootPage
  let _ ← splitChild T .rootPage 0 ⟨0, Page.cleared 0 false⟩
  return ()

/-- `insert` (lines 119–130). -/
def insert (T : Cfg κ) (k : κ) : TreeM κ Unit := do
  let s ← get
  let full ← isFull T s.rootPage
  if full then splitRoot T
  let s ← get
  insertNonFull T k (s.lastPageNum + 1) .rootPage

end BTreesMods
