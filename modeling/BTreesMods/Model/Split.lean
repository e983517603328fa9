import BTreesMods.Model.Tree

/-!
# Splitting pages

Model of the four `splitChild` (`btree.hpp`, lines 264–298, 1140–1178, 1519–1557, 2562–2607), the
two `splitChildren` (lines 1559–1636, 2389–2449) and `setRouterKey` (lines 2616–2634). Work on page
bytes is in functions that take and return pages; the member functions read, allocate and write the
pages around it. A function with `PageWrapper&` parameters returns their final values.
-/

namespace BTreesMods

variable {κ : Type}

/-! ## Page bytes -/

/-- Makes room in a parent for a cursor after cursor `iChild` and for a key at `iChild`: the new
number of keys, the cursor loop, the new cursor and the key loop of every `splitChild`. -/
def Page.openSlot (slots : ℕ) (node : Page κ) (iChild rightNum : ℕ) : Except Err (Page κ) := do
  let keysNum := node.keysNum + 1
  let node := node.setKeyNum keysNum
  let node ← forDown (fun j node => node.moveCursor slots (j + 1) j) (iChild + 1)
    (keysNum - 1 - iChild) node
  let node ← node.setCursor slots (iChild + 1) rightNum
  forDown (fun j node => node.moveKey slots (j + 1) j) iChild (keysNum - 1 - iChild) node

/-- Copies the `rightKeysNum` last keys and their cursors of a page that is split to its new right
neighbour. -/
def Page.takeRight (slots : ℕ) (leftChild rightChild : Page κ) (start rightKeysNum : ℕ) :
    Except Err (Page κ) := do
  let rightChild ← rightChild.copyKeys slots 0 (← leftChild.readKeys slots start rightKeysNum)
    rightKeysNum
  if leftChild.isLeaf then
    return rightChild
  else
    rightChild.copyCursors slots 0 (← leftChild.readCursors slots start (rightKeysNum + 1))
      (rightKeysNum + 1)

/-- The page bytes after a `splitChild`: the left child keeps `leftKeysNum` keys, the right child
gets `rightKeysNum` keys from slot `start` on, and the parent gets the key `median` of the left
child, if there is one, at `iChild`. -/
def splitPages (slots : ℕ) (node leftChild rightChild : Page κ)
    (rightNum iChild leftKeysNum start rightKeysNum : ℕ) (median : Option ℕ) :
    Except Err (Page κ × Page κ × Page κ) := do
  let rightChild ← leftChild.takeRight slots rightChild start rightKeysNum
  let node ← node.openSlot slots iChild rightNum
  let node ← match median with
    | some median => do node.copyKey slots iChild (← leftChild.getKey slots median)
    | none => pure node
  return (node, leftChild.setKeyNum leftKeysNum, rightChild)

variable [Inhabited κ]

/-- The page bytes of `BaseBStarTree::splitChildren` after the allocation of `middle`
(lines 1582–1626): the keys of `left`, the key `iLeft` of the parent and the keys of `right` are
cut into three runs of `l`, `m` and `r` keys with one key between two runs. -/
def splitChildrenPages (slots : ℕ) (node left middle right : Page κ) (middleNum iLeft l m r : ℕ) :
    Except Err (Page κ × Page κ × Page κ × Page κ) := do
  let leftKeysNum := left.keysNum
  let rightKeysNum := right.keysNum
  let keys := blit (fun _ => default) 0 (← left.readKeys slots 0 leftKeysNum) 0 leftKeysNum
  let keys := Function.update keys leftKeysNum (← node.getKey slots iLeft)
  let keys := blit keys (leftKeysNum + 1) (← right.readKeys slots 0 rightKeysNum) 0 rightKeysNum
  let left₁ ← (left.setKeyNum l).copyKeys slots 0 keys l
  let middle₁ ← middle.copyKeys slots 0 (fun j => keys (l + 1 + j)) m
  let right₁ ← (right.setKeyNum r).copyKeys slots 0 (fun j => keys (l + m + 2 + j)) r
  let (left₁, middle₁, right₁) ← if left.isLeaf then pure (left₁, middle₁, right₁) else do
    let cursors := blit (fun _ => 0) 0 (← left.readCursors slots 0 (leftKeysNum + 1)) 0
      (leftKeysNum + 1)
    let cursors := blit cursors (leftKeysNum + 1)
      (← right.readCursors slots 0 (rightKeysNum + 1)) 0 (rightKeysNum + 1)
    let left₁ ← left₁.copyCursors slots 0 cursors (l + 1)
    let middle₁ ← middle₁.copyCursors slots 0 (fun j => cursors (l + 1 + j)) (m + 1)
    let right₁ ← right₁.copyCursors slots 0 (fun j => cursors (l + m + 2 + j)) (r + 1)
    pure (left₁, middle₁, right₁)
  let node ← node.copyKey slots iLeft (keys l)
  let parentKeysNum := node.keysNum + 1
  let node := node.setKeyNum parentKeysNum
  let node ← forDown (fun j node => node.moveKey slots (j + 1) j) iLeft
    (parentKeysNum - 1 - iLeft) node
  let node ← node.copyKey slots (iLeft + 1) (keys (l + m + 1))
  let node ← forDown (fun j node => node.moveCursor slots (j + 1) j) (iLeft + 1)
    (parentKeysNum - (iLeft + 1)) node
  let node ← node.setCursor slots (iLeft + 1) middleNum
  return (node, left₁, middle₁, right₁)

/-- The page bytes of `BaseBStarPlusTree::splitChildren` on leaves (lines 2417–2438): the keys of
both leaves are cut into three runs; the parent's keys `iLeft` and `iLeft + 1` are set later. -/
def splitLeavesPages (slots : ℕ) (node left middle right : Page κ) (middleNum iLeft l m r : ℕ) :
    Except Err (Page κ × Page κ × Page κ × Page κ) := do
  let keys := blit (fun _ => default) 0 (← left.readKeys slots 0 left.keysNum) 0 left.keysNum
  let keys := blit keys left.keysNum (← right.readKeys slots 0 right.keysNum) 0 right.keysNum
  let left ← (left.setKeyNum l).copyKeys slots 0 keys l
  let middle ← middle.copyKeys slots 0 (fun j => keys (l + j)) m
  let right ← (right.setKeyNum r).copyKeys slots 0 (fun j => keys (l + m + j)) r
  let parentKeysNum := node.keysNum + 1
  let node := node.setKeyNum parentKeysNum
  let node ← forDown (fun j node => node.moveKey slots (j + 1) j) iLeft
    (parentKeysNum - 1 - iLeft) node
  let node ← forDown (fun j node => node.moveCursor slots (j + 1) j) (iLeft + 1)
    (parentKeysNum - (iLeft + 1)) node
  let node ← node.setCursor slots (iLeft + 1) middleNum
  return (node, left, middle, right)

/-! ## `splitChild` -/

/-- The checks at the head of every `splitChild`, and its first read. -/
def splitChildHead (T : Cfg κ) (nd : PageWrapper κ) (iChild : ℕ) (leftChild : PageWrapper κ) :
    TreeM κ (PageWrapper κ) := do
  let full ← isFull T nd
  if full then
    throw (.domainError "A parent node is full, so its child can't be splitted")
  else if iChild > nd.data.keysNum then throw (.invalidArgument "Cursor not exists")
  else if leftChild.pageNum = 0 then readPageFromChild T nd iChild
  else return leftChild

/-- The part of every `splitChild` after its head: the allocation, the page bytes and the writes.
Returns `node`, `leftChild` and `rightChild`. -/
def splitChildTail (T : Cfg κ) (node : PageRef κ) (nd : PageWrapper κ) (iChild : ℕ)
    (leftChild : PageWrapper κ) (leftKeysNum start rightKeysNum : ℕ) (median : Option ℕ) :
    TreeM κ (PageRef κ × PageWrapper κ × PageWrapper κ) := do
  let rightChild ← allocPage rightKeysNum leftChild.data.isLeaf
  let (ndData, leftData, rightData) ← onPages (splitPages T.slots nd.data leftChild.data
    rightChild.data rightChild.pageNum iChild leftKeysNum start rightKeysNum median)
  let nd : PageWrapper κ := ⟨nd.pageNum, ndData⟩
  let leftChild : PageWrapper κ := ⟨leftChild.pageNum, leftData⟩
  let rightChild : PageWrapper κ := ⟨rightChild.pageNum, rightData⟩
  let node ← node.store nd
  writePage leftChild
  writePage rightChild
  writePage nd
  return (node, leftChild, rightChild)

/-- `BaseBTree::splitChild` (lines 264–298). -/
def BaseBTree.splitChild (T : Cfg κ) (node : PageRef κ) (iChild : ℕ) (leftChild : PageWrapper κ) :
    TreeM κ (PageRef κ × PageWrapper κ × PageWrapper κ) := do
  let nd ← node.load
  let leftChild ← splitChildHead T nd iChild leftChild
  splitChildTail T node nd iChild leftChild T.minKeys (T.minKeys + 1) T.minKeys (some T.minKeys)

/-- `BaseBPlusTree::splitChild` (lines 1140–1178). -/
def BaseBPlusTree.splitChild (T : Cfg κ) (node : PageRef κ) (iChild : ℕ)
    (leftChild : PageWrapper κ) : TreeM κ (PageRef κ × PageWrapper κ × PageWrapper κ) := do
  let nd ← node.load
  let leftChild ← splitChildHead T nd iChild leftChild
  if !leftChild.data.isLeaf then
    BaseBTree.splitChild T node iChild leftChild
  else
    splitChildTail T node nd iChild leftChild T.minLeafKeys T.minLeafKeys T.minLeafKeys
      (some (T.minLeafKeys - 1))

/-- `BaseBStarTree::splitChild` (lines 1519–1557). -/
def BaseBStarTree.splitChild (T : Cfg κ) (node : PageRef κ) (iChild : ℕ)
    (leftChild : PageWrapper κ) : TreeM κ (PageRef κ × PageWrapper κ × PageWrapper κ) := do
  let nd ← node.load
  let leftChild ← splitChildHead T nd iChild leftChild
  let rightChildKeysNum := leftChild.data.keysNum / 2
  let leftChildKeysNum := leftChild.data.keysNum - rightChildKeysNum - 1
  splitChildTail T node nd iChild leftChild leftChildKeysNum (leftChildKeysNum + 1)
    rightChildKeysNum (some leftChildKeysNum)

/-- `setRouterKey` (lines 2616–2634). -/
def setRouterKey (T : Cfg κ) (page : PageRef κ) (keyNum : ℕ) : TreeM κ (PageRef κ) := do
  let pg ← page.load
  if keyNum ≥ pg.data.keysNum then throw (.invalidArgument "Key not exists")
  else if pg.data.isLeaf then throw (.invalidArgument "Page should not be a leaf")
  else do
    let leftChild ← readPageFromChild T pg keyNum
    if leftChild.data.keysNum = 0 then throw (.domainError "Left child not exists")
    else do
      let router ← onPages (leftChild.data.getKey T.slots (leftChild.data.keysNum - 1))
      let data ← onPages (pg.data.copyKey T.slots keyNum router)
      let page ← page.store ⟨pg.pageNum, data⟩
      writePage ⟨pg.pageNum, data⟩
      return page

/-- `BaseBStarPlusTree::splitChild` (lines 2562–2607). -/
def BaseBStarPlusTree.splitChild (T : Cfg κ) (node : PageRef κ) (iChild : ℕ)
    (leftChild : PageWrapper κ) : TreeM κ (PageRef κ × PageWrapper κ × PageWrapper κ) := do
  let nd ← node.load
  let leftChild ← splitChildHead T nd iChild leftChild
  if !leftChild.data.isLeaf then BaseBStarTree.splitChild T node iChild leftChild
  else do
    let rightChildKeysNum := leftChild.data.keysNum / 2
    let leftChildKeysNum := leftChild.data.keysNum - rightChildKeysNum
    let (node, leftChild, rightChild) ← splitChildTail T node nd iChild leftChild
      leftChildKeysNum leftChildKeysNum rightChildKeysNum none
    let node ← setRouterKey T node iChild
    return (node, leftChild, rightChild)

/-- The virtual `splitChild`. -/
def splitChild (T : Cfg κ) : PageRef κ → ℕ → PageWrapper κ →
    TreeM κ (PageRef κ × PageWrapper κ × PageWrapper κ) :=
  match T.treeType with
  | .bTree => BaseBTree.splitChild T
  | .bPlusTree => BaseBPlusTree.splitChild T
  | .bStarTree => BaseBStarTree.splitChild T
  | .bStarPlusTree => BaseBStarPlusTree.splitChild T

/-! ## `splitChildren` -/

/-- `getRightSplitProductKeys(isShort)`. -/
def Params.getRightSplitProductKeys (p : Params) (isShort : Bool) : ℕ :=
  if isShort then p.shortRightSplitProductKeys else p.rightSplitProductKeys

/-- The checks at the head of both `splitChildren`. Its two conditional reads are never taken: both
callers pass wrappers that they have read. -/
def splitChildrenHead (T : Cfg κ) (nd : PageWrapper κ) (iLeft : ℕ) : TreeM κ Unit := do
  let full ← isFull T nd
  if full then
    throw (.domainError "A parent node is full, so its children can't be splitted")
  else if iLeft ≥ nd.data.keysNum then
    throw (.invalidArgument "Left and/or cursors do not exist")
  else return ()

/-- Stores the wrapper of the parent and writes it after its three children. -/
def writeSplitChildren (node : PageRef κ) (nd left middle right : PageWrapper κ) :
    TreeM κ (PageRef κ) := do
  let node ← node.store nd
  writePage left
  writePage middle
  writePage right
  writePage nd
  return node

/-- `BaseBStarTree::splitChildren` (lines 1559–1636). Returns `node`, `left`, `middle` and
`right`. -/
def BaseBStarTree.splitChildren (T : Cfg κ) (node : PageRef κ) (iLeft : ℕ)
    (left right : PageWrapper κ) (isShort : Bool) :
    TreeM κ (PageRef κ × PageWrapper κ × PageWrapper κ × PageWrapper κ) := do
  let nd ← node.load
  splitChildrenHead T nd iLeft
  let middle ← allocPage T.middleSplitProductKeys left.data.isLeaf
  newKeys T (left.data.keysNum + right.data.keysNum + 1)
  let (ndData, leftData, middleData, rightData) ← onPages (splitChildrenPages T.slots nd.data
    left.data middle.data right.data middle.pageNum iLeft T.leftSplitProductKeys
    T.middleSplitProductKeys (T.getRightSplitProductKeys isShort))
  let left : PageWrapper κ := ⟨left.pageNum, leftData⟩
  let middle : PageWrapper κ := ⟨middle.pageNum, middleData⟩
  let right : PageWrapper κ := ⟨right.pageNum, rightData⟩
  let node ← writeSplitChildren node ⟨nd.pageNum, ndData⟩ left middle right
  return (node, left, middle, right)

/-- `BaseBStarPlusTree::splitChildren` (lines 2389–2449). -/
def BaseBStarPlusTree.splitChildren (T : Cfg κ) (node : PageRef κ) (iLeft : ℕ)
    (left right : PageWrapper κ) (isShort : Bool) :
    TreeM κ (PageRef κ × PageWrapper κ × PageWrapper κ × PageWrapper κ) := do
  let nd ← node.load
  splitChildrenHead T nd iLeft
  if !left.data.isLeaf then BaseBStarTree.splitChildren T node iLeft left right isShort
  else do
    let middle ← allocPage T.middleLeafSplitProductKeys left.data.isLeaf
    newKeys T (left.data.keysNum + right.data.keysNum)
    let (ndData, leftData, middleData, rightData) ← onPages (splitLeavesPages T.slots nd.data
      left.data middle.data right.data middle.pageNum iLeft T.leftSplitProductKeys
      T.middleLeafSplitProductKeys (T.getRightSplitProductKeys isShort))
    let left : PageWrapper κ := ⟨left.pageNum, leftData⟩
    let middle : PageWrapper κ := ⟨middle.pageNum, middleData⟩
    let right : PageWrapper κ := ⟨right.pageNum, rightData⟩
    let node ← writeSplitChildren node ⟨nd.pageNum, ndData⟩ left middle right
    let node ← setRouterKey T node iLeft
    let node ← setRouterKey T node (iLeft + 1)
    return (node, left, middle, right)

/-- The virtual `splitChildren`, of the classes that have it. -/
def splitChildren (T : Cfg κ) : PageRef κ → ℕ → PageWrapper κ → PageWrapper κ → Bool →
    TreeM κ (PageRef κ × PageWrapper κ × PageWrapper κ × PageWrapper κ) :=
  match T.treeType with
  | .bStarPlusTree => BaseBStarPlusTree.splitChildren T
  | _ => BaseBStarTree.splitChildren T

end BTreesMods
