import BTreesMods.Model.Search

/-!
# Rebalancing before a removal

Model of the `mergeChildren` functions (`btree.hpp`, lines 503–548, 1357–1401, 1953–2002,
2004–2073, 2291–2337, 2339–2385), of `moveOneKeyFromLeft` and `moveOneKeyFromRight`
(lines 550–603), and of the two `prepareSubtree` (lines 406–451 and 1859–1951).
-/

namespace BTreesMods

variable {κ : Type}

/-! ## Page bytes -/

/-- The parent loop of every `mergeChildren`: deletes the key `medianNum` and the cursor after
it. -/
def Page.closeSlot (slots : ℕ) (currentPage : Page κ) (medianNum : ℕ) : Except Err (Page κ) :=
  forUp (fun j pg => do (← pg.moveKey slots j (j + 1)).moveCursor slots (j + 1) (j + 2)) medianNum
    (currentPage.keysNum - 1 - medianNum) currentPage

/-- The left child after a merge of two pages around the parent's key `medianNum`. -/
def mergePages (slots : ℕ) (leftChild rightChild currentPage : Page κ)
    (medianNum keysNum leftKeysNum rightKeysNum : ℕ) : Except Err (Page κ) := do
  let leftChild := leftChild.setKeyNum keysNum
  let leftChild ← leftChild.copyKey slots leftKeysNum (← currentPage.getKey slots medianNum)
  let leftChild ← leftChild.copyKeys slots (leftKeysNum + 1)
    (← rightChild.readKeys slots 0 rightKeysNum) rightKeysNum
  leftChild.copyCursors slots (leftKeysNum + 1) (← rightChild.readCursors slots 0 (rightKeysNum + 1))
    (rightKeysNum + 1)

/-- The left child after a merge of two leaves of a tree with routers. -/
def mergeLeaves (slots : ℕ) (leftChild rightChild : Page κ)
    (keysNum leftKeysNum rightKeysNum : ℕ) : Except Err (Page κ) := do
  (leftChild.setKeyNum keysNum).copyKeys slots leftKeysNum
    (← rightChild.readKeys slots 0 rightKeysNum) rightKeysNum

/-- The page bytes of `moveOneKeyFromLeft` (lines 553–570). -/
def moveLeftPages (slots : ℕ) (leftNeighbour child currentPage : Page κ) (childCursorNum : ℕ) :
    Except Err (Page κ × Page κ × Page κ) := do
  let childKeysNum := child.keysNum + 1
  let neighbourKeysNum := leftNeighbour.keysNum
  let child := child.setKeyNum childKeysNum
  let child ← child.moveCursor slots childKeysNum (childKeysNum - 1)
  let child ← forDown (fun j pg => do (← pg.moveKey slots (j + 1) j).moveCursor slots (j + 1) j) 0
    (childKeysNum - 1) child
  let child ← child.copyKey slots 0 (← currentPage.getKey slots (childCursorNum - 1))
  let currentPage ← currentPage.copyKey slots (childCursorNum - 1)
    (← leftNeighbour.getKey slots (neighbourKeysNum - 1))
  let child ← child.copyCursors slots 0 (← leftNeighbour.readCursors slots neighbourKeysNum 1) 1
  return (leftNeighbour.setKeyNum (neighbourKeysNum - 1), child, currentPage)

/-- The page bytes of `moveOneKeyFromRight` (lines 580–598). -/
def moveRightPages (slots : ℕ) (rightNeighbour child currentPage : Page κ) (childCursorNum : ℕ) :
    Except Err (Page κ × Page κ × Page κ) := do
  let childKeysNum := child.keysNum + 1
  let neighbourKeysNum := rightNeighbour.keysNum
  let child := child.setKeyNum childKeysNum
  let child ← child.copyKey slots (childKeysNum - 1) (← currentPage.getKey slots childCursorNum)
  let currentPage ← currentPage.copyKey slots childCursorNum (← rightNeighbour.getKey slots 0)
  let child ← child.copyCursors slots childKeysNum (← rightNeighbour.readCursors slots 0 1) 1
  let rightNeighbour ← forUp
    (fun j pg => do (← pg.moveKey slots j (j + 1)).moveCursor slots j (j + 1)) 0
    (neighbourKeysNum - 1) rightNeighbour
  let rightNeighbour ← rightNeighbour.moveCursor slots (neighbourKeysNum - 1) neighbourKeysNum
  return (rightNeighbour.setKeyNum (neighbourKeysNum - 1), child, currentPage)

section

variable [Inhabited κ]

/-- The page bytes of `BaseBStarTree::mergeChildren` of three pages (lines 2009–2058). The cursors
of the right child go to the position that is computed from the number of keys of the right
child. -/
def mergeThreePages (slots : ℕ) (leftChild middleChild rightChild currentPage : Page κ)
    (leftMedianNum rightMedianNum : ℕ) : Except Err (Page κ × Page κ × Page κ) := do
  let isLeaf := leftChild.isLeaf
  let ln := leftChild.keysNum
  let mn := middleChild.keysNum
  let rn := rightChild.keysNum
  let keysNum := ln + mn + rn + 2
  let keys := blit (fun _ => default) 0 (← leftChild.readKeys slots 0 ln) 0 ln
  let keys := Function.update keys ln (← currentPage.getKey slots leftMedianNum)
  let keys := blit keys (ln + 1) (← middleChild.readKeys slots 0 mn) 0 mn
  let keys := Function.update keys (ln + mn + 1) (← currentPage.getKey slots rightMedianNum)
  let keys := blit keys (ln + mn + 2) (← rightChild.readKeys slots 0 rn) 0 rn
  let rightChildKeysNum := keysNum / 2
  let leftChildKeysNum := keysNum - rightChildKeysNum - 1
  let left₁ ← (leftChild.setKeyNum leftChildKeysNum).copyKeys slots 0 keys leftChildKeysNum
  let middle₁ ← (middleChild.setKeyNum rightChildKeysNum).copyKeys slots 0
    (fun j => keys (leftChildKeysNum + 1 + j)) rightChildKeysNum
  let (left₁, middle₁) ← if isLeaf then pure (left₁, middle₁) else do
    let cursors := blit (fun _ => 0) 0 (← leftChild.readCursors slots 0 (ln + 1)) 0 (ln + 1)
    let cursors := blit cursors (ln + 1) (← middleChild.readCursors slots 0 (mn + 1)) 0 (mn + 1)
    let cursors := blit cursors (ln + rn + 2) (← rightChild.readCursors slots 0 (rn + 1)) 0 (rn + 1)
    let left₁ ← left₁.copyCursors slots 0 cursors (leftChildKeysNum + 1)
    let middle₁ ← middle₁.copyCursors slots 0 (fun j => cursors (leftChildKeysNum + 1 + j))
      (rightChildKeysNum + 1)
    pure (left₁, middle₁)
  let currentPage ← currentPage.closeSlot slots rightMedianNum
  let currentPage ← currentPage.copyKey slots leftMedianNum (keys leftChildKeysNum)
  return (left₁, middle₁, currentPage.setKeyNum (currentPage.keysNum - 1))

/-- The page bytes of `BaseBStarPlusTree::mergeChildren` of three leaves (lines 2347–2372). The
key `leftMedianNum` of the parent stays as it is. -/
def mergeThreeLeaves (slots : ℕ) (leftChild middleChild rightChild currentPage : Page κ)
    (rightMedianNum : ℕ) : Except Err (Page κ × Page κ × Page κ) := do
  let ln := leftChild.keysNum
  let mn := middleChild.keysNum
  let rn := rightChild.keysNum
  let keysNum := ln + mn + rn
  let keys := blit (fun _ => default) 0 (← leftChild.readKeys slots 0 ln) 0 ln
  let keys := blit keys ln (← middleChild.readKeys slots 0 mn) 0 mn
  let keys := blit keys (ln + mn) (← rightChild.readKeys slots 0 rn) 0 rn
  let rightChildKeysNum := keysNum / 2
  let leftChildKeysNum := keysNum - rightChildKeysNum
  let leftChild ← (leftChild.setKeyNum leftChildKeysNum).copyKeys slots 0 keys leftChildKeysNum
  let middleChild ← (middleChild.setKeyNum rightChildKeysNum).copyKeys slots 0
    (fun j => keys (leftChildKeysNum + j)) rightChildKeysNum
  let currentPage ← currentPage.closeSlot slots rightMedianNum
  return (leftChild, middleChild, currentPage.setKeyNum (currentPage.keysNum - 1))

end

/-! ## `mergeChildren` of two pages -/

/-- The end of every `mergeChildren` of two pages, after the left child got its keys: the parent
loop, the writes, the new root if the parent had one key, and the freed pages. Returns
`currentPage` and `leftChild`. -/
def finishMerge (T : Cfg κ) (leftChild rightChild : PageWrapper κ) (currentPage : PageRef κ)
    (medianNum : ℕ) : TreeM κ (PageRef κ × PageWrapper κ) := do
  let cur ← currentPage.load
  let keysNum := cur.data.keysNum
  let data ← onPages (cur.data.closeSlot T.slots medianNum)
  writePage leftChild
  if keysNum = 1 then do
    let currentPage ← currentPage.store ⟨cur.pageNum, data⟩
    setAsRoot leftChild
    markPageFree cur.pageNum
    loadRootPage
    markPageFree rightChild.pageNum
    return (currentPage, leftChild)
  else do
    let cur : PageWrapper κ := ⟨cur.pageNum, data.setKeyNum (keysNum - 1)⟩
    let currentPage ← currentPage.store cur
    writePage cur
    markPageFree rightChild.pageNum
    return (currentPage, leftChild)

/-- `BaseBTree::mergeChildren` (lines 503–548). -/
def BaseBTree.mergeChildren (T : Cfg κ) (leftChild rightChild : PageWrapper κ)
    (currentPage : PageRef κ) (medianNum : ℕ) : TreeM κ (PageRef κ × PageWrapper κ) := do
  let cur ← currentPage.load
  let data ← onPages (mergePages T.slots leftChild.data rightChild.data cur.data medianNum
    T.maxKeys T.minKeys T.minKeys)
  finishMerge T ⟨leftChild.pageNum, data⟩ rightChild currentPage medianNum

/-- `BaseBPlusTree::mergeChildren` (lines 1357–1401). -/
def BaseBPlusTree.mergeChildren (T : Cfg κ) (leftChild rightChild : PageWrapper κ)
    (currentPage : PageRef κ) (medianNum : ℕ) : TreeM κ (PageRef κ × PageWrapper κ) := do
  if !leftChild.data.isLeaf || !rightChild.data.isLeaf then
    throw (.invalidArgument "In B+tree only leafs merging is allowed")
  else do
    let data ← onPages (mergeLeaves T.slots leftChild.data rightChild.data T.maxLeafKeys
      T.minLeafKeys T.minLeafKeys)
    finishMerge T ⟨leftChild.pageNum, data⟩ rightChild currentPage medianNum

/-- `BaseBStarTree::mergeChildren` of two pages (lines 1953–2002). -/
def BaseBStarTree.mergeChildren (T : Cfg κ) (leftChild rightChild : PageWrapper κ)
    (currentPage : PageRef κ) (medianNum : ℕ) : TreeM κ (PageRef κ × PageWrapper κ) := do
  let cur ← currentPage.load
  let data ← onPages (mergePages T.slots leftChild.data rightChild.data cur.data medianNum
    (leftChild.data.keysNum + rightChild.data.keysNum + 1) leftChild.data.keysNum
    rightChild.data.keysNum)
  finishMerge T ⟨leftChild.pageNum, data⟩ rightChild currentPage medianNum

/-- `BaseBStarPlusTree::mergeChildren` of two pages (lines 2291–2337). -/
def BaseBStarPlusTree.mergeChildren (T : Cfg κ) (leftChild rightChild : PageWrapper κ)
    (currentPage : PageRef κ) (medianNum : ℕ) : TreeM κ (PageRef κ × PageWrapper κ) := do
  if !leftChild.data.isLeaf || !rightChild.data.isLeaf then
    throw (.invalidArgument "In B*+tree only leafs merging is allowed")
  else do
    let data ← onPages (mergeLeaves T.slots leftChild.data rightChild.data
      (leftChild.data.keysNum + rightChild.data.keysNum) leftChild.data.keysNum
      rightChild.data.keysNum)
    finishMerge T ⟨leftChild.pageNum, data⟩ rightChild currentPage medianNum

/-! ## `mergeChildren` of three pages -/

/-- The writes at the end of a `mergeChildren` of three pages. Returns `currentPage`, `leftChild`
and `middleChild`. -/
def finishMergeThree (leftChild middleChild rightChild : PageWrapper κ) (currentPage : PageRef κ)
    (cur : PageWrapper κ) : TreeM κ (PageRef κ × PageWrapper κ × PageWrapper κ) := do
  let currentPage ← currentPage.store cur
  writePage leftChild
  writePage middleChild
  writePage cur
  markPageFree rightChild.pageNum
  return (currentPage, leftChild, middleChild)

/-- `BaseBStarTree::mergeChildren` of three pages (lines 2004–2073). -/
def BaseBStarTree.mergeThreeChildren [Inhabited κ] (T : Cfg κ)
    (leftChild middleChild rightChild : PageWrapper κ) (currentPage : PageRef κ)
    (leftMedianNum rightMedianNum : ℕ) :
    TreeM κ (PageRef κ × PageWrapper κ × PageWrapper κ) := do
  let cur ← currentPage.load
  newKeys T (leftChild.data.keysNum + middleChild.data.keysNum + rightChild.data.keysNum + 2)
  let (leftData, middleData, data) ← onPages (mergeThreePages T.slots leftChild.data
    middleChild.data rightChild.data cur.data leftMedianNum rightMedianNum)
  finishMergeThree ⟨leftChild.pageNum, leftData⟩ ⟨middleChild.pageNum, middleData⟩ rightChild
    currentPage ⟨cur.pageNum, data⟩

/-- `BaseBStarPlusTree::mergeChildren` of three pages (lines 2339–2385). -/
def BaseBStarPlusTree.mergeThreeChildren [Inhabited κ] (T : Cfg κ)
    (leftChild middleChild rightChild : PageWrapper κ) (currentPage : PageRef κ)
    (rightMedianNum : ℕ) : TreeM κ (PageRef κ × PageWrapper κ × PageWrapper κ) := do
  if !leftChild.data.isLeaf then
    throw (.invalidArgument "In B*+tree only leafs merging is allowed")
  else do
    let cur ← currentPage.load
    newKeys T (leftChild.data.keysNum + middleChild.data.keysNum + rightChild.data.keysNum)
    let (leftData, middleData, data) ← onPages (mergeThreeLeaves T.slots leftChild.data
      middleChild.data rightChild.data cur.data rightMedianNum)
    finishMergeThree ⟨leftChild.pageNum, leftData⟩ ⟨middleChild.pageNum, middleData⟩ rightChild
      currentPage ⟨cur.pageNum, data⟩

/-! ## Rotations -/

/-- `moveOneKeyFromLeft` (lines 550–575). Returns `leftNeighbour`, `child` and `currentPage`. -/
def moveOneKeyFromLeft (T : Cfg κ) (leftNeighbour child : PageWrapper κ) (currentPage : PageRef κ)
    (childCursorNum : ℕ) : TreeM κ (PageWrapper κ × PageWrapper κ × PageRef κ) := do
  let cur ← currentPage.load
  let (leftData, childData, data) ← onPages (moveLeftPages T.slots leftNeighbour.data child.data
    cur.data childCursorNum)
  let leftNeighbour : PageWrapper κ := ⟨leftNeighbour.pageNum, leftData⟩
  let child : PageWrapper κ := ⟨child.pageNum, childData⟩
  let currentPage ← currentPage.store ⟨cur.pageNum, data⟩
  writePage child
  writePage leftNeighbour
  writePage ⟨cur.pageNum, data⟩
  return (leftNeighbour, child, currentPage)

/-- `moveOneKeyFromRight` (lines 577–603). Returns `rightNeighbour`, `child` and `currentPage`. -/
def moveOneKeyFromRight (T : Cfg κ) (rightNeighbour child : PageWrapper κ)
    (currentPage : PageRef κ) (childCursorNum : ℕ) :
    TreeM κ (PageWrapper κ × PageWrapper κ × PageRef κ) := do
  let cur ← currentPage.load
  let (rightData, childData, data) ← onPages (moveRightPages T.slots rightNeighbour.data child.data
    cur.data childCursorNum)
  let rightNeighbour : PageWrapper κ := ⟨rightNeighbour.pageNum, rightData⟩
  let child : PageWrapper κ := ⟨child.pageNum, childData⟩
  let currentPage ← currentPage.store ⟨cur.pageNum, data⟩
  writePage child
  writePage rightNeighbour
  writePage ⟨cur.pageNum, data⟩
  return (rightNeighbour, child, currentPage)

/-! ## `prepareSubtree` -/

/-- What `prepareSubtree` returns, with the final values of `currentPage`, `child` and
`leftNeighbour`. -/
structure Prepared (κ : Type) where
  merged : Bool
  currentPage : PageRef κ
  child : PageWrapper κ
  leftNeighbour : PageWrapper κ

/-- The part of both `prepareSubtree` that moves a key from a direct neighbour (lines 413–436 and
1867–1891). `none` when no neighbour has a key to spare; then the neighbours that exist have been
read. -/
def rotateFromNeighbour (T : Cfg κ) (cursorNum : ℕ) (currentPage : PageRef κ)
    (cur child : PageWrapper κ) :
    TreeM κ (Option (Prepared κ) × PageWrapper κ × PageWrapper κ) := do
  let leftNeighbour ← if cursorNum ≥ 1 then readPageFromChild T cur (cursorNum - 1) else pure child
  if cursorNum ≥ 1 ∧ leftNeighbour.data.keysNum ≥ T.minKeys + 1 then do
    let (leftNeighbour, child, currentPage) ←
      moveOneKeyFromLeft T leftNeighbour child currentPage cursorNum
    return (some ⟨false, currentPage, child, leftNeighbour⟩, leftNeighbour, child)
  else do
    let rightNeighbour ← if cursorNum < cur.data.keysNum then readPageFromChild T cur (cursorNum + 1)
      else pure child
    if cursorNum < cur.data.keysNum ∧ rightNeighbour.data.keysNum ≥ T.minKeys + 1 then do
      let (rightNeighbour, child, currentPage) ←
        moveOneKeyFromRight T rightNeighbour child currentPage cursorNum
      return (some ⟨false, currentPage, child, leftNeighbour⟩, leftNeighbour, rightNeighbour)
    else return (none, leftNeighbour, rightNeighbour)

/-- `BaseBTree::prepareSubtree` (lines 406–451). -/
def BaseBTree.prepareSubtree (T : Cfg κ) (cursorNum : ℕ) (currentPage : PageRef κ) :
    TreeM κ (Prepared κ) := do
  let cur ← currentPage.load
  let child ← readPageFromChild T cur cursorNum
  if child.data.keysNum ≤ T.minKeys then do
    let (rotated, leftNeighbour, rightNeighbour) ←
      rotateFromNeighbour T cursorNum currentPage cur child
    match rotated with
    | some prepared => return prepared
    | none =>
      if cursorNum ≥ 1 then do
        let (currentPage, leftNeighbour) ←
          BaseBTree.mergeChildren T leftNeighbour child currentPage (cursorNum - 1)
        return ⟨true, currentPage, child, leftNeighbour⟩
      else do
        let (currentPage, child) ←
          BaseBTree.mergeChildren T child rightNeighbour currentPage cursorNum
        return ⟨false, currentPage, child, leftNeighbour⟩
  else return ⟨false, currentPage, child, child⟩

/-- The branch of `BaseBStarTree::prepareSubtree` for a child that is not the first and not the
last one, or the last one (lines 1909–1932). -/
def BaseBStarTree.prepareFromLeft [Inhabited κ] (T : Cfg κ) (cursorNum : ℕ)
    (currentPage : PageRef κ) (cur leftNeighbour child rightNeighbour : PageWrapper κ) :
    TreeM κ (Prepared κ) := do
  if cursorNum < cur.data.keysNum then do
    let (currentPage, leftNeighbour, child) ← BaseBStarTree.mergeThreeChildren T leftNeighbour
      child rightNeighbour currentPage (cursorNum - 1) cursorNum
    return ⟨true, currentPage, child, leftNeighbour⟩
  else do
    let leftLeftNeighbour ← readPageFromChild T cur (cursorNum - 2)
    if leftLeftNeighbour.data.keysNum > T.minKeys then do
      let (_, leftNeighbour, currentPage) ←
        moveOneKeyFromLeft T leftLeftNeighbour leftNeighbour currentPage (cursorNum - 1)
      let (leftNeighbour, child, currentPage) ←
        moveOneKeyFromLeft T leftNeighbour child currentPage cursorNum
      return ⟨false, currentPage, child, leftNeighbour⟩
    else do
      let (currentPage, _, leftNeighbour) ← BaseBStarTree.mergeThreeChildren T leftLeftNeighbour
        leftNeighbour child currentPage (cursorNum - 2) (cursorNum - 1)
      return ⟨true, currentPage, child, leftNeighbour⟩

/-- The branch of `BaseBStarTree::prepareSubtree` for the first child (lines 1934–1947). -/
def BaseBStarTree.prepareFromRight [Inhabited κ] (T : Cfg κ) (cursorNum : ℕ)
    (currentPage : PageRef κ) (cur leftNeighbour child rightNeighbour : PageWrapper κ) :
    TreeM κ (Prepared κ) := do
  let rightRightNeighbour ← readPageFromChild T cur (cursorNum + 2)
  if rightRightNeighbour.data.keysNum > T.minKeys then do
    let (_, rightNeighbour, currentPage) ←
      moveOneKeyFromRight T rightRightNeighbour rightNeighbour currentPage (cursorNum + 1)
    let (_, child, currentPage) ← moveOneKeyFromRight T rightNeighbour child currentPage cursorNum
    return ⟨false, currentPage, child, leftNeighbour⟩
  else do
    let (currentPage, child, _) ← BaseBStarTree.mergeThreeChildren T child rightNeighbour
      rightRightNeighbour currentPage cursorNum (cursorNum + 1)
    return ⟨false, currentPage, child, leftNeighbour⟩

/-- `BaseBStarTree::prepareSubtree` (lines 1859–1951). -/
def BaseBStarTree.prepareSubtree [Inhabited κ] (T : Cfg κ) (cursorNum : ℕ)
    (currentPage : PageRef κ) : TreeM κ (Prepared κ) := do
  let cur ← currentPage.load
  let child ← readPageFromChild T cur cursorNum
  if child.data.keysNum ≤ T.minKeys then do
    let (rotated, leftNeighbour, rightNeighbour) ←
      rotateFromNeighbour T cursorNum currentPage cur child
    match rotated with
    | some prepared => return prepared
    | none =>
      let root ← isRoot cur
      if root then
        if cursorNum ≥ 1 then do
          let (currentPage, leftNeighbour) ←
            BaseBStarTree.mergeChildren T leftNeighbour child currentPage (cursorNum - 1)
          return ⟨true, currentPage, child, leftNeighbour⟩
        else do
          let (currentPage, child) ←
            BaseBStarTree.mergeChildren T child rightNeighbour currentPage cursorNum
          return ⟨false, currentPage, child, leftNeighbour⟩
      else if cursorNum ≥ 1 then
        BaseBStarTree.prepareFromLeft T cursorNum currentPage cur leftNeighbour child rightNeighbour
      else
        BaseBStarTree.prepareFromRight T cursorNum currentPage cur leftNeighbour child
          rightNeighbour
  else return ⟨false, currentPage, child, child⟩

/-- The virtual `prepareSubtree`, of the two classes whose `remove` calls it. -/
def prepareSubtree [Inhabited κ] (T : Cfg κ) : ℕ → PageRef κ → TreeM κ (Prepared κ) :=
  match T.treeType with
  | .bTree | .bPlusTree => BaseBTree.prepareSubtree T
  | .bStarTree | .bStarPlusTree => BaseBStarTree.prepareSubtree T

end BTreesMods
