import BTreesMods.Model.Rebalance

/-!
# Removal

Model of `remove`, `removeAll`, `removeByKeyNum`, `getAndRemoveMaxKey` and `getAndRemoveMinKey` of the
four classes (`btree.hpp`, lines 302–404, 453–501, 1252–1355, 1638–1703, 1829–1857, 2174–2289). The
recursion is bounded as in `insert`; one level of a path can take two calls, of `remove` and of
`removeByKeyNum`.
-/

namespace BTreesMods

variable {κ : Type}

/-! ## Leaves -/

/-- The leaf branch of both `removeByKeyNum` (lines 360–370 and 1643–1653). -/
def Page.removeKey (slots : ℕ) (pg : Page κ) (keyNum : ℕ) : Except Err (Page κ) := do
  let keysNum := pg.keysNum
  let pg ← forUp (fun j pg => pg.moveKey slots j (j + 1)) keyNum (keysNum - 1 - keyNum) pg
  return pg.setKeyNum (keysNum - 1)

/-- The leaf branch of both `removeByKeyNum`, with its write. -/
def removeInLeaf (T : Cfg κ) (keyNum : ℕ) (currentPage : PageRef κ) : TreeM κ Unit := do
  let cur ← currentPage.load
  let data ← onPages (cur.data.removeKey T.slots keyNum)
  let _ ← currentPage.store ⟨cur.pageNum, data⟩
  writePage ⟨cur.pageNum, data⟩

/-- The assignment of the replacement key in both `removeByKeyNum` (lines 388–396 and
1671–1679). -/
def replaceKey (T : Cfg κ) (keyNum : ℕ) (currentPage : PageRef κ) (replace : κ) :
    TreeM κ Unit := do
  let cur ← currentPage.load
  let data ← onPages (cur.data.copyKey T.slots keyNum replace)
  let _ ← currentPage.store ⟨cur.pageNum, data⟩
  writePage ⟨cur.pageNum, data⟩

section

variable [Inhabited κ]

/-! ## The greatest and the least key of a subtree -/

/-- `getAndRemoveMaxKey` (lines 453–474). -/
def getAndRemoveMaxKey (T : Cfg κ) : ℕ → PageWrapper κ → TreeM κ κ
  | 0, _ => throw .outOfFuel
  | fuel + 1, pw =>
    if pw.data.isLeaf then do
      let maxKey ← onPages (pw.data.getKey T.slots (pw.data.keysNum - 1))
      writePage ⟨pw.pageNum, pw.data.setKeyNum (pw.data.keysNum - 1)⟩
      return maxKey
    else do
      let prepared ← prepareSubtree T pw.data.keysNum (.local pw)
      if prepared.merged then getAndRemoveMaxKey T fuel prepared.leftNeighbour
      else getAndRemoveMaxKey T fuel prepared.child

/-- `getAndRemoveMinKey` (lines 476–501). Its descent takes the last cursor, as that of
`getAndRemoveMaxKey`. -/
def getAndRemoveMinKey (T : Cfg κ) : ℕ → PageWrapper κ → TreeM κ κ
  | 0, _ => throw .outOfFuel
  | fuel + 1, pw =>
    if pw.data.isLeaf then do
      let minKey ← onPages (pw.data.getKey T.slots 0)
      let data ← onPages (pw.data.removeKey T.slots 0)
      writePage ⟨pw.pageNum, data⟩
      return minKey
    else do
      let prepared ← prepareSubtree T pw.data.keysNum (.local pw)
      if prepared.merged then getAndRemoveMinKey T fuel prepared.leftNeighbour
      else getAndRemoveMinKey T fuel prepared.child

/-! ## B-tree -/

/-- `BaseBTree::removeByKeyNum` (lines 355–404). -/
def BaseBTree.removeByKeyNum (T : Cfg κ) : ℕ → ℕ → PageRef κ → TreeM κ Bool
  | 0, _, _ => throw .outOfFuel
  | fuel + 1, keyNum, currentPage => do
    let cur ← currentPage.load
    if cur.data.isLeaf then do
      removeInLeaf T keyNum currentPage
      return true
    else do
      let leftChild ← readPageFromChild T cur keyNum
      if leftChild.data.keysNum ≥ T.minKeys + 1 then do
        let replace ← getAndRemoveMaxKey T fuel leftChild
        replaceKey T keyNum currentPage replace
        return true
      else do
        let rightChild ← readPageFromChild T cur (keyNum + 1)
        if rightChild.data.keysNum ≥ T.minKeys + 1 then do
          let replace ← getAndRemoveMinKey T fuel rightChild
          replaceKey T keyNum currentPage replace
          return true
        else do
          let (_, leftChild) ← BaseBTree.mergeChildren T leftChild rightChild currentPage keyNum
          let root ← isRoot leftChild
          let _ ← BaseBTree.removeByKeyNum T fuel (T.maxKeys / 2)
            (if root then .rootPage else .local leftChild)
          return true

/-- `BaseBTree::remove` of a page (lines 310–335). -/
def BaseBTree.removeFrom (T : Cfg κ) (k : κ) : ℕ → PageRef κ → TreeM κ Bool
  | 0, _ => throw .outOfFuel
  | fuel + 1, currentPage => do
    let cur ← currentPage.load
    let i ← onPages (cur.data.lowerBound T.slots T.compare k cur.data.keysNum 0)
    let found ← onPages (cur.data.isKeyAt T.slots T.isEqual k i)
    if found then do
      let root ← isRoot cur
      BaseBTree.removeByKeyNum T fuel i (if root then .rootPage else currentPage)
    else if cur.data.isLeaf then return false
    else do
      let prepared ← BaseBTree.prepareSubtree T i currentPage
      if prepared.merged then BaseBTree.removeFrom T k fuel (.local prepared.leftNeighbour)
      else BaseBTree.removeFrom T k fuel (.local prepared.child)

/-! ## B*-tree -/

mutual

/-- `BaseBStarTree::removeByKeyNum` (lines 1638–1703). `k` is read from the slot `keyNum` of the
current page after `prepareSubtree`, since it is a pointer to that slot. -/
def BaseBStarTree.removeByKeyNum (T : Cfg κ) : ℕ → ℕ → PageRef κ → TreeM κ Bool
  | 0, _, _ => throw .outOfFuel
  | fuel + 1, keyNum, currentPage => do
    let cur ← currentPage.load
    if cur.data.isLeaf then do
      removeInLeaf T keyNum currentPage
      return true
    else do
      let leftChild ← readPageFromChild T cur keyNum
      if leftChild.data.keysNum ≥ T.minKeys + 1 then do
        let replace ← getAndRemoveMaxKey T fuel leftChild
        replaceKey T keyNum currentPage replace
        return true
      else do
        let rightChild ← readPageFromChild T cur (keyNum + 1)
        if rightChild.data.keysNum ≥ T.minKeys + 1 then do
          let replace ← getAndRemoveMinKey T fuel rightChild
          replaceKey T keyNum currentPage replace
          return true
        else do
          let root ← isRoot cur
          if root then do
            let (_, leftChild) ←
              BaseBStarTree.mergeChildren T leftChild rightChild currentPage keyNum
            let root ← isRoot leftChild
            BaseBStarTree.removeByKeyNum T fuel (T.maxKeys / 2)
              (if root then .rootPage else .local leftChild)
          else do
            let _ ← readPageFromChild T cur (if keyNum ≥ 1 then keyNum - 1 else keyNum + 2)
            let prepared ← BaseBStarTree.prepareSubtree T keyNum currentPage
            let cur ← prepared.currentPage.load
            BaseBStarTree.removeFrom T (cur.data.key keyNum) fuel (.local prepared.child)

/-- `BaseBStarTree::remove` of a page (lines 1829–1857). -/
def BaseBStarTree.removeFrom (T : Cfg κ) (k : κ) : ℕ → PageRef κ → TreeM κ Bool
  | 0, _ => throw .outOfFuel
  | fuel + 1, currentPage => do
    let cur ← currentPage.load
    let i ← onPages (cur.data.lowerBound T.slots T.compare k cur.data.keysNum 0)
    let found ← onPages (cur.data.isKeyAt T.slots T.isEqual k i)
    if found then do
      let root ← isRoot cur
      BaseBStarTree.removeByKeyNum T fuel i (if root then .rootPage else currentPage)
    else if cur.data.isLeaf then return false
    else do
      let prepared ← BaseBStarTree.prepareSubtree T i currentPage
      if prepared.merged then do
        let removed ← BaseBStarTree.removeFrom T k fuel (.local prepared.leftNeighbour)
        if removed then return true
        else BaseBStarTree.removeFrom T k fuel (.local prepared.child)
      else BaseBStarTree.removeFrom T k fuel (.local prepared.child)

end

end

/-! ## Borrowing in the trees with routers -/

/-- The page bytes of the loan from the left sibling in `BaseBPlusTree::remove` and
`BaseBStarPlusTree::remove` (lines 1282–1298 and 2203–2220), with `minKeys` keys in the child. The
parent's key is not changed. -/
def borrowLeftPages (slots : ℕ) (leftSibling nextPage : Page κ) (minKeys : ℕ) :
    Except Err (Page κ × Page κ) := do
  let isLeaf := nextPage.isLeaf
  let nextPage := nextPage.setKeyNum (minKeys + 1)
  let nextPage ← forDown (fun j pg => pg.moveKey slots (j + 1) j) 0 minKeys nextPage
  let nextPage ← if isLeaf then pure nextPage else
    forDown (fun j pg => pg.moveCursor slots (j + 1) j) 0 (minKeys + 1) nextPage
  let nextPage ← nextPage.copyKey slots 0 (← leftSibling.getKey slots (leftSibling.keysNum - 1))
  let nextPage ← if isLeaf then pure nextPage else do
    nextPage.copyCursors slots 0 (← leftSibling.readCursors slots leftSibling.keysNum 1) 1
  return (leftSibling.setKeyNum (leftSibling.keysNum - 1), nextPage)

/-- The page bytes of the loan from the right sibling (lines 1312–1327 and 2235–2251). The parent's
key `i` is set in memory. -/
def borrowRightPages (slots : ℕ) (rightSibling nextPage currentPage : Page κ) (i minKeys : ℕ) :
    Except Err (Page κ × Page κ × Page κ) := do
  let isLeaf := nextPage.isLeaf
  let nextPage := nextPage.setKeyNum (minKeys + 1)
  let nextPage ← nextPage.copyKey slots minKeys (← rightSibling.getKey slots 0)
  let currentPage ← currentPage.copyKey slots i (← rightSibling.getKey slots 0)
  let nextPage ← if isLeaf then pure nextPage else do
    nextPage.copyCursors slots (minKeys + 1) (← rightSibling.readCursors slots 0 1) 1
  let rightSiblingKeysNum := rightSibling.keysNum
  let rightSibling ← forUp (fun j pg => pg.moveKey slots j (j + 1)) 0 (rightSiblingKeysNum - 1)
    rightSibling
  let rightSibling ← if isLeaf then pure rightSibling else
    forUp (fun j pg => pg.moveCursor slots j (j + 1)) 0 rightSiblingKeysNum rightSibling
  return (rightSibling.setKeyNum (rightSiblingKeysNum - 1), nextPage, currentPage)

/-- The part of both `remove` that borrows from a sibling (lines 1277–1332 and 2198–2253), with
`minKeys` keys in `nextPage`: `nextPage` afterwards, or `none` and the siblings read when none has
a key to spare. -/
def borrow (T : Cfg κ) (minKeys i : ℕ) (currentPage : PageRef κ) (cur nextPage : PageWrapper κ) :
    TreeM κ (Option (PageWrapper κ) × PageWrapper κ × PageWrapper κ) := do
  let leftSibling ← if i > 0 then readPageFromChild T cur (i - 1) else pure nextPage
  if i > 0 ∧ leftSibling.data.keysNum > minKeys then do
    let (leftData, nextData) ← onPages (borrowLeftPages T.slots leftSibling.data nextPage.data
      minKeys)
    writePage ⟨leftSibling.pageNum, leftData⟩
    writePage ⟨nextPage.pageNum, nextData⟩
    return (some ⟨nextPage.pageNum, nextData⟩, leftSibling, nextPage)
  else do
    let rightSibling ← if i < cur.data.keysNum then readPageFromChild T cur (i + 1)
      else pure nextPage
    if i < cur.data.keysNum ∧ rightSibling.data.keysNum > minKeys then do
      let (rightData, nextData, data) ← onPages (borrowRightPages T.slots rightSibling.data
        nextPage.data cur.data i minKeys)
      let _ ← currentPage.store ⟨cur.pageNum, data⟩
      writePage ⟨nextPage.pageNum, nextData⟩
      writePage ⟨rightSibling.pageNum, rightData⟩
      return (some ⟨nextPage.pageNum, nextData⟩, leftSibling, rightSibling)
    else return (none, leftSibling, rightSibling)

/-- The reference that `nextPage.isRoot() ? _rootPage : nextPage` is. -/
def rootOr (nextPage : PageWrapper κ) : TreeM κ (PageRef κ) := do
  let root ← isRoot nextPage
  return if root then .rootPage else .local nextPage

/-! ## B+-tree -/

/-- `mergeChildren` of `BaseBPlusTree::remove`: on leaves its own, on inner pages that of
`BaseBTree`. -/
def BaseBPlusTree.mergeBelow (T : Cfg κ) (isLeaf : Bool) : PageWrapper κ → PageWrapper κ →
    PageRef κ → ℕ → TreeM κ (PageRef κ × PageWrapper κ) :=
  if isLeaf then BaseBPlusTree.mergeChildren T else BaseBTree.mergeChildren T

/-- The part of `BaseBPlusTree::remove` between the read of child `i` and the recursive call
(lines 1268–1353): the page that the call gets. -/
def BaseBPlusTree.prepareChild (T : Cfg κ) (i : ℕ) (currentPage : PageRef κ)
    (cur nextPage : PageWrapper κ) : TreeM κ (PageRef κ) := do
  let isLeaf := nextPage.data.isLeaf
  let minKeys := if isLeaf then T.minLeafKeys else T.minKeys
  let root ← isRoot nextPage
  if !root && nextPage.data.keysNum == minKeys then do
    let (borrowed, leftSibling, rightSibling) ← borrow T minKeys i currentPage cur nextPage
    match borrowed with
    | some nextPage => return .local nextPage
    | none =>
      if i > 0 ∧ leftSibling.data.keysNum = minKeys then do
        let (_, leftSibling) ← BaseBPlusTree.mergeBelow T isLeaf leftSibling nextPage currentPage
          (i - 1)
        return .local leftSibling
      else do
        let (_, nextPage) ← BaseBPlusTree.mergeBelow T isLeaf nextPage rightSibling currentPage i
        rootOr nextPage
  else rootOr nextPage

/-- `BaseBPlusTree::remove` of a page (lines 1252–1355). -/
def BaseBPlusTree.removeFrom (T : Cfg κ) (k : κ) : ℕ → PageRef κ → TreeM κ Bool
  | 0, _ => throw .outOfFuel
  | fuel + 1, currentPage => do
    let cur ← currentPage.load
    let i ← onPages (cur.data.lowerBound T.slots T.compare k cur.data.keysNum 0)
    if cur.data.isLeaf then do
      let found ← onPages (cur.data.isKeyAt T.slots T.isEqual k i)
      if found then do
        removeInLeaf T i currentPage
        return true
      else return false
    else do
      let nextPage ← readPageFromChild T cur i
      let next ← BaseBPlusTree.prepareChild T i currentPage cur nextPage
      BaseBPlusTree.removeFrom T k fuel next

/-! ## B*+-tree -/

/-- `mergeChildren` of two pages in `BaseBStarPlusTree::remove`: on leaves its own, on inner pages
that of `BaseBStarTree`. -/
def BaseBStarPlusTree.mergeBelow (T : Cfg κ) (isLeaf : Bool) : PageWrapper κ → PageWrapper κ →
    PageRef κ → ℕ → TreeM κ (PageRef κ × PageWrapper κ) :=
  if isLeaf then BaseBStarPlusTree.mergeChildren T else BaseBStarTree.mergeChildren T

/-- `mergeChildren` of three pages in `BaseBStarPlusTree::remove`. -/
def BaseBStarPlusTree.mergeThreeBelow [Inhabited κ] (T : Cfg κ) (isLeaf : Bool)
    (leftSibling nextPage rightSibling : PageWrapper κ) (currentPage : PageRef κ) (i : ℕ) :
    TreeM κ (PageRef κ × PageWrapper κ × PageWrapper κ) :=
  if isLeaf then
    BaseBStarPlusTree.mergeThreeChildren T leftSibling nextPage rightSibling currentPage i
  else
    BaseBStarTree.mergeThreeChildren T leftSibling nextPage rightSibling currentPage (i - 1) i

/-- The part of `BaseBStarPlusTree::remove` between the read of child `i` and the recursive calls
(lines 2189–2288): the page that the first call gets, and the page that a second call gets when the
first returns false. -/
def BaseBStarPlusTree.prepareChild [Inhabited κ] (T : Cfg κ) (i : ℕ) (currentPage : PageRef κ)
    (cur nextPage : PageWrapper κ) : TreeM κ (PageRef κ × Option (PageRef κ)) := do
  let isLeaf := nextPage.data.isLeaf
  let root ← isRoot nextPage
  if !root && nextPage.data.keysNum == T.minKeys then do
    let (borrowed, leftSibling, rightSibling) ← borrow T T.minKeys i currentPage cur nextPage
    match borrowed with
    | some nextPage => return (.local nextPage, none)
    | none =>
      if i > 0 ∧ i < cur.data.keysNum then do
        let (_, leftSibling, nextPage) ← BaseBStarPlusTree.mergeThreeBelow T isLeaf leftSibling
          nextPage rightSibling currentPage i
        return (.local leftSibling, some (.local nextPage))
      else if i > 0 ∧ leftSibling.data.keysNum = T.minKeys then do
        let (_, leftSibling) ← BaseBStarPlusTree.mergeBelow T isLeaf leftSibling nextPage
          currentPage (i - 1)
        return (.local leftSibling, none)
      else do
        let (_, nextPage) ← BaseBStarPlusTree.mergeBelow T isLeaf nextPage rightSibling currentPage
          i
        return (← rootOr nextPage, none)
  else return (← rootOr nextPage, none)

/-- The value of a call that reaches the end of a function without a `return`. -/
def unspecified : TreeM κ Bool := do
  let s ← get
  set { s with noReturn := fun n => s.noReturn (n + 1) }
  return s.noReturn 0

/-- `BaseBStarPlusTree::remove` of a page (lines 2174–2289). Its leaf branch has no `return` after
`removeByKeyNum`. -/
def BaseBStarPlusTree.removeFrom [Inhabited κ] (T : Cfg κ) (k : κ) : ℕ → PageRef κ → TreeM κ Bool
  | 0, _ => throw .outOfFuel
  | fuel + 1, currentPage => do
    let cur ← currentPage.load
    let i ← onPages (cur.data.lowerBound T.slots T.compare k cur.data.keysNum 0)
    if cur.data.isLeaf then do
      let found ← onPages (cur.data.isKeyAt T.slots T.isEqual k i)
      if found then do
        removeInLeaf T i currentPage
        unspecified
      else return false
    else do
      let nextPage ← readPageFromChild T cur i
      let (first, second) ← BaseBStarPlusTree.prepareChild T i currentPage cur nextPage
      match second with
      | none => BaseBStarPlusTree.removeFrom T k fuel first
      | some second => do
        let removed ← BaseBStarPlusTree.removeFrom T k fuel first
        if removed then return true else BaseBStarPlusTree.removeFrom T k fuel second

/-! ## `remove` -/

/-- The virtual `remove` of a page. -/
def removeFrom [Inhabited κ] (T : Cfg κ) (k : κ) : ℕ → PageRef κ → TreeM κ Bool :=
  match T.treeType with
  | .bTree => BaseBTree.removeFrom T k
  | .bPlusTree => BaseBPlusTree.removeFrom T k
  | .bStarTree => BaseBStarTree.removeFrom T k
  | .bStarPlusTree => BaseBStarPlusTree.removeFrom T k

/-- `remove` (lines 302–308). -/
def remove [Inhabited κ] (T : Cfg κ) (k : κ) : TreeM κ Bool := do
  let s ← get
  removeFrom T k (2 * (s.lastPageNum + 1)) .rootPage

/-- `removeAll` (lines 337–353), with at most `fuel` tests of the loop condition. -/
def removeAll [Inhabited κ] (T : Cfg κ) (k : κ) : ℕ → TreeM κ ℕ
  | 0 => throw .outOfFuel
  | fuel + 1 => do
    let removed ← remove T k
    if removed then do
      let amount ← removeAll T k fuel
      return amount + 1
    else return 0

end BTreesMods
