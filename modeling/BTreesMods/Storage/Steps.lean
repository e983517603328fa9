import BTreesMods.Lib.Stepwise
import BTreesMods.Model.Remove

/-!
# Storage calls

The member functions of a tree change the tree and its stream only through a few calls
(`btree.hpp`, lines 64–117, 609–685, 781–789 and 863–868): they write, allocate and free pages, set the
root page and load it, and assign to `_rootPage`. `StorageStep` is one such call that returns. Every run
of `insert`, `search`, `searchAll`, `remove` and `removeAll` of each class is a chain of these steps: there is an
instance of `Stepwise StorageStep` for each function.
-/

namespace BTreesMods

variable {κ : Type}

/-! ## Calls -/

/-- A call of a member function on the storage. `endWithoutReturn` is the end of a function that
returns a value without a `return`. -/
inductive StorageCall (κ : Type)
  | readPage (pnum : ℕ)
  | writePage (pw : PageWrapper κ)
  | allocPage (keysNum : ℕ) (isLeaf : Bool)
  | markPageFree (pageNum : ℕ)
  | setAsRoot (pw : PageWrapper κ)
  | loadRootPage
  | assignRootPage (pw : PageWrapper κ)
  | endWithoutReturn

namespace StorageCall

variable [Inhabited κ]

/-- The call, and the wrapper of the page that it reads or allocates. -/
def run : StorageCall κ → TreeM κ (Option (PageWrapper κ))
  | readPage pnum => do return some (← BTreesMods.readPage pnum)
  | writePage pw => do
    BTreesMods.writePage pw
    return none
  | allocPage keysNum isLeaf => do return some (← BTreesMods.allocPage keysNum isLeaf)
  | markPageFree pageNum => do
    BTreesMods.markPageFree pageNum
    return none
  | setAsRoot pw => do
    BTreesMods.setAsRoot pw
    return none
  | loadRootPage => do
    BTreesMods.loadRootPage
    return none
  | assignRootPage pw => do
    modify fun s => { s with rootPage := pw }
    return none
  | endWithoutReturn => do
    let _ ← unspecified
    return none

end StorageCall

/-- One call that returns. -/
def StorageStep [Inhabited κ] (s s' : BTree κ) : Prop :=
  ∃ (c : StorageCall κ) (r : Option (PageWrapper κ)), c.run s = .ok (r, s')

section

variable [Inhabited κ]

/-- A call whose value is taken apart. -/
theorem storageStep {α : Type} {x : TreeM κ α} (c : StorageCall κ) (f : α → Option (PageWrapper κ))
    (hrun : c.run = x >>= fun a => pure (f a)) : Stepwise StorageStep x := by
  apply Stepwise.single
  intro s a s' h
  refine ⟨c, f a, ?_⟩
  rw [hrun, bind_run h]
  rfl

instance (ref : PageRef κ) : Stepwise StorageStep ref.load := by
  cases ref <;> (unfold PageRef.load; infer_instance)

instance (pw : PageWrapper κ) :
    Stepwise StorageStep (modify fun s => { s with rootPage := pw } : TreeM κ _) :=
  storageStep (.assignRootPage pw) (fun _ => none) rfl

instance (ref : PageRef κ) (pw : PageWrapper κ) : Stepwise StorageStep (ref.store pw) := by
  cases ref with
  | rootPage =>
    unfold PageRef.store
    infer_instance
  | «local» _ =>
    unfold PageRef.store
    infer_instance

instance {α : Type} (x : Except Err α) : Stepwise StorageStep (onPages x : TreeM κ α) := by
  apply Stepwise.const
  intro s a s' h
  cases x with
  | error e => cases h
  | ok b => cases h; rfl

instance (pnum : ℕ) : Stepwise StorageStep (readPage pnum : TreeM κ _) :=
  storageStep (.readPage pnum) some rfl

instance (T : Cfg κ) (pw : PageWrapper κ) (i : ℕ) : Stepwise StorageStep (readPageFromChild T pw i) := by
  unfold readPageFromChild
  infer_instance

instance (pw : PageWrapper κ) : Stepwise StorageStep (writePage pw) :=
  storageStep (.writePage pw) (fun _ => none) rfl

instance (n : ℕ) (leaf : Bool) : Stepwise StorageStep (allocPage n leaf : TreeM κ _) :=
  storageStep (.allocPage n leaf) some rfl

instance (p : ℕ) : Stepwise StorageStep (markPageFree p : TreeM κ _) :=
  storageStep (.markPageFree p) (fun _ => none) rfl

instance : Stepwise StorageStep (loadRootPage : TreeM κ _) :=
  storageStep .loadRootPage (fun _ => none) rfl

instance : Stepwise StorageStep (unspecified : TreeM κ _) :=
  storageStep .endWithoutReturn (fun _ => none) rfl

instance (pw : PageWrapper κ) : Stepwise StorageStep (setAsRoot pw) :=
  storageStep (.setAsRoot pw) (fun _ => none) rfl

instance (pw : PageWrapper κ) : Stepwise StorageStep (isRoot pw) := by
  unfold isRoot
  infer_instance

instance (T : Cfg κ) (pw : PageWrapper κ) : Stepwise StorageStep (isFull T pw) := by
  unfold isFull
  infer_instance

instance (T : Cfg κ) (n : ℕ) : Stepwise StorageStep (newKeys T n) := by
  unfold newKeys
  infer_instance

/-! ## Splitting -/

section

variable (T : Cfg κ)

instance (nd : PageWrapper κ) (i : ℕ) (left : PageWrapper κ) :
    Stepwise StorageStep (splitChildHead T nd i left) := by
  unfold splitChildHead
  infer_instance

instance (node : PageRef κ) (nd : PageWrapper κ) (i : ℕ) (left : PageWrapper κ) (l start r : ℕ)
    (median : Option ℕ) : Stepwise StorageStep (splitChildTail T node nd i left l start r median) := by
  unfold splitChildTail
  refine .seq fun rightChild => .seq ?_
  rintro ⟨ndData, leftData, rightData⟩
  infer_instance

instance (page : PageRef κ) (n : ℕ) : Stepwise StorageStep (setRouterKey T page n) := by
  unfold setRouterKey
  infer_instance

section

variable (node : PageRef κ) (i : ℕ) (left : PageWrapper κ)

instance : Stepwise StorageStep (BaseBTree.splitChild T node i left) := by
  unfold BaseBTree.splitChild
  infer_instance

instance : Stepwise StorageStep (BaseBPlusTree.splitChild T node i left) := by
  unfold BaseBPlusTree.splitChild
  infer_instance

instance : Stepwise StorageStep (BaseBStarTree.splitChild T node i left) := by
  unfold BaseBStarTree.splitChild
  dsimp only
  infer_instance

instance : Stepwise StorageStep (BaseBStarPlusTree.splitChild T node i left) := by
  unfold BaseBStarPlusTree.splitChild
  refine .seq fun nd => .seq fun leftChild => ?_
  split
  · infer_instance
  · apply Stepwise.seq
    rintro ⟨node, leftChild, rightChild⟩
    infer_instance

instance : Stepwise StorageStep (splitChild T node i left) := by
  unfold splitChild
  cases T.treeType <;> infer_instance

end

instance (nd : PageWrapper κ) (i : ℕ) : Stepwise StorageStep (splitChildrenHead T nd i) := by
  unfold splitChildrenHead
  infer_instance

instance (node : PageRef κ) (nd left middle right : PageWrapper κ) :
    Stepwise StorageStep (writeSplitChildren node nd left middle right) := by
  unfold writeSplitChildren
  infer_instance

section

variable (node : PageRef κ) (i : ℕ) (left right : PageWrapper κ) (isShort : Bool)

instance : Stepwise StorageStep (BaseBStarTree.splitChildren T node i left right isShort) := by
  unfold BaseBStarTree.splitChildren
  refine .seq fun nd => .seq fun _ => .seq fun middle => .seq fun _ => .seq ?_
  rintro ⟨ndData, leftData, middleData, rightData⟩
  infer_instance

instance : Stepwise StorageStep (BaseBStarPlusTree.splitChildren T node i left right isShort) := by
  unfold BaseBStarPlusTree.splitChildren
  refine .seq fun nd => .seq fun _ => ?_
  split
  · infer_instance
  · refine .seq fun middle => .seq fun _ => .seq ?_
    rintro ⟨ndData, leftData, middleData, rightData⟩
    infer_instance

instance : Stepwise StorageStep (splitChildren T node i left right isShort) := by
  unfold splitChildren
  cases T.treeType <;> infer_instance

end

/-! ## Insertion -/

instance (child sibling : PageWrapper κ) (what : String) (wrong : Bool) (what' : String) :
    Stepwise StorageStep (shareHead T child sibling what wrong what') := by
  unfold shareHead
  infer_instance

instance (node : PageRef κ) (nd first second : PageWrapper κ) :
    Stepwise StorageStep (writeShared node nd first second) := by
  unfold writeShared
  infer_instance

section

variable (rec : PageRef κ → TreeM κ Unit) [∀ ref, Stepwise StorageStep (rec ref)] (k : κ)
  (node : PageRef κ) (i : ℕ) (child : PageWrapper κ)

instance (left : PageWrapper κ) : Stepwise StorageStep
    (BaseBStarTree.shareKeysWithLeftChildAndInsert T rec k node i child left) := by
  unfold BaseBStarTree.shareKeysWithLeftChildAndInsert
  refine .seq fun nd => .seq fun _ => .seq fun firstKey => ?_
  split
  · infer_instance
  · apply Stepwise.seq
    rintro ⟨ndData, childData, leftData⟩
    infer_instance

instance (right : PageWrapper κ) : Stepwise StorageStep
    (BaseBStarTree.shareKeysWithRightChildAndInsert T rec k node i child right) := by
  unfold BaseBStarTree.shareKeysWithRightChildAndInsert
  refine .seq fun nd => .seq fun _ => .seq fun lastKey => ?_
  split
  · infer_instance
  · apply Stepwise.seq
    rintro ⟨ndData, childData, rightData⟩
    infer_instance

instance (left : PageWrapper κ) : Stepwise StorageStep
    (BaseBStarPlusTree.shareKeysWithLeftChildAndInsert T rec k node i child left) := by
  unfold BaseBStarPlusTree.shareKeysWithLeftChildAndInsert
  refine .seq fun nd => .seq fun _ => ?_
  split
  · infer_instance
  · refine .seq fun firstKey => ?_
    split
    · infer_instance
    · apply Stepwise.seq
      rintro ⟨childData, leftData⟩
      infer_instance

instance (right : PageWrapper κ) : Stepwise StorageStep
    (BaseBStarPlusTree.shareKeysWithRightChildAndInsert T rec k node i child right) := by
  unfold BaseBStarPlusTree.shareKeysWithRightChildAndInsert
  refine .seq fun nd => .seq fun _ => ?_
  split
  · infer_instance
  · refine .seq fun lastButOne => ?_
    split
    · infer_instance
    · apply Stepwise.seq
      rintro ⟨childData, rightData⟩
      infer_instance

instance (left : PageWrapper κ) : Stepwise StorageStep
    (shareKeysWithLeftChildAndInsert T rec k node i child left) := by
  unfold shareKeysWithLeftChildAndInsert
  cases T.treeType <;> infer_instance

instance (right : PageWrapper κ) : Stepwise StorageStep
    (shareKeysWithRightChildAndInsert T rec k node i child right) := by
  unfold shareKeysWithRightChildAndInsert
  cases T.treeType <;> infer_instance

instance : Stepwise StorageStep (BaseBTree.insertBelow T rec k node i child) := by
  unfold BaseBTree.insertBelow
  refine .seq fun full => ?_
  split
  · apply Stepwise.seq
    rintro ⟨currentNode, child, newChild⟩
    infer_instance
  · infer_instance

instance (left right : PageWrapper κ) (isShort : Bool) : Stepwise StorageStep
    (BaseBStarTree.insertBelowSplit T rec k node i left right isShort) := by
  unfold BaseBStarTree.insertBelowSplit
  apply Stepwise.seq
  rintro ⟨currentNode, left, middle, right⟩
  infer_instance

instance (cur : PageWrapper κ) :
    Stepwise StorageStep (BaseBStarTree.tryLeft T rec k node cur i child) := by
  unfold BaseBStarTree.tryLeft
  infer_instance

instance (cur : PageWrapper κ) :
    Stepwise StorageStep (BaseBStarTree.tryRight T rec k node cur i child) := by
  unfold BaseBStarTree.tryRight
  infer_instance

instance : Stepwise StorageStep (BaseBStarTree.insertBelow T rec k node i child) := by
  unfold BaseBStarTree.insertBelow
  refine .seq fun cur => .seq fun full => ?_
  split
  · apply Stepwise.seq
    rintro ⟨leftSibling, done⟩
    dsimp only
    split
    · infer_instance
    · apply Stepwise.seq
      rintro ⟨rightSibling, done⟩
      infer_instance
  · infer_instance

instance : Stepwise StorageStep (insertBelow T rec k node i child) := by
  unfold insertBelow
  cases T.treeType <;> infer_instance

end

instance (k : κ) (fuel : ℕ) (node : PageRef κ) : Stepwise StorageStep (insertNonFull T k fuel node) := by
  induction fuel generalizing node with
  | zero =>
    unfold insertNonFull
    infer_instance
  | succ fuel ih =>
    unfold insertNonFull
    infer_instance

instance : Stepwise StorageStep (splitRoot T) := by
  unfold splitRoot
  infer_instance

instance (k : κ) : Stepwise StorageStep (insert T k) := by
  unfold insert
  infer_instance

/-! ## Lookup -/

instance (k : κ) (fuel : ℕ) (pw : PageWrapper κ) (depth m : ℕ) :
    Stepwise StorageStep (searchPage T k fuel pw depth m) := by
  induction fuel generalizing pw depth m with
  | zero =>
    unfold searchPage
    infer_instance
  | succ fuel ih =>
    unfold searchPage
    cases T.treeType <;> infer_instance

instance (k : κ) : Stepwise StorageStep (searchDepth T k) := by
  unfold searchDepth
  infer_instance

instance (k : κ) : Stepwise StorageStep (search T k) := by
  unfold search
  infer_instance

instance (k : κ) (visit : PageWrapper κ → List κ → TreeM κ (List κ × ℕ))
    [∀ pw keys, Stepwise StorageStep (visit pw keys)] (pw : PageWrapper κ) (countKeys : Bool)
    (first n i : ℕ) (keys : List κ) (amount : ℕ) :
    Stepwise StorageStep (searchAllLoop T k visit pw countKeys first n i keys amount) := by
  induction n generalizing i keys amount with
  | zero =>
    unfold searchAllLoop
    infer_instance
  | succ n ih =>
    unfold searchAllLoop
    refine .seq fun key => ?_
    split
    · split
      refine .branch (.seq fun nextPage => .seq ?_) inferInstance
      rintro ⟨keys, found⟩
      infer_instance
    · infer_instance

instance (k : κ) (fuel : ℕ) (pw : PageWrapper κ) (keys : List κ) :
    Stepwise StorageStep (searchAllPage T k fuel pw keys) := by
  induction fuel generalizing pw keys with
  | zero =>
    unfold searchAllPage
    infer_instance
  | succ fuel ih =>
    unfold searchAllPage
    refine .seq fun first => .seq ?_
    rintro ⟨i, keys, amount⟩
    dsimp only
    split
    · refine .seq fun nextPage => .seq ?_
      rintro ⟨keys, found⟩
      infer_instance
    · infer_instance

instance (k : κ) (keys : List κ) : Stepwise StorageStep (searchAll T k keys) := by
  unfold searchAll
  infer_instance

/-! ## Rebalancing -/

instance (left right : PageWrapper κ) (ref : PageRef κ) (n : ℕ) :
    Stepwise StorageStep (finishMerge T left right ref n) := by
  unfold finishMerge
  refine .seq fun cur => .seq fun data => .seq fun _ => ?_
  split <;> infer_instance

section

variable (left middle right : PageWrapper κ) (ref : PageRef κ) (n m : ℕ)

instance : Stepwise StorageStep (BaseBTree.mergeChildren T left right ref n) := by
  unfold BaseBTree.mergeChildren
  infer_instance

instance : Stepwise StorageStep (BaseBPlusTree.mergeChildren T left right ref n) := by
  unfold BaseBPlusTree.mergeChildren
  infer_instance

instance : Stepwise StorageStep (BaseBStarTree.mergeChildren T left right ref n) := by
  unfold BaseBStarTree.mergeChildren
  infer_instance

instance : Stepwise StorageStep (BaseBStarPlusTree.mergeChildren T left right ref n) := by
  unfold BaseBStarPlusTree.mergeChildren
  infer_instance

instance (cur : PageWrapper κ) : Stepwise StorageStep (finishMergeThree left middle right ref cur) := by
  unfold finishMergeThree
  infer_instance

instance : Stepwise StorageStep (BaseBStarTree.mergeThreeChildren T left middle right ref n m) := by
  unfold BaseBStarTree.mergeThreeChildren
  refine .seq fun cur => .seq fun _ => .seq ?_
  rintro ⟨leftData, middleData, data⟩
  infer_instance

instance : Stepwise StorageStep (BaseBStarPlusTree.mergeThreeChildren T left middle right ref m) := by
  unfold BaseBStarPlusTree.mergeThreeChildren
  split
  · infer_instance
  · refine .seq fun cur => .seq fun _ => .seq ?_
    rintro ⟨leftData, middleData, data⟩
    infer_instance

instance : Stepwise StorageStep (moveOneKeyFromLeft T left right ref n) := by
  unfold moveOneKeyFromLeft
  refine .seq fun cur => .seq ?_
  rintro ⟨leftData, childData, data⟩
  infer_instance

instance : Stepwise StorageStep (moveOneKeyFromRight T left right ref n) := by
  unfold moveOneKeyFromRight
  refine .seq fun cur => .seq ?_
  rintro ⟨rightData, childData, data⟩
  infer_instance

end

section

variable (i : ℕ) (ref : PageRef κ) (cur left child right : PageWrapper κ)

instance : Stepwise StorageStep (rotateFromNeighbour T i ref cur child) := by
  unfold rotateFromNeighbour
  dsimp only
  split <;> refine .seq fun leftNeighbour => ?_
  all_goals
    split
    · apply Stepwise.seq
      rintro ⟨leftNeighbour, child, ref⟩
      infer_instance
    · split <;> refine .seq fun rightNeighbour => ?_
      all_goals
        split
        · apply Stepwise.seq
          rintro ⟨rightNeighbour, child, ref⟩
          infer_instance
        · infer_instance

instance : Stepwise StorageStep (BaseBTree.prepareSubtree T i ref) := by
  unfold BaseBTree.prepareSubtree
  refine .seq fun cur => .seq fun child => ?_
  split
  · apply Stepwise.seq
    rintro ⟨rotated, leftNeighbour, rightNeighbour⟩
    cases rotated with
    | some prepared => infer_instance
    | none =>
      dsimp only
      split <;>
      · apply Stepwise.seq
        rintro ⟨ref, merged⟩
        infer_instance
  · infer_instance

instance : Stepwise StorageStep (BaseBStarTree.prepareFromLeft T i ref cur left child right) := by
  unfold BaseBStarTree.prepareFromLeft
  split
  · apply Stepwise.seq
    rintro ⟨ref, leftNeighbour, child⟩
    infer_instance
  · refine .seq fun leftLeftNeighbour => ?_
    split
    · apply Stepwise.seq
      rintro ⟨leftLeftNeighbour, leftNeighbour, ref⟩
      apply Stepwise.seq
      rintro ⟨leftNeighbour, child, ref⟩
      infer_instance
    · apply Stepwise.seq
      rintro ⟨ref, leftLeftNeighbour, leftNeighbour⟩
      infer_instance

instance : Stepwise StorageStep (BaseBStarTree.prepareFromRight T i ref cur left child right) := by
  unfold BaseBStarTree.prepareFromRight
  refine .seq fun rightRightNeighbour => ?_
  split
  · apply Stepwise.seq
    rintro ⟨rightRightNeighbour, rightNeighbour, ref⟩
    apply Stepwise.seq
    rintro ⟨rightNeighbour, child, ref⟩
    infer_instance
  · apply Stepwise.seq
    rintro ⟨ref, child, rightNeighbour⟩
    infer_instance

instance : Stepwise StorageStep (BaseBStarTree.prepareSubtree T i ref) := by
  unfold BaseBStarTree.prepareSubtree
  refine .seq fun cur => .seq fun child => ?_
  split
  · apply Stepwise.seq
    rintro ⟨rotated, leftNeighbour, rightNeighbour⟩
    cases rotated with
    | some prepared => infer_instance
    | none =>
      dsimp only
      refine .seq fun root => ?_
      split
      · split <;>
        · apply Stepwise.seq
          rintro ⟨ref, merged⟩
          infer_instance
      · infer_instance
  · infer_instance

instance : Stepwise StorageStep (prepareSubtree T i ref) := by
  unfold prepareSubtree
  cases T.treeType <;> infer_instance

end

/-! ## Removal -/

instance (n : ℕ) (ref : PageRef κ) : Stepwise StorageStep (removeInLeaf T n ref) := by
  unfold removeInLeaf
  infer_instance

instance (n : ℕ) (ref : PageRef κ) (k : κ) : Stepwise StorageStep (replaceKey T n ref k) := by
  unfold replaceKey
  infer_instance

instance (fuel : ℕ) (pw : PageWrapper κ) : Stepwise StorageStep (getAndRemoveMaxKey T fuel pw) := by
  induction fuel generalizing pw with
  | zero =>
    unfold getAndRemoveMaxKey
    infer_instance
  | succ fuel ih =>
    unfold getAndRemoveMaxKey
    infer_instance

instance (fuel : ℕ) (pw : PageWrapper κ) : Stepwise StorageStep (getAndRemoveMinKey T fuel pw) := by
  induction fuel generalizing pw with
  | zero =>
    unfold getAndRemoveMinKey
    infer_instance
  | succ fuel ih =>
    unfold getAndRemoveMinKey
    infer_instance

instance (fuel n : ℕ) (ref : PageRef κ) :
    Stepwise StorageStep (BaseBTree.removeByKeyNum T fuel n ref) := by
  induction fuel generalizing n ref with
  | zero =>
    unfold BaseBTree.removeByKeyNum
    infer_instance
  | succ fuel ih =>
    unfold BaseBTree.removeByKeyNum
    refine .seq fun cur => .branch inferInstance (.seq fun leftChild => ?_)
    refine .branch inferInstance (.seq fun rightChild => ?_)
    refine .branch inferInstance (.seq ?_)
    rintro ⟨ref, leftChild⟩
    infer_instance

instance (k : κ) (fuel : ℕ) (ref : PageRef κ) :
    Stepwise StorageStep (BaseBTree.removeFrom T k fuel ref) := by
  induction fuel generalizing ref with
  | zero =>
    unfold BaseBTree.removeFrom
    infer_instance
  | succ fuel ih =>
    unfold BaseBTree.removeFrom
    infer_instance

/-- Both functions of a B*-tree that call each other. -/
theorem BaseBStarTree.removal_stepwise (fuel : ℕ) :
    (∀ n ref, Stepwise StorageStep (BaseBStarTree.removeByKeyNum T fuel n ref)) ∧
      ∀ k ref, Stepwise StorageStep (BaseBStarTree.removeFrom T k fuel ref) := by
  induction fuel with
  | zero =>
    constructor
    · intro n ref
      unfold BaseBStarTree.removeByKeyNum
      infer_instance
    · intro k ref
      unfold BaseBStarTree.removeFrom
      infer_instance
  | succ fuel ih =>
    obtain ⟨ihKey, ih⟩ := ih
    constructor
    · intro n ref
      unfold BaseBStarTree.removeByKeyNum
      refine .seq fun cur => .branch inferInstance (.seq fun leftChild => ?_)
      refine .branch inferInstance (.seq fun rightChild => ?_)
      refine .branch inferInstance (.seq fun root => ?_)
      refine .branch (.seq ?_) inferInstance
      rintro ⟨ref, leftChild⟩
      infer_instance
    · intro k ref
      unfold BaseBStarTree.removeFrom
      infer_instance

instance (k : κ) (fuel : ℕ) (ref : PageRef κ) :
    Stepwise StorageStep (BaseBStarTree.removeFrom T k fuel ref) :=
  (BaseBStarTree.removal_stepwise T fuel).2 k ref

instance (n i : ℕ) (ref : PageRef κ) (cur next : PageWrapper κ) :
    Stepwise StorageStep (borrow T n i ref cur next) := by
  unfold borrow
  dsimp only
  split <;> refine .seq fun leftSibling => ?_
  all_goals
    split
    · apply Stepwise.seq
      rintro ⟨leftData, nextData⟩
      infer_instance
    · split <;> refine .seq fun rightSibling => ?_
      all_goals
        split
        · apply Stepwise.seq
          rintro ⟨rightData, nextData, data⟩
          infer_instance
        · infer_instance

instance (pw : PageWrapper κ) : Stepwise StorageStep (rootOr pw) := by
  unfold rootOr
  infer_instance

section

variable (isLeaf : Bool) (left next right : PageWrapper κ) (ref : PageRef κ) (i : ℕ) (k : κ)

instance : Stepwise StorageStep (BaseBPlusTree.mergeBelow T isLeaf left right ref i) := by
  unfold BaseBPlusTree.mergeBelow
  split <;> infer_instance

instance (cur : PageWrapper κ) : Stepwise StorageStep (BaseBPlusTree.prepareChild T i ref cur next) := by
  unfold BaseBPlusTree.prepareChild
  refine .seq fun root => .branch (.seq ?_) inferInstance
  rintro ⟨borrowed, leftSibling, rightSibling⟩
  cases borrowed <;> infer_instance

instance (fuel : ℕ) : Stepwise StorageStep (BaseBPlusTree.removeFrom T k fuel ref) := by
  induction fuel generalizing ref with
  | zero =>
    unfold BaseBPlusTree.removeFrom
    infer_instance
  | succ fuel ih =>
    unfold BaseBPlusTree.removeFrom
    infer_instance

instance : Stepwise StorageStep (BaseBStarPlusTree.mergeBelow T isLeaf left right ref i) := by
  unfold BaseBStarPlusTree.mergeBelow
  split <;> infer_instance

instance : Stepwise StorageStep (BaseBStarPlusTree.mergeThreeBelow T isLeaf left next right ref i) := by
  unfold BaseBStarPlusTree.mergeThreeBelow
  cases isLeaf <;> infer_instance

instance (cur : PageWrapper κ) :
    Stepwise StorageStep (BaseBStarPlusTree.prepareChild T i ref cur next) := by
  unfold BaseBStarPlusTree.prepareChild
  refine .seq fun root => .branch (.seq ?_) inferInstance
  rintro ⟨borrowed, leftSibling, rightSibling⟩
  cases borrowed with
  | some nextPage => infer_instance
  | none =>
    dsimp only
    split
    · apply Stepwise.seq
      rintro ⟨ref, leftSibling, nextPage⟩
      infer_instance
    · split <;>
      · apply Stepwise.seq
        rintro ⟨ref, merged⟩
        infer_instance

instance (fuel : ℕ) : Stepwise StorageStep (BaseBStarPlusTree.removeFrom T k fuel ref) := by
  induction fuel generalizing ref with
  | zero =>
    unfold BaseBStarPlusTree.removeFrom
    infer_instance
  | succ fuel ih =>
    unfold BaseBStarPlusTree.removeFrom
    refine .seq fun cur => .seq fun i => .branch inferInstance ?_
    refine .seq fun nextPage => .seq ?_
    rintro ⟨first, second⟩
    cases second <;> infer_instance

instance (fuel : ℕ) : Stepwise StorageStep (removeFrom T k fuel ref) := by
  unfold removeFrom
  cases T.treeType <;> infer_instance

instance : Stepwise StorageStep (remove T k) := by
  unfold remove
  infer_instance

instance (fuel : ℕ) : Stepwise StorageStep (removeAll T k fuel) := by
  induction fuel with
  | zero =>
    unfold removeAll
    infer_instance
  | succ fuel ih =>
    unfold removeAll
    infer_instance

end

end

end

end BTreesMods
