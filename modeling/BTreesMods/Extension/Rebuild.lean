import BTreesMods.Extension.Table

/-!
# Rebuilding the index

Model of `rebuildIndexIfNecessary` and `rebuildIndex` (`btrees_mods.c`, lines 949–1001). The keys of
the old tree are collected with `searchAll`, run with `searchAllByteComparator` on a key of zero bytes,
and inserted into a new tree with `byteComparator`, whose `firstPartBytes` is that of the table used
last. The product of a count up to `REBUILD_MAX_COUNT` with the doubles `REBUILD_COEF` and
`REBUILD_SPLIT_PERCENT_POINT` compares with a count as the exact product does.

The operations of a tree rely on the order of the comparator that they run with. Results:
* `rebuildIndexIfNecessary_records`: which records a rebuild keeps.
* `rebuildIndex_invisible_iff`: when a rebuild keeps the records and their order.
-/

namespace BTreesMods

def BTREE_NUM : ℕ := 1
def BPLUSTREE_NUM : ℕ := 2
def BSTARTREE_NUM : ℕ := 3
def BSTARPLUSTREE_NUM : ℕ := 4

def REBUILD_COUNT : ℕ := 1000
def REBUILD_MAX_COUNT : ℕ := 10000

namespace IndexStats

variable (stats : IndexStats)

def updatesCount : ℕ := stats.insertsCount + stats.deletesCount

def totalOperationsCount : ℕ := stats.updatesCount + stats.searchesCount

/-- The number of the tree kind that `rebuildIndexIfNecessary` chooses: is `insertsCount` greater than
0.7397 of `updatesCount`? -/
def chosenIndex : ℕ :=
  if 7397 * stats.updatesCount < 10000 * stats.insertsCount then BSTARTREE_NUM else BSTARPLUSTREE_NUM

end IndexStats

/-- A new table whose column with the number `indexColNumber` is a primary key declared `indexDataType`
(`registerIndexColumn`, lines 631–697, and `createIndex`, lines 575–603). -/
def VirtualTable.created (I : IndexTree) (indexColNumber : ℤ) (indexDataType : String) : VirtualTable I where
  bestIndex := BPLUSTREE_NUM
  indexColNumber := indexColNumber
  indexDataType := indexDataType
  indexDataSize := (getDataSizeByType indexDataType).toNat
  stats := ⟨0, 0, 0, true⟩
  firstPartBytes := 0
  beyond _ := 0
  tree := I.create BPLUSTREE_NUM
  real := []

namespace VirtualTable

variable {I : IndexTree} (vt : VirtualTable I)

/-- `createTreeKey((sqlite_int64) 0, virtualTable)`. -/
def startKey : Key := (createTreeKey vt.beyond vt.indexDataSize none 0).getD []

/-- The keys that `searchAll` collects with `searchAllByteComparator`. -/
def scannedKeys : List Key :=
  I.searchAll (.searchAllByteComparator vt.indexDataSize) vt.startKey vt.tree

/-- The insertions of a rebuild: the `firstPartBytes` of `byteComparator`, and the key. -/
def rebuildInsertions : List (ℕ × Key) := vt.scannedKeys.map fun key => (vt.firstPartBytes, key)

/-- `rebuildIndex` (lines 980–1001). -/
def rebuildIndex : VirtualTable I :=
  { vt with tree := vt.rebuildInsertions.foldl (fun t p => I.insert p.1 p.2 t) (I.create vt.bestIndex) }

/-- `rebuildIndexIfNecessary` (lines 949–978). -/
def rebuildIndexIfNecessary : VirtualTable I :=
  if vt.stats.isOriginalStats = false then vt
  else if vt.stats.totalOperationsCount = 0 then vt
  else if vt.stats.totalOperationsCount > REBUILD_MAX_COUNT then vt
  else if vt.stats.totalOperationsCount % REBUILD_COUNT ≠ 0 then vt
  else if 10 * vt.stats.updatesCount < vt.stats.totalOperationsCount then vt
  else
    let oldBestIndex := vt.bestIndex
    let vt := { vt with bestIndex := vt.stats.chosenIndex }
    if vt.bestIndex ≠ oldBestIndex then vt.rebuildIndex else vt

/-- When `rebuildIndexIfNecessary` switches to another tree kind. -/
structure RebuildDue : Prop where
  original : vt.stats.isOriginalStats = true
  pos : vt.stats.totalOperationsCount ≠ 0
  le : vt.stats.totalOperationsCount ≤ REBUILD_MAX_COUNT
  count : vt.stats.totalOperationsCount % REBUILD_COUNT = 0
  updates : vt.stats.totalOperationsCount ≤ 10 * vt.stats.updatesCount
  switch : vt.stats.chosenIndex ≠ vt.bestIndex

/-- The table with the chosen tree kind. -/
def choose : VirtualTable I := { vt with bestIndex := vt.stats.chosenIndex }

theorem rebuildIndexIfNecessary_cases :
    (vt.RebuildDue ∧ vt.rebuildIndexIfNecessary = vt.choose.rebuildIndex) ∨
      (¬ vt.RebuildDue ∧ vt.rebuildIndexIfNecessary = vt) := by
  unfold rebuildIndexIfNecessary
  by_cases hswitch : vt.stats.chosenIndex = vt.bestIndex
  · right
    exact ⟨fun h => h.switch hswitch, by simp [hswitch]⟩
  · split_ifs with horiginal hpos hle hcount hupdates
    · exact Or.inr ⟨fun h => by simp [h.original] at horiginal, rfl⟩
    · exact Or.inr ⟨fun h => h.pos hpos, rfl⟩
    · exact Or.inr ⟨fun h => absurd h.le (Nat.not_le.mpr hle), rfl⟩
    · exact Or.inr ⟨fun h => hcount h.count, rfl⟩
    · exact Or.inr ⟨fun h => absurd h.updates (Nat.not_le.mpr hupdates), rfl⟩
    · left
      refine ⟨⟨by simpa using horiginal, hpos, Nat.not_lt.mp hle, not_not.mp hcount,
        Nat.not_lt.mp hupdates, hswitch⟩, ?_⟩
      simp only [if_pos (show _ ≠ _ from hswitch)]
      rfl

instance : Decidable vt.RebuildDue :=
  decidable_of_iff (vt.stats.isOriginalStats = true ∧ vt.stats.totalOperationsCount ≠ 0 ∧
      vt.stats.totalOperationsCount ≤ REBUILD_MAX_COUNT ∧ vt.stats.totalOperationsCount % REBUILD_COUNT = 0 ∧
      vt.stats.totalOperationsCount ≤ 10 * vt.stats.updatesCount ∧ vt.stats.chosenIndex ≠ vt.bestIndex)
    ⟨fun ⟨horiginal, hpos, hle, hcount, hupdates, hswitch⟩ =>
      ⟨horiginal, hpos, hle, hcount, hupdates, hswitch⟩,
    fun h => ⟨h.original, h.pos, h.le, h.count, h.updates, h.switch⟩⟩

theorem rebuildIndexIfNecessary_eq :
    ∃ b t, vt.rebuildIndexIfNecessary = { vt with bestIndex := b, tree := t } := by
  rcases vt.rebuildIndexIfNecessary_cases with ⟨-, hrun⟩ | ⟨-, hrun⟩
  · exact ⟨vt.stats.chosenIndex, vt.choose.rebuildIndex.tree, hrun⟩
  · exact ⟨vt.bestIndex, vt.tree, hrun⟩

/-! ## The records -/

section Rebuilding

variable {I : IndexTree} (vt : VirtualTable I)

/-- The tree has the order of the key prefix of its table. -/
def Ordered : Prop := KeysOrdered vt.indexDataSize (I.records vt.tree)

/-- `u` is `vt` after a rebuild that cannot be seen: the records are the same and in the order of the
key prefix, the comparator had the length of this prefix during every insertion, and a search for the
key of any value finds the same records. -/
structure RebuildInvisible (u : VirtualTable I) : Prop where
  records : (I.records u.tree).Perm (I.records vt.tree)
  ordered : KeysOrdered vt.indexDataSize (I.records u.tree)
  comparator : ∀ p ∈ vt.rebuildInsertions, p.1 = vt.indexDataSize
  searchAll : ∀ value key, vt.searchedKey value = some key →
    (I.searchAll (.byteComparator vt.indexDataSize) key u.tree).Perm
      (I.searchAll (.byteComparator vt.indexDataSize) key vt.tree)

/-- No record is below the key that the scan starts from, and the table used last has keys of the same
size, or there are no records. -/
structure RebuildSafe : Prop where
  start : ∀ x ∈ I.records vt.tree, keyBelow vt.indexDataSize x vt.startKey = false
  last : I.records vt.tree = [] ∨ vt.firstPartBytes = vt.indexDataSize

instance : Decidable vt.RebuildSafe :=
  decidable_of_iff ((∀ x ∈ I.records vt.tree, keyBelow vt.indexDataSize x vt.startKey = false) ∧
      (I.records vt.tree = [] ∨ vt.firstPartBytes = vt.indexDataSize))
    ⟨fun ⟨hstart, hlast⟩ => ⟨hstart, hlast⟩, fun h => ⟨h.start, h.last⟩⟩

/-- The comparator reads the key prefix of the table at the insertions of a rebuild, or there are none. -/
def RebuildOrdered : Prop := I.records vt.tree = [] ∨ vt.indexDataSize ≤ vt.firstPartBytes

/-- Whether `rebuildIndexIfNecessary` keeps a record. -/
def rebuildKeeps (x : Key) : Bool := !(decide vt.RebuildDue && keyBelow vt.indexDataSize x vt.startKey)

/-- A rebuild, if one is due, keeps all records and the order of the key prefix. -/
structure RebuildHarmless : Prop where
  keeps : ∀ x ∈ I.records vt.tree, vt.rebuildKeeps x = true
  ordered : vt.RebuildDue → vt.RebuildOrdered

instance : Decidable vt.RebuildOrdered := inferInstanceAs (Decidable (_ ∨ _))

instance : Decidable vt.RebuildHarmless :=
  decidable_of_iff ((∀ x ∈ I.records vt.tree, vt.rebuildKeeps x = true) ∧
      (vt.RebuildDue → vt.RebuildOrdered))
    ⟨fun ⟨hkeeps, hordered⟩ => ⟨hkeeps, hordered⟩, fun h => ⟨h.keeps, h.ordered⟩⟩

end Rebuilding

section Ordered

variable {I : OrderedTree} {vt : VirtualTable I.toIndexTree}

theorem created_ordered (indexColNumber : ℤ) (indexDataType : String) :
    (created I.toIndexTree indexColNumber indexDataType).Ordered := by
  show KeysOrdered _ (I.records (I.create BPLUSTREE_NUM))
  rw [I.create_records]
  exact List.Pairwise.nil

theorem created_agree (indexColNumber : ℤ) (indexDataType : String) :
    (created I.toIndexTree indexColNumber indexDataType).Agree := by
  show ((I.records (I.create BPLUSTREE_NUM)).map some).Perm _
  rw [I.create_records]
  exact List.Perm.refl _

theorem foldl_insert_ordered (n : ℕ) (keys : List Key) (t : I.Tree)
    (ht : KeysOrdered n (I.records t)) :
    let u := (keys.map fun key => (n, key)).foldl (fun t p => I.insert p.1 p.2 t) t
    KeysOrdered n (I.records u) ∧ (I.records u).Perm (keys ++ I.records t) := by
  induction keys generalizing t with
  | nil => exact ⟨ht, List.Perm.refl _⟩
  | cons key keys ih =>
    obtain ⟨hordered, hperm⟩ := I.insert_records n key t ht
    obtain ⟨hfinal, hall⟩ := ih _ hordered
    exact ⟨hfinal, hall.trans ((hperm.append_left keys).trans List.perm_middle)⟩

/-- The scan collects the records that are not below its start. -/
theorem scannedKeys_perm (hord : vt.Ordered) :
    vt.scannedKeys.Perm
      ((I.records vt.tree).filter fun x => !keyBelow vt.indexDataSize x vt.startKey) := by
  have h := I.searchAll_records (.searchAllByteComparator vt.indexDataSize) vt.startKey vt.tree hord
  simp only [IndexComparator.firstPartBytes, IndexComparator.isEqual, Bool.and_true] at h
  exact h

/-- A rebuild with a comparator that reads the key prefix. -/
theorem rebuildIndex_ordered (hlast : vt.scannedKeys = [] ∨ vt.indexDataSize ≤ vt.firstPartBytes) :
    vt.rebuildIndex.Ordered ∧ (I.records vt.rebuildIndex.tree).Perm vt.scannedKeys := by
  have hempty (n : ℕ) : KeysOrdered n (I.records (I.create vt.bestIndex)) := by
    rw [I.create_records]
    exact List.Pairwise.nil
  rcases hlast with hnil | hlast
  · have hrun : vt.rebuildIndex.tree = I.create vt.bestIndex := by
      show vt.rebuildInsertions.foldl _ _ = _
      rw [rebuildInsertions, hnil]
      rfl
    rw [Ordered, hrun, hnil]
    exact ⟨hempty _, by rw [I.create_records]⟩
  · obtain ⟨hordered, hperm⟩ :=
      foldl_insert_ordered vt.firstPartBytes vt.scannedKeys (I.create vt.bestIndex) (hempty _)
    rw [I.create_records, List.append_nil] at hperm
    exact ⟨hordered.mono hlast, hperm⟩

/-- The records after a rebuild, if one is due. -/
theorem rebuildIndexIfNecessary_records (hord : vt.Ordered) (hlast : vt.RebuildDue → vt.RebuildOrdered) :
    vt.rebuildIndexIfNecessary.Ordered ∧
      (I.records vt.rebuildIndexIfNecessary.tree).Perm ((I.records vt.tree).filter vt.rebuildKeeps) := by
  rcases vt.rebuildIndexIfNecessary_cases with ⟨hdue, hrun⟩ | ⟨hnot, hrun⟩
  · have hscan : vt.choose.scannedKeys.Perm ((I.records vt.tree).filter vt.rebuildKeeps) := by
      have hkeeps : vt.rebuildKeeps = fun x => !keyBelow vt.indexDataSize x vt.startKey := by
        funext x
        rw [rebuildKeeps, decide_eq_true hdue, Bool.true_and]
      have hchoose : vt.choose.Ordered := hord
      rw [hkeeps]
      exact scannedKeys_perm hchoose
    have hlast' : vt.choose.scannedKeys = [] ∨ vt.choose.indexDataSize ≤ vt.choose.firstPartBytes := by
      refine (hlast hdue).imp_left fun hnil => ?_
      rw [hnil] at hscan
      exact List.perm_nil.mp hscan
    rw [hrun]
    exact (rebuildIndex_ordered hlast').imp_right fun hperm => hperm.trans hscan
  · have hall : (I.records vt.tree).filter vt.rebuildKeeps = I.records vt.tree := by
      refine List.filter_eq_self.mpr fun x _ => ?_
      rw [rebuildKeeps, decide_eq_false hnot]
      rfl
    rw [hrun, hall]
    exact ⟨hord, List.Perm.refl _⟩

theorem RebuildHarmless.records (h : vt.RebuildHarmless) (hord : vt.Ordered) :
    vt.rebuildIndexIfNecessary.Ordered ∧
      (I.records vt.rebuildIndexIfNecessary.tree).Perm (I.records vt.tree) := by
  have hrecords := rebuildIndexIfNecessary_records hord h.ordered
  rw [List.filter_eq_self.mpr h.keeps] at hrecords
  exact hrecords

theorem rebuildIndex_invisible_iff (hord : vt.Ordered) :
    vt.RebuildInvisible vt.rebuildIndex ↔ vt.RebuildSafe := by
  have hscan := scannedKeys_perm hord
  constructor
  · intro h
    have hlast : vt.scannedKeys = [] ∨ vt.firstPartBytes = vt.indexDataSize := by
      cases hkeys : vt.scannedKeys with
      | nil => exact Or.inl rfl
      | cons key keys =>
        right
        apply h.comparator (vt.firstPartBytes, key)
        rw [rebuildInsertions, hkeys]
        exact List.mem_cons_self
    have hkept := ((rebuildIndex_ordered (hlast.imp_right ge_of_eq)).2.symm.trans h.records).symm.trans hscan
    have hall := List.length_filter_eq_length_iff.mp hkept.length_eq.symm
    refine ⟨fun x hx => by simpa using hall x hx, ?_⟩
    rcases hlast with hnil | hlast
    · left
      rw [hnil] at hscan
      rw [List.nil_perm.mp hscan] at hkept
      exact List.perm_nil.mp hkept
    · exact Or.inr hlast
  · intro h
    have hall : ((I.records vt.tree).filter fun x => !keyBelow vt.indexDataSize x vt.startKey) =
        I.records vt.tree := by
      rw [List.filter_eq_self]
      intro x hx
      rw [h.start x hx]
      rfl
    rw [hall] at hscan
    have hlast : vt.scannedKeys = [] ∨ vt.firstPartBytes = vt.indexDataSize := by
      apply h.last.imp_left
      intro hnil
      rw [hnil] at hscan
      exact List.perm_nil.mp hscan
    obtain ⟨hordered, hperm⟩ := rebuildIndex_ordered (hlast.imp_right ge_of_eq)
    have hrecords := hperm.trans hscan
    refine ⟨hrecords, hordered, ?_, ?_⟩
    · intro p hp
      obtain ⟨key, hkey, rfl⟩ := List.mem_map.mp hp
      rcases hlast with hnil | hlast
      · rw [hnil] at hkey
        cases hkey
      · exact hlast
    · intro value key _
      have hnew := I.searchAll_records (.byteComparator vt.indexDataSize) key vt.rebuildIndex.tree hordered
      have hold := I.searchAll_records (.byteComparator vt.indexDataSize) key vt.tree hord
      exact hnew.trans ((hrecords.filter _).trans hold.symm)

/-- A call of `rebuildIndexIfNecessary` that switches to another tree kind. -/
theorem rebuildIndexIfNecessary_invisible_iff (hord : vt.Ordered) (hdue : vt.RebuildDue) :
    vt.RebuildInvisible vt.rebuildIndexIfNecessary ↔ vt.RebuildSafe := by
  rcases vt.rebuildIndexIfNecessary_cases with ⟨-, hrun⟩ | ⟨hnot, -⟩
  · have hchoose : vt.choose.Ordered := hord
    have hiff := rebuildIndex_invisible_iff hchoose
    rw [hrun]
    constructor
    · rintro ⟨hrecords, hordered, hcomparator, hsearch⟩
      obtain ⟨hstart, hlast⟩ := hiff.mp ⟨hrecords, hordered, hcomparator, hsearch⟩
      exact ⟨hstart, hlast⟩
    · rintro ⟨hstart, hlast⟩
      obtain ⟨hrecords, hordered, hcomparator, hsearch⟩ := hiff.mpr ⟨hstart, hlast⟩
      exact ⟨hrecords, hordered, hcomparator, hsearch⟩
  · exact absurd hdue hnot

end Ordered

end VirtualTable

end BTreesMods
