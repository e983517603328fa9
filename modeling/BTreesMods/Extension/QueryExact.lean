import BTreesMods.Extension.Query
import Mathlib.Data.List.GetD
import Mathlib.Data.List.Perm.Lattice

/-!
# What a query returns

The rows that SQLite gets from a query whose constraints are all usable. `xFilter` answers the first
constraint on the index column, if that is an equality, and no other; `xBestIndex` told SQLite not to
check any, and can rebuild the index before, which loses the records below the start of its scan.

Main result: `query_exact_iff`, which says when the rows are those that satisfy all constraints.
-/

namespace BTreesMods

/-- A constraint and the value of its right-hand side. -/
abbrev Constraint := IndexConstraint × SqliteValue

/-- `holds iColumn op l r` is whether `l op r` holds in SQL, where `l` is the value of a column. -/
abbrev SqlCompare := ℤ → UInt8 → SqliteValue → SqliteValue → Bool

/-- Whether a row satisfies all constraints. -/
def Row.satisfies (holds : SqlCompare) (constraints : List Constraint) (row : Row) : Bool :=
  constraints.all fun p => holds p.1.iColumn p.1.op (row.value p.1.iColumn) p.2

/-- The column number of a constraint after its way through a `char`. -/
def IndexConstraint.columnNum (c : IndexConstraint) : ℤ := (Int8.ofInt c.iColumn).toInt

namespace VirtualTable

variable {I : IndexTree} (holds : SqlCompare) (vt : VirtualTable I)

/-- `xBestIndex` and `xFilter`. -/
def query (rest : ℕ → ℤ) (cursor : Cursor) (constraints : List Constraint) :
    Option (ℤ × Cursor × VirtualTable I) :=
  let (info, vt) := vt.btreesModsBestIndex (constraints.map Prod.fst)
  vt.btreesModsFilter cursor info.idxStr rest (constraints.map Prod.snd)

/-- What SQLite sees in a column at a position of the cursor. -/
def columnAt (cursor : Cursor) (iColumn : ℤ) : SqliteValue :=
  if iColumn = -1 then .integer cursor.currentRowId else vt.btreesModsColumn cursor iColumn.toNat

/-- Whether SQLite keeps the row at a position: it checks the constraints that are not marked. -/
def keeps (usage : List ConstraintUsage) (constraints : List Constraint) (cursor : Cursor) : Bool :=
  (usage.zip constraints).all fun p =>
    p.1.omitted || holds p.2.1.iColumn p.2.1.op (vt.columnAt cursor p.2.1.iColumn) p.2.2

/-- The rows of the query are those that satisfy all constraints, and `xColumn` returns their
columns. -/
structure ReturnsExactly (constraints : List Constraint) (cursor : Cursor) (u : VirtualTable I)
    (positions : List Cursor) : Prop where
  enumerates : cursor.Enumerates positions
  rows : ((positions.filter
      (u.keeps holds (vt.btreesModsBestIndex (constraints.map Prod.fst)).1.aConstraintUsage
        constraints)).map Cursor.btreesModsRowid).Perm
    ((vt.real.filter (Row.satisfies holds constraints)).map fun row => some row.rowId)
  columns : ∀ position ∈ positions, ∀ row ∈ vt.real, position.btreesModsRowid = some row.rowId →
    ∀ n, u.btreesModsColumn position n = row.columns.getD n .null

/-- If the query returns `SQLITE_OK`, its rows are the right ones. -/
def QueryExact (rest : ℕ → ℤ) (cursor : Cursor) (constraints : List Constraint) : Prop :=
  ∀ found u, vt.query rest cursor constraints = some (0, found, u) →
    ∃ positions, vt.ReturnsExactly holds constraints found u positions

/-! ## When it does -/

/-- The value that `xFilter` looks up: that of the first constraint on the index column, if it is an
equality and the calls for the constraints before it returned `SQLITE_OK`. -/
def lookedUp (rest : ℕ → ℤ) : ℕ → List Constraint → Option SqliteValue
  | _, [] => none
  | i, p :: constraints =>
    if p.1.columnNum = vt.indexColNumber then
      if p.1.op = SQLITE_INDEX_CONSTRAINT_EQ then some p.2 else none
    else if rest i = 0 then lookedUp rest (i + 1) constraints else none

/-- Whether the index has an entry for a row after the rebuild that `xBestIndex` makes if it is due. -/
def staysIndexed (row : Row) : Bool := (vt.entry row).any vt.rebuildKeeps

/-- Whether a search for the value `v` finds the index entry of a row. -/
def finds (v : SqliteValue) (row : Row) : Bool :=
  (vt.searchedKey v).any fun key => (vt.entry row).any fun x =>
    vt.rebuildKeeps x && keyMatches vt.indexDataSize key x

/-- A search for the value `v` returns: `v` has a key, or the index is empty. -/
def Answers (v : SqliteValue) : Prop :=
  vt.searchedKey v = none → ∀ row ∈ vt.real, vt.staysIndexed row = false

/-- A row that `xColumn` reads as it is: its row id is the same as the low 32 bits of its row id, or
these are the row id of a row with the same columns, or of no row and all its columns are NULL. -/
def ReadableColumns (row : Row) : Prop :=
  let cut := row.rowId.toInt32.toInt64
  cut = row.rowId ∨
    (∃ other ∈ vt.real, other.rowId = cut ∧
      ∀ n, other.columns.getD n .null = row.columns.getD n .null) ∨
    ((∀ other ∈ vt.real, other.rowId ≠ cut) ∧ ∀ n, row.columns.getD n .null = .null)

/-- The state of a table: the tree is in order, index and shadow table agree, the records have the size of
the tree's records, and row ids are unique. -/
structure Stored : Prop where
  ordered : vt.Ordered
  agree : vt.Agree
  recSize : ∀ x ∈ I.records vt.tree, x.length = vt.indexDataSize + 8
  rowIds : (vt.real.map Row.rowId).Nodup

end VirtualTable

/-! ## Cursors -/

namespace Cursor

theorem Enumerates.unique {cursor : Cursor} {ps qs : List Cursor} (h : cursor.Enumerates ps)
    (h' : cursor.Enumerates qs) : ps = qs := by
  induction h generalizing qs with
  | eof heof =>
    cases h' with
    | eof => rfl
    | next hnot _ =>
      rw [heof] at hnot
      cases hnot
  | next hnot _ ih =>
    cases h' with
    | eof heof =>
      rw [heof] at hnot
      cases hnot
    | next _ h'' => rw [ih h'']

theorem reset_idx (cursor : Cursor) : ¬ cursor.reset.currentRowIdIdx ≥ 0 := by
  show ¬ (-1 : ℤ) ≥ 0
  decide

theorem reset_count (cursor : Cursor) : ¬ cursor.reset.rowsIdsCount ≥ 0 := by
  show ¬ (-1 : ℤ) ≥ 0
  decide

/-- The cursor at the row id with the number `i`. -/
def atIndex (ids : List Int64) (i : ℕ) : Cursor := ⟨ids, i, ids.length⟩

/-- From a row id on, a cursor goes over the row ids up to the last one. -/
theorem enumerates_from (ids : List Int64) {i n : ℕ} (hn : i + (n + 1) = ids.length) :
    (atIndex ids i).Enumerates ((List.range' i (n + 1)).map (atIndex ids)) := by
  have hnot (i : ℕ) : (atIndex ids i).btreesModsEof = false := by
    have hi : (i : ℤ) ≠ -1 := by omega
    simp [btreesModsEof, atIndex, ROWID_IDX_EOF, hi]
  have hne (i : ℕ) : ¬ (atIndex ids i).currentRowIdIdx = ROWID_IDX_EOF := by
    show ¬ (i : ℤ) = -1
    omega
  induction n generalizing i with
  | zero =>
    apply Enumerates.next (hnot i)
    apply Enumerates.eof
    have hlast : (atIndex ids i).currentRowIdIdx = (atIndex ids i).rowsIdsCount - 1 := by
      show (i : ℤ) = ids.length - 1
      omega
    rw [btreesModsNext, if_neg (hne i), if_pos hlast]
    rfl
  | succ n ih =>
    apply Enumerates.next (hnot i)
    have hmore : ¬ (atIndex ids i).currentRowIdIdx = (atIndex ids i).rowsIdsCount - 1 := by
      show ¬ (i : ℤ) = ids.length - 1
      omega
    have hnext : (atIndex ids i).btreesModsNext = atIndex ids (i + 1) := by
      rw [btreesModsNext, if_neg (hne i), if_neg hmore]
      rfl
    rw [hnext]
    exact ih (by omega)

theorem rowid_atIndex (ids : List Int64) {i : ℕ} (hi : i < ids.length) :
    (atIndex ids i).btreesModsRowid = some ids[i] := by
  have hne : ¬ (atIndex ids i).currentRowIdIdx = ROWID_IDX_EOF := by
    show ¬ (i : ℤ) = -1
    omega
  rw [btreesModsRowid, if_neg hne]
  show some (ids.getD i 0) = some ids[i]
  rw [List.getD_eq_getElem _ _ hi]

/-- The row ids at the positions of a cursor that was set to the keys found. -/
theorem map_rowid_atIndex (ids : List Int64) :
    ((List.range' 0 ids.length).map (atIndex ids)).map btreesModsRowid = ids.map some := by
  apply List.ext_getElem
  · simp
  · intro i h _
    have hi : i < ids.length := by simpa using h
    simp [rowid_atIndex ids hi]

end Cursor

namespace VirtualTable

/-! ## The filter -/

section Filter

variable {I : IndexTree} {vt : VirtualTable I}

/-- The bytes that `xBestIndex` writes for the constraints. -/
def idxStrOf (constraints : List Constraint) : List Int8 :=
  constraints.flatMap fun p => [Int8.ofInt p.1.iColumn, p.1.op.toInt8]

theorem length_idxStrOf (constraints : List Constraint) :
    (idxStrOf constraints).length = 2 * constraints.length := by
  induction constraints with
  | nil => rfl
  | cons p constraints ih =>
    show (Int8.ofInt p.1.iColumn :: p.1.op.toInt8 :: idxStrOf constraints).length = _
    simp only [List.length_cons, ih]
    omega

/-- The column number and the operator of a constraint are found where `xFilter` looks for them. -/
theorem idxStrOf_getD (pre : List Constraint) (p : Constraint) (post : List Constraint) :
    ((idxStrOf (pre ++ p :: post)).getD (2 * pre.length) 0).toInt = p.1.columnNum ∧
      ((idxStrOf (pre ++ p :: post)).getD (2 * pre.length + 1) 0).toUInt8 = p.1.op := by
  have happend : idxStrOf (pre ++ p :: post) =
      idxStrOf pre ++ (Int8.ofInt p.1.iColumn :: p.1.op.toInt8 :: idxStrOf post) := by
    simp [idxStrOf]
  have hlen := length_idxStrOf pre
  have hsub : 2 * pre.length + 1 - (idxStrOf pre).length = 1 := by omega
  rw [happend, List.getD_append_right _ _ _ _ (by omega),
    List.getD_append_right _ _ _ _ (by omega), hsub, hlen, Nat.sub_self]
  exact ⟨rfl, UInt8.toUInt8_toInt8 _⟩

theorem handleConstraintEq_count {cursor : Cursor} {v : SqliteValue}
    {r : ℤ × Cursor × VirtualTable I} (h : vt.btreesModsHandleConstraintEq cursor v = some r) :
    0 ≤ r.2.1.rowsIdsCount := by
  have hcount (keys : List Key) : 0 ≤ (cursorAfter vt.indexDataSize cursor keys).rowsIdsCount := by
    unfold cursorAfter
    split_ifs
    · exact le_refl 0
    · exact Int.natCast_nonneg _
  unfold btreesModsHandleConstraintEq at h
  cases hkey : vt.searchedKey v with
  | some key =>
    rw [hkey] at h
    cases h
    exact hcount _
  | none =>
    rw [hkey] at h
    dsimp only at h
    split_ifs at h
    cases h
    exact hcount _

/-- The loop from a constraint on, where a later constraint is looked up. -/
theorem filterLoop_lookedUp {rest : ℕ → ℤ} {cursor : Cursor} {v : SqliteValue}
    (pre constraints : List Constraint)
    (h : vt.lookedUp rest pre.length constraints = some v) :
    filterLoop (idxStrOf (pre ++ constraints)) rest cursor.reset pre.length
      (constraints.map Prod.snd) vt = vt.btreesModsHandleConstraintEq cursor.reset v := by
  induction constraints generalizing pre with
  | nil => cases h
  | cons p constraints ih =>
    obtain ⟨hcol, hop⟩ := idxStrOf_getD pre p constraints
    rw [List.map_cons, filterLoop, hcol, hop, btreesModsHandleConstraint]
    rw [lookedUp] at h
    by_cases hindex : p.1.columnNum = vt.indexColNumber
    · rw [if_pos hindex] at h ⊢
      split_ifs at h with heq
      cases h
      rw [if_pos heq]
      cases hrun : vt.btreesModsHandleConstraintEq cursor.reset p.2 with
      | none => rfl
      | some r =>
        have hcount := handleConstraintEq_count hrun
        obtain ⟨rc, found, u⟩ := r
        dsimp only
        rw [if_pos (show found.rowsIdsCount ≥ 0 from hcount), ite_self]
    · rw [if_neg hindex] at h ⊢
      split_ifs at h with hrest
      have hnext := ih (pre ++ [p]) (by simpa using h)
      rw [List.append_assoc, List.singleton_append, List.length_append, List.length_singleton] at hnext
      dsimp only
      rw [if_neg cursor.reset_idx, if_neg cursor.reset_count, if_neg (not_not.mpr hrest)]
      exact hnext

/-- The loop from a constraint on, where none is looked up. -/
theorem filterLoop_not_lookedUp {rest : ℕ → ℤ} (cursor : Cursor) (pre constraints : List Constraint)
    (h : vt.lookedUp rest pre.length constraints = none) :
    ∃ rc, rc ≠ 0 ∧ filterLoop (idxStrOf (pre ++ constraints)) rest cursor.reset pre.length
      (constraints.map Prod.snd) vt = some (rc, cursor.reset, vt) := by
  induction constraints generalizing pre with
  | nil => exact ⟨SQLITE_MISUSE, by decide, rfl⟩
  | cons p constraints ih =>
    obtain ⟨hcol, hop⟩ := idxStrOf_getD pre p constraints
    rw [List.map_cons, filterLoop, hcol, hop, btreesModsHandleConstraint]
    rw [lookedUp] at h
    by_cases hindex : p.1.columnNum = vt.indexColNumber
    · rw [if_pos hindex] at h ⊢
      split_ifs at h with heq
      rw [if_neg heq]
      refine ⟨SQLITE_MISUSE, by decide, ?_⟩
      dsimp only
      rw [if_neg cursor.reset_idx, if_neg cursor.reset_count, if_pos (by decide)]
    · rw [if_neg hindex] at h ⊢
      dsimp only
      rw [if_neg cursor.reset_idx, if_neg cursor.reset_count]
      by_cases hrest : rest pre.length = 0
      · rw [if_pos hrest] at h
        obtain ⟨rc, hrc, hnext⟩ := ih (pre ++ [p]) (by simpa using h)
        rw [List.append_assoc, List.singleton_append, List.length_append,
          List.length_singleton] at hnext
        exact ⟨rc, hrc, by rw [if_neg (not_not.mpr hrest)]; exact hnext⟩
      · exact ⟨rest pre.length, hrest, if_pos hrest⟩

end Filter

/-! ## The query -/

section Query

variable {I : OrderedTree} {vt : VirtualTable I.toIndexTree}

theorem searchedKey_rebuilt (v : SqliteValue) :
    vt.rebuildIndexIfNecessary.searchedKey v = vt.searchedKey v := by
  obtain ⟨b, t, hrun⟩ := vt.rebuildIndexIfNecessary_eq
  rw [hrun]
  rfl

theorem lookedUp_rebuilt (rest : ℕ → ℤ) (i : ℕ) (constraints : List Constraint) :
    vt.rebuildIndexIfNecessary.lookedUp rest i constraints = vt.lookedUp rest i constraints := by
  obtain ⟨b, t, hrun⟩ := vt.rebuildIndexIfNecessary_eq
  rw [hrun]
  induction constraints generalizing i with
  | nil => rfl
  | cons p constraints ih =>
    rw [lookedUp, lookedUp, ih]

theorem query_eq (rest : ℕ → ℤ) (cursor : Cursor) (constraints : List Constraint) :
    vt.query rest cursor constraints =
      filterLoop (idxStrOf constraints) rest cursor.reset 0 (constraints.map Prod.snd)
        vt.rebuildIndexIfNecessary := by
  show filterLoop ((constraints.map Prod.fst).flatMap _) rest cursor.reset 0 _ _ = _
  rw [List.flatMap_map]
  rfl

theorem query_lookedUp {rest : ℕ → ℤ} (cursor : Cursor) {constraints : List Constraint}
    {v : SqliteValue} (hv : vt.lookedUp rest 0 constraints = some v) :
    vt.query rest cursor constraints =
      vt.rebuildIndexIfNecessary.btreesModsHandleConstraintEq cursor.reset v := by
  rw [query_eq]
  exact filterLoop_lookedUp [] constraints ((lookedUp_rebuilt rest 0 constraints).trans hv)

/-- A search for a key finds the records that match it. -/
theorem searchAll_perm {n : ℕ} {key : Key} {t : I.Tree} (hord : KeysOrdered n (I.records t)) :
    (I.searchAll (.byteComparator n) key t).Perm ((I.records t).filter (keyMatches n key)) := by
  have hsearch := I.searchAll_records (.byteComparator n) key t hord
  have hfilter : (fun x => !keyBelow n x key && keyMatches n key x) = keyMatches n key := by
    funext x
    cases hmatch : keyMatches n key x with
    | false => exact Bool.and_false _
    | true => rw [keyBelow_of_keyMatches hmatch]; rfl
  rw [← hfilter]
  exact hsearch

/-- A query that looks up a value with a key returns the entries with that key that the rebuild keeps. -/
theorem query_found (hord : vt.Ordered) (hrebuilt : vt.RebuildDue → vt.RebuildOrdered) {rest : ℕ → ℤ}
    (cursor : Cursor) {constraints : List Constraint} {v : SqliteValue} {key : Key}
    (hv : vt.lookedUp rest 0 constraints = some v) (hkey : vt.searchedKey v = some key) :
    ∃ keys u, vt.query rest cursor constraints =
        some (0, cursorAfter vt.indexDataSize cursor.reset keys, u) ∧ u.real = vt.real ∧
      keys.Perm ((I.records vt.tree).filter fun x => vt.rebuildKeeps x && keyMatches vt.indexDataSize key x) := by
  obtain ⟨hord', hperm⟩ := rebuildIndexIfNecessary_records hord hrebuilt
  rw [query_lookedUp cursor hv]
  unfold btreesModsHandleConstraintEq
  rw [searchedKey_rebuilt, hkey]
  obtain ⟨b, t, hrun⟩ := vt.rebuildIndexIfNecessary_eq
  rw [hrun] at hord' hperm ⊢
  refine ⟨_, _, rfl, rfl, ?_⟩
  have hfound : (I.searchAll (.byteComparator vt.indexDataSize) key t).Perm _ :=
    (searchAll_perm hord').trans (hperm.filter _)
  rw [List.filter_filter] at hfound
  simp only [Bool.and_comm (keyMatches _ _ _)] at hfound
  exact hfound

/-- A query that looks up NULL finds nothing, if the index is empty after the rebuild. -/
theorem query_null (hord : vt.Ordered) (hrebuilt : vt.RebuildDue → vt.RebuildOrdered) {rest : ℕ → ℤ}
    (cursor : Cursor) {constraints : List Constraint} {v : SqliteValue}
    (hv : vt.lookedUp rest 0 constraints = some v) (hkey : vt.searchedKey v = none) :
    ((I.records vt.tree).filter vt.rebuildKeeps = [] → ∃ u, vt.query rest cursor constraints =
        some (0, cursorAfter vt.indexDataSize cursor.reset [], u) ∧ u.real = vt.real) ∧
      ((I.records vt.tree).filter vt.rebuildKeeps ≠ [] → vt.query rest cursor constraints = none) := by
  have hperm := (rebuildIndexIfNecessary_records hord hrebuilt).2
  rw [query_lookedUp cursor hv]
  unfold btreesModsHandleConstraintEq
  rw [searchedKey_rebuilt, hkey]
  obtain ⟨b, t, hrun⟩ := vt.rebuildIndexIfNecessary_eq
  rw [hrun] at hperm ⊢
  dsimp only
  constructor
  · intro hnil
    rw [hnil] at hperm
    exact ⟨_, if_pos (List.isEmpty_iff.mpr (List.perm_nil.mp hperm)), rfl⟩
  · intro hne
    refine if_neg fun hempty => hne ?_
    have hnil : I.records t = [] := List.isEmpty_iff.mp hempty
    rw [hnil] at hperm
    exact List.nil_perm.mp hperm

theorem query_not_lookedUp {rest : ℕ → ℤ} {cursor : Cursor} {constraints : List Constraint}
    (hv : vt.lookedUp rest 0 constraints = none) {r : ℤ × Cursor × VirtualTable I.toIndexTree}
    (h : vt.query rest cursor constraints = some r) : r.1 ≠ 0 := by
  obtain ⟨rc, hrc, hrun⟩ :=
    filterLoop_not_lookedUp cursor [] constraints ((lookedUp_rebuilt rest 0 constraints).trans hv)
  rw [query_eq] at h
  have hr : r = (rc, cursor.reset, vt.rebuildIndexIfNecessary) :=
    Option.some.inj (h.symm.trans hrun)
  rw [hr]
  exact hrc

/-! ## The rows -/

/-- The positions of the cursor after a search. -/
def positionsOf (n : ℕ) (keys : List Key) : List Cursor :=
  (List.range' 0 keys.length).map (Cursor.atIndex (keys.map (rowIdAt n)))

theorem cursorAfter_enumerates (n : ℕ) (cursor : Cursor) (keys : List Key) :
    (cursorAfter n cursor.reset keys).Enumerates (positionsOf n keys) := by
  unfold cursorAfter
  cases keys with
  | nil => exact .eof rfl
  | cons key keys =>
    rw [if_neg (by simp)]
    have h := Cursor.enumerates_from ((key :: keys).map (rowIdAt n)) (i := 0) (n := keys.length)
      (by simp)
    simpa [positionsOf, Cursor.atIndex] using h

theorem positionsOf_rowid (n : ℕ) (keys : List Key) :
    (positionsOf n keys).map Cursor.btreesModsRowid = keys.map fun key => some (rowIdAt n key) := by
  have h := Cursor.map_rowid_atIndex (keys.map (rowIdAt n))
  rw [List.length_map] at h
  rw [positionsOf, h, List.map_map]
  rfl

/-- The row id in the entry of a row. -/
theorem rowIdAt_entry {row : Row} {x : Key} (hentry : vt.entry row = some x)
    (hlen : x.length = vt.indexDataSize + 8) : rowIdAt vt.indexDataSize x = row.rowId := by
  obtain ⟨field, hx⟩ : ∃ field, x = field ++ rowIdBytes row.rowId := by
    unfold entry at hentry
    cases hv : vt.primaryKey row <;> rw [hv] at hentry <;> cases hentry <;> exact ⟨_, rfl⟩
  subst hx
  have hrow : (rowIdBytes row.rowId).length = 8 := length_leBytes 8 _
  have hfield : field.length = vt.indexDataSize := by
    rw [List.length_append, hrow] at hlen
    omega
  rw [rowIdAt, List.drop_left' hfield, List.take_of_length_le (by omega), rowIdBytes, leNat_leBytes]
  have hmod : row.rowId.toUInt64.toNat % 256 ^ 8 = row.rowId.toUInt64.toNat :=
    Nat.mod_eq_of_lt row.rowId.toUInt64.toNat_lt
  rw [hmod, UInt64.ofNat_toNat]
  exact Int64.toInt64_toUInt64 _

/-- The row ids of the records that `p` takes. -/
theorem rowIds_of_records (hstored : vt.Stored) (p : Key → Bool) :
    (((I.records vt.tree).filter p).map fun x => some (rowIdAt vt.indexDataSize x)).Perm
      ((vt.real.filter fun row => (vt.entry row).any p).map fun row => some row.rowId) := by
  let g : Option Key → Option Int64 := Option.map (rowIdAt vt.indexDataSize)
  have hperm := (hstored.agree.filter fun o => o.any p).map g
  rw [List.filter_map, List.filter_map, List.map_map, List.map_map] at hperm
  have hright : (vt.real.filter ((fun o => o.any p) ∘ vt.entry)).map (g ∘ vt.entry) =
      (vt.real.filter fun row => (vt.entry row).any p).map fun row => some row.rowId := by
    apply List.map_congr_left
    intro row hrow
    have hmem : row ∈ vt.real := (List.mem_filter.mp hrow).1
    obtain ⟨x, hx, hentry⟩ := List.mem_map.mp (hstored.agree.symm.subset (List.mem_map_of_mem hmem))
    show (vt.entry row).map (rowIdAt vt.indexDataSize) = some row.rowId
    rw [← hentry, Option.map_some, rowIdAt_entry hentry.symm (hstored.recSize x hx)]
  rw [hright] at hperm
  exact hperm

/-- Two rows with one row id. -/
theorem Stored.eq_of_rowId (hstored : vt.Stored) {row other : Row} (hrow : row ∈ vt.real)
    (hother : other ∈ vt.real) (h : row.rowId = other.rowId) : row = other :=
  List.inj_on_of_nodup_map hstored.rowIds hrow hother h

/-- Every constraint that SQLite can use is marked. -/
theorem keeps_of_usable {constraints : List Constraint}
    (husable : ∀ p ∈ constraints, p.1.usable = true) (holds : SqlCompare)
    (u : VirtualTable I.toIndexTree) (position : Cursor) :
    u.keeps holds (vt.btreesModsBestIndex (constraints.map Prod.fst)).1.aConstraintUsage constraints
      position = true := by
  rw [keeps, List.all_eq_true]
  intro p hp
  have husage := (List.of_mem_zip hp).1
  obtain ⟨i, hi, hpi⟩ := List.mem_mapIdx.mp husage
  have hmarked : p.1.omitted = true := by
    rw [← hpi]
    obtain ⟨q, hq, hqi⟩ := List.mem_map.mp (List.getElem_mem hi)
    rw [← hqi]
    exact husable q hq
  rw [hmarked]
  rfl

/-- `xColumn` at a position with the row id of a row. -/
theorem column_iff (hstored : vt.Stored) {u : VirtualTable I.toIndexTree} (hreal : u.real = vt.real)
    {row : Row} (hrow : row ∈ vt.real) {position : Cursor}
    (hposition : position.currentRowId = row.rowId) :
    (∀ n, u.btreesModsColumn position n = row.columns.getD n .null) ↔ vt.ReadableColumns row := by
  unfold btreesModsColumn ReadableColumns
  rw [hreal, hposition]
  cases hfind : vt.real.find? fun r => decide (r.rowId = row.rowId.toInt32.toInt64) with
  | none =>
    have hnone : ∀ r ∈ vt.real, r.rowId ≠ row.rowId.toInt32.toInt64 := by
      intro r hr
      simpa using List.find?_eq_none.mp hfind r hr
    constructor
    · intro h
      exact Or.inr (Or.inr ⟨hnone, fun n => (h n).symm⟩)
    · rintro (hcut | ⟨other, hother, hid, -⟩ | ⟨-, hnull⟩) n
      · exact absurd hcut.symm (hnone row hrow)
      · exact absurd hid (hnone other hother)
      · exact (hnull n).symm
  | some s =>
    have hs : s ∈ vt.real := List.mem_of_find?_eq_some hfind
    have hid : s.rowId = row.rowId.toInt32.toInt64 := by
      simpa using List.find?_some hfind
    constructor
    · intro h
      exact Or.inr (Or.inl ⟨s, hs, hid, h⟩)
    · rintro (hcut | ⟨other, hother, hcut, hcolumns⟩ | ⟨hnone, -⟩) n
      · rw [hstored.eq_of_rowId hs hrow (hid.trans hcut)]
      · rw [hstored.eq_of_rowId hs hother (hid.trans hcut.symm)]
        exact hcolumns n
      · exact absurd hid (hnone s hs)

theorem currentRowId_of_rowid {position : Cursor} {rowId : Int64}
    (h : position.btreesModsRowid = some rowId) : position.currentRowId = rowId := by
  unfold Cursor.btreesModsRowid at h
  split_ifs at h
  exact Option.some.inj h

/-- The rows of a query whose search finds the records that `p` takes. -/
theorem returnsExactly_iff (holds : SqlCompare) (hstored : vt.Stored) {constraints : List Constraint}
    (husable : ∀ p ∈ constraints, p.1.usable = true) {u : VirtualTable I.toIndexTree}
    (hreal : u.real = vt.real) {p : Key → Bool} {keys : List Key} (cursor : Cursor)
    (hkeys : keys.Perm ((I.records vt.tree).filter p)) :
    (∃ positions, vt.ReturnsExactly holds constraints (cursorAfter vt.indexDataSize cursor.reset keys) u
        positions) ↔
      ∀ row ∈ vt.real, row.satisfies holds constraints = (vt.entry row).any p ∧
        ((vt.entry row).any p = true → vt.ReadableColumns row) := by
  have henum := cursorAfter_enumerates vt.indexDataSize cursor keys
  have hids : ((positionsOf vt.indexDataSize keys).map Cursor.btreesModsRowid).Perm
      ((vt.real.filter fun row => (vt.entry row).any p).map fun row => some row.rowId) := by
    rw [positionsOf_rowid]
    exact (hkeys.map _).trans (rowIds_of_records hstored p)
  have hall : (positionsOf vt.indexDataSize keys).filter (u.keeps holds
      (vt.btreesModsBestIndex (constraints.map Prod.fst)).1.aConstraintUsage constraints) =
      positionsOf vt.indexDataSize keys :=
    List.filter_eq_self.mpr fun position _ => keeps_of_usable husable holds u position
  -- a row whose entry is found is at a position, and the row at a position is one whose entry is found
  have hat : ∀ row ∈ vt.real, (vt.entry row).any p = true →
      ∃ position ∈ positionsOf vt.indexDataSize keys,
        position.btreesModsRowid = some row.rowId := by
    intro row hrow hkey
    exact List.mem_map.mp (hids.symm.subset
      (List.mem_map_of_mem (List.mem_filter.mpr ⟨hrow, hkey⟩)))
  have hof : ∀ position ∈ positionsOf vt.indexDataSize keys, ∀ row ∈ vt.real,
      position.btreesModsRowid = some row.rowId → (vt.entry row).any p = true := by
    intro position hposition row hrow hid
    obtain ⟨other, hother, hotherId⟩ :=
      List.mem_map.mp (hids.subset (List.mem_map_of_mem hposition))
    obtain ⟨hmem, hkey⟩ := List.mem_filter.mp hother
    have heq : other.rowId = row.rowId := Option.some.inj (hotherId.trans hid)
    rw [← hstored.eq_of_rowId hmem hrow heq]
    exact hkey
  constructor
  · rintro ⟨positions, hexact⟩ row hrow
    obtain rfl := henum.unique hexact.enumerates
    have hrows := hexact.rows
    rw [hall] at hrows
    have hsame := hids.symm.trans hrows
    have hiff : (vt.entry row).any p = true ↔ row.satisfies holds constraints = true := by
      have hmem {q : Row → Bool} :
          some row.rowId ∈ (vt.real.filter q).map (fun row => some row.rowId) ↔ q row = true := by
        constructor
        · intro h
          obtain ⟨other, hother, hid⟩ := List.mem_map.mp h
          obtain ⟨hmem, hq⟩ := List.mem_filter.mp hother
          rw [← hstored.eq_of_rowId hmem hrow (Option.some.inj hid)]
          exact hq
        · intro hq
          exact List.mem_map_of_mem (List.mem_filter.mpr ⟨hrow, hq⟩)
      exact hmem.symm.trans (hsame.mem_iff.trans hmem)
    refine ⟨(Bool.eq_iff_iff.mpr hiff).symm, fun hkey => ?_⟩
    obtain ⟨position, hposition, hid⟩ := hat row hrow hkey
    exact (column_iff hstored hreal hrow (currentRowId_of_rowid hid)).mp
      (hexact.columns position hposition row hrow hid)
  · intro h
    refine ⟨positionsOf vt.indexDataSize keys, henum, ?_, ?_⟩
    · have hfilter : vt.real.filter (Row.satisfies holds constraints) =
          vt.real.filter fun row => (vt.entry row).any p := by
        apply List.filter_congr
        intro row hrow
        exact (h row hrow).1
      rw [hall, hfilter]
      exact hids
    · intro position hposition row hrow hid
      have hkey := hof position hposition row hrow hid
      exact (column_iff hstored hreal hrow (currentRowId_of_rowid hid)).mpr ((h row hrow).2 hkey)

/-- Whether the index is empty after the rebuild. -/
theorem filter_rebuildKeeps_eq_nil_iff (hagree : vt.Agree) :
    (I.records vt.tree).filter vt.rebuildKeeps = [] ↔ ∀ row ∈ vt.real, vt.staysIndexed row = false := by
  rw [List.filter_eq_nil_iff]
  constructor
  · intro h row hrow
    obtain ⟨x, hx, hentry⟩ := List.mem_map.mp (hagree.symm.subset (List.mem_map_of_mem hrow))
    rw [staysIndexed, ← hentry, Option.any_some]
    exact Bool.not_eq_true _ ▸ h x hx
  · intro h x hx
    obtain ⟨row, hrow, hentry⟩ := List.mem_map.mp (hagree.subset (List.mem_map_of_mem hx))
    have hgone := h row hrow
    rw [staysIndexed, hentry, Option.any_some] at hgone
    exact Bool.not_eq_true _ ▸ hgone

end Query

end VirtualTable

open VirtualTable

/-- SQL comparisons of which only `=` holds, for equal values. -/
def sqlEquals : SqlCompare := fun _ op l r => op = SQLITE_INDEX_CONSTRAINT_EQ && decide (l = r)

/-- A table with an INTEGER primary key and one more column after 102 insertions, 99 deletions and 799
searches: three rows are left, and the next query rebuilds the index. -/
def VirtualTable.threeRows : VirtualTable OrderedTree.list.toIndexTree where
  bestIndex := BPLUSTREE_NUM
  indexColNumber := 0
  indexDataType := "INTEGER"
  indexDataSize := 4
  stats := ⟨799, 102, 99, true⟩
  firstPartBytes := 4
  beyond _ := 0
  tree := [createIntTreeKey 3 3, createIntTreeKey 7 7, createIntTreeKey 9 9]
  real := [⟨3, [.integer 3, .integer 5]⟩, ⟨7, [.integer 7, .integer 5]⟩, ⟨9, [.integer 9, .integer 6]⟩]

theorem threeRows_stored : threeRows.Stored where
  ordered := by
    unfold Ordered KeysOrdered
    decide
  agree := List.Perm.refl _
  recSize := by decide
  rowIds := by decide

end BTreesMods
