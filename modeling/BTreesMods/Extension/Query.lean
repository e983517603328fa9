import BTreesMods.Extension.Update

/-!
# Queries

Model of `btreesModsBestIndex` (`btrees_mods.c`, lines 25–48), of `btreesModsFilter` with
`btreesModsHandleConstraint` and `btreesModsHandleConstraintEq` (lines 85–115 and 167–213), and of the
functions of a cursor (lines 117–165 and 376–386). `char` is signed, and `%d` takes the low 32 bits of
the row id it gets. Where a function ends without `return`, its value is that of an oracle.
-/

namespace BTreesMods

def SQLITE_MISUSE : ℤ := 21
def SQLITE_INDEX_CONSTRAINT_EQ : UInt8 := 2

/-- An element of `aConstraint` of `sqlite3_index_info`. -/
structure IndexConstraint where
  iColumn : ℤ
  op : UInt8
  usable : Bool

/-- An element of `aConstraintUsage`: `argvIndex` and `omit`. -/
structure ConstraintUsage where
  argvIndex : ℕ
  omitted : Bool

/-- What `xBestIndex` returns to SQLite. -/
structure IndexInfo where
  idxNum : ℕ
  idxStr : List Int8
  aConstraintUsage : List ConstraintUsage

/-- `btreesModsCursor`. -/
structure Cursor where
  rowsIds : List Int64
  currentRowIdIdx : ℤ
  rowsIdsCount : ℤ

def ROWID_IDX_EOF : ℤ := -1

namespace Cursor

variable (cursor : Cursor)

/-- `btreesModsNext` (lines 117–135). -/
def btreesModsNext : Cursor :=
  if cursor.currentRowIdIdx = ROWID_IDX_EOF then cursor
  else if cursor.currentRowIdIdx = cursor.rowsIdsCount - 1 then
    { cursor with currentRowIdIdx := ROWID_IDX_EOF }
  else { cursor with currentRowIdIdx := cursor.currentRowIdIdx + 1 }

/-- The cursor at the start of `btreesModsFilter` (lines 90–92). -/
def reset : Cursor := { cursor with rowsIdsCount := -1, currentRowIdIdx := -1 }

/-- `btreesModsEof` (lines 137–141). -/
def btreesModsEof : Bool := cursor.currentRowIdIdx = ROWID_IDX_EOF

/-- The current row id. -/
def currentRowId : Int64 := cursor.rowsIds.getD cursor.currentRowIdIdx.toNat 0

/-- `btreesModsRowid` (lines 376–386): at the end `*pRowid` is not set. -/
def btreesModsRowid : Option Int64 :=
  if cursor.currentRowIdIdx = ROWID_IDX_EOF then none else some cursor.currentRowId

/-- The cursors at which SQLite reads rows, with `xNext` until `xEof`. -/
inductive Enumerates : Cursor → List Cursor → Prop
  | eof {cursor : Cursor} : cursor.btreesModsEof = true → Enumerates cursor []
  | next {cursor : Cursor} {positions : List Cursor} : cursor.btreesModsEof = false →
      Enumerates cursor.btreesModsNext positions → Enumerates cursor (cursor :: positions)

end Cursor

namespace VirtualTable

variable {I : IndexTree} (vt : VirtualTable I)

/-- `btreesModsBestIndex` (lines 25–48). -/
def btreesModsBestIndex (aConstraint : List IndexConstraint) : IndexInfo × VirtualTable I :=
  let vt := vt.rebuildIndexIfNecessary
  ({ idxNum := vt.bestIndex
     idxStr := aConstraint.flatMap fun c => [Int8.ofInt c.iColumn, c.op.toInt8]
     aConstraintUsage := aConstraint.mapIdx fun i c => ⟨i + 1, c.usable⟩ }, vt)

/-- The row id in a record: 8 bytes at `indexDataSize`. -/
def rowIdAt (indexDataSize : ℕ) (key : Key) : Int64 :=
  (UInt64.ofNat (leNat ((key.drop indexDataSize).take 8))).toInt64

/-- The cursor after a search that found `keys` (lines 195–212). -/
def cursorAfter (indexDataSize : ℕ) (cursor : Cursor) (keys : List Key) : Cursor :=
  if keys.length = 0 then { cursor with rowsIdsCount := 0 }
  else ⟨keys.map (rowIdAt indexDataSize), 0, keys.length⟩

/-- `btreesModsHandleConstraintEq` (lines 185–213); nothing where it reads a null pointer. -/
def btreesModsHandleConstraintEq (cursor : Cursor) (exprValue : SqliteValue) :
    Option (ℤ × Cursor × VirtualTable I) :=
  let searched := { vt with
    firstPartBytes := vt.indexDataSize
    stats := { vt.stats with searchesCount := vt.stats.searchesCount + 1 } }
  match vt.searchedKey exprValue with
  | some key =>
    let keys := I.searchAll (.byteComparator vt.indexDataSize) key vt.tree
    some (0, cursorAfter vt.indexDataSize cursor keys, searched)
  | none =>
    if (I.records vt.tree).isEmpty then some (0, cursorAfter vt.indexDataSize cursor [], searched)
    else none

/-- `btreesModsHandleConstraint` (lines 167–183); `rest` is the value where it ends without
`return`. -/
def btreesModsHandleConstraint (cursor : Cursor) (columnNum : ℤ) (operation : UInt8)
    (exprValue : SqliteValue) (rest : ℤ) : Option (ℤ × Cursor × VirtualTable I) :=
  if columnNum = vt.indexColNumber then
    if operation = SQLITE_INDEX_CONSTRAINT_EQ then vt.btreesModsHandleConstraintEq cursor exprValue
    else some (SQLITE_MISUSE, cursor, vt)
  else some (rest, cursor, vt)

/-- The loop of `btreesModsFilter`, from argument `i` on. -/
def filterLoop (idxStr : List Int8) (rest : ℕ → ℤ) (cursor : Cursor) :
    ℕ → List SqliteValue → VirtualTable I → Option (ℤ × Cursor × VirtualTable I)
  | _, [], vt => some (SQLITE_MISUSE, cursor, vt)
  | i, value :: argv, vt =>
    match vt.btreesModsHandleConstraint cursor (idxStr.getD (2 * i) 0).toInt
        (idxStr.getD (2 * i + 1) 0).toUInt8 value (rest i) with
    | none => none
    | some (rc, cursor, vt) =>
      if cursor.currentRowIdIdx ≥ 0 then some (rc, cursor, vt)
      else if cursor.rowsIdsCount ≥ 0 then some (rc, cursor, vt)
      else if rc ≠ 0 then some (rc, cursor, vt)
      else filterLoop idxStr rest cursor (i + 1) argv vt

/-- `btreesModsFilter` (lines 85–115). -/
def btreesModsFilter (cursor : Cursor) (idxStr : List Int8) (rest : ℕ → ℤ)
    (argv : List SqliteValue) : Option (ℤ × Cursor × VirtualTable I) :=
  filterLoop idxStr rest cursor.reset 0 argv vt

/-- `btreesModsColumn` (lines 143–165): `SELECT * FROM <name>_real WHERE rowid = %d`. The value of a
column is NULL if there is no row. -/
def btreesModsColumn (cursor : Cursor) (n : ℕ) : SqliteValue :=
  match vt.real.find? fun row => row.rowId = cursor.currentRowId.toInt32.toInt64 with
  | some row => row.columns.getD n .null
  | none => .null

end VirtualTable

end BTreesMods
