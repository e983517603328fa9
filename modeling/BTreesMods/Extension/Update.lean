import BTreesMods.Extension.Rebuild
import Mathlib.Data.List.Perm.Subperm

/-!
# `xUpdate`

Model of `btreesModsUpdate` with `btreesModsInsert`, `btreesModsDelete` and `btreesModsDoUpdate`
(`btrees_mods.c`, lines 215–357), of the SQL texts they write (lines 884–916) and of `getRowId` (lines
750–769).

`XUpdate` has the calls as SQLite makes them.
-/

namespace BTreesMods

/-! ## SQL texts -/

/-- The bytes of a C string, up to its end. -/
def cString (bytes : List UInt8) : List UInt8 := bytes.takeWhile (· ≠ 0)

/-- `convertSqliteTextValueToString` (lines 912–916): `snprintf` writes at most 254 bytes. -/
def convertSqliteTextValueToString (text : List UInt8) : List UInt8 :=
  (0x22 :: cString text).take 254 ++ [0x22]

/-- `convertSqliteValueToString` (lines 884–910). -/
def convertSqliteValueToString (sq : Sqlite) (value : SqliteValue) : List UInt8 :=
  match value with
  | .integer _ | .float _ => cString (sq.valueText value)
  | .text _ => convertSqliteTextValueToString (sq.valueText value)
  | .blob bytes => cString bytes
  | .null => [0x4E, 0x55, 0x4C, 0x4C]

/-- The text that is made of a value is one literal. -/
def Sqlite.WritesLiteral (sq : Sqlite) (value : SqliteValue) : Prop :=
  isLiteral (convertSqliteValueToString sq value) = true

instance (sq : Sqlite) (value : SqliteValue) : Decidable (sq.WritesLiteral value) :=
  inferInstanceAs (Decidable (_ = true))

/-- `SQLITE_ERROR`, `SQLITE_CONSTRAINT` and `SQLITE_MISMATCH`. -/
def SQLITE_ERROR : ℤ := 1
def SQLITE_CONSTRAINT : ℤ := 19
def SQLITE_MISMATCH : ℤ := 20

namespace VirtualTable

variable {I : IndexTree} (sq : Sqlite) (vt : VirtualTable I)

/-- What SQLite reads the text of `value` as, where it stands for a value of the primary key. -/
def readPrimaryKey (value : SqliteValue) : Option (Option Row → SqliteValue) :=
  sq.readSql vt.indexColNumber (convertSqliteValueToString sq value)

/-- What SQLite reads the texts of the values of the columns from column `i` on as, if they are literals. -/
def readColumns (sq : Sqlite) (i : ℕ) : List SqliteValue → Option (List (Option Row → SqliteValue))
  | [] => some []
  | value :: columns =>
    match sq.readSql i (convertSqliteValueToString sq value), readColumns sq (i + 1) columns with
    | some f, some fs => some (f :: fs)
    | _, _ => none

/-! ## Statements on the shadow table -/

/-- The rows at which `<primary key> = <literal>` holds. -/
def sqlWhere (f : Option Row → SqliteValue) (row : Row) : Bool := vt.pkEquals (f (some row)) row

/-- A statement with a text that is not one literal. -/
def execute (statement : SqlStatement) : Except ℤ (VirtualTable I) :=
  (sq.execute statement vt.real).map fun rows => { vt with real := rows }

/-- `INSERT INTO <name>_real VALUES (…)`. -/
def sqlInsert (columns : List SqliteValue) : Except ℤ (VirtualTable I) :=
  if ∀ value ∈ columns, sq.WritesLiteral value then
    match readColumns sq 0 columns with
    | none => .error SQLITE_ERROR
    | some fs =>
      let values := fs.map fun f => f none
      let vt := { vt with real := vt.real ++ [⟨sq.newRowId vt.real values, values⟩] }
      if vt.UniqueKey then .ok vt else .error SQLITE_CONSTRAINT
  else vt.execute sq (.insert (columns.map (convertSqliteValueToString sq)))

/-- `DELETE FROM <name>_real WHERE <primary key> = …`. -/
def sqlDelete (primaryKeyValue : SqliteValue) : Except ℤ (VirtualTable I) :=
  if sq.WritesLiteral primaryKeyValue then
    match vt.readPrimaryKey sq primaryKeyValue with
    | none => .error SQLITE_ERROR
    | some f => .ok { vt with real := vt.real.filter fun row => !vt.sqlWhere f row }
  else vt.execute sq (.delete (convertSqliteValueToString sq primaryKeyValue))

/-- A row after `SET` of all columns. -/
def updatedRow (fs : List (Option Row → SqliteValue)) (row : Row) : Row :=
  let values := fs.map fun f => f (some row)
  ⟨sq.movedRowId row values, values⟩

/-- `UPDATE <name>_real SET … WHERE <primary key> = …`. -/
def sqlUpdate (columns : List SqliteValue) (primaryKeyValue : SqliteValue) :
    Except ℤ (VirtualTable I) :=
  if (∀ value ∈ columns, sq.WritesLiteral value) ∧ sq.WritesLiteral primaryKeyValue then
    match readColumns sq 0 columns, vt.readPrimaryKey sq primaryKeyValue with
    | some fs, some f =>
      let vt := { vt with
        real := vt.real.map fun row => if vt.sqlWhere f row then updatedRow sq fs row else row }
      if vt.UniqueKey then .ok vt else .error SQLITE_CONSTRAINT
    | _, _ => .error SQLITE_ERROR
  else vt.execute sq (.update (columns.map (convertSqliteValueToString sq))
    (convertSqliteValueToString sq primaryKeyValue))

/-- `getRowId` (lines 750–769): `SELECT rowid FROM <name>_real WHERE <primary key> = …`, and 0 where
there is no row. -/
def getRowId (primaryKeyValue : SqliteValue) : Int64 :=
  if sq.WritesLiteral primaryKeyValue then
    match vt.readPrimaryKey sq primaryKeyValue with
    | none => 0
    | some f => match vt.real.find? (vt.sqlWhere f) with
      | none => 0
      | some row => row.rowId
  else sq.selectRowId (convertSqliteValueToString sq primaryKeyValue) vt.real

theorem execute_ok {statement : SqlStatement} {u : VirtualTable I}
    (h : vt.execute sq statement = .ok u) : ∃ rows, u = { vt with real := rows } := by
  unfold execute at h
  cases hrows : sq.execute statement vt.real with
  | error rc =>
    rw [hrows] at h
    cases h
  | ok rows =>
    rw [hrows] at h
    exact ⟨rows, (Except.ok.inj h).symm⟩

/-- A statement changes the shadow table only. -/
theorem sqlInsert_real {columns : List SqliteValue} {u : VirtualTable I}
    (h : vt.sqlInsert sq columns = .ok u) : ∃ rows, u = { vt with real := rows } := by
  unfold sqlInsert at h
  split_ifs at h
  · split at h
    · cases h
    · dsimp only at h
      split_ifs at h
      exact ⟨_, (Except.ok.inj h).symm⟩
  · exact execute_ok sq vt h

theorem sqlDelete_real {v : SqliteValue} {u : VirtualTable I} (h : vt.sqlDelete sq v = .ok u) :
    ∃ rows, u = { vt with real := rows } := by
  unfold sqlDelete at h
  split_ifs at h
  · split at h
    · cases h
    · exact ⟨_, (Except.ok.inj h).symm⟩
  · exact execute_ok sq vt h

theorem sqlUpdate_real {columns : List SqliteValue} {v : SqliteValue} {u : VirtualTable I}
    (h : vt.sqlUpdate sq columns v = .ok u) : ∃ rows, u = { vt with real := rows } := by
  unfold sqlUpdate at h
  split_ifs at h
  · split at h
    · dsimp only at h
      split_ifs at h
      exact ⟨_, (Except.ok.inj h).symm⟩
    · cases h
  · exact execute_ok sq vt h

/-! ## The functions of the extension -/

/-- `argv[indexColNumber + 2]`. -/
def indexArg (argv : List SqliteValue) : SqliteValue :=
  argv.getD (vt.indexColNumber + 2).toNat .null

/-- `byteComparator.firstPartBytes = indexDataSize`, `insert(tree, createTreeKey(value, rowId))` and
`++insertsCount`; the types that get here have keys. -/
def insertKey (value : SqliteValue) (rowId : Int64) : VirtualTable I :=
  match createTreeKey vt.beyond vt.indexDataSize (some value) rowId with
  | some key => { vt with
      firstPartBytes := vt.indexDataSize
      tree := I.insert vt.indexDataSize key vt.tree
      stats := { vt.stats with insertsCount := vt.stats.insertsCount + 1 } }
  | none => vt

/-- `byteComparator.firstPartBytes = indexDataSize`, `removeKey(tree, createTreeKey(value))` and
`++deletesCount`. -/
def removeKey (value : SqliteValue) : Bool × VirtualTable I :=
  match vt.searchedKey value with
  | some key =>
    let r := I.removeKey vt.indexDataSize key vt.tree
    (r.1, { vt with
      firstPartBytes := vt.indexDataSize
      tree := r.2
      stats := { vt.stats with deletesCount := vt.stats.deletesCount + 1 } })
  | none => (false, vt)

/-- `btreesModsInsert` after `rebuildIndexIfNecessary` (lines 324–357): the return code, `*pRowid` if it
is set, and the table. -/
def btreesModsDoInsert (argv : List SqliteValue) : ℤ × Option Int64 × VirtualTable I :=
  if (vt.indexArg argv).valueType ≠ getIntByDataType vt.indexDataType then
    (SQLITE_MISMATCH, none, vt)
  else match vt.sqlInsert sq (argv.drop 2) with
    | .error rc => (rc, none, vt)
    | .ok vt =>
      let rowId := vt.getRowId sq (vt.indexArg argv)
      (0, some rowId, vt.insertKey (vt.indexArg argv) rowId)

/-- `btreesModsInsert` (lines 319–357). -/
def btreesModsInsert (argv : List SqliteValue) : ℤ × Option Int64 × VirtualTable I :=
  vt.rebuildIndexIfNecessary.btreesModsDoInsert sq argv

/-- `btreesModsDelete` (lines 292–317). -/
def btreesModsDelete (primaryKeyValue : SqliteValue) : ℤ × Option Int64 × VirtualTable I :=
  match vt.sqlDelete sq primaryKeyValue with
  | .error rc => (rc, none, vt)
  | .ok vt =>
    let (removed, vt) := vt.removeKey primaryKeyValue
    (if removed then 0 else 1, some (vt.getRowId sq primaryKeyValue), vt)

/-- `btreesModsDoUpdate` (lines 227–290). -/
def btreesModsDoUpdate (argv : List SqliteValue) : ℤ × Option Int64 × VirtualTable I :=
  if (vt.indexArg argv).valueType ≠ getIntByDataType vt.indexDataType then
    (SQLITE_MISMATCH, none, vt)
  else match vt.sqlUpdate sq (argv.drop 2) (argv.getD 0 .null) with
    | .error rc => (rc, none, vt)
    | .ok vt =>
      let rowId := vt.getRowId sq (vt.indexArg argv)
      if cString (sq.valueText (argv.getD 0 .null)) ≠ cString (sq.valueText (vt.indexArg argv)) then
        let (removed, vt) := vt.removeKey (argv.getD 0 .null)
        if !removed then (1, some rowId, vt)
        else (0, some rowId, vt.insertKey (vt.indexArg argv) rowId)
      else (0, some rowId, vt)

/-- `btreesModsUpdate` (lines 215–225). -/
def btreesModsUpdate (argv : List SqliteValue) : ℤ × Option Int64 × VirtualTable I :=
  if argv.length = 1 ∧ (argv.getD 0 .null).valueType ≠ 5 then
    vt.btreesModsDelete sq (argv.getD 0 .null)
  else if 1 < argv.length ∧ (argv.getD 0 .null).valueType = 5 then vt.btreesModsInsert sq argv
  else if 1 < argv.length ∧ (argv.getD 0 .null).valueType ≠ 5 then vt.btreesModsDoUpdate sq argv
  else (-1, none, vt)

end VirtualTable

/-! ## Calls -/

/-- A call of `xUpdate` as SQLite makes it: the row ids are those of rows of the virtual table. -/
inductive XUpdate
  | delete (rowId : Int64)
  | insert (newRowId : SqliteValue) (columns : List SqliteValue)
  | update (rowId : Int64) (newRowId : SqliteValue) (columns : List SqliteValue)

/-- The arguments of the call. -/
def XUpdate.argv : XUpdate → List SqliteValue
  | delete rowId => [.integer rowId]
  | insert newRowId columns => .null :: newRowId :: columns
  | update rowId newRowId columns => .integer rowId :: newRowId :: columns

end BTreesMods
