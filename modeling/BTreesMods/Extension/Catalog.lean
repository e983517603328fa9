import BTreesMods.Extension.Rebuild
import BTreesMods.Model.Tree

/-!
# The catalog of the extension

Model of the life of virtual tables (`btrees_mods.c`): `btreesModsInit` with `registerIndexColumn`,
`createIndex` and `openIndex` (lines 422–697), `btreesModsDisconnect`, `btreesModsDestroy`,
`btreesModsRename` (lines 50–83 and 388–420), what `rebuildIndex` does to the table `btrees_mods_idxinfo`
and the tree file (lines 980–1001), and the queries `btreesModsGetTreeType` and `btreesModsGetTreeOrder`
(lines 1054–1170).

There is one connection to the database. The statements take the names of tables as they are, in quotes or
without; they stand for themselves there if they are `PlainName`s. A call that fails is rolled back by SQLite.
Files can be written and removed, also while another table has them open (which Windows does not allow).
-/

namespace BTreesMods.Catalog

/-! ## Data -/

/-- The order of the trees. -/
def TREE_ORDER : UInt16 := 750

/-- A column of a shadow table, as `sqlite3_table_column_metadata` describes it. -/
structure Column where
  name : String
  dataType : Option String
  primaryKey : Bool
deriving DecidableEq

/-- `indexParams` (`btrees_mods.h`, lines 71–102). -/
structure IndexParams where
  bestIndex : ℕ
  indexColNumber : ℤ
  indexColName : String
  indexDataType : String
  indexDataSize : ℤ
  treeFileName : String
deriving DecidableEq

/-- A row of `btrees_mods_idxinfo`. -/
structure InfoRow where
  tableName : String
  params : IndexParams
deriving DecidableEq

/-- A tree file: the class that wrote it, and its header. -/
structure TreeFile where
  treeType : TreeType
  order : UInt16
  recSize : UInt16
deriving DecidableEq

/-- An open `FileBaseBTree`: its class and its file. -/
structure OpenTree where
  treeType : TreeType
  fileName : String
deriving DecidableEq

/-- `btreesModsVirtualTable` (`btrees_mods.h`, lines 137–180). -/
structure OpenTable where
  tableName : String
  params : IndexParams
  isOriginalStats : Bool
  tree : OpenTree
deriving DecidableEq

/-- The row of a virtual table. -/
def OpenTable.row (v : OpenTable) : InfoRow := ⟨v.tableName, v.params⟩

/-- The shadow tables by the names of their virtual tables in lower case, the rows of
`btrees_mods_idxinfo`, the tree files, and the open virtual tables. -/
structure Connection where
  shadow : String → Option (List Column)
  idxinfo : List InfoRow
  files : String → Option TreeFile
  opened : List OpenTable

/-- Why a call fails: with a return code, or by a null pointer or an exception that nobody catches. -/
inductive Failure
  | rc (rc : ℤ)
  | crash

def SQLITE_ERROR : Failure := .rc 1
def SQLITE_CONSTRAINT : Failure := .rc 19
def ERROR_CODE : Failure := .rc (-1)

/-! ## Names in statements -/

/-- The columns of `btrees_mods_idxinfo` in lower case, with their values as text. -/
def InfoRow.columns (r : InfoRow) : List (String × String) :=
  [("tablename", r.tableName), ("bestindex", toString r.params.bestIndex),
    ("indexcolnumber", toString r.params.indexColNumber), ("indexcolname", r.params.indexColName),
    ("indexdatatype", r.params.indexDataType), ("indexdatasize", toString r.params.indexDataSize),
    ("treefilename", r.params.treeFileName)]

/-- What the text `"name"` stands for at a row: the value of the column of this name, or else the string. -/
def InfoRow.quoted (r : InfoRow) (name : String) : String := (r.columns.lookup name.toLower).getD name

/-- `tableName = "name"`. -/
def InfoRow.named (r : InfoRow) (name : String) : Bool := r.tableName = r.quoted name

/-- The other names that SQLite has for the row id. -/
def rowidNames : List String := ["rowid", "oid", "_rowid_"]

/-- `name` in quotes is a string, and not a column of `btrees_mods_idxinfo` or the row id. -/
def ReadsAsText (name : String) : Prop :=
  name.toLower ∉ ["tablename", "bestindex", "indexcolnumber", "indexcolname", "indexdatatype",
    "indexdatasize", "treefilename"] ∧ name.toLower ∉ rowidNames

instance (name : String) : Decidable (ReadsAsText name) := inferInstanceAs (Decidable (_ ∧ _))

/-- The keywords of SQLite. -/
def keywords : List String :=
  ["abort", "action", "add", "after", "all", "alter", "always", "analyze", "and", "as", "asc", "attach",
    "autoincrement", "before", "begin", "between", "by", "cascade", "case", "cast", "check", "collate",
    "column", "commit", "conflict", "constraint", "create", "cross", "current", "current_date",
    "current_time", "current_timestamp", "database", "default", "deferrable", "deferred", "delete", "desc",
    "detach", "distinct", "do", "drop", "each", "else", "end", "escape", "except", "exclude", "exclusive",
    "exists", "explain", "fail", "filter", "first", "following", "for", "foreign", "from", "full",
    "generated", "glob", "group", "groups", "having", "if", "ignore", "immediate", "in", "index", "indexed",
    "initially", "inner", "insert", "instead", "intersect", "into", "is", "isnull", "join", "key", "last",
    "left", "like", "limit", "match", "materialized", "natural", "no", "not", "nothing", "notnull", "null",
    "nulls", "of", "offset", "on", "or", "order", "others", "outer", "over", "partition", "plan", "pragma",
    "preceding", "primary", "query", "raise", "range", "recursive", "references", "regexp", "reindex",
    "release", "rename", "replace", "restrict", "returning", "right", "rollback", "row", "rows",
    "savepoint", "select", "set", "table", "temp", "temporary", "then", "ties", "to", "transaction",
    "trigger", "unbounded", "union", "unique", "update", "using", "vacuum", "values", "view", "virtual",
    "when", "where", "window", "with", "within", "without"]

/-- `name` without quotes is a name: letters, digits and underscores, with no digit in front. -/
def IsIdentifier (name : String) : Prop :=
  name.toList.head?.any (fun c => !c.isDigit) = true ∧
    name.toList.all (fun c => c.isAlphanum || c == '_') = true ∧ name.toLower ∉ keywords

instance (name : String) : Decidable (IsIdentifier name) := inferInstanceAs (Decidable (_ ∧ _))

/-- `name` stands for itself in every statement, with quotes and without. -/
def PlainName (name : String) : Prop := IsIdentifier name ∧ ReadsAsText name

instance (name : String) : Decidable (PlainName name) := inferInstanceAs (Decidable (_ ∧ _))

/-! ## Trees and files -/

/-- `switch (bestIndex)` in `createIndex`, `openIndex` and `openTreeForTable`. -/
def treeTypeOf (bestIndex : ℕ) : Option TreeType :=
  if bestIndex = BTREE_NUM then some .bTree
  else if bestIndex = BPLUSTREE_NUM then some .bPlusTree
  else if bestIndex = BSTARTREE_NUM then some .bStarTree
  else if bestIndex = BSTARPLUSTREE_NUM then some .bStarPlusTree
  else none

/-- `indexDataSize + sizeof(sqlite_int64)` as a `UShort`. -/
def keySize (indexDataSize : ℤ) : UInt16 := UInt16.ofNat ((indexDataSize + 8) % 2 ^ 16).toNat

/-- `getTreeFileName` (lines 556–573), called in second `time`, which fits into an `int`; `rand` is the first
value of the random generator after `srand(seed)`. -/
def getTreeFileName (rand : ℕ → ℕ) (seed time : ℕ) : String :=
  "tree_" ++ toString (rand seed) ++ toString time ++ ".btree"

/-- What `create` and `open` of the C interface check of an order and a size of keys. -/
def Accepts (treeType : TreeType) (order recSize : UInt16) : Prop :=
  (1 ≤ order ∧ 0 < recSize) ∧ (setOrder treeType order recSize).isOk = true

instance (treeType : TreeType) (order recSize : UInt16) : Decidable (Accepts treeType order recSize) :=
  inferInstanceAs (Decidable (_ ∧ _))

/-- `createIndex` (lines 575–603). -/
def createIndex (params : IndexParams) (files : String → Option TreeFile) :
    Except Failure (OpenTree × (String → Option TreeFile)) :=
  match treeTypeOf params.bestIndex with
  | none => .error ERROR_CODE
  | some treeType =>
    if Accepts treeType TREE_ORDER (keySize params.indexDataSize) then
      .ok (⟨treeType, params.treeFileName⟩, Function.update files params.treeFileName
        (some ⟨treeType, TREE_ORDER, keySize params.indexDataSize⟩))
    else .error .crash

/-- `open` of the C interface (`btree_c.hpp`, lines 84–96). A file that another class wrote counts as one that
is not accepted. -/
def openTree (treeType : TreeType) (fileName : String) (files : String → Option TreeFile) :
    Except Failure (Option OpenTree) :=
  match files fileName with
  | none => .ok none
  | some file =>
    if file.treeType = treeType ∧ Accepts treeType file.order file.recSize then
      .ok (some ⟨treeType, fileName⟩)
    else .error .crash

/-- `openIndex` (lines 605–629). -/
def openIndex (params : IndexParams) (files : String → Option TreeFile) : Except Failure OpenTree :=
  match treeTypeOf params.bestIndex with
  | none => .error ERROR_CODE
  | some treeType => do
    let tree ← openTree treeType params.treeFileName files
    match tree with
    | none => .error ERROR_CODE
    | some tree => .ok tree

/-! ## The calls -/

/-- The parameters that `registerIndexColumn` finds (lines 651–683). -/
def indexColumn (columns : List Column) (treeFileName : String) : Except Failure IndexParams :=
  match columns.zipIdx.find? fun c => c.1.primaryKey with
  | none => .ok ⟨BPLUSTREE_NUM, -1, "rowid", "INTEGER", getDataSizeByType "INTEGER", treeFileName⟩
  | some (column, i) =>
    match column.dataType with
    | none => .error .crash
    | some dataType =>
      .ok ⟨BPLUSTREE_NUM, i, column.name, dataType, getDataSizeByType dataType, treeFileName⟩

namespace Connection

variable (w : Connection)

/-- The first row that `SELECT ... WHERE tableName = "name"` returns. -/
def select (name : String) : Option InfoRow := w.idxinfo.find? fun r => r.named name

/-- The open virtual table of this name. -/
def find (name : String) : Option OpenTable := w.opened.find? fun v => v.tableName = name

/-- The open virtual tables of other names. -/
def others (name : String) : List OpenTable := w.opened.filter fun v => v.tableName ≠ name

/-- `btreesModsCreate`: `btreesModsInit` with `isCreate` set, and `registerIndexColumn`. The table must be a new
one and have a column. -/
def create (rand : ℕ → ℕ) (name : String) (columns : List Column) (seed time : ℕ) :
    Except Failure Connection :=
  if (w.shadow name.toLower).isSome ∨ columns = [] then .error SQLITE_ERROR
  else do
    let params ← indexColumn columns (getTreeFileName rand seed time)
    if name ∈ w.idxinfo.map InfoRow.tableName then .error SQLITE_CONSTRAINT
    else do
      let (tree, files) ← createIndex params w.files
      return {
        shadow := Function.update w.shadow name.toLower (some columns)
        idxinfo := w.idxinfo ++ [⟨name, params⟩]
        files := files
        opened := w.opened ++ [⟨name, params, true, tree⟩] }

/-- `btreesModsConnect`: `btreesModsInit` with `isCreate` not set. -/
def connect (name : String) : Except Failure Connection :=
  match w.select name with
  | none => .error .crash
  | some r => do
    let tree ← openIndex r.params w.files
    return { w with opened := w.opened ++ [⟨name, r.params, false, tree⟩] }

/-- `btreesModsDisconnect`. -/
def disconnect (v : OpenTable) : Connection := { w with opened := w.others v.tableName }

/-- `btreesModsDestroy`. -/
def destroy (v : OpenTable) : Except Failure Connection :=
  if (w.shadow v.tableName.toLower).isNone then .error SQLITE_ERROR
  else .ok {
    shadow := Function.update w.shadow v.tableName.toLower none
    idxinfo := w.idxinfo.filter fun r => !r.named v.tableName
    files := Function.update w.files v.params.treeFileName none
    opened := w.others v.tableName }

/-- The rows after `UPDATE btrees_mods_idxinfo SET tableName = "zNew" WHERE tableName = "name"`. -/
def renamedRows (name zNew : String) : List InfoRow :=
  w.idxinfo.map fun r => if r.named name then { r with tableName := r.quoted zNew } else r

/-- `btreesModsRename`. -/
def rename (v : OpenTable) (zNew : String) : Except Failure Connection :=
  match w.shadow v.tableName.toLower with
  | none => .error SQLITE_ERROR
  | some columns =>
    if (w.shadow zNew.toLower).isSome then .error SQLITE_ERROR
    else if ¬((w.renamedRows v.tableName zNew).map InfoRow.tableName).Nodup then .error SQLITE_CONSTRAINT
    else .ok {
      shadow := Function.update (Function.update w.shadow v.tableName.toLower none) zNew.toLower
        (some columns)
      idxinfo := w.renamedRows v.tableName zNew
      files := w.files
      opened := w.others v.tableName ++ [{ v with tableName := zNew }] }

/-- `rebuildIndex` of a table whose `bestIndex` changes, as far as the catalog and the file go. It does not read
what `createIndex` returns, and would go on with a null pointer. -/
def rebuild (v : OpenTable) (bestIndex : ℕ) : Except Failure Connection := do
  let params := { v.params with bestIndex := bestIndex }
  let (tree, files) ← createIndex params (Function.update w.files v.params.treeFileName none)
  return { w with
    idxinfo := w.idxinfo.map fun r =>
      if r.named v.tableName then { r with params := { r.params with bestIndex := bestIndex } } else r
    files := files
    opened := w.others v.tableName ++ [{ v with params := params, tree := tree }] }

/-- `btreesModsGetTreeType`: the number, or nothing if the table is not found. -/
def getTreeType (name : String) : Option ℕ := (w.select name).map fun r => r.params.bestIndex

/-- `btreesModsGetTreeOrder` and `openTreeForTable`: the order in the file, or nothing if the table or its tree
is not found. -/
def getTreeOrder (name : String) : Except Failure (Option UInt16) :=
  match w.select name with
  | none => .ok none
  | some r =>
    match treeTypeOf r.params.bestIndex with
    | none => .ok none
    | some treeType => do
      let tree ← openTree treeType r.params.treeFileName w.files
      return tree.bind fun tree => (w.files tree.fileName).map TreeFile.order

end Connection

/-- A call of SQLite to the extension. -/
inductive CatalogCall
  | create (name : String) (columns : List Column) (seed time : ℕ)
  | connect (name : String)
  | disconnect (name : String)
  | destroy (name : String)
  | rename (name zNew : String)
  | rebuild (name : String) (stats : IndexStats)

/-- The call. SQLite connects a table that is not open, and makes the other calls for open tables. With the
statistics `stats`, a rebuild being due, `rebuildIndexIfNecessary` rebuilds a table that was created in this
connection, if it chooses another class. -/
def CatalogCall.run (rand : ℕ → ℕ) (w : Connection) : CatalogCall → Except Failure Connection
  | create name columns seed time => w.create rand name columns seed time
  | connect name => if (w.find name).isSome then .ok w else w.connect name
  | disconnect name =>
    match w.find name with
    | none => .ok w
    | some v => .ok (w.disconnect v)
  | destroy name =>
    match w.find name with
    | none => .ok w
    | some v => w.destroy v
  | rename name zNew =>
    match w.find name with
    | none => .ok w
    | some v => w.rename v zNew
  | rebuild name stats =>
    match w.find name with
    | none => .ok w
    | some v =>
      if v.isOriginalStats ∧ stats.chosenIndex ≠ v.params.bestIndex then w.rebuild v stats.chosenIndex
      else .ok w

/-- The calls one after another. A call that fails leaves the connection as it was. -/
def runCatalog (rand : ℕ → ℕ) : Connection → List CatalogCall → Connection
  | w, [] => w
  | w, c :: calls => runCatalog rand ((c.run rand w).toOption.getD w) calls

end BTreesMods.Catalog
