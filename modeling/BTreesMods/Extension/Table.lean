import BTreesMods.Extension.Keys
import BTreesMods.Lib.Literal
import Mathlib.Data.List.Perm.Basic

/-!
# Virtual tables

A `btrees_mods` virtual table keeps its rows in a shadow table `<name>_real` and the encoded primary
keys with the row ids in a tree. Of the tree the model has the operations that the extension uses
(`IndexTree`), with their specification as operations on a multiset of records, relative to the comparator
that they run with (`OrderedTree`).
Of SQLite it has what the statements of the extension do to the shadow table where each text in them is one
literal, and as parameters what SQLite reads the literals as and what other statements do.
-/

namespace BTreesMods

/-! ## Comparators -/

/-- The bytes of a tree key. -/
abbrev Key := List UInt8

/-- The first `n` bytes of a searched key that the comparator reads. A key of fewer than `n` bytes is
read beyond its end, where the bytes `beyond` are. -/
def readBeyond (beyond : ℕ → UInt8) (n : ℕ) (k : Key) : Key :=
  k ++ (List.range (n - k.length)).map beyond

/-- `isEqual` with `firstPartBytes = n` on two keys. -/
def keyMatches (n : ℕ) (k x : Key) : Bool := (ByteComparator.mk n).isEqual k x (n + 8)

/-- `compare` with `firstPartBytes = n` on two keys. -/
def keyBelow (n : ℕ) (x k : Key) : Bool := (ByteComparator.mk n).compare x k (n + 8)

/-- The comparators that `searchAll` runs with, and their `firstPartBytes`. -/
inductive IndexComparator
  | byteComparator (firstPartBytes : ℕ)
  | searchAllByteComparator (firstPartBytes : ℕ)

/-- `isEqual` of either comparator (`btree_c.hpp`, lines 26–33; `btree_c.h`, line 52). -/
def IndexComparator.isEqual : IndexComparator → Key → Key → Bool
  | byteComparator n, k, x => keyMatches n k x
  | searchAllByteComparator _, _, _ => true

/-- `firstPartBytes` of either comparator. -/
def IndexComparator.firstPartBytes : IndexComparator → ℕ
  | byteComparator n | searchAllByteComparator n => n

/-! ## The tree -/

/-- `FileBaseBTree` as the extension uses it: `create` with the number of a tree kind, and `insert`,
`removeKey` and `searchAll` of the C interface with the comparator they run with. -/
structure IndexTree where
  Tree : Type
  records : Tree → List Key
  create : ℕ → Tree
  insert : ℕ → Key → Tree → Tree
  removeKey : ℕ → Key → Tree → Bool × Tree
  searchAll : IndexComparator → Key → Tree → List Key

/-- Keys in the order of `byteComparator` with `firstPartBytes = n`. -/
def KeysOrdered (n : ℕ) (keys : List Key) : Prop := keys.Pairwise fun x y => keyBelow n y x = false

theorem keyBelow_mono {m n : ℕ} (hmn : m ≤ n) {x k : Key} (h : keyBelow m x k = true) :
    keyBelow n x k = true := by
  have hm : min (m + 8) m = m := by omega
  have hn : min (n + 8) n = n := by omega
  simp only [keyBelow, ByteComparator.compare, hm, hn] at h ⊢
  rw [← List.take_append_drop m (x.take n), ← List.take_append_drop m (k.take n), List.take_take,
    List.take_take, Nat.min_eq_left hmn]
  exact ByteComparator.compareBytes_append h _ _

theorem keyBelow_of_keyMatches {n : ℕ} {k x : Key} (h : keyMatches n k x = true) : keyBelow n x k = false :=
  ByteComparator.compareBytes_of_isEqualBytes h

/-- The order of more bytes is one of fewer. -/
theorem KeysOrdered.mono {m n : ℕ} (hmn : m ≤ n) {keys : List Key} (h : KeysOrdered n keys) :
    KeysOrdered m keys := by
  refine h.imp fun {x y} hyx => ?_
  by_contra hbelow
  rw [keyBelow_mono hmn (Bool.not_eq_false _ ▸ hbelow)] at hyx
  cases hyx

/-- The operations at their specification relative to the comparator that they run with: nothing is
said of a tree whose records are in another order. `searchAll` starts at the first record that is not
below the searched key. -/
structure OrderedTree extends IndexTree where
  create_records : ∀ kind, records (create kind) = []
  insert_records : ∀ n k t, KeysOrdered n (records t) →
    KeysOrdered n (records (insert n k t)) ∧ (records (insert n k t)).Perm (k :: records t)
  removeKey_records : ∀ n k t, KeysOrdered n (records t) →
    KeysOrdered n (records (removeKey n k t).2) ∧
      ((∃ x ∈ records t, keyMatches n k x = true ∧ (removeKey n k t).1 = true ∧
        (records t).Perm (x :: records (removeKey n k t).2)) ∨
      ((∀ x ∈ records t, keyMatches n k x = false) ∧ (removeKey n k t).1 = false ∧
        (records (removeKey n k t).2).Perm (records t)))
  searchAll_records : ∀ c k t, KeysOrdered c.firstPartBytes (records t) →
    (searchAll c k t).Perm
      ((records t).filter fun x => !keyBelow c.firstPartBytes x k && c.isEqual k x)

theorem eraseP_records (p : Key → Bool) (keys : List Key) :
    (∃ x ∈ keys, p x = true ∧ keys.any p = true ∧ keys.Perm (x :: keys.eraseP p)) ∨
      ((∀ x ∈ keys, p x = false) ∧ keys.any p = false ∧ (keys.eraseP p).Perm keys) := by
  by_cases h : ∃ x ∈ keys, p x = true
  · obtain ⟨x, hx, hpx⟩ := h
    obtain ⟨y, l₁, l₂, -, hpy, hkeys, hout⟩ := List.exists_of_eraseP hx hpx
    refine Or.inl ⟨y, by rw [hkeys]; simp, hpy, List.any_eq_true.mpr ⟨x, hx, hpx⟩, ?_⟩
    rw [hout, hkeys]
    exact List.perm_middle
  · have hnone : ∀ x ∈ keys, p x = false := by
      intro x hx
      by_contra hp
      exact h ⟨x, hx, by simpa using hp⟩
    refine Or.inr ⟨hnone, by simpa [List.any_eq_false] using hnone, ?_⟩
    rw [List.eraseP_of_forall_not (by simpa using hnone)]

/-- Insertion before the first greater key. -/
def insertOrdered (n : ℕ) (k : Key) : List Key → List Key
  | [] => [k]
  | x :: keys => if keyBelow n k x then k :: x :: keys else x :: insertOrdered n k keys

theorem insertOrdered_perm (n : ℕ) (k : Key) (keys : List Key) :
    (insertOrdered n k keys).Perm (k :: keys) := by
  induction keys with
  | nil => exact List.Perm.refl _
  | cons x keys ih =>
    rw [insertOrdered]
    split_ifs
    · exact List.Perm.refl _
    · exact (ih.cons x).trans (List.Perm.swap k x keys)

theorem insertOrdered_ordered {n : ℕ} (k : Key) {keys : List Key} (h : KeysOrdered n keys) :
    KeysOrdered n (insertOrdered n k keys) := by
  induction keys with
  | nil => exact List.pairwise_singleton _ k
  | cons x keys ih =>
    obtain ⟨hx, hkeys⟩ := List.pairwise_cons.mp h
    rw [insertOrdered]
    split_ifs with hk
    · apply List.pairwise_cons.mpr ⟨?_, h⟩
      intro y hy
      rcases List.mem_cons.mp hy with rfl | hy
      · exact ByteComparator.compareBytes_asymm hk
      · by_contra hyk
        have hyx := ByteComparator.compareBytes_trans (Bool.not_eq_false _ ▸ hyk) hk
        exact Bool.false_ne_true ((hx y hy).symm.trans hyx)
    · apply List.pairwise_cons.mpr ⟨?_, ih hkeys⟩
      intro y hy
      rcases List.mem_cons.mp ((insertOrdered_perm n k keys).subset hy) with rfl | hy
      · exact Bool.not_eq_true _ ▸ hk
      · exact hx y hy

/-- The tree as the list of its records in order. -/
def OrderedTree.list : OrderedTree where
  Tree := List Key
  records t := t
  create _ := []
  insert := insertOrdered
  removeKey n k t := (t.any (keyMatches n k), t.eraseP (keyMatches n k))
  searchAll c k t := t.filter fun x => !keyBelow c.firstPartBytes x k && c.isEqual k x
  create_records _ := rfl
  insert_records n k t h := ⟨insertOrdered_ordered k h, insertOrdered_perm n k t⟩
  removeKey_records n k t h :=
    ⟨h.sublist List.eraseP_sublist, eraseP_records (keyMatches n k) t⟩
  searchAll_records _ _ _ _ := List.Perm.refl _

/-! ## Literals -/

/-- What SQLite reads a literal as. -/
inductive SqlReading
  | value (v : SqliteValue)
  | column (name : List UInt8)
deriving DecidableEq

/-- A byte with ASCII capitals made small. -/
def lowerByte (b : UInt8) : UInt8 := if 0x41 ≤ b ∧ b ≤ 0x5A then b + 0x20 else b

/-- Two names of a column are the same without regard to ASCII case. -/
def SameName (a b : List UInt8) : Prop := a.map lowerByte = b.map lowerByte

instance (a b : List UInt8) : Decidable (SameName a b) := inferInstanceAs (Decidable (_ = _))

/-- A decimal number of 64 bits; a greater one is not an integer. -/
def integerLiteral (i : ℤ) : Option SqlReading :=
  if -2 ^ 63 ≤ i ∧ i < 2 ^ 63 then some (.value (.integer (Int64.ofInt i))) else none

/-- The rest of a literal `x'…'` after its first letter. -/
def blobLiteral : List UInt8 → Option SqlReading
  | [] => none
  | c :: rest =>
    if c = 0x27 then (hexToken rest).map fun bytes => .value (.blob bytes) else none

/-- The literals of integers, texts, blobs and NULL, in a statement where the columns have `names`. A
token in double quotes is the column that has its content as its name, if there is one. In UPDATE and DELETE
`names` has `rowid`, `oid` and `_rowid_` too, which SQLite reads as the row id there. -/
def readLiteral (names : List (List UInt8)) : List UInt8 → Option SqlReading
  | [] => none
  | c :: rest =>
    if c = 0x22 then (wholeToken 0x22 rest).map fun content =>
      if names.any (SameName content) then .column content else .value (.text content)
    else if c = 0x27 then (wholeToken 0x27 rest).map fun content => .value (.text content)
    else if c = 0x2D then (readDigits rest).bind fun n => integerLiteral (-n)
    else if SameName (c :: rest) [0x4E, 0x55, 0x4C, 0x4C] then some (.value .null)
    else if lowerByte c = 0x78 then blobLiteral rest
    else (readDigits (c :: rest)).bind fun n => integerLiteral n

/-- A text that is one literal: an integer, a text, a blob, NULL or another number. -/
def isLiteral (text : List UInt8) : Bool := (readLiteral [] text).isSome || isNumber text

/-- A number, the text `b` in quotes, and a text with a quote in it, which goes on behind the literal. -/
example : isLiteral [0x31, 0x2E, 0x35, 0x65, 0x2B, 0x31, 0x30] = true ∧ isLiteral [0x22, 0x62, 0x22] = true ∧
    isLiteral [0x22, 0x78, 0x22, 0x22] = false := by decide

theorem readLiteral_isSome (names : List (List UInt8)) (text : List UInt8) :
    (readLiteral names text).isSome = (readLiteral [] text).isSome := by
  cases text with
  | nil => rfl
  | cons c rest =>
    rw [readLiteral, readLiteral]
    split_ifs
    · rw [Option.isSome_map, Option.isSome_map]
    all_goals rfl

theorem isLiteral_of_readLiteral {names : List (List UInt8)} {text : List UInt8} {r : SqlReading}
    (h : readLiteral names text = some r) : isLiteral text = true := by
  rw [isLiteral, ← readLiteral_isSome names, h]
  rfl

/-! ## The shadow table -/

/-- A row of the shadow table. -/
structure Row where
  rowId : Int64
  columns : List SqliteValue
deriving DecidableEq

/-- The value of a column; column `-1` is the row id. -/
def Row.value (row : Row) (col : ℤ) : SqliteValue :=
  if col = -1 then .integer row.rowId else row.columns.getD col.toNat .null

/-- A statement of the extension that changes the shadow table, with the texts of its values. -/
inductive SqlStatement
  | insert (columns : List (List UInt8))
  | update (columns : List (List UInt8)) (primaryKey : List UInt8)
  | delete (primaryKey : List UInt8)

/-- What the model takes over from SQLite. `valueText` is `sqlite3_value_text`. `readSql col text` is
the value that the literal `text` denotes in a statement where it stands for column `col`, after the column's
affinity, or nothing if the statement is not valid; a text in double quotes can be the name of a
column, so the value depends on the row that the statement is at, if any. `newRowId` is the row id of
a new row and `movedRowId` the row id of a row after an update.
A text that is not one literal can be the end of a value, of a list of values or of a condition, and the
beginning of another: `execute` is what a statement with such a text does to the rows, and `selectRowId` what
`SELECT rowid` with such a text returns. -/
structure Sqlite where
  valueText : SqliteValue → List UInt8
  readSql : ℤ → List UInt8 → Option (Option Row → SqliteValue)
  newRowId : List Row → List SqliteValue → Int64
  movedRowId : Row → List SqliteValue → Int64
  execute : SqlStatement → List Row → Except ℤ (List Row)
  selectRowId : List UInt8 → List Row → Int64

/-- `indexStats` (`btrees_mods.h`, lines 109–130). -/
structure IndexStats where
  searchesCount : ℕ
  insertsCount : ℕ
  deletesCount : ℕ
  isOriginalStats : Bool

/-- `btreesModsVirtualTable` with its `params` and `stats`, the rows of its shadow table, and what its
functions find outside: the `firstPartBytes` of the process-wide `byteComparator`, and the bytes
`beyond` that lie behind a key or a row id in memory. -/
structure VirtualTable (I : IndexTree) where
  bestIndex : ℕ
  indexColNumber : ℤ
  indexDataType : String
  indexDataSize : ℕ
  stats : IndexStats
  firstPartBytes : ℕ
  beyond : ℕ → UInt8
  tree : I.Tree
  real : List Row

namespace VirtualTable

variable {I : IndexTree} (vt : VirtualTable I)

/-- The primary key value of a row. -/
def primaryKey (row : Row) : SqliteValue := row.value vt.indexColNumber

/-- The index entry that belongs to a row: the encoded primary key and the row id. -/
def entry (row : Row) : Option Key :=
  createTreeKey vt.beyond vt.indexDataSize (some (vt.primaryKey row)) row.rowId

/-- The index holds exactly one entry for each row of the shadow table. -/
def Agree : Prop := ((I.records vt.tree).map some).Perm (vt.real.map vt.entry)

/-- The key that the tree reads when it gets the key of `value`. -/
def searchedKey (value : SqliteValue) : Option Key :=
  (createTreeKey vt.beyond vt.indexDataSize (some value) 0).map (readBeyond vt.beyond vt.indexDataSize)

/-- `<primary key> = v`: nothing is equal to NULL. -/
def pkEquals (v : SqliteValue) (row : Row) : Bool := v ≠ .null && vt.primaryKey row = v

/-- The primary key of the shadow table is unique. -/
def UniqueKey : Prop := vt.real.Pairwise fun r s => vt.pkEquals (vt.primaryKey r) s = false

instance : Decidable vt.UniqueKey := inferInstanceAs (Decidable (List.Pairwise _ _))

end VirtualTable

end BTreesMods
