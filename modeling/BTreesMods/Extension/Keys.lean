import BTreesMods.Lib.Bytes
import Mathlib.Data.Int.ModEq

/-!
# Index keys

Model of the tree keys of a `btrees_mods` table (`btrees_mods.c`, lines 699–882) and of the
comparator that orders them (`ByteComparator`, `btree_c.hpp`, lines 13–33). A key is the encoded
primary key value, in a field of a size that the column type fixes, followed by the 8 bytes of the
row id; the comparator looks at the first field only.

`sqlite3_value_int` returns the low 32 bits of a 64-bit integer; the bytes of a value are those of a
little-endian machine.

Main result: `createTreeKey_identifies_iff`, which says for which pairs of values the keys tell the
values apart.
-/

namespace BTreesMods

/-- An `sqlite3_value`; a double is its 64 bits and a text the bytes of its UTF-8 encoding. -/
inductive SqliteValue
  | integer (value : Int64)
  | float (bits : UInt64)
  | text (bytes : List UInt8)
  | blob (bytes : List UInt8)
  | null
deriving DecidableEq, Repr

/-- `sqlite3_value_type`, with the numbers of `SQLITE_INTEGER` to `SQLITE_NULL`. -/
def SqliteValue.valueType : SqliteValue → ℤ
  | integer _ => 1
  | float _ => 2
  | text _ => 3
  | blob _ => 4
  | null => 5

/-- `getIntByDataType` (lines 734–748). -/
def getIntByDataType (dataType : String) : ℤ :=
  if dataType = "INTEGER" then 1
  else if dataType = "FLOAT" then 2
  else if dataType = "TEXT" then 3
  else if dataType = "BLOB" then 4
  else if dataType = "NULL" then 5
  else -1

/-- `getDataSizeByType` (lines 699–713). -/
def getDataSizeByType (dataType : String) : ℤ :=
  if dataType = "INTEGER" then 4
  else if dataType = "FLOAT" then 8
  else if dataType = "TEXT" then 256
  else if dataType = "BLOB" then 256
  else if dataType = "NULL" then 1
  else -1

/-! ## Building a key -/

/-- The 8 bytes of a row id (`sqlite_int64`). -/
def rowIdBytes (rowId : Int64) : List UInt8 := leBytes 8 rowId.toUInt64.toNat

/-- `createIntTreeKey` (lines 834–843): the value goes through an `int`. -/
def createIntTreeKey (value rowId : Int64) : List UInt8 :=
  leBytes 4 value.toInt32.toUInt32.toNat ++ rowIdBytes rowId

/-- `createFloatTreeKey` (lines 845–854). -/
def createFloatTreeKey (bits : UInt64) (rowId : Int64) : List UInt8 :=
  leBytes 8 bits.toNat ++ rowIdBytes rowId

/-- `createTextTreeKey` (lines 856–868). -/
def createTextTreeKey (bytes : List UInt8) (rowId : Int64) : List UInt8 :=
  slot 256 bytes ++ rowIdBytes rowId

/-- `createBlobTreeKey` (lines 870–882). -/
def createBlobTreeKey (bytes : List UInt8) (rowId : Int64) : List UInt8 :=
  slot 256 bytes ++ rowIdBytes rowId

/-- `createTreeKey` (lines 793–832). A null pointer in place of a value makes the function copy
`indexDataSize` bytes from the 8-byte row id; `beyond` are the bytes that lie behind it. -/
def createTreeKey (beyond : ℕ → UInt8) (indexDataSize : ℕ) (primaryKeyValue : Option SqliteValue)
    (rowId : Int64) : Option (List UInt8) :=
  match primaryKeyValue with
  | none => some ((List.range indexDataSize).map
      (fun i => if i < 8 then (rowIdBytes rowId).getD i 0 else beyond i) ++ rowIdBytes rowId)
  | some (.integer value) => some (createIntTreeKey value rowId)
  | some (.float bits) => some (createFloatTreeKey bits rowId)
  | some (.text bytes) => some (createTextTreeKey bytes rowId)
  | some (.blob bytes) => some (createBlobTreeKey bytes rowId)
  | some .null => none

/-! ## Comparing keys -/

/-- `ByteComparator`: the comparator looks at the first `firstPartBytes` bytes of a key. -/
structure ByteComparator where
  firstPartBytes : ℕ

namespace ByteComparator

/-- The loop of `compare`, from its current byte on. -/
def compareBytes : List UInt8 → List UInt8 → Bool
  | l :: lhv, r :: rhv => if l < r then true else if r < l then false else compareBytes lhv rhv
  | _, _ => false

/-- The loop of `isEqual`, from its current byte on. -/
def isEqualBytes : List UInt8 → List UInt8 → Bool
  | l :: lhv, r :: rhv => if l ≠ r then false else isEqualBytes lhv rhv
  | _, _ => true

/-- `compare` (lines 13–24): `i < sz && i < firstPartBytes` bounds the loop. -/
def compare (c : ByteComparator) (lhv rhv : List UInt8) (sz : ℕ) : Bool :=
  compareBytes (lhv.take (min sz c.firstPartBytes)) (rhv.take (min sz c.firstPartBytes))

/-- `isEqual` (lines 26–33). -/
def isEqual (c : ByteComparator) (lhv rhv : List UInt8) (sz : ℕ) : Bool :=
  isEqualBytes (lhv.take (min sz c.firstPartBytes)) (rhv.take (min sz c.firstPartBytes))

theorem compareBytes_asymm {l r : List UInt8} (h : compareBytes l r = true) :
    compareBytes r l = false := by
  induction l generalizing r with
  | nil => cases h
  | cons a l ih =>
    cases r with
    | nil => cases h
    | cons b r =>
      rw [compareBytes] at h ⊢
      by_cases hab : a < b
      · rw [if_neg (UInt8.lt_asymm hab), if_pos hab]
      · rw [if_neg hab] at h
        split_ifs at h with hba
        rw [if_neg hba, if_neg hab]
        exact ih h

theorem compareBytes_of_isEqualBytes {l r : List UInt8} (h : isEqualBytes l r = true) :
    compareBytes r l = false := by
  induction l generalizing r with
  | nil => cases r <;> rfl
  | cons a l ih =>
    cases r with
    | nil => rfl
    | cons b r =>
      rw [isEqualBytes] at h
      split_ifs at h with hab
      rw [not_not.mp hab, compareBytes, if_neg (UInt8.lt_irrefl b), if_neg (UInt8.lt_irrefl b)]
      exact ih h

theorem compareBytes_append {l r : List UInt8} (h : compareBytes l r = true) (l' r' : List UInt8) :
    compareBytes (l ++ l') (r ++ r') = true := by
  induction l generalizing r with
  | nil => cases h
  | cons a l ih =>
    cases r with
    | nil => cases h
    | cons b r =>
      rw [compareBytes] at h
      rw [List.cons_append, List.cons_append, compareBytes]
      split_ifs at h ⊢
      · rfl
      · exact ih h

theorem compareBytes_trans {l m r : List UInt8} (hlm : compareBytes l m = true)
    (hmr : compareBytes m r = true) : compareBytes l r = true := by
  induction l generalizing m r with
  | nil => cases hlm
  | cons a l ih =>
    cases m with
    | nil => cases hlm
    | cons b m =>
      cases r with
      | nil => cases hmr
      | cons c r =>
        rw [compareBytes] at hlm hmr ⊢
        by_cases hab : a < b
        · -- the first byte decides between `l` and `r`
          have hbc : ¬ c < b := by
            intro hcb
            rw [if_neg (UInt8.lt_asymm hcb), if_pos hcb] at hmr
            cases hmr
          rw [if_pos (UInt8.lt_of_lt_of_le hab (UInt8.not_lt.mp hbc))]
        · rw [if_neg hab] at hlm
          split_ifs at hlm with hba
          have heq : a = b := UInt8.le_antisymm (UInt8.not_lt.mp hba) (UInt8.not_lt.mp hab)
          subst heq
          split_ifs at hmr ⊢
          · rfl
          · exact ih hlm hmr

theorem isEqualBytes_iff {l r : List UInt8} (h : l.length = r.length) :
    isEqualBytes l r = true ↔ l = r := by
  induction l generalizing r with
  | nil =>
    cases r with
    | nil => simp [isEqualBytes]
    | cons b r => simp at h
  | cons a l ih =>
    cases r with
    | nil => simp at h
    | cons b r =>
      have hlen : l.length = r.length := by simpa using h
      by_cases hab : a = b
      · simp [isEqualBytes, hab, ih hlen]
      · simp [isEqualBytes, hab]

/-- Keys with a first field of `firstPartBytes` bytes compare equal when these fields are equal. -/
theorem isEqual_append_iff {n sz : ℕ} {l r : List UInt8} (hl : l.length = n) (hr : r.length = n)
    (hsz : n ≤ sz) (s t : List UInt8) :
    (ByteComparator.mk n).isEqual (l ++ s) (r ++ t) sz = true ↔ l = r := by
  have hmin : min sz n = n := by omega
  show isEqualBytes ((l ++ s).take (min sz n)) ((r ++ t).take (min sz n)) = true ↔ l = r
  rw [hmin, List.take_left' hl, List.take_left' hr]
  exact isEqualBytes_iff (hl.trans hr.symm)

end ByteComparator

/-! ## Keys and the values they stand for -/

/-- The tree's verdict on the keys of `v` and `p` in the index of a column of type `dataType`: the
record size of the tree is `indexDataSize + 8`, and `firstPartBytes` is `indexDataSize`. -/
def treeKeysEqual (beyond : ℕ → UInt8) (dataType : String) (v p : SqliteValue)
    (rowIdV rowIdP : Int64) : Bool :=
  let indexDataSize := (getDataSizeByType dataType).toNat
  match createTreeKey beyond indexDataSize (some v) rowIdV,
      createTreeKey beyond indexDataSize (some p) rowIdP with
  | some keyV, some keyP => (ByteComparator.mk indexDataSize).isEqual keyV keyP (indexDataSize + 8)
  | _, _ => false

/-- Two values of one type that their key fields can tell apart: integers that differ modulo
`2 ^ 32`, texts or blobs that differ in one of the first 256 bytes, a missing byte counting as
zero. -/
def Distinguished : SqliteValue → SqliteValue → Prop
  | .integer a, .integer b => a.toInt % 2 ^ 32 ≠ b.toInt % 2 ^ 32
  | .text s, .text t => ∃ i < 256, s.getD i 0 ≠ t.getD i 0
  | .blob s, .blob t => ∃ i < 256, s.getD i 0 ≠ t.getD i 0
  | _, _ => False

theorem intField_eq_iff {a b : Int64} :
    leBytes 4 a.toInt32.toUInt32.toNat = leBytes 4 b.toInt32.toUInt32.toNat ↔
      a.toInt % 2 ^ 32 = b.toInt % 2 ^ 32 := by
  have hlow (x : Int32) : x.toUInt32.toNat % 256 ^ 4 = x.toUInt32.toNat :=
    Nat.mod_eq_of_lt x.toUInt32.toNat_lt
  have hinj (x y : Int32) : x.toUInt32 = y.toUInt32 ↔ x = y := by
    cases x
    cases y
    simp
  rw [leBytes_eq_iff, hlow, hlow, UInt32.toNat_inj, hinj, ← Int32.toInt_inj, Int64.toInt_toInt32,
    Int64.toInt_toInt32]
  constructor
  · intro h
    have hmod := congrArg (· % ((2 ^ 32 : ℕ) : ℤ)) h
    simp only [Int.bmod_emod] at hmod
    exact_mod_cast hmod
  · intro h
    have hmod : a.toInt % ((2 ^ 32 : ℕ) : ℤ) = b.toInt % ((2 ^ 32 : ℕ) : ℤ) := by exact_mod_cast h
    rw [← Int.emod_bmod, hmod, Int.emod_bmod]

theorem textField_eq_iff {s t : List UInt8} :
    slot 256 s = slot 256 t ↔ ¬ ∃ i < 256, s.getD i 0 ≠ t.getD i 0 := by
  rw [slot_eq_iff]
  push Not
  exact Iff.rfl

variable {beyond : ℕ → UInt8} {rowIdV rowIdP : Int64}

theorem treeKeysEqual_integer {a b : Int64} :
    treeKeysEqual beyond "INTEGER" (.integer a) (.integer b) rowIdV rowIdP = true ↔
      ¬ Distinguished (.integer a) (.integer b) := by
  have hfields := ByteComparator.isEqual_append_iff (length_leBytes 4 a.toInt32.toUInt32.toNat)
    (length_leBytes 4 b.toInt32.toUInt32.toNat)
    (by omega : 4 ≤ 4 + 8)
    (rowIdBytes rowIdV) (rowIdBytes rowIdP)
  exact hfields.trans (intField_eq_iff.trans not_not.symm)

theorem treeKeysEqual_text {s t : List UInt8} :
    treeKeysEqual beyond "TEXT" (.text s) (.text t) rowIdV rowIdP = true ↔
      ¬ Distinguished (.text s) (.text t) := by
  have hfields := ByteComparator.isEqual_append_iff (length_slot 256 s) (length_slot 256 t)
    (by omega : 256 ≤ 256 + 8) (rowIdBytes rowIdV) (rowIdBytes rowIdP)
  exact hfields.trans textField_eq_iff

theorem treeKeysEqual_blob {s t : List UInt8} :
    treeKeysEqual beyond "BLOB" (.blob s) (.blob t) rowIdV rowIdP = true ↔
      ¬ Distinguished (.blob s) (.blob t) := by
  have hfields := ByteComparator.isEqual_append_iff (length_slot 256 s) (length_slot 256 t)
    (by omega : 256 ≤ 256 + 8) (rowIdBytes rowIdV) (rowIdBytes rowIdP)
  exact hfields.trans textField_eq_iff

theorem not_distinguished_self (v : SqliteValue) : ¬ Distinguished v v := by
  cases v <;> simp [Distinguished]

/-- A verdict that is "not distinguished" is the right one when the values are equal or
distinguished. -/
theorem identifies_iff {v p : SqliteValue} {verdict : Bool}
    (h : verdict = true ↔ ¬ Distinguished v p) :
    (verdict = true ↔ v = p) ↔ v = p ∨ Distinguished v p := by
  rw [h]
  by_cases heq : v = p
  · subst heq
    simp [not_distinguished_self]
  · simp [heq]

/-- For a primary key column of type INTEGER, TEXT or BLOB and two values of that type, the keys
compare equal exactly for equal values, unless the values are different but not distinguished. -/
theorem createTreeKey_identifies_iff (beyond : ℕ → UInt8) (dataType : String)
    (hType : dataType = "INTEGER" ∨ dataType = "TEXT" ∨ dataType = "BLOB") (v p : SqliteValue)
    (hv : v.valueType = getIntByDataType dataType) (hp : p.valueType = getIntByDataType dataType)
    (rowIdV rowIdP : Int64) :
    (treeKeysEqual beyond dataType v p rowIdV rowIdP = true ↔ v = p) ↔
      v = p ∨ Distinguished v p := by
  apply identifies_iff
  rcases hType with rfl | rfl | rfl
  · cases v <;> simp [SqliteValue.valueType, getIntByDataType] at hv
    cases p <;> simp [SqliteValue.valueType, getIntByDataType] at hp
    exact treeKeysEqual_integer
  · cases v <;> simp [SqliteValue.valueType, getIntByDataType] at hv
    cases p <;> simp [SqliteValue.valueType, getIntByDataType] at hp
    exact treeKeysEqual_text
  · cases v <;> simp [SqliteValue.valueType, getIntByDataType] at hv
    cases p <;> simp [SqliteValue.valueType, getIntByDataType] at hp
    exact treeKeysEqual_blob

theorem createTreeKey_identifies_five_seven :
    (treeKeysEqual (fun _ => 0) "INTEGER" (.integer 5) (.integer 7) 0 1 = true ↔
        SqliteValue.integer 5 = .integer 7) ↔
      SqliteValue.integer 5 = .integer 7 ∨ Distinguished (.integer 5) (.integer 7) :=
  createTreeKey_identifies_iff (fun _ => 0) "INTEGER" (Or.inl rfl) (.integer 5) (.integer 7) rfl rfl
    0 1

/-- The integers `0` and `2 ^ 32` have equal keys. -/
theorem createTreeKey_confuses_zero :
    ¬ (treeKeysEqual (fun _ => 0) "INTEGER" (.integer 0) (.integer 4294967296) 0 1 = true ↔
        SqliteValue.integer 0 = .integer 4294967296) := by
  decide

end BTreesMods
