import BTreesMods.Extension.Update
import Mathlib.Data.List.TakeWhile

/-!
# The SQL texts of values

The functions of `xUpdate` write each value into a statement as the text that
`convertSqliteValueToString` makes of it. Integers and NULL are read back, a blob is not, and a text is
when it is short and plain and no column has it as its name (`convertSqliteValueToString_exact_iff`); among
these names are `rowid`, `oid` and `_rowid_` in UPDATE and DELETE.
A statement whose texts are read back stores and finds the values that they were made from.
-/

namespace BTreesMods

/-! ## What SQLite reads -/

/-- `sqlite3_value_text` of an integer and of a text. -/
structure Sqlite.Texts (sq : Sqlite) : Prop where
  integer : ∀ i, sq.valueText (.integer i) = decimal i.toInt
  text : ∀ bytes, sq.valueText (.text bytes) = bytes

/-- SQLite reads literals; `fits i v` says that the affinity of column `i` leaves the value `v` as it
is. -/
structure Sqlite.ReadsLiterals (sq : Sqlite) (names : List (List UInt8)) (fits : ℤ → SqliteValue → Prop) :
    Prop extends sq.Texts where
  reads : ∀ i text v, readLiteral names text = some (.value v) → fits i v →
    ∃ f, sq.readSql i text = some f ∧ ∀ row, f row = v

/-- The text that is made of `v` is a literal that denotes `v`. -/
def Sqlite.Denotes (sq : Sqlite) (names : List (List UInt8)) (v : SqliteValue) : Prop :=
  readLiteral names (convertSqliteValueToString sq v) = some (.value v)

/-- The values that are read back. -/
def SqliteValue.Plain (names : List (List UInt8)) : SqliteValue → Prop
  | .integer _ | .null => True
  | .text bytes => bytes.length ≤ 253 ∧ 0 ∉ bytes ∧ 0x22 ∉ bytes ∧ ∀ name ∈ names, ¬SameName bytes name
  | .float _ | .blob _ => False

section

variable {sq : Sqlite} {names : List (List UInt8)} {v : SqliteValue} {bytes text : List UInt8}

instance : Decidable (sq.Denotes names v) := inferInstanceAs (Decidable (_ = _))

theorem Sqlite.Denotes.writesLiteral (h : sq.Denotes names v) : sq.WritesLiteral v := isLiteral_of_readLiteral h

/-! ## C strings -/

theorem cString_eq_self_iff : cString bytes = bytes ↔ 0 ∉ bytes := by
  rw [cString, List.takeWhile_eq_self_iff]
  constructor
  · intro h hmem
    simpa using h 0 hmem
  · intro h b hb
    have hne : b ≠ 0 := fun heq => h (heq ▸ hb)
    simpa using hne

theorem cString_isPrefix (bytes : List UInt8) : cString bytes <+: bytes := List.takeWhile_prefix _

/-! ## Integers -/

theorem integerLiteral_toInt (i : Int64) : integerLiteral i.toInt = some (.value (.integer i)) := by
  have hlow := Int64.le_toInt i
  have hhigh := Int64.toInt_lt i
  rw [integerLiteral, if_pos ⟨hlow, hhigh⟩, Int64.ofInt_toInt]

theorem cString_decimal (i : ℤ) : cString (decimal i) = decimal i := by
  rw [cString_eq_self_iff]
  have hdigits : 0 ∉ decimalNat i.natAbs := fun h => absurd (decimalNat_digit _ 0 h).1 (by decide)
  rw [decimal]
  split_ifs
  · exact fun h => (List.mem_cons.mp h).elim (by decide) hdigits
  · exact hdigits

theorem readLiteral_decimal (i : Int64) :
    readLiteral names (decimal i.toInt) = some (.value (.integer i)) := by
  rw [decimal]
  split_ifs with hi
  · rw [readLiteral, if_neg (by decide), if_neg (by decide), if_pos rfl, readDigits_decimalNat,
      Option.bind_some, ← integerLiteral_toInt]
    congr 1
    omega
  · have hread := readDigits_decimalNat i.toInt.natAbs
    have hdigit := decimalNat_digit i.toInt.natAbs
    cases hd : decimalNat i.toInt.natAbs with
    | nil =>
      rw [hd] at hread
      cases hread
    | cons c rest =>
      rw [hd] at hread hdigit
      obtain ⟨hlow, hhigh⟩ := hdigit c (by simp)
      rw [UInt8.le_iff_toNat_le] at hlow hhigh
      have hc : ∀ b : UInt8, 0x39 < b.toNat ∨ b.toNat < 0x30 → c ≠ b := by
        rintro b hb rfl
        change 48 ≤ c.toNat at hlow
        change c.toNat ≤ 57 at hhigh
        omega
      have hlower : lowerByte c = c := by
        refine if_neg fun hcap => ?_
        have hcap := UInt8.le_iff_toNat_le.mp hcap.1
        change c.toNat ≤ 57 at hhigh
        change 65 ≤ c.toNat at hcap
        omega
      have hnull : ¬SameName (c :: rest) [0x4E, 0x55, 0x4C, 0x4C] := fun h => by
        have := (List.cons.inj h).1
        rw [hlower] at this
        exact hc _ (by decide) this
      rw [readLiteral, if_neg (hc _ (by decide)), if_neg (hc _ (by decide)), if_neg (hc _ (by decide)),
        if_neg hnull, hlower, if_neg (hc _ (by decide)), hread, Option.bind_some, ← integerLiteral_toInt]
      congr 1
      omega

/-! ## Texts and blobs -/

theorem readLiteral_quoted : readLiteral names (0x22 :: text) = some (.value (.text bytes)) ↔
    wholeToken 0x22 text = some bytes ∧ ∀ name ∈ names, ¬SameName bytes name := by
  rw [readLiteral, if_pos rfl, Option.map_eq_some_iff]
  constructor
  · rintro ⟨content, hcontent, h⟩
    split_ifs at h with hnames
    cases h
    exact ⟨hcontent, by simpa using hnames⟩
  · rintro ⟨hcontent, hnames⟩
    exact ⟨bytes, hcontent, if_neg (by simpa using hnames)⟩

/-- A text is read back when nothing of it is cut off or read as the end of the token. -/
theorem denotes_text_iff (hsq : sq.Texts) :
    sq.Denotes names (.text bytes) ↔ (SqliteValue.text bytes).Plain names := by
  have htext : convertSqliteValueToString sq (.text bytes) =
      0x22 :: ((cString bytes).take 253 ++ [0x22]) := by
    rw [convertSqliteValueToString, convertSqliteTextValueToString, hsq.text]
    rfl
  rw [Sqlite.Denotes, htext, readLiteral_quoted, SqliteValue.Plain]
  constructor
  · rintro ⟨hwhole, hnames⟩
    have hlen := wholeToken_length hwhole
    have hcut := (cString_isPrefix bytes).length_le
    rw [List.length_append, List.length_singleton, List.length_take] at hlen
    have hc : cString bytes = bytes := (cString_isPrefix bytes).eq_of_length (by omega)
    have hquote : 0x22 ∉ bytes := List.count_eq_zero.mp (by omega)
    exact ⟨by omega, cString_eq_self_iff.mp hc, hquote, hnames⟩
  · rintro ⟨hlen, hzero, hquote, hnames⟩
    rw [cString_eq_self_iff.mpr hzero, List.take_of_length_le hlen]
    exact ⟨wholeToken_of_not_mem hquote, hnames⟩

theorem integerLiteral_ne_blob (i : ℤ) : integerLiteral i ≠ some (.value (.blob bytes)) := by
  rw [integerLiteral]
  split_ifs
  · intro h
    cases h
  · intro h
    cases h

theorem length_of_blobLiteral (h : blobLiteral text = some (.value (.blob bytes))) :
    text.length = 2 * bytes.length + 2 := by
  cases text with
  | nil => cases h
  | cons c rest =>
    rw [blobLiteral] at h
    split_ifs at h
    obtain ⟨content, hcontent, h⟩ := Option.map_eq_some_iff.mp h
    cases h
    have hlen := hexToken_length hcontent
    rw [List.length_cons]
    omega

/-- The literal of a blob is longer than the blob. -/
theorem length_of_readLiteral_blob (h : readLiteral names text = some (.value (.blob bytes))) :
    bytes.length < text.length := by
  cases text with
  | nil => cases h
  | cons c rest =>
    rw [readLiteral] at h
    split_ifs at h
    · obtain ⟨content, -, h⟩ := Option.map_eq_some_iff.mp h
      split_ifs at h
      all_goals cases h
    · obtain ⟨content, -, h⟩ := Option.map_eq_some_iff.mp h
      cases h
    · obtain ⟨n, -, h⟩ := Option.bind_eq_some_iff.mp h
      exact absurd h (integerLiteral_ne_blob _)
    · cases h
    · have := length_of_blobLiteral h
      rw [List.length_cons]
      omega
    · obtain ⟨n, -, h⟩ := Option.bind_eq_some_iff.mp h
      exact absurd h (integerLiteral_ne_blob _)

theorem not_denotes_blob : ¬sq.Denotes names (.blob bytes) := fun h => by
  have hlonger := length_of_readLiteral_blob h
  have hcut := (cString_isPrefix bytes).length_le
  change bytes.length < (cString bytes).length at hlonger
  omega

theorem denotes_iff (hsq : sq.Texts) (hv : v.valueType ≠ 2) : sq.Denotes names v ↔ v.Plain names := by
  cases v with
  | integer i =>
    have htext : convertSqliteValueToString sq (.integer i) = decimal i.toInt := by
      rw [convertSqliteValueToString, hsq.integer, cString_decimal]
    rw [Sqlite.Denotes, htext]
    exact iff_of_true (readLiteral_decimal i) trivial
  | float bits => exact absurd rfl hv
  | text bytes => exact denotes_text_iff hsq
  | blob bytes => exact iff_of_false not_denotes_blob id
  | null => exact iff_of_true rfl trivial

/-! ## Statements -/

variable {I : IndexTree} {vt u : VirtualTable I} {fits : ℤ → SqliteValue → Prop} {i : ℕ}
  {columns : List SqliteValue}

open VirtualTable

/-- The values of the columns are read back. -/
theorem readColumns_exact (hsq : sq.ReadsLiterals names fits)
    (hcolumns : ∀ (j : ℕ) v, columns[j]? = some v → sq.Denotes names v ∧ fits (i + j : ℕ) v) :
    ∃ fs, readColumns sq i columns = some fs ∧ ∀ row, (fs.map fun f => f row) = columns := by
  induction columns generalizing i with
  | nil => exact ⟨[], rfl, fun _ => rfl⟩
  | cons v columns ih =>
    obtain ⟨hv, hfits⟩ := hcolumns 0 v rfl
    obtain ⟨f, hf, hconst⟩ := hsq.reads i _ v hv hfits
    obtain ⟨fs, hfs, hvalues⟩ := ih (i := i + 1) fun j w hw => by
      have hnext := hcolumns (j + 1) w hw
      rwa [show i + (j + 1) = i + 1 + j by omega] at hnext
    refine ⟨f :: fs, ?_, fun row => ?_⟩
    · rw [readColumns, hf, hfs]
    · rw [List.map_cons, hconst, hvalues]

theorem readPrimaryKey_exact (hsq : sq.ReadsLiterals names fits) (hv : sq.Denotes names v)
    (hfits : fits vt.indexColNumber v) :
    ∃ f, vt.readPrimaryKey sq v = some f ∧ ∀ row, vt.sqlWhere f row = vt.pkEquals v row := by
  obtain ⟨f, hf, hconst⟩ := hsq.reads vt.indexColNumber _ v hv hfits
  exact ⟨f, hf, fun row => by rw [sqlWhere, hconst]⟩

theorem writesLiteral_of_columns
    (hcolumns : ∀ (j : ℕ) v, columns[j]? = some v → sq.Denotes names v ∧ fits j v) :
    ∀ value ∈ columns, sq.WritesLiteral value := by
  intro value hvalue
  obtain ⟨j, hj⟩ := List.mem_iff_getElem?.mp hvalue
  exact (hcolumns j value hj).1.writesLiteral

theorem sqlInsert_exact (hsq : sq.ReadsLiterals names fits)
    (hcolumns : ∀ (j : ℕ) v, columns[j]? = some v → sq.Denotes names v ∧ fits j v)
    (hu : vt.sqlInsert sq columns = .ok u) : ∃ rowId, u.real = vt.real ++ [⟨rowId, columns⟩] := by
  obtain ⟨fs, hfs, hvalues⟩ := readColumns_exact (i := 0) hsq fun j v hv => by
    rw [Nat.zero_add]
    exact hcolumns j v hv
  rw [sqlInsert, if_pos (writesLiteral_of_columns hcolumns), hfs] at hu
  dsimp only at hu
  split_ifs at hu
  obtain rfl := Except.ok.inj hu
  exact ⟨_, by rw [hvalues]⟩

theorem sqlDelete_exact (hsq : sq.ReadsLiterals names fits) (hv : sq.Denotes names v)
    (hfits : fits vt.indexColNumber v) (hu : vt.sqlDelete sq v = .ok u) :
    u.real = vt.real.filter fun row => !vt.pkEquals v row := by
  obtain ⟨f, hf, hwhere⟩ := readPrimaryKey_exact hsq hv hfits
  rw [sqlDelete, if_pos hv.writesLiteral, hf] at hu
  obtain rfl := Except.ok.inj hu
  simp only [hwhere]

theorem sqlUpdate_exact (hsq : sq.ReadsLiterals names fits)
    (hcolumns : ∀ (j : ℕ) v, columns[j]? = some v → sq.Denotes names v ∧ fits j v) (hv : sq.Denotes names v)
    (hfits : fits vt.indexColNumber v) (hu : vt.sqlUpdate sq columns v = .ok u) :
    u.real = vt.real.map fun row =>
      if vt.pkEquals v row then ⟨sq.movedRowId row columns, columns⟩ else row := by
  obtain ⟨fs, hfs, hvalues⟩ := readColumns_exact (i := 0) hsq fun j v hv => by
    rw [Nat.zero_add]
    exact hcolumns j v hv
  obtain ⟨f, hf, hwhere⟩ := readPrimaryKey_exact hsq hv hfits
  rw [sqlUpdate, if_pos ⟨writesLiteral_of_columns hcolumns, hv.writesLiteral⟩, hfs, hf] at hu
  dsimp only at hu
  split_ifs at hu
  obtain rfl := Except.ok.inj hu
  simp only [hwhere, updatedRow, hvalues]

/-- The text that `convertSqliteValueToString` makes of an integer, text, blob or NULL is a literal
that denotes the value exactly when the value is plain; and a statement of plain values stores and
finds these values. -/
theorem convertSqliteValueToString_exact_iff (hsq : sq.ReadsLiterals names fits)
    (vt : VirtualTable I) :
    (∀ v, v.valueType ≠ 2 → (readLiteral names (convertSqliteValueToString sq v) = some (.value v) ↔
      v.Plain names)) ∧
    ∀ (columns : List SqliteValue) (v : SqliteValue) (u : VirtualTable I),
      (∀ (j : ℕ) w, columns[j]? = some w → w.Plain names ∧ fits j w) → v.Plain names →
      fits vt.indexColNumber v →
      (vt.sqlInsert sq columns = .ok u → ∃ rowId, u.real = vt.real ++ [⟨rowId, columns⟩]) ∧
      (vt.sqlDelete sq v = .ok u → u.real = vt.real.filter fun row => !vt.pkEquals v row) ∧
      (vt.sqlUpdate sq columns v = .ok u → u.real = vt.real.map fun row =>
        if vt.pkEquals v row then ⟨sq.movedRowId row columns, columns⟩ else row) := by
  have hplain : ∀ w : SqliteValue, w.Plain names → sq.Denotes names w := fun w hw => by
    refine (denotes_iff hsq.toTexts fun hfloat => ?_).mpr hw
    cases w with
    | float bits => exact hw
    | _ => cases hfloat
  refine ⟨fun v hv => denotes_iff hsq.toTexts hv, fun columns v u hcolumns hv hfits => ?_⟩
  have hcolumns' : ∀ (j : ℕ) w, columns[j]? = some w → sq.Denotes names w ∧ fits j w := fun j w hw =>
    ⟨hplain w (hcolumns j w hw).1, (hcolumns j w hw).2⟩
  exact ⟨sqlInsert_exact hsq hcolumns', sqlDelete_exact hsq (hplain v hv) hfits,
    sqlUpdate_exact hsq hcolumns' (hplain v hv) hfits⟩

end

/-! ## A table with a column `id` -/

/-- SQLite on a table with the columns `names`: `affinity` is what a value becomes in a column, and, if
`aliased`, the first column is the row id. It takes no statement with a text that is not one literal. -/
def Sqlite.typed (names : List (List UInt8)) (affinity : ℤ → SqliteValue → SqliteValue) (aliased : Bool) :
    Sqlite where
  valueText
    | .integer i => decimal i.toInt
    | .text bytes => bytes
    | _ => []
  readSql col text := match readLiteral names text with
    | some (.value v) => some fun _ => affinity col v
    | some (.column name) => some fun row => match row with
      | some row => affinity col (row.value (names.findIdx fun n => SameName n name))
      | none => affinity col (.text name)
    | none => none
  newRowId rows values := match aliased, values with
    | true, .integer i :: _ => i
    | _, _ => rows.length.toInt64 + 1
  movedRowId row values := match aliased, values with
    | true, .integer i :: _ => i
    | _, _ => row.rowId
  execute _ _ := .error SQLITE_ERROR
  selectRowId _ _ := 0

theorem typed_readsLiterals (names : List (List UInt8)) (affinity : ℤ → SqliteValue → SqliteValue)
    (aliased : Bool) :
    (Sqlite.typed names affinity aliased).ReadsLiterals names fun i v => affinity i v = v where
  integer _ := rfl
  text _ := rfl
  reads i text v h hfits := ⟨fun _ => affinity i v, by
    change (match readLiteral names text with
      | some (.value v) => _
      | some (.column name) => _
      | none => _) = _
    rw [h], fun _ => hfits⟩

/-- SQLite on a table whose columns have no type, and of whose rows it does not move any. -/
def Sqlite.reader (names : List (List UInt8)) : Sqlite := .typed names (fun _ v => v) false

/-- A text with a double quote, a text with the name of a column and a blob do not denote themselves. -/
theorem convertSqliteValueToString_inexact :
    ¬(Sqlite.reader [[0x69, 0x64]]).Denotes [[0x69, 0x64]] (.text [0x61, 0x22]) ∧
      ¬(Sqlite.reader [[0x69, 0x64]]).Denotes [[0x69, 0x64]] (.text [0x49, 0x64]) ∧
      ¬(Sqlite.reader [[0x69, 0x64]]).Denotes [[0x69, 0x64]] (.blob [0x31]) := by
  have hsq := (typed_readsLiterals [[0x69, 0x64]] (fun _ v => v) false).toTexts
  refine ⟨fun h => ?_, fun h => ?_, not_denotes_blob⟩
  · exact absurd ((denotes_text_iff hsq).mp h).2.2.1 (by decide)
  · exact ((denotes_text_iff hsq).mp h).2.2.2 [0x69, 0x64] (by simp) (by decide)

/-- The text `a` in a table with a column `id`. -/
theorem convertSqliteValueToString_exact_a :
    readLiteral [[0x69, 0x64]] (convertSqliteValueToString (.reader [[0x69, 0x64]]) (.text [0x61])) =
      some (.value (.text [0x61])) := by
  have h := convertSqliteValueToString_exact_iff (typed_readsLiterals [[0x69, 0x64]] (fun _ v => v) false)
    (VirtualTable.created OrderedTree.list.toIndexTree 0 "TEXT")
  exact (h.1 (.text [0x61]) (by decide)).mpr ⟨by decide, by decide, by decide, by decide⟩

end BTreesMods
