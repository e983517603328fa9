import BTreesMods.Extension.Agree
import BTreesMods.Extension.Query

/-!
# Interleaved calls on several tables

The tables of a process share `byteComparator`. A run is any sequence of the calls that SQLite makes on
them: `xUpdate`, `xBestIndex` and `xFilter`.

Main result: `rebuilds_invisible_iff`, which says in which runs no rebuild of an index can be seen.
-/

namespace BTreesMods

/-- The open tables, and the `firstPartBytes` of `byteComparator`. -/
structure Process (I : IndexTree) (ι : Type) where
  firstPartBytes : ℕ
  tables : ι → VirtualTable I

/-- A call on a table. -/
inductive Call
  | update (call : XUpdate)
  | bestIndex (aConstraint : List IndexConstraint)
  | filter (cursor : Cursor) (idxStr : List Int8) (rest : ℕ → ℤ) (argv : List SqliteValue)

/-- Whether the call starts with `rebuildIndexIfNecessary`. -/
def Call.rebuilds : Call → Bool
  | update (.insert _ _) | bestIndex _ => true
  | _ => false

/-- The table after the call; nothing if it reads a null pointer. -/
def Call.run {I : IndexTree} (sq : Sqlite) (vt : VirtualTable I) : Call → Option (VirtualTable I)
  | update call => some (vt.btreesModsUpdate sq call.argv).2.2
  | bestIndex aConstraint => some (vt.btreesModsBestIndex aConstraint).2
  | filter cursor idxStr rest argv => (vt.btreesModsFilter cursor idxStr rest argv).map fun r => r.2.2

/-- A step of a run: a call on the table `i`, with the bytes that are behind a key at that time. -/
structure Step (ι : Type) where
  table : ι
  beyond : ℕ → UInt8
  call : Call

namespace Process

variable {I : IndexTree} {ι : Type}

/-- The table of a step as the call finds it. -/
def found (w : Process I ι) (s : Step ι) : VirtualTable I :=
  { w.tables s.table with firstPartBytes := w.firstPartBytes, beyond := s.beyond }

variable [DecidableEq ι]

/-- The process after a step. -/
def step (sq : Sqlite) (w : Process I ι) (s : Step ι) : Option (Process I ι) :=
  (s.call.run sq (w.found s)).map fun vt => ⟨vt.firstPartBytes, Function.update w.tables s.table vt⟩

/-- `P` holds of every table in the run whenever `rebuildIndexIfNecessary` is about to switch its
index to another tree kind. -/
def AtRebuilds (sq : Sqlite) (P : VirtualTable I → Prop) : Process I ι → List (Step ι) → Prop
  | _, [] => True
  | w, s :: steps =>
    (s.call.rebuilds = true → (w.found s).RebuildDue → P (w.found s)) ∧
      ∀ w', w.step sq s = some w' → AtRebuilds sq P w' steps

/-- A condition on what a step leaves is decided by the step. -/
instance decidableOfStep {α : Type} {x : Option α} {Q : α → Prop} [∀ a, Decidable (Q a)] :
    Decidable (∀ a, x = some a → Q a) :=
  match x with
  | some a => decidable_of_iff (Q a) ⟨fun h _ heq => by cases heq; exact h, fun h => h a rfl⟩
  | none => isTrue fun _ heq => by cases heq

instance decidableAtRebuilds (sq : Sqlite) (P : VirtualTable I → Prop) [DecidablePred P] :
    ∀ (w : Process I ι) (steps : List (Step ι)), Decidable (w.AtRebuilds sq P steps)
  | _, [] => isTrue trivial
  | w, s :: steps =>
    have := fun w' => decidableAtRebuilds sq P w' steps
    inferInstanceAs (Decidable ((s.call.rebuilds = true → (w.found s).RebuildDue → P (w.found s)) ∧
      ∀ w', w.step sq s = some w' → AtRebuilds sq P w' steps))

end Process

/-! ## What a call keeps -/

namespace VirtualTable

variable {I : OrderedTree} {sq : Sqlite} {vt : VirtualTable I.toIndexTree}

theorem btreesModsHandleConstraintEq_ordered (hord : vt.Ordered) {cursor : Cursor} {v : SqliteValue}
    {r : ℤ × Cursor × VirtualTable I.toIndexTree}
    (h : vt.btreesModsHandleConstraintEq cursor v = some r) : r.2.2.Ordered := by
  unfold btreesModsHandleConstraintEq at h
  cases hkey : vt.searchedKey v with
  | some key =>
    rw [hkey] at h
    cases h
    exact hord
  | none =>
    rw [hkey] at h
    dsimp only at h
    split_ifs at h
    cases h
    exact hord

theorem btreesModsHandleConstraint_ordered (hord : vt.Ordered) {cursor : Cursor} {columnNum : ℤ}
    {op : UInt8} {v : SqliteValue} {rest : ℤ} {r : ℤ × Cursor × VirtualTable I.toIndexTree}
    (h : vt.btreesModsHandleConstraint cursor columnNum op v rest = some r) : r.2.2.Ordered := by
  unfold btreesModsHandleConstraint at h
  split_ifs at h
  · exact btreesModsHandleConstraintEq_ordered hord h
  · cases h
    exact hord
  · cases h
    exact hord

theorem filterLoop_ordered {idxStr : List Int8} {rest : ℕ → ℤ} {cursor : Cursor} {i : ℕ}
    {argv : List SqliteValue} {r : ℤ × Cursor × VirtualTable I.toIndexTree}
    (h : filterLoop idxStr rest cursor i argv vt = some r) (hord : vt.Ordered) : r.2.2.Ordered := by
  induction argv generalizing i cursor vt with
  | nil =>
    cases h
    exact hord
  | cons v argv ih =>
    rw [filterLoop] at h
    split at h
    · cases h
    · next rc cursor' u hrun =>
      have hu := btreesModsHandleConstraint_ordered hord hrun
      split_ifs at h
      · cases h
        exact hu
      · cases h
        exact hu
      · cases h
        exact hu
      · exact ih h hu

/-- A call keeps the order of the tree, if a rebuild at its start does. -/
theorem call_ordered (hord : vt.Ordered) {c : Call}
    (hrebuilt : c.rebuilds = true → vt.rebuildIndexIfNecessary.Ordered)
    {u : VirtualTable I.toIndexTree} (h : c.run sq vt = some u) : u.Ordered := by
  cases c with
  | update c =>
    cases h
    refine btreesModsUpdate_ordered hord fun hinsert => hrebuilt ?_
    obtain ⟨newRowId, columns, rfl⟩ := hinsert
    rfl
  | bestIndex aConstraint =>
    cases h
    exact hrebuilt rfl
  | filter cursor idxStr rest argv =>
    obtain ⟨r, hr, rfl⟩ := Option.map_eq_some_iff.mp h
    exact filterLoop_ordered hr hord

/-- A rebuild that cannot be seen keeps the order. -/
theorem rebuildIndexIfNecessary_ordered (hord : vt.Ordered)
    (hsafe : vt.RebuildDue → vt.RebuildSafe) : vt.rebuildIndexIfNecessary.Ordered := by
  have hsize : vt.rebuildIndexIfNecessary.indexDataSize = vt.indexDataSize := by
    rcases vt.rebuildIndexIfNecessary_cases with ⟨-, hrun⟩ | ⟨-, hrun⟩
    · rw [hrun]
      rfl
    · rw [hrun]
  rcases vt.rebuildIndexIfNecessary_cases with ⟨hdue, -⟩ | ⟨-, hrun⟩
  · have h := ((rebuildIndexIfNecessary_invisible_iff hord hdue).mpr (hsafe hdue)).ordered
    rw [← hsize] at h
    exact h
  · rw [hrun]
    exact hord

end VirtualTable

/-! ## Runs -/

open VirtualTable

variable {I : OrderedTree} {ι : Type} [DecidableEq ι] {sq : Sqlite} {w : Process I.toIndexTree ι}

theorem Process.step_ordered (hw : ∀ i, (w.tables i).Ordered) {s : Step ι}
    (hsafe : s.call.rebuilds = true → (w.found s).RebuildDue → (w.found s).RebuildSafe)
    {w' : Process I.toIndexTree ι} (h : w.step sq s = some w') (i : ι) : (w'.tables i).Ordered := by
  obtain ⟨u, hu, rfl⟩ := Option.map_eq_some_iff.mp h
  have hord : (w.found s).Ordered := hw s.table
  have hafter := call_ordered hord
    (fun hcall => rebuildIndexIfNecessary_ordered hord (hsafe hcall)) hu
  show (Function.update w.tables s.table u i).Ordered
  by_cases hi : i = s.table
  · rw [hi, Function.update_self]
    exact hafter
  · rw [Function.update_of_ne hi]
    exact hw i

/-- In a run of calls on any number of tables with well-formed trees no rebuild can be seen, exactly
if at each rebuild no record is below the start of the scan, and the table used last has keys of the
same size, or there are no records. -/
theorem rebuilds_invisible_iff (sq : Sqlite) (hw : ∀ i, (w.tables i).Ordered)
    (steps : List (Step ι)) :
    w.AtRebuilds sq (fun vt => vt.RebuildInvisible vt.rebuildIndexIfNecessary) steps ↔
      w.AtRebuilds sq RebuildSafe steps := by
  induction steps generalizing w with
  | nil => exact Iff.rfl
  | cons s steps ih =>
    have hord : (w.found s).Ordered := hw s.table
    constructor
    · rintro ⟨hhead, htail⟩
      have hsafe : s.call.rebuilds = true → (w.found s).RebuildDue → (w.found s).RebuildSafe := by
        intro hcall hdue
        exact (rebuildIndexIfNecessary_invisible_iff hord hdue).mp (hhead hcall hdue)
      exact ⟨hsafe, fun w' hw' => (ih (w.step_ordered hw hsafe hw')).mp (htail w' hw')⟩
    · rintro ⟨hsafe, htail⟩
      refine ⟨?_, fun w' hw' => (ih (w.step_ordered hw hsafe hw')).mpr (htail w' hw')⟩
      intro hcall hdue
      exact (rebuildIndexIfNecessary_invisible_iff hord hdue).mpr (hsafe hcall hdue)

/-! ## Two tables -/

/-- A table with an INTEGER primary key that is the row id, with the rows `ids`. -/
def VirtualTable.busyTable (stats : IndexStats) (ids : List Int64) :
    VirtualTable OrderedTree.list.toIndexTree where
  bestIndex := BPLUSTREE_NUM
  indexColNumber := 0
  indexDataType := "INTEGER"
  indexDataSize := 4
  stats := stats
  firstPartBytes := 4
  beyond _ := 0
  tree := ids.map fun id => createIntTreeKey id id
  real := ids.map fun id => ⟨id, [.integer id]⟩

/-- A process with such a table, which was used last, and a new table with a TEXT primary key. -/
def Process.twoTables (stats : IndexStats) (ids : List Int64) :
    Process OrderedTree.list.toIndexTree Bool where
  firstPartBytes := 4
  tables
    | true => busyTable stats ids
    | false => VirtualTable.created OrderedTree.list.toIndexTree 0 "TEXT"

/-- SQLite on tables with one column, which is the row id if it holds integers. -/
def Sqlite.oneColumn : Sqlite := .typed [[0x69, 0x64]] (fun _ v => v) true

/-- The table `busyTable` gets the row 5, the row 9 becomes the row 8, and the row 3 is deleted; the other table
gets the row `1`; a search for 7 and a query on `busyTable`, which rebuilds its index. -/
def Step.sixSteps : List (Step Bool) :=
  [⟨true, fun _ => 0, .update (.insert .null [.integer 5])⟩,
    ⟨true, fun _ => 0, .update (.update 9 (.integer 8) [.integer 8])⟩,
    ⟨true, fun _ => 0, .update (.delete 3)⟩, ⟨false, fun _ => 1, .update (.insert .null [.text [0x31]])⟩,
    ⟨true, fun _ => 0, .filter ⟨[], -1, 0⟩ [0, 2] (fun _ => 0) [.integer 7]⟩,
    ⟨true, fun _ => 0, .bestIndex []⟩]

/-- The rebuild after the steps, after 1000 operations on the table, keeps the records of three rows. -/
theorem rebuilds_invisible_sixSteps :
    (Process.twoTables ⟨798, 100, 97, true⟩ [3, 7, 9]).AtRebuilds .oneColumn
      (fun vt => vt.RebuildInvisible vt.rebuildIndexIfNecessary) Step.sixSteps := by
  refine (rebuilds_invisible_iff .oneColumn (fun i => ?_) _).mpr (by decide +kernel)
  cases i
  · exact created_ordered 0 "TEXT"
  · show KeysOrdered 4 [createIntTreeKey 3 3, createIntTreeKey 7 7, createIntTreeKey 9 9]
    unfold KeysOrdered
    decide

/-- The rebuild is one of three records. -/
example : ¬ (Process.twoTables ⟨798, 100, 97, true⟩ [3, 7, 9]).AtRebuilds .oneColumn
    (fun vt => vt.real.length ≠ 3) Step.sixSteps := by
  decide +kernel

/-- A search in the other table comes first: the index is rebuilt with its key size. -/
theorem rebuild_with_other_size :
    ¬ (Process.twoTables ⟨801, 100, 99, true⟩ [7]).AtRebuilds .oneColumn
      (fun vt => vt.RebuildInvisible vt.rebuildIndexIfNecessary)
      [⟨false, fun _ => 0, .filter ⟨[], -1, 0⟩ [0, 2] (fun _ => 0) [.text [0x31]]⟩,
       ⟨true, fun _ => 0, .bestIndex []⟩] := by
  rintro ⟨-, htail⟩
  obtain ⟨hrebuild, -⟩ := htail _ rfl
  have hdue : (busyTable ⟨801, 100, 99, true⟩ [7]).RebuildDue := by decide
  obtain ⟨-, -, hcomparator, -⟩ := hrebuild rfl ⟨hdue.1, hdue.2, hdue.3, hdue.4, hdue.5, hdue.6⟩
  exact absurd (hcomparator (256, createIntTreeKey 7 7) (by decide)) (by decide)

end BTreesMods
