import BTreesMods.Extension.Catalog
import Mathlib.Data.List.Nodup

/-!
# The catalog in step with tables and files

`Connection.Consistent`: every row of `btrees_mods_idxinfo` describes a shadow table and its tree file, rows
have names and files of their own, and every open virtual table has its row and a tree of the class that the
row says.

* `catalog_agrees`: any sequence of calls keeps the connection consistent, whatever calls fail, if the names
  are plain identifiers and tables are created in later and later seconds.
* `create_shares_file`: what happens to tables that are created in one second, where a file can be removed while
  another table has it open.
-/

namespace BTreesMods.Catalog

/-! ## Lists with keys of their own -/

section

variable {α β : Type} {l : List α} {f : α → β}

theorem find?_of_nodup [DecidableEq β] (h : (l.map f).Nodup) {x : α} (hx : x ∈ l) :
    (l.find? fun y => f y = f x) = some x := by
  induction l with
  | nil => cases hx
  | cons a l ih =>
    obtain ⟨ha, hl⟩ := List.nodup_cons.mp h
    rcases List.mem_cons.mp hx with rfl | hx
    · exact List.find?_cons_of_pos (by simp)
    · have hne : f a ≠ f x := by
        intro heq
        exact ha (heq ▸ List.mem_map_of_mem hx)
      rw [List.find?_cons_of_neg (by simpa using hne)]
      exact ih hl hx

theorem nodup_append_singleton (h : (l.map f).Nodup) {x : α} (hx : ∀ y ∈ l, f y ≠ f x) :
    ((l ++ [x]).map f).Nodup := by
  rw [List.map_append, List.nodup_append]
  refine ⟨h, List.nodup_singleton _, ?_⟩
  intro b hb c hc
  obtain ⟨y, hy, rfl⟩ := List.mem_map.mp hb
  rw [List.map_singleton, List.mem_singleton] at hc
  rw [hc]
  exact hx y hy

end

/-! ## Names -/

section

variable {name : String} {r : InfoRow}

theorem quoted_of_plain (h : PlainName name) : r.quoted name = name := by
  have hnone : r.columns.lookup name.toLower = none := by
    rw [List.lookup_eq_none_iff]
    intro p hp
    have hkey : p.1 ∈ r.columns.map Prod.fst := List.mem_map_of_mem hp
    have hne : name.toLower ≠ p.1 := by
      intro heq
      exact h.2.1 (heq ▸ hkey)
    simpa using hne
  rw [InfoRow.quoted, hnone]
  rfl

theorem named_iff (h : PlainName name) : r.named name = true ↔ r.tableName = name := by
  rw [InfoRow.named, quoted_of_plain h, decide_eq_true_eq]

theorem treeFileName_ne {rand : ℕ → ℕ} {seed time seed' time' : ℕ} (hlt : time < time')
    (hlen : (Nat.toDigits 10 time).length = (Nat.toDigits 10 time').length) :
    getTreeFileName rand seed time ≠ getTreeFileName rand seed' time' := by
  intro heq
  have hlist := congrArg String.toList heq
  simp only [getTreeFileName, String.toList_append] at hlist
  have hnames := List.append_cancel_right hlist
  have htime := (List.append_inj' hnames (by simpa [Nat.toString_eq_repr, Nat.toList_repr] using hlen)).2
  simp only [Nat.toString_eq_repr, Nat.toList_repr] at htime
  have hval := congrArg (Nat.ofDigitChars 10 · 0) htime
  simp only [Nat.ofDigitChars_ten_toDigits] at hval
  omega

/-- The seconds from 2001 to 2038 have ten digits. -/
theorem length_toDigits_ten {n : ℕ} (h : 10 ^ 9 ≤ n ∧ n < 2 ^ 31) : (Nat.toDigits 10 n).length = 10 := by
  have hlt : n < 10 ^ 10 := by omega
  have hle := (Nat.length_toDigits_le_iff (n := n) (k := 10) (by decide) (by decide)).mpr hlt
  have hgt : ¬(Nat.toDigits 10 n).length ≤ 9 := by
    rw [Nat.length_toDigits_le_iff (by decide) (by decide)]
    omega
  omega

end

/-! ## Consistent connections -/

/-- The row describes a shadow table and the tree file that belongs to it. -/
structure InfoRow.Stored (shadow : String → Option (List Column)) (files : String → Option TreeFile)
    (r : InfoRow) : Prop where
  columns : ∃ columns q, shadow r.tableName.toLower = some columns ∧
    indexColumn columns r.params.treeFileName = .ok q ∧ r.params = { q with bestIndex := r.params.bestIndex }
  file : ∃ treeType, treeTypeOf r.params.bestIndex = some treeType ∧
    files r.params.treeFileName = some ⟨treeType, TREE_ORDER, keySize r.params.indexDataSize⟩

/-- The open table has the row and a tree of its class, on its file. -/
structure OpenTable.Fits (idxinfo : List InfoRow) (v : OpenTable) : Prop where
  row_mem : v.row ∈ idxinfo
  treeType : treeTypeOf v.params.bestIndex = some v.tree.treeType
  fileName : v.tree.fileName = v.params.treeFileName

/-- `btreesModsGetTreeType` and `btreesModsGetTreeOrder` tell the class and the order of the tree that the open
table uses, and the table is the same when it is disconnected and connected again. -/
structure Connection.Reports (w : Connection) (v : OpenTable) : Prop where
  getTreeType : w.getTreeType v.tableName = some v.params.bestIndex
  treeType : treeTypeOf v.params.bestIndex = some v.tree.treeType
  getTreeOrder : w.getTreeOrder v.tableName = .ok (some TREE_ORDER)
  reconnect : (w.disconnect v).connect v.tableName =
    .ok { w with opened := w.others v.tableName ++ [{ v with isOriginalStats := false }] }

/-- The catalog, the shadow tables, the tree files and the open tables belong together. -/
structure Connection.Consistent (w : Connection) : Prop where
  plain : ∀ r ∈ w.idxinfo, PlainName r.tableName
  names : (w.idxinfo.map fun r => r.tableName.toLower).Nodup
  fileNames : (w.idxinfo.map fun r => r.params.treeFileName).Nodup
  stored : ∀ r ∈ w.idxinfo, r.Stored w.shadow w.files
  openedNames : (w.opened.map OpenTable.tableName).Nodup
  opened : ∀ v ∈ w.opened, v.Fits w.idxinfo

section

variable {w w' : Connection} {r : InfoRow} {v : OpenTable} {name : String}

/-- A row is stored as long as its own shadow table and file stay. -/
theorem InfoRow.Stored.congr {shadow shadow' : String → Option (List Column)}
    {files files' : String → Option TreeFile} (h : r.Stored shadow files)
    (hshadow : shadow' r.tableName.toLower = shadow r.tableName.toLower)
    (hfiles : files' r.params.treeFileName = files r.params.treeFileName) : r.Stored shadow' files' := by
  obtain ⟨⟨columns, q, hcolumns, hq⟩, treeType, htype, hfile⟩ := h
  exact ⟨⟨columns, q, hshadow.trans hcolumns, hq⟩, treeType, htype, hfiles.trans hfile⟩

theorem indexColumn_cases {columns : List Column} {fileName : String} {q : IndexParams}
    (h : indexColumn columns fileName = .ok q) : q.bestIndex = BPLUSTREE_NUM ∧ q.treeFileName = fileName ∧
      q.indexDataSize = getDataSizeByType q.indexDataType := by
  unfold indexColumn at h
  split at h
  · cases h
    exact ⟨rfl, rfl, rfl⟩
  · split at h
    · cases h
    · cases h
      exact ⟨rfl, rfl, rfl⟩

/-- The order of the trees and the sizes of the keys are accepted for every class. -/
theorem accepts_keySize (treeType : TreeType) (dataType : String) :
    Accepts treeType TREE_ORDER (keySize (getDataSizeByType dataType)) := by
  unfold getDataSizeByType
  split_ifs <;> cases treeType <;> decide

theorem InfoRow.Stored.accepts {shadow : String → Option (List Column)} {files : String → Option TreeFile}
    (h : r.Stored shadow files) (treeType : TreeType) :
    Accepts treeType TREE_ORDER (keySize r.params.indexDataSize) := by
  obtain ⟨columns, q, -, hq, hparams⟩ := h.columns
  have hsize : r.params.indexDataSize = q.indexDataSize := by rw [hparams]
  rw [hsize, (indexColumn_cases hq).2.2]
  exact accepts_keySize treeType q.indexDataType

/-- Rows with names of their own are found by their names. -/
theorem select_of_nodup (hnames : (w.idxinfo.map InfoRow.tableName).Nodup) (hr : r ∈ w.idxinfo)
    (hplain : PlainName r.tableName) : w.select r.tableName = some r := by
  have hfun : (fun r' : InfoRow => r'.named r.tableName) = fun r' => decide (r'.tableName = r.tableName) := by
    funext r'
    rw [InfoRow.named, quoted_of_plain hplain]
  rw [Connection.select, hfun]
  exact find?_of_nodup hnames hr

namespace Connection.Consistent

variable (h : w.Consistent)

include h

theorem nodup : w.idxinfo.Nodup := List.Nodup.of_map _ h.names

/-- Rows whose names are equal up to case are equal. -/
theorem eq_of_name {r' : InfoRow} (hr : r ∈ w.idxinfo) (hr' : r' ∈ w.idxinfo)
    (heq : r.tableName.toLower = r'.tableName.toLower) : r = r' :=
  List.inj_on_of_nodup_map h.names hr hr' heq

theorem eq_of_fileName {r' : InfoRow} (hr : r ∈ w.idxinfo) (hr' : r' ∈ w.idxinfo)
    (heq : r.params.treeFileName = r'.params.treeFileName) : r = r' :=
  List.inj_on_of_nodup_map h.fileNames hr hr' heq

/-- The statements for a row of the catalog find this row and no other. -/
theorem named_iff_eq {r' : InfoRow} (hr : r ∈ w.idxinfo) (hr' : r' ∈ w.idxinfo) :
    r'.named r.tableName = true ↔ r' = r := by
  rw [named_iff (h.plain r hr)]
  constructor
  · intro heq
    exact h.eq_of_name hr' hr (congrArg String.toLower heq)
  · intro heq
    rw [heq]

theorem tableNames : (w.idxinfo.map InfoRow.tableName).Nodup := by
  have hlower : ((w.idxinfo.map InfoRow.tableName).map String.toLower).Nodup := by
    rw [List.map_map]
    exact h.names
  exact List.Nodup.of_map _ hlower

theorem select_eq (hr : r ∈ w.idxinfo) : w.select r.tableName = some r :=
  select_of_nodup h.tableNames hr (h.plain r hr)

omit h in
theorem mem_of_find (hv : w.find name = some v) : v ∈ w.opened ∧ v.tableName = name :=
  ⟨List.mem_of_find?_eq_some hv, by simpa using List.find?_some hv⟩

omit h in
theorem mem_others {u : OpenTable} : u ∈ w.others name ↔ u ∈ w.opened ∧ u.tableName ≠ name := by
  rw [Connection.others, List.mem_filter, decide_eq_true_eq]

theorem others_names (name : String) : ((w.others name).map OpenTable.tableName).Nodup :=
  h.openedNames.sublist (List.filter_sublist.map _)

omit h in
/-- Another open table has another row. -/
theorem row_ne {u : OpenTable} (hu : u ∈ w.others v.tableName) : u.row ≠ v.row := by
  intro heq
  exact (mem_others.mp hu).2 (congrArg InfoRow.tableName heq)

/-- The tree file of a row can be opened as its class. -/
theorem openTree_eq (hv : v.Fits w.idxinfo) :
    openTree v.tree.treeType v.params.treeFileName w.files = .ok (some v.tree) := by
  have hstored := h.stored v.row hv.row_mem
  obtain ⟨treeType, htype, hfile⟩ := hstored.file
  obtain rfl : v.tree.treeType = treeType := Option.some.inj (hv.treeType.symm.trans htype)
  have haccepts : v.tree.treeType = v.tree.treeType ∧
      Accepts v.tree.treeType TREE_ORDER (keySize v.params.indexDataSize) :=
    ⟨rfl, hstored.accepts v.tree.treeType⟩
  change w.files v.params.treeFileName = _ at hfile
  unfold openTree
  rw [hfile]
  show (if v.tree.treeType = v.tree.treeType ∧
    Accepts v.tree.treeType TREE_ORDER (keySize v.params.indexDataSize) then _ else _) = _
  rw [if_pos haccepts, ← hv.fileName]

theorem openIndex_eq (hv : v.Fits w.idxinfo) : openIndex v.params w.files = .ok v.tree := by
  unfold openIndex
  rw [hv.treeType]
  show (openTree v.tree.treeType v.params.treeFileName w.files >>= _ : Except Failure OpenTree) = _
  rw [h.openTree_eq hv]
  rfl

end Connection.Consistent

/-! ## One call -/

/-- What a successful `btreesModsCreate` does. -/
theorem create_cases {rand : ℕ → ℕ} {columns : List Column} {seed time : ℕ}
    (hrun : w.create rand name columns seed time = .ok w') :
    ∃ q, indexColumn columns (getTreeFileName rand seed time) = .ok q ∧ w.shadow name.toLower = none ∧
      name ∉ w.idxinfo.map InfoRow.tableName ∧ w' = {
        shadow := Function.update w.shadow name.toLower (some columns)
        idxinfo := w.idxinfo ++ [⟨name, q⟩]
        files := Function.update w.files q.treeFileName
          (some ⟨.bPlusTree, TREE_ORDER, keySize q.indexDataSize⟩)
        opened := w.opened ++ [⟨name, q, true, ⟨.bPlusTree, q.treeFileName⟩⟩] } := by
  have hnone : ¬((w.shadow name.toLower).isSome = true ∨ columns = []) := by
    intro hrefused
    rw [Connection.create, if_pos hrefused] at hrun
    cases hrun
  rw [Connection.create, if_neg hnone] at hrun
  obtain ⟨hnone, -⟩ := not_or.mp hnone
  cases hq : indexColumn columns (getTreeFileName rand seed time) with
  | error e =>
    rw [hq] at hrun
    cases hrun
  | ok q =>
    rw [hq] at hrun
    obtain ⟨hbest, -, hsize⟩ := indexColumn_cases hq
    have hindex : createIndex q w.files = .ok (⟨.bPlusTree, q.treeFileName⟩, Function.update w.files
        q.treeFileName (some ⟨.bPlusTree, TREE_ORDER, keySize q.indexDataSize⟩)) := by
      have hok := accepts_keySize .bPlusTree q.indexDataType
      rw [← hsize] at hok
      unfold createIndex
      rw [hbest]
      exact if_pos hok
    change (if name ∈ w.idxinfo.map InfoRow.tableName then _ else (createIndex q w.files >>= _) :
      Except Failure Connection) = _ at hrun
    have hname : name ∉ w.idxinfo.map InfoRow.tableName := by
      intro hmem
      rw [if_pos hmem] at hrun
      cases hrun
    rw [if_neg hname, hindex] at hrun
    cases hrun
    exact ⟨q, rfl, by simpa using hnone, hname, rfl⟩

/-- In a consistent connection a table that is created leaves it consistent exactly if no row has the name of
its tree file. -/
theorem created_consistent_iff {rand : ℕ → ℕ} {columns : List Column} {seed time : ℕ} (h : w.Consistent)
    (hname : PlainName name) (hrun : w.create rand name columns seed time = .ok w') :
    w'.Consistent ↔ ∀ r ∈ w.idxinfo, r.params.treeFileName ≠ getTreeFileName rand seed time := by
  obtain ⟨q, hq, hshadow, hnew, rfl⟩ := create_cases hrun
  obtain ⟨hbest, hfile, hsize⟩ := indexColumn_cases hq
  constructor
  · intro h' r hr heq
    have hfiles := h'.fileNames
    rw [List.map_append, List.nodup_append] at hfiles
    refine hfiles.2.2 _ (List.mem_map_of_mem hr) q.treeFileName ?_ ?_
    · exact List.mem_singleton_self _
    · rw [hfile]
      exact heq
  · intro hfresh
    have hlower : ∀ r ∈ w.idxinfo, r.tableName.toLower ≠ name.toLower := by
      intro r hr heq
      obtain ⟨columns', _, hcolumns, -⟩ := (h.stored r hr).columns
      rw [heq, hshadow] at hcolumns
      cases hcolumns
    refine ⟨?_, nodup_append_singleton h.names hlower, ?_, ?_, ?_, ?_⟩
    · intro r hr
      rcases List.mem_append.mp hr with hr | hr
      · exact h.plain r hr
      · rw [List.mem_singleton.mp hr]
        exact hname
    · apply nodup_append_singleton h.fileNames
      intro r hr
      rw [hfile]
      exact hfresh r hr
    · intro r hr
      rcases List.mem_append.mp hr with hr | hr
      · apply (h.stored r hr).congr
        · exact Function.update_of_ne (hlower r hr) _ _
        · apply Function.update_of_ne
          rw [hfile]
          exact hfresh r hr
      · rw [List.mem_singleton.mp hr]
        refine ⟨⟨columns, q, Function.update_self _ _ _, ?_, rfl⟩, .bPlusTree, ?_,
          Function.update_self _ _ _⟩
        · rw [hfile]
          exact hq
        · rw [hbest]
          rfl
    · apply nodup_append_singleton h.openedNames
      intro v hv heq
      have hrow : v.row.tableName ∈ w.idxinfo.map InfoRow.tableName :=
        List.mem_map_of_mem (h.opened v hv).row_mem
      have hsame : v.row.tableName = name := heq
      rw [hsame] at hrow
      exact hnew hrow
    · intro v hv
      rcases List.mem_append.mp hv with hv | hv
      · obtain ⟨hrow, htype, hfileName⟩ := h.opened v hv
        exact ⟨List.mem_append_left _ hrow, htype, hfileName⟩
      · rw [List.mem_singleton.mp hv]
        refine ⟨List.mem_append_right _ (List.mem_singleton_self _), ?_, rfl⟩
        show treeTypeOf q.bestIndex = some .bPlusTree
        rw [hbest]
        rfl

theorem connect_consistent (h : w.Consistent) (hname : PlainName name) (hfind : w.find name = none)
    (hrun : w.connect name = .ok w') : w'.Consistent ∧ w'.idxinfo = w.idxinfo := by
  unfold Connection.connect at hrun
  cases hr : w.select name with
  | none =>
    rw [hr] at hrun
    cases hrun
  | some r =>
    rw [hr] at hrun
    have hmem : r ∈ w.idxinfo := List.mem_of_find?_eq_some hr
    have hfound := List.find?_some (p := fun r : InfoRow => r.named name) hr
    obtain rfl : r.tableName = name := (named_iff hname).mp hfound
    obtain ⟨treeType, htype, -⟩ := (h.stored r hmem).file
    have hfits : OpenTable.Fits w.idxinfo
        ⟨r.tableName, r.params, false, ⟨treeType, r.params.treeFileName⟩⟩ :=
      ⟨hmem, htype, rfl⟩
    have hopen := h.openIndex_eq hfits
    dsimp only at hrun hopen
    rw [hopen] at hrun
    cases hrun
    refine ⟨⟨h.plain, h.names, h.fileNames, h.stored, ?_, ?_⟩, rfl⟩
    · apply nodup_append_singleton h.openedNames
      intro v hv heq
      have hnone := List.find?_eq_none.mp hfind v hv
      exact hnone (by simpa using heq)
    · intro v hv
      rcases List.mem_append.mp hv with hv | hv
      · exact h.opened v hv
      · rw [List.mem_singleton.mp hv]
        exact hfits

theorem disconnect_consistent (h : w.Consistent) (v : OpenTable) : (w.disconnect v).Consistent := by
  refine ⟨h.plain, h.names, h.fileNames, h.stored, h.others_names _, ?_⟩
  intro u hu
  exact h.opened u (Connection.Consistent.mem_others.mp hu).1

/-- `btreesModsDestroy` takes away the row of the table and no other. -/
theorem destroy_consistent (h : w.Consistent) (hv : v ∈ w.opened) (hrun : w.destroy v = .ok w') :
    w'.Consistent ∧ w'.idxinfo = w.idxinfo.filter fun r => r ≠ v.row := by
  have hrow := (h.opened v hv).row_mem
  unfold Connection.destroy at hrun
  split_ifs at hrun
  cases hrun
  have hrows : (w.idxinfo.filter fun r => !r.named v.tableName) = w.idxinfo.filter fun r => r ≠ v.row := by
    apply List.filter_congr
    intro r hr
    have hiff := h.named_iff_eq hrow hr
    change r.named v.tableName = true ↔ r = v.row at hiff
    by_cases heq : r = v.row
    · rw [hiff.mpr heq, decide_eq_false (not_not.mpr heq)]
      rfl
    · have hfalse : r.named v.tableName = false := by
        rw [← Bool.not_eq_true, hiff]
        exact heq
      rw [hfalse, decide_eq_true heq]
      rfl
  have hmem {r : InfoRow} :
      r ∈ (w.idxinfo.filter fun r => !r.named v.tableName) ↔ r ∈ w.idxinfo ∧ r ≠ v.row := by
    rw [hrows, List.mem_filter, decide_eq_true_eq]
  refine ⟨⟨?_, ?_, ?_, ?_, h.others_names _, ?_⟩, hrows⟩
  · intro r hr
    exact h.plain r (hmem.mp hr).1
  · exact h.names.sublist (List.filter_sublist.map _)
  · exact h.fileNames.sublist (List.filter_sublist.map _)
  · intro r hr
    obtain ⟨hr, hne⟩ := hmem.mp hr
    apply (h.stored r hr).congr
    · apply Function.update_of_ne
      intro heq
      exact hne (h.eq_of_name hr hrow heq)
    · apply Function.update_of_ne
      intro heq
      exact hne (h.eq_of_fileName hr hrow heq)
  · intro u hu
    obtain ⟨hurow, htype, hfile⟩ := h.opened u (Connection.Consistent.mem_others.mp hu).1
    exact ⟨hmem.mpr ⟨hurow, Connection.Consistent.row_ne hu⟩, htype, hfile⟩

/-- Why names must read as strings: destroying a table whose name is `tableName` deletes all rows. -/
theorem destroy_tableName (hname : v.tableName.toLower = "tablename") (hrun : w.destroy v = .ok w') :
    w'.idxinfo = [] := by
  have hnamed : ∀ r ∈ w.idxinfo, ¬(!r.named v.tableName) = true := by
    intro r _
    have hquoted : r.quoted v.tableName = r.tableName := by
      rw [InfoRow.quoted, hname]
      rfl
    rw [InfoRow.named, hquoted]
    simp
  unfold Connection.destroy at hrun
  split_ifs at hrun
  cases hrun
  exact List.filter_eq_nil_iff.mpr hnamed

/-- An update of the row of an open table. -/
theorem map_named (h : w.Consistent) (hrow : v.row ∈ w.idxinfo) (g : InfoRow → InfoRow) :
    (w.idxinfo.map fun r => if r.named v.tableName then g r else r) =
      w.idxinfo.map fun r => if r = v.row then g r else r := by
  apply List.map_congr_left
  intro r hr
  have hiff : r.named v.tableName = true ↔ r = v.row := h.named_iff_eq hrow hr
  by_cases heq : r = v.row
  · rw [if_pos heq, if_pos (hiff.mpr heq)]
  · rw [if_neg heq, if_neg fun hnamed => heq (hiff.mp hnamed)]

/-- Rows whose keys are their own, after one of them gets a new key. -/
theorem nodup_map_replace {β : Type} {l : List InfoRow} {f : InfoRow → β} (hl : (l.map f).Nodup)
    {r₀ r₁ : InfoRow} (hnew : ∀ r ∈ l, r ≠ r₀ → f r ≠ f r₁) :
    ((l.map fun r => if r = r₀ then r₁ else r).map f).Nodup := by
  rw [List.map_map]
  apply (List.Nodup.of_map _ hl).map_on
  intro x hx y hy heq
  simp only [Function.comp_apply] at heq
  split_ifs at heq with hx₀ hy₀ hy₀
  · rw [hx₀, hy₀]
  · exact absurd heq.symm (hnew y hy hy₀)
  · exact absurd heq (hnew x hx hx₀)
  · exact List.inj_on_of_nodup_map hl hx hy heq

theorem mem_map_replace {l : List InfoRow} {r₀ r₁ r : InfoRow}
    (hr : r ∈ l.map fun r => if r = r₀ then r₁ else r) : r = r₁ ∨ r ∈ l ∧ r ≠ r₀ := by
  obtain ⟨x, hx, rfl⟩ := List.mem_map.mp hr
  by_cases heq : x = r₀
  · rw [if_pos heq]
    exact Or.inl rfl
  · rw [if_neg heq]
    exact Or.inr ⟨hx, heq⟩

theorem mem_replace {l : List InfoRow} {r₀ r₁ : InfoRow} (hr : r₀ ∈ l) :
    r₁ ∈ l.map fun r => if r = r₀ then r₁ else r :=
  List.mem_map.mpr ⟨r₀, hr, if_pos rfl⟩

theorem mem_replace_of_ne {l : List InfoRow} {r₀ r₁ : InfoRow} (hr : r ∈ l) (hne : r ≠ r₀) :
    r ∈ l.map fun r => if r = r₀ then r₁ else r :=
  List.mem_map.mpr ⟨r, hr, if_neg hne⟩

/-- The open tables after the row of one of them has been replaced. -/
theorem opened_replace (h : w.Consistent) (hrow : v.row ∈ w.idxinfo) {u : OpenTable}
    (hu : treeTypeOf u.params.bestIndex = some u.tree.treeType)
    (hfile : u.tree.fileName = u.params.treeFileName) :
    ∀ x ∈ w.others v.tableName ++ [u],
      x.Fits (w.idxinfo.map fun r => if r = v.row then u.row else r) := by
  intro x hx
  rcases List.mem_append.mp hx with hx | hx
  · obtain ⟨hxrow, htype, hxfile⟩ := h.opened x (Connection.Consistent.mem_others.mp hx).1
    exact ⟨mem_replace_of_ne hxrow (Connection.Consistent.row_ne hx), htype, hxfile⟩
  · rw [List.mem_singleton.mp hx]
    exact ⟨mem_replace hrow, hu, hfile⟩

/-- `btreesModsRename` gives the row of the table its new name. -/
theorem rename_consistent (h : w.Consistent) (hv : v ∈ w.opened) {zNew : String} (hname : PlainName zNew)
    (hrun : w.rename v zNew = .ok w') :
    w'.Consistent ∧ w'.idxinfo = w.idxinfo.map fun r => if r = v.row then ⟨zNew, v.params⟩ else r := by
  obtain ⟨hrow, htype, hfileName⟩ := h.opened v hv
  have hrows : w.renamedRows v.tableName zNew =
      w.idxinfo.map fun r => if r = v.row then ⟨zNew, v.params⟩ else r := by
    rw [Connection.renamedRows, map_named h hrow fun r => { r with tableName := r.quoted zNew }]
    apply List.map_congr_left
    intro r _
    by_cases heq : r = v.row
    · rw [if_pos heq, if_pos heq, heq, quoted_of_plain hname]
      rfl
    · rw [if_neg heq, if_neg heq]
  unfold Connection.rename at hrun
  cases hcolumns : w.shadow v.tableName.toLower with
  | none =>
    rw [hcolumns] at hrun
    cases hrun
  | some columns =>
    rw [hcolumns] at hrun
    dsimp only at hrun
    split_ifs at hrun with hfree hnodup
    cases hrun
    have hfree : w.shadow zNew.toLower = none := by simpa using hfree
    have hlower : ∀ r ∈ w.idxinfo, r.tableName.toLower ≠ zNew.toLower := by
      intro r hr heq
      obtain ⟨columns', _, hcolumns', -⟩ := (h.stored r hr).columns
      rw [heq, hfree] at hcolumns'
      cases hcolumns'
    rw [hrows]
    refine ⟨⟨?_, ?_, ?_, ?_, ?_, ?_⟩, rfl⟩
    · intro r hr
      rcases mem_map_replace hr with rfl | ⟨hr, -⟩
      · exact hname
      · exact h.plain r hr
    · apply nodup_map_replace h.names
      intro r hr _
      exact hlower r hr
    · apply nodup_map_replace h.fileNames
      intro r hr hne heq
      exact hne (h.eq_of_fileName hr hrow heq)
    · intro r hr
      rcases mem_map_replace hr with rfl | ⟨hr, hne⟩
      · obtain ⟨⟨columns', q, hcolumns', hq⟩, hfile⟩ := h.stored _ hrow
        obtain rfl : columns = columns' := Option.some.inj (hcolumns.symm.trans hcolumns')
        exact ⟨⟨columns, q, Function.update_self _ _ _, hq⟩, hfile⟩
      · apply (h.stored r hr).congr _ rfl
        show Function.update (Function.update w.shadow v.tableName.toLower none) zNew.toLower _ _ = _
        rw [Function.update_of_ne (hlower r hr), Function.update_of_ne]
        intro heq
        exact hne (h.eq_of_name hr hrow heq)
    · apply nodup_append_singleton (h.others_names _)
      intro u hu heq
      have hurow := (h.opened u (Connection.Consistent.mem_others.mp hu).1).row_mem
      exact hlower _ hurow (congrArg String.toLower heq)
    · exact opened_replace h hrow (u := { v with tableName := zNew }) htype hfileName

/-- `rebuildIndex` changes the class in the row of the table and in its file. -/
theorem rebuild_consistent (h : w.Consistent) (hv : v ∈ w.opened) {bestIndex : ℕ}
    (hrun : w.rebuild v bestIndex = .ok w') : w'.Consistent ∧ w'.idxinfo = w.idxinfo.map fun r =>
      if r = v.row then ⟨v.tableName, { v.params with bestIndex := bestIndex }⟩ else r := by
  obtain ⟨hrow, -, -⟩ := h.opened v hv
  have hstored := h.stored _ hrow
  have hrows := map_named h hrow fun r => { r with params := { r.params with bestIndex := bestIndex } }
  have hrows' : (w.idxinfo.map fun r => if r = v.row then
      { r with params := { r.params with bestIndex := bestIndex } } else r) =
        w.idxinfo.map fun r =>
          if r = v.row then ⟨v.tableName, { v.params with bestIndex := bestIndex }⟩ else r := by
    apply List.map_congr_left
    intro r _
    by_cases heq : r = v.row
    · rw [if_pos heq, if_pos heq, heq]
      rfl
    · rw [if_neg heq, if_neg heq]
  cases htype : treeTypeOf bestIndex with
  | none =>
    unfold Connection.rebuild createIndex at hrun
    dsimp only at hrun
    rw [htype] at hrun
    cases hrun
  | some treeType =>
    have hok : Accepts treeType TREE_ORDER (keySize v.params.indexDataSize) := hstored.accepts treeType
    have hindex : createIndex { v.params with bestIndex := bestIndex }
        (Function.update w.files v.params.treeFileName none) = .ok (⟨treeType, v.params.treeFileName⟩,
          Function.update (Function.update w.files v.params.treeFileName none) v.params.treeFileName
            (some ⟨treeType, TREE_ORDER, keySize v.params.indexDataSize⟩)) := by
      unfold createIndex
      dsimp only
      rw [htype]
      exact if_pos hok
    unfold Connection.rebuild at hrun
    dsimp only at hrun
    rw [hindex] at hrun
    cases hrun
    rw [hrows.trans hrows']
    refine ⟨⟨?_, ?_, ?_, ?_, ?_, ?_⟩, rfl⟩
    · intro r hr
      rcases mem_map_replace hr with rfl | ⟨hr, -⟩
      · exact h.plain v.row hrow
      · exact h.plain r hr
    · apply nodup_map_replace h.names
      intro r hr hne heq
      exact hne (h.eq_of_name hr hrow heq)
    · apply nodup_map_replace h.fileNames
      intro r hr hne heq
      exact hne (h.eq_of_fileName hr hrow heq)
    · intro r hr
      rcases mem_map_replace hr with rfl | ⟨hr, hne⟩
      · obtain ⟨columns, q, hcolumns, hq, hparams⟩ := hstored.columns
        refine ⟨⟨columns, q, hcolumns, hq, ?_⟩, treeType, htype, Function.update_self _ _ _⟩
        have hparams : v.params = { q with bestIndex := v.params.bestIndex } := hparams
        show ({ v.params with bestIndex := bestIndex } : IndexParams) = _
        rw [hparams]
      · apply (h.stored r hr).congr rfl
        have hfile : r.params.treeFileName ≠ v.params.treeFileName := by
          intro heq
          exact hne (h.eq_of_fileName hr hrow heq)
        show Function.update (Function.update w.files _ none) _ _ _ = _
        rw [Function.update_of_ne hfile, Function.update_of_ne hfile]
    · apply nodup_append_singleton (h.others_names _)
      intro u hu heq
      exact (Connection.Consistent.mem_others.mp hu).2 heq
    · exact opened_replace h hrow (u := { v with
        params := { v.params with bestIndex := bestIndex }
        tree := ⟨treeType, v.params.treeFileName⟩ }) htype rfl

end

/-! ## Runs -/

/-- The names that the call puts into the catalog, or reads from it, are plain. -/
def CatalogCall.Plain : CatalogCall → Prop
  | create name _ _ _ | connect name => PlainName name
  | rename _ zNew => PlainName zNew
  | disconnect _ | destroy _ | rebuild _ _ => True

instance : DecidablePred CatalogCall.Plain := fun c =>
  match c with
  | .create name _ _ _ | .connect name => inferInstanceAs (Decidable (PlainName name))
  | .rename _ zNew => inferInstanceAs (Decidable (PlainName zNew))
  | .disconnect _ | .destroy _ | .rebuild _ _ => isTrue trivial

/-- The seed and the second of a creation. -/
def CatalogCall.creation : CatalogCall → Option (ℕ × ℕ)
  | create _ _ seed time => some (seed, time)
  | _ => none

/-- The seconds in which tables are created. -/
def creationTimes (calls : List CatalogCall) : List ℕ :=
  calls.filterMap fun c => c.creation.map Prod.snd

section

variable {rand : ℕ → ℕ} {w w' : Connection} {r : InfoRow} {v : OpenTable}

/-- The tree file of a row was there before, or is that of a table that is created. -/
def FileFrom (rand : ℕ → ℕ) (w : Connection) (c : CatalogCall) (r : InfoRow) : Prop :=
  (∃ r₀ ∈ w.idxinfo, r.params.treeFileName = r₀.params.treeFileName) ∨
    ∃ q ∈ c.creation, r.params.treeFileName = getTreeFileName rand q.1 q.2

theorem fileFrom_replace {c : CatalogCall} {r₀ r₁ : InfoRow} (hr₀ : r₀ ∈ w.idxinfo)
    (hfile : r₁.params.treeFileName = r₀.params.treeFileName)
    (hr : r ∈ w.idxinfo.map fun r => if r = r₀ then r₁ else r) : FileFrom rand w c r := by
  rcases mem_map_replace hr with rfl | ⟨hr, -⟩
  · exact Or.inl ⟨r₀, hr₀, hfile⟩
  · exact Or.inl ⟨r, hr, rfl⟩

/-- A call keeps a connection consistent. -/
theorem CatalogCall.consistent (h : w.Consistent) (c : CatalogCall) (hplain : c.Plain)
    (hfresh : ∀ q ∈ c.creation, ∀ r ∈ w.idxinfo, r.params.treeFileName ≠ getTreeFileName rand q.1 q.2)
    (hrun : c.run rand w = .ok w') : w'.Consistent ∧ ∀ r ∈ w'.idxinfo, FileFrom rand w c r := by
  have hkept {r : InfoRow} (hr : r ∈ w.idxinfo) : FileFrom rand w c r := Or.inl ⟨r, hr, rfl⟩
  cases c with
  | create name columns seed time =>
    have hname : PlainName name := hplain
    have hcreate : w.create rand name columns seed time = .ok w' := hrun
    have hnew := hfresh (seed, time) rfl
    refine ⟨(created_consistent_iff h hname hcreate).mpr hnew, ?_⟩
    obtain ⟨q, hq, -, -, rfl⟩ := create_cases hcreate
    intro r hr
    rcases List.mem_append.mp hr with hr | hr
    · exact hkept hr
    · rw [List.mem_singleton.mp hr]
      exact Or.inr ⟨(seed, time), rfl, (indexColumn_cases hq).2.1⟩
  | connect name =>
    change (if (w.find name).isSome then _ else w.connect name) = _ at hrun
    cases hfind : w.find name with
    | some v =>
      rw [hfind] at hrun
      cases hrun
      exact ⟨h, fun r hr => hkept hr⟩
    | none =>
      rw [hfind] at hrun
      obtain ⟨h', hrows⟩ := connect_consistent h hplain hfind hrun
      refine ⟨h', fun r hr => hkept ?_⟩
      rwa [hrows] at hr
  | disconnect name =>
    cases hfind : w.find name with
    | none =>
      rw [CatalogCall.run, hfind] at hrun
      cases hrun
      exact ⟨h, fun r hr => hkept hr⟩
    | some v =>
      rw [CatalogCall.run, hfind] at hrun
      cases hrun
      exact ⟨disconnect_consistent h v, fun r hr => hkept hr⟩
  | destroy name =>
    cases hfind : w.find name with
    | none =>
      rw [CatalogCall.run, hfind] at hrun
      cases hrun
      exact ⟨h, fun r hr => hkept hr⟩
    | some v =>
      rw [CatalogCall.run, hfind] at hrun
      obtain ⟨h', hrows⟩ := destroy_consistent h (Connection.Consistent.mem_of_find hfind).1 hrun
      refine ⟨h', fun r hr => hkept ?_⟩
      rw [hrows] at hr
      exact List.mem_of_mem_filter hr
  | rename name zNew =>
    cases hfind : w.find name with
    | none =>
      rw [CatalogCall.run, hfind] at hrun
      cases hrun
      exact ⟨h, fun r hr => hkept hr⟩
    | some v =>
      rw [CatalogCall.run, hfind] at hrun
      have hv := (Connection.Consistent.mem_of_find hfind).1
      obtain ⟨h', hrows⟩ := rename_consistent h hv hplain hrun
      rw [hrows]
      refine ⟨h', ?_⟩
      intro r hr
      refine fileFrom_replace (h.opened v hv).row_mem ?_ hr
      rfl
  | rebuild name stats =>
    cases hfind : w.find name with
    | none =>
      rw [CatalogCall.run, hfind] at hrun
      cases hrun
      exact ⟨h, fun r hr => hkept hr⟩
    | some v =>
      rw [CatalogCall.run, hfind] at hrun
      dsimp only at hrun
      split_ifs at hrun
      · have hv := (Connection.Consistent.mem_of_find hfind).1
        obtain ⟨h', hrows⟩ := rebuild_consistent h hv hrun
        rw [hrows]
        refine ⟨h', ?_⟩
        intro r hr
        refine fileFrom_replace (h.opened v hv).row_mem ?_ hr
        rfl
      · cases hrun
        exact ⟨h, fun r hr => hkept hr⟩

/-- The tree files were named in earlier seconds than `times`. -/
def NamedBefore (rand : ℕ → ℕ) (times : List ℕ) (w : Connection) : Prop :=
  ∀ r ∈ w.idxinfo, ∃ seed time, r.params.treeFileName = getTreeFileName rand seed time ∧
    (10 ^ 9 ≤ time ∧ time < 2 ^ 31) ∧ ∀ t ∈ times, time < t

theorem runCatalog_consistent {calls : List CatalogCall} (h : w.Consistent)
    (hnamed : NamedBefore rand (creationTimes calls) w) (hplain : ∀ c ∈ calls, c.Plain)
    (htimes : (creationTimes calls).Pairwise (· < ·))
    (hdigits : ∀ t ∈ creationTimes calls, 10 ^ 9 ≤ t ∧ t < 2 ^ 31) :
    (runCatalog rand w calls).Consistent := by
  induction calls generalizing w with
  | nil => exact h
  | cons c calls ih =>
    have hsub : ∀ t ∈ creationTimes calls, t ∈ creationTimes (c :: calls) := by
      intro t ht
      obtain ⟨c', hc', ht⟩ := List.mem_filterMap.mp ht
      exact List.mem_filterMap.mpr ⟨c', List.mem_cons_of_mem c hc', ht⟩
    have hrest : (creationTimes calls).Pairwise (· < ·) := by
      unfold creationTimes at htimes ⊢
      rw [List.filterMap_cons] at htimes
      split at htimes
      · exact htimes
      · exact (List.pairwise_cons.mp htimes).2
    have hnext : ∀ w', w'.Consistent → NamedBefore rand (creationTimes calls) w' →
        (runCatalog rand w' calls).Consistent := fun w' h' hnamed' =>
      ih h' hnamed' (fun c' hc' => hplain c' (List.mem_cons_of_mem c hc')) hrest
        fun t ht => hdigits t (hsub t ht)
    have hold : NamedBefore rand (creationTimes calls) w := by
      intro r hr
      obtain ⟨seed, time, hfile, hten, hbefore⟩ := hnamed r hr
      exact ⟨seed, time, hfile, hten, fun t ht => hbefore t (hsub t ht)⟩
    rw [runCatalog]
    cases hrun : c.run rand w with
    | error e => exact hnext w h hold
    | ok w' =>
      -- the second of a creation
      have hcreated {q : ℕ × ℕ} (hq : q ∈ c.creation) : q.2 ∈ creationTimes (c :: calls) := by
        refine List.mem_filterMap.mpr ⟨c, List.mem_cons_self, ?_⟩
        rw [Option.mem_def.mp hq]
        rfl
      have hfresh : ∀ q ∈ c.creation, ∀ r ∈ w.idxinfo,
          r.params.treeFileName ≠ getTreeFileName rand q.1 q.2 := by
        intro q hq r hr
        obtain ⟨seed, time, hfile, hten, hbefore⟩ := hnamed r hr
        rw [hfile]
        apply treeFileName_ne (hbefore q.2 (hcreated hq))
        rw [length_toDigits_ten hten, length_toDigits_ten (hdigits q.2 (hcreated hq))]
      obtain ⟨h', hfrom⟩ := c.consistent h (hplain c List.mem_cons_self) hfresh hrun
      apply hnext w' h'
      intro r hr
      rcases hfrom r hr with ⟨r₀, hr₀, hfile⟩ | ⟨q, hq, hfile⟩
      · rw [hfile]
        exact hold r₀ hr₀
      · refine ⟨q.1, q.2, hfile, hdigits q.2 (hcreated hq), ?_⟩
        intro t ht
        unfold creationTimes at htimes
        rw [List.filterMap_cons_some (by rw [Option.mem_def.mp hq]; rfl)] at htimes
        exact (List.pairwise_cons.mp htimes).1 t ht

theorem eq_ok_of_isOk {x : Except Failure Connection} (d : Connection) (h : x.isOk = true) :
    x = .ok (x.toOption.getD d) := by
  cases x with
  | error e => cases h
  | ok w => rfl

theorem consistent_of_empty (hrows : w.idxinfo = []) (hopened : w.opened = []) : w.Consistent := by
  refine ⟨?_, ?_, ?_, ?_, ?_, ?_⟩
  · rw [hrows]
    exact fun r hr => absurd hr List.not_mem_nil
  · rw [hrows]
    exact List.nodup_nil
  · rw [hrows]
    exact List.nodup_nil
  · rw [hrows]
    exact fun r hr => absurd hr List.not_mem_nil
  · rw [hopened]
    exact List.nodup_nil
  · rw [hopened]
    exact fun v hv => absurd hv List.not_mem_nil

theorem Connection.Consistent.reports (h : w.Consistent) (hv : v ∈ w.opened) : w.Reports v := by
  have hfits := h.opened v hv
  have hselect : w.select v.tableName = some v.row := h.select_eq hfits.row_mem
  have hopen := h.openIndex_eq hfits
  have htree := h.openTree_eq hfits
  obtain ⟨treeType, htype, hfile⟩ := (h.stored v.row hfits.row_mem).file
  change w.files v.params.treeFileName = _ at hfile
  refine ⟨?_, hfits.treeType, ?_, ?_⟩
  · rw [Connection.getTreeType, hselect]
    rfl
  · unfold Connection.getTreeOrder
    rw [hselect]
    dsimp only [OpenTable.row]
    rw [hfits.treeType]
    show (openTree v.tree.treeType v.params.treeFileName w.files >>= _ : Except Failure (Option UInt16)) = _
    rw [htree]
    show Except.ok ((w.files v.tree.fileName).map TreeFile.order) = _
    rw [hfits.fileName, hfile]
    rfl
  · have hselect' : (w.disconnect v).select v.tableName = some v.row := hselect
    unfold Connection.connect
    rw [hselect']
    show (openIndex v.params w.files >>= _ : Except Failure Connection) = _
    rw [hopen]
    rfl

theorem destroy_of_shadow (hsome : (w.shadow v.tableName.toLower).isSome = true) :
    w.destroy v = .ok {
      shadow := Function.update w.shadow v.tableName.toLower none
      idxinfo := w.idxinfo.filter fun r => !r.named v.tableName
      files := Function.update w.files v.params.treeFileName none
      opened := w.others v.tableName } := by
  apply if_neg
  rw [Option.isNone_iff_eq_none]
  intro hnone
  rw [hnone] at hsome
  cases hsome

/-- A table whose tree file is gone cannot be connected. -/
theorem connect_without_file (hnames : (w.idxinfo.map InfoRow.tableName).Nodup) (hr : r ∈ w.idxinfo)
    (hplain : PlainName r.tableName) (hfile : w.files r.params.treeFileName = none) :
    w.connect r.tableName = .error ERROR_CODE := by
  have hopen : openIndex r.params w.files = .error ERROR_CODE := by
    unfold openIndex openTree
    rw [hfile]
    split
    · rfl
    · rfl
  unfold Connection.connect
  rw [select_of_nodup hnames hr hplain]
  show (openIndex r.params w.files >>= _ : Except Failure Connection) = _
  rw [hopen]
  rfl

/-- `btreesModsInit` seeds the random generator with the second, so that tables created in one second have one
file. The connection is not consistent then, and destroying the second table takes away the file of the first
one, which cannot be connected any more. -/
theorem create_shares_file {name : String} {columns : List Column} {seed time : ℕ} (h : w.Consistent)
    (hname : PlainName name) (hrun : w.create rand name columns seed time = .ok w') :
    (w'.Consistent ↔ ∀ r ∈ w.idxinfo, r.params.treeFileName ≠ getTreeFileName rand seed time) ∧
      ∀ r ∈ w.idxinfo, r.params.treeFileName = getTreeFileName rand seed time →
        ∃ u ∈ w'.opened, u.tableName = name ∧ ∃ w'', w'.destroy u = .ok w'' ∧
          w''.connect r.tableName = .error ERROR_CODE := by
  refine ⟨created_consistent_iff h hname hrun, ?_⟩
  obtain ⟨q, hq, -, hnew, rfl⟩ := create_cases hrun
  intro r hr hshared
  have hsome : (Function.update w.shadow name.toLower (some columns) name.toLower).isSome = true := by
    rw [Function.update_self]
    rfl
  refine ⟨_, List.mem_append_right _ (List.mem_singleton_self _), rfl, _, destroy_of_shadow hsome, ?_⟩
  have hother : r.tableName ≠ name := by
    intro heq
    exact hnew (heq ▸ List.mem_map_of_mem hr)
  apply connect_without_file
  · have hnames : ((w.idxinfo ++ [(⟨name, q⟩ : InfoRow)]).map InfoRow.tableName).Nodup := by
      apply nodup_append_singleton h.tableNames
      intro y hy heq
      have hsame : y.tableName = name := heq
      exact hnew (hsame ▸ List.mem_map_of_mem hy)
    exact hnames.sublist (List.filter_sublist.map _)
  · refine List.mem_filter.mpr ⟨List.mem_append_left _ hr, ?_⟩
    rw [Bool.not_eq_true', ← Bool.not_eq_true, named_iff hname]
    exact hother
  · exact h.plain r hr
  · rw [hshared, ← (indexColumn_cases hq).2.1]
    exact Function.update_self _ _ _

/-- The tables `a` and `b` are created in one second. -/
theorem create_shares_file_two :
    let columns : List Column := [⟨"id", some "INTEGER", true⟩, ⟨"name", some "TEXT", false⟩]
    ∃ w w' : Connection, w.create (fun seed => seed) "b" columns 1700000000 1700000000 = .ok w' ∧
      w.Consistent ∧ ¬w'.Consistent ∧ ∃ u ∈ w'.opened, u.tableName = "b" ∧
        ∃ w'', w'.destroy u = .ok w'' ∧ w''.connect "a" = .error ERROR_CODE := by
  intro columns
  let rand : ℕ → ℕ := fun seed => seed
  let w := runCatalog rand ⟨fun _ => none, [], fun _ => none, []⟩ [.create "a" columns 1700000000 1700000000]
  let r : InfoRow := ⟨"a", BPLUSTREE_NUM, 0, "id", "INTEGER", 4, getTreeFileName rand 1700000000 1700000000⟩
  have hw : w.Consistent := by
    apply runCatalog_consistent (consistent_of_empty rfl rfl)
    · intro r hr
      cases hr
    · decide +kernel
    · decide
    · decide
  have hr : r ∈ w.idxinfo := by decide +kernel
  have hrun := eq_ok_of_isOk w (x := w.create rand "b" columns 1700000000 1700000000) (by decide +kernel)
  obtain ⟨hiff, hlost⟩ := create_shares_file hw (by decide +kernel : PlainName "b") hrun
  exact ⟨w, _, hrun, hw, fun hw' => hiff.mp hw' r hr rfl, hlost r hr rfl⟩

end

end BTreesMods.Catalog
