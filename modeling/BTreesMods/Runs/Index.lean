import BTreesMods.Extension.KeyOrder
import BTreesMods.Lookup.Scan
import BTreesMods.Runs.SoundSessions

/-!
# The index of a table

Model of `createIndex` and `rebuildIndex` on trees (`btrees_mods.c`, lines 575–603 and 980–1001): between
the calls of a session the index is rebuilt as a tree of any of the four classes, by a scan of the old tree
with `searchAllByteComparator` and insertions into a new one.

* `index_keeps_multiset`: in any order of sound calls and rebuilds, the index answers as a multiset of keys
  whose rebuilds change nothing. A rebuild is sound if no key is less than the one that its scan starts
  from, as for a key of zeros.

The page storage is ideal (`BTree.IdealStorage`), and while the index is a B+-tree or B*+-tree no `remove` is
sound.
-/

namespace BTreesMods

/-! ## Model -/

section

variable {κ : Type}

/-- The `tree` of a table and its class. -/
structure TableIndex (κ : Type) where
  treeType : TreeType
  tree : BTree κ

/-- The trees of a table of any class: their order, record size and comparator. -/
def indexCfg (c : Comparator κ) (order recSize : UInt16) (treeType : TreeType) : Cfg κ where
  toParams := (setOrder treeType order recSize).toOption.getD default
  toComparator := c
  treeType := treeType

variable [Inhabited κ]

/-- `createIndex`: the new tree of a class in an empty file. -/
def createIndex (order recSize : UInt16) (noReturn : ℕ → Bool) (treeType : TreeType) :
    Except Err (TableIndex κ) :=
  (createTree (BTree.fresh order recSize noReturn)).map fun r => ⟨treeType, r.2⟩

/-- The loop over `insert`. -/
def insertKeys (T : Cfg κ) : List κ → TreeM κ Unit
  | [] => return ()
  | k :: keys => do
    insert T k
    insertKeys T keys

/-- `rebuildIndex` as a tree of the class `treeType`, with the scan from the key `start` on. -/
def rebuildTree (c : Comparator κ) (order recSize : UInt16) (treeType : TreeType) (start : κ)
    (index : TableIndex κ) : Except Err (TableIndex κ) := do
  let ((keys, keysCount), tree) ←
    searchAll (indexCfg c order recSize index.treeType).scanning start [] index.tree
  let index ← createIndex order recSize tree.noReturn treeType
  let (_, tree) ← insertKeys (indexCfg c order recSize treeType) (keys.take keysCount) index.tree
  return { index with tree := tree }

/-- A call on the index. -/
inductive IndexCall (κ : Type)
  | session (c : SessionCall κ)
  | rebuild (treeType : TreeType) (start : κ)

/-- What a call on the index returns. -/
inductive IndexAnswer (κ : Type)
  | session (a : SessionAnswer κ)
  | rebuilt

/-- The call on the tree of the index. -/
def IndexCall.run (c : Comparator κ) (order recSize : UInt16) :
    IndexCall κ → StateT (TableIndex κ) (Except Err) (IndexAnswer κ)
  | session call => fun index =>
    (call.run (indexCfg c order recSize index.treeType) index.tree).map fun r =>
      (.session r.1, { index with tree := r.2 })
  | rebuild treeType start => fun index =>
    (rebuildTree c order recSize treeType start index).map fun index => (.rebuilt, index)

/-- What a call needs of the index. -/
def IndexCall.Sound (c : Comparator κ) (order recSize : UInt16) : IndexCall κ → TableIndex κ → Prop
  | session call, index => call.Sound (indexCfg c order recSize index.treeType) index.tree
  | rebuild _ start, index => ∀ h t, t.page = index.tree.rootPageNum → Rep index.tree.stream.page h t →
      ∀ x ∈ t.records (indexCfg c order recSize index.treeType) h, c.compare x start = false

/-- The call on the class of the tree and the multiset of keys. -/
def IndexCall.OnMultiset (c : Comparator κ) (order recSize : UInt16) (m : TreeType × Multiset κ) :
    IndexCall κ → IndexAnswer κ → TreeType × Multiset κ → Prop
  | session call, .session a, m' => m'.1 = m.1 ∧ call.OnMultiset (indexCfg c order recSize m.1) m.2 a m'.2
  | rebuild treeType _, .rebuilt, m' => m' = (treeType, m.2)
  | _, _, _ => False

/-! ## Rebuilding -/

variable {c : Comparator κ} {order recSize : UInt16} {index : TableIndex κ}

/-- The index is a tree in order that stores the multiset. -/
def TableIndex.Holds (c : Comparator κ) (order recSize : UInt16) (index : TableIndex κ)
    (m : TreeType × Multiset κ) : Prop :=
  ∃ h t, Settled (indexCfg c order recSize index.treeType) order recSize index.tree h t ∧
    m = (index.treeType, ↑(t.records (indexCfg c order recSize index.treeType) h))

theorem insertKeys_settled {T : Cfg κ} {s : BTree κ} {h : ℕ} {t : Node κ} (hT : T.Valid)
    (hlt : StrictWeak T.compare) (hfit : T.treeType.isStar = true → T.SplitBufferFits) (hw : Settled T order recSize s h t)
    (keys : List κ) :
    Returns (insertKeys T keys) s fun _ s' => ∃ h' t', Settled T order recSize s' h' t' ∧
      (t'.records T h' : Multiset κ) = (keys : Multiset κ) + (t.records T h : Multiset κ) := by
  induction keys generalizing s h t with
  | nil => exact Returns.pure ⟨h, t, hw, (zero_add _).symm⟩
  | cons k keys ih =>
    refine (insert_settled hT hlt hfit hw k).bind ?_
    rintro _ s₁ ⟨h₁, t₁, hw₁, hrecords⟩
    refine (ih hw₁).mono ?_
    rintro _ s' ⟨h', t', hw', hrecords'⟩
    refine ⟨h', t', hw', ?_⟩
    rw [hrecords', hrecords, ← Multiset.cons_coe, Multiset.cons_add, Multiset.add_cons]

section

variable (hlt : StrictWeak c.compare) (hset : ∀ treeType, (setOrder treeType order recSize).isOk = true)
  (hsize : (2 * order.toNat + 1) * recSize.toNat < 2 ^ 31)

include hset

omit [Inhabited κ] in
theorem indexCfg_setOrder (treeType : TreeType) :
    setOrder treeType order recSize = .ok (indexCfg c order recSize treeType).toParams := by
  have hok := hset treeType
  show setOrder treeType order recSize = .ok ((setOrder treeType order recSize).toOption.getD default)
  cases h : setOrder treeType order recSize with
  | error e =>
    rw [h] at hok
    cases hok
  | ok p => rfl

include hsize

omit [Inhabited κ] in
theorem indexCfg_fits (treeType : TreeType) (hstar : treeType.isStar = true) :
    (indexCfg c order recSize treeType).SplitBufferFits :=
  splitBufferFits_of_setOrder (indexCfg_setOrder hset treeType) hstar hsize

include hlt

/-- A sound rebuild keeps the keys. -/
theorem rebuildTree_holds {m : TreeType × Multiset κ} (hindex : index.Holds c order recSize m)
    {treeType : TreeType} {start : κ}
    (hsound : (IndexCall.rebuild treeType start).Sound c order recSize index) :
    ∃ index', rebuildTree c order recSize treeType start index = .ok index' ∧
      index'.Holds c order recSize (treeType, m.2) := by
  obtain ⟨h, t, hw, rfl⟩ := hindex
  have hT (treeType : TreeType) : (indexCfg c order recSize treeType).Valid :=
    ⟨order, recSize, indexCfg_setOrder hset treeType⟩
  obtain ⟨keys, hscan, hperm⟩ := searchAll_scans hlt (hw.toWellFormed.readable (hT _)) start []
  have hall : (t.records (indexCfg c order recSize index.treeType) h).filter
      (fun x => !(indexCfg c order recSize index.treeType).compare x start) =
        t.records (indexCfg c order recSize index.treeType) h := by
    apply List.filter_eq_self.mpr
    intro x hx
    have hge : (indexCfg c order recSize index.treeType).compare x start = false :=
      hsound h t hw.page_eq hw.rep x hx
    rw [hge]
    rfl
  rw [hall] at hperm
  have hnew := created_settled (indexCfg c order recSize treeType) order recSize index.tree.noReturn
  obtain ⟨_, s', hinsert, h', t', hw', hrecords⟩ := insertKeys_settled (hT treeType) hlt
    (indexCfg_fits hset hsize treeType) hnew keys
  have hempty : (Node.records (indexCfg c order recSize treeType) 0 ⟨1, [], []⟩ : Multiset κ) = 0 := rfl
  refine ⟨⟨treeType, s'⟩, ?_, h', t', hw', ?_⟩
  · show (searchAll _ start [] index.tree >>= _ : Except Err _) = _
    rw [hscan]
    show (insertKeys _ (([] ++ keys).take keys.length) (BTree.created order recSize index.tree.noReturn) >>= _ :
      Except Err _) = _
    rw [List.nil_append, List.take_length, hinsert]
    rfl
  · have hkeys : (keys : Multiset κ) = t.records (indexCfg c order recSize index.treeType) h :=
      Multiset.coe_eq_coe.mpr hperm
    rw [hempty, add_zero, hkeys] at hrecords
    exact congrArg (Prod.mk treeType) hrecords.symm

/-- A sound call on the index is the call on the multiset. -/
theorem IndexCall.holds (heq : c.Equates) (hrec : recSize ≠ 0) (call : IndexCall κ)
    {m : TreeType × Multiset κ} (hindex : index.Holds c order recSize m)
    (hsound : call.Sound c order recSize index) :
    Returns (call.run c order recSize) index fun a index' => ∃ m',
      call.OnMultiset c order recSize m a m' ∧ index'.Holds c order recSize m' := by
  cases call with
  | session call =>
    obtain ⟨h, t, hw, rfl⟩ := hindex
    have hvalid := indexCfg_setOrder (c := c) hset index.treeType
    obtain ⟨a, s', hrun, h', t', hw', hM⟩ :=
      call.settled ⟨order, recSize, hvalid⟩ hlt heq (indexCfg_fits hset hsize index.treeType) hrec hvalid hw
        hsound
    refine ⟨.session a, { index with tree := s' }, ?_,
      (index.treeType, ↑(t'.records (indexCfg c order recSize index.treeType) h')), ⟨rfl, hM⟩, h', t', hw', rfl⟩
    show (call.run _ index.tree).map _ = _
    rw [hrun]
    rfl
  | rebuild treeType start =>
    obtain ⟨index', hrun, hindex'⟩ := rebuildTree_holds hlt hset hsize hindex hsound
    refine ⟨.rebuilt, index', ?_, (treeType, m.2), rfl, hindex'⟩
    show (rebuildTree c order recSize treeType start index).map _ = _
    rw [hrun]
    rfl

/-- A new index, with sound calls and rebuilds. -/
theorem runAll_holds (heq : c.Equates) (hrec : recSize ≠ 0) {noReturn : ℕ → Bool} {treeType : TreeType}
    (hcreate : createIndex order recSize noReturn treeType = .ok index) {calls : List (IndexCall κ)}
    (hsound : MeetsEach (IndexCall.run c order recSize) (IndexCall.Sound c order recSize) index calls) :
    Returns (runAll (IndexCall.run c order recSize) calls) index fun as index' => ∃ m,
      RunsOn (IndexCall.OnMultiset c order recSize) (treeType, 0) calls as m ∧
        index'.Holds c order recSize m := by
  cases hcreate
  have hnew : TableIndex.Holds c order recSize ⟨treeType, BTree.created order recSize noReturn⟩ (treeType, 0) :=
    ⟨0, _, created_settled _ order recSize noReturn, rfl⟩
  exact runAll_simulates (fun _ _ call hindex hcall => call.holds hlt hset hsize heq hrec hindex hcall) hnew hsound

end

end

/-! ## Keys of bytes -/

/-- On a new index of any class, whose keys are compared by their first `firstPartBytes` bytes, any sequence
of sound calls and rebuilds as trees of any classes answers as on a multiset of keys that no rebuild changes,
and leaves a well-formed tree of the class that was built last with the keys that are left. -/
theorem index_keeps_multiset {n firstPartBytes : ℕ} {order recSize : UInt16} (hrec : recSize ≠ 0)
    (hset : ∀ treeType, (setOrder treeType order recSize).isOk = true)
    (hsize : (2 * order.toNat + 1) * recSize.toNat < 2 ^ 31) {noReturn : ℕ → Bool} {treeType : TreeType}
    {index : TableIndex (Record n)}
    (hcreate : createIndex order recSize noReturn treeType = .ok index) {calls : List (IndexCall (Record n))}
    (hsound : MeetsEach (IndexCall.run (byteComparator n firstPartBytes) order recSize)
      (IndexCall.Sound (byteComparator n firstPartBytes) order recSize) index calls) :
    Returns (runAll (IndexCall.run (byteComparator n firstPartBytes) order recSize) calls) index
      fun as index' => ∃ M h t,
        RunsOn (IndexCall.OnMultiset (byteComparator n firstPartBytes) order recSize) (treeType, 0) calls as
            (index'.treeType, M) ∧
          WellFormed (indexCfg (byteComparator n firstPartBytes) order recSize index'.treeType) index'.tree h t ∧
          (t.records (indexCfg (byteComparator n firstPartBytes) order recSize index'.treeType) h :
            Multiset (Record n)) = M := by
  refine (runAll_holds byteComparator_strictWeak hset hsize byteComparator_equates hrec hcreate hsound).mono ?_
  rintro as index' ⟨_, hruns, h, t, hw, rfl⟩
  exact ⟨_, h, t, hruns, hw.toWellFormed, rfl⟩

/-- The key that a call removes. -/
def IndexCall.removedKey {κ : Type} : IndexCall κ → Option κ
  | session c => c.removedKey
  | rebuild _ _ => none

/-- The insertions of the keys of 1 to 6 and of a second 6, a rebuild as a B-tree from a key of zeros, the
removal of 2, the search for every 6, a rebuild as a B*+-tree, the insertion of 7 and the search for every 5. -/
def IndexCall.twoRebuilds : List (IndexCall (Record 12)) :=
  [1, 2, 3, 4, 5, 6, 6].map (fun x => session (.call (.insert (Record.ofByte 12 x)))) ++
    [rebuild .bTree default, session (.call (.remove (Record.ofByte 12 2))),
      session (.searchAll (Record.ofByte 12 6) []), rebuild .bStarPlusTree default,
      session (.call (.insert (Record.ofByte 12 7))), session (.searchAll (Record.ofByte 12 5) [])]

/-- An index of a column of INTEGER, whose pages split. -/
theorem index_keeps_multiset_rebuilt : ∃ index,
    createIndex 4 12 (fun _ => false) .bStarTree = .ok index ∧
    Returns (runAll (IndexCall.run (byteComparator 12 4) 4 12) IndexCall.twoRebuilds) index
      fun as index' => ∃ M h t,
        RunsOn (IndexCall.OnMultiset (byteComparator 12 4) 4 12) (.bStarTree, 0) IndexCall.twoRebuilds as
            (index'.treeType, M) ∧
          WellFormed (indexCfg (byteComparator 12 4) 4 12 index'.treeType) index'.tree h t ∧
          (t.records (indexCfg (byteComparator 12 4) 4 12 index'.treeType) h : Multiset (Record 12)) = M := by
  have hset : ∀ treeType, (setOrder treeType 4 12).isOk = true := by
    intro treeType
    cases treeType <;> decide
  refine ⟨_, rfl, index_keeps_multiset (by decide) hset (by decide) rfl ?_⟩
  have hlow : MeetsEach (IndexCall.run (byteComparator 12 4) 4 12)
      (fun c index => ∀ _k ∈ c.removedKey, index.treeType = .bTree ∧ index.tree.Low)
      ⟨.bStarTree, BTree.created 4 12 fun _ => false⟩ IndexCall.twoRebuilds := by
    decide +kernel
  refine hlow.mono fun c hc index hs => ?_
  cases c with
  | rebuild treeType start =>
    have hrebuilds : treeType = .bTree ∧ start = default ∨ treeType = .bStarPlusTree ∧ start = default := by
      simpa [IndexCall.twoRebuilds] using hc
    obtain rfl : start = default := hrebuilds.elim And.right And.right
    exact fun h t _ _ x _ => zeroKey_least rfl x
  | session c =>
    cases c with
    | call c =>
      cases c with
      | remove k =>
        obtain ⟨hclass, hlow⟩ := hs k rfl
        exact TreeCall.sound_of_low hclass _ hlow
      | insert k => exact TreeCall.sound_of_keeps rfl
      | search k => exact TreeCall.sound_of_keeps rfl
    | removeAll k fuel => simp [IndexCall.twoRebuilds] at hc
    | searchAll k keys => trivial
    | reopen => trivial

end BTreesMods
