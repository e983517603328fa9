import BTreesMods.Removal.DescendBTree
import BTreesMods.Removal.PrepareStar

/-!
# A descent step of `BaseBStarTree::remove`

`remove` calls `prepareSubtree` for the child where its scan stops, and searches the pages that are
left of the child. The step keeps the sequence of the whole tree. The key stays below one of these
pages, except when the child is the middle one of three minimal children and the key is the one that
the merge moves up (`prepareSubtree_target_iff`).
-/

namespace BTreesMods

variable {κ : Type}

/-- The pages that `remove` searches after `prepareSubtree`, one after the other. -/
def Prepared.searched (r : Prepared κ) : List (PageWrapper κ) :=
  if r.merged then [r.leftNeighbour, r.child] else [r.child]

/-- A step of the page `p` with the subtree `t` for `k`: the whole tree has the same records, one that
is equal to `k` is below the page of `n`, and none is in the page `p`, unless that shrank away and `n`
is the whole tree. -/
structure TargetKept (T : Cfg κ) (k : κ) (h p : ℕ) (Z : List (ℕ × Focus κ)) (t : Node κ) (s1 : BTree κ)
    (Z' : List (ℕ × Focus κ)) (n : Node κ) : Prop where
  stands : ∃ R, Stands s1 R .rootPage (h + Z'.length) (plug Z' n)
  records_eq : (plug Z' n).records T (h + Z'.length) = (plug Z t).records T (h + 1 + Z.length)
  holds : ∃ x ∈ n.records T h, T.isEqual k x = true
  way : (Z = [] ∧ Z' = []) ∨
    ∃ f, Z' = Z ++ [(p, f)] ∧ f.kid = n ∧ ∀ x ∈ (f.node p).keys, T.isEqual k x = false

section

variable {T : Cfg κ} {s s1 : BTree κ} {R : Multiset ℕ} {ref1 : PageRef κ} {h p : ℕ} {k x : κ}
  {Z : List (ℕ × Focus κ)} {f f1 : Focus κ} {c d : Node κ} {K1 K2 : List κ} {P S : List (Node κ)}

/-! ## Where the key is -/

/-- The child where the scan for `k` stops. -/
theorem Focus.splits_of_lowerBound (heq : T.Equates) {pg : Page κ} {C : List ℕ}
    (hon : pg.Holds false (f.node p).keys C) (hslots : (f.node p).keys.length ≤ T.slots)
    (hi : pg.lowerBound T.slots T.compare k pg.keysNum 0 = .ok f.keysL.length)
    (hne : ∀ x ∈ (f.node p).keys, T.isEqual k x = false) : f.Splits T.compare k := by
  obtain ⟨A, B, hAB, hcut, hA⟩ := hon.lowerBound T.compare k
    (hon.keysNum_le hslots)
  rw [hA] at hi
  have hlen : A.length = f.keysL.length := Except.ok.inj hi
  have hkeys : f.keysL ++ f.keysR = A ++ B := hAB
  obtain ⟨rfl, rfl⟩ := List.append_inj hkeys hlen.symm
  refine ⟨fun x hx => hcut.lt_left x (List.mem_of_getLast? hx), fun x hx => ?_⟩
  exact heq.lt_of_ne (hcut.not_lt_head x hx) (hne x (List.mem_append_right _ (List.mem_of_head? hx)))

/-- The keys of a node are not equal to a key that belongs below one of its children. -/
theorem Focus.Splits.ne_of_mem (hlt : StrictWeak T.compare) (heq : T.Equates)
    (hs : Sorted T.compare ((f.node p).tokens T (h + 1))) (hk : f.Splits T.compare k)
    (hlen : f.kidsR.length = f.keysR.length) : ∀ x ∈ (f.node p).keys, T.isEqual k x = false := by
  intro x hx
  rcases List.mem_append.mp hx with hx | hx
  · exact heq.ne_of_lt (hk.lt_of_mem hlt hs x hx)
  · exact heq.ne_of_gt (hk.gt_of_mem hlt hs hlen x hx)

/-- A step below a page that stays. -/
theorem Thinned.targetKept (hlt : StrictWeak T.compare) (heq : T.Equates)
    (hw : WellFormed T s (h + 1 + Z.length) (plug Z (f.node p)))
    (hs : Stands s R .rootPage (h + 1 + Z.length) (plug Z (f.node p)))
    (hf : Frame s s1 (beside (h + 1) Z R))
    (hs1 : Stands s1 (beside (h + 1) Z R) ref1 (h + 1) (f1.node p))
    (hthin : Thinned ((f.node p).tokens T (h + 1)) ((f1.node p).tokens T (h + 1)))
    (hk : f.Splits T.compare k) (hk1 : f1.Splits T.compare k)
    (hstored : ∃ x ∈ f.kid.records T h, T.isEqual k x = true) :
    TargetKept T k h p Z (f.node p) s1 (Z ++ [(p, f1)]) f1.kid := by
  have hsorted : Sorted T.compare ((f.node p).tokens T (h + 1)) := sorted_of_plug hw.sorted
  have hsorted1 := hthin.sorted hsorted
  have hheight : h + (Z ++ [(p, f1)]).length = h + 1 + Z.length := by
    rw [List.length_append, List.length_singleton]
    omega
  obtain ⟨x, hx, hkx⟩ := hstored
  have hfilter := (hk.filter_eq hlt heq hsorted).symm.trans
    ((congrArg (List.filter (T.isEqual k)) hthin.records_eq.symm).trans (hk1.filter_eq hlt heq hsorted1))
  have hmem : x ∈ (f1.kid.records T h).filter (T.isEqual k) := by
    rw [← hfilter]
    exact List.mem_filter.mpr ⟨hx, hkx⟩
  refine ⟨⟨R, ?_⟩, ?_, ⟨x, (List.mem_filter.mp hmem).1, hkx⟩, Or.inr ⟨f1, rfl, rfl, ?_⟩⟩
  · rw [hheight, plug_concat]
    exact hs.refill hf hs1 rfl
  · rw [hheight, plug_concat]
    exact records_plug (h + 1) Z hthin.records_eq
  · exact hk1.ne_of_mem hlt heq hsorted1 (Focus.length_right hs1)

/-! ## Two minimal children of the root page -/

/-- Two children of the root page were joined. -/
theorem RootMerge.targetKept {b : Bool} {cd : Page κ} (hk : T.treeType = .bStarTree)
    (hlt : StrictWeak T.compare) (heq : T.Equates) (hw : WellFormed T s (h + 1) (f.node p))
    (hs : Stands s R .rootPage (h + 1) (f.node p)) (hm : RootMerge T h p f b K1 x K2 P c d S cd)
    (hsplits : f.Splits T.compare k) (hstored : ∃ x ∈ f.kid.records T h, T.isEqual k x = true)
    (hjoined : RootJoined s R h p K1 K2 P (c.join x d) S s1) :
    ∃ Z', TargetKept T k h p [] (f.node p) s1 Z' (c.join x d) := by
  have hsep := tokenAt_bTree (T := T) (by rw [hk]; rfl) h
  have horder := join_orderKept (T := T) hlt hsep hs hm.node_eq hm.length_eq hm.left hm.right
  rcases hjoined with ⟨hnil, hs1⟩ | ⟨-, hf, ref1, hs1⟩
  · -- the root page shrinks away
    obtain ⟨rfl, rfl, rfl, rfl, -⟩ := hm.node_single hs hnil
    have hrecords : (c.join x d).records T h = (f.node p).records T (h + 1) := by
      rw [Node.records, Node.records, ← horder.thinned.records_eq, Focus.tokens_node]
      simp [Focus.merged, tokensBefore, tokensAfter, before, after]
    obtain ⟨z, hz, hkz⟩ := hstored
    refine ⟨[], ⟨R, hs1⟩, hrecords, ⟨z, ?_, hkz⟩, Or.inl ⟨rfl, rfl⟩⟩
    rw [hrecords, Node.records, Focus.tokens_node, recordsOf_append, recordsOf_append]
    exact List.mem_append_right _ (List.mem_append_left _ hz)
  · have hs1' : Stands s1 R ref1 (h + 1) ((Focus.merged K1 K2 P (c.join x d) S hm.length_eq).node p) := hs1
    exact ⟨_, Thinned.targetKept (Z := []) hlt heq hw hs hf hs1' horder.thinned hsplits
      (horder.splits k hw.sorted hsplits) hstored⟩

variable [Inhabited κ]

/-- A step towards a child of the root page when neither it nor a direct neighbour has a key to
spare. -/
theorem BaseBStarTree.prepareSubtree_root (hT : T.Valid) (hk : T.treeType = .bStarTree)
    (hlt : StrictWeak T.compare) (heq : T.Equates) (hw : WellFormed T s (h + 1) (f.node p))
    (hs : Stands s R .rootPage (h + 1) (f.node p)) (hpoor : f.kid.keys.length ≤ T.minKeys)
    (hstuck : Stuck T f) (hsplits : f.Splits T.compare k)
    (hstored : ∃ x ∈ f.kid.records T h, T.isEqual k x = true) :
    Returns (BaseBStarTree.prepareSubtree T f.keysL.length .rootPage) s fun r s1 => ∃ Z' n,
      s1.wrapper n.page ∈ r.searched ∧ TargetKept T k h p [] (f.node p) s1 Z' n := by
  refine (BaseBStarTree.prepareSubtree_joins hT hk hlt hs
    (hw.sized.le_max.trans (capacity_le_slots hT _ .rootPage)) (hw.sized.pos (Nat.succ_ne_zero h))
    hw.sized.below hpoor hstuck).mono ?_
  rintro r s1 ⟨K1, x, K2, P, c, d, S, cd, hm, hr, -, hjoined⟩
  obtain ⟨Z', hkept⟩ := hm.targetKept hk hlt heq hw hs hsplits hstored hjoined
  refine ⟨Z', _, ?_, hkept⟩
  rw [← hr, Prepared.searched]
  split <;> simp

/-! ## The key that moves up -/

/-- The key `k` is the one that the merge of three minimal children moves into their parent. -/
structure Focus.Lifts (T : Cfg κ) (k : κ) (f : Focus κ) : Prop where
  middle : f.Middle T
  median : ∃ y, f.kid.keys[T.medianPlace]? = some y ∧ T.isEqual k y = true

omit [Inhabited κ] in
/-- The key that moves up is that of the middle child in the place of the median. -/
theorem ThreeToTwo.median_eq {ref : PageRef κ} {e : Node κ} {a b y : κ} {A B : List κ} {CX CY : List (Node κ)}
    (hthree : ThreeToTwo T s R h p K1 K2 P S c d e a b s1 ref A y B CX CY) :
    d.keys[T.medianPlace]? = some y := by
  rw [hthree.keys_eq, ← hthree.place]
  simp

/-- A page that is not the root, whose step does not move `k` up. -/
theorem BaseBStarTree.prepareSubtree_inner (hT : T.Valid) (hk : T.treeType = .bStarTree)
    (hlt : StrictWeak T.compare) (heq : T.Equates)
    (hw : WellFormed T s (h + 1 + Z.length) (plug Z (f.node p))) (hZ : Z ≠ [])
    (hrich : T.minKeys < (f.node p).keys.length) (hsplits : f.Splits T.compare k)
    (hstored : ∃ x ∈ f.kid.records T h, T.isEqual k x = true) (hlifts : ¬f.Lifts T k)
    (hfit : f.MergesThree T → T.MergeBufferFits) :
    Returns (BaseBStarTree.prepareSubtree T f.keysL.length (pageAt s p Z)) s fun r s1 => ∃ Z' n,
      s1.wrapper n.page ∈ r.searched ∧ TargetKept T k h p Z (f.node p) s1 Z' n := by
  obtain ⟨R, hs⟩ := hw.stands
  have hpage : Stands s (beside (h + 1) Z R) (pageAt s p Z) (h + 1) (f.node p) := hs.descend
  have hslots : (f.node p).keys.length ≤ T.slots := length_keys_of_plug hT hw.sized
  have hsz : SizedBelow T (h + 1) (f.node p).kids := sizedBelow_of_plug hw.sized.below
  have hsorted : Sorted T.compare ((f.node p).tokens T (h + 1)) := sorted_of_plug hw.sorted
  have hroot : s.rootPageNum ≠ p := Stands.not_root (t := f.node p) hpage hZ
  by_cases hmid : f.Middle T
  · refine (BaseBStarTree.prepareSubtree_middle hT hk hlt (hfit hmid.mergesThree) hpage hroot hslots hsz
      hmid).mono ?_
    rintro _ s1 ⟨K1, a, b, K2, P, c, e, S, ref1, A, y, B, CX, CY, hKL, hKR, hPL, hPR, rfl, hthree⟩
    have hnode := Focus.node_of_middle (p := p) hKL hKR hPL hPR
    have hP : P.length = K1.length := by
      have := f.length_eq
      simpa [hKL, hPL] using this
    have hy : T.isEqual k y = false := by
      by_contra hy
      exact hlifts ⟨hmid, y, hthree.median_eq, by simpa using hy⟩
    obtain ⟨f1, hkid, hready, hthin, hk1⟩ := hthree.readied_middle hlt heq hpage hP
      (bStarTree_sizes hT hk h).2.2.2.2.1 hnode hKL hKR hsorted hsplits hy
    refine ⟨_, f1.kid, ?_, hthin.targetKept hlt heq hw hs hready.frame hready.stands hsplits hk1 hstored⟩
    rcases hkid with hkid | hkid
    · simp [Prepared.searched, hkid]
    · simp [Prepared.searched, hkid]
  · refine (BaseBStarTree.prepareSubtree_spec hT hk hlt hfit hpage hroot hslots hsz hrich hmid).mono ?_
    rintro r s1 ⟨ref1, f1, hr, hready, hkept, -⟩
    refine ⟨_, f1.kid, ?_, hkept.thinned.targetKept hlt heq hw hs hready.frame hready.stands hsplits
      (hkept.splits k hsorted hsplits) hstored⟩
    rw [← hr, Prepared.searched]
    split <;> simp

/-- A page that is not the root, whose step moves a key equal to `k` up. -/
theorem BaseBStarTree.prepareSubtree_lifts (hT : T.Valid) (hk : T.treeType = .bStarTree)
    (hlt : StrictWeak T.compare) (hfit : T.MergeBufferFits)
    (hw : WellFormed T s (h + 1 + Z.length) (plug Z (f.node p)))
    (hZ : Z ≠ []) (hlifts : f.Lifts T k) :
    Returns (BaseBStarTree.prepareSubtree T f.keysL.length (pageAt s p Z)) s fun _ s1 => ∀ Z' n,
      ¬TargetKept T k h p Z (f.node p) s1 Z' n := by
  obtain ⟨R, hs⟩ := hw.stands
  have hpage : Stands s (beside (h + 1) Z R) (pageAt s p Z) (h + 1) (f.node p) := hs.descend
  have hroot : s.rootPageNum ≠ p := Stands.not_root (t := f.node p) hpage hZ
  refine (BaseBStarTree.prepareSubtree_middle hT hk hlt hfit hpage hroot (length_keys_of_plug hT hw.sized)
    (sizedBelow_of_plug hw.sized.below) hlifts.middle).mono ?_
  rintro _ s1 ⟨K1, a, b, K2, P, c, e, S, ref1, A, y, B, CX, CY, -, -, -, -, -, hthree⟩ Z' n hkept
  obtain ⟨z, hz, hkz⟩ := hlifts.median
  obtain rfl : y = z := Option.some.inj (hthree.median_eq.symm.trans hz)
  obtain ⟨hnil, -⟩ | ⟨f1, rfl, rfl, hne⟩ := hkept.way
  · exact hZ hnil
  · obtain ⟨R', hs'⟩ := hkept.stands
    have hheight : h + (Z ++ [(p, f1)]).length = h + 1 + Z.length := by
      rw [List.length_append, List.length_singleton]
      omega
    rw [hheight, plug_concat] at hs'
    have hkeys : (f1.node p).keys = K1 ++ y :: K2 :=
      hs'.descend.rep.on.keys_eq.symm.trans hthree.stands.rep.on.keys_eq
    rw [hne y (by simp [hkeys])] at hkz
    cases hkz

/-- `BaseBStarTree::prepareSubtree`, called by `remove` for `k` on an inner page without a key equal to
`k`: the page `f.node p` of a well-formed tree at the end of the way `Z`, with a record equal to `k`
below the child where the scan stops. The record stays below a page that is searched next, unless the
page is not the root and the step merges three children whose keys do not fit into a buffer, or moves a key
equal to `k` up. -/
theorem BaseBStarTree.prepareSubtree_target_iff (hT : T.Valid) (hk : T.treeType = .bStarTree)
    (hlt : StrictWeak T.compare) (heq : T.Equates)
    (hw : WellFormed T s (h + 1 + Z.length) (plug Z (f.node p)))
    (hrich : Z ≠ [] → T.minKeys + 1 ≤ (f.node p).keys.length)
    (hi : (PageRef.value s (pageAt s p Z)).data.lowerBound T.slots T.compare k
      (PageRef.value s (pageAt s p Z)).data.keysNum 0 = .ok f.keysL.length)
    (hne : ∀ x ∈ (f.node p).keys, T.isEqual k x = false)
    (hstored : ∃ x ∈ f.kid.records T h, T.isEqual k x = true) :
    Returns (BaseBStarTree.prepareSubtree T f.keysL.length (pageAt s p Z)) s (fun r s1 => ∃ Z' n,
      s1.wrapper n.page ∈ r.searched ∧ TargetKept T k h p Z (f.node p) s1 Z' n) ↔
      ¬(Z ≠ [] ∧ (f.MergesThree T ∧ ¬T.MergeBufferFits ∨
        f.Middle T ∧ ∃ y, f.kid.keys[T.medianPlace]? = some y ∧ T.isEqual k y = true)) := by
  obtain ⟨R, hs⟩ := hw.stands
  have hpage : Stands s (beside (h + 1) Z R) (pageAt s p Z) (h + 1) (f.node p) := hs.descend
  have hslots : (f.node p).keys.length ≤ T.slots := length_keys_of_plug hT hw.sized
  have hon : (PageRef.value s (pageAt s p Z)).data.Holds false (f.node p).keys
      ((f.node p).kids.map Node.page) := by
    rw [hpage.value_eq]
    exact hpage.rep.on
  have hsplits := Focus.splits_of_lowerBound heq hon hslots hi hne
  constructor
  · rintro hreturns ⟨hZ, hwrong⟩
    have hfit : f.MergesThree T → T.MergeBufferFits := fun hthree => by
      by_contra hnot
      refine Returns.not_of_error (BaseBStarTree.prepareSubtree_throws hT hk hlt hpage
        (Stands.not_root (t := f.node p) hpage hZ) hslots (sizedBelow_of_plug hw.sized.below) (hrich hZ) hthree
        hnot) hreturns
    obtain ⟨hmid, hmedian⟩ := hwrong.resolve_left fun ⟨hthree, hnot⟩ => hnot (hfit hthree)
    obtain ⟨r, s1, hrun, Z', n, -, hkept⟩ := hreturns
    exact (BaseBStarTree.prepareSubtree_lifts hT hk hlt (hfit hmid.mergesThree) hw hZ
      ⟨hmid, hmedian⟩).of_run hrun Z' n hkept
  · intro hlifts
    by_cases hZ : Z = []
    · subst hZ
      by_cases hnear : T.minKeys < f.kid.keys.length ∨ ¬Stuck T f
      · refine (BaseBStarTree.prepareSubtree_near hT hk hlt hpage hslots hw.sized.below hnear).mono ?_
        rintro r s1 ⟨ref1, f1, hmerged, hchild, -, hready, hkept⟩
        exact ⟨_, f1.kid, by simp [Prepared.searched, hmerged, hchild], hkept.thinned.targetKept (Z := [])
          hlt heq hw hs hready.frame hready.stands hsplits (hkept.splits k hw.sorted hsplits) hstored⟩
      · obtain ⟨hpoor, hstuck⟩ := not_or.mp hnear
        exact BaseBStarTree.prepareSubtree_root hT hk hlt heq hw hs (Nat.not_lt.mp hpoor)
          (not_not.mp hstuck) hsplits hstored
    · exact BaseBStarTree.prepareSubtree_inner hT hk hlt heq hw hZ (hrich hZ) hsplits hstored
        (fun hl => hlifts ⟨hZ, Or.inr ⟨hl.middle, hl.median⟩⟩)
        fun hthree => by_contra fun hnot => hlifts ⟨hZ, Or.inl ⟨hthree, hnot⟩⟩

end

/-! ## A tree of order 4 -/

/-- A root page 1 with the children 2 and 3, above minimal leaves. -/
def BTree.minimalLeaves : BTree ℕ := .ofPages 4 10 fun p =>
  if p = 1 then .filled [12] [2, 3] else if p = 2 then .filled [3, 6, 9] [4, 5, 6, 7]
  else if p = 3 then .filled [15, 18] [8, 9, 10] else if p = 4 then .filled [1, 2] []
  else if p = 5 then .filled [4, 5] [] else if p = 6 then .filled [7, 8] []
  else if p = 7 then .filled [10, 11] [] else if p = 8 then .filled [13, 14] []
  else if p = 9 then .filled [16, 17] [] else .filled [19, 20] []

/-- The left child of the root page of `BTree.minimalLeaves`, seen from its second leaf. -/
def Focus.secondLeaf : Focus ℕ :=
  ⟨[3], [6, 9], [⟨4, [1, 2], []⟩], ⟨5, [4, 5], []⟩, [⟨6, [7, 8], []⟩, ⟨7, [10, 11], []⟩], rfl⟩

/-- The way from the root page of `BTree.minimalLeaves` to its left child. -/
def BTree.toSecondLeaf : List (ℕ × Focus ℕ) :=
  [(1, ⟨[], [12], [], Focus.secondLeaf.node 2, [⟨3, [15, 18], [⟨8, [13, 14], []⟩, ⟨9, [16, 17], []⟩,
    ⟨10, [19, 20], []⟩]⟩], rfl⟩)]

theorem minimalLeaves_wellFormed : WellFormed (natCfg .bStarTree 4) BTree.minimalLeaves 2
    (plug BTree.toSecondLeaf (Focus.secondLeaf.node 2)) :=
  ofPages_wellFormed rfl rfl (by decide +kernel) (by decide +kernel) (by decide +kernel)
    (by decide +kernel) (by
      unfold Sorted
      decide +kernel)

theorem secondLeaf_middle : Focus.secondLeaf.Middle (natCfg .bStarTree 4) :=
  ⟨by decide, ⟨by decide, by decide⟩, by decide, by decide⟩

/-- The step of page 2 for 4 moves that key from leaf 5 into page 2. -/
theorem prepareSubtree_lifts_four :
    WellFormed (natCfg .bStarTree 4) BTree.minimalLeaves 2
      (plug BTree.toSecondLeaf (Focus.secondLeaf.node 2)) ∧
      (BTree.minimalLeaves.wrapper 2).data.lowerBound (natCfg .bStarTree 4).slots
        (natCfg .bStarTree 4).compare 4 (BTree.minimalLeaves.wrapper 2).data.keysNum 0 = .ok 1 ∧
      4 ∈ Focus.secondLeaf.kid.records (natCfg .bStarTree 4) 0 ∧
      Returns (BaseBStarTree.prepareSubtree (natCfg .bStarTree 4) 1 (.local (BTree.minimalLeaves.wrapper 2)))
        BTree.minimalLeaves fun _ s1 => ∀ Z' n, ¬TargetKept (natCfg .bStarTree 4) 4 0 2 BTree.toSecondLeaf
          (Focus.secondLeaf.node 2) s1 Z' n := by
  refine ⟨minimalLeaves_wellFormed, by decide, by decide, ?_⟩
  exact BaseBStarTree.prepareSubtree_lifts (h := 0) (Z := BTree.toSecondLeaf) (f := Focus.secondLeaf)
    ⟨4, 4, rfl⟩ rfl (natCfg_strictWeak _ _) (by decide) minimalLeaves_wellFormed (by simp [BTree.toSecondLeaf])
    ⟨secondLeaf_middle, 4, by decide, by decide⟩

/-- The step of page 2 for 5, which stays in a leaf. -/
theorem prepareSubtree_target_five :
    Returns (BaseBStarTree.prepareSubtree (natCfg .bStarTree 4) 1 (.local (BTree.minimalLeaves.wrapper 2)))
      BTree.minimalLeaves fun r s1 => ∃ Z' n, s1.wrapper n.page ∈ r.searched ∧
        TargetKept (natCfg .bStarTree 4) 5 0 2 BTree.toSecondLeaf (Focus.secondLeaf.node 2) s1 Z' n := by
  have h := BaseBStarTree.prepareSubtree_target_iff (T := natCfg .bStarTree 4) (h := 0)
    (Z := BTree.toSecondLeaf) (f := Focus.secondLeaf) (k := 5) ⟨4, 4, rfl⟩ rfl (natCfg_strictWeak _ _)
    (natCfg_equates _ _) minimalLeaves_wellFormed (by decide) (by decide) (by decide)
    ⟨5, by decide, by decide⟩
  refine h.mpr fun ⟨_, hwrong⟩ => ?_
  rcases hwrong with ⟨-, hnot⟩ | ⟨-, y, hy, h5⟩
  · exact hnot (by decide)
  · obtain rfl : 4 = y := Option.some.inj hy
    exact absurd h5 (by decide)

end BTreesMods
