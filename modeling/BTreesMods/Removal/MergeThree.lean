import BTreesMods.Removal.Merge
import BTreesMods.Tree.WellFormed

/-!
# Three children become two

What the functions `mergeChildren` of three pages do. On inner pages
`BaseBStarTree::mergeChildren` puts the cursors of the right child at a place that it computes from the
number of keys of the right child, not of the middle one.

Main results: `mergeThree_redistributes_iff`, and the function on the children of a node
(`BaseBStarTree.mergeThree_spec`).
-/

namespace BTreesMods

variable {κ : Type}

section

variable {T : Cfg κ} {s : BTree κ} {Q R : Multiset ℕ} {ref : PageRef κ} {h p l m r : ℕ}
  {c d e c' d' : Node κ} {K1 K2 X Y : List κ} {P S : List (Node κ)} {a b y : κ} {cd dd nd : Page κ}

/-! ## The end of a merge -/

/-- The writes of `finishMergeThree`. -/
theorem finishMergeThree_run (hst : Store s ({r} + Q)) (hl : l ∈ Q) (hm : m ∈ Q) (hp : p ∈ Q)
    (ref : PageRef κ) (cd dd nd rd : Page κ) : ∃ s', finishMergeThree ⟨l, cd⟩ ⟨m, dd⟩ ⟨r, rd⟩ ref ⟨p, nd⟩ s =
        .ok ((ref.assign ⟨p, nd⟩, ⟨l, cd⟩, ⟨m, dd⟩), s') ∧
      Store s' Q ∧ Same s s' ∧ s'.rootPage = (s.assign ref ⟨p, nd⟩).rootPage ∧
      s'.stream.page =
        Function.update (Function.update (Function.update s.stream.page l cd) m dd) p nd := by
  have hst1 := hst.assign ref ⟨p, nd⟩
  have hmem : ∀ {z}, z ∈ Q → z ∈ {r} + Q := fun hz => Multiset.mem_add.mpr (Or.inr hz)
  have hst2 := ((hst1.write l cd).write m dd).write p nd
  obtain ⟨s', hfree, hst', hf, hroot, hpage⟩ := markPageFree_run hst2
  refine ⟨s', ?_, hst', ?_, ?_, ?_⟩
  · unfold finishMergeThree
    rw [bind_run (store_run s ref ⟨p, nd⟩), bind_run (writePage_run hst1 (hmem hl) cd),
      bind_run (writePage_run (hst1.write _ _) (hmem hm) dd),
      bind_run (writePage_run ((hst1.write _ _).write _ _) (hmem hp) nd), bind_run hfree]
    rfl
  · exact (same_assign s ref ⟨p, nd⟩).trans ((same_write _ l cd).trans ((same_write _ m dd).trans
      ((same_write _ p nd).trans hf.toSame)))
  · rw [hroot]
    rfl
  · rw [hpage, write_page, write_page, write_page, assign_stream]

theorem Stands.holds_triple
    (hs : Stands s R ref (h + 1) ⟨p, K1 ++ a :: b :: K2, P ++ ([c, d, e] ++ S)⟩) :
    (s.wrapper p).data.Holds false (K1 ++ a :: b :: K2)
        (P.map Node.page ++ c.page :: d.page :: e.page :: S.map Node.page) ∧
      Rep s.stream.page h c ∧ Rep s.stream.page h d ∧ Rep s.stream.page h e := by
  refine ⟨?_, hs.rep.2 c (by simp), hs.rep.2 d (by simp), hs.rep.2 e (by simp)⟩
  have hon := hs.rep.on
  rw [Node.On] at hon
  change (s.stream.page p).Holds _ _ _
  simpa using hon

theorem pages_mergeThree (hc : c'.page = c.page) (hd : d'.page = d.page)
    (hkids : c'.kids ++ d'.kids = c.kids ++ (d.kids ++ e.kids)) :
    (⟨p, K1 ++ a :: b :: K2, P ++ ([c, d, e] ++ S)⟩ : Node κ).pages (h + 1) + R =
      {e.page} + ((⟨p, K1 ++ y :: K2, P ++ ([c', d'] ++ S)⟩ : Node κ).pages (h + 1) + R) := by
  have hflat : [c', d'].flatMap Node.kids = [c, d, e].flatMap Node.kids := by simp [hkids]
  rw [pages_mid, pages_mid, hflat]
  simp only [List.map_cons, List.map_nil, coe_page_cons, hc, hd]
  abel

/-- `finishMergeThree` below a node. -/
theorem finishMergeThree_spec
    (hs : Stands s R ref (h + 1) ⟨p, K1 ++ a :: b :: K2, P ++ ([c, d, e] ++ S)⟩)
    (hc : c'.page = c.page) (hd : d'.page = d.page)
    (hkids : c'.kids ++ d'.kids = c.kids ++ (d.kids ++ e.kids)) (hcd : c'.On h cd) (hdd : d'.On h dd)
    (hnd : (⟨p, K1 ++ y :: K2, P ++ ([c', d'] ++ S)⟩ : Node κ).On (h + 1) nd) :
    Returns (finishMergeThree ⟨c.page, cd⟩ ⟨d.page, dd⟩ (s.wrapper e.page) ref ⟨p, nd⟩) s fun r s1 =>
      ∃ ref1, r = (ref1, s1.wrapper c.page, s1.wrapper d.page) ∧ Frame s s1 R ∧
        Stands s1 R ref1 (h + 1) ⟨p, K1 ++ y :: K2, P ++ ([c', d'] ++ S)⟩ := by
  have hstore := hs.store
  rw [pages_mergeThree (y := y) hc hd hkids] at hstore
  have hcQ : c.page ∈ (⟨p, K1 ++ y :: K2, P ++ ([c', d'] ++ S)⟩ : Node κ).pages (h + 1) + R := by
    rw [← hc]
    exact kid_page_mem (by simp)
  have hdQ : d.page ∈ (⟨p, K1 ++ y :: K2, P ++ ([c', d'] ++ S)⟩ : Node κ).pages (h + 1) + R := by
    rw [← hd]
    exact kid_page_mem (by simp)
  obtain ⟨s1, hrun, hst1, hsame, hroot, hpage⟩ := finishMergeThree_run hstore hcQ hdQ
    (page_mem_add _ _ _) ref cd dd nd (s.wrapper e.page).data
  have hne := hs.toHeld.nodup_mid
  simp only [List.map_cons, List.map_nil, List.nodup_cons, List.mem_cons, List.not_mem_nil, or_false,
    not_or] at hne
  obtain ⟨⟨hpc, hpd, hpe⟩, ⟨hcd', hce⟩, -⟩ := hne
  have hpp : s1.stream.page p = nd := by rw [hpage, Function.update_self]
  have hpgd : s1.stream.page d.page = dd := by
    rw [hpage, Function.update_of_ne (Ne.symm hpd), Function.update_self]
  have hpgc : s1.stream.page c.page = cd := by
    rw [hpage, Function.update_of_ne (Ne.symm hpc), Function.update_of_ne hcd', Function.update_self]
  have hstands := hs.toHeld.reshape hsame hst1
    (fun z _ hzp hzm => by
      simp only [List.map_cons, List.map_nil, List.mem_cons, List.not_mem_nil, or_false, not_or] at hzm
      rw [hpage, Function.update_of_ne hzp, Function.update_of_ne hzm.2.1,
        Function.update_of_ne hzm.1])
    (by rw [hroot, hpp]) (by rwa [hpp])
    (fun z hz => by
      simp only [List.mem_cons, List.not_mem_nil, or_false] at hz
      rcases hz with rfl | rfl
      · rwa [hc, hpgc]
      · rwa [hd, hpgd])
    (by simp [hkids])
  refine ⟨_, s1, hrun, ref.assign ⟨p, nd⟩, ?_, hstands.2, ?_⟩
  · rw [BTree.wrapper, BTree.wrapper, hpgc, hpgd]
  · rw [← hpp]
    exact hstands.1

/-- Two nodes with a key between them hold what three nodes with two keys between them held. -/
theorem tokens_threeToTwo {X Y : List κ} {CX CY : List (Node κ)} {a b y : κ}
    (hc : h ≠ 0 → c.kids.length = c.keys.length + 1) (hd : h ≠ 0 → d.kids.length = d.keys.length + 1)
    (hCX : h ≠ 0 → CX.length = X.length + 1)
    (hG : c.keys ++ a :: (d.keys ++ b :: e.keys) = X ++ y :: Y)
    (hkids : c.kids ++ (d.kids ++ e.kids) = CX ++ CY) :
    (⟨c.page, X, CX⟩ : Node κ).tokens T h ++ T.tokenAt h y :: (⟨d.page, Y, CY⟩ : Node κ).tokens T h =
      c.tokens T h ++ T.tokenAt h a :: (d.tokens T h ++ T.tokenAt h b :: e.tokens T h) := by
  obtain ⟨q, CK, CC⟩ := c
  obtain ⟨r, DK, DC⟩ := d
  obtain ⟨u, EK, EC⟩ := e
  dsimp only at *
  have hnew := tokens_cut (T := T) (h := h) (p := q) (q := q) (r := r) (A := X) (B := Y) (m := y)
    (C := CX) (D := CY) hCX
  have hold := tokens_cut (T := T) (h := h) (p := q) (q := q) (r := r) (A := CK)
    (B := DK ++ b :: EK) (m := a) (C := CC) (D := DC ++ EC) hc
  have hold' := tokens_cut (T := T) (h := h) (p := r) (q := r) (r := u) (A := DK) (B := EK) (m := b)
    (C := DC) (D := EC) hd
  rw [← hnew, ← hold', ← hold, hG, hkids]

/-- `BaseBStarTree::mergeChildren` of three children, the second and the third one with the same
number of keys. -/
theorem BaseBStarTree.mergeThree_spec [Inhabited κ] {X Y : List κ} {a b y : κ}
    (hs : Stands s R ref (h + 1) ⟨p, K1 ++ a :: b :: K2, P ++ ([c, d, e] ++ S)⟩) (hP : P.length = K1.length)
    (hslots : (K1 ++ a :: b :: K2).length ≤ T.slots) (hc : c.keys.length ≤ T.slots)
    (hd : d.keys.length ≤ T.slots) (he : e.keys.length ≤ T.slots) (hde : d.keys.length = e.keys.length)
    (hfit : (c.keys.length + d.keys.length + e.keys.length + 2) * T.recSize < 2 ^ 31)
    (hG : c.keys ++ a :: (d.keys ++ b :: e.keys) = X ++ y :: Y)
    (hY : Y.length = (c.keys.length + d.keys.length + e.keys.length + 2) / 2)
    (hYslots : Y.length ≤ T.slots) :
    Returns (BaseBStarTree.mergeThreeChildren T (s.wrapper c.page) (s.wrapper d.page)
        (s.wrapper e.page) ref K1.length (K1.length + 1)) s fun r s1 => ∃ ref1 CX CY,
      r = (ref1, s1.wrapper c.page, s1.wrapper d.page) ∧ Frame s s1 R ∧
        c.kids ++ (d.kids ++ e.kids) = CX ++ CY ∧ (h ≠ 0 → CX.length = X.length + 1) ∧
        Stands s1 R ref1 (h + 1)
          ⟨p, K1 ++ y :: K2, P ++ ([⟨c.page, X, CX⟩, ⟨d.page, Y, CY⟩] ++ S)⟩ := by
  obtain ⟨hnode, hrc, hrd, hre⟩ := hs.holds_triple
  have hleft : (s.wrapper c.page).data.Holds (h == 0) c.keys (c.kids.map Node.page) := hrc.on
  have hmiddle : (s.wrapper d.page).data.Holds (h == 0) d.keys (d.kids.map Node.page) := hrd.on
  have hright : (s.wrapper e.page).data.Holds (h == 0) e.keys (e.kids.map Node.page) := hre.on
  obtain ⟨CX, CY, hkids, hCX⟩ : ∃ CX CY, c.kids ++ (d.kids ++ e.kids) = CX ++ CY ∧
      (h ≠ 0 → CX.length = X.length + 1) := by
    refine ⟨_, _, (List.take_append_drop (X.length + 1) _).symm, fun hh => ?_⟩
    obtain ⟨g, rfl⟩ := Nat.exists_eq_succ_of_ne_zero hh
    have hGlen := congrArg List.length hG
    have hlc := hrc.length_kids
    have hld := hrd.length_kids
    have hle := hre.length_kids
    simp only [List.length_append, List.length_cons] at hGlen
    simp only [List.length_take, List.length_append]
    omega
  have hcursors : c.kids.map Node.page ++ (d.kids.map Node.page ++ e.kids.map Node.page) =
      CX.map Node.page ++ CY.map Node.page := by
    simpa using congrArg (List.map Node.page) hkids
  obtain ⟨cd, dd, nd, hrun, hcd, hdd, hnd⟩ := mergeThreePages_spec hnode
    (by simpa using hP) (hnode.keysNum_le hslots) hleft
    (hleft.keysNum_le hc) hmiddle (hmiddle.keysNum_le hd) hright
    (hright.keysNum_le he) hG hY hYslots (fun _ => hde)
    (fun hh => by simpa using hCX (by simpa using hh)) hcursors
  have hnd' : (⟨p, K1 ++ y :: K2, P ++ ([⟨c.page, X, CX⟩, ⟨d.page, Y, CY⟩] ++ S)⟩ : Node κ).On (h + 1)
      nd := by
    rw [Node.On]
    simpa using hnd
  have hc' : (⟨c.page, X, CX⟩ : Node κ).page = c.page := rfl
  have hd' : (⟨d.page, Y, CY⟩ : Node κ).page = d.page := rfl
  have hfinish := finishMergeThree_spec hs hc' hd' hkids.symm hcd hdd hnd'
  have hbuffer : ((s.wrapper c.page).data.keysNum + (s.wrapper d.page).data.keysNum +
      (s.wrapper e.page).data.keysNum + 2) * T.recSize < 2 ^ 31 := by
    rwa [hleft.keysNum_eq, hmiddle.keysNum_eq, hright.keysNum_eq]
  unfold BaseBStarTree.mergeThreeChildren
  refine Returns.step (load_run s ref) ?_
  rw [hs.value_eq]
  refine Returns.step (newKeys_run hbuffer s) (Returns.step (onPages_run hrun s) (hfinish.mono ?_))
  rintro r s1 ⟨ref1, hr, hf, hs1⟩
  exact ⟨ref1, CX, CY, hr, hf, hkids, hCX, hs1⟩

/-- `mergeChildren` of three pages whose keys do not fit into a buffer. -/
theorem BaseBStarTree.mergeThreeChildren_throws [Inhabited κ] {left middle right : PageWrapper κ}
    (hbuffer : ¬(left.data.keysNum + middle.data.keysNum + right.data.keysNum + 2) * T.recSize < 2 ^ 31)
    (i j : ℕ) : BaseBStarTree.mergeThreeChildren T left middle right ref i j s =
      .error .badArrayNewLength := by
  unfold BaseBStarTree.mergeThreeChildren
  rw [bind_run (load_run s ref)]
  exact bind_error (newKeys_throws hbuffer s) _

end

/-! ## Three pages of any size -/

/-- The keys and cursors of three siblings and their parent's two keys between them are those of two
siblings and one key. -/
structure Redistributed (leaf : Bool) (K1 K2 LK MK RK : List κ) (C1 C2 LC MC RC : List ℕ) (l m : ℕ)
    (a b : κ) (left middle node : Page κ) : Prop where
  leaf_eq : left.isLeaf = leaf ∧ middle.isLeaf = leaf
  keys : ∃ y, left.keyList ++ y :: middle.keyList = LK ++ a :: (MK ++ b :: RK) ∧
    node.Holds false (K1 ++ y :: K2) (C1 ++ l :: m :: C2)
  cursors : leaf = false → left.cursorList ++ middle.cursorList = LC ++ (MC ++ RC)

/-- A list of keys cut where `mergeChildren` of three pages cuts it. -/
theorem exists_median {G : List κ} {n : ℕ} (hG : G.length = n + 1) :
    ∃ X y Y, G = X ++ y :: Y ∧ Y.length = (n + 1) / 2 := by
  have hlt : G.length - (n + 1) / 2 - 1 < G.length := by omega
  refine ⟨G.take (G.length - (n + 1) / 2 - 1), G[G.length - (n + 1) / 2 - 1],
    G.drop (G.length - (n + 1) / 2 - 1 + 1), by simp, ?_⟩
  rw [List.length_drop]
  omega

section

variable [Inhabited κ] {T : Cfg κ} {s : BTree κ} {Q : Multiset ℕ} {ref : PageRef κ} {p l m r : ℕ}
  {K1 K2 LK MK RK : List κ} {C1 C2 LC MC RC : List ℕ} {a b : κ} {left middle right node : Page κ}
  {leaf : Bool}

/-- The pages that `mergeChildren` of three pages whose keys fit into a buffer writes: they are in order if and
only if the pages are leaves or the middle and the right page have the same number of keys. -/
theorem mergeThree_fits (hT : T.Valid) (hk : T.treeType.isStar = true)
    (hst : Store s ({r} + Q)) (hl : l ∈ Q) (hm : m ∈ Q) (hp : p ∈ Q) (hne : [p, l, m].Nodup)
    (hvalue : ref.value s = ⟨p, node⟩)
    (hnode : node.Holds false (K1 ++ a :: b :: K2) (C1 ++ l :: m :: r :: C2))
    (hC : C1.length = K1.length) (hnslots : node.keysNum ≤ T.slots)
    (hleft : left.Holds leaf LK LC) (hlslots : left.keysNum ≤ T.slots)
    (hmiddle : middle.Holds leaf MK MC) (hmslots : middle.keysNum ≤ T.slots)
    (hright : right.Holds leaf RK RC) (hrslots : right.keysNum ≤ T.slots)
    (hnodup : (LC ++ (MC ++ RC)).Nodup)
    (hsum : LK.length + MK.length + RK.length + 2 ≤ 2 * T.maxKeys + 1)
    (hfit : (LK.length + MK.length + RK.length + 2) * T.recSize < 2 ^ 31) :
    Returns (BaseBStarTree.mergeThreeChildren T ⟨l, left⟩ ⟨m, middle⟩ ⟨r, right⟩ ref K1.length
        (K1.length + 1)) s fun res s' => ∃ left' middle' node',
      res = (ref.assign ⟨p, node'⟩, ⟨l, left'⟩, ⟨m, middle'⟩) ∧
        s'.stream.page l = left' ∧ s'.stream.page m = middle' ∧ s'.stream.page p = node' ∧
        (∀ q, q ≠ l → q ≠ m → q ≠ p → s'.stream.page q = s.stream.page q) ∧ Store s' Q ∧
        (Redistributed leaf K1 K2 LK MK RK C1 C2 LC MC RC l m a b left' middle' node' ↔
          (leaf = true ∨ MK.length = RK.length)) := by
  obtain ⟨n, -, -, -, hmax, -, -, -, -, -, hslots, -⟩ := valid_star hT hk
  obtain ⟨X, y, Y, hG, hY⟩ := exists_median (G := LK ++ a :: (MK ++ b :: RK))
    (n := LK.length + MK.length + RK.length + 1) (by
      simp only [List.length_append, List.length_cons]
      omega)
  have hGlen := congrArg List.length hG
  simp only [List.length_append, List.length_cons] at hGlen
  have hcursors : ∃ CX CY, (leaf = true → CX = [] ∧ CY = []) ∧ (leaf = false →
      CX.length = X.length + 1 ∧ slice (gatheredCursors left middle right) 0
        (LK.length + MK.length + RK.length + 3) = CX ++ CY) := by
    cases leaf with
    | true => exact ⟨[], [], fun _ => ⟨rfl, rfl⟩, fun hh => by cases hh⟩
    | false =>
      set g := slice (gatheredCursors left middle right) 0
        (LK.length + MK.length + RK.length + 3) with hg
      refine ⟨g.take (X.length + 1), g.drop (X.length + 1), fun hh => absurd hh (by decide), fun _ =>
        ⟨?_, (List.take_append_drop (X.length + 1) g).symm⟩⟩
      rw [List.length_take, hg, length_slice]
      omega
  obtain ⟨CX, CY, hleaf, hinner⟩ := hcursors
  obtain ⟨left', middle', node', hrun, hleft', hmiddle', hnode'⟩ := mergeThreePages_run hnode hC
    hnslots hleft hlslots hmiddle hmslots hright hrslots hG (by omega) (by omega) (by omega) hleaf
    hinner
  obtain ⟨s', hfinish, hst', -, -, hpage⟩ := finishMergeThree_run hst hl hm hp ref left' middle' node'
    right
  simp only [List.nodup_cons, List.mem_cons, List.not_mem_nil, or_false, not_or] at hne
  obtain ⟨⟨hpl, hpm⟩, hlm, -⟩ := hne
  have hbuffer : (left.keysNum + middle.keysNum + right.keysNum + 2) * T.recSize < 2 ^ 31 := by
    rwa [hleft.keysNum_eq, hmiddle.keysNum_eq, hright.keysNum_eq]
  unfold BaseBStarTree.mergeThreeChildren
  refine Returns.step (load_run s ref) ?_
  rw [hvalue]
  refine Returns.step (newKeys_run hbuffer s) (Returns.step (onPages_run hrun s)
    ⟨_, s', hfinish, left', middle', node', rfl, ?_, ?_, ?_, ?_, hst', ?_, ?_⟩)
  · rw [hpage, Function.update_of_ne (Ne.symm hpl), Function.update_of_ne hlm, Function.update_self]
  · rw [hpage, Function.update_of_ne (Ne.symm hpm), Function.update_self]
  · rw [hpage, Function.update_self]
  · intro q hql hqm hqp
    rw [hpage, Function.update_of_ne hqp, Function.update_of_ne hqm, Function.update_of_ne hql]
  · -- the cursors are in order only if they were gathered so
    intro hred
    by_contra hnot
    obtain ⟨hinner', hlen⟩ := not_or.mp hnot
    obtain rfl : leaf = false := by simpa using hinner'
    refine gatheredCursors_ne hleft hmiddle hright (List.nodup_append.mp hnodup).2.1 hlen ?_
    rw [(hinner rfl).2, ← hred.cursors rfl]
    congr 1
    · exact hleft'.cursors.symm
    · exact hmiddle'.cursors.symm
  · intro hcond
    refine ⟨⟨hleft'.leaf_eq, hmiddle'.leaf_eq⟩, ⟨y, ?_, hnode'⟩, fun hh => ?_⟩
    · rw [hG, hleft'.keys_eq, hmiddle'.keys_eq]
    · subst hh
      have hlen := hcond.resolve_left Bool.false_ne_true
      rw [← gatheredCursors_eq hleft hmiddle hright hlen, (hinner rfl).2]
      congr 1
      · exact hleft'.cursors
      · exact hmiddle'.cursors

/-- `mergeChildren` of three pages of a B*-tree returns and keeps keys and cursors in order if and only if their
keys fit into a buffer, and the pages are leaves or the middle and the right page have the same number of
keys. -/
theorem mergeThree_redistributes_iff (hT : T.Valid) (hk : T.treeType.isStar = true)
    (hst : Store s ({r} + Q)) (hl : l ∈ Q) (hm : m ∈ Q) (hp : p ∈ Q) (hne : [p, l, m].Nodup)
    (hvalue : ref.value s = ⟨p, node⟩)
    (hnode : node.Holds false (K1 ++ a :: b :: K2) (C1 ++ l :: m :: r :: C2))
    (hC : C1.length = K1.length) (hnslots : node.keysNum ≤ T.slots)
    (hleft : left.Holds leaf LK LC) (hlslots : left.keysNum ≤ T.slots)
    (hmiddle : middle.Holds leaf MK MC) (hmslots : middle.keysNum ≤ T.slots)
    (hright : right.Holds leaf RK RC) (hrslots : right.keysNum ≤ T.slots)
    (hnodup : (LC ++ (MC ++ RC)).Nodup)
    (hsum : LK.length + MK.length + RK.length + 2 ≤ 2 * T.maxKeys + 1) :
    Returns (BaseBStarTree.mergeThreeChildren T ⟨l, left⟩ ⟨m, middle⟩ ⟨r, right⟩ ref K1.length
        (K1.length + 1)) s (fun res s' => ∃ left' middle' node',
      res = (ref.assign ⟨p, node'⟩, ⟨l, left'⟩, ⟨m, middle'⟩) ∧
        s'.stream.page l = left' ∧ s'.stream.page m = middle' ∧ s'.stream.page p = node' ∧
        (∀ q, q ≠ l → q ≠ m → q ≠ p → s'.stream.page q = s.stream.page q) ∧ Store s' Q ∧
        Redistributed leaf K1 K2 LK MK RK C1 C2 LC MC RC l m a b left' middle' node') ↔
      (LK.length + MK.length + RK.length + 2) * T.recSize < 2 ^ 31 ∧
        (leaf = true ∨ MK.length = RK.length) := by
  constructor
  · intro hreturns
    have hfit : (LK.length + MK.length + RK.length + 2) * T.recSize < 2 ^ 31 := by
      by_contra hnot
      have hbuffer : ¬(left.keysNum + middle.keysNum + right.keysNum + 2) * T.recSize < 2 ^ 31 := by
        rwa [hleft.keysNum_eq, hmiddle.keysNum_eq, hright.keysNum_eq]
      exact Returns.not_of_error (BaseBStarTree.mergeThreeChildren_throws hbuffer _ _) hreturns
    obtain ⟨res, s', hrun, left', middle', node', -, rfl, rfl, rfl, -, -, hiff⟩ := mergeThree_fits hT hk hst hl
      hm hp hne hvalue hnode hC hnslots hleft hlslots hmiddle hmslots hright hrslots hnodup hsum hfit
    obtain ⟨_, _, _, -, rfl, rfl, rfl, -, -, hred⟩ := hreturns.of_run hrun
    exact ⟨hfit, hiff.mp hred⟩
  · rintro ⟨hfit, hcond⟩
    refine (mergeThree_fits hT hk hst hl hm hp hne hvalue hnode hC hnslots hleft hlslots hmiddle hmslots hright
      hrslots hnodup hsum hfit).mono fun res s' hpost => ?_
    obtain ⟨left', middle', node', hres, hl', hm', hp', hother, hst', hiff⟩ := hpost
    exact ⟨left', middle', node', hres, hl', hm', hp', hother, hst', hiff.mpr hcond⟩

end

/-! ## Three inner pages of order 4 -/

/-- A parent page 1 with three children of two, `ks.length` and two keys. -/
def BTree.siblings (ks cs : List ℕ) : BTree ℕ := .ofPages 4 14 fun p =>
  if p = 1 then .filled [10, 20] [2, 3, 4] else if p = 2 then .filled [1, 2] [5, 6, 7]
  else if p = 3 then .filled ks cs else .filled [21, 22] [12, 13, 14]

/-- The middle page has one key more than the right one: its last cursor, 11, is lost, and the last place of
the buffer was never written (it is 0 here). -/
theorem mergeThree_loses_cursor :
    2 + 3 + 2 + 2 ≤ 2 * (natCfg .bStarTree 4).maxKeys + 1 ∧
      (BaseBStarTree.mergeThreeChildren (natCfg .bStarTree 4) ⟨2, .filled [1, 2] [5, 6, 7]⟩
        ⟨3, .filled [11, 12, 13] [8, 9, 10, 11]⟩ ⟨4, .filled [21, 22] [12, 13, 14]⟩ .rootPage 0 1
        (BTree.siblings [11, 12, 13] [8, 9, 10, 11])).toOption.map (fun r =>
          (r.1.2.1.data.cursorList, r.1.2.2.data.cursorList)) =
        some ([5, 6, 7, 8, 9], [10, 12, 13, 14, 0]) ∧
      ([5, 6, 7, 8, 9] ++ [10, 12, 13, 14, 0] : List ℕ) ≠ [5, 6, 7] ++ ([8, 9, 10, 11] ++ [12, 13, 14]) := by
  decide +kernel

/-- Three inner pages with two keys each. -/
theorem mergeThree_redistributes_two :
    Returns (BaseBStarTree.mergeThreeChildren (natCfg .bStarTree 4) ⟨2, .filled [1, 2] [5, 6, 7]⟩
        ⟨3, .filled [11, 12] [8, 9, 10]⟩ ⟨4, .filled [21, 22] [12, 13, 14]⟩ .rootPage 0 1)
      (BTree.siblings [11, 12] [8, 9, 10]) fun res s' => ∃ left' middle' node',
        res = (PageRef.assign .rootPage ⟨1, node'⟩, ⟨2, left'⟩, ⟨3, middle'⟩) ∧
          s'.stream.page 2 = left' ∧ s'.stream.page 3 = middle' ∧ s'.stream.page 1 = node' ∧
          (∀ q, q ≠ 2 → q ≠ 3 → q ≠ 1 → s'.stream.page q =
            (BTree.siblings [11, 12] [8, 9, 10]).stream.page q) ∧
          Store s' (List.range' 1 3 ++ List.range' 5 10 : List ℕ) ∧
          Redistributed false [] [] [1, 2] [11, 12] [21, 22] [] [] [5, 6, 7] [8, 9, 10] [12, 13, 14] 2
            3 10 20 left' middle' node' := by
  have hst : Store (BTree.siblings [11, 12] [8, 9, 10])
      ({4} + (List.range' 1 3 ++ List.range' 5 10 : List ℕ)) := ⟨by decide, rfl⟩
  have hslots : ∀ n ≤ 2, n ≤ (natCfg .bStarTree 4).slots := by decide
  have hvalue : PageRef.value (BTree.siblings [11, 12] [8, 9, 10]) .rootPage =
      ⟨1, .filled [10, 20] [2, 3, 4]⟩ := rfl
  have hparent : (Page.filled [10, 20] [2, 3, 4]).Holds false ([] ++ 10 :: 20 :: [])
      ([] ++ 2 :: 3 :: 4 :: []) := ⟨rfl, rfl, rfl⟩
  have hleft : (Page.filled [1, 2] [5, 6, 7]).Holds false [1, 2] [5, 6, 7] := ⟨rfl, rfl, rfl⟩
  have hmiddle : (Page.filled [11, 12] [8, 9, 10]).Holds false [11, 12] [8, 9, 10] :=
    ⟨rfl, rfl, rfl⟩
  have hright : (Page.filled [21, 22] [12, 13, 14]).Holds false [21, 22] [12, 13, 14] :=
    ⟨rfl, rfl, rfl⟩
  have hsum : ([1, 2] : List ℕ).length + ([11, 12] : List ℕ).length + ([21, 22] : List ℕ).length + 2 ≤
      2 * (natCfg .bStarTree 4).maxKeys + 1 := by decide
  have hredistributes := mergeThree_redistributes_iff (T := natCfg .bStarTree 4) ⟨4, 4, rfl⟩ rfl hst
    (by decide) (by decide) (by decide) (by decide) hvalue hparent rfl (hslots 2 (by decide)) hleft
    (hslots 2 (by decide)) hmiddle (hslots 2 (by decide)) hright (hslots 2 (by decide)) (by decide)
    hsum
  exact hredistributes.mpr ⟨by decide, Or.inr rfl⟩

end BTreesMods
