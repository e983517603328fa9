import BTreesMods.Insertion.Descend
import BTreesMods.Tree.Pair

/-!
# Sharing keys with a sibling

What the functions `shareKeysWithLeftChildAndInsert` and `shareKeysWithRightChildAndInsert` of the
B*-tree and the B*+-tree do: they refuse when the sibling would get full and `k` would go there, and
otherwise even out the two children and insert into one of them.
-/

namespace BTreesMods

variable {κ : Type}

section

variable {T : Cfg κ} {s s1 : BTree κ} {R : Multiset ℕ} {ref : PageRef κ} {h p : ℕ}
  {c d c' d' : Node κ} {K1 K2 : List κ} {P S : List (Node κ)} {x y k : κ} {nd cd dd : Page κ}

/-! ## Two children that are written -/

theorem PairStep.write (hs : Held s R ref (h + 1) ⟨p, K1 ++ x :: K2, P ++ ([c, d] ++ S)⟩)
    (hpair : PairStep h p K1 K2 P S c d nd cd dd c' d' y) :
    Returns (writeShared ref ⟨p, nd⟩ ⟨c.page, cd⟩ ⟨d.page, dd⟩) s fun ref1 s1 =>
      PairWritten s R h p K1 K2 P S c' d' y s1 ref1 ∧ s1.wrapper c.page = ⟨c.page, cd⟩ ∧
      s1.wrapper d.page = ⟨d.page, dd⟩ := by
  have hcQ : c.page ∈ (⟨p, K1 ++ x :: K2, P ++ ([c, d] ++ S)⟩ : Node κ).pages (h + 1) + R :=
    kid_page_mem (by simp)
  have hdQ : d.page ∈ (⟨p, K1 ++ x :: K2, P ++ ([c, d] ++ S)⟩ : Node κ).pages (h + 1) + R :=
    kid_page_mem (by simp)
  have hst1 := hs.store.assign ref ⟨p, nd⟩
  refine Returns.step (store_run s ref ⟨p, nd⟩) (Returns.step (writePage_run hst1 hcQ cd)
    (Returns.step (writePage_run (hst1.write _ _) hdQ dd) (Returns.step (writePage_run
      ((hst1.write _ _).write _ _) (page_mem_add _ _ _) nd) (Returns.pure ?_))))
  exact hpair.commit hs (List.Perm.refl _)

/-! ## `setRouterKey` -/

/-- `setRouterKey` copies the last key of the child in front of a router. -/
theorem setRouterKey_spec {A : List κ} (hs : Stands s R ref (h + 1) ⟨p, K1 ++ x :: K2, P ++ c :: S⟩)
    (hP : P.length = K1.length) (hslots : (K1 ++ x :: K2).length ≤ T.slots)
    (hc : c.keys = A ++ [y]) (hcslots : c.keys.length ≤ T.slots) :
    Returns (setRouterKey T ref K1.length) s fun ref1 s1 => Frame s s1 R ∧
      Stands s1 R ref1 (h + 1) ⟨p, K1 ++ y :: K2, P ++ c :: S⟩ ∧
      ∀ z, z ≠ p → s1.wrapper z = s.wrapper z := by
  have hon : (s.wrapper p).data.Holds false (K1 ++ x :: K2) ((P ++ c :: S).map Node.page) := hs.rep.on
  have hleaf : (s.wrapper p).data.isLeaf = false := hon.leaf_eq
  have hkn : (s.wrapper p).data.keysNum = (K1 ++ x :: K2).length := hon.keysNum_eq
  have hcQ : c.page ∈ (⟨p, K1 ++ x :: K2, P ++ c :: S⟩ : Node κ).pages (h + 1) + R :=
    kid_page_mem (by simp)
  have hread := readPageFromChild_run (T := T) (w := s.wrapper p) (P := P) (c := c) (S := S)
    hs.store hcQ hs.rep.on rfl hslots
  rw [hP] at hread
  have honc : (s.wrapper c.page).data.Holds (h == 0) (A ++ [y]) (c.kids.map Node.page) := by
    have := hs.kid.rep.on
    rwa [Node.On, hc] at this
  have hknc : (s.wrapper c.page).data.keysNum = A.length + 1 := by
    rw [honc.keysNum_eq, List.length_append, List.length_singleton]
  have hrouter : (s.wrapper c.page).data.getKey T.slots ((s.wrapper c.page).data.keysNum - 1) =
      .ok y := by
    rw [hknc, Nat.add_sub_cancel]
    refine honc.getKey ?_
    rw [honc.keysNum_eq, ← hc]
    exact hcslots
  have hns : (s.wrapper p).data.keysNum ≤ T.slots := by
    rw [hkn]
    exact hslots
  obtain ⟨d, hcopy, hd⟩ := hon.copyKey hns y
  obtain ⟨hstands, hframe⟩ := hs.toHeld.writeTop
    (show (⟨p, K1 ++ y :: K2, P ++ c :: S⟩ : Node κ).On (h + 1) d from hd)
  unfold setRouterKey
  refine Returns.step (load_run s ref) ?_
  rw [hs.value_eq, if_neg (by rw [hkn]; simp), if_neg (by simp [hleaf])]
  refine Returns.step hread ?_
  rw [if_neg (by rw [hknc]; omega)]
  refine Returns.step (onPages_run hrouter s) (Returns.step (onPages_run hcopy s)
    (Returns.step (store_run s ref ⟨p, d⟩) (Returns.step (writePage_run (hs.store.assign ref ⟨p, d⟩)
      (page_mem_add _ _ _) d) (Returns.pure ⟨hframe, hstands, fun z hz => ?_⟩))))
  rw [BTree.wrapper, write_page, Function.update_of_ne hz, assign_stream]
  rfl

/-! ## The bytes of a sharing step -/

variable {X Y : List κ}

theorem shareLeft_pairStep
    (hs : Stands s R ref (h + 1) ⟨p, K1 ++ x :: K2, P ++ ([c, d] ++ S)⟩)
    (hslots : (K1 ++ x :: K2).length ≤ T.slots) (hdslots : d.keys.length ≤ T.slots)
    (hd : d.keys = X ++ y :: Y) (hnslots : c.keys.length + 1 + X.length ≤ T.slots)
    (hsmall : X.length + 1 < 2 ^ 16) :
    ∃ nd cd dd c' d', shareLeftPages T.slots (s.wrapper p).data (s.wrapper d.page).data
        (s.wrapper c.page).data (K1.length + 1) (c.keys.length + 1 + X.length) (X.length + 1)
        Y.length = .ok (nd, dd, cd) ∧
      PairStep h p K1 K2 P S c d nd cd dd c' d' y ∧ c'.keys = c.keys ++ x :: X ∧ d'.keys = Y ∧
      (T.tokenAt h = T.sep → c.tokens T h ++ T.sep x :: d.tokens T h =
        c'.tokens T h ++ T.sep y :: d'.tokens T h) := by
  obtain ⟨hnode, hrc, hrd⟩ := hs.holds_pair
  obtain ⟨DX, DY, hkids, hDX⟩ := hrd.cut hd
  have hchild : (s.wrapper d.page).data.Holds (h == 0) (X ++ y :: Y)
      (DX.map Node.page ++ DY.map Node.page) := by
    have := hrd.on
    rwa [Node.On, hd, hkids, List.map_append] at this
  have hns : (s.wrapper p).data.keysNum ≤ T.slots := by
    rw [hnode.keysNum_eq]
    exact hslots
  have hds : (s.wrapper d.page).data.keysNum ≤ T.slots := by
    rw [hchild.keysNum_eq, ← hd]
    exact hdslots
  obtain ⟨nd, dd, cd, hrun, hnd, hdd, hcd⟩ := shareLeftPages_spec hnode hns hrc.on hchild hds
    (fun hh => by simpa using hDX (by simpa using hh)) rfl hnslots rfl rfl hsmall
  refine ⟨nd, cd, dd, ⟨c.page, c.keys ++ x :: X, c.kids ++ DX⟩, ⟨d.page, Y, DY⟩, hrun,
    ⟨?_, ?_, hdd, rfl, rfl, by simp [hkids]⟩, rfl, rfl, fun hsep => ?_⟩
  · rw [Node.On]
    simpa using hnd
  · rw [Node.On, List.map_append]
    exact hcd
  · have hc := tokens_cut (T := T) (h := h) (p := c.page) (q := c.page) (r := d.page)
      (A := c.keys) (B := X) (m := x) (C := c.kids) (D := DX) hrc.length_kids_of_pos
    have hdt := tokens_cut (T := T) (h := h) (p := d.page) (q := d.page) (r := d.page) (A := X)
      (B := Y) (m := y) (C := DX) (D := DY) hDX
    rw [← node_eq d hd hkids] at hdt
    rw [← node_eq c rfl rfl] at hc
    rw [hc, hdt, hsep]
    simp

theorem shareRight_pairStep
    (hs : Stands s R ref (h + 1) ⟨p, K1 ++ x :: K2, P ++ ([c, d] ++ S)⟩)
    (hslots : (K1 ++ x :: K2).length ≤ T.slots) (hcslots : c.keys.length ≤ T.slots)
    (hc : c.keys = Y ++ y :: X) (hnslots : X.length + 1 + d.keys.length ≤ T.slots)
    (hsmall : X.length + 1 < 2 ^ 16) :
    ∃ nd cd dd c' d', shareRightPages T.slots (s.wrapper p).data (s.wrapper c.page).data
        (s.wrapper d.page).data K1.length (X.length + 1 + d.keys.length) (X.length + 1)
        Y.length = .ok (nd, cd, dd) ∧
      PairStep h p K1 K2 P S c d nd cd dd c' d' y ∧ c'.keys = Y ∧ d'.keys = X ++ x :: d.keys ∧
      (T.tokenAt h = T.sep → c.tokens T h ++ T.sep x :: d.tokens T h =
        c'.tokens T h ++ T.sep y :: d'.tokens T h) := by
  obtain ⟨hnode, hrc, hrd⟩ := hs.holds_pair
  obtain ⟨CY, CX, hkids, hCY⟩ := hrc.cut hc
  have hchild : (s.wrapper c.page).data.Holds (h == 0) (Y ++ y :: X)
      (CY.map Node.page ++ CX.map Node.page) := by
    have := hrc.on
    rwa [Node.On, hc, hkids, List.map_append] at this
  have hns : (s.wrapper p).data.keysNum ≤ T.slots := by
    rw [hnode.keysNum_eq]
    exact hslots
  have hcs : (s.wrapper c.page).data.keysNum ≤ T.slots := by
    rw [hchild.keysNum_eq, ← hc]
    exact hcslots
  obtain ⟨nd, cd, dd, hrun, hnd, hcd, hdd⟩ := shareRightPages_spec hnode hns hrd.on hchild hcs
    (fun hh => by simpa using hCY (by simpa using hh)) rfl hnslots rfl rfl hsmall
  refine ⟨nd, cd, dd, ⟨c.page, Y, CY⟩, ⟨d.page, X ++ x :: d.keys, CX ++ d.kids⟩, hrun,
    ⟨?_, hcd, ?_, rfl, rfl, by simp [hkids]⟩, rfl, rfl, fun hsep => ?_⟩
  · rw [Node.On]
    simpa using hnd
  · rw [Node.On, List.map_append]
    exact hdd
  · have hXlen : h ≠ 0 → CX.length = X.length + 1 := fun hh => by
      obtain ⟨g, rfl⟩ := Nat.exists_eq_succ_of_ne_zero hh
      have h1 := hrc.length_kids
      have h2 := hCY hh
      rw [hc, hkids, List.length_append, List.length_append, List.length_cons] at h1
      omega
    have hct := tokens_cut (T := T) (h := h) (p := c.page) (q := c.page) (r := c.page) (A := Y)
      (B := X) (m := y) (C := CY) (D := CX) hCY
    have hdt := tokens_cut (T := T) (h := h) (p := d.page) (q := c.page) (r := d.page) (A := X)
      (B := d.keys) (m := x) (C := CX) (D := d.kids) hXlen
    rw [← node_eq c hc hkids] at hct
    rw [← node_eq d rfl rfl] at hdt
    rw [hct, hdt, hsep]
    simp

/-- Sharing between leaves of a tree with routers, before the router is set. -/
theorem shareLeftLeaves_pairStep
    (hs : Stands s R ref 1 ⟨p, K1 ++ x :: K2, P ++ ([c, d] ++ S)⟩)
    (hdslots : d.keys.length ≤ T.slots) (hd : d.keys = X ++ Y)
    (hnslots : c.keys.length + X.length ≤ T.slots) :
    ∃ cd dd, shareLeftLeaves T.slots (s.wrapper d.page).data (s.wrapper c.page).data
        (c.keys.length + X.length) X.length Y.length = .ok (dd, cd) ∧
      PairStep 0 p K1 K2 P S c d (s.wrapper p).data cd dd ⟨c.page, c.keys ++ X, []⟩ ⟨d.page, Y, []⟩
        x := by
  obtain ⟨hnode, hrc, hrd⟩ := hs.holds_pair
  have hchild : (s.wrapper d.page).data.Holds true (X ++ Y) (d.kids.map Node.page) := by
    have := hrd.on
    rwa [Node.On, hd] at this
  obtain ⟨dd, cd, hrun, hdd, hcd⟩ := shareLeftLeaves_spec hrc.on hchild
    (hchild.keysNum_le (hd ▸ hdslots)) rfl hnslots rfl rfl
  have hck : c.kids = [] := hrc.below
  have hdk : d.kids = [] := hrd.below
  refine ⟨cd, dd, hrun, ?_, hcd, hdd, rfl, rfl, by simp [hck, hdk]⟩
  rw [Node.On]
  simpa using hnode

theorem shareRightLeaves_pairStep
    (hs : Stands s R ref 1 ⟨p, K1 ++ x :: K2, P ++ ([c, d] ++ S)⟩)
    (hcslots : c.keys.length ≤ T.slots) (hc : c.keys = Y ++ X)
    (hnslots : X.length + d.keys.length ≤ T.slots) :
    ∃ cd dd, shareRightLeaves T.slots (s.wrapper c.page).data (s.wrapper d.page).data
        (X.length + d.keys.length) X.length Y.length = .ok (cd, dd) ∧
      PairStep 0 p K1 K2 P S c d (s.wrapper p).data cd dd ⟨c.page, Y, []⟩ ⟨d.page, X ++ d.keys, []⟩
        x := by
  obtain ⟨hnode, hrc, hrd⟩ := hs.holds_pair
  have hchild : (s.wrapper c.page).data.Holds true (Y ++ X) (c.kids.map Node.page) := by
    have := hrc.on
    rwa [Node.On, hc] at this
  obtain ⟨cd, dd, hrun, hcd, hdd⟩ := shareRightLeaves_spec hrd.on hchild
    (hchild.keysNum_le (hc ▸ hcslots)) rfl hnslots rfl rfl
  have hck : c.kids = [] := hrc.below
  have hdk : d.kids = [] := hrd.below
  refine ⟨cd, dd, hrun, ?_, hcd, hdd, rfl, rfl, by simp [hck, hdk]⟩
  rw [Node.On]
  simpa using hnode

end

end BTreesMods
