import BTreesMods.Tree.Pair

/-!
# Rotations

What `moveOneKeyFromLeft` and `moveOneKeyFromRight` do to a tree: a key of one child goes up to the
node, the key of the node goes down to the other child, and the child at the end between them changes
sides. The in-order sequence stays as it is when the keys of the node are records.
-/

namespace BTreesMods

variable {κ : Type}

section

variable {T : Cfg κ} {s : BTree κ} {R : Multiset ℕ} {ref : PageRef κ} {h p : ℕ} {c d : Node κ}
  {K1 K2 LK RK : List κ} {P S LC RC X : List (Node κ)} {x y : κ}

/-! ## The in-order sequence -/

theorem tokens_rotateLeft (hLC : h ≠ 0 → LC.length = LK.length + 1) (hX : h ≠ 0 → X.length = 1) :
    (⟨c.page, LK, LC⟩ : Node κ).tokens T h ++ T.tokenAt h y ::
        (⟨d.page, x :: d.keys, X ++ d.kids⟩ : Node κ).tokens T h =
      (⟨c.page, LK ++ [y], LC ++ X⟩ : Node κ).tokens T h ++ T.tokenAt h x :: d.tokens T h := by
  obtain ⟨q, DK, DC⟩ := d
  have hleft := tokens_cut (T := T) (h := h) (p := c.page) (q := c.page) (r := c.page) (A := LK)
    (B := []) (m := y) (C := LC) (D := X) hLC
  have hright := tokens_cut (T := T) (h := h) (p := q) (q := c.page) (r := q) (A := [])
    (B := DK) (m := x) (C := X) (D := DC) fun hh => hX hh
  rw [List.nil_append] at hright
  rw [hleft, hright, List.append_assoc, List.cons_append]

theorem tokens_rotateRight (hc : h ≠ 0 → c.kids.length = c.keys.length + 1)
    (hX : h ≠ 0 → X.length = 1) :
    (⟨c.page, c.keys ++ [x], c.kids ++ X⟩ : Node κ).tokens T h ++ T.tokenAt h y ::
        (⟨d.page, RK, RC⟩ : Node κ).tokens T h =
      c.tokens T h ++ T.tokenAt h x :: (⟨d.page, y :: RK, X ++ RC⟩ : Node κ).tokens T h := by
  obtain ⟨q, CK, CC⟩ := c
  have hleft := tokens_cut (T := T) (h := h) (p := q) (q := q) (r := q) (A := CK)
    (B := []) (m := x) (C := CC) (D := X) hc
  have hright := tokens_cut (T := T) (h := h) (p := d.page) (q := q) (r := d.page) (A := [])
    (B := RK) (m := y) (C := X) (D := RC) fun hh => hX hh
  rw [List.nil_append] at hright
  rw [hleft, hright, List.append_assoc, List.cons_append]

/-! ## The two functions -/

/-- The children of a node behind all but its last key, and the last child. -/
theorem Rep.cut_last {page : ℕ → Page κ} (hr : Rep page h c) (hc : c.keys = LK ++ [y]) :
    ∃ LC X, c.kids = LC ++ X ∧ (h ≠ 0 → LC.length = LK.length + 1) ∧ (h ≠ 0 → X.length = 1) := by
  obtain ⟨LC, X, hkids, hLC⟩ := hr.cut hc
  refine ⟨LC, X, hkids, hLC, fun hh => ?_⟩
  obtain ⟨g, rfl⟩ := Nat.exists_eq_succ_of_ne_zero hh
  have hlen := hr.length_kids
  rw [hc, hkids, List.length_append, List.length_append, hLC hh, List.length_singleton] at hlen
  omega

/-- The first child of a node and the others. -/
theorem Rep.cut_first {page : ℕ → Page κ} (hr : Rep page h c) (hc : c.keys = y :: RK) :
    ∃ X RC, c.kids = X ++ RC ∧ (h ≠ 0 → X.length = 1) ∧ (h ≠ 0 → RC.length = RK.length + 1) := by
  obtain ⟨X, RC, hkids, hX⟩ := hr.cut (A := []) hc
  refine ⟨X, RC, hkids, hX, fun hh => ?_⟩
  obtain ⟨g, rfl⟩ := Nat.exists_eq_succ_of_ne_zero hh
  have hlen := hr.length_kids
  rw [hc, hkids, List.length_append, hX hh, List.length_cons, List.length_nil] at hlen
  omega

/-- `moveOneKeyFromLeft` between two children. -/
theorem moveOneKeyFromLeft_spec
    (hs : Stands s R ref (h + 1) ⟨p, K1 ++ x :: K2, P ++ ([c, d] ++ S)⟩)
    (hslots : (K1 ++ x :: K2).length ≤ T.slots) (hc : c.keys = LK ++ [y])
    (hcslots : c.keys.length ≤ T.slots) (hdslots : d.keys.length + 1 ≤ T.slots) :
    Returns (moveOneKeyFromLeft T (s.wrapper c.page) (s.wrapper d.page) ref (K1.length + 1)) s
      fun r s1 => ∃ ref1 LC X, r = (s1.wrapper c.page, s1.wrapper d.page, ref1) ∧
        c.kids = LC ++ X ∧ (h ≠ 0 → LC.length = LK.length + 1) ∧ (h ≠ 0 → X.length = 1) ∧
        PairWritten s R h p K1 K2 P S ⟨c.page, LK, LC⟩ ⟨d.page, x :: d.keys, X ++ d.kids⟩ y s1
          ref1 ∧ ∀ q, q ≠ p → q ≠ c.page → q ≠ d.page → s1.stream.page q = s.stream.page q := by
  obtain ⟨hnode, hrc, hrd⟩ := hs.holds_pair
  obtain ⟨LC, X, hkids, hLC, hX⟩ := hrc.cut_last hc
  have hleft : (s.wrapper c.page).data.Holds (h == 0) (LK ++ [y])
      (LC.map Node.page ++ X.map Node.page) := by
    have := hrc.on
    rwa [Node.On, hc, hkids, List.map_append] at this
  have hright : (s.wrapper d.page).data.Holds (h == 0) d.keys (d.kids.map Node.page) := hrd.on
  obtain ⟨cd, dd, nd, hrun, hcd, hdd, hnd⟩ := moveLeftPages_spec hnode
    (hnode.keysNum_le hslots) hleft (hleft.keysNum_le (hc ▸ hcslots))
    hright (by rw [hright.keysNum_eq]; exact hdslots) (fun hh => by simpa using hX (by simpa using hh))
  have hpair : PairStep h p K1 K2 P S c d nd cd dd ⟨c.page, LK, LC⟩
      ⟨d.page, x :: d.keys, X ++ d.kids⟩ y := by
    refine ⟨?_, hcd, ?_, rfl, rfl, by simp [hkids]⟩
    · rw [Node.On]
      simpa using hnd
    · rw [Node.On, List.map_append]
      exact hdd
  have hcQ : c.page ∈ (⟨p, K1 ++ x :: K2, P ++ ([c, d] ++ S)⟩ : Node κ).pages (h + 1) + R :=
    kid_page_mem (by simp)
  have hdQ : d.page ∈ (⟨p, K1 ++ x :: K2, P ++ ([c, d] ++ S)⟩ : Node κ).pages (h + 1) + R :=
    kid_page_mem (by simp)
  have hst1 := hs.store.assign ref ⟨p, nd⟩
  obtain ⟨hwritten, hwc, hwd⟩ := hpair.commit hs.toHeld (List.Perm.swap (c.page, cd) (d.page, dd) [])
  unfold moveOneKeyFromLeft
  refine Returns.step (load_run s ref) ?_
  rw [hs.value_eq]
  refine Returns.step (onPages_run hrun s) (Returns.step (store_run s ref ⟨p, nd⟩)
    (Returns.step (writePage_run hst1 hdQ dd) (Returns.step (writePage_run (hst1.write _ _) hcQ cd)
      (Returns.step (writePage_run ((hst1.write _ _).write _ _) (page_mem_add _ _ _) nd)
        (Returns.pure ?_)))))
  refine ⟨_, LC, X, ?_, hkids, hLC, hX, hwritten, fun q hp hc hd =>
    commit_page_other (List.Perm.swap (c.page, cd) (d.page, dd) []) hp hc hd⟩
  exact Prod.ext hwc.symm (Prod.ext hwd.symm rfl)

/-- `moveOneKeyFromRight` between two children. -/
theorem moveOneKeyFromRight_spec
    (hs : Stands s R ref (h + 1) ⟨p, K1 ++ x :: K2, P ++ ([c, d] ++ S)⟩)
    (hslots : (K1 ++ x :: K2).length ≤ T.slots) (hd : d.keys = y :: RK)
    (hdslots : d.keys.length ≤ T.slots) (hcslots : c.keys.length + 1 ≤ T.slots) :
    Returns (moveOneKeyFromRight T (s.wrapper d.page) (s.wrapper c.page) ref K1.length) s
      fun r s1 => ∃ ref1 X RC, r = (s1.wrapper d.page, s1.wrapper c.page, ref1) ∧
        d.kids = X ++ RC ∧ (h ≠ 0 → X.length = 1) ∧ (h ≠ 0 → RC.length = RK.length + 1) ∧
        PairWritten s R h p K1 K2 P S ⟨c.page, c.keys ++ [x], c.kids ++ X⟩ ⟨d.page, RK, RC⟩ y s1
          ref1 ∧ ∀ q, q ≠ p → q ≠ c.page → q ≠ d.page → s1.stream.page q = s.stream.page q := by
  obtain ⟨hnode, hrc, hrd⟩ := hs.holds_pair
  obtain ⟨X, RC, hkids, hX, hRC⟩ := hrd.cut_first hd
  have hright : (s.wrapper d.page).data.Holds (h == 0) (y :: RK)
      (X.map Node.page ++ RC.map Node.page) := by
    have := hrd.on
    rwa [Node.On, hd, hkids, List.map_append] at this
  have hleft : (s.wrapper c.page).data.Holds (h == 0) c.keys (c.kids.map Node.page) := hrc.on
  obtain ⟨dd, cd, nd, hrun, hdd, hcd, hnd⟩ := moveRightPages_spec hnode
    (hnode.keysNum_le hslots) hright (hright.keysNum_le (hd ▸ hdslots))
    hleft (by rw [hleft.keysNum_eq]; exact hcslots) (fun hh => by simpa using hX (by simpa using hh))
  have hpair : PairStep h p K1 K2 P S c d nd cd dd ⟨c.page, c.keys ++ [x], c.kids ++ X⟩
      ⟨d.page, RK, RC⟩ y := by
    refine ⟨?_, ?_, hdd, rfl, rfl, by simp [hkids]⟩
    · rw [Node.On]
      simpa using hnd
    · rw [Node.On, List.map_append]
      exact hcd
  have hcQ : c.page ∈ (⟨p, K1 ++ x :: K2, P ++ ([c, d] ++ S)⟩ : Node κ).pages (h + 1) + R :=
    kid_page_mem (by simp)
  have hdQ : d.page ∈ (⟨p, K1 ++ x :: K2, P ++ ([c, d] ++ S)⟩ : Node κ).pages (h + 1) + R :=
    kid_page_mem (by simp)
  have hst1 := hs.store.assign ref ⟨p, nd⟩
  obtain ⟨hwritten, hwc, hwd⟩ := hpair.commit hs.toHeld (List.Perm.refl _)
  unfold moveOneKeyFromRight
  refine Returns.step (load_run s ref) ?_
  rw [hs.value_eq]
  refine Returns.step (onPages_run hrun s) (Returns.step (store_run s ref ⟨p, nd⟩)
    (Returns.step (writePage_run hst1 hcQ cd) (Returns.step (writePage_run (hst1.write _ _) hdQ dd)
      (Returns.step (writePage_run ((hst1.write _ _).write _ _) (page_mem_add _ _ _) nd)
        (Returns.pure ?_)))))
  refine ⟨_, X, RC, ?_, hkids, hX, hRC, hwritten, fun q hp hc hd =>
    commit_page_other (List.Perm.refl _) hp hc hd⟩
  exact Prod.ext hwd.symm (Prod.ext hwc.symm rfl)

end

end BTreesMods
