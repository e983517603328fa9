import BTreesMods.Removal.DescendStar
import BTreesMods.Removal.Extreme

/-!
# Removal of a key of an inner page

What `BaseBStarTree::removeByKeyNum` (`btree.hpp`, lines 1638–1703) does on an inner page. It puts the
greatest key below the left child or the first key of the last leaf below the right child in the place
of the key. When both children are minimal it merges them, and goes on with a computed place (in the
root page) or with the key that it finds in the old slot of the page (in another page).

Main results: `BaseBStarTree.RemovesAt`, when this takes out a record equal to the key, and
`BaseBStarTree.removeByKeyNum_removes`.
-/

namespace BTreesMods

variable {κ : Type}

/-! ## Definitions -/

/-- One record equal to `k` was taken out of the sequence. -/
def TakenFrom (T : Cfg κ) (k : κ) (ts us : List κ) : Prop :=
  ∃ A x B, ts = A ++ x :: B ∧ us = A ++ B ∧ T.isEqual k x = true

/-- The first key of the last leaf below `r` can stand in front of the other keys below `r`, in the
place of `k`: it is `k` itself, or all keys in front of it are the same. -/
def Node.LendsKey (T : Cfg κ) (k : κ) (h : ℕ) (r : Node κ) : Prop :=
  ∃ A y B, r.records T h = A ++ y :: B ∧ B.length + 1 = r.lastLeafSize T h ∧
    (y = k ∨ ∀ x ∈ A, x = y)

/-- In the page `t` of a B*-tree, which is the root page or not, `removeByKeyNum` for the key in the
place `i` takes out a record equal to that key. -/
def BaseBStarTree.RemovesAt (T : Cfg κ) : ℕ → Bool → Node κ → ℕ → Prop
  | 0, _, _, _ => True
  | h + 1, root, t, i => ∃ l k r, t.kids[i]? = some l ∧ t.keys[i]? = some k ∧ t.kids[i + 1]? = some r ∧
      (T.minKeys < l.keys.length ∨
        l.keys.length ≤ T.minKeys ∧ T.minKeys < r.keys.length ∧ r.LendsKey T k h ∨
        l.keys.length ≤ T.minKeys ∧ r.keys.length ≤ T.minKeys ∧
          if root then
            -- the place that is computed in the merged page has a key equal to `k`
            ∃ x, (l.join k r).keys[T.maxKeys / 2]? = some x ∧ T.isEqual k x = true ∧
              RemovesAt T h (t.keys.length == 1) (l.join k r) (T.maxKeys / 2)
          else
            -- the slot of the last key keeps it, and it goes to the middle one of three pages
            i + 1 = t.keys.length ∧ ∃ c j x, 1 ≤ i ∧ t.kids[i - 1]? = some c ∧
              c.keys.length ≤ T.minKeys ∧ (c.takeOver T l k r).keys[j]? = some x ∧
              T.isEqual k x = true ∧
              (∀ y ∈ (c.takeOver T l k r).keys.take j, T.compare y k = true) ∧
              RemovesAt T h false (c.takeOver T l k r) j)

/-- When `removeByKeyNum` for the place `i` of the root page `t` merges two children, they fit into a page
that is not the root page, or the root page shrinks away. -/
def BaseBStarTree.MergeFits (T : Cfg κ) : ℕ → Node κ → ℕ → Prop
  | 0, _, _ => True
  | h + 1, t, i => ∀ l k r, t.kids[i]? = some l → t.keys[i]? = some k → t.kids[i + 1]? = some r →
      l.keys.length ≤ T.minKeys → r.keys.length ≤ T.minKeys →
        2 * T.minKeys + 1 ≤ T.maxKeys ∨
          t.keys.length = 1 ∧ MergeFits T h (l.join k r) (T.maxKeys / 2)

section

variable {T : Cfg κ} {s : BTree κ} {R : Multiset ℕ} {ref : PageRef κ} {h q fuel : ℕ} {t l r c d : Node κ}
  {A B : List κ} {P S : List (Node κ)} {x y k : κ} {ts us F G : List κ}

/-! ## One record less -/

theorem TakenFrom.context (hx : TakenFrom T k ts us) (F G : List κ) :
    TakenFrom T k (F ++ (ts ++ G)) (F ++ (us ++ G)) := by
  obtain ⟨A, x, B, rfl, rfl, hkx⟩ := hx
  exact ⟨F ++ A, x, B ++ G, by simp, by simp, hkx⟩

/-- The isEqual of a comparator is transitive. -/
theorem Comparator.Equates.trans (hlt : StrictWeak T.compare) (heq : T.Equates) {a b c : κ}
    (hab : T.isEqual a b = true) (hbc : T.isEqual b c = true) : T.isEqual a c = true := by
  obtain ⟨h1, h2⟩ := (heq a b).mp hab
  obtain ⟨h3, h4⟩ := (heq b c).mp hbc
  exact (heq a c).mpr ⟨hlt.le_trans h3 h1, hlt.le_trans h2 h4⟩

theorem Comparator.Equates.refl (hlt : StrictWeak T.compare) (heq : T.Equates) (a : κ) :
    T.isEqual a a = true :=
  (heq a a).mpr ⟨hlt.irrefl a, hlt.irrefl a⟩

theorem TakenFrom.of_equal (hlt : StrictWeak T.compare) (heq : T.Equates)
    (hkx : T.isEqual k x = true) (hx : TakenFrom T x ts us) : TakenFrom T k ts us := by
  obtain ⟨A, z, B, hA, hB, hxz⟩ := hx
  exact ⟨A, z, B, hA, hB, heq.trans hlt hkx hxz⟩

/-- The records of a node around two adjacent children, in a tree without routers. -/
theorem records_around₂ (hrouters : T.treeType.hasRouters = false) (hP : P.length = A.length) :
    (⟨q, A ++ k :: B, P ++ ([l, r] ++ S)⟩ : Node κ).records T (h + 1) =
      recordsOf (tokensBefore T h P A) ++ ((l.records T h ++ k :: r.records T h) ++
        recordsOf (tokensAfter T h B S)) := by
  have htok : (⟨q, A ++ k :: B, P ++ ([l, r] ++ S)⟩ : Node κ).tokens T (h + 1) = _ := tokens_around₂ hP
  rw [Node.records, htok, Cfg.sep, if_neg (by simp [hrouters])]
  simp only [recordsOf_append, recordsOf_record, Node.records]
  rfl

/-- The greatest key below the left child stands in for `k`. -/
theorem TakenFrom.of_max (hlt : StrictWeak T.compare) (heq : T.Equates) (hl : ts = us ++ [y]) :
    TakenFrom T k (ts ++ k :: F) (us ++ y :: F) :=
  ⟨ts, k, F, rfl, by simp [hl], heq.refl hlt k⟩

/-- The first key of the last leaf below the right child stands in for `k`. -/
theorem TakenFrom.of_lent (hlt : StrictWeak T.compare) (heq : T.Equates)
    (hlent : y = k ∨ ∀ x ∈ A, x = y) :
    TakenFrom T k (F ++ k :: (A ++ y :: B)) (F ++ y :: (A ++ B)) := by
  rcases hlent with rfl | hall
  · exact ⟨F ++ y :: A, y, B, by simp, by simp, heq.refl hlt y⟩
  · have hmove : A ++ [y] = y :: A := by
      rw [List.eq_replicate_of_mem hall, ← List.replicate_succ', List.replicate_succ]
    refine ⟨F, k, A ++ y :: B, rfl, ?_, heq.refl hlt k⟩
    rw [show A ++ y :: B = (A ++ [y]) ++ B by simp, hmove]
    simp

/-! ## A child with a key to spare -/

/-- `removeByKeyNum` returned true, and a record equal to `k` was taken out of the tree `t`. -/
def KeyTaken (T : Cfg κ) (k : κ) (s : BTree κ) (R : Multiset ℕ) (h : ℕ) (t : Node κ) (b : Bool)
    (s' : BTree κ) : Prop :=
  b = true ∧ ∃ t', Removed T s R h t s' t' ∧ TakenFrom T k (t.records T h) (t'.records T h)

/-- Another key was put in the place of `k`. -/
def KeyReplaced (T : Cfg κ) (k : κ) (s : BTree κ) (R : Multiset ℕ) (h : ℕ) (t : Node κ) (b : Bool)
    (s' : BTree κ) : Prop :=
  b = true ∧ ∃ t', Removed T s R h t s' t' ∧ TakenFrom T k (t.records T h) (t'.records T h) ∧
    t'.keys.length = t.keys.length

theorem KeyReplaced.taken {b : Bool} {s' : BTree κ} (hkey : KeyReplaced T k s R h t b s') :
    KeyTaken T k s R h t b s' := by
  obtain ⟨hb, t', hremoved, htaken, -⟩ := hkey
  exact ⟨hb, t', hremoved, htaken⟩

/-- A removal below a page that gets another key afterwards. -/
theorem Removed.replace {s1 s' : BTree κ} {C C' : List (Node κ)}
    (hr : Removed T s R h ⟨q, A ++ k :: B, C⟩ s1 ⟨q, A ++ k :: B, C'⟩) (hf : Frame s1 s' R)
    (hs' : ∃ ref', Stands s' R ref' h ⟨q, A ++ y :: B, C'⟩) :
    Removed T s R h ⟨q, A ++ k :: B, C⟩ s' ⟨q, A ++ y :: B, C'⟩ where
  page_eq := rfl
  frame := hr.frame.trans hf
  stands := hs'
  sized := hr.sized
  keys_le := by simp
  le_keys := by simp

/-- The children on both sides of a key are read. -/
theorem Stands.read_pair (hs : Stands s R ref (h + 1) ⟨q, A ++ k :: B, P ++ ([l, r] ++ S)⟩)
    (hP : P.length = A.length) (hslots : (A ++ k :: B).length ≤ T.slots) :
    readPageFromChild T (s.wrapper q) A.length s = .ok (s.wrapper l.page, s) ∧
      readPageFromChild T (s.wrapper q) (A.length + 1) s = .ok (s.wrapper r.page, s) := by
  have hl := readPageFromChild_run (T := T) (w := s.wrapper q) (P := P) (c := l) (S := r :: S) hs.store
    (kid_page_mem (by simp)) hs.rep.on rfl hslots
  have hr := readPageFromChild_run (T := T) (w := s.wrapper q) (P := P ++ [l]) (c := r) (S := S)
    hs.store (kid_page_mem (by simp)) hs.rep.on (by simp) hslots
  rw [List.length_append, List.length_singleton] at hr
  rw [hP] at hl hr
  exact ⟨hl, hr⟩

/-- A descent that starts at a leaf merges nothing. -/
theorem Node.lastFits_of_le (hfit : T.treeType = .bStarTree → h ≠ 0 → T.MergeBufferFits) :
    t.LastFits T h := by
  intro hk hmerges
  refine hfit hk ?_
  rintro rfl
  exact hmerges

variable [Inhabited κ]

/-- The left child has a key to spare. -/
theorem replaceByMax_spec (hT : T.Valid) (hk : T.treeType = .bTree ∨ T.treeType = .bStarTree)
    (hlt : StrictWeak T.compare) (heq : T.Equates) (hfuel : h < fuel)
    (hs : Stands s R ref (h + 1) ⟨q, A ++ k :: B, P ++ ([l, r] ++ S)⟩) (hP : P.length = A.length)
    (hslots : (A ++ k :: B).length ≤ T.slots) (hsz : SizedBelow T (h + 1) (P ++ ([l, r] ++ S)))
    (hrich : T.minKeys < l.keys.length) (hfit : T.treeType = .bStarTree → h ≠ 0 → T.MergeBufferFits) :
    Returns (do
      let replace ← getAndRemoveMaxKey T fuel (s.wrapper l.page)
      replaceKey T A.length ref replace
      return true) s (KeyReplaced T k s R (h + 1) ⟨q, A ++ k :: B, P ++ ([l, r] ++ S)⟩) := by
  have hready : Readied T s R h q (Focus.leftOf A k B P l r S hP) s ref (Focus.leftOf A k B P l r S hP) :=
    Readied.refl hs hsz (by rw [minOf_eq_minKeys hk]; exact hrich)
  refine (getAndRemoveMaxKey_spec hT (preparesLast hT hk hlt) hfuel hs.toHeld.kid
    hready.kid_sized hready.ready (Node.lastFits_of_le hfit)).bind ?_
  rintro y s1 ⟨l', hremoved, hthin⟩
  obtain ⟨ref', hl'⟩ := hremoved.stands
  have hs1 := hs.putBack hremoved.frame hl' hremoved.page_eq
  refine (replaceKey_spec hs1 hslots y).bind ?_
  rintro _ s2 ⟨hf, hs2⟩
  refine Returns.pure ⟨rfl, _, (hready.put hremoved).replace hf hs2, ?_, by simp [Focus.leftOf]⟩
  have hrouters := hasRouters_eq_false hk
  have hl : l.records T h = l'.records T h ++ [y] := by
    rw [Node.records, ← hthin.records_eq, recordsOf_append]
    rfl
  have hold := records_around₂ (q := q) (h := h) (k := k) (l := l) (r := r) (B := B) (S := S) hrouters hP
  have hnew := records_around₂ (q := q) (h := h) (k := y) (l := l') (r := r) (B := B) (S := S) hrouters hP
  rw [hold]
  refine Eq.subst (motive := fun z => TakenFrom T k _ z) hnew.symm ?_
  exact (TakenFrom.of_max hlt heq hl).context _ _

/-- The right child has a key to spare, and the key that it gives away can stand in for `k`. -/
theorem replaceByMin_spec (hT : T.Valid) (hk : T.treeType = .bTree ∨ T.treeType = .bStarTree)
    (hlt : StrictWeak T.compare) (heq : T.Equates) (hfuel : h < fuel)
    (hs : Stands s R ref (h + 1) ⟨q, A ++ k :: B, P ++ ([l, r] ++ S)⟩) (hP : P.length = A.length)
    (hslots : (A ++ k :: B).length ≤ T.slots) (hsz : SizedBelow T (h + 1) (P ++ ([l, r] ++ S)))
    (hrich : T.minKeys < r.keys.length) (hlends : r.LendsKey T k h)
    (hfit : T.treeType = .bStarTree → h ≠ 0 → T.MergeBufferFits) :
    Returns (do
      let replace ← getAndRemoveMinKey T fuel (s.wrapper r.page)
      replaceKey T A.length ref replace
      return true) s (KeyReplaced T k s R (h + 1) ⟨q, A ++ k :: B, P ++ ([l, r] ++ S)⟩) := by
  have hnode : (Focus.rightOf A k B P l r S hP).node q = _ := Focus.rightOf_node hP
  rw [← hnode] at hs
  have hready : Readied T s R h q (Focus.rightOf A k B P l r S hP) s ref
      (Focus.rightOf A k B P l r S hP) :=
    Readied.refl hs (by rw [hnode]; exact hsz) (by rw [minOf_eq_minKeys hk]; exact hrich)
  refine (getAndRemoveMinKey_spec hT (preparesLast hT hk hlt) (reach_le_minOf hT hk) hfuel hs.toHeld.kid
    hready.kid_sized hready.ready (Node.lastFits_of_le hfit)).bind ?_
  rintro y s1 ⟨r', A', B', hremoved, -, hA, hB, -, hlen⟩
  obtain ⟨ref', hr'⟩ := hremoved.stands
  have hnode1 : (Focus.rightOf A k B P l r' S hP).node q = _ := Focus.rightOf_node hP
  have hs1 : Stands s1 R ref (h + 1) ((Focus.rightOf A k B P l r' S hP).node q) :=
    hs.putBack hremoved.frame hr' hremoved.page_eq
  have hput : Removed T s R (h + 1) ((Focus.rightOf A k B P l r S hP).node q) s1
      ((Focus.rightOf A k B P l r' S hP).node q) := hready.put hremoved
  rw [hnode1] at hs1
  rw [hnode, hnode1] at hput
  refine (replaceKey_spec hs1 hslots y).bind ?_
  rintro _ s2 ⟨hf, hs2⟩
  refine Returns.pure ⟨rfl, _, hput.replace hf hs2, ?_, by simp⟩
  have hrouters := hasRouters_eq_false hk
  have hold := records_around₂ (q := q) (h := h) (k := k) (l := l) (r := r) (B := B) (S := S) hrouters hP
  have hnew := records_around₂ (q := q) (h := h) (k := y) (l := l) (r := r') (B := B) (S := S) hrouters hP
  obtain ⟨A₂, y₂, B₂, hr₂, hlen₂, hlent⟩ := hlends
  have hlists : A₂ ++ y₂ :: B₂ = A' ++ y :: B' := hr₂.symm.trans hA
  obtain ⟨rfl, hcons⟩ := List.append_inj' hlists (hlen₂.trans hlen.symm)
  obtain ⟨rfl, rfl⟩ := List.cons.inj hcons
  rw [hold, hnew, hr₂, hB]
  exact (TakenFrom.of_lent hlt heq hlent).context _ _

/-- The rest of `BaseBStarTree::removeByKeyNum` when neither child has a key to spare. -/
def BaseBStarTree.removeBetweenPoor (T : Cfg κ) (fuel keyNum : ℕ) (currentPage : PageRef κ)
    (cur leftChild rightChild : PageWrapper κ) : TreeM κ Bool := do
  let root ← isRoot cur
  if root then do
    let (_, leftChild) ← BaseBStarTree.mergeChildren T leftChild rightChild currentPage keyNum
    let root ← isRoot leftChild
    BaseBStarTree.removeByKeyNum T fuel (T.maxKeys / 2)
      (if root then .rootPage else .local leftChild)
  else do
    let _ ← readPageFromChild T cur (if keyNum ≥ 1 then keyNum - 1 else keyNum + 2)
    let prepared ← BaseBStarTree.prepareSubtree T keyNum currentPage
    let cur ← prepared.currentPage.load
    BaseBStarTree.removeFrom T (cur.data.key keyNum) fuel (.local prepared.child)

/-- `removeByKeyNum` on a leaf. -/
theorem BaseBStarTree.removeByKeyNum_leaf (hlt : StrictWeak T.compare) (heq : T.Equates)
    (hs : Stands s R ref 0 ⟨q, A ++ k :: B, P⟩) (hslots : (A ++ k :: B).length ≤ T.slots) :
    Returns (BaseBStarTree.removeByKeyNum T (fuel + 1) A.length ref) s
      (KeyTaken T k s R 0 ⟨q, A ++ k :: B, P⟩) := by
  have hleaf : (s.wrapper q).data.isLeaf = true := hs.rep.on.leaf_eq
  rw [BaseBStarTree.removeByKeyNum]
  refine Returns.step (load_run s ref) ?_
  rw [hs.value_eq, if_pos hleaf]
  refine (removeInLeaf_spec hs hslots).bind ?_
  rintro _ s1 ⟨hremoved, -⟩
  refine Returns.pure ⟨rfl, _, hremoved, A, k, B, ?_, ?_, heq.refl hlt k⟩
  · exact recordsOf_map_record (A ++ k :: B)
  · exact recordsOf_map_record (A ++ B)

/-- `removeByKeyNum` on an inner page, one of whose children has a key to spare. -/
theorem BaseBStarTree.removeByKeyNum_rich (hT : T.Valid) (hk : T.treeType = .bStarTree)
    (hlt : StrictWeak T.compare) (heq : T.Equates) (hfuel : h < fuel)
    (hs : Stands s R ref (h + 1) ⟨q, A ++ k :: B, P ++ ([l, r] ++ S)⟩) (hP : P.length = A.length)
    (hslots : (A ++ k :: B).length ≤ T.slots) (hsz : SizedBelow T (h + 1) (P ++ ([l, r] ++ S)))
    (hrich : T.minKeys < l.keys.length ∨
      l.keys.length ≤ T.minKeys ∧ T.minKeys < r.keys.length ∧ r.LendsKey T k h)
    (hfit : h ≠ 0 → T.MergeBufferFits) :
    Returns (BaseBStarTree.removeByKeyNum T (fuel + 1) A.length ref) s
      (KeyReplaced T k s R (h + 1) ⟨q, A ++ k :: B, P ++ ([l, r] ++ S)⟩) := by
  obtain ⟨hreadl, hreadr⟩ := hs.read_pair hP hslots
  obtain ⟨hnode, hrl, hrr⟩ := hs.holds_pair
  have hln : (s.wrapper l.page).data.keysNum = l.keys.length := hrl.on.keysNum_eq
  have hrn : (s.wrapper r.page).data.keysNum = r.keys.length := hrr.on.keysNum_eq
  have hleaf : (s.wrapper q).data.isLeaf = false := hnode.leaf_eq
  rw [BaseBStarTree.removeByKeyNum]
  refine Returns.step (load_run s ref) ?_
  rw [hs.value_eq, if_neg (by simp [hleaf])]
  refine Returns.step hreadl ?_
  rw [hln]
  rcases hrich with hrich | ⟨hpoor, hrich, hlends⟩
  · rw [if_pos (by omega)]
    exact replaceByMax_spec hT (Or.inr hk) hlt heq hfuel hs hP hslots hsz hrich fun _ => hfit
  · rw [if_neg (by omega)]
    refine Returns.step hreadr ?_
    rw [hrn, if_pos (by omega)]
    exact replaceByMin_spec hT (Or.inr hk) hlt heq hfuel hs hP hslots hsz hrich hlends fun _ => hfit

/-- `removeByKeyNum` on an inner page between two minimal children. -/
theorem BaseBStarTree.removeByKeyNum_poor
    (hs : Stands s R ref (h + 1) ⟨q, A ++ k :: B, P ++ ([l, r] ++ S)⟩) (hP : P.length = A.length)
    (hslots : (A ++ k :: B).length ≤ T.slots) (hl : l.keys.length ≤ T.minKeys)
    (hr : r.keys.length ≤ T.minKeys) :
    BaseBStarTree.removeByKeyNum T (fuel + 1) A.length ref s =
      BaseBStarTree.removeBetweenPoor T fuel A.length ref (s.wrapper q) (s.wrapper l.page)
        (s.wrapper r.page) s := by
  obtain ⟨hreadl, hreadr⟩ := hs.read_pair hP hslots
  obtain ⟨hnode, hrl, hrr⟩ := hs.holds_pair
  have hln : (s.wrapper l.page).data.keysNum = l.keys.length := hrl.on.keysNum_eq
  have hrn : (s.wrapper r.page).data.keysNum = r.keys.length := hrr.on.keysNum_eq
  have hleaf : (s.wrapper q).data.isLeaf = false := hnode.leaf_eq
  rw [BaseBStarTree.removeByKeyNum, bind_run (load_run s ref), hs.value_eq, if_neg (by simp [hleaf]),
    bind_run hreadl, hln, if_neg (by omega), bind_run hreadr, hrn, if_neg (by omega)]
  rfl

/-! ## Two minimal children below a page that is not the root -/

theorem exists_of_bind {ε α β : Type} {x : Except ε α} {f : α → Except ε β} {b : β}
    (hrun : x >>= f = .ok b) : ∃ a, x = .ok a ∧ f a = .ok b := by
  cases x with
  | error e => cases hrun
  | ok a => exact ⟨a, rfl, hrun⟩

omit [Inhabited κ] in
/-- `closeSlot` for the last key of a page changes nothing. -/
theorem closeSlot_last {slots i : ℕ} {pg : Page κ} (hi : i + 1 = pg.keysNum) :
    pg.closeSlot slots i = .ok pg := by
  rw [Page.closeSlot, show pg.keysNum - 1 - i = 0 by omega]
  rfl

/-- The slot of the last key of the parent keeps its key in a merge of three pages around it. -/
theorem mergeThreePages_slot {slots i j : ℕ} {lp mp rp pg lp' mp' pg' : Page κ}
    (hrun : mergeThreePages slots lp mp rp pg i j = .ok (lp', mp', pg')) (hj : j + 1 = pg.keysNum)
    (hij : i ≠ j) : pg'.key j = pg.key j := by
  have hparent : ∀ (a b : Page κ) (x : κ), (do
      let pg₁ ← pg.closeSlot slots j
      let pg₁ ← pg₁.copyKey slots i x
      return (a, b, pg₁.setKeyNum (pg₁.keysNum - 1)) : Except Err _) = .ok (lp', mp', pg') →
      pg'.key j = pg.key j := by
    intro a b x hrun
    rw [closeSlot_last hj, ok_bind] at hrun
    obtain ⟨pg₁, hcopy, hrun⟩ := exists_of_bind hrun
    obtain ⟨_, -, hcopy⟩ := exists_of_bind hcopy
    cases hcopy
    cases hrun
    exact Function.update_of_ne (Ne.symm hij) _ _
  unfold mergeThreePages at hrun
  obtain ⟨_, -, hrun⟩ := exists_of_bind hrun
  obtain ⟨_, -, hrun⟩ := exists_of_bind hrun
  obtain ⟨_, -, hrun⟩ := exists_of_bind hrun
  obtain ⟨_, -, hrun⟩ := exists_of_bind hrun
  obtain ⟨_, -, hrun⟩ := exists_of_bind hrun
  obtain ⟨_, -, hrun⟩ := exists_of_bind hrun
  obtain ⟨_, -, hrun⟩ := exists_of_bind hrun
  dsimp only at hrun
  split at hrun
  · exact hparent _ _ _ hrun
  · obtain ⟨_, -, hrun⟩ := exists_of_bind hrun
    obtain ⟨_, -, hrun⟩ := exists_of_bind hrun
    obtain ⟨_, -, hrun⟩ := exists_of_bind hrun
    obtain ⟨_, -, hrun⟩ := exists_of_bind hrun
    obtain ⟨_, -, hrun⟩ := exists_of_bind hrun
    exact hparent _ _ _ hrun

/-- The same for the wrapper of the parent after `BaseBStarTree::mergeChildren`. -/
theorem mergeThreeChildren_slot {s1 : BTree κ} {lw mw rw w : PageWrapper κ} {i j : ℕ}
    {x : PageRef κ × PageWrapper κ × PageWrapper κ}
    (hrun : BaseBStarTree.mergeThreeChildren T lw mw rw (.local w) i j s = .ok (x, s1))
    (hj : j + 1 = w.data.keysNum) (hij : i ≠ j) : (x.1.value s1).data.key j = w.data.key j := by
  have hreturns : Returns (BaseBStarTree.mergeThreeChildren T lw mw rw (.local w) i j) s
      fun a s' => a = x ∧ s' = s1 := ⟨x, s1, hrun, rfl, rfl⟩
  unfold BaseBStarTree.mergeThreeChildren at hreturns
  obtain ⟨_, _, hload, hreturns⟩ := hreturns.of_bind
  cases hload
  obtain ⟨_, _, -, hreturns⟩ := hreturns.of_bind
  obtain ⟨⟨ld, md, nd⟩, s2, hpages, hreturns⟩ := hreturns.of_bind
  have hslot : nd.key j = w.data.key j := by
    cases hmerge : mergeThreePages T.slots lw.data mw.data rw.data w.data i j with
    | error e =>
      rw [hmerge] at hpages
      cases hpages
    | ok z =>
      rw [hmerge] at hpages
      cases hpages
      exact mergeThreePages_slot hmerge hj hij
  unfold finishMergeThree at hreturns
  obtain ⟨_, _, hstore, hreturns⟩ := hreturns.of_bind
  cases hstore
  obtain ⟨_, _, -, hreturns⟩ := hreturns.of_bind
  obtain ⟨_, _, -, hreturns⟩ := hreturns.of_bind
  obtain ⟨_, _, -, hreturns⟩ := hreturns.of_bind
  obtain ⟨_, _, -, hreturns⟩ := hreturns.of_bind
  obtain ⟨_, _, hpure, rfl, rfl⟩ := hreturns
  cases hpure
  exact hslot

omit [Inhabited κ] in
/-- A sequence is cut at one place. -/
theorem LowerCut.unique {A' B' : List κ} {lt : κ → κ → Bool} (hcut : LowerCut lt k A B)
    (hcut' : LowerCut lt k A' B') (hlists : A ++ B = A' ++ B') : A = A' := by
  rcases List.append_eq_append_iff.mp hlists with ⟨D, rfl, rfl⟩ | ⟨D, rfl, rfl⟩
  · cases D with
    | nil => simp
    | cons z D =>
      have hz := hcut.not_lt_head z (by simp)
      rw [hcut'.lt_left z (by simp)] at hz
      cases hz
  · cases D with
    | nil => simp
    | cons z D =>
      have hz := hcut'.not_lt_head z (by simp)
      rw [hcut.lt_left z (by simp)] at hz
      cases hz

/-- `remove` on a page with a key equal to `k`. -/
theorem BaseBStarTree.removeFrom_found {w : PageWrapper κ} (heq : T.Equates)
    (hs : Stands s R (.local w) h t) (hslots : t.keys.length ≤ T.slots) (hkeys : t.keys = A ++ x :: B)
    (hA : ∀ y ∈ A, T.compare y k = true) (hkx : T.isEqual k x = true) :
    BaseBStarTree.removeFrom T k (fuel + 1) (.local w) s =
      BaseBStarTree.removeByKeyNum T fuel A.length (.local w) s := by
  obtain rfl : w = s.wrapper t.page := hs.value_eq
  have hon : (s.wrapper t.page).data.Holds (h == 0) (A ++ x :: B) (t.kids.map Node.page) := by
    rw [← hkeys]
    exact hs.rep.on
  have hle : (s.wrapper t.page).data.keysNum ≤ T.slots := by
    rw [hon.keysNum_eq, ← hkeys]
    exact hslots
  obtain ⟨A', B', hAB, hcut, hrun⟩ := hon.lowerBound T.compare k hle
  obtain rfl : A = A' := LowerCut.unique ⟨hA, by simpa using ((heq k x).mp hkx).2⟩ hcut hAB
  have hkey : (s.wrapper t.page).data.isKeyAt T.slots T.isEqual k A.length = _ := hon.isKeyAt hle
  have hnotRoot : (s.rootPageNum == (s.wrapper t.page).pageNum) = false := by
    have hmem : s.rootPageNum ∈ R := hs.at_page.root
    simp only [beq_eq_false_iff_ne]
    intro hroot
    rw [hroot] at hmem
    exact hs.page_not_mem hmem
  rw [BaseBStarTree.removeFrom, bind_run (load_run s _), hs.value_eq, bind_run (onPages_run hrun s),
    bind_run (onPages_run hkey s)]
  simp only [List.head?_cons, Option.any_some, hkx, if_true]
  rw [bind_run (isRoot_run s _), hnotRoot]
  rfl

omit [Inhabited κ] in
/-- A key of an inner page and the children on both sides of it. -/
theorem exists_pair {K : List κ} {C : List (Node κ)} (hlen : C.length = K.length + 1)
    (hK : K = A ++ k :: B) :
    ∃ P l r S, C = P ++ ([l, r] ++ S) ∧ P.length = A.length := by
  subst hK
  rw [List.length_append, List.length_cons] at hlen
  obtain ⟨P, C', rfl, hP⟩ : ∃ P C', C = P ++ C' ∧ P.length = A.length :=
    ⟨C.take A.length, C.drop A.length, (List.take_append_drop _ _).symm, by
      rw [List.length_take]
      omega⟩
  rw [List.length_append] at hlen
  obtain ⟨l, C', rfl⟩ := List.exists_cons_of_length_pos (l := C') (by omega)
  obtain ⟨r, S, rfl⟩ := List.exists_cons_of_length_pos (l := C') (by
    rw [List.length_cons] at hlen
    omega)
  exact ⟨P, l, r, S, rfl, hP⟩

/-- `prepareSubtree` for the child in front of the last key of a page that is not the root page, between
two minimal children: the slot of the key keeps it. -/
theorem BaseBStarTree.prepareSubtree_slot (hT : T.Valid) (hk : T.treeType = .bStarTree)
    (hlt : StrictWeak T.compare)
    (hs : Stands s R ref (h + 1) ⟨q, A ++ k :: [], P ++ ([l, r] ++ S)⟩) (hroot : s.rootPageNum ≠ q)
    (hP : P.length = A.length) (hslots : (A ++ k :: []).length ≤ T.slots)
    (hsz : SizedBelow T (h + 1) (P ++ ([l, r] ++ S)))
    (hmid : (Focus.leftOf A k [] P l r S hP).Middle T) (hfit : T.MergeBufferFits) :
    Returns (BaseBStarTree.prepareSubtree T A.length ref) s fun z s1 =>
      (z.currentPage.value s1).data.key A.length = k ∧
        MiddlePost T s R h q (Focus.leftOf A k [] P l r S hP) z s1 := by
  have hpost := BaseBStarTree.prepareSubtree_middle hT hk hlt hfit (f := Focus.leftOf A k [] P l r S hP) hs
    hroot hslots hsz hmid
  obtain ⟨z, s1, hrun, hz⟩ := hpost
  refine ⟨z, s1, hrun, ?_, hz⟩
  obtain ⟨K1, a, b, K2, P', c, e, S', hKL, -, -, -, -, -, heq⟩ :=
    BaseBStarTree.prepareSubtree_middle_eq hT hk hlt (f := Focus.leftOf A k [] P l r S hP) hs hroot
      hslots hsz hmid
  have hA : A.length = K1.length + 1 := by
    have := congrArg List.length hKL
    simpa [Focus.leftOf] using this
  have hreturns : Returns _ s fun z' s' => z' = z ∧ s' = s1 := ⟨z, s1, heq.symm.trans hrun, rfl, rfl⟩
  obtain ⟨⟨cp, lw, mw⟩, s2, hmerge, hreturns⟩ := hreturns.of_bind
  obtain ⟨_, _, hpure, rfl, rfl⟩ := hreturns
  cases hpure
  cases ref with
  | rootPage => exact absurd hs.at_page.root hroot
  | «local» w =>
    obtain rfl : w = s.wrapper q := hs.value_eq
    have hon : (s.wrapper q).data.Holds false (A ++ k :: [])
        ((P ++ ([l, r] ++ S)).map Node.page) := hs.rep.on
    have hkn := hon.keysNum_eq
    rw [List.length_append, List.length_singleton] at hkn
    have hslot := mergeThreeChildren_slot hmerge (by omega) (by omega)
    have hkey : (s.wrapper q).data.key A.length = k := slice_at hon.slice_key
    rw [hA] at hkey ⊢
    exact hslot.trans hkey

/-- `removeByKeyNum` on a page that is not the root page and has a key to spare. -/
theorem BaseBStarTree.removeByKeyNum_inner (hT : T.Valid) (hk : T.treeType = .bStarTree)
    (hlt : StrictWeak T.compare) (heq : T.Equates) (hfuel : 2 * h < fuel) (hs : Stands s R ref h t)
    (hroot : s.rootPageNum ≠ t.page) (hslots : t.keys.length ≤ T.slots)
    (hready : T.minKeys < t.keys.length) (hsz : SizedBelow T h t.kids)
    (hsorted : Sorted T.compare (t.tokens T h)) (hkeys : t.keys = A ++ k :: B)
    (hat : BaseBStarTree.RemovesAt T h false t A.length) (hfit : h ≠ 0 → T.MergeBufferFits) :
    Returns (BaseBStarTree.removeByKeyNum T fuel A.length ref) s (KeyTaken T k s R h t) := by
  induction h generalizing s R ref t A B k fuel with
  | zero =>
    obtain ⟨fuel, rfl⟩ := Nat.exists_eq_succ_of_ne_zero (by omega : fuel ≠ 0)
    obtain ⟨q, K, C⟩ := t
    obtain rfl : K = A ++ k :: B := hkeys
    exact BaseBStarTree.removeByKeyNum_leaf hlt heq hs hslots
  | succ h ih =>
    obtain ⟨fuel, rfl⟩ := Nat.exists_eq_succ_of_ne_zero (by omega : fuel ≠ 0)
    obtain ⟨q, K, C⟩ := t
    obtain rfl : K = A ++ k :: B := hkeys
    obtain ⟨P, l, r, S, rfl, hP⟩ := exists_pair hs.rep.length_kids rfl
    obtain ⟨l', k', r', hl', hk', hr', hcase⟩ := hat
    obtain rfl : l = l' := by simpa [← hP] using hl'
    obtain rfl : k = k' := by simpa using hk'
    obtain rfl : r = r' := by simpa [← hP, List.getElem?_append_right] using hr'
    rcases hcase with hrich | hrich | ⟨hlpoor, hrpoor, hlast, c, j, x, hpos, hc, hcpoor, hx, hkx, hj, hat⟩
    · exact (BaseBStarTree.removeByKeyNum_rich hT hk hlt heq (by omega) hs hP hslots hsz
        (Or.inl hrich) fun _ => hfit (Nat.succ_ne_zero h)).mono fun _ _ hkey => hkey.taken
    · exact (BaseBStarTree.removeByKeyNum_rich hT hk hlt heq (by omega) hs hP hslots hsz
        (Or.inr hrich) fun _ => hfit (Nat.succ_ne_zero h)).mono fun _ _ hkey => hkey.taken
    · -- the last key goes down into the middle one of three children
      obtain rfl : B = [] := List.length_eq_zero_iff.mp (by
        change A.length + 1 = (A ++ k :: B).length at hlast
        rw [List.length_append, List.length_cons] at hlast
        omega)
      obtain ⟨P, c', rfl⟩ := List.eq_nil_or_concat' P |>.resolve_left fun hnil => by
        simp [hnil] at hP
        omega
      have hP' : P.length + 1 = A.length := by simpa using hP
      obtain rfl : c' = c := by simpa [← hP'] using hc
      have hmid : (Focus.leftOf A k [] (P ++ [c']) l r S hP).Middle T :=
        ⟨hlpoor, ⟨by simpa [Focus.leftOf] using hcpoor, by simpa [Focus.leftOf] using hrpoor⟩,
          List.ne_nil_of_length_pos hpos, by simp [Focus.leftOf]⟩
      have hread : readPageFromChild T (s.wrapper q) (A.length - 1) s = .ok (s.wrapper c'.page, s) := by
        have := readPageFromChild_run (T := T) (w := s.wrapper q) (P := P) (c := c')
          (S := [l, r] ++ S) hs.store (kid_page_mem (by simp)) hs.rep.on (by simp) hslots
        rwa [show A.length - 1 = P.length by omega]
      have hnotRoot : (s.rootPageNum == (s.wrapper q).pageNum) = false := by
        simpa [BTree.wrapper] using hroot
      refine Returns.of_eq ?_ (BaseBStarTree.removeByKeyNum_poor hs hP hslots hlpoor hrpoor)
      unfold BaseBStarTree.removeBetweenPoor
      refine Returns.step (isRoot_run s _) ?_
      rw [hnotRoot, if_neg Bool.false_ne_true, if_pos hpos]
      refine Returns.step hread ((BaseBStarTree.prepareSubtree_slot hT hk hlt hs hroot hP hslots hsz
        hmid (hfit (Nat.succ_ne_zero h))).bind ?_)
      rintro _ s1 ⟨hslot, K1, a, b, K2, P', c₂, e, S', ref1, A', y, B', CX, CY, hKL, hKR, hPL, hPR, rfl,
        hthree⟩
      obtain ⟨rfl, rfl⟩ := List.cons.inj (show k :: [] = b :: K2 from hKR)
      obtain ⟨rfl, hc₂⟩ := List.append_inj' (show P ++ [c'] = P' ++ [c₂] from hPL) rfl
      obtain rfl := List.singleton_inj.mp hc₂
      obtain ⟨rfl, rfl⟩ := List.cons.inj (show r :: S = e :: S' from hPR)
      obtain rfl : A = K1 ++ [a] := hKL
      have hlow : T.minKeys ≤ c'.keys.length := by
        have := (sized_iff.mp (hsz c' (by simp))).1.1
        rwa [(bStarTree_sizes hT hk h).2.2.2.2.1] at this
      have htake := (hthree.nodes_eq (le_antisymm hcpoor hlow)).2
      obtain ⟨hready1, hthin⟩ := hthree.readied (f := Focus.leftOf (K1 ++ [a]) k [] (P ++ [c']) l r S hP)
        (bStarTree_sizes hT hk h).2.2.2.2.1 (Focus.node_of_middle rfl rfl rfl rfl)
        (Focus.rightOf_node (by simpa using hP')) hthree.ready.2 (fun hnil => by cases hnil)
      have hkid := hready1.stands.toHeld.kid
      obtain ⟨fuel, rfl⟩ := Nat.exists_eq_succ_of_ne_zero (by omega : fuel ≠ 0)
      have hslots1 := (sized_iff.mp hready1.kid_sized).1.2.trans (maxOf_le_slots hT h)
      obtain ⟨hjlt, hjx⟩ := List.getElem?_eq_some_iff.mp hx
      have hkeysd : (c'.takeOver T l k r).keys = (c'.takeOver T l k r).keys.take j ++
          x :: (c'.takeOver T l k r).keys.drop (j + 1) := by
        rw [← hjx, ← List.drop_eq_getElem_cons hjlt, List.take_append_drop]
      have hjlen : ((c'.takeOver T l k r).keys.take j).length = j := by
        rw [List.length_take]
        omega
      have hrootR : s1.rootPageNum ∈ around q h (P ++ [⟨c'.page, c'.keys ++ a :: A', CX⟩]) S R :=
        hkid.at_page.root
      refine Returns.step (load_run s1 ref1) ?_
      rw [hslot]
      refine Returns.of_eq ?_ (BaseBStarTree.removeFrom_found heq hkid hslots1
        ((congrArg Node.keys htake).trans hkeysd) hj hkx)
      refine (ih (by omega) hkid (fun heq' => hkid.page_not_mem (heq' ▸ hrootR)) hslots1
        hthree.ready.2 (sized_iff.mp hready1.kid_sized).2 ?_
        ((congrArg Node.keys htake).trans hkeysd) ?_ fun _ => hfit (Nat.succ_ne_zero h)).mono ?_
      · have hsorted1 := hthin.sorted hsorted
        rw [Focus.tokens_node] at hsorted1
        exact (sorted_append.mp (sorted_append.mp hsorted1).2.1).1
      · rw [hjlen]
        exact Eq.subst (motive := fun z => BaseBStarTree.RemovesAt T h false z j) htake.symm hat
      · rintro _ s' ⟨rfl, d, hremoved, htaken⟩
        refine ⟨rfl, _, hready1.put hremoved, ?_⟩
        have hold := hthin.records_eq
        rw [Focus.tokens_node, recordsOf_append, recordsOf_append] at hold
        refine Eq.subst (motive := fun z => TakenFrom T k z _) hold ?_
        rw [Node.records, Focus.tokens_node, recordsOf_append, recordsOf_append]
        exact (htaken.of_equal hlt heq hkx).context _ _

/-! ## Two minimal children of the root page -/

omit [Inhabited κ] in
theorem BaseBStarTree.mergeFits_of_le (hle : 2 * T.minKeys + 1 ≤ T.maxKeys) (t : Node κ) (i : ℕ) :
    BaseBStarTree.MergeFits T h t i := by
  cases h with
  | zero => trivial
  | succ h => exact fun _ _ _ _ _ _ _ _ => Or.inl hle

omit [Inhabited κ] in
theorem maxRootOf_bStarTree (hT : T.Valid) (hk : T.treeType = .bStarTree) (h : ℕ) :
    T.maxRootOf h = 2 * T.minKeys + 1 := by
  obtain ⟨m, -, -, hmin, -, hmaxRoot, -⟩ := valid_star hT (by rw [hk]; rfl)
  simp [Cfg.maxRootOf, hk, hmaxRoot, hmin]

/-- What `removeByKeyNum` leaves of the whole tree. -/
def RootKeyTaken (T : Cfg κ) (k : κ) (R : Multiset ℕ) (h : ℕ) (t : Node κ) (b : Bool) (s' : BTree κ) :
    Prop :=
  b = true ∧ ∃ H n, Stands s' R .rootPage H n ∧ TakenFrom T k (t.records T h) (n.records T H)

/-- Moreover the pages keep their sizes when merged children fit. -/
def RootKeySized (T : Cfg κ) (k : κ) (R : Multiset ℕ) (h : ℕ) (t : Node κ) (i : ℕ) (b : Bool) (s' : BTree κ) :
    Prop :=
  b = true ∧ ∃ H n, Stands s' R .rootPage H n ∧ TakenFrom T k (t.records T h) (n.records T H) ∧
    (t.RootSized T h → BaseBStarTree.MergeFits T h t i → n.RootSized T H)

omit [Inhabited κ] in
theorem RootKeySized.taken {i : ℕ} {b : Bool} {s' : BTree κ} (hkey : RootKeySized T k R h t i b s') :
    RootKeyTaken T k R h t b s' := by
  obtain ⟨hb, H, n, hn, htaken, -⟩ := hkey
  exact ⟨hb, H, n, hn, htaken⟩

omit [Inhabited κ] in
/-- A removal from the root page that leaves it a key. -/
theorem Removed.rootSized {s' : BTree κ} {t' : Node κ} (hremoved : Removed T s R h t s' t')
    (hsz : t.RootSized T h) (hkeeps : h ≠ 0 → t'.keys ≠ []) : t'.RootSized T h :=
  ⟨hremoved.keys_le.trans hsz.le_max, fun hh => List.length_pos_iff.mpr (hkeeps hh), hremoved.sized⟩

omit [Inhabited κ] in
theorem Removed.stands_root {s' : BTree κ} {t' : Node κ} (hs : Stands s R .rootPage h t)
    (hremoved : Removed T s R h t s' t') : Stands s' R .rootPage h t' := by
  obtain ⟨ref', hs'⟩ := hremoved.stands
  have hroot : s'.rootPageNum = t'.page := by
    rw [hremoved.frame.rootPageNum_eq, hremoved.page_eq]
    exact hs.at_page.root
  rwa [hs'.ref_eq hroot] at hs'

omit [Inhabited κ] in
theorem KeyReplaced.root {i : ℕ} {b : Bool} {s' : BTree κ} (hs : Stands s R .rootPage h t)
    (hkey : KeyReplaced T k s R h t b s') : RootKeySized T k R h t i b s' := by
  obtain ⟨rfl, t', hremoved, htaken, hlen⟩ := hkey
  refine ⟨rfl, h, t', hremoved.stands_root hs, htaken, fun hsz _ => hremoved.rootSized hsz fun hh => ?_⟩
  rw [← List.length_pos_iff, hlen]
  exact hsz.pos hh

omit [Inhabited κ] in
/-- The records of two children that are merged. -/
theorem records_join (hrouters : T.treeType.hasRouters = false)
    (hl : h ≠ 0 → l.kids.length = l.keys.length + 1) :
    (l.join k r).records T h = l.records T h ++ k :: r.records T h := by
  have htoken : T.tokenAt h k = .record k := by
    simp [Cfg.tokenAt, Cfg.sep, hrouters]
  rw [Node.records, tokens_join hl, htoken, recordsOf_append, recordsOf_record]
  rfl

/-- `removeByKeyNum` on the root page. -/
theorem BaseBStarTree.removeByKeyNum_rootSized (hT : T.Valid) (hk : T.treeType = .bStarTree)
    (hlt : StrictWeak T.compare) (heq : T.Equates) (hfuel : 2 * h < fuel)
    (hs : Stands s R .rootPage h t) (hslots : t.keys.length ≤ T.slots) (hsz : SizedBelow T h t.kids)
    (hsorted : Sorted T.compare (t.tokens T h)) (hkeys : t.keys = A ++ k :: B)
    (hat : BaseBStarTree.RemovesAt T h true t A.length) (hfit : 2 ≤ h → T.MergeBufferFits) :
    Returns (BaseBStarTree.removeByKeyNum T fuel A.length .rootPage) s
      (RootKeySized T k R h t A.length) := by
  induction h generalizing s R t A B k fuel with
  | zero =>
    obtain ⟨fuel, rfl⟩ := Nat.exists_eq_succ_of_ne_zero (by omega : fuel ≠ 0)
    obtain ⟨q, K, C⟩ := t
    obtain rfl : K = A ++ k :: B := hkeys
    refine (BaseBStarTree.removeByKeyNum_leaf hlt heq hs hslots).mono ?_
    rintro b s' ⟨hb, t', hremoved, htaken⟩
    exact ⟨hb, 0, t', hremoved.stands_root hs, htaken, fun hsz _ => hremoved.rootSized hsz (absurd rfl)⟩
  | succ h ih =>
    obtain ⟨fuel, rfl⟩ := Nat.exists_eq_succ_of_ne_zero (by omega : fuel ≠ 0)
    obtain ⟨q, K, C⟩ := t
    obtain rfl : K = A ++ k :: B := hkeys
    obtain ⟨P, l, r, S, rfl, hP⟩ := exists_pair hs.rep.length_kids rfl
    obtain ⟨l', k', r', hl', hk', hr', hcase⟩ := hat
    obtain rfl : l = l' := by simpa [← hP] using hl'
    obtain rfl : k = k' := by simpa using hk'
    obtain rfl : r = r' := by simpa [← hP, List.getElem?_append_right] using hr'
    rcases hcase with hrich | hrich | ⟨hlpoor, hrpoor, x, hx, hkx, hat⟩
    · exact (BaseBStarTree.removeByKeyNum_rich hT hk hlt heq (by omega) hs hP hslots hsz
        (Or.inl hrich) fun _ => hfit (by omega)).mono fun _ _ hkey => hkey.root hs
    · exact (BaseBStarTree.removeByKeyNum_rich hT hk hlt heq (by omega) hs hP hslots hsz
        (Or.inr hrich) fun _ => hfit (by omega)).mono fun _ _ hkey => hkey.root hs
    · -- the two children are merged
      have hrouters : T.treeType.hasRouters = false := by rw [hk]; rfl
      obtain ⟨-, -, -, hslots2, hminOf, hmaxOf⟩ := bStarTree_sizes hT hk h
      obtain ⟨-, hrl, -⟩ := hs.holds_pair
      have hszl : l.Sized T h := hsz l (by simp)
      have hszr : r.Sized T h := hsz r (by simp)
      have hlow := (sized_iff.mp hszl).1.1
      have hjoin : (l.join k r).keys.length = l.keys.length + 1 + r.keys.length := by
        rw [Node.join, List.length_append, List.length_cons]
        omega
      have hlkids : h ≠ 0 → l.kids.length = l.keys.length + 1 := hrl.length_kids_of_pos
      have hrecords := records_join (k := k) (r := r) hrouters hlkids
      have hold := records_around₂ (q := q) (h := h) (k := k) (l := l) (r := r) (B := B) (S := S) hrouters hP
      have hsortedJoin : Sorted T.compare ((l.join k r).tokens T h) := by
        have htok : (⟨q, A ++ k :: B, P ++ ([l, r] ++ S)⟩ : Node κ).tokens T (h + 1) = _ :=
          tokens_around₂ hP
        rw [htok] at hsorted
        rw [tokens_join hlkids, tokenAt_bTree (by rw [hk]; rfl) h]
        exact (sorted_append.mp (sorted_append.mp hsorted).2.1).1
      have hszJoin : SizedBelow T h (l.join k r).kids :=
        sizedBelow_append.mpr ⟨(sized_iff.mp hszl).2, (sized_iff.mp hszr).2⟩
      obtain ⟨hjlt, hjx⟩ := List.getElem?_eq_some_iff.mp hx
      have hkeysd : (l.join k r).keys = (l.join k r).keys.take (T.maxKeys / 2) ++
          x :: (l.join k r).keys.drop (T.maxKeys / 2 + 1) := by
        rw [← hjx, ← List.drop_eq_getElem_cons hjlt, List.take_append_drop]
      have hjlen : ((l.join k r).keys.take (T.maxKeys / 2)).length = T.maxKeys / 2 := by
        rw [List.length_take]
        omega
      obtain ⟨cd, hmerge, hcd⟩ := BaseBStarTree.mergeChildren_eq (T := T) hs hslots (by omega)
      have hroot : s.rootPageNum = q := hs.at_page.root
      refine Returns.of_eq ?_ (BaseBStarTree.removeByKeyNum_poor hs hP hslots hlpoor hrpoor)
      unfold BaseBStarTree.removeBetweenPoor
      refine Returns.step (isRoot_run s _) ?_
      rw [if_pos (by simpa [BTree.wrapper] using hroot)]
      by_cases hkeep : A ++ B = []
      · -- the merged page becomes the root page
        obtain ⟨rfl, rfl⟩ := List.append_eq_nil_iff.mp hkeep
        obtain rfl : P = [] := List.length_eq_zero_iff.mp hP
        obtain rfl : S = [] := List.length_eq_zero_iff.mp (by
          have := hs.rep.length_kids
          simpa using this)
        refine ((finishMerge_collapse hs (by simpa using hslots) (m := l.join k r) rfl rfl hcd).of_eq
          hmerge).bind ?_
        rintro ⟨cp, w⟩ s1 ⟨hw, -, hs1⟩
        obtain rfl : w = s1.wrapper (l.join k r).page := hw
        have hroot1 : s1.rootPageNum = (l.join k r).page := hs1.at_page.root
        refine Returns.step (isRoot_run s1 _) ?_
        rw [if_pos (by simpa [BTree.wrapper] using hroot1), ← hjlen]
        refine (ih (by omega) hs1 (by omega) hszJoin hsortedJoin hkeysd (by rw [hjlen]; exact hat)
          fun _ => hfit (by omega)).mono ?_
        rintro _ s' ⟨rfl, H, n, hs', htaken, hsized⟩
        refine ⟨rfl, H, n, hs', ?_, fun _ hfits => hsized ⟨?_, fun _ => ?_, hszJoin⟩ ?_⟩
        · rw [hold, ← hrecords]
          simpa [tokensBefore, tokensAfter, before, after] using htaken.of_equal hlt heq hkx
        · rw [maxRootOf_bStarTree hT hk]
          omega
        · omega
        · rw [hjlen]
          rcases hfits l k r rfl rfl rfl hlpoor hrpoor with hle | ⟨-, hfits⟩
          · exact BaseBStarTree.mergeFits_of_le hle _ _
          · exact hfits
      · refine ((finishMerge_kept hs hP hslots hkeep (m := l.join k r) rfl rfl hcd).of_eq
          hmerge).bind ?_
        rintro _ s1 ⟨ref1, rfl, hf, hs1⟩
        have hkid := hs1.toHeld.kid
        have hnotRoot : s1.rootPageNum ≠ (l.join k r).page := fun heq' => by
          have hmem : s1.rootPageNum ∈ around q h P S R := hkid.at_page.root
          exact hkid.page_not_mem (heq' ▸ hmem)
        have hone : ((A ++ k :: B).length == 1) = false := by
          rw [beq_eq_false_iff_ne, List.length_append, List.length_cons]
          intro hone
          exact hkeep (List.length_eq_zero_iff.mp (by rw [List.length_append]; omega))
        change BaseBStarTree.RemovesAt T h ((A ++ k :: B).length == 1) _ _ at hat
        rw [hone] at hat
        refine Returns.step (isRoot_run s1 _) ?_
        rw [if_neg (by simpa [BTree.wrapper] using hnotRoot), ← hjlen]
        refine (BaseBStarTree.removeByKeyNum_inner hT hk hlt heq (by omega) hkid hnotRoot (by omega)
          (by omega) hszJoin hsortedJoin hkeysd (by rw [hjlen]; exact hat)
          fun _ => hfit (by omega)).mono ?_
        rintro _ s' ⟨rfl, m, hremoved, htaken⟩
        obtain ⟨ref', hm⟩ := hremoved.stands
        have hs' := hs1.putBack hremoved.frame hm hremoved.page_eq
        have hroot' : s'.rootPageNum = q := by
          rw [hremoved.frame.rootPageNum_eq, hf.rootPageNum_eq]
          exact hroot
        rw [hs'.ref_eq hroot'] at hs'
        refine ⟨rfl, h + 1, ⟨q, A ++ B, P ++ m :: S⟩, hs', ?_, fun hrootsz hfits => ⟨?_, fun _ => ?_, ?_⟩⟩
        rotate_left
        · refine le_trans ?_ hrootsz.le_max
          simp
        · exact List.length_pos_iff.mpr hkeep
        · -- the merged page is not too large
          have hfit : 2 * T.minKeys + 1 ≤ T.maxKeys := by
            refine (hfits l k r hl' hk' hr' hlpoor hrpoor).resolve_right fun hshrinks => ?_
            rw [hshrinks.1] at hone
            cases hone
          have hlow' := (sized_iff.mp hszr).1.1
          have hle := hremoved.keys_le
          have hge := hremoved.le_keys
          rw [sizedBelow_append] at hsz ⊢
          refine ⟨hsz.1, sizedBelow_cons.mpr ⟨sized_iff.mpr ⟨?_, hremoved.sized⟩,
            (sizedBelow_append.mp hsz.2).2⟩⟩
          rw [hmaxOf]
          omega
        have hnew : (⟨q, A ++ B, P ++ m :: S⟩ : Node κ).records T (h + 1) =
            recordsOf (tokensBefore T h P A) ++ (m.records T h ++ recordsOf (tokensAfter T h B S)) := by
          rw [Node.records, tokens_around hP, recordsOf_append, recordsOf_append]
          rfl
        rw [hold, ← hrecords, hnew]
        exact (htaken.of_equal hlt heq hkx).context _ _

theorem BaseBStarTree.removeByKeyNum_root (hT : T.Valid) (hk : T.treeType = .bStarTree)
    (hlt : StrictWeak T.compare) (heq : T.Equates) (hfuel : 2 * h < fuel)
    (hs : Stands s R .rootPage h t) (hslots : t.keys.length ≤ T.slots) (hsz : SizedBelow T h t.kids)
    (hsorted : Sorted T.compare (t.tokens T h)) (hkeys : t.keys = A ++ k :: B)
    (hat : BaseBStarTree.RemovesAt T h true t A.length) (hfit : 2 ≤ h → T.MergeBufferFits) :
    Returns (BaseBStarTree.removeByKeyNum T fuel A.length .rootPage) s (RootKeyTaken T k R h t) :=
  (BaseBStarTree.removeByKeyNum_rootSized hT hk hlt heq hfuel hs hslots hsz hsorted hkeys hat hfit).mono
    fun _ _ hkey => hkey.taken

/-! ## The whole tree -/

/-- `BaseBStarTree::removeByKeyNum` for the key `k` in the place `i` of an inner page at the end of the way
`Z`: the root page, or a page with a key to spare. When `BaseBStarTree.RemovesAt` holds, and the buffers for
the keys of three minimal pages fit if the children of the root page are not leaves, it returns true, and
exactly one record, equal to `k`, is taken out of the sequence of the whole tree. -/
theorem BaseBStarTree.removeByKeyNum_removes (hT : T.Valid) (hk : T.treeType = .bStarTree)
    (hlt : StrictWeak T.compare) (heq : T.Equates) {Z : List (ℕ × Focus κ)} {i : ℕ}
    (hw : WellFormed T s (h + 1 + Z.length) (plug Z t))
    (hready : Z ≠ [] → T.minKeys + 1 ≤ t.keys.length) (hi : t.keys[i]? = some k)
    (hfuel : 2 * (h + 1) < fuel) (hat : BaseBStarTree.RemovesAt T (h + 1) Z.isEmpty t i)
    (hfit : 2 ≤ h + 1 + Z.length → T.MergeBufferFits) :
    Returns (BaseBStarTree.removeByKeyNum T fuel i (pageAt s t.page Z)) s fun b s' => b = true ∧
      ∃ R H n, Stands s' R .rootPage H n ∧
        TakenFrom T k ((plug Z t).records T (h + 1 + Z.length)) (n.records T H) := by
  obtain ⟨R, hs⟩ := hw.stands
  have hslots : t.keys.length ≤ T.slots := length_keys_of_plug hT hw.sized
  have hsz : SizedBelow T (h + 1) t.kids := sizedBelow_of_plug hw.sized.below
  have hsorted : Sorted T.compare (t.tokens T (h + 1)) := sorted_of_plug hw.sorted
  obtain ⟨hlt', hix⟩ := List.getElem?_eq_some_iff.mp hi
  have hkeys : t.keys = t.keys.take i ++ k :: t.keys.drop (i + 1) := by
    rw [← hix, ← List.drop_eq_getElem_cons hlt', List.take_append_drop]
  have hlen : (t.keys.take i).length = i := by
    rw [List.length_take]
    omega
  by_cases hZ : Z = []
  · subst hZ
    have hroot := BaseBStarTree.removeByKeyNum_root hT hk hlt heq hfuel hs hslots hsz hsorted hkeys
      (by rw [hlen]; exact hat) fun hh => hfit (by simpa using hh)
    rw [hlen] at hroot
    exact hroot.mono fun b s' ⟨hb, H, n, hn, htaken⟩ => ⟨hb, R, H, n, hn, htaken⟩
  · have hpage : Stands s (beside (h + 1) Z R) (pageAt s t.page Z) (h + 1) t := hs.descend
    have hfalse : Z.isEmpty = false := by simpa using hZ
    rw [hfalse] at hat
    have hinner := BaseBStarTree.removeByKeyNum_inner hT hk hlt heq hfuel hpage (hpage.not_root hZ) hslots
      (hready hZ) hsz hsorted hkeys (by rw [hlen]; exact hat) fun _ => hfit (by
        have := List.length_pos_iff.mpr hZ
        omega)
    rw [hlen] at hinner
    refine hinner.mono ?_
    rintro b s' ⟨hb, t', hremoved, htaken⟩
    obtain ⟨ref', ht'⟩ := hremoved.stands
    refine ⟨hb, R, _, _, hs.refill hremoved.frame ht' hremoved.page_eq, ?_⟩
    obtain ⟨F, G, hFG⟩ := tokens_plug T (h + 1) Z
    rw [Node.records, Node.records, hFG, hFG]
    simp only [recordsOf_append]
    exact htaken.context _ _

end

/-! ## A page between minimal leaves -/

/-- The last key, 9, of page 2 of `BTree.minimalLeaves`. -/
theorem removeByKeyNum_removes_nine :
    Returns (BaseBStarTree.removeByKeyNum (natCfg .bStarTree 4) 3 2 (.local (BTree.minimalLeaves.wrapper 2)))
      BTree.minimalLeaves fun b s' => b = true ∧ ∃ R H n, Stands s' R .rootPage H n ∧
        TakenFrom (natCfg .bStarTree 4) 9 ((plug BTree.toSecondLeaf (Focus.secondLeaf.node 2)).records
          (natCfg .bStarTree 4) 2) (n.records (natCfg .bStarTree 4) H) := by
  exact BaseBStarTree.removeByKeyNum_removes (T := natCfg .bStarTree 4) (h := 0)
    (Z := BTree.toSecondLeaf) (t := Focus.secondLeaf.node 2) (k := 9) (i := 2) ⟨4, 4, rfl⟩ rfl
    (natCfg_strictWeak _ _) (natCfg_equates _ _) minimalLeaves_wellFormed (fun _ => by decide) (by decide)
    (by decide) ⟨⟨6, [7, 8], []⟩, 9, ⟨7, [10, 11], []⟩, rfl, rfl, rfl, Or.inr (Or.inr ⟨by decide, by decide,
      rfl, ⟨5, [4, 5], []⟩, 1, 9, by decide, rfl, by decide, by decide, by decide, by decide, trivial⟩)⟩
      fun _ => by decide

/-- For the first key, 3, of page 2 the call returns false. -/
theorem removeByKeyNum_misses_three :
    WellFormed (natCfg .bStarTree 4) BTree.minimalLeaves 2
        (plug BTree.toSecondLeaf (Focus.secondLeaf.node 2)) ∧
      (natCfg .bStarTree 4).minKeys + 1 ≤ (Focus.secondLeaf.node 2).keys.length ∧
      (Focus.secondLeaf.node 2).keys[0]? = some 3 ∧
      ¬Returns (BaseBStarTree.removeByKeyNum (natCfg .bStarTree 4) 22 0
          (.local (BTree.minimalLeaves.wrapper 2))) BTree.minimalLeaves fun b s' => b = true ∧
        ∃ R H n, Stands s' R .rootPage H n ∧
          TakenFrom (natCfg .bStarTree 4) 3 ((plug BTree.toSecondLeaf (Focus.secondLeaf.node 2)).records
            (natCfg .bStarTree 4) 2) (n.records (natCfg .bStarTree 4) H) := by
  refine ⟨minimalLeaves_wellFormed, by decide, rfl, ?_⟩
  rintro ⟨b, s', hrun, rfl, -⟩
  have hfalse : (BaseBStarTree.removeByKeyNum (natCfg .bStarTree 4) 22 0
      (.local (BTree.minimalLeaves.wrapper 2)) BTree.minimalLeaves).toOption.map Prod.fst =
        some false := by decide +kernel
  rw [hrun] at hfalse
  cases hfalse

end BTreesMods
