import BTreesMods.Removal.PrepareStar
import BTreesMods.Removal.DescendBTree

/-!
# The greatest and the least key of a subtree

What `getAndRemoveMaxKey` and `getAndRemoveMinKey` do below a page that is ready. Both go down to the
last leaf; `getAndRemoveMinKey` takes the first key of that leaf, which is the least key of the
subtree only when the subtree is a leaf.
-/

namespace BTreesMods

variable {κ : Type} [Inhabited κ]

/-- What `prepareSubtree` does to the last child of a page that is ready. -/
def PreparesLast (T : Cfg κ) : Prop :=
  ∀ s R h p (f : Focus κ), Stands s R (.local (s.wrapper p)) (h + 1) (f.node p) → f.keysR = [] →
    (f.node p).Sized T (h + 1) → T.minOf (h + 1) < (f.node p).keys.length →
    (T.treeType = .bStarTree → f.MergesThree T → T.MergeBufferFits) →
    Returns (prepareSubtree T f.keysL.length (.local (s.wrapper p))) s fun r s1 => ∃ ref1 f1,
      (if r.merged then r.leftNeighbour else r.child) = s1.wrapper f1.kid.page ∧
        Readied T s R h p f s1 ref1 f1 ∧ OrderKept T h p f f1 ∧
        Extended f.kid f1.kid (T.lastGain f.kid f.kidsL.reverse)

/-- The number of keys of the last leaf when a descent along the last children reaches it. -/
def Node.lastLeafSize (T : Cfg κ) : ℕ → Node κ → ℕ
  | 0, t => t.keys.length
  | h + 1, t =>
    match t.kids.reverse with
    | [] => 0
    | c :: ls => if h = 0 then c.keys.length + T.lastGain c ls else c.lastLeafSize T h

/-- A descent of a B*-tree along the last children merges the last three children of some page. -/
def Node.MergesLast (T : Cfg κ) : ℕ → Node κ → Prop
  | 0, _ => False
  | h + 1, t => (∀ c ∈ t.kids.reverse.take 3, c.keys.length ≤ T.minKeys) ∨
      ∃ c ∈ t.kids.getLast?, c.MergesLast T h

/-- A descent along the last children finds the buffers that it needs. -/
def Node.LastFits (T : Cfg κ) (h : ℕ) (t : Node κ) : Prop :=
  T.treeType = .bStarTree → t.MergesLast T h → T.MergeBufferFits

/-- One record of the sequence is taken out. -/
structure Erased (x : κ) (ts us : List (Token κ)) : Prop where
  sublist : us.Sublist ts
  perm : (recordsOf ts).Perm (x :: recordsOf us)

section

variable {T : Cfg κ} {s : BTree κ} {R : Multiset ℕ} {ref : PageRef κ} {h p fuel : ℕ} {t : Node κ}
  {A B : List κ} {P : List (Node κ)} {x y k : κ} {ts us F G : List (Token κ)}

omit [Inhabited κ] in
theorem Erased.drops (he : Erased x ts us) (hx : T.isEqual k x = true) : Drops T k true ts us :=
  ⟨he.sublist, fun _ => ⟨x, hx, he.perm⟩, fun hb => by simp at hb⟩

omit [Inhabited κ] in
theorem Erased.context (he : Erased x ts us) (F G : List (Token κ)) :
    Erased x (F ++ (ts ++ G)) (F ++ (us ++ G)) where
  sublist := (List.Sublist.refl F).append (he.sublist.append (List.Sublist.refl G))
  perm := by
    have hmiddle := (List.Perm.refl (recordsOf F)).append
      (he.perm.append (List.Perm.refl (recordsOf G)))
    simp only [recordsOf_append]
    exact hmiddle.trans List.perm_middle

omit [Inhabited κ] in
theorem Erased.of_thinned {vs : List (Token κ)} (hth : Thinned ts us) (he : Erased x us vs) :
    Erased x ts vs := by
  refine ⟨he.sublist.trans hth.sublist, ?_⟩
  rw [← hth.records_eq]
  exact he.perm

omit [Inhabited κ] in
theorem Erased.record (x : κ) (F G : List (Token κ)) : Erased x (F ++ .record x :: G) (F ++ G) :=
  ⟨(List.Sublist.refl F).append (List.sublist_cons_self _ _), by
    simp only [recordsOf_append, recordsOf_record]
    exact List.perm_middle⟩

/-! ## A page with other keys -/

omit [Inhabited κ] in
/-- `removeKey` on a leaf. -/
theorem removeKey_stands (hs : Stands s R ref 0 ⟨p, A ++ x :: B, P⟩)
    (hslots : (A ++ x :: B).length ≤ T.slots) :
    ∃ d, (s.wrapper p).data.removeKey T.slots A.length = .ok d ∧
      (⟨p, A ++ B, P⟩ : Node κ).On 0 d := by
  have hP : P = [] := hs.below
  have hon : (s.wrapper p).data.Holds true (A ++ x :: B) (P.map Node.page) := hs.rep.on
  obtain ⟨d, hrun, hd⟩ := hon.removeKey (hon.keysNum_le hslots)
  subst hP
  exact ⟨d, hrun, hd⟩

omit [Inhabited κ] in
/-- The leaf branch of the two `removeByKeyNum`. -/
theorem removeInLeaf_spec (hs : Stands s R ref 0 ⟨p, A ++ x :: B, P⟩)
    (hslots : (A ++ x :: B).length ≤ T.slots) :
    Returns (removeInLeaf T A.length ref) s fun _ s1 =>
      Removed T s R 0 ⟨p, A ++ x :: B, P⟩ s1 ⟨p, A ++ B, P⟩ ∧
        Stands s1 R (ref.assign (s1.wrapper p)) 0 ⟨p, A ++ B, P⟩ := by
  obtain ⟨d, hrun, hd⟩ := removeKey_stands hs hslots
  obtain ⟨hs1, hf⟩ := hs.writeTop hd
  have hw : ((s.assign ref ⟨p, d⟩).write p d).wrapper p = ⟨p, d⟩ := by
    rw [BTree.wrapper, write_page, Function.update_self]
  unfold removeInLeaf
  refine Returns.step (load_run s ref) ?_
  rw [hs.value_eq]
  refine Returns.step (onPages_run hrun s) (Returns.step (store_run s ref ⟨p, d⟩)
    ⟨(), _, writePage_run (hs.store.assign ref ⟨p, d⟩) (page_mem_add _ _ _) d,
      ⟨rfl, hf, ⟨_, hs1⟩, trivial, ?_, ?_⟩, ?_⟩)
  · simp
  · simp only [List.length_append, List.length_cons]
    omega
  · rw [hw]
    exact hs1

omit [Inhabited κ] in
/-- `replaceKey` on a page. -/
theorem replaceKey_spec (hs : Stands s R ref h ⟨p, A ++ x :: B, P⟩)
    (hslots : (A ++ x :: B).length ≤ T.slots) (y : κ) :
    Returns (replaceKey T A.length ref y) s fun _ s1 => Frame s s1 R ∧
      ∃ ref1, Stands s1 R ref1 h ⟨p, A ++ y :: B, P⟩ := by
  have hon : (s.wrapper p).data.Holds (h == 0) (A ++ x :: B) (P.map Node.page) := hs.rep.on
  obtain ⟨d, hrun, hd⟩ := hon.copyKey (hon.keysNum_le hslots) y
  obtain ⟨hs1, hf⟩ := hs.writeTop (show (⟨p, A ++ y :: B, P⟩ : Node κ).On h d from hd)
  unfold replaceKey
  refine Returns.step (load_run s ref) ?_
  rw [hs.value_eq]
  exact Returns.step (onPages_run hrun s) (Returns.step (store_run s ref ⟨p, d⟩)
    ⟨(), _, writePage_run (hs.store.assign ref ⟨p, d⟩) (page_mem_add _ _ _) d, hf, _, hs1⟩)

/-! ## Merges of three children -/

section

variable {f : Focus κ} {c n : Node κ} {j : ℕ}

omit [Inhabited κ] in
theorem mergesLast_node (hlast : f.kidsR = []) : (f.node p).MergesLast T (h + 1) ↔
    (∀ c ∈ (f.kid :: f.kidsL.reverse).take 3, c.keys.length ≤ T.minKeys) ∨ f.kid.MergesLast T h := by
  simp [Node.MergesLast, Focus.node, hlast]

omit [Inhabited κ] in
theorem Focus.mergesThree_last (hkeys : f.keysR = []) (hkids : f.kidsR = []) (hne : f.keysL ≠ []) :
    f.MergesThree T ↔ ∀ c ∈ (f.kid :: f.kidsL.reverse).take 3, c.keys.length ≤ T.minKeys := by
  rw [List.take_succ_cons]
  constructor
  · intro hthree c hc
    rcases List.mem_cons.mp hc with rfl | hc
    · exact hthree.poor
    · exact hthree.left hkeys c hc
  · intro hmin
    refine ⟨hmin f.kid List.mem_cons_self, ⟨fun l hl => hmin l (List.mem_cons_of_mem _ ?_), by simp [hkids]⟩,
      fun _ c hc => hmin c (List.mem_cons_of_mem _ hc), fun hnil => absurd hnil hne⟩
    obtain ⟨ls, hls⟩ := List.getLast?_eq_some_iff.mp hl
    simp [hls]

omit [Inhabited κ] in
/-- Children in front of three others do not count. -/
theorem Extended.mergesLast (he : Extended c n j) (hlen : h ≠ 0 → 3 ≤ c.kids.length) :
    n.MergesLast T h ↔ c.MergesLast T h := by
  cases h with
  | zero => rfl
  | succ h =>
    obtain ⟨U, X, -, hkids, -⟩ := he
    have hthree : 3 ≤ c.kids.length := hlen (Nat.succ_ne_zero h)
    have htake : n.kids.reverse.take 3 = c.kids.reverse.take 3 := by
      rw [hkids, List.reverse_append, List.take_append_of_le_length (by simpa using hthree)]
    have hlast : n.kids.getLast? = c.kids.getLast? := by
      rw [hkids, List.getLast?_append_of_ne_nil _ (List.ne_nil_of_length_pos (by omega))]
    rw [Node.MergesLast, Node.MergesLast, htake, hlast]

omit [Inhabited κ] in
theorem Node.LastFits.step (hfit : (f.node p).LastFits T (h + 1)) (hkeys : f.keysR = [])
    (hkids : f.kidsR = []) (hne : f.keysL ≠ []) :
    T.treeType = .bStarTree → f.MergesThree T → T.MergeBufferFits := fun hk hthree =>
  hfit hk ((mergesLast_node hkids).mpr (Or.inl ((Focus.mergesThree_last hkeys hkids hne).mp hthree)))

omit [Inhabited κ] in
/-- A child of a B*-tree that is not a leaf has three children. -/
theorem three_le_kids (hT : T.Valid) (hk : T.treeType = .bStarTree) {page : ℕ → Page κ} (hr : Rep page h c)
    (hsz : c.Sized T h) (hh : h ≠ 0) : 3 ≤ c.kids.length := by
  obtain ⟨htwo, -, -, -, hmin, -⟩ := bStarTree_sizes hT hk h
  have hlen := hr.length_kids_of_pos hh
  have hlow := (sized_iff.mp hsz).1.1
  omega

omit [Inhabited κ] in
theorem Node.LastFits.down (hT : T.Valid) (hfit : (f.node p).LastFits T (h + 1)) (hkids : f.kidsR = [])
    {page : ℕ → Page κ} (hr : Rep page h f.kid) (hsz : f.kid.Sized T h) (he : Extended f.kid n j) :
    n.LastFits T h := fun hk hmerges =>
  hfit hk ((mergesLast_node hkids).mpr (Or.inr
    ((he.mergesLast (three_le_kids hT hk hr hsz)).mp hmerges)))

end

/-! ## The greatest key -/

omit [Inhabited κ] in
/-- A node seen from its last child. -/
theorem exists_lastFocus {page : ℕ → Page κ} (hr : Rep page (h + 1) t) :
    ∃ f : Focus κ, t = f.node t.page ∧ f.keysR = [] ∧ f.keysL = t.keys := by
  obtain ⟨q, K, C⟩ := t
  have hlen : C.length = K.length + 1 := hr.length_kids
  obtain ⟨P, c, rfl⟩ := List.eq_nil_or_concat' C |>.resolve_left fun hnil => by
    rw [hnil] at hlen
    simp at hlen
  exact ⟨⟨K, [], P, c, [], by simpa using hlen⟩, by simp [Focus.node], rfl, rfl⟩

omit [Inhabited κ] in
/-- The last child ends the sequence of a node. -/
theorem Focus.tokens_last (f : Focus κ) (hlast : f.keysR = []) : (f.node p).tokens T (h + 1) =
    tokensBefore T h f.kidsL f.keysL ++ f.kid.tokens T h := by
  rw [Focus.tokens_node, hlast, tokensAfter, List.map_nil, after, List.append_nil]

omit [Inhabited κ] in
/-- The last key of a leaf is cut off. -/
theorem dropLast_stands (hs : Stands s R (.local (s.wrapper p)) 0 ⟨p, A ++ [y], P⟩) :
    ∃ d, (s.wrapper p).data.setKeyNum A.length = d ∧
      Stands (s.write p d) R (.local ⟨p, d⟩) 0 ⟨p, A, P⟩ ∧ Frame s (s.write p d) R := by
  have hP : P = [] := hs.below
  subst hP
  have hon : (s.wrapper p).data.Holds true (A ++ [y]) ([] ++ []) := hs.rep.on
  have hd := hon.setKeyNum (fun hh => by cases hh)
  obtain ⟨hs1, hf⟩ := hs.writeTop (show (⟨p, A, []⟩ : Node κ).On 0 _ from hd)
  exact ⟨_, rfl, hs1, hf⟩

/-- `getAndRemoveMaxKey` takes the greatest key out of a tree. -/
theorem getAndRemoveMaxKey_spec (hT : T.Valid) (hprep : PreparesLast T) (hfuel : h < fuel)
    (hs : Stands s R (.local (s.wrapper t.page)) h t) (hsz : t.Sized T h)
    (hready : T.minOf h < t.keys.length) (hfit : t.LastFits T h) :
    Returns (getAndRemoveMaxKey T fuel (s.wrapper t.page)) s fun y s' => ∃ t',
      Removed T s R h t s' t' ∧ Thinned (t.tokens T h) (t'.tokens T h ++ [.record y]) := by
  induction fuel generalizing h s R t with
  | zero => omega
  | succ fuel ih =>
    have hslots : t.keys.length ≤ T.slots := (sized_iff.mp hsz).1.2.trans (maxOf_le_slots hT h)
    have hkn : (s.wrapper t.page).data.keysNum = t.keys.length := hs.rep.on.keysNum_eq
    have hleaf : (s.wrapper t.page).data.isLeaf = (h == 0) := hs.rep.on.leaf_eq
    unfold getAndRemoveMaxKey
    cases h with
    | zero =>
      obtain ⟨q, K, C⟩ := t
      obtain ⟨K, y, rfl⟩ := List.eq_nil_or_concat' K |>.resolve_left fun hnil => by
        subst hnil
        simp at hready
      have hon : (s.wrapper q).data.Holds true (K ++ [y]) (C.map Node.page) := hs.rep.on
      have hkn' : (s.wrapper q).data.keysNum - 1 = K.length := by
        rw [hon.keysNum_eq, List.length_append, List.length_singleton, Nat.add_sub_cancel]
      have hkey : (s.wrapper q).data.getKey T.slots K.length = .ok y :=
        hon.getKey (hon.keysNum_le hslots)
      obtain ⟨d, hd, hs1, hf⟩ := dropLast_stands hs
      have hleaf' : (s.wrapper q).data.isLeaf = true := hon.leaf_eq
      dsimp only at *
      rw [if_pos hleaf', hkn', hd]
      refine Returns.step (onPages_run hkey s) (Returns.step (writePage_run hs.store
        (page_mem_add _ _ _) d) (Returns.pure ⟨⟨q, K, C⟩, ⟨rfl, hf, ⟨_, hs1⟩, trivial, ?_, ?_⟩, ?_⟩))
      · simp
      · simp
      · exact Thinned.of_eq (by simp [Node.tokens])
    | succ h =>
      obtain ⟨f, ht, hKR, hKL⟩ := exists_lastFocus hs.rep
      rw [if_neg (by simp [hleaf]), hkn, ← hKL]
      rw [ht] at hsz hready hfit
      have hs' : Stands s R (.local (s.wrapper t.page)) (h + 1) (f.node t.page) := by
        rwa [← ht]
      have hSR : f.kidsR = [] := List.length_eq_zero_iff.mp (by rw [Focus.length_right hs', hKR]; rfl)
      have hne : f.keysL ≠ [] := fun hnil => by simp [Focus.node, hnil, hKR] at hready
      have hkid : f.kid.Sized T h := (sized_iff.mp hsz).2 f.kid (by simp [Focus.node])
      have hrk : Rep s.stream.page h f.kid := hs'.rep.2 f.kid (by simp [Focus.node])
      refine (hprep s R h t.page f hs' hKR hsz hready (hfit.step hKR hSR hne)).bind ?_
      rintro r s1 ⟨ref1, f1, hw, hready1, hkept, hextended⟩
      have hgo : (if r.merged then getAndRemoveMaxKey T fuel r.leftNeighbour
          else getAndRemoveMaxKey T fuel r.child) =
          getAndRemoveMaxKey T fuel (s1.wrapper f1.kid.page) := by
        rw [← hw]
        split <;> rfl
      rw [hgo]
      refine (ih (by omega) hready1.stands.toHeld.kid hready1.kid_sized hready1.ready
        (hfit.down hT hSR hrk hkid hextended)).mono ?_
      rintro y s' ⟨c', hremoved, hthin⟩
      refine ⟨(f1.put c').node t.page, ?_, ?_⟩
      · have := hready1.put hremoved
        rwa [← ht] at this
      · have hlast : f1.keysR = [] := hready1.last hKR
        rw [ht]
        refine hkept.thinned.trans ?_
        rw [f1.tokens_last hlast, (f1.put c').tokens_last hlast, List.append_assoc]
        have hcontext := hthin.context (tokensBefore T h f1.kidsL f1.keysL) []
        rw [List.append_nil, List.append_nil] at hcontext
        exact hcontext

/-! ## The first key of the last leaf -/

omit [Inhabited κ] in
theorem lastLeafSize_node (f : Focus κ) (hlast : f.kidsR = []) : (f.node p).lastLeafSize T (h + 1) =
    if h = 0 then f.kid.keys.length + T.lastGain f.kid f.kidsL.reverse else f.kid.lastLeafSize T h := by
  simp [Node.lastLeafSize, Focus.node, hlast]

omit [Inhabited κ] in
/-- Children in front of enough others do not count. -/
theorem Extended.lastLeafSize_eq {c n : Node κ} {j : ℕ} (he : Extended c n j) (hh : h ≠ 0)
    (hlen : T.reach < c.kids.length) : n.lastLeafSize T h = c.lastLeafSize T h := by
  obtain ⟨g, rfl⟩ := Nat.exists_eq_succ_of_ne_zero hh
  obtain ⟨U, X, -, hkids, -⟩ := he
  obtain ⟨e, ls, hrev⟩ := List.exists_cons_of_length_pos (l := c.kids.reverse) (by
    rw [List.length_reverse]
    omega)
  have hls : T.reach ≤ ls.length := by
    have := congrArg List.length hrev
    rw [List.length_reverse, List.length_cons] at this
    omega
  have hgain : T.lastGain e (ls ++ X.reverse) = T.lastGain e ls := by
    rw [Cfg.lastGain, Cfg.lastGain, List.take_append_of_le_length hls]
  simp only [Node.lastLeafSize, hkids, List.reverse_append, hrev, List.cons_append, hgain]

/-- `getAndRemoveMinKey` takes the first key of the last leaf out of a tree. -/
theorem getAndRemoveMinKey_spec (hT : T.Valid) (hprep : PreparesLast T)
    (hreach : ∀ h, T.reach ≤ T.minOf h) (hfuel : h < fuel)
    (hs : Stands s R (.local (s.wrapper t.page)) h t) (hsz : t.Sized T h)
    (hready : T.minOf h < t.keys.length) (hfit : t.LastFits T h) :
    Returns (getAndRemoveMinKey T fuel (s.wrapper t.page)) s fun y s' => ∃ t' A B,
      Removed T s R h t s' t' ∧ (t'.tokens T h).Sublist (t.tokens T h) ∧
        t.records T h = A ++ y :: B ∧ t'.records T h = A ++ B ∧
        (h ≠ 0 → T.treeType.hasRouters = false → A ≠ []) ∧ B.length + 1 = t.lastLeafSize T h := by
  induction fuel generalizing h s R t with
  | zero => omega
  | succ fuel ih =>
    have hslots : t.keys.length ≤ T.slots := (sized_iff.mp hsz).1.2.trans (maxOf_le_slots hT h)
    have hkn : (s.wrapper t.page).data.keysNum = t.keys.length := hs.rep.on.keysNum_eq
    have hleaf : (s.wrapper t.page).data.isLeaf = (h == 0) := hs.rep.on.leaf_eq
    unfold getAndRemoveMinKey
    cases h with
    | zero =>
      obtain ⟨q, K, C⟩ := t
      obtain ⟨y, K, rfl⟩ := List.exists_cons_of_length_pos (Nat.zero_lt_of_lt hready)
      have hs₀ : Stands s R (.local (s.wrapper q)) 0 ⟨q, [] ++ y :: K, C⟩ := hs
      have hon : (s.wrapper q).data.Holds true ([] ++ y :: K) (C.map Node.page) := hs.rep.on
      have hkey : (s.wrapper q).data.getKey T.slots 0 = .ok y :=
        hon.getKey (hon.keysNum_le hslots)
      obtain ⟨d, hrun, hd⟩ := removeKey_stands (T := T) hs₀ hslots
      obtain ⟨hs1, hf⟩ := hs.writeTop hd
      have hleaf' : (s.wrapper q).data.isLeaf = true := hon.leaf_eq
      dsimp only at *
      rw [if_pos hleaf']
      refine Returns.step (onPages_run hkey s) (Returns.step (onPages_run hrun s)
        (Returns.step (writePage_run hs.store (page_mem_add _ _ _) d)
          (Returns.pure ⟨⟨q, K, C⟩, [], K, ⟨rfl, hf, ⟨_, hs1⟩, trivial, ?_, ?_⟩, ?_, ?_, ?_, ?_, rfl⟩)))
      · simp
      · simp
      · exact List.sublist_cons_self _ _
      · exact recordsOf_map_record (y :: K)
      · exact recordsOf_map_record K
      · exact fun hh => absurd rfl hh
    | succ h =>
      obtain ⟨f, ht, hKR, hKL⟩ := exists_lastFocus hs.rep
      rw [if_neg (by simp [hleaf]), hkn, ← hKL]
      rw [ht] at hsz hready hfit
      have hs' : Stands s R (.local (s.wrapper t.page)) (h + 1) (f.node t.page) := by
        rwa [← ht]
      have hSR : f.kidsR = [] := List.length_eq_zero_iff.mp (by rw [Focus.length_right hs', hKR]; rfl)
      have hne : f.keysL ≠ [] := fun hnil => by simp [Focus.node, hnil, hKR] at hready
      have hkid : f.kid.Sized T h := (sized_iff.mp hsz).2 f.kid (by simp [Focus.node])
      have hrk : Rep s.stream.page h f.kid := hs'.rep.2 f.kid (by simp [Focus.node])
      refine (hprep s R h t.page f hs' hKR hsz hready (hfit.step hKR hSR hne)).bind ?_
      rintro r s1 ⟨ref1, f1, hw, hready1, hkept, hextended⟩
      have hgo : (if r.merged then getAndRemoveMinKey T fuel r.leftNeighbour
          else getAndRemoveMinKey T fuel r.child) =
          getAndRemoveMinKey T fuel (s1.wrapper f1.kid.page) := by
        rw [← hw]
        split <;> rfl
      have hsize : f1.kid.lastLeafSize T h = t.lastLeafSize T (h + 1) := by
        rw [ht, lastLeafSize_node f hSR]
        split_ifs with hh
        · subst hh
          obtain ⟨U, X, hkeys, -, hU⟩ := hextended
          change f1.kid.keys.length = _
          rw [hkeys, List.length_append, hU, add_comm]
        · refine hextended.lastLeafSize_eq hh ?_
          have hlen : f.kid.kids.length = f.kid.keys.length + 1 := by
            obtain ⟨g, rfl⟩ := Nat.exists_eq_succ_of_ne_zero hh
            exact hrk.length_kids
          have := hreach h
          have := (sized_iff.mp hkid).1.1
          omega
      rw [hgo]
      refine (ih (by omega) hready1.stands.toHeld.kid hready1.kid_sized hready1.ready
        (hfit.down hT hSR hrk hkid hextended)).mono ?_
      rintro y s' ⟨c', A, B, hremoved, hsub, hA, hB, -, hlen⟩
      have hlast : f1.keysR = [] := hready1.last hKR
      refine ⟨(f1.put c').node t.page, recordsOf (tokensBefore T h f1.kidsL f1.keysL) ++ A, B, ?_, ?_, ?_,
        ?_, fun _ hrouters => ?_, hlen.trans hsize⟩
      · have := hready1.put hremoved
        rwa [← ht] at this
      · rw [ht]
        refine List.Sublist.trans ?_ hkept.thinned.sublist
        rw [f1.tokens_last hlast, (f1.put c').tokens_last hlast]
        exact (List.Sublist.refl _).append hsub
      · rw [ht, Node.records, ← hkept.thinned.records_eq, f1.tokens_last hlast, recordsOf_append]
        change _ ++ f1.kid.records T h = _
        rw [hA, List.append_assoc]
      · rw [Node.records, (f1.put c').tokens_last hlast, recordsOf_append]
        change _ ++ c'.records T h = _
        rw [hB, List.append_assoc]
        rfl
      · have hkeys : f1.keysL ≠ [] := fun hnil => by
          have hle := hready1.le_keys
          have hmin := one_le_minOf hT (h + 1)
          have hlen : (f1.node t.page).keys.length = 0 := by simp [Focus.node, hnil, hlast]
          omega
        obtain ⟨x, hx⟩ := List.exists_mem_of_ne_nil _ hkeys
        have hmem := sep_mem_tokensBefore (T := T) (h := h) f1.length_eq hx
        rw [Cfg.sep, if_neg (by simp [hrouters])] at hmem
        exact List.append_ne_nil_of_left_ne_nil (List.ne_nil_of_mem (mem_recordsOf.mpr hmem)) _

/-! ## The two trees -/

omit [Inhabited κ] in
/-- The keys that the last child of a B-tree page gets. -/
theorem BaseBTree.Next.extended {f : Focus κ} {n : Node κ} {b : Bool} (hk : T.treeType = .bTree)
    (hn : BaseBTree.Next T h f b n) (hlast : f.keysR = [])
    (hmin : ∀ l ∈ f.kidsL, T.minKeys ≤ l.keys.length) :
    Extended f.kid n (T.lastGain f.kid f.kidsL.reverse) := by
  have hreach : T.reach = 1 := by simp [Cfg.reach, hk, TreeType.isStar]
  cases hn with
  | rich hrich =>
    rw [Cfg.lastGain, if_pos hrich]
    exact Extended.refl f.kid
  | rotated hpoor hrot =>
    obtain ⟨l, hl, hlrich, hextended⟩ := hrot.extended_last hlast
    rwa [Cfg.lastGain, if_neg (by omega), if_pos ⟨l, hl, hlrich⟩]
  | @mergedLeft K1 P l x hpoor hstuck hkeys hkids =>
    have hl : l.keys.length = T.minKeys :=
      le_antisymm (hstuck.left l (by simp [hkids])) (hmin l (by simp [hkids]))
    have hnone : ¬∃ z ∈ f.kidsL.reverse.take T.reach, T.minKeys < z.keys.length := by
      rintro ⟨z, hz, hzrich⟩
      simp only [hkids, hreach, List.reverse_append, List.reverse_cons, List.reverse_nil, List.nil_append,
        List.cons_append, List.take_succ_cons, List.take_zero, List.mem_singleton] at hz
      rw [hz, hl] at hzrich
      omega
    rw [Cfg.lastGain, if_neg (by omega), if_neg hnone, Cfg.mergeGain, if_neg (by simp [hk, TreeType.isStar])]
    exact ⟨l.keys ++ [x], l.kids, by simp [Node.join], rfl, by simp [hl]⟩
  | mergedRight hpoor hstuck hfirst hkeys hkids =>
    rw [hlast] at hkeys
    cases hkeys

theorem preparesLast_bTree (hT : T.Valid) (hk : T.treeType = .bTree) (hlt : StrictWeak T.compare) :
    PreparesLast T := by
  intro s R h p f hs hlast hsz hready hfit
  obtain ⟨hpos, -, -, hmin, -⟩ := bTree_sizes hT hk h
  obtain ⟨-, -, -, hmin', -⟩ := bTree_sizes hT hk (h + 1)
  obtain ⟨⟨-, hhi⟩, hbelow⟩ := sized_iff.mp hsz
  have hprepare : prepareSubtree T = BaseBTree.prepareSubtree T := by
    unfold prepareSubtree
    rw [hk]
  rw [hprepare]
  refine (BaseBTree.prepareSubtree_spec hT hk hlt hs (hhi.trans (maxOf_le_slots hT _)) hbelow
    (Or.inl (by omega))).mono ?_
  rintro r s1 ⟨ref1, f1, hr, hready1, hkept, hnext⟩
  refine ⟨ref1, f1, hr, hready1, hkept, hnext.extended hk hlast fun l hl => ?_⟩
  have := (sized_iff.mp (hbelow l (by simp [Focus.node, hl]))).1.1
  omega

theorem preparesLast_bStarTree (hT : T.Valid) (hk : T.treeType = .bStarTree)
    (hlt : StrictWeak T.compare) : PreparesLast T := by
  intro s R h p f hs hlast hsz hready hfit
  obtain ⟨⟨-, hhi⟩, hbelow⟩ := sized_iff.mp hsz
  obtain ⟨-, -, -, -, hmin', -⟩ := bStarTree_sizes hT hk (h + 1)
  have hprepare : prepareSubtree T = BaseBStarTree.prepareSubtree T := by
    unfold prepareSubtree
    rw [hk]
  have hroot : s.rootPageNum ≠ p := fun heq => by
    have hmem : s.rootPageNum ∈ R := hs.at_page.root
    rw [heq] at hmem
    exact hs.page_not_mem hmem
  rw [hprepare]
  refine (BaseBStarTree.prepareSubtree_spec hT hk hlt (hfit hk) hs hroot (hhi.trans (maxOf_le_slots hT _)) hbelow
    (by omega) fun hmid => hmid.right hlast).mono ?_
  rintro r s1 ⟨ref1, f1, hr, hready1, hkept, hextended⟩
  exact ⟨ref1, f1, hr, hready1, hkept, hextended hlast⟩

/-! ## The trees without routers -/

omit [Inhabited κ] in
theorem hasRouters_eq_false (hk : T.treeType = .bTree ∨ T.treeType = .bStarTree) :
    T.treeType.hasRouters = false := by
  rcases hk with hk | hk
  · rw [hk]; rfl
  · rw [hk]; rfl

theorem preparesLast (hT : T.Valid) (hk : T.treeType = .bTree ∨ T.treeType = .bStarTree)
    (hlt : StrictWeak T.compare) : PreparesLast T := by
  rcases hk with hk | hk
  · exact preparesLast_bTree hT hk hlt
  · exact preparesLast_bStarTree hT hk hlt

omit [Inhabited κ] in
theorem minOf_eq_minKeys (hk : T.treeType = .bTree ∨ T.treeType = .bStarTree) (g : ℕ) :
    T.minOf g = T.minKeys := by
  rcases hk with hk | hk
  · simp [Cfg.minOf, hk]
  · simp [Cfg.minOf, hk]

omit [Inhabited κ] in
/-- A page has as many pages in reach as it has keys at least. -/
theorem reach_le_minOf (hT : T.Valid) (hk : T.treeType = .bTree ∨ T.treeType = .bStarTree) (g : ℕ) :
    T.reach ≤ T.minOf g := by
  rw [minOf_eq_minKeys hk, Cfg.reach]
  rcases hk with hk | hk
  · have := (bTree_sizes hT hk 0).1
    simpa [hk, TreeType.isStar] using this
  · have := (bStarTree_sizes hT hk 0).1
    simpa [hk, TreeType.isStar] using this

/-! ## Buffers that cannot be allocated -/

/-- A descent along the last children of a B*-tree, as both functions make it, throws where it merges three
children whose keys do not fit into a buffer. -/
theorem descendLast_throws (hT : T.Valid) (hk : T.treeType = .bStarTree) (hlt : StrictWeak T.compare)
    {descend : ℕ → PageWrapper κ → TreeM κ κ}
    (hdescend : ∀ fuel pw, pw.data.isLeaf = false → descend (fuel + 1) pw = do
      let prepared ← prepareSubtree T pw.data.keysNum (.local pw)
      if prepared.merged then descend fuel prepared.leftNeighbour else descend fuel prepared.child)
    (hfit : ¬T.MergeBufferFits) (hfuel : h < fuel) (hs : Stands s R (.local (s.wrapper t.page)) h t)
    (hsz : t.Sized T h) (hready : T.minOf h < t.keys.length) (hmerges : t.MergesLast T h) :
    descend fuel (s.wrapper t.page) s = .error .badArrayNewLength := by
  induction fuel generalizing h s R t with
  | zero => omega
  | succ fuel ih =>
    cases h with
    | zero => exact hmerges.elim
    | succ h =>
      have hkn : (s.wrapper t.page).data.keysNum = t.keys.length := hs.rep.on.keysNum_eq
      obtain ⟨f, ht, hKR, hKL⟩ := exists_lastFocus hs.rep
      rw [hdescend fuel _ hs.rep.on.leaf_eq, hkn, ← hKL]
      rw [ht] at hsz hready hmerges
      have hs' : Stands s R (.local (s.wrapper t.page)) (h + 1) (f.node t.page) := by
        rwa [← ht]
      have hSR : f.kidsR = [] := List.length_eq_zero_iff.mp (by rw [Focus.length_right hs', hKR]; rfl)
      have hne : f.keysL ≠ [] := fun hnil => by simp [Focus.node, hnil, hKR] at hready
      have hkid : f.kid.Sized T h := (sized_iff.mp hsz).2 f.kid (by simp [Focus.node])
      have hrk : Rep s.stream.page h f.kid := hs'.rep.2 f.kid (by simp [Focus.node])
      obtain ⟨⟨-, hhi⟩, hbelow⟩ := sized_iff.mp hsz
      by_cases hthree : f.MergesThree T
      · have hprepare : prepareSubtree T = BaseBStarTree.prepareSubtree T := by
          unfold prepareSubtree
          rw [hk]
        have hroot : s.rootPageNum ≠ t.page := fun heq => by
          have hmem : s.rootPageNum ∈ R := hs'.at_page.root
          rw [heq] at hmem
          exact hs'.page_not_mem hmem
        obtain ⟨-, -, -, -, hmin, -⟩ := bStarTree_sizes hT hk (h + 1)
        rw [hprepare]
        exact bind_error (BaseBStarTree.prepareSubtree_throws hT hk hlt hs' hroot
          (hhi.trans (maxOf_le_slots hT _)) hbelow (by omega) hthree hfit) _
      · obtain ⟨r, s1, hrun, ref1, f1, hw, hready1, -, hextended⟩ :=
          preparesLast_bStarTree hT hk hlt s R h t.page f hs' hKR hsz hready fun _ hthree' =>
            absurd hthree' hthree
        have hmerges' : f.kid.MergesLast T h := ((mergesLast_node hSR).mp hmerges).resolve_left fun hmin =>
          hthree ((Focus.mergesThree_last hKR hSR hne).mpr hmin)
        have hgo : (if r.merged then descend fuel r.leftNeighbour else descend fuel r.child) =
            descend fuel (s1.wrapper f1.kid.page) := by
          rw [← hw]
          split <;> rfl
        rw [bind_run hrun, hgo]
        exact ih (by omega) hready1.stands.toHeld.kid hready1.kid_sized hready1.ready
          ((hextended.mergesLast (three_le_kids hT hk hrk hkid)).mpr hmerges')

/-! ## The greatest and the least key -/

/-- A record `y` was taken out of the tree `t` at the end of the way, and the rest is in order. -/
structure TakenOut (T : Cfg κ) (h : ℕ) (Z : List (ℕ × Focus κ)) (t : Node κ) (y : κ) (s' : BTree κ)
    (t' : Node κ) : Prop where
  wellFormed : WellFormed T s' (h + Z.length) (plug Z t')
  page_eq : t'.page = t.page
  records_eq : ∃ A B, t.records T h = A ++ y :: B ∧ t'.records T h = A ++ B

omit [Inhabited κ] in
/-- A removal from a page that is ready, as a removal from the whole tree. -/
theorem Removed.takenOut {s' : BTree κ} {t' : Node κ} {Z : List (ℕ × Focus κ)}
    (hrouters : T.treeType.hasRouters = false) (hw : WellFormed T s (h + Z.length) (plug Z t))
    (hs : Stands s R .rootPage (h + Z.length) (plug Z t)) (hZ : Z ≠ [])
    (hready : T.minOf h < t.keys.length) (hr : Removed T s (beside h Z R) h t s' t')
    (hsub : (t'.tokens T h).Sublist (t.tokens T h)) (hA : t.records T h = A ++ y :: B)
    (hB : t'.records T h = A ++ B) : TakenOut T h Z t y s' t' := by
  obtain ⟨ref', hs'⟩ := hr.stands
  have hsz := (sized_iff.mp (sized_of_plug hw.sized.below hZ)).1
  have hle := hr.keys_le
  have hge := hr.le_keys
  exact ⟨hw.refill hrouters hs hr.frame hs' hr.page_eq hsub
    (fun _ => sized_iff.mpr ⟨by omega, hr.sized⟩) (fun hnil => absurd hnil hZ), hr.page_eq, A, B, hA, hB⟩

/-- `getAndRemoveMaxKey` and `getAndRemoveMinKey` on a page of a B-tree or B*-tree that is not the root
and has a key to spare, when the descent finds the buffers that it needs. -/
theorem getAndRemove_extremal (hT : T.Valid)
    (hk : T.treeType = .bTree ∨ T.treeType = .bStarTree) (hlt : StrictWeak T.compare)
    {Z : List (ℕ × Focus κ)} (hw : WellFormed T s (h + Z.length) (plug Z t)) (hZ : Z ≠ [])
    (hready : T.minKeys < t.keys.length) (hfuel : h < fuel) (hfit : t.LastFits T h) :
    Returns (getAndRemoveMaxKey T fuel (s.wrapper t.page)) s (fun y s' =>
      (∃ t', TakenOut T h Z t y s' t') ∧ ∀ x ∈ t.records T h, T.compare y x = false) ∧
    Returns (getAndRemoveMinKey T fuel (s.wrapper t.page)) s fun y s' =>
      (∃ t', TakenOut T h Z t y s' t') ∧
      ((∀ x ∈ t.records T h, T.compare x y = false) ↔
        ∀ z, (t.records T h)[(t.records T h).length - t.lastLeafSize T h]? = some z →
          ∀ x ∈ t.records T h, T.compare x z = false) ∧
      ((t.records T h).Pairwise (fun x x' => T.compare x x' = true) →
        ((∀ x ∈ t.records T h, T.compare x y = false) ↔ h = 0)) := by
  obtain ⟨R, hs⟩ := hw.stands
  have hrouters := hasRouters_eq_false hk
  have hprep := preparesLast hT hk hlt
  have hmin := minOf_eq_minKeys hk
  have hpage : Stands s (beside h Z R) (.local (s.wrapper t.page)) h t := hs.descend_local rfl rfl hZ
  have hsz := sized_of_plug hw.sized.below hZ
  have hready' : T.minOf h < t.keys.length := by rwa [hmin]
  have hsorted : Sorted T.compare (t.tokens T h) := sorted_of_plug hw.sorted
  constructor
  · refine (getAndRemoveMaxKey_spec hT hprep hfuel hpage hsz hready' hfit).mono ?_
    rintro y s' ⟨t', hremoved, hthin⟩
    have hrecords : t.records T h = t'.records T h ++ y :: [] := by
      rw [Node.records, ← hthin.records_eq, recordsOf_append]
      rfl
    have hsorted' := hthin.sorted hsorted
    refine ⟨⟨t', hremoved.takenOut hrouters hw hs hZ hready' ((List.sublist_append_left _ _).trans
      hthin.sublist) hrecords (List.append_nil _).symm⟩, fun x hx => ?_⟩
    rw [hrecords] at hx
    rcases List.mem_append.mp hx with hx | hx
    · exact (sorted_append.mp hsorted').2.2 _ (mem_recordsOf.mp hx) (.record y) (by simp)
    · rw [List.mem_singleton.mp hx]
      exact hlt.irrefl y
  · refine (getAndRemoveMinKey_spec hT hprep (reach_le_minOf hT hk) hfuel hpage hsz hready' hfit).mono ?_
    rintro y s' ⟨t', A, B, hremoved, hsub, hA, hB, hne, hlen⟩
    have hplace : (t.records T h).length - t.lastLeafSize T h = A.length := by
      rw [hA, List.length_append, List.length_cons]
      omega
    refine ⟨⟨t', hremoved.takenOut hrouters hw hs hZ hready' hsub hA hB⟩, ?_, fun hdistinct => ⟨?_, ?_⟩⟩
    · rw [hplace, hA]
      simp
    · intro hleast
      by_contra hh
      obtain ⟨a, ha⟩ := List.exists_mem_of_ne_nil _ (hne hh hrouters)
      rw [hA] at hdistinct hleast
      have hay := (List.pairwise_append.mp hdistinct).2.2 a ha y (by simp)
      rw [hleast a (by simp [ha])] at hay
      cases hay
    · rintro rfl
      have hkeys : t.records T 0 = t.keys := recordsOf_map_record t.keys
      have hlength := congrArg List.length hA
      rw [hkeys, List.length_append, List.length_cons] at hlength
      have hnil : A = [] := List.length_eq_zero_iff.mp (by
        change B.length + 1 = t.keys.length at hlen
        omega)
      rw [hA, hnil, List.nil_append] at hdistinct ⊢
      intro x hx
      rcases List.mem_cons.mp hx with rfl | hx
      · exact hlt.irrefl x
      · exact hlt.asymm ((List.pairwise_cons.mp hdistinct).1 x hx)

/-- `getAndRemoveMaxKey` and `getAndRemoveMinKey` on a page of a B-tree or B*-tree that is not the root
and has a key to spare. The first one takes the greatest key of the subtree. The second one takes the
first key of the last leaf, so the least key when that is a least one; in a subtree without equal
records, when the subtree is a leaf. Both throw where the descent merges three children of a B*-tree whose
keys do not fit into a buffer. -/
theorem getAndRemove_extremal_iff (hT : T.Valid)
    (hk : T.treeType = .bTree ∨ T.treeType = .bStarTree) (hlt : StrictWeak T.compare)
    {Z : List (ℕ × Focus κ)} (hw : WellFormed T s (h + Z.length) (plug Z t)) (hZ : Z ≠ [])
    (hready : T.minKeys < t.keys.length) (hfuel : h < fuel) :
    (t.LastFits T h →
      Returns (getAndRemoveMaxKey T fuel (s.wrapper t.page)) s (fun y s' =>
        (∃ t', TakenOut T h Z t y s' t') ∧ ∀ x ∈ t.records T h, T.compare y x = false) ∧
      Returns (getAndRemoveMinKey T fuel (s.wrapper t.page)) s fun y s' =>
        (∃ t', TakenOut T h Z t y s' t') ∧
        ((∀ x ∈ t.records T h, T.compare x y = false) ↔
          ∀ z, (t.records T h)[(t.records T h).length - t.lastLeafSize T h]? = some z →
            ∀ x ∈ t.records T h, T.compare x z = false) ∧
        ((t.records T h).Pairwise (fun x x' => T.compare x x' = true) →
          ((∀ x ∈ t.records T h, T.compare x y = false) ↔ h = 0))) ∧
    (¬t.LastFits T h →
      getAndRemoveMaxKey T fuel (s.wrapper t.page) s = .error .badArrayNewLength ∧
      getAndRemoveMinKey T fuel (s.wrapper t.page) s = .error .badArrayNewLength) := by
  refine ⟨fun hfit => getAndRemove_extremal hT hk hlt hw hZ hready hfuel hfit, fun hfit => ?_⟩
  obtain ⟨hstar, hfit⟩ := Classical.not_imp.mp hfit
  obtain ⟨hmerges, hfit⟩ := Classical.not_imp.mp hfit
  obtain ⟨R, hs⟩ := hw.stands
  have hpage : Stands s (beside h Z R) (.local (s.wrapper t.page)) h t := hs.descend_local rfl rfl hZ
  have hsz := sized_of_plug hw.sized.below hZ
  have hready' : T.minOf h < t.keys.length := by rwa [minOf_eq_minKeys hk]
  constructor
  · refine descendLast_throws hT hstar hlt (fun fuel pw hleaf => ?_) hfit hfuel hpage hsz hready' hmerges
    rw [getAndRemoveMaxKey, if_neg (by simp [hleaf])]
  · refine descendLast_throws hT hstar hlt (fun fuel pw hleaf => ?_) hfit hfuel hpage hsz hready' hmerges
    rw [getAndRemoveMinKey, if_neg (by simp [hleaf])]

end

/-! ## A tree of order 2 -/

/-- A root page 1 with the children 2 and 3. -/
def BTree.twoLevels : BTree ℕ := .ofPages 2 8 fun p =>
  if p = 1 then .filled [10] [2, 3] else if p = 2 then .filled [3, 6] [4, 5, 6]
  else if p = 3 then .filled [12] [7, 8] else if p = 4 then .filled [1, 2] []
  else if p = 5 then .filled [4, 5] [] else if p = 6 then .filled [7, 8] []
  else if p = 7 then .filled [11] [] else .filled [13] []

/-- The left child of the root page of `BTree.twoLevels`. -/
def Node.leftSubtree : Node ℕ := ⟨2, [3, 6], [⟨4, [1, 2], []⟩, ⟨5, [4, 5], []⟩, ⟨6, [7, 8], []⟩]⟩

theorem length_noKids : ([] : List (Node ℕ)).length = ([] : List ℕ).length := rfl

/-- The way from the root page of `BTree.twoLevels` to its left child. -/
def BTree.leftWay : List (ℕ × Focus ℕ) :=
  [(1, ⟨[], [10], [], Node.leftSubtree, [⟨3, [12], [⟨7, [11], []⟩, ⟨8, [13], []⟩]⟩], length_noKids⟩)]

theorem twoLevels_wellFormed :
    WellFormed (natCfg .bTree 2) BTree.twoLevels 2 (plug BTree.leftWay Node.leftSubtree) :=
  ofPages_wellFormed rfl rfl (by decide +kernel) (by decide +kernel) (by decide +kernel)
    (by decide +kernel) (by
      unfold Sorted
      decide +kernel)

/-- Below page 2 the least key is 1, and `getAndRemoveMinKey` returns 7. -/
theorem getAndRemoveMinKey_twoLevels :
    WellFormed (natCfg .bTree 2) BTree.twoLevels 2 (plug BTree.leftWay Node.leftSubtree) ∧
      1 ∈ Node.leftSubtree.records (natCfg .bTree 2) 1 ∧
      (getAndRemoveMinKey (natCfg .bTree 2) 2 (BTree.twoLevels.wrapper 2)
        BTree.twoLevels).toOption.map Prod.fst = some 7 :=
  ⟨twoLevels_wellFormed, by decide +kernel, by decide +kernel⟩

/-- Both functions on page 2. -/
theorem getAndRemove_extremal_twoLevels :
    Returns (getAndRemoveMaxKey (natCfg .bTree 2) 2 (BTree.twoLevels.wrapper 2)) BTree.twoLevels
      (fun y s' => (∃ t', TakenOut (natCfg .bTree 2) 1 BTree.leftWay Node.leftSubtree y s' t') ∧
        ∀ x ∈ Node.leftSubtree.records (natCfg .bTree 2) 1, (natCfg .bTree 2).compare y x = false) ∧
    Returns (getAndRemoveMinKey (natCfg .bTree 2) 2 (BTree.twoLevels.wrapper 2)) BTree.twoLevels
      fun y s' => ∃ t', TakenOut (natCfg .bTree 2) 1 BTree.leftWay Node.leftSubtree y s' t' := by
  have hboth := (getAndRemove_extremal_iff (T := natCfg .bTree 2) (h := 1) (Z := BTree.leftWay)
    (t := Node.leftSubtree) ⟨2, 4, rfl⟩ (Or.inl rfl) (natCfg_strictWeak _ _) twoLevels_wellFormed
    (by simp [BTree.leftWay]) (by decide) (show 1 < 2 by decide)).1 fun hstar => by cases hstar
  exact ⟨hboth.1, hboth.2.mono fun _ _ h => h.1⟩

end BTreesMods
