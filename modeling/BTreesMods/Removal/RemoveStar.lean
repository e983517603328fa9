import BTreesMods.Removal.Searched

/-!
# Removal from a B*-tree

What `BaseBStarTree::remove` (`btree.hpp`, lines 1638–1703 and 1829–1857) does to a well-formed B*-tree.
It takes out the searched record when no step on the way down moves it up, `removeByKeyNum` finds it
again, the second search does not go into an inner page that was just freed
(`BaseBStarTree.Removable`), and in the root page no merge makes a page that is too large or goes on in a
copy that is changed (`BaseBStarTree.RootRemovable`).

Main result: `bStarTree_remove_spec`.
-/

namespace BTreesMods

variable {κ : Type}

/-! ## Definitions -/

/-- On its way to `k`, `remove` leaves the page of `t` as it is: `k` is one of its keys, or the next child
has a key to spare. -/
def Node.PassedBy (T : Cfg κ) (k : κ) (t : Node κ) : Prop :=
  (∃ y, t.keys[t.scan T k]? = some y ∧ T.isEqual k y = true) ∨
    ∃ e, t.kids[t.scan T k]? = some e ∧ T.minKeys < e.keys.length

/-- The child is a leaf, or a record equal to `k` is stored below it. -/
def Focus.Stores (T : Cfg κ) (k : κ) (h : ℕ) (f : Focus κ) : Prop :=
  h ≠ 0 → ∃ x ∈ f.kid.records T h, T.isEqual k x = true

/-- `remove` for `k` finds what it needs in the page `t`, which is not the root page, and below. -/
def BaseBStarTree.Removable (T : Cfg κ) (k : κ) : ℕ → Node κ → Prop
  | 0, _ => True
  | h + 1, t =>
    (∀ x, t.keys[t.scan T k]? = some x → T.isEqual k x = true →
      RemovesAt T (h + 1) false t (t.scan T k)) ∧
    ∀ f : Focus κ, f.node t.page = t → f.Splits T.compare k → ¬f.Lifts T k ∧
      ∀ freed n, Next T h f freed n → Removable T k h n ∧ (freed = true → f.Stores T k h)

/-- The same for the root page `t`. -/
def BaseBStarTree.RootRemovable (T : Cfg κ) (k : κ) : ℕ → Node κ → Prop
  | 0, _ => True
  | h + 1, t =>
    (∀ x, t.keys[t.scan T k]? = some x → T.isEqual k x = true →
      RemovesAt T (h + 1) true t (t.scan T k) ∧ MergeFits T (h + 1) t (t.scan T k)) ∧
    ∀ f : Focus κ, f.node t.page = t → f.Splits T.compare k → ∀ freed n, BaseBTree.Next T h f freed n →
      (T.minKeys < f.kid.keys.length ∨ ¬Stuck T f → Removable T k h n) ∧
      (f.kid.keys.length ≤ T.minKeys → Stuck T f → (freed = true → f.Stores T k h) ∧
        -- two children are merged
        (t.keys.length = 1 → (h ≠ 0 → n.PassedBy T k) ∧ RootRemovable T k h n) ∧
        (t.keys.length ≠ 1 → 2 * T.minKeys + 1 ≤ T.maxKeys ∧ Removable T k h n))

/-- `remove` for `k` is right on the pages of height `h` that are not the root page. -/
def BaseBStarTree.RemovesBelow [Inhabited κ] (T : Cfg κ) (k : κ) (h fuel : ℕ) : Prop :=
  ∀ {s R w n}, Stands s R (.local w) h n → n.Sized T h → T.minKeys < n.keys.length →
    Sorted T.compare (n.tokens T h) → Removable T k h n →
      Returns (removeFrom T k fuel (.local w)) s (Searched T k s R h n)

/-- `remove` for `k` is right on the root pages of height `h`. -/
def BaseBStarTree.RemovesRoot [Inhabited κ] (T : Cfg κ) (k : κ) (h fuel : ℕ) : Prop :=
  ∀ {s R n}, Stands s R .rootPage h n → n.RootSized T h → Sorted T.compare (n.tokens T h) →
    RootRemovable T k h n → Returns (removeFrom T k fuel .rootPage) s fun b s' => ∃ H m,
      SearchedTree T k R h n b s' H m

/-- The searches of `remove` after `prepareSubtree`. -/
def BaseBStarTree.searchPrepared [Inhabited κ] (T : Cfg κ) (k : κ) (fuel : ℕ) (prepared : Prepared κ) :
    TreeM κ Bool := do
  if prepared.merged then do
    let removed ← removeFrom T k fuel (.local prepared.leftNeighbour)
    if removed then return true
    else removeFrom T k fuel (.local prepared.child)
  else removeFrom T k fuel (.local prepared.child)

section

variable {T : Cfg κ} {s : BTree κ} {R : Multiset ℕ} {ref : PageRef κ} {h q fuel : ℕ} {t c n : Node κ}
  {A B : List κ} {k x : κ} {f f1 : Focus κ} {w : PageWrapper κ} {r : Prepared κ} {b : Bool}
  {ts us F G : List (Token κ)}

/-! ## One search -/

/-- A local wrapper is not that of the root page. -/
theorem Stands.root_ne (hs : Stands s R (.local w) h t) : s.rootPageNum ≠ t.page := fun hroot => by
  have hmem : s.rootPageNum ∈ R := hs.at_page.root
  rw [hroot] at hmem
  exact hs.page_not_mem hmem

theorem Node.Sized.le_slots (hT : T.Valid) (hsz : t.Sized T h) : t.keys.length ≤ T.slots :=
  (sized_iff.mp hsz).1.2.trans (maxOf_le_slots hT h)

/-- A record is dropped, whatever stands around. -/
theorem Drops.found_context (h : Drops T k true ts us) (F G : List (Token κ)) :
    Drops T k true (F ++ (ts ++ G)) (F ++ (us ++ G)) where
  sublist := (List.Sublist.refl F).append (h.sublist.append (List.Sublist.refl G))
  found _ := by
    obtain ⟨x, hx, hperm⟩ := h.found rfl
    refine ⟨x, hx, ?_⟩
    simp only [recordsOf_append]
    exact ((List.Perm.refl (recordsOf F)).append (hperm.append
      (List.Perm.refl (recordsOf G)))).trans List.perm_middle
  absent hb := by cases hb

theorem Drops.thinned (h : Drops T k false ts us) : Thinned ts us := ⟨h.sublist, (h.absent rfl).1⟩

/-- What is not below the child that it belongs to is not in the node. -/
theorem Focus.Splits.absent (hlt : StrictWeak T.compare) (heq : T.Equates) (hsplits : f.Splits T.compare k)
    (hsorted : Sorted T.compare ((f.node q).tokens T (h + 1)))
    (hnone : ∀ x ∈ f.kid.records T h, T.isEqual k x = false) :
    ∀ x ∈ (f.node q).records T (h + 1), T.isEqual k x = false := by
  have hkid : (f.kid.records T h).filter (T.isEqual k) = [] :=
    List.filter_eq_nil_iff.mpr fun x hx => by simp [hnone x hx]
  have hnode := List.filter_eq_nil_iff.mp ((hsplits.filter_eq hlt heq hsorted).trans hkid)
  exact fun x hx => by simpa using hnode x hx

/-- What is not below the child after a step was not below it before. -/
theorem OrderKept.absent (hlt : StrictWeak T.compare) (heq : T.Equates) (hkept : OrderKept T h q f f1)
    (hsorted : Sorted T.compare ((f.node q).tokens T (h + 1))) (hsplits : f.Splits T.compare k)
    (hnone : ∀ x ∈ f1.kid.records T h, T.isEqual k x = false) :
    ∀ x ∈ f.kid.records T h, T.isEqual k x = false := by
  have hnode := (hkept.splits k hsorted hsplits).absent hlt heq (hkept.thinned.sorted hsorted) hnone
  intro x hx
  refine hnode x ?_
  rw [Node.records, hkept.thinned.records_eq, Focus.tokens_node, recordsOf_append, recordsOf_append]
  exact List.mem_append_right _ (List.mem_append_left _ hx)

variable [Inhabited κ]

/-- `remove` of a page, with the place where its scan stops. -/
theorem BaseBStarTree.removeFrom_eq {d : Page κ} (hvalue : ref.value s = ⟨t.page, d⟩) (hon : t.On h d)
    (hslots : t.keys.length ≤ T.slots) (ht : t.keys = A ++ B) (hcut : LowerCut T.compare k A B) :
    BaseBStarTree.removeFrom T k (fuel + 1) ref s =
      (if B.head?.any (T.isEqual k) then
        BaseBStarTree.removeByKeyNum T fuel A.length (if s.rootPageNum = t.page then .rootPage else ref)
      else if h = 0 then return false
      else do
        let prepared ← BaseBStarTree.prepareSubtree T A.length ref
        BaseBStarTree.searchPrepared T k fuel prepared) s := by
  obtain ⟨hrun, hkey, hleaf⟩ := hon.scan_run hslots ht hcut
  rw [BaseBStarTree.removeFrom, bind_run (load_run s ref), hvalue, bind_run (onPages_run hrun s),
    bind_run (onPages_run hkey s)]
  by_cases hfound : B.head?.any (T.isEqual k) = true
  · rw [if_pos hfound, if_pos hfound, bind_run (isRoot_run s _)]
    by_cases hroot : s.rootPageNum = t.page
    · rw [if_pos hroot, if_pos (by simpa using hroot)]
    · rw [if_neg hroot, if_neg (by simpa using hroot)]
  · rw [if_neg hfound, if_neg hfound, hleaf]
    by_cases hh : h = 0
    · rw [if_pos hh, if_pos (by simpa using hh)]
    · rw [if_neg hh, if_neg (by simpa using hh)]
      rfl

/-- `remove` on a leaf without a key equal to `k` returns false. -/
theorem BaseBStarTree.removeFrom_leaf {d : Page κ} (hon : c.On 0 d) (hslots : c.keys.length ≤ T.slots)
    (hne : ∀ x ∈ c.keys, T.isEqual k x = false) :
    BaseBStarTree.removeFrom T k (fuel + 1) (.local ⟨c.page, d⟩) s = .ok (false, s) := by
  obtain ⟨A, B, hAB, hcut⟩ := exists_cut T.compare k c.keys
  have hnone : B.head?.any (T.isEqual k) = false := by
    cases B with
    | nil => rfl
    | cons y B => simpa using hne y (by simp [hAB])
  rw [BaseBStarTree.removeFrom_eq rfl hon hslots hAB hcut, hnone, if_neg Bool.false_ne_true, if_pos rfl]
  rfl

/-- The second search changes nothing when the first one found nothing. -/
theorem BaseBStarTree.searchPrepared_spec {Q : Bool → BTree κ → Prop}
    (hr : (if r.merged then r.leftNeighbour else r.child) = w)
    (hfirst : Returns (BaseBStarTree.removeFrom T k fuel (.local w)) s Q)
    (hsecond : r.merged = true → ∀ s', Q false s' →
      BaseBStarTree.removeFrom T k fuel (.local r.child) s' = .ok (false, s')) :
    Returns (BaseBStarTree.searchPrepared T k fuel r) s Q := by
  cases hmerged : r.merged with
  | false =>
    rw [hmerged, if_neg Bool.false_ne_true] at hr
    rwa [BaseBStarTree.searchPrepared, hmerged, if_neg Bool.false_ne_true, hr]
  | true =>
    rw [hmerged, if_pos rfl] at hr
    rw [BaseBStarTree.searchPrepared, if_pos hmerged, hr]
    refine hfirst.bind ?_
    intro removed s' hQ
    cases removed with
    | true => exact Returns.pure hQ
    | false => exact ⟨false, s', hsecond hmerged s' hQ, hQ⟩

/-- The second search, in the wrapper of a page that was freed: it is a leaf when there is no record equal to
`k` below it. -/
theorem BaseBStarTree.removeFrom_freed (hT : T.Valid) (hs : Stands s R ref (h + 1) (f.node q))
    (hsz : SizedBelow T (h + 1) (f.node q).kids) (hstores : f.Stores T k h)
    (hnone : ∀ x ∈ f.kid.records T h, T.isEqual k x = false) (s' : BTree κ) :
    BaseBStarTree.removeFrom T k (fuel + 1) (.local (s.wrapper f.kid.page)) s' = .ok (false, s') := by
  have hrep : Rep s.stream.page h f.kid := hs.rep.2 f.kid (by simp [Focus.node])
  have hzero : h = 0 := by
    by_contra hh
    obtain ⟨x, hx, hkx⟩ := hstores hh
    rw [hnone x hx] at hkx
    cases hkx
  subst hzero
  refine BaseBStarTree.removeFrom_leaf hrep.on (Node.Sized.le_slots hT (hsz f.kid (by simp [Focus.node])))
    fun x hx => hnone x ?_
  rw [Node.records, Node.tokens, recordsOf_map_record]
  exact hx

omit [Inhabited κ] in
/-- A key equal to `k` in the page is removed where the scan for `k` stops. -/
theorem BaseBStarTree.Removable.removesAt (hat : BaseBStarTree.Removable T k h t) (ht : t.keys = A ++ x :: B)
    (hcut : LowerCut T.compare k A (x :: B)) (hkx : T.isEqual k x = true) :
    BaseBStarTree.RemovesAt T h false t A.length := by
  cases h with
  | zero => trivial
  | succ h =>
    have hscan := hcut.scan_eq ht
    rw [← hscan]
    exact hat.1 x (by rw [hscan, ht]; simp) hkx

omit [Inhabited κ] in
theorem BaseBStarTree.RootRemovable.removesAt (hat : BaseBStarTree.RootRemovable T k h t)
    (ht : t.keys = A ++ x :: B) (hcut : LowerCut T.compare k A (x :: B)) (hkx : T.isEqual k x = true) :
    BaseBStarTree.RemovesAt T h true t A.length ∧ BaseBStarTree.MergeFits T h t A.length := by
  cases h with
  | zero => exact ⟨trivial, trivial⟩
  | succ h =>
    have hscan := hcut.scan_eq ht
    rw [← hscan]
    exact hat.1 x (by rw [hscan, ht]; simp) hkx

omit [Inhabited κ] in
/-- A search in a leaf, whose scan does not stop in front of a key equal to `k`. -/
theorem Stands.searched_leaf (hlt : StrictWeak T.compare) (heq : T.Equates) (hs : Stands s R ref 0 t)
    (hsorted : Sorted T.compare (t.tokens T 0)) (ht : t.keys = A ++ B) (hcut : LowerCut T.compare k A B)
    (hfound : ¬B.head?.any (T.isEqual k) = true) : Searched T k s R 0 t false s := by
  obtain ⟨q, K, C⟩ := t
  obtain rfl : K = A ++ B := ht
  have hnone : ∀ y ∈ recordsOf ((A ++ B).map .record), T.isEqual k y = false :=
    found_leaf hlt heq hcut hsorted (by simpa using hfound)
  exact ⟨_, ⟨rfl, Frame.refl s R, ⟨ref, hs⟩, trivial, Nat.le_refl _, Nat.le_succ _⟩, Drops.none hnone,
    fun hh => absurd rfl hh⟩

/-! ## A page that is not the root page -/

/-- A step for a child that is not in the middle of three minimal children. -/
theorem BaseBStarTree.removeFrom_beside (hT : T.Valid) (hk : T.treeType = .bStarTree)
    (hlt : StrictWeak T.compare) (heq : T.Equates) (hs : Stands s R (.local w) (h + 1) (f.node q))
    (hsz : (f.node q).Sized T (h + 1)) (hready : T.minKeys < (f.node q).keys.length)
    (hsorted : Sorted T.compare ((f.node q).tokens T (h + 1))) (hsplits : f.Splits T.compare k)
    (hmid : ¬f.Middle T) (hnext : ∀ freed n, BaseBStarTree.Next T h f freed n →
      BaseBStarTree.Removable T k h n ∧ (freed = true → f.Stores T k h)) (hfit : T.MergeBufferFits)
    (hbelow : BaseBStarTree.RemovesBelow T k h (fuel + 1)) :
    Returns (do
      let prepared ← BaseBStarTree.prepareSubtree T f.keysL.length (.local w)
      BaseBStarTree.searchPrepared T k (fuel + 1) prepared) s (Searched T k s R (h + 1) (f.node q)) := by
  have hmin := (bStarTree_sizes hT hk h).2.2.2.2.1
  refine (BaseBStarTree.prepareSubtree_step hT hk hlt (fun _ => hfit) hs hs.root_ne (hsz.le_slots hT)
    (sized_iff.mp hsz).2 hready hmid).bind ?_
  rintro r s1 ⟨ref1, f1, hr, hchild, hready1, hkept, hstep, -⟩
  obtain ⟨hat, hstores⟩ := hnext _ _ hstep
  have hsearch := hbelow hready1.stands.toHeld.kid hready1.kid_sized (hmin ▸ hready1.ready)
    (hkept.kid_sorted hsorted) hat
  refine (BaseBStarTree.searchPrepared_spec hr hsearch fun hmerged s' hfalse => ?_).mono ?_
  · rw [hchild hmerged]
    obtain ⟨n, -, hdrops, -⟩ := hfalse
    exact BaseBStarTree.removeFrom_freed hT hs (sized_iff.mp hsz).2 (hstores hmerged)
      (hkept.absent hlt heq hsorted hsplits (hdrops.absent rfl).2) s'
  · rintro b s' ⟨n, hremoved, hdrops, -⟩
    exact ⟨_, hready1.put hremoved, hkept.put hlt heq hsorted hsplits hdrops,
      fun _ => hready1.keeps (List.length_pos_iff.mp (by omega))⟩

omit [Inhabited κ] in
/-- A search that found nothing in the left one of the two children that three minimal children have become. -/
theorem ThreeToTwo.readied_after {K1 K2 : List κ} {P S CX CY : List (Node κ)} {d e X' : Node κ} {a y z : κ}
    {A' B' : List κ} {s1 s2 : BTree κ} {ref1 : PageRef κ}
    (hthree : ThreeToTwo T s R h q K1 K2 P S c d e a z s1 ref1 A' y B' CX CY) (hP : P.length = K1.length)
    (hmin : T.minOf h = T.minKeys) (hR : f.keysR ≠ [])
    (hremoved : Removed T s R (h + 1) (f.node q) s2
      ((Focus.leftOf K1 y K2 P X' ⟨d.page, B' ++ z :: e.keys, CY⟩ S hP).node q)) :
    ∃ ref2, Readied T s R h q f s2 ref2
      (Focus.rightOf K1 y K2 P X' ⟨d.page, B' ++ z :: e.keys, CY⟩ S hP) := by
  obtain ⟨ref2, hs2⟩ := hremoved.stands
  have hsame : (Focus.rightOf K1 y K2 P X' ⟨d.page, B' ++ z :: e.keys, CY⟩ S hP).node q =
      (Focus.leftOf K1 y K2 P X' ⟨d.page, B' ++ z :: e.keys, CY⟩ S hP).node q :=
    (Focus.rightOf_node hP).trans (Focus.leftOf_node hP).symm
  refine ⟨ref2, ?_, hremoved.frame, ?_, ?_, ?_, ?_, fun _ => ?_, fun hnil => absurd hnil hR⟩
  · rwa [hsame]
  · rw [hsame]
    exact hremoved.sized
  · rw [hmin]
    exact hthree.ready.2
  · rw [hsame]
    exact hremoved.keys_le
  · rw [hsame]
    exact hremoved.le_keys
  · rw [hsame, Focus.leftOf_node]
    simp

/-- A step for a child in the middle of three minimal children, which does not move `k` up. -/
theorem BaseBStarTree.removeFrom_middle (hT : T.Valid) (hk : T.treeType = .bStarTree)
    (hlt : StrictWeak T.compare) (heq : T.Equates) (hs : Stands s R (.local w) (h + 1) (f.node q))
    (hsz : (f.node q).Sized T (h + 1)) (hsorted : Sorted T.compare ((f.node q).tokens T (h + 1)))
    (hsplits : f.Splits T.compare k) (hmid : f.Middle T) (hlifts : ¬f.Lifts T k)
    (hnext : ∀ freed n, BaseBStarTree.Next T h f freed n → BaseBStarTree.Removable T k h n)
    (hfit : T.MergeBufferFits) (hbelow : BaseBStarTree.RemovesBelow T k h fuel) :
    Returns (do
      let prepared ← BaseBStarTree.prepareSubtree T f.keysL.length (.local w)
      BaseBStarTree.searchPrepared T k fuel prepared) s (Searched T k s R (h + 1) (f.node q)) := by
  have hmin := (bStarTree_sizes hT hk h).2.2.2.2.1
  have hlenR := Focus.length_right hs
  refine (BaseBStarTree.prepareSubtree_middle hT hk hlt hfit hs hs.root_ne (hsz.le_slots hT) (sized_iff.mp hsz).2
    hmid).bind ?_
  rintro _ s1 ⟨K1, a, z, K2, P, c, e, S, ref1, A, y, B, CX, CY, hKL, hKR, hPL, hPR, rfl, hthree⟩
  have hnode := Focus.node_of_middle (p := q) hKL hKR hPL hPR
  have hP : P.length = K1.length := by
    have := f.length_eq
    simpa [hKL, hPL] using this
  have hR : f.keysR ≠ [] := by simp [hKR]
  have hc : c.keys.length = T.minKeys := by
    have hlow := (sized_iff.mp ((sized_iff.mp hsz).2 c (by simp [Focus.node, hPL]))).1.1
    rw [hmin] at hlow
    exact le_antisymm (hmid.stuck.left c (by simp [hPL])) hlow
  obtain ⟨hX, hY⟩ := hthree.nodes_eq hc
  have hatX := hnext _ _ (.middleLeft hmid hKL hPL hPR)
  have hatY := hnext _ _ (.middleRight hmid hKR hPL hPR)
  rw [← hX] at hatX
  rw [← hY] at hatY
  have hyk : T.isEqual k y = false := by
    by_contra hyk
    exact hlifts ⟨hmid, y, hthree.median_eq, by simpa using hyk⟩
  have hready := fun (f1 : Focus κ) hf1 hlen =>
    hthree.readied hmin hnode (show f1.node q = _ from hf1) hlen fun hnil => absurd hnil hR
  obtain ⟨hreadyX, hthinX⟩ := hready _ (Focus.leftOf_node hP) hthree.ready.1
  have hsortedX := hthinX.sorted hsorted
  rw [Focus.tokens_node] at hsortedX
  rw [BaseBStarTree.searchPrepared, if_pos rfl]
  refine (hbelow hreadyX.stands.toHeld.kid hreadyX.kid_sized hthree.ready.1
    (sorted_append.mp (sorted_append.mp hsortedX).2.1).1 hatX).bind ?_
  rintro b s2 ⟨X', hremoved, hdrops, -⟩
  have hput := hreadyX.put hremoved
  cases b with
  | true =>
    refine Returns.pure ⟨_, hput, Drops.of_thinned hthinX ?_, fun _ => by simp [Focus.put, Focus.node, Focus.leftOf]⟩
    rw [Focus.tokens_node, Focus.tokens_node]
    exact hdrops.found_context _ _
  | false =>
    -- the right one of the two children is searched next
    have hthinX' := Thinned.context (hdrops.thinned) (tokensBefore T h P K1) (tokensAfter T h (y :: K2)
      (⟨f.kid.page, B ++ z :: e.keys, CY⟩ :: S))
    obtain ⟨ref2, hreadyY⟩ := hthree.readied_after hP hmin hR hput
    have hsame : (Focus.rightOf K1 y K2 P X' ⟨f.kid.page, B ++ z :: e.keys, CY⟩ S hP).node q =
        (Focus.leftOf K1 y K2 P X' ⟨f.kid.page, B ++ z :: e.keys, CY⟩ S hP).node q :=
      (Focus.rightOf_node hP).trans (Focus.leftOf_node hP).symm
    have hthinY : Thinned ((f.node q).tokens T (h + 1))
        (((Focus.rightOf K1 y K2 P X' ⟨f.kid.page, B ++ z :: e.keys, CY⟩ S hP).node q).tokens T (h + 1)) := by
      refine hthinX.trans ?_
      rw [hsame, Focus.tokens_node, Focus.tokens_node]
      exact hthinX'
    have hsortedY := hthinY.sorted hsorted
    rw [Focus.tokens_node] at hsortedY
    have hw : s1.wrapper f.kid.page = s2.wrapper f.kid.page := by
      refine (hremoved.frame.wrapper ?_).symm
      simp [around, Focus.leftOf, pagesBelow_cons, page_mem_pages]
    rw [if_neg Bool.false_ne_true]
    change Returns (BaseBStarTree.removeFrom T k fuel (.local (s1.wrapper f.kid.page))) s2 _
    rw [hw]
    refine (hbelow hreadyY.stands.toHeld.kid hreadyY.kid_sized hthree.ready.2
      (sorted_append.mp (sorted_append.mp hsortedY).2.1).1 hatY).mono ?_
    rintro b s' ⟨Y', hremovedY, hdropsY, -⟩
    refine ⟨_, hreadyY.put hremovedY, ?_, fun _ => by simp [Focus.put, Focus.node, Focus.rightOf]⟩
    cases b with
    | true =>
      refine Drops.of_thinned hthinY ?_
      rw [Focus.tokens_node, Focus.tokens_node]
      exact hdropsY.found_context _ _
    | false =>
      -- a record equal to `k` would be in one of the two children
      have hnone : ∀ x ∈ (f.node q).records T (h + 1), T.isEqual k x = false := by
        rw [Node.records, ← hthinX.records_eq]
        rcases hsplits.or hlt heq hP hlenR hKL hKR hsorted hyk with hk1 | hk1
        · exact hk1.absent hlt heq (hthinX.sorted hsorted) (hdrops.absent rfl).2
        · have hold : (Focus.rightOf K1 y K2 P ⟨c.page, c.keys ++ a :: A, CX⟩
              ⟨f.kid.page, B ++ z :: e.keys, CY⟩ S hP).node q = _ :=
            (Focus.rightOf_node hP).trans (Focus.leftOf_node hP).symm
          have habsent := hk1.absent (q := q) hlt heq (by rw [hold]; exact hthinX.sorted hsorted)
            (hdropsY.absent rfl).2
          rwa [hold] at habsent
      have hthin : Thinned ((f.node q).tokens T (h + 1)) (((Focus.rightOf K1 y K2 P X'
          ⟨f.kid.page, B ++ z :: e.keys, CY⟩ S hP).put Y' |>.node q).tokens T (h + 1)) := by
        refine hthinY.trans ?_
        rw [Focus.tokens_node, Focus.tokens_node]
        exact hdropsY.thinned.context _ _
      refine Drops.of_thinned hthin (Drops.none fun x hx => hnone x ?_)
      rwa [hthin.records_eq] at hx

/-- `removeByKeyNum` for a key equal to `k` where the scan for `k` stops. -/
theorem BaseBStarTree.removeByKeyNum_searched (hT : T.Valid) (hk : T.treeType = .bStarTree)
    (hlt : StrictWeak T.compare) (heq : T.Equates) (hfuel : 2 * h < fuel) (hs : Stands s R (.local w) h t)
    (hsz : t.Sized T h) (hready : T.minKeys < t.keys.length) (hsorted : Sorted T.compare (t.tokens T h))
    (ht : t.keys = A ++ x :: B) (hkx : T.isEqual k x = true)
    (hat : BaseBStarTree.RemovesAt T h false t A.length) (hfit : h ≠ 0 → T.MergeBufferFits) :
    Returns (BaseBStarTree.removeByKeyNum T fuel A.length (.local w)) s (Searched T k s R h t) := by
  have hrouters : T.treeType.hasRouters = false := by rw [hk]; rfl
  have htwo := (bStarTree_sizes hT hk h).1
  refine (BaseBStarTree.removeByKeyNum_inner hT hk hlt heq hfuel hs hs.root_ne (hsz.le_slots hT) hready
    (sized_iff.mp hsz).2 hsorted ht hat hfit).mono ?_
  rintro _ s' ⟨rfl, t', hremoved, htaken⟩
  refine ⟨t', hremoved, (htaken.of_equal hlt heq hkx).drops hrouters, fun _ => List.length_pos_iff.mp ?_⟩
  have hle := hremoved.le_keys
  omega

/-- `BaseBStarTree::remove` of a page that is not the root page. -/
theorem BaseBStarTree.removeFrom_spec (hT : T.Valid) (hk : T.treeType = .bStarTree)
    (hlt : StrictWeak T.compare) (heq : T.Equates) (hfuel : 2 * h + 1 < fuel)
    (hfit : h ≠ 0 → T.MergeBufferFits) : BaseBStarTree.RemovesBelow T k h fuel := by
  induction fuel generalizing h with
  | zero => omega
  | succ fuel ih =>
    intro s R w n hs hsz hready hsorted hat
    obtain ⟨A, B, hAB, hcut⟩ := exists_cut T.compare k n.keys
    refine Returns.of_eq ?_ (BaseBStarTree.removeFrom_eq hs.value_eq hs.rep.on (hsz.le_slots hT) hAB hcut)
    by_cases hfound : B.head?.any (T.isEqual k) = true
    · -- the key is in this page
      rw [if_pos hfound, if_neg hs.root_ne]
      obtain ⟨x, B, rfl⟩ : ∃ x B', B = x :: B' := by
        cases B with
        | nil => simp at hfound
        | cons x B => exact ⟨x, B, rfl⟩
      have hkx : T.isEqual k x = true := by simpa using hfound
      exact BaseBStarTree.removeByKeyNum_searched hT hk hlt heq (by omega) hs hsz hready hsorted hAB hkx
        (hat.removesAt hAB hcut hkx) hfit
    rw [if_neg hfound]
    cases h with
    | zero =>
      rw [if_pos rfl]
      exact Returns.pure (hs.searched_leaf hlt heq hsorted hAB hcut hfound)
    | succ h =>
      -- the search goes on below the child
      have hbuffer : T.MergeBufferFits := hfit (Nat.succ_ne_zero h)
      rw [if_neg (Nat.succ_ne_zero h)]
      obtain ⟨q, K, C⟩ := n
      obtain ⟨f, hnode, hKL, hsplits⟩ := exists_focus (p := q) heq hs.rep.length_kids hAB hcut
        (head_ne hfound)
      obtain ⟨hlifts, hnext⟩ := hat.2 f hnode hsplits
      obtain ⟨fuel, rfl⟩ := Nat.exists_eq_succ_of_ne_zero (by omega : fuel ≠ 0)
      have hbelow : BaseBStarTree.RemovesBelow T k h (fuel + 1) := ih (by omega) fun _ => hbuffer
      rw [← hnode] at hs hsz hready hsorted ⊢
      rw [← hKL]
      by_cases hmid : f.Middle T
      · exact BaseBStarTree.removeFrom_middle hT hk hlt heq hs hsz hsorted hsplits hmid hlifts
          (fun freed n hn => (hnext freed n hn).1) hbuffer hbelow
      · exact BaseBStarTree.removeFrom_beside hT hk hlt heq hs hsz hready hsorted hsplits hmid hnext hbuffer
          hbelow

/-! ## The whole tree -/

/-- The search in a copy of the root page is the search in the member `_rootPage` when the copy is not
changed. -/
theorem BaseBStarTree.removeFrom_copy (hs : Stands s R .rootPage h t) (hslots : t.keys.length ≤ T.slots)
    (hpassed : h ≠ 0 → t.PassedBy T k) :
    BaseBStarTree.removeFrom T k (fuel + 1) (.local (s.wrapper t.page)) s =
      BaseBStarTree.removeFrom T k (fuel + 1) .rootPage s := by
  obtain ⟨A, B, hAB, hcut⟩ := exists_cut T.compare k t.keys
  have hroot : s.rootPageNum = t.page := hs.at_page.root
  rw [BaseBStarTree.removeFrom_eq rfl hs.rep.on hslots hAB hcut,
    BaseBStarTree.removeFrom_eq hs.value_eq hs.rep.on hslots hAB hcut, if_pos hroot, if_pos hroot]
  by_cases hfound : B.head?.any (T.isEqual k) = true
  · rw [if_pos hfound, if_pos hfound]
  · rw [if_neg hfound, if_neg hfound]
    cases h with
    | zero => rfl
    | succ h =>
      rw [if_neg (Nat.succ_ne_zero h), if_neg (Nat.succ_ne_zero h)]
      obtain ⟨w, hread, hrich⟩ := hs.read_rich hslots hAB hcut hfound (hpassed (Nat.succ_ne_zero h))
      have hprepare : ∀ ref : PageRef κ, ref.value s = s.wrapper t.page →
          BaseBStarTree.prepareSubtree T A.length ref s = .ok (⟨false, ref, w, w⟩, s) := by
        intro ref hvalue
        rw [BaseBStarTree.prepareSubtree, bind_run (load_run s ref), hvalue, bind_run hread, if_neg (by omega)]
        rfl
      rw [bind_run (hprepare _ rfl), bind_run (hprepare .rootPage hs.value_eq)]
      rfl

/-- A child of the root page that has a key to spare or can borrow one. -/
theorem BaseBStarTree.removeFrom_near (hT : T.Valid) (hk : T.treeType = .bStarTree)
    (hlt : StrictWeak T.compare) (heq : T.Equates) (hs : Stands s R .rootPage (h + 1) (f.node q))
    (hsz : (f.node q).RootSized T (h + 1)) (hsorted : Sorted T.compare ((f.node q).tokens T (h + 1)))
    (hsplits : f.Splits T.compare k) (hnear : T.minKeys < f.kid.keys.length ∨ ¬Stuck T f)
    (hat : ∀ freed n, BaseBTree.Next T h f freed n → BaseBStarTree.Removable T k h n)
    (hbelow : BaseBStarTree.RemovesBelow T k h fuel) :
    Returns (do
      let prepared ← BaseBStarTree.prepareSubtree T f.keysL.length .rootPage
      BaseBStarTree.searchPrepared T k fuel prepared) s (Searched T k s R (h + 1) (f.node q)) := by
  have hmin := (bStarTree_sizes hT hk h).2.2.2.2.1
  refine (BaseBStarTree.prepareSubtree_near hT hk hlt hs (hsz.le_max.trans (maxRootOf_le_slots hT _))
    hsz.below hnear).bind ?_
  rintro r s1 ⟨ref1, f1, hmerged, hchild, hhow, hready, hkept⟩
  have hnext : BaseBTree.Next T h f false f1.kid := by
    rcases hhow with ⟨hrich, rfl⟩ | ⟨hpoor, hrot⟩
    · exact .rich hrich
    · exact .rotated hpoor hrot
  rw [BaseBStarTree.searchPrepared, hmerged, if_neg Bool.false_ne_true, hchild]
  refine (hbelow hready.stands.toHeld.kid hready.kid_sized (hmin ▸ hready.ready)
    (hkept.kid_sorted hsorted) (hat _ _ hnext)).mono ?_
  rintro b s' ⟨n, hremoved, hdrops, -⟩
  exact ⟨_, hready.put hremoved, hkept.put hlt heq hsorted hsplits hdrops, fun _ =>
    hready.keeps (List.length_pos_iff.mp (hsz.pos (Nat.succ_ne_zero h)))⟩

omit [Inhabited κ] in
/-- The node that two joined children of the root page become. -/
theorem RootMerge.length_join {K1 K2 : List κ} {P S : List (Node κ)} {d : Node κ} {cd : Page κ}
    (hm : RootMerge T h q f b K1 x K2 P c d S cd) : (c.join x d).keys.length = 2 * T.minKeys + 1 := by
  have hmin := hm.minimal
  rw [Node.join, List.length_append, List.length_cons]
  omega

/-- Two children of the root page were joined, and it keeps its other keys. -/
theorem BaseBStarTree.removeFrom_kept (hT : T.Valid) (hk : T.treeType = .bStarTree)
    (hlt : StrictWeak T.compare) (heq : T.Equates) {K1 K2 : List κ} {P S : List (Node κ)} {d : Node κ}
    {cd : Page κ} {s1 : BTree κ} {ref1 : PageRef κ} (hs : Stands s R ref (h + 1) (f.node q))
    (hsz : SizedBelow T (h + 1) (f.node q).kids) (hsorted : Sorted T.compare ((f.node q).tokens T (h + 1)))
    (hsplits : f.Splits T.compare k) (hm : RootMerge T h q f r.merged K1 x K2 P c d S cd)
    (hkeep : K1 ++ K2 ≠ []) (hf : Frame s s1 R)
    (hs1 : Stands s1 R ref1 (h + 1) ⟨q, K1 ++ K2, P ++ ([c.join x d] ++ S)⟩)
    (hr : (if r.merged then r.leftNeighbour else r.child) = s1.wrapper (c.join x d).page)
    (hchild : r.merged = true → r.child = s.wrapper f.kid.page)
    (hstores : r.merged = true → f.Stores T k h) (hfits : 2 * T.minKeys + 1 ≤ T.maxKeys)
    (hat : BaseBStarTree.Removable T k h (c.join x d)) (hbelow : BaseBStarTree.RemovesBelow T k h (fuel + 1)) :
    Returns (BaseBStarTree.searchPrepared T k (fuel + 1) r) s1 fun b s' =>
      Searched T k s R (h + 1) (f.node q) b s' := by
  obtain ⟨-, -, -, -, hmin, hmax⟩ := bStarTree_sizes hT hk h
  have hsep := tokenAt_bTree (T := T) (by rw [hk]; rfl) h
  have hready := join_readied hmin (by rw [hmax]; exact hfits) hm.node_eq hm.length_eq hkeep hm.last hsz
    hm.minimal.1 hm.minimal.2 hf hs1
  have hkept := join_orderKept (T := T) hlt hsep hs hm.node_eq hm.length_eq hm.left hm.right
  have hlen := hm.length_join
  have hsearch := hbelow hready.stands.toHeld.kid hready.kid_sized
      (show T.minKeys < (c.join x d).keys.length by omega)
    (hkept.kid_sorted hsorted) hat
  refine (BaseBStarTree.searchPrepared_spec hr hsearch fun hmerged s' hfalse => ?_).mono ?_
  · rw [hchild hmerged]
    obtain ⟨n, -, hdrops, -⟩ := hfalse
    exact BaseBStarTree.removeFrom_freed hT hs hsz (hstores hmerged)
      (hkept.absent hlt heq hsorted hsplits (hdrops.absent rfl).2) s'
  · rintro b s' ⟨n, hremoved, hdrops, -⟩
    refine ⟨_, hready.put hremoved, hkept.put hlt heq hsorted hsplits hdrops, fun _ => hkeep⟩

/-- The only two children of the root page were joined. -/
theorem BaseBStarTree.removeFrom_shrunk (hT : T.Valid) (hk : T.treeType = .bStarTree)
    (hlt : StrictWeak T.compare) (heq : T.Equates) {d : Node κ} {cd : Page κ} {s1 : BTree κ}
    (hs : Stands s R ref (h + 1) (f.node q)) (hsz : SizedBelow T (h + 1) (f.node q).kids)
    (hsorted : Sorted T.compare ((f.node q).tokens T (h + 1))) (hsplits : f.Splits T.compare k)
    (hm : RootMerge T h q f r.merged [] x [] [] c d [] cd) (hs1 : Stands s1 R .rootPage h (c.join x d))
    (hr : (if r.merged then r.leftNeighbour else r.child) = s1.wrapper (c.join x d).page)
    (hchild : r.merged = true → r.child = s.wrapper f.kid.page)
    (hstores : r.merged = true → f.Stores T k h) (hpassed : h ≠ 0 → (c.join x d).PassedBy T k)
    (hat : BaseBStarTree.RootRemovable T k h (c.join x d))
    (hroot : BaseBStarTree.RemovesRoot T k h (fuel + 1)) :
    Returns (BaseBStarTree.searchPrepared T k (fuel + 1) r) s1 fun b s' => ∃ H n,
      SearchedTree T k R (h + 1) (f.node q) b s' H n := by
  have hrouters : T.treeType.hasRouters = false := by rw [hk]; rfl
  have hsep := tokenAt_bTree hrouters h
  have hnode : f.node q = ⟨q, [x], [c, d]⟩ := hm.node_eq
  have hkept := join_orderKept (T := T) hlt hsep hs hm.node_eq hm.length_eq hm.left hm.right
  have hlen := hm.length_join
  have hmaxRoot := maxRootOf_bStarTree hT hk h
  have hrc : Rep s.stream.page h c := hs.rep.2 c (by rw [hnode]; simp)
  have htok : (f.node q).tokens T (h + 1) = (c.join x d).tokens T h := by
    rw [hnode, tokens_single hrouters hrc.length_kids_of_pos]
  have hszJoin : SizedBelow T h (c.join x d).kids := sized_join_kids (by rw [hnode] at hsz; exact hsz)
  have hslots := (le_of_eq hlen).trans (bStarTree_sizes hT hk h).2.2.2.1
  have hsearch := hroot hs1 ⟨by omega, fun _ => by omega, hszJoin⟩ (by rw [← htok]; exact hsorted) hat
  have hfirst : Returns (BaseBStarTree.removeFrom T k (fuel + 1) (.local (s1.wrapper (c.join x d).page))) s1
      fun b s' => ∃ H n, SearchedTree T k R h (c.join x d) b s' H n :=
    Returns.of_eq hsearch (BaseBStarTree.removeFrom_copy hs1 hslots hpassed)
  refine (BaseBStarTree.searchPrepared_spec hr hfirst fun hmerged s' hfalse => ?_).mono ?_
  · rw [hchild hmerged]
    obtain ⟨H, n, hn⟩ := hfalse
    exact BaseBStarTree.removeFrom_freed hT hs hsz (hstores hmerged)
      (hkept.absent hlt heq hsorted hsplits (hn.drops.absent rfl).2) s'
  · rintro b s' ⟨H, n, hn⟩
    refine ⟨H, n, hn.stands, hn.sized, ?_⟩
    rw [htok]
    exact hn.drops

/-- A child of the root page that is joined with a neighbour. -/
theorem BaseBStarTree.removeFrom_merges (hT : T.Valid) (hk : T.treeType = .bStarTree)
    (hlt : StrictWeak T.compare) (heq : T.Equates) (hs : Stands s R .rootPage (h + 1) (f.node q))
    (hsz : (f.node q).RootSized T (h + 1)) (hsorted : Sorted T.compare ((f.node q).tokens T (h + 1)))
    (hsplits : f.Splits T.compare k) (hpoor : f.kid.keys.length ≤ T.minKeys) (hstuck : Stuck T f)
    (hat : ∀ freed n, BaseBTree.Next T h f freed n → (freed = true → f.Stores T k h) ∧
      ((f.node q).keys.length = 1 → (h ≠ 0 → n.PassedBy T k) ∧ BaseBStarTree.RootRemovable T k h n) ∧
      ((f.node q).keys.length ≠ 1 → 2 * T.minKeys + 1 ≤ T.maxKeys ∧ BaseBStarTree.Removable T k h n))
    (hbelow : BaseBStarTree.RemovesBelow T k h (fuel + 1))
    (hroot : BaseBStarTree.RemovesRoot T k h (fuel + 1)) :
    Returns (do
      let prepared ← BaseBStarTree.prepareSubtree T f.keysL.length .rootPage
      BaseBStarTree.searchPrepared T k (fuel + 1) prepared) s fun b s' => ∃ H n,
        SearchedTree T k R (h + 1) (f.node q) b s' H n := by
  refine (BaseBStarTree.prepareSubtree_joins hT hk hlt hs (hsz.le_max.trans (maxRootOf_le_slots hT _))
    (hsz.pos (Nat.succ_ne_zero h)) hsz.below hpoor hstuck).bind ?_
  rintro r s1 ⟨K1, x, K2, P, c, d, S, cd, hm, hr, hchild, hjoined⟩
  obtain ⟨hstores, hone, hmore⟩ := hat _ _ hm.next
  rcases hjoined with ⟨hnil, hs1⟩ | ⟨hkeep, hf, ref1, hs1⟩
  · obtain ⟨rfl, rfl, rfl, rfl, hnode⟩ := hm.node_single hs hnil
    obtain ⟨hpassed, hatroot⟩ := hone (by rw [hnode]; rfl)
    exact BaseBStarTree.removeFrom_shrunk hT hk hlt heq hs hsz.below hsorted hsplits hm hs1 hr hchild hstores
      hpassed hatroot hroot
  · have hne : (f.node q).keys.length ≠ 1 := fun hlen => hkeep (List.length_eq_zero_iff.mp (by
      rw [hm.node_eq] at hlen
      simp only [List.length_append, List.length_cons] at hlen ⊢
      omega))
    obtain ⟨hfits, hatkid⟩ := hmore hne
    exact (BaseBStarTree.removeFrom_kept hT hk hlt heq hs hsz.below hsorted hsplits hm hkeep hf hs1 hr hchild
      hstores hfits hatkid hbelow).mono fun b s' hsearched => ⟨h + 1, hsearched.tree hs hsz.le_max⟩

/-- `removeByKeyNum` for a key of the root page that is equal to `k`. -/
theorem BaseBStarTree.removeByKeyNum_searchedRoot (hT : T.Valid) (hk : T.treeType = .bStarTree)
    (hlt : StrictWeak T.compare) (heq : T.Equates) (hfuel : 2 * h < fuel) (hs : Stands s R .rootPage h t)
    (hsz : t.RootSized T h) (hsorted : Sorted T.compare (t.tokens T h)) (ht : t.keys = A ++ x :: B)
    (hkx : T.isEqual k x = true) (hat : BaseBStarTree.RemovesAt T h true t A.length)
    (hfits : BaseBStarTree.MergeFits T h t A.length) (hfit : 2 ≤ h → T.MergeBufferFits) :
    Returns (BaseBStarTree.removeByKeyNum T fuel A.length .rootPage) s fun b s' => ∃ H n,
      SearchedTree T k R h t b s' H n := by
  have hrouters : T.treeType.hasRouters = false := by rw [hk]; rfl
  refine (BaseBStarTree.removeByKeyNum_rootSized hT hk hlt heq hfuel hs
    (hsz.le_max.trans (maxRootOf_le_slots hT h)) hsz.below hsorted ht hat hfit).mono ?_
  rintro _ s' ⟨rfl, H, n, hn, htaken, hsized⟩
  exact ⟨H, n, hn, hsized hsz hfits, (htaken.of_equal hlt heq hkx).drops hrouters⟩

/-- `BaseBStarTree::remove` of the root page. -/
theorem BaseBStarTree.removeFrom_root (hT : T.Valid) (hk : T.treeType = .bStarTree)
    (hlt : StrictWeak T.compare) (heq : T.Equates) (hfuel : 2 * h + 1 < fuel)
    (hfit : 2 ≤ h → T.MergeBufferFits) : BaseBStarTree.RemovesRoot T k h fuel := by
  induction fuel generalizing h with
  | zero => omega
  | succ fuel ih =>
    intro s R n hs hsz hsorted hat
    obtain ⟨A, B, hAB, hcut⟩ := exists_cut T.compare k n.keys
    have hroot : s.rootPageNum = n.page := hs.at_page.root
    refine Returns.of_eq ?_ (BaseBStarTree.removeFrom_eq hs.value_eq hs.rep.on
      (hsz.le_max.trans (maxRootOf_le_slots hT h)) hAB hcut)
    by_cases hfound : B.head?.any (T.isEqual k) = true
    · -- the key is in the root page
      rw [if_pos hfound, if_pos hroot]
      obtain ⟨x, B, rfl⟩ : ∃ x B', B = x :: B' := by
        cases B with
        | nil => simp at hfound
        | cons x B => exact ⟨x, B, rfl⟩
      have hkx : T.isEqual k x = true := by simpa using hfound
      obtain ⟨hremoves, hfits⟩ := hat.removesAt hAB hcut hkx
      exact BaseBStarTree.removeByKeyNum_searchedRoot hT hk hlt heq (by omega) hs hsz hsorted hAB hkx
        hremoves hfits hfit
    rw [if_neg hfound]
    cases h with
    | zero =>
      rw [if_pos rfl]
      exact Returns.pure ⟨0, (hs.searched_leaf hlt heq hsorted hAB hcut hfound).tree hs hsz.le_max⟩
    | succ h =>
      rw [if_neg (Nat.succ_ne_zero h)]
      obtain ⟨q, K, C⟩ := n
      obtain ⟨f, hnode, hKL, hsplits⟩ := exists_focus (p := q) heq hs.rep.length_kids hAB hcut
        (head_ne hfound)
      have hnext := hat.2 f hnode hsplits
      obtain ⟨fuel, rfl⟩ := Nat.exists_eq_succ_of_ne_zero (by omega : fuel ≠ 0)
      have hbelow : BaseBStarTree.RemovesBelow T k h (fuel + 1) :=
        BaseBStarTree.removeFrom_spec hT hk hlt heq (by omega) fun _ => hfit (by omega)
      rw [← hnode] at hs hsz hsorted ⊢
      rw [← hKL]
      by_cases hnear : T.minKeys < f.kid.keys.length ∨ ¬Stuck T f
      · exact (BaseBStarTree.removeFrom_near hT hk hlt heq hs hsz hsorted hsplits hnear
          (fun freed n hn => (hnext freed n hn).1 hnear) hbelow).mono
            fun b s' hsearched => ⟨h + 1, hsearched.tree hs hsz.le_max⟩
      · obtain ⟨hpoor, hstuck⟩ := not_or.mp hnear
        rw [Nat.not_lt] at hpoor
        rw [not_not] at hstuck
        refine BaseBStarTree.removeFrom_merges hT hk hlt heq hs hsz hsorted hsplits hpoor hstuck
          (fun freed n hn => ?_) hbelow (ih (by omega) fun _ => hfit (by omega))
        rw [hnode]
        exact (hnext freed n hn).2 hpoor hstuck

/-- `remove` on a well-formed B*-tree leaves it well formed; it drops one record equal to `k` when it
returns true, and there is none when it returns false. -/
theorem bStarTree_remove_spec (hT : T.Valid) (hk : T.treeType = .bStarTree) (hlt : StrictWeak T.compare)
    (heq : T.Equates) (hw : WellFormed T s h t) (hat : BaseBStarTree.RootRemovable T k h t)
    (hfit : 2 ≤ h → T.MergeBufferFits) :
    Returns (remove T k) s fun b s' => ∃ H n, WellFormed T s' H n ∧
      Drops T k b (t.tokens T h) (n.tokens T H) := by
  have hrouters : T.treeType.hasRouters = false := by rw [hk]; rfl
  obtain ⟨R, hs⟩ := hw.stands
  have hheight := hs.store.height_lt hs.on hs.below
  have hlast := (hs.store.mem_range (page_mem_add h t R)).2
  have hpage := (hs.store.mem_range (page_mem_add h t R)).1
  have hremove : removeFrom T k = BaseBStarTree.removeFrom T k := by
    unfold removeFrom
    rw [hk]
  unfold remove
  refine Returns.get ?_
  rw [hremove]
  refine (BaseBStarTree.removeFrom_root hT hk hlt heq (by omega) hfit hs hw.sized hw.sorted hat).mono ?_
  rintro b s' ⟨H, n, hn⟩
  exact ⟨H, n, hn.stands.wellFormed hrouters hn.sized (hn.drops.sorted hw.sorted), hn.drops⟩

end

end BTreesMods
