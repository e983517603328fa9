import BTreesMods.Removal.MergeThree
import BTreesMods.Tree.Separated

/-!
# Merging the leaves of a B*+-tree

`BaseBStarPlusTree::mergeChildren` drops the router between two leaves that it merges. Of three leaves
it makes two, cut in the middle of the records, and leaves the router between them as it was: that
separates them only when the left leaf had half of the records (`mergeLeaves_separate_iff`).
-/

namespace BTreesMods

variable {κ : Type}

/-- The node `t` has become `t'`, with the same records in the leaves that `cursors` point to. -/
structure LeavesMerged (T : Cfg κ) (s1 : BTree κ) (R : Multiset ℕ) (ref1 : PageRef κ) (t t' : Node κ)
    (cursors : List ℕ) : Prop where
  stands : Stands s1 R ref1 1 t'
  page_eq : t'.page = t.page
  records_eq : t'.records T 1 = t.records T 1
  cursors_eq : t'.kids.map Node.page = cursors

section

variable {T : Cfg κ} {s : BTree κ} {R : Multiset ℕ} {ref : PageRef κ} {p : ℕ} {c d e : Node κ}
  {K1 K2 X Y : List κ} {P S : List (Node κ)} {a b x : κ}

/-! ## The in-order sequence -/

theorem tokens_twoLeaves (hrouters : T.treeType.hasRouters = true) (hP : P.length = K1.length) :
    (⟨p, K1 ++ x :: K2, P ++ ([c, d] ++ S)⟩ : Node κ).tokens T 1 =
      tokensBefore T 0 P K1 ++ ((c.keys.map .record ++ .router x :: d.keys.map .record) ++
        tokensAfter T 0 K2 S) := by
  have htok := tokens_around₂ (T := T) (h := 0) (p := p) (m := x) (L := K2) (S := S) (c := c) (d := d) hP
  rw [Cfg.sep, if_pos hrouters] at htok
  exact htok

theorem tokens_threeLeaves (hrouters : T.treeType.hasRouters = true) (hP : P.length = K1.length) :
    (⟨p, K1 ++ a :: b :: K2, P ++ ([c, d, e] ++ S)⟩ : Node κ).tokens T 1 =
      tokensBefore T 0 P K1 ++ ((c.keys.map .record ++ .router a :: (d.keys.map .record ++
        .router b :: e.keys.map .record)) ++ tokensAfter T 0 K2 S) := by
  have htok := tokens_around₂ (T := T) (h := 0) (p := p) (m := a) (L := b :: K2) (S := e :: S) (c := c)
    (d := d) hP
  rw [tokensAfter_cons, Cfg.sep, if_pos hrouters, Cfg.sep, if_pos hrouters] at htok
  refine htok.trans ?_
  simp [Node.tokens]

/-- Two leaves with the router between them dropped. -/
theorem thinned_twoLeaves {F G : List (Token κ)} :
    (F ++ ((X ++ Y).map Token.record ++ G)).Sublist
        (F ++ ((X.map .record ++ .router x :: Y.map .record) ++ G)) ∧
      recordsOf (F ++ ((X ++ Y).map Token.record ++ G)) =
        recordsOf (F ++ ((X.map .record ++ .router x :: Y.map .record) ++ G)) := by
  refine ⟨(List.Sublist.refl F).append (List.Sublist.append ?_ (List.Sublist.refl G)), by simp⟩
  rw [List.map_append]
  exact (List.Sublist.refl _).append (List.sublist_cons_self _ _)

/-! ## Two leaves -/

/-- `BaseBStarPlusTree::mergeChildren` of two leaves below a page that keeps a key. -/
theorem mergeTwoLeaves_spec (hrouters : T.treeType.hasRouters = true)
    (hs : Stands s R ref 1 ⟨p, K1 ++ x :: K2, P ++ ([c, d] ++ S)⟩) (hP : P.length = K1.length)
    (hslots : (K1 ++ x :: K2).length ≤ T.slots) (hcd : c.keys.length + d.keys.length ≤ T.slots)
    (hkeep : K1 ++ K2 ≠ [])
    (hsep : Separated T.compare
      ((⟨p, K1 ++ x :: K2, P ++ ([c, d] ++ S)⟩ : Node κ).tokens T 1)) :
    Returns (BaseBStarPlusTree.mergeChildren T (s.wrapper c.page) (s.wrapper d.page) ref K1.length) s
      fun _ s1 => ∃ ref1 t', LeavesMerged T s1 R ref1 ⟨p, K1 ++ x :: K2, P ++ ([c, d] ++ S)⟩ t'
        (P.map Node.page ++ c.page :: S.map Node.page) ∧ Separated T.compare (t'.tokens T 1) := by
  obtain ⟨cd, hmerge, hon⟩ := BaseBStarPlusTree.mergeChildren_eq hs hcd
  obtain ⟨r, s1, hrun, ref1, -, -, hs1⟩ := finishMerge_kept hs hP hslots hkeep (m := c.joinLeaves d) rfl
    rfl hon
  have htok : (⟨p, K1 ++ K2, P ++ ([c.joinLeaves d] ++ S)⟩ : Node κ).tokens T 1 = tokensBefore T 0 P K1 ++
      ((c.keys ++ d.keys).map .record ++ tokensAfter T 0 K2 S) := tokens_around hP
  have hthin := thinned_twoLeaves (X := c.keys) (Y := d.keys) (x := x) (F := tokensBefore T 0 P K1)
    (G := tokensAfter T 0 K2 S)
  rw [← htok, ← tokens_twoLeaves (p := p) hrouters hP] at hthin
  exact ⟨r, s1, hmerge.trans hrun, ref1, _, ⟨hs1, rfl, hthin.2, by simp [Node.joinLeaves]⟩,
    hsep.sublist hthin.1⟩

/-- `BaseBStarPlusTree::mergeChildren` of the two leaves below a root page with one key. -/
theorem mergeTwoLeaves_collapse (hrouters : T.treeType.hasRouters = true)
    (hs : Stands s R .rootPage 1 ⟨p, [x], [c, d]⟩) (hcd : c.keys.length + d.keys.length ≤ T.slots)
    (hslots : 1 ≤ T.slots) :
    Returns (BaseBStarPlusTree.mergeChildren T (s.wrapper c.page) (s.wrapper d.page) .rootPage 0) s
      fun _ s1 => ∃ t', Stands s1 R .rootPage 0 t' ∧ t'.page = c.page ∧
        t'.records T 0 = (⟨p, [x], [c, d]⟩ : Node κ).records T 1 := by
  have hs' : Stands s R .rootPage 1 ⟨p, [] ++ x :: [], [] ++ ([c, d] ++ [])⟩ := hs
  obtain ⟨cd, hmerge, hon⟩ := BaseBStarPlusTree.mergeChildren_eq hs' hcd
  obtain ⟨r, s1, hrun, -, -, hs1⟩ := finishMerge_collapse (T := T) hs hslots (m := c.joinLeaves d) rfl
    rfl hon
  refine ⟨r, s1, hmerge.trans hrun, _, hs1, rfl, ?_⟩
  have htok : (⟨p, [] ++ x :: [], [] ++ ([c, d] ++ [])⟩ : Node κ).tokens T 1 = _ :=
    tokens_twoLeaves hrouters rfl
  change recordsOf ((c.keys ++ d.keys).map .record) = recordsOf _
  simp only [List.nil_append, List.append_nil] at htok
  rw [htok]
  simp [tokensBefore, tokensAfter, before, after]

/-! ## Three leaves -/

variable [Inhabited κ]

/-- `BaseBStarPlusTree::mergeChildren` of three leaves. -/
theorem BaseBStarPlusTree.mergeThree_spec
    (hs : Stands s R ref 1 ⟨p, K1 ++ a :: b :: K2, P ++ ([c, d, e] ++ S)⟩) (hP : P.length = K1.length)
    (hslots : (K1 ++ a :: b :: K2).length ≤ T.slots) (hc : c.keys.length ≤ T.slots)
    (hd : d.keys.length ≤ T.slots) (he : e.keys.length ≤ T.slots)
    (hfit : (c.keys.length + d.keys.length + e.keys.length) * T.recSize < 2 ^ 31)
    (hG : c.keys ++ (d.keys ++ e.keys) = X ++ Y)
    (hY : Y.length = (c.keys.length + d.keys.length + e.keys.length) / 2) (hX : X.length ≤ T.slots) :
    Returns (BaseBStarPlusTree.mergeThreeChildren T (s.wrapper c.page) (s.wrapper d.page)
        (s.wrapper e.page) ref (K1.length + 1)) s fun r s1 => ∃ ref1,
      r = (ref1, s1.wrapper c.page, s1.wrapper d.page) ∧ Frame s s1 R ∧
        Stands s1 R ref1 1
          ⟨p, K1 ++ a :: K2, P ++ ([⟨c.page, X, []⟩, ⟨d.page, Y, []⟩] ++ S)⟩ := by
  obtain ⟨hnode, hrc, hrd, hre⟩ := hs.holds_triple
  have hleft : (s.wrapper c.page).data.Holds true c.keys (c.kids.map Node.page) := hrc.on
  have hmiddle : (s.wrapper d.page).data.Holds true d.keys (d.kids.map Node.page) := hrd.on
  have hright : (s.wrapper e.page).data.Holds true e.keys (e.kids.map Node.page) := hre.on
  have hck : c.kids = [] := hrc.below
  have hdk : d.kids = [] := hrd.below
  have hek : e.kids = [] := hre.below
  obtain ⟨cd, dd, nd, hrun, hcd, hdd, hnd⟩ := mergeThreeLeaves_spec hnode
    (by simpa using hP) (hnode.keysNum_le hslots) hleft
    (hleft.keysNum_le hc) hmiddle (hmiddle.keysNum_le hd) hright
    (hright.keysNum_le he) hG hY hX
  have hnd' : (⟨p, K1 ++ a :: K2, P ++ ([⟨c.page, X, []⟩, ⟨d.page, Y, []⟩] ++ S)⟩ : Node κ).On 1
      nd := by
    rw [Node.On]
    simpa using hnd
  have hc' : (⟨c.page, X, []⟩ : Node κ).page = c.page := rfl
  have hd' : (⟨d.page, Y, []⟩ : Node κ).page = d.page := rfl
  have hfinish := finishMergeThree_spec hs hc' hd' (by simp [hck, hdk, hek]) hcd hdd hnd'
  have hbuffer : ((s.wrapper c.page).data.keysNum + (s.wrapper d.page).data.keysNum +
      (s.wrapper e.page).data.keysNum) * T.recSize < 2 ^ 31 := by
    rwa [hleft.keysNum_eq, hmiddle.keysNum_eq, hright.keysNum_eq]
  unfold BaseBStarPlusTree.mergeThreeChildren
  rw [if_neg (by simp [hleft.leaf_eq])]
  refine Returns.step (load_run s ref) ?_
  rw [hs.value_eq]
  exact Returns.step (newKeys_run hbuffer s) (Returns.step (onPages_run hrun s) hfinish)

/-- `BaseBStarPlusTree::mergeChildren` of three leaves whose records do not fit into a buffer. -/
theorem BaseBStarPlusTree.mergeThree_throws
    (hs : Stands s R ref 1 ⟨p, K1 ++ a :: b :: K2, P ++ ([c, d, e] ++ S)⟩)
    (hfit : ¬(c.keys.length + d.keys.length + e.keys.length) * T.recSize < 2 ^ 31) (n : ℕ) :
    BaseBStarPlusTree.mergeThreeChildren T (s.wrapper c.page) (s.wrapper d.page) (s.wrapper e.page) ref n s =
      .error .badArrayNewLength := by
  obtain ⟨-, hrc, hrd, hre⟩ := hs.holds_triple
  have hleft : (s.wrapper c.page).data.Holds true c.keys (c.kids.map Node.page) := hrc.on
  have hmiddle : (s.wrapper d.page).data.Holds true d.keys (d.kids.map Node.page) := hrd.on
  have hright : (s.wrapper e.page).data.Holds true e.keys (e.kids.map Node.page) := hre.on
  have hbuffer : ¬((s.wrapper c.page).data.keysNum + (s.wrapper d.page).data.keysNum +
      (s.wrapper e.page).data.keysNum) * T.recSize < 2 ^ 31 := by
    rwa [hleft.keysNum_eq, hmiddle.keysNum_eq, hright.keysNum_eq]
  unfold BaseBStarPlusTree.mergeThreeChildren
  rw [if_neg (by simp [hleft.leaf_eq]), bind_run (load_run s ref)]
  exact bind_error (newKeys_throws hbuffer s) _

omit [Inhabited κ] in
/-- The router that stays separates the new leaves only where they are cut as before. -/
theorem separated_threeLeaves {F G : List (Token κ)}
    (hsep : Separated T.compare (F ++ ((c.keys.map Token.record ++ Token.router a :: (d.keys.map Token.record ++
      Token.router b :: e.keys.map Token.record)) ++ G)))
    (hG : c.keys ++ (d.keys ++ e.keys) = X ++ Y) :
    Separated T.compare (F ++ ((X.map Token.record ++ Token.router a :: Y.map Token.record) ++ G)) ↔
      X.length = c.keys.length := by
  have hthin : (F ++ ((c.keys.map Token.record ++ Token.router a :: (d.keys ++ e.keys).map Token.record) ++ G)).Sublist
      (F ++ ((c.keys.map Token.record ++ Token.router a :: (d.keys.map Token.record ++
        Token.router b :: e.keys.map Token.record)) ++ G)) := by
    refine (List.Sublist.refl F).append (List.Sublist.append ?_ (List.Sublist.refl G))
    rw [List.map_append]
    exact (List.Sublist.refl _).append ((((List.Sublist.refl _).append
      (List.sublist_cons_self _ _)).cons_cons _))
  have hsep' := hsep.sublist hthin
  obtain ⟨hleft, hright⟩ := separated_router.mp hsep'.middle
  constructor
  · intro hnew
    obtain ⟨hX, hY⟩ := separated_router.mp hnew.middle
    exact length_eq_of_separates hleft hright hX hY hG.symm
  · intro hlen
    obtain ⟨rfl, rfl⟩ := List.append_inj hG.symm hlen
    exact hsep'

/-- `BaseBStarPlusTree::mergeChildren` of three leaves keeps the records; the routers separate
afterwards if and only if the left leaf had half of them, rounded up. -/
theorem mergeThreeLeaves_separate (hrouters : T.treeType.hasRouters = true)
    (hs : Stands s R ref 1 ⟨p, K1 ++ a :: b :: K2, P ++ ([c, d, e] ++ S)⟩) (hP : P.length = K1.length)
    (hslots : (K1 ++ a :: b :: K2).length ≤ T.slots) (hc : c.keys.length ≤ T.slots)
    (hd : d.keys.length ≤ T.slots) (he : e.keys.length ≤ T.slots)
    (hfit : (c.keys.length + d.keys.length + e.keys.length) * T.recSize < 2 ^ 31)
    (hhalf : (c.keys.length + d.keys.length + e.keys.length + 1) / 2 ≤ T.slots)
    (hsep : Separated T.compare
      ((⟨p, K1 ++ a :: b :: K2, P ++ ([c, d, e] ++ S)⟩ : Node κ).tokens T 1)) :
    Returns (BaseBStarPlusTree.mergeThreeChildren T (s.wrapper c.page) (s.wrapper d.page)
        (s.wrapper e.page) ref (K1.length + 1)) s fun _ s1 => ∃ ref1 t',
      LeavesMerged T s1 R ref1 ⟨p, K1 ++ a :: b :: K2, P ++ ([c, d, e] ++ S)⟩ t'
          (P.map Node.page ++ c.page :: d.page :: S.map Node.page) ∧
        (Separated T.compare (t'.tokens T 1) ↔
          c.keys.length = (c.keys.length + d.keys.length + e.keys.length + 1) / 2) := by
  set n := c.keys.length + d.keys.length + e.keys.length with hn
  have hlen : (c.keys ++ (d.keys ++ e.keys)).length = n := by
    rw [List.length_append, List.length_append]
    omega
  obtain ⟨X, Y, hG, hX, hY⟩ : ∃ X Y, c.keys ++ (d.keys ++ e.keys) = X ++ Y ∧
      X.length = (n + 1) / 2 ∧ Y.length = n / 2 := by
    refine ⟨_, _, (List.take_append_drop ((n + 1) / 2) _).symm, ?_, ?_⟩
    · rw [List.length_take]
      omega
    · rw [List.length_drop]
      omega
  refine (BaseBStarPlusTree.mergeThree_spec hs hP hslots hc hd he hfit hG hY (by omega)).mono ?_
  rintro r s1 ⟨ref1, -, -, hs1⟩
  have hnew : (⟨p, K1 ++ a :: K2, P ++ ([⟨c.page, X, []⟩, ⟨d.page, Y, []⟩] ++ S)⟩ : Node κ).tokens T
      1 = _ := tokens_twoLeaves hrouters hP
  rw [tokens_threeLeaves hrouters hP] at hsep
  refine ⟨ref1, _, ⟨hs1, rfl, ?_, by simp⟩, ?_⟩
  · rw [Node.records, Node.records, hnew, tokens_threeLeaves hrouters hP]
    have hrecords := congrArg (fun Z => recordsOf (Z.map Token.record)) hG
    simp only [List.map_append, recordsOf_append, recordsOf_router] at hrecords ⊢
    rw [hrecords]
  · rw [hnew, separated_threeLeaves hsep hG, hX]
    exact eq_comm

/-! ## `mergeChildren` of the B*+-tree -/

/-- `BaseBStarPlusTree::mergeChildren` of leaves that have no key to spare keeps the records and takes
the cursor of the freed leaf out of the parent; of three leaves it throws if their records do not fit into
a buffer. The routers of the parent separate its leaves afterwards after a merge of two leaves, and after
one of three leaves if and only if the left leaf had half of the records, rounded up. -/
theorem mergeLeaves_separate_iff (hT : T.Valid) (hk : T.treeType = .bStarPlusTree)
    (hs : Stands s R ref 1 ⟨p, K1, P⟩) (hslots : K1.length ≤ T.slots)
    (hsep : Separated T.compare ((⟨p, K1, P⟩ : Node κ).tokens T 1)) :
    (∀ (A B : List κ) (x : κ) (Q S : List (Node κ)) (c d : Node κ), K1 = A ++ x :: B →
      P = Q ++ ([c, d] ++ S) → Q.length = A.length →
      c.keys.length ≤ T.minKeys → d.keys.length ≤ T.minKeys → A ++ B ≠ [] →
      Returns (BaseBStarPlusTree.mergeChildren T (s.wrapper c.page) (s.wrapper d.page) ref A.length) s
        fun _ s1 => ∃ ref1 t',
          LeavesMerged T s1 R ref1 ⟨p, K1, P⟩ t' (Q.map Node.page ++ c.page :: S.map Node.page) ∧
            Separated T.compare (t'.tokens T 1)) ∧
    (∀ (x : κ) (c d : Node κ), K1 = [x] → P = [c, d] → ref = .rootPage →
      c.keys.length ≤ T.minKeys → d.keys.length ≤ T.minKeys →
      Returns (BaseBStarPlusTree.mergeChildren T (s.wrapper c.page) (s.wrapper d.page) ref 0) s
        fun _ s1 => ∃ t', Stands s1 R .rootPage 0 t' ∧ t'.page = c.page ∧
          t'.records T 0 = (⟨p, K1, P⟩ : Node κ).records T 1) ∧
    ∀ (A B : List κ) (a b : κ) (Q S : List (Node κ)) (c d e : Node κ),
      K1 = A ++ a :: b :: B → P = Q ++ ([c, d, e] ++ S) → Q.length = A.length →
      c.keys.length ≤ T.minKeys → d.keys.length ≤ T.minKeys → e.keys.length ≤ T.minKeys →
      ((c.keys.length + d.keys.length + e.keys.length) * T.recSize < 2 ^ 31 →
        Returns (BaseBStarPlusTree.mergeThreeChildren T (s.wrapper c.page) (s.wrapper d.page)
            (s.wrapper e.page) ref (A.length + 1)) s fun _ s1 => ∃ ref1 t',
          LeavesMerged T s1 R ref1 ⟨p, K1, P⟩ t'
              (Q.map Node.page ++ c.page :: d.page :: S.map Node.page) ∧
            (Separated T.compare (t'.tokens T 1) ↔
              c.keys.length = (c.keys.length + d.keys.length + e.keys.length + 1) / 2)) ∧
      (¬(c.keys.length + d.keys.length + e.keys.length) * T.recSize < 2 ^ 31 →
        BaseBStarPlusTree.mergeThreeChildren T (s.wrapper c.page) (s.wrapper d.page) (s.wrapper e.page) ref
          (A.length + 1) s = .error .badArrayNewLength) := by
  have hrouters : T.treeType.hasRouters = true := by rw [hk]; rfl
  obtain ⟨m, h4, -, hmin, -, -, -, -, -, -, hsl, -⟩ := valid_star hT (by rw [hk]; rfl)
  refine ⟨?_, ?_, ?_⟩
  · rintro A B x Q S c d rfl rfl hQ hc hd hkeep
    exact mergeTwoLeaves_spec hrouters hs hQ (by omega) (by omega) hkeep hsep
  · rintro x c d rfl rfl rfl hc hd
    exact mergeTwoLeaves_collapse hrouters hs (by omega) (by omega)
  · rintro A B a b Q S c d e rfl rfl hQ hc hd he
    exact ⟨fun hfit => mergeThreeLeaves_separate hrouters hs hQ (by omega) (by omega) (by omega) (by omega)
      hfit (by omega) hsep, fun hfit => BaseBStarPlusTree.mergeThree_throws hs hfit _⟩

end

/-! ## Three leaves of order 4 -/

/-- A root page 1 with the routers 2 and 4 and the leaves 2, 3 and 4. -/
def BTree.leafSiblings : BTree ℕ := .ofPages 4 4 fun p =>
  if p = 1 then .filled [2, 4] [2, 3, 4] else if p = 2 then .filled [1, 2] []
  else if p = 3 then .filled [3, 4] [] else .filled [5, 6] []

/-- The tree of `BTree.leafSiblings`. -/
def Node.leafSiblings : Node ℕ :=
  ⟨1, [2, 4], [⟨2, [1, 2], []⟩, ⟨3, [3, 4], []⟩, ⟨4, [5, 6], []⟩]⟩

theorem leafSiblings_stands : Stands BTree.leafSiblings 0 .rootPage 1 Node.leafSiblings :=
  ofPages_stands rfl (by decide +kernel) (by decide +kernel)

theorem leafSiblings_separated :
    Separated (natCfg .bStarPlusTree 4).compare (Node.leafSiblings.tokens (natCfg .bStarPlusTree 4) 1) := by
  decide +kernel

/-- The record 3 moves from the middle leaf to the left one, and the router between them stays 2. -/
theorem mergeThreeLeaves_unseparated :
    Separated (natCfg .bStarPlusTree 4).compare
        (Node.leafSiblings.tokens (natCfg .bStarPlusTree 4) 1) ∧
      (BaseBStarPlusTree.mergeThreeChildren (natCfg .bStarPlusTree 4) ⟨2, .filled [1, 2] []⟩
          ⟨3, .filled [3, 4] []⟩ ⟨4, .filled [5, 6] []⟩ .rootPage 1
          BTree.leafSiblings).toOption.map (fun r =>
            (r.2.rootPage.data.keyList, r.1.2.1.data.keyList, r.1.2.2.data.keyList)) =
        some ([2], [1, 2, 3], [4, 5, 6]) ∧
      ¬Separated (natCfg .bStarPlusTree 4).compare
        ((⟨1, [2], [⟨2, [1, 2, 3], []⟩, ⟨3, [4, 5, 6], []⟩]⟩ : Node ℕ).tokens
          (natCfg .bStarPlusTree 4) 1) := by
  decide +kernel

/-- The merges of the leaves of `BTree.leafSiblings`. -/
theorem mergeLeaves_separate_leafSiblings :
    Returns (BaseBStarPlusTree.mergeThreeChildren (natCfg .bStarPlusTree 4)
        (BTree.leafSiblings.wrapper 2) (BTree.leafSiblings.wrapper 3) (BTree.leafSiblings.wrapper 4)
        .rootPage 1) BTree.leafSiblings fun _ s1 => ∃ ref1 t',
      LeavesMerged (natCfg .bStarPlusTree 4) s1 0 ref1 Node.leafSiblings t' [2, 3] ∧
        (Separated (natCfg .bStarPlusTree 4).compare (t'.tokens (natCfg .bStarPlusTree 4) 1) ↔
          2 = (2 + 2 + 2 + 1) / 2) := by
  have hmerges := mergeLeaves_separate_iff (T := natCfg .bStarPlusTree 4) ⟨4, 4, rfl⟩ rfl
    leafSiblings_stands (by decide) leafSiblings_separated
  exact (hmerges.2.2 [] [] 2 4 [] [] ⟨2, [1, 2], []⟩ ⟨3, [3, 4], []⟩ ⟨4, [5, 6], []⟩ rfl rfl rfl
    (by decide) (by decide) (by decide)).1 (by decide)

end BTreesMods
