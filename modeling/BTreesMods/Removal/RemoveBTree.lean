import BTreesMods.Removal.Searched

/-!
# Removal from a B-tree

What `BaseBTree::remove` (`btree.hpp`, lines 302–404) does to a well-formed B-tree. The record taken out
is the searched one when `getAndRemoveMinKey` never has to go down (`BaseBTree.Removable`), and the
member `_rootPage` stays a copy of the stored root page when the search does not change the page that
it goes on with after the root page has shrunk away (`BaseBTree.KeepsRoot`).

Main result: `bTree_remove_spec`.
-/

namespace BTreesMods

variable {κ : Type}

/-! ## Definitions -/

/-- `removeByKeyNum` finds a replacement for the key `x` between the children `l` and `r` of height `h`
that can stand in its place. -/
def BaseBTree.Replaceable (T : Cfg κ) (x : κ) : ℕ → Node κ → Node κ → Prop
  | 0, _, _ => True
  | h + 1, l, r => T.minKeys < l.keys.length ∨
      l.keys.length ≤ T.minKeys ∧ T.minKeys < r.keys.length ∧ r.LendsKey T x (h + 1) ∨
      -- the children are merged, and `x` stands between the last and the first one of theirs
      l.keys.length ≤ T.minKeys ∧ r.keys.length ≤ T.minKeys ∧
        ∀ l' r', l.kids.getLast? = some l' → r.kids.head? = some r' → Replaceable T x h l' r'

/-- Where the scans for `k` below the page `t` stop in front of a key equal to `k`, it can be replaced. -/
def BaseBTree.Removable (T : Cfg κ) (k : κ) : ℕ → Node κ → Prop
  | 0, _ => True
  | h + 1, t => ∀ c, t.kids[t.scan T k]? = some c →
      (∀ x r, t.keys[t.scan T k]? = some x → T.isEqual k x = true → t.kids[t.scan T k + 1]? = some r →
        Replaceable T x h c r) ∧
      ((∀ x, t.keys[t.scan T k]? = some x → T.isEqual k x = false) → Removable T k h c)

/-- When the only key of the root page `t` goes into its merged children on the way to `k`, the merged
page is not changed on the way further down: `k` is one of its keys, or the next child has a key to
spare. -/
def BaseBTree.KeepsRoot (T : Cfg κ) (k : κ) : ℕ → Node κ → Prop
  | _ + 2, t => ∀ x c d, t.keys = [x] → t.kids = [c, d] → T.isEqual k x = false →
      c.keys.length ≤ T.minKeys → d.keys.length ≤ T.minKeys →
      (∃ y, (c.join x d).keys[(c.join x d).scan T k]? = some y ∧ T.isEqual k y = true) ∨
        ∃ e, (c.join x d).kids[(c.join x d).scan T k]? = some e ∧ T.minKeys < e.keys.length
  | _, _ => True

section

variable {T : Cfg κ} {s : BTree κ} {R : Multiset ℕ} {ref : PageRef κ} {h q fuel : ℕ} {t l r c d n : Node κ}
  {A B U V : List κ} {P S : List (Node κ)} {x y k : κ} {ts us : List κ} {f : Focus κ} {b : Bool}

/-! ## The scan -/

/-- The scan of a page that got keys less than `k` in front and keys greater than `k` behind. -/
theorem LowerCut.extend (hlt : StrictWeak T.compare) (hcut : LowerCut T.compare k A B)
    (hU : ∀ u ∈ U, T.compare u k = true) (hV : ∀ v ∈ V.head?, T.compare k v = true) :
    LowerCut T.compare k (U ++ A) (B ++ V) where
  lt_left u hu := (List.mem_append.mp hu).elim (hU u) (hcut.lt_left u)
  not_lt_head v hv := by
    cases B with
    | nil => exact hlt.asymm (hV v hv)
    | cons b B => exact hcut.not_lt_head v hv

/-! ## The child that the search goes on with -/

/-- What stands around the keys of a child does not matter for a key between them. -/
theorem BaseBTree.Removable.extend (hlt : StrictWeak T.compare) (heq : T.Equates)
    (hkeys : n.keys = U ++ (c.keys ++ V))
    (hkids : h ≠ 0 → c.kids.length = c.keys.length + 1 ∧
      ∃ X Y, n.kids = X ++ (c.kids ++ Y) ∧ X.length = U.length)
    (hU : ∀ u ∈ U, T.compare u k = true) (hV : ∀ v ∈ V.head?, T.compare k v = true)
    (hc : BaseBTree.Removable T k h c) : BaseBTree.Removable T k h n := by
  cases h with
  | zero => trivial
  | succ h =>
    obtain ⟨hlen, X, Y, hX, hXU⟩ := hkids (Nat.succ_ne_zero h)
    obtain ⟨A, B, hAB, hcut⟩ := exists_cut T.compare k c.keys
    have hA : A.length < c.kids.length := by
      rw [hlen, hAB, List.length_append]
      omega
    have hscan : c.scan T k = A.length := hcut.scan_eq hAB
    have hscan' : n.scan T k = U.length + A.length := by
      rw [(hcut.extend hlt hU hV).scan_eq (by rw [hkeys, hAB]; simp), List.length_append]
    have hkey : n.keys[U.length + A.length]? = (B ++ V).head? := by
      rw [hkeys, hAB, List.getElem?_append_right (by omega), Nat.add_sub_cancel_left, List.append_assoc,
        List.getElem?_append_right (Nat.le_refl _), Nat.sub_self, List.head?_eq_getElem?]
    have hkey' : c.keys[A.length]? = B.head? := by
      rw [hAB, List.getElem?_append_right (Nat.le_refl _), Nat.sub_self, List.head?_eq_getElem?]
    have hkid : ∀ j, j < c.kids.length → n.kids[U.length + j]? = c.kids[j]? := fun j hj => by
      rw [hX, ← hXU, List.getElem?_append_right (by omega), Nat.add_sub_cancel_left,
        List.getElem?_append_left hj]
    intro e he
    rw [hscan', hkid _ hA, ← hscan] at he
    obtain ⟨hfound, hdown⟩ := hc e he
    rw [hscan, hkey'] at hfound hdown
    rw [hscan', hkey]
    cases B with
    | nil =>
      refine ⟨fun x r hx hkx => ?_, fun _ => hdown (by simp)⟩
      have hkx' := heq.ne_of_gt (hV x (by simpa using hx))
      rw [hkx] at hkx'
      cases hkx'
    | cons b B =>
      refine ⟨fun x r hx hkx hr => ?_, fun hne => hdown fun x hx => hne x (by simpa using hx)⟩
      have hA' : A.length + 1 < c.kids.length := by
        rw [hlen, hAB, List.length_append, List.length_cons]
        omega
      rw [add_assoc, hkid _ hA'] at hr
      exact hfound x r (by simpa using hx) hkx hr

/-- The page that the search goes on with is as good for it as the child was. -/
theorem BaseBTree.Next.removable (hlt : StrictWeak T.compare) (heq : T.Equates)
    (hnext : BaseBTree.Next T h f b n) (hs : Stands s R ref (h + 1) (f.node q))
    (hsorted : Sorted T.compare ((f.node q).tokens T (h + 1))) (hsplits : f.Splits T.compare k)
    (hat : BaseBTree.Removable T k h f.kid) : BaseBTree.Removable T k h n := by
  have hrep : Rep s.stream.page h f.kid := hs.rep.2 f.kid (by simp [Focus.node])
  have hlen : h ≠ 0 → f.kid.kids.length = f.kid.keys.length + 1 := hrep.length_kids_of_pos
  cases hnext with
  | rich hrich => exact hat
  | rotated hpoor hrot =>
    cases hrot with
    | @fromLeft K1 LK P LC X l x y hkeys hkids hrich hl hlk hX =>
      refine hat.extend (U := [x]) (V := []) hlt heq (by simp)
        (fun hh => ⟨hlen hh, X, [], by simp, by simpa using hX hh⟩) ?_ (by simp)
      simpa using hsplits.lt_left x (by simp [hkeys])
    | @fromRight K2 RK S X RC r x y hleft hkeys hkids hrich hr hrk hX =>
      refine hat.extend (U := []) (V := [x]) hlt heq (by simp)
        (fun hh => ⟨hlen hh, [], X, by simp, rfl⟩) (by simp) ?_
      simpa using hsplits.lt_right x (by simp [hkeys])
  | @mergedLeft K1 P l x hpoor hstuck hkeys hkids =>
    have hxk : T.compare x k = true := hsplits.lt_left x (by simp [hkeys])
    have hrl : Rep s.stream.page h l := hs.rep.2 l (by simp [Focus.node, hkids])
    refine hat.extend (U := l.keys ++ [x]) (V := []) hlt heq (by simp [Node.join])
      (fun hh => ⟨hlen hh, l.kids, [], by simp [Node.join], by simpa using hrl.length_kids_of_pos hh⟩) ?_
      (by simp)
    intro y hy
    rcases List.mem_append.mp hy with hy | hy
    · obtain ⟨A, B, hAB⟩ := List.append_of_mem hy
      have hP : P.length = K1.length := by simpa [hkeys, hkids] using f.length_eq
      have hnode : f.node q = ⟨q, K1 ++ x :: f.keysR, P ++ ([l, f.kid] ++ f.kidsR)⟩ := by
        simp [Focus.node, hkeys, hkids]
      rw [hnode] at hsorted
      exact hlt.lt_of_le_of_lt (le_sep hP hrl hAB hsorted) hxk
    · rwa [List.mem_singleton.mp hy]
  | @mergedRight K2 S r x hpoor hstuck hfirst hkeys hkids =>
    refine hat.extend (U := []) (V := x :: r.keys) hlt heq (by simp [Node.join])
      (fun hh => ⟨hlen hh, [], r.kids, by simp [Node.join], rfl⟩) (by simp) ?_
    simpa using hsplits.lt_right x (by simp [hkeys])

/-! ## A key of a page -/

/-- `removeByKeyNum` returned true, a record equal to `k` was taken out of the tree `t`, and an inner page
keeps a key. -/
def RecordTaken (T : Cfg κ) (k : κ) (s : BTree κ) (R : Multiset ℕ) (h : ℕ) (t : Node κ) (b : Bool)
    (s' : BTree κ) : Prop :=
  b = true ∧ ∃ t', Removed T s R h t s' t' ∧ TakenFrom T k (t.records T h) (t'.records T h) ∧
    (h ≠ 0 → t'.keys ≠ [])

theorem KeyReplaced.recordTaken {s' : BTree κ} (hkey : KeyReplaced T k s R h t b s') (ht : t.keys ≠ []) :
    RecordTaken T k s R h t b s' := by
  obtain ⟨hb, t', hremoved, htaken, hlen⟩ := hkey
  refine ⟨hb, t', hremoved, htaken, fun _ hnil => ht ?_⟩
  rw [hnil] at hlen
  exact List.length_eq_zero_iff.mp hlen.symm

/-- The first key of a leaf is a replacement for the key in front of it. -/
theorem lendsKey_leaf (hr : r.keys ≠ []) : r.LendsKey T k 0 := by
  obtain ⟨y, B, hB⟩ := List.exists_cons_of_ne_nil hr
  refine ⟨[], y, B, ?_, ?_, Or.inr (by simp)⟩
  · rw [Node.records, Node.tokens, recordsOf_map_record, hB]
    rfl
  · rw [Node.lastLeafSize, hB, List.length_cons]

/-- What is left of a replaceable key when both children are poor. -/
theorem BaseBTree.Replaceable.cases (hat : BaseBTree.Replaceable T x h l r) (hr : r.keys ≠ []) :
    (T.minKeys < l.keys.length ∨
      l.keys.length ≤ T.minKeys ∧ T.minKeys < r.keys.length ∧ r.LendsKey T x h) ∨
    l.keys.length ≤ T.minKeys ∧ r.keys.length ≤ T.minKeys ∧ ∀ g, h = g + 1 → ∀ l' r',
      l.kids.getLast? = some l' → r.kids.head? = some r' → BaseBTree.Replaceable T x g l' r' := by
  cases h with
  | zero =>
    by_cases hlrich : T.minKeys < l.keys.length
    · exact Or.inl (Or.inl hlrich)
    by_cases hrrich : T.minKeys < r.keys.length
    · exact Or.inl (Or.inr ⟨not_lt.mp hlrich, hrrich, lendsKey_leaf hr⟩)
    · exact Or.inr ⟨not_lt.mp hlrich, not_lt.mp hrrich, fun g hg => by cases hg⟩
  | succ h =>
    rcases hat with hrich | hrich | ⟨hl, hr, hnext⟩
    · exact Or.inl (Or.inl hrich)
    · exact Or.inl (Or.inr hrich)
    · refine Or.inr ⟨hl, hr, fun g hg => ?_⟩
      obtain rfl := Nat.succ.inj hg
      exact hnext

/-- The children around the key between two merged pages. -/
theorem exists_join_kids (hl : l.kids.length = l.keys.length + 1) (hr : r.kids.length = r.keys.length + 1) :
    ∃ P' l' r' S', l.kids.getLast? = some l' ∧ r.kids.head? = some r' ∧ P'.length = l.keys.length ∧
      l.join x r = ⟨l.page, l.keys ++ x :: r.keys, P' ++ ([l', r'] ++ S')⟩ := by
  obtain ⟨P', l', hP'⟩ := List.eq_nil_or_concat' l.kids |>.resolve_left fun hnil => by
    rw [hnil] at hl
    cases hl
  obtain ⟨r', S', hS'⟩ := List.exists_cons_of_length_eq_add_one hr
  refine ⟨P', l', r', S', by simp [hP'], by simp [hS'], ?_, ?_⟩
  · simpa [hP'] using hl
  · simp [Node.join, hP', hS']

variable [Inhabited κ]

/-- `removeByKeyNum` on a leaf. -/
theorem BaseBTree.removeByKeyNum_leaf (hlt : StrictWeak T.compare) (heq : T.Equates)
    (hs : Stands s R ref 0 ⟨q, A ++ x :: B, P⟩) (hslots : (A ++ x :: B).length ≤ T.slots) :
    Returns (BaseBTree.removeByKeyNum T (fuel + 1) A.length ref) s
      (RecordTaken T x s R 0 ⟨q, A ++ x :: B, P⟩) := by
  have hleaf : (s.wrapper q).data.isLeaf = true := hs.rep.on.leaf_eq
  rw [BaseBTree.removeByKeyNum]
  refine Returns.step (load_run s ref) ?_
  rw [hs.value_eq, if_pos hleaf]
  refine (removeInLeaf_spec hs hslots).bind ?_
  rintro _ s1 ⟨hremoved, -⟩
  refine Returns.pure ⟨rfl, _, hremoved, ⟨A, x, B, ?_, ?_, heq.refl hlt x⟩, fun hh => absurd rfl hh⟩
  · exact recordsOf_map_record (A ++ x :: B)
  · exact recordsOf_map_record (A ++ B)

/-- `removeByKeyNum` on an inner page, one of whose children has a key to spare. -/
theorem BaseBTree.removeByKeyNum_rich (hT : T.Valid) (hk : T.treeType = .bTree)
    (hlt : StrictWeak T.compare) (heq : T.Equates) (hfuel : h < fuel)
    (hs : Stands s R ref (h + 1) ⟨q, A ++ x :: B, P ++ ([l, r] ++ S)⟩) (hP : P.length = A.length)
    (hslots : (A ++ x :: B).length ≤ T.slots) (hsz : SizedBelow T (h + 1) (P ++ ([l, r] ++ S)))
    (hrich : T.minKeys < l.keys.length ∨
      l.keys.length ≤ T.minKeys ∧ T.minKeys < r.keys.length ∧ r.LendsKey T x h) :
    Returns (BaseBTree.removeByKeyNum T (fuel + 1) A.length ref) s
      (RecordTaken T x s R (h + 1) ⟨q, A ++ x :: B, P ++ ([l, r] ++ S)⟩) := by
  obtain ⟨hreadl, hreadr⟩ := hs.read_pair hP hslots
  obtain ⟨hnode, hrl, hrr⟩ := hs.holds_pair
  have hln : (s.wrapper l.page).data.keysNum = l.keys.length := hrl.on.keysNum_eq
  have hrn : (s.wrapper r.page).data.keysNum = r.keys.length := hrr.on.keysNum_eq
  have hleaf : (s.wrapper q).data.isLeaf = false := hnode.leaf_eq
  rw [BaseBTree.removeByKeyNum]
  refine Returns.step (load_run s ref) ?_
  rw [hs.value_eq, if_neg (by simp [hleaf])]
  refine Returns.step hreadl ?_
  rw [hln]
  have hfit : T.treeType = .bStarTree → h ≠ 0 → T.MergeBufferFits := fun hstar => by
    rw [hk] at hstar
    cases hstar
  rcases hrich with hrich | ⟨hpoor, hrich, hlends⟩
  · rw [if_pos (by omega)]
    exact (replaceByMax_spec hT (Or.inl hk) hlt heq hfuel hs hP hslots hsz hrich hfit).mono
      fun _ _ hkey => hkey.recordTaken (by simp)
  · rw [if_neg (by omega)]
    refine Returns.step hreadr ?_
    rw [hrn, if_pos (by omega)]
    exact (replaceByMin_spec hT (Or.inl hk) hlt heq hfuel hs hP hslots hsz hrich hlends hfit).mono
      fun _ _ hkey => hkey.recordTaken (by simp)

/-- `removeByKeyNum` on an inner page between two minimal children, up to the end of the merge. -/
theorem BaseBTree.removeByKeyNum_poor (fuel : ℕ) (hT : T.Valid) (hk : T.treeType = .bTree)
    (hs : Stands s R ref (h + 1) ⟨q, A ++ x :: B, P ++ ([l, r] ++ S)⟩) (hP : P.length = A.length)
    (hslots : (A ++ x :: B).length ≤ T.slots) (hl : l.keys.length = T.minKeys)
    (hr : r.keys.length = T.minKeys) :
    ∃ cd, (l.join x r).On h cd ∧ BaseBTree.removeByKeyNum T (fuel + 1) A.length ref s = (do
      let (_, leftChild) ← finishMerge T ⟨l.page, cd⟩ (s.wrapper r.page) ref A.length
      let root ← isRoot leftChild
      let _ ← BaseBTree.removeByKeyNum T fuel l.keys.length
        (if root then .rootPage else .local leftChild)
      return true) s := by
  obtain ⟨-, hmaxKeys, hmaxslots, -⟩ := bTree_sizes hT hk h
  obtain ⟨hreadl, hreadr⟩ := hs.read_pair hP hslots
  obtain ⟨hnode, hrl, hrr⟩ := hs.holds_pair
  have hln : (s.wrapper l.page).data.keysNum = l.keys.length := hrl.on.keysNum_eq
  have hrn : (s.wrapper r.page).data.keysNum = r.keys.length := hrr.on.keysNum_eq
  have hleaf : (s.wrapper q).data.isLeaf = false := hnode.leaf_eq
  have hhalf : T.maxKeys / 2 = l.keys.length := by omega
  obtain ⟨cd, hmerge, hcd⟩ := BaseBTree.mergeChildren_eq hs hslots hl hr hmaxKeys hmaxslots
  refine ⟨cd, hcd, ?_⟩
  rw [BaseBTree.removeByKeyNum, bind_run (load_run s ref), hs.value_eq, if_neg (by simp [hleaf]),
    bind_run hreadl, hln, if_neg (by omega), bind_run hreadr, hrn, if_neg (by omega), hhalf]
  change (BaseBTree.mergeChildren T _ _ ref A.length s >>= fun p => _) =
    (finishMerge T _ _ ref A.length s >>= fun p => _)
  rw [hmerge]

/-- The page keeps a key when its children `l` and `r` are merged, and `x` goes on being removed from the
merged page. -/
theorem BaseBTree.removeByKeyNum_merged (hT : T.Valid) (hk : T.treeType = .bTree)
    (hs : Stands s R ref (h + 1) ⟨q, A ++ x :: B, P ++ ([l, r] ++ S)⟩) (hP : P.length = A.length)
    (hslots : (A ++ x :: B).length ≤ T.slots) (hsz : SizedBelow T (h + 1) (P ++ ([l, r] ++ S)))
    (hl : l.keys.length ≤ T.minKeys) (hr : r.keys.length ≤ T.minKeys) (hkeep : A ++ B ≠ [])
    (hbelow : ∀ {s1 R1 ref1}, Stands s1 R1 ref1 h (l.join x r) →
      Returns (BaseBTree.removeByKeyNum T fuel l.keys.length ref1) s1
        (RecordTaken T x s1 R1 h (l.join x r))) :
    Returns (BaseBTree.removeByKeyNum T (fuel + 1) A.length ref) s
      (RecordTaken T x s R (h + 1) ⟨q, A ++ x :: B, P ++ ([l, r] ++ S)⟩) := by
  obtain ⟨-, hmaxKeys, -, hmin, hmax⟩ := bTree_sizes hT hk h
  have hrouters : T.treeType.hasRouters = false := by rw [hk]; rfl
  have hlow := (sized_iff.mp (hsz l (by simp))).1.1
  have hlow' := (sized_iff.mp (hsz r (by simp))).1.1
  have hl : l.keys.length = T.minKeys := by omega
  have hr : r.keys.length = T.minKeys := by omega
  obtain ⟨-, hrl, -⟩ := hs.holds_pair
  obtain ⟨cd, hcd, hrun⟩ := BaseBTree.removeByKeyNum_poor fuel hT hk hs hP hslots hl hr
  refine Returns.of_eq ?_ hrun
  refine (finishMerge_kept hs hP hslots hkeep (m := l.join x r) rfl rfl hcd).bind ?_
  rintro _ s1 ⟨ref1, rfl, hf, hs1⟩
  have hready : Readied T s R h q (Focus.leftOf A x B P l r S hP) s1 ref1
      (Focus.merged A B P (l.join x r) S hP) :=
    join_readied hmin (by omega) rfl hP hkeep (fun hnil => by cases hnil) hsz hl hr hf hs1
  have hkid := hs1.toHeld.kid
  have hnotRoot : s1.rootPageNum ≠ (l.join x r).page := fun heq' => by
    have hmem : s1.rootPageNum ∈ around q h P S R := hkid.at_page.root
    exact hkid.page_not_mem (heq' ▸ hmem)
  refine Returns.step (isRoot_run s1 _) ?_
  rw [if_neg (by simpa [BTree.wrapper] using hnotRoot)]
  refine (hbelow hkid).bind ?_
  rintro _ s' ⟨rfl, m, hremoved, htaken, -⟩
  refine Returns.pure ⟨rfl, _, hready.put hremoved, ?_, fun _ => hkeep⟩
  have hold := records_around₂ (q := q) (h := h) (k := x) (l := l) (r := r) (B := B) (S := S) hrouters hP
  have hnew : ((Focus.merged A B P (l.join x r) S hP).put m |>.node q).records T (h + 1) =
      recordsOf (tokensBefore T h P A) ++ (m.records T h ++ recordsOf (tokensAfter T h B S)) := by
    rw [Node.records, Focus.tokens_node, recordsOf_append, recordsOf_append]
    rfl
  have hjoin := records_join (k := x) (r := r) hrouters hrl.length_kids_of_pos
  rw [hjoin] at htaken
  rw [hold, hnew]
  exact htaken.context _ _

/-- `removeByKeyNum` for the key between two merged pages. -/
theorem BaseBTree.removeByKeyNum_join (hT : T.Valid) (hk : T.treeType = .bTree)
    (hlt : StrictWeak T.compare) (heq : T.Equates) (hfuel : h < fuel)
    (hs : Stands s R ref h (l.join x r)) (hl : l.keys.length = T.minKeys) (hr : r.keys.length = T.minKeys)
    (hlkids : h ≠ 0 → l.kids.length = l.keys.length + 1)
    (hrkids : h ≠ 0 → r.kids.length = r.keys.length + 1) (hsz : SizedBelow T h (l.join x r).kids)
    (hnext : ∀ g, h = g + 1 → ∀ l' r', l.kids.getLast? = some l' → r.kids.head? = some r' →
      BaseBTree.Replaceable T x g l' r') :
    Returns (BaseBTree.removeByKeyNum T fuel l.keys.length ref) s (RecordTaken T x s R h (l.join x r)) := by
  obtain ⟨hpos, hmaxKeys, hmaxslots, -⟩ := bTree_sizes hT hk h
  obtain ⟨fuel, rfl⟩ := Nat.exists_eq_succ_of_ne_zero (by omega : fuel ≠ 0)
  have hlen : (l.keys ++ x :: r.keys).length = l.keys.length + 1 + r.keys.length := by
    rw [List.length_append, List.length_cons]
    omega
  induction h generalizing s R ref l r fuel with
  | zero => exact BaseBTree.removeByKeyNum_leaf hlt heq hs (by omega)
  | succ h ih =>
    have hmin := (bTree_sizes hT hk h).2.2.2.1
    obtain ⟨P', l', r', S', hl', hr', hP', hjoin⟩ := exists_join_kids (x := x)
      (hlkids (Nat.succ_ne_zero h)) (hrkids (Nat.succ_ne_zero h))
    rw [hjoin] at hs hsz ⊢
    obtain ⟨hlow, hszl⟩ := sized_iff.mp (hsz l' (by simp))
    obtain ⟨hlow', hszr⟩ := sized_iff.mp (hsz r' (by simp))
    have hr'pos : r'.keys ≠ [] := List.length_pos_iff.mp (by omega)
    rcases (hnext h rfl l' r' hl' hr').cases hr'pos with hrich | ⟨hlpoor, hrpoor, hnext'⟩
    · exact BaseBTree.removeByKeyNum_rich hT hk hlt heq (by omega) hs hP' (by omega) hsz hrich
    · obtain ⟨-, hrl, hrr⟩ := hs.holds_pair
      refine BaseBTree.removeByKeyNum_merged hT hk hs hP' (by omega) hsz hlpoor hrpoor ?_ fun hs1 => ?_
      · exact List.append_ne_nil_of_left_ne_nil (List.length_pos_iff.mp (by omega)) _
      · obtain ⟨fuel, rfl⟩ := Nat.exists_eq_succ_of_ne_zero (by omega : fuel ≠ 0)
        refine ih hs1 (by omega) (by omega) hrl.length_kids_of_pos hrr.length_kids_of_pos
          (sizedBelow_append.mpr ⟨hszl, hszr⟩) hnext' fuel (by omega) ?_
        rw [List.length_append, List.length_cons]
        omega

/-- `removeByKeyNum` on an inner page that keeps a key. -/
theorem BaseBTree.removeByKeyNum_inner (hT : T.Valid) (hk : T.treeType = .bTree)
    (hlt : StrictWeak T.compare) (heq : T.Equates) (hfuel : h + 1 < fuel)
    (hs : Stands s R ref (h + 1) ⟨q, A ++ x :: B, P ++ ([l, r] ++ S)⟩) (hP : P.length = A.length)
    (hslots : (A ++ x :: B).length ≤ T.slots) (hsz : SizedBelow T (h + 1) (P ++ ([l, r] ++ S)))
    (hsolid : (⟨q, A ++ x :: B, P ++ ([l, r] ++ S)⟩ : Node κ).Solid T)
    (hat : BaseBTree.Replaceable T x h l r) :
    Returns (BaseBTree.removeByKeyNum T fuel A.length ref) s
      (RecordTaken T x s R (h + 1) ⟨q, A ++ x :: B, P ++ ([l, r] ++ S)⟩) := by
  obtain ⟨fuel, rfl⟩ := Nat.exists_eq_succ_of_ne_zero (by omega : fuel ≠ 0)
  obtain ⟨hpos, -, -, hmin, -⟩ := bTree_sizes hT hk h
  obtain ⟨⟨hllow, -⟩, hszl⟩ := sized_iff.mp (hsz l (by simp))
  obtain ⟨⟨hrlow, -⟩, hszr⟩ := sized_iff.mp (hsz r (by simp))
  have hr : r.keys ≠ [] := List.length_pos_iff.mp (by omega)
  rcases BaseBTree.Replaceable.cases hat hr with hrich | ⟨hlpoor, hrpoor, hnext⟩
  · exact BaseBTree.removeByKeyNum_rich hT hk hlt heq (by omega) hs hP hslots hsz hrich
  · obtain ⟨-, hrl, hrr⟩ := hs.holds_pair
    refine BaseBTree.removeByKeyNum_merged hT hk hs hP hslots hsz hlpoor hrpoor
      (hsolid.keeps hs.rep.length_kids hlpoor hrpoor) fun hs1 => ?_
    exact BaseBTree.removeByKeyNum_join hT hk hlt heq (by omega) hs1 (by omega) (by omega)
      hrl.length_kids_of_pos hrr.length_kids_of_pos (sizedBelow_append.mpr ⟨hszl, hszr⟩) hnext

/-! ## A page on the way -/

/-- `remove` of a page, with the place where its scan stops. -/
theorem BaseBTree.removeFrom_eq (hvalue : ref.value s = s.wrapper t.page) (hrep : Rep s.stream.page h t)
    (hslots : t.keys.length ≤ T.slots) (ht : t.keys = A ++ B) (hcut : LowerCut T.compare k A B) :
    BaseBTree.removeFrom T k (fuel + 1) ref s =
      (if B.head?.any (T.isEqual k) then
        BaseBTree.removeByKeyNum T fuel A.length (if s.rootPageNum = t.page then .rootPage else ref)
      else if h = 0 then return false
      else do
        let prepared ← BaseBTree.prepareSubtree T A.length ref
        BaseBTree.removeFrom T k fuel
          (.local (if prepared.merged then prepared.leftNeighbour else prepared.child))) s := by
  have hon : t.On h (s.wrapper t.page).data := hrep.on
  obtain ⟨hrun, hkey, hleaf⟩ := hon.scan_run hslots ht hcut
  rw [BaseBTree.removeFrom, bind_run (load_run s ref), hvalue, bind_run (onPages_run hrun s),
    bind_run (onPages_run hkey s)]
  by_cases hfound : B.head?.any (T.isEqual k) = true
  · rw [if_pos hfound, if_pos hfound, bind_run (isRoot_run s _)]
    by_cases hroot : s.rootPageNum = t.page
    · rw [if_pos hroot, if_pos (by simpa [BTree.wrapper] using hroot)]
    · rw [if_neg hroot, if_neg (by simpa [BTree.wrapper] using hroot)]
  · rw [if_neg hfound, if_neg hfound, hleaf]
    by_cases hh : h = 0
    · rw [if_pos hh, if_pos (by simpa using hh)]
    · rw [if_neg hh, if_neg (by simpa using hh)]
      refine congrFun (congrArg (BaseBTree.prepareSubtree T A.length ref >>= ·) ?_) s
      funext r
      cases r.merged <;> rfl

/-- The search in a copy of the root page is the search in the member `_rootPage` when the copy is not
changed. -/
theorem BaseBTree.removeFrom_copy (hs : Stands s R .rootPage h t) (hslots : t.keys.length ≤ T.slots)
    (hkeeps : ∀ g, h = g + 1 → (∃ y, t.keys[t.scan T k]? = some y ∧ T.isEqual k y = true) ∨
      ∃ e, t.kids[t.scan T k]? = some e ∧ T.minKeys < e.keys.length) :
    BaseBTree.removeFrom T k (fuel + 1) (.local (s.wrapper t.page)) s =
      BaseBTree.removeFrom T k (fuel + 1) .rootPage s := by
  obtain ⟨A, B, hAB, hcut⟩ := exists_cut T.compare k t.keys
  have hroot : s.rootPageNum = t.page := hs.at_page.root
  rw [BaseBTree.removeFrom_eq rfl hs.rep hslots hAB hcut,
    BaseBTree.removeFrom_eq hs.value_eq hs.rep hslots hAB hcut, if_pos hroot, if_pos hroot]
  by_cases hfound : B.head?.any (T.isEqual k) = true
  · rw [if_pos hfound, if_pos hfound]
  · rw [if_neg hfound, if_neg hfound]
    cases h with
    | zero => rfl
    | succ h =>
      rw [if_neg (Nat.succ_ne_zero h), if_neg (Nat.succ_ne_zero h)]
      obtain ⟨w, hread, hrich⟩ := hs.read_rich hslots hAB hcut hfound (hkeeps h rfl)
      have hprepare : ∀ ref : PageRef κ, ref.value s = s.wrapper t.page →
          BaseBTree.prepareSubtree T A.length ref s = .ok (⟨false, ref, w, w⟩, s) := by
        intro ref hvalue
        rw [BaseBTree.prepareSubtree, bind_run (load_run s ref), hvalue, bind_run hread, if_neg (by omega)]
        rfl
      rw [bind_run (hprepare _ rfl), bind_run (hprepare .rootPage hs.value_eq)]

omit [Inhabited κ] in
theorem RecordTaken.searched {s' : BTree κ} (hlt : StrictWeak T.compare) (heq : T.Equates)
    (hrouters : T.treeType.hasRouters = false) (hkx : T.isEqual k x = true)
    (hx : RecordTaken T x s R h t b s') : Searched T k s R h t b s' := by
  obtain ⟨rfl, t', hremoved, htaken, hkeeps⟩ := hx
  exact ⟨t', hremoved, (htaken.of_equal hlt heq hkx).drops hrouters, hkeeps⟩

/-- `removeByKeyNum` for a key equal to `k` where the scan for `k` stops. -/
theorem BaseBTree.removeByKeyNum_searched (hT : T.Valid) (hk : T.treeType = .bTree)
    (hlt : StrictWeak T.compare) (heq : T.Equates) (hfuel : h < fuel) (hs : Stands s R ref h t)
    (hslots : t.keys.length ≤ T.slots) (hsz : SizedBelow T h t.kids) (hsolid : h ≠ 0 → t.Solid T)
    (ht : t.keys = A ++ x :: B) (hcut : LowerCut T.compare k A (x :: B)) (hkx : T.isEqual k x = true)
    (hat : BaseBTree.Removable T k h t) :
    Returns (BaseBTree.removeByKeyNum T fuel A.length ref) s (Searched T k s R h t) := by
  have hrouters : T.treeType.hasRouters = false := by rw [hk]; rfl
  have hscan : t.scan T k = A.length := hcut.scan_eq ht
  obtain ⟨q, K, C⟩ := t
  obtain rfl : K = A ++ x :: B := ht
  cases h with
  | zero =>
    obtain ⟨fuel, rfl⟩ := Nat.exists_eq_succ_of_ne_zero (by omega : fuel ≠ 0)
    exact (BaseBTree.removeByKeyNum_leaf hlt heq hs hslots).mono fun _ _ htaken =>
      htaken.searched hlt heq hrouters hkx
  | succ h =>
    obtain ⟨P, l, r, S, rfl, hP⟩ := exists_pair hs.rep.length_kids rfl
    obtain ⟨hfound, -⟩ := hat l (by rw [hscan]; simp [← hP])
    have hreplace : BaseBTree.Replaceable T x h l r := by
      refine hfound x r (by rw [hscan]; simp) hkx ?_
      rw [hscan]
      simp [← hP]
    exact (BaseBTree.removeByKeyNum_inner hT hk hlt heq hfuel hs hP hslots hsz
      (hsolid (Nat.succ_ne_zero h)) hreplace).mono fun _ _ htaken =>
        htaken.searched hlt heq hrouters hkx

/-- `BaseBTree::remove` of a page that no merge of two children leaves without keys. -/
theorem BaseBTree.removeFrom_spec (hT : T.Valid) (hk : T.treeType = .bTree)
    (hlt : StrictWeak T.compare) (heq : T.Equates) (hfuel : h + 1 < fuel) (hs : Stands s R ref h t)
    (hslots : t.keys.length ≤ T.slots) (hsz : SizedBelow T h t.kids)
    (hsolid : h ≠ 0 → t.keys ≠ [] ∧ t.Solid T) (hsorted : Sorted T.compare (t.tokens T h))
    (hat : BaseBTree.Removable T k h t) :
    Returns (BaseBTree.removeFrom T k fuel ref) s (Searched T k s R h t) := by
  induction fuel generalizing h s R ref t with
  | zero => omega
  | succ fuel ih =>
    have hrouters : T.treeType.hasRouters = false := by rw [hk]; rfl
    obtain ⟨A, B, hAB, hcut⟩ := exists_cut T.compare k t.keys
    refine Returns.of_eq ?_ (BaseBTree.removeFrom_eq hs.value_eq hs.rep hslots hAB hcut)
    by_cases hfound : B.head?.any (T.isEqual k) = true
    · -- the key is in this page
      rw [if_pos hfound]
      obtain ⟨x, B, rfl⟩ : ∃ x B', B = x :: B' := by
        cases B with
        | nil => simp at hfound
        | cons x B => exact ⟨x, B, rfl⟩
      have href : (if s.rootPageNum = t.page then .rootPage else ref) = ref := by
        by_cases hroot : s.rootPageNum = t.page
        · rw [if_pos hroot, hs.ref_eq hroot]
        · rw [if_neg hroot]
      rw [href]
      exact BaseBTree.removeByKeyNum_searched hT hk hlt heq (by omega) hs hslots hsz
        (fun hh => (hsolid hh).2) hAB hcut (by simpa using hfound) hat
    rw [if_neg hfound]
    have hne := head_ne hfound
    obtain ⟨q, K, C⟩ := t
    obtain rfl : K = A ++ B := hAB
    cases h with
    | zero =>
      rw [if_pos rfl]
      have hnone : ∀ y ∈ recordsOf ((A ++ B).map .record), T.isEqual k y = false :=
        found_leaf hlt heq hcut hsorted (by simpa using hfound)
      refine Returns.pure ⟨_, ⟨rfl, Frame.refl s R, ⟨ref, hs⟩, trivial, Nat.le_refl _, Nat.le_succ _⟩,
        Drops.none hnone, fun hh => absurd rfl hh⟩
    | succ h =>
      -- the search goes on in the child
      rw [if_neg (Nat.succ_ne_zero h)]
      obtain ⟨hkeys, hsolid⟩ := hsolid (Nat.succ_ne_zero h)
      obtain ⟨hpos, -, -, hmin, -⟩ := bTree_sizes hT hk h
      obtain ⟨f, hnode, hKL, hsplits⟩ := exists_focus (p := q) heq hs.rep.length_kids rfl hcut hne
      have hscan : (⟨q, A ++ B, C⟩ : Node κ).scan T k = A.length := hcut.scan_eq rfl
      have hkid : C[A.length]? = some f.kid := by
        have hC : C = f.kidsL ++ f.kid :: f.kidsR := (congrArg Node.kids hnode).symm
        rw [hC, ← hKL, ← f.length_eq]
        simp
      have hatkid : BaseBTree.Removable T k h f.kid := by
        refine (hat f.kid (by rw [hscan]; exact hkid)).2 fun x hx => hne x ?_
        rw [hscan] at hx
        simpa [List.head?_eq_getElem?, List.getElem?_append_right] using hx
      rw [← hnode] at hs hslots hsz hsolid hsorted hkeys ⊢
      rw [← hKL]
      refine (BaseBTree.prepareSubtree_spec hT hk hlt hs hslots hsz hsolid).bind ?_
      rintro r s1 ⟨ref1, f1, hr, hready, hkept, hnext⟩
      have hsz1 := sized_iff.mp hready.kid_sized
      have hready1 := hready.ready
      rw [hr]
      refine (ih (by omega) hready.stands.toHeld.kid (hsz1.1.2.trans (maxOf_le_slots hT h)) hsz1.2
        (fun _ => ⟨List.length_pos_iff.mp (by omega), Or.inl (by omega)⟩) (hkept.kid_sorted hsorted)
        (hnext.removable hlt heq hs hsorted hsplits hatkid)).mono ?_
      rintro b s' ⟨c', hremoved, hdrops, -⟩
      exact ⟨_, hready.put hremoved, hkept.put hlt heq hsorted hsplits hdrops, fun _ => hready.keeps hkeys⟩

/-! ## The whole tree -/

omit [Inhabited κ] in
theorem maxRootOf_bTree (hT : T.Valid) (hk : T.treeType = .bTree) (h : ℕ) : T.maxRootOf h = T.maxKeys := by
  rw [← (bTree_sizes hT hk h).2.2.2.2]
  simp [Cfg.maxRootOf, hk]

/-- `removeByKeyNum` for the only key of a root page between two minimal children. -/
theorem BaseBTree.removeByKeyNum_collapse (hT : T.Valid) (hk : T.treeType = .bTree)
    (hlt : StrictWeak T.compare) (heq : T.Equates) (hfuel : h + 1 < fuel)
    (hs : Stands s R .rootPage (h + 1) ⟨q, [x], [l, r]⟩) (hsz : SizedBelow T (h + 1) [l, r])
    (hl : l.keys.length ≤ T.minKeys) (hr : r.keys.length ≤ T.minKeys)
    (hat : BaseBTree.Replaceable T x h l r) (hkx : T.isEqual k x = true) :
    Returns (BaseBTree.removeByKeyNum T fuel 0 .rootPage) s fun b s' => ∃ n,
      SearchedTree T k R (h + 1) ⟨q, [x], [l, r]⟩ b s' h n := by
  obtain ⟨fuel, rfl⟩ := Nat.exists_eq_succ_of_ne_zero (by omega : fuel ≠ 0)
  obtain ⟨hpos, hmaxKeys, hmaxslots, hmin, hmax⟩ := bTree_sizes hT hk h
  have hrouters : T.treeType.hasRouters = false := by rw [hk]; rfl
  have hllow : T.minOf h ≤ l.keys.length := (sized_iff.mp (hsz l (by simp))).1.1
  have hrlow : T.minOf h ≤ r.keys.length := (sized_iff.mp (hsz r (by simp))).1.1
  have hs' : Stands s R .rootPage (h + 1) ⟨q, [] ++ x :: [], [] ++ ([l, r] ++ [])⟩ := hs
  obtain ⟨-, hrl, hrr⟩ := hs'.holds_pair
  have hrne : r.keys ≠ [] := List.length_pos_iff.mp (by omega)
  have hnext := (BaseBTree.Replaceable.cases hat hrne).resolve_left (by omega)
  obtain ⟨cd, hcd, hrun⟩ := BaseBTree.removeByKeyNum_poor fuel hT hk hs' rfl
    (by simp only [List.nil_append, List.length_singleton]; omega) (by omega) (by omega)
  refine Returns.of_eq ?_ hrun
  refine (finishMerge_collapse (T := T) hs (by omega) (m := l.join x r) rfl rfl hcd).bind ?_
  rintro ⟨cp, w⟩ s1 ⟨hw, -, hs1⟩
  obtain rfl : w = s1.wrapper (l.join x r).page := hw
  have hroot1 : s1.rootPageNum = (l.join x r).page := hs1.at_page.root
  refine Returns.step (isRoot_run s1 _) ?_
  rw [if_pos (by simpa [BTree.wrapper] using hroot1)]
  have hlen : (l.join x r).keys.length ≤ T.maxRootOf h := by
    rw [maxRootOf_bTree hT hk, Node.join, List.length_append, List.length_cons]
    omega
  refine (BaseBTree.removeByKeyNum_join hT hk hlt heq (by omega) hs1 (by omega) (by omega)
    hrl.length_kids_of_pos hrr.length_kids_of_pos (sized_join_kids hsz) hnext.2.2).bind ?_
  intro b s' htaken
  obtain ⟨n, hn⟩ := (htaken.searched hlt heq hrouters hkx).tree hs1 hlen
  have hb : b = true := htaken.1
  refine Returns.pure ⟨n, hn.stands, hn.sized, ?_⟩
  rw [tokens_single hrouters hrl.length_kids_of_pos, ← hb]
  exact hn.drops

/-- `remove` below a root page whose only key goes into its merged children. -/
theorem BaseBTree.removeFrom_collapse (hT : T.Valid) (hk : T.treeType = .bTree)
    (hlt : StrictWeak T.compare) (heq : T.Equates) (hfuel : h + 2 < fuel)
    (hs : Stands s R .rootPage (h + 1) (f.node q)) (hnode : f.node q = ⟨q, [x], [c, d]⟩)
    (hsz : SizedBelow T (h + 1) [c, d]) (hc : c.keys.length ≤ T.minKeys) (hd : d.keys.length ≤ T.minKeys)
    (hsorted : Sorted T.compare ((f.node q).tokens T (h + 1))) (hsplits : f.Splits T.compare k)
    (hat : BaseBTree.Removable T k h f.kid)
    (hroot : ∀ g, h = g + 1 → (∃ y, (c.join x d).keys[(c.join x d).scan T k]? = some y ∧
        T.isEqual k y = true) ∨
      ∃ e, (c.join x d).kids[(c.join x d).scan T k]? = some e ∧ T.minKeys < e.keys.length) :
    Returns (do
      let prepared ← BaseBTree.prepareSubtree T f.keysL.length .rootPage
      BaseBTree.removeFrom T k fuel
        (.local (if prepared.merged then prepared.leftNeighbour else prepared.child))) s fun b s' => ∃ n,
      SearchedTree T k R (h + 1) ⟨q, [x], [c, d]⟩ b s' h n := by
  obtain ⟨fuel, rfl⟩ := Nat.exists_eq_succ_of_ne_zero (by omega : fuel ≠ 0)
  obtain ⟨hpos, hmaxKeys, hmaxslots, hmin, hmax⟩ := bTree_sizes hT hk h
  have hrouters : T.treeType.hasRouters = false := by rw [hk]; rfl
  have hclow : T.minOf h ≤ c.keys.length := (sized_iff.mp (hsz c (by simp))).1.1
  have hdlow : T.minOf h ≤ d.keys.length := (sized_iff.mp (hsz d (by simp))).1.1
  have hrc : Rep s.stream.page h c := hs.rep.2 c (by rw [hnode]; simp)
  have htok : (f.node q).tokens T (h + 1) = (c.join x d).tokens T h := by
    rw [hnode, tokens_single hrouters hrc.length_kids_of_pos]
  have hlen : (c.join x d).keys.length = c.keys.length + 1 + d.keys.length := by
    rw [Node.join, List.length_append, List.length_cons]
    omega
  refine (BaseBTree.prepareSubtree_collapse hT hk hlt hs hnode (by rw [hnode]; exact hsz) hc hd).bind ?_
  rintro p s1 ⟨hp, -, hs1, hnext⟩
  rw [hp]
  refine Returns.of_eq ?_ (BaseBTree.removeFrom_copy (t := c.join x d) hs1 (by omega) hroot)
  refine (BaseBTree.removeFrom_spec hT hk hlt heq (by omega) hs1 (by omega) (sized_join_kids hsz)
    (fun _ => ⟨List.length_pos_iff.mp (by omega), Or.inl (by omega)⟩) (by rw [← htok]; exact hsorted)
    (hnext.removable hlt heq hs hsorted hsplits hat)).mono ?_
  intro b s' hsearched
  have hmaxRoot := maxRootOf_bTree hT hk h
  obtain ⟨n, hn⟩ := hsearched.tree hs1 (by omega)
  refine ⟨n, hn.stands, hn.sized, ?_⟩
  rw [← hnode, htok]
  exact hn.drops

/-- `BaseBTree::remove` of the root page. -/
theorem BaseBTree.removeFrom_root (hT : T.Valid) (hk : T.treeType = .bTree)
    (hlt : StrictWeak T.compare) (heq : T.Equates) (hfuel : h + 2 < fuel)
    (hs : Stands s R .rootPage h t) (hsz : t.RootSized T h) (hsorted : Sorted T.compare (t.tokens T h))
    (hat : BaseBTree.Removable T k h t) (hroot : BaseBTree.KeepsRoot T k h t) :
    Returns (BaseBTree.removeFrom T k fuel .rootPage) s fun b s' => ∃ H n,
      SearchedTree T k R h t b s' H n := by
  have hslots : t.keys.length ≤ T.slots := hsz.le_max.trans (maxRootOf_le_slots hT h)
  by_cases hsolid : h ≠ 0 → t.Solid T
  · refine (BaseBTree.removeFrom_spec hT hk hlt heq (by omega) hs hslots hsz.below
      (fun hh => ⟨List.length_pos_iff.mp (hsz.pos hh), hsolid hh⟩) hsorted hat).mono ?_
    exact fun b s' hsearched => ⟨h, hsearched.tree hs hsz.le_max⟩
  obtain ⟨hh, hpoor⟩ := Classical.not_imp.mp hsolid
  obtain ⟨h, rfl⟩ := Nat.exists_eq_succ_of_ne_zero hh
  obtain ⟨q, K, C⟩ := t
  obtain ⟨x, c, d, rfl, rfl, hc, hd⟩ := not_solid_cases hpoor hs.rep.length_kids (hsz.pos hh)
  obtain ⟨fuel, rfl⟩ := Nat.exists_eq_succ_of_ne_zero (by omega : fuel ≠ 0)
  obtain ⟨A, B, hAB, hcut⟩ := exists_cut T.compare k [x]
  refine Returns.of_eq ?_ (BaseBTree.removeFrom_eq hs.value_eq hs.rep hslots hAB hcut)
  have hscan : (⟨q, [x], [c, d]⟩ : Node κ).scan T k = A.length := hcut.scan_eq hAB
  by_cases hfound : B.head?.any (T.isEqual k) = true
  · -- the key of the root page is removed
    obtain ⟨rfl, rfl⟩ : A = [] ∧ B = [x] := by
      rcases List.append_eq_singleton_iff.mp hAB.symm with hAB | ⟨-, rfl⟩
      · exact hAB
      · simp at hfound
    have hkx : T.isEqual k x = true := by simpa using hfound
    have hplace := (hat c (by rw [hscan]; rfl)).1 x d (by rw [hscan]; rfl) hkx (by rw [hscan]; rfl)
    rw [if_pos hfound, if_pos hs.at_page.root]
    exact (BaseBTree.removeByKeyNum_collapse hT hk hlt heq (by omega) hs hsz.below hc hd hplace hkx).mono
      fun b s' hn => ⟨h, hn⟩
  · have hne := head_ne hfound
    obtain ⟨f, hnode, hKL, hsplits⟩ := exists_focus (p := q) heq hs.rep.length_kids hAB hcut hne
    have hkx : T.isEqual k x = false := by
      rcases List.append_eq_singleton_iff.mp hAB.symm with ⟨-, rfl⟩ | ⟨rfl, -⟩
      · exact hne x rfl
      · exact heq.ne_of_lt (hcut.lt_left x (by simp))
    have hkid : [c, d][A.length]? = some f.kid := by
      have hC : [c, d] = f.kidsL ++ f.kid :: f.kidsR := (congrArg Node.kids hnode).symm
      rw [hC, ← hKL, ← f.length_eq]
      simp
    have hatkid : BaseBTree.Removable T k h f.kid := by
      refine (hat f.kid (by rw [hscan]; exact hkid)).2 fun y hy => ?_
      obtain rfl : y = x := List.mem_singleton.mp (List.mem_of_getElem? hy)
      exact hkx
    rw [if_neg hfound, if_neg hh, ← hKL]
    have hs' := hs
    rw [← hnode] at hs'
    refine (BaseBTree.removeFrom_collapse hT hk hlt heq (by omega) hs' hnode hsz.below hc hd
      (by rw [hnode]; exact hsorted) hsplits hatkid ?_).mono fun b s' hn => ⟨h, hn⟩
    rintro g rfl
    exact hroot x c d rfl rfl hkx hc hd

/-- `remove` on a well-formed B-tree leaves it well formed; it drops one record equal to `k` when it
returns true, and there is none when it returns false. -/
theorem bTree_remove_spec (hT : T.Valid) (hk : T.treeType = .bTree) (hlt : StrictWeak T.compare)
    (heq : T.Equates) (hw : WellFormed T s h t) (hat : BaseBTree.Removable T k h t)
    (hroot : BaseBTree.KeepsRoot T k h t) :
    Returns (remove T k) s fun b s' => ∃ H n, WellFormed T s' H n ∧
      Drops T k b (t.tokens T h) (n.tokens T H) := by
  have hrouters : T.treeType.hasRouters = false := by rw [hk]; rfl
  obtain ⟨R, hs⟩ := hw.stands
  have hheight := hs.store.height_lt hs.on hs.below
  have hlast := (hs.store.mem_range (page_mem_add h t R)).2
  have hpage := (hs.store.mem_range (page_mem_add h t R)).1
  have hremove : removeFrom T k = BaseBTree.removeFrom T k := by
    unfold removeFrom
    rw [hk]
  unfold remove
  refine Returns.get ?_
  rw [hremove]
  refine (BaseBTree.removeFrom_root hT hk hlt heq (by omega) hs hw.sized hw.sorted hat hroot).mono ?_
  rintro b s' ⟨H, n, hn⟩
  exact ⟨H, n, hn.stands.wellFormed hrouters hn.sized (hn.drops.sorted hw.sorted), hn.drops⟩

end

end BTreesMods
