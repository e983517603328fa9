import BTreesMods.Insertion.Root
import BTreesMods.Insertion.SplitChildren

/-!
# Insertion into a B*-tree or B*+-tree

`insertNonFull` first tries to share keys of a full child with a sibling. Both functions may refuse;
then two children are split into three, in the short variant when the sibling lacks one key. After
each of these steps the record goes below a child that has room.
-/

namespace BTreesMods

variable {κ : Type}

section

variable {T : Cfg κ} {s : BTree κ} {R : Multiset ℕ} {ref : PageRef κ} {h p fuel : ℕ} {k x : κ}
  {c d t : Node κ} {K1 K2 : List κ} {P S : List (Node κ)} {lw : PageWrapper κ} {H : Prop}

/-! ## Sharing before the split -/

/-- The children around the key in front of the child where the scan stops. -/
theorem pairReady_left (hlt : StrictWeak T.compare)
    (hs : Stands s R ref (h + 1) ⟨p, (K1 ++ [x]) ++ K2, (P ++ [c]) ++ d :: S⟩)
    (hP : P.length = K1.length) (hcut : UpperCut T.compare k (K1 ++ [x]) K2)
    (hsz : SizedBelow T (h + 1) ((P ++ [c]) ++ d :: S))
    (hslots : ((K1 ++ [x]) ++ K2).length ≤ T.slots) :
    PairReady T k (Sorted T.compare
      ((⟨p, (K1 ++ [x]) ++ K2, (P ++ [c]) ++ d :: S⟩ : Node κ).tokens T (h + 1)))
      s R ref h p K1 x K2 P c d S := by
  have hkeys : (K1 ++ [x]) ++ K2 = K1 ++ x :: K2 := by simp
  have hkids : (P ++ [c]) ++ d :: S = P ++ ([c, d] ++ S) := by simp
  have hP' : (P ++ [c]).length = (K1 ++ [x]).length := by simp [hP]
  refine ⟨by rwa [hkeys, hkids] at hs, hP, by rwa [hkids] at hsz, by rwa [hkeys] at hslots,
    fun hH => by rwa [hkeys, hkids] at hH, fun hH => ?_⟩
  rw [tokens_around hP'] at hH
  obtain ⟨hbefore, hafter⟩ := between_of_cut hlt hP' hcut hH
  refine ⟨fun y hy => hbefore y ?_, hafter⟩
  rw [tokensBefore_concat hP]
  exact List.mem_append_left _ hy

/-- The children around the key behind the child where the scan stops. -/
theorem pairReady_right (hlt : StrictWeak T.compare)
    (hs : Stands s R ref (h + 1) ⟨p, K1 ++ x :: K2, P ++ c :: d :: S⟩)
    (hP : P.length = K1.length) (hcut : UpperCut T.compare k K1 (x :: K2))
    (hsz : SizedBelow T (h + 1) (P ++ c :: d :: S)) (hslots : (K1 ++ x :: K2).length ≤ T.slots) :
    PairReady T k (Sorted T.compare
      ((⟨p, K1 ++ x :: K2, P ++ c :: d :: S⟩ : Node κ).tokens T (h + 1)))
      s R ref h p K1 x K2 P c d S := by
  refine ⟨hs, hP, hsz, hslots, id, fun hH => ?_⟩
  rw [tokens_around hP] at hH
  obtain ⟨hbefore, hafter⟩ := between_of_cut hlt hP hcut hH
  refine ⟨hbefore, fun y hy => hafter y ?_⟩
  rw [tokensAfter_cons]
  exact List.mem_cons_of_mem _ (List.mem_append_right _ hy)

/-- An attempt to share with the sibling `sibling` inserts, or changes nothing because the sibling
lacks one key at most. -/
def Attempt (T : Cfg κ) (k : κ) (H : Prop) (s : BTree κ) (R : Multiset ℕ) (h : ℕ) (t sibling : Node κ)
    (run : TreeM κ (PageWrapper κ × Bool)) : Prop :=
  (run s = .ok ((s.wrapper sibling.page, false), s) ∧
    T.maxOf h ≤ sibling.keys.length + 1 ∧ sibling.keys.length ≤ T.maxOf h) ∨
  Returns run s fun r s' => r.2 = true ∧ InsertPost T k H s R (h + 1) t t.keys.length s'

/-- A sharing function that is called unless the sibling is full. -/
theorem Attempt.of_shares {sibling : Node κ} {share : TreeM κ Bool}
    (hfull : isFull T (s.wrapper sibling.page) s =
      .ok (sibling.keys.length == T.maxOf h, s)) (hmax : sibling.keys.length ≤ T.maxOf h)
    (hshare : sibling.keys.length < T.maxOf h → SharesOrRefuses T k H s R h t sibling share) :
    Attempt T k H s R h t sibling (do
      let full ← isFull T (s.wrapper sibling.page)
      if !full then do
        let done ← share
        return (s.wrapper sibling.page, done)
      else return (s.wrapper sibling.page, false)) := by
  by_cases hlen : sibling.keys.length = T.maxOf h
  · refine Or.inl ⟨?_, by omega, hmax⟩
    rw [bind_run hfull, if_neg (by simp [hlen])]
    rfl
  · have hcond : (!(sibling.keys.length == T.maxOf h)) = true := by simp [hlen]
    rcases hshare (by omega) with ⟨hrun, hone⟩ | hdone
    · refine Or.inl ⟨?_, by omega, hmax⟩
      rw [bind_run hfull, if_pos hcond, bind_run hrun]
      rfl
    · refine Or.inr (Returns.step hfull ?_)
      rw [if_pos hcond]
      exact Returns.bind_pure (hdone.mono fun done s' hpost => hpost)

/-- The number of keys that a full child and a sibling have, in the full and the short variant. -/
theorem sum_short {m n : ℕ} (h1 : m ≤ n + 1) (h2 : n ≤ m) :
    n + m + (if (!(n == m)) = true then 1 else 0) = 2 * m := by
  by_cases hnm : n = m
  · rw [if_neg (by simp [hnm])]
    omega
  · rw [if_pos (by simp [hnm])]
    omega

/-- The sequence of an attempt to insert and of what is done otherwise. -/
theorem returns_attempt {run : TreeM κ (PageWrapper κ × Bool)}
    {rest : PageWrapper κ × Bool → TreeM κ Unit} {Q : BTree κ → Prop}
    (hdone : ∀ pw, rest (pw, true) = pure ())
    (hrun : (∃ pw, run s = .ok ((pw, false), s) ∧ Returns (rest (pw, false)) s fun _ s' => Q s') ∨
      Returns run s fun r s' => r.2 = true ∧ Q s') : Returns (run >>= rest) s fun _ s' => Q s' := by
  rcases hrun with ⟨pw, hrun, hrest⟩ | hrun
  · exact Returns.step hrun hrest
  · refine hrun.bind fun r s' ⟨hr, hQ⟩ => ?_
    obtain ⟨pw, done⟩ := r
    obtain rfl : done = true := hr
    rw [hdone pw]
    exact Returns.pure hQ

variable [Inhabited κ]

theorem BaseBStarTree.tryLeft_spec (hT : T.Valid) (hk : T.treeType.isStar = true)
    (hlt : StrictWeak T.compare) (ih : InsertsAt T k h fuel)
    (hp : PairReady T k H s R ref h p K1 x K2 P c d S) (hd : d.keys.length = T.maxKeys) :
    Attempt T k H s R h ⟨p, K1 ++ x :: K2, P ++ ([c, d] ++ S)⟩ c
      (BaseBStarTree.tryLeft T (insertNonFull T k fuel) k ref (s.wrapper p) (K1.length + 1)
        (s.wrapper d.page)) := by
  have hmaxOf := star_maxOf hk h
  have hread := readPageFromChild_run (T := T) (w := s.wrapper p) (P := P) (c := c) (S := d :: S)
    hp.stands.store (kid_page_mem (by simp)) hp.stands.rep.on rfl hp.le_slots
  rw [hp.length_eq] at hread
  have hattempt := Attempt.of_shares (R := R) (t := ⟨p, K1 ++ x :: K2, P ++ ([c, d] ++ S)⟩) hp.full_left
    (sized_iff.mp hp.sized_pair.1).1.2 fun hc =>
      BTreesMods.shareLeft_spec hT hk hlt ih hp hd (hmaxOf ▸ hc)
  have hrun : BaseBStarTree.tryLeft T (insertNonFull T k fuel) k ref (s.wrapper p) (K1.length + 1)
      (s.wrapper d.page) s = _ := bind_run hread
  unfold Attempt Returns at hattempt ⊢
  rwa [hrun]

theorem BaseBStarTree.tryRight_spec (hT : T.Valid) (hk : T.treeType.isStar = true)
    (hlt : StrictWeak T.compare) (ih : InsertsAt T k h fuel)
    (hp : PairReady T k H s R ref h p K1 x K2 P c d S) (hc : c.keys.length = T.maxKeys) :
    Attempt T k H s R h ⟨p, K1 ++ x :: K2, P ++ ([c, d] ++ S)⟩ d
      (BaseBStarTree.tryRight T (insertNonFull T k fuel) k ref (s.wrapper p) K1.length
        (s.wrapper c.page)) := by
  have hmaxOf := star_maxOf hk h
  have hkids : P ++ ([c, d] ++ S) = (P ++ [c]) ++ d :: S := by simp
  have hread : readPageFromChild T (s.wrapper p) (K1.length + 1) s = .ok (s.wrapper d.page, s) := by
    have hs := hp.stands
    rw [hkids] at hs
    have := readPageFromChild_run (T := T) (w := s.wrapper p) (P := P ++ [c]) (c := d) (S := S)
      hs.store (kid_page_mem (by simp)) hs.rep.on rfl hp.le_slots
    rwa [List.length_append, List.length_singleton, hp.length_eq] at this
  have hattempt := Attempt.of_shares (R := R) (t := ⟨p, K1 ++ x :: K2, P ++ ([c, d] ++ S)⟩)
    hp.full_right (sized_iff.mp hp.sized_pair.2).1.2
    fun hd => BTreesMods.shareRight_spec hT hk hlt ih hp hc (hmaxOf ▸ hd)
  have hi : K1.length < (s.wrapper p).data.keysNum := by simp [hp.keysNum]
  unfold Attempt Returns BaseBStarTree.tryRight at *
  rw [if_pos hi, bind_run hread]
  exact hattempt

/-! ## Two children split into three -/

/-- The split of two children into three, and the insertion into one of them. -/
theorem BaseBStarTree.insertBelowSplit_spec (hT : T.Valid) (hk : T.treeType.isStar = true)
    (hfit : T.SplitBufferFits) (hlt : StrictWeak T.compare) (ih : InsertsAt T k h fuel)
    (hp : PairReady T k H s R ref h p K1 x K2 P c d S)
    (hroom : (K1 ++ x :: K2).length < T.capacity (h + 1) ref) {isShort : Bool}
    (hsum : c.keys.length + d.keys.length + (if isShort then 1 else 0) = 2 * T.maxKeys) :
    Returns (BaseBStarTree.insertBelowSplit T (insertNonFull T k fuel) k ref K1.length
      (s.wrapper c.page) (s.wrapper d.page) isShort) s fun _ s' =>
        InsertPost T k H s R (h + 1) ⟨p, K1 ++ x :: K2, P ++ ([c, d] ++ S)⟩
          ((K1 ++ x :: K2).length + 1) s' := by
  obtain ⟨hszc, hszd⟩ := hp.sized_pair
  obtain ⟨⟨-, hc⟩, hszck⟩ := sized_iff.mp hszc
  obtain ⟨⟨-, hd⟩, hszdk⟩ := sized_iff.mp hszd
  have hslots := maxOf_le_slots hT h
  have hmin : h ≠ 0 → 1 ≤ T.minOf h := fun _ => one_le_minOf hT h
  have hP := hp.length_eq
  unfold BaseBStarTree.insertBelowSplit
  refine (BTreesMods.splitChildren_spec hT hk hfit hp.stands hP hroom (hc.trans hslots) (hd.trans hslots)
    hsum).bind
    fun r s1 hpost => ?_
  obtain ⟨ref1, c', e, d', a, b, rfl, hf1, hs1, hkids, hbc, hbe, hbd, hreg⟩ := hpost
  -- the tree after the split
  have hsz1 : SizedBelow T (h + 1) (P ++ ([c', e, d'] ++ S)) := by
    obtain ⟨hszP, hszrest⟩ := sizedBelow_append.mp hp.sized
    have hbelow : SizedBelow T h (c'.kids ++ (e.kids ++ d'.kids)) := by
      rw [hkids, sizedBelow_append]
      exact ⟨hszck, hszdk⟩
    rw [sizedBelow_append, sizedBelow_append] at hbelow
    obtain ⟨hck, hek, hdk⟩ := hbelow
    refine sizedBelow_append.mpr ⟨hszP, sizedBelow_append.mpr ⟨?_, (sizedBelow_append.mp hszrest).2⟩⟩
    exact sizedBelow_cons.mpr ⟨sized_iff.mpr ⟨⟨hbc.1, Nat.le_of_lt hbc.2⟩, hck⟩,
      sizedBelow_cons.mpr ⟨sized_iff.mpr ⟨⟨hbe.1, Nat.le_of_lt hbe.2⟩, hek⟩,
      sizedBelow_cons.mpr ⟨sized_iff.mpr ⟨⟨hbd.1, Nat.le_of_lt hbd.2⟩, hdk⟩, sizedBelow_nil⟩⟩⟩
  have htok : (⟨p, K1 ++ a :: b :: K2, P ++ ([c', e, d'] ++ S)⟩ : Node κ).tokens T (h + 1) =
      tokensBefore T h P K1 ++ ((c'.tokens T h ++ T.sep a :: (e.tokens T h ++ T.sep b ::
        d'.tokens T h)) ++ tokensAfter T h K2 S) := by
    have := tokens_around₂ (T := T) (h := h) (p := p) (P := P) (K := K1) (m := a) (L := b :: K2)
      (c := c') (d := e) (S := d' :: S) hP
    rw [tokensAfter_cons] at this
    simpa using this
  have hreg1 : Regroup ((⟨p, K1 ++ x :: K2, P ++ ([c, d] ++ S)⟩ : Node κ).tokens T (h + 1))
      ((⟨p, K1 ++ a :: b :: K2, P ++ ([c', e, d'] ++ S)⟩ : Node κ).tokens T (h + 1)) := by
    have := tokens_around₂ (T := T) (h := h) (p := p) (L := K2) (S := S) (c := c) (d := d) (m := x) hP
    change Regroup ((⟨p, K1 ++ x :: K2, P ++ c :: d :: S⟩ : Node κ).tokens T (h + 1)) _
    rw [this, htok]
    exact hreg.context _ _
  have hsorted : H → Sorted T.compare
      ((⟨p, K1 ++ a :: b :: K2, P ++ ([c', e, d'] ++ S)⟩ : Node κ).tokens T (h + 1)) :=
    fun hH => hreg1.sorted hlt (hp.sorted hH)
  have hsortedTok : H → Sorted T.compare (tokensBefore T h P K1 ++ ((c'.tokens T h ++ T.sep a ::
      (e.tokens T h ++ T.sep b :: d'.tokens T h)) ++ tokensAfter T h K2 S)) :=
    fun hH => htok ▸ hsorted hH
  have hfinish : ∀ {n s'}, n = (K1 ++ x :: K2).length + 1 → InsertPost T k H s1 R (h + 1)
      ⟨p, K1 ++ a :: b :: K2, P ++ ([c', e, d'] ++ S)⟩ n s' →
      InsertPost T k H s R (h + 1) ⟨p, K1 ++ x :: K2, P ++ ([c, d] ++ S)⟩
        ((K1 ++ x :: K2).length + 1) s' :=
    fun hn hpost => InsertPost.of_regroup hreg1 hf1 rfl (hn ▸ hpost)
  -- the two keys around the child in the middle
  have hcapacity := capacity_le_slots hT (h + 1) ref
  have hlen : (K1 ++ a :: b :: K2).length ≤ T.slots := by
    simp only [List.length_append, List.length_cons] at hroom ⊢
    omega
  have hkeys : K1 ++ a :: b :: K2 = (K1 ++ [a]) ++ b :: K2 := by simp
  have hgetb : (ref1.value s1).data.getKey T.slots (K1.length + 1) = .ok b := by
    have hs1' := hs1.toHeld
    rw [hkeys] at hs1' hlen
    have := hs1'.getKey hlen
    rwa [List.length_append, List.length_singleton] at this
  have hgeta := hs1.toHeld.getKey hlen
  refine Returns.step (load_run s1 ref1) (Returns.step (onPages_run hgetb s1) ?_)
  by_cases hbk : T.compare b k = true
  · -- below the right child
    rw [if_pos hbk]
    have hkids1 : P ++ ([c', e, d'] ++ S) = (P ++ [c']) ++ ([e, d'] ++ S) := by simp
    rw [hkeys, hkids1] at hs1 hsorted hfinish
    rw [hkids1] at hsz1
    refine (insertRightKid (H := H) hlt hs1 (by simp [hP]) hsz1 hbd.2 hmin ih hsorted (fun hH => ?_)
      (hlt.asymm hbk)).mono fun _ s' hpost => hfinish ?_ hpost
    · rw [tokensBefore_concat hP]
      have hs := hsortedTok hH
      refine (hp.between hH).right hlt hs ?_
      have hab := (sorted_append.mp (sorted_append.mp (sorted_append.mp hs).2.1).1).2.1
      have hab' := (sorted_cons.mp hab).1 (T.sep b) (by simp)
      rw [key_sep, key_sep] at hab'
      rw [key_sep]
      exact hlt.asymm (hlt.lt_of_le_of_lt hab' hbk)
    · simp only [List.length_append, List.length_cons, List.length_nil]
      omega
  · rw [if_neg hbk]
    refine Returns.step (onPages_run hgeta s1) ?_
    have hbetween : H → Between T.compare k (tokensBefore T h P K1)
        (tokensAfter T h (b :: K2) (d' :: S)) := fun hH => by
      have hs := hsortedTok hH
      have hassoc : c'.tokens T h ++ T.sep a :: (e.tokens T h ++ T.sep b :: d'.tokens T h) =
          (c'.tokens T h ++ T.sep a :: e.tokens T h) ++ T.sep b :: d'.tokens T h := by simp
      rw [hassoc] at hs
      rw [tokensAfter_cons]
      exact (hp.between hH).left hlt hs (by simpa using hbk)
    have hn : K1.length + 1 + (b :: K2).length = (K1 ++ x :: K2).length + 1 := by
      simp only [List.length_append, List.length_cons]
      omega
    have hs1' : Stands s1 R ref1 (h + 1) ⟨p, K1 ++ a :: b :: K2, P ++ ([c', e] ++ d' :: S)⟩ := hs1
    by_cases hak : T.compare a k = true
    · -- below the middle child
      rw [if_pos hak]
      exact (insertRightKid hlt hs1' hP hsz1 hbe.2 hmin ih hsorted
        hbetween (hlt.asymm hak)).mono fun _ s' hpost => hfinish hn hpost
    · -- below the left child
      rw [if_neg hak]
      exact (insertLeftKid hlt hs1' hP hsz1 hbc.2 hmin ih hsorted
        hbetween (by simpa using hak)).mono fun _ s' hpost => hfinish hn hpost

/-! ## The descent -/

/-- The insertion below a full child that has a left sibling. -/
theorem BaseBStarTree.insertBelow_left (hT : T.Valid) (hk : T.treeType.isStar = true)
    (hfit : T.SplitBufferFits) (hlt : StrictWeak T.compare) (ih : InsertsAt T k h fuel)
    (hp : PairReady T k H s R ref h p K1 x K2 P c d S)
    (hroom : (K1 ++ x :: K2).length < T.capacity (h + 1) ref) (hd : d.keys.length = T.maxKeys)
    (hright : ∀ y K2' e S', K2 = y :: K2' → S = e :: S' →
      PairReady T k H s R ref h p (K1 ++ [x]) y K2' (P ++ [c]) d e S') :
    Returns (BaseBStarTree.insertBelow T (insertNonFull T k fuel) k ref (K1.length + 1)
      (s.wrapper d.page)) s fun _ s' => ∃ n, (K1 ++ x :: K2).length ≤ n ∧
        n ≤ (K1 ++ x :: K2).length + 1 ∧
        InsertPost T k H s R (h + 1) ⟨p, K1 ++ x :: K2, P ++ ([c, d] ++ S)⟩ n s' := by
  have hmaxOf := star_maxOf hk h
  unfold BaseBStarTree.insertBelow
  refine Returns.step (load_run s ref) (Returns.step hp.full_right ?_)
  rw [if_pos (by simp [hd, hmaxOf]), hp.stands.value_eq]
  refine returns_attempt (fun _ => rfl) ?_
  rcases BaseBStarTree.tryLeft_spec hT hk hlt ih hp hd with ⟨hrun, hlo, hhi⟩ | hdone
  swap
  · exact Or.inr (hdone.mono fun r s' hpost => ⟨hpost.1, _, Nat.le_refl _, Nat.le_succ _, hpost.2⟩)
  refine Or.inl ⟨_, hrun, returns_attempt (fun _ => rfl) ?_⟩
  have hsplit : Returns (do
      let leftFull ← isFull T (s.wrapper c.page)
      BaseBStarTree.insertBelowSplit T (insertNonFull T k fuel) k ref K1.length (s.wrapper c.page)
        (s.wrapper d.page) (!leftFull)) s fun _ s' => ∃ n, (K1 ++ x :: K2).length ≤ n ∧
        n ≤ (K1 ++ x :: K2).length + 1 ∧
        InsertPost T k H s R (h + 1) ⟨p, K1 ++ x :: K2, P ++ ([c, d] ++ S)⟩ n s' := by
    refine Returns.step hp.full_left ?_
    refine (BaseBStarTree.insertBelowSplit_spec hT hk hfit hlt ih hp hroom ?_).mono fun _ s' hpost =>
      ⟨_, Nat.le_succ _, Nat.le_refl _, hpost⟩
    rw [hmaxOf, hd]
    exact sum_short (hmaxOf ▸ hlo) (hmaxOf ▸ hhi)
  have hlen : (P ++ ([c, d] ++ S)).length = (K1 ++ x :: K2).length + 1 := hp.stands.rep.length_kids
  simp only [List.length_append, List.length_cons, List.length_nil, hp.length_eq] at hlen
  cases K2 with
  | nil =>
    refine Or.inl ⟨s.wrapper d.page, ?_, hsplit⟩
    unfold BaseBStarTree.tryRight
    rw [if_neg (by simp [hp.keysNum])]
    rfl
  | cons y K2 =>
    obtain ⟨e, S, rfl⟩ : ∃ e S', S = e :: S' :=
      List.exists_cons_of_ne_nil (by rintro rfl; simp at hlen)
    have hpr := hright y K2 e S rfl rfl
    have hkeys : (K1 ++ [x]) ++ y :: K2 = K1 ++ x :: y :: K2 := by simp
    have hkids : (P ++ [c]) ++ ([d, e] ++ S) = P ++ ([c, d] ++ e :: S) := by simp
    have hattempt := BaseBStarTree.tryRight_spec hT hk hlt ih hpr hd
    rw [hkeys, hkids, List.length_append, List.length_singleton] at hattempt
    rcases hattempt with ⟨hrun, -, -⟩ | hdone
    · exact Or.inl ⟨_, hrun, hsplit⟩
    · exact Or.inr (hdone.mono fun r s' hpost =>
        ⟨hpost.1, _, Nat.le_refl _, Nat.le_succ _, hpost.2⟩)

/-- The insertion below a full first child. -/
theorem BaseBStarTree.insertBelow_right (hT : T.Valid) (hk : T.treeType.isStar = true)
    (hfit : T.SplitBufferFits) (hlt : StrictWeak T.compare) (ih : InsertsAt T k h fuel)
    (hp : PairReady T k H s R ref h p [] x K2 [] c d S)
    (hroom : (x :: K2).length < T.capacity (h + 1) ref) (hc : c.keys.length = T.maxKeys) :
    Returns (BaseBStarTree.insertBelow T (insertNonFull T k fuel) k ref 0 (s.wrapper c.page)) s
      fun _ s' => ∃ n, (x :: K2).length ≤ n ∧ n ≤ (x :: K2).length + 1 ∧
        InsertPost T k H s R (h + 1) ⟨p, x :: K2, c :: d :: S⟩ n s' := by
  have hmaxOf := star_maxOf hk h
  unfold BaseBStarTree.insertBelow
  refine Returns.step (load_run s ref) (Returns.step hp.full_left ?_)
  rw [if_pos (by simp [hc, hmaxOf]), hp.stands.value_eq]
  have hnone : BaseBStarTree.tryLeft T (insertNonFull T k fuel) k ref (s.wrapper p) 0
      (s.wrapper c.page) s = .ok ((s.wrapper c.page, false), s) := rfl
  refine returns_attempt (fun _ => rfl) (Or.inl ⟨_, hnone, returns_attempt (fun _ => rfl) ?_⟩)
  rcases BaseBStarTree.tryRight_spec hT hk hlt ih hp hc with ⟨hrun, hlo, hhi⟩ | hdone
  · refine Or.inl ⟨_, hrun, ?_⟩
    refine Returns.step hp.full_right ?_
    refine (BaseBStarTree.insertBelowSplit_spec hT hk hfit hlt ih hp hroom ?_).mono fun _ s' hpost =>
      ⟨_, Nat.le_succ _, Nat.le_refl _, hpost⟩
    rw [hmaxOf, hc, Nat.add_comm T.maxKeys]
    exact sum_short (hmaxOf ▸ hlo) (hmaxOf ▸ hhi)
  · exact Or.inr (hdone.mono fun r s' hpost => ⟨hpost.1, _, Nat.le_refl _, Nat.le_succ _, hpost.2⟩)

/-- `BaseBStarTree::insertNonFull` below the child where the scan stops. -/
theorem star_insertBelow_spec (hT : T.Valid) (hk : T.treeType.isStar = true)
    (hfit : T.SplitBufferFits) (hlt : StrictWeak T.compare) (ih : InsertsAt T k h fuel) :
    InsertsBelow T k h fuel := by
  intro s R ref p K1 K2 P c S hs hP hcut hsz hroom hone
  have hbelow : insertBelow T = BaseBStarTree.insertBelow T := by
    unfold insertBelow
    cases hk' : T.treeType <;> simp_all [TreeType.isStar]
  have hmaxOf := star_maxOf hk h
  have hslots : (K1 ++ K2).length ≤ T.slots :=
    (Nat.le_of_lt hroom).trans (capacity_le_slots hT (h + 1) ref)
  rw [hbelow]
  by_cases hfull : c.keys.length = T.maxOf h
  · have hc : c.keys.length = T.maxKeys := hfull.trans hmaxOf
    have hlen : (P ++ c :: S).length = (K1 ++ K2).length + 1 := hs.rep.length_kids
    rcases List.eq_nil_or_concat' P with rfl | ⟨P, b, rfl⟩
    · -- the first child: there is a right sibling
      obtain rfl : K1 = [] := List.length_eq_zero_iff.mp hP.symm
      obtain ⟨x, K2, rfl⟩ := List.exists_cons_of_ne_nil (l := K2) (by rintro rfl; simp at hone)
      obtain ⟨d, S, rfl⟩ := List.exists_cons_of_ne_nil (l := S) (by rintro rfl; simp at hlen)
      exact BaseBStarTree.insertBelow_right hT hk hfit hlt ih (pairReady_right hlt hs hP hcut hsz hslots)
        hroom hc
    · -- there is a left sibling, and perhaps a right one
      obtain ⟨K1, x, rfl⟩ := List.eq_nil_or_concat' K1 |>.resolve_left (by rintro rfl; simp at hP)
      have hP' : P.length = K1.length := by simpa using hP
      have hp := pairReady_left hlt hs hP' hcut hsz hslots
      have hkeys : (K1 ++ [x]) ++ K2 = K1 ++ x :: K2 := by simp
      have hkids : (P ++ [b]) ++ c :: S = P ++ ([b, c] ++ S) := by simp
      have hi : K1.length + 1 = (K1 ++ [x]).length := by simp
      rw [hkeys] at hroom
      have hbelow := BaseBStarTree.insertBelow_left hT hk hfit hlt ih hp hroom hc
        (fun y K2' e S' hK2 hS' => by
          subst hK2 hS'
          exact pairReady_right hlt hs hP hcut hsz hslots)
      rwa [← hkeys, ← hkids, hi] at hbelow
  · -- the child has room
    have hroomc : c.keys.length < T.maxOf h := by
      have := (sized_iff.mp (hsz c (by simp))).1.2
      omega
    unfold BaseBStarTree.insertBelow
    refine Returns.step (load_run s ref) (Returns.step (isFull_run hs.kid.toHeld) ?_)
    rw [if_neg (by simpa [Cfg.capacity] using hfull)]
    refine (insertKid hs hP hsz hroomc (fun _ => one_le_minOf hT h) ih
      (fun hH => by rwa [← tokens_around (p := p) hP]) fun hH => ?_).mono fun _ s' hpost =>
        ⟨_, Nat.le_refl _, Nat.le_succ _, hpost⟩
    rw [tokens_around hP] at hH
    exact between_of_cut hlt hP hcut hH

/-! ## The root -/

/-- `BaseBStarTree::splitChild` on a full old root. -/
theorem BaseBStarTree.splitChild_spec
    (hs : Held s R ref (h + 1) ⟨p, K1 ++ K2, P ++ ([c] ++ S)⟩) (hP : P.length = K1.length)
    (hroom : (K1 ++ K2).length < T.capacity (h + 1) ref) (hslots : (K1 ++ K2).length + 1 ≤ T.slots)
    (hcslots : c.keys.length ≤ T.slots) (hfull : c.keys.length = 2 * T.minKeys + 1)
    (hsep : T.tokenAt h = T.sep) (hmin : T.minOf h ≤ T.minKeys) (hmax : T.minKeys < T.maxOf h)
    (hlw : lw.pageNum = 0 ∨ lw = s.wrapper c.page) :
    Returns (BaseBStarTree.splitChild T ref K1.length lw) s
      (SplitChildPost T s R h p K1 K2 P S c) := by
  have hkn : (s.wrapper c.page).data.keysNum = c.keys.length :=
    (repBelow_cons.mp (repBelow_append.mp hs.below).2).1.on.keysNum_eq
  have hmid := splitChild_middle (T := T) (n := T.minKeys) hs hP
    (by rwa [List.length_append] at hslots) hcslots (by omega) hsep ⟨hmin, hmax⟩
    (by omega)
  unfold BaseBStarTree.splitChild
  refine Returns.step (load_run s ref) ?_
  refine Returns.step (splitChildHead_run hs hP hroom (by omega) hlw) ?_
  dsimp only
  rw [hkn, show c.keys.length / 2 = c.keys.length - T.minKeys - 1 by omega,
    show c.keys.length - (c.keys.length - T.minKeys - 1) - 1 = T.minKeys by omega]
  exact hmid

/-- `BaseBStarPlusTree::splitChild` on a full old root that is a leaf. -/
theorem BaseBStarPlusTree.splitLeaf_spec (hrouters : T.treeType.hasRouters = true)
    (hs : Held s R ref 1 ⟨p, K1 ++ K2, P ++ ([c] ++ S)⟩) (hP : P.length = K1.length)
    (hroom : (K1 ++ K2).length < T.capacity 1 ref) (hslots : (K1 ++ K2).length + 1 ≤ T.slots)
    (hcslots : c.keys.length ≤ T.slots) (hfull : c.keys.length = 2 * T.minKeys + 1)
    (hmin : T.minOf 0 ≤ T.minKeys) (hmax : T.minKeys + 1 < T.maxOf 0)
    (hlw : lw.pageNum = 0 ∨ lw = s.wrapper c.page) :
    Returns (BaseBStarPlusTree.splitChild T ref K1.length lw) s
      (SplitChildPost T s R 0 p K1 K2 P S c) := by
  have hrc : Rep s.stream.page 0 c := (repBelow_cons.mp (repBelow_append.mp hs.below).2).1
  have hkn : (s.wrapper c.page).data.keysNum = c.keys.length := hrc.on.keysNum_eq
  have hleaf : (s.wrapper c.page).data.isLeaf = true := hrc.on.leaf_eq
  have hkids : c.kids = [] := hrc.below
  obtain ⟨A, m, B, hkeys, hA, hB⟩ := exists_key (G := c.keys) (l := T.minKeys) (n := T.minKeys)
    (by omega)
  have hkeys' : c.keys = (A ++ [m]) ++ [] ++ B := by simp [hkeys]
  have hAlen : (A ++ [m]).length = T.minKeys + 1 := by
    rw [List.length_append, List.length_singleton, hA]
  have htail := splitChildTail_spec (T := T) none (C := []) (D := []) (m := m) hs hP
    (by rwa [List.length_append] at hslots) hcslots hkeys' hkids (fun hh => absurd rfl hh) (by simp)
  rw [List.append_nil, hAlen, hB] at htail
  unfold BaseBStarPlusTree.splitChild
  refine Returns.step (load_run s ref) ?_
  refine Returns.step (splitChildHead_run hs hP hroom (by omega) hlw) ?_
  rw [if_neg (by simp [hleaf])]
  dsimp only
  rw [hkn, show c.keys.length / 2 = T.minKeys by omega,
    show c.keys.length - T.minKeys = T.minKeys + 1 by omega]
  refine htail.bind fun r s1 ⟨q, x, ref1, _, hr, hf1, hs1⟩ => ?_
  subst hr
  have hne := hs1.toHeld.nodup_mid
  simp only [List.map_cons, List.map_nil, List.nodup_cons, List.mem_cons, List.not_mem_nil, or_false,
    not_or] at hne
  refine (setRouterKey_spec (T := T) (P := P) (c := ⟨c.page, A ++ [m], []⟩) (S := ⟨q, B, []⟩ :: S) hs1
    hP (by simp only [List.length_append, List.length_cons] at hslots ⊢; omega) rfl
    (by dsimp only; omega)).bind fun ref2 s2 ⟨hf2, hs2, hother⟩ => Returns.pure ?_
  refine ⟨ref2, q, m, A ++ [m], B, [], [], ?_, hf1.trans hf2, hs2, hkids, by omega, by omega, ?_⟩
  · exact Prod.ext rfl (Prod.ext (hother _ (Ne.symm hne.1.1)).symm (hother _ (Ne.symm hne.1.2)).symm)
  · rw [List.append_nil] at hkeys'
    rw [node_eq c hkeys' hkids]
    exact regroup_leaf hrouters

theorem star_splitsRoot (hT : T.Valid) (hk : T.treeType.isStar = true) : SplitsRoot T := by
  intro s R h q t hs hfull
  obtain ⟨m, hm, -, hmin, hmax, hroot, -, -, -, -, hslots, -⟩ := valid_star hT hk
  have hmaxOf := star_maxOf hk h
  have hminOf := star_minOf hk h
  have hmaxRoot : ∀ h, T.maxRootOf h = T.maxRootKeys := fun h => by
    unfold Cfg.maxRootOf
    cases hk' : T.treeType <;> simp_all [TreeType.isStar]
  have hroom : 0 < T.capacity (h + 1) .rootPage := by
    have := two_le_maxRootOf hT (h + 1)
    change 0 < T.maxRootOf (h + 1)
    omega
  have hlen : t.keys.length = 2 * T.minKeys + 1 := by
    rw [hfull, hmaxRoot, hroot, hmin]
  have htslots : t.keys.length ≤ T.slots := hfull ▸ maxRootOf_le_slots hT h
  have hs' : Held s R .rootPage (h + 1) ⟨q, [] ++ [], [] ++ ([t] ++ [])⟩ := hs
  have hP : ([] : List (Node κ)).length = ([] : List κ).length := rfl
  have hroom' : ([] ++ [] : List κ).length < T.capacity (h + 1) .rootPage := hroom
  have hslots' : ([] ++ [] : List κ).length + 1 ≤ T.slots := by
    change 1 ≤ T.slots
    omega
  change Returns (splitChild T .rootPage ([] : List κ).length _) _ _
  by_cases hk' : T.treeType = .bStarPlusTree
  · simp only [splitChild, hk']
    cases h with
    | zero =>
      exact BaseBStarPlusTree.splitLeaf_spec (by rw [hk']; rfl) hs' hP hroom' hslots' htslots hlen
        (by omega) (by omega) (Or.inl rfl)
    | succ h =>
      have hleaf : (s.wrapper t.page).data.isLeaf = false :=
        (repBelow_cons.mp hs.below).1.on.leaf_eq
      have hsep := tokenAt_eq_sep (h := h + 1) (fun _ => Nat.succ_ne_zero h) hk
      unfold BaseBStarPlusTree.splitChild
      refine Returns.step (load_run s .rootPage) ?_
      refine Returns.step (splitChildHead_run hs' hP hroom' (Nat.zero_le _) (Or.inl rfl)) ?_
      rw [if_pos (by simp [hleaf])]
      exact BaseBStarTree.splitChild_spec hs' hP hroom' hslots' htslots hlen hsep (by omega)
        (by omega) (Or.inr rfl)
  · have hother : splitChild T = BaseBStarTree.splitChild T := by
      unfold splitChild
      cases hk'' : T.treeType <;> simp_all [TreeType.isStar]
    rw [hother]
    exact BaseBStarTree.splitChild_spec hs' hP hroom' hslots' htslots hlen
      (tokenAt_eq_sep (fun h' => absurd h' hk') hk) (by omega) (by omega) (Or.inl rfl)

end

section

variable {T : Cfg κ} [Inhabited κ]

/-! ## `insert` -/

/-- Every insertion into a well-formed tree throws nothing, adds one record and leaves the tree well formed,
one level higher exactly when the root was full. -/
def InsertsWell (T : Cfg κ) : Prop :=
  ∀ s h t k, WellFormed T s h t → Returns (insert T k) s fun _ s' => ∃ h' t', WellFormed T s' h' t' ∧
    (t'.records T h' : Multiset κ) = k ::ₘ (t.records T h : Multiset κ) ∧
    h' = if t.keys.length = T.maxRootOf h then h + 1 else h

/-- Insertion into B*-trees and B*+-trees, with buffers that can be allocated. -/
theorem star_insertsWell (hT : T.Valid) (hk : T.treeType.isStar = true) (hfit : T.SplitBufferFits)
    (hlt : StrictWeak T.compare) : InsertsWell T := by
  intro s h t k hw
  obtain ⟨R, hs⟩ := hw.stands
  refine (insert_spec hT hlt (star_splitsRoot hT hk)
    (fun h fuel => star_insertBelow_spec hT hk hfit hlt) hs hw.sized).mono fun _ s' ⟨h', t', hi⟩ => ?_
  obtain ⟨hw', hrecords⟩ := hi.wellFormed hT hlt hw
  exact ⟨h', t', hw', hrecords, hi.height_eq⟩

end

end BTreesMods
