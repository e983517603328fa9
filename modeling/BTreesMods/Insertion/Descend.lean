import BTreesMods.Insertion.Split

/-!
# The descent of an insertion

`InsertsAt T k h fuel` says what `insertNonFull` does to every tree of height `h` whose topmost page
is not full. Here: its leaf case, and the step from a child to its parent, which is the same for the
four classes.
-/

namespace BTreesMods

variable {κ : Type}

/-- After `insertNonFull` on the tree `t`: a tree with `n` keys in the same topmost page, whose
sequence is that of `t` with the record `k` inserted, in order if `H` holds. -/
def InsertPost (T : Cfg κ) (k : κ) (H : Prop) (s : BTree κ) (R : Multiset ℕ) (h : ℕ) (t : Node κ)
    (n : ℕ) (s' : BTree κ) : Prop :=
  ∃ ref' t', t'.page = t.page ∧ t'.keys.length = n ∧ Frame s s' R ∧ Stands s' R ref' h t' ∧
    SizedBelow T h t'.kids ∧ Inserted H T.compare k (t.tokens T h) (t'.tokens T h)

/-- What `insertNonFull` does to trees of height `h`. -/
def InsertsAt [Inhabited κ] (T : Cfg κ) (k : κ) (h fuel : ℕ) : Prop :=
  ∀ s R ref t, Stands s R ref h t → SizedBelow T h t.kids → t.keys.length < T.capacity h ref →
    (h ≠ 0 → 1 ≤ t.keys.length) →
    Returns (insertNonFull T k fuel ref) s fun _ s' =>
      ∃ n, t.keys.length ≤ n ∧ n ≤ t.keys.length + 1 ∧
        InsertPost T k (Sorted T.compare (t.tokens T h)) s R h t n s'

/-- What `insertNonFull` does below child `P.length` of a page that is not full. -/
def InsertsBelow [Inhabited κ] (T : Cfg κ) (k : κ) (h fuel : ℕ) : Prop :=
  ∀ s R ref p K1 K2 P c S, Stands s R ref (h + 1) ⟨p, K1 ++ K2, P ++ c :: S⟩ →
    P.length = K1.length → UpperCut T.compare k K1 K2 → SizedBelow T (h + 1) (P ++ c :: S) →
    (K1 ++ K2).length < T.capacity (h + 1) ref → 1 ≤ (K1 ++ K2).length →
    Returns (insertBelow T (insertNonFull T k fuel) k ref K1.length (s.wrapper c.page)) s
      fun _ s' => ∃ n, (K1 ++ K2).length ≤ n ∧ n ≤ (K1 ++ K2).length + 1 ∧
        InsertPost T k (Sorted T.compare ((⟨p, K1 ++ K2, P ++ c :: S⟩ : Node κ).tokens T (h + 1)))
          s R (h + 1) ⟨p, K1 ++ K2, P ++ c :: S⟩ n s'

section

variable {T : Cfg κ} {s s1 s' : BTree κ} {R : Multiset ℕ} {ref : PageRef κ} {h p n fuel : ℕ} {k x : κ}
  {t t1 c d : Node κ} {K1 K2 : List κ} {P S : List (Node κ)} {H : Prop}

/-- A step that regroups a tree before the insertion. -/
theorem InsertPost.of_regroup (hr : Regroup (t.tokens T h) (t1.tokens T h)) (hf : Frame s s1 R)
    (hpage : t1.page = t.page) (hi : InsertPost T k H s1 R h t1 n s') :
    InsertPost T k H s R h t n s' := by
  obtain ⟨ref', t', hp, hn, hf', hs', hsz, hins⟩ := hi
  exact ⟨ref', t', hp.trans hpage, hn, hf.trans hf', hs', hsz, hins.of_regroup hr⟩

variable [Inhabited κ]

/-- The insertion below a child that is not full. -/
theorem insertKid (hs : Stands s R ref (h + 1) ⟨p, K1 ++ K2, P ++ c :: S⟩)
    (hP : P.length = K1.length) (hsz : SizedBelow T (h + 1) (P ++ c :: S))
    (hroom : c.keys.length < T.maxOf h) (hmin : h ≠ 0 → 1 ≤ T.minOf h)
    (ih : InsertsAt T k h fuel)
    (hsorted : H → Sorted T.compare
      (tokensBefore T h P K1 ++ (c.tokens T h ++ tokensAfter T h K2 S)))
    (hb : H → Between T.compare k (tokensBefore T h P K1) (tokensAfter T h K2 S)) :
    Returns (insertNonFull T k fuel (.local (s.wrapper c.page))) s fun _ s' =>
      InsertPost T k H s R (h + 1) ⟨p, K1 ++ K2, P ++ c :: S⟩ (K1 ++ K2).length s' := by
  obtain ⟨hszP, hszc⟩ := sizedBelow_append.mp hsz
  obtain ⟨hszc, hszS⟩ := sizedBelow_cons.mp hszc
  obtain ⟨⟨hlo, hhi⟩, hbelow⟩ := sized_iff.mp hszc
  refine (ih s _ _ c hs.kid hbelow hroom fun hh => (hmin hh).trans hlo).mono fun _ s' hpost => ?_
  obtain ⟨n, hn1, hn2, ref', c', hpage, hn, hf, hs', hsz', hins⟩ := hpost
  refine ⟨ref, ⟨p, K1 ++ K2, P ++ c' :: S⟩, rfl, rfl, hf.of_around, hs.putBack hf hs' hpage, ?_, ?_⟩
  · exact sizedBelow_append.mpr ⟨hszP, sizedBelow_cons.mpr ⟨sized_iff.mpr
      ⟨⟨by omega, by omega⟩, hsz'⟩, hszS⟩⟩
  · rw [tokens_around hP, tokens_around hP]
    refine (hins.imp fun h => ?_).context hb
    exact (sorted_append.mp (sorted_append.mp (hsorted h)).2.1).1

/-- The insertion below the right one of two children with `x` between them. -/
theorem insertRightKid (hlt : StrictWeak T.compare)
    (hs : Stands s R ref (h + 1) ⟨p, K1 ++ x :: K2, P ++ ([c, d] ++ S)⟩)
    (hP : P.length = K1.length) (hsz : SizedBelow T (h + 1) (P ++ ([c, d] ++ S)))
    (hroom : d.keys.length < T.maxOf h) (hmin : h ≠ 0 → 1 ≤ T.minOf h) (ih : InsertsAt T k h fuel)
    (hsorted : H → Sorted T.compare
      ((⟨p, K1 ++ x :: K2, P ++ ([c, d] ++ S)⟩ : Node κ).tokens T (h + 1)))
    (hb : H → Between T.compare k (tokensBefore T h P K1) (tokensAfter T h K2 S))
    (hx : T.compare k x = false) :
    Returns (insertNonFull T k fuel (.local (s.wrapper d.page))) s fun _ s' =>
      InsertPost T k H s R (h + 1) ⟨p, K1 ++ x :: K2, P ++ ([c, d] ++ S)⟩
        (K1.length + 1 + K2.length) s' := by
  have hlist : P ++ ([c, d] ++ S) = (P ++ [c]) ++ d :: S := by simp
  have hkeys : K1 ++ x :: K2 = (K1 ++ [x]) ++ K2 := by simp
  have hP' : (P ++ [c]).length = (K1 ++ [x]).length := by simp [hP]
  have htok : (⟨p, K1 ++ x :: K2, P ++ ([c, d] ++ S)⟩ : Node κ).tokens T (h + 1) =
      tokensBefore T h P K1 ++ ((c.tokens T h ++ T.sep x :: d.tokens T h) ++ tokensAfter T h K2 S) :=
    tokens_around₂ hP
  rw [hlist, hkeys] at hs hsorted htok ⊢
  rw [hlist] at hsz
  have hgoal := insertKid (H := H) hs hP' hsz hroom hmin ih
    (fun hH => by rw [← tokens_around hP']; exact hsorted hH)
    (fun hH => by
      rw [tokensBefore_concat hP]
      have hsort := hsorted hH
      rw [htok] at hsort
      exact (hb hH).right hlt hsort (by rwa [key_sep]))
  rwa [List.length_append, List.length_append] at hgoal

/-- The insertion below the left one of two children with `x` between them. -/
theorem insertLeftKid (hlt : StrictWeak T.compare)
    (hs : Stands s R ref (h + 1) ⟨p, K1 ++ x :: K2, P ++ ([c, d] ++ S)⟩)
    (hP : P.length = K1.length) (hsz : SizedBelow T (h + 1) (P ++ ([c, d] ++ S)))
    (hroom : c.keys.length < T.maxOf h) (hmin : h ≠ 0 → 1 ≤ T.minOf h) (ih : InsertsAt T k h fuel)
    (hsorted : H → Sorted T.compare
      ((⟨p, K1 ++ x :: K2, P ++ ([c, d] ++ S)⟩ : Node κ).tokens T (h + 1)))
    (hb : H → Between T.compare k (tokensBefore T h P K1) (tokensAfter T h K2 S))
    (hx : T.compare x k = false) :
    Returns (insertNonFull T k fuel (.local (s.wrapper c.page))) s fun _ s' =>
      InsertPost T k H s R (h + 1) ⟨p, K1 ++ x :: K2, P ++ ([c, d] ++ S)⟩
        (K1.length + 1 + K2.length) s' := by
  have htok : (⟨p, K1 ++ x :: K2, P ++ ([c, d] ++ S)⟩ : Node κ).tokens T (h + 1) =
      tokensBefore T h P K1 ++ ((c.tokens T h ++ T.sep x :: d.tokens T h) ++ tokensAfter T h K2 S) :=
    tokens_around₂ hP
  have hgoal := insertKid (H := H) hs hP hsz hroom hmin ih
    (fun hH => by rw [← tokens_around (p := p) hP]; exact hsorted hH)
    (fun hH => by
      have hsort := hsorted hH
      rw [htok] at hsort
      change Between _ _ _ (tokensAfter T h (x :: K2) (d :: S))
      rw [tokensAfter_cons]
      exact (hb hH).left hlt hsort (by rwa [key_sep]))
  rwa [List.length_append, List.length_cons, ← Nat.add_assoc, Nat.add_right_comm] at hgoal

/-- `insertNonFull` on a leaf that is not full. -/
theorem insertsAt_leaf (hlt : StrictWeak T.compare)
    (hslots : ∀ ref : PageRef κ, T.capacity 0 ref ≤ T.slots) :
    InsertsAt T k 0 (fuel + 1) := by
  intro s R ref t hs hsz hroom _
  obtain ⟨p, K, kids⟩ := t
  obtain rfl : kids = [] := hs.rep.below
  have hfull : isFull T (s.wrapper p) s = .ok (false, s) := by
    rw [← hs.value_eq, isFull_run hs.toHeld]
    simp only [beq_eq_false_iff_ne.mpr (Nat.ne_of_lt hroom)]
  have hon : (s.wrapper p).data.Holds true K [] := hs.rep.on
  have hlim : (s.wrapper p).data.keysNum + 1 ≤ T.slots := by
    rw [hon.keysNum_eq]
    exact Nat.lt_of_lt_of_le hroom (hslots ref)
  obtain ⟨A, B, d, hAB, hcut, hins, hd⟩ := hon.insertKey T.compare k hlim
  obtain ⟨hs', hf⟩ := hs.writeTop (show (⟨p, A ++ k :: B, []⟩ : Node κ).On 0 d from hd)
  have hwrite := writePage_run (hs.store.assign ref ⟨p, d⟩) (page_mem_add 0 ⟨p, K, []⟩ R) d
  unfold insertNonFull
  refine Returns.step (load_run s ref) ?_
  rw [hs.value_eq]
  refine Returns.step hfull ?_
  rw [if_neg Bool.false_ne_true, if_pos hon.leaf_eq]
  refine Returns.step (onPages_run hins s) (Returns.step (store_run s ref ⟨p, d⟩) ?_)
  refine ⟨(), _, hwrite, K.length + 1, by simp, by simp, ref.assign ⟨p, d⟩, ⟨p, A ++ k :: B, []⟩,
    rfl, ?_, hf, hs', trivial, A.map .record, B.map .record, ?_, ?_, ?_⟩
  · rw [hAB, List.length_append, List.length_append, List.length_cons]
    omega
  · rw [hAB]
    simp only [Node.tokens, List.map_append]
    exact Regroup.refl _
  · simp [Node.tokens]
  · exact fun hsorted => between_of_cut_leaf hlt hcut (by rwa [← hAB])

/-- The inner case of `insertNonFull` up to the call of `insertBelow`. -/
theorem insertsAt_inner (hslots : ∀ ref : PageRef κ, T.capacity (h + 1) ref ≤ T.slots)
    (hbelow : InsertsBelow T k h fuel) :
    InsertsAt T k (h + 1) (fuel + 1) := by
  intro s R ref t hs hsz hroom hone
  obtain ⟨p, K, kids⟩ := t
  have hfull : isFull T (s.wrapper p) s = .ok (false, s) := by
    rw [← hs.value_eq, isFull_run hs.toHeld]
    simp only [beq_eq_false_iff_ne.mpr (Nat.ne_of_lt hroom)]
  have hon := hs.rep.on
  have hleaf : (s.wrapper p).data.isLeaf = false := hon.leaf_eq
  have hlen : kids.length = K.length + 1 := hs.rep.length_kids
  have hKs : K.length ≤ T.slots := (Nat.le_of_lt hroom).trans (hslots ref)
  have hknum : (s.wrapper p).data.keysNum ≤ T.slots := by
    rw [show (s.wrapper p).data.keysNum = K.length from hon.keysNum_eq]
    exact hKs
  obtain ⟨K1, K2, hK, hcut, hupper⟩ := Page.Holds.upperBound T.compare k hon hknum
  obtain rfl : K = K1 ++ K2 := hK
  obtain ⟨P, c, S, rfl, hP⟩ := exists_kid hlen
  have hread := readPageFromChild_run (T := T) (w := s.wrapper p) (P := P) (c := c) (S := S) hs.store
    (kid_page_mem (by simp)) hon rfl hKs
  rw [hP] at hread
  unfold insertNonFull
  refine Returns.step (load_run s ref) ?_
  rw [hs.value_eq]
  refine Returns.step hfull ?_
  rw [if_neg Bool.false_ne_true, if_neg (by simp [hleaf])]
  exact Returns.step (onPages_run hupper s) (Returns.step hread
    (hbelow s R ref p K1 K2 P c S hs hP hcut hsz hroom (hone (Nat.succ_ne_zero h))))

end

end BTreesMods
