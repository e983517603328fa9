import BTreesMods.Removal.Ready
import BTreesMods.Tree.Separated

/-!
# Loans between siblings in the trees with routers

`borrow` takes a key for a minimal child from a sibling that has one to spare, and the child at the end
of the sibling, and writes both pages. It does not write their parent: the stored router between them
stays, and it does not separate the records that changed sides (`loan_not_separated`).
-/

namespace BTreesMods

variable {κ : Type}

section

variable {T : Cfg κ} {s : BTree κ} {R : Multiset ℕ} {ref : PageRef κ} {h p q : ℕ} {c d c' d' : Node κ}
  {K1 K2 LK RK : List κ} {P S X : List (Node κ)} {x y : κ} {cd dd : Page κ}

/-! ## Two children that are written without their parent -/

/-- Two children of a node have been written, and the node has not. -/
theorem PairStep.rep (hs : Stands s R ref (h + 1) ⟨p, K1 ++ x :: K2, P ++ ([c, d] ++ S)⟩)
    (hpair : PairStep h p K1 K2 P S c d (s.wrapper p).data cd dd c' d' x) :
    Rep ((s.write c.page cd).write d.page dd).stream.page (h + 1)
      ⟨p, K1 ++ x :: K2, P ++ ([c', d'] ++ S)⟩ := by
  obtain ⟨hwritten, -, -⟩ := hpair.commit hs.toHeld (List.Perm.refl _)
  refine hwritten.stands.rep.congr fun z _ => ?_
  have hne := hs.toHeld.nodup_mid
  simp only [List.map_cons, List.map_nil, List.nodup_cons, List.mem_cons, List.not_mem_nil, or_false,
    not_or] at hne
  obtain ⟨⟨hpc, hpd⟩, -⟩ := hne
  simp only [BTree.commit, List.foldl_cons, List.foldl_nil, write_page, assign_stream]
  by_cases hz : z = p
  · subst hz
    rw [Function.update_self, Function.update_of_ne hpd, Function.update_of_ne hpc]
    rfl
  · rw [Function.update_of_ne hz]

/-- A node whose children are on the same pages is on the same page. -/
theorem Stands.pair_on (hs : Stands s R ref (h + 1) ⟨p, K1 ++ x :: K2, P ++ ([c, d] ++ S)⟩)
    (hc : c'.page = c.page) (hd : d'.page = d.page) :
    (⟨p, K1 ++ x :: K2, P ++ ([c', d'] ++ S)⟩ : Node κ).On (h + 1) (s.wrapper p).data := by
  have hon := hs.holds_pair.1
  rw [Node.On]
  simpa [hc, hd] using hon

/-! ## Records that change sides -/

theorem tokens_cons_key {r : ℕ} (hX : h ≠ 0 → X.length = 1) :
    (⟨q, y :: d.keys, X ++ d.kids⟩ : Node κ).tokens T h =
      (⟨r, [], X⟩ : Node κ).tokens T h ++ T.tokenAt h y :: d.tokens T h := by
  obtain ⟨z, DK, DC⟩ := d
  exact tokens_cut (A := []) hX

theorem tokens_concat_key {r : ℕ} (hc : h ≠ 0 → c.kids.length = c.keys.length + 1) :
    (⟨q, c.keys ++ [y], c.kids ++ X⟩ : Node κ).tokens T h =
      c.tokens T h ++ T.tokenAt h y :: (⟨r, [], X⟩ : Node κ).tokens T h := by
  obtain ⟨z, CK, CC⟩ := c
  exact tokens_cut hc

/-- Some record is in a subtree that changes sides, or is the key that does. -/
theorem exists_record_moved (hT : T.Valid) {page : ℕ → Page κ} (hrep : RepBelow page h X)
    (hsz : SizedBelow T h X) (hX : h ≠ 0 → X.length = 1) :
    ∃ r, Token.record r ∈ T.tokenAt h y :: (⟨q, [], X⟩ : Node κ).tokens T h := by
  cases h with
  | zero => exact ⟨y, by simp [Cfg.tokenAt]⟩
  | succ h =>
    obtain ⟨e, rfl⟩ := List.length_eq_one_iff.mp (hX (Nat.succ_ne_zero h))
    have he : Rep page h e := (repBelow_cons.mp hrep).1
    obtain ⟨⟨r, us, hr⟩, -⟩ := enclosed_tokens hT he (hsz e (by simp))
    refine ⟨r, List.mem_cons_of_mem _ ?_⟩
    rw [Node.tokens, List.map_singleton, List.map_nil, hr]
    simp [weave]

/-- The stored router does not separate a record that has changed sides. -/
theorem loan_not_separated {r : κ} (hrouters : T.treeType.hasRouters = true) (hP : P.length = K1.length)
    (hsep : Separated T.compare ((⟨p, K1 ++ x :: K2, P ++ ([c, d] ++ S)⟩ : Node κ).tokens T (h + 1)))
    (hr : (Token.record r ∈ c.tokens T h ∧ Token.record r ∈ d'.tokens T h) ∨
      (Token.record r ∈ d.tokens T h ∧ Token.record r ∈ c'.tokens T h)) :
    ¬Separated T.compare ((⟨p, K1 ++ x :: K2, P ++ ([c', d'] ++ S)⟩ : Node κ).tokens T (h + 1)) := by
  intro hnew
  have hold := tokens_around₂ (T := T) (h := h) (p := p) (m := x) (L := K2) (S := S) (c := c) (d := d) hP
  have htok := tokens_around₂ (T := T) (h := h) (p := p) (m := x) (L := K2) (S := S) (c := c') (d := d') hP
  rw [Cfg.sep, if_pos hrouters] at hold htok
  have hsep' := hold ▸ hsep
  have hnew' := htok ▸ hnew
  rcases hr with ⟨hr, hr'⟩ | ⟨hr, hr'⟩
  · exact Bool.false_ne_true ((hsep'.le_router hr).symm.trans (hnew'.router_lt hr'))
  · exact Bool.false_ne_true ((hnew'.le_router hr').symm.trans (hsep'.router_lt hr))

/-! ## The loans -/

/-- A loan between two siblings, after both are written: the stored routers do not separate. -/
def Lent (T : Cfg κ) (s : BTree κ) (h p : ℕ) (s1 : BTree κ) : Prop :=
  s1.rootPageNum = s.rootPageNum ∧ ∃ t : Node κ, t.page = p ∧ Rep s1.stream.page (h + 1) t ∧
    ¬Separated T.compare (t.tokens T (h + 1))

/-- The page bytes of a loan from the left sibling. -/
theorem borrowLeft_lent (hT : T.Valid) (hrouters : T.treeType.hasRouters = true)
    (hs : Stands s R ref (h + 1) ⟨p, K1 ++ x :: K2, P ++ ([c, d] ++ S)⟩) (hP : P.length = K1.length)
    (hsz : SizedBelow T (h + 1) (P ++ ([c, d] ++ S))) (hc : c.keys ≠ [])
    (hdslots : d.keys.length + 1 ≤ T.slots)
    (hsep : Separated T.compare ((⟨p, K1 ++ x :: K2, P ++ ([c, d] ++ S)⟩ : Node κ).tokens T (h + 1))) :
    ∃ cd dd, borrowLeftPages T.slots (s.wrapper c.page).data (s.wrapper d.page).data d.keys.length =
        .ok (cd, dd) ∧ Lent T s h p ((s.write c.page cd).write d.page dd) := by
  obtain ⟨-, hrc, hrd⟩ := hs.holds_pair
  obtain ⟨LK, y, hck⟩ := (List.eq_nil_or_concat' c.keys).resolve_left hc
  obtain ⟨LC, X, hkids, hLC, hX⟩ := hrc.cut_last hck
  obtain ⟨⟨-, hchi⟩, hszc⟩ := sized_iff.mp (hsz c (by simp))
  have hleft : (s.wrapper c.page).data.Holds (h == 0) (LK ++ [y])
      (LC.map Node.page ++ X.map Node.page) := by
    have := hrc.on
    rwa [Node.On, hck, hkids, List.map_append] at this
  have hchild : (s.wrapper d.page).data.Holds (h == 0) d.keys (d.kids.map Node.page) := hrd.on
  obtain ⟨cd, dd, hrun, hcd, hdd⟩ := borrowLeftPages_spec hleft
    (by
      rw [hleft.keysNum_eq, ← hck]
      exact hchi.trans (maxOf_le_slots hT h))
    hchild rfl hdslots (fun hh => by simpa using hX (by simpa using hh))
  have hpair : PairStep h p K1 K2 P S c d (s.wrapper p).data cd dd ⟨c.page, LK, LC⟩
      ⟨d.page, y :: d.keys, X ++ d.kids⟩ x := by
    refine ⟨hs.pair_on rfl rfl, hcd, ?_, rfl, rfl, by simp [hkids]⟩
    rw [Node.On, List.map_append]
    exact hdd
  -- the key that changes sides and the subtree in front of it
  have hbelow : RepBelow s.stream.page h X := by
    have := hrc.below
    rw [hkids] at this
    exact (repBelow_append.mp this).2
  have hszX : SizedBelow T h X := by
    rw [hkids] at hszc
    exact (sizedBelow_append.mp hszc).2
  obtain ⟨r, hr⟩ := exists_record_moved (q := c.page) (y := y) hT hbelow hszX hX
  have hold : c.tokens T h = (⟨c.page, LK, LC⟩ : Node κ).tokens T h ++ T.tokenAt h y ::
      (⟨c.page, [], X⟩ : Node κ).tokens T h := by
    rw [node_eq c hck hkids]
    exact tokens_cut hLC
  have hnew : (⟨d.page, y :: d.keys, X ++ d.kids⟩ : Node κ).tokens T h =
      (⟨c.page, [], X⟩ : Node κ).tokens T h ++ T.tokenAt h y :: d.tokens T h := tokens_cons_key hX
  refine ⟨cd, dd, hrun, rfl, _, rfl, hpair.rep hs, loan_not_separated (r := r) hrouters hP hsep (Or.inl ⟨?_, ?_⟩)⟩
  · rw [hold]
    exact List.mem_append_right _ hr
  · rw [hnew, List.mem_append, List.mem_cons]
    rcases List.mem_cons.mp hr with hr | hr
    · exact Or.inr (Or.inl hr)
    · exact Or.inl hr

/-- The page bytes of a loan from the right sibling. -/
theorem borrowRight_lent (hT : T.Valid) (hrouters : T.treeType.hasRouters = true)
    (hs : Stands s R ref (h + 1) ⟨p, K1 ++ x :: K2, P ++ ([c, d] ++ S)⟩) (hP : P.length = K1.length)
    (hslots : (K1 ++ x :: K2).length ≤ T.slots) (hsz : SizedBelow T (h + 1) (P ++ ([c, d] ++ S)))
    (hd : d.keys ≠ []) (hcslots : c.keys.length + 1 ≤ T.slots)
    (hsep : Separated T.compare ((⟨p, K1 ++ x :: K2, P ++ ([c, d] ++ S)⟩ : Node κ).tokens T (h + 1))) :
    ∃ dd cd nd, borrowRightPages T.slots (s.wrapper d.page).data (s.wrapper c.page).data
        (s.wrapper p).data K1.length c.keys.length = .ok (dd, cd, nd) ∧
      Lent T s h p (((s.assign ref ⟨p, nd⟩).write c.page cd).write d.page dd) := by
  obtain ⟨hnode, hrc, hrd⟩ := hs.holds_pair
  obtain ⟨y, RK, hdk⟩ := List.exists_cons_of_ne_nil hd
  obtain ⟨X, RC, hkids, hX, hRC⟩ := hrd.cut_first hdk
  obtain ⟨⟨-, hdhi⟩, hszd⟩ := sized_iff.mp (hsz d (by simp))
  have hright : (s.wrapper d.page).data.Holds (h == 0) (y :: RK)
      (X.map Node.page ++ RC.map Node.page) := by
    have := hrd.on
    rwa [Node.On, hdk, hkids, List.map_append] at this
  have hchild : (s.wrapper c.page).data.Holds (h == 0) c.keys (c.kids.map Node.page) := hrc.on
  obtain ⟨dd, cd, nd, hrun, hdd, hcd, -⟩ := borrowRightPages_spec hnode
    (hnode.keysNum_le hslots) hright
    (by
      rw [hright.keysNum_eq, ← hdk]
      exact hdhi.trans (maxOf_le_slots hT h))
    hchild rfl hcslots (fun hh => by simpa using hX (by simpa using hh))
  have hpair : PairStep h p K1 K2 P S c d (s.wrapper p).data cd dd
      ⟨c.page, c.keys ++ [y], c.kids ++ X⟩ ⟨d.page, RK, RC⟩ x := by
    refine ⟨hs.pair_on rfl rfl, ?_, hdd, rfl, rfl, by simp [hkids]⟩
    rw [Node.On, List.map_append]
    exact hcd
  -- the key that changes sides and the subtree in front of it
  have hbelow : RepBelow s.stream.page h X := by
    have := hrd.below
    rw [hkids] at this
    exact (repBelow_append.mp this).1
  have hszX : SizedBelow T h X := by
    rw [hkids] at hszd
    exact (sizedBelow_append.mp hszd).1
  obtain ⟨r, hr⟩ := exists_record_moved (q := c.page) (y := y) hT hbelow hszX hX
  have hold : d.tokens T h = (⟨c.page, [], X⟩ : Node κ).tokens T h ++ T.tokenAt h y ::
      (⟨d.page, RK, RC⟩ : Node κ).tokens T h := by
    rw [node_eq d hdk hkids]
    exact tokens_cut (A := []) hX
  have hnew : (⟨c.page, c.keys ++ [y], c.kids ++ X⟩ : Node κ).tokens T h =
      c.tokens T h ++ T.tokenAt h y :: (⟨c.page, [], X⟩ : Node κ).tokens T h :=
    tokens_concat_key hrc.length_kids_of_pos
  have hstream : (((s.assign ref ⟨p, nd⟩).write c.page cd).write d.page dd).stream.page =
      ((s.write c.page cd).write d.page dd).stream.page := by
    funext z
    simp only [write_page, assign_stream]
  refine ⟨dd, cd, nd, hrun, ?_, _, rfl, hstream ▸ hpair.rep hs,
    loan_not_separated (r := r) hrouters hP hsep (Or.inr ⟨?_, ?_⟩)⟩
  · cases ref with
    | rootPage => rfl
    | «local» pw => rfl
  · rw [hold, List.mem_append, List.mem_cons]
    rcases List.mem_cons.mp hr with hr | hr
    · exact Or.inr (Or.inl hr)
    · exact Or.inl hr
  · rw [hnew]
    exact List.mem_append_right _ hr

end

end BTreesMods
