import BTreesMods.Insertion.Root

/-!
# Insertion into a B-tree or B+-tree

`insertNonFull` splits a full child before it descends into one of the halves, so it never meets a
full page; `insert` splits a full root first.
-/

namespace BTreesMods

variable {κ : Type} [Inhabited κ]

section

variable {T : Cfg κ} {s : BTree κ} {h fuel : ℕ} {k : κ} {t : Node κ}

/-- `BaseBTree::insertNonFull` below the child where the scan stops. -/
theorem insertBelow_spec (hT : T.Valid) (hk : T.treeType.splitsOne = true)
    (hlt : StrictWeak T.compare) (ih : InsertsAt T k h fuel) : InsertsBelow T k h fuel := by
  intro s R ref p K1 K2 P c S hs hP hcut hsz hroom _
  have hbelow : insertBelow T = BaseBTree.insertBelow T := by
    unfold insertBelow
    cases hk' : T.treeType <;> simp_all [TreeType.splitsOne]
  have hmin : h ≠ 0 → 1 ≤ T.minOf h := fun _ => one_le_minOf hT h
  have hbetween : Sorted T.compare ((⟨p, K1 ++ K2, P ++ c :: S⟩ : Node κ).tokens T (h + 1)) →
      Between T.compare k (tokensBefore T h P K1) (tokensAfter T h K2 S) := fun hH => by
    rw [tokens_around hP] at hH
    exact between_of_cut hlt hP hcut hH
  obtain ⟨hszP, hszc⟩ := sizedBelow_append.mp hsz
  obtain ⟨hszc, hszS⟩ := sizedBelow_cons.mp hszc
  obtain ⟨⟨hlo, hhi⟩, hszk⟩ := sized_iff.mp hszc
  rw [hbelow]
  unfold BaseBTree.insertBelow
  refine Returns.step (isFull_run hs.kid.toHeld) ?_
  by_cases hfull : c.keys.length = T.maxOf h
  · -- the child is split first
    rw [if_pos (by simpa [Cfg.capacity] using hfull)]
    refine (splitChild_spec hT hk hs.toHeld hP hroom hfull (Or.inr rfl)).bind fun r s1 hpost => ?_
    obtain ⟨ref', q, x, A, B, CA, CB, rfl, hf, hs1, hkids, hA, hB, hreg⟩ := hpost
    have hsz1 : SizedBelow T (h + 1) (P ++ ([⟨c.page, A, CA⟩, ⟨q, B, CB⟩] ++ S)) := by
      rw [hkids, sizedBelow_append] at hszk
      refine sizedBelow_append.mpr ⟨hszP, sizedBelow_cons.mpr ⟨?_, sizedBelow_cons.mpr ⟨?_, hszS⟩⟩⟩
      · exact sized_iff.mpr ⟨⟨hA.1, Nat.le_of_lt hA.2⟩, hszk.1⟩
      · exact sized_iff.mpr ⟨⟨hB.1, Nat.le_of_lt hB.2⟩, hszk.2⟩
    have hreg1 : Regroup ((⟨p, K1 ++ K2, P ++ c :: S⟩ : Node κ).tokens T (h + 1))
        ((⟨p, K1 ++ x :: K2, P ++ ([⟨c.page, A, CA⟩, ⟨q, B, CB⟩] ++ S)⟩ : Node κ).tokens T
          (h + 1)) := by
      rw [tokens_around hP]
      exact (hreg.context _ _).trans (by rw [← tokens_around₂ hP]; exact Regroup.refl _)
    have hmedian : (s1.wrapper p).data.getKey T.slots K1.length = .ok x := by
      have hon := hs1.rep.on
      refine Page.Holds.getKey hon ?_
      rw [show (s1.wrapper p).data.keysNum = (K1 ++ x :: K2).length from hon.keysNum_eq]
      have := capacity_le_slots hT (h + 1) ref
      rw [List.length_append] at hroom
      rw [List.length_append, List.length_cons]
      omega
    refine Returns.step (load_run s1 ref') ?_
    rw [hs1.value_eq]
    refine Returns.step (onPages_run hmedian s1) ?_
    have hfinish : ∀ s', InsertPost T k (Sorted T.compare
          ((⟨p, K1 ++ K2, P ++ c :: S⟩ : Node κ).tokens T (h + 1))) s1 R (h + 1)
          ⟨p, K1 ++ x :: K2, P ++ ([⟨c.page, A, CA⟩, ⟨q, B, CB⟩] ++ S)⟩ (K1.length + 1 + K2.length)
          s' → ∃ n, (K1 ++ K2).length ≤ n ∧ n ≤ (K1 ++ K2).length + 1 ∧
        InsertPost T k (Sorted T.compare ((⟨p, K1 ++ K2, P ++ c :: S⟩ : Node κ).tokens T (h + 1)))
          s R (h + 1) ⟨p, K1 ++ K2, P ++ c :: S⟩ n s' := fun s' hpost =>
      ⟨K1.length + 1 + K2.length, by rw [List.length_append]; omega,
        by rw [List.length_append]; omega, InsertPost.of_regroup hreg1 hf rfl hpost⟩
    by_cases hx : T.compare x k
    · rw [if_pos hx]
      exact (insertRightKid hlt hs1 hP hsz1 hB.2 hmin ih (fun hH => hreg1.sorted hlt hH) hbetween
        (hlt.asymm hx)).mono fun _ s' => hfinish s'
    · rw [if_neg hx]
      exact (insertLeftKid hlt hs1 hP hsz1 hA.2 hmin ih (fun hH => hreg1.sorted hlt hH) hbetween
        (by simpa using hx)).mono fun _ s' => hfinish s'
  · -- the child has room
    rw [if_neg (by simpa [Cfg.capacity] using hfull)]
    exact (insertKid hs hP hsz (by omega) hmin ih (fun hH => by rwa [← tokens_around (p := p) hP])
      hbetween).mono fun _ s' hpost => ⟨_, Nat.le_refl _, Nat.le_succ _, hpost⟩

/-! ## `insert` -/

theorem splitsRoot (hT : T.Valid) (hk : T.treeType.splitsOne = true) : SplitsRoot T := by
  intro s R h q t hs hfull
  have hmax : T.maxRootOf h = T.maxOf h := by
    unfold Cfg.maxRootOf
    cases hk' : T.treeType <;> simp_all [TreeType.splitsOne]
  have hroom : 0 < T.capacity (h + 1) .rootPage := by
    have := two_le_maxRootOf hT (h + 1)
    change 0 < T.maxRootOf (h + 1)
    omega
  have hs' : Held s R .rootPage (h + 1) ⟨q, [] ++ [], [] ++ ([t] ++ [])⟩ := hs
  change Returns (splitChild T .rootPage ([] : List κ).length _) _ _
  exact splitChild_spec hT hk hs' rfl hroom
    (hfull.trans hmax) (Or.inl rfl)

/-- Insertion into a well-formed B-tree or B+-tree throws nothing, adds one record and leaves the
tree well formed, one level higher exactly when the root was full. No key is put into a full page:
the two functions that put keys into pages throw on a full one. -/
theorem insert_wellFormed (hT : T.Valid) (hk : T.treeType.splitsOne = true)
    (hlt : StrictWeak T.compare) (hw : WellFormed T s h t) (k : κ) :
    (Returns (insert T k) s fun _ s' => ∃ h' t', WellFormed T s' h' t' ∧
      (t'.records T h' : Multiset κ) = k ::ₘ (t.records T h : Multiset κ) ∧
      h' = if t.keys.length = T.maxRootOf h then h + 1 else h) ∧
    ∀ s₁ ref, isFull T (PageRef.value s₁ ref) s₁ = .ok (true, s₁) →
      (∀ fuel, insertNonFull T k (fuel + 1) ref s₁ =
        .error (.domainError "Node is full. Can't insert")) ∧
      ∀ i lw, splitChild T ref i lw s₁ =
        .error (.domainError "A parent node is full, so its child can't be splitted") := by
  constructor
  · obtain ⟨R, hs⟩ := hw.stands
    refine (insert_spec hT hlt (splitsRoot hT hk) (fun h fuel => insertBelow_spec hT hk hlt)
      hs hw.sized).mono fun _ s' ⟨h', t', hi⟩ => ?_
    obtain ⟨hw', hrecords⟩ := hi.wellFormed hT hlt hw
    exact ⟨h', t', hw', hrecords, hi.height_eq⟩
  · exact fun s₁ ref hfull => ⟨insertNonFull_full hfull, splitChild_full hfull⟩

end

/-- A B-tree of order 2 whose root page and second leaf are full. -/
def BTree.fullRoot : BTree ℕ := .ofPages 2 5 fun p =>
  if p = 1 then .filled [3, 6, 9] [2, 3, 4, 5] else if p = 2 then .filled [1, 2] []
  else if p = 3 then .filled [4, 5, 5] [] else if p = 4 then .filled [7, 8] [] else .filled [10] []

/-- Another 5 goes into it: the root page and the leaf are split. -/
theorem insert_wellFormed_fullRoot :
    Returns (insert (natCfg .bTree 2) 5) BTree.fullRoot fun _ s' => ∃ h' t',
      WellFormed (natCfg .bTree 2) s' h' t' ∧ (t'.records (natCfg .bTree 2) h' : Multiset ℕ) =
        5 ::ₘ {1, 2, 3, 4, 5, 5, 6, 7, 8, 9, 10} ∧ h' = 2 := by
  have hw : WellFormed (natCfg .bTree 2) BTree.fullRoot 1 ⟨1, [3, 6, 9],
      [⟨2, [1, 2], []⟩, ⟨3, [4, 5, 5], []⟩, ⟨4, [7, 8], []⟩, ⟨5, [10], []⟩]⟩ :=
    ofPages_wellFormed rfl rfl (by decide) (by decide) (by decide) (by decide) (by
      unfold Sorted
      decide)
  exact (insert_wellFormed ⟨2, 4, rfl⟩ rfl (natCfg_strictWeak _ _) hw 5).1

end BTreesMods
