import BTreesMods.Insertion.Descend
import BTreesMods.Tree.WellFormed

/-!
# Insertion at the root

`insert` puts a new page above a full root, splits the old root below it, and starts the descent at
the root page. What is left to the four classes is how `splitChild` splits the old root
(`SplitsRoot`) and how `insertNonFull` goes on below an inner page (`InsertsBelow`).
-/

namespace BTreesMods

variable {κ : Type}

variable [Inhabited κ]

/-! ## The descent -/

/-- What `insertNonFull` does to every tree that is low enough for the recursion. -/
theorem InsertsAt.of_below {T : Cfg κ} {k : κ} {h fuel : ℕ} (hT : T.Valid)
    (hlt : StrictWeak T.compare)
    (hbelow : ∀ h fuel, InsertsAt T k h fuel → InsertsBelow T k h fuel) (hfuel : h < fuel) :
    InsertsAt T k h fuel := by
  induction fuel generalizing h with
  | zero => omega
  | succ fuel ih =>
    cases h with
    | zero => exact insertsAt_leaf hlt (capacity_le_slots hT 0)
    | succ h =>
      exact insertsAt_inner (capacity_le_slots hT (h + 1)) (hbelow h fuel (ih (by omega)))

/-! ## A new root -/

section

variable {T : Cfg κ} {s : BTree κ} {R : Multiset ℕ} {h : ℕ} {t : Node κ} {k : κ}

/-- `splitChild` splits an old root of `n` keys below a root without keys. -/
def SplitsRoot (T : Cfg κ) : Prop :=
  ∀ s R h q t, Held s R .rootPage (h + 1) ⟨q, [], [t]⟩ → t.keys.length = T.maxRootOf h →
    Returns (splitChild T .rootPage 0 ⟨0, Page.cleared 0 false⟩) s
      (SplitChildPost T s R h q [] [] [] [] t)

/-- What `insert` has done before the descent. -/
structure RootSplit (T : Cfg κ) (s : BTree κ) (R : Multiset ℕ) (h : ℕ) (t : Node κ) (s' : BTree κ)
    (t' : Node κ) : Prop where
  stands : Stands s' R .rootPage (h + 1) t'
  length_keys : t'.keys.length = 1
  below : SizedBelow T (h + 1) t'.kids
  regroup : Regroup (t.tokens T h) (t'.tokens T (h + 1))
  kept : Kept s s'

/-- `insert` on a full root, up to the descent. -/
theorem splitRoot_spec (hsplit : SplitsRoot T) (hs : Stands s R .rootPage h t)
    (hfull : t.keys.length = T.maxRootOf h) (hsz : SizedBelow T h t.kids) :
    Returns (splitRoot T) s fun _ s' => ∃ t', RootSplit T s R h t s' t' := by
  obtain ⟨q, s1, halloc, hq, hst1, hf1, -, -⟩ := allocPage_run hs.store 0 false
  have hroot : s.rootPageNum = t.page := hs.at_page.root
  have hq0 : q ≠ 0 := by
    have := (hst1.mem_range (p := q) (by simp)).1
    omega
  -- the new root page, with the old root as its only child
  have hcur : (Page.cleared 0 false : Page κ).setCursor T.slots 0 s.rootPageNum =
      .ok { Page.cleared 0 false with cursor := Function.update (fun _ => 0) 0 s.rootPageNum } :=
    Page.setCursor_ok (Nat.zero_le _) (Nat.zero_le _)
  set d : Page κ := { Page.cleared 0 false with cursor := Function.update (fun _ => 0) 0 s.rootPageNum }
  have hon : (⟨q, [], [t]⟩ : Node κ).On (h + 1) d := by
    refine ⟨rfl, rfl, ?_⟩
    change slice (Function.update (fun _ => 0) 0 s.rootPageNum) 0 1 = _
    rw [slice_one, Function.update_self, hroot]
    rfl
  have hst2 : Store ((s1.assign .rootPage ⟨q, d⟩).withRoot q) ({q} + (t.pages h + R)) :=
    ⟨hst1.all_pages, hst1.counter⟩
  have hheld : Held ((s1.assign .rootPage ⟨q, d⟩).withRoot q) R .rootPage (h + 1) ⟨q, [], [t]⟩ := by
    refine ⟨?_, ⟨rfl, rfl⟩, hon, ?_⟩
    · rwa [pages_eq, pagesBelow_cons, pagesBelow_nil, add_zero, add_assoc]
    · have hrep : Rep s1.stream.page h t :=
        hs.rep.congr fun p hp => hf1.page_eq p (Multiset.mem_add.mpr (Or.inl hp))
      exact repBelow_cons.mpr ⟨hrep, repBelow_nil⟩
  have hmodify : (modify fun s => { s with rootPage := ⟨q, d⟩ } : TreeM κ Unit) s1 =
      .ok ((), s1.assign .rootPage ⟨q, d⟩) := rfl
  unfold splitRoot
  refine Returns.get (Returns.step halloc (Returns.step (onPages_run hcur s1)
    (Returns.step hmodify (Returns.step (setAsRoot_run _ hq0) ?_))))
  refine (hsplit _ R h q t hheld hfull).bind fun r s' hpost => Returns.pure ?_
  obtain ⟨ref', q', x, A, B, CA, CB, -, hf, hst, hkids, hA, hB, hreg⟩ := hpost
  obtain rfl : ref' = .rootPage := hst.ref_eq hf.rootPageNum_eq
  refine ⟨_, hst, rfl, ?_, ?_, hf1.toSame.kept.trans
    (((same_assign s1 .rootPage ⟨q, d⟩).kept.trans (kept_withRoot _ q)).trans hf.toSame.kept)⟩
  · rw [hkids, sizedBelow_append] at hsz
    exact sizedBelow_cons.mpr ⟨sized_iff.mpr ⟨⟨hA.1, Nat.le_of_lt hA.2⟩, hsz.1⟩,
      sizedBelow_cons.mpr ⟨sized_iff.mpr ⟨⟨hB.1, Nat.le_of_lt hB.2⟩, hsz.2⟩, sizedBelow_nil⟩⟩
  · have htok := tokens_around₂ (T := T) (h := h) (p := q) (P := []) (K := []) (L := []) (S := [])
      (c := ⟨t.page, A, CA⟩) (d := ⟨q', B, CB⟩) (m := x) rfl
    simp only [List.nil_append, List.append_nil, tokensBefore, tokensAfter, List.map_nil, before,
      after] at htok hreg ⊢
    rw [htok]
    exact hreg

/-- What `insert` has done to a tree: a record is inserted, in order if the tree was. -/
structure InsertedInto (T : Cfg κ) (k : κ) (s : BTree κ) (R : Multiset ℕ) (h : ℕ) (t : Node κ)
    (s' : BTree κ) (h' : ℕ) (t' : Node κ) : Prop where
  stands : Stands s' R .rootPage h' t'
  sized : t'.RootSized T h'
  inserted : Inserted (Sorted T.compare (t.tokens T h)) T.compare k (t.tokens T h) (t'.tokens T h')
  kept : Kept s s'
  height_eq : h' = if t.keys.length = T.maxRootOf h then h + 1 else h

/-- `insert`, with what the classes leave open. -/
theorem insert_spec (hT : T.Valid) (hlt : StrictWeak T.compare) (hsplit : SplitsRoot T)
    (hbelow : ∀ h fuel, InsertsAt T k h fuel → InsertsBelow T k h fuel)
    (hs : Stands s R .rootPage h t) (hsz : t.RootSized T h) :
    Returns (insert T k) s fun _ s' => ∃ h' t', InsertedInto T k s R h t s' h' t' := by
  have hins : ∀ {s1 h1 t1}, Stands s1 R .rootPage h1 t1 → SizedBelow T h1 t1.kids →
      t1.keys.length < T.maxRootOf h1 → (h1 ≠ 0 → 1 ≤ t1.keys.length) →
      Returns (insertNonFull T k (s1.lastPageNum + 1) .rootPage) s1 fun _ s' => ∃ t',
        Stands s' R .rootPage h1 t' ∧ t'.RootSized T h1 ∧ Kept s1 s' ∧
        Inserted (Sorted T.compare (t1.tokens T h1)) T.compare k (t1.tokens T h1) (t'.tokens T h1) := by
    intro s1 h1 t1 hs1 hbelow1 hroom hpos
    have hat := InsertsAt.of_below (k := k) hT hlt hbelow
      (hs1.store.height_lt hs1.on hs1.below)
    refine (hat s1 R .rootPage t1 hs1 hbelow1 hroom hpos).mono fun _ s' hpost => ?_
    obtain ⟨n, hn1, hn2, ref', t', hpage, hn, hf, hs', hsz', hinserted⟩ := hpost
    have hroot : s'.rootPageNum = t'.page := by
      rw [hf.rootPageNum_eq, hpage]
      exact hs1.at_page.root
    obtain rfl : ref' = .rootPage := hs'.ref_eq hroot
    exact ⟨t', hs', ⟨by omega, fun hh => by have := hpos hh; omega, hsz'⟩, hf.toSame.kept, hinserted⟩
  unfold insert
  refine Returns.get ?_
  have hfull := isFull_run (T := T) hs.toHeld
  refine Returns.step hfull ?_
  by_cases hlen : t.keys.length = T.maxRootOf h
  · -- a new root, one level higher
    rw [if_pos (by simpa [Cfg.capacity] using hlen)]
    refine (splitRoot_spec hsplit hs hlen hsz.below).bind fun _ s1 hsplit1 => ?_
    obtain ⟨t1, h1⟩ := hsplit1
    apply Returns.get
    have hroom : t1.keys.length < T.maxRootOf (h + 1) := by
      rw [h1.length_keys]
      exact two_le_maxRootOf hT (h + 1)
    refine (hins h1.stands h1.below hroom fun _ => h1.length_keys.ge).mono fun _ s' hpost => ?_
    obtain ⟨t', hs', hsz', hkept, hinserted⟩ := hpost
    exact ⟨h + 1, t', hs', hsz', (hinserted.imp fun hH => h1.regroup.sorted hlt hH).of_regroup
      h1.regroup, h1.kept.trans hkept, by rw [if_pos hlen]⟩
  · rw [if_neg (by simpa [Cfg.capacity] using hlen)]
    refine Returns.step rfl (Returns.get ?_)
    refine (hins hs hsz.below (by have := hsz.le_max; omega) hsz.pos).mono fun _ s' hpost => ?_
    obtain ⟨t', hs', hsz', hkept, hinserted⟩ := hpost
    exact ⟨h, t', hs', hsz', hinserted, hkept, by rw [if_neg hlen]⟩

omit [Inhabited κ] in
/-- Insertion keeps a tree well formed and adds one record. -/
theorem InsertedInto.wellFormed {s' : BTree κ} {h' : ℕ} {t' : Node κ} (hT : T.Valid)
    (hlt : StrictWeak T.compare) (hw : WellFormed T s h t)
    (hi : InsertedInto T k s R h t s' h' t') :
    WellFormed T s' h' t' ∧ (t'.records T h' : Multiset κ) = k ::ₘ (t.records T h : Multiset κ) := by
  have hs' := hi.stands
  have hroot : s'.rootPageNum = t'.page := hs'.at_page.root
  have hsorted : Sorted T.compare (t'.tokens T h') := hi.inserted.sorted hlt hw.sorted hw.sorted
  refine ⟨⟨hroot.symm, ?_, hs'.rep, ⟨R, hs'.store⟩, hi.sized, hsorted, fun hrouters => ?_⟩, ?_⟩
  · rw [hroot]
    exact hs'.value_eq
  · refine routersFit_of_routed hT hlt hrouters hs'.rep hi.sized.below hsorted ?_
    exact hi.inserted.routed hlt hw.sorted
      (routed_tokens hT hlt hw.rep hw.sized.below hw.sorted (hw.routers hrouters))
  · rw [Multiset.cons_coe, Multiset.coe_eq_coe]
    exact hi.inserted.records_perm

/-! ## Full pages -/

/-- `insertNonFull` throws on a full page. -/
theorem insertNonFull_full {ref : PageRef κ} (hfull : isFull T (ref.value s) s = .ok (true, s))
    (fuel : ℕ) : insertNonFull T k (fuel + 1) ref s =
      .error (.domainError "Node is full. Can't insert") := by
  unfold insertNonFull
  rw [bind_run (load_run s ref), bind_run hfull]
  rfl

/-- `splitChild` throws on a full parent. -/
theorem splitChild_full {ref : PageRef κ} (hfull : isFull T (ref.value s) s = .ok (true, s)) (i : ℕ)
    (lw : PageWrapper κ) : splitChild T ref i lw s =
      .error (.domainError "A parent node is full, so its child can't be splitted") := by
  have hhead : splitChildHead T (ref.value s) i lw s =
      .error (.domainError "A parent node is full, so its child can't be splitted") := by
    unfold splitChildHead
    rw [bind_run hfull]
    rfl
  have hbind : ∀ {α : Type} (f : PageWrapper κ → TreeM κ α),
      (splitChildHead T (ref.value s) i lw >>= f) s =
        .error (.domainError "A parent node is full, so its child can't be splitted") := fun f =>
    bind_error hhead f
  cases hk : T.treeType with
  | bTree =>
    simp only [splitChild, hk, BaseBTree.splitChild]
    exact (bind_run (load_run s ref)).trans (hbind _)
  | bPlusTree =>
    simp only [splitChild, hk, BaseBPlusTree.splitChild]
    exact (bind_run (load_run s ref)).trans (hbind _)
  | bStarTree =>
    simp only [splitChild, hk, BaseBStarTree.splitChild]
    exact (bind_run (load_run s ref)).trans (hbind _)
  | bStarPlusTree =>
    simp only [splitChild, hk, BaseBStarPlusTree.splitChild]
    exact (bind_run (load_run s ref)).trans (hbind _)

end

end BTreesMods
