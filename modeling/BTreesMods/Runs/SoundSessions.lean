import BTreesMods.Lookup.SearchAll
import BTreesMods.Runs.Sessions
import Mathlib.Data.Multiset.Filter

/-!
# Sessions against a multiset

A session whose calls are sound answers as the same session on a multiset of records does, and keeps the
tree in order, its pages accounted for and its file up to date. Every call is sound but a `remove` that
goes a wrong way: on a B-tree or B*-tree one that the conditions of the removal allow is sound
(`TreeCall.RemovesWell`, `BaseBStarTree.RemovesWell`), on a B+-tree or B*+-tree none is taken to be: sessions
on these only insert and search. On a B*-tree or B*+-tree the buffers for the keys of two full pages must be
below 2^31 bytes. The page storage is ideal (`BTree.IdealStorage`).

* `session_keeps_multiset`: the answers, and what the tree stores in the end.
* `session_owns_pages`: the pages of the tree and the free pages are all pages of the stream, each of them
  once, the root page in memory is the stored one, and loading the stream gives the same tree.
* `removeAll_removes`: `removeAll` on a tree in order.
-/

namespace BTreesMods

variable {κ : Type}

/-! ## Definitions -/

/-- What a call needs of the tree, by the class of the tree. -/
def TreeCall.Sound (T : Cfg κ) (c : TreeCall κ) (s : BTree κ) : Prop :=
  match T.treeType with
  | .bTree => c.RemovesWell T s
  | .bStarTree => BaseBStarTree.RemovesWell T c s
  | .bPlusTree | .bStarPlusTree => ∀ k, c ≠ .remove k

/-- The key that a call removes. -/
def SessionCall.removedKey : SessionCall κ → Option κ
  | call c => c.removedKey
  | _ => none

/-- What the calls of `remove` need that `removeAll` makes. -/
def RemovesAllWell [Inhabited κ] (T : Cfg κ) (k : κ) : ℕ → BTree κ → Prop
  | 0, _ => True
  | fuel + 1, s => (TreeCall.remove k).Sound T s ∧
      ∀ s', remove T k s = .ok (true, s') → RemovesAllWell T k fuel s'

/-- What a call of a session needs of the tree. -/
def SessionCall.Sound [Inhabited κ] (T : Cfg κ) : SessionCall κ → BTree κ → Prop
  | call c, s => c.Sound T s
  | removeAll k fuel, s => RemovesAllWell T k fuel s ∧ ∀ h t, t.page = s.rootPageNum →
      Rep s.stream.page h t → (t.records T h : Multiset κ).countP (fun x => T.isEqual k x = true) < fuel
  | _, _ => True

/-- The call on the multiset `M` of records, which answers `a` and leaves `M'`. -/
def SessionCall.OnMultiset (T : Cfg κ) (M : Multiset κ) : SessionCall κ → SessionAnswer κ →
    Multiset κ → Prop
  | call c, .answer a, M' => c.OnMultiset T.toComparator M a M'
  | searchAll k keys, .found keys' amount, M' => M' = M ∧ ∃ L : List κ, keys' = keys ++ L ∧
      amount = L.length ∧ (L : Multiset κ) = M.filter fun x => T.isEqual k x = true
  | removeAll k _, .removedAll amount, M' => M' = (M.filter fun x => T.isEqual k x = false) ∧
      amount = M.countP fun x => T.isEqual k x = true
  | reopen, .reopened params, M' => M' = M ∧ params = T.toParams
  | _, _, _ => False

/-- A well-formed tree whose pages are all pages that are not free, with the fields of its stream in
order. -/
structure Settled (T : Cfg κ) (order recSize : UInt16) (s : BTree κ) (h : ℕ) (t : Node κ) : Prop
    extends WellFormed T s h t, Opened T order recSize s where
  owned : Store s (t.pages h)

section

variable {T : Cfg κ} {s s' : BTree κ} {h : ℕ} {t : Node κ} {order recSize : UInt16} {k : κ}

theorem Settled.stands (hw : Settled T order recSize s h t) : Stands s 0 .rootPage h t := by
  have hvalue : PageRef.value s .rootPage = s.wrapper t.page := by
    rw [hw.page_eq]
    exact hw.rootPage_eq
  refine ⟨⟨by rw [add_zero]; exact hw.owned, ⟨?_, hw.page_eq.symm⟩, ?_, hw.rep.below⟩, hvalue⟩
  · rw [hvalue]
    rfl
  · rw [hvalue]
    exact hw.rep.on

/-- A call that removes nothing is sound. -/
theorem TreeCall.sound_of_keeps {c : TreeCall κ} (hc : c.removedKey = none) : c.Sound T s := by
  have hkeeps : ∀ k, c ≠ .remove k := by
    rintro k rfl
    cases hc
  unfold TreeCall.Sound
  cases T.treeType with
  | bTree =>
    cases c with
    | remove k => exact absurd rfl (hkeeps k)
    | insert k => trivial
    | search k => trivial
  | bStarTree =>
    cases c with
    | remove k => exact absurd rfl (hkeeps k)
    | insert k => trivial
    | search k => trivial
  | bPlusTree => exact hkeeps
  | bStarPlusTree => exact hkeeps

/-- Every call on a B-tree of at most two levels is sound. -/
theorem TreeCall.sound_of_low (hk : T.treeType = .bTree) (c : TreeCall κ) (hlow : s.Low) : c.Sound T s := by
  unfold TreeCall.Sound
  rw [hk]
  exact c.removesWell_of_low hlow

/-- A tree that a member function has left well formed. -/
theorem Settled.step {α : Type} [Inhabited κ] {x : TreeM κ α} [Stepwise StorageStep x] {a : α} {h' : ℕ}
    {t' : Node κ} (hw : Settled T order recSize s h t) (hrun : x s = .ok (a, s'))
    (hw' : WellFormed T s' h' t') (hs' : Stands s' 0 .rootPage h' t') : Settled T order recSize s' h' t' := by
  have hstore := hs'.store
  rw [add_zero] at hstore
  exact ⟨hw', (hw.toOpened.step hrun).1, hstore⟩

/-! ## Calls -/

variable [Inhabited κ]

theorem insert_settled (hT : T.Valid) (hlt : StrictWeak T.compare)
    (hfit : T.treeType.isStar = true → T.SplitBufferFits) (hw : Settled T order recSize s h t) (k : κ) :
    Returns (insert T k) s fun _ s' => ∃ h' t', Settled T order recSize s' h' t' ∧
      (t'.records T h' : Multiset κ) = k ::ₘ (t.records T h : Multiset κ) := by
  have hspec : Returns (insert T k) s fun _ s' => ∃ h' t', InsertedInto T k s 0 h t s' h' t' := by
    by_cases hone : T.treeType.splitsOne = true
    · exact insert_spec hT hlt (splitsRoot hT hone) (fun h fuel => insertBelow_spec hT hone hlt)
        hw.stands hw.sized
    · have hstar : T.treeType.isStar = true := by
        cases hk : T.treeType <;> simp_all [TreeType.splitsOne, TreeType.isStar]
      exact insert_spec hT hlt (star_splitsRoot hT hstar)
        (fun h fuel => star_insertBelow_spec hT hstar (hfit hstar) hlt) hw.stands hw.sized
  obtain ⟨_, s', hrun, h', t', hi⟩ := hspec
  obtain ⟨hw', hrecords⟩ := hi.wellFormed hT hlt hw.toWellFormed
  exact ⟨_, s', hrun, h', t', hw.step hrun hw' hi.stands, hrecords⟩

/-- A sound `remove` of the whole tree. -/
theorem remove_searched {R : Multiset ℕ} (hT : T.Valid) (hlt : StrictWeak T.compare) (heq : T.Equates)
    (hs : Stands s R .rootPage h t) (hsz : t.RootSized T h) (hsorted : Sorted T.compare (t.tokens T h))
    (hc : (TreeCall.remove k).Sound T s) : T.treeType.hasRouters = false ∧
      Returns (remove T k) s fun b s' => ∃ h' t', SearchedTree T k R h t b s' h' t' := by
  have hheight := hs.store.height_lt hs.on hs.below
  have hpage := hs.store.mem_range (page_mem_add h t R)
  have hroot : t.page = s.rootPageNum := hs.at_page.root.symm
  unfold TreeCall.Sound at hc
  cases hk : T.treeType with
  | bTree =>
    rw [hk] at hc
    obtain ⟨hat, hkeeps⟩ := hc h t hroot hs.rep
    refine ⟨rfl, Returns.get ?_⟩
    rw [removeFrom, hk]
    exact BaseBTree.removeFrom_root hT hk hlt heq (by omega) hs hsz hsorted hat hkeeps
  | bStarTree =>
    rw [hk] at hc
    obtain ⟨hat, hfit⟩ := hc h t hroot hs.rep
    refine ⟨rfl, Returns.get ?_⟩
    rw [removeFrom, hk]
    exact BaseBStarTree.removeFrom_root hT hk hlt heq (by omega) hfit hs hsz hsorted hat
  | bPlusTree =>
    rw [hk] at hc
    exact absurd rfl (hc k)
  | bStarPlusTree =>
    rw [hk] at hc
    exact absurd rfl (hc k)

theorem remove_wellFormed (hT : T.Valid) (hlt : StrictWeak T.compare) (heq : T.Equates)
    (hw : WellFormed T s h t) (hc : (TreeCall.remove k).Sound T s) :
    Returns (remove T k) s fun b s' => ∃ h' t', WellFormed T s' h' t' ∧
      (TreeCall.remove k).OnMultiset T.toComparator (t.records T h : Multiset κ) (.removed b)
        (t'.records T h' : Multiset κ) := by
  obtain ⟨R, hs⟩ := hw.stands
  obtain ⟨hrouters, hspec⟩ := remove_searched hT hlt heq hs hw.sized hw.sorted hc
  refine hspec.mono ?_
  rintro b s' ⟨h', t', hn⟩
  exact ⟨h', t', hn.stands.wellFormed hrouters hn.sized (hn.drops.sorted hw.sorted), hn.drops.onMultiset⟩

theorem remove_settled (hT : T.Valid) (hlt : StrictWeak T.compare) (heq : T.Equates)
    (hw : Settled T order recSize s h t) (hc : (TreeCall.remove k).Sound T s) :
    Returns (remove T k) s fun b s' => ∃ h' t', Settled T order recSize s' h' t' ∧
      (TreeCall.remove k).OnMultiset T.toComparator (t.records T h : Multiset κ) (.removed b)
        (t'.records T h' : Multiset κ) := by
  obtain ⟨hrouters, b, s', hrun, h', t', hn⟩ := remove_searched hT hlt heq hw.stands hw.sized hw.sorted hc
  have hw' := hn.stands.wellFormed hrouters hn.sized (hn.drops.sorted hw.sorted)
  exact ⟨b, s', hrun, h', t', hw.step hrun hw' hn.stands, hn.drops.onMultiset⟩

/-- A call on a tree in order is the call on the multiset of its records. -/
theorem TreeCall.settled (hT : T.Valid) (hlt : StrictWeak T.compare) (heq : T.Equates)
    (hfit : T.treeType.isStar = true → T.SplitBufferFits) (c : TreeCall κ)
    (hw : Settled T order recSize s h t) (hc : c.Sound T s) :
    Returns (c.run T) s fun a s' => ∃ h' t', Settled T order recSize s' h' t' ∧
      c.OnMultiset T.toComparator (t.records T h : Multiset κ) a (t'.records T h' : Multiset κ) := by
  cases c with
  | insert k =>
    refine (insert_settled hT hlt hfit hw k).bind ?_
    rintro _ s' ⟨h', t', hw', hrecords⟩
    exact Returns.pure ⟨h', t', hw', hrecords⟩
  | remove k =>
    refine (remove_settled hT hlt heq hw hc).bind ?_
    rintro b s' hpost
    exact Returns.pure hpost
  | search k =>
    refine (search_call_spec hT hlt heq hw.toWellFormed k).mono ?_
    rintro a _ ⟨rfl, hM⟩
    exact ⟨h, t, hw, hM⟩

omit [Inhabited κ] in
/-- `searchAll` finds the records equal to `k` and changes nothing. -/
theorem searchAll_settled (hT : T.Valid) (hlt : StrictWeak T.compare) (heq : T.Equates)
    (hw : Settled T order recSize s h t) (k : κ) (keys : List κ) :
    ∃ L, searchAll T k keys s = .ok ((keys ++ L, L.length), s) ∧
      (L : Multiset κ) = (t.records T h : Multiset κ).filter fun x => T.isEqual k x = true := by
  have hread := hw.toWellFormed.readable hT
  obtain ⟨L, hrun, hperm⟩ := searchAllPage_spec (k := k) hlt heq hread hread.height_lt keys
  refine ⟨L, hrun, ?_⟩
  rw [Multiset.filter_coe, Multiset.coe_eq_coe]
  exact hperm.trans (List.Perm.of_eq (by simp [matching, Node.records]))

omit [Inhabited κ] in
/-- Loading the stream of a tree in order gives the tree in memory. -/
theorem reopen_settled (hrec : recSize ≠ 0) (hset : setOrder T.treeType order recSize = .ok T.toParams)
    (hw : Settled T order recSize s h t) : reopen T s = .ok (T.toParams, s) := by
  have hpage := hw.stands.store.mem_range (page_mem_add h t 0)
  rw [hw.page_eq] at hpage
  rw [reopen_eq hw.booked (by rw [hw.recSize_eq]; exact hrec)
    (by rw [hw.order_eq, hw.recSize_eq]; exact hset), loadRootPage_eq, if_neg (by omega), if_neg (by omega)]
  show Except.ok (T.toParams, { s with rootPage := s.wrapper s.rootPageNum }) = _
  rw [← hw.rootPage_eq]

/-! ## `removeAll` -/

/-- `removeAll` takes the records equal to `k` out of the multiset that the tree stores, if every `remove`
takes out one. -/
theorem removeAll_spec {I : BTree κ → Multiset κ → Prop}
    (hstep : ∀ s M, I s M → (TreeCall.remove k).Sound T s → Returns (remove T k) s fun b s' => ∃ M',
      I s' M' ∧ (TreeCall.remove k).OnMultiset T.toComparator M (.removed b) M')
    {fuel : ℕ} {M : Multiset κ} (hs : I s M) (hwell : RemovesAllWell T k fuel s)
    (hfuel : M.countP (fun x => T.isEqual k x = true) < fuel) :
    Returns (removeAll T k fuel) s fun amount s' => I s' (M.filter fun x => T.isEqual k x = false) ∧
      amount = M.countP fun x => T.isEqual k x = true := by
  induction fuel generalizing s M with
  | zero => omega
  | succ fuel ih =>
    obtain ⟨removed, s₁, hrun, M₁, hs₁, hM⟩ := hstep s M hs hwell.1
    refine Returns.step hrun ?_
    cases removed with
    | true =>
      obtain ⟨x, hkx, rfl⟩ := hM
      rw [Multiset.countP_cons_of_pos (p := fun x => T.isEqual k x = true) _ hkx] at hfuel ⊢
      rw [Multiset.filter_cons_of_neg (p := fun x => T.isEqual k x = false) _ (by rw [hkx]; decide)]
      refine (ih hs₁ (hwell.2 s₁ hrun) (by omega)).bind ?_
      rintro amount s' ⟨hs', rfl⟩
      exact Returns.pure ⟨hs', rfl⟩
    | false =>
      obtain ⟨rfl, hnone⟩ := hM
      have hzero : M₁.countP (fun x => T.isEqual k x = true) = 0 := by
        rw [Multiset.countP_eq_zero]
        intro x hx
        rw [hnone x hx]
        decide
      refine Returns.pure ⟨?_, hzero.symm⟩
      rw [Multiset.filter_eq_self.mpr hnone]
      exact hs₁

/-- `removeAll` on a well-formed B-tree or B*-tree, of any order and height and with any number of records
equal to `k`, whose `remove` calls are sound: it ends, returns the number of the records equal to `k`, and
leaves a well-formed tree with the other records. -/
theorem removeAll_removes (hT : T.Valid) (hlt : StrictWeak T.compare) (heq : T.Equates) {fuel : ℕ}
    (hw : WellFormed T s h t) (hwell : RemovesAllWell T k fuel s)
    (hfuel : (t.records T h : Multiset κ).countP (fun x => T.isEqual k x = true) < fuel) :
    Returns (removeAll T k fuel) s fun amount s' => (∃ h' t', WellFormed T s' h' t' ∧
        (t'.records T h' : Multiset κ) =
          ((t.records T h : Multiset κ).filter fun x => T.isEqual k x = false)) ∧
      amount = (t.records T h : Multiset κ).countP fun x => T.isEqual k x = true := by
  refine removeAll_spec (I := fun s M => ∃ h t, WellFormed T s h t ∧ (t.records T h : Multiset κ) = M) ?_
    ⟨h, t, hw, rfl⟩ hwell hfuel
  rintro s _ ⟨h, t, hw, rfl⟩ hc
  refine (remove_wellFormed hT hlt heq hw hc).mono ?_
  rintro b s' ⟨h', t', hw', hM⟩
  exact ⟨_, ⟨h', t', hw', rfl⟩, hM⟩

/-- `removeAll` of 3 on `BTree.pair`: the tree stays low. -/
theorem removeAll_removes_pair :
    Returns (removeAll (natCfg .bTree 2) 3 2) BTree.pair fun amount s' =>
      (∃ h' t', WellFormed (natCfg .bTree 2) s' h' t' ∧
        (t'.records (natCfg .bTree 2) h' : Multiset ℕ) = {1, 2}) ∧ amount = 1 := by
  have hlow : (remove (natCfg .bTree 2) 3 BTree.pair).toOption.map (fun r =>
      (r.2.stream.page r.2.rootPageNum).isLeaf) = some true := by
    decide +kernel
  have hwell : RemovesAllWell (natCfg .bTree 2) 3 2 BTree.pair := by
    refine ⟨TreeCall.removesWell_of_low (TreeCall.remove 3) (Or.inr ?_), fun s' hrun =>
      ⟨TreeCall.removesWell_of_low (TreeCall.remove 3) (Or.inl ?_), fun _ _ => trivial⟩⟩
    · decide
    · rw [hrun] at hlow
      exact Option.some.inj hlow
  refine (removeAll_removes ⟨2, 4, rfl⟩ (natCfg_strictWeak _ _) (natCfg_equates _ _) pair_wellFormed hwell
    (by decide)).mono ?_
  rintro amount s' ⟨⟨h', t', hw', hrecords⟩, hamount⟩
  refine ⟨⟨h', t', hw', ?_⟩, ?_⟩
  · rw [hrecords]
    decide
  · rw [hamount]
    decide

theorem removeAll_settled (hT : T.Valid) (hlt : StrictWeak T.compare) (heq : T.Equates) {fuel : ℕ}
    (hw : Settled T order recSize s h t) (hwell : RemovesAllWell T k fuel s)
    (hfuel : (t.records T h : Multiset κ).countP (fun x => T.isEqual k x = true) < fuel) :
    Returns (removeAll T k fuel) s fun amount s' => (∃ h' t', Settled T order recSize s' h' t' ∧
        (t'.records T h' : Multiset κ) =
          ((t.records T h : Multiset κ).filter fun x => T.isEqual k x = false)) ∧
      amount = (t.records T h : Multiset κ).countP fun x => T.isEqual k x = true := by
  refine removeAll_spec (I := fun s M => ∃ h t, Settled T order recSize s h t ∧
    (t.records T h : Multiset κ) = M) ?_ ⟨h, t, hw, rfl⟩ hwell hfuel
  rintro s _ ⟨h, t, hw, rfl⟩ hc
  refine (remove_settled hT hlt heq hw hc).mono ?_
  rintro b s' ⟨h', t', hw', hM⟩
  exact ⟨_, ⟨h', t', hw', rfl⟩, hM⟩

/-! ## Sessions -/

/-- A call of a session on a tree in order. -/
theorem SessionCall.settled (hT : T.Valid) (hlt : StrictWeak T.compare) (heq : T.Equates)
    (hfit : T.treeType.isStar = true → T.SplitBufferFits) (hrec : recSize ≠ 0)
    (hset : setOrder T.treeType order recSize = .ok T.toParams) (c : SessionCall κ)
    (hw : Settled T order recSize s h t) (hc : c.Sound T s) :
    Returns (c.run T) s fun a s' => ∃ h' t', Settled T order recSize s' h' t' ∧
      c.OnMultiset T (t.records T h : Multiset κ) a (t'.records T h' : Multiset κ) := by
  cases c with
  | call c =>
    refine (c.settled hT hlt heq hfit hw hc).bind ?_
    rintro a s' hpost
    exact Returns.pure hpost
  | searchAll k keys =>
    obtain ⟨L, hrun, hL⟩ := searchAll_settled hT hlt heq hw k keys
    exact Returns.step hrun (Returns.pure ⟨h, t, hw, rfl, L, rfl, rfl, hL⟩)
  | removeAll k fuel =>
    refine (removeAll_settled hT hlt heq hw hc.1 (hc.2 h t hw.page_eq hw.rep)).bind ?_
    rintro amount s' ⟨⟨h', t', hw', hrest⟩, hamount⟩
    exact Returns.pure ⟨h', t', hw', hrest, hamount⟩
  | reopen =>
    exact Returns.step (reopen_settled hrec hset hw) (Returns.pure ⟨h, t, hw, rfl, rfl⟩)

theorem created_settled (T : Cfg κ) (order recSize : UInt16) (noReturn : ℕ → Bool) :
    Settled T order recSize (BTree.created order recSize noReturn) 0 ⟨1, [], []⟩ := by
  have hstore := (created_stands (κ := κ) order recSize noReturn).store
  rw [add_zero] at hstore
  exact ⟨created_wellFormed T order recSize noReturn, created_opened T order recSize noReturn, hstore⟩

/-- A session of sound calls on a new tree. -/
theorem session_settled (hlt : StrictWeak T.compare) (heq : T.Equates) (hrec : recSize ≠ 0)
    (hset : setOrder T.treeType order recSize = .ok T.toParams)
    (hfit : T.treeType.isStar = true → T.SplitBufferFits) (noReturn : ℕ → Bool)
    {calls : List (SessionCall κ)}
    (hsound : MeetsEach (SessionCall.run T) (SessionCall.Sound T) (BTree.created order recSize noReturn) calls) :
    Returns (do createTree; runAll (SessionCall.run T) calls) (BTree.fresh order recSize noReturn)
      fun as s' => ∃ h t, Settled T order recSize s' h t ∧
        RunsOn (SessionCall.OnMultiset T) 0 calls as (t.records T h : Multiset κ) := by
  have hT : T.Valid := ⟨order, recSize, hset⟩
  have hstep : ∀ (s : BTree κ) (M : Multiset κ) (c : SessionCall κ),
      (∃ h t, Settled T order recSize s h t ∧ (t.records T h : Multiset κ) = M) → c.Sound T s →
      Returns (c.run T) s fun a s' => ∃ M', c.OnMultiset T M a M' ∧
        ∃ h t, Settled T order recSize s' h t ∧ (t.records T h : Multiset κ) = M' := by
    rintro s _ c ⟨h, t, hw, rfl⟩ hc
    refine (c.settled hT hlt heq hfit hrec hset hw hc).mono ?_
    rintro a s' ⟨h', t', hw', hM⟩
    exact ⟨_, hM, h', t', hw', rfl⟩
  have hcreated : ∃ h t, Settled T order recSize (BTree.created order recSize noReturn) h t ∧
      (t.records T h : Multiset κ) = 0 :=
    ⟨0, _, created_settled T order recSize noReturn, rfl⟩
  refine Returns.step (createTree_run order recSize noReturn) ?_
  refine (runAll_simulates hstep hcreated hsound).mono ?_
  rintro as s' ⟨_, hruns, h, t, hw, rfl⟩
  exact ⟨h, t, hw, hruns⟩

/-- A session of sound calls on a new tree of any class answers as the session on the empty multiset does,
and leaves a well-formed tree that stores the multiset that is left. -/
theorem session_keeps_multiset (hlt : StrictWeak T.compare) (heq : T.Equates) (hrec : recSize ≠ 0)
    (hset : setOrder T.treeType order recSize = .ok T.toParams)
    (hfit : T.treeType.isStar = true → T.SplitBufferFits) (noReturn : ℕ → Bool)
    (calls : List (SessionCall κ))
    (hsound : MeetsEach (SessionCall.run T) (SessionCall.Sound T) (BTree.created order recSize noReturn) calls) :
    Returns (do createTree; runAll (SessionCall.run T) calls) (BTree.fresh order recSize noReturn)
      fun as s' => ∃ M h t, RunsOn (SessionCall.OnMultiset T) 0 calls as M ∧
        WellFormed T s' h t ∧ (t.records T h : Multiset κ) = M := by
  refine (session_settled hlt heq hrec hset hfit noReturn hsound).mono ?_
  rintro as s' ⟨h, t, hw, hruns⟩
  exact ⟨_, h, t, hruns, hw.toWellFormed, rfl⟩

/-- The insertions of 1 to 6, the removal of 1, the insertions of 7 and 8, the search for every 8, the removals
of 8 and 7, loading the tree, the search for 6 and the removal of 2. -/
def SessionCall.eightKeys : List (SessionCall ℕ) := (List.range' 1 6).map (fun k => call (.insert k)) ++
  [call (.remove 1), call (.insert 7), call (.insert 8), searchAll 8 [], call (.remove 8), call (.remove 7),
    reopen, call (.search 6), call (.remove 2)]

/-- Two removals merge leaves, and an insertion uses a freed page again. -/
theorem session_keeps_multiset_eight :
    Returns (do createTree; runAll (SessionCall.run (natCfg .bTree 2)) SessionCall.eightKeys)
      (BTree.fresh 2 4 fun _ => false) fun as s' => ∃ M h t,
        RunsOn (SessionCall.OnMultiset (natCfg .bTree 2)) 0 SessionCall.eightKeys as M ∧
          WellFormed (natCfg .bTree 2) s' h t ∧ (t.records (natCfg .bTree 2) h : Multiset ℕ) = M := by
  have hset : setOrder .bTree 2 4 = .ok (natCfg .bTree 2).toParams := rfl
  have hlow : MeetsEach (SessionCall.run (natCfg .bTree 2)) (fun _ s => s.Low)
      (BTree.created 2 4 fun _ => false) SessionCall.eightKeys := by
    decide +kernel
  refine session_keeps_multiset (natCfg_strictWeak _ _) (natCfg_equates _ _) (by decide) hset
    (fun hstar => by cases hstar) (fun _ => false) _ (hlow.mono fun c hc s hs => ?_)
  cases c with
  | call c => exact c.removesWell_of_low hs
  | removeAll k fuel => simp [SessionCall.eightKeys] at hc
  | searchAll k keys => trivial
  | reopen => trivial

/-- After a session of sound calls on a new tree of any class, the pages that are reached from the root
page through cursors and the free pages are the pages 1 to `_lastPageNum`, each of them once; the root
page in memory is the stored one; and loading the stream gives the tree in memory. -/
theorem session_owns_pages (hlt : StrictWeak T.compare) (heq : T.Equates) (hrec : recSize ≠ 0)
    (hset : setOrder T.treeType order recSize = .ok T.toParams)
    (hfit : T.treeType.isStar = true → T.SplitBufferFits) (noReturn : ℕ → Bool)
    (calls : List (SessionCall κ))
    (hsound : MeetsEach (SessionCall.run T) (SessionCall.Sound T) (BTree.created order recSize noReturn) calls) :
    Returns (do createTree; runAll (SessionCall.run T) calls) (BTree.fresh order recSize noReturn)
      fun _ s' => (∃ h t, t.page = s'.rootPageNum ∧ Rep s'.stream.page h t ∧
          t.pages h + (s'.stream.freePages : Multiset ℕ) = (List.range' 1 s'.lastPageNum : Multiset ℕ)) ∧
        s'.rootPage = s'.wrapper s'.rootPageNum ∧ reopen T s' = .ok (T.toParams, s') := by
  refine (session_settled hlt heq hrec hset hfit noReturn hsound).mono ?_
  rintro as s' ⟨h, t, hw, -⟩
  exact ⟨⟨h, t, hw.page_eq, hw.rep, hw.owned.all_pages⟩, hw.rootPage_eq, reopen_settled hrec hset hw⟩

/-- The last removal merges the two leaves of a B*-tree, and the root page shrinks away. -/
theorem session_owns_pages_eight :
    Returns (do createTree; runAll (SessionCall.run (natCfg .bStarTree 5)) SessionCall.eightKeys)
      (BTree.fresh 5 4 fun _ => false) fun _ s' =>
        (∃ h t, t.page = s'.rootPageNum ∧ Rep s'.stream.page h t ∧
          t.pages h + (s'.stream.freePages : Multiset ℕ) = (List.range' 1 s'.lastPageNum : Multiset ℕ)) ∧
        s'.rootPage = s'.wrapper s'.rootPageNum ∧
          reopen (natCfg .bStarTree 5) s' = .ok ((natCfg .bStarTree 5).toParams, s') := by
  have hset : setOrder .bStarTree 5 4 = .ok (natCfg .bStarTree 5).toParams := rfl
  have hlow : MeetsEach (SessionCall.run (natCfg .bStarTree 5)) (fun c s => s.Low ∧ ∀ k ∈ c.removedKey,
      ∀ x ∈ (s.stream.page s.rootPageNum).keyList, (natCfg .bStarTree 5).isEqual k x = false)
      (BTree.created 5 4 fun _ => false) SessionCall.eightKeys := by
    decide +kernel
  refine session_owns_pages (natCfg_strictWeak _ _) (natCfg_equates _ _) (by decide) hset
    (fun _ => by decide) (fun _ => false) _ (hlow.mono fun c hc s hs => ?_)
  cases c with
  | call c => exact BaseBStarTree.removesWell_of_low (by decide) c hs.1 hs.2
  | removeAll k fuel => simp [SessionCall.eightKeys] at hc
  | searchAll k keys => trivial
  | reopen => trivial

end

end BTreesMods
