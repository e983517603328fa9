import BTreesMods.Tree.Store
import BTreesMods.Tree.Tokens

/-!
# Trees in the store

`Held s R ref h t`: `ref` is a wrapper with the keys and cursors of the topmost page of the tree `t`,
the trees below it are stored, and the other pages in use are `R`. `Stands s R ref h t`: moreover
the topmost page is stored as it is in the wrapper. A step below a child `c` of a node is a step of a tree that
stands with the rest of the node in `R` (`Stands.kid`), and is put back into the node afterwards
(`Stands.putBack`). The sizes that `setOrder` computes bound the number of keys of each page.
-/

namespace BTreesMods

variable {κ : Type}

/-! ## Standing trees -/

/-- The topmost page of `t` is that of the wrapper `ref`, the trees below it are stored, and the
other pages in use are `R`. -/
structure Held (s : BTree κ) (R : Multiset ℕ) (ref : PageRef κ) (h : ℕ) (t : Node κ) : Prop where
  store : Store s (t.pages h + R)
  at_page : At s ref t.page R
  on : t.On h (ref.value s).data
  below : RepBelow s.stream.page h t.kids

/-- Moreover the topmost page is stored with the bytes of the wrapper. -/
structure Stands (s : BTree κ) (R : Multiset ℕ) (ref : PageRef κ) (h : ℕ) (t : Node κ) : Prop
    extends Held s R ref h t where
  value_eq : ref.value s = s.wrapper t.page

section

variable {s s' : BTree κ} {R : Multiset ℕ} {ref : PageRef κ} {h p : ℕ} {t c c' : Node κ}
  {K : List κ} {P S : List (Node κ)}

/-- The pages around a child: of the parent, of the other children and of the rest. -/
def around (p h : ℕ) (P S : List (Node κ)) (R : Multiset ℕ) : Multiset ℕ :=
  {p} + pagesBelow (h + 1) P + pagesBelow (h + 1) S + R

theorem pages_around : (⟨p, K, P ++ c :: S⟩ : Node κ).pages (h + 1) + R =
    c.pages h + around p h P S R := by
  rw [pages_eq, pagesBelow_append, pagesBelow_cons, around]
  abel

theorem Stands.rep (hs : Stands s R ref h t) : Rep s.stream.page h t := by
  refine rep_iff.mpr ⟨?_, hs.below⟩
  have := hs.on
  rwa [hs.value_eq] at this

theorem page_mem_add (h : ℕ) (t : Node κ) (R : Multiset ℕ) : t.page ∈ t.pages h + R :=
  Multiset.mem_add.mpr (Or.inl (page_mem_pages h t))

theorem Held.page_not_mem (hs : Held s R ref h t) : t.page ∉ R :=
  fun hmem => hs.store.ne rfl (page_mem_pages h t) hmem rfl

theorem Held.value_mk (hs : Held s R ref h t) : ∃ d, ref.value s = ⟨t.page, d⟩ :=
  ⟨(ref.value s).data, by rw [← hs.at_page.pageNum_eq]⟩

theorem Held.length_kids (hs : Held s R ref (h + 1) t) : t.kids.length = t.keys.length + 1 :=
  hs.on.length_kids

/-- A key of the topmost page. -/
theorem Held.getKey {slots : ℕ} {A B : List κ} {k : κ} (hs : Held s R ref h ⟨p, A ++ k :: B, P⟩)
    (hslots : (A ++ k :: B).length ≤ slots) : (ref.value s).data.getKey slots A.length = .ok k := by
  have hon : (ref.value s).data.Holds (h == 0) (A ++ k :: B) (P.map Node.page) := hs.on
  exact hon.getKey (hon.keysNum_le hslots)

/-- A child of a tree stands, with a local wrapper. -/
theorem Held.kid (hs : Held s R ref (h + 1) ⟨p, K, P ++ c :: S⟩) :
    Stands s (around p h P S R) (.local (s.wrapper c.page)) h c where
  store := by
    rw [← pages_around]
    exact hs.store
  at_page := by
    refine ⟨rfl, ?_⟩
    show s.rootPageNum ∈ around p h P S R
    have hroot := hs.at_page.root
    cases ref with
    | rootPage =>
      rw [show s.rootPageNum = p from hroot]
      simp [around]
    | «local» pw => exact Multiset.mem_add.mpr (Or.inr hroot)
  on := (repBelow_cons.mp (repBelow_append.mp hs.below).2).1.on
  below := (repBelow_cons.mp (repBelow_append.mp hs.below).2).1.below
  value_eq := rfl

theorem mem_around_root : p ∈ around p h P S R := by simp [around]

theorem mem_around_rest {x : ℕ} (hx : x ∈ R) : x ∈ around p h P S R :=
  Multiset.mem_add.mpr (Or.inr hx)

theorem mem_around {x : ℕ} (hx : x ∈ {p} + R) : x ∈ around p h P S R := by
  rcases Multiset.mem_add.mp hx with hx | hx
  · rw [Multiset.mem_singleton.mp hx]
    exact mem_around_root
  · exact mem_around_rest hx

theorem Frame.of_around (hf : Frame s s' (around p h P S R)) : Frame s s' R :=
  hf.mono fun _ hx => mem_around_rest hx

/-- A child that was changed is put back into its node. -/
theorem Held.putBack {ref' : PageRef κ} (hs : Held s R ref (h + 1) ⟨p, K, P ++ c :: S⟩)
    (hf : Frame s s' (around p h P S R)) (hc : Stands s' (around p h P S R) ref' h c')
    (hpage : c'.page = c.page) : Held s' R ref (h + 1) ⟨p, K, P ++ c' :: S⟩ where
  store := by
    rw [pages_around]
    exact hc.store
  at_page := hs.at_page.frame (hf.mono fun _ hx => mem_around hx)
  on := by
    have hon := hs.on
    rw [hs.at_page.value_frame (hf.mono fun _ hx => mem_around hx)]
    rw [Node.On, List.map_append, List.map_cons] at hon ⊢
    rw [hpage]
    exact hon
  below := by
    have hbelow := repBelow_append.mp hs.below
    refine repBelow_append.mpr ⟨?_, repBelow_cons.mpr ⟨hc.rep, ?_⟩⟩
    · exact hbelow.1.congr fun x hx => hf.page_eq x (by simp [around, hx])
    · exact (repBelow_cons.mp hbelow.2).2.congr fun x hx => hf.page_eq x (by simp [around, hx])

theorem Stands.putBack {ref' : PageRef κ} (hs : Stands s R ref (h + 1) ⟨p, K, P ++ c :: S⟩)
    (hf : Frame s s' (around p h P S R)) (hc : Stands s' (around p h P S R) ref' h c')
    (hpage : c'.page = c.page) : Stands s' R ref (h + 1) ⟨p, K, P ++ c' :: S⟩ where
  toHeld := hs.toHeld.putBack hf hc hpage
  value_eq := by
    rw [hs.at_page.value_frame (hf.mono fun _ hx => mem_around hx), hs.value_eq,
      hf.wrapper mem_around_root]

/-! ## Reshaping a node and some of its children -/

theorem pagesBelow_succ (h : ℕ) (ts : List (Node κ)) :
    pagesBelow (h + 1) ts = (ts.map Node.page : Multiset ℕ) + pagesBelow h (ts.flatMap Node.kids) := by
  induction ts with
  | nil => simp
  | cons t ts ih =>
    rw [pagesBelow_cons, ih, pages_eq, List.flatMap_cons, pagesBelow_append, List.map_cons,
      ← Multiset.cons_coe, ← Multiset.singleton_add]
    abel

theorem repBelow_succ {page : ℕ → Page κ} {ts : List (Node κ)} : RepBelow page (h + 1) ts ↔
    (∀ c ∈ ts, c.On h (page c.page)) ∧ RepBelow page h (ts.flatMap Node.kids) := by
  induction ts with
  | nil => simp [repBelow_nil]
  | cons t ts ih =>
    rw [repBelow_cons, ih, rep_iff, List.flatMap_cons, repBelow_append, List.forall_mem_cons]
    exact ⟨fun ⟨⟨a, b⟩, c, d⟩ => ⟨⟨a, c⟩, b, d⟩, fun ⟨⟨a, c⟩, b, d⟩ => ⟨⟨a, b⟩, c, d⟩⟩

variable {K' : List κ} {mid mid' : List (Node κ)}

/-- The page numbers of a node, with those of some of its children in front. -/
theorem pages_mid : (⟨p, K, P ++ (mid ++ S)⟩ : Node κ).pages (h + 1) + R =
    (mid.map Node.page : Multiset ℕ) + ({p} + (pagesBelow (h + 1) P +
      pagesBelow h (mid.flatMap Node.kids) + pagesBelow (h + 1) S + R)) := by
  rw [pages_eq, pagesBelow_append, pagesBelow_append, pagesBelow_succ h mid]
  abel

theorem coe_page_cons (q : ℕ) (l : List ℕ) : ((q :: l : List ℕ) : Multiset ℕ) = {q} + (l : Multiset ℕ) :=
  rfl

/-- The children `mid` of a node become `mid'` with the same children of their own, and the keys of
the node change; all the other pages in use are left alone. -/
theorem Held.reshape (hs : Held s R ref (h + 1) ⟨p, K, P ++ (mid ++ S)⟩) (hsame : Same s s')
    (hst : Store s' ((⟨p, K', P ++ (mid' ++ S)⟩ : Node κ).pages (h + 1) + R))
    (hother : ∀ x ∈ (⟨p, K, P ++ (mid ++ S)⟩ : Node κ).pages (h + 1) + R, x ≠ p →
      x ∉ mid.map Node.page → s'.stream.page x = s.stream.page x)
    (hroot : s'.rootPage = (s.assign ref ⟨p, s'.stream.page p⟩).rootPage)
    (hon : (⟨p, K', P ++ (mid' ++ S)⟩ : Node κ).On (h + 1) (s'.stream.page p))
    (hmid : ∀ c ∈ mid', c.On h (s'.stream.page c.page))
    (hkids : mid'.flatMap Node.kids = mid.flatMap Node.kids) :
    Stands s' R (ref.assign ⟨p, s'.stream.page p⟩) (h + 1) ⟨p, K', P ++ (mid' ++ S)⟩ ∧
      Frame s s' R := by
  have hsame' : ∀ x ∈ pagesBelow (h + 1) P + pagesBelow h (mid.flatMap Node.kids) +
      pagesBelow (h + 1) S + R, s'.stream.page x = s.stream.page x := by
    intro x hx
    refine hother x ?_ ?_ ?_
    · rw [pages_mid]
      exact Multiset.mem_add.mpr (Or.inr (Multiset.mem_add.mpr (Or.inr hx)))
    · exact (hs.store.ne (pages_mid.trans (add_left_comm _ _ _)) (Multiset.mem_singleton_self p)
        (Multiset.mem_add.mpr (Or.inr hx))).symm
    · exact fun hmem => hs.store.ne pages_mid (Multiset.mem_coe.mpr hmem)
        (Multiset.mem_add.mpr (Or.inr hx)) rfl
  obtain ⟨hP, hmS⟩ := repBelow_append.mp hs.below
  obtain ⟨hm, hS⟩ := repBelow_append.mp hmS
  have hgrand := (repBelow_succ.mp hm).2
  refine ⟨⟨⟨hst, hs.at_page.assign hroot hsame.rootPageNum_eq, by rwa [value_assign hroot], ?_⟩,
    value_assign hroot⟩, hsame, fun x hx => hsame' x (by simp [hx]), fun hr => ?_⟩
  · refine repBelow_append.mpr ⟨hP.congr fun x hx => hsame' x (by simp [hx]),
      repBelow_append.mpr ⟨repBelow_succ.mpr ⟨hmid, ?_⟩, hS.congr fun x hx => hsame' x (by simp [hx])⟩⟩
    rw [hkids]
    exact hgrand.congr fun x hx => hsame' x (by simp [hx])
  · rw [hroot]
    exact hs.at_page.assign_rootPage hs.page_not_mem _ hr

/-! ## Writing a node and some of its children -/

/-- The state after the assignment of the bytes `nd` to the wrapper of page `p`, the writes of other
pages, and the write of page `p`. -/
def BTree.commit (s : BTree κ) (ref : PageRef κ) (p : ℕ) (nd : Page κ) (l : List (ℕ × Page κ)) :
    BTree κ :=
  (l.foldl (fun s w => s.write w.1 w.2) (s.assign ref ⟨p, nd⟩)).write p nd

theorem foldl_write_page (s : BTree κ) (l : List (ℕ × Page κ)) {x : ℕ} (hx : x ∉ l.map Prod.fst) :
    (l.foldl (fun s w => s.write w.1 w.2) s).stream.page x = s.stream.page x := by
  induction l generalizing s with
  | nil => rfl
  | cons w l ih =>
    rw [List.map_cons, List.mem_cons, not_or] at hx
    rw [List.foldl_cons, ih _ hx.2, write_page, Function.update_of_ne hx.1]

theorem foldl_write_mem (s : BTree κ) {l : List (ℕ × Page κ)} (hl : (l.map Prod.fst).Nodup)
    {x : ℕ} {d : Page κ} (hx : (x, d) ∈ l) :
    (l.foldl (fun s w => s.write w.1 w.2) s).stream.page x = d := by
  induction l generalizing s with
  | nil => simp at hx
  | cons w l ih =>
    rw [List.map_cons, List.nodup_cons] at hl
    rw [List.foldl_cons]
    rcases List.mem_cons.mp hx with rfl | hx
    · rw [foldl_write_page _ _ hl.1, write_page, Function.update_self]
    · exact ih _ hl.2 hx

theorem foldl_write_same (s : BTree κ) (l : List (ℕ × Page κ)) :
    Same s (l.foldl (fun s w => s.write w.1 w.2) s) ∧
      (l.foldl (fun s w => s.write w.1 w.2) s).rootPage = s.rootPage ∧
      ∀ Q, Store s Q → Store (l.foldl (fun s w => s.write w.1 w.2) s) Q := by
  induction l generalizing s with
  | nil => exact ⟨⟨rfl, rfl, rfl, id⟩, rfl, fun _ h => h⟩
  | cons w l ih =>
    obtain ⟨h1, h2, h3⟩ := ih (s.write w.1 w.2)
    exact ⟨(same_write s w.1 w.2).trans h1, h2, fun Q h => h3 Q (h.write w.1 w.2)⟩

theorem commit_wrapper {s1 : BTree κ} {nd d : Page κ} {l : List (ℕ × Page κ)} {x : ℕ}
    (hl : (p :: l.map Prod.fst).Nodup) (hx : (x, d) ∈ l) :
    (s1.commit ref p nd l).wrapper x = ⟨x, d⟩ := by
  obtain ⟨hpl, hl⟩ := List.nodup_cons.mp hl
  have hxp : x ≠ p := by
    rintro rfl
    exact hpl (List.mem_map.mpr ⟨_, hx, rfl⟩)
  rw [BTree.wrapper, BTree.commit, write_page, Function.update_of_ne hxp, foldl_write_mem _ hl hx]

/-- After `s1`, which allocated pages at most, the node and the children `mid'` are written. -/
theorem Held.commit {s1 : BTree κ} {nd : Page κ} {l : List (ℕ × Page κ)}
    (hs : Held s R ref (h + 1) ⟨p, K, P ++ (mid ++ S)⟩)
    (hf : Frame s s1 ((⟨p, K, P ++ (mid ++ S)⟩ : Node κ).pages (h + 1) + R))
    (hroot : s1.rootPage = s.rootPage)
    (hst : Store s1 ((⟨p, K', P ++ (mid' ++ S)⟩ : Node κ).pages (h + 1) + R))
    (hl : (p :: l.map Prod.fst).Nodup)
    (hnew : ∀ x ∈ l.map Prod.fst, x ∈ mid.map Node.page ∨
      x ∉ (⟨p, K, P ++ (mid ++ S)⟩ : Node κ).pages (h + 1) + R)
    (hon : (⟨p, K', P ++ (mid' ++ S)⟩ : Node κ).On (h + 1) nd)
    (hmid : ∀ c ∈ mid', ∃ d, (c.page, d) ∈ l ∧ c.On h d)
    (hkids : mid'.flatMap Node.kids = mid.flatMap Node.kids) :
    Stands (s1.commit ref p nd l) R (ref.assign ⟨p, nd⟩) (h + 1) ⟨p, K', P ++ (mid' ++ S)⟩ ∧
      Frame s (s1.commit ref p nd l) R := by
  obtain ⟨hpl, hl⟩ := List.nodup_cons.mp hl
  obtain ⟨hsame, hroot', hst'⟩ := foldl_write_same (s1.assign ref ⟨p, nd⟩) l
  have hp : (s1.commit ref p nd l).stream.page p = nd := Function.update_self _ _ _
  have hpage : ∀ x, x ≠ p → (s1.commit ref p nd l).stream.page x =
      (l.foldl (fun s w => s.write w.1 w.2) (s1.assign ref ⟨p, nd⟩)).stream.page x :=
    fun x hx => Function.update_of_ne hx _ _
  have hmain : Stands (s1.commit ref p nd l) R (ref.assign ⟨p, (s1.commit ref p nd l).stream.page p⟩)
      (h + 1) ⟨p, K', P ++ (mid' ++ S)⟩ ∧ Frame s (s1.commit ref p nd l) R := hs.reshape
    (hf.toSame.trans ((same_assign s1 ref ⟨p, nd⟩).trans (hsame.trans (same_write _ p nd))))
    ((hst' _ (hst.assign ref ⟨p, nd⟩)).write p nd)
    (fun x hxQ hxp hxm => by
      have hxl : x ∉ l.map Prod.fst := fun hmem => (hnew x hmem).elim hxm fun hn => hn hxQ
      rw [hpage x hxp, foldl_write_page _ _ hxl, assign_stream, hf.page_eq x hxQ])
    (by
      rw [hp]
      change (l.foldl (fun s w => s.write w.1 w.2) (s1.assign ref ⟨p, nd⟩)).rootPage = _
      rw [hroot']
      cases ref with
      | rootPage => rfl
      | «local» pw => exact hroot)
    (by rwa [hp])
    (fun c hc => by
      obtain ⟨d, hd, hon⟩ := hmid c hc
      have hcp : c.page ≠ p := by
        rintro heq
        rw [heq] at hd
        exact hpl (List.mem_map.mpr ⟨_, hd, rfl⟩)
      rwa [hpage _ hcp, foldl_write_mem _ hl hd])
    hkids
  rwa [hp] at hmain

/-- The topmost page of a tree is written with other keys and the same children. -/
theorem Held.writeTop {d : Page κ} (hs : Held s R ref h ⟨p, K, P⟩)
    (hon : (⟨p, K', P⟩ : Node κ).On h d) :
    Stands ((s.assign ref ⟨p, d⟩).write p d) R (ref.assign ⟨p, d⟩) h ⟨p, K', P⟩ ∧
      Frame s ((s.assign ref ⟨p, d⟩).write p d) R := by
  have hp : p ∉ R := hs.page_not_mem
  have hpage : ∀ x, x ≠ p → ((s.assign ref ⟨p, d⟩).write p d).stream.page x = s.stream.page x := by
    intro x hx
    rw [write_page, Function.update_of_ne hx, assign_stream]
  have hQ : (⟨p, K, P⟩ : Node κ).pages h + R = {p} + (pagesBelow h P + R) := by
    rw [pages_eq, add_assoc]
  have hpages : (⟨p, K', P⟩ : Node κ).pages h = (⟨p, K, P⟩ : Node κ).pages h := by
    rw [pages_eq, pages_eq]
  have hvalue : (ref.assign ⟨p, d⟩).value ((s.assign ref ⟨p, d⟩).write p d) = ⟨p, d⟩ :=
    value_assign rfl
  refine ⟨⟨⟨?_, hs.at_page.assign rfl (by simp), by rwa [hvalue],
    hs.below.congr fun x hx => hpage x ?_⟩, ?_⟩,
    (same_assign s ref ⟨p, d⟩).trans (same_write _ p d), fun x hx => hpage x ?_, fun hr => ?_⟩
  · rw [hpages]
    exact (hs.store.assign ref ⟨p, d⟩).write p d
  · exact (hs.store.ne hQ (Multiset.mem_singleton_self p) (by simp [hx])).symm
  · rw [hvalue, BTree.wrapper, write_page, Function.update_self]
  · rintro rfl
    exact hp hx
  · exact hs.at_page.assign_rootPage hp _ hr

/-- The page of a child is in use. -/
theorem kid_page_mem (hc : c ∈ t.kids) : c.page ∈ t.pages (h + 1) + R := by
  rw [pages_eq]
  exact Multiset.mem_add.mpr (Or.inl (Multiset.mem_add.mpr (Or.inr (Multiset.mem_of_le
    (pages_le_pagesBelow hc) (page_mem_pages h c)))))

/-- The pages of a node and of some of its children are different. -/
theorem Held.nodup_mid (hs : Held s R ref (h + 1) ⟨p, K, P ++ (mid ++ S)⟩) :
    (p :: mid.map Node.page).Nodup := by
  have hnd := hs.store.nodup
  rw [pages_mid, ← add_assoc, Multiset.nodup_add, add_comm, Multiset.singleton_add,
    Multiset.cons_coe, Multiset.coe_nodup] at hnd
  exact hnd.1

end

/-! ## Sizes -/

/-- The parameters are those that the virtual `setOrder` computes from accepted values. -/
def Cfg.Valid (T : Cfg κ) : Prop := ∃ order recSize, setOrder T.treeType order recSize = .ok T.toParams

/-- The least number of keys of a page that is not the root, `h` levels above the leaves. -/
def Cfg.minOf (T : Cfg κ) (h : ℕ) : ℕ :=
  if h = 0 ∧ T.treeType = .bPlusTree then T.minLeafKeys else T.minKeys

/-- The greatest number of keys of a page that is not the root. -/
def Cfg.maxOf (T : Cfg κ) (h : ℕ) : ℕ :=
  if h = 0 ∧ T.treeType = .bPlusTree then T.maxLeafKeys else T.maxKeys

/-- The greatest number of keys of the root page. -/
def Cfg.maxRootOf (T : Cfg κ) (h : ℕ) : ℕ :=
  match T.treeType with
  | .bTree | .bPlusTree => T.maxOf h
  | .bStarTree | .bStarPlusTree => T.maxRootKeys

/-- The number of keys of a full page. -/
def Cfg.capacity (T : Cfg κ) (h : ℕ) : PageRef κ → ℕ
  | .rootPage => T.maxRootOf h
  | .local _ => T.maxOf h

/-- The pages of a tree that is not the whole tree have between `minOf` and `maxOf` keys. -/
def Node.Sized (T : Cfg κ) : ℕ → Node κ → Prop
  | 0, t => T.minOf 0 ≤ t.keys.length ∧ t.keys.length ≤ T.maxOf 0
  | h + 1, t => (T.minOf (h + 1) ≤ t.keys.length ∧ t.keys.length ≤ T.maxOf (h + 1)) ∧
    ∀ c ∈ t.kids, c.Sized T h

/-- The children of a node of height `h` are of the right size. -/
def SizedBelow (T : Cfg κ) : ℕ → List (Node κ) → Prop
  | 0, _ => True
  | h + 1, ts => ∀ c ∈ ts, c.Sized T h

section

variable {T : Cfg κ} {h : ℕ} {t c : Node κ} {ts us : List (Node κ)}

theorem sized_iff : t.Sized T h ↔
    (T.minOf h ≤ t.keys.length ∧ t.keys.length ≤ T.maxOf h) ∧ SizedBelow T h t.kids := by
  cases h with
  | zero => simp [Node.Sized, SizedBelow]
  | succ h => rfl

theorem sizedBelow_append :
    SizedBelow T h (ts ++ us) ↔ SizedBelow T h ts ∧ SizedBelow T h us := by
  cases h with
  | zero => simp [SizedBelow]
  | succ h => simp [SizedBelow, or_imp, forall_and]

theorem sizedBelow_cons :
    SizedBelow T (h + 1) (c :: ts) ↔ c.Sized T h ∧ SizedBelow T (h + 1) ts := by
  simp [SizedBelow]

theorem sizedBelow_nil : SizedBelow T h [] := by
  cases h with
  | zero => trivial
  | succ h => simp [SizedBelow]

end

/-! ## What `setOrder` computes -/

section

variable {T : Cfg κ}

theorem valid_bTree (hT : T.Valid) (hk : T.treeType = .bTree) :
    ∃ m, 2 ≤ m ∧ m < 2 ^ 16 ∧ T.minKeys = m - 1 ∧ T.maxKeys = 2 * m - 1 ∧ T.slots = 2 * m - 1 := by
  obtain ⟨order, recSize, hset⟩ := hT
  rw [hk] at hset
  simp only [setOrder, BaseBTree.setOrder] at hset
  split_ifs at hset with h1 h2
  have hp := Except.ok.inj hset
  refine ⟨order.toNat, ?_, order.toNat_lt, ?_⟩
  · rw [UInt16.lt_iff_toNat_lt] at h1
    have : (2 : UInt16).toNat = 2 := rfl
    omega
  · rw [← hp]
    exact ⟨rfl, rfl, rfl⟩

theorem valid_bPlusTree (hT : T.Valid) (hk : T.treeType = .bPlusTree) :
    ∃ m, 2 ≤ m ∧ m < 2 ^ 16 ∧ T.minKeys = m - 1 ∧ T.maxKeys = 2 * m - 1 ∧ T.minLeafKeys = m ∧
      T.maxLeafKeys = 2 * m ∧ T.slots = 2 * m := by
  obtain ⟨order, recSize, hset⟩ := hT
  rw [hk] at hset
  simp only [setOrder, BaseBPlusTree.setOrder] at hset
  split_ifs at hset with h1 h2
  have hp := Except.ok.inj hset
  have h1' : 2 ≤ order.toNat := by
    rw [UInt16.lt_iff_toNat_lt] at h1
    have : (2 : UInt16).toNat = 2 := rfl
    omega
  refine ⟨order.toNat, h1', order.toNat_lt, ?_⟩
  rw [← hp]
  refine ⟨rfl, rfl, ?_, ?_, ?_⟩
  all_goals simp only [Params.withLayout]; omega

/-- The trees that share keys between siblings before they split. -/
def TreeType.isStar : TreeType → Bool
  | .bTree | .bPlusTree => false
  | .bStarTree | .bStarPlusTree => true

theorem valid_star (hT : T.Valid) (hk : T.treeType.isStar = true) :
    ∃ m, 4 ≤ m ∧ m < 2 ^ 16 ∧ T.minKeys = (2 * m - 2) / 3 ∧ T.maxKeys = m ∧
      T.maxRootKeys = 2 * ((2 * m - 2) / 3) + 1 ∧ T.leftSplitProductKeys = (2 * m - 1) / 3 ∧
      T.middleSplitProductKeys = 2 * m / 3 ∧ T.rightSplitProductKeys = (2 * m + 1) / 3 ∧
      T.shortRightSplitProductKeys = (2 * m + 1) / 3 - 1 ∧
      T.slots = max m (2 * ((2 * m - 2) / 3) + 1) ∧
      (T.treeType = .bStarPlusTree → T.middleLeafSplitProductKeys = 2 * m / 3 + 1) := by
  obtain ⟨order, recSize, hset⟩ := hT
  have hfour : ¬order < 4 → 4 ≤ order.toNat := fun h => by
    rw [UInt16.lt_iff_toNat_lt] at h
    have : (4 : UInt16).toNat = 4 := rfl
    omega
  cases hk' : T.treeType with
  | bTree => simp [hk', TreeType.isStar] at hk
  | bPlusTree => simp [hk', TreeType.isStar] at hk
  | bStarTree =>
    rw [hk'] at hset
    simp only [setOrder, BaseBStarTree.setOrder] at hset
    split_ifs at hset with h1 h2
    have hp := Except.ok.inj hset
    refine ⟨order.toNat, hfour h1, order.toNat_lt, ?_⟩
    rw [← hp]
    exact ⟨rfl, rfl, rfl, rfl, rfl, rfl, rfl, rfl, fun h => by cases h⟩
  | bStarPlusTree =>
    rw [hk'] at hset
    simp only [setOrder, BaseBStarPlusTree.setOrder, BaseBStarTree.setOrder] at hset
    split_ifs at hset with h1 h2
    · cases hset
    · cases hset
    · have hp := Except.ok.inj hset
      refine ⟨order.toNat, hfour h1, order.toNat_lt, ?_⟩
      rw [← hp]
      exact ⟨rfl, rfl, rfl, rfl, rfl, rfl, rfl, rfl, fun _ => rfl⟩

theorem maxOf_le_slots (hT : T.Valid) (h : ℕ) : T.maxOf h ≤ T.slots := by
  cases hk : T.treeType with
  | bTree =>
    obtain ⟨m, -, -, -, hmax, hslots⟩ := valid_bTree hT hk
    simp [Cfg.maxOf, hk, hmax, hslots]
  | bPlusTree =>
    obtain ⟨m, -, -, -, hmax, -, hleaf, hslots⟩ := valid_bPlusTree hT hk
    simp only [Cfg.maxOf, hk, hmax, hslots, hleaf]
    split <;> omega
  | bStarTree =>
    obtain ⟨m, -, -, -, hmax, -, -, -, -, -, hslots, -⟩ := valid_star hT (by rw [hk]; rfl)
    simp [Cfg.maxOf, hk, hmax, hslots]
  | bStarPlusTree =>
    obtain ⟨m, -, -, -, hmax, -, -, -, -, -, hslots, -⟩ := valid_star hT (by rw [hk]; rfl)
    simp [Cfg.maxOf, hk, hmax, hslots]

theorem maxRootOf_le_slots (hT : T.Valid) (h : ℕ) : T.maxRootOf h ≤ T.slots := by
  have hmax := maxOf_le_slots hT h
  cases hk : T.treeType with
  | bTree => simpa only [Cfg.maxRootOf, hk] using hmax
  | bPlusTree => simpa only [Cfg.maxRootOf, hk] using hmax
  | bStarTree =>
    obtain ⟨m, -, -, -, -, hroot, -, -, -, -, hslots, -⟩ := valid_star hT (by rw [hk]; rfl)
    simp [Cfg.maxRootOf, hk, hroot, hslots]
  | bStarPlusTree =>
    obtain ⟨m, -, -, -, -, hroot, -, -, -, -, hslots, -⟩ := valid_star hT (by rw [hk]; rfl)
    simp [Cfg.maxRootOf, hk, hroot, hslots]

/-- A page has room for as many keys as its capacity. -/
theorem capacity_le_slots (hT : T.Valid) (h : ℕ) (ref : PageRef κ) : T.capacity h ref ≤ T.slots := by
  cases ref with
  | rootPage => exact maxRootOf_le_slots hT h
  | «local» pw => exact maxOf_le_slots hT h

/-- A page that is not the root has a key. -/
theorem one_le_minOf (hT : T.Valid) (h : ℕ) : 1 ≤ T.minOf h := by
  cases hk : T.treeType with
  | bTree =>
    obtain ⟨m, hm, -, hmin, -, -⟩ := valid_bTree hT hk
    simp only [Cfg.minOf, hk, hmin]
    simp
    omega
  | bPlusTree =>
    obtain ⟨m, hm, -, hmin, -, hleaf, -, -⟩ := valid_bPlusTree hT hk
    simp only [Cfg.minOf, hk, hmin, hleaf]
    split <;> omega
  | bStarTree =>
    obtain ⟨m, hm, -, hmin, -⟩ := valid_star hT (by rw [hk]; rfl)
    simp only [Cfg.minOf, hk, hmin]
    simp
    omega
  | bStarPlusTree =>
    obtain ⟨m, hm, -, hmin, -⟩ := valid_star hT (by rw [hk]; rfl)
    simp only [Cfg.minOf, hk, hmin]
    simp
    omega

/-- A full root has a key to move up and a key left. -/
theorem two_le_maxRootOf (hT : T.Valid) (h : ℕ) : 2 ≤ T.maxRootOf h := by
  cases hk : T.treeType with
  | bTree =>
    obtain ⟨m, hm, -, -, hmax, -⟩ := valid_bTree hT hk
    simp only [Cfg.maxRootOf, Cfg.maxOf, hk, hmax]
    simp
    omega
  | bPlusTree =>
    obtain ⟨m, hm, -, -, hmax, -, hleaf, -⟩ := valid_bPlusTree hT hk
    simp only [Cfg.maxRootOf, Cfg.maxOf, hk, hmax, hleaf]
    split <;> omega
  | bStarTree =>
    obtain ⟨m, hm, -, -, -, hroot, -⟩ := valid_star hT (by rw [hk]; rfl)
    simp only [Cfg.maxRootOf, hk, hroot]
    omega
  | bStarPlusTree =>
    obtain ⟨m, hm, -, -, -, hroot, -⟩ := valid_star hT (by rw [hk]; rfl)
    simp only [Cfg.maxRootOf, hk, hroot]
    omega

/-- A page of the right size fits into its slots. -/
theorem Node.Sized.fits {h : ℕ} {t : Node κ} (hT : T.Valid) (hsz : t.Sized T h) :
    t.Fits T.slots h := by
  induction h generalizing t with
  | zero => exact hsz.2.trans (maxOf_le_slots hT 0)
  | succ h ih => exact ⟨hsz.1.2.trans (maxOf_le_slots hT (h + 1)), fun c hc => ih (hsz.2 c hc)⟩

/-! ## Buffers for keys -/

/-- The buffer for the keys of two full children and the key between them has less than 2^31 bytes. -/
def Params.SplitBufferFits (p : Params) : Prop := (2 * p.maxKeys + 1) * p.recSize < 2 ^ 31

/-- The buffer for the keys of three minimal children and the two keys between them has less than 2^31
bytes. -/
def Params.MergeBufferFits (p : Params) : Prop := (3 * p.minKeys + 2) * p.recSize < 2 ^ 31

instance (p : Params) : Decidable p.SplitBufferFits := inferInstanceAs (Decidable (_ < _))

instance (p : Params) : Decidable p.MergeBufferFits := inferInstanceAs (Decidable (_ < _))

/-- The size of the buffer for the keys of two full children, by the order of a B*-tree or B*+-tree. -/
theorem splitBufferFits_of_setOrder {treeType : TreeType} {order recSize : UInt16} {p : Params}
    (hset : setOrder treeType order recSize = .ok p) (hk : treeType.isStar = true)
    (hsize : (2 * order.toNat + 1) * recSize.toNat < 2 ^ 31) : p.SplitBufferFits := by
  have hstar : ∀ {p : Params}, BaseBStarTree.setOrder order recSize = .ok p →
      p.maxKeys = order.toNat ∧ p.recSize = recSize.toNat := by
    intro p hp
    simp only [BaseBStarTree.setOrder] at hp
    split_ifs at hp
    rw [← Except.ok.inj hp]
    exact ⟨rfl, rfl⟩
  have hparams : p.maxKeys = order.toNat ∧ p.recSize = recSize.toNat := by
    cases treeType with
    | bTree => cases hk
    | bPlusTree => cases hk
    | bStarTree => exact hstar hset
    | bStarPlusTree =>
      have hset : (BaseBStarTree.setOrder order recSize >>= _ : Except Err Params) = .ok p := hset
      cases hbase : BaseBStarTree.setOrder order recSize with
      | error e =>
        rw [hbase] at hset
        cases hset
      | ok p' =>
        rw [hbase] at hset
        cases hset
        have hbase := hstar hbase
        exact hbase
  rw [Params.SplitBufferFits, hparams.1, hparams.2]
  exact hsize

/-- `new` gives a buffer of less than 2^31 bytes. -/
theorem newKeys_run {n : ℕ} (hn : n * T.recSize < 2 ^ 31) (s : BTree κ) : newKeys T n s = .ok ((), s) := by
  unfold newKeys
  rw [if_pos hn]
  rfl

/-- `new` throws if the number of bytes is negative as an `int`. -/
theorem newKeys_throws {n : ℕ} (hn : ¬n * T.recSize < 2 ^ 31) (s : BTree κ) :
    newKeys T n s = .error .badArrayNewLength := by
  unfold newKeys
  rw [if_neg hn]
  rfl

/-- A buffer for no more keys than those of two full children and the key between them. -/
theorem Params.SplitBufferFits.newKeys_run (hfit : T.SplitBufferFits) {n : ℕ} (hn : n ≤ 2 * T.maxKeys + 1)
    (s : BTree κ) : newKeys T n s = .ok ((), s) :=
  BTreesMods.newKeys_run ((Nat.mul_le_mul_right _ hn).trans_lt hfit) s

/-- Three minimal children have fewer keys than two full ones. -/
theorem Params.SplitBufferFits.mergeBufferFits (hT : T.Valid) (hk : T.treeType.isStar = true)
    (hfit : T.SplitBufferFits) : T.MergeBufferFits := by
  obtain ⟨m, hm, -, hmin, hmax, -⟩ := valid_star hT hk
  have hkeys : 3 * T.minKeys + 2 ≤ 2 * T.maxKeys + 1 := by omega
  exact (Nat.mul_le_mul_right _ hkeys).trans_lt hfit

end

end BTreesMods
