import BTreesMods.Tree.Stands

/-!
# Well-formed trees

`WellFormed T s h t`: the open tree `s` stores the tree `t` of height `h`, with everything that the
four classes keep between two calls. The order of the routers is stated key by key
(`Node.RoutersFit`); on a tree whose pages are not empty it is the property `Routed` of the in-order
sequence (`routed_tokens`, `routersFit_of_routed`).
-/

namespace BTreesMods

variable {κ : Type}

/-! ## Definitions -/

/-- The router `x` between the children `c` and `d` is equal to the greatest key of `c`, which is a
record, and not greater than any key of `d`. -/
structure RouterFits (T : Cfg κ) (h : ℕ) (c d : Node κ) (x : κ) : Prop where
  max_left : ∃ m ∈ c.records T h, (T.compare m x = false ∧ T.compare x m = false) ∧
    ∀ y ∈ c.tokens T h, T.compare m y.key = false
  le_right : ∀ y ∈ d.tokens T h, T.compare y.key x = false

/-- Every router of a tree fits between its two children. -/
def Node.RoutersFit (T : Cfg κ) : ℕ → Node κ → Prop
  | 0, _ => True
  | h + 1, t => (∀ i c d x, t.kids[i]? = some c → t.kids[i + 1]? = some d → t.keys[i]? = some x →
      RouterFits T h c d x) ∧ ∀ c ∈ t.kids, RoutersFit T h c

/-- The sizes of all pages of a whole tree. -/
structure Node.RootSized (T : Cfg κ) (h : ℕ) (t : Node κ) : Prop where
  le_max : t.keys.length ≤ T.maxRootOf h
  pos : h ≠ 0 → 1 ≤ t.keys.length
  below : SizedBelow T h t.kids

/-- The open tree `s` stores the tree `t`, whose leaves are all `h` levels below the root; pages
outside the tree that allocation does not return are allowed. -/
structure WellFormed (T : Cfg κ) (s : BTree κ) (h : ℕ) (t : Node κ) : Prop where
  page_eq : t.page = s.rootPageNum
  rootPage_eq : s.rootPage = s.wrapper s.rootPageNum
  rep : Rep s.stream.page h t
  store : ∃ R, Store s (t.pages h + R)
  sized : t.RootSized T h
  sorted : Sorted T.compare (t.tokens T h)
  routers : T.treeType.hasRouters = true → t.RoutersFit T h

/-! ## Standing on the root page -/

section

variable {T : Cfg κ} {s : BTree κ} {R : Multiset ℕ} {ref : PageRef κ} {h : ℕ} {t : Node κ}

theorem WellFormed.stands (hw : WellFormed T s h t) : ∃ R, Stands s R .rootPage h t := by
  obtain ⟨R, hR⟩ := hw.store
  have hvalue : PageRef.value s .rootPage = s.wrapper t.page := by
    rw [hw.page_eq]
    exact hw.rootPage_eq
  refine ⟨R, ⟨⟨hR, ⟨?_, hw.page_eq.symm⟩, ?_, hw.rep.below⟩, hvalue⟩⟩
  · rw [hvalue]
    rfl
  · rw [hvalue]
    exact hw.rep.on

/-- The wrapper of the root page is the member `_rootPage`. -/
theorem Stands.ref_eq (hs : Stands s R ref h t) (hroot : s.rootPageNum = t.page) :
    ref = .rootPage := by
  cases ref with
  | rootPage => rfl
  | «local» pw =>
    have hmem : s.rootPageNum ∈ R := hs.at_page.root
    exact absurd (hroot ▸ hmem) hs.page_not_mem

end

/-! ## Routers in the in-order sequence -/

/-- A sequence that begins and ends with a record. -/
def Enclosed (ts : List (Token κ)) : Prop :=
  (∃ k us, ts = .record k :: us) ∧ ∃ k us, ts = us ++ [.record k]

section

variable {T : Cfg κ} {lt : κ → κ → Bool} {page : ℕ → Page κ} {h : ℕ} {t : Node κ}

theorem enclosed_records {ks : List κ} (hks : ks ≠ []) : Enclosed (ks.map Token.record) := by
  constructor
  · obtain ⟨k, us, rfl⟩ := List.exists_cons_of_ne_nil hks
    exact ⟨k, us.map .record, rfl⟩
  · obtain ⟨us, k, rfl⟩ := List.eq_nil_or_concat ks |>.resolve_left hks
    exact ⟨k, us.map .record, by simp⟩

/-- The sequence of a tree whose pages are not empty begins and ends in a leaf. -/
theorem enclosed_tokens (hT : T.Valid) (hr : Rep page h t) (hsz : t.Sized T h) :
    Enclosed (t.tokens T h) := by
  induction h generalizing t with
  | zero =>
    have := one_le_minOf hT 0
    exact enclosed_records (List.length_pos_iff.mp (this.trans hsz.1))
  | succ h ih =>
    obtain ⟨p, K, C⟩ := t
    have hlen : C.length = K.length + 1 := hr.length_kids
    have hkid : ∀ c ∈ C, Enclosed (c.tokens T h) := fun c hc => ih (hr.2 c hc) (hsz.2 c hc)
    constructor
    · obtain ⟨c, C, rfl⟩ := List.exists_cons_of_length_eq_add_one hlen
      obtain ⟨k, us, hk⟩ := (hkid c (by simp)).1
      exact ⟨k, us ++ after (K.map T.sep) (C.map (Node.tokens T h)), by
        rw [Node.tokens, List.map_cons, weave_cons, hk]
        rfl⟩
    · obtain ⟨P, c, rfl⟩ : ∃ P c, C = P ++ [c] := by
        rcases List.eq_nil_or_concat C with rfl | ⟨P, c, rfl⟩
        · simp at hlen
        · exact ⟨P, c, by simp⟩
      obtain ⟨k, us, hk⟩ := (hkid c (by simp)).2
      have haround := tokens_around (T := T) (h := h) (p := p) (c := c) (L := []) (S := [])
        (by simpa using hlen : P.length = K.length)
      rw [List.append_nil] at haround
      exact ⟨k, tokensBefore T h P K ++ us, by
        rw [haround, hk]
        simp [tokensAfter, after]⟩

theorem routed_records (prev : Option κ) (ks : List κ) :
    RoutedFrom lt prev (ks.map Token.record) := by
  induction ks generalizing prev with
  | nil => trivial
  | cons k ks ih => exact ih (some k)

theorem Enclosed.routedFrom {ts : List (Token κ)} (he : Enclosed ts) (prev : Option κ) :
    RoutedFrom lt prev ts ↔ Routed lt ts := by
  obtain ⟨⟨k, us, rfl⟩, -⟩ := he
  rfl

theorem Enclosed.lastKey_append {ts us : List (Token κ)} {k : κ} (prev : Option κ)
    (hts : ts = us ++ [.record k]) (A : List (Token κ)) : lastKey prev (A ++ ts) = some k := by
  subst hts
  rw [← List.append_assoc, lastKey, List.getLast?_concat]
  rfl

theorem routedFrom_weave {cs : List (List (Token κ))} {ks : List (Token κ)} (prev : Option κ)
    (hlen : cs.length = ks.length + 1) (hcs : ∀ c ∈ cs, Enclosed c ∧ Routed lt c)
    (hks : ∀ (i : ℕ) (c us : List (Token κ)) (k : κ) (x : Token κ), cs[i]? = some c →
      c = us ++ [.record k] → ks[i]? = some x → lt k x.key = false ∧ lt x.key k = false) :
    RoutedFrom lt prev (weave cs ks) := by
  induction cs generalizing ks prev with
  | nil => simp at hlen
  | cons c cs ih =>
    obtain ⟨hc, hroutes⟩ := hcs c (by simp)
    cases ks with
    | nil => exact (hc.routedFrom prev).mpr hroutes
    | cons x ks =>
      have hrest : ∀ prev, RoutedFrom lt prev (weave cs ks) := fun prev =>
        ih prev (by simpa using hlen) (fun c hc => hcs c (by simp [hc]))
          fun i c us k x hci hcu hx => hks (i + 1) c us k x (by simpa using hci) hcu
            (by simpa using hx)
      change RoutedFrom lt prev (c ++ x :: weave cs ks)
      refine (routedFrom_append prev).mpr ⟨(hc.routedFrom prev).mpr hroutes, ?_⟩
      obtain ⟨k, us, hk⟩ := hc.2
      rw [show lastKey prev c = some k from Enclosed.lastKey_append prev hk []]
      cases x with
      | record y => exact hrest _
      | router r => exact ⟨hks 0 c us k (.router r) (by simp) hk (by simp), hrest _⟩

/-- The routers of a tree that fit stand directly behind an equal record. -/
theorem routed_tokens (hT : T.Valid) (hlt : StrictWeak T.compare) (hr : Rep page h t)
    (hsz : SizedBelow T h t.kids) (hs : Sorted T.compare (t.tokens T h))
    (hfit : t.RoutersFit T h) : Routed T.compare (t.tokens T h) := by
  induction h generalizing t with
  | zero => exact routed_records none _
  | succ h ih =>
    obtain ⟨p, K, C⟩ := t
    have hlen : C.length = K.length + 1 := hr.length_kids
    have hkid : ∀ c ∈ C, Enclosed (c.tokens T h) := fun c hc =>
      enclosed_tokens hT (hr.2 c hc) (hsz c hc)
    have hsorted : ∀ c ∈ C, Sorted T.compare (c.tokens T h) := by
      intro c hc
      obtain ⟨P, S, rfl⟩ := List.append_of_mem hc
      rw [List.length_append, List.length_cons] at hlen
      obtain ⟨K1, K2, rfl, hP⟩ : ∃ K1 K2, K = K1 ++ K2 ∧ P.length = K1.length :=
        ⟨K.take P.length, K.drop P.length, by simp, by rw [List.length_take]; omega⟩
      rw [tokens_around hP] at hs
      exact (sorted_append.mp (sorted_append.mp hs).2.1).1
    refine routedFrom_weave none (by simpa using hlen) ?_ ?_
    · simp only [List.mem_map, forall_exists_index, and_imp]
      rintro _ c hc rfl
      exact ⟨hkid c hc, ih (hr.2 c hc) (sized_iff.mp (hsz c hc)).2 (hsorted c hc) (hfit.2 c hc)⟩
    · intro i ts us m x hc hts hx
      simp only [List.getElem?_map, Option.map_eq_some_iff] at hc hx
      obtain ⟨c, hc, rfl⟩ := hc
      obtain ⟨x, hx, rfl⟩ := hx
      obtain ⟨d, hd⟩ : ∃ d, C[i + 1]? = some d := by
        have hi : i < K.length := (List.getElem?_eq_some_iff.mp hx).1
        exact ⟨C[i + 1], List.getElem?_eq_getElem (by omega)⟩
      obtain ⟨k, hk, ⟨hkx, hxk⟩, hmax⟩ := (hfit.1 i c d x hc hd hx).max_left
      -- the last record and the greatest key of `c` are equal
      have hcm := hsorted c (List.mem_of_getElem? hc)
      have hkm : T.compare k m = false := hmax (.record m) (by rw [hts]; simp)
      have hmk : T.compare m k = false := by
        have hmem := mem_recordsOf.mp hk
        rw [hts] at hcm hmem
        rcases List.mem_append.mp hmem with hmem | hmem
        · exact (sorted_append.mp hcm).2.2 _ hmem (.record m) (by simp)
        · obtain rfl : k = m := by simpa using hmem
          exact hlt.irrefl k
      rw [key_sep]
      exact ⟨hlt.le_trans hkx hmk, hlt.le_trans hkm hxk⟩

/-- Routers that stand directly behind an equal record fit. -/
theorem routersFit_of_routed (hT : T.Valid) (hlt : StrictWeak T.compare)
    (hrouters : T.treeType.hasRouters = true) (hr : Rep page h t) (hsz : SizedBelow T h t.kids)
    (hs : Sorted T.compare (t.tokens T h)) (hroutes : Routed T.compare (t.tokens T h)) :
    t.RoutersFit T h := by
  induction h generalizing t with
  | zero => trivial
  | succ h ih =>
    obtain ⟨p, K, C⟩ := t
    have hlen : C.length = K.length + 1 := hr.length_kids
    have hkid : ∀ c ∈ C, Enclosed (c.tokens T h) := fun c hc =>
      enclosed_tokens hT (hr.2 c hc) (hsz c hc)
    refine ⟨fun i c d x hc hd hx => ?_, fun c hc => ?_⟩
    · dsimp only at hc hd hx
      obtain ⟨hi, rfl⟩ := List.getElem?_eq_some_iff.mp hc
      obtain ⟨hi', rfl⟩ := List.getElem?_eq_some_iff.mp hd
      obtain ⟨hik, rfl⟩ := List.getElem?_eq_some_iff.mp hx
      have htok := tokens_around₂ (T := T) (h := h) (p := p) (P := C.take i) (c := C[i])
        (d := C[i + 1]) (S := C.drop (i + 2)) (K := K.take i) (m := K[i]) (L := K.drop (i + 1))
        (by rw [List.length_take, List.length_take]; omega)
      rw [← List.drop_eq_getElem_cons hi', ← List.drop_eq_getElem_cons hi, List.take_append_drop,
        ← List.drop_eq_getElem_cons hik, List.take_append_drop] at htok
      rw [htok, ← List.append_assoc, ← List.append_assoc] at hroutes
      rw [htok] at hs
      obtain ⟨m, us, hm⟩ := (hkid C[i] (List.getElem_mem hi)).2
      have hcd := (sorted_append.mp (sorted_append.mp hs).2.1).1
      have hlast := ((routedFrom_append none).mp ((routedFrom_append none).mp hroutes).1).2
      rw [Enclosed.lastKey_append none hm, Cfg.sep, if_pos hrouters] at hlast
      refine ⟨⟨m, ?_, hlast.1, fun y hy => ?_⟩, fun y hy => ?_⟩
      · exact mem_recordsOf.mpr (by rw [hm]; simp)
      · have hc' := (sorted_append.mp hcd).1
        rw [hm] at hc' hy
        rcases List.mem_append.mp hy with hy | hy
        · exact (sorted_append.mp hc').2.2 y hy (.record m) (by simp)
        · rw [List.mem_singleton.mp hy]
          exact hlt.irrefl m
      · have := (sorted_cons.mp (sorted_append.mp hcd).2.1).1 y hy
        rwa [key_sep] at this
    · obtain ⟨P, S, rfl⟩ := List.append_of_mem hc
      rw [List.length_append, List.length_cons] at hlen
      obtain ⟨K1, K2, rfl, hP⟩ : ∃ K1 K2, K = K1 ++ K2 ∧ P.length = K1.length :=
        ⟨K.take P.length, K.drop P.length, by simp, by rw [List.length_take]; omega⟩
      rw [tokens_around hP] at hs hroutes
      refine ih (hr.2 c hc) (sized_iff.mp (hsz c hc)).2
        (sorted_append.mp (sorted_append.mp hs).2.1).1 ?_
      have := ((routedFrom_append none).mp hroutes).2
      exact ((hkid c hc).routedFrom _).mp ((routedFrom_append _).mp this).1

end

/-! ## A new tree -/

/-- The tree after `createTree`: a single empty leaf. -/
def BTree.created [Inhabited κ] (order recSize : UInt16) (noReturn : ℕ → Bool) : BTree κ where
  rootPage := ⟨1, Page.cleared 0 true⟩
  lastPageNum := 1
  rootPageNum := 1
  freePagesCounter := 0
  stream :=
    { order := order, recSize := recSize, pageCounter := 1, rootPageNum := 1
      page := Function.update (fun _ => Page.cleared 0 false) 1 (Page.cleared 0 true)
      freePagesCounter := 0, freePages := [] }
  noReturn := noReturn

theorem createTree_run [Inhabited κ] (order recSize : UInt16) (noReturn : ℕ → Bool) :
    createTree (BTree.fresh order recSize noReturn : BTree κ) =
      .ok ((), BTree.created order recSize noReturn) :=
  rfl

theorem created_stands [Inhabited κ] (order recSize : UInt16) (noReturn : ℕ → Bool) :
    Stands (BTree.created order recSize noReturn : BTree κ) 0 .rootPage 0 ⟨1, [], []⟩ := by
  refine ⟨⟨⟨?_, rfl⟩, ⟨rfl, rfl⟩, ⟨rfl, rfl, rfl⟩, rfl⟩, ?_⟩
  · simp [Node.pages, BTree.created]
  · simp [PageRef.value, BTree.wrapper, BTree.created]

theorem created_stored [Inhabited κ] (order recSize : UInt16) (noReturn : ℕ → Bool) :
    (BTree.created order recSize noReturn : BTree κ).Stored :=
  ⟨rfl, rfl, rfl⟩

/-- A new tree is well formed. -/
theorem created_wellFormed [Inhabited κ] (T : Cfg κ) (order recSize : UInt16)
    (noReturn : ℕ → Bool) : WellFormed T (BTree.created order recSize noReturn) 0 ⟨1, [], []⟩ := by
  have hs := created_stands (κ := κ) order recSize noReturn
  refine ⟨rfl, hs.value_eq, hs.rep, ⟨0, hs.store⟩, ⟨Nat.zero_le _, fun h => absurd rfl h, trivial⟩,
    List.Pairwise.nil, fun _ => trivial⟩

/-- A tree of numbers in their usual order. -/
def natCfg (treeType : TreeType) (order : UInt16) : Cfg ℕ where
  toParams := (setOrder treeType order 4).toOption.getD default
  compare := fun a b => decide (a < b)
  isEqual := fun a b => a == b
  treeType := treeType

theorem natCfg_strictWeak (treeType : TreeType) (order : UInt16) :
    StrictWeak (natCfg treeType order).compare where
  irrefl a := by simp [natCfg]
  trans a b c := by
    simp only [natCfg, decide_eq_true_eq]
    omega
  cotrans a b c := by
    simp only [natCfg, decide_eq_false_iff_not]
    omega

/-! ## Trees given by their pages -/

/-- A page with the given keys and cursors. -/
def Page.filled (ks cs : List ℕ) : Page ℕ :=
  ⟨ks.length, cs.isEmpty, fun i => ks.getD i 0, fun i => cs.getD i 0⟩

/-- An open tree with the root page 1 and `n` pages, none of them free. -/
def BTree.withPages {κ : Type} (order recSize : UInt16) (n : ℕ) (page : ℕ → Page κ) : BTree κ where
  rootPage := ⟨1, page 1⟩
  lastPageNum := n
  rootPageNum := 1
  freePagesCounter := 0
  stream :=
    { order := order, recSize := recSize, pageCounter := n, rootPageNum := 1, page := page
      freePagesCounter := 0, freePages := [] }
  noReturn := fun _ => false

/-- An open tree of numbers of the given order. -/
def BTree.ofPages (order : UInt16) (n : ℕ) (page : ℕ → Page ℕ) : BTree ℕ := BTree.withPages order 4 n page

instance {κ : Type} [DecidableEq κ] (leaf : Bool) (ks : List κ) (cs : List ℕ) (pg : Page κ) :
    Decidable (pg.Holds leaf ks cs) :=
  decidable_of_iff (pg.isLeaf = leaf ∧ pg.keyList = ks ∧ if leaf then cs = [] else pg.cursorList = cs)
    ⟨fun h => ⟨h.1, h.2.1, h.2.2⟩, fun h => ⟨h.1, h.2, h.3⟩⟩

instance Rep.decidable {κ : Type} [DecidableEq κ] (page : ℕ → Page κ) :
    ∀ (h : ℕ) (t : Node κ), Decidable (Rep page h t)
  | 0, t => inferInstanceAs (Decidable ((page t.page).Holds true t.keys (t.kids.map Node.page) ∧ t.kids = []))
  | h + 1, t =>
    have := Rep.decidable page h
    inferInstanceAs (Decidable ((page t.page).Holds false t.keys (t.kids.map Node.page) ∧
      ∀ c ∈ t.kids, Rep page h c))

instance Node.Sized.decidable {κ : Type} (T : Cfg κ) : ∀ (h : ℕ) (t : Node κ), Decidable (t.Sized T h)
  | 0, t => inferInstanceAs (Decidable (T.minOf 0 ≤ t.keys.length ∧ t.keys.length ≤ T.maxOf 0))
  | h + 1, t =>
    have := Node.Sized.decidable T h
    inferInstanceAs (Decidable ((T.minOf (h + 1) ≤ t.keys.length ∧ t.keys.length ≤ T.maxOf (h + 1)) ∧
      ∀ c ∈ t.kids, c.Sized T h))

instance {κ : Type} (T : Cfg κ) : ∀ (h : ℕ) (ts : List (Node κ)), Decidable (SizedBelow T h ts)
  | 0, _ => isTrue trivial
  | h + 1, ts => inferInstanceAs (Decidable (∀ c ∈ ts, c.Sized T h))

section

variable {order recSize : UInt16} {n h : ℕ} {page : ℕ → Page κ} {t : Node κ}

theorem withPages_stands (hp : t.page = 1) (hrep : Rep page h t)
    (hst : t.pages h = (List.range' 1 n : Multiset ℕ)) :
    Stands (BTree.withPages order recSize n page) 0 .rootPage h t where
  store := ⟨by rw [add_zero]; exact (add_zero _).trans hst, rfl⟩
  at_page := ⟨hp.symm, hp.symm⟩
  on := by
    have hon := hrep.on
    rwa [hp] at hon
  below := hrep.below
  value_eq := by
    rw [hp]
    rfl

theorem withPages_wellFormed {T : Cfg κ} (hp : t.page = 1) (hrep : Rep page (h + 1) t)
    (hst : t.pages (h + 1) = (List.range' 1 n : Multiset ℕ))
    (hlen : 1 ≤ t.keys.length ∧ t.keys.length ≤ T.maxRootOf (h + 1)) (hsz : ∀ c ∈ t.kids, c.Sized T h)
    (hs : Sorted T.compare (t.tokens T (h + 1)))
    (hrouters : T.treeType.hasRouters = true → t.RoutersFit T (h + 1)) :
    WellFormed T (BTree.withPages order recSize n page) (h + 1) t where
  page_eq := hp
  rootPage_eq := rfl
  rep := hrep
  store := ⟨0, by rw [add_zero]; exact (add_zero _).trans hst, rfl⟩
  sized := ⟨hlen.2, fun _ => hlen.1, hsz⟩
  sorted := hs
  routers := hrouters

end

theorem ofPages_stands {order : UInt16} {n h : ℕ} {page : ℕ → Page ℕ} {t : Node ℕ} (hp : t.page = 1)
    (hrep : Rep page h t) (hst : t.pages h = (List.range' 1 n : Multiset ℕ)) :
    Stands (BTree.ofPages order n page) 0 .rootPage h t :=
  withPages_stands hp hrep hst

theorem ofPages_wellFormed {T : Cfg ℕ} {order : UInt16} {n h : ℕ} {page : ℕ → Page ℕ} {t : Node ℕ}
    (hrouters : T.treeType.hasRouters = false) (hp : t.page = 1) (hrep : Rep page (h + 1) t)
    (hst : t.pages (h + 1) = (List.range' 1 n : Multiset ℕ))
    (hlen : 1 ≤ t.keys.length ∧ t.keys.length ≤ T.maxRootOf (h + 1)) (hsz : ∀ c ∈ t.kids, c.Sized T h)
    (hs : Sorted T.compare (t.tokens T (h + 1))) :
    WellFormed T (BTree.ofPages order n page) (h + 1) t :=
  withPages_wellFormed hp hrep hst hlen hsz hs fun h => by
    rw [hrouters] at h
    cases h

/-! ## A tree of three levels -/

/-- A B-tree of order 2, each of whose pages has one key. -/
def BTree.threeLevels : BTree ℕ := .ofPages 2 7 fun p =>
  if p = 1 then .filled [4] [2, 3] else if p = 2 then .filled [2] [4, 5] else if p = 3 then .filled [6] [6, 7]
  else .filled [2 * p - 7] []

def Node.threeLevels : Node ℕ :=
  ⟨1, [4], [⟨2, [2], [⟨4, [1], []⟩, ⟨5, [3], []⟩]⟩, ⟨3, [6], [⟨6, [5], []⟩, ⟨7, [7], []⟩]⟩]⟩

theorem threeLevels_wellFormed : WellFormed (natCfg .bTree 2) BTree.threeLevels 2 Node.threeLevels :=
  ofPages_wellFormed rfl rfl (by decide) (by decide) (by decide) (by decide) (by
    unfold Sorted
    decide)

end BTreesMods
