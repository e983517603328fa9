import BTreesMods.Lookup.Search
import BTreesMods.Model.Dot

/-!
# The printed graph

`writeDot` prints a node for each position of a tree and an edge for each cursor. The code of a
position is `node0` followed by the decimal numbers of the children on the way to it, so the graph is
a picture of the tree exactly when these concatenations are different (`writeDot_pictures_iff`).

Main results: `writeDot_run`, what is printed; `digits_inj`, the codes are different when only the
pages right above the leaves have more than ten cursors.
-/

namespace BTreesMods

variable {κ : Type}

/-! ## Positions -/

/-- The positions below the children from number `i` on. -/
def placesFrom (places : Node κ → List (List ℕ × Node κ)) :
    ℕ → List (Node κ) → List (List ℕ × Node κ)
  | _, [] => []
  | i, c :: cs => (places c).map (fun q => (i :: q.1, q.2)) ++ placesFrom places (i + 1) cs

/-- The positions of a tree of height `h`, each with the node there: the numbers of the children on
the way from the root. -/
def Node.places : ℕ → Node κ → List (List ℕ × Node κ)
  | 0, t => [([], t)]
  | h + 1, t => ([], t) :: placesFrom (Node.places h) 0 t.kids

/-- The cursors below the children from number `i` on, and those to these children. -/
def arcsFrom (arcs : Node κ → List (List ℕ × ℕ)) : ℕ → List (Node κ) → List (List ℕ × ℕ)
  | _, [] => []
  | i, c :: cs => (arcs c).map (fun a => (i :: a.1, a.2)) ++ ([], i) :: arcsFrom arcs (i + 1) cs

/-- The cursors of a tree of height `h`: the position of the page and the number of the cursor. -/
def Node.arcs : ℕ → Node κ → List (List ℕ × ℕ)
  | 0, _ => []
  | h + 1, t => arcsFrom (Node.arcs h) 0 t.kids

/-- The code and the keys of a node statement. -/
def DotLine.node? : DotLine → Option (String × List String)
  | .node code keys => some (code, keys)
  | .edge _ _ _ => none

/-- The two codes of an edge statement with the number of the port. -/
def DotLine.edge? : DotLine → Option (String × ℕ × String)
  | .node _ _ => none
  | .edge code c childCode => some (code, c, childCode)

/-- The printed graph is isomorphic to the tree: one node for each position, and one edge for each
cursor, from its port to the node of the child. -/
def Pictures (print : κ → String) (h : ℕ) (t : Node κ) (lines : List DotLine) : Prop :=
  ∃ f : List ℕ → String, Set.InjOn f {p | p ∈ (t.places h).map Prod.fst} ∧
    (lines.filterMap DotLine.node?).Perm
      ((t.places h).map fun q => (f q.1, q.2.keys.map print)) ∧
    (lines.filterMap DotLine.edge?).Perm ((t.arcs h).map fun a => (f a.1, a.2, f (a.1 ++ [a.2])))

/-- Only the pages right above the leaves have more than ten cursors. -/
def Node.Narrow : ℕ → Node κ → Prop
  | 0, _ => True
  | 1, _ => True
  | h + 2, t => t.kids.length ≤ 10 ∧ ∀ c ∈ t.kids, c.Narrow (h + 1)

section

variable {h i : ℕ} {t c : Node κ} {cs : List (Node κ)} {p q : List ℕ}

theorem mem_placesFrom {f : Node κ → List (List ℕ × Node κ)} :
    p ∈ (placesFrom f i cs).map Prod.fst ↔
      ∃ j c r, cs[j]? = some c ∧ r ∈ (f c).map Prod.fst ∧ p = (i + j) :: r := by
  induction cs generalizing i with
  | nil => simp [placesFrom]
  | cons c cs ih =>
    rw [placesFrom, List.map_append, List.mem_append, ih]
    constructor
    · rintro (hp | ⟨j, d, r, hd, hr, rfl⟩)
      · simp only [List.map_map, List.mem_map, Function.comp_apply] at hp
        obtain ⟨x, hx, rfl⟩ := hp
        exact ⟨0, c, x.1, rfl, List.mem_map_of_mem hx, rfl⟩
      · exact ⟨j + 1, d, r, hd, hr, by rw [Nat.add_right_comm, Nat.add_assoc]⟩
    · rintro ⟨j, d, r, hd, hr, rfl⟩
      cases j with
      | zero =>
        left
        obtain rfl : c = d := by simpa using hd
        obtain ⟨x, hx, rfl⟩ := List.mem_map.mp hr
        simp only [List.map_map, List.mem_map, Function.comp_apply]
        exact ⟨x, hx, rfl⟩
      | succ j => exact Or.inr ⟨j, d, r, hd, hr, by rw [Nat.add_right_comm, Nat.add_assoc]⟩

theorem mem_places_succ : p ∈ (t.places (h + 1)).map Prod.fst ↔
    p = [] ∨ ∃ j c r, t.kids[j]? = some c ∧ r ∈ (c.places h).map Prod.fst ∧ p = j :: r := by
  rw [Node.places, List.map_cons, List.mem_cons, mem_placesFrom]
  simp only [Nat.zero_add]

theorem nil_mem_places (h : ℕ) (t : Node κ) : [] ∈ (t.places h).map Prod.fst := by
  cases h with
  | zero => simp [Node.places]
  | succ h => simp [Node.places]

theorem nodup_placesFrom {f : Node κ → List (List ℕ × Node κ)}
    (hf : ∀ c ∈ cs, ((f c).map Prod.fst).Nodup) : ((placesFrom f i cs).map Prod.fst).Nodup := by
  induction cs generalizing i with
  | nil => simp [placesFrom]
  | cons c cs ih =>
    rw [placesFrom, List.map_append]
    refine List.Nodup.append ?_ (ih fun d hd => hf d (List.mem_cons_of_mem c hd)) ?_
    · rw [List.map_map]
      change (List.map (fun q => i :: q.1) (f c)).Nodup
      rw [show (fun q : List ℕ × Node κ => i :: q.1) = (List.cons i) ∘ Prod.fst from rfl, ← List.map_map]
      exact (hf c List.mem_cons_self).map (List.cons_injective)
    · intro p hp hp'
      obtain ⟨j, d, r, -, -, rfl⟩ := mem_placesFrom.mp hp'
      simp only [List.map_map, List.mem_map, Function.comp_apply, List.cons.injEq] at hp
      obtain ⟨x, -, hi, -⟩ := hp
      omega

theorem nodup_places (h : ℕ) (t : Node κ) : ((t.places h).map Prod.fst).Nodup := by
  induction h generalizing t with
  | zero => simp [Node.places]
  | succ h ih =>
    rw [Node.places, List.map_cons, List.nodup_cons]
    refine ⟨fun hmem => ?_, nodup_placesFrom fun c _ => ih c⟩
    obtain ⟨j, d, r, -, -, hr⟩ := mem_placesFrom.mp hmem
    cases hr

/-! ## Codes -/

/-- The code of a position below a page with the code `code`. -/
def codeAt (code : String) : List ℕ → String
  | [] => code
  | i :: p => codeAt (code ++ toString i) p

/-- The decimal numbers of the children on the way, one after the other. -/
def digits (p : List ℕ) : List Char := p.flatMap (Nat.toDigits 10)

theorem toList_codeAt (code : String) (p : List ℕ) :
    (codeAt code p).toList = code.toList ++ digits p := by
  induction p generalizing code with
  | nil => simp [codeAt, digits]
  | cons i p ih =>
    rw [codeAt, ih, String.toList_append, Nat.toString_eq_repr, Nat.toList_repr, List.append_assoc]
    rfl

theorem codeAt_inj_iff {code : String} : codeAt code p = codeAt code q ↔ digits p = digits q := by
  rw [← String.toList_inj, toList_codeAt, toList_codeAt, List.append_cancel_left_eq]

theorem toDigits_inj {i j : ℕ} (hij : Nat.toDigits 10 i = Nat.toDigits 10 j) : i = j := by
  have := congrArg (fun ds => Nat.ofDigitChars 10 ds 0) hij
  simpa using this

theorem digits_cons_ne_nil (i : ℕ) (p : List ℕ) : digits (i :: p) ≠ [] := by
  simp [digits, Nat.toDigits_ne_nil]

/-- Different positions have different codes when only the pages right above the leaves have more
than ten cursors. -/
theorem digits_inj (hn : t.Narrow h) (hp : p ∈ (t.places h).map Prod.fst)
    (hq : q ∈ (t.places h).map Prod.fst) (hpq : digits p = digits q) : p = q := by
  induction h generalizing t p q with
  | zero =>
    simp only [Node.places, List.map_cons, List.map_nil, List.mem_singleton] at hp hq
    rw [hp, hq]
  | succ h ih =>
    rcases mem_places_succ.mp hp with rfl | ⟨i, c, p, hc, hpc, rfl⟩ <;>
      rcases mem_places_succ.mp hq with rfl | ⟨j, d, q, hd, hqd, rfl⟩
    · rfl
    · exact absurd hpq.symm (digits_cons_ne_nil j q)
    · exact absurd hpq (digits_cons_ne_nil i p)
    · cases h with
      | zero =>
        simp only [Node.places, List.map_cons, List.map_nil, List.mem_singleton] at hpc hqd
        subst hpc hqd
        simp only [digits, List.flatMap_cons, List.flatMap_nil, List.append_nil] at hpq
        rw [toDigits_inj hpq]
      | succ h =>
        -- both numbers have one digit
        obtain ⟨hten, hbelow⟩ := hn
        have hi : i < 10 := (List.getElem?_eq_some_iff.mp hc).1.trans_le hten
        have hj : j < 10 := (List.getElem?_eq_some_iff.mp hd).1.trans_le hten
        simp only [digits, List.flatMap_cons] at hpq
        rw [Nat.toDigits_of_lt_base hi, Nat.toDigits_of_lt_base hj, List.singleton_append,
          List.singleton_append, List.cons.injEq] at hpq
        have hij : i = j := toDigits_inj (by
          rw [Nat.toDigits_of_lt_base hi, Nat.toDigits_of_lt_base hj, hpq.1])
        subst hij
        obtain rfl : c = d := Option.some.inj (hc.symm.trans hd)
        rw [ih (hbelow c (List.mem_of_getElem? hc)) hpc hqd hpq.2]

/-- Below a page with grandchildren, the eleventh child and the first child of the second one have
the same code. -/
theorem exists_same_digits {page : ℕ → Page κ} (hr : Rep page h t) (hn : ¬t.Narrow h) :
    ∃ p q, p ∈ (t.places h).map Prod.fst ∧ q ∈ (t.places h).map Prod.fst ∧ p ≠ q ∧
      digits p = digits q := by
  induction h generalizing t with
  | zero => exact absurd trivial hn
  | succ h ih =>
    cases h with
    | zero => exact absurd trivial hn
    | succ h =>
      by_cases hten : t.kids.length ≤ 10
      · -- a page further down has more than ten cursors
        obtain ⟨c, hc, hcn⟩ : ∃ c ∈ t.kids, ¬c.Narrow (h + 1) := by
          by_contra hall
          push Not at hall
          exact hn ⟨hten, hall⟩
        obtain ⟨i, hi⟩ := List.mem_iff_getElem?.mp hc
        obtain ⟨p, q, hp, hq, hne, hpq⟩ := ih (hr.2 c hc) hcn
        refine ⟨i :: p, i :: q, mem_places_succ.mpr (Or.inr ⟨i, c, p, hi, hp, rfl⟩),
          mem_places_succ.mpr (Or.inr ⟨i, c, q, hi, hq, rfl⟩), fun heq => hne (List.cons.inj heq).2, ?_⟩
        simp only [digits, List.flatMap_cons] at hpq ⊢
        rw [hpq]
      · have hten : 10 < t.kids.length := by omega
        have hone := List.getElem?_eq_getElem (l := t.kids) (i := 1) (by omega)
        have hlast := List.getElem?_eq_getElem (l := t.kids) (i := 10) (by omega)
        have hlen : t.kids[1].kids.length = t.kids[1].keys.length + 1 :=
          (hr.2 _ (List.getElem_mem _)).length_kids
        have hzero := List.getElem?_eq_getElem (l := t.kids[1].kids) (i := 0) (by omega)
        refine ⟨[10], [1, 0], ?_, ?_, by simp, by decide⟩
        · exact mem_places_succ.mpr (Or.inr ⟨10, _, [], hlast, nil_mem_places _ _, rfl⟩)
        · exact mem_places_succ.mpr (Or.inr ⟨1, _, [0], hone, mem_places_succ.mpr (Or.inr ⟨0, _, [],
            hzero, nil_mem_places _ _, rfl⟩), rfl⟩)

end

/-! ## What is printed -/

/-- The lines for the children from number `i` on. -/
def linesFrom (lines : Node κ → String → List DotLine) (code : String) :
    ℕ → List (Node κ) → List DotLine
  | _, [] => []
  | i, c :: cs => lines c (code ++ toString i) ++
      .edge code i (code ++ toString i) :: linesFrom lines code (i + 1) cs

/-- The lines for a tree of height `h`. -/
def Node.dotLines (print : κ → String) : ℕ → Node κ → String → List DotLine
  | 0, t, code => [.node code (t.keys.map print)]
  | h + 1, t, code =>
    .node code (t.keys.map print) :: linesFrom (Node.dotLines print h) code 0 t.kids

section

variable {T : Cfg κ} {s : BTree κ} {h i fuel : ℕ} {t : Node κ} {P cs : List (Node κ)} {A B : List κ}
  {Q : Multiset ℕ} {pw : PageWrapper κ} {pg : Page κ} {leaf : Bool} {cursors : List ℕ}
  {print : κ → String} {code : String}

/-- A node statement for each position. -/
theorem nodes_dotLines : (t.dotLines print h code).filterMap DotLine.node? =
    (t.places h).map fun q => (codeAt code q.1, q.2.keys.map print) := by
  induction h generalizing t code with
  | zero => rfl
  | succ h ih =>
    have hfrom : ∀ i cs, (linesFrom (Node.dotLines print h) code i cs).filterMap DotLine.node? =
        (placesFrom (Node.places h) i cs).map fun q => (codeAt code q.1, q.2.keys.map print) := by
      intro i cs
      induction cs generalizing i with
      | nil => rfl
      | cons c cs ihcs =>
        rw [linesFrom, placesFrom, List.filterMap_append, List.filterMap_cons_none rfl, ih, ihcs,
          List.map_append, List.map_map]
        rfl
    have hnode : (DotLine.node code (t.keys.map print)).node? = some (code, t.keys.map print) := rfl
    rw [Node.dotLines, Node.places, List.filterMap_cons_some hnode, hfrom, List.map_cons]
    rfl

/-- An edge statement for each cursor. -/
theorem edges_dotLines : (t.dotLines print h code).filterMap DotLine.edge? =
    (t.arcs h).map fun a => (codeAt code a.1, a.2, codeAt code (a.1 ++ [a.2])) := by
  induction h generalizing t code with
  | zero => rfl
  | succ h ih =>
    have hfrom : ∀ i cs, (linesFrom (Node.dotLines print h) code i cs).filterMap DotLine.edge? =
        (arcsFrom (Node.arcs h) i cs).map
          fun a => (codeAt code a.1, a.2, codeAt code (a.1 ++ [a.2])) := by
      intro i cs
      induction cs generalizing i with
      | nil => rfl
      | cons c cs ihcs =>
        have hedge : (DotLine.edge code i (code ++ toString i)).edge? =
            some (code, i, code ++ toString i) := rfl
        rw [linesFrom, arcsFrom, List.filterMap_append, List.filterMap_cons_some hedge, ih, ihcs,
          List.map_append, List.map_map, List.map_cons]
        rfl
    rw [Node.dotLines, Node.arcs, List.filterMap_cons_none rfl, hfrom]

theorem dotKeys_run (hon : pg.Holds leaf (A ++ B) cursors) (hs : pg.keysNum ≤ T.slots) :
    dotKeys T print pg B.length A.length = .ok (B.map print) := by
  induction B generalizing A with
  | nil => rfl
  | cons b B ih =>
    have htail := ih (A := A ++ [b]) (by rwa [List.append_assoc])
    rw [List.length_append, List.length_singleton] at htail
    rw [List.length_cons, dotKeys, hon.getKey hs, ok_bind, htail]
    rfl

/-- The loop over the children prints the lines of each one. -/
theorem dotChildren_run {writeChild : PageWrapper κ → String → TreeM κ (List DotLine)}
    (hst : Store s Q) (hon : t.On (h + 1) pw.data) (hkids : t.kids = P ++ cs)
    (hs : t.keys.length ≤ T.slots) (hQ : ∀ c ∈ cs, c.page ∈ Q)
    (hchild : ∀ c ∈ cs, ∀ code, writeChild (s.wrapper c.page) code s =
      .ok (c.dotLines print h code, s)) :
    dotChildren T writeChild pw code cs.length P.length s =
      .ok (linesFrom (Node.dotLines print h) code P.length cs, s) := by
  induction cs generalizing P with
  | nil => rfl
  | cons c cs ih =>
    have htail := ih (P := P ++ [c]) (by rw [hkids, List.append_assoc, List.singleton_append])
      (fun d hd => hQ d (List.mem_cons_of_mem c hd))
      (fun d hd => hchild d (List.mem_cons_of_mem c hd))
    rw [List.length_append, List.length_singleton] at htail
    rw [List.length_cons, dotChildren,
      bind_run (readPageFromChild_run hst (hQ c List.mem_cons_self) hon hkids hs),
      bind_run (hchild c List.mem_cons_self _), bind_run htail]
    rfl

/-- `PageWrapper::writeDot` prints the lines of the tree. -/
theorem writeDotPage_run (hst : Store s Q) (hon : t.On h pw.data)
    (hbelow : RepBelow s.stream.page h t.kids) (hfits : t.Fits T.slots h)
    (hQ : ∀ p ∈ pagesBelow h t.kids, p ∈ Q) (hfuel : h < fuel) :
    pw.writeDot T (some print) fuel code s = .ok (t.dotLines print h code, s) := by
  induction fuel generalizing h t pw code with
  | zero => omega
  | succ fuel ih =>
    have hslots : pw.data.keysNum ≤ T.slots := by
      rw [hon.keysNum_eq]
      exact hfits.length_le
    have hkeys : dotKeys T print pw.data pw.data.keysNum 0 = .ok (t.keys.map print) := by
      have hholds : pw.data.Holds (h == 0) ([] ++ t.keys) (t.kids.map Node.page) := hon
      rw [hon.keysNum_eq]
      exact dotKeys_run hholds hslots
    have hleaf : pw.data.isLeaf = (h == 0) := hon.leaf_eq
    rw [PageWrapper.writeDot, bind_run (onPages_run hkeys s)]
    cases h with
    | zero =>
      rw [if_pos (by rw [hleaf]; rfl)]
      rfl
    | succ h =>
      have hlen : pw.data.keysNum + 1 = t.kids.length := by
        rw [hon.keysNum_eq, hon.length_kids]
      have hchildren : dotChildren T (PageWrapper.writeDot T (some print) fuel) pw code
          t.kids.length 0 s = .ok (linesFrom (Node.dotLines print h) code 0 t.kids, s) :=
        dotChildren_run (P := []) hst hon rfl hfits.length_le
        (fun c hc => hQ _ (Multiset.mem_of_le (pages_le_pagesBelow hc) (page_mem_pages h c)))
        (fun c hc code => ih (hbelow c hc).on (hbelow c hc).below (hfits.2 c hc) (fun p hp => hQ p
          (Multiset.mem_of_le (pages_le_pagesBelow hc) (by
            rw [pages_eq]
            exact Multiset.mem_add.mpr (Or.inr hp)))) (by omega))
      rw [if_neg (by simp [hleaf]), hlen, bind_run hchildren]
      rfl

/-- The printed graph pictures the tree if and only if no two codes are the same. -/
theorem pictures_iff {page : ℕ → Page κ} (hr : Rep page h t) :
    Pictures print h t (t.dotLines print h "node0") ↔ t.Narrow h := by
  constructor
  · rintro ⟨f, hf, hnodes, -⟩
    by_contra hn
    obtain ⟨p, q, hp, hq, hne, hpq⟩ := exists_same_digits hr hn
    -- as many different codes as positions
    have hcodes := hnodes.map Prod.fst
    rw [nodes_dotLines, List.map_map, List.map_map] at hcodes
    have hnodup : ((t.places h).map fun q => f q.1).Nodup := by
      have := List.Nodup.map_on (fun p hp q hq heq => hf hp hq heq) (nodup_places h t)
      rwa [List.map_map] at this
    have hnodup' : (((t.places h).map Prod.fst).map (codeAt "node0")).Nodup := by
      rw [List.map_map]
      exact hcodes.nodup_iff.mpr hnodup
    exact hne (List.inj_on_of_nodup_map hnodup' hp hq (codeAt_inj_iff.mpr hpq))
  · intro hn
    refine ⟨codeAt "node0", fun p hp q hq heq => digits_inj hn hp hq (codeAt_inj_iff.mp heq), ?_, ?_⟩
    · rw [nodes_dotLines]
    · rw [edges_dotLines]

/-- What `writeDot` prints for a stored tree. -/
theorem writeDot_run {R : Multiset ℕ} (hs : Stands s R .rootPage h t) (hfits : t.Fits T.slots h)
    (print : κ → String) :
    writeDot T (some print) s = .ok (dotText (t.dotLines print h "node0"), s) := by
  have hrun : s.rootPage.writeDot T (some print) (s.lastPageNum + 1) "node0" s =
      .ok (t.dotLines print h "node0", s) :=
    writeDotPage_run hs.store hs.on hs.below hfits (fun p hp => by
      rw [pages_eq]
      exact Multiset.mem_add.mpr (Or.inl (Multiset.mem_add.mpr (Or.inr hp))))
      (hs.store.height_lt hs.on hs.below)
  unfold writeDot
  change (PageWrapper.writeDot T (some print) (s.lastPageNum + 1) s.rootPage "node0" >>= fun lines =>
    pure (dotText lines) : TreeM κ String) s = _
  rw [bind_run hrun]
  rfl

/-- `writeDot` prints a graph that is a picture of the tree if and only if only the pages right above
the leaves have more than ten cursors. -/
theorem writeDot_pictures_iff {R : Multiset ℕ} (hs : Stands s R .rootPage h t)
    (hfits : t.Fits T.slots h) (print : κ → String) :
    ∃ lines, writeDot T (some print) s = .ok (dotText lines, s) ∧
      (Pictures print h t lines ↔ t.Narrow h) :=
  ⟨_, writeDot_run hs hfits print, pictures_iff hs.rep⟩

end

/-! ## A root page with eleven children -/

/-- A B-tree of order 6 with three levels: the root page has eleven children with six leaves each. -/
def Node.wide : Node ℕ where
  page := 1
  keys := List.replicate 10 0
  kids := (List.range 11).map fun i => ⟨2 + i, List.replicate 5 0,
    (List.range 6).map fun j => ⟨13 + 6 * i + j, List.replicate 5 0, []⟩⟩

/-- The pages of the tree `Node.wide`. -/
def widePage (p : ℕ) : Page ℕ :=
  if p = 1 then ⟨10, false, fun _ => 0, fun i => 2 + i⟩
  else if p ≤ 12 then ⟨5, false, fun _ => 0, fun j => 13 + 6 * (p - 2) + j⟩
  else ⟨5, true, fun _ => 0, fun _ => 0⟩

/-- The tree `Node.wide` in 78 pages. -/
def BTree.wide : BTree ℕ where
  rootPage := ⟨1, widePage 1⟩
  lastPageNum := 78
  rootPageNum := 1
  freePagesCounter := 0
  stream :=
    { order := 6, recSize := 4, pageCounter := 78, rootPageNum := 1, page := widePage
      freePagesCounter := 0, freePages := [] }
  noReturn := fun _ => false

theorem wide_rep : Rep widePage 2 Node.wide := by
  refine ⟨⟨rfl, rfl, rfl⟩, fun c hc => ?_⟩
  obtain ⟨i, hi, rfl⟩ := List.mem_map.mp hc
  rw [List.mem_range] at hi
  have hinner : widePage (2 + i) = ⟨5, false, fun _ => 0, fun j => 13 + 6 * i + j⟩ := by
    rw [widePage, if_neg (by omega), if_pos (by omega), Nat.add_sub_cancel_left]
  refine ⟨?_, fun d hd => ?_⟩
  · rw [hinner]
    exact ⟨rfl, rfl, rfl⟩
  · obtain ⟨j, -, rfl⟩ := List.mem_map.mp hd
    have hleaf : widePage (13 + 6 * i + j) = ⟨5, true, fun _ => 0, fun _ => 0⟩ := by
      rw [widePage, if_neg (by omega), if_neg (by omega)]
    refine ⟨?_, rfl⟩
    rw [hleaf]
    exact ⟨rfl, rfl, rfl⟩

theorem wide_wellFormed : WellFormed (natCfg .bTree 6) BTree.wide 2 Node.wide where
  page_eq := rfl
  rootPage_eq := rfl
  rep := wide_rep
  store := ⟨0, by decide +kernel, rfl⟩
  sized := by
    refine ⟨by decide, fun _ => by decide, fun c hc => ?_⟩
    obtain ⟨i, -, rfl⟩ := List.mem_map.mp hc
    refine ⟨by simp only [List.length_replicate]; decide, fun d hd => ?_⟩
    obtain ⟨j, -, rfl⟩ := List.mem_map.mp hd
    simp only [Node.Sized, List.length_replicate]
    decide
  sorted := by
    unfold Sorted
    decide +kernel
  routers h := by cases h

/-- The eleventh child of the root page and the first child of the second one are both printed as
`node010`. -/
theorem writeDot_wide : WellFormed (natCfg .bTree 6) BTree.wide 2 Node.wide ∧
    ∃ lines, writeDot (natCfg .bTree 6) (some Nat.repr) BTree.wide =
      .ok (dotText lines, BTree.wide) ∧ ¬Pictures Nat.repr 2 Node.wide lines := by
  have hT : (natCfg .bTree 6).Valid := ⟨6, 4, rfl⟩
  obtain ⟨R, hs⟩ := wide_wellFormed.stands
  have hfits := (wide_wellFormed.readable hT).fits
  refine ⟨wide_wellFormed, _, writeDot_run hs hfits Nat.repr, fun hpictures => ?_⟩
  have hnarrow := ((pictures_iff hs.rep).mp hpictures).1
  exact absurd hnarrow (by decide)

/-- A tree of three levels with two cursors in each inner page. -/
theorem writeDot_pictures_threeLevels : ∃ lines,
    writeDot (natCfg .bTree 2) (some Nat.repr) BTree.threeLevels = .ok (dotText lines, BTree.threeLevels) ∧
      (Pictures Nat.repr 2 Node.threeLevels lines ↔ Node.threeLevels.Narrow 2) :=
  writeDot_pictures_iff (ofPages_stands rfl threeLevels_wellFormed.rep (by decide))
    (threeLevels_wellFormed.readable ⟨2, 4, rfl⟩).fits Nat.repr

end BTreesMods
