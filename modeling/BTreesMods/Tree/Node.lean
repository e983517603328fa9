import BTreesMods.Pages.Rebalance
import Mathlib.Algebra.BigOperators.Group.Multiset.Basic
import Mathlib.Tactic.Abel

/-!
# Trees of pages

The abstract side of a stored tree: a node is a page number with its keys and its children.
`Rep page h t` says that the stored pages hold the tree `t`, whose leaves are `h` levels below its
root. `Node.pages` are the page numbers of a tree, as a multiset.

Main results:

* `Rep.congr`: a tree stays represented when none of its pages is changed.
* `pagesBelow_append`, `RepBelow.append`: the children of a node, part by part.
-/

namespace BTreesMods

/-- A page of a tree with its keys and children. -/
structure Node (κ : Type) where
  page : ℕ
  keys : List κ
  kids : List (Node κ)

variable {κ : Type}

theorem node_eq (c : Node κ) {K : List κ} {C : List (Node κ)} (hk : c.keys = K) (hc : c.kids = C) :
    c = ⟨c.page, K, C⟩ := by
  cases c
  subst hk hc
  rfl

namespace Node

/-- The page numbers of a tree of height `h`. -/
def pages : ℕ → Node κ → Multiset ℕ
  | 0, t => {t.page}
  | h + 1, t => {t.page} + (t.kids.map (pages h)).sum

/-- The page holds the keys of the node and the page numbers of its children. -/
def On (h : ℕ) (t : Node κ) (pg : Page κ) : Prop := pg.Holds (h == 0) t.keys (t.kids.map page)

end Node

/-! ## Page numbers -/

/-- The page numbers below a node of height `h` with the children `ts`. -/
def pagesBelow : ℕ → List (Node κ) → Multiset ℕ
  | 0, _ => 0
  | h + 1, ts => (ts.map (Node.pages h)).sum

theorem pages_eq (h : ℕ) (t : Node κ) : t.pages h = {t.page} + pagesBelow h t.kids := by
  cases h with
  | zero => rfl
  | succ h => rfl

@[simp] theorem pagesBelow_nil (h : ℕ) : pagesBelow h ([] : List (Node κ)) = 0 := by
  cases h with
  | zero => rfl
  | succ h => rfl

@[simp] theorem pagesBelow_append (h : ℕ) (ts us : List (Node κ)) :
    pagesBelow h (ts ++ us) = pagesBelow h ts + pagesBelow h us := by
  cases h with
  | zero => rfl
  | succ h => simp [pagesBelow]

@[simp] theorem pagesBelow_cons (h : ℕ) (t : Node κ) (ts : List (Node κ)) :
    pagesBelow (h + 1) (t :: ts) = t.pages h + pagesBelow (h + 1) ts := by
  simp [pagesBelow]

theorem page_mem_pages (h : ℕ) (t : Node κ) : t.page ∈ t.pages h := by
  rw [pages_eq]
  simp

theorem pages_le_pagesBelow {h : ℕ} {t : Node κ} {ts : List (Node κ)} (ht : t ∈ ts) :
    t.pages h ≤ pagesBelow (h + 1) ts := by
  obtain ⟨l, r, rfl⟩ := List.append_of_mem ht
  rw [pagesBelow_append, pagesBelow_cons, ← add_assoc, add_right_comm]
  exact Multiset.le_add_left _ _

/-! ## Representation -/

/-- The stored pages hold the tree. -/
def Rep (page : ℕ → Page κ) : ℕ → Node κ → Prop
  | 0, t => t.On 0 (page t.page) ∧ t.kids = []
  | h + 1, t => t.On (h + 1) (page t.page) ∧ ∀ c ∈ t.kids, Rep page h c

/-- The stored pages hold the children of a node of height `h`. -/
def RepBelow (page : ℕ → Page κ) : ℕ → List (Node κ) → Prop
  | 0, ts => ts = []
  | h + 1, ts => ∀ c ∈ ts, Rep page h c

section

variable {page page' : ℕ → Page κ} {h : ℕ} {t c : Node κ} {ts us : List (Node κ)}

theorem rep_iff : Rep page h t ↔ t.On h (page t.page) ∧ RepBelow page h t.kids := by
  cases h with
  | zero => rfl
  | succ h => rfl

theorem Rep.on (hr : Rep page h t) : t.On h (page t.page) := (rep_iff.mp hr).1

theorem Rep.below (hr : Rep page h t) : RepBelow page h t.kids := (rep_iff.mp hr).2

theorem Node.On.length_kids {pg : Page κ} (hon : t.On (h + 1) pg) :
    t.kids.length = t.keys.length + 1 := by
  have := Page.Holds.length_cursors hon
  rwa [List.length_map] at this

theorem Rep.length_kids (hr : Rep page (h + 1) t) : t.kids.length = t.keys.length + 1 :=
  hr.on.length_kids

theorem Rep.length_kids_of_pos (hr : Rep page h t) (hh : h ≠ 0) : t.kids.length = t.keys.length + 1 := by
  obtain ⟨g, rfl⟩ := Nat.exists_eq_succ_of_ne_zero hh
  exact hr.length_kids

/-- The child between two runs of keys. -/
theorem exists_kid {K1 K2 : List κ} (hlen : ts.length = (K1 ++ K2).length + 1) :
    ∃ P c S, ts = P ++ c :: S ∧ P.length = K1.length := by
  rw [List.length_append] at hlen
  refine ⟨ts.take K1.length, ts[K1.length], ts.drop (K1.length + 1), by simp, ?_⟩
  rw [List.length_take]
  omega

/-- A tree stays represented when none of its pages is changed. -/
theorem Rep.congr (hr : Rep page h t) (heq : ∀ p ∈ t.pages h, page' p = page p) :
    Rep page' h t := by
  induction h generalizing t with
  | zero => exact ⟨by rw [heq _ (page_mem_pages 0 t)]; exact hr.1, hr.2⟩
  | succ h ih =>
    refine ⟨by rw [heq _ (page_mem_pages (h + 1) t)]; exact hr.1, fun c hc => ?_⟩
    refine ih (hr.2 c hc) fun p hp => heq p ?_
    rw [pages_eq]
    exact Multiset.mem_add.mpr (Or.inr (Multiset.mem_of_le (pages_le_pagesBelow hc) hp))

theorem RepBelow.congr (hr : RepBelow page h ts) (heq : ∀ p ∈ pagesBelow h ts, page' p = page p) :
    RepBelow page' h ts := by
  cases h with
  | zero => exact hr
  | succ h =>
    exact fun c hc => (hr c hc).congr fun p hp => heq p (Multiset.mem_of_le
      (pages_le_pagesBelow hc) hp)

/-- Pages with the same numbers hold the same trees when a page holds at most one. -/
theorem eq_of_map_page (huniq : ∀ c ∈ ts, ∀ c' ∈ us, c.page = c'.page → c = c')
    (hmap : ts.map Node.page = us.map Node.page) : ts = us := by
  induction ts generalizing us with
  | nil => exact (List.map_eq_nil_iff.mp hmap.symm).symm
  | cons c ts ih =>
    cases us with
    | nil => cases hmap
    | cons c' us =>
      rw [List.map_cons, List.map_cons, List.cons.injEq] at hmap
      rw [huniq c (by simp) c' (by simp) hmap.1,
        ih (fun d hd d' hd' => huniq d (by simp [hd]) d' (by simp [hd'])) hmap.2]

/-- The stored pages hold at most one tree of a height at a page number. -/
theorem Rep.unique {t' : Node κ} (hr : Rep page h t) (hr' : Rep page h t') (hp : t.page = t'.page) :
    t = t' := by
  induction h generalizing t t' with
  | zero =>
    have hkeys : t.keys = t'.keys := by
      rw [← hr.on.keys_eq, ← hr'.on.keys_eq, hp]
    rw [node_eq t hkeys hr.2, node_eq t' rfl hr'.2, hp]
  | succ h ih =>
    have hkeys : t.keys = t'.keys := by
      rw [← hr.on.keys_eq, ← hr'.on.keys_eq, hp]
    have hmap : t.kids.map Node.page = t'.kids.map Node.page := by
      rw [← hr.on.cursors, ← hr'.on.cursors, hp]
    have hkids := eq_of_map_page (fun c hc c' hc' heq => ih (hr.2 c hc) (hr'.2 c' hc') heq) hmap
    rw [node_eq t hkeys hkids, node_eq t' rfl rfl, hp]

theorem repBelow_append : RepBelow page h (ts ++ us) ↔ RepBelow page h ts ∧ RepBelow page h us := by
  cases h with
  | zero => exact List.append_eq_nil_iff
  | succ h => simp [RepBelow, or_imp, forall_and]

theorem repBelow_cons :
    RepBelow page (h + 1) (c :: ts) ↔ Rep page h c ∧ RepBelow page (h + 1) ts := by
  simp [RepBelow]

theorem repBelow_nil : RepBelow page h [] := by
  cases h with
  | zero => rfl
  | succ h => simp [RepBelow]

/-- The children of a node cut at one of its keys. -/
theorem Rep.cut {A B : List κ} {m : κ} (hr : Rep page h t) (hk : t.keys = A ++ m :: B) :
    ∃ CA CB, t.kids = CA ++ CB ∧ (h ≠ 0 → CA.length = A.length + 1) := by
  refine ⟨t.kids.take (A.length + 1), t.kids.drop (A.length + 1), by simp, fun hh => ?_⟩
  obtain ⟨g, rfl⟩ := Nat.exists_eq_succ_of_ne_zero hh
  have hlen := hr.length_kids
  rw [hk, List.length_append, List.length_cons] at hlen
  rw [List.length_take]
  omega

/-- A tree has a page on each level. -/
theorem height_lt_card {pg : Page κ} (hon : t.On h pg) (hb : RepBelow page h t.kids) :
    h < (t.pages h).card := by
  induction h generalizing t pg with
  | zero => simp [Node.pages]
  | succ h ih =>
    obtain ⟨p, K, C⟩ := t
    obtain ⟨c, C, rfl⟩ := List.exists_cons_of_length_eq_add_one hon.length_kids
    have hc := (repBelow_cons.mp hb).1
    have := ih hc.on hc.below
    rw [pages_eq, pagesBelow_cons, Multiset.card_add, Multiset.card_add, Multiset.card_singleton]
    omega

/-- Every page of a tree has at most `slots` keys. -/
def Node.Fits (slots : ℕ) : ℕ → Node κ → Prop
  | 0, t => t.keys.length ≤ slots
  | h + 1, t => t.keys.length ≤ slots ∧ ∀ c ∈ t.kids, Fits slots h c

theorem Node.Fits.length_le {slots : ℕ} (hf : t.Fits slots h) : t.keys.length ≤ slots := by
  cases h with
  | zero => exact hf
  | succ h => exact hf.1

end

end BTreesMods
