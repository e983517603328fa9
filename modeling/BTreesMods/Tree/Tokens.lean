import BTreesMods.Tree.Node
import BTreesMods.Lib.Weave
import BTreesMods.Lib.Order

/-!
# The in-order sequence of a tree

`Node.tokens` lists the keys of a tree in order, and says of each whether it is a stored record or
a router, that is, a key of an inner page of a B+-tree or B*+-tree. What an operation does to a tree
is stated as a change of this list: `Regroup` adds and drops routers, `Inserted` adds a record.

Main results:

* `tokens_around`, `tokens_cut`: the list around one child, and at a key of a node.
* `Regroup.sorted`, `Regroup.routed`, `Regroup.records_eq`: routers come and go without harm.
* `Inserted.sorted`, `Inserted.routed`, `Inserted.records_perm`: a record is added in order.
-/

namespace BTreesMods

variable {κ : Type}

/-! ## Tokens -/

/-- A key in its place in the in-order sequence. -/
inductive Token (κ : Type)
  | record (k : κ)
  | router (k : κ)

/-- The key of a token. -/
def Token.key : Token κ → κ
  | .record k => k
  | .router k => k

/-- The stored records of a sequence. -/
def recordsOf : List (Token κ) → List κ
  | [] => []
  | .record k :: ts => k :: recordsOf ts
  | .router _ :: ts => recordsOf ts

@[simp] theorem recordsOf_nil : recordsOf ([] : List (Token κ)) = [] := rfl

@[simp] theorem recordsOf_record (k : κ) (ts : List (Token κ)) :
    recordsOf (.record k :: ts) = k :: recordsOf ts := rfl

@[simp] theorem recordsOf_router (k : κ) (ts : List (Token κ)) :
    recordsOf (.router k :: ts) = recordsOf ts := rfl

@[simp] theorem recordsOf_append (ts us : List (Token κ)) :
    recordsOf (ts ++ us) = recordsOf ts ++ recordsOf us := by
  induction ts with
  | nil => rfl
  | cons x ts ih =>
    cases x with
    | record k => simp [ih]
    | router k => simp [ih]

theorem recordsOf_map_record (ks : List κ) : recordsOf (ks.map Token.record) = ks := by
  induction ks with
  | nil => rfl
  | cons k ks ih => rw [List.map_cons, recordsOf_record, ih]

theorem mem_recordsOf {k : κ} {ts : List (Token κ)} : k ∈ recordsOf ts ↔ .record k ∈ ts := by
  induction ts with
  | nil => simp
  | cons x ts ih =>
    cases x with
    | record k' => simp [ih]
    | router k' => simp [ih]

/-- The trees whose inner pages hold copies of keys. -/
def TreeType.hasRouters : TreeType → Bool
  | .bTree | .bStarTree => false
  | .bPlusTree | .bStarPlusTree => true

/-- A key of an inner page. -/
def Cfg.sep (T : Cfg κ) (k : κ) : Token κ := if T.treeType.hasRouters then .router k else .record k

/-- A key of a page that is `h` levels above the leaves. -/
def Cfg.tokenAt (T : Cfg κ) (h : ℕ) (k : κ) : Token κ := if h = 0 then .record k else T.sep k

/-- The keys of a tree of height `h` in order. -/
def Node.tokens (T : Cfg κ) : ℕ → Node κ → List (Token κ)
  | 0, t => t.keys.map .record
  | h + 1, t => weave (t.kids.map (tokens T h)) (t.keys.map T.sep)

/-- The stored records of a tree in order. -/
def Node.records (T : Cfg κ) (h : ℕ) (t : Node κ) : List κ := recordsOf (t.tokens T h)

@[simp] theorem key_sep (T : Cfg κ) (k : κ) : (T.sep k).key = k := by
  unfold Cfg.sep
  split <;> rfl

@[simp] theorem key_tokenAt (T : Cfg κ) (h : ℕ) (k : κ) : (T.tokenAt h k).key = k := by
  unfold Cfg.tokenAt
  split
  · rfl
  · exact key_sep T k

/-- What stands before and behind the child after `P` and `K`. -/
def tokensBefore (T : Cfg κ) (h : ℕ) (P : List (Node κ)) (K : List κ) : List (Token κ) :=
  before (P.map (Node.tokens T h)) (K.map T.sep)

@[inherit_doc tokensBefore]
def tokensAfter (T : Cfg κ) (h : ℕ) (K : List κ) (S : List (Node κ)) : List (Token κ) :=
  after (K.map T.sep) (S.map (Node.tokens T h))

section

variable {T : Cfg κ} {h p q r : ℕ} {P S C D : List (Node κ)} {K L A B : List κ} {c d : Node κ}
  {m : κ}

theorem tokensAfter_cons :
    tokensAfter T h (m :: L) (d :: S) = T.sep m :: (d.tokens T h ++ tokensAfter T h L S) := by
  simp only [tokensAfter, List.map_cons, after, weave_cons]

/-- The sequence of a node around one of its children. -/
theorem tokens_around (hP : P.length = K.length) :
    (⟨p, K ++ L, P ++ c :: S⟩ : Node κ).tokens T (h + 1) =
      tokensBefore T h P K ++ (c.tokens T h ++ tokensAfter T h L S) := by
  simp only [Node.tokens, List.map_append, List.map_cons]
  exact weave_around _ (by simpa using hP)

/-- The sequence of a node around two adjacent children. -/
theorem tokens_around₂ (hP : P.length = K.length) :
    (⟨p, K ++ m :: L, P ++ c :: d :: S⟩ : Node κ).tokens T (h + 1) =
      tokensBefore T h P K ++ ((c.tokens T h ++ T.sep m :: d.tokens T h) ++ tokensAfter T h L S) := by
  rw [tokens_around hP, tokensAfter_cons]
  simp

/-- The sequence of a node cut at one of its keys. -/
theorem tokens_cut (hCA : h ≠ 0 → C.length = A.length + 1) :
    (⟨p, A ++ m :: B, C ++ D⟩ : Node κ).tokens T h =
      (⟨q, A, C⟩ : Node κ).tokens T h ++ T.tokenAt h m :: (⟨r, B, D⟩ : Node κ).tokens T h := by
  cases h with
  | zero => simp [Node.tokens, Cfg.tokenAt]
  | succ h =>
    simp only [Node.tokens, List.map_append, List.map_cons, Cfg.tokenAt, if_neg (Nat.succ_ne_zero h)]
    exact weave_append _ (by simpa using hCA (Nat.succ_ne_zero h))

/-- A key of the topmost page in the sequence. -/
theorem tokenAt_mem_tokens (hlen : h ≠ 0 → S.length = (A ++ m :: B).length + 1) :
    T.tokenAt h m ∈ (⟨p, A ++ m :: B, S⟩ : Node κ).tokens T h := by
  have hcut := tokens_cut (T := T) (h := h) (p := p) (q := p) (r := p) (A := A) (B := B) (m := m)
    (C := S.take (A.length + 1)) (D := S.drop (A.length + 1)) fun hh => by
      have := hlen hh
      rw [List.length_append, List.length_cons] at this
      rw [List.length_take]
      omega
  rw [List.take_append_drop] at hcut
  rw [hcut]
  simp

/-- In a tree without routers every key is a record. -/
theorem map_records (hrouters : T.treeType.hasRouters = false) (t : Node κ) :
    (t.records T h).map .record = t.tokens T h := by
  have hall : ∀ x ∈ t.tokens T h, ∃ y, x = .record y := by
    induction h generalizing t with
    | zero =>
      intro x hx
      obtain ⟨y, -, rfl⟩ := List.mem_map.mp hx
      exact ⟨y, rfl⟩
    | succ h ih =>
      intro x hx
      rcases mem_or_mem_of_mem_weave hx with ⟨ts, hts, hx⟩ | hx
      · obtain ⟨c, -, rfl⟩ := List.mem_map.mp hts
        exact ih c x hx
      · obtain ⟨y, -, rfl⟩ := List.mem_map.mp hx
        exact ⟨y, by simp [Cfg.sep, hrouters]⟩
  rw [Node.records]
  generalize t.tokens T h = ts at hall
  induction ts with
  | nil => rfl
  | cons x ts ih =>
    obtain ⟨y, rfl⟩ := hall x (by simp)
    rw [recordsOf_record, List.map_cons, ih fun z hz => hall z (List.mem_cons_of_mem _ hz)]

theorem tokensBefore_concat (hP : P.length = K.length) :
    tokensBefore T h (P ++ [c]) (K ++ [m]) =
      tokensBefore T h P K ++ (c.tokens T h ++ [T.sep m]) := by
  simp only [tokensBefore, List.map_append, List.map_cons, List.map_nil]
  exact before_concat _ _ (by simpa using hP)

end

/-! ## Order -/

/-- The keys of the sequence do not decrease. -/
def Sorted (lt : κ → κ → Bool) (ts : List (Token κ)) : Prop :=
  ts.Pairwise fun x y => lt y.key x.key = false

/-- Every router stands directly behind an equal key; `prev` is the key in front of the sequence. -/
def RoutedFrom (lt : κ → κ → Bool) : Option κ → List (Token κ) → Prop
  | _, [] => True
  | _, .record k :: ts => RoutedFrom lt (some k) ts
  | none, .router _ :: _ => False
  | some k, .router r :: ts => (lt k r = false ∧ lt r k = false) ∧ RoutedFrom lt (some r) ts

/-- Every router stands directly behind an equal key. -/
def Routed (lt : κ → κ → Bool) (ts : List (Token κ)) : Prop := RoutedFrom lt none ts

/-- The key in front of what follows `ts`. -/
def lastKey (prev : Option κ) (ts : List (Token κ)) : Option κ :=
  match ts.getLast? with
  | some x => some x.key
  | none => prev

section

variable {lt : κ → κ → Bool} {ts us A B P S : List (Token κ)} {k : κ}

theorem sorted_append : Sorted lt (A ++ B) ↔
    Sorted lt A ∧ Sorted lt B ∧ ∀ x ∈ A, ∀ y ∈ B, lt y.key x.key = false :=
  List.pairwise_append

theorem sorted_cons {x : Token κ} : Sorted lt (x :: A) ↔
    (∀ y ∈ A, lt y.key x.key = false) ∧ Sorted lt A :=
  List.pairwise_cons

theorem lastKey_cons (prev : Option κ) (x : Token κ) (ts : List (Token κ)) :
    lastKey prev (x :: ts) = lastKey (some x.key) ts := by
  cases ts with
  | nil => rfl
  | cons y ts => simp [lastKey, List.getLast?_eq_some_getLast]

theorem routedFrom_append (prev : Option κ) :
    RoutedFrom lt prev (A ++ B) ↔ RoutedFrom lt prev A ∧ RoutedFrom lt (lastKey prev A) B := by
  induction A generalizing prev with
  | nil => simp [RoutedFrom, lastKey]
  | cons x A ih =>
    rw [List.cons_append, lastKey_cons]
    cases x with
    | record k => exact ih (some k)
    | router r =>
      cases prev with
      | none => simp [RoutedFrom]
      | some k => simp [RoutedFrom, ih, Token.key, and_assoc]

theorem lastKey_mem {k : κ} (h : lastKey none A = some k) : ∃ x ∈ A, x.key = k := by
  unfold lastKey at h
  split at h
  · rename_i x hx
    exact ⟨x, List.mem_of_getLast? hx, by simpa using h⟩
  · cases h

/-- Only the first token looks at the key in front. -/
theorem RoutedFrom.of_equal (hlt : StrictWeak lt) {a b : κ} (hab : lt a b = false)
    (hba : lt b a = false) (h : RoutedFrom lt (some a) B) : RoutedFrom lt (some b) B := by
  cases B with
  | nil => trivial
  | cons x B =>
    cases x with
    | record k => exact h
    | router r =>
      exact ⟨⟨hlt.le_trans h.1.1 hba, hlt.le_trans hab h.1.2⟩, h.2⟩

/-! ## Routers that come and go -/

/-- The second sequence has the records of the first one; routers were added behind an equal record
or dropped. -/
inductive Regroup : List (Token κ) → List (Token κ) → Prop
  | refl (ts : List (Token κ)) : Regroup ts ts
  | add (A : List (Token κ)) (r : κ) (B : List (Token κ)) :
    Regroup (A ++ .record r :: B) (A ++ .record r :: .router r :: B)
  | drop (A : List (Token κ)) (r : κ) (B : List (Token κ)) : Regroup (A ++ .router r :: B) (A ++ B)
  | trans {ts us vs : List (Token κ)} : Regroup ts us → Regroup us vs → Regroup ts vs

namespace Regroup

theorem context (h : Regroup ts us) (P S : List (Token κ)) :
    Regroup (P ++ (ts ++ S)) (P ++ (us ++ S)) := by
  induction h with
  | refl ts => exact refl _
  | add A r B =>
    have := add (P ++ A) r (B ++ S)
    simpa using this
  | drop A r B =>
    have := drop (P ++ A) r (B ++ S)
    simpa using this
  | trans _ _ ih₁ ih₂ => exact ih₁.trans ih₂

theorem records_eq (h : Regroup ts us) : recordsOf us = recordsOf ts := by
  induction h with
  | refl ts => rfl
  | add A r B => simp
  | drop A r B => simp
  | trans _ _ ih₁ ih₂ => exact ih₂.trans ih₁

theorem sorted (hlt : StrictWeak lt) (h : Regroup ts us) (hs : Sorted lt ts) : Sorted lt us := by
  induction h with
  | refl ts => exact hs
  | add A r B =>
    simp only [sorted_append, sorted_cons, List.mem_cons, forall_eq_or_imp] at hs ⊢
    obtain ⟨hA, ⟨hr, hB⟩, hAB⟩ := hs
    exact ⟨hA, ⟨⟨hlt.irrefl r, hr⟩, hr, hB⟩,
      fun x hx => ⟨(hAB x hx).1, (hAB x hx).1, (hAB x hx).2⟩⟩
  | drop A r B =>
    simp only [sorted_append, sorted_cons, List.mem_cons, forall_eq_or_imp] at hs ⊢
    obtain ⟨hA, ⟨hr, hB⟩, hAB⟩ := hs
    exact ⟨hA, hB, fun x hx => (hAB x hx).2⟩
  | trans _ _ ih₁ ih₂ => exact ih₂ (ih₁ hs)

theorem routed (hlt : StrictWeak lt) (h : Regroup ts us) (hr : Routed lt ts) : Routed lt us := by
  unfold Routed at hr ⊢
  induction h with
  | refl ts => exact hr
  | add A r B =>
    rw [routedFrom_append] at hr ⊢
    exact ⟨hr.1, ⟨hlt.irrefl r, hlt.irrefl r⟩, hr.2⟩
  | drop A r B =>
    rw [routedFrom_append] at hr ⊢
    refine ⟨hr.1, ?_⟩
    obtain ⟨-, hr⟩ := hr
    cases hk : lastKey none A with
    | none =>
      rw [hk] at hr
      exact hr.elim
    | some k =>
      rw [hk] at hr
      exact hr.2.of_equal hlt hr.1.2 hr.1.1
  | trans _ _ ih₁ ih₂ => exact ih₂ (ih₁ hr)

end Regroup

/-! ## A record that is added -/

/-- A record `k` fits between the sequences `P` and `S`. -/
def Between (lt : κ → κ → Bool) (k : κ) (P S : List (Token κ)) : Prop :=
  (∀ x ∈ P, lt k x.key = false) ∧ ∀ x ∈ S, lt x.key k = false

/-- The second sequence is the first one with a record `k` at a place where it fits if `H` holds;
routers may have come and gone. -/
def Inserted (H : Prop) (lt : κ → κ → Bool) (k : κ) (ts us : List (Token κ)) : Prop :=
  ∃ A B, Regroup ts (A ++ B) ∧ us = A ++ .record k :: B ∧ (H → Between lt k A B)

namespace Inserted

variable {H : Prop}

theorem imp {H' : Prop} (hi : Inserted H lt k ts us) (hH : H' → H) : Inserted H' lt k ts us := by
  obtain ⟨A, B, hAB, hus, hbetween⟩ := hi
  exact ⟨A, B, hAB, hus, fun h => hbetween (hH h)⟩

theorem of_regroup {vs : List (Token κ)} (h : Regroup ts us) (hi : Inserted H lt k us vs) :
    Inserted H lt k ts vs := by
  obtain ⟨A, B, hAB, hvs, hbetween⟩ := hi
  exact ⟨A, B, h.trans hAB, hvs, hbetween⟩

theorem context (hi : Inserted H lt k ts us) (hPS : H → Between lt k P S) :
    Inserted H lt k (P ++ (ts ++ S)) (P ++ (us ++ S)) := by
  obtain ⟨A, B, hAB, rfl, hbetween⟩ := hi
  refine ⟨P ++ A, B ++ S, ?_, by simp, fun h => ?_⟩
  · have := hAB.context P S
    simpa using this
  · obtain ⟨hP, hS⟩ := hPS h
    obtain ⟨hA, hB⟩ := hbetween h
    refine ⟨fun x hx => ?_, fun x hx => ?_⟩
    · rcases List.mem_append.mp hx with hx | hx
      · exact hP x hx
      · exact hA x hx
    · rcases List.mem_append.mp hx with hx | hx
      · exact hB x hx
      · exact hS x hx

theorem records_perm (hi : Inserted H lt k ts us) : (recordsOf us).Perm (k :: recordsOf ts) := by
  obtain ⟨A, B, hAB, rfl, -⟩ := hi
  rw [← hAB.records_eq]
  simp

theorem sorted (hlt : StrictWeak lt) (hi : Inserted H lt k ts us) (h : H) (hs : Sorted lt ts) :
    Sorted lt us := by
  obtain ⟨A, B, hAB, rfl, hbetween⟩ := hi
  obtain ⟨hA, hB⟩ := hbetween h
  have hsAB := hAB.sorted hlt hs
  simp only [sorted_append, sorted_cons, List.mem_cons, forall_eq_or_imp] at hsAB ⊢
  exact ⟨hsAB.1, ⟨hB, hsAB.2.1⟩, fun x hx => ⟨hA x hx, hsAB.2.2 x hx⟩⟩

theorem routed (hlt : StrictWeak lt) (hi : Inserted H lt k ts us) (h : H) (hr : Routed lt ts) :
    Routed lt us := by
  obtain ⟨A, B, hAB, rfl, hbetween⟩ := hi
  obtain ⟨hA, hB⟩ := hbetween h
  have hrAB := hAB.routed hlt hr
  unfold Routed at hrAB ⊢
  rw [routedFrom_append] at hrAB ⊢
  refine ⟨hrAB.1, ?_⟩
  change RoutedFrom lt (some k) B
  cases B with
  | nil => trivial
  | cons x B =>
    cases x with
    | record k' => exact hrAB.2
    | router r =>
      cases hx : lastKey none A with
      | none =>
        rw [hx] at hrAB
        exact hrAB.2.elim
      | some a =>
        -- `k` is between the equal keys `a` and `r`
        rw [hx] at hrAB
        obtain ⟨-, ⟨har, hra⟩, hrest⟩ := hrAB
        obtain ⟨y, hy, rfl⟩ := lastKey_mem hx
        exact ⟨⟨hlt.le_trans har (hA y hy), hB (.router r) (by simp)⟩, hrest⟩

end Inserted

/-! ## Where a record fits -/

section

variable {T : Cfg κ} {h : ℕ} {P S : List (Node κ)} {K1 K2 : List κ} {X L Rr F G : List (Token κ)}
  {x : Token κ}

/-- A bound on the last key of a sorted sequence bounds all of it. -/
theorem Sorted.le_of_last (hlt : StrictWeak lt) (hs : Sorted lt A)
    (hlast : ∀ x ∈ A.getLast?, lt k x.key = false) : ∀ x ∈ A, lt k x.key = false := by
  rcases List.eq_nil_or_concat A with rfl | ⟨A, m, rfl⟩
  · simp
  · rw [List.concat_eq_append] at hs hlast ⊢
    have hm : lt k m.key = false := hlast m (by simp)
    intro x hx
    rcases List.mem_append.mp hx with hx | hx
    · exact hlt.le_trans ((sorted_append.mp hs).2.2 x hx m (by simp)) hm
    · rwa [List.mem_singleton.mp hx]

/-- A record fits where the scan of `insertNonFull` stops in a leaf. -/
theorem between_of_cut_leaf (hlt : StrictWeak lt) {A B : List κ} (hcut : UpperCut lt k A B)
    (hs : Sorted lt ((A ++ B).map .record)) : Between lt k (A.map .record) (B.map .record) := by
  rw [List.map_append] at hs
  refine ⟨(sorted_append.mp hs).1.le_of_last hlt ?_, ?_⟩
  · simp only [List.getLast?_map, Option.mem_def, Option.map_eq_some_iff, forall_exists_index,
      and_imp]
    rintro _ m hm rfl
    exact hcut.not_lt_last m hm
  · simp only [List.mem_map, forall_exists_index, and_imp]
    rintro _ m hm rfl
    exact hlt.asymm (hcut.lt_right m hm)

/-- A record fits between what stands around the child where the scan of `insertNonFull` stops. -/
theorem between_of_cut (hlt : StrictWeak lt) (hP : P.length = K1.length)
    (hcut : UpperCut lt k K1 K2)
    (hs : Sorted lt (tokensBefore T h P K1 ++ (X ++ tokensAfter T h K2 S))) :
    Between lt k (tokensBefore T h P K1) (tokensAfter T h K2 S) := by
  obtain ⟨hbefore, hrest, -⟩ := sorted_append.mp hs
  obtain ⟨-, hafter, -⟩ := sorted_append.mp hrest
  constructor
  · refine hbefore.le_of_last hlt ?_
    rcases List.eq_nil_or_concat K1 with rfl | ⟨K, m, rfl⟩
    · obtain rfl := List.length_eq_zero_iff.mp hP
      intro x hx
      cases hx
    · obtain ⟨P, c, rfl⟩ : ∃ P' c, P = P' ++ [c] := by
        rcases List.eq_nil_or_concat P with rfl | ⟨P', c, rfl⟩
        · simp at hP
        · exact ⟨P', c, by simp⟩
      rw [List.concat_eq_append] at hP hcut ⊢
      have hP' : P.length = K.length := by simpa using hP
      rw [tokensBefore_concat hP', ← List.append_assoc, List.getLast?_concat]
      simp only [Option.mem_def, Option.some.injEq]
      rintro _ rfl
      rw [key_sep]
      exact hcut.not_lt_last m (by simp)
  · cases K2 with
    | nil =>
      intro x hx
      cases hx
    | cons m K2 =>
      have hm : lt k m = true := hcut.lt_right m (by simp)
      change ∀ x ∈ T.sep m :: weave (S.map (Node.tokens T h)) (K2.map T.sep), _
      intro x hx
      rcases List.mem_cons.mp hx with rfl | hx
      · rw [key_sep]
        exact hlt.asymm hm
      · have hmx := (sorted_cons.mp hafter).1 x hx
        rw [key_sep] at hmx
        exact hlt.asymm (hlt.lt_of_lt_of_le hm hmx)

/-- A record that is not less than `x` fits behind `x`. -/
theorem Between.right (hlt : StrictWeak lt) (hb : Between lt k F G)
    (hs : Sorted lt (F ++ ((L ++ x :: Rr) ++ G))) (hx : lt k x.key = false) :
    Between lt k (F ++ (L ++ [x])) G := by
  obtain ⟨-, hs, -⟩ := sorted_append.mp hs
  obtain ⟨hs, -, -⟩ := sorted_append.mp hs
  obtain ⟨-, -, hLx⟩ := sorted_append.mp hs
  refine ⟨fun y hy => ?_, hb.2⟩
  rcases List.mem_append.mp hy with hy | hy
  · exact hb.1 y hy
  · rcases List.mem_append.mp hy with hy | hy
    · exact hlt.le_trans (hLx y hy x (by simp)) hx
    · rwa [List.mem_singleton.mp hy]

/-- A record that is not greater than `x` fits in front of `x`. -/
theorem Between.left (hlt : StrictWeak lt) (hb : Between lt k F G)
    (hs : Sorted lt (F ++ ((L ++ x :: Rr) ++ G))) (hx : lt x.key k = false) :
    Between lt k F (x :: (Rr ++ G)) := by
  obtain ⟨-, hs, -⟩ := sorted_append.mp hs
  obtain ⟨hs, -, hG⟩ := sorted_append.mp hs
  obtain ⟨-, hs, -⟩ := sorted_append.mp hs
  refine ⟨hb.1, fun y hy => ?_⟩
  rcases List.mem_cons.mp hy with rfl | hy
  · exact hx
  · rcases List.mem_append.mp hy with hy | hy
    · exact hlt.le_trans hx ((sorted_cons.mp hs).1 y hy)
    · exact hb.2 y hy

end

end

end BTreesMods
