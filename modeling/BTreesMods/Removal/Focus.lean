import BTreesMods.Removal.Merge
import BTreesMods.Lookup.Search

/-!
# Removal below a child

A removal goes down from page to page. `Focus` is a node seen from the child that it goes on with,
`Thinned` what the rebalancing on the way does to the in-order sequence (routers may be dropped), and
`Drops` what the removal does to it: one record equal to `k` is dropped when the call returns true,
and there is none when it returns false.
-/

namespace BTreesMods

variable {κ : Type}

/-! ## A node and one of its children -/

/-- The keys and children of a node on both sides of one of its children. -/
structure Focus (κ : Type) where
  keysL : List κ
  keysR : List κ
  kidsL : List (Node κ)
  kid : Node κ
  kidsR : List (Node κ)
  length_eq : kidsL.length = keysL.length

namespace Focus

/-- The node with page number `p`. -/
def node (f : Focus κ) (p : ℕ) : Node κ := ⟨p, f.keysL ++ f.keysR, f.kidsL ++ f.kid :: f.kidsR⟩

/-- Another child in the same place. -/
def put (f : Focus κ) (c : Node κ) : Focus κ := { f with kid := c }

/-- The key `k` belongs below the child. -/
structure Splits (lt : κ → κ → Bool) (k : κ) (f : Focus κ) : Prop where
  lt_left : ∀ x ∈ f.keysL.getLast?, lt x k = true
  lt_right : ∀ x ∈ f.keysR.head?, lt k x = true

theorem tokens_node (T : Cfg κ) (h p : ℕ) (f : Focus κ) : (f.node p).tokens T (h + 1) =
    tokensBefore T h f.kidsL f.keysL ++ (f.kid.tokens T h ++ tokensAfter T h f.keysR f.kidsR) :=
  tokens_around f.length_eq

end Focus

/-! ## Changes of the in-order sequence -/

/-- Routers were dropped. -/
structure Thinned (ts us : List (Token κ)) : Prop where
  sublist : us.Sublist ts
  records_eq : recordsOf us = recordsOf ts

/-- One record equal to `k` was dropped if `b` holds; else there was none. -/
structure Drops (T : Cfg κ) (k : κ) (b : Bool) (ts us : List (Token κ)) : Prop where
  sublist : us.Sublist ts
  found : b = true → ∃ x, T.isEqual k x = true ∧ (recordsOf ts).Perm (x :: recordsOf us)
  absent : b = false → recordsOf us = recordsOf ts ∧ ∀ x ∈ recordsOf ts, T.isEqual k x = false

section

variable {T : Cfg κ} {k x : κ} {b : Bool} {ts us vs F G : List (Token κ)}

theorem Thinned.refl (ts : List (Token κ)) : Thinned ts ts := ⟨List.Sublist.refl ts, rfl⟩

theorem Thinned.of_eq (h : us = ts) : Thinned ts us := h ▸ refl ts

theorem Thinned.trans (h : Thinned ts us) (h' : Thinned us vs) : Thinned ts vs :=
  ⟨h'.sublist.trans h.sublist, h'.records_eq.trans h.records_eq⟩

theorem Thinned.context (h : Thinned ts us) (F G : List (Token κ)) :
    Thinned (F ++ (ts ++ G)) (F ++ (us ++ G)) :=
  ⟨(List.Sublist.refl F).append (h.sublist.append (List.Sublist.refl G)), by simp [h.records_eq]⟩

theorem Thinned.sorted {lt : κ → κ → Bool} (h : Thinned ts us) (hs : Sorted lt ts) : Sorted lt us :=
  List.Pairwise.sublist h.sublist hs

theorem Drops.sorted {lt : κ → κ → Bool} (h : Drops T k b ts us) (hs : Sorted lt ts) : Sorted lt us :=
  List.Pairwise.sublist h.sublist hs

/-- A removal after routers were dropped. -/
theorem Drops.of_thinned (h : Thinned ts us) (h' : Drops T k b us vs) : Drops T k b ts vs where
  sublist := h'.sublist.trans h.sublist
  found hb := by
    rw [← h.records_eq]
    exact h'.found hb
  absent hb := by
    rw [← h.records_eq]
    exact h'.absent hb

/-- A removal from a part of a sequence, when there is nothing equal to `k` around it. -/
theorem Drops.context (h : Drops T k b ts us) (hF : ∀ x ∈ recordsOf F, T.isEqual k x = false)
    (hG : ∀ x ∈ recordsOf G, T.isEqual k x = false) : Drops T k b (F ++ (ts ++ G)) (F ++ (us ++ G)) where
  sublist := (List.Sublist.refl F).append (h.sublist.append (List.Sublist.refl G))
  found hb := by
    obtain ⟨x, hx, hperm⟩ := h.found hb
    refine ⟨x, hx, ?_⟩
    have hmiddle := (List.Perm.refl (recordsOf F)).append (hperm.append (List.Perm.refl (recordsOf G)))
    simp only [recordsOf_append]
    exact hmiddle.trans List.perm_middle
  absent hb := by
    obtain ⟨heq, hne⟩ := h.absent hb
    refine ⟨by simp [heq], fun x hx => ?_⟩
    simp only [recordsOf_append, List.mem_append] at hx
    rcases hx with hx | hx | hx
    · exact hF x hx
    · exact hne x hx
    · exact hG x hx

/-- A record is dropped. -/
theorem Drops.record (hx : T.isEqual k x = true) (F G : List (Token κ)) :
    Drops T k true (F ++ .record x :: G) (F ++ G) where
  sublist := (List.Sublist.refl F).append (List.sublist_cons_self _ _)
  found _ := ⟨x, hx, by
    simp only [recordsOf_append, recordsOf_record]
    exact List.perm_middle⟩
  absent hb := by simp at hb

/-- Nothing is dropped. -/
theorem Drops.none (h : ∀ x ∈ recordsOf ts, T.isEqual k x = false) : Drops T k false ts ts where
  sublist := List.Sublist.refl ts
  found hb := by simp at hb
  absent _ := ⟨rfl, h⟩

end

/-! ## What stands around the child -/

section

variable {T : Cfg κ} {lt : κ → κ → Bool} {h p : ℕ} {k : κ} {A : List (Token κ)} {f : Focus κ}

/-- A strict bound on the last key of a sorted sequence bounds all of it. -/
theorem Sorted.lt_of_last (hlt : StrictWeak lt) (hs : Sorted lt A)
    (hlast : ∀ x ∈ A.getLast?, lt x.key k = true) : ∀ x ∈ A, lt x.key k = true := by
  rcases List.eq_nil_or_concat' A with rfl | ⟨A, m, rfl⟩
  · simp
  · have hm : lt m.key k = true := hlast m (by simp)
    intro x hx
    rcases List.mem_append.mp hx with hx | hx
    · exact hlt.lt_of_le_of_lt ((sorted_append.mp hs).2.2 x hx m (by simp)) hm
    · rwa [List.mem_singleton.mp hx]

/-- The last key in front of a child is the last key of the node in front of it. -/
theorem getLast_tokensBefore {P : List (Node κ)} {K : List κ} (hP : P.length = K.length) :
    (tokensBefore T h P K).getLast? = K.getLast?.map T.sep := by
  rcases List.eq_nil_or_concat' K with rfl | ⟨K, m, rfl⟩
  · obtain rfl := List.length_eq_zero_iff.mp hP
    rfl
  · obtain ⟨P, c, rfl⟩ := List.eq_nil_or_concat' P |>.resolve_left fun hnil => by
      simp [hnil] at hP
    rw [tokensBefore_concat (by simpa using hP), ← List.append_assoc, List.getLast?_concat,
      List.getLast?_concat]
    rfl

/-- What stands in front of the child is less than `k` when the last key in front of it is. -/
theorem Focus.before_lt (hlt : StrictWeak T.compare)
    (hs : Sorted T.compare ((f.node p).tokens T (h + 1)))
    (hk : ∀ x ∈ f.keysL.getLast?, T.compare x k = true) :
    ∀ y ∈ tokensBefore T h f.kidsL f.keysL, T.compare y.key k = true := by
  rw [Focus.tokens_node] at hs
  refine (sorted_append.mp hs).1.lt_of_last hlt ?_
  rw [getLast_tokensBefore f.length_eq]
  simp only [Option.mem_def, Option.map_eq_some_iff, forall_exists_index, and_imp]
  rintro _ x hx rfl
  rw [key_sep]
  exact hk x hx

/-- What stands behind the child is greater than `k` when the first key behind it is. -/
theorem Focus.after_gt (hlt : StrictWeak T.compare)
    (hs : Sorted T.compare ((f.node p).tokens T (h + 1)))
    (hk : ∀ x ∈ f.keysR.head?, T.compare k x = true) :
    ∀ y ∈ tokensAfter T h f.keysR f.kidsR, T.compare k y.key = true := by
  rw [Focus.tokens_node] at hs
  have hafter := (sorted_append.mp (sorted_append.mp hs).2.1).2.1
  cases hK : f.keysR with
  | nil => simp [tokensAfter, after]
  | cons m K =>
    have hm : T.compare k m = true := hk m (by simp [hK])
    rw [hK] at hafter
    intro y hy
    change y ∈ T.sep m :: _ at hy
    rcases List.mem_cons.mp hy with rfl | hy
    · rwa [key_sep]
    · have hmy := (sorted_cons.mp hafter).1 y hy
      rw [key_sep] at hmy
      exact hlt.lt_of_lt_of_le hm hmy

/-- The keys in front of a child are in what stands in front of it. -/
theorem sep_mem_tokensBefore {P : List (Node κ)} {K : List κ} {x : κ} (hP : P.length = K.length)
    (hx : x ∈ K) : T.sep x ∈ tokensBefore T h P K := by
  induction K generalizing P with
  | nil => cases hx
  | cons m K ih =>
    obtain ⟨c, P, rfl⟩ := List.exists_cons_of_length_eq_add_one hP
    change T.sep x ∈ c.tokens T h ++ T.sep m :: tokensBefore T h P K
    rw [List.mem_append, List.mem_cons]
    rcases List.mem_cons.mp hx with rfl | hx
    · exact Or.inr (Or.inl rfl)
    · exact Or.inr (Or.inr (ih (by simpa using hP) hx))

/-- The keys behind a child are in what stands behind it. -/
theorem sep_mem_tokensAfter {S : List (Node κ)} {K : List κ} {x : κ} (hS : S.length = K.length)
    (hx : x ∈ K) : T.sep x ∈ tokensAfter T h K S := by
  induction K generalizing S with
  | nil => cases hx
  | cons m K ih =>
    obtain ⟨c, S, rfl⟩ := List.exists_cons_of_length_eq_add_one hS
    rw [tokensAfter_cons, List.mem_cons, List.mem_append]
    rcases List.mem_cons.mp hx with rfl | hx
    · exact Or.inl rfl
    · exact Or.inr (Or.inr (ih (by simpa using hS) hx))

theorem Focus.Splits.lt_of_mem (hlt : StrictWeak T.compare)
    (hs : Sorted T.compare ((f.node p).tokens T (h + 1))) (hk : f.Splits T.compare k) :
    ∀ x ∈ f.keysL, T.compare x k = true := fun x hx => by
  have := Focus.before_lt hlt hs hk.lt_left _ (sep_mem_tokensBefore f.length_eq hx)
  rwa [key_sep] at this

theorem Focus.Splits.gt_of_mem (hlt : StrictWeak T.compare)
    (hs : Sorted T.compare ((f.node p).tokens T (h + 1))) (hk : f.Splits T.compare k)
    (hlen : f.kidsR.length = f.keysR.length) : ∀ x ∈ f.keysR, T.compare k x = true := fun x hx => by
  have := Focus.after_gt hlt hs hk.lt_right _ (sep_mem_tokensAfter hlen hx)
  rwa [key_sep] at this

/-- The records around the child are not equal to `k`. -/
theorem Focus.Splits.outside (hlt : StrictWeak T.compare) (heq : T.Equates)
    (hs : Sorted T.compare ((f.node p).tokens T (h + 1))) (hk : f.Splits T.compare k) :
    (∀ x ∈ recordsOf (tokensBefore T h f.kidsL f.keysL), T.isEqual k x = false) ∧
      ∀ x ∈ recordsOf (tokensAfter T h f.keysR f.kidsR), T.isEqual k x = false :=
  ⟨fun _ hx => heq.ne_of_lt (Focus.before_lt hlt hs hk.lt_left _ (mem_recordsOf.mp hx)),
    fun _ hx => heq.ne_of_gt (Focus.after_gt hlt hs hk.lt_right _ (mem_recordsOf.mp hx))⟩

end

end BTreesMods
