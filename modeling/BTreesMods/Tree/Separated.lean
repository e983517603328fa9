import BTreesMods.Tree.Tokens

/-!
# Routers that separate

In a tree with routers a removal can drop the record that a router was copied from. What remains is
that the records in front of the router are not greater and the records behind it are greater.
-/

namespace BTreesMods

variable {κ : Type}

/-- What holds of a token and a later one: a router is not less than the records in front of it and
less than the records behind it. -/
def Separates (lt : κ → κ → Bool) : Token κ → Token κ → Prop
  | .record y, .router x => lt x y = false
  | .router x, .record y => lt x y = true
  | _, _ => True

instance (lt : κ → κ → Bool) : ∀ t u : Token κ, Decidable (Separates lt t u)
  | .record y, .router x => inferInstanceAs (Decidable (lt x y = false))
  | .router x, .record y => inferInstanceAs (Decidable (lt x y = true))
  | .record _, .record _ | .router _, .router _ => isTrue trivial

/-- Every router of the sequence separates its records. -/
def Separated (lt : κ → κ → Bool) (ts : List (Token κ)) : Prop := ts.Pairwise (Separates lt)

instance (lt : κ → κ → Bool) (ts : List (Token κ)) : Decidable (Separated lt ts) :=
  inferInstanceAs (Decidable (ts.Pairwise (Separates lt)))

section

variable {lt : κ → κ → Bool} {A B F G ts us : List (Token κ)} {C X Y Z : List κ} {x : κ}

theorem separated_append : Separated lt (A ++ B) ↔
    Separated lt A ∧ Separated lt B ∧ ∀ a ∈ A, ∀ b ∈ B, Separates lt a b :=
  List.pairwise_append

theorem Separated.sublist (hs : Separated lt ts) (h : us.Sublist ts) : Separated lt us :=
  List.Pairwise.sublist h hs

/-- The middle of a sequence whose routers separate. -/
theorem Separated.middle (hs : Separated lt (F ++ (A ++ G))) : Separated lt A :=
  hs.sublist ((List.sublist_append_left A G).trans (List.sublist_append_right F _))

/-- The records in front of a router are not greater. -/
theorem Separated.le_router {r : κ} (hs : Separated lt (F ++ ((A ++ .router x :: B) ++ G)))
    (hr : .record r ∈ A) : lt x r = false :=
  (separated_append.mp hs.middle).2.2 _ hr (.router x) List.mem_cons_self

/-- The records behind a router are greater. -/
theorem Separated.router_lt {r : κ} (hs : Separated lt (F ++ ((A ++ .router x :: B) ++ G)))
    (hr : .record r ∈ B) : lt x r = true :=
  (List.pairwise_cons.mp (separated_append.mp hs.middle).2.1).1 _ hr

/-- A router between records. -/
theorem separated_router : Separated lt (X.map .record ++ .router x :: Y.map .record) ↔
    (∀ y ∈ X, lt x y = false) ∧ ∀ y ∈ Y, lt x y = true := by
  have hrecords : ∀ Z : List κ, Separated lt (Z.map Token.record) := fun Z => by
    unfold Separated
    rw [List.pairwise_map]
    exact List.pairwise_of_forall fun _ _ => trivial
  rw [separated_append]
  constructor
  · rintro ⟨-, hright, hleft⟩
    refine ⟨fun y hy => ?_, fun y hy => ?_⟩
    · exact hleft (.record y) (List.mem_map_of_mem hy) (.router x) List.mem_cons_self
    · exact (List.pairwise_cons.mp hright).1 (.record y) (List.mem_map_of_mem hy)
  · rintro ⟨hleft, hright⟩
    refine ⟨hrecords X, List.pairwise_cons.mpr ⟨fun b hb => ?_, hrecords Y⟩, fun a ha b hb => ?_⟩
    · obtain ⟨y, hy, rfl⟩ := List.mem_map.mp hb
      exact hright y hy
    · obtain ⟨z, hz, rfl⟩ := List.mem_map.mp ha
      rcases List.mem_cons.mp hb with rfl | hb
      · exact hleft z hz
      · obtain ⟨y, hy, rfl⟩ := List.mem_map.mp hb
        trivial

/-- A router that separates records does not separate them at another place. -/
theorem length_eq_of_separates (hC : ∀ y ∈ C, lt x y = false) (hZ : ∀ y ∈ Z, lt x y = true)
    (hX : ∀ y ∈ X, lt x y = false) (hY : ∀ y ∈ Y, lt x y = true) (heq : X ++ Y = C ++ Z) :
    X.length = C.length := by
  rcases List.append_eq_append_iff.mp heq with ⟨D, rfl, rfl⟩ | ⟨D, rfl, rfl⟩
  · cases D with
    | nil => simp
    | cons y D =>
      have h1 := hC y (by simp)
      have h2 := hY y (by simp)
      rw [h1] at h2
      cases h2
  · cases D with
    | nil => simp
    | cons y D =>
      have h1 := hX y (by simp)
      have h2 := hZ y (by simp)
      rw [h1] at h2
      cases h2

end

end BTreesMods
