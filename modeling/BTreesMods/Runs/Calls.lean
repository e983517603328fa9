import BTreesMods.Model.Remove
import BTreesMods.Lib.Machine
import Mathlib.Data.Multiset.AddSub

/-!
# Runs of calls

Sequences of `insert`, `remove` and `search` calls on an open tree, and on a multiset of records. A
relation between trees and multisets that every call keeps is kept by every run (`runCalls_spec`).
-/

namespace BTreesMods

variable {κ : Type}

/-! ## Calls -/

/-- A call on an open tree. -/
inductive TreeCall (κ : Type)
  | insert (k : κ)
  | remove (k : κ)
  | search (k : κ)

/-- The key that a call removes. -/
def TreeCall.removedKey : TreeCall κ → Option κ
  | remove k => some k
  | _ => none

/-- What a call returns. -/
inductive Answer (κ : Type)
  | inserted
  | removed (b : Bool)
  | searched (x : Option κ)
deriving DecidableEq

/-- The call on the tree. -/
def TreeCall.run [Inhabited κ] (T : Cfg κ) : TreeCall κ → TreeM κ (Answer κ)
  | insert k => do
    BTreesMods.insert T k
    return .inserted
  | remove k => do return .removed (← BTreesMods.remove T k)
  | search k => do return .searched (← BTreesMods.search T k)

/-- The calls one after another, with what each of them returns. -/
def runCalls [Inhabited κ] (T : Cfg κ) : List (TreeCall κ) → TreeM κ (List (Answer κ))
  | [] => return []
  | c :: cs => do
    let a ← c.run T
    return a :: (← runCalls T cs)

/-- The call on the multiset `M` of records, which answers `a` and leaves `M'`: `remove` takes out one
record equal to `k` if there is one. -/
def TreeCall.OnMultiset (c : Comparator κ) (M : Multiset κ) : TreeCall κ → Answer κ → Multiset κ → Prop
  | insert k, .inserted, M' => M' = k ::ₘ M
  | remove k, .removed true, M' => ∃ x, c.isEqual k x = true ∧ M = x ::ₘ M'
  | remove k, .removed false, M' => M' = M ∧ ∀ x ∈ M, c.isEqual k x = false
  | search k, .searched (some x), M' => M' = M ∧ x ∈ M ∧ c.isEqual k x = true
  | search k, .searched none, M' => M' = M ∧ ∀ x ∈ M, c.isEqual k x = false
  | _, _, _ => False

/-- The calls one after another on a multiset. -/
def RunsOnMultiset (c : Comparator κ) : Multiset κ → List (TreeCall κ) → List (Answer κ) →
    Multiset κ → Prop
  | M, [], [], M' => M' = M
  | M, call :: calls, a :: as, M' => ∃ M₁, call.OnMultiset c M a M₁ ∧ RunsOnMultiset c M₁ calls as M'
  | _, _, _, _ => False

/-- `P` holds of every call of a run and of the state that it is made in. -/
def EachCall [Inhabited κ] (T : Cfg κ) (P : TreeCall κ → BTree κ → Prop) : BTree κ → List (TreeCall κ) → Prop
  | _, [] => True
  | s, c :: cs => P c s ∧ ∀ a s', c.run T s = .ok (a, s') → EachCall T P s' cs

/-! ## Runs -/

section

variable [Inhabited κ] {T : Cfg κ} {P : TreeCall κ → BTree κ → Prop} {I : BTree κ → Multiset κ → Prop}

/-- What every call keeps, a run keeps. -/
theorem runCalls_spec
    (hstep : ∀ s M c, I s M → P c s → Returns (c.run T) s fun a s' => ∃ M',
      c.OnMultiset T.toComparator M a M' ∧ I s' M')
    {s : BTree κ} {M : Multiset κ} (hI : I s M) {cs : List (TreeCall κ)} (hP : EachCall T P s cs) :
    Returns (runCalls T cs) s fun as s' => ∃ M', RunsOnMultiset T.toComparator M cs as M' ∧ I s' M' := by
  induction cs generalizing s M with
  | nil => exact Returns.pure ⟨M, rfl, hI⟩
  | cons c cs ih =>
    obtain ⟨a, s1, hrun, M₁, hM₁, hI₁⟩ := hstep s M c hI hP.1
    refine Returns.step hrun ((ih hI₁ (hP.2 a s1 hrun)).bind ?_)
    rintro as s' ⟨M', hM', hI'⟩
    exact Returns.pure ⟨M', ⟨M₁, hM₁, hM'⟩, hI'⟩

/-- The condition on a run is that on a sequence of calls. -/
theorem eachCall_of_meetsEach {s : BTree κ} {cs : List (TreeCall κ)}
    (h : MeetsEach (TreeCall.run T) P s cs) : EachCall T P s cs := by
  induction cs generalizing s with
  | nil => trivial
  | cons c cs ih => exact ⟨h.1, fun a s' hrun => ih (h.2 a s' hrun)⟩

omit [Inhabited κ] in
/-- A run on a multiset that begins with insertions. -/
theorem runsOnMultiset_insert {c : Comparator κ} {M M' : Multiset κ} {ks : List κ} {cs : List (TreeCall κ)}
    {as : List (Answer κ)} (hruns : RunsOnMultiset c M (ks.map TreeCall.insert ++ cs) as M') :
    ∃ as', RunsOnMultiset c (↑ks.reverse + M) cs as' M' ∧ as = ks.map (fun _ => Answer.inserted) ++ as' := by
  induction ks generalizing M as with
  | nil => exact ⟨as, by simpa using hruns, rfl⟩
  | cons k ks ih =>
    cases as with
    | nil => exact hruns.elim
    | cons a as =>
      obtain ⟨M₁, hM₁, hruns⟩ := hruns
      cases a with
      | inserted =>
        obtain rfl : M₁ = k ::ₘ M := hM₁
        obtain ⟨as', has', rfl⟩ := ih hruns
        refine ⟨as', ?_, rfl⟩
        rwa [List.reverse_cons, ← Multiset.coe_add, Multiset.coe_singleton, Multiset.add_assoc,
          Multiset.singleton_add]
      | removed b => exact hM₁.elim
      | searched x => exact hM₁.elim

end

end BTreesMods
