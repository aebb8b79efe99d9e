import Mathlib.Algebra.BigOperators.Intervals

/-!
# Counting loops

Loops that accumulate a sum, and loops whose body may raise an exception.  In the
latter {lit}`none` stands for the exception: a loop runs through when no pass of its
body raises, and raises when some pass does.

Main results:

- Theorem {lit}`foldl_add_range`: an accumulating loop computes a sum.
- Theorem {lit}`foldlM_eq_some` and {lit}`foldlM_eq_none`: when a loop runs through.
- Theorem {lit}`foldlM_add_range`: an accumulating loop that does.
-/

namespace AcceleratorSoc
namespace Clocked
namespace Loop

variable {α σ M : Type*}

/-- A loop that adds a term in every pass. -/
theorem foldl_add_range [AddCommMonoid M] (f : Nat → M) (n : Nat) (s : M) :
    (List.range n).foldl (fun (acc : M) (k : Nat) => acc + f k) s =
      s + ∑ k ∈ Finset.range n, f k := by
  induction n with
  | zero => simp
  | succ n ih =>
      rw [List.range_succ, List.foldl_append, ih, Finset.sum_range_succ, ← add_assoc]
      rfl

/-- A loop no pass of which raises runs through.  The invariant holds of the states
that the passes see. -/
theorem foldlM_eq_some {body : σ → α → Option σ} (next : σ → α → σ) (P : σ → Prop) {l : List α}
    (h : ∀ x ∈ l, ∀ s, P s → body s x = some (next s x) ∧ P (next s x)) {s : σ} (hs : P s) :
    l.foldlM body s = some (l.foldl next s) ∧ P (l.foldl next s) := by
  induction l generalizing s with
  | nil => exact ⟨rfl, hs⟩
  | cons x l ih =>
      rcases h x List.mem_cons_self s hs with ⟨hbody, hnext⟩
      rw [List.foldlM_cons, hbody]
      exact ih (fun y hy => h y (List.mem_cons_of_mem x hy)) hnext

/-- A loop some pass of which raises does not run through. -/
theorem foldlM_eq_none {body : σ → α → Option σ} {l : List α} {x : α} (hx : x ∈ l)
    (h : ∀ s, body s x = none) (s : σ) : l.foldlM body s = none := by
  induction l generalizing s with
  | nil => exact absurd hx List.not_mem_nil
  | cons y l ih =>
      rw [List.foldlM_cons]
      rcases List.mem_cons.mp hx with rfl | hlater
      · rw [h s]
        rfl
      · cases body s y with
        | none => rfl
        | some s' => exact ih hlater s'

/-- An accumulating loop no pass of which raises computes a sum. -/
theorem foldlM_add_range [AddCommMonoid M] {body : M → Nat → Option M} {f : Nat → M} {n : Nat}
    (h : ∀ k < n, ∀ s, body s k = some (s + f k)) (s : M) :
    (List.range n).foldlM body s = some (s + ∑ k ∈ Finset.range n, f k) := by
  rw [← foldl_add_range]
  exact (foldlM_eq_some (fun (acc : M) (k : Nat) => acc + f k) (fun _ => True)
    (fun k hk acc _ => ⟨h k (List.mem_range.mp hk) acc, trivial⟩) trivial).1

/-- A loop of loops is one loop. -/
theorem foldlM_flatMap {β : Type*} (body : σ → α → Option σ) (inner : β → List α) (l : List β)
    (s : σ) :
    l.foldlM (fun s b => (inner b).foldlM body s) s = (l.flatMap inner).foldlM body s := by
  induction l generalizing s with
  | nil => rfl
  | cons b l ih =>
      rw [List.foldlM_cons, List.flatMap_cons, List.foldlM_append]
      exact congrArg _ (funext ih)

end Loop
end Clocked
end AcceleratorSoc
