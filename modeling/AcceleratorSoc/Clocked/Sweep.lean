import Mathlib.Data.List.Basic
import Mathlib.Logic.Function.Basic

/-!
# In-place sweeps

A loop that visits the sites of a memory one after the other and overwrites each
with a value computed from the memory as it stands.  When no site is read after it
was overwritten, the loop has the effect of overwriting all visited sites at once.
Nothing in this module mentions a particular memory.

Main results:

- Theorem {lit}`sweep_get`: what a sweep leaves at a site, when no site is read after
  its update.
- Theorem {lit}`sweep_get_of_rank`: the same for sweeps that descend along a rank
  which bounds what a site reads.
-/

namespace AcceleratorSoc
namespace Clocked
namespace Sweep

variable {ι V : Type*} [DecidableEq ι]

/-- Overwrite the sites of a list, in order. -/
def sweep (f : (ι → V) → ι → V) (order : List ι) (m : ι → V) : ι → V :=
  order.foldl (fun m x => Function.update m x (f m x)) m

/-- Nothing to visit. -/
@[simp]
theorem sweep_nil (f : (ι → V) → ι → V) (m : ι → V) : sweep f [] m = m :=
  rfl

/-- The first place is visited first. -/
theorem sweep_cons (f : (ι → V) → ι → V) (x : ι) (order : List ι) (m : ι → V) :
    sweep f (x :: order) m = sweep f order (Function.update m x (f m x)) :=
  rfl

/-- The value computed for a site depends on the sites it reads only. -/
def ReadsOnly (f : (ι → V) → ι → V) (Reads : ι → ι → Prop) : Prop :=
  ∀ y m m', (∀ x, Reads y x → m x = m' x) → f m y = f m' y

/-- A site that a sweep does not visit keeps its value. -/
theorem sweep_get_of_notMem (f : (ι → V) → ι → V) {order : List ι} {y : ι} (h : y ∉ order)
    (m : ι → V) : sweep f order m y = m y := by
  induction order generalizing m with
  | nil => rfl
  | cons x order ih =>
      rw [List.mem_cons, not_or] at h
      rw [sweep_cons, ih h.2, Function.update_of_ne h.1]

/-- A sweep in which no site reads an earlier one computes every visited site from
the old memory. -/
theorem sweep_get {f : (ι → V) → ι → V} {Reads : ι → ι → Prop} (hf : ReadsOnly f Reads)
    {order : List ι} (horder : order.Pairwise fun x y => ¬ Reads y x) {y : ι}
    (hy : y ∈ order) (m : ι → V) : sweep f order m y = f m y := by
  induction order generalizing m with
  | nil => exact absurd hy List.not_mem_nil
  | cons x order ih =>
      rcases List.pairwise_cons.mp horder with ⟨hfirst, hrest⟩
      rw [sweep_cons]
      by_cases hlater : y ∈ order
      · rw [ih hrest hlater]
        apply hf
        intro z hz
        have hne : z ≠ x := by
          rintro rfl
          exact hfirst y hlater hz
        exact Function.update_of_ne hne _ _
      · have heq : y = x := (List.mem_cons.mp hy).resolve_right hlater
        rw [sweep_get_of_notMem f hlater, heq, Function.update_self]

/-- A sweep that visits its sites once, by descending rank, where a site reads itself
and sites of lower rank, computes every visited site from the old memory. -/
theorem sweep_get_of_rank (rank : ι → Int) {f : (ι → V) → ι → V} {Reads : ι → ι → Prop}
    (hf : ReadsOnly f Reads) (hreads : ∀ y x, Reads y x → x = y ∨ rank x < rank y)
    {order : List ι} (hnodup : order.Nodup)
    (hrank : order.Pairwise fun x y => rank y ≤ rank x) {y : ι} (hy : y ∈ order)
    (m : ι → V) : sweep f order m y = f m y := by
  refine sweep_get hf ?_ hy m
  refine hnodup.imp₂ ?_ hrank
  intro x z hne hle hread
  rcases hreads z x hread with heq | hlt
  · exact hne heq
  · omega

/-- A loop that writes given values to given sites, where equal sites get equal
values, leaves each of them with its value. -/
theorem foldl_update_get {α : Type*} {w : α → ι} {v : α → V} {order : List α} {a : α}
    (ha : a ∈ order) (hw : ∀ b ∈ order, w b = w a → v b = v a) (m : ι → V) :
    order.foldl (fun m b => Function.update m (w b) (v b)) m (w a) = v a := by
  have hkeep : ∀ (rest : List α) (m : ι → V), (∀ b ∈ rest, w b = w a → v b = v a) →
      a ∈ rest ∨ m (w a) = v a →
        rest.foldl (fun m b => Function.update m (w b) (v b)) m (w a) = v a := by
    intro rest
    induction rest with
    | nil =>
        rintro m - (hmem | hval)
        · exact absurd hmem List.not_mem_nil
        · exact hval
    | cons b rest ih =>
        intro m hrest hpre
        refine ih (Function.update m (w b) (v b))
          (fun d hd => hrest d (List.mem_cons_of_mem _ hd)) ?_
        by_cases hsite : w a = w b
        · right
          rw [hsite, Function.update_self]
          exact hrest b List.mem_cons_self hsite.symm
        · rcases hpre with hmem | hval
          · left
            refine (List.mem_cons.mp hmem).resolve_left ?_
            rintro rfl
            exact hsite rfl
          · right
            rw [Function.update_of_ne hsite, hval]
  exact hkeep order m hw (Or.inl ha)

end Sweep
end Clocked
end AcceleratorSoc
