import Mathlib.Data.List.Induction

/-!
# Last writes

Commands run one after the other on a state, and some of them overwrite a field
of it.  The field then has the value of the last command that did.

Main results:

- Theorem {lit}`observe_foldl`: a field after a list of commands.
- Theorem {lit}`lastWrite_congr`: the last write depends only on what each command
  writes.
-/

namespace AcceleratorSoc
namespace Clocked

variable {σ C β : Type*}

/-- What the last writing command of a list wrote. -/
def lastWrite (writes : C → Option β) (l : List C) : Option β :=
  l.foldl (fun last c => (writes c).or last) none

/-- A later write wins. -/
theorem lastWrite_concat (writes : C → Option β) (l : List C) (c : C) :
    lastWrite writes (l ++ [c]) = (writes c).or (lastWrite writes l) := by
  rw [lastWrite, List.foldl_append]
  rfl

/-- A field that each command either overwrites or keeps has the last written value;
if nothing was written it has its first value. -/
theorem observe_foldl {step : σ → C → σ} {field : σ → β} {writes : C → Option β}
    (hstep : ∀ s c, field (step s c) = (writes c).getD (field s)) (s : σ) (l : List C) :
    field (l.foldl step s) = (lastWrite writes l).getD (field s) := by
  induction l using List.reverseRecOn with
  | nil => rfl
  | append_singleton l c ih =>
      rw [List.foldl_append, lastWrite_concat]
      change field (step (l.foldl step s) c) = _
      rw [hstep, ih]
      cases writes c <;> rfl

/-- Only the writes matter. -/
theorem lastWrite_congr {writes writes' : C → Option β} {l : List C}
    (h : ∀ c ∈ l, writes c = writes' c) : lastWrite writes l = lastWrite writes' l := by
  induction l using List.reverseRecOn with
  | nil => rfl
  | append_singleton l c ih =>
      rw [lastWrite_concat, lastWrite_concat, h c (by simp),
        ih fun d hd => h d (List.mem_append_left _ hd)]

/-- Last writes of translated commands. -/
theorem lastWrite_map {D : Type*} (writes : C → Option β) (f : D → C) (l : List D) :
    lastWrite writes (l.map f) = lastWrite (fun d => writes (f d)) l := by
  rw [lastWrite, List.foldl_map]
  rfl

end Clocked
end AcceleratorSoc
