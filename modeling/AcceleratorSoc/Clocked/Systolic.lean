import Mathlib.Algebra.BigOperators.Intervals
import AcceleratorSoc.Clocked.Run

/-!
# Output-stationary systolic arrays

Every cell of an {lit}`n × n` grid multiplies the operand arriving from its left
neighbour by the operand arriving from above, adds the product to its own
accumulator, and hands both operands on, to the right and downwards, one pulse
later.  The operand types, the product and the accumulator are parameters; the
product of a zero operand must be zero.

Main results:

- Theorem {lit}`cell_val`: after {lit}`t` pulses a cell has accumulated the
  products of its row's and its column's input streams, delayed by its distance
  from the borders.
- Theorem {lit}`skewed_val`: on inputs fed with a skew of one pulse per row and
  column, a cell holds the inner product of its row and its column from pulse
  {lit}`r + c + K` on.
-/

namespace AcceleratorSoc
namespace Clocked
namespace Systolic

/-- Registers of one cell: the operands it forwards and its accumulator. -/
structure Cell (A B R : Type*) where
  right : A
  down : B
  val : R

/-- A square grid of cells, row first. -/
abbrev Grid (n : Nat) (A B R : Type*) :=
  Fin n → Fin n → Cell A B R

variable {n : Nat} {A B R : Type*}

/-- Operand arriving from the left: the row input in column zero, otherwise the
register of the left neighbour. -/
def fromLeft (rows : Fin n → A) (g : Grid n A B R) (r c : Fin n) : A :=
  if c.val = 0 then rows r else (g r ⟨c.val - 1, by omega⟩).right

/-- Operand arriving from above: the column input in row zero, otherwise the
register of the upper neighbour. -/
def fromAbove (cols : Fin n → B) (g : Grid n A B R) (r c : Fin n) : B :=
  if r.val = 0 then cols c else (g ⟨r.val - 1, by omega⟩ c).down

/-- One pulse: every cell moves at once, from its neighbours' old registers. -/
def pulse [Add R] (mul : A → B → R) (g : Grid n A B R)
    (input : (Fin n → A) × (Fin n → B)) : Grid n A B R :=
  fun r c =>
    { right := fromLeft input.1 g r c
      down := fromAbove input.2 g r c
      val := (g r c).val + mul (fromLeft input.1 g r c) (fromAbove input.2 g r c) }

/-- All registers zero. -/
def zeroGrid (n : Nat) (A B R : Type*) [Zero A] [Zero B] [Zero R] : Grid n A B R :=
  fun _ _ => { right := 0, down := 0, val := 0 }

/-- Zero inputs leave a grid of zeros alone. -/
theorem pulse_zeroGrid [Zero A] [Zero B] [AddZeroClass R] {mul : A → B → R}
    (hzero : mul 0 0 = 0) :
    pulse mul (zeroGrid n A B R) (fun _ => 0, fun _ => 0) = zeroGrid n A B R := by
  funext r c
  simp [pulse, zeroGrid, fromLeft, fromAbove, hzero]

/-- A stream seen {lit}`d` pulses late; zero before it arrives. -/
def delayed {α : Type*} [Zero α] (x : Nat → α) (d s : Nat) : α :=
  if d ≤ s then x (s - d) else 0

/-- No delay. -/
@[simp]
theorem delayed_zero {α : Type*} [Zero α] (x : Nat → α) (s : Nat) :
    delayed x 0 s = x s := by
  simp [delayed]

/-- Delaying by one more pulse shifts the stream by one. -/
theorem delayed_succ {α : Type*} [Zero α] (x : Nat → α) (d s : Nat) :
    delayed x (d + 1) (s + 1) = delayed x d s := by
  simp [delayed]

/-- At first a delayed stream is zero. -/
@[simp]
theorem delayed_succ_zero {α : Type*} [Zero α] (x : Nat → α) (d : Nat) :
    delayed x (d + 1) 0 = 0 := by
  simp [delayed]

/-- What a delayed stream shows depends on its past only. -/
theorem delayed_congr {α : Type*} [Zero α] {x y : Nat → α} {s : Nat}
    (h : ∀ k ≤ s, x k = y k) (d : Nat) : delayed x d s = delayed y d s := by
  simp only [delayed]
  rw [h (s - d) (Nat.sub_le s d)]

/-! ## Stream laws -/

section StreamLaw

variable [Zero A] [Zero B] [AddCommMonoid R] (mul : A → B → R)
  (inp : Nat → (Fin n → A) × (Fin n → B))

/-- The grid after {lit}`t` pulses from zero registers. -/
def after (t : Nat) : Grid n A B R :=
  run (pulse mul) (zeroGrid n A B R) inp t

/-- One more pulse. -/
theorem after_succ (t : Nat) :
    after mul inp (t + 1) = pulse mul (after mul inp t) (inp t) :=
  rfl

/-- The operand reaching a cell from the left is its row's stream, delayed by
the column index. -/
theorem fromLeft_after (t : Nat) (r c : Fin n) :
    fromLeft (inp t).1 (after mul inp t) r c =
      delayed (fun s => (inp s).1 r) c.val t := by
  obtain ⟨c, hc⟩ := c
  induction c generalizing t with
  | zero => simp [fromLeft]
  | succ c ih =>
      cases t with
      | zero => simp [fromLeft, after, zeroGrid]
      | succ t =>
          rw [delayed_succ, ← ih t (by omega)]
          simp [fromLeft, after_succ, pulse]

/-- The operand reaching a cell from above is its column's stream, delayed by
the row index. -/
theorem fromAbove_after (t : Nat) (r c : Fin n) :
    fromAbove (inp t).2 (after mul inp t) r c =
      delayed (fun s => (inp s).2 c) r.val t := by
  obtain ⟨r, hr⟩ := r
  induction r generalizing t with
  | zero => simp [fromAbove]
  | succ r ih =>
      cases t with
      | zero => simp [fromAbove, after, zeroGrid]
      | succ t =>
          rw [delayed_succ, ← ih t (by omega)]
          simp [fromAbove, after_succ, pulse]

/-- A cell accumulates the products of the two delayed streams. -/
theorem cell_val (t : Nat) (r c : Fin n) :
    (after mul inp t r c).val =
      ∑ s ∈ Finset.range t,
        mul (delayed (fun k => (inp k).1 r) c.val s)
          (delayed (fun k => (inp k).2 c) r.val s) := by
  induction t with
  | zero => simp [after, zeroGrid]
  | succ t ih =>
      rw [Finset.sum_range_succ, ← ih, ← fromLeft_after mul inp, ← fromAbove_after mul inp]
      rfl

end StreamLaw

/-! ## Skewed feeding -/

/-- The {lit}`K` words of a lane, fed one per pulse starting at pulse
{lit}`lane`; zero outside that window. -/
def skewed {α : Type*} [Zero α] (K : Nat) (x : Nat → α) (lane s : Nat) : α :=
  if lane ≤ s ∧ s < lane + K then x (s - lane) else 0

/-- Delaying a skewed stream skews it further. -/
theorem delayed_skewed {α : Type*} [Zero α] (K : Nat) (x : Nat → α)
    (lane d s : Nat) :
    delayed (skewed K x lane) d s = skewed K x (lane + d) s := by
  simp only [delayed, skewed]
  by_cases hd : d ≤ s
  · by_cases hw : lane + d ≤ s ∧ s < lane + d + K
    · rw [if_pos hd, if_pos (by omega), if_pos hw]
      congr 1
      omega
    · rw [if_pos hd, if_neg (by omega), if_neg hw]
  · rw [if_neg hd, if_neg (by omega)]

/-- A skewed stream brings its values in order. -/
theorem skewed_add {α : Type*} [Zero α] {K k : Nat} (x : Nat → α) (lane : Nat)
    (hk : k < K) : skewed K x lane (lane + k) = x k := by
  rw [skewed, if_pos (by omega)]
  congr 1
  omega

/-- Summing a skewed stream past its window sums its words. -/
theorem sum_skewed [AddCommMonoid R] {K lane t : Nat} (z : Nat → R) (ht : lane + K ≤ t) :
    ∑ s ∈ Finset.range t, skewed K z lane s = ∑ k ∈ Finset.range K, z k := by
  -- Only the window `lane ≤ s < lane + K` contributes.
  obtain ⟨rest, rfl⟩ := Nat.exists_eq_add_of_le ht
  have hbefore : ∑ s ∈ Finset.range lane, skewed K z lane s = 0 := by
    apply Finset.sum_eq_zero
    intro s hs
    have hlt : s < lane := Finset.mem_range.mp hs
    rw [skewed, if_neg (by omega)]
  have hafter : ∑ s ∈ Finset.range rest, skewed K z lane (lane + K + s) = 0 := by
    apply Finset.sum_eq_zero
    intro s _
    rw [skewed, if_neg (by omega)]
  rw [Finset.sum_range_add, Finset.sum_range_add, hbefore, hafter, zero_add, add_zero]
  apply Finset.sum_congr rfl
  intro k hk
  exact skewed_add z lane (Finset.mem_range.mp hk)

/-- The product of two skewed streams runs over the shorter window. -/
theorem mul_skewed [Zero A] [Zero B] [Zero R] {mul : A → B → R} (hleft : ∀ b, mul 0 b = 0)
    (hright : ∀ a, mul a 0 = 0) (K L : Nat) (x : Nat → A) (y : Nat → B) (lane s : Nat) :
    mul (skewed K x lane s) (skewed L y lane s) =
      skewed (min K L) (fun k => mul (x k) (y k)) lane s := by
  by_cases hx : lane ≤ s ∧ s < lane + K
  · by_cases hy : lane ≤ s ∧ s < lane + L
    · rw [skewed, if_pos hx, skewed, if_pos hy, skewed, if_pos (by omega)]
    · rw [skewed, skewed, if_neg hy, hright, skewed, if_neg (by omega)]
  · rw [skewed, if_neg hx, hleft, skewed, if_neg (by omega)]

/-- On skewed inputs a cell holds the inner product of its row and its column as
soon as the last pair has reached it, and keeps it. -/
theorem skewed_val [Zero A] [Zero B] [AddCommMonoid R] {mul : A → B → R}
    (hzero : ∀ b, mul 0 b = 0) {inp : Nat → (Fin n → A) × (Fin n → B)} {K : Nat}
    {x : Fin n → Nat → A} {y : Fin n → Nat → B}
    (hrows : ∀ s r, (inp s).1 r = skewed K (x r) r.val s)
    (hcols : ∀ s c, (inp s).2 c = skewed K (y c) c.val s)
    {t : Nat} {r c : Fin n} (ht : r.val + c.val + K ≤ t) :
    (after mul inp t r c).val = ∑ k ∈ Finset.range K, mul (x r k) (y c k) := by
  have hrow : ∀ s, delayed (fun k => (inp k).1 r) c.val s =
      skewed K (x r) (r.val + c.val) s := by
    intro s
    rw [← delayed_skewed]
    simp only [hrows]
  have hcol : ∀ s, delayed (fun k => (inp k).2 c) r.val s =
      skewed K (y c) (r.val + c.val) s := by
    intro s
    rw [Nat.add_comm r.val, ← delayed_skewed]
    simp only [hcols]
  have hterm : ∀ s, mul (skewed K (x r) (r.val + c.val) s) (skewed K (y c) (r.val + c.val) s) =
      skewed K (fun k => mul (x r k) (y c k)) (r.val + c.val) s := by
    intro s
    by_cases hw : r.val + c.val ≤ s ∧ s < r.val + c.val + K
    · rw [skewed, if_pos hw, skewed, if_pos hw, skewed, if_pos hw]
    · rw [skewed, if_neg hw, hzero, skewed, if_neg hw]
  rw [cell_val]
  simp only [hrow, hcol, hterm]
  exact sum_skewed _ ht

end Systolic
end Clocked
end AcceleratorSoc
