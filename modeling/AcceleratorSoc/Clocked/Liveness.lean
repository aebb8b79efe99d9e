import Mathlib.Data.Nat.Init
import Mathlib.Tactic.ByContra

/-!
# Liveness of a request/response channel

A master waits for a number of responses.  It presents requests until enough are
outstanding; a fair slave takes a request that stays presented and answers every
outstanding one.  Whatever the delays are, the responses then arrive.

Main results:

- Theorem {lit}`Fair.exists_response`: a waiting master gets a response.
- Theorem {lit}`Fair.exists_count`: a master that waits for {lit}`N` responses one after
  the other gets all of them.
-/

namespace AcceleratorSoc
namespace Clocked

/-- A channel along a run: the cycles in which the master presents a request, the slave
is ready, a response comes, and a request is outstanding. -/
structure Channel where
  valid : Nat → Prop
  ready : Nat → Prop
  respond : Nat → Prop
  busy : Nat → Prop

namespace Channel

/-- The slave takes a request that is presented from some cycle on, and answers what is
outstanding. -/
structure Fair (c : Channel) : Prop where
  takes : ∀ n, (∀ m, n ≤ m → c.valid m) → ∃ m, n ≤ m ∧ c.ready m
  answers : ∀ n, c.busy n → ∃ m, n ≤ m ∧ c.respond m

/-- In the cycles of {lit}`W` the master waits for one response: it keeps presenting
requests until one is outstanding. -/
structure Waiting (c : Channel) (W : Nat → Prop) : Prop where
  stays : ∀ n, W n → ¬c.respond n → W (n + 1)
  busy_stays : ∀ n, W n → c.busy n → ¬c.respond n → c.busy (n + 1)
  presents : ∀ n, W n → ¬c.busy n → c.busy (n + 1) ∨ c.valid (n + 1)
  taken : ∀ n, W n → c.valid n → c.ready n → c.busy (n + 1) ∨ c.respond n

variable {c : Channel}

/-- A waiting master gets its response. -/
theorem Fair.exists_response (hfair : c.Fair) {W : Nat → Prop} (hw : c.Waiting W) {n : Nat}
    (h : W n) : ∃ m, n ≤ m ∧ W m ∧ c.respond m := by
  by_contra hnever
  have hwait : ∀ m, n ≤ m → W m ∧ ¬c.respond m := by
    intro m hm
    induction m, hm using Nat.le_induction with
    | base => exact ⟨h, fun hrsp => hnever ⟨n, Nat.le_refl n, h, hrsp⟩⟩
    | succ m hm ih =>
        have hnext := hw.stays m ih.1 ih.2
        exact ⟨hnext, fun hrsp => hnever ⟨m + 1, Nat.le_succ_of_le hm, hnext, hrsp⟩⟩
  -- A request that is outstanding would be answered.
  have hidle : ∀ m, n ≤ m → ¬c.busy m := by
    intro m hm hbusy
    obtain ⟨k, hk, hrsp⟩ := hfair.answers m hbusy
    exact (hwait k (Nat.le_trans hm hk)).2 hrsp
  -- So one is presented from the next cycle on, and taken.
  have hvalid : ∀ m, n + 1 ≤ m → c.valid m := by
    intro m hm
    obtain ⟨k, rfl⟩ : ∃ k, m = k + 1 := ⟨m - 1, by omega⟩
    rcases hw.presents k (hwait k (by omega)).1 (hidle k (by omega)) with hbusy | hv
    · exact absurd hbusy (hidle (k + 1) (by omega))
    · exact hv
  obtain ⟨m, hm, hready⟩ := hfair.takes (n + 1) hvalid
  rcases hw.taken m (hwait m (by omega)).1 (hvalid m hm) hready with hbusy | hrsp
  · exact hidle (m + 1) (by omega) hbusy
  · exact (hwait m (by omega)).2 hrsp

/-- A master that waits for one response after the other gets all of them. -/
theorem Fair.exists_count (hfair : c.Fair) {W : Nat → Nat → Prop} {N : Nat}
    (hw : ∀ r < N, c.Waiting (W r))
    (hnext : ∀ r < N, ∀ n, W r n → c.respond n → W (r + 1) (n + 1)) {r n : Nat}
    (hr : r ≤ N) (h : W r n) : ∃ m, n ≤ m ∧ W N m := by
  induction hleft : N - r generalizing r n with
  | zero =>
      have hdone : r = N := by
        omega
      exact ⟨n, Nat.le_refl n, hdone ▸ h⟩
  | succ d ih =>
      obtain ⟨m, hm, hwait, hrsp⟩ := hfair.exists_response (hw r (by omega)) h
      obtain ⟨k, hk, hdone⟩ := ih (by omega) (hnext r (by omega) m hwait hrsp) (by omega)
      exact ⟨k, by omega, hdone⟩

end Channel

end Clocked
end AcceleratorSoc
