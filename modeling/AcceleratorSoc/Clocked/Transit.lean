import Mathlib.Data.List.Basic

/-!
# Requests in transit through a staged bus

A request that a bus has accepted waits, is handed to a server, comes back with
an answer, and is delivered.  Each stage is a queue, and a clock edge moves at
most one request from each stage to the next.

Main results:

- Theorem {lit}`requests_cycle`: accepted requests are never dropped, repeated or
  reordered.
- Theorem {lit}`handed_cycle`, {lit}`served_cycle`: requests reach the servers, and
  get their answers, in the order of acceptance.
- Theorem {lit}`held_cycle`: what is accepted and not delivered is a queue.
- Theorem {lit}`getElem?_filter_iff`: the number of a request among those of its kind.
-/

namespace AcceleratorSoc
namespace Clocked

variable {Q A : Type*}

/-- The stages, each oldest first. -/
structure Transit (Q A : Type*) where
  delivered : List (Q × A)
  returning : List (Q × A)
  serving : List Q
  waiting : List Q

namespace Transit

/-- Nothing has been accepted. -/
def empty : Transit Q A where
  delivered := []
  returning := []
  serving := []
  waiting := []

/-- Requests with their answers, delivered or not. -/
def served (x : Transit Q A) : List (Q × A) :=
  x.delivered ++ x.returning

/-- Requests that have been handed to a server. -/
def handed (x : Transit Q A) : List Q :=
  x.served.map Prod.fst ++ x.serving

/-- Requests that have been accepted. -/
def requests (x : Transit Q A) : List Q :=
  x.handed ++ x.waiting

/-- Requests that have been accepted and not delivered. -/
def held (x : Transit Q A) : List Q :=
  x.returning.map Prod.fst ++ x.serving ++ x.waiting

/-- One clock edge: the oldest answer is delivered, the oldest waiting request is
handed over, the oldest request at a server is answered, a request is accepted. -/
def cycle (x : Transit Q A) (accept : Option Q) (hand : Bool) (answer : Option A)
    (deliver : Bool) : Transit Q A :=
  let serving := x.serving ++ x.waiting.take hand.toNat
  { delivered := x.delivered ++ x.returning.take deliver.toNat
    returning := x.returning.drop deliver.toNat ++ serving.zip answer.toList
    serving := serving.drop answer.toList.length
    waiting := x.waiting.drop hand.toNat ++ accept.toList }

/-- An answered request is held until its answer is delivered. -/
theorem mem_held_of_returning {x : Transit Q A} {e : Q × A} (h : e ∈ x.returning) :
    e.1 ∈ x.held :=
  List.mem_append_left _ (List.mem_append_left _ (List.mem_map_of_mem h))

/-- A request at a server is held. -/
theorem mem_held_of_serving {x : Transit Q A} {q : Q} (h : q ∈ x.serving) : q ∈ x.held :=
  List.mem_append_left _ (List.mem_append_right _ h)

/-- A waiting request is held. -/
theorem mem_held_of_waiting {x : Transit Q A} {q : Q} (h : q ∈ x.waiting) : q ∈ x.held :=
  List.mem_append_right _ h

variable (x : Transit Q A) (accept : Option Q) (hand : Bool) (answer : Option A)
  (deliver : Bool)

/-- Requests are accepted or delivered, in order. -/
theorem requests_eq : x.requests = x.delivered.map Prod.fst ++ x.held := by
  simp [requests, handed, served, held]

/-- Nothing is held when no request is coming back, at a server or waiting. -/
theorem held_eq_nil_iff :
    x.held = [] ↔ x.returning = [] ∧ x.serving = [] ∧ x.waiting = [] := by
  rw [held, List.append_eq_nil_iff, List.append_eq_nil_iff, List.map_eq_nil_iff, and_assoc]

/-- An answer leaves the server with the oldest request. -/
private theorem zip_append_drop (l : List Q) (answer : Option A) :
    (l.zip answer.toList).map Prod.fst ++ l.drop answer.toList.length = l := by
  cases answer with
  | none => simp
  | some a => cases l <;> simp

/-- An answer belongs to the oldest request at a server. -/
theorem served_cycle :
    (x.cycle accept hand answer deliver).served =
      x.served ++ (x.serving ++ x.waiting.take hand.toNat).zip answer.toList := by
  calc
    (x.cycle accept hand answer deliver).served =
        x.delivered ++ (x.returning.take deliver.toNat ++ x.returning.drop deliver.toNat) ++
          (x.serving ++ x.waiting.take hand.toNat).zip answer.toList := by
      simp only [served, cycle, List.append_assoc]
    _ = x.served ++ (x.serving ++ x.waiting.take hand.toNat).zip answer.toList := by
      rw [List.take_append_drop]
      rfl

/-- A server gets the oldest waiting request. -/
theorem handed_cycle :
    (x.cycle accept hand answer deliver).handed =
      x.handed ++ x.waiting.take hand.toNat := by
  calc
    (x.cycle accept hand answer deliver).handed =
        x.served.map Prod.fst ++
          (((x.serving ++ x.waiting.take hand.toNat).zip answer.toList).map Prod.fst ++
            (x.serving ++ x.waiting.take hand.toNat).drop answer.toList.length) := by
      rw [handed, served_cycle, List.map_append, List.append_assoc]
      rfl
    _ = x.handed ++ x.waiting.take hand.toNat := by
      rw [zip_append_drop, handed, List.append_assoc]

/-- Nothing that was accepted is lost, and nothing is accepted twice. -/
theorem requests_cycle :
    (x.cycle accept hand answer deliver).requests = x.requests ++ accept.toList := by
  calc
    (x.cycle accept hand answer deliver).requests =
        x.handed ++ (x.waiting.take hand.toNat ++ x.waiting.drop hand.toNat) ++
          accept.toList := by
      rw [requests, handed_cycle]
      simp only [cycle, List.append_assoc]
    _ = x.requests ++ accept.toList := by
      rw [List.take_append_drop]
      rfl

/-- A delivery takes the oldest request of all off. -/
theorem held_cycle (hdeliver : deliver = true → x.returning ≠ []) :
    (x.cycle accept hand answer deliver).held =
      x.held.drop deliver.toNat ++ accept.toList := by
  have hreturning : deliver.toNat ≤ x.returning.length := by
    cases deliver
    · exact Nat.zero_le _
    · exact List.length_pos_iff.mpr (hdeliver rfl)
  have hdrop : x.held.drop deliver.toNat =
      (x.returning.drop deliver.toNat).map Prod.fst ++ x.serving ++ x.waiting := by
    rw [held, List.append_assoc, List.drop_append_of_le_length (by simpa using hreturning),
      List.map_drop, List.append_assoc]
  calc
    (x.cycle accept hand answer deliver).held =
        (x.returning.drop deliver.toNat).map Prod.fst ++
          (((x.serving ++ x.waiting.take hand.toNat).zip answer.toList).map Prod.fst ++
            (x.serving ++ x.waiting.take hand.toNat).drop answer.toList.length) ++
          x.waiting.drop hand.toNat ++ accept.toList := by
      simp [held, cycle]
    _ = (x.returning.drop deliver.toNat).map Prod.fst ++ x.serving ++
          (x.waiting.take hand.toNat ++ x.waiting.drop hand.toNat) ++ accept.toList := by
      rw [zip_append_drop]
      simp
    _ = x.held.drop deliver.toNat ++ accept.toList := by
      rw [List.take_append_drop, hdrop]

end Transit

/-! ## Numbered requests of one kind -/

/-- Entry {lit}`j` among the entries that satisfy a test is the entry that satisfies
it and has {lit}`j` such entries before it. -/
theorem getElem?_filter_iff {α : Type*} {p : α → Bool} {l : List α} {j : Nat} {a : α} :
    (l.filter p)[j]? = some a ↔
      ∃ m, l[m]? = some a ∧ p a = true ∧ (l.take m).countP p = j := by
  induction l generalizing j with
  | nil => simp
  | cons b l ih =>
      have hsplit : (∃ m, (b :: l)[m]? = some a ∧ p a = true ∧
            ((b :: l).take m).countP p = j) ↔
          (b = a ∧ p a = true ∧ 0 = j) ∨
            ∃ m, l[m]? = some a ∧ p a = true ∧
              (l.take m).countP p + (if p b then 1 else 0) = j := by
        constructor
        · rintro ⟨_ | m, hm, ha, hj⟩
          · exact Or.inl ⟨Option.some.inj hm, ha, hj⟩
          · exact Or.inr ⟨m, hm, ha, by rwa [List.take_succ_cons, List.countP_cons] at hj⟩
        · rintro (⟨rfl, ha, hj⟩ | ⟨m, hm, ha, hj⟩)
          · exact ⟨0, rfl, ha, hj⟩
          · exact ⟨m + 1, hm, ha, by rwa [List.take_succ_cons, List.countP_cons]⟩
      rw [hsplit]
      by_cases hb : p b = true
      · rw [List.filter_cons_of_pos hb, if_pos hb]
        cases j with
        | zero =>
            rw [List.getElem?_cons_zero, Option.some.injEq]
            constructor
            · rintro rfl
              exact Or.inl ⟨rfl, hb, rfl⟩
            · rintro (⟨rfl, -, -⟩ | ⟨_, _, _, hj⟩)
              · rfl
              · exact absurd hj (Nat.succ_ne_zero _)
        | succ j =>
            rw [List.getElem?_cons_succ, ih]
            simp only [Nat.add_right_cancel_iff, (Nat.succ_ne_zero j).symm, and_false,
              false_or]
      · rw [List.filter_cons_of_neg hb, if_neg hb, ih]
        constructor
        · exact Or.inr
        · rintro (⟨rfl, ha, -⟩ | h)
          · exact absurd ha hb
          · exact h

end Clocked
end AcceleratorSoc
