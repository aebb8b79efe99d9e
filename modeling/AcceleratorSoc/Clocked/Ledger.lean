import Mathlib.Data.List.Basic

/-!
# Ledger of a request/response channel

A bus monitor sees, in every cycle, at most one accepted request and at most
one response.  Responses carry no tag, so the monitor pairs each response with
the oldest unanswered request.  A response in the cycle that accepts a request
can only answer an earlier one.

Main results:

- Theorem {lit}`accepted_cycle`: accepted requests are recorded in order and
  never dropped.
- Theorem {lit}`answered_cycle_some`: a response answers the first request that
  is not yet answered.
- Theorem {lit}`pending_length_cycle`: the number of outstanding requests counts
  acceptances minus responses.
-/

namespace AcceleratorSoc
namespace Clocked

/-- Requests waiting for a response, oldest first, and the answered ones with
their responses. -/
structure Ledger (C R : Type*) where
  pending : List C
  answered : List (C × R)
deriving DecidableEq

namespace Ledger

variable {C R : Type*}

/-- Nothing has been requested. -/
def empty : Ledger C R where
  pending := []
  answered := []

/-- Pair a response with the oldest unanswered request.  A response that nothing
asked for leaves the ledger unchanged. -/
def respond (l : Ledger C R) : Option R → Ledger C R
  | none => l
  | some r =>
      match l.pending with
      | [] => l
      | c :: cs => { pending := cs, answered := l.answered ++ [(c, r)] }

/-- Append an accepted request. -/
def issue (l : Ledger C R) (c : Option C) : Ledger C R :=
  { l with pending := l.pending ++ c.toList }

/-- One bus cycle: the response first, since it answers an earlier request. -/
def cycle (l : Ledger C R) (c : Option C) (r : Option R) : Ledger C R :=
  (l.respond r).issue c

/-- Every request accepted so far, in order. -/
def accepted (l : Ledger C R) : List C :=
  l.answered.map Prod.fst ++ l.pending

/-- An empty ledger has nothing outstanding. -/
@[simp]
theorem empty_pending : (empty : Ledger C R).pending = [] :=
  rfl

/-- It has nothing answered. -/
@[simp]
theorem empty_answered : (empty : Ledger C R).answered = [] :=
  rfl

/-- It has nothing accepted. -/
@[simp]
theorem empty_accepted : (empty : Ledger C R).accepted = [] :=
  rfl

/-- Without a response nothing is answered. -/
@[simp]
theorem respond_none (l : Ledger C R) : l.respond none = l :=
  rfl

/-- Without a command nothing is issued. -/
@[simp]
theorem issue_none (l : Ledger C R) : l.issue none = l := by
  simp [issue]

/-- Without either the ledger stays. -/
@[simp]
theorem cycle_none_none (l : Ledger C R) : l.cycle none none = l := by
  simp [cycle]

/-- The accepted requests are the answered ones followed by the pending ones. -/
theorem length_accepted (l : Ledger C R) :
    l.accepted.length = l.answered.length + l.pending.length := by
  simp [accepted]

/-- A response accepts nothing. -/
private theorem accepted_respond (l : Ledger C R) (r : Option R) :
    (l.respond r).accepted = l.accepted := by
  cases r with
  | none => rfl
  | some r =>
      rcases l with ⟨_ | ⟨c, cs⟩, answered⟩
      · rfl
      · simp [respond, accepted]

/-- A cycle appends the request it accepts and forgets nothing. -/
theorem accepted_cycle (l : Ledger C R) (c : Option C) (r : Option R) :
    (l.cycle c r).accepted = l.accepted ++ c.toList := by
  calc
    (l.cycle c r).accepted = (l.respond r).accepted ++ c.toList := by
      simp [cycle, issue, accepted]
    _ = l.accepted ++ c.toList := by rw [accepted_respond]

/-- A cycle without a response answers nothing. -/
@[simp]
theorem answered_cycle_none (l : Ledger C R) (c : Option C) :
    (l.cycle c none).answered = l.answered :=
  rfl

/-- A response answers the oldest request that is not yet answered. -/
theorem answered_cycle_some {l : Ledger C R} {d : C} {c : Option C} {r : R}
    (h : l.accepted[l.answered.length]? = some d) :
    (l.cycle c (some r)).answered = l.answered ++ [(d, r)] := by
  rcases l with ⟨_ | ⟨e, es⟩, answered⟩
  · simp [accepted] at h
  · have he : e = d := by
      simpa [accepted] using h
    subst e
    rfl

/-- A response that finds an outstanding request answers exactly one. -/
theorem length_answered_cycle_some {l : Ledger C R} {c : Option C} {r : R}
    (h : l.pending ≠ []) :
    (l.cycle c (some r)).answered.length = l.answered.length + 1 := by
  rcases l with ⟨_ | ⟨d, ds⟩, answered⟩
  · exact absurd rfl h
  · simp [cycle, respond, issue]

/-- What a cycle adds to the answered requests is the oldest one with the response. -/
theorem mem_answered_cycle {l : Ledger C R} {c : Option C} {r : Option R} {e : C × R}
    (h : e ∈ (l.cycle c r).answered) :
    e ∈ l.answered ∨ l.pending.head? = some e.1 ∧ r = some e.2 := by
  cases r with
  | none => exact Or.inl h
  | some r =>
      rcases l with ⟨_ | ⟨d, ds⟩, answered⟩
      · exact Or.inl h
      · rcases List.mem_append.mp h with hold | hnew
        · exact Or.inl hold
        · rw [List.mem_singleton] at hnew
          exact Or.inr ⟨by simp [hnew], by simp [hnew]⟩

/-- Outstanding requests after a cycle on which responses only answer
outstanding requests. -/
theorem pending_length_cycle {l : Ledger C R} {c : Option C} {r : Option R}
    (h : r.isSome → l.pending ≠ []) :
    (l.cycle c r).pending.length + r.toList.length =
      l.pending.length + c.toList.length := by
  cases r with
  | none => simp [cycle, issue]
  | some r =>
      rcases l with ⟨_ | ⟨d, ds⟩, answered⟩
      · exact absurd rfl (h rfl)
      · simp [cycle, respond, issue]
        omega

/-- The responses are recorded in order when each finds an outstanding request. -/
theorem responses_cycle {l : Ledger C R} {c : Option C} {r : Option R}
    (h : r.isSome → l.pending ≠ []) :
    (l.cycle c r).answered.map Prod.snd = l.answered.map Prod.snd ++ r.toList := by
  cases r with
  | none => simp
  | some r =>
      rcases l with ⟨_ | ⟨d, ds⟩, answered⟩
      · exact absurd rfl (h rfl)
      · simp [cycle, respond, issue]

/-- Outstanding requests are a queue. -/
theorem pending_cycle (l : Ledger C R) (c : Option C) (r : Option R) :
    (l.cycle c r).pending = l.pending.drop r.toList.length ++ c.toList := by
  cases r with
  | none => rfl
  | some r => rcases l with ⟨_ | ⟨d, ds⟩, answered⟩ <;> rfl

/-- With nothing outstanding, the accepted requests are the answered ones. -/
theorem accepted_of_pending_nil {l : Ledger C R} (h : l.pending = []) :
    l.accepted = l.answered.map Prod.fst := by
  simp [accepted, h]

/-- Numbered requests after a cycle that accepts the next one under a handshake. -/
theorem map_range_accept (f : Nat → C) (n : Nat) (handshake : Bool) :
    (List.range n).map f ++ (if handshake then some (f n) else none).toList =
      (List.range (n + handshake.toNat)).map f := by
  cases handshake
  · simp
  · rw [if_pos rfl, Bool.toNat_true, List.range_succ, List.map_append]
    rfl

/-! ## Selected requests -/

/-- Accepted requests that satisfy a test, in order. -/
def acceptedBy (l : Ledger C R) (p : C → Bool) : List C :=
  l.accepted.filter p

/-- Answered requests that satisfy a test, with their responses. -/
def answeredBy (l : Ledger C R) (p : C → Bool) : List (C × R) :=
  l.answered.filter fun a => p a.1

/-- Accepted commands of a kind after a cycle. -/
theorem acceptedBy_cycle (l : Ledger C R) (p : C → Bool) (c : Option C)
    (r : Option R) :
    (l.cycle c r).acceptedBy p = l.acceptedBy p ++ c.toList.filter p := by
  simp [acceptedBy, accepted_cycle]

/-- With nothing outstanding, every selected request has its response. -/
theorem acceptedBy_of_pending_nil {l : Ledger C R} (h : l.pending = [])
    (p : C → Bool) : l.acceptedBy p = (l.answeredBy p).map Prod.fst := by
  rw [acceptedBy, accepted_of_pending_nil h, answeredBy, List.filter_map]
  rfl

end Ledger

end Clocked
end AcceleratorSoc
