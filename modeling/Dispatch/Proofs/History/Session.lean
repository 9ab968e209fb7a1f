import Dispatch.Scheduler.Turn

/-!
# Sessions and the states they reach

A `Session` is a scheduler together with the calls that have not come back to it, everything it
has said so far and the latest instant that its clock has shown.  An `Advance` is what happens next:
the loop takes a turn, is left, or hears of a call while it drains.

* `Session.Step` says which advances are possible: the clock never goes back (it may go on between
  the three times that one advance reads it), a completion belongs to a call that is under way, with
  any result, and calls come back in any order.
* `ReachedBy P config` are the sessions reached from an empty registry under settings that
  `Config.validate` accepts, by advances that all satisfy `P`; `Reachable` asks nothing of them.
* `ReachedBy.invariant` is the induction along a history.
* `Session.LeadsBy P` are the ways in which a history may go on.

Nothing is assumed about the order in which the loop prefers events, so every interleaving that it
can show is among those considered here.
-/

namespace Dispatch

variable {κ : Type}

/-- The completion by which a call comes back. -/
def Call.completion (c : Call κ) (result : CallResult) : Completion :=
  { kind := c.kind, job := c.run.job.id, attempt := c.run.attempt, result }

/-- The call that is issued, when what is said is a call. -/
def Output.call? : Output κ → Option (Call κ)
  | .call c => some c
  | _ => none

/-- The calls in the outbox, in the order of issue. -/
def Scheduler.issued (s : Scheduler κ) : List (Call κ) := s.outbox.filterMap Output.call?

/-- What happens to a scheduler next, with the instants that the clock shows meanwhile. -/
inductive Advance (κ : Type)
  /-- The loop takes a turn. -/
  | turn (e : Event κ) (heard looked shown : Instant)
  /-- The loop is left while requests are in line. -/
  | leave (queued : List Ticket) (looked shown : Instant)
  /-- A call comes back while the loop drains. -/
  | drain (c : Completion) (heard looked shown : Instant)

namespace Advance

/-- The outcome of a call that is taken in. -/
def completion? : Advance κ → Option Completion
  | .turn (.completion c) .. => some c
  | .drain c .. => some c
  | _ => none

/-- The command that is taken in. -/
def command? : Advance κ → Option (Command κ)
  | .turn (.request _ command) .. => some command
  | _ => none

/-- Whether a scheduler is at the stage for it, and has something of the kind to take in. -/
def Due (s : Scheduler κ) : Advance κ → Prop
  | .turn .refresh .. => s.stage = .serving ∧ s.refreshDue = true
  | .turn .timer .. => s.stage = .serving ∧ s.wakeAt.isSome = true
  | .turn .. => s.stage = .serving
  | .leave .. => s.stage = .serving
  | .drain .. => s.stage = .draining

/-- The clock shows no earlier instant than `t` meanwhile, and never goes back. -/
def Follows (t : Instant) : Advance κ → Prop
  | .turn _ heard looked shown => t ≤ heard ∧ heard ≤ looked ∧ looked ≤ shown
  | .leave _ looked shown => t ≤ looked ∧ looked ≤ shown
  | .drain _ heard looked shown => t ≤ heard ∧ heard ≤ looked ∧ looked ≤ shown

/-- What the clock shows when the advance takes in what it starts with. -/
def heard : Advance κ → Instant
  | .turn _ heard _ _ => heard
  | .leave _ looked _ => looked
  | .drain _ heard _ _ => heard

/-- What the clock shows when the advance acts on what it has taken in. -/
def looked : Advance κ → Instant
  | .turn _ _ looked _ => looked
  | .leave _ looked _ => looked
  | .drain _ _ looked _ => looked

/-- What the clock shows last. -/
def shown : Advance κ → Instant
  | .turn _ _ _ shown => shown
  | .leave _ _ shown => shown
  | .drain _ _ _ shown => shown

/-- The scheduler once it has taken in what the advance starts with, before it looks at the plan. -/
def takeIn [Quantity κ] (s : Scheduler κ) : Advance κ → Scheduler κ
  | .turn e heard _ _ => (s.accept e heard).1
  | .leave .. => s
  | .drain c heard _ _ => s.complete c heard

/-- The scheduler afterwards. -/
def apply [Quantity κ] (s : Scheduler κ) : Advance κ → Scheduler κ
  | .turn e heard looked shown => s.turnAt e heard looked shown
  | .leave queued looked shown => s.leaveAt queued looked shown
  | .drain c heard looked shown => s.drainTurnAt c heard looked shown

/-- A command is handled as it is taken in, unless it is a check. -/
theorem takeIn_command [Quantity κ] {s : Scheduler κ} {a : Advance κ} {command : Command κ}
    (h : a.command? = some command) (hplain : command ≠ .checkInvariants) :
    a.takeIn s = (s.handle command a.heard).1 := by
  cases a with
  | turn e =>
    cases e with
    | request ticket command' =>
      obtain rfl : command' = command := Option.some.inj h
      cases command' <;> first | rfl | exact absurd rfl hplain
    | completion => cases h
    | refresh => cases h
    | timer => cases h
  | leave => cases h
  | drain => cases h

end Advance

/-- A scheduler and what surrounds it. -/
structure Session (κ : Type) where
  /-- The outbox is empty between two advances. -/
  scheduler : Scheduler κ
  /-- The calls that have not come back, in the order of issue. -/
  underWay : List (Call κ) := []
  /-- Everything said so far. -/
  told : List (Output κ) := []
  /-- The latest instant that the clock has shown. -/
  now : Instant

/-- What is left of the calls under way when a completion is taken in, if one is. -/
def Takes (calls : List (Call κ)) : Option Completion → List (Call κ) → Prop
  | none, rest => rest = calls
  | some c, rest => ∃ before call after result, calls = before ++ call :: after ∧
      c = call.completion result ∧ rest = before ++ after

namespace Session

variable [Quantity κ]

/-- The session afterwards, when `rest` are the earlier calls that are still under way. -/
def after (s : Session κ) (a : Advance κ) (rest : List (Call κ)) : Session κ where
  scheduler := { a.apply s.scheduler with outbox := [] }
  underWay := rest ++ (a.apply s.scheduler).issued
  told := s.told ++ (a.apply s.scheduler).outbox
  now := a.shown

/-- The advance is possible and leads from one session to the other. -/
def Step (s : Session κ) (a : Advance κ) (s' : Session κ) : Prop :=
  a.Due s.scheduler ∧ a.Follows s.now ∧
    ∃ rest, Takes s.underWay a.completion? rest ∧ s' = s.after a rest

end Session

/-- The sessions reached by advances of which each satisfies `P` in the state it is made in. -/
inductive ReachedBy [Quantity κ] (P : Scheduler κ → Advance κ → Prop) (config : Config κ) :
    Session κ → Prop
  | start (now : Instant) : config.validate = .ok () →
      ReachedBy P config { scheduler := { config }, now }
  | step {s s' : Session κ} {a : Advance κ} : ReachedBy P config s → P s.scheduler a →
      s.Step a s' → ReachedBy P config s'

/-- The sessions reached in any way. -/
def Reachable [Quantity κ] (config : Config κ) (s : Session κ) : Prop :=
  ReachedBy (fun _ _ => True) config s

namespace ReachedBy

variable [Quantity κ] {P : Scheduler κ → Advance κ → Prop} {config : Config κ} {s : Session κ}

theorem reachable (h : ReachedBy P config s) : Reachable config s := by
  induction h with
  | start now hc => exact .start now hc
  | step _ _ hst ih => exact .step ih trivial hst

/-- What holds at the start and is kept by every advance holds along the whole history. -/
theorem invariant {I : Session κ → Prop} (h : ReachedBy P config s)
    (start : ∀ now, config.validate = .ok () → I { scheduler := { config }, now })
    (step : ∀ s a s', ReachedBy P config s → I s → P s.scheduler a → s.Step a s' → I s') :
    I s := by
  induction h with
  | start now hc => exact start now hc
  | step hr hP hst ih => exact step _ _ _ hr ih hP hst

theorem outbox_eq_nil (h : ReachedBy P config s) : s.scheduler.outbox = [] := by
  cases h with
  | start => rfl
  | step _ _ hst =>
    obtain ⟨-, -, rest, -, rfl⟩ := hst
    rfl

/-- What is in the outbox later is said by the advance that follows. -/
theorem issued_eq_nil (h : ReachedBy P config s) : s.scheduler.issued = [] := by
  simp [Scheduler.issued, h.outbox_eq_nil]

end ReachedBy

/-- The sessions that follow one by advances of which each satisfies `P` in the state it is made
in. -/
inductive Session.LeadsBy [Quantity κ] (P : Scheduler κ → Advance κ → Prop) (s : Session κ) :
    Session κ → Prop
  | refl : LeadsBy P s s
  | tail {s' s'' : Session κ} {a : Advance κ} : LeadsBy P s s' → P s'.scheduler a →
      s'.Step a s'' → LeadsBy P s s''

namespace Session.LeadsBy

variable [Quantity κ] {P : Scheduler κ → Advance κ → Prop} {s s' : Session κ}

/-- What follows a session by advances of a kind is reached by them if the session is. -/
theorem reachedBy {config : Config κ} (h : s.LeadsBy P s') (hs : ReachedBy P config s) :
    ReachedBy P config s' := by
  induction h with
  | refl => exact hs
  | tail _ hP hstep ih => exact .step ih hP hstep

/-- What follows a session that is reached is reached. -/
theorem reachable {config : Config κ} (h : s.LeadsBy P s') (hs : Reachable config s) :
    Reachable config s' := by
  induction h with
  | refl => exact hs
  | tail _ _ hstep ih => exact .step ih trivial hstep

/-- What holds of a session and is kept by every advance holds of all that follow. -/
theorem invariant {I : Session κ → Prop} (h : s.LeadsBy P s') (hs : I s)
    (step : ∀ s₁ a s₂, s.LeadsBy P s₁ → I s₁ → P s₁.scheduler a → s₁.Step a s₂ → I s₂) : I s' := by
  induction h with
  | refl => exact hs
  | tail hl hP hstep ih => exact step _ _ _ hl ih hP hstep

end Session.LeadsBy

/-- An advance by which a call comes back takes in its completion. -/
theorem Advance.takeIn_completion [Quantity κ] {s : Scheduler κ} {a : Advance κ} {c : Completion}
    (h : a.completion? = some c) : a.takeIn s = s.complete c a.heard := by
  cases a with
  | turn e => cases e <;> simp_all [completion?, takeIn, Scheduler.accept, heard]
  | leave => simp [completion?] at h
  | drain => simp_all [completion?, takeIn, heard]

theorem Advance.Follows.order {t : Instant} {a : Advance κ} (h : a.Follows t) :
    t ≤ a.heard ∧ a.heard ≤ a.looked ∧ a.looked ≤ a.shown := by
  cases a with
  | turn => exact h
  | leave => exact ⟨h.1, Int.le_refl _, h.2⟩
  | drain => exact h

theorem Takes.subset {calls rest : List (Call κ)} {c : Option Completion}
    (h : Takes calls c rest) : rest.Sublist calls := by
  cases c with
  | none => exact h ▸ .refl _
  | some c =>
    obtain ⟨before, call, after, result, rfl, -, rfl⟩ := h
    exact (List.Sublist.refl before).append (List.sublist_cons_self call after)

end Dispatch
