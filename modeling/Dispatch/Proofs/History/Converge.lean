import Dispatch.Proofs.History.Action
import Dispatch.Proofs.History.Rebalance

/-!
# Looking at the plan until nothing is left to do

Every look at the plan that names an action asks for another look at once.  That comes to an end
because no action misfires: each names a run that it really moves, and a run left to itself can be
moved at most twice, from pending to an executor and from there off it.

* `Registry.movesLeft` : how many actions can still follow while nothing comes in;
* `Advance.CarriesOut`, `Advance.IsTurn.carriesOut` : what is left by a turn, by what is planned in
  it;
* `Advance.acts_add_movesLeft` : a turn uses up one of them exactly when it acts;
* `Scheduler.actsAlong_add_movesLeft` : so it is along any series of turns;
* `reconcile_converges` : **planned actions are carried out, and there is an end to them**.
-/

namespace Dispatch

open Scheduler

variable {κ : Type}

/-! ### How many actions can follow -/

/-- How often a run can still be moved while nothing comes in. -/
def Run.movesLeft (run : Run κ) : Nat :=
  if run.isPending then 2 else if run.IsPlaced then 1 else 0

namespace Registry

variable {r : Registry κ} {run : Run κ} {job : String}

/-- How many actions can follow while nothing comes in. -/
def movesLeft (r : Registry κ) : Nat := r.tally Run.movesLeft

theorem movesLeft_eq (r : Registry κ) :
    r.movesLeft =
      2 * r.allRuns.countP (·.isPending) + r.allRuns.countP fun run => run.IsPlaced := by
  rw [movesLeft, tally]
  induction r.allRuns with
  | nil => rfl
  | cons run runs ih =>
    have hrun : run.movesLeft =
        2 * (if run.isPending then 1 else 0) + (if run.IsPlaced then 1 else 0) := by
      unfold Run.movesLeft
      split
      · rename_i hpending
        have hexec := (Run.isPending_iff.1 hpending).1
        have hoff : ¬ run.IsPlaced := fun hplaced => by simp [Run.IsPlaced, hexec] at hplaced
        rw [if_neg hoff]
      · rw [Nat.mul_zero, Nat.zero_add]
    simp only [weigh, List.map_cons, List.sum_cons, List.countP_cons, decide_eq_true_eq] at ih ⊢
    rw [ih, hrun]
    ring

/-- A stop moves a run off its executor. -/
theorem movesLeft_stop {executor : String} (hrun : r.runs.get? job = some run)
    (hexec : run.executor = some executor) (hst : run.stopping = false) (now : Instant) :
    (r.modifyRun job fun _ => run.stop false now).movesLeft + 1 = r.movesLeft := by
  obtain ⟨rest, htally, hmod, -⟩ := exists_rest hrun Run.movesLeft
  have hbefore : run.movesLeft = 1 := by
    simp [Run.movesLeft, Run.isPending, Run.IsPlaced, hexec, hst]
  have hafter : (run.stop false now).movesLeft = 0 := by
    simp [Run.movesLeft, Run.isPending, Run.IsPlaced, Run.stop]
  rw [movesLeft, movesLeft, hmod, htally, hbefore, hafter]

/-- A start moves a pending run to an executor. -/
theorem movesLeft_start (hrun : r.runs.get? job = some run) (hpending : run.isPending = true)
    (definition : Job κ) (target : Executor κ) (now : Instant) :
    (r.modifyRun job fun _ => run.start definition target now).movesLeft + 1 = r.movesLeft := by
  obtain ⟨rest, htally, hmod, -⟩ := exists_rest hrun Run.movesLeft
  have hst := (Run.isPending_iff.1 hpending).2
  have hafter : (run.start definition target now).movesLeft = 1 := by
    simp [Run.movesLeft, Run.isPending, Run.IsPlaced, Run.start, hst]
  rw [movesLeft, movesLeft, hmod, htally, hafter, Run.movesLeft, if_pos hpending]

end Registry

section Turns

variable [Quantity κ]

namespace Advance

/-- The loop takes a turn, whatever it starts with. -/
def IsTurn : Advance κ → Prop
  | .turn .. => True
  | _ => False

/-- The loop takes a turn by itself, at whatever instants. -/
inductive IsOwn : Advance κ → Prop
  | refresh (heard looked shown : Instant) : IsOwn (.turn .refresh heard looked shown)
  | timer (heard looked shown : Instant) : IsOwn (.turn .timer heard looked shown)

variable {s : Scheduler κ} {a : Advance κ}

omit [Quantity κ] in
theorem IsOwn.isTurn (h : a.IsOwn) : a.IsTurn := by cases h <;> trivial

theorem IsOwn.takeIn_registry (h : a.IsOwn) (s : Scheduler κ) :
    (a.takeIn s).registry = s.registry := by cases h <;> rfl

theorem IsOwn.takeIn_same (h : a.IsOwn) (s : Scheduler κ) :
    (a.takeIn s).config = s.config ∧ (a.takeIn s).issued = s.issued := by
  cases h <;> exact ⟨rfl, rfl⟩

theorem IsTurn.planned_eq (h : a.IsTurn) (s : Scheduler κ) :
    a.planned s = (plan (a.takeIn s).registry (a.takeIn s).config a.looked).action := by
  cases a with
  | turn => rfl
  | leave => exact h.elim
  | drain => exact h.elim

theorem IsTurn.apply_config (h : a.IsTurn) (s : Scheduler κ) :
    (a.apply s).config = (a.takeIn s).config := by
  cases a with
  | turn e heard looked shown => exact (turnAt_eq s e heard looked shown).2.1
  | leave => exact h.elim
  | drain => exact h.elim

/-- What a turn leaves of the runs and adds to the calls, by what is planned in it. -/
inductive CarriesOut (s : Scheduler κ) (a : Advance κ) : Option Action → Prop
  | rest (registry : (a.apply s).registry = (a.takeIn s).registry)
      (issued : (a.apply s).issued = (a.takeIn s).issued)
      (refreshDue : (a.apply s).refreshDue = false) : CarriesOut s a none
  | stop {job executor : String} {reason : StopReason} {run : Run κ}
      (registered : (a.takeIn s).registry.runs.get? job = some run)
      (bound : run.executor = some executor) (staying : run.stopping = false)
      (registry : (a.apply s).registry =
        (a.takeIn s).registry.modifyRun job fun _ => run.stop false a.looked)
      (issued : ∃ call, (a.apply s).issued = (a.takeIn s).issued ++ [call] ∧ call.kind = .stop ∧
        call.run = run.stop false a.looked)
      (refreshDue : (a.apply s).refreshDue = true) : CarriesOut s a (some (.stop job reason))
  | start {job executor : String} {run : Run κ} {definition : Job κ} {target : Executor κ}
      (registered : (a.takeIn s).registry.runs.get? job = some run)
      (pending : run.isPending = true)
      (defined : (a.takeIn s).registry.jobs.get? job = some definition)
      (offered : (a.takeIn s).registry.executor? executor = some target)
      (registry : (a.apply s).registry =
        (a.takeIn s).registry.modifyRun job fun _ => run.start definition target a.looked)
      (issued : ∃ call, (a.apply s).issued = (a.takeIn s).issued ++ [call] ∧
        call.kind = .start ∧ call.run = run.start definition target a.looked)
      (refreshDue : (a.apply s).refreshDue = true) : CarriesOut s a (some (.start job executor))

/-- **A turn carries out what is planned in it.** -/
theorem IsTurn.carriesOut (hturn : a.IsTurn) (h : s.registry.Sound) :
    a.CarriesOut s (a.planned s) := by
  cases a with
  | leave => exact hturn.elim
  | drain => exact hturn.elim
  | turn e heard looked shown =>
    have hsound : (s.accept e heard).1.registry.Sound :=
      takeIn_sound (a := .turn e heard looked shown) h
    have henacts := reconcile_enacts (s := { (s.accept e heard).1 with refreshDue := false })
      hsound looked
    have hdue := (turnAt_eq s e heard looked shown).2.2
    have hissued := turnAt_issued s e heard looked shown
    simp only [planned]
    generalize haction :
      (plan (s.accept e heard).1.registry (s.accept e heard).1.config looked).action = action
      at henacts
    cases henacts with
    | rest _ _ hcalls hrests =>
      exact .rest (turnAt_rests haction) (hissued.trans hcalls) (hdue.trans hrests)
    | stop hrun hexec hst _ hmoves hagain =>
      obtain ⟨call, hcalls, hcall⟩ := hmoves.issued
      exact .stop hrun hexec hst (turnAt_stops haction hrun hst hexec)
        ⟨call, hissued.trans hcalls, hcall⟩ (hdue.trans hagain)
    | start hrun hpending hdef htarget _ hmoves hagain =>
      obtain ⟨call, hcalls, hcall⟩ := hmoves.issued
      exact .start hrun hpending hdef htarget (turnAt_starts haction htarget hdef hrun)
        ⟨call, hissued.trans hcalls, hcall⟩ (hdue.trans hagain)

/-- **A turn that acts** asks for another one, and leaves one action fewer to follow. -/
theorem acts_add_movesLeft (h : s.registry.Sound) (hturn : a.IsTurn) :
    (a.apply s).refreshDue = (a.planned s).isSome ∧
      (a.planned s).toList.length + (a.apply s).registry.movesLeft =
        (a.takeIn s).registry.movesLeft := by
  have hcarries := hturn.carriesOut h
  generalize a.planned s = action at hcarries
  cases hcarries with
  | rest hregistry _ hdue =>
    rw [hregistry]
    exact ⟨hdue, Nat.zero_add _⟩
  | stop hrun hexec hst hregistry _ hdue =>
    rw [hregistry, ← Registry.movesLeft_stop hrun hexec hst a.looked]
    exact ⟨hdue, Nat.add_comm _ _⟩
  | start hrun hpending _ _ hregistry _ hdue =>
    rw [hregistry, ← Registry.movesLeft_start hrun hpending _ _ a.looked]
    exact ⟨hdue, Nat.add_comm _ _⟩

end Advance

namespace Scheduler

/-- The scheduler after the first advances of a series. -/
def along (s : Scheduler κ) (as : ℕ → Advance κ) : ℕ → Scheduler κ
  | 0 => s
  | n + 1 => (as n).apply (s.along as n)

/-- What an advance of a series plans. -/
def plannedAt (s : Scheduler κ) (as : ℕ → Advance κ) (n : ℕ) : Option Action :=
  (as n).planned (s.along as n)

/-- How many of the first advances of a series act. -/
def actsAlong (s : Scheduler κ) (as : ℕ → Advance κ) (n : ℕ) : ℕ :=
  (List.range n).countP fun i => (s.plannedAt as i).isSome

variable {s : Scheduler κ} {as : ℕ → Advance κ}

theorem along_sound (h : s.registry.Sound) (as : ℕ → Advance κ) (n : ℕ) :
    (s.along as n).registry.Sound := by
  induction n with
  | zero => exact h
  | succ n ih => exact Advance.apply_sound ih

/-- What is used up along a series of turns, and what is left. -/
theorem actsAlong_add_movesLeft (h : s.registry.Sound) (first : (as 0).IsTurn)
    (own : ∀ n, (as (n + 1)).IsOwn) (n : ℕ) :
    s.actsAlong as n + ((as n).takeIn (s.along as n)).registry.movesLeft =
      ((as 0).takeIn s).registry.movesLeft := by
  induction n with
  | zero => exact Nat.zero_add _
  | succ n ih =>
    have hturn : (as n).IsTurn := by
      cases n with
      | zero => exact first
      | succ n => exact (own n).isTurn
    obtain ⟨-, hleft⟩ := Advance.acts_add_movesLeft (along_sound h as n) hturn
    have hacts : s.actsAlong as (n + 1) =
        s.actsAlong as n + (s.plannedAt as n).toList.length := by
      unfold actsAlong
      rw [List.range_succ, List.countP_append, List.countP_singleton]
      cases s.plannedAt as n <;> rfl
    rw [(own n).takeIn_registry, hacts, ← ih, ← hleft, Nat.add_assoc]
    rfl

/-- Some turn of a series does not act, after at most as many that do as could follow. -/
theorem exists_plannedAt_eq_none {bound : ℕ} (h : ∀ n, s.actsAlong as n ≤ bound) :
    ∃ n ≤ bound, (∀ i < n, (s.plannedAt as i).isSome = true) ∧ s.plannedAt as n = none := by
  have hsome : ∃ n, s.plannedAt as n = none := by
    by_contra hall
    simp only [not_exists, ← Option.isSome_iff_ne_none] at hall
    have hmany : s.actsAlong as (bound + 1) = bound + 1 := by
      simp [actsAlong, hall]
    have hfew := h (bound + 1)
    omega
  have hacts : ∀ i < Nat.find hsome, (s.plannedAt as i).isSome = true := fun i hi =>
    Option.isSome_iff_ne_none.2 (Nat.find_min hsome hi)
  have hcount : s.actsAlong as (Nat.find hsome) = Nat.find hsome := by
    rw [actsAlong, List.countP_eq_length.2 fun i hi => hacts i (List.mem_range.1 hi),
      List.length_range]
  exact ⟨Nat.find hsome, hcount ▸ h _, hacts, Nat.find_spec hsome⟩

end Scheduler

/-- **Planned actions are carried out, and there is an end to them.**  In a state that is reached,
also when an event has just been taken in, a look at the plan does what it names to the one run
named, with one call, and to nothing else.  While nothing comes in, the turns that act are then at
most twice as many as the pending runs, and one for each run on an executor, whatever the clock
shows; and the first turn that does not act comes after no more than that and leaves nothing to be
done at once. -/
theorem reconcile_converges {config : Config κ} {session : Session κ}
    (h : Reachable config session) :
    (∀ (a : Advance κ) (now : Instant),
      (a.takeIn session.scheduler).Enacts now
        (plan (a.takeIn session.scheduler).registry (a.takeIn session.scheduler).config now).action
        ((a.takeIn session.scheduler).reconcile now)) ∧
    ∀ as : ℕ → Advance κ, (as 0).IsTurn → (∀ n, (as (n + 1)).IsOwn) →
      let runs := ((as 0).takeIn session.scheduler).registry.allRuns
      let bound := 2 * runs.countP (·.isPending) + runs.countP fun run => run.IsPlaced
      (∀ n, session.scheduler.actsAlong as n ≤ bound) ∧
        (∀ n, (session.scheduler.along as (n + 1)).refreshDue =
          (session.scheduler.plannedAt as n).isSome) ∧
        ∃ n ≤ bound, (∀ i < n, (session.scheduler.plannedAt as i).isSome = true) ∧
          (session.scheduler.along as (n + 1)).refreshDue = false := by
  have hsound := h.sound
  refine ⟨fun a now => reconcile_enacts (Advance.takeIn_sound hsound) now, ?_⟩
  intro as first own runs bound
  have hturn : ∀ n, (as n).IsTurn
    | 0 => first
    | n + 1 => (own n).isTurn
  have hbound : ∀ n, session.scheduler.actsAlong as n ≤ bound := by
    intro n
    have hsum := actsAlong_add_movesLeft hsound first own n
    have hall : ((as 0).takeIn session.scheduler).registry.movesLeft = bound :=
      Registry.movesLeft_eq _
    omega
  have hdue : ∀ n, (session.scheduler.along as (n + 1)).refreshDue =
      (session.scheduler.plannedAt as n).isSome := fun n =>
    (Advance.acts_add_movesLeft (along_sound hsound as n) (hturn n)).1
  obtain ⟨n, hn, hacts, hnone⟩ := exists_plannedAt_eq_none hbound
  exact ⟨hbound, hdue, n, hn, hacts, by rw [hdue, hnone]; rfl⟩

end Turns

/-- Two jobs wait, and there is no executor. -/
def twoWaiting : Session ℚ :=
  (Session.play (fun _ _ => true) { scheduler := { config := ownerConfirms }, now := 0 }
    [(0, .request (.addJob { id := "j1", cost := 1 })),
      (0, .request (.addJob { id := "j2", cost := 2 }))]).get (by decide +kernel)

theorem twoWaiting_reachable : Reachable ownerConfirms twoWaiting :=
  Session.play_reachedBy (fun _ _ _ => trivial) (.start 0 (by decide +kernel))
    (Option.some_get _).symm

/-- An executor is added, and nothing comes in after that. -/
def opening : ℕ → Advance ℚ
  | 0 => .turn (.request 0 (.addExecutor { id := "A", capacity := 10 })) 0 0 0
  | _ + 1 => .turn .refresh 1 1 1

/-- The first job is started in the turn that takes in the executor, and at most three turns that
act can follow. -/
theorem reconcile_converges_opening :
    (twoWaiting.scheduler.plannedAt opening 0).isSome = true ∧
      ∃ n ≤ 4, (twoWaiting.scheduler.along opening (n + 1)).refreshDue = false := by
  obtain ⟨-, hturns⟩ := reconcile_converges twoWaiting_reachable
  obtain ⟨-, -, n, hn, -, hrests⟩ := hturns opening trivial fun _ => .refresh 1 1 1
  exact ⟨by decide +kernel, n, hn.trans (by decide +kernel), hrests⟩

end Dispatch
