import Dispatch.Proofs.History.Turn

/-!
# What is said to those who ask

Requests are answered at two places only: a turn answers the request that it has taken, or the
checks of the registry that wait, and whoever still waits is turned away when the loop is left.
Nothing else that the loop does says a reply or changes who waits.

* `Scheduler.SameDesk` : no reply is said and the same checks wait, which holds of everything that
  the loop does but to take a check, to end a turn and to be left;
* `Scheduler.turnAt_outbox`, `Scheduler.leaveAt_eq`, `Scheduler.drainTurnAt_desk` : what each kind
  of advance says to those who asked.
-/

namespace Dispatch

variable {κ : Type}

/-- The reply, with its ticket, when what is said is one. -/
def Output.reply? : Output κ → Option (Ticket × Reply)
  | .reply ticket r => some (ticket, r)
  | _ => none

/-- The check of the registry that an event requests. -/
def Event.check? : Event κ → Option Ticket
  | .request ticket .checkInvariants => some ticket
  | _ => none

theorem Event.check?_request {command : Command κ} (ticket : Ticket)
    (h : command ≠ .checkInvariants) : (Event.request ticket command).check? = none := by
  cases command <;> first | rfl | exact absurd rfl h

namespace Scheduler

/-- The replies in the outbox, in the order in which they are given. -/
def replies (s : Scheduler κ) : List (Ticket × Reply) := s.outbox.filterMap Output.reply?

/-- No reply is said, and the same checks wait. -/
structure SameDesk (s s' : Scheduler κ) : Prop where
  replies : s'.replies = s.replies
  waiting : s'.checksWaiting = s.checksWaiting

namespace SameDesk

variable {s s' s'' : Scheduler κ}

theorem refl (s : Scheduler κ) : s.SameDesk s := ⟨rfl, rfl⟩

theorem trans (h : s.SameDesk s') (h' : s'.SameDesk s'') : s.SameDesk s'' :=
  ⟨h'.replies.trans h.replies, h'.waiting.trans h.waiting⟩

/-- Something other than a reply is said. -/
theorem emit (s : Scheduler κ) {o : Output κ} (ho : o.reply? = none) : s.SameDesk (s.emit o) :=
  ⟨by simp [Scheduler.replies, Scheduler.emit, ho], rfl⟩

theorem report (s : Scheduler κ) (kind : Situation) (run : Run κ) (cause : Option CallError) :
    s.SameDesk (s.report kind run cause) := emit s rfl

theorem put (s : Scheduler κ) (job : String) (run : Run κ) (phase : Phase) (now : Instant) :
    s.SameDesk (s.put job run phase now) := ⟨rfl, rfl⟩

theorem issue (s : Scheduler κ) (kind : CallKind) (run : Run κ) (now : Instant) :
    s.SameDesk (s.issue kind run now) := by
  have hcount : s.SameDesk { s with inFlight := s.inFlight + 1 } := ⟨rfl, rfl⟩
  exact hcount.trans (emit _ rfl)

theorem putStop (s : Scheduler κ) (job : String) (run : Run κ) (now : Instant) :
    s.SameDesk (s.putStop job run now) :=
  ((put s job run .ending now).trans (report _ _ _ _)).trans (issue _ _ _ _)

theorem drop (s : Scheduler κ) (job : String) (now : Instant) : s.SameDesk (s.drop job now) :=
  ⟨rfl, rfl⟩

theorem noteStop (s : Scheduler κ) (run : Run κ) (result : CallResult) :
    s.SameDesk (s.noteStop run result) := by
  cases result with
  | ok => exact refl s
  | error cause => exact report s _ _ _

end SameDesk

/-! ### What says no reply -/

section Silent

variable (s : Scheduler κ) (job executor : String) (now : Instant)

theorem stopRun_desk (remove : Bool) : s.SameDesk (s.stopRun job remove now).1 := by
  have hhalts := stopRun_halts s job remove now
  generalize (s.stopRun job remove now).1 = s' at hhalts ⊢
  cases hhalts with
  | nothing => exact .refl s
  | mark => exact ⟨rfl, rfl⟩
  | discard => exact .drop s job now
  | stop => exact .putStop s job _ now

theorem stopAll_desk (jobs : List String) : s.SameDesk (s.stopAll jobs now) := by
  induction jobs generalizing s with
  | nil => exact .refl s
  | cons job jobs ih => exact (stopRun_desk s job now false).trans (ih _)

theorem reportAll_desk (jobs : List String) : s.SameDesk (jobs.foldl (·.reportNoRoom ·) s) := by
  induction jobs generalizing s with
  | nil => exact .refl s
  | cons job jobs ih =>
    refine .trans ?_ (ih (s.reportNoRoom job))
    unfold reportNoRoom
    split
    · exact .refl s
    · exact .report s _ _ _

theorem startRun_desk : s.SameDesk (s.startRun job executor now).1 := by
  unfold startRun
  split
  · rename_i e definition run _ _ _
    have hput : s.SameDesk ((s.put job (run.start definition e now) .starting now).nameExecutor
        job e.name) := ⟨rfl, rfl⟩
    exact (hput.trans (.report _ _ _ _)).trans (.issue _ _ _ _)
  · exact .refl s
  · exact .refl s

theorem confirmRun_desk : s.SameDesk (s.confirmRun job now).1 := by
  unfold confirmRun
  split
  · exact .refl s
  split
  · exact .refl s
  · exact (SameDesk.put s job _ .running now).trans (.report _ _ _ _)

theorem unlisting_desk (listed : List String) :
    s.SameDesk (s.unlisting executor listed now) := by
  unfold unlisting
  induction s.missingFrom executor listed generalizing s with
  | nil => exact .refl s
  | cons id ids ih =>
    have hforget : s.SameDesk (s.forget id now) := ⟨rfl, rfl⟩
    exact hforget.trans (ih (s.forget id now))

variable [Quantity κ]

theorem drainPass_desk (shown : Instant) : s.SameDesk (s.drainPass now shown) := by
  refine (stopAll_desk s now s.boundJobs).trans ?_
  simp only [drainPass]
  split <;> exact ⟨rfl, rfl⟩

theorem complete_desk (c : Completion) : s.SameDesk (s.complete c now) := by
  have hback : s.SameDesk s.heardBack := ⟨rfl, rfl⟩
  refine hback.trans ?_
  rcases complete_eq s c now with ⟨-, heq⟩ | ⟨d, hd, hdoes⟩
  · rw [heq]
    exact .refl _
  obtain ⟨run, -, -, hreturns⟩ := effect?_eq_some_iff.1 hd
  generalize s.complete c now = s' at hdoes ⊢
  cases hreturns with
  | confirm =>
    cases hdoes
    exact (SameDesk.put _ _ _ _ _).trans (.report _ _ _ _)
  | release =>
    cases hdoes
    exact (SameDesk.put _ _ _ _ _).trans (.report _ _ _ _)
  | finish =>
    cases hdoes
    exact (SameDesk.noteStop _ _ _).trans (.drop _ _ _)
  | settle =>
    cases hdoes
    exact ((SameDesk.noteStop _ _ _).trans (.put _ _ _ _ _)).trans (.report _ _ _ _)

theorem hosting_desk (revision : UInt64) (jobs : List String) :
    s.SameDesk (s.hosting executor revision now jobs) := by
  induction jobs generalizing s with
  | nil => exact .refl s
  | cons job jobs ih =>
    refine .trans ?_ (ih (s.host executor revision job now).1)
    have hhosts := host_hosts s executor revision job now
    generalize (s.host executor revision job now).1 = s' at hhosts ⊢
    cases hhosts with
    | unknown => exact .report s _ _ _
    | nothing => exact .refl s
    | elsewhere => exact .putStop s job _ now
    | adopt => exact .put s job _ _ now
    | expel => exact .putStop s job _ now

theorem jobsOnExecutor_desk (jobs : List String) :
    s.SameDesk (s.jobsOnExecutor executor jobs now).1 := by
  cases htarget : s.registry.executor? executor with
  | none =>
    simp only [jobsOnExecutor, htarget]
    exact .refl s
  | some target =>
    rw [jobsOnExecutor_eq jobs htarget]
    exact (unlisting_desk s executor now _).trans (hosting_desk _ executor now _ _)

omit [Quantity κ] in
theorem withRegistry_desk (r : Except SchedulerError (Registry κ)) :
    s.SameDesk (s.withRegistry r).1 := by cases r <;> exact ⟨rfl, rfl⟩

/-- A command is carried out without a word to whoever requested it. -/
theorem handle_desk (command : Command κ) : s.SameDesk (s.handle command now).1 := by
  cases command with
  | addJob job =>
    simp only [handle]
    split <;> exact ⟨rfl, rfl⟩
  | changeJob job =>
    simp only [handle]
    split <;> exact ⟨rfl, rfl⟩
  | removeJob id => exact stopRun_desk s id now true
  | stopJob id => exact stopRun_desk s id now false
  | jobIsRunning id => exact confirmRun_desk s id now
  | addExecutor e => exact withRegistry_desk s _
  | removeExecutor id => exact withRegistry_desk s _
  | changeExecutor e => exact withRegistry_desk s _
  | executorIsAlive id => exact withRegistry_desk s _
  | jobsOnExecutor executor jobs => exact jobsOnExecutor_desk s executor now jobs
  | maxJobs count => exact ⟨rfl, rfl⟩
  | refresh => exact .refl s
  | checkInvariants => exact .refl s

theorem reconcile_desk : s.SameDesk (s.reconcile now) := by
  refine (reportAll_desk s (plan s.registry s.config now).unplaceable).trans ?_
  simp only [reconcile]
  generalize (plan s.registry s.config now).unplaceable.foldl (·.reportNoRoom ·) s = s₁
  split
  · rename_i job _ _
    exact (stopRun_desk s₁ job now false).trans ⟨rfl, rfl⟩
  · rename_i job executor _
    exact (startRun_desk s₁ job executor now).trans ⟨rfl, rfl⟩
  · exact ⟨rfl, rfl⟩

theorem reconcile_refreshDue :
    (s.reconcile now).refreshDue =
      (s.refreshDue || (plan s.registry s.config now).action.isSome) := by
  have hdue : ((plan s.registry s.config now).unplaceable.foldl (·.reportNoRoom ·) s).refreshDue =
      s.refreshDue := by
    generalize (plan s.registry s.config now).unplaceable = jobs
    induction jobs generalizing s with
    | nil => rfl
    | cons job jobs ih =>
      refine (ih (s.reportNoRoom job)).trans ?_
      unfold reportNoRoom
      split <;> rfl
  simp only [reconcile]
  split <;> simp_all

end Silent

/-! ### What a turn says -/

section Turns

variable [Quantity κ] (s : Scheduler κ) (e : Event κ) (heard looked shown : Instant)

/-- A request other than a check is carried out at once, and its reply held back. -/
theorem accept_request {command : Command κ} (h : command ≠ .checkInvariants) (ticket : Ticket) :
    s.accept (.request ticket command) heard =
      ((s.handle command heard).1, some (ticket, (s.handle command heard).2)) := by
  cases command <;> first | rfl | exact absurd rfl h

theorem accept_desk : (s.accept e heard).1.replies = s.replies ∧
    (s.accept e heard).1.checksWaiting = s.checksWaiting ++ e.check?.toList := by
  cases e with
  | completion c =>
    have h := complete_desk s heard c
    exact ⟨h.replies, by simpa [accept, Event.check?] using h.waiting⟩
  | request ticket command =>
    by_cases hcheck : command = .checkInvariants
    · subst hcheck
      exact ⟨rfl, rfl⟩
    rw [accept_request s heard hcheck, Event.check?_request ticket hcheck]
    have h := handle_desk s heard command
    exact ⟨h.replies, by simpa using h.waiting⟩
  | refresh => exact ⟨rfl, by simp [accept, Event.check?]⟩
  | timer => exact ⟨rfl, by simp [accept, Event.check?]⟩

/-- The scheduler once a turn has taken in its event and looked at the plan, once. -/
def acted : Scheduler κ := { (s.accept e heard).1 with refreshDue := false }.reconcile looked

/-- A turn acts before it says a reply. -/
theorem acted_desk : (s.acted e heard looked).replies = s.replies ∧
    (s.acted e heard looked).checksWaiting = s.checksWaiting ++ e.check?.toList := by
  obtain ⟨hreplies, hwaiting⟩ := accept_desk s e heard
  have h := reconcile_desk { (s.accept e heard).1 with refreshDue := false } looked
  exact ⟨h.replies.trans hreplies, h.waiting.trans hwaiting⟩

/-- More is due after a turn exactly when it has carried out an action. -/
theorem turnAt_refreshDue : (s.turnAt e heard looked shown).refreshDue =
    ((Advance.turn e heard looked shown).planned s).isSome := by
  rw [(turnAt_eq s e heard looked shown).2.2, reconcile_refreshDue]
  rfl

/-- **What a turn says**: what comes of its event and of the plan, then the reply to its request,
then the verdict on the registry to the checks that wait, unless more is due. -/
theorem turnAt_outbox : (s.turnAt e heard looked shown).outbox =
    (s.acted e heard looked).outbox ++
      (s.accept e heard).2.toList.map (fun held => .reply held.1 held.2) ++
      (if (s.turnAt e heard looked shown).refreshDue then []
        else s.checksWaiting ++ e.check?.toList).map fun ticket =>
          .reply ticket ((s.turnAt e heard looked shown).registry.verify
            (s.turnAt e heard looked shown).config) := by
  obtain ⟨hreg, hconf, hdue, hout⟩ := answerChecks_eq (s.pass e heard looked shown)
  have hpass : (s.pass e heard looked shown).outbox = (s.acted e heard looked).outbox ++
        (s.accept e heard).2.toList.map (fun held => .reply held.1 held.2) ∧
      (s.pass e heard looked shown).checksWaiting = (s.acted e heard looked).checksWaiting := by
    simp only [pass, acted]
    generalize s.accept e heard = accepted
    obtain ⟨s₁, held⟩ := accepted
    cases held with
    | none => exact ⟨(List.append_nil _).symm, rfl⟩
    | some held => exact ⟨rfl, rfl⟩
  rw [turnAt, hreg, hconf, hdue, hout, hpass.1, checksDue, hpass.2, (acted_desk s e heard looked).2]

theorem turnAt_waiting : (s.turnAt e heard looked shown).checksWaiting =
    if (s.turnAt e heard looked shown).refreshDue then s.checksWaiting ++ e.check?.toList
      else [] := by
  have hpass : (s.pass e heard looked shown).checksWaiting =
      (s.acted e heard looked).checksWaiting := by
    simp only [pass, acted]
    generalize s.accept e heard = accepted
    obtain ⟨s₁, held⟩ := accepted
    cases held <;> rfl
  rw [(acted_desk s e heard looked).2] at hpass
  rw [turnAt, (answerChecks_eq (s.pass e heard looked shown)).2.2.1, ← hpass]
  cases hdue : (s.pass e heard looked shown).refreshDue with
  | true => simp [answerChecks, hdue]
  | false => simp [answerChecks, answerAll_eq, hdue]

end Turns

/-! ### What leaving the loop says -/

section Leaving

/-- The same scheduler, with something said before. -/
def after (s : Scheduler κ) (said : List (Output κ)) : Scheduler κ :=
  { s with outbox := said ++ s.outbox }

variable (s : Scheduler κ) (said : List (Output κ)) (job : String) (now looked shown : Instant)

theorem stopRun_after (remove : Bool) :
    ((s.after said).stopRun job remove now).1 = (s.stopRun job remove now).1.after said := by
  have hreg : (s.after said).registry = s.registry := rfl
  unfold stopRun
  rw [hreg]
  repeat' split
  all_goals first
    | rfl
    | simp [after, modifyRun, enter, report, issue, emit, List.append_assoc]

theorem stopAll_after (jobs : List String) :
    (s.after said).stopAll jobs now = (s.stopAll jobs now).after said := by
  induction jobs generalizing s with
  | nil => rfl
  | cons job jobs ih =>
    refine Eq.trans ?_ (ih (s.stopRun job false now).1)
    simp only [stopAll, List.foldl_cons, stopRun_after]

variable [Quantity κ]

/-- What is said before does not change what the loop does while it drains. -/
theorem drainPass_after :
    (s.after said).drainPass looked shown = (s.drainPass looked shown).after said := by
  have hpass : ((s.after said).stopAll (s.after said).boundJobs looked).publish shown =
      ((s.stopAll s.boundJobs looked).publish shown).after said := by
    rw [show (s.after said).boundJobs = s.boundJobs from rfl, stopAll_after]
    rfl
  simp only [stopAll] at hpass
  simp only [drainPass, hpass]
  generalize (s.boundJobs.foldl (fun s job => (s.stopRun job false looked).1) s).publish shown = s₁
  by_cases hcalls : s₁.inFlight = 0 <;> simp [after, hcalls]

/-- **Requests in line have no effect** when the loop is left, but that each is turned away. -/
theorem leaveAt_eq (queued : List Ticket) : s.leaveAt queued looked shown =
    ({ s with outbox := [] }.leaveAt [] looked shown).after
      (s.outbox ++ queued.map fun ticket => Output.reply ticket (.error .shutdown)) := by
  simp only [leaveAt, answerAll_eq, List.nil_append, ← drainPass_after]
  simp [after]

theorem leaveAt_replies (queued : List Ticket) (h : s.outbox = []) :
    (s.leaveAt queued looked shown).replies =
        (queued ++ s.checksWaiting).map (·, .error .shutdown) ∧
      (s.leaveAt queued looked shown).checksWaiting = [] := by
  unfold leaveAt
  rw [answerAll_eq]
  have hdesk := drainPass_desk { s with
    stage := .draining
    checksWaiting := []
    outbox := s.outbox ++ (queued ++ s.checksWaiting).map (.reply · (.error .shutdown)) }
    looked shown
  refine ⟨hdesk.replies.trans ?_, hdesk.waiting⟩
  simp [replies, h, List.filterMap_map, Function.comp_def, Output.reply?]

/-- The return of a call answers no request. -/
theorem drainTurnAt_desk (c : Completion) (heard : Instant) :
    s.SameDesk (s.drainTurnAt c heard looked shown) :=
  (complete_desk s heard c).trans (drainPass_desk _ looked shown)

end Leaving

end Scheduler

end Dispatch
