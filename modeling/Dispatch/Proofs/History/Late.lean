import Dispatch.Proofs.History.Marks
import Dispatch.Proofs.History.Outstanding

/-!
# Calls that come back late

A call may stay under way while its run is stopped, forgotten, adopted, started again or deleted.
What it comes to should then make no difference.

* `ReachedBy.tracked` : in every session that is reached, the calls issued are numbered and the stop
  calls under way are matched with their runs;
* `stale_absorbed_iff` : **a call that is not the latest one of the registered run is absorbed**,
  whatever it came to, unless it is taken for a call of a later run;
* `stale_absorbed_fails` : a history in which it is, since the attempts of a job that is added again
  are counted from zero.

Only a start call can be mistaken so (`Scheduler.Mistakes`): a stop call under way keeps its run
registered, so its job cannot be added again before it is back.
-/

namespace Dispatch

variable {κ : Type}

/-- All calls issued so far, in the order of issue. -/
def Session.calls (s : Session κ) : List (Call κ) := s.told.filterMap Output.call?

theorem Session.calls_after [Quantity κ] (s : Session κ) (a : Advance κ) (rest : List (Call κ)) :
    (s.after a rest).calls = s.calls ++ (a.apply s.scheduler).issued := by
  simp [Session.calls, Session.after, Scheduler.issued]

/-- The call is the latest one of the run registered under its id, and the run has not moved on
since. -/
def Session.IsLatest (s : Session κ) (call : Call κ) : Prop :=
  ∃ run, s.scheduler.registry.runs.get? call.run.job.id = some run ∧
    run.attempt = call.run.attempt ∧
    (s.calls.filter fun c => c.run.ordinal = run.ordinal).getLast? = some call

/-- What is known of the calls in a session. -/
structure Session.Tracked (s : Session κ) : Prop where
  numbered : Numbered s.calls s.scheduler.registry
  stops : StopsMatched s.underWay s.scheduler.registry
  issued : s.underWay ⊆ s.calls

/-- Stop calls that are on the books are matched with their runs. -/
theorem StopsBooked.matched {calls : List (Call κ)} {r : Registry κ} (h : StopsBooked calls r) :
    StopsMatched calls r where
  mark call hc hkind := by
    obtain ⟨hposition, hstopping⟩ := h.position call hc hkind
    rw [Registry.mark?_eq, hposition]
    exact ⟨rfl, hstopping⟩
  alone := h.last.imp fun hother hkind _ => hother hkind

/-- The calls left under way when one has come back are not stop calls for the same job. -/
theorem StopsMatched.takes {calls rest : List (Call κ)} {r : Registry κ} {c : Completion}
    (h : StopsMatched calls r) (htakes : Takes calls (some c) rest) (hkind : c.kind = .stop) :
    ∀ call ∈ rest, call.kind = .stop → call.run.job.id ≠ c.job := by
  obtain ⟨before, taken, after, result, rfl, rfl, rfl⟩ := htakes
  have halone := List.pairwise_append.1 h.alone
  intro call hc hstop
  rcases List.mem_append.1 hc with hc | hc
  · exact halone.2.2 call hc taken List.mem_cons_self hstop hkind
  · exact ((List.pairwise_cons.1 halone.2.1).1 call hc hkind hstop).symm

open Scheduler

variable [Quantity κ] {s : Scheduler κ} {now : Instant} {d : Deed κ}

/-- What deeds keep of all calls issued so far and the registry, an advance keeps. -/
theorem Session.Step.calls_invariant {Q : Instant → Scheduler κ → Deed κ → Prop}
    {I : List (Call κ) → Registry κ → Prop} {P : Scheduler κ → Advance κ → Prop}
    {config : Config κ} {session session' : Session κ} {a : Advance κ}
    (hstep : session.Step a session') (hreach : ReachedBy P config session)
    (hgrants : a.Grants Q session.scheduler) (hI : I session.calls session.scheduler.registry)
    (keep : ∀ {now s d s'}, s.registry.Sound → I (session.calls ++ s.issued) s.registry →
      Q now s d → Does now s d s' → I (session.calls ++ s'.issued) s'.registry) :
    I session'.calls session'.scheduler.registry := by
  obtain ⟨-, -, rest, -, rfl⟩ := hstep
  rw [Session.calls_after]
  refine (Advance.course hreach.sound.run_key hgrants).invariant_of_sound
    (I := fun s => I (session.calls ++ s.issued) s.registry) hreach.sound ?_
    fun _ _ _ _ => keep
  rw [hreach.issued_eq_nil, List.append_nil]
  exact hI

/-- Calls stay numbered in every session that is reached. -/
theorem ReachedBy.numbered {P : Scheduler κ → Advance κ → Prop} {config : Config κ}
    {session : Session κ} (h : ReachedBy P config session) :
    Numbered session.calls session.scheduler.registry := by
  refine h.invariant (I := fun session => Numbered session.calls session.scheduler.registry)
    (fun _ _ => .nil _) ?_
  intro session a _ hreach hnumbered _ hstep
  exact hstep.calls_invariant hreach (a.grants_all _) hnumbered
    fun hsound hnumbered _ hdoes => (hdoes.remarks hsound).numbered hsound hnumbered

/-- A call under way has been issued. -/
theorem ReachedBy.underWay_subset {P : Scheduler κ → Advance κ → Prop} {config : Config κ}
    {session : Session κ} (h : ReachedBy P config session) : session.underWay ⊆ session.calls := by
  refine h.invariant (I := fun session => session.underWay ⊆ session.calls) (fun _ _ => by simp) ?_
  rintro session a _ - hissued - ⟨-, -, rest, htakes, rfl⟩
  rw [Session.calls_after]
  exact List.append_subset.2
    ⟨fun c hc => List.mem_append_left _ (hissued (htakes.subset.subset hc)),
      List.subset_append_right _ _⟩

/-- **Calls are tracked in every session that is reached.** -/
theorem ReachedBy.tracked {P : Scheduler κ → Advance κ → Prop} {config : Config κ}
    {session : Session κ} (h : ReachedBy P config session) : session.Tracked where
  numbered := h.numbered
  stops := h.stopsBooked.matched
  issued := h.underWay_subset

omit [Quantity κ] in
/-- A call under way for the present attempt of the registered run is the latest one for it. -/
theorem Session.Tracked.isLatest {session : Session κ} (h : session.Tracked) {call : Call κ}
    {run : Run κ} (hcall : call ∈ session.underWay)
    (hrun : session.scheduler.registry.runs.get? call.run.job.id = some run)
    (hordinal : run.ordinal = call.run.ordinal) (hattempt : run.attempt = call.run.attempt) :
    session.IsLatest call := by
  refine ⟨run, hrun, hattempt, ?_⟩
  have hmem : call ∈ session.calls.filter fun c => c.run.ordinal = run.ordinal := by
    simpa [hordinal] using h.issued hcall
  obtain ⟨before, after, hsplit⟩ := List.append_of_mem hmem
  -- a later call would be for a later attempt, and the run has had none
  have hlast : after = [] := by
    refine List.eq_nil_iff_forall_not_mem.2 fun c hc => ?_
    have hc' : c ∈ session.calls.filter fun c => c.run.ordinal = run.ordinal := by
      rw [hsplit]
      exact List.mem_append_right _ (List.mem_cons_of_mem _ hc)
    obtain ⟨hissued, hsame⟩ := List.mem_filter.1 hc'
    replace hsame : c.run.ordinal = run.ordinal := by simpa using hsame
    have hrising := h.numbered.rising.filter fun c => c.run.ordinal = run.ordinal
    rw [hsplit] at hrising
    have hlt := (List.pairwise_cons.1 (List.pairwise_append.1 hrising).2.1).1 c hc
      (hordinal.symm.trans hsame.symm)
    have hle := h.numbered.attempt_le c hissued _ _ (Registry.mark?_of_get? hrun) hsame.symm
    simp only [Run.mark] at hle
    omega
  rw [hsplit, hlast, List.getLast?_concat]

/-- A start call that has come back is taken for the call of another run of the same id, one that
has come to the same number of attempts and waits for its start or may be taken off again. -/
def Scheduler.Mistakes (s : Scheduler κ) (call : Call κ) (result : CallResult) : Prop :=
  call.kind = .start ∧ ∃ run, s.registry.runs.get? call.run.job.id = some run ∧
    run.ordinal ≠ call.run.ordinal ∧ run.attempt = call.run.attempt ∧ run.stopping = false ∧
    match result with
    | .ok () => s.config.runningOnStart = true ∧ run.isStarting = true
    | .error _ => run.startedAt.isSome = true

/-- The return of a call leaves the registry and the phases of the jobs as they are, and nothing is
said about it. -/
def Scheduler.Absorbs (s : Scheduler κ) (c : Completion) (now : Instant) : Prop :=
  (s.complete c now).registry = s.registry ∧ (s.complete c now).timings = s.timings ∧
    (s.complete c now).outbox = s.outbox

omit [Quantity κ] in
/-- A stale call that brings about anything is mistaken for another one. -/
theorem Session.Tracked.mistakes_iff {session : Session κ} (h : session.Tracked) {call : Call κ}
    (hcall : call ∈ session.underWay) (hstale : ¬ session.IsLatest call) (result : CallResult) :
    (∃ d, session.scheduler.effect? (call.completion result) = some d) ↔
      session.scheduler.Mistakes call result := by
  constructor
  · rintro ⟨d, hd⟩
    obtain ⟨run, hrun, hattempt, hreturns⟩ := Scheduler.effect?_eq_some_iff.1 hd
    have hother : run.ordinal ≠ call.run.ordinal := fun hordinal =>
      hstale (h.isLatest hcall hrun hordinal hattempt)
    have hstart : call.kind ≠ .stop := by
      intro hkind
      obtain ⟨hmark, -⟩ := h.stops.mark call hcall hkind
      have hfound : session.scheduler.registry.mark? call.run.job.id = some run.mark :=
        Registry.mark?_of_get? hrun
      rw [hfound, Option.some.injEq] at hmark
      exact hother (congrArg Mark.ordinal hmark)
    cases hreturns with
    | confirm kind result prompt free starting =>
      refine ⟨kind, run, hrun, hother, hattempt, free, ?_⟩
      obtain rfl := result
      exact ⟨prompt, starting⟩
    | release cause kind result free started =>
      refine ⟨kind, run, hrun, hother, hattempt, free, ?_⟩
      obtain rfl := result
      exact started
    | finish kind => exact absurd kind hstart
    | settle kind => exact absurd kind hstart
  · rintro ⟨hkind, run, hrun, -, hattempt, hfree, hresult⟩
    cases result with
    | ok =>
      exact ⟨_, Scheduler.effect?_eq_some_iff.2
        ⟨run, hrun, hattempt, .confirm hkind rfl hresult.1 hfree hresult.2⟩⟩
    | error cause =>
      exact ⟨_, Scheduler.effect?_eq_some_iff.2
        ⟨run, hrun, hattempt, .release cause hkind rfl hfree hresult⟩⟩

/-- A start call that is matched is reported. -/
theorem Does.outbox_ne {s' : Scheduler κ} {job : String} (hdoes : Does now s d s')
    (hd : d = .confirm job ∨ d = .release job) : s'.outbox ≠ s.outbox := by
  rcases hd with rfl | rfl
  · cases hdoes
    simp [report, emit, put, enter, modifyRun]
  · cases hdoes
    simp [report, emit, put, enter, modifyRun]

/-- **A stale call is absorbed** exactly when it is not mistaken for a call of a later run. -/
theorem stale_absorbed_iff {config : Config κ} {session : Session κ}
    (h : Reachable config session) {call : Call κ} (hcall : call ∈ session.underWay)
    (hstale : ¬ session.IsLatest call) (result : CallResult) (now : Instant) :
    session.scheduler.Absorbs (call.completion result) now ↔
      ¬ session.scheduler.Mistakes call result := by
  have hmistakes := h.tracked.mistakes_iff hcall hstale result
  rcases Scheduler.complete_eq session.scheduler (call.completion result) now with
    ⟨hnone, heq⟩ | ⟨d, hd, hdoes⟩
  · have habsorbs : session.scheduler.Absorbs (call.completion result) now := by
      unfold Scheduler.Absorbs
      rw [heq]
      exact ⟨rfl, rfl, rfl⟩
    refine iff_of_true habsorbs ?_
    intro hm
    obtain ⟨d, hd⟩ := hmistakes.2 hm
    rw [hnone] at hd
    cases hd
  · have hm := hmistakes.1 ⟨d, hd⟩
    refine iff_of_false ?_ (not_not_intro hm)
    intro habsorbs
    obtain ⟨run, -, -, hreturns⟩ := Scheduler.effect?_eq_some_iff.1 hd
    have hreported : ∃ job, d = .confirm job ∨ d = .release job := by
      cases hreturns with
      | confirm => exact ⟨_, .inl rfl⟩
      | release => exact ⟨_, .inr rfl⟩
      | finish kind => simp [Call.completion, hm.1] at kind
      | settle kind => simp [Call.completion, hm.1] at kind
    obtain ⟨job, hd'⟩ := hreported
    exact absurd habsorbs.2.2 (hdoes.outbox_ne hd')

/-- A job is started and removed at once; its stop is over, its start call is not.  Then the job is
added again and started once more. -/
def readded : Session ℚ :=
  (Session.play (fun _ _ => true) { scheduler := { config := ownerConfirms }, now := 0 }
    [(0, .request (.addExecutor { id := "A", capacity := 10 })),
      (0, .request (.addJob { id := "j", cost := 1 })),
      (0, .request (.removeJob "j")),
      (0, .answer 1 (.ok ())),
      (0, .request (.addJob { id := "j", cost := 1 }))]).get (by decide +kernel)

theorem readded_reachable : Reachable ownerConfirms readded :=
  Session.play_reachedBy (fun _ _ _ => trivial) (.start 0 (by decide +kernel))
    (Option.some_get _).symm

/-- The start call of the run that is gone. -/
def formerStart : Call ℚ := readded.underWay.head (by decide +kernel)

theorem formerStart_mem : formerStart ∈ readded.underWay := List.head_mem _

/-- The run registered now is another one. -/
theorem formerStart_stale : ¬ readded.IsLatest formerStart := by
  rintro ⟨run, hrun, -, hlast⟩
  have hmem := List.mem_of_getLast? hlast
  have hordinal : formerStart.run.ordinal = run.ordinal := by
    simpa using (List.mem_filter.1 hmem).2
  have hfound : (readded.scheduler.registry.runs.get? formerStart.run.job.id).map (·.ordinal) =
      some 1 := by decide +kernel
  rw [hrun, Option.map_some, ← hordinal] at hfound
  exact absurd hfound (by decide +kernel)

/-- A success of the former start is absorbed when the owner confirms jobs himself. -/
theorem stale_absorbed_readded :
    readded.scheduler.Absorbs (formerStart.completion (.ok ())) 0 := by
  refine (stale_absorbed_iff readded_reachable formerStart_mem formerStart_stale (.ok ()) 0).2 ?_
  rintro ⟨-, run, -, -, -, -, hprompt, -⟩
  exact absurd hprompt (by decide +kernel)

/-- A failure of the former start is taken for a failure of the present one. -/
theorem stale_absorbed_fails :
    Reachable ownerConfirms readded ∧ formerStart ∈ readded.underWay ∧
      ¬ readded.IsLatest formerStart ∧
      ¬ readded.scheduler.Absorbs (formerStart.completion (.error (.failed "late"))) 0 := by
  refine ⟨readded_reachable, formerStart_mem, formerStart_stale, fun habsorbs => ?_⟩
  have houtbox := congrArg List.length habsorbs.2.2
  exact absurd houtbox (by decide +kernel)

end Dispatch
