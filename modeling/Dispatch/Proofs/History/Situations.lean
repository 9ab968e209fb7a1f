import Dispatch.Proofs.History.Outstanding
import Dispatch.Proofs.History.Replay
import Dispatch.Proofs.History.Standing
import Dispatch.Proofs.Numbers

/-!
# The situations reported of a job

`Beat` lists all that may become of a job by an advance, with what is reported of it then and the
grounds for it: a job goes from off to starting, running and stopping and is off again, and each of
these moves is reported, but for those that a report of an executor makes by itself.

* `Scheduler.handle_tells`, `Advance.takeIn_tells`, `Advance.sequel_tells` : what a command, and
  each part of an advance, reports of a job is a tale of such beats;
* `situations_follow_runs` : **the situations of a job follow its run**, in every history.
-/

namespace Dispatch

open Scheduler Registry

variable {κ : Type} [Quantity κ]

/-- The scheduler once an executor's report is taken in as far as the first jobs of its list. -/
def Scheduler.reported (s : Scheduler κ) (target : Executor κ) (jobs first : List String)
    (now : Instant) : Scheduler κ :=
  (s.unlisting target.id (firstOccurrences jobs) now).hosting target.id target.revision now first

/-- The advance takes in a report by which an executor hosts a job with a pending run; says whether
the executor admits it, once the jobs that the report lists before are in line. -/
inductive Advance.Judges (s : Scheduler κ) (a : Advance κ) (id : String) : Bool → Prop
  | intro {target : Executor κ} {jobs first rest : List String} {run : Run κ}
      (command : a.command? = some (.jobsOnExecutor target.id jobs))
      (registered : s.registry.executor? target.id = some target)
      (listed : firstOccurrences jobs = first ++ id :: rest)
      (found : (s.reported target jobs first a.heard).registry.runs.get? id = some run)
      (pending : run.isPending = true) :
      Judges s a id (admits (s.reported target jobs first a.heard).registry
        (s.reported target jobs first a.heard).config target.id run.job.cost a.heard)

/-- What may become of a job by an advance of a scheduler, and what is reported of it then. -/
inductive Beat (s : Scheduler κ) (a : Advance κ) (id : String) :
    Standing → List Situation → Standing → Prop
  | added {job : Job κ} (command : a.command? = some (.addJob job)) (named : job.id = id) :
      Beat s a id .absent [] .pending
  | discarded (command : a.command? = some (.removeJob id)) : Beat s a id .pending [] .absent
  | waits : Beat s a id .pending [.noRoom] .pending
  | starts : Beat s a id .pending [.jobStarted] .starting
  | runs : Beat s a id .starting [.jobRunning] .running
  | fails {x : Standing} {c : Completion} (up : x.isUp = true) (back : a.completion? = some c)
      (effect : s.effect? c = some (.release id)) : Beat s a id x [.startFailed] .pending
  | stops {x : Standing} {removing : Bool} (up : x.isUp = true)
      (asked : removing = true → a.command? = some (.removeJob id)) :
      Beat s a id x [.jobStopped] (.stopping removing)
  /-- A job that is being stopped is to be removed as well. -/
  | marked (command : a.command? = some (.removeJob id)) :
      Beat s a id (.stopping false) [] (.stopping true)
  /-- A stop call comes back for a job that stays. -/
  | ends {c : Completion} (back : a.completion? = some c)
      (effect : s.effect? c = some (.settle id)) :
      Beat s a id (.stopping false) (c.result.stopReport ++ [.jobEnded]) .pending
  /-- A stop call comes back for a job that is to be removed. -/
  | leaves {c : Completion} (back : a.completion? = some c)
      (effect : s.effect? c = some (.finish id)) :
      Beat s a id (.stopping true) c.result.stopReport .absent
  /-- An executor lists jobs and leaves out one that is bound to it. -/
  | unlisted {x : Standing} {executor : String} {jobs : List String} {run : Run κ}
      (up : x.isUp = true) (command : a.command? = some (.jobsOnExecutor executor jobs))
      (out : id ∉ jobs) (found : s.registry.runs.get? id = some run)
      (bound : run.executor = some executor) : Beat s a id x [] .pending
  | adopted (judged : a.Judges s id true) : Beat s a id .pending [] .running
  | expelled (judged : a.Judges s id false) :
      Beat s a id .pending [.jobStopped] (.stopping false)
  /-- An executor lists a job that is not known. -/
  | unknown {executor : String} {jobs : List String}
      (command : a.command? = some (.jobsOnExecutor executor jobs)) (listed : id ∈ jobs) :
      Beat s a id .absent [.unknownJob] .absent

theorem Beat.stays {s : Scheduler κ} {a : Advance κ} {id : String} {x : Standing}
    (up : x.isUp = true) : Beat s a id x [.jobStopped] (.stopping false) :=
  .stops up fun h => absurd h Bool.false_ne_true

namespace Scheduler

variable {s : Scheduler κ} {a : Advance κ} {id : String} {now : Instant}

/-! ### Commands -/

omit [Quantity κ] in
/-- Where only other tables change, nothing becomes of a job. -/
theorem withRegistry_tells {move : Standing → List Situation → Standing → Prop}
    {r : Except SchedulerError (Registry κ)}
    (hruns : ∀ r', r = .ok r' → r'.runs = s.registry.runs) :
    s.Tells move id (s.withRegistry r).1 := by
  cases r with
  | error => exact .refl s
  | ok r' => exact .quiet rfl (by simp only [withRegistry, Registry.standing, hruns r' rfl])

/-- Jobs are brought in line one after the other, each on its own grounds. -/
theorem hosting_tells {target : Executor κ} {jobs first rest : List String}
    (hcommand : a.command? = some (.jobsOnExecutor target.id jobs))
    (htarget : s.registry.executor? target.id = some target)
    (hlisted : firstOccurrences jobs = first ++ rest)
    (hsound : (s.reported target jobs first a.heard).registry.Sound)
    (hsame : (s.reported target jobs first a.heard).registry.executor? target.id = some target) :
    (s.reported target jobs first a.heard).Tells (Beat s a id) id
      (s.reported target jobs (first ++ rest) a.heard) := by
  induction rest generalizing first with
  | nil =>
    rw [List.append_nil]
    exact .refl _
  | cons job rest ih =>
    have hlisted' : firstOccurrences jobs = (first ++ [job]) ++ rest := by simpa using hlisted
    have hmem : job ∈ jobs := mem_firstOccurrences.1 (by rw [hlisted]; simp)
    have hnext : s.reported target jobs (first ++ [job]) a.heard =
        ((s.reported target jobs first a.heard).host target.id target.revision job a.heard).1 := by
      simp only [reported, hosting, List.foldl_append, List.foldl_cons, List.foldl_nil]
    have hone : (s.reported target jobs first a.heard).Tells (Beat s a id) id
        (s.reported target jobs (first ++ [job]) a.heard) := by
      rw [hnext]
      refine host_tells hsound hsame (fun hid => .unknown hcommand (hid ▸ hmem))
        (fun _ x hx => .stays hx) fun hid run hrun hpending => ?_
      subst hid
      have hjudged := Advance.Judges.intro hcommand htarget hlisted hrun hpending
      split
      · rename_i hadmits
        exact .adopted (hadmits ▸ hjudged)
      · rename_i hrefused
        exact .expelled (Bool.eq_false_iff.2 hrefused ▸ hjudged)
    have hcourse : Course (fun _ _ _ => True) (s.reported target jobs first a.heard)
        ((s.reported target jobs first a.heard).host target.id target.revision job a.heard).1 :=
      host_course (fun _ _ _ => trivial) (fun _ _ => trivial) hsame
    have hsound' : (s.reported target jobs (first ++ [job]) a.heard).registry.Sound := by
      rw [hnext]
      exact hcourse.invariant hsound fun _ _ _ _ h _ hdoes => hdoes.sound h
    have hsame' : (s.reported target jobs (first ++ [job]) a.heard).registry.executor? target.id =
        some target := by
      rw [hnext, Registry.executor?, host_executors]
      exact hsame
    have hrest := ih hlisted' hsound' hsame'
    rw [List.append_assoc, List.singleton_append] at hrest
    exact hone.trans hrest

theorem jobsOnExecutor_tells (hsound : s.registry.Sound) {executor : String} {jobs : List String}
    (hcommand : a.command? = some (.jobsOnExecutor executor jobs)) :
    s.Tells (Beat s a id) id (s.jobsOnExecutor executor jobs a.heard).1 := by
  cases htarget : s.registry.executor? executor with
  | none =>
    simp only [jobsOnExecutor, htarget]
    exact .refl s
  | some target =>
    obtain rfl := (mem_of_executor? htarget).2
    rw [jobsOnExecutor_eq jobs htarget]
    have hunlisting : (s.unlisting target.id (firstOccurrences jobs) a.heard).registry.Sound ∧
        s.Tells (Beat s a id) id (s.unlisting target.id (firstOccurrences jobs) a.heard) := by
      refine unlisting_tells hsound fun hout run hrun _ hexec x hx => ?_
      exact .unlisted hx hcommand (mt mem_firstOccurrences.2 hout) hrun hexec
    refine hunlisting.2.trans (hosting_tells hcommand htarget (List.nil_append _).symm
      hunlisting.1 ?_)
    rw [Registry.executor?, reported, hosting, List.foldl_nil, unlisting_executors]
    exact htarget

/-- What a command reports of a job. -/
theorem handle_tells (hsound : s.registry.Sound) {command : Command κ}
    (hcommand : a.command? = some command) :
    s.Tells (Beat s a id) id (s.handle command a.heard).1 := by
  cases command with
  | addJob job =>
    simp only [handle]
    split
    · exact .refl s
    · rename_i r hr
      obtain ⟨-, hnew, rfl⟩ := of_addJob hr
      have hnone := hsound.get?_runs_eq_none hnew
      refine .of_job job.id [] (by simp; rfl) (fun hid => ?_) fun hid => ?_
      · simp [Registry.standing, Table.get?_addNew, hid]
      · rw [hid, Registry.standing_of_none hnone]
        simp only [Registry.standing, nameJob_registry, enter_registry, Table.get?_addNew, hnone]
        exact .added hcommand rfl
  | changeJob job =>
    simp only [handle]
    split
    · exact .refl s
    · rename_i r hr
      obtain ⟨old, -, -, rfl⟩ := of_changeJob hr
      refine .quiet rfl ?_
      simp only [Registry.standing, nameJob_registry, Table.get?_modify]
      split
      · cases s.registry.runs.get? id with
        | none => rfl
        | some run =>
          simp only [Option.map_some, Option.elim_some]
          split <;> rfl
      · rfl
  | removeJob job =>
    exact stopRun_tells hsound (fun hid x hx => .stops hx fun _ => hid ▸ hcommand) fun hid _ =>
      ⟨.marked (hid ▸ hcommand), .discarded (hid ▸ hcommand)⟩
  | stopJob job => exact stopJob_tells hsound fun _ x hx => .stays hx
  | jobIsRunning job => exact confirmRun_tells hsound fun _ => .runs
  | addExecutor e =>
    refine withRegistry_tells fun r' hr => ?_
    obtain ⟨-, -, rfl⟩ := of_addExecutor hr
    rfl
  | removeExecutor executor =>
    refine withRegistry_tells fun r' hr => ?_
    obtain rfl := of_removeExecutor hr
    rfl
  | changeExecutor e =>
    refine withRegistry_tells fun r' hr => ?_
    obtain ⟨revised, hc⟩ := of_changeExecutor_fst hr
    obtain ⟨-, -, -, -, rfl⟩ := of_changeExecutor hc
    rfl
  | executorIsAlive executor =>
    refine withRegistry_tells fun r' hr => ?_
    obtain rfl := of_keepAlive hr
    rfl
  | jobsOnExecutor executor jobs => exact jobsOnExecutor_tells hsound hcommand
  | maxJobs count => exact .quiet rfl rfl
  | refresh => exact .refl s
  | checkInvariants => exact .refl s

/-! ### The rest of an advance -/

omit [Quantity κ] in
theorem toldOf_answerAll (s : Scheduler κ) (tickets : List Ticket) (reply : Reply) :
    (s.answerAll tickets reply).toldOf id = s.toldOf id := by
  unfold answerAll
  induction tickets generalizing s with
  | nil => rfl
  | cons ticket tickets ih => rw [List.foldl_cons, ih, toldOf_answer]

theorem answerChecks_tells (move : Standing → List Situation → Standing → Prop) (id : String)
    (s : Scheduler κ) : s.Tells move id s.answerChecks := by
  refine .quiet ?_ (by rw [(answerChecks_eq s).1])
  unfold answerChecks
  split
  · rfl
  · exact toldOf_answerAll _ _ _

end Scheduler

namespace Advance

variable {s : Scheduler κ} {a : Advance κ} {id : String}

theorem takeIn_tells (hsound : s.registry.Sound) : s.Tells (Beat s a id) id (a.takeIn s) := by
  have hback : ∀ c, a.completion? = some c → s.Tells (Beat s a id) id (s.complete c a.heard) :=
    fun c hc => complete_tells hsound .runs (fun hd x hx => .fails hx hc hd) (.ends hc)
      (.leaves hc)
  have hasked : ∀ command, a.command? = some command →
      s.Tells (Beat s a id) id (s.handle command a.heard).1 :=
    fun command hcommand => handle_tells hsound hcommand
  cases a with
  | turn e heard looked shown =>
    cases e with
    | completion c => exact hback c rfl
    | request ticket command =>
      cases command with
      | checkInvariants => exact .quiet rfl rfl
      | _ => exact hasked _ rfl
    | refresh => exact .refl s
    | timer => exact .quiet rfl rfl
  | leave => exact .refl s
  | drain c => exact hback c rfl

theorem drainPass_tells {s₁ : Scheduler κ} (hsound : s₁.registry.Sound) (looked shown : Instant) :
    s₁.Tells (Beat s a id) id (s₁.drainPass looked shown) := by
  have hstopped : s₁.Tells (Beat s a id) id (s₁.stopAll s₁.boundJobs looked) :=
    stopAll_tells hsound fun x hx => .stays hx
  refine hstopped.trans ?_
  simp only [drainPass]
  split <;> exact .quiet rfl rfl

/-- What an advance does after it has taken in what it starts with. -/
theorem sequel_tells (hsound : s.registry.Sound) :
    (a.takeIn s).Tells (Beat s a id) id (a.apply s) := by
  have hsound' : (a.takeIn s).registry.Sound := Advance.takeIn_sound hsound
  cases a with
  | turn e heard looked shown =>
    refine .trans ?_ (answerChecks_tells _ id (s.pass e heard looked shown))
    simp only [takeIn, Scheduler.pass] at hsound' ⊢
    generalize s.accept e heard = accepted at hsound' ⊢
    obtain ⟨s₁, held⟩ := accepted
    have hready : s₁.Tells (Beat s (.turn e heard looked shown) id) id
        { s₁ with refreshDue := false } := .quiet rfl rfl
    have hlooked : s₁.Tells (Beat s (.turn e heard looked shown) id) id
        ({ s₁ with refreshDue := false }.reconcile looked) :=
      hready.trans (reconcile_tells hsound' .waits (fun x hx => .stays hx) .starts)
    refine hlooked.trans ?_
    generalize Scheduler.reconcile { s₁ with refreshDue := false } looked = s₂
    cases held with
    | none => exact .quiet rfl rfl
    | some held => exact .quiet toldOf_answer rfl
  | leave queued looked shown =>
    have hturned : s.Tells (Beat s (.leave queued looked shown) id) id
        { s.answerAll (queued ++ s.checksWaiting) (.error .shutdown) with
          stage := .draining, checksWaiting := [] } :=
      .quiet (toldOf_answerAll s _ _) (by rw [answerAll_eq])
    refine hturned.trans (drainPass_tells ?_ looked shown)
    rw [answerAll_eq]
    exact hsound
  | drain c heard looked shown => exact drainPass_tells hsound' looked shown

end Advance

/-! ### Whole histories -/

namespace Session

variable {config : Config κ} {session session' : Session κ} {a : Advance κ}

/-- A stop call that comes back is the one that the run of its job waits for. -/
theorem Step.stop_back {c : Completion} (h : Reachable config session)
    (hstep : session.Step a session') (hc : a.completion? = some c) (hkind : c.kind = .stop) :
    ∃ run, session.scheduler.registry.runs.get? c.job = some run ∧ run.attempt = c.attempt ∧
      run.stopping = true := by
  obtain ⟨-, -, rest, htakes, -⟩ := hstep
  obtain ⟨run, hrun, hatt, hst, -⟩ :=
    Advance.handled_heeds h.sound h.stopsBooked htakes hc hkind
  exact ⟨run, hrun, hatt, hst⟩

/-- What is reported of a job by one advance. -/
theorem Step.tells (h : Reachable config session) (hstep : session.Step a session')
    (id : String) :
    ∃ told, situationsOf id session'.told = situationsOf id session.told ++ told ∧
      Tale (Beat session.scheduler a id) (session.scheduler.registry.standing id) told
        (session'.scheduler.registry.standing id) ∧
      ∀ c, a.completion? = some c → c.kind = .stop → c.job = id → ∃ removing rest,
        session.scheduler.registry.standing id = .stopping removing ∧
          told = c.result.stopReport ++ (if removing then [] else [.jobEnded]) ++ rest := by
  have hsilent : session.scheduler.toldOf id = [] := by
    rw [toldOf, h.outbox_eq_nil]
    rfl
  obtain ⟨told, hsaid, htale⟩ : session.scheduler.Tells (Beat session.scheduler a id) id
      (a.takeIn session.scheduler) := Advance.takeIn_tells h.sound
  obtain ⟨rest, hsaid', htale'⟩ : (a.takeIn session.scheduler).Tells
      (Beat session.scheduler a id) id (a.apply session.scheduler) := Advance.sequel_tells h.sound
  have hback := fun c => hstep.stop_back (c := c) h
  obtain ⟨-, -, calls, -, rfl⟩ := hstep
  refine ⟨told ++ rest, ?_, htale.trans htale', fun c hc hkind hid => ?_⟩
  · rw [hsilent, List.nil_append] at hsaid
    rw [hsaid] at hsaid'
    simp only [after, situationsOf, List.filterMap_append]
    rw [← hsaid']
    rfl
  · obtain ⟨run, hrun, hatt, hst⟩ := hback c hc hkind
    refine ⟨run.removing, rest, ?_, ?_⟩
    · rw [← hid, Registry.standing_of_get? hrun, Run.standing_of_stopping hst]
    · have hreport : (a.takeIn session.scheduler).toldOf id =
          session.scheduler.toldOf id ++ (c.result.stopReport ++
            if run.removing then [] else [.jobEnded]) := by
        rw [Advance.takeIn_completion hc, complete_stop hkind hatt,
          toldOf_stopFinished (s := session.scheduler.heardBack) h.sound c.result hrun hst,
          if_pos hid]
        rfl
      rw [List.append_cancel_left (hsaid.symm.trans hreport)]

end Session

/-- **The situations of a job follow its run.**  All that is reported of a job is a tale of beats,
from off at first to how the job stands now, and so is what each advance reports of it.  A stop call
comes back only for a job that is being stopped; its failure is reported first, if it failed, and
then its end, unless the job was to be removed. -/
theorem situations_follow_runs {config : Config κ} {session : Session κ}
    (h : Reachable config session) (id : String) :
    Tale (fun x told y => ∃ before a after, Reachable config before ∧ before.Step a after ∧
        Beat before.scheduler a id x told y) .absent (situationsOf id session.told)
      (session.scheduler.registry.standing id) ∧
    ∀ a session', session.Step a session' → ∃ told,
      situationsOf id session'.told = situationsOf id session.told ++ told ∧
      Tale (Beat session.scheduler a id) (session.scheduler.registry.standing id) told
        (session'.scheduler.registry.standing id) ∧
      ∀ c, a.completion? = some c → c.kind = .stop → c.job = id → ∃ removing rest,
        session.scheduler.registry.standing id = .stopping removing ∧
          told = c.result.stopReport ++ (if removing then [] else [.jobEnded]) ++ rest := by
  refine ⟨?_, fun a session' hstep => hstep.tells h id⟩
  refine h.invariant (I := fun session => Tale _ .absent (situationsOf id session.told)
    (session.scheduler.registry.standing id)) (fun _ _ => .nil _) ?_
  rintro before a after hreach htale - hstep
  obtain ⟨told, hsaid, hbeats, -⟩ := hstep.tells hreach id
  rw [hsaid]
  exact htale.trans (hbeats.mono fun _ _ _ hbeat => ⟨before, a, after, hreach, hstep, hbeat⟩)

/-- A job is stopped, is started again when the stop call failed, is removed, and is added again
under a cost for which there is no room; then its executor says that it hosts it. -/
def twoLives : Session ℚ :=
  (Session.play (fun _ _ => true) { scheduler := { config := startConfirms }, now := 0 }
    [(0, .request (.addExecutor { id := "A", capacity := 2 })),
      (0, .request (.addJob { id := "j", cost := 1 })),
      (1, .answer 0 (.ok ())),
      (2, .request (.stopJob "j")),
      (3, .answer 0 (.error .timeout)),
      (4, .request (.removeJob "j")),
      (5, .answer 0 (.error .cancelled)),
      (6, .answer 0 (.ok ())),
      (7, .request (.addJob { id := "j", cost := 5 })),
      (8, .request (.jobsOnExecutor "A" ["j"]))]).get (by decide +kernel)

/-- The last stop call fails, with the calls that are left. -/
def twoLivesBack : Advance ℚ × List (Call ℚ) :=
  ((Cue.answer 0 (.error .timeout)).advance? twoLives 9).get (by decide +kernel)

theorem situations_follow_runs_twoLives :
    situationsOf "j" twoLives.told =
        [.jobStarted, .jobRunning, .jobStopped, .stopFailed, .jobEnded, .jobStarted, .jobStopped,
          .noRoom, .jobStopped] ∧
      Tale (fun x told y => ∃ before a after, Reachable startConfirms before ∧
          before.Step a after ∧ Beat before.scheduler a "j" x told y) .absent
        (situationsOf "j" twoLives.told) (.stopping false) ∧
      ∃ rest, situationsOf "j" (twoLives.after twoLivesBack.1 twoLivesBack.2).told =
        situationsOf "j" twoLives.told ++ ([.stopFailed, .jobEnded] ++ rest) := by
  have hreach : Reachable startConfirms twoLives :=
    Session.play_reachedBy (fun _ _ _ => trivial) (.start 0 (by decide +kernel))
      (Option.some_get _).symm
  have htakes : Takes twoLives.underWay twoLivesBack.1.completion? twoLivesBack.2 :=
    Cue.takes (Option.some_get _).symm
  have hstep : twoLives.Step twoLivesBack.1 (twoLives.after twoLivesBack.1 twoLivesBack.2) :=
    ⟨by decide +kernel, by decide +kernel, _, htakes, rfl⟩
  have hstands : twoLives.scheduler.registry.standing "j" = .stopping false := by decide +kernel
  have hback : twoLivesBack.1.completion?.map (fun c => (c.kind, c.job, c.result.stopReport)) =
      some (.stop, "j", [.stopFailed]) := by decide +kernel
  obtain ⟨c, hc, hcall⟩ := Option.map_eq_some_iff.1 hback
  obtain ⟨hkind, hjob, hreport⟩ : c.kind = .stop ∧ c.job = "j" ∧
      c.result.stopReport = [.stopFailed] := by simpa using hcall
  obtain ⟨htale, hadvance⟩ := situations_follow_runs hreach "j"
  rw [hstands] at htale hadvance
  obtain ⟨told, hsaid, -, hstop⟩ := hadvance _ _ hstep
  obtain ⟨removing, rest, hremoving, rfl⟩ := hstop c hc hkind hjob
  obtain rfl : false = removing := Standing.stopping.inj hremoving
  refine ⟨by decide +kernel, htale, rest, ?_⟩
  rw [hsaid, hreport]
  simp

end Dispatch
