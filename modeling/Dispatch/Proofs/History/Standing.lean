import Dispatch.Proofs.History.Sound
import Dispatch.Proofs.History.Turn

/-!
# How a job stands, and what is reported of it

Situations are reported as runs change, so what is reported of a job follows how its run stands.
A `Tale` is what is reported along a chain of moves of one job, for any choice of the moves that are
possible and of what is reported with each.

* `Run.standing`, `Registry.standing` : how a job stands;
* `Scheduler.toldOf` : the situations reported of a job;
* `Scheduler.Tells` : what is reported of a job on the way between two states is a tale of the moves
  that it makes meanwhile;
* `Does.start_tells`, …, `Does.expel_tells` : the move of each deed that changes a run;
* `Scheduler.stopRun_tells`, `Scheduler.complete_tells`, `Scheduler.unlisting_tells`,
  `Scheduler.host_tells`, `Scheduler.reconcile_tells` and others : the moves of each function of the
  scheduler.
-/

namespace Dispatch

variable {κ : Type}

/-- How a job stands, as far as the situations reported of it tell.  A job that is absent or pending
is off. -/
inductive Standing
  | absent
  | pending
  | starting
  | running
  /-- The job is to be removed when the stop is over, or stays. -/
  | stopping (removing : Bool)
deriving DecidableEq, Repr

/-- On an executor and not being stopped. -/
def Standing.isUp : Standing → Bool
  | .starting | .running => true
  | _ => false

/-- How the job of a run stands. -/
def Run.standing (run : Run κ) : Standing :=
  match run.state with
  | .pending => .pending
  | .starting => .starting
  | .running => .running
  | .stopping => .stopping run.removing

/-- How a job stands. -/
def Registry.standing (r : Registry κ) (id : String) : Standing :=
  (r.runs.get? id).elim .absent Run.standing

namespace Run

variable {run : Run κ}

theorem standing_of_stopping (h : run.stopping = true) :
    run.standing = .stopping run.removing := by
  simp [standing, state_of_stopping h]

theorem Shaped.standing_of_pending (h : run.Shaped) (hpending : run.isPending = true) :
    run.standing = .pending := by
  obtain ⟨hexec, hst⟩ := isPending_iff.1 hpending
  cases h with
  | pending _ _ hs hr => simp [standing, state, hst, hs, hr]
  | starting he => simp [hexec] at he
  | running he => simp [hexec] at he
  | stopping he => simp [hexec] at he

theorem Shaped.isUp_of_bound (h : run.Shaped) (hexec : run.executor.isSome = true)
    (hst : run.stopping = false) : run.standing.isUp = true := by
  cases h with
  | pending he => simp [he] at hexec
  | starting _ _ hs hr => simp [standing, state, hst, hs, hr, Standing.isUp]
  | running _ _ _ hr => simp [standing, state, hst, hr, Standing.isUp]
  | stopping _ _ _ _ _ h => simp [hst] at h

theorem standing_of_starting (h : run.isStarting = true) (hst : run.stopping = false) :
    run.standing = .starting := by
  obtain ⟨hs, hr⟩ := isStarting_iff.1 h
  simp [standing, state, hst, hs, hr]

/-! How a job stands after each move of its run. -/

section Moves

variable {now : Instant}

theorem standing_start (h : run.stopping = false) (job : Job κ) (e : Executor κ) :
    (run.start job e now).standing = .starting := by
  rw [standing, state_start h]

theorem standing_confirm (h : run.stopping = false) : (run.confirm now).standing = .running := by
  rw [standing, state_confirm h]

theorem standing_release (h : run.stopping = false) : (run.release now).standing = .pending := by
  rw [standing, state_release h]

theorem standing_forget (h : run.stopping = false) (now : Instant) (attempt : Nat) :
    ({ run.release now with attempt } : Run κ).standing = .pending := by
  have hreleased : (run.release now).standing = .pending := standing_release h
  exact hreleased

theorem standing_mark (h : run.stopping = true) :
    ({ run with removing := true } : Run κ).standing = .stopping true :=
  standing_of_stopping h

theorem standing_stop (remove : Bool) : (run.stop remove now).standing = .stopping remove := rfl

theorem Shaped.standing_settle (h : run.Shaped) (hst : run.stopping = true) (job : Job κ) :
    (run.settle job).standing = .pending := by
  rw [standing, state_settle (h.unstarted_of_stopping hst) (h.unran_of_stopping hst)]

theorem standing_adopt (h : run.stopping = false) (executor : String) (revision : UInt64) :
    ((run.bind executor revision).adopt now).standing = .running := by
  rw [standing, state_adopt h]

end Moves

end Run

namespace Registry

variable {r : Registry κ} {job id : String} {run run' : Run κ}

theorem standing_of_get? (h : r.runs.get? id = some run) : r.standing id = run.standing := by
  rw [standing, h]
  rfl

theorem standing_of_none (h : r.runs.get? id = none) : r.standing id = .absent := by
  rw [standing, h]
  rfl

theorem standing_modifyRun (h : r.runs.get? job = some run) :
    (r.modifyRun job fun _ => run').standing id =
      if id = job then run'.standing else r.standing id := by
  rw [standing, get?_modifyRun h]
  split <;> rfl

theorem standing_removeRun :
    (r.removeRun job).standing id = if id = job then .absent else r.standing id := by
  simp only [standing, removeRun, Table.get?_erase]
  split <;> rfl

end Registry

/-! ### What is reported of a job -/

/-- What is reported of a stop that is over, apart from its end. -/
def CallResult.stopReport : CallResult → List Situation
  | .ok () => []
  | .error _ => [.stopFailed]

/-- The situation of a job that is reported, when what is said reports one. -/
def Output.situationOf? (id : String) : Output κ → Option Situation
  | .situation kind run _ => if run.job.id = id then some kind else none
  | _ => none

/-- The situations of a job that are reported. -/
def situationsOf (id : String) (said : List (Output κ)) : List Situation :=
  said.filterMap (Output.situationOf? id)

namespace Scheduler

/-- The situations of a job that are reported and not yet taken from the outbox. -/
def toldOf (s : Scheduler κ) (id : String) : List Situation := situationsOf id s.outbox

section Parts

variable {s : Scheduler κ} {kind : Situation} {call : CallKind} {run : Run κ}
  {cause : Option CallError} {result : CallResult} {job name id : String} {phase : Phase}
  {now : Instant} {ticket : Ticket} {reply : Reply}

@[simp] theorem toldOf_report : (s.report kind run cause).toldOf id =
    s.toldOf id ++ if run.job.id = id then [kind] else [] := by
  by_cases hid : run.job.id = id <;>
    simp [toldOf, situationsOf, report, emit, Output.situationOf?, hid]

@[simp] theorem toldOf_issue : (s.issue call run now).toldOf id = s.toldOf id := by
  simp [toldOf, situationsOf, issue, emit, Output.situationOf?]

@[simp] theorem toldOf_answer : (s.answer ticket reply).toldOf id = s.toldOf id := by
  simp [toldOf, situationsOf, answer, emit, Output.situationOf?]

@[simp] theorem toldOf_put : (s.put job run phase now).toldOf id = s.toldOf id := rfl

theorem toldOf_modifyRun (f : Run κ → Run κ) : (s.modifyRun job f).toldOf id = s.toldOf id := rfl

@[simp] theorem toldOf_drop : (s.drop job now).toldOf id = s.toldOf id := rfl

@[simp] theorem toldOf_nameExecutor : (s.nameExecutor job name).toldOf id = s.toldOf id := rfl

@[simp] theorem toldOf_putStop : (s.putStop job run now).toldOf id =
    s.toldOf id ++ if run.job.id = id then [.jobStopped] else [] := by
  simp [putStop]

@[simp] theorem toldOf_noteStop : (s.noteStop run result).toldOf id =
    s.toldOf id ++ if run.job.id = id then result.stopReport else [] := by
  cases result with
  | ok => simp [noteStop, CallResult.stopReport]
  | error => simp [noteStop, CallResult.stopReport]

end Parts

end Scheduler

/-- What is reported along a chain of moves of a job, of which each is one of `move`. -/
inductive Tale (move : Standing → List Situation → Standing → Prop) :
    Standing → List Situation → Standing → Prop
  | nil (x : Standing) : Tale move x [] x
  | snoc {x y z : Standing} {told more : List Situation} : Tale move x told y →
      move y more z → Tale move x (told ++ more) z

namespace Tale

variable {move move' : Standing → List Situation → Standing → Prop} {x y z : Standing}
  {told more : List Situation}

theorem single (h : move x told y) : Tale move x told y := .snoc (.nil x) h

theorem trans (h : Tale move x told y) (h' : Tale move y more z) :
    Tale move x (told ++ more) z := by
  induction h' with
  | nil => simpa using h
  | snoc _ hmove ih =>
    rw [← List.append_assoc]
    exact .snoc ih hmove

theorem mono (h : Tale move x told y) (weaken : ∀ x told y, move x told y → move' x told y) :
    Tale move' x told y := by
  induction h with
  | nil => exact .nil _
  | snoc _ hmove ih => exact .snoc ih (weaken _ _ _ hmove)

end Tale

/-- What is reported of a job on the way from one state to the other is a tale of its moves. -/
def Scheduler.Tells (move : Standing → List Situation → Standing → Prop) (id : String)
    (s s' : Scheduler κ) : Prop :=
  ∃ told, s'.toldOf id = s.toldOf id ++ told ∧
    Tale move (s.registry.standing id) told (s'.registry.standing id)

namespace Scheduler.Tells

variable {move : Standing → List Situation → Standing → Prop} {id job : String}
  {s s' s'' : Scheduler κ} {run run' : Run κ}

theorem refl (s : Scheduler κ) : s.Tells move id s :=
  ⟨[], (List.append_nil _).symm, .nil _⟩

theorem trans (h : s.Tells move id s') (h' : s'.Tells move id s'') : s.Tells move id s'' := by
  obtain ⟨told, hsaid, htale⟩ := h
  obtain ⟨more, hsaid', htale'⟩ := h'
  exact ⟨told ++ more, by rw [hsaid', hsaid, List.append_assoc], htale.trans htale'⟩

/-- Nothing is reported and no run changes. -/
theorem quiet (hsaid : s'.toldOf id = s.toldOf id)
    (hstands : s'.registry.standing id = s.registry.standing id) : s.Tells move id s' :=
  ⟨[], by rw [hsaid, List.append_nil], hstands ▸ .nil _⟩

/-- One job makes one move. -/
theorem of_job (job : String) (told : List Situation)
    (hsaid : s'.toldOf id = s.toldOf id ++ if job = id then told else [])
    (hothers : id ≠ job → s'.registry.standing id = s.registry.standing id)
    (hmove : id = job → move (s.registry.standing id) told (s'.registry.standing id)) :
    s.Tells move id s' := by
  by_cases hid : id = job
  · rw [if_pos hid.symm] at hsaid
    exact ⟨told, hsaid, .single (hmove hid)⟩
  · rw [if_neg (Ne.symm hid), List.append_nil] at hsaid
    exact .quiet hsaid (hothers hid)

/-- One run takes the place of another one. -/
theorem replace (told : List Situation) (hrun : s.registry.runs.get? job = some run)
    (hregistry : s'.registry = s.registry.modifyRun job fun _ => run')
    (hsaid : s'.toldOf id = s.toldOf id ++ if job = id then told else [])
    (hmove : id = job → move run.standing told run'.standing) : s.Tells move id s' := by
  refine .of_job job told hsaid (fun hid => ?_) fun hid => ?_
  · rw [hregistry, Registry.standing_modifyRun hrun, if_neg hid]
  · rw [hregistry, Registry.standing_modifyRun hrun, if_pos hid, hid,
      Registry.standing_of_get? hrun]
    exact hmove hid

/-- One job is forgotten. -/
theorem remove (told : List Situation) (hrun : s.registry.runs.get? job = some run)
    (hregistry : s'.registry = s.registry.removeRun job)
    (hsaid : s'.toldOf id = s.toldOf id ++ if job = id then told else [])
    (hmove : id = job → move run.standing told .absent) : s.Tells move id s' := by
  refine .of_job job told hsaid (fun hid => ?_) fun hid => ?_
  · rw [hregistry, Registry.standing_removeRun, if_neg hid]
  · rw [hregistry, Registry.standing_removeRun, if_pos hid, hid, Registry.standing_of_get? hrun]
    exact hmove hid

end Scheduler.Tells

open Scheduler Registry

variable [Quantity κ] {s s' : Scheduler κ} {move : Standing → List Situation → Standing → Prop}
  {id job executor : String} {remove : Bool} {now : Instant}

/-! ### The moves of a run -/

omit [Quantity κ] in
theorem Scheduler.mark_tells {run : Run κ} (hrun : s.registry.runs.get? job = some run)
    (hst : run.stopping = true) (hrm : run.removing = false)
    (hmove : id = job → move (.stopping false) [] (.stopping true)) :
    s.Tells move id (s.modifyRun job fun _ => { run with removing := true }) := by
  refine .replace [] hrun rfl (by simp [toldOf_modifyRun]) fun hid => ?_
  rw [Run.standing_of_stopping hst, hrm, Run.standing_mark hst]
  exact hmove hid

namespace Does

theorem start_tells (h : Does now s (.start job executor) s') (hsound : s.registry.Sound)
    (hmove : id = job → move .pending [.jobStarted] .starting) : s.Tells move id s' := by
  cases h with
  | @start _ _ target definition run htarget hdef hrun hplan =>
    have hpending := (plan_start_pending hsound hrun hplan).1
    refine .replace [.jobStarted] hrun rfl ?_ fun hid => ?_
    · rw [toldOf_issue, toldOf_report, toldOf_nameExecutor, toldOf_put, Run.start,
        hsound.job_key hdef]
    · rw [(hsound.shaped hrun).standing_of_pending hpending,
        Run.standing_start (Run.isPending_iff.1 hpending).2]
      exact hmove hid

theorem confirm_tells (h : Does now s (.confirm job) s') (hsound : s.registry.Sound)
    (hmove : id = job → move .starting [.jobRunning] .running) : s.Tells move id s' := by
  cases h with
  | @confirm _ run hrun hst hs =>
    refine .replace [.jobRunning] hrun rfl ?_ fun hid => ?_
    · rw [toldOf_report, toldOf_put, Run.confirm, hsound.run_key hrun]
    · rw [Run.standing_of_starting hs hst, Run.standing_confirm hst]
      exact hmove hid

theorem release_tells (h : Does now s (.release job) s') (hsound : s.registry.Sound)
    (hmove : id = job → ∀ x, x.isUp = true → move x [.startFailed] .pending) :
    s.Tells move id s' := by
  cases h with
  | @release _ run cause hrun hst hs =>
    have hshaped := hsound.shaped hrun
    refine .replace [.startFailed] hrun rfl ?_ fun hid => ?_
    · rw [toldOf_report, toldOf_put, Run.release, hsound.run_key hrun]
    · rw [Run.standing_release hst]
      exact hmove hid _ (hshaped.isUp_of_bound (hshaped.of_started hs).1 hst)

theorem stop_tells (h : Does now s (.stop job remove) s') (hsound : s.registry.Sound)
    (hmove : id = job → ∀ x, x.isUp = true → move x [.jobStopped] (.stopping remove)) :
    s.Tells move id s' := by
  cases h with
  | @stop _ executor _ run hrun hst he =>
    refine .replace [.jobStopped] hrun rfl ?_ fun hid => ?_
    · rw [toldOf_putStop, Run.stop, hsound.run_key hrun]
    · rw [Run.standing_stop]
      exact hmove hid _ ((hsound.shaped hrun).isUp_of_bound (by rw [he]; rfl) hst)

theorem discard_tells (h : Does now s (.discard job) s') (hsound : s.registry.Sound)
    (hmove : id = job → move .pending [] .absent) : s.Tells move id s' := by
  cases h with
  | @discard _ run hrun hst hexec =>
    refine .remove [] hrun rfl (by simp) fun hid => ?_
    rw [(hsound.shaped hrun).standing_of_pending (Run.isPending_iff.2 ⟨hexec, hst⟩)]
    exact hmove hid

theorem forget_tells (h : Does now s (.forget job) s') (hsound : s.registry.Sound)
    (hmove : id = job → ∀ x, x.isUp = true → move x [] .pending) : s.Tells move id s' := by
  cases h with
  | @forget _ executor run hrun hst he =>
    have hup := (hsound.shaped hrun).isUp_of_bound (by rw [he]; rfl) hst
    refine .replace [] hrun rfl (by simp) fun hid => ?_
    rw [Run.standing_forget hst]
    exact hmove hid _ hup

theorem adopt_tells (h : Does now s (.adopt job executor) s') (hsound : s.registry.Sound)
    (hmove : id = job → move .pending [] .running) : s.Tells move id s' := by
  cases h with
  | @adopt _ _ target run htarget hrun hst hexec =>
    refine .replace [] hrun rfl (by simp) fun hid => ?_
    rw [(hsound.shaped hrun).standing_of_pending (Run.isPending_iff.2 ⟨hexec, hst⟩),
      Run.standing_adopt hst]
    exact hmove hid

theorem expel_tells (h : Does now s (.expel job executor) s') (hsound : s.registry.Sound)
    (hmove : id = job → move .pending [.jobStopped] (.stopping false)) : s.Tells move id s' := by
  cases h with
  | @expel _ _ target run htarget hrun hst hexec =>
    refine .replace [.jobStopped] hrun rfl ?_ fun hid => ?_
    · rw [toldOf_putStop, Run.stop, Run.bind, hsound.run_key hrun]
    · rw [(hsound.shaped hrun).standing_of_pending (Run.isPending_iff.2 ⟨hexec, hst⟩),
        Run.standing_stop]
      exact hmove hid

end Does

namespace Scheduler

/-! ### The moves of each function -/

/-- A stop takes a job down that is up; only a removal moves a job otherwise. -/
theorem stopRun_tells (hsound : s.registry.Sound)
    (hstop : id = job → ∀ x, x.isUp = true → move x [.jobStopped] (.stopping remove))
    (hremove : id = job → remove = true →
      move (.stopping false) [] (.stopping true) ∧ move .pending [] .absent) :
    s.Tells move id (s.stopRun job remove now).1 := by
  have hhalts := stopRun_halts s job remove now
  generalize (s.stopRun job remove now).1 = s' at hhalts ⊢
  cases hhalts with
  | nothing => exact .refl s
  | mark hrun hst hasked hstaying =>
    exact mark_tells hrun hst hstaying fun hid => (hremove hid hasked).1
  | discard hrun hst hexec hasked =>
    exact Does.discard_tells (.discard hrun hst hexec) hsound fun hid => (hremove hid hasked).2
  | stop hrun hst he => exact Does.stop_tells (.stop hrun hst he) hsound hstop

/-- A stop that removes nothing. -/
theorem stopJob_tells (hsound : s.registry.Sound)
    (hstop : id = job → ∀ x, x.isUp = true → move x [.jobStopped] (.stopping false)) :
    s.Tells move id (s.stopRun job false now).1 :=
  stopRun_tells hsound hstop fun _ h => absurd h Bool.false_ne_true

theorem confirmRun_tells (hsound : s.registry.Sound)
    (hmove : id = job → move .starting [.jobRunning] .running) :
    s.Tells move id (s.confirmRun job now).1 := by
  rcases confirmRun_does s job now with heq | hdoes
  · rw [heq]
    exact .refl s
  · exact hdoes.confirm_tells hsound hmove

theorem startRun_tells (hsound : s.registry.Sound)
    (hplan : (plan s.registry s.config now).action = some (.start job executor))
    (hmove : id = job → move .pending [.jobStarted] .starting) :
    s.Tells move id (s.startRun job executor now).1 := by
  rcases startRun_does hplan with heq | hdoes
  · rw [heq]
    exact .refl s
  · exact hdoes.start_tells hsound hmove

omit [Quantity κ] in
theorem complete_stop {c : Completion} {run : Run κ} (kind : c.kind = .stop)
    (hatt : run.attempt = c.attempt) :
    s.complete c now = s.heardBack.stopFinished c.job run.attempt c.result now := by
  rw [complete, kind, hatt]
  rfl

/-- A stop that is over is reported, with its failure before its end. -/
theorem toldOf_stopFinished (hsound : s.registry.Sound) (result : CallResult) {run : Run κ}
    (hrun : s.registry.runs.get? job = some run) (hst : run.stopping = true) :
    (s.stopFinished job run.attempt result now).toldOf id = s.toldOf id ++
      if job = id then result.stopReport ++ (if run.removing then [] else [.jobEnded])
      else [] := by
  have hkey := hsound.run_key hrun
  cases hrm : run.removing with
  | true =>
    rw [stopFinished_finishes result hrun hst hrm, toldOf_drop, toldOf_noteStop, hkey]
    simp
  | false =>
    obtain ⟨definition, hdef⟩ := hsound.job_of_run hrun
    rw [stopFinished_settles result hrun hst hrm, hdef, Option.getD_some, toldOf_report,
      toldOf_put, toldOf_noteStop, Run.settle, hkey, hsound.job_key hdef]
    split <;> simp

/-- The return of a call. -/
theorem complete_tells (hsound : s.registry.Sound) {c : Completion}
    (hruns : move .starting [.jobRunning] .running)
    (hfails : s.effect? c = some (.release id) → ∀ x, x.isUp = true →
      move x [.startFailed] .pending)
    (hends : s.effect? c = some (.settle id) →
      move (.stopping false) (c.result.stopReport ++ [.jobEnded]) .pending)
    (hleaves : s.effect? c = some (.finish id) →
      move (.stopping true) c.result.stopReport .absent) :
    s.Tells move id (s.complete c now) := by
  rcases complete_eq s c now with ⟨-, heq⟩ | ⟨d, hd, hdoes⟩
  · rw [heq]
    exact .quiet rfl rfl
  obtain ⟨run, hrun, hatt, hreturns⟩ := effect?_eq_some_iff.1 hd
  have hsound' : s.heardBack.registry.Sound := hsound
  have hrun' : s.heardBack.registry.runs.get? c.job = some run := hrun
  -- that a call fewer is under way is nothing to the job
  suffices h : s.heardBack.Tells move id (s.complete c now) from h
  cases hreturns with
  | confirm => exact hdoes.confirm_tells hsound' fun _ => hruns
  | release => exact hdoes.release_tells hsound' fun hid => hfails (hid ▸ hd)
  | settle kind stopping staying =>
    rw [complete_stop kind hatt]
    refine .replace _ hrun' (by rw [stopFinished_settles _ hrun' stopping staying]; simp; rfl)
      (toldOf_stopFinished hsound' c.result hrun' stopping) fun hid => ?_
    rw [Run.standing_of_stopping stopping, staying,
      (hsound.shaped hrun).standing_settle stopping]
    exact hends (hid ▸ hd)
  | finish kind stopping removing =>
    rw [complete_stop kind hatt]
    refine .remove _ hrun' (by rw [stopFinished_finishes _ hrun' stopping removing]; simp)
      (toldOf_stopFinished hsound' c.result hrun' stopping) fun hid => ?_
    rw [Run.standing_of_stopping stopping, removing, if_pos rfl, List.append_nil]
    exact hleaves (hid ▸ hd)

/-! ### Reports of executors -/

/-- Jobs that an executor no longer hosts are pending again, and nothing is reported of them. -/
theorem unlisting_tells (hsound : s.registry.Sound) {listed : List String}
    (hmove : id ∉ listed → ∀ run, s.registry.runs.get? id = some run → run.stopping = false →
      run.executor = some executor → ∀ x, x.isUp = true → move x [] .pending) :
    (s.unlisting executor listed now).registry.Sound ∧
      s.Tells move id (s.unlisting executor listed now) := by
  have hcourse : Course (fun _ _ d => ∃ job run, run.stopping = false ∧
      run.executor = some executor ∧ job ∉ listed ∧ s.registry.runs.get? job = some run ∧
      d = .forget job) s (s.unlisting executor listed now) :=
    unlisting_course hsound.run_key executor listed fun _ job run hst hexec hout hrun _ _ =>
      ⟨job, run, hst, hexec, hout, hrun, rfl⟩
  refine ⟨hcourse.invariant hsound fun _ _ _ _ h _ hdoes => hdoes.sound h,
    hcourse.invariant_of_sound hsound (.refl s) ?_⟩
  rintro now s₁ _ s₂ hsound₁ htells ⟨job, run, hst, hexec, hout, hrun, rfl⟩ hdoes
  refine htells.trans (hdoes.forget_tells hsound₁ fun hid => ?_)
  subst hid
  exact hmove hout run hrun hst hexec

/-- A hosted job is not known, is taken off its other executor, or is judged by admission. -/
theorem host_tells (hsound : s.registry.Sound) {target : Executor κ}
    (htarget : s.registry.executor? executor = some target)
    (hunknown : id = job → move .absent [.unknownJob] .absent)
    (hstop : id = job → ∀ x, x.isUp = true → move x [.jobStopped] (.stopping false))
    (hjudged : id = job → ∀ run, s.registry.runs.get? job = some run → run.isPending = true →
      if admits s.registry s.config executor run.job.cost now then move .pending [] .running
      else move .pending [.jobStopped] (.stopping false)) :
    s.Tells move id (s.host executor target.revision job now).1 := by
  have hhosts := host_hosts s executor target.revision job now
  generalize (s.host executor target.revision job now).1 = s' at hhosts ⊢
  cases hhosts with
  | unknown hnone =>
    refine .of_job job [.unknownJob] (by simp [stranger]) (fun _ => rfl) fun hid => ?_
    rw [hid, Registry.standing_of_none hnone, report_registry, Registry.standing_of_none hnone]
    exact hunknown hid
  | nothing => exact .refl s
  | elsewhere hrun hst hother => exact Does.stop_tells (.stop hrun hst hother) hsound hstop
  | adopt hrun hst hexec hadmits =>
    refine Does.adopt_tells (.adopt htarget hrun hst hexec hadmits) hsound fun hid => ?_
    have hjudge := hjudged hid _ hrun (Run.isPending_iff.2 ⟨hexec, hst⟩)
    rwa [hadmits, if_pos rfl] at hjudge
  | expel hrun hst hexec hrefused =>
    refine Does.expel_tells (.expel htarget hrun hst hexec) hsound fun hid => ?_
    have hjudge := hjudged hid _ hrun (Run.isPending_iff.2 ⟨hexec, hst⟩)
    rwa [hrefused, if_neg Bool.false_ne_true] at hjudge

/-! ### One look at the plan, and at the runs while the loop drains -/

omit [Quantity κ] in
theorem reportNoRoom_tells (hkey : ∀ {id : String} {run : Run κ},
      s.registry.runs.get? id = some run → run.job.id = id)
    (hpending : s.registry.standing job = .pending) (hmove : move .pending [.noRoom] .pending) :
    s.Tells move id (s.reportNoRoom job) := by
  unfold reportNoRoom
  split
  · exact .refl s
  · rename_i run hrun
    refine .of_job job [.noRoom] (by rw [toldOf_report, hkey hrun]) (fun _ => rfl) fun hid => ?_
    rw [report_registry, hid, hpending]
    exact hmove

theorem reportAll_tells (hsound : s.registry.Sound) {jobs : List String}
    (hpending : ∀ job ∈ jobs, s.registry.standing job = .pending)
    (hmove : move .pending [.noRoom] .pending) :
    s.Tells move id (jobs.foldl (·.reportNoRoom ·) s) := by
  induction jobs generalizing s with
  | nil => exact .refl s
  | cons job jobs ih =>
    have hsame := reportNoRoom_registry s job
    refine (reportNoRoom_tells hsound.run_key (hpending job List.mem_cons_self) hmove).trans
      (ih (s := s.reportNoRoom job) ?_ fun job' hjob' => ?_)
    · rw [hsame]
      exact hsound
    · rw [hsame]
      exact hpending job' (List.mem_cons_of_mem _ hjob')

theorem reconcile_tells (hsound : s.registry.Sound)
    (hwaits : move .pending [.noRoom] .pending)
    (hstop : ∀ x, x.isUp = true → move x [.jobStopped] (.stopping false))
    (hstart : move .pending [.jobStarted] .starting) : s.Tells move id (s.reconcile now) := by
  have hsame := reportAll_same (plan s.registry s.config now).unplaceable s
  have hwaiting : s.Tells move id
      ((plan s.registry s.config now).unplaceable.foldl (·.reportNoRoom ·) s) := by
    refine reportAll_tells hsound (fun job hjob => ?_) hwaits
    obtain ⟨run, hrun, hpending⟩ := plan_unplaceable_pending hsound hjob
    rw [Registry.standing_of_get? hrun, (hsound.shaped hrun).standing_of_pending hpending]
  simp only [reconcile]
  generalize (plan s.registry s.config now).unplaceable.foldl (·.reportNoRoom ·) s = s₁
    at hsame hwaiting ⊢
  have hsound₁ : s₁.registry.Sound := hsame.1 ▸ hsound
  refine hwaiting.trans ?_
  split
  · rename_i job reason _
    have hstopped : s₁.Tells move id (s₁.stopRun job false now).1 :=
      stopJob_tells hsound₁ fun _ => hstop
    exact hstopped.trans (.quiet rfl rfl)
  · rename_i job executor hplan
    rw [← hsame.1, ← hsame.2] at hplan
    exact (startRun_tells hsound₁ hplan fun _ => hstart).trans (.quiet rfl rfl)
  · exact .quiet rfl rfl

theorem stopAll_tells (hsound : s.registry.Sound) {jobs : List String}
    (hstop : ∀ x, x.isUp = true → move x [.jobStopped] (.stopping false)) :
    s.Tells move id (s.stopAll jobs now) := by
  induction jobs generalizing s with
  | nil => exact .refl s
  | cons job jobs ih =>
    have hsound' : (s.stopRun job false now).1.registry.Sound :=
      (stopRun_course (Q := fun _ _ _ => True) (fun _ _ _ => trivial) s job false).invariant
        hsound fun _ _ _ _ h _ hdoes => hdoes.sound h
    exact (stopJob_tells hsound fun _ => hstop).trans (ih hsound')

end Scheduler

end Dispatch
