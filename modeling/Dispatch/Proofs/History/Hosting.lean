import Dispatch.Proofs.History.Deployment
import Dispatch.Proofs.History.Late
import Dispatch.Proofs.History.Outstanding
import Dispatch.Proofs.Numbers
import Dispatch.Proofs.Simulation

/-!
# Whether the executors host what the registry says

The scheduler binds a run when it issues a start call, and an executor hosts the job when that call
is answered; with stop calls it is the same.  So the registry follows the calls in the order of
issue, the executors follow them in the order of the answers, and the last call for a job on an
executor decides in both cases.

* `Traced` : the runs that are placed are those whose last call issued is a start, as long as no
  start fails and no owner reports what an executor hosts;
* `LoggedBy` : a history together with the calls answered in it, in the order of the answers;
* `Deployment.Follows` : the jobs hosted are those whose last call answered is a start;
* `hosting_agrees_iff` : **when no call is out, registry and executors agree exactly if no start has
  been overtaken**, that is, answered after a stop that was issued later;
* `hosting_agrees_fails` : a history in which one is, since a run may be stopped while its start
  call is under way, and nothing waits for that call then.
-/

namespace Dispatch

variable {κ : Type}

/-! ### The last call -/

/-- The call is for a job on an executor. -/
def Call.IsOn (call : Call κ) (executor job : String) : Prop :=
  call.run.executor = some executor ∧ call.run.job.id = job

instance (call : Call κ) (executor job : String) : Decidable (call.IsOn executor job) :=
  inferInstanceAs (Decidable (_ ∧ _))

/-- The kind of the last call for a job on an executor. -/
def lastOn (calls : List (Call κ)) (executor job : String) : Option CallKind :=
  (calls.filter (·.IsOn executor job)).getLast?.map (·.kind)

section LastCall

variable {calls added : List (Call κ)} {call : Call κ} {executor job : String} {kind : CallKind}

@[simp] theorem lastOn_nil : lastOn ([] : List (Call κ)) executor job = none := rfl

theorem lastOn_concat : lastOn (calls ++ [call]) executor job =
    if call.IsOn executor job then some call.kind else lastOn calls executor job := by
  by_cases h : call.IsOn executor job <;> simp [lastOn, h]

/-- The last call is among those added, or nothing was added for the job on the executor. -/
theorem lastOn_append_cases (h : lastOn (calls ++ added) executor job = some kind) :
    (∃ call ∈ added, call.IsOn executor job ∧ call.kind = kind) ∨
      lastOn calls executor job = some kind := by
  simp only [lastOn, List.filter_append, List.getLast?_append, Option.map_eq_some_iff,
    Option.or_eq_some_iff] at h
  obtain ⟨call, hadded | ⟨-, hold⟩, hkind⟩ := h
  · obtain ⟨hin, hon⟩ := List.mem_filter.1 (List.mem_of_getLast? hadded)
    exact .inl ⟨call, hin, by simpa using hon, hkind⟩
  · refine .inr ?_
    rw [lastOn, hold, Option.map_some, hkind]

/-- There is a last call when there is any. -/
theorem lastOn_ne_none (hin : call ∈ calls) (hon : call.IsOn executor job) :
    lastOn calls executor job ≠ none := by
  have hne : calls.filter (·.IsOn executor job) ≠ [] :=
    List.ne_nil_of_mem (List.mem_filter.2 ⟨hin, by simpa using hon⟩)
  simpa [lastOn] using hne

end LastCall

/-! ### What the registry follows -/

/-- On an executor, and not on the way off it. -/
def Position.IsOn (p : Position) (executor : String) : Prop :=
  p.executor = some executor ∧ p.stopping = false

/-- The run of a job is on an executor, and not on the way off it. -/
def Registry.Places (r : Registry κ) (executor job : String) : Prop :=
  ∃ p, r.position? job = some p ∧ p.IsOn executor

/-- The runs that are placed are those whose last call is a start. -/
structure Traced (calls : List (Call κ)) (r : Registry κ) : Prop where
  bound : ∀ call ∈ calls, call.run.executor.isSome = true
  placed : ∀ executor job, r.Places executor job ↔ lastOn calls executor job = some .start

/-- Every deed but those that move a run on or off an executor without a call. -/
def Deed.ByCall : Deed κ → Prop
  | .release _ | .forget _ | .adopt .. => False
  | _ => True

namespace Traced

variable {calls : List (Call κ)} {call : Call κ} {r r' : Registry κ} {job executor : String}
  {q : Option Position}

theorem empty : Traced [] (∅ : Registry κ) :=
  ⟨by simp, fun _ _ => iff_of_false (by rintro ⟨p, ⟨⟩, -⟩) nofun⟩

/-- The position of a run may change as long as it is on the same executor as before. -/
theorem keep (h : Traced calls r)
    (positions : ∀ id, r'.position? id = if id = job then q else r.position? id)
    (same : ∀ executor, (∃ p, q = some p ∧ p.IsOn executor) ↔ r.Places executor job) :
    Traced calls r' := by
  refine ⟨h.bound, fun executor id => ?_⟩
  rw [← h.placed, Registry.Places, positions]
  split
  · rename_i hid
    rw [hid]
    exact same executor
  · rfl

/-- A start call goes with a run that comes onto its executor, a stop call with one that is no
longer placed. -/
theorem concat (h : Traced calls r)
    (positions : ∀ id, r'.position? id = if id = job then q else r.position? id)
    (target : call.IsOn executor job)
    (here : (∃ p, q = some p ∧ p.IsOn executor) ↔ call.kind = .start)
    (elsewhere : ∀ executor', executor' ≠ executor →
      ((∃ p, q = some p ∧ p.IsOn executor') ↔ r.Places executor' job)) :
    Traced (calls ++ [call]) r' := by
  refine ⟨fun c hc => ?_, fun executor' id => ?_⟩
  · rcases List.mem_append.1 hc with hc | hc
    · exact h.bound c hc
    · obtain rfl := List.mem_singleton.1 hc
      simp [target.1]
  · rw [lastOn_concat, Registry.Places, positions]
    by_cases hid : id = job
    · subst hid
      rw [if_pos rfl]
      by_cases hexec : executor' = executor
      · subst hexec
        rw [if_pos target, here, Option.some.injEq]
      · have hother : ¬ call.IsOn executor' id := fun hon =>
          hexec (Option.some.inj (hon.1.symm.trans target.1))
        rw [if_neg hother, ← h.placed]
        exact elsewhere executor' hexec
    · have hother : ¬ call.IsOn executor' id := fun hon => hid (hon.2.symm.trans target.2)
      rw [if_neg hid, if_neg hother]
      exact h.placed executor' id

end Traced

section Deeds

variable {now : Instant} {s s' : Scheduler κ} {d : Deed κ} {calls : List (Call κ)}

/-- Deeds by call keep the runs traced. -/
theorem Shifts.traced (h : Shifts now s s' d) (hd : d.ByCall)
    (htraced : Traced (calls ++ s.issued) s.registry) :
    Traced (calls ++ s'.issued) s'.registry := by
  have hplaces : ∀ {job : String} {p : Position}, s.registry.position? job = some p →
      ∀ executor, s.registry.Places executor job ↔ p.IsOn executor := by
    intro job p hp executor
    simp [Registry.Places, hp]
  cases h with
  | same _ positions next issued =>
    rw [issued]
    exact ⟨htraced.bound, fun executor job => by
      rw [← htraced.placed, Registry.Places, Registry.Places, positions]⟩
  | fresh job _ positions old next issued =>
    rw [issued]
    refine htraced.keep positions fun executor => ?_
    simp [Registry.Places, old, Position.IsOn]
  | gone job p positions old off next issued =>
    rw [issued]
    refine htraced.keep positions fun executor => ?_
    rw [hplaces old]
    refine iff_of_false (by simp) fun hon => ?_
    rcases off with ⟨hpending, -⟩ | ⟨hstopping, -⟩
    · cases hpending.1.symm.trans hon.1
    · cases hstopping.symm.trans hon.2
  | shifted job p p' call? positions old shift next issued kind made =>
    -- a shift without a call leaves the run where it is
    have hsilent : call? = none → (∀ executor, p'.IsOn executor ↔ p.IsOn executor) →
        Traced (calls ++ s'.issued) s'.registry := by
      rintro rfl hsame
      rw [issued]
      simp only [Option.toList_none, List.append_nil]
      refine htraced.keep positions fun executor => ?_
      rw [hplaces old, ← hsame]
      simp
    -- a call goes with the run as it is then
    have hcalled : ∀ executor, p'.executor = some executor → ∀ call, call? = some call →
        (p'.stopping = false ↔ call.kind = .start) →
        (∀ executor', executor' ≠ executor → ¬ p.IsOn executor') →
        Traced (calls ++ s'.issued) s'.registry := by
      rintro executor hexec call rfl hkind hoff
      obtain ⟨hposition, hjob⟩ := made call rfl
      rw [issued, Option.toList_some, ← List.append_assoc]
      refine htraced.concat positions
        ⟨(congrArg Position.executor hposition).trans hexec, hjob⟩ ?_ fun executor' hne => ?_
      · simp [Position.IsOn, hexec, hkind]
      · rw [hplaces old]
        refine iff_of_false ?_ (hoff executor' hne)
        rintro ⟨_, ⟨⟩, hon⟩
        exact hne (Option.some.inj (hon.1.symm.trans hexec))
    cases shift with
    | start executor revision free =>
      obtain ⟨call, hcall, hkind⟩ := Option.map_eq_some_iff.1 kind
      refine hcalled executor rfl call hcall (iff_of_true free.2 hkind) fun executor' _ hon => ?_
      cases free.1.symm.trans hon.1
    | confirm => exact hsilent (Option.map_eq_none_iff.1 kind) fun _ => .rfl
    | stop executor remove here free =>
      obtain ⟨call, hcall, hkind⟩ := Option.map_eq_some_iff.1 kind
      refine hcalled executor rfl call hcall (iff_of_false nofun ?_) fun executor' hne hon => ?_
      · rw [hkind]
        nofun
      · exact hne (Option.some.inj (hon.1.symm.trans here))
    | release => exact hd.elim
    | settle stopping =>
      refine hsilent (Option.map_eq_none_iff.1 kind) fun executor => ?_
      refine iff_of_false (fun hon => by cases hon.1) fun hon => ?_
      cases stopping.symm.trans hon.2
    | forget => exact hd.elim
    | adopt => exact hd.elim
    | expel executor free =>
      obtain ⟨call, hcall, hkind⟩ := Option.map_eq_some_iff.1 kind
      refine hcalled executor rfl call hcall (iff_of_false nofun ?_) fun executor' _ hon => ?_
      · rw [hkind]
        nofun
      · cases free.1.symm.trans hon.1

end Deeds

/-- An owner reports what an executor hosts. -/
def Command.isReport : Command κ → Bool
  | .jobsOnExecutor .. => true
  | _ => false

/-- The advance takes in a report of what an executor hosts. -/
def Advance.Reports (a : Advance κ) : Prop := a.command?.any Command.isReport = true

section Advances

variable [Quantity κ] {s : Scheduler κ} {a : Advance κ}

/-- Without reports and without failures, runs only move by call. -/
theorem Advance.grants_byCall (hplain : ¬ a.Reports)
    (hok : ∀ c, a.completion? = some c → c.result = .ok ()) :
    a.Grants (fun _ _ d => d.ByCall) s where
  routine s d hd := by cases d <;> first | exact hd.elim | trivial
  callBack c _ := trivial
  effect c d hc hd := by
    obtain ⟨run, -, -, hreturns⟩ := Scheduler.effect?_eq_some_iff.1 hd
    cases hreturns with
    | release cause kind result => cases result.symm.trans (hok c hc)
    | _ => trivial
  add _ _ _ _ _ _ := trivial
  change _ _ _ _ _ _ := trivial
  forget _ _ _ _ _ _ ha := absurd (by rw [ha]; rfl) hplain
  adopt _ _ _ _ _ _ ha := absurd (by rw [ha]; rfl) hplain
  redefine _ _ _ _ _ _ := trivial
  later s d hd := by cases d <;> first | exact hd.elim | trivial
  start _ _ _ _ _ _ _ _ _ _ := trivial

/-- **An advance keeps the runs traced**, if it is without reports and failures. -/
theorem Session.Step.traced {P : Scheduler κ → Advance κ → Prop} {config : Config κ}
    {session session' : Session κ} (hreach : ReachedBy P config session)
    (hstep : session.Step a session') (hplain : ¬ a.Reports)
    (hok : ∀ c, a.completion? = some c → c.result = .ok ())
    (h : Traced session.calls session.scheduler.registry) :
    Traced session'.calls session'.scheduler.registry := by
  exact hstep.calls_invariant hreach (Advance.grants_byCall hplain hok) h
    fun hsound htraced hd hdoes => (hdoes.shifts hsound).traced hd htraced

end Advances

/-! ### What the executors follow -/

variable [Quantity κ]

/-- The deployments reached by advances that satisfy `P`, each with the calls answered on the way,
in the order of the answers. -/
inductive LoggedBy (P : Scheduler κ → Advance κ → Prop) (config : Config κ) :
    Deployment κ → List (Call κ) → Prop
  | start (simulation : SimulationConfig) (now : Instant) : config.validate = .ok () →
      config.callTimeout = none → LoggedBy P config (Deployment.start config simulation now) []
  | answer {d : Deployment κ} {log : List (Call κ)} {before after : List (Assignment κ)}
      {call : Call κ} : LoggedBy P config d log → d.assignments = before ++ ⟨call, none⟩ :: after →
      LoggedBy P config (d.answer before call after) (log ++ [call])
  | advance {d d' : Deployment κ} {log : List (Call κ)} {a : Advance κ} : LoggedBy P config d log →
      P d.scheduler a → d.Advances a d' → LoggedBy P config d' log

section Histories

variable {P : Scheduler κ → Advance κ → Prop} {config : Config κ} {d : Deployment κ}
  {log : List (Call κ)}

/-- Every deployment that is reached has a log, and only those have. -/
theorem deployedBy_iff_logged : DeployedBy P config d ↔ ∃ log, LoggedBy P config d log := by
  constructor
  · rintro ⟨hvalid, hpatient, simulation, now, hd⟩
    refine hd.invariant (I := fun d => ∃ log, LoggedBy P config d log)
      ⟨[], .start simulation now hvalid hpatient⟩ ?_ ?_
    · rintro d₁ d₂ - ⟨log, hlog⟩ ⟨before, call, after, hsplit, rfl⟩
      exact ⟨_, hlog.answer hsplit⟩
    · rintro d₁ a d₂ - ⟨log, hlog⟩ hP hadvances
      exact ⟨log, hlog.advance hP hadvances⟩
  · rintro ⟨log, hlog⟩
    induction hlog with
    | start simulation now hvalid hpatient => exact ⟨hvalid, hpatient, simulation, now, .refl⟩
    | answer _ hsplit ih => exact ih.leadsBy (.answer .refl ⟨_, _, _, hsplit, rfl⟩)
    | advance _ hP hadvances ih => exact ih.leadsBy (.advance .refl hP hadvances)

theorem LoggedBy.reachedBy (h : LoggedBy P config d log) : ReachedBy P config d.session :=
  (deployedBy_iff_logged.2 ⟨log, h⟩).reachedBy

end Histories

/-- What holds of a deployment whose scheduler serves and whose starts do not fail, when `log` are
the calls that have been answered. -/
structure Deployment.Follows (d : Deployment κ) (log : List (Call κ)) : Prop where
  traced : Traced d.session.calls d.scheduler.registry
  /-- Nothing fails. -/
  succeeded : ∀ assignment ∈ d.assignments, ∀ result, assignment.result = some result →
    result = .ok ()
  /-- The executors follow the answers. -/
  hosted : ∀ executor job,
    job ∈ d.simulation.jobsOn executor ↔ lastOn log executor job = some .start
  answered : log ⊆ d.session.calls
  /-- A start that was issued last has been answered last, or is still to be answered. -/
  awaited : ∀ executor job, lastOn d.session.calls executor job = some .start →
    lastOn log executor job = some .start ∨ ∃ assignment ∈ d.assignments,
      assignment.result = none ∧ assignment.call.kind = .start ∧
        assignment.call.IsOn executor job

section Histories

variable {config : Config κ} {d d' : Deployment κ} {log : List (Call κ)}

omit [Quantity κ] in
/-- What an answer makes of what is hosted. -/
theorem Deployment.mem_jobsOn_answer (works : d.simulation.config.startsFail = false)
    (serving : d.scheduler.stage = .serving) {before after : List (Assignment κ)} {call : Call κ}
    {executor job : String} : job ∈ (d.answer before call after).simulation.jobsOn executor ↔
      if call.IsOn executor job then call.kind = .start
      else job ∈ d.simulation.jobsOn executor := by
  have hcancels : d.cancels call = false := by simp [cancels, serving]
  simp only [answer, hcancels]
  cases hkind : call.kind with
  | start =>
    rw [Simulation.mem_jobsOn_start works, eq_comm (a := job)]
    by_cases hon : call.IsOn executor job
    · rw [if_pos hon]
      exact iff_of_true (.inr hon) rfl
    · rw [if_neg hon]
      exact or_iff_left hon
  | stop =>
    rw [Simulation.mem_jobsOn_stop, eq_comm (a := job)]
    by_cases hon : call.IsOn executor job
    · rw [if_pos hon]
      exact iff_of_false (fun h => h.2 ⟨rfl, hon⟩) (by decide)
    · rw [if_neg hon]
      exact and_iff_left fun h => hon h.2

theorem Deployment.Follows.answer {P : Scheduler κ → Advance κ → Prop} (h : d.Follows log)
    (hlog : LoggedBy P config d log) (works : d.simulation.config.startsFail = false)
    (serving : d.scheduler.stage = .serving) {before after : List (Assignment κ)} {call : Call κ}
    (hsplit : d.assignments = before ++ ⟨call, none⟩ :: after) :
    (d.answer before call after).Follows (log ++ [call]) := by
  have hsession : (d.answer before call after).session = d.session :=
    Answers.session ⟨before, call, after, hsplit, rfl⟩
  have hunder : call ∈ d.session.underWay :=
    List.mem_map_of_mem ((mem_iff_of_split hsplit).2 (.inl rfl))
  have hissued : call ∈ d.session.calls := hlog.reachedBy.underWay_subset hunder
  refine ⟨?_, ?_, fun executor job => ?_, ?_, fun executor job hlast => ?_⟩
  · rw [hsession]
    exact h.traced
  · intro assignment hassignment result hresult
    rcases mem_answer_iff.1 hassignment with rfl | hother
    · have hcancels : d.cancels call = false := by simp [cancels, serving]
      rw [hcancels, Simulation.call_succeeds works (h.traced.bound call hissued)] at hresult
      exact (Option.some.inj hresult).symm
    · exact h.succeeded assignment ((mem_iff_of_split hsplit).2 (.inr hother)) result hresult
  · rw [Deployment.mem_jobsOn_answer works serving, lastOn_concat, h.hosted]
    split <;> simp
  · rw [hsession]
    exact List.append_subset.2 ⟨h.answered, by simpa using hissued⟩
  · rw [hsession] at hlast
    rw [lastOn_concat]
    by_cases hon : call.IsOn executor job
    · -- a stop call under way would have its run on the way off the executor
      have hkind : call.kind = .start := by
        cases hkind : call.kind with
        | start => rfl
        | stop =>
          obtain ⟨p, hp, hplaced⟩ := (h.traced.placed executor job).2 hlast
          have hbooked := hlog.reachedBy.stopsBooked.position call hunder hkind
          rw [hon.2] at hbooked
          obtain rfl : p = call.run.position := Option.some.inj (hp.symm.trans hbooked.1)
          cases hplaced.2.symm.trans hbooked.2
      exact .inl (by rw [if_pos hon, hkind])
    · rw [if_neg hon]
      refine (h.awaited executor job hlast).imp_right ?_
      rintro ⟨assignment, hin, hopen, hkind, htarget⟩
      refine ⟨assignment, mem_answer_iff.2 (.inr ?_), hopen, hkind, htarget⟩
      refine ((mem_iff_of_split hsplit).1 hin).resolve_left ?_
      rintro rfl
      exact hon htarget

theorem Deployment.Follows.advance {P : Scheduler κ → Advance κ → Prop} {a : Advance κ}
    (h : d.Follows log) (hlog : LoggedBy P config d log) (hplain : ¬ a.Reports)
    (hadvances : d.Advances a d') : d'.Follows log := by
  have hstep : d.session.Step a d'.session := hadvances.session
  obtain ⟨-, -, rest, hreturned, rfl⟩ := hadvances
  have hok : ∀ c, a.completion? = some c → c.result = .ok () := by
    intro c hc
    rw [hc] at hreturned
    obtain ⟨before, call, result, after, hsplit, rfl, -⟩ := hreturned
    exact h.succeeded ⟨call, some result⟩ (by simp [hsplit]) result rfl
  have hcalls : (d.after a rest).session.calls =
      d.session.calls ++ (a.apply d.scheduler).issued := by
    simp [Session.calls, Deployment.session, Deployment.after, Scheduler.issued]
  refine ⟨hstep.traced hlog.reachedBy hplain hok h.traced, ?_, h.hosted, ?_, ?_⟩
  · intro assignment hassignment result hresult
    rcases List.mem_append.1 hassignment with hin | hin
    · exact h.succeeded assignment (hreturned.sublist.subset hin) result hresult
    · obtain ⟨call, -, rfl⟩ := List.mem_map.1 hin
      cases hresult
  · rw [hcalls]
    exact fun call hcall => List.mem_append_left _ (h.answered hcall)
  · intro executor job hlast
    rw [hcalls] at hlast
    rcases lastOn_append_cases hlast with ⟨call, hnew, hon, hkind⟩ | hlast
    · exact .inr ⟨{ call }, List.mem_append_right _ (List.mem_map_of_mem hnew), rfl, hkind, hon⟩
    · refine (h.awaited executor job hlast).imp_right ?_
      rintro ⟨assignment, hin, hopen, hkind, hon⟩
      exact ⟨assignment, List.mem_append_left _ (hreturned.mem_of_open hin hopen), hopen, hkind,
        hon⟩

/-- **Registry and executors follow the calls**, each in its own order. -/
theorem LoggedBy.follows (h : LoggedBy (fun _ a => ¬ a.Reports) config d log)
    (works : d.simulation.config.startsFail = false) (serving : d.scheduler.stage = .serving) :
    d.Follows log := by
  induction h with
  | start simulation now =>
    have hnothing : (Deployment.start config simulation now).session.calls = [] := rfl
    refine ⟨.empty, by simp [Deployment.start], fun _ _ => ?_, by simp, ?_⟩
    · simp [Deployment.start, Simulation.jobsOn]
    · simp [hnothing]
  | @answer d log before after call hlog hsplit ih =>
    have hworks : d.simulation.config.startsFail = false := by
      rw [← Simulation.call_config d.simulation call.kind call.run (d.cancels call)]
      exact works
    exact (ih hworks serving).answer hlog hworks serving hsplit
  | @advance d d' log a hlog hplain hadvances ih =>
    have hbefore : d.scheduler.stage = .serving ∧ d.simulation.config.startsFail = false := by
      obtain ⟨-, -, rest, -, rfl⟩ := hadvances
      replace serving : (a.apply d.session.scheduler).stage = .serving := serving
      exact ⟨hlog.reachedBy.serving_of_apply serving, works⟩
    exact (ih hbefore.2 hbefore.1).advance hlog hplain hadvances

end Histories

/-! ### Agreement -/

/-- The run of a job is bound to an executor. -/
def Scheduler.Binds (s : Scheduler κ) (executor job : String) : Prop :=
  ∃ run, s.registry.runs.get? job = some run ∧ run.executor = some executor

/-- The executors host the jobs whose runs are bound to them, and no others. -/
def Deployment.Agrees (d : Deployment κ) : Prop :=
  ∀ executor job, job ∈ d.simulation.jobsOn executor ↔ d.scheduler.Binds executor job

/-- Of the calls for a job on an executor the last one answered is a start, though the last one
issued is a stop. -/
def Overtaken (log issued : List (Call κ)) (executor job : String) : Prop :=
  lastOn log executor job = some .start ∧ lastOn issued executor job = some .stop

section Agreement

variable {config : Config κ} {d : Deployment κ} {log : List (Call κ)} {executor job : String}

/-- A run that is bound is placed when no call is under way. -/
theorem ReachedBy.binds_iff {P : Scheduler κ → Advance κ → Prop} {session : Session κ}
    (h : ReachedBy P config session) (idle : session.underWay = []) :
    session.scheduler.Binds executor job ↔ session.scheduler.registry.Places executor job := by
  constructor
  · rintro ⟨run, hrun, hexec⟩
    exact ⟨run.position, Registry.position?_of_get? hrun, hexec, h.not_stopping idle hrun⟩
  · rintro ⟨p, hp, hon⟩
    obtain ⟨run, hrun, rfl⟩ := Registry.get?_of_position? hp
    exact ⟨run, hrun, hon.1⟩

/-- When no call is out, a job is hosted where its run is bound and where its start has been
overtaken. -/
theorem LoggedBy.mem_jobsOn_iff (h : LoggedBy (fun _ a => ¬ a.Reports) config d log)
    (works : d.simulation.config.startsFail = false) (serving : d.scheduler.stage = .serving)
    (idle : d.assignments = []) : job ∈ d.simulation.jobsOn executor ↔
      d.scheduler.Binds executor job ∨ Overtaken log d.session.calls executor job := by
  have hfollows := h.follows works serving
  have hbinds : d.scheduler.Binds executor job ↔
      lastOn d.session.calls executor job = some .start :=
    (h.reachedBy.binds_iff (by simp [Deployment.session, idle])).trans
      (hfollows.traced.placed executor job)
  rw [hbinds, hfollows.hosted]
  constructor
  · intro hlast
    obtain ⟨call, hlog, -⟩ := Option.map_eq_some_iff.1 hlast
    obtain ⟨hin, hon⟩ := List.mem_filter.1 (List.mem_of_getLast? hlog)
    obtain ⟨kind, hkind⟩ := Option.ne_none_iff_exists'.1
      (lastOn_ne_none (hfollows.answered hin) (by simpa using hon))
    cases kind with
    | start => exact .inl hkind
    | stop => exact .inr ⟨hlast, hkind⟩
  · rintro (hissued | hovertaken)
    · refine (hfollows.awaited executor job hissued).elim id ?_
      rintro ⟨assignment, hin, -⟩
      simp [idle] at hin
    · exact hovertaken.1

/-- What is overtaken is not bound. -/
theorem LoggedBy.not_binds_of_overtaken (h : LoggedBy (fun _ a => ¬ a.Reports) config d log)
    (works : d.simulation.config.startsFail = false) (serving : d.scheduler.stage = .serving)
    (idle : d.assignments = []) (hovertaken : Overtaken log d.session.calls executor job) :
    ¬ d.scheduler.Binds executor job := by
  intro hbinds
  have hplaced := (h.reachedBy.binds_iff (by simp [Deployment.session, idle])).1 hbinds
  have hlast := ((h.follows works serving).traced.placed executor job).1 hplaced
  cases hlast.symm.trans hovertaken.2

/-- **When no call is out, the executors host the jobs whose runs are bound to them**, and those
whose start was overtaken by a later stop.  So registry and executors agree if and only if there are
none of these, in particular when the calls for each job on each executor were answered in the order
of issue. -/
theorem hosting_agrees_iff (h : DeployedBy (fun _ a => ¬ a.Reports) config d)
    (works : d.simulation.config.startsFail = false) (serving : d.scheduler.stage = .serving)
    (idle : d.assignments = []) :
    (∃ log, LoggedBy (fun _ a => ¬ a.Reports) config d log) ∧
      ∀ log, LoggedBy (fun _ a => ¬ a.Reports) config d log →
        (∀ executor job, job ∈ d.simulation.jobsOn executor ↔
          d.scheduler.Binds executor job ∨ Overtaken log d.session.calls executor job) ∧
        (d.Agrees ↔ ∀ executor job, ¬ Overtaken log d.session.calls executor job) ∧
        ((∀ executor job, log.filter (·.IsOn executor job) =
          d.session.calls.filter (·.IsOn executor job)) → d.Agrees) := by
  refine ⟨deployedBy_iff_logged.1 h, fun log hlog => ?_⟩
  have hhosted : ∀ executor job, job ∈ d.simulation.jobsOn executor ↔
      d.scheduler.Binds executor job ∨ Overtaken log d.session.calls executor job :=
    fun _ _ => hlog.mem_jobsOn_iff works serving idle
  have hagrees : d.Agrees ↔ ∀ executor job, ¬ Overtaken log d.session.calls executor job := by
    refine forall_congr' fun executor => forall_congr' fun job => ?_
    rw [hhosted]
    constructor
    · intro hsame hovertaken
      exact hlog.not_binds_of_overtaken works serving idle hovertaken (hsame.1 (.inr hovertaken))
    · exact fun hnone => or_iff_left hnone
  refine ⟨hhosted, hagrees, fun hordered => hagrees.2 fun executor job hovertaken => ?_⟩
  have hsame : lastOn log executor job = lastOn d.session.calls executor job := by
    rw [lastOn, hordered, lastOn]
  cases hovertaken.1.symm.trans (hsame.trans hovertaken.2)

end Agreement

/-! ### A late start -/

/-- A job runs on an executor; another one is started there and removed at once.  Its stop call is
answered before its start call, and then both come back. -/
def lateStartCues : List (Instant × Deployment.Cue ℚ) :=
  [(0, .request (.addExecutor { id := "A", capacity := 10 })),
    (0, .request (.addJob { id := "k", cost := 1 })),
    (0, .answer 0),
    (0, .back 0),
    (0, .request (.addJob { id := "j", cost := 1 })),
    (0, .request (.removeJob "j")),
    (0, .answer 1),
    (0, .answer 0),
    (0, .back 1),
    (0, .back 0)]

def lateStart : Deployment ℚ :=
  ((Deployment.start startConfirms {} 0).play lateStartCues).get (by decide +kernel)

theorem lateStart_deployedBy : DeployedBy (fun _ a => ¬ a.Reports) startConfirms lateStart := by
  refine ⟨by decide +kernel, rfl, {}, 0, Deployment.play_leadsBy ?_ (Option.some_get _).symm⟩
  have hplain : ∀ cue ∈ lateStartCues, ¬ cue.2.command?.any Command.isReport = true := by
    simp [lateStartCues, Deployment.Cue.command?, Command.isReport]
  intro cue hcue s a ha
  rw [Advance.Reports, ha]
  exact hplain cue hcue

/-- The job that runs is hosted, and the start of the other one has been overtaken. -/
theorem hosting_agrees_iff_lateStart :
    "k" ∈ lateStart.simulation.jobsOn "A" ∧
      ∃ log, LoggedBy (fun _ a => ¬ a.Reports) startConfirms lateStart log ∧
        Overtaken log lateStart.session.calls "A" "j" := by
  obtain ⟨⟨log, hlog⟩, hlogged⟩ := hosting_agrees_iff lateStart_deployedBy
    (by decide +kernel) (by decide +kernel) (List.isEmpty_iff.1 (by decide +kernel))
  have hhosted := (hlogged log hlog).1
  have hbound : (lateStart.scheduler.registry.runs.get? "k").map (·.executor) =
      some (some "A") := by decide +kernel
  refine ⟨(hhosted "A" "k").2 (.inl (Option.map_eq_some_iff.1 hbound)), log, hlog, ?_⟩
  refine ((hhosted "A" "j").1 (by decide +kernel)).resolve_left ?_
  rintro ⟨run, hrun, -⟩
  have hnone : (lateStart.scheduler.registry.runs.get? "j").isNone = true := by decide +kernel
  simp [hrun] at hnone

/-- No call is out, and the executor hosts a job that has been removed. -/
theorem hosting_agrees_fails :
    DeployedBy (fun _ a => ¬ a.Reports) startConfirms lateStart ∧
      lateStart.simulation.config.startsFail = false ∧ lateStart.scheduler.stage = .serving ∧
      lateStart.assignments = [] ∧ "j" ∈ lateStart.simulation.jobsOn "A" ∧
      lateStart.scheduler.registry.runs.get? "j" = none ∧ ¬ lateStart.Agrees := by
  have hhosted : "j" ∈ lateStart.simulation.jobsOn "A" := by decide +kernel
  have hnone : lateStart.scheduler.registry.runs.get? "j" = none :=
    Option.isNone_iff_eq_none.1 (by decide +kernel)
  refine ⟨lateStart_deployedBy, by decide +kernel, by decide +kernel,
    List.isEmpty_iff.1 (by decide +kernel), hhosted, hnone, fun hagrees => ?_⟩
  obtain ⟨run, hrun, -⟩ := (hagrees "A" "j").1 hhosted
  cases hnone.symm.trans hrun

end Dispatch
