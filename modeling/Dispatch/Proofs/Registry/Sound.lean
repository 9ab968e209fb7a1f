import Dispatch.Proofs.Registry.Operations

/-!
# Sound registries

`Run.Shaped` lists the four shapes of a run, and `Registry.Sound` says that the tables of a
registry belong together: jobs and runs have the same ids, each under its own key, every run has one
of the four shapes, runs are listed by ordinal, executors have ids of their own, and all costs and
capacities are valid.  Each operation on runs and on the registry keeps this.
-/

namespace Dispatch

variable {κ : Type}

/-- The shapes that a run can have. -/
inductive Run.Shaped (run : Run κ) : Prop
  | pending (executor : run.executor = none) (revision : run.executorRevision = none)
      (started : run.startedAt = none) (ran : run.ranAt = none) (stopping : run.stopping = false)
      (removing : run.removing = false)
  | starting (executor : run.executor.isSome = true) (revision : run.executorRevision.isSome = true)
      (started : run.startedAt.isSome = true) (ran : run.ranAt = none)
      (stopped : run.stoppedAt = none) (stopping : run.stopping = false)
      (removing : run.removing = false)
  | running (executor : run.executor.isSome = true) (revision : run.executorRevision.isSome = true)
      (started : run.startedAt.isSome = true) (ran : run.ranAt.isSome = true)
      (stopped : run.stoppedAt = none) (stopping : run.stopping = false)
      (removing : run.removing = false)
  | stopping (executor : run.executor.isSome = true) (revision : run.executorRevision = none)
      (started : run.startedAt = none) (ran : run.ranAt = none)
      (stopped : run.stoppedAt.isSome = true) (stopping : run.stopping = true)

namespace Run.Shaped

variable {run : Run κ}

theorem fresh (job : Job κ) (ordinal : Nat) : Shaped { job, ordinal } :=
  .pending rfl rfl rfl rfl rfl rfl

theorem redefine (h : run.Shaped) (job : Job κ) : Shaped { run with job } := by
  cases h with
  | pending he hv hs hr hst hrm => exact .pending he hv hs hr hst hrm
  | starting he hv hs hr hsp hst hrm => exact .starting he hv hs hr hsp hst hrm
  | running he hv hs hr hsp hst hrm => exact .running he hv hs hr hsp hst hrm
  | stopping he hv hs hr hsp hst => exact .stopping he hv hs hr hsp hst

theorem start (h : run.stopping = false) (job : Job κ) (e : Executor κ) (now : Instant) :
    (run.start job e now).Shaped := .starting rfl rfl rfl rfl rfl h rfl

theorem confirm (h : run.Shaped) (hst : run.stopping = false) (hs : run.isStarting = true)
    (now : Instant) : (run.confirm now).Shaped := by
  obtain ⟨hstarted, hran⟩ := isStarting_iff.1 hs
  cases h with
  | starting he hv hs' _ hsp hst hrm => exact .running he hv hs' rfl hsp hst hrm
  | pending _ _ hn => simp [hn] at hstarted
  | running _ _ _ hr => simp [hran] at hr
  | stopping _ _ _ _ _ h => simp [hst] at h

theorem stop (he : run.executor.isSome = true) (remove : Bool) (now : Instant) :
    (run.stop remove now).Shaped := .stopping he rfl rfl rfl rfl rfl

theorem mark (h : run.Shaped) (hst : run.stopping = true) :
    Shaped { run with removing := true } := by
  cases h with
  | stopping he hv hs hr hsp h => exact .stopping he hv hs hr hsp h
  | pending _ _ _ _ h => simp [hst] at h
  | starting _ _ _ _ _ h => simp [hst] at h
  | running _ _ _ _ _ h => simp [hst] at h

/-- A run that is not being stopped is not being removed either. -/
theorem removing_eq_false (h : run.Shaped) (hst : run.stopping = false) :
    run.removing = false := by
  cases h with
  | pending _ _ _ _ _ h => exact h
  | starting _ _ _ _ _ _ h => exact h
  | running _ _ _ _ _ _ h => exact h
  | stopping _ _ _ _ _ h => simp [hst] at h

theorem release (h : run.Shaped) (hst : run.stopping = false) (now : Instant) :
    (run.release now).Shaped := .pending rfl rfl rfl rfl hst (h.removing_eq_false hst)

theorem count (h : run.Shaped) (attempt : Nat) : Shaped { run with attempt } := by
  cases h with
  | pending he hv hs hr hst hrm => exact .pending he hv hs hr hst hrm
  | starting he hv hs hr hsp hst hrm => exact .starting he hv hs hr hsp hst hrm
  | running he hv hs hr hsp hst hrm => exact .running he hv hs hr hsp hst hrm
  | stopping he hv hs hr hsp hst => exact .stopping he hv hs hr hsp hst

theorem settle (h : run.Shaped) (hst : run.stopping = true) (hrm : run.removing = false)
    (job : Job κ) : (run.settle job).Shaped := by
  cases h with
  | stopping _ hv hs hr _ _ => exact .pending rfl hv hs hr rfl hrm
  | pending _ _ _ _ h => simp [hst] at h
  | starting _ _ _ _ _ h => simp [hst] at h
  | running _ _ _ _ _ h => simp [hst] at h

theorem adopt (h : run.Shaped) (hst : run.stopping = false) (executor : String)
    (revision : UInt64) (now : Instant) : ((run.bind executor revision).adopt now).Shaped :=
  .running rfl rfl rfl rfl rfl hst (h.removing_eq_false hst)

/-- A started run is bound and not being stopped. -/
theorem of_started (h : run.Shaped) (hs : run.startedAt.isSome = true) :
    run.executor.isSome = true ∧ run.executorRevision.isSome = true ∧ run.stopping = false := by
  cases h with
  | starting he hv _ _ _ h => exact ⟨he, hv, h⟩
  | running he hv _ _ _ h => exact ⟨he, hv, h⟩
  | pending _ _ hn => simp [hn] at hs
  | stopping _ _ hn => simp [hn] at hs

theorem unstarted_of_pending (h : run.Shaped) (hp : run.isPending = true) :
    run.startedAt = none := by
  obtain ⟨hexec, -⟩ := isPending_iff.1 hp
  cases h with
  | pending _ _ hs => exact hs
  | starting he => simp [hexec] at he
  | running he => simp [hexec] at he
  | stopping _ _ hs => exact hs

theorem unstarted_of_stopping (h : run.Shaped) (hst : run.stopping = true) :
    run.startedAt = none := by
  cases h with
  | stopping _ _ hs => exact hs
  | pending _ _ hs => exact hs
  | starting _ _ _ _ _ h => simp [hst] at h
  | running _ _ _ _ _ h => simp [hst] at h

theorem unran_of_stopping (h : run.Shaped) (hst : run.stopping = true) : run.ranAt = none := by
  cases h with
  | stopping _ _ _ hr => exact hr
  | pending _ _ _ hr => exact hr
  | starting _ _ _ hr => exact hr
  | running _ _ _ _ _ h => simp [hst] at h

theorem started_of_ran (h : run.Shaped) (hr : run.ranAt.isSome = true) :
    run.startedAt.isSome = true := by
  cases h with
  | running _ _ hs => exact hs
  | pending _ _ _ hn => simp [hn] at hr
  | starting _ _ hs => exact hs
  | stopping _ _ _ hn => simp [hn] at hr

end Run.Shaped

namespace Registry

variable [Quantity κ]

/-- The tables of a registry belong together. -/
structure Sound (r : Registry κ) : Prop where
  ids : r.jobs.ids = r.runs.ids
  job_key : ∀ {id : String} {job : Job κ}, r.jobs.get? id = some job → job.id = id
  job_cost : ∀ {id : String} {job : Job κ}, r.jobs.get? id = some job →
    Quantity.isValid job.cost = true
  run_key : ∀ {id : String} {run : Run κ}, r.runs.get? id = some run → run.job.id = id
  run_cost : ∀ {id : String} {run : Run κ}, r.runs.get? id = some run →
    Quantity.isValid run.job.cost = true
  shaped : ∀ {id : String} {run : Run κ}, r.runs.get? id = some run → run.Shaped
  ordinal_lt : ∀ {id : String} {run : Run κ}, r.runs.get? id = some run →
    run.ordinal < r.nextOrdinal
  ordinals : (r.allRuns.map (·.ordinal)).Pairwise (· < ·)
  executors : (r.executors.map (·.id)).Nodup
  capacity : ∀ e ∈ r.executors, Quantity.isValid e.capacity = true

namespace Sound

variable {r r' : Registry κ} {id : String} {run : Run κ}

theorem empty : (∅ : Registry κ).Sound where
  ids := rfl
  job_key h := by cases h
  job_cost h := by cases h
  run_key h := by cases h
  run_cost h := by cases h
  shaped h := by cases h
  ordinal_lt h := by cases h
  ordinals := .nil
  executors := .nil
  capacity _ h := by cases h

/-- A job is known exactly when its run is. -/
theorem job_of_run (h : r.Sound) (hr : r.runs.get? id = some run) :
    ∃ job, r.jobs.get? id = some job := by
  refine Option.isSome_iff_exists.1 (Table.get?_isSome_iff.2 ?_)
  rw [h.ids]
  exact Table.get?_isSome_iff.1 (by simp [hr])

theorem run_of_job (h : r.Sound) {job : Job κ} (hj : r.jobs.get? id = some job) :
    ∃ run, r.runs.get? id = some run := by
  refine Option.isSome_iff_exists.1 (Table.get?_isSome_iff.2 ?_)
  rw [← h.ids]
  exact Table.get?_isSome_iff.1 (by simp [hj])

/-- A job that is not known has no run. -/
theorem get?_runs_eq_none (h : r.Sound) (hnew : r.jobs.get? id = none) :
    r.runs.get? id = none := by
  rw [Table.get?_eq_none_iff, ← h.ids, ← Table.get?_eq_none_iff]
  exact hnew

/-- A run among all runs is found under the id of its job. -/
theorem get?_of_mem (h : r.Sound) (hrun : run ∈ r.allRuns) :
    r.runs.get? run.job.id = some run := by
  obtain ⟨id, hr⟩ := Table.mem_values_iff.1 hrun
  rw [h.run_key hr]
  exact hr

/-- No two ids have runs of the same ordinal. -/
theorem ordinal_inj (h : r.Sound) {id' : String} {run' : Run κ}
    (hrun : r.runs.get? id = some run) (hrun' : r.runs.get? id' = some run')
    (heq : run.ordinal = run'.ordinal) : id = id' := by
  have hpairs := List.pairwise_map.1 h.ordinals
  have hone := List.Pairwise.forall_of_forall_of_flip
    (R := fun a b : Run κ => a.ordinal = b.ordinal → a = b) (fun _ _ _ => rfl)
    (hpairs.imp fun hlt heq => absurd heq (Nat.ne_of_lt hlt))
    (hpairs.imp fun hlt heq => absurd heq.symm (Nat.ne_of_lt hlt))
  have hsame := hone (Table.mem_values hrun) (Table.mem_values hrun') heq
  rw [← h.run_key hrun, ← h.run_key hrun', hsame]

theorem modifyRun (h : r.Sound) (hr : r.runs.get? id = some run) {f : Run κ → Run κ}
    (hkey : (f run).job.id = id) (hcost : Quantity.isValid (f run).job.cost = true)
    (hshape : (f run).Shaped) (hord : (f run).ordinal = run.ordinal) :
    (r.modifyRun id f).Sound := by
  have hget : ∀ {id' : String} {run' : Run κ}, (r.modifyRun id f).runs.get? id' = some run' →
      (id' = id ∧ run' = f run) ∨ r.runs.get? id' = some run' := by
    intro id' run' h'
    rw [Registry.modifyRun, Table.get?_modify] at h'
    by_cases hid : id' = id
    · subst hid
      simp only [if_pos, hr, Option.map_some, Option.some.injEq] at h'
      exact .inl ⟨rfl, h'.symm⟩
    · rw [if_neg hid] at h'
      exact .inr h'
  refine ⟨?_, h.job_key, h.job_cost, fun h' => ?_, fun h' => ?_, fun h' => ?_, fun h' => ?_, ?_,
    h.executors, h.capacity⟩
  · simpa [Registry.modifyRun] using h.ids
  · rcases hget h' with ⟨rfl, rfl⟩ | h'
    · exact hkey
    · exact h.run_key h'
  · rcases hget h' with ⟨rfl, rfl⟩ | h'
    · exact hcost
    · exact h.run_cost h'
  · rcases hget h' with ⟨rfl, rfl⟩ | h'
    · exact hshape
    · exact h.shaped h'
  · rcases hget h' with ⟨rfl, rfl⟩ | h'
    · rw [hord]; exact h.ordinal_lt hr
    · exact h.ordinal_lt h'
  · obtain ⟨before, after, hsplit, hmod, -⟩ := Table.exists_split hr
    have ho := h.ordinals
    simp only [allRuns, hsplit] at ho
    simpa [allRuns, Registry.modifyRun, hmod, hord] using ho

/-- A run may be replaced by one of the same job and ordinal. -/
theorem moveRun (h : r.Sound) (hr : r.runs.get? id = some run) {run' : Run κ}
    (hjob : run'.job = run.job) (hshape : run'.Shaped) (hord : run'.ordinal = run.ordinal) :
    (r.modifyRun id fun _ => run').Sound := by
  refine h.modifyRun hr ?_ ?_ hshape hord
  · rw [hjob]; exact h.run_key hr
  · rw [hjob]; exact h.run_cost hr

theorem removeRun (h : r.Sound) (hr : r.runs.get? id = some run) : (r.removeRun id).Sound := by
  have hget : ∀ {α : Type} {t : Table α} {id' : String} {v : α},
      (t.erase id).get? id' = some v → t.get? id' = some v := by
    intro α t id' v h'
    rw [Table.get?_erase] at h'
    split at h'
    · cases h'
    · exact h'
  refine ⟨?_, fun h' => h.job_key (hget h'), fun h' => h.job_cost (hget h'),
    fun h' => h.run_key (hget h'), fun h' => h.run_cost (hget h'), fun h' => h.shaped (hget h'),
    fun h' => h.ordinal_lt (hget h'), ?_, h.executors, h.capacity⟩
  · simp only [Registry.removeRun, Table.ids_erase, h.ids]
  · obtain ⟨before, after, hsplit, -, herase⟩ := Table.exists_split hr
    have ho := h.ordinals
    simp only [allRuns, hsplit] at ho
    simp only [allRuns, Registry.removeRun, herase]
    exact ho.sublist (((List.sublist_cons_self run after).append_left before).map _)

theorem addJob (h : r.Sound) {job : Job κ} (hadd : r.addJob job = .ok r') : r'.Sound := by
  obtain ⟨hcost, hnew, rfl⟩ := of_addJob hadd
  have hnew' := h.get?_runs_eq_none hnew
  -- whatever is found afterwards was there before or is new
  have hget : ∀ {α : Type} {t : Table α} {id' : String} {v w : α}, t.get? job.id = none →
      (t.addNew job.id v).get? id' = some w → t.get? id' = some w ∨ id' = job.id ∧ w = v := by
    intro α t id' v w hnone h'
    rw [Table.get?_addNew] at h'
    by_cases hid : id' = job.id
    · subst hid
      simp only [hnone, if_pos, Option.none_or, Option.some.injEq] at h'
      exact .inr ⟨rfl, h'.symm⟩
    · simp only [if_neg hid, Option.or_none] at h'
      exact .inl h'
  refine ⟨?_, fun h' => ?_, fun h' => ?_, fun h' => ?_, fun h' => ?_, fun h' => ?_,
    fun h' => ?_, ?_, h.executors, h.capacity⟩
  · simp only [Table.ids_addNew, h.ids]
  · rcases hget hnew h' with h' | ⟨rfl, rfl⟩
    · exact h.job_key h'
    · rfl
  · rcases hget hnew h' with h' | ⟨-, rfl⟩
    · exact h.job_cost h'
    · exact hcost
  · rcases hget hnew' h' with h' | ⟨rfl, rfl⟩
    · exact h.run_key h'
    · rfl
  · rcases hget hnew' h' with h' | ⟨-, rfl⟩
    · exact h.run_cost h'
    · exact hcost
  · rcases hget hnew' h' with h' | ⟨-, rfl⟩
    · exact h.shaped h'
    · exact .fresh job r.nextOrdinal
  · rcases hget hnew' h' with h' | ⟨-, rfl⟩
    · exact Nat.lt_succ_of_lt (h.ordinal_lt h')
    · exact Nat.lt_succ_self r.nextOrdinal
  · simp only [allRuns, Table.values_addNew hnew', List.map_append, List.pairwise_append]
    refine ⟨h.ordinals, by simp, ?_⟩
    simp only [List.mem_map, Table.mem_values_iff]
    rintro _ ⟨run, ⟨id', hrun⟩, rfl⟩ b hb
    obtain rfl : r.nextOrdinal = b := by simpa using hb
    exact h.ordinal_lt hrun

theorem changeJob (h : r.Sound) {job : Job κ} (hchange : r.changeJob job = .ok r') :
    r'.Sound := by
  obtain ⟨old, hcost, hold, rfl⟩ := of_changeJob hchange
  obtain ⟨run, hrun⟩ := h.run_of_job hold
  have hsound : (r.modifyRun job.id fun run =>
      if run.isPending then { run with job := { job with revision := old.revision + 1 } }
      else run).Sound := by
    refine h.modifyRun hrun ?_ ?_ ?_ ?_
    · split
      · rfl
      · exact h.run_key hrun
    · split
      · exact hcost
      · exact h.run_cost hrun
    · split
      · exact (h.shaped hrun).redefine _
      · exact h.shaped hrun
    · split <;> rfl
  refine { hsound with ids := ?_, job_key := fun h' => ?_, job_cost := fun h' => ?_ }
  · simpa [Registry.modifyRun] using h.ids
  · rw [Table.get?_modify] at h'
    split at h'
    · rename_i hid
      obtain ⟨_, -, rfl⟩ := Option.map_eq_some_iff.1 h'
      exact hid.symm
    · exact h.job_key h'
  · rw [Table.get?_modify] at h'
    split at h'
    · obtain ⟨_, -, rfl⟩ := Option.map_eq_some_iff.1 h'
      exact hcost
    · exact h.job_cost h'

theorem addExecutor (h : r.Sound) {e : Executor κ} {now : Instant}
    (hadd : r.addExecutor e now = .ok r') : r'.Sound := by
  obtain ⟨hcap, hnew, rfl⟩ := of_addExecutor hadd
  refine { h with executors := ?_, capacity := fun e' he' => ?_ }
  · rw [List.map_append, List.nodup_append]
    refine ⟨h.executors, by simp, ?_⟩
    simp only [List.mem_map]
    rintro _ ⟨e', he', rfl⟩ b hb
    obtain rfl : e.id = b := by simpa using hb
    exact hnew e' he'
  · rcases List.mem_append.1 he' with he' | he'
    · exact h.capacity e' he'
    · obtain rfl := List.mem_singleton.1 he'
      exact hcap

theorem removeExecutor (h : r.Sound) (hremove : r.removeExecutor id = .ok r') : r'.Sound := by
  obtain rfl := of_removeExecutor hremove
  exact { h with
    executors := h.executors.sublist (List.filter_sublist.map _)
    capacity := fun e he => h.capacity e (List.mem_filter.1 he).1 }

theorem modifyExecutor (h : r.Sound) {f : Executor κ → Executor κ} (hid : ∀ e, (f e).id = e.id)
    (hcap : ∀ e ∈ r.executors, Quantity.isValid (f e).capacity = true) :
    (r.modifyExecutor id f).Sound := by
  refine { h with executors := ?_, capacity := fun e' he' => ?_ }
  · simp only [Registry.modifyExecutor, List.map_map]
    have hsame : ((·.id) ∘ fun e => if e.id = id then f e else e) = fun e : Executor κ => e.id := by
      funext e
      simp only [Function.comp]
      split
      · exact hid e
      · rfl
    rw [hsame]
    exact h.executors
  · obtain ⟨e, he, rfl⟩ := List.mem_map.1 he'
    split
    · exact hcap e he
    · exact h.capacity e he

theorem keepAlive (h : r.Sound) {now : Instant} (hkeep : r.keepAlive id now = .ok r') :
    r'.Sound := by
  obtain rfl := of_keepAlive hkeep
  exact h.modifyExecutor (fun _ => rfl) h.capacity

theorem changeExecutor (h : r.Sound) {e : Executor κ} {revised : Bool}
    (hchange : r.changeExecutor e = .ok (r', revised)) : r'.Sound := by
  obtain ⟨old, hcap, -, -, rfl⟩ := of_changeExecutor hchange
  exact h.modifyExecutor (fun _ => rfl) fun _ _ => hcap

end Sound

end Registry

end Dispatch
