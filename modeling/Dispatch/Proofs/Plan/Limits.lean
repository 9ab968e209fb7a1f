import Dispatch.Proofs.Plan.Decision
import Dispatch.Proofs.Registry.Counting
import Dispatch.Registry.Violation

/-!
# The limits of a registry with nothing planned

The verdict on a registry covers the shape of its runs, the load of each executor, the runs that are
starting on it and the job cap.  When nothing is planned, all of it but the load holds of itself:

* `Registry.Sound.runViolation?_eq_none` : each run has one of the four shapes, and if it stays
  where it is then its executor is there;
* `Registry.Sound.capViolation?_eq_none` : nothing has to stop for the job cap;
* `Registry.Sound.verify_iff` : **the verdict is favourable exactly when no executor holds more than
  its capacity**, given the limit on starts.

`place_mayStart`, `place_room` and `admits_room` say what placement checks before a run is put on an
executor, and `plan_start_registered` what a planned start is about.
-/

namespace Dispatch

section Verdict

variable {κ : Type} [Quantity κ] {r : Registry κ} {config : Config κ} {now : Instant} {id : String}
  {run : Run κ}

namespace Registry

theorem verify_eq_ok_iff : r.verify config = .ok () ↔ r.violation? config = none := by
  unfold verify
  split
  · rename_i h
    simp [h]
  · rename_i v h
    simp [h]

/-- What the verdict asks. -/
theorem violation?_eq_none_iff :
    r.violation? config = none ↔ r.jobs.size = r.runs.size ∧
      (∀ key run, r.runs.get? key = some run → r.runViolation? key run = none) ∧
      (∀ e ∈ r.executors, r.executorViolation? config e = none) ∧
      r.capViolation? config = none := by
  unfold violation?
  by_cases hsize : r.jobs.size = r.runs.size
  · rw [if_neg (not_not.2 hsize), Option.or_eq_none_iff, Option.or_eq_none_iff,
      List.findSome?_eq_none_iff, List.findSome?_eq_none_iff]
    simp only [hsize, true_and, Prod.forall, Table.mem_entries_iff]
  · simp [hsize]

theorem executorViolation?_eq_none_iff {e : Executor κ} :
    r.executorViolation? config e = none ↔ ¬ e.capacity + Quantity.tolerance < r.load e ∧
      r.startsOn e.id ≤ config.simultaneousStarts := by
  have hviolation : r.executorViolation? config e =
      if e.capacity + Quantity.tolerance < r.load e then
        some (.overCapacity e.id (r.load e) e.capacity)
      else if config.simultaneousStarts < r.startsOn e.id then
        some (.tooManyStarting e.id (r.startsOn e.id) config.simultaneousStarts)
      else none := rfl
  rw [hviolation]
  split
  · rename_i h
    simp [h]
  · rename_i h
    split
    · rename_i hstarts
      simp [Nat.not_le.2 hstarts]
    · rename_i hstarts
      simp [h, Nat.not_lt.1 hstarts]

namespace Sound

/-- A run has a proper shape; all that is left to ask is that its executor is there. -/
theorem runViolation?_eq_none (h : r.Sound) (hrun : r.runs.get? id = some run)
    (hexec : ∀ executor, run.executor = some executor → run.stopping = false →
      (r.executor? executor).isSome = true) : r.runViolation? id run = none := by
  have hshape := h.shaped hrun
  have hjob : r.jobs.contains id = true := by
    obtain ⟨job, hjob⟩ := h.job_of_run hrun
    simp [Table.contains, hjob]
  have hran : (run.ranAt.isSome && run.startedAt.isNone) = false := by
    cases hr : run.ranAt.isSome with
    | false => rfl
    | true => simpa using hshape.started_of_ran hr
  have hstarted : (run.startedAt.isSome && run.executor.isNone) = false := by
    cases hs : run.startedAt.isSome with
    | false => rfl
    | true => simpa using (hshape.of_started hs).1
  have hremoving : (run.removing && !run.stopping) = false := by
    cases hst : run.stopping with
    | true => simp
    | false => simp [hshape.removing_eq_false hst]
  unfold runViolation?
  rw [if_neg (by simp [h.run_key hrun]), if_neg (by simp [hjob]), if_neg (by simp [hran]),
    if_neg (by simp [hstarted]), if_neg (by simp [hremoving])]
  cases he : run.executor with
  | none => rfl
  | some executor =>
    cases hst : run.stopping with
    | true => rfl
    | false => simpa [Option.isSome_iff_ne_none] using hexec executor he hst

/-- A run is surplus exactly when more are started than the job cap allows. -/
theorem overCap?_eq_none_iff (h : r.Sound) :
    overCap? r.allRuns r.startedCount config = none ↔
      config.maxJobs = 0 ∨ r.startedCount ≤ config.maxJobs := by
  unfold overCap?
  split
  · rename_i hwithin
    simpa using hwithin
  · rename_i hover
    simp only [Bool.or_eq_true, decide_eq_true_eq] at hover
    simp only [hover, iff_false]
    -- more than `maxJobs` runs are started, so there is one that could be stopped
    have hmany : 0 < r.startedCount := by omega
    obtain ⟨run, hrun, hs⟩ := List.countP_pos_iff.1 hmany
    have hst := ((h.shaped (h.get?_of_mem hrun)).of_started hs).2.2
    have hmem : run ∈ r.allRuns.filter fun r => !r.stopping && r.startedAt.isSome :=
      List.mem_filter.2 ⟨hrun, by simp [hst, hs]⟩
    cases hline : r.allRuns.filter fun r => !r.stopping && r.startedAt.isSome with
    | nil => simp [hline] at hmem
    | cons first line => simp [pick]

theorem capViolation?_eq_none (h : r.Sound)
    (hcap : overCap? r.allRuns r.startedCount config = none) : r.capViolation? config = none := by
  have hwithin := h.overCap?_eq_none_iff.1 hcap
  unfold capViolation?
  rw [if_neg]
  simp only [Bool.and_eq_true, decide_eq_true_eq]
  omega

end Sound

end Registry

/-- A run that need not stop is placed under the present definition of its executor. -/
theorem Run.of_mustStop?_eq_none {snapshot : Snapshot κ} {unrun : κ} {executor : String}
    (h : run.mustStop? r snapshot config unrun now = none) (hexec : run.executor = some executor)
    (hst : run.stopping = false) :
    ∃ e, r.executor? executor = some e ∧ run.executorRevision = some e.revision := by
  unfold mustStop? at h
  simp only [hexec, hst, Bool.false_eq_true, if_false] at h
  split at h
  · cases h
  · rename_i e he
    refine ⟨e, he, ?_⟩
    split at h
    · cases h
    · rename_i hrev
      exact not_not.1 hrev

/-- and carries the revision that is registered for its job. -/
theorem Run.revision_of_mustStop?_eq_none {snapshot : Snapshot κ} {unrun : κ} {executor : String}
    (h : run.mustStop? r snapshot config unrun now = none) (hexec : run.executor = some executor)
    (hst : run.stopping = false) :
    (r.jobs.get? run.job.id).map (·.revision) = some run.job.revision := by
  unfold mustStop? at h
  simp only [hexec, hst, Bool.false_eq_true, if_false] at h
  split at h
  · cases h
  split at h
  · cases h
  split at h
  · cases h
  split at h
  · cases h
  rename_i hrevision
  exact not_not.1 hrevision

end Verdict

namespace Registry.Sound

variable {κ : Type} [Quantity κ] {r : Registry κ} {e : Executor κ}

/-- When nothing has to stop, all that an executor carries was placed under its present
definition. -/
theorem heldLoad_eq (h : r.Sound) {config : Config κ} {now : Instant}
    (hstop : plannedStop? r config now = none) (he : e ∈ r.executors) :
    r.heldLoad e = r.load e := by
  refine heldLoad_eq_load fun run hrun => ?_
  obtain ⟨hall, hst, hexec, -⟩ := mem_carriedBy.1 hrun
  obtain ⟨e', he', hrev⟩ :=
    Run.of_mustStop?_eq_none ((plannedStop?_eq_none_iff.1 hstop).1 run hall) hexec hst
  rw [h.executor?_eq he] at he'
  obtain rfl := Option.some.inj he'
  exact hrev

end Registry.Sound

/-! ### What placement checks -/

section Places

variable {κ : Type} [Quantity κ] {r : Registry κ} {config : Config κ} {now : Instant}

section Holding

variable {e : Executor κ} {runs : List (Run κ)}

/-- As many runs count as starting as are starting, when all that are counted are started. -/
theorem startingCount_holding (h : ∀ run ∈ runs, run.startedAt.isSome = true) :
    (Capacity.holding e runs).startingCount = runs.countP (·.isStarting) := by
  simp only [Capacity.holding, ← List.countP_eq_length_filter]
  refine List.countP_congr fun run hrun => ?_
  simp [Run.isStarting, Run.isRunning, h run hrun]

/-- The last start is not before the start of any run that is starting. -/
theorem le_lastStart {run : Run κ} {t : Instant} (hrun : run ∈ runs) (hran : run.ranAt = none)
    (hstarted : run.startedAt = some t) :
    ∃ last, (Capacity.holding e runs).lastStart = some last ∧ t ≤ last := by
  have hmem : t ∈ (runs.filter (!·.isRunning)).filterMap (·.startedAt) :=
    List.mem_filterMap.2 ⟨run, List.mem_filter.2 ⟨hrun, by simp [Run.isRunning, hran]⟩, hstarted⟩
  obtain ⟨last, hlast⟩ := Option.isSome_iff_exists.1 (List.isSome_max?_of_mem hmem)
  exact ⟨last, hlast, (List.max?_eq_some_iff.1 hlast).2 t hmem⟩

/-- One more run may be started exactly while fewer than allowed are starting, and long enough after
each of them when more than one may be. -/
theorem mayStart_holding (h : ∀ run ∈ runs, run.startedAt.isSome = true) :
    (Capacity.holding e runs).mayStart config now = true ↔
      runs.countP (·.isStarting) < config.simultaneousStarts ∧ (config.simultaneousStarts ≤ 1 ∨
        ∀ run ∈ runs, run.ranAt = none → ∀ t, run.startedAt = some t →
          config.startGap ≤ now.since t) := by
  simp only [Capacity.mayStart, Bool.and_eq_true, Bool.or_eq_true, decide_eq_true_eq,
    startingCount_holding h]
  refine and_congr_right fun _ => or_congr_right ?_
  constructor
  · intro hgap run hrun hran t hstarted
    obtain ⟨last, hlast, hle⟩ := le_lastStart (e := e) hrun hran hstarted
    simp only [hlast, decide_eq_true_eq] at hgap
    exact hgap.trans (Int.toNat_le_toNat (Int.sub_le_sub_left hle now))
  · intro hgap
    -- the last start is that of one of the runs
    cases hlast : (Capacity.holding e runs).lastStart with
    | none => rfl
    | some last =>
      have hmem := (List.max?_eq_some_iff.1 hlast).1
      obtain ⟨run, hrun, hstarted⟩ := List.mem_filterMap.1 hmem
      obtain ⟨hcounted, hran⟩ := List.mem_filter.1 hrun
      exact decide_eq_true (hgap run hcounted (by simpa [Run.isRunning] using hran) last hstarted)

end Holding

/-- When one more run may be started on an executor. -/
theorem mayStart_iff {e : Executor κ} :
    (Capacity.ofExecutor r e).mayStart config now = true ↔
      r.startsOn e.id < config.simultaneousStarts ∧ (config.simultaneousStarts ≤ 1 ∨
        ∀ run ∈ r.carriedBy e.id, run.ranAt = none → ∀ t, run.startedAt = some t →
          config.startGap ≤ now.since t) :=
  mayStart_holding fun _ hrun => (Registry.mem_carriedBy.1 hrun).2.2.2

/-- A place is chosen only while the job cap is not reached, on an executor that may start one more
run now. -/
theorem place_mayStart {cost : κ} {executor : String} (hids : (r.executors.map (·.id)).Nodup)
    (h : place (Snapshot.ofRegistry r now config.aliveWindow) config r.startedCount now cost =
      .on executor) :
    config.capReached r.startedCount = false ∧ ∃ e ∈ r.executors, e.id = executor ∧
      (Capacity.ofExecutor r e).exceededBy cost = false ∧
      (Capacity.ofExecutor r e).mayStart config now = true := by
  obtain ⟨hcap, c, hc, hid, hroom, hstart⟩ := place_eq_on h
  obtain ⟨e, he, -, -, rfl⟩ := (Snapshot.mem_ofRegistry hids).1 hc
  exact ⟨hcap, e, he, hid, hroom, hstart⟩

/-- A planned start is for a registered pending run, on a registered executor. -/
theorem plan_start_registered {job executor : String} (h : r.Sound)
    (hplan : (plan r config now).action = some (.start job executor)) :
    ∃ run definition target, r.runs.get? job = some run ∧ run.isPending = true ∧
      r.jobs.get? job = some definition ∧ r.executor? executor = some target := by
  obtain ⟨-, before, run, after, hline, rfl, -, -⟩ := plan_start hplan
  have hwaits : run ∈ waitingLine r.allRuns := by simp [hline]
  have hrun := h.get?_of_mem (mem_waitingLine.1 hwaits).1
  obtain ⟨hpending, -, hon⟩ := plan_start_pending h hrun hplan
  obtain ⟨definition, hdef⟩ := h.job_of_run hrun
  obtain ⟨-, target, htarget, rfl, -⟩ := place_mayStart h.executors hon
  exact ⟨run, definition, target, hrun, hpending, hdef, h.executor?_eq htarget⟩

end Places

variable {r : Registry ℚ} {config : Config ℚ} {now : Instant}

/-- **With nothing planned, the verdict is favourable exactly when no executor is defined with less
capacity than it holds.** -/
theorem Registry.Sound.verify_iff (h : r.Sound)
    (hstarts : ∀ executor, r.startsOn executor ≤ config.simultaneousStarts)
    (hidle : (plan r config now).action = none) : r.verify config = .ok () ↔ r.Fits := by
  have hstop := (plan_idle.1 hidle).1
  obtain ⟨hstay, hcap, -⟩ := plannedStop?_eq_none_iff.1 hstop
  have hsize : r.jobs.size = r.runs.size := by rw [Table.size_eq, Table.size_eq, h.ids]
  have hruns : ∀ key run, r.runs.get? key = some run → r.runViolation? key run = none := by
    intro key run hrun
    refine h.runViolation?_eq_none hrun fun executor hexec hst => ?_
    obtain ⟨e, he, -⟩ :=
      Run.of_mustStop?_eq_none (hstay run (Table.mem_values hrun)) hexec hst
    simp [he]
  rw [verify_eq_ok_iff, violation?_eq_none_iff]
  constructor
  · rintro ⟨-, -, hexecutors, -⟩ e he
    have hroom := (executorViolation?_eq_none_iff.1 (hexecutors e he)).1
    rw [h.heldLoad_eq hstop he]
    exact not_lt.1 hroom
  · intro hfits
    refine ⟨hsize, hruns, fun e he => ?_, h.capViolation?_eq_none hcap⟩
    refine executorViolation?_eq_none_iff.2 ⟨?_, hstarts e.id⟩
    rw [← h.heldLoad_eq hstop he]
    exact not_lt.2 (hfits e he)

/-- A place is chosen only where there is room for the cost and for one more start. -/
theorem place_room {cost : ℚ} {executor : String} (hids : (r.executors.map (·.id)).Nodup)
    (h : place (Snapshot.ofRegistry r now config.aliveWindow) config r.startedCount now cost =
      .on executor) :
    ∃ e ∈ r.executors, e.id = executor ∧ r.load e + cost ≤ e.capacity + Quantity.tolerance ∧
      r.startsOn e.id < config.simultaneousStarts := by
  obtain ⟨-, e, he, hid, hroom, hstart⟩ := place_mayStart hids h
  exact ⟨e, he, hid, Capacity.exceededBy_eq_false_iff.1 hroom, (mayStart_iff.1 hstart).1⟩

/-- A run is taken on only where there is room for its cost. -/
theorem admits_room {cost : ℚ} {executor : String} (hids : (r.executors.map (·.id)).Nodup)
    (h : admits r config executor cost now = true) :
    ∃ e ∈ r.executors, e.id = executor ∧ r.load e + cost ≤ e.capacity + Quantity.tolerance := by
  simp only [admits, Bool.and_eq_true] at h
  have hroom := h.2
  split at hroom
  · rename_i c hfind
    obtain ⟨e, he, -, -, rfl⟩ :=
      (Snapshot.mem_ofRegistry hids).1 (List.mem_of_find?_eq_some hfind)
    have hid : e.id = executor := Snapshot.executor_of_find hfind
    have hle : cost ≤ e.capacity - r.load e + Quantity.tolerance := of_decide_eq_true hroom
    exact ⟨e, he, hid, by linarith⟩
  · cases hroom

end Dispatch
