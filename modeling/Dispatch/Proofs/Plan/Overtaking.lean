import Dispatch.Proofs.Plan.Placing

/-!
# Who is started before whom

The waiting line is walked along until a run can be placed, so a run may be started before others
that were there first.  A run that is passed by is dearer than the one that is started, because
whatever can be placed could be placed at a lower cost as well.

* `Capacity.exceededBy_mono`, `place_mono` : an executor with room for a cost has room for a lower
  one, and a run that can be placed can be placed at a lower cost, though perhaps elsewhere;
* `plan_start_ahead` : **no run ahead in the queue is passed by for one that costs as much or
  more**, so runs of one cost are started in the order in which they wait.
-/

namespace Dispatch

variable {κ : Type} [Quantity κ] [Quantity.Lawful κ]

/-- Where a lower cost has no room, there is none for a higher one. -/
theorem Capacity.exceededBy_mono {c : Capacity κ} {low high : κ} (hcost : low ≤ high)
    (hlow : c.exceededBy low = true) : c.exceededBy high = true := by
  have hspare : c.spare + Quantity.tolerance < low := of_decide_eq_true hlow
  obtain ⟨hnumber, -, hnot⟩ := Quantity.Lawful.lt_iff.1 hspare
  obtain ⟨-, hhigh⟩ := Quantity.Lawful.isNumber_of_le hcost
  refine decide_eq_true (Quantity.Lawful.lt_iff.2 ⟨hnumber, hhigh, fun hle => hnot ?_⟩)
  exact Quantity.Lawful.le_trans hcost hle

/-- **What can be placed can be placed at a lower cost**, at the same instant and with as many runs
started.  The executor may be another one, as more of them have room. -/
theorem place_mono {snapshot : Snapshot κ} {config : Config κ} {started : Nat} {now : Instant}
    {low high : κ} {executor : String} (hcost : low ≤ high)
    (hplace : place snapshot config started now high = .on executor) :
    ∃ other, place snapshot config started now low = .on other := by
  obtain ⟨hfree, c, hc, -, hroom, hstart⟩ := place_eq_on hplace
  have hroomy : c.exceededBy low = false := by
    cases hlow : c.exceededBy low with
    | false => rfl
    | true => rw [Capacity.exceededBy_mono hcost hlow] at hroom; cases hroom
  exact exists_place_on_iff.2 ⟨hfree, c, hc, hroomy, hstart⟩

omit [Quantity κ] [Quantity.Lawful κ] in
/-- A run ahead of the one that is started stands before it in the waiting line. -/
theorem Registry.IsQueue.mem_ahead {r : Registry κ} {ahead behind : List (Run κ)}
    {first run : Run κ} (h : r.IsQueue (ahead ++ first :: behind)) (hrun : run ∈ r.allRuns)
    (hpending : run.isPending = true) (hkey : run.waitKey < first.waitKey) : run ∈ ahead := by
  have hmem : run ∈ ahead ++ first :: behind :=
    h.perm.mem_iff.2 (List.mem_filter.2 ⟨hrun, hpending⟩)
  have hbehind := (List.pairwise_cons.1 (List.pairwise_append.1 h.sorted).2.1).1
  rcases List.mem_append.1 hmem with hahead | hrest
  · exact hahead
  rcases List.mem_cons.1 hrest with rfl | hlater
  · exact absurd hkey (lt_irrefl _)
  · exact absurd hkey (not_lt.2 (hbehind run hlater))

/-- **No overtaking by a dearer job.**  Whatever can be placed can be placed at a lower cost at the
same instant.  So if a start is planned, every pending run that waits ahead of the started one costs
strictly more, and of the pending runs of one cost the first is started.  This holds of any
executors, limits on starts, gaps between them and job cap. -/
theorem plan_start_ahead {r : Registry κ}
    (hcosts : ∀ run ∈ r.allRuns, Quantity.isValid run.job.cost = true) (config : Config κ)
    (now : Instant) :
    (∀ snapshot started low high executor, low ≤ high →
      place snapshot config started now high = .on executor →
      ∃ other, place snapshot config started now low = .on other) ∧
    ∀ job executor, (plan r config now).action = some (.start job executor) →
      ∃ first ∈ r.allRuns, first.isPending = true ∧ first.job.id = job ∧
        (r.Sound → r.runs.get? job = some first) ∧
        place (Snapshot.ofRegistry r now config.aliveWindow) config r.startedCount now
          first.job.cost = .on executor ∧
        (∀ run ∈ r.allRuns, run.isPending = true → run.waitKey < first.waitKey →
          first.job.cost < run.job.cost) ∧
        ∀ run ∈ r.allRuns, run.isPending = true → run.job.cost = first.job.cost →
          first.waitKey ≤ run.waitKey := by
  refine ⟨fun snapshot started low high executor => place_mono, fun job executor hplan => ?_⟩
  obtain ⟨-, ahead, first, behind, hline, hid, hon, hpassed⟩ := plan_start hplan
  have hqueue := r.isQueue_waitingLine
  rw [hline] at hqueue
  obtain ⟨hfirst, hpending⟩ : first ∈ r.allRuns ∧ first.isPending = true := by
    rw [← mem_waitingLine, hline]
    exact List.mem_append_right _ List.mem_cons_self
  -- a run that was passed by cannot be placed, so it is not as cheap as the first
  have hdearer : ∀ run ∈ r.allRuns, run.isPending = true → run.waitKey < first.waitKey →
      first.job.cost < run.job.cost := by
    intro run hrun hwaits hkey
    have hahead := hqueue.mem_ahead hrun hwaits hkey
    refine (Quantity.not_le_iff (.of_isValid (hcosts run hrun))
      (.of_isValid (hcosts first hfirst))).1 fun hle => ?_
    obtain ⟨other, hother⟩ := place_mono hle hon
    exact hpassed run hahead other hother
  refine ⟨first, hfirst, hpending, hid, fun h => hid ▸ h.get?_of_mem hfirst, hon, hdearer,
    fun run hrun hwaits hcost => not_lt.1 fun hkey => ?_⟩
  have hlt := hdearer run hrun hwaits hkey
  rw [hcost] at hlt
  exact (Quantity.Lawful.lt_iff.1 hlt).2.2 (Quantity.Lawful.lt_iff.1 hlt).1

/-- A job was started on the large executor a moment ago, which has to wait before its next start;
on the small one there is no room for the job that waits first. -/
def paced : Registry ℚ where
  jobs := { entries := [("on", { id := "on", cost := 1 }), ("big", { id := "big", cost := 5 }),
    ("old", { id := "old", cost := 2 }), ("new", { id := "new", cost := 2 })] }
  runs := { entries := [
    ("on",
      { job := { id := "on", cost := 1 }
        executor := some "A"
        executorRevision := some 0
        startedAt := some 9
        ordinal := 0
        attempt := 1 }),
    ("big", { job := { id := "big", cost := 5 }, ordinal := 1 }),
    ("old", { job := { id := "old", cost := 2 }, stoppedAt := some 5, ordinal := 2 }),
    ("new", { job := { id := "new", cost := 2 }, ordinal := 3 })] }
  executors := [{ id := "A", capacity := 9 }, { id := "B", capacity := 3 }]
  nextOrdinal := 4

/-- Settings under which two jobs may be starting on an executor, some time apart, and four runs may
be started at once. -/
def spacedStarts : Config ℚ :=
  { balanceAt := 0, simultaneousStarts := 2, startGap := 5, maxJobs := 4 }

theorem plan_start_ahead_paced : (∀ run ∈ paced.allRuns, Quantity.isValid run.job.cost = true) ∧
    (plan paced spacedStarts 10).action = some (.start "new" "B") ∧
    ∃ first ∈ paced.allRuns, first.job.id = "new" ∧
      (∀ run ∈ paced.allRuns, run.isPending = true → run.waitKey < first.waitKey →
        first.job.cost < run.job.cost) ∧
      ∀ run ∈ paced.allRuns, run.isPending = true → run.job.cost = first.job.cost →
        first.waitKey ≤ run.waitKey := by
  have hcosts : ∀ run ∈ paced.allRuns, Quantity.isValid run.job.cost = true := by decide +kernel
  have hplan : (plan paced spacedStarts 10).action = some (.start "new" "B") := by decide +kernel
  obtain ⟨-, hstart⟩ := plan_start_ahead hcosts spacedStarts 10
  obtain ⟨first, hfirst, -, hid, -, -, hahead, hequal⟩ := hstart "new" "B" hplan
  exact ⟨hcosts, hplan, first, hfirst, hid, hahead, hequal⟩

end Dispatch
