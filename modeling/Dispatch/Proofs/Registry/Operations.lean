import Dispatch.Proofs.Tables
import Dispatch.Registry.Basic

/-!
# What the operations of the registry do

What is found in a registry afterwards, and one lemma for each operation that can be refused: when
it is not, the guards that it passed and the registry that follows.  Nothing after this module opens
these operations.
-/

namespace Dispatch

namespace Run

variable {κ : Type} {run : Run κ}

theorem isPending_iff : run.isPending = true ↔ run.executor = none ∧ run.stopping = false := by
  simp [isPending]

theorem isStarting_iff :
    run.isStarting = true ↔ run.startedAt.isSome = true ∧ run.ranAt = none := by
  simp [isStarting]

/-! The state of a run after each of its moves. -/

section Moves

variable {now : Instant}

theorem state_of_stopping (h : run.stopping = true) : run.state = .stopping := by
  simp [state, h]

theorem state_start (h : run.stopping = false) (job : Job κ) (e : Executor κ) :
    (run.start job e now).state = .starting := by
  simp [state, start, h]

theorem state_confirm (h : run.stopping = false) : (run.confirm now).state = .running := by
  simp [state, confirm, h]

theorem state_release (h : run.stopping = false) : (run.release now).state = .pending := by
  simp [state, release, h]

theorem state_stop (remove : Bool) : (run.stop remove now).state = .stopping :=
  state_of_stopping rfl

theorem state_settle (hs : run.startedAt = none) (hr : run.ranAt = none) (job : Job κ) :
    (run.settle job).state = .pending := by
  simp [state, settle, hs, hr]

theorem state_adopt (h : run.stopping = false) (executor : String) (revision : UInt64) :
    ((run.bind executor revision).adopt now).state = .running := by
  simp [state, adopt, bind, h]

end Moves

end Run

namespace Registry

variable {κ : Type} {r r' : Registry κ} {job : Job κ} {e : Executor κ} {id : String}
  {now : Instant}

theorem mem_of_executor? (h : r.executor? id = some e) : e ∈ r.executors ∧ e.id = id :=
  ⟨List.mem_of_find?_eq_some h, by simpa using List.find?_some h⟩

theorem executor?_eq_none_iff : r.executor? id = none ↔ ∀ e ∈ r.executors, e.id ≠ id := by
  simp [executor?]

theorem get?_modifyRun {run : Run κ} {id' : String} (hrun : r.runs.get? id = some run)
    (f : Run κ → Run κ) :
    (r.modifyRun id f).runs.get? id' =
      if id' = id then some (f run) else r.runs.get? id' := by
  rw [modifyRun, Table.get?_modify]
  split
  · rename_i hid
    rw [hid, hrun, Option.map_some]
  · rfl

theorem of_removeExecutor (h : r.removeExecutor id = .ok r') :
    r' = { r with executors := r.executors.filter fun e => e.id ≠ id } := by
  unfold removeExecutor at h
  split at h
  · cases h
  · exact (Except.ok.inj h).symm

theorem of_keepAlive (h : r.keepAlive id now = .ok r') :
    r' = r.modifyExecutor id fun e => { e with keptAliveAt := some now } := by
  unfold keepAlive at h
  split at h
  · cases h
  · exact (Except.ok.inj h).symm

variable [Quantity κ]

theorem of_checkCost (h : checkCost job = .ok ()) : Quantity.isValid job.cost = true := by
  unfold checkCost at h
  split at h
  · assumption
  · cases h

theorem of_checkCapacity (h : checkCapacity e = .ok ()) :
    Quantity.isValid e.capacity = true := by
  unfold checkCapacity at h
  split at h
  · assumption
  · cases h

theorem of_addJob (h : r.addJob job = .ok r') :
    Quantity.isValid job.cost = true ∧ r.jobs.get? job.id = none ∧
      r' = { r with
        jobs := r.jobs.addNew job.id job
        runs := r.runs.addNew job.id { job := job, ordinal := r.nextOrdinal }
        nextOrdinal := r.nextOrdinal + 1 } := by
  unfold addJob at h
  split at h
  · cases h
  rename_i hcost
  split at h
  · cases h
  rename_i hnew
  exact ⟨of_checkCost hcost, by simpa [Table.contains] using hnew, (Except.ok.inj h).symm⟩

theorem of_changeJob (h : r.changeJob job = .ok r') :
    ∃ old, Quantity.isValid job.cost = true ∧ r.jobs.get? job.id = some old ∧
      r' = { r with
        jobs := r.jobs.modify job.id fun _ => { job with revision := old.revision + 1 }
        runs := r.runs.modify job.id fun run =>
          if run.isPending then { run with job := { job with revision := old.revision + 1 } }
          else run } := by
  unfold changeJob at h
  split at h
  · cases h
  rename_i hcost
  split at h
  · cases h
  rename_i old hold
  exact ⟨old, of_checkCost hcost, hold, (Except.ok.inj h).symm⟩

theorem of_addExecutor (h : r.addExecutor e now = .ok r') :
    Quantity.isValid e.capacity = true ∧ (∀ e' ∈ r.executors, e'.id ≠ e.id) ∧
      r' = { r with executors :=
        r.executors ++ [{ e with keptAliveAt := e.keptAliveAt.or (some now) }] } := by
  unfold addExecutor at h
  split at h
  · cases h
  rename_i hcap
  split at h
  · cases h
  rename_i hnew
  exact ⟨of_checkCapacity hcap, executor?_eq_none_iff.1 hnew, (Except.ok.inj h).symm⟩

theorem of_changeExecutor {revised : Bool} (h : r.changeExecutor e = .ok (r', revised)) :
    ∃ old, Quantity.isValid e.capacity = true ∧ r.executor? e.id = some old ∧
      revised = revises old e ∧ r' = r.modifyExecutor e.id (redefine · e) := by
  unfold changeExecutor at h
  split at h
  · cases h
  rename_i hcap
  split at h
  · cases h
  rename_i old hold
  obtain ⟨rfl, rfl⟩ := Prod.ext_iff.1 (Except.ok.inj h)
  exact ⟨old, of_checkCapacity hcap, hold, rfl, rfl⟩

/-- The registry after a change of an executor is that of the change. -/
theorem of_changeExecutor_fst (h : (r.changeExecutor e).map Prod.fst = .ok r') :
    ∃ revised, r.changeExecutor e = .ok (r', revised) := by
  cases hc : r.changeExecutor e with
  | error => simp [hc, Except.map] at h
  | ok p =>
    obtain ⟨changed, revised⟩ := p
    rw [hc] at h
    obtain rfl : changed = r' := Except.ok.inj h
    exact ⟨revised, rfl⟩

end Registry

end Dispatch
