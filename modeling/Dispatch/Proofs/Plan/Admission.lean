import Dispatch.Proofs.Overflow
import Dispatch.Proofs.Plan.Moves
import Dispatch.Proofs.Plan.Overtaking

/-!
# Placement and admission

A pending run goes where placement puts it, and a job that an executor is found to host stays there
when the executor admits it.  Both ask for room, in opposite ways: placement passes by an executor
of which less is left than the cost, and an executor admits a cost that is at most what is left.  On
numbers this comes to the same.  Of a value that is no number neither is so, and then placement
takes the executor to have room while the executor does not admit the run.

* `Registry.HeldBack` : an executor may not start one more run now, though it may have room;
* `exists_place_iff`, `admits_iff` : when a run can be placed, and when an executor admits it, in
  terms of the tables;
* `admission_agrees` : **a run is placed on an executor that admits it**, as long as costs are
  numbers, and what is admitted is placed somewhere when no executor is held back.
-/

namespace Dispatch

open Registry

variable {κ : Type} [Quantity κ] {r : Registry κ} {config : Config κ} {now : Instant} {cost : κ}

/-- As many runs are starting on an executor as may be, or more than one may be and one of them was
started too short a time ago. -/
def Registry.HeldBack (r : Registry κ) (config : Config κ) (now : Instant) (e : Executor κ) :
    Prop :=
  config.simultaneousStarts ≤ r.startsOn e.id ∨
    1 < config.simultaneousStarts ∧ ∃ run ∈ r.carriedBy e.id, run.ranAt = none ∧
      ∃ t, run.startedAt = some t ∧ now.since t < config.startGap

theorem not_heldBack_iff {e : Executor κ} :
    ¬ r.HeldBack config now e ↔ (Capacity.ofExecutor r e).mayStart config now = true := by
  rw [mayStart_iff, HeldBack, not_or, not_le]
  refine and_congr_right fun _ => ?_
  by_cases hone : config.simultaneousStarts ≤ 1
  · simp [hone]
  · simp [hone, Nat.lt_of_not_le hone]

/-- A run can be placed when the job cap is not reached and its cost does not exceed what is left of
an executor that is alive, not paused and not held back. -/
theorem exists_place_iff (hids : (r.executors.map (·.id)).Nodup) :
    (∃ id, place (Snapshot.ofRegistry r now config.aliveWindow) config r.startedCount now cost =
      .on id) ↔
      config.capReached r.startedCount = false ∧ ∃ e ∈ r.executors, e.paused = false ∧
        e.isAlive now config.aliveWindow = true ∧ ¬ r.HeldBack config now e ∧
        (Capacity.ofExecutor r e).exceededBy cost = false := by
  rw [exists_place_on_iff]
  refine and_congr_right fun _ => ?_
  constructor
  · rintro ⟨c, hc, hroom, hstart⟩
    obtain ⟨e, he, hpaused, halive, rfl⟩ := (Snapshot.mem_ofRegistry hids).1 hc
    exact ⟨e, he, hpaused, halive, not_heldBack_iff.2 hstart, hroom⟩
  · rintro ⟨e, he, hpaused, halive, hfree, hroom⟩
    have hmem := (Snapshot.mem_ofRegistry hids).2 ⟨e, he, hpaused, halive, rfl⟩
    exact ⟨_, hmem, hroom, not_heldBack_iff.1 hfree⟩

/-- Executors are told apart by their ids. -/
theorem admits_iff (hids : (r.executors.map (·.id)).Nodup) {id : String} :
    admits r config id cost now = true ↔ config.capReached r.startedCount = false ∧
      ∃ e ∈ r.executors, e.id = id ∧ r.HasRoom config now cost e := by
  rw [admits, Bool.and_eq_true, Bool.not_eq_true']
  refine and_congr_right fun _ => ?_
  constructor
  · intro hadmits
    split at hadmits
    · rename_i c hfind
      obtain ⟨e, he, hpaused, halive, hid, rfl⟩ := (find_ofRegistry_iff hids).1 hfind
      exact ⟨e, he, hid, hpaused, halive, of_decide_eq_true hadmits⟩
    · cases hadmits
  · rintro ⟨e, he, hid, hroom⟩
    rw [(find_ofRegistry_iff hids).2 ⟨e, he, hroom.unpaused, hroom.alive, hid, rfl⟩]
    exact decide_eq_true hroom.room

/-- Some executor admits a run when the job cap is not reached and one has room for it. -/
theorem exists_admits_iff (hids : (r.executors.map (·.id)).Nodup) :
    (∃ id, admits r config id cost now = true) ↔ config.capReached r.startedCount = false ∧
      ∃ e ∈ r.executors, r.HasRoom config now cost e := by
  simp only [admits_iff hids]
  constructor
  · rintro ⟨id, hfree, e, he, -, hroom⟩
    exact ⟨hfree, e, he, hroom⟩
  · rintro ⟨hfree, e, he, hroom⟩
    exact ⟨e.id, hfree, e, he, rfl, hroom⟩

variable [Quantity.Lawful κ]

section Distinct

variable (hids : (r.executors.map (·.id)).Nodup)

include hids

/-- An executor on which a run is placed admits it unless one of the values compared is no
number. -/
theorem admits_iff_comparable {id : String}
    (hplaced : place (Snapshot.ofRegistry r now config.aliveWindow) config r.startedCount now cost =
      .on id) :
    admits r config id cost now = true ↔ ∀ e ∈ r.executors, e.id = id → r.Comparable cost e := by
  obtain ⟨hcap, c, hc, hid, hroom, -⟩ := place_eq_on hplaced
  obtain ⟨e, he, hpaused, halive, rfl⟩ := (Snapshot.mem_ofRegistry hids).1 hc
  rw [admits_iff hids]
  constructor
  · rintro ⟨-, e₁, he₁, hid₁, -, -, hfits⟩ e₂ he₂ hid₂
    rw [List.inj_on_of_nodup_map hids he₂ he₁ (hid₂.trans hid₁.symm)]
    exact (fits_iff.1 hfits).2
  · intro hnumbers
    exact ⟨hcap, e, he, hid, hpaused, halive, fits_iff.2 ⟨hroom, hnumbers e he hid⟩⟩

/-- Where an executor admits a run, placement finds room for it. -/
theorem place_ne_noRoom (hadmits : ∃ id, admits r config id cost now = true) :
    place (Snapshot.ofRegistry r now config.aliveWindow) config r.startedCount now cost ≠
      .noRoom := by
  intro hnone
  obtain ⟨-, e, he, hpaused, halive, hfits⟩ := (exists_admits_iff hids).1 hadmits
  have hmem := (Snapshot.mem_ofRegistry hids).2 ⟨e, he, hpaused, halive, rfl⟩
  have hexceeded := place_eq_noRoom_iff.1 hnone _ hmem
  rw [(fits_iff.1 hfits).1] at hexceeded
  cases hexceeded

section Free

variable (hfree : ∀ e ∈ r.executors, e.paused = false →
  e.isAlive now config.aliveWindow = true → ¬ r.HeldBack config now e)

include hfree

/-- Where no executor is held back, what one of them admits is placed. -/
theorem exists_place_of_admits (hadmits : ∃ id, admits r config id cost now = true) :
    ∃ id, place (Snapshot.ofRegistry r now config.aliveWindow) config r.startedCount now cost =
      .on id := by
  obtain ⟨hcap, e, he, hpaused, halive, hfits⟩ := (exists_admits_iff hids).1 hadmits
  exact (exists_place_iff hids).2
    ⟨hcap, e, he, hpaused, halive, hfree e he hpaused halive, (fits_iff.1 hfits).1⟩

/-- Where no executor is held back and numbers are compared, what is admitted is placed, and only
that. -/
theorem exists_place_iff_admits (hnumbers : ∀ e ∈ r.executors, e.paused = false →
      e.isAlive now config.aliveWindow = true → r.Comparable cost e) :
    (∃ id, place (Snapshot.ofRegistry r now config.aliveWindow) config r.startedCount now cost =
      .on id) ↔ ∃ id, admits r config id cost now = true := by
  refine ⟨fun hplaced => ?_, exists_place_of_admits hids hfree⟩
  obtain ⟨hcap, e, he, hpaused, halive, -, hroom⟩ := (exists_place_iff hids).1 hplaced
  exact (exists_admits_iff hids).2
    ⟨hcap, e, he, hpaused, halive, fits_iff.2 ⟨hroom, hnumbers e he hpaused halive⟩⟩

end Free

end Distinct

/-- **Placement and admission agree**, in every registry in which executors are told apart by their
ids, at every instant and for a run of any cost.

* An executor on which the run is placed admits it, exactly if the cost and what is left there are
  numbers.
* If some executor admits the run, placement does not say that there is no room.
* If moreover no executor that is alive and not paused is held back, the run is placed.  It is
  placed only then, if the cost and what is left of these executors are numbers.

Where costs and capacities are valid, all of these are numbers. -/
theorem admission_agrees {r : Registry κ} (hids : (r.executors.map (·.id)).Nodup)
    (config : Config κ) (now : Instant) (cost : κ) :
    let placed :=
      place (Snapshot.ofRegistry r now config.aliveWindow) config r.startedCount now cost
    (∀ id, placed = .on id →
      (admits r config id cost now = true ↔ ∀ e ∈ r.executors, e.id = id → r.Comparable cost e)) ∧
    ((∃ id, admits r config id cost now = true) → placed ≠ .noRoom) ∧
    ((∀ e ∈ r.executors, e.paused = false → e.isAlive now config.aliveWindow = true →
        ¬ r.HeldBack config now e) →
      ((∃ id, admits r config id cost now = true) → ∃ id, placed = .on id) ∧
      ((∀ e ∈ r.executors, e.paused = false → e.isAlive now config.aliveWindow = true →
          r.Comparable cost e) →
        ((∃ id, placed = .on id) ↔ ∃ id, admits r config id cost now = true))) ∧
    (r.Measured → Quantity.isValid cost = true → ∀ e ∈ r.executors, r.Comparable cost e) := by
  intro placed
  refine ⟨fun id => admits_iff_comparable hids, place_ne_noRoom hids, fun hfree => ?_,
    fun h hcost e he => h.comparable he hcost⟩
  exact ⟨exists_place_of_admits hids hfree, exists_place_iff_admits hids hfree⟩

/-- While `A` is held back the next job goes to `B`, which admits it; some time later no executor is
held back, and the job is placed because it is admitted. -/
theorem admission_agrees_paced : (paced.executors.map (·.id)).Nodup ∧
    place (Snapshot.ofRegistry paced 10 spacedStarts.aliveWindow) spacedStarts
      paced.startedCount 10 2 = .on "B" ∧
    paced.HeldBack spacedStarts 10 { id := "A", capacity := 9 } ∧
    admits paced spacedStarts "B" 2 10 = true ∧
    ((∃ id, place (Snapshot.ofRegistry paced 20 spacedStarts.aliveWindow) spacedStarts
      paced.startedCount 20 2 = .on id) ↔ ∃ id, admits paced spacedStarts id 2 20 = true) := by
  have hids : (paced.executors.map (·.id)).Nodup := by decide +kernel
  have hmeasured : paced.Measured := ⟨by decide +kernel, by decide +kernel⟩
  have hplaced : place (Snapshot.ofRegistry paced 10 spacedStarts.aliveWindow) spacedStarts
      paced.startedCount 10 2 = .on "B" := by decide +kernel
  have hfree : ∀ e ∈ paced.executors,
      (Capacity.ofExecutor paced e).mayStart spacedStarts 20 = true := by decide +kernel
  have hheld : (Capacity.ofExecutor paced { id := "A", capacity := 9 }).mayStart spacedStarts 10 =
      false := by decide +kernel
  obtain ⟨honto, -, -, hvalid⟩ := admission_agrees hids spacedStarts 10 2
  have hnumbers := hvalid hmeasured (by decide +kernel)
  refine ⟨hids, hplaced, ?_, (honto "B" hplaced).2 fun e he _ => hnumbers e he, ?_⟩
  · exact not_not.1 fun hnot => by simp [not_heldBack_iff.1 hnot] at hheld
  · exact ((admission_agrees hids spacedStarts 20 2).2.2.1 fun e he _ _ =>
      not_heldBack_iff.2 (hfree e he)).2 fun e he _ _ => hnumbers e he

/-- A job waits of which the cost is no number, and an empty executor has started nothing. -/
def unpriced : Registry Overflowing where
  jobs := { entries := [("j", { id := "j", cost := .finite 1 })] }
  runs := { entries := [("j", { job := { id := "j", cost := .undefined }, ordinal := 0 })] }
  executors := [{ id := "A", capacity := .finite 10, keptAliveAt := some 0 }]
  nextOrdinal := 1

/-- **A job of which the cost is no number is placed on an executor that does not admit it.** -/
theorem admission_agrees_fails : (unpriced.executors.map (·.id)).Nodup ∧
    (∃ run ∈ unpriced.allRuns, run.isPending = true ∧
      place (Snapshot.ofRegistry unpriced 0 (default : Config Overflowing).aliveWindow) default
        unpriced.startedCount 0 run.job.cost = .on "A" ∧
      ∀ id, admits unpriced default id run.job.cost 0 = false) ∧
    ∀ e ∈ unpriced.executors, ¬ unpriced.HeldBack default 0 e := by
  have hids : (unpriced.executors.map (·.id)).Nodup := by decide +kernel
  have hfree : ∀ e ∈ unpriced.executors,
      (Capacity.ofExecutor unpriced e).mayStart default 0 = true := by decide +kernel
  refine ⟨hids, ⟨_, List.mem_cons_self, rfl, by decide +kernel, fun id => ?_⟩,
    fun e he => not_heldBack_iff.2 (hfree e he)⟩
  rw [← Bool.not_eq_true, admits_iff hids]
  rintro ⟨-, e, -, -, -, -, hfits⟩
  exact Overflowing.isNumber_iff.1 (fits_iff.1 hfits).2.2 rfl

end Dispatch
