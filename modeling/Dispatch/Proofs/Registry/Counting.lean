import Dispatch.Proofs.Registry.Load
import Mathlib.Data.Fintype.Fin
import Mathlib.Data.List.FinRange

/-!
# Where each run is counted

The snapshot comes of one pass over all runs, and a run is counted at the first entry of its
executor.  So each entry can be told from the tables, without the pass.  Nothing keeps a table of
executors from having two entries of one id: then all that the executor carries is counted at the
first usable one, and nothing at the others.

* `Capacity.holding` : an executor with the runs that are counted on it;
* `Registry.Entry`, `Registry.carriedAt` : a place among the executors, and the runs that are
  counted there;
* `Snapshot.ofRegistry_eq_entries` : **the snapshot has each usable entry with these runs**;
* `Snapshot.ofRegistry_eq_executors` : when no two executors have the same id, it has each usable
  one with all that it carries.
-/

namespace Dispatch

variable {κ : Type}

/-- Alive and not paused. -/
def Executor.isUsable (e : Executor κ) (now : Instant) (window : Option Duration) : Bool :=
  !e.paused && e.isAlive now window

theorem Executor.isUsable_iff {e : Executor κ} {now : Instant} {window : Option Duration} :
    e.isUsable now window = true ↔ e.paused = false ∧ e.isAlive now window = true := by
  simp [isUsable]

/-- A run is carried by one executor at most. -/
theorem Run.isCarriedBy_inj {run : Run κ} {a b : String} (ha : run.isCarriedBy a = true)
    (hb : run.isCarriedBy b = true) : a = b := by
  simp only [isCarriedBy, isBoundTo, Bool.and_eq_true, beq_iff_eq] at ha hb
  exact Option.some.inj (ha.1.2.symm.trans hb.1.2)

/-- The runs that an executor carries, of those that another one does not. -/
theorem filter_not_carriedBy (a b : String) (runs : List (Run κ)) :
    (runs.filter (!·.isCarriedBy a)).filter (·.isCarriedBy b) =
      if a = b then [] else runs.filter (·.isCarriedBy b) := by
  rw [List.filter_filter]
  split
  · rename_i hsame
    subst hsame
    exact List.filter_eq_nil_iff.2 fun run _ => by simp
  · rename_i hother
    refine List.filter_congr fun run _ => ?_
    cases hb : run.isCarriedBy b with
    | false => rfl
    | true => simpa using fun ha => hother (Run.isCarriedBy_inj ha hb)

/-- The runs that are counted at a place among executors of which some are offered: all that the
executor there carries, unless an offered one before it has the same id. -/
def countedAt (offered : Executor κ → Bool) (executors : List (Executor κ)) (runs : List (Run κ))
    (i : Fin executors.length) : List (Run κ) :=
  if ∃ j < i, offered (executors.get j) = true ∧ (executors.get j).id = (executors.get i).id then []
  else runs.filter (·.isCarriedBy (executors.get i).id)

/-- Everything that the first executor carries is counted there, -/
theorem countedAt_zero (offered : Executor κ → Bool) (e : Executor κ)
    (executors : List (Executor κ)) (runs : List (Run κ)) :
    countedAt offered (e :: executors) runs 0 = runs.filter (·.isCarriedBy e.id) :=
  if_neg fun ⟨_, hlt, _⟩ => absurd hlt (Fin.not_lt_zero _)

/-- and the others are left with the runs that it does not take. -/
theorem countedAt_succ (offered : Executor κ → Bool) (e : Executor κ)
    (executors : List (Executor κ)) (runs : List (Run κ)) (i : Fin executors.length) :
    countedAt offered (e :: executors) runs i.succ = countedAt offered executors
      (if offered e then runs.filter (!·.isCarriedBy e.id) else runs) i := by
  have hearlier : (∃ j < i.succ, offered ((e :: executors).get j) = true ∧
      ((e :: executors).get j).id = (executors.get i).id) ↔
        (offered e = true ∧ e.id = (executors.get i).id) ∨
          ∃ j < i, offered (executors.get j) = true ∧
            (executors.get j).id = (executors.get i).id := by
    rw [Fin.exists_fin_succ]
    simp
  show (if ∃ j < i.succ, offered ((e :: executors).get j) = true ∧
    ((e :: executors).get j).id = (executors.get i).id then [] else _) = _
  rw [countedAt]
  cases hoffered : offered e with
  | true =>
    simp only [hearlier, hoffered, true_and, if_true]
    rw [filter_not_carriedBy]
    by_cases hsame : e.id = (executors.get i).id
    · simp only [hsame, if_true, true_or, ite_self]
    · simp only [hsame, if_false, false_or]
      rfl
  | false =>
    simp only [hearlier, hoffered, Bool.false_eq_true, false_and, false_or, if_false]
    rfl

namespace Registry

/-- A place among the executors, which are in the order of addition. -/
abbrev Entry (r : Registry κ) := Fin r.executors.length

/-- The runs that are counted at an entry: all that its executor carries, unless a usable entry
before it is of the same executor. -/
def carriedAt (r : Registry κ) (now : Instant) (window : Option Duration) (i : r.Entry) :
    List (Run κ) :=
  countedAt (·.isUsable now window) r.executors r.allRuns i

variable {r : Registry κ} {now : Instant} {window : Option Duration}

theorem of_mem_carriedAt {run : Run κ} {i : r.Entry} (h : run ∈ r.carriedAt now window i) :
    run ∈ r.allRuns ∧ run.startedAt.isSome = true := by
  unfold carriedAt countedAt at h
  split at h
  · cases h
  · obtain ⟨hrun, -, -, hstarted⟩ := mem_carriedBy.1 h
    exact ⟨hrun, hstarted⟩

/-- Each entry is the only one of its executor, so all that is carried is counted there. -/
theorem carriedAt_eq_carriedBy (h : (r.executors.map (·.id)).Nodup) (i : r.Entry) :
    r.carriedAt now window i = r.carriedBy (r.executors.get i).id := by
  refine if_neg ?_
  rintro ⟨j, hlt, -, hid⟩
  have hother := List.pairwise_iff_getElem.1 h j i (by simp) (by simp) hlt
  exact hother (by simpa using hid)

end Registry

variable [Quantity κ] {e : Executor κ} {run : Run κ} {runs : List (Run κ)}

namespace Capacity

/-- An executor on which the given runs are counted. -/
def holding (e : Executor κ) (runs : List (Run κ)) : Capacity κ :=
  let starting := runs.filter (!·.isRunning)
  { executor := e.id
    capacity := e.capacity
    load := Quantity.sum (runs.map (·.job.cost))
    startingCount := starting.length
    lastStart := (starting.filterMap (·.startedAt)).max? }

/-- An executor on which all that it carries is counted. -/
def ofExecutor (r : Registry κ) (e : Executor κ) : Capacity κ := holding e (r.carriedBy e.id)

end Capacity

/-! ### The pass -/

theorem sum_concat (xs : List κ) (x : κ) :
    Quantity.sum (xs ++ [x]) = Quantity.sum xs + x := by
  simp [Quantity.sum, List.foldl_append]

omit [Quantity κ] in
theorem max?_concat (l : List Instant) (t : Instant) :
    (l ++ [t]).max? = if l.max?.all (· < t) then some t else l.max? := by
  cases l with
  | nil => rfl
  | cons x l =>
    rw [List.cons_append, List.max?_cons', List.max?_cons', List.foldl_append]
    show some (max (l.foldl max x) t) = _
    by_cases hlt : l.foldl max x < t
    · simp [hlt, Int.max_eq_right (Int.le_of_lt hlt)]
    · simp [hlt, Int.max_eq_left (Int.not_lt.1 hlt)]

theorem Capacity.holding_concat {started : Instant} (hstarted : run.startedAt = some started) :
    Capacity.holding e (runs ++ [run]) = (Capacity.holding e runs).count run started := by
  cases hrunning : run.isRunning with
  | true => simp [holding, count, List.filter_append, sum_concat, hrunning]
  | false =>
    simp [holding, count, List.filter_append, sum_concat, max?_concat, hrunning, hstarted]
    rfl

namespace Snapshot

variable {s : Snapshot κ}

omit [Quantity κ] in
theorem executor_of_find {executor : String} {c : Capacity κ} (h : s.find executor = some c) :
    c.executor = executor := by
  have hfound := List.find?_some h
  exact eq_of_beq hfound

/-- A run is counted at the first entry if that is of its executor, -/
theorem count_holding (h : run.isCarriedBy e.id = true) :
    count (Capacity.holding e runs :: s) run = Capacity.holding e (runs ++ [run]) :: s := by
  have hon := h
  simp only [Run.isCarriedBy, Run.isBoundTo, Bool.and_eq_true, Bool.not_eq_true', beq_iff_eq,
    Option.isSome_iff_exists] at hon
  obtain ⟨⟨hstopping, hexec⟩, started, hstarted⟩ := hon
  rw [Capacity.holding_concat hstarted]
  simp [count, changeFirst, hstopping, hexec, hstarted, Capacity.holding]

/-- and behind it otherwise. -/
theorem count_behind (h : run.isCarriedBy e.id = false) :
    count (Capacity.holding e runs :: s) run = Capacity.holding e runs :: count s run := by
  unfold count
  split
  · rfl
  rename_i hstopping
  split
  · rename_i executor started hexec hstarted
    have hother : ¬ e.id = executor := by
      rintro rfl
      simp [Run.isCarriedBy, Run.isBoundTo, hstopping, hexec, hstarted] at h
    simp [changeFirst, Capacity.holding, hother]
  · rfl

theorem count_nil (run : Run κ) : count [] run = [] := by
  unfold count
  repeat' split
  all_goals rfl

/-- The first entry takes the runs of its executor, and the other runs are counted behind it. -/
theorem foldl_count_holding (e : Executor κ) (held runs : List (Run κ)) (s : Snapshot κ) :
    runs.foldl count (Capacity.holding e held :: s) =
      Capacity.holding e (held ++ runs.filter (·.isCarriedBy e.id)) ::
        (runs.filter (!·.isCarriedBy e.id)).foldl count s := by
  induction runs generalizing held s with
  | nil => simp
  | cons run runs ih =>
    cases hon : run.isCarriedBy e.id with
    | true => rw [List.foldl_cons, count_holding hon, ih]; simp [hon]
    | false => rw [List.foldl_cons, count_behind hon, ih]; simp [hon]

/-- What the pass leaves of a list of executors, some of which are offered. -/
theorem foldl_count_eq (offered : Executor κ → Bool) (executors : List (Executor κ))
    (runs : List (Run κ)) :
    runs.foldl count ((executors.filter offered).map Capacity.unused) =
      ((List.finRange executors.length).filter fun i => offered (executors.get i)).map fun i =>
        Capacity.holding (executors.get i) (countedAt offered executors runs i) := by
  induction executors generalizing runs with
  | nil =>
    show runs.foldl count [] = []
    induction runs with
    | nil => rfl
    | cons run runs ih => rw [List.foldl_cons, count_nil, ih]
  | cons e executors ih =>
    simp only [List.length_cons, List.finRange_succ, List.filter_cons, List.filter_map]
    cases hoffered : offered e with
    | true =>
      have hunused : Capacity.unused e = Capacity.holding e [] := rfl
      simp [hunused, foldl_count_holding, ih, countedAt_zero, countedAt_succ, hoffered,
        Function.comp_def]
    | false => simp [ih, countedAt_succ, hoffered, Function.comp_def]

variable {r : Registry κ}

/-- **The snapshot has each usable entry with the runs that are counted there.** -/
theorem ofRegistry_eq_entries (r : Registry κ) (now : Instant) (window : Option Duration) :
    ofRegistry r now window =
      ((List.finRange _).filter fun i => (r.executors.get i).isUsable now window).map fun i =>
        Capacity.holding (r.executors.get i) (r.carriedAt now window i) :=
  foldl_count_eq (·.isUsable now window) r.executors r.allRuns

/-- When no two executors have the same id, the snapshot has each usable one with all that it
carries. -/
theorem ofRegistry_eq_executors (h : (r.executors.map (·.id)).Nodup) (now : Instant)
    (window : Option Duration) :
    ofRegistry r now window =
      (r.executors.filter (·.isUsable now window)).map (Capacity.ofExecutor r) := by
  rw [ofRegistry_eq_entries]
  simp only [Registry.carriedAt_eq_carriedBy h]
  conv_rhs => rw [← List.map_get_finRange r.executors, List.filter_map, List.map_map]
  rfl

/-- An entry of the snapshot is that of a usable executor. -/
theorem mem_ofRegistry (h : (r.executors.map (·.id)).Nodup) {now : Instant}
    {window : Option Duration} {c : Capacity κ} :
    c ∈ ofRegistry r now window ↔ ∃ e ∈ r.executors, e.paused = false ∧
      e.isAlive now window = true ∧ Capacity.ofExecutor r e = c := by
  simp [ofRegistry_eq_executors h, Executor.isUsable_iff, and_assoc]

end Snapshot

end Dispatch
