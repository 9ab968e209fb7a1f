import Dispatch.Proofs.History.Converge
import Dispatch.Proofs.Plan.Placing

/-!
# What a lower job cap stops

When the job cap is lowered, the loop stops one run per turn until no more are started than the cap
allows: the run started last goes first.  Nothing else is stopped meanwhile, because a stop leaves
the other runs where they are, and a run that is stopping keeps the balance from being looked at.

* `Run.startKey` : when a run was started, then its place in the order of addition;
* `Registry.Steady` : no run has to stop but for the job cap;
* `Registry.Steady.stop`, `Registry.Steady.start` : planned stops and starts keep it so;
* `Registry.Steady.plan_surplus`, `Registry.Steady.plan_within` : what is planned above the cap, and
  what is not planned within it;
* `lowered_cap_sheds` : **turn by turn the surplus is stopped, from the run started last on, and
  nothing else is**.
-/

namespace Dispatch

open Scheduler

variable {κ : Type}

/-! ### The order of starts -/

/-- What decides which run goes first when too many are started: when it was started, which for a
run that is not started is before all instants, then its place in the order of addition. -/
def Run.startKey (run : Run κ) : WithBot Instant ×ₗ Nat :=
  toLex (run.startedAt.elim ⊥ WithBot.some, run.ordinal)

theorem Run.startedAfter_iff {a b : Run κ} :
    a.startedAfter b = true ↔ b.startKey ≤ a.startKey := by
  rw [startKey, startKey, Prod.Lex.toLex_le_toLex, startedAfter]
  cases a.startedAt with
  | none => cases b.startedAt <;> simp
  | some s =>
    cases b.startedAt with
    | none => simp [WithBot.bot_lt_coe]
    | some t =>
      have hcomm : s = t ↔ t = s := eq_comm
      simp [WithBot.coe_lt_coe, hcomm]

namespace Registry

/-- The runs that count against the job cap. -/
def startedRuns (r : Registry κ) : List (Run κ) := r.allRuns.filter (·.startedAt.isSome)

variable {r : Registry κ} {job executor : String} {run : Run κ} {definition : Job κ}
  {target : Executor κ} {now : Instant}

theorem startedCount_eq (r : Registry κ) : r.startedCount = r.startedRuns.length :=
  List.countP_eq_length_filter

/-- A stop takes the run off those that count. -/
theorem startedRuns_stop (hrun : r.runs.get? job = some run) (hs : run.startedAt.isSome = true)
    (remove : Bool) (now : Instant) :
    r.startedRuns.Perm
      (run :: (r.modifyRun job fun _ => run.stop remove now).startedRuns) := by
  obtain ⟨before, after, hsplit, hmod⟩ := allRuns_modifyRun hrun
  simp only [startedRuns, hmod, hsplit, List.filter_append, List.filter_cons, hs]
  exact List.perm_middle

variable [Quantity κ] {config : Config κ}

/-- No two runs were started at one instant and added in one place. -/
theorem Sound.startKey_ne (h : r.Sound) :
    r.startedRuns.Pairwise fun a b => a.startKey ≠ b.startKey := by
  refine List.Pairwise.filter _ ((List.pairwise_map.1 h.ordinals).imp ?_)
  intro a b hlt hkey
  have hordinal : a.ordinal = b.ordinal := congrArg (fun key => (ofLex key).2) hkey
  exact absurd hordinal (Nat.ne_of_lt hlt)

/-- The runs that count, from the one started last on. -/
theorem Sound.exists_startOrder (h : r.Sound) : ∃ order : List (Run κ),
    order.Perm r.startedRuns ∧ order.Pairwise fun a b => b.startKey < a.startKey := by
  have htrans : ∀ a b c : Run κ, a.startedAfter b = true → b.startedAfter c = true →
      a.startedAfter c = true := by
    simp only [Run.startedAfter_iff]
    exact fun _ _ _ hab hbc => le_trans hbc hab
  have htotal : ∀ a b : Run κ, a.startedAfter b = true ∨ b.startedAfter a = true := by
    simp only [Run.startedAfter_iff]
    exact fun _ _ => le_total _ _
  have hperm := lineUp_perm Run.startedAfter r.startedRuns
  have hne := (hperm.pairwise_iff fun hab => hab.symm).2 h.startKey_ne
  refine ⟨lineUp Run.startedAfter r.startedRuns, hperm, ?_⟩
  refine ((lineUp_pairwise htrans htotal r.startedRuns).and hne).imp ?_
  exact fun ⟨hle, hne⟩ => lt_of_le_of_ne (Run.startedAfter_iff.1 hle) hne.symm

/-- A start is planned below the job cap only. -/
theorem startedCount_lt_of_start (hcap : 0 < config.maxJobs)
    (hplan : (plan r config now).action = some (.start job executor)) :
    r.startedCount < config.maxJobs := by
  obtain ⟨-, before, run, after, -, -, hon, -⟩ := plan_start hplan
  have hfree := Config.capReached_eq_false_iff.1 (place_eq_on hon).1
  omega

/-! ### Registries in which nothing has to stop -/

/-- No executor is paused, and no run has to stop, nor is better off elsewhere. -/
structure Steady (r : Registry κ) (config : Config κ) (now : Instant) : Prop where
  sound : r.Sound
  unpaused : ∀ e ∈ r.executors, e.paused = false
  stay : ∀ run ∈ r.allRuns, run.mustStop? r (Snapshot.ofRegistry r now config.aliveWindow) config
    (unrunCost r.allRuns) now = none
  balanced : r.allRuns.any (·.ranAt.isNone) = true ∨
    balanceMove? r.allRuns (Snapshot.ofRegistry r now config.aliveWindow) config = none

namespace Steady

/-- Nothing is planned when nothing has to stop, whatever the job cap is then. -/
theorem of_idle (h : r.Sound) (hopen : ∀ e ∈ r.executors, e.paused = false)
    (hidle : (plan r config now).action = none) (n : Nat) :
    r.Steady { config with maxJobs := n } now := by
  obtain ⟨hstay, -, hbalanced⟩ := plannedStop?_eq_none_iff.1 (plan_idle.1 hidle).1
  exact ⟨h, hopen, hstay, hbalanced⟩

variable (h : r.Steady config now)

include h

/-- A run that has left its executor, or has just come to one, keeps the others where they are. -/
theorem replace (hrun : r.runs.get? job = some run) {run' : Run κ}
    (hsound : (r.modifyRun job fun _ => run').Sound) (hran : run'.ranAt = none)
    (hstay : run'.mustStop? (r.modifyRun job fun _ => run')
      (Snapshot.ofRegistry (r.modifyRun job fun _ => run') now config.aliveWindow) config
      (unrunCost (r.modifyRun job fun _ => run').allRuns) now = none) :
    (r.modifyRun job fun _ => run').Steady config now := by
  obtain ⟨before, after, hsplit, hmod⟩ := allRuns_modifyRun hrun
  have hmem : ∀ other ∈ (r.modifyRun job fun _ => run').allRuns,
      other = run' ∨ other ∈ r.allRuns := by
    intro other hother
    rw [hmod] at hother
    rw [hsplit]
    simp only [List.mem_append, List.mem_cons] at hother ⊢
    tauto
  refine ⟨hsound, h.unpaused, fun other hother => ?_, .inl ?_⟩
  · rcases hmem other hother with rfl | hother
    · exact hstay
    rw [← h.stay other hother]
    refine Run.mustStop?_congr rfl rfl fun _ e _ he => ?_
    exact h.unpaused e (mem_of_executor? he).1
  · refine List.any_eq_true.2 ⟨run', ?_, by simp [hran]⟩
    rw [hmod]
    exact List.mem_append_right _ List.mem_cons_self

/-- It stays so when a run is stopped, -/
theorem stop (hrun : r.runs.get? job = some run) (hexec : run.executor = some executor) :
    (r.modifyRun job fun _ => run.stop false now).Steady config now := by
  have hsound : (r.modifyRun job fun _ => run.stop false now).Sound :=
    h.sound.moveRun hrun rfl (.stop (by simp [hexec]) _ now) rfl
  refine h.replace hrun hsound rfl ?_
  simp [Run.mustStop?, Run.stop, hexec]

/-- and when a run is started. -/
theorem start (hplan : (plan r config now).action = some (.start job target.id))
    (hrun : r.runs.get? job = some run) (hdef : r.jobs.get? job = some definition)
    (htarget : r.executor? target.id = some target) :
    (r.modifyRun job fun _ => run.start definition target now).Steady config now := by
  obtain ⟨hpending, -, hon⟩ := plan_start_pending h.sound hrun hplan
  have hst := (Run.isPending_iff.1 hpending).2
  have hkey : definition.id = job := h.sound.job_key hdef
  have hsound : (r.modifyRun job fun _ => run.start definition target now).Sound :=
    h.sound.modifyRun hrun hkey (h.sound.job_cost hdef) (.start hst _ _ _) rfl
  have halive : target.isAlive now config.aliveWindow = true := by
    obtain ⟨-, c, hc, hid, -⟩ := place_eq_on hon
    obtain ⟨e, he, -, halive, rfl⟩ := (Snapshot.mem_ofRegistry h.sound.executors).1 hc
    have hsame : target = e :=
      Option.some.inj (htarget.symm.trans (hid ▸ h.sound.executor?_eq he))
    rw [hsame]
    exact halive
  refine h.replace hrun hsound rfl (Run.mustStop?_start hst ?_ htarget ?_ halive)
  · rw [hkey]
    exact hdef
  · exact h.unpaused target (mem_of_executor? htarget).1

/-- Within the job cap nothing is stopped. -/
theorem plan_within (hwithin : config.maxJobs = 0 ∨ r.startedCount ≤ config.maxJobs) :
    plannedStop? r config now = none :=
  plannedStop?_eq_none_iff.2 ⟨h.stay, h.sound.overCap?_eq_none_iff.2 hwithin, h.balanced⟩

/-- Above the job cap the run started last is stopped. -/
theorem plan_surplus {last : Run κ} {rest : List (Run κ)}
    (hperm : (last :: rest).Perm r.startedRuns)
    (hlast : ∀ run ∈ rest, run.startKey < last.startKey) (hcap : 0 < config.maxJobs)
    (hover : config.maxJobs < r.startedCount) :
    (plan r config now).action = some (.stop last.job.id .overJobLimit) := by
  -- a run that is started is not being stopped
  have hline : (r.allRuns.filter fun run => !run.stopping && run.startedAt.isSome) =
      r.startedRuns := by
    refine List.filter_congr fun run hrun => ?_
    cases hs : run.startedAt.isSome with
    | false => simp
    | true => simp [((h.sound.shaped (h.sound.get?_of_mem hrun)).of_started hs).2.2]
  have hover? : overCap? r.allRuns r.startedCount config = some last := by
    have hcond : (config.maxJobs = 0 || r.startedCount ≤ config.maxJobs) = false := by
      simp
      omega
    rw [overCap?, hcond, hline]
    have hstarted : last ∈ r.startedRuns := hperm.mem_iff.1 List.mem_cons_self
    obtain ⟨first, hfirst⟩ : ∃ first, pick Run.startedAfter r.startedRuns = some first :=
      pick_of_mem hstarted
    have hmem := hperm.mem_iff.2 (pick_mem hfirst)
    have hgreatest :=
      pick_greatest (fun a b => Run.startedAfter_iff (a := a) (b := b)) hfirst last hstarted
    rcases List.mem_cons.1 hmem with rfl | hrest
    · exact hfirst
    · exact absurd (hlast first hrest) (not_lt.2 hgreatest)
  rw [plan_of_plannedStop? (plannedStop?_surplus h.stay hover?)]

end Steady

end Registry

/-! ### Turn by turn -/

variable [Quantity κ]

/-- A turn takes in a new job cap, and nothing comes in after that; each turn looks at the plan at
the same instant. -/
structure Advance.SetsCap (as : ℕ → Advance κ) (n : Nat) (now : Instant) : Prop where
  first : ∃ ticket heard shown, as 0 = .turn (.request ticket (.maxJobs n)) heard now shown
  own : ∀ k, (as (k + 1)).IsOwn ∧ (as (k + 1)).looked = now

/-- What the turn of a given number looks at. -/
def Scheduler.seenAt (s : Scheduler κ) (as : ℕ → Advance κ) (k : ℕ) : Scheduler κ :=
  (as k).takeIn (s.along as k)

namespace Advance.SetsCap

variable {as : ℕ → Advance κ} {n : Nat} {now : Instant} (h : SetsCap as n now)
  (s : Scheduler κ) (k : ℕ)

include h

omit [Quantity κ] in
theorem isTurn : (as k).IsTurn ∧ (as k).looked = now := by
  cases k with
  | zero =>
    obtain ⟨ticket, heard, shown, hfirst⟩ := h.first
    rw [hfirst]
    exact ⟨trivial, rfl⟩
  | succ k => exact ⟨(h.own k).1.isTurn, (h.own k).2⟩

theorem plannedAt_eq : s.plannedAt as k =
    (plan (s.seenAt as k).registry (s.seenAt as k).config now).action := by
  obtain ⟨hturn, rfl⟩ := h.isTurn k
  exact hturn.planned_eq _

/-- The first turn looks at what was there, under the new cap. -/
theorem seenAt_zero : (s.seenAt as 0).registry = s.registry ∧
    (s.seenAt as 0).config = { s.config with maxJobs := n } ∧
    (s.seenAt as 0).issued = s.issued := by
  obtain ⟨ticket, heard, shown, hfirst⟩ := h.first
  rw [seenAt, hfirst]
  exact ⟨rfl, rfl, rfl⟩

/-- Any other turn looks at what the one before it has left. -/
theorem seenAt_succ : (s.seenAt as (k + 1)).registry = (s.along as (k + 1)).registry ∧
    (s.seenAt as (k + 1)).config = (s.seenAt as k).config ∧
    (s.seenAt as (k + 1)).issued = (s.along as (k + 1)).issued := by
  have hown := (h.own k).1
  obtain ⟨hconfig, hissued⟩ := hown.takeIn_same (s.along as (k + 1))
  exact ⟨hown.takeIn_registry _, hconfig.trans ((h.isTurn k).1.apply_config _), hissued⟩

theorem config_seenAt : (s.seenAt as k).config = { s.config with maxJobs := n } := by
  induction k with
  | zero => exact (h.seenAt_zero s).2.1
  | succ k ih => rw [(h.seenAt_succ s k).2.1, ih]

end Advance.SetsCap

/-- A job cap is set while nothing else is to be done, and the started runs are known from the one
started last on. -/
structure Scheduler.Sheds (s : Scheduler κ) (as : ℕ → Advance κ) (n : Nat) (now : Instant)
    (order : List (Run κ)) : Prop where
  series : Advance.SetsCap as n now
  steady : s.registry.Steady { s.config with maxJobs := n } now
  pos : 0 < n
  perm : order.Perm s.registry.startedRuns
  sorted : order.Pairwise fun a b => b.startKey < a.startKey

namespace Scheduler.Sheds

variable {s : Scheduler κ} {as : ℕ → Advance κ} {n : Nat} {now : Instant} {order : List (Run κ)}
  (h : s.Sheds as n now order)

include h

/-- What a turn plans, and what it leaves. -/
theorem carriesOut (k : ℕ) : (as k).CarriesOut (s.along as k)
    (plan (s.seenAt as k).registry { s.config with maxJobs := n } now).action := by
  have hcarries := (h.series.isTurn k).1.carriesOut (along_sound h.steady.sound as k)
  have hplanned := h.series.plannedAt_eq s k
  rw [h.series.config_seenAt s k] at hplanned
  rwa [← hplanned]

/-- Nothing has to stop at any turn but for the job cap. -/
theorem steadyAt (k : ℕ) :
    (s.seenAt as k).registry.Steady { s.config with maxJobs := n } now := by
  induction k with
  | zero =>
    rw [(h.series.seenAt_zero s).1]
    exact h.steady
  | succ k ih =>
    have hcarries := h.carriesOut k
    have hlooked := (h.series.isTurn k).2
    rw [(h.series.seenAt_succ s k).1, along]
    generalize haction :
      (plan (s.seenAt as k).registry { s.config with maxJobs := n } now).action = action
      at hcarries
    cases hcarries with
    | rest hregistry =>
      rw [hregistry]
      exact ih
    | stop hrun hexec _ hregistry =>
      rw [hregistry, hlooked]
      exact ih.stop hrun hexec
    | start hrun _ hdef htarget hregistry =>
      rw [hregistry, hlooked]
      obtain ⟨-, rfl⟩ := Registry.mem_of_executor? htarget
      exact ih.start haction hrun hdef htarget

theorem issued_seenAt (k : ℕ) : (s.seenAt as k).issued = (s.along as k).issued := by
  cases k with
  | zero => exact (h.series.seenAt_zero s).2.2
  | succ k => exact (h.series.seenAt_succ s k).2.2

theorem length_order : order.length = s.registry.startedCount := by
  rw [h.perm.length_eq, Registry.startedCount_eq]

theorem lt_length {k : ℕ} (hk : k < s.registry.startedCount - n) : k < order.length := by
  rw [h.length_order]
  omega

/-- When the started runs are those that have not had their turn, one fewer is started each turn. -/
theorem startedCount_of_perm {k : ℕ}
    (hperm : (order.drop k).Perm (s.seenAt as k).registry.startedRuns) :
    (s.seenAt as k).registry.startedCount = s.registry.startedCount - k := by
  rw [Registry.startedCount_eq, ← hperm.length_eq, List.length_drop, h.length_order]

/-- In the turns before the surplus is gone, the next run has its turn. -/
theorem plan_surplus {k : ℕ} (hk : k < s.registry.startedCount - n) (hlt : k < order.length)
    (hperm : (order.drop k).Perm (s.seenAt as k).registry.startedRuns) :
    (plan (s.seenAt as k).registry { s.config with maxJobs := n } now).action =
      some (.stop order[k].job.id .overJobLimit) := by
  have hcount := h.startedCount_of_perm hperm
  have hsorted := h.sorted.drop (i := k)
  rw [List.drop_eq_getElem_cons hlt] at hperm hsorted
  refine (h.steadyAt k).plan_surplus hperm (List.pairwise_cons.1 hsorted).1 h.pos ?_
  show n < (s.seenAt as k).registry.startedCount
  omega

/-- Until the surplus is gone, the started runs are those that have not had their turn. -/
theorem startedRuns_perm {k : ℕ} (hk : k ≤ s.registry.startedCount - n) :
    (order.drop k).Perm (s.seenAt as k).registry.startedRuns := by
  induction k with
  | zero =>
    rw [(h.series.seenAt_zero s).1]
    exact h.perm
  | succ k ih =>
    have hperm := ih (Nat.le_of_succ_le hk)
    have hcarries := h.carriesOut k
    rw [h.plan_surplus hk (h.lt_length hk) hperm] at hcarries
    rw [List.drop_eq_getElem_cons (h.lt_length hk)] at hperm
    obtain ⟨hmem, hs⟩ := List.mem_filter.1 (hperm.mem_iff.1 List.mem_cons_self)
    cases hcarries with
    | stop hrun _ _ hregistry =>
      have hown := (h.steadyAt k).sound.get?_of_mem hmem
      obtain rfl := Option.some.inj (hown.symm.trans hrun)
      rw [(h.series.seenAt_succ s k).1, along, hregistry]
      exact (hperm.trans (Registry.startedRuns_stop hrun hs false _)).cons_inv

/-- Once the surplus is gone, as many runs are started as may be, or as many as were before. -/
theorem startedCount_within {k : ℕ} (hk : s.registry.startedCount - n ≤ k) :
    (s.seenAt as k).registry.startedCount ≤ n ∧
      (n ≤ s.registry.startedCount → (s.seenAt as k).registry.startedCount = n) := by
  induction k, hk using Nat.le_induction with
  | base =>
    have hcount := h.startedCount_of_perm (h.startedRuns_perm (le_refl _))
    omega
  | succ k hk ih =>
    obtain ⟨hle, heq⟩ := ih
    have hcarries := h.carriesOut k
    rw [(h.series.seenAt_succ s k).1, along]
    generalize haction :
      (plan (s.seenAt as k).registry { s.config with maxJobs := n } now).action = action
      at hcarries
    cases hcarries with
    | rest hregistry =>
      rw [hregistry]
      exact ⟨hle, heq⟩
    | stop =>
      have hnone := (h.steadyAt k).plan_within (.inr hle)
      rw [plan_stop haction] at hnone
      cases hnone
    | @start _ _ run definition target hrun _ _ _ hregistry =>
      have hbelow := Registry.startedCount_lt_of_start h.pos haction
      have hone := Registry.startedCount_modifyRun_le_succ hrun
        fun _ => run.start definition target (as k).looked
      rw [hregistry]
      change (s.seenAt as k).registry.startedCount < n at hbelow
      exact ⟨hone.trans hbelow, fun hmany => absurd (heq hmany) (Nat.ne_of_lt hbelow)⟩

/-- Where the job cap leaves no room, no start is planned, whether there is a surplus left or
not. -/
theorem plan_ne_start (hmany : n ≤ s.registry.startedCount) (k : ℕ) (job executor : String) :
    (plan (s.seenAt as k).registry { s.config with maxJobs := n } now).action ≠
      some (.start job executor) := by
  intro hstart
  have hbelow : (s.seenAt as k).registry.startedCount < n :=
    Registry.startedCount_lt_of_start h.pos hstart
  by_cases hk : k < s.registry.startedCount - n
  · have hcount := h.startedCount_of_perm (h.startedRuns_perm hk.le)
    omega
  · exact absurd ((h.startedCount_within (Nat.not_lt.1 hk)).2 hmany) (Nat.ne_of_lt hbelow)

/-- The run that is stopped in a turn, as long as there is one, is registered then as it was at
first. -/
theorem getElem?_surplus {k : ℕ} {run : Run κ}
    (hrun : (order.take (s.registry.startedCount - n))[k]? = some run) :
    k < s.registry.startedCount - n ∧ (∃ hlt : k < order.length, order[k] = run) ∧
      (s.seenAt as k).registry.runs.get? run.job.id = some run := by
  obtain ⟨hk, hlt, hget⟩ : k < s.registry.startedCount - n ∧ ∃ hlt : k < order.length,
      order[k] = run := by
    obtain ⟨hlt, hget⟩ := List.getElem?_eq_some_iff.1 hrun
    rw [List.length_take] at hlt
    exact ⟨by omega, by omega, by rwa [List.getElem_take] at hget⟩
  have hperm := h.startedRuns_perm hk.le
  rw [List.drop_eq_getElem_cons hlt, hget] at hperm
  have hmem := (List.mem_filter.1 (hperm.mem_iff.1 List.mem_cons_self)).1
  exact ⟨hk, ⟨hlt, hget⟩, (h.steadyAt k).sound.get?_of_mem hmem⟩

/-- **Which runs are stopped**: one of the surplus in each turn, for the job cap. -/
theorem plan_stop_iff {k : ℕ} {job : String} {reason : StopReason} :
    (plan (s.seenAt as k).registry { s.config with maxJobs := n } now).action =
        some (.stop job reason) ↔
      reason = .overJobLimit ∧
        ∃ run, (order.take (s.registry.startedCount - n))[k]? = some run ∧ run.job.id = job := by
  constructor
  · intro hstop
    by_cases hk : k < s.registry.startedCount - n
    · have hlt := h.lt_length hk
      rw [h.plan_surplus hk hlt (h.startedRuns_perm hk.le)] at hstop
      obtain ⟨rfl, rfl⟩ := Action.stop.inj (Option.some.inj hstop)
      exact ⟨rfl, order[k], by rw [List.getElem?_take_of_lt hk, List.getElem?_eq_getElem hlt], rfl⟩
    · -- the surplus is gone
      have hwithin := (h.startedCount_within (Nat.not_lt.1 hk)).1
      have hnone := (h.steadyAt k).plan_within (.inr hwithin)
      rw [plan_stop hstop] at hnone
      cases hnone
  · rintro ⟨rfl, run, hrun, rfl⟩
    obtain ⟨hk, ⟨hlt, rfl⟩, -⟩ := h.getElem?_surplus hrun
    exact h.plan_surplus hk hlt (h.startedRuns_perm hk.le)

/-- The calls of one turn: a stop for the run that is stopped in it, and nothing else unless the job
cap leaves room for a start. -/
theorem issued_succ (k : ℕ) : ∃ calls,
    (s.along as (k + 1)).issued = (s.along as k).issued ++ calls ∧
    (calls.filter (·.kind = .stop)).map (·.run) =
      ((order.take (s.registry.startedCount - n))[k]?.toList).map (·.stop false now) ∧
    (n ≤ s.registry.startedCount → ∀ call ∈ calls, call.kind = .stop) := by
  have hcarries := h.carriesOut k
  have hkept : ((as k).takeIn (s.along as k)).issued = (s.along as k).issued := h.issued_seenAt k
  have hnone : (∀ job reason,
      (plan (s.seenAt as k).registry { s.config with maxJobs := n } now).action ≠
        some (.stop job reason)) →
      (order.take (s.registry.startedCount - n))[k]? = none := by
    intro hno
    cases hrun : (order.take (s.registry.startedCount - n))[k]? with
    | none => rfl
    | some run => exact absurd (h.plan_stop_iff.2 ⟨rfl, run, hrun, rfl⟩) (hno _ _)
  rw [along]
  generalize haction :
    (plan (s.seenAt as k).registry { s.config with maxJobs := n } now).action = action
    at hcarries hnone
  cases hcarries with
  | rest _ hcalls =>
    refine ⟨[], by rw [hcalls, hkept, List.append_nil], ?_, by simp⟩
    rw [hnone fun _ _ => nofun]
    rfl
  | stop hrun _ _ _ hcalls =>
    obtain ⟨call, hcalls, hkind, hcall⟩ := hcalls
    obtain ⟨-, run, hget, rfl⟩ := h.plan_stop_iff.1 haction
    have hown := (h.getElem?_surplus hget).2.2
    obtain rfl := Option.some.inj (hown.symm.trans hrun)
    refine ⟨[call], by rw [hcalls, hkept], ?_, by simp [hkind]⟩
    simp [hget, hkind, hcall, (h.series.isTurn k).2]
  | start _ _ _ _ _ hcalls =>
    obtain ⟨call, hcalls, hkind, -⟩ := hcalls
    refine ⟨[call], by rw [hcalls, hkept], ?_, fun hmany => ?_⟩
    · rw [hnone fun _ _ => nofun]
      simp [hkind]
    · exact absurd haction (h.plan_ne_start hmany k _ _)

/-- The runs that are stopped by the turns so far, by their calls. -/
theorem issued_stops (hissued : s.issued = []) (k : ℕ) :
    ((s.along as k).issued.filter (·.kind = .stop)).map (·.run) =
      ((order.take (s.registry.startedCount - n)).take k).map (·.stop false now) := by
  induction k with
  | zero => simp [along, hissued]
  | succ k ih =>
    obtain ⟨calls, hcalls, hstops, -⟩ := h.issued_succ k
    rw [hcalls, List.filter_append, List.map_append, ih, hstops, List.take_add_one,
      List.map_append]

/-- Where the job cap leaves no room, only stops are called for. -/
theorem issued_only_stops (hissued : s.issued = []) (hmany : n ≤ s.registry.startedCount) (k : ℕ) :
    ∀ call ∈ (s.along as k).issued, call.kind = .stop := by
  induction k with
  | zero => simp [along, hissued]
  | succ k ih =>
    obtain ⟨calls, hcalls, -, honly⟩ := h.issued_succ k
    rw [hcalls, List.forall_mem_append]
    exact ⟨ih, honly hmany⟩

end Scheduler.Sheds

/-- **A lower job cap sheds exactly the surplus.**  When nothing is planned, no executor is paused
and a job cap is set, the started runs are stopped one per turn in the reverse order of their starts
(the order of addition deciding a tie), as many as there are above the cap.  No other run is stopped
while nothing comes in and the clock stands still.  If the cap is met or exceeded, no run is started
either.  As long as there is a surplus, each turn asks for the next one at once. -/
theorem lowered_cap_sheds {config : Config κ} {session : Session κ} (h : Reachable config session)
    {now : Instant}
    (hidle : (plan session.scheduler.registry session.scheduler.config now).action = none)
    (hopen : ∀ e ∈ session.scheduler.registry.executors, e.paused = false) {n : Nat} (hn : 0 < n)
    {as : ℕ → Advance κ} (has : Advance.SetsCap as n now) :
    let s := session.scheduler
    let surplus := s.registry.startedCount - n
    ∃ order : List (Run κ), order.Perm (s.registry.allRuns.filter (·.startedAt.isSome)) ∧
      (order.Pairwise fun a b => b.startKey < a.startKey) ∧
      (∀ k job reason, s.plannedAt as k = some (.stop job reason) ↔
        reason = .overJobLimit ∧ ∃ run, (order.take surplus)[k]? = some run ∧ run.job.id = job) ∧
      (∀ k, ((s.along as k).issued.filter (·.kind = .stop)).map (·.run) =
        ((order.take surplus).take k).map (·.stop false now)) ∧
      (∀ k < surplus, (s.along as (k + 1)).refreshDue = true) ∧
      (n ≤ s.registry.startedCount →
        (∀ k job executor, s.plannedAt as k ≠ some (.start job executor)) ∧
        ∀ k, ∀ call ∈ (s.along as k).issued, call.kind = .stop) := by
  intro s surplus
  obtain ⟨order, hperm, hsorted⟩ := h.sound.exists_startOrder
  have hsheds : s.Sheds as n now order :=
    ⟨has, .of_idle h.sound hopen hidle n, hn, hperm, hsorted⟩
  have hplanned : ∀ k, s.plannedAt as k =
      (plan (s.seenAt as k).registry { s.config with maxJobs := n } now).action := fun k => by
    rw [has.plannedAt_eq, has.config_seenAt]
  refine ⟨order, hperm, hsorted, fun k job reason => ?_, hsheds.issued_stops h.issued_eq_nil,
    fun k hk => ?_, fun hmany => ⟨fun k job executor => ?_,
      hsheds.issued_only_stops h.issued_eq_nil hmany⟩⟩
  · rw [hplanned]
    exact hsheds.plan_stop_iff
  · have hdue := (Advance.acts_add_movesLeft (along_sound h.sound as k) (has.isTurn k).1).1
    have hstop := hsheds.plan_surplus hk (hsheds.lt_length hk) (hsheds.startedRuns_perm hk.le)
    change (s.along as (k + 1)).refreshDue = (s.plannedAt as k).isSome at hdue
    rw [hdue, hplanned, hstop]
    rfl
  · rw [hplanned]
    exact hsheds.plan_ne_start hmany k job executor

/-- Three jobs run, the last two of them started at one instant. -/
def threeStarted : Session ℚ :=
  (Session.play (fun _ _ => true) { scheduler := { config := startConfirms }, now := 0 }
    [(0, .request (.addExecutor { id := "A", capacity := 9 })),
      (0, .request (.addExecutor { id := "B", capacity := 9 })),
      (0, .request (.addJob { id := "j1", cost := 1 })), (0, .answer 0 (.ok ())),
      (1, .request (.addJob { id := "j2", cost := 1 })), (1, .answer 0 (.ok ())),
      (1, .request (.addJob { id := "j3", cost := 1 })), (1, .answer 0 (.ok ()))]).get
    (by decide +kernel)

/-- The job cap is lowered to one, and nothing comes in after that. -/
def lowering : ℕ → Advance ℚ
  | 0 => .turn (.request 0 (.maxJobs 1)) 5 5 5
  | _ + 1 => .turn .refresh 5 5 5

theorem lowered_cap_sheds_threeStarted :
    (plan threeStarted.scheduler.registry threeStarted.scheduler.config 5).action = none ∧
      threeStarted.scheduler.registry.startedCount = 3 ∧
      threeStarted.scheduler.plannedAt lowering 0 = some (.stop "j3" .overJobLimit) ∧
      threeStarted.scheduler.plannedAt lowering 1 = some (.stop "j2" .overJobLimit) ∧
      (∀ k job reason, 2 ≤ k →
        threeStarted.scheduler.plannedAt lowering k ≠ some (.stop job reason)) ∧
      ∀ k job executor,
        threeStarted.scheduler.plannedAt lowering k ≠ some (.start job executor) := by
  have hreach : Reachable startConfirms threeStarted :=
    Session.play_reachedBy (fun _ _ _ => trivial) (.start 0 (by decide +kernel))
      (Option.some_get _).symm
  have hidle : (plan threeStarted.scheduler.registry threeStarted.scheduler.config 5).action =
      none := by decide +kernel
  have hcount : threeStarted.scheduler.registry.startedCount = 3 := by decide +kernel
  have hseries : Advance.SetsCap lowering 1 5 := ⟨⟨0, 5, 5, rfl⟩, fun _ => ⟨.refresh 5 5 5, rfl⟩⟩
  obtain ⟨order, -, -, hstops, -, -, hstarts⟩ :=
    lowered_cap_sheds hreach hidle (by decide +kernel) Nat.one_pos hseries
  refine ⟨hidle, hcount, by decide +kernel, by decide +kernel, fun k job reason hk hstop => ?_,
    (hstarts (by rw [hcount]; decide)).1⟩
  obtain ⟨-, run, hrun, -⟩ := (hstops k job reason).1 hstop
  have hlt := (List.getElem?_eq_some_iff.1 hrun).1
  rw [List.length_take, hcount] at hlt
  omega

end Dispatch
