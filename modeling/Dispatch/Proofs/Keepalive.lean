import Dispatch.Proofs.Numbers
import Dispatch.Proofs.Registry.Operations
import Dispatch.Rehearsal.World

/-!
# How often an executor has to report

An executor counts as alive for 140 hundredths of the alive duration after it was last heard of.
The sender that reports for it is set up with half of that duration, but does not report more often
than once in a millisecond.  So an alive duration may be so short that an executor is taken for dead
between two reports.

* `Duration.window`, `Duration.le_window`, `Duration.window_mono` : how long a report counts;
* `Keepalive.Attended` : a sender and the tables, where each word is taken in when it is due;
* `Keepalive.Attended.onTime` : **words are due at the ticks of the sender**, and the tables have
  the last of them;
* `keepalive_sustains_iff` : **the sender keeps an executor alive from each tick to the next exactly
  if the alive duration is longer than 714 286 nanoseconds.**
-/

namespace Dispatch

variable {κ : Type}

/-! ### How long a report counts -/

namespace Duration

/-- How long an executor counts as alive under an alive duration that is not zero. -/
def window (d : Duration) : Duration :=
  if 140 * d ≤ longest then 140 * d / 100 else longest

variable {d d' : Duration}

theorem le_window (hmax : d ≤ longest) : d ≤ d.window := by
  unfold window
  split <;> unfold Duration at * <;> omega

theorem window_mono (h : d ≤ d') : d.window ≤ d'.window := by
  unfold window
  split <;> split <;> unfold Duration at * <;> omega

/-- Half of an alive duration, but at least a millisecond, is shorter than the window unless the
window is not longer than a millisecond. -/
theorem period_lt_window_iff (hmax : d ≤ longest) :
    max (Keepalive.periodFor d) (ofMillis 1) < d.window ↔ 714286 < d := by
  unfold Keepalive.periodFor ofMillis window
  split <;> unfold Duration at *
  · omega
  · unfold longest at *
    omega

end Duration

theorem Config.aliveWindow_eq {c : Config κ} (hpos : 0 < c.aliveDuration) :
    c.aliveWindow = some c.aliveDuration.window := by
  rw [aliveWindow, if_neg (Nat.ne_of_gt hpos), Duration.window]
  split <;> rfl

/-- A report counts for as long as the window. -/
theorem Executor.isAlive_iff {e : Executor κ} {now last : Instant} {window : Duration}
    (hkept : e.keptAliveAt = some last) (hlater : last ≤ now) :
    e.isAlive now (some window) = true ↔ now < last + window := by
  rw [isAlive, hkept]
  show decide (now.since last < window) = true ↔ _
  rw [decide_eq_true_eq]
  unfold Instant.since Duration Instant at *
  omega

/-! ### Words that are taken in when they are due -/

theorem Registry.keptAliveAt_of_keepAlive {r r' : Registry κ} {id : String} {now : Instant}
    {e : Executor κ} (h : r.keepAlive id now = .ok r') (he : r'.executor? id = some e) :
    e.keptAliveAt = some now := by
  obtain rfl := of_keepAlive h
  obtain ⟨hmem, hid⟩ := mem_of_executor? he
  obtain ⟨old, -, rfl⟩ := List.mem_map.1 hmem
  by_cases hold : old.id = id
  · rw [if_pos hold]
  · rw [if_neg hold] at hid
    exact absurd hid hold

theorem World.hearBack_keeps (w : World κ) (k : Keepalive) :
    (w.hearBack k).2.executor = k.executor ∧ (w.hearBack k).2.period = k.period ∧
      (w.hearBack k).2.next = k.next := by
  unfold hearBack
  repeat' split
  all_goals exact ⟨rfl, rfl, rfl⟩

/-- A sender that sends a word is due again a period later. -/
theorem World.sendWord_keeps (w : World κ) (k : Keepalive) :
    (w.sendWord k).2.executor = k.executor ∧ (w.sendWord k).2.period = k.period ∧
      ((w.sendWord k).2.next = k.next ∨ (w.sendWord k).2.next = k.next + k.period) := by
  unfold sendWord
  split
  · exact ⟨rfl, rfl, .inl rfl⟩
  split
  · exact ⟨rfl, rfl, .inl rfl⟩
  split
  · obtain ⟨hexec, hperiod, hnext⟩ := hearBack_keeps (w.offer (.executorIsAlive k.executor)).2
      { k with
        awaiting := some (w.offer (.executorIsAlive k.executor)).1, next := k.next + k.period }
    exact ⟨hexec, hperiod, .inr hnext⟩
  · exact ⟨rfl, rfl, .inl rfl⟩

theorem World.sendWord_due {w : World κ} {k : Keepalive} (hopen : k.ended = false)
    (hfree : k.awaiting = none) (hlasts : k.cancelled = false)
    (hdue : k.next.ceilMillis ≤ w.millis) : (w.sendWord k).2.next = k.next + k.period := by
  rw [sendWord, if_neg (by simp [hopen, hfree]), if_neg (by simp [hlasts]), if_pos hdue]
  exact (hearBack_keeps _ _).2.2

namespace Keepalive

/-- When a word is due, after so many others. -/
def due (k : Keepalive) (n : Nat) : Duration := k.next + n * k.period

/-- What becomes of a sender and of the tables while so many words are sent, each of which is taken
in at the instant at which it is due.  In between the sender may wait or take in an answer, and
whatever happens to the tables leaves the last report of the executor as it is. -/
inductive Attended (sender : Keepalive) : Nat → Keepalive → Registry κ → Prop
  | start (r : Registry κ) : Attended sender 0 sender r
  | answer {n k} {r : Registry κ} (w : World κ) : Attended sender n k r →
      Attended sender n (w.hearBack k).2 r
  | wait {n k} {r : Registry κ} (w : World κ) : Attended sender n k r →
      (w.sendWord k).2.next = k.next → Attended sender n (w.sendWord k).2 r
  | word {n k} {r r' : Registry κ} (w : World κ) : Attended sender n k r →
      (w.sendWord k).2.next ≠ k.next → r.keepAlive k.executor k.next = .ok r' →
      Attended sender (n + 1) (w.sendWord k).2 r'
  | change {n k} {r r' : Registry κ} : Attended sender n k r →
      (r'.executor? sender.executor).map (·.keptAliveAt) =
        (r.executor? sender.executor).map (·.keptAliveAt) → Attended sender n k r'

/-- The next word is due at a tick, and the last one was heard at the tick before. -/
structure OnTime (sender : Keepalive) (n : Nat) (k : Keepalive) (r : Registry κ) : Prop where
  executor : k.executor = sender.executor
  period : k.period = sender.period
  next : k.next = sender.due n
  heard : ∀ m, n = m + 1 → ∀ e, r.executor? sender.executor = some e →
    e.keptAliveAt = some (sender.due m : Instant)

variable {sender k : Keepalive} {n : Nat} {r : Registry κ} {e : Executor κ}

theorem due_succ (k : Keepalive) (n : Nat) : k.due (n + 1) = k.due n + k.period := by
  rw [due, due, Nat.succ_mul, Nat.add_assoc]

/-- **Words are due at the ticks of the sender**, and the tables have the last of them. -/
theorem Attended.onTime (h : Attended sender n k r) : OnTime sender n k r := by
  induction h with
  | start r => exact ⟨rfl, rfl, by simp [due], by simp⟩
  | answer w _ ih =>
    obtain ⟨hexec, hperiod, hnext⟩ := w.hearBack_keeps _
    exact ⟨hexec.trans ih.executor, hperiod.trans ih.period, hnext.trans ih.next, ih.heard⟩
  | wait w _ hwait ih =>
    obtain ⟨hexec, hperiod, -⟩ := w.sendWord_keeps _
    exact ⟨hexec.trans ih.executor, hperiod.trans ih.period, hwait.trans ih.next, ih.heard⟩
  | word w _ hsent hkeep ih =>
    obtain ⟨hexec, hperiod, hnext⟩ := w.sendWord_keeps _
    refine ⟨hexec.trans ih.executor, hperiod.trans ih.period, ?_, fun m hm e he => ?_⟩
    · rw [hnext.resolve_left hsent, ih.next, ih.period, due_succ]
    · obtain rfl := Nat.succ.inj hm
      rw [ih.executor, ih.next] at hkeep
      exact Registry.keptAliveAt_of_keepAlive hkeep he
  | change _ hsame ih =>
    refine ⟨ih.executor, ih.period, ih.next, fun m hm e he => ?_⟩
    rw [he, Option.map_some, eq_comm, Option.map_eq_some_iff] at hsame
    obtain ⟨old, hold, hkept⟩ := hsame
    rw [← hkept]
    exact ih.heard m hm old hold

/-- From the tick at which a word was taken in, the executor is alive for as long as it counts. -/
theorem Attended.isAlive_iff (h : Attended sender (n + 1) k r)
    (he : r.executor? sender.executor = some e) {t : Instant} {window : Duration}
    (hlater : (sender.due n : Instant) ≤ t) :
    e.isAlive t (some window) = true ↔ t < (sender.due n : Instant) + window :=
  Executor.isAlive_iff (h.onTime.heard n rfl e he) hlater

/-- A sender that is set up for a registered executor sends its first word at once. -/
theorem exists_attended [Quantity κ] (config : Config κ) (executor : String) (period : Duration)
    (start : Nat) : ∃ k, ∃ r : Registry κ, ∃ e,
      Attended (every executor period start) 1 k r ∧ r.executor? executor = some e := by
  let sender := every executor period start
  let e : Executor κ := { id := executor, capacity := 0 }
  let world : World κ := { World.start config (.scripted false) with millis := start }
  have hdue : sender.next.ceilMillis ≤ world.millis := by
    show (start * 1000000 + 999999) / 1000000 ≤ start
    omega
  have hperiod : 0 < sender.period := Nat.lt_of_lt_of_le (by decide) (Nat.le_max_right _ _)
  have hsent : (world.sendWord sender).2.next ≠ sender.next := by
    rw [World.sendWord_due rfl rfl rfl hdue]
    exact Nat.ne_of_gt (Nat.lt_add_of_pos_right hperiod)
  have hkeep : ({ executors := [e] } : Registry κ).keepAlive executor sender.next =
      .ok { executors := [{ e with keptAliveAt := some sender.next }] } := by
    simp [e, Registry.keepAlive, Registry.executor?, Registry.modifyExecutor]
  exact ⟨_, _, { e with keptAliveAt := some sender.next },
    .word world (.start _) hsent hkeep, by simp [e, Registry.executor?]⟩

/-- Under these settings an executor is alive from each tick of its sender to the next. -/
def Sustains (sender : Keepalive) (config : Config κ) : Prop :=
  ∀ n k (r : Registry κ) e, Attended sender (n + 1) k r → r.executor? sender.executor = some e →
    ∀ t : Instant, (sender.due n : Instant) ≤ t → t ≤ (sender.due (n + 1) : Instant) →
      e.isAlive t config.aliveWindow = true

/-- A sender keeps an executor alive exactly if its period is shorter than the window. -/
theorem sustains_iff [Quantity κ] {config : Config κ} {window : Duration}
    (hwindow : config.aliveWindow = some window) (executor : String) (period : Duration)
    (start : Nat) : (every executor period start).Sustains config ↔
      (every executor period start).period < window := by
  constructor
  · intro hsustains
    obtain ⟨k, r, e, hattended, he⟩ := exists_attended config executor period start
    -- look at the executor at the very instant at which the next word is due
    have hnext : ((every executor period start).due 0 : Instant) ≤
        (every executor period start).due 1 := by
      rw [due_succ]
      exact Int.ofNat_le.2 (Nat.le_add_right _ _)
    have halive := hsustains 0 k r e hattended he _ hnext (Int.le_refl _)
    rw [hwindow, hattended.isAlive_iff he hnext, due_succ, Int.natCast_add] at halive
    exact Int.ofNat_lt.1 (Int.lt_of_add_lt_add_left halive)
  · intro hperiod n k r e hattended he t hafter hbefore
    rw [hwindow, hattended.isAlive_iff he hafter]
    rw [due_succ, Int.natCast_add] at hbefore
    exact Int.lt_of_le_of_lt hbefore (Int.add_lt_add_left (Int.ofNat_lt.2 hperiod) _)

end Keepalive

/-- **The recommended sender keeps an executor alive**, exactly under alive durations of more than
714 286 nanoseconds.  Shorter ones do not count for longer than the millisecond that passes between
two words.  The window is 140 hundredths of the alive duration, or the longest duration if these do
not fit, is not shorter than the alive duration, and grows with it. -/
theorem keepalive_sustains_iff [Quantity κ] {config : Config κ} (hpos : 0 < config.aliveDuration)
    (hmax : config.aliveDuration ≤ Duration.longest) (executor : String) (start : Nat) :
    let d := config.aliveDuration
    let sender := Keepalive.every executor (Keepalive.periodFor d) start
    ∃ window, config.aliveWindow = some window ∧
      (140 * d ≤ Duration.longest → window = 140 * d / 100) ∧
      (Duration.longest < 140 * d → window = Duration.longest) ∧
      d ≤ window ∧
      (∀ config' : Config κ, d ≤ config'.aliveDuration →
        ∃ window', config'.aliveWindow = some window' ∧ window ≤ window') ∧
      sender.period = max (d / 2) (Duration.ofMillis 1) ∧
      (sender.period < window ↔ 714286 < d) ∧
      (sender.Sustains config ↔ 714286 < d) := by
  intro d sender
  have hwindow := Config.aliveWindow_eq hpos
  have hperiod : sender.period < d.window ↔ 714286 < d := Duration.period_lt_window_iff hmax
  refine ⟨d.window, hwindow, fun hfits => if_pos hfits, fun hover => if_neg (Nat.not_le.2 hover),
    Duration.le_window hmax, fun config' hle => ?_, rfl, hperiod, ?_⟩
  · exact ⟨_, Config.aliveWindow_eq (Nat.lt_of_lt_of_le hpos hle), Duration.window_mono hle⟩
  · rw [← hperiod]
    exact Keepalive.sustains_iff hwindow executor _ start

/-- Settings under which a report counts for a nanosecond longer than a millisecond. -/
def brisk : Config ℚ := { balanceAt := 0, aliveDuration := 714287 }

theorem keepalive_sustains_iff_brisk : brisk.aliveWindow = some 1000001 ∧
    (Keepalive.every "A" (Keepalive.periodFor 714287) 0).period = 1000000 ∧
    (Keepalive.every "A" (Keepalive.periodFor 714287) 0).Sustains brisk := by
  have hpos : 0 < brisk.aliveDuration := by decide
  obtain ⟨_, -, -, -, -, -, -, -, hsustains⟩ := keepalive_sustains_iff hpos (by decide) "A" 0
  exact ⟨by decide +kernel, by decide +kernel, hsustains.2 (by decide)⟩

/-- Settings under which a report counts for seven tenths of a millisecond. -/
def hasty : Config ℚ := { balanceAt := 0, aliveDuration := 500000 }

/-- **An executor is dead between two reports that come when they are due**, a millisecond apart. -/
theorem keepalive_sustains_fails : hasty.validate = .ok () ∧ hasty.aliveWindow = some 700000 ∧
    ∃ sender, sender = Keepalive.every "A" (Keepalive.periodFor hasty.aliveDuration) 0 ∧
      sender.due 0 = 0 ∧ sender.due 1 = 1000000 ∧
      ∃ k, ∃ r : Registry ℚ, ∃ e, sender.Attended 1 k r ∧ r.executor? "A" = some e ∧
        e.isAlive 900000 hasty.aliveWindow = false := by
  have hwindow : hasty.aliveWindow = some 700000 := by decide +kernel
  obtain ⟨k, r, e, hattended, he⟩ := Keepalive.exists_attended hasty "A"
    (Keepalive.periodFor hasty.aliveDuration) 0
  refine ⟨by decide +kernel, hwindow, _, rfl, by decide +kernel, by decide +kernel, k, r, e,
    hattended, he, ?_⟩
  rw [← Bool.not_eq_true, hwindow, hattended.isAlive_iff he (by decide +kernel)]
  decide +kernel

end Dispatch
