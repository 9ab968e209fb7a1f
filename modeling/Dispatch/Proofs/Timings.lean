import Dispatch.Timings
import Mathlib.Algebra.Order.BigOperators.Group.List
import Mathlib.Algebra.Order.Group.Int
import Mathlib.Data.List.Induction
import Mathlib.Tactic.Linarith

/-!
# Where the time of a job goes

A job enters one phase after the other, and each phase lasts until the next one is entered.  The
accounts of a job are compared with these spans of time: no time is counted twice, and none is lost.
In particular the time a job was gone, which is not counted but left over, is the time that it was
gone.

* `Timings.replay` : the accounts after a sequence of phases;
* `spans`, `timeIn` : the stretches of time between two entries, and how long those of a phase are;
* `spans_concat`, `timeIn_spans_concat` : what one more entry adds;
* `length_spans` : the stretches follow each other without a gap;
* `InOrder` : phases are entered at instants that do not go back;
* `Timings.close_replay` : what is accounted for once the open phase is closed;
* `Timings.closingSums`, `Timings.settlingSums` : the sums of durations that are formed;
* `Timings.close_formed`, `Timings.settled_formed` : that the accounts come of these sums;
* `Timings.settled_replay` : **the accounts of a settled copy are the times spent in each phase,
  they add up to the time the job has been known, and no sum of durations is too long.**
-/

namespace Dispatch

/-! ### Stretches of time -/

/-- A stretch of time that a job is in a phase. -/
structure Span where
  phase : Phase
  start : Instant
  stop : Instant

/-- How long the stretch is. -/
def Span.length (s : Span) : Int := s.stop - s.start

/-- The stretches of time opened by entering phases one after the other; the last one is up to
now. -/
def spans (now : Instant) : List (Phase × Instant) → List Span
  | [] => []
  | (phase, start) :: entries =>
    { phase, start, stop := (entries.head?.map Prod.snd).getD now } :: spans now entries

/-- How long a job was in a phase. -/
def timeIn (phase : Phase) (stretches : List Span) : Int :=
  ((stretches.filter (·.phase = phase)).map (·.length)).sum

/-- One more entry ends the last stretch and opens another one. -/
theorem spans_concat (now : Instant) (entries : List (Phase × Instant)) (phase : Phase)
    (t : Instant) : spans now (entries ++ [(phase, t)]) =
      spans t entries ++ [{ phase, start := t, stop := now }] := by
  induction entries with
  | nil => rfl
  | cons e entries ih =>
    rw [List.cons_append, spans, ih]
    cases entries <;> rfl

theorem timeIn_concat (phase : Phase) (stretches : List Span) (s : Span) :
    timeIn phase (stretches ++ [s]) =
      timeIn phase stretches + if s.phase = phase then s.length else 0 := by
  simp only [timeIn, List.filter_append, List.map_append, List.sum_append, List.filter_cons]
  split <;> simp_all

/-- What one more entry adds to the time in a phase. -/
theorem timeIn_spans_concat (phase : Phase) (now : Instant) (entries : List (Phase × Instant))
    (next : Phase) (t : Instant) : timeIn phase (spans now (entries ++ [(next, t)])) =
      timeIn phase (spans t entries) + if next = phase then now - t else 0 := by
  rw [spans_concat, timeIn_concat]
  rfl

/-- The stretches follow each other, from the first entry up to now. -/
theorem length_spans (now : Instant) (first : Phase × Instant) (entries : List (Phase × Instant)) :
    ((spans now (first :: entries)).map (·.length)).sum = now - first.2 := by
  induction entries generalizing first with
  | nil => simp [spans, Span.length]
  | cons next entries ih =>
    rw [spans, List.map_cons, List.sum_cons, ih]
    simp only [Span.length, List.head?_cons, Option.map_some, Option.getD_some]
    exact sub_add_sub_cancel' _ _ _

/-- Every stretch is one of a phase. -/
theorem sum_timeIn (stretches : List Span) :
    timeIn .existing stretches + timeIn .starting stretches + timeIn .running stretches +
      timeIn .ending stretches + timeIn .gone stretches =
        (stretches.map (·.length)).sum := by
  induction stretches using List.reverseRecOn with
  | nil => rfl
  | append_singleton stretches s ih =>
    simp only [timeIn_concat, List.map_append, List.sum_append, ← ih]
    cases s.phase <;> simp <;> omega

/-- Entries in the order of time, none of them after `now`. -/
structure InOrder (now : Instant) (entries : List (Phase × Instant)) : Prop where
  sorted : entries.Pairwise (·.2 ≤ ·.2)
  past : ∀ e ∈ entries, e.2 ≤ now

/-- Of entries in order, those before any one of them are in order up to it. -/
theorem InOrder.before {now t : Instant} {before after : List (Phase × Instant)} {phase : Phase}
    (h : InOrder now (before ++ (phase, t) :: after)) : InOrder t before := by
  obtain ⟨hbefore, -, hcross⟩ := List.pairwise_append.1 h.sorted
  exact ⟨hbefore, fun e he => hcross e he (phase, t) List.mem_cons_self⟩

/-- No stretch has a negative length. -/
theorem InOrder.length_nonneg {now : Instant} {entries : List (Phase × Instant)}
    (h : InOrder now entries) : ∀ s ∈ spans now entries, 0 ≤ s.length := by
  induction entries using List.reverseRecOn generalizing now with
  | nil => simp [spans]
  | append_singleton entries e ih =>
    obtain ⟨phase, t⟩ := e
    rw [spans_concat, List.forall_mem_append, List.forall_mem_singleton]
    exact ⟨ih h.before, Int.sub_nonneg.2 (h.past (phase, t) (by simp))⟩

theorem InOrder.timeIn_nonneg {now : Instant} {entries : List (Phase × Instant)}
    (h : InOrder now entries) (phase : Phase) : 0 ≤ timeIn phase (spans now entries) := by
  refine List.sum_nonneg fun x hx => ?_
  obtain ⟨s, hs, rfl⟩ := List.mem_map.1 hx
  exact h.length_nonneg s (List.mem_filter.1 hs).1

/-- Time that has elapsed is a difference. -/
theorem Instant.coe_since {earlier now : Instant} (h : earlier ≤ now) :
    ((now.since earlier : Duration) : ℤ) = now - earlier :=
  Int.toNat_of_nonneg (Int.sub_nonneg.2 h)

namespace Timings

/-! ### The accounts -/

/-- The accounts after entering phases one after the other. -/
def replay (entries : List (Phase × Instant)) : Timings :=
  entries.foldl (fun t e => t.enter e.1 e.2) {}

/-- The account of a phase. -/
def spent (t : Timings) : Phase → Duration
  | .existing => t.existed
  | .starting => t.started
  | .running => t.ran
  | .ending => t.ended
  | .gone => t.gone

theorem replay_concat (entries : List (Phase × Instant)) (phase : Phase) (t : Instant) :
    replay (entries ++ [(phase, t)]) = (replay entries).enter phase t := by
  simp [replay]

theorem spent_credit {phase : Phase} (hphase : phase ≠ .gone) (t : Timings) (current : Phase)
    (d : Duration) :
    (t.credit current d).spent phase = t.spent phase + if current = phase then d else 0 := by
  cases current <;> cases phase <;> simp_all [credit, spent]

/-- Closing a phase counts it in its account. -/
theorem spent_close {phase : Phase} (hphase : phase ≠ .gone) (t : Timings) (now : Instant) :
    (t.close now).spent phase =
      t.spent phase + t.current.elim 0 fun c => if c.1 = phase then now.since c.2 else 0 := by
  cases hcurrent : t.current with
  | none => simp [close, hcurrent]
  | some c =>
    rw [Option.elim_some, ← spent_credit hphase, close, hcurrent]
    cases phase <;> rfl

section Enter

variable (t : Timings) (next : Phase) (now : Instant)

theorem spent_enter (phase : Phase) :
    (t.enter next now).spent phase = (t.close now).spent phase := by
  have hknown : ({ t with knownSince := t.knownSince.or (some now) }.close now).spent phase =
      (t.close now).spent phase := by
    simp only [close]
    cases t.current with
    | none => cases phase <;> rfl
    | some c => obtain ⟨current, since⟩ := c; cases current <;> cases phase <;> rfl
  rw [← hknown]
  cases next <;> cases phase <;> rfl

theorem current_enter :
    (t.enter next now).current = if next = .gone then none else some (next, now) := by
  cases next <;> rfl

/-- What closing a phase leaves as it is. -/
theorem close_rest : (t.close now).knownSince = t.knownSince ∧
    (t.close now).startCount = t.startCount ∧ (t.close now).known = t.known ∧
    (t.close now).gone = t.gone := by
  unfold close
  cases t.current with
  | none => exact ⟨rfl, rfl, rfl, rfl⟩
  | some c => obtain ⟨current, since⟩ := c; cases current <;> exact ⟨rfl, rfl, rfl, rfl⟩

/-- What entering a phase does to all but the accounts. -/
theorem enter_rest : (t.enter next now).knownSince = t.knownSince.or (some now) ∧
    (t.enter next now).startCount = t.startCount + (if next = .starting then 1 else 0) ∧
    (t.enter next now).known = t.known ∧ (t.enter next now).gone = t.gone := by
  have hclose := close_rest { t with knownSince := t.knownSince.or (some now) } now
  cases next <;> simpa [enter] using hclose

end Enter

theorem settled_spent {phase : Phase} (hphase : phase ≠ .gone) (t : Timings) (now : Instant) :
    (t.settled now).spent phase = (t.close now).spent phase := by
  cases phase <;> first | rfl | exact absurd rfl hphase

/-- The time a job was gone is what is left over. -/
theorem settled_gone (t : Timings) (now : Instant) :
    (t.settled now).gone = (t.settled now).known - ((t.close now).existed +
      (t.close now).started + (t.close now).ran + (t.close now).ended) := rfl

theorem knownSince_replay (first : Phase × Instant) (rest : List (Phase × Instant)) :
    (replay (first :: rest)).knownSince = some first.2 := by
  induction rest using List.reverseRecOn with
  | nil => exact (enter_rest {} first.1 first.2).1
  | append_singleton rest e ih =>
    rw [← List.cons_append, replay_concat, (enter_rest _ _ _).1, ih]
    rfl

theorem known_settled_replay {first : Phase × Instant} {now : Instant} (h : first.2 ≤ now)
    (rest : List (Phase × Instant)) :
    (((replay (first :: rest)).settled now).known : ℤ) = now - first.2 := by
  rw [← Instant.coe_since h]
  simp only [settled, knownSince_replay]
  rfl

theorem replay_rest (entries : List (Phase × Instant)) :
    (replay entries).startCount = entries.countP (·.1 = .starting) ∧
      (replay entries).known = 0 ∧ (replay entries).gone = 0 := by
  induction entries using List.reverseRecOn with
  | nil => exact ⟨rfl, rfl, rfl⟩
  | append_singleton entries e ih =>
    obtain ⟨hcount, hknown, hgone⟩ := ih
    obtain ⟨-, hcount', hknown', hgone'⟩ := enter_rest (replay entries) e.1 e.2
    rw [replay_concat, hcount', hknown', hgone', hcount, List.countP_append, List.countP_singleton]
    exact ⟨by simp, hknown, hgone⟩

/-- **Each account is the time spent in its phase.** -/
theorem close_replay {entries : List (Phase × Instant)} {now : Instant} {phase : Phase}
    (hphase : phase ≠ .gone) (h : InOrder now entries) :
    (((replay entries).close now).spent phase : ℤ) = timeIn phase (spans now entries) := by
  induction entries using List.reverseRecOn generalizing now with
  | nil => cases phase <;> rfl
  | append_singleton entries e ih =>
    obtain ⟨next, t⟩ := e
    have hpast : t ≤ now := h.past (next, t) (by simp)
    -- the new entry closes the phase before it at `t`, and `now` closes the new one
    rw [timeIn_spans_concat, ← ih h.before, replay_concat, spent_close hphase, spent_enter,
      current_enter]
    by_cases hnext : next = phase
    · simp [hnext, hphase, Instant.coe_since hpast]
    · by_cases hgone : next = .gone <;> simp [hnext, hgone, Ne.symm hphase]

/-- What is counted before the open phase is closed. -/
theorem spent_replay {entries : List (Phase × Instant)} {now : Instant} {phase : Phase}
    (hphase : phase ≠ .gone) (h : InOrder now entries) :
    ((replay entries).spent phase : ℤ) = timeIn phase (spans now entries).dropLast := by
  induction entries using List.reverseRecOn with
  | nil => cases phase <;> rfl
  | append_singleton entries e =>
    obtain ⟨next, t⟩ := e
    rw [replay_concat, spent_enter, close_replay hphase h.before, spans_concat,
      List.dropLast_concat]

/-! ### Sums of durations -/

/-- The sum that is formed when the open phase is closed, if one is open. -/
def closingSums (t : Timings) (now : Instant) : List Duration :=
  match t.current with
  | none | some (.gone, _) => []
  | some (phase, since) => [t.spent phase + now.since since]

/-- The sums that are formed for a settled copy: the open phase is closed, and what is accounted for
is added up. -/
def settlingSums (t : Timings) (now : Instant) : List Duration :=
  let s := t.close now
  t.closingSums now ++
    [s.existed + s.started, s.existed + s.started + s.ran, s.existed + s.started + s.ran + s.ended]

/-- **The account of the phase that is closed is the one sum that is formed**, and the other
accounts are as they were. -/
theorem close_formed {phase : Phase} (hphase : phase ≠ .gone) (t : Timings) (now : Instant) :
    [(t.close now).spent phase] =
      if t.phase? = some phase then t.closingSums now else [t.spent phase] := by
  rw [spent_close hphase]
  cases hcurrent : t.current with
  | none => simp [phase?, hcurrent]
  | some c =>
    obtain ⟨current, since⟩ := c
    by_cases hsame : current = phase
    · subst hsame
      cases current <;> simp_all [phase?, closingSums]
    · simp [phase?, hcurrent, hsame]

/-- **The accounts of a settled copy but one are those of the closed phases, and the last sum that
is formed is taken off the time the job has been known** for that one.  The sums before it are
formed on the way, as the accounts are added up one after the other. -/
theorem settled_formed (t : Timings) (now : Instant) :
    (∀ phase ≠ .gone, (t.settled now).spent phase = (t.close now).spent phase) ∧
    (t.settlingSums now).getLast?.map ((t.settled now).known - ·) = some (t.settled now).gone ∧
    t.settlingSums now = t.closingSums now ++ ([(t.close now).started, (t.close now).ran,
      (t.close now).ended].scanl (· + ·) (t.close now).existed).tail := by
  refine ⟨fun phase hphase => settled_spent hphase t now, ?_, rfl⟩
  rw [settled_gone]
  simp [settlingSums]

/-- A sum that is formed when a phase is closed is the new account of a phase. -/
theorem mem_closingSums {t : Timings} {now : Instant} {sum : Duration}
    (h : sum ∈ t.closingSums now) : ∃ phase ≠ .gone, sum = (t.close now).spent phase := by
  have hopen : ∃ phase ≠ .gone, t.phase? = some phase := by
    unfold closingSums at h
    split at h
    · cases h
    · cases h
    · rename_i phase since hphase hcurrent
      exact ⟨phase, hphase, by simp [phase?, hcurrent]⟩
  obtain ⟨phase, hphase, hcurrent⟩ := hopen
  have hformed := close_formed hphase t now
  rw [if_pos hcurrent] at hformed
  rw [← hformed] at h
  exact ⟨phase, hphase, List.mem_singleton.1 h⟩

section Total

variable {now : Instant} {first : Phase × Instant} {entries rest : List (Phase × Instant)}

/-- What is accounted for is all but the time that the job was gone. -/
theorem sum_close_replay (h : InOrder now entries) :
    (((replay entries).close now).existed + ((replay entries).close now).started +
      ((replay entries).close now).ran + ((replay entries).close now).ended : ℤ) =
        ((spans now entries).map (·.length)).sum - timeIn .gone (spans now entries) := by
  have hexisted := close_replay (show Phase.existing ≠ .gone by decide) h
  have hstarted := close_replay (show Phase.starting ≠ .gone by decide) h
  have hran := close_replay (show Phase.running ≠ .gone by decide) h
  have hended := close_replay (show Phase.ending ≠ .gone by decide) h
  simp only [spent] at hexisted hstarted hran hended
  rw [← sum_timeIn, hexisted, hstarted, hran, hended]
  omega

/-- What is left over is the time that the job was gone. -/
theorem settled_gone_replay (h : InOrder now (first :: rest)) :
    (((replay (first :: rest)).settled now).gone : ℤ) =
      timeIn .gone (spans now (first :: rest)) := by
  have hknown := known_settled_replay (h.past first List.mem_cons_self) rest
  have hsum := sum_close_replay h
  have hgone := h.timeIn_nonneg .gone
  rw [length_spans] at hsum
  rw [settled_gone]
  omega

theorem spent_settled_replay (h : InOrder now (first :: rest)) (phase : Phase) :
    (((replay (first :: rest)).settled now).spent phase : ℤ) =
      timeIn phase (spans now (first :: rest)) := by
  by_cases hphase : phase = .gone
  · rw [hphase]
    exact settled_gone_replay h
  · rw [settled_spent hphase, close_replay hphase h]

/-- No sum is longer than the time since the first entry. -/
theorem settlingSums_le (h : InOrder now (first :: rest)) :
    ∀ sum ∈ (replay (first :: rest)).settlingSums now, (sum : ℤ) ≤ now - first.2 := by
  have htotal := sum_close_replay h
  rw [length_spans] at htotal
  have hgone := h.timeIn_nonneg .gone
  intro sum hsum
  rcases List.mem_append.1 hsum with hclosing | hadding
  · obtain ⟨phase, hphase, rfl⟩ := mem_closingSums hclosing
    cases phase with
    | gone => exact absurd rfl hphase
    | _ => simp only [spent]; omega
  · simp only [List.mem_cons, List.not_mem_nil, or_false] at hadding
    rcases hadding with rfl | rfl | rfl <;> omega

/-- Neither is any sum that is formed on the way. -/
theorem closingSums_le (h : InOrder now (first :: rest)) {before after : List (Phase × Instant)}
    {e : Phase × Instant} (hsplit : first :: rest = before ++ e :: after) :
    ∀ sum ∈ (replay before).closingSums e.2, (sum : ℤ) ≤ now - first.2 := by
  intro sum hsum
  have hpast : (e.2 : ℤ) ≤ now := h.past e (by rw [hsplit]; simp)
  cases before with
  | nil => cases hsum
  | cons first' before =>
    obtain ⟨rfl, -⟩ := List.cons.inj hsplit
    have hle := settlingSums_le (hsplit ▸ h).before sum (List.mem_append_left _ hsum)
    exact hle.trans (Int.sub_le_sub_right hpast _)

end Total

end Timings

/-- An instant that a clock can show. -/
def Instant.IsShown (t : Instant) : Prop := -horizon ≤ t ∧ t < horizon

/-- The time between two instants that a clock can show is a duration. -/
theorem Instant.IsShown.sub_le {t now : Instant} (ht : t.IsShown) (hnow : now.IsShown) :
    now - t ≤ (Duration.longest : ℤ) := by
  have hspan : (Duration.longest : ℤ) = Instant.horizon + Instant.horizon - 1 := by decide +kernel
  have hlow : -(Instant.horizon : ℤ) ≤ t := ht.1
  have hhigh : (now : ℤ) + 1 ≤ Instant.horizon := hnow.2
  linarith

/-- **The accounts of a job cover all of its time.**  When a job has entered one phase after the
other, at instants that do not go back, then in a settled copy

* each account has the total length of the stretches of time opened by entering its phase, the last
  of them up to now; this holds of the time the job was gone as well;
* the time the job has been known is that since the first entry, and the five accounts add up to it;
* the starts are counted.

The copy alone counts the open phase: in the original the accounts are those of the stretches that
have ended.  If clocks can show the first instant and now, then no sum that is formed on the way or
for the copy is longer than the longest duration. -/
theorem Timings.settled_replay {now : Instant} {first : Phase × Instant}
    {rest : List (Phase × Instant)} (h : InOrder now (first :: rest)) :
    (∀ phase, (((replay (first :: rest)).settled now).spent phase : ℤ) =
      timeIn phase (spans now (first :: rest))) ∧
    (((replay (first :: rest)).settled now).known : ℤ) = now - first.2 ∧
    ((replay (first :: rest)).settled now).known =
      ((replay (first :: rest)).settled now).existed +
        ((replay (first :: rest)).settled now).started +
        ((replay (first :: rest)).settled now).ran +
        ((replay (first :: rest)).settled now).ended +
        ((replay (first :: rest)).settled now).gone ∧
    ((replay (first :: rest)).settled now).startCount =
      (first :: rest).countP (·.1 = .starting) ∧
    (∀ phase, phase ≠ .gone → ((replay (first :: rest)).spent phase : ℤ) =
      timeIn phase (spans now (first :: rest)).dropLast) ∧
    (first.2.IsShown → now.IsShown →
      (∀ before e after, first :: rest = before ++ e :: after →
        ∀ sum ∈ (replay before).closingSums e.2, sum ≤ Duration.longest) ∧
      ∀ sum ∈ (replay (first :: rest)).settlingSums now, sum ≤ Duration.longest) := by
  have hknown := known_settled_replay (h.past first List.mem_cons_self) rest
  refine ⟨spent_settled_replay h, hknown, ?_, ?_, fun phase hphase => spent_replay hphase h, ?_⟩
  · have htotal := sum_timeIn (spans now (first :: rest))
    simp only [← spent_settled_replay h, length_spans, ← hknown] at htotal
    exact_mod_cast htotal.symm
  · rw [← (replay_rest (first :: rest)).1]
    exact (close_rest _ now).2.1
  · intro hshown hshown'
    have hlongest := hshown.sub_le hshown'
    refine ⟨fun before e after hsplit sum hsum => ?_, fun sum hsum => ?_⟩
    · exact Int.ofNat_le.1 ((closingSums_le h hsplit sum hsum).trans hlongest)
    · exact Int.ofNat_le.1 ((settlingSums_le h sum hsum).trans hlongest)

/-- A job that runs, is removed, and is added and started once more. -/
def addedTwice : List (Phase × Instant) :=
  [(.existing, 0), (.starting, 2), (.running, 3), (.ending, 10), (.gone, 12), (.existing, 20),
    (.starting, 25)]

theorem Timings.settled_replay_addedTwice : InOrder 30 addedTwice ∧
    ((((replay addedTwice).settled 30).gone : ℤ) = timeIn .gone (spans 30 addedTwice)) ∧
    timeIn .gone (spans 30 addedTwice) = 8 ∧
    ((((replay addedTwice).settled 30).started : ℤ) = timeIn .starting (spans 30 addedTwice)) ∧
    timeIn .starting (spans 30 addedTwice) = 6 ∧
    ((replay addedTwice).settled 30).startCount = 2 ∧
    (((replay addedTwice).started : ℤ) = timeIn .starting (spans 30 addedTwice).dropLast) ∧
    timeIn .starting (spans 30 addedTwice).dropLast = 1 ∧
    ∀ sum ∈ (replay addedTwice).settlingSums 30, sum ≤ Duration.longest := by
  have horder : InOrder 30 addedTwice := ⟨by decide, by decide⟩
  have hshown : Instant.IsShown 0 ∧ Instant.IsShown 30 :=
    ⟨⟨by decide +kernel, by decide +kernel⟩, ⟨by decide +kernel, by decide +kernel⟩⟩
  obtain ⟨hspent, -, -, hcount, horiginal, hsums⟩ := settled_replay horder
  exact ⟨horder, hspent .gone, by decide +kernel, hspent .starting, by decide +kernel, hcount,
    horiginal .starting (by decide), by decide +kernel, (hsums hshown.1 hshown.2).2⟩

end Dispatch
