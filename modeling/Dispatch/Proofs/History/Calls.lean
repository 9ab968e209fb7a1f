import Dispatch.Proofs.History.Positions

/-!
# Calls are counted

The scheduler does not keep the calls that it has issued, only their number.  What it does between
two moments is, as far as calls go, described by `Scheduler.Issues`: some are issued and counted,
and none of them is final as long as the loop serves.

* `Does.issues`, `Advance.apply_issues` : so it is for a deed and for an advance, after the call
  that comes back is handled (`Advance.handled`);
* `ReachedBy.inFlight_eq` : **as many calls are counted as are under way**, so the count is never
  lowered below zero;
* `ReachedBy.not_final` : while the loop serves, a shutdown would cancel every call under way.
-/

namespace Dispatch

variable {κ : Type}

/-- Calls are issued and counted.  The loop is not entered again once it was left, and a call that
is issued before is not final. -/
structure Scheduler.Issues (s s' : Scheduler κ) (calls : List (Call κ)) : Prop where
  issued : s'.issued = s.issued ++ calls
  counted : s'.inFlight = s.inFlight + calls.length
  onward : s'.stage = .serving → s.stage = .serving
  cancellable : s'.stage = .serving → ∀ call ∈ calls, call.final = false

namespace Scheduler.Issues

variable {s s' s'' : Scheduler κ} {calls calls' : List (Call κ)}

theorem silent (issued : s'.issued = s.issued) (counted : s'.inFlight = s.inFlight)
    (onward : s'.stage = .serving → s.stage = .serving) : s.Issues s' [] :=
  ⟨by simp [issued], counted, onward, by simp⟩

theorem refl (s : Scheduler κ) : s.Issues s [] := silent rfl rfl id

theorem trans (h : s.Issues s' calls) (h' : s'.Issues s'' calls') :
    s.Issues s'' (calls ++ calls') where
  issued := by rw [h'.issued, h.issued, List.append_assoc]
  counted := by rw [h'.counted, h.counted, List.length_append, Nat.add_assoc]
  onward hs := h.onward (h'.onward hs)
  cancellable hs call hc := (List.mem_append.1 hc).elim (h.cancellable (h'.onward hs) call)
    (h'.cancellable hs call)

/-- One more call is issued. -/
theorem issue {kind : CallKind} {run : Run κ} {now : Instant} (h : s.Issues s' calls) :
    ∃ calls', s.Issues (s'.issue kind run now) calls' := by
  obtain ⟨call, hissued, hfinal⟩ : ∃ call : Call κ,
      (s'.issue kind run now).issued = s'.issued ++ [call] ∧
        call.final = (s'.stage == .draining) := ⟨_, emit_issued _ _, rfl⟩
  have hone : s'.Issues (s'.issue kind run now) [call] := by
    refine ⟨hissued, rfl, id, fun hs c hc => ?_⟩
    obtain rfl := List.mem_singleton.1 hc
    replace hs : s'.stage = .serving := hs
    rw [hfinal, hs]
    rfl
  exact ⟨_, h.trans hone⟩

end Scheduler.Issues

open Scheduler

variable [Quantity κ] {now : Instant} {s s' : Scheduler κ} {d : Deed κ}

/-- All deeds do so but the one that counts a call as come back. -/
theorem Does.issues (hdoes : Does now s d s') (hd : d ≠ .callBack) :
    ∃ calls, s.Issues s' calls := by
  cases hdoes with
  | aside hsame =>
    exact ⟨[], .silent (by rw [issued, issued, hsame.outbox]) hsame.inFlight hsame.onward⟩
  | callBack => exact absurd rfl hd
  | say ho => exact ⟨[], .silent (by simp [ho]) rfl id⟩
  | start => exact Issues.issue (.silent (by simp) rfl id)
  | stop => exact Issues.issue (.silent (by simp) rfl id)
  | expel => exact Issues.issue (.silent (by simp) rfl id)
  | @settle _ _ result =>
    exact ⟨[], .silent (by simp) (by cases result <;> rfl) (by cases result <;> exact id)⟩
  | @finish _ _ result =>
    exact ⟨[], .silent (by simp) (by cases result <;> rfl) (by cases result <;> exact id)⟩
  | confirm => exact ⟨[], .silent (by simp) rfl id⟩
  | release => exact ⟨[], .silent (by simp) rfl id⟩
  | _ => exact ⟨[], .silent rfl rfl id⟩

/-- The scheduler when it has counted what comes back with an advance as come back. -/
def Advance.counted (s : Scheduler κ) (a : Advance κ) : Scheduler κ :=
  if a.completion?.isSome then s.heardBack else s

/-- The scheduler when it has dealt with what comes back with an advance, if anything does. -/
def Advance.handled (s : Scheduler κ) (a : Advance κ) : Scheduler κ :=
  if a.completion?.isSome then a.takeIn s else s

theorem Advance.handled_sound {a : Advance κ} (h : s.registry.Sound) :
    (a.handled s).registry.Sound := by
  unfold handled
  split
  · exact Advance.takeIn_sound h
  · exact h

/-- What a call that comes back brings about issues and counts calls. -/
theorem Advance.handled_issues (s : Scheduler κ) (a : Advance κ) :
    ∃ calls, (a.counted s).Issues (a.handled s) calls := by
  cases hc : a.completion? with
  | none =>
    simp only [counted, handled, hc, Option.isSome_none, Bool.false_eq_true, if_false]
    exact ⟨[], .refl s⟩
  | some c =>
    simp only [counted, handled, hc, Option.isSome_some, if_true]
    rw [Advance.takeIn_completion hc]
    rcases complete_eq s c a.heard with ⟨-, heq⟩ | ⟨d, hd, hdoes⟩
    · rw [heq]
      exact ⟨[], .refl _⟩
    · refine hdoes.issues ?_
      obtain ⟨run, -, -, hreturns⟩ := effect?_eq_some_iff.1 hd
      cases hreturns <;> nofun

omit [Quantity κ] in
theorem Deed.IsRoutine.ends_nothing {d : Deed κ} (h : d.IsRoutine) :
    d ≠ .callBack ∧ d.ended? = none := by
  cases d <;> first | exact h.elim | exact ⟨nofun, rfl⟩

/-- No other call comes back and no other stop ends while the event is taken in, -/
theorem Advance.handled_intake (hsound : s.registry.Sound) (a : Advance κ) :
    Course (fun _ _ d => d ≠ .callBack ∧ d.ended? = none) (a.handled s) (a.takeIn s) := by
  unfold handled
  split
  · exact .refl _
  · rename_i hc
    have hnone : a.completion? = none := by simpa using hc
    refine Advance.takeIn_course hsound.run_key ?_
    exact ⟨fun _ _ hd => hd.ends_nothing, by simp [hnone], by simp [hnone],
      by simp [Deed.ended?], by simp [Deed.ended?], by simp [Deed.ended?], by simp [Deed.ended?],
      by simp [Deed.ended?]⟩

/-- and none from then on. -/
theorem Advance.handled_course (hsound : s.registry.Sound) (a : Advance κ) :
    Course (fun _ _ d => d ≠ .callBack ∧ d.ended? = none) (a.handled s) (a.apply s) :=
  (Advance.handled_intake hsound a).trans
    (Advance.sequel_course ⟨fun _ _ hd => hd.ends_nothing, by simp [Deed.ended?]⟩)

/-- **An advance only issues calls** once it has counted the one that comes back. -/
theorem Advance.apply_issues {a : Advance κ} (hsound : s.registry.Sound) :
    ∃ calls, (a.counted s).Issues (a.apply s) calls := by
  obtain ⟨calls, hcalls⟩ := Advance.handled_issues s a
  have hcourse := (Advance.handled_course hsound a).invariant
    (I := fun s' => ∃ calls', (a.handled s).Issues s' calls') ⟨[], .refl _⟩ ?_
  · obtain ⟨calls', hcalls'⟩ := hcourse
    exact ⟨calls ++ calls', hcalls.trans hcalls'⟩
  · rintro _ _ d _ ⟨calls', hcalls'⟩ ⟨hd, -⟩ hdoes
    obtain ⟨calls'', hcalls''⟩ := hdoes.issues hd
    exact ⟨calls' ++ calls'', hcalls'.trans hcalls''⟩

section Session

variable {P : Scheduler κ → Advance κ → Prop} {config : Config κ} {session : Session κ}

/-- The calls that an advance issues are those in the outbox afterwards. -/
theorem ReachedBy.apply_issues (h : ReachedBy P config session) (a : Advance κ) :
    (a.counted session.scheduler).Issues (a.apply session.scheduler)
      (a.apply session.scheduler).issued := by
  obtain ⟨calls, hissues⟩ := Advance.apply_issues (a := a) h.sound
  have hempty : (a.counted session.scheduler).outbox = [] := by
    unfold Advance.counted
    split <;> exact h.outbox_eq_nil
  have hissued : (a.apply session.scheduler).issued = calls := by
    simpa [Scheduler.issued, hempty] using hissues.issued
  rw [hissued]
  exact hissues

/-- The loop is not entered again once it was left. -/
theorem ReachedBy.serving_of_apply (h : ReachedBy P config session) {a : Advance κ}
    (hstage : (a.apply session.scheduler).stage = .serving) :
    session.scheduler.stage = .serving := by
  have hbefore := (h.apply_issues a).onward hstage
  unfold Advance.counted at hbefore
  split at hbefore <;> exact hbefore

/-- **As many calls are counted as are under way.** -/
theorem ReachedBy.inFlight_eq (h : ReachedBy P config session) :
    session.scheduler.inFlight = session.underWay.length := by
  refine h.invariant (I := fun session => session.scheduler.inFlight = session.underWay.length)
    (fun _ _ => rfl) ?_
  rintro session a _ hreach hcount - ⟨-, -, rest, htakes, rfl⟩
  -- the call that comes back is one of those counted
  have hleft : (a.counted session.scheduler).inFlight = rest.length := by
    cases hc : a.completion? with
    | none =>
      rw [hc] at htakes
      obtain rfl : rest = session.underWay := htakes
      simp [Advance.counted, hc, hcount]
    | some c =>
      rw [hc] at htakes
      obtain ⟨before, call, after, result, hsplit, -, rfl⟩ := htakes
      simp [Advance.counted, hc, heardBack, hcount, hsplit]
  simp only [Session.after, List.length_append]
  rw [(hreach.apply_issues a).counted, hleft]

/-- **While the loop serves, no call under way is final.** -/
theorem ReachedBy.not_final (h : ReachedBy P config session)
    (hstage : session.scheduler.stage = .serving) :
    ∀ call ∈ session.underWay, call.final = false := by
  revert hstage
  refine h.invariant (I := fun session => session.scheduler.stage = .serving →
    ∀ call ∈ session.underWay, call.final = false) (fun _ _ => by simp) ?_
  rintro session a _ hreach hcancellable - ⟨-, -, rest, htakes, rfl⟩ hstage call hcall
  have hissues := hreach.apply_issues a
  replace hstage : (a.apply session.scheduler).stage = .serving := hstage
  have hserving : session.scheduler.stage = .serving := hreach.serving_of_apply hstage
  rcases List.mem_append.1 hcall with hold | hnew
  · exact hcancellable hserving call (htakes.subset.subset hold)
  · exact hissues.cancellable hstage call hnew

end Session

end Dispatch
