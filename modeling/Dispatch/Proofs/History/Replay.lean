import Dispatch.Proofs.History.Session

/-!
# Replayed histories

A history may be given as a list of cues: what happens next, and when.  `Session.play` goes through
the list as long as every advance is possible and allowed, and what it ends at has been reached
(`Session.play_reachedBy`), so concrete sessions are shown to be reached by evaluation.
-/

namespace Dispatch

variable {κ : Type}

/-- What happens next in a replayed history. -/
inductive Cue (κ : Type)
  | request (command : Command κ)
  /-- The call at a place among those under way comes back. -/
  | answer (place : Nat) (result : CallResult)
  | refresh
  | timer
  | leave

instance Advance.decidableDue (s : Scheduler κ) (a : Advance κ) : Decidable (a.Due s) := by
  unfold Advance.Due
  split <;> infer_instance

instance Advance.decidableFollows (t : Instant) (a : Advance κ) : Decidable (a.Follows t) := by
  unfold Advance.Follows
  split <;> infer_instance

/-- The advance of a cue, with the earlier calls that are still under way then. -/
def Cue.advance? (s : Session κ) (t : Instant) : Cue κ → Option (Advance κ × List (Call κ))
  | .request command => some (.turn (.request 0 command) t t t, s.underWay)
  | .answer place result =>
    s.underWay[place]?.map fun call =>
      (if s.scheduler.stage = .serving then .turn (.completion (call.completion result)) t t t
        else .drain (call.completion result) t t t, s.underWay.eraseIdx place)
  | .refresh => some (.turn .refresh t t t, s.underWay)
  | .timer => some (.turn .timer t t t, s.underWay)
  | .leave => some (.leave [] t t, s.underWay)

/-- A list around one of its places. -/
theorem split_at_place {α : Type} {l : List α} {place : Nat} {x : α} (h : l[place]? = some x) :
    l = l.take place ++ x :: l.drop (place + 1) := by
  obtain ⟨hplace, rfl⟩ := List.getElem?_eq_some_iff.1 h
  rw [List.getElem_cons_drop, List.take_append_drop]

/-- A completion is heard of in a turn or while the loop drains. -/
theorem Advance.completion?_ite {p : Prop} [Decidable p] (c : Completion) (t : Instant) :
    (if p then .turn (.completion c) t t t else .drain c t t t : Advance κ).completion? =
      some c := by
  split <;> rfl

theorem Cue.takes {s : Session κ} {t : Instant} {cue : Cue κ} {a : Advance κ}
    {rest : List (Call κ)} (h : cue.advance? s t = some (a, rest)) :
    Takes s.underWay a.completion? rest := by
  cases cue with
  | answer place result =>
    simp only [advance?, Option.map_eq_some_iff, Prod.mk.injEq] at h
    obtain ⟨call, hcall, rfl, rfl⟩ := h
    rw [Advance.completion?_ite]
    exact ⟨_, call, _, result, split_at_place hcall, rfl, List.eraseIdx_eq_take_drop_succ _ _⟩
  | _ =>
    simp only [advance?, Option.some.injEq, Prod.mk.injEq] at h
    obtain ⟨rfl, rfl⟩ := h
    rfl

namespace Session

variable [Quantity κ]

/-- The session at the end of a list of cues, if each is possible in its turn and allowed. -/
def play (allowed : Scheduler κ → Advance κ → Bool) (s : Session κ) :
    List (Instant × Cue κ) → Option (Session κ)
  | [] => some s
  | (t, cue) :: cues =>
    match cue.advance? s t with
    | none => none
    | some (a, rest) =>
      if a.Due s.scheduler ∧ a.Follows s.now ∧ allowed s.scheduler a = true then
        (s.after a rest).play allowed cues
      else none

/-- What a replay ends at follows what it starts with. -/
theorem play_leadsBy {allowed : Scheduler κ → Advance κ → Bool}
    {P : Scheduler κ → Advance κ → Prop} (hP : ∀ s a, allowed s a = true → P s a)
    {cues : List (Instant × Cue κ)} {first s s' : Session κ} (h : first.LeadsBy P s)
    (hplay : s.play allowed cues = some s') : first.LeadsBy P s' := by
  induction cues generalizing s with
  | nil =>
    obtain rfl : s = s' := by simpa [play] using hplay
    exact h
  | cons cue cues ih =>
    obtain ⟨t, cue⟩ := cue
    rw [play] at hplay
    split at hplay
    · cases hplay
    rename_i a rest hcue
    split at hplay
    · rename_i hok
      exact ih (.tail h (hP _ _ hok.2.2) ⟨hok.1, hok.2.1, rest, Cue.takes hcue, rfl⟩) hplay
    · cases hplay

/-- What a replay ends at has been reached. -/
theorem play_reachedBy {allowed : Scheduler κ → Advance κ → Bool}
    {P : Scheduler κ → Advance κ → Prop} (hP : ∀ s a, allowed s a = true → P s a)
    {config : Config κ} {cues : List (Instant × Cue κ)} {s s' : Session κ}
    (h : ReachedBy P config s) (hplay : s.play allowed cues = some s') :
    ReachedBy P config s' :=
  (play_leadsBy hP .refl hplay).reachedBy h

end Session

end Dispatch
