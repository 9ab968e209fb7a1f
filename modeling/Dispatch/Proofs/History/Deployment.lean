import Dispatch.Proofs.History.Replay
import Dispatch.Simulation.Hosting

/-!
# A scheduler with simulated executors

A `Deployment` is a scheduler together with simulated executors and the calls between them.  What
happens to it is of two kinds:

* `Deployment.Answers` : an executor is done with a call, which then has its effect on what is
  hosted; or the call has been cancelled, and has none;
* `Deployment.Advances` : the scheduler advances, and a call that it hears of has been answered.

`Deployment.LeadsBy P` are the ways in which a history may go on when all advances satisfy `P`, and
`DeployedBy P config` are the deployments reached so under settings by which the scheduler never
gives up on a call.  The loop is left by a shutdown only, and calls that were issued before are
cancelled then unless they are answered.

Executors answer in any order, at any time, and what they have answered comes back in any order, so
whatever their latencies are, what happens is among what is considered here.

Seen from the scheduler alone, a deployment is a session (`DeployedBy.reachedBy`).
-/

namespace Dispatch

variable {κ : Type}

/-- A call that has not come back, and what it came to once it is answered. -/
structure Assignment (κ : Type) where
  call : Call κ
  result : Option CallResult := none

/-- A scheduler with simulated executors.  The executors keep no tally of situations here; all that
was said is in `told`. -/
structure Deployment (κ : Type) where
  scheduler : Scheduler κ
  simulation : Simulation
  /-- The calls that have not come back, in the order of issue. -/
  assignments : List (Assignment κ) := []
  told : List (Output κ) := []
  now : Instant

/-- What is left of the assignments when a completion is taken in, if one is. -/
def Returned (assignments : List (Assignment κ)) :
    Option Completion → List (Assignment κ) → Prop
  | none, rest => rest = assignments
  | some c, rest => ∃ before call result after,
      assignments = before ++ ⟨call, some result⟩ :: after ∧ c = call.completion result ∧
        rest = before ++ after

namespace Deployment

/-- The deployment as the scheduler sees it. -/
def session (d : Deployment κ) : Session κ where
  scheduler := d.scheduler
  underWay := d.assignments.map (·.call)
  told := d.told
  now := d.now

/-- Whether a call has been told to give up: a shutdown cancels those issued before. -/
def cancels (d : Deployment κ) (call : Call κ) : Bool :=
  d.scheduler.stage != .serving && !call.final

/-- The deployment when a call between others is answered. -/
def answer (d : Deployment κ) (before : List (Assignment κ)) (call : Call κ)
    (after : List (Assignment κ)) : Deployment κ :=
  let answer := d.simulation.call call.kind call.run (d.cancels call)
  { d with
    simulation := answer.1
    assignments := before ++ ⟨call, some answer.2.1⟩ :: after }

/-- A call is answered. -/
def Answers (d d' : Deployment κ) : Prop :=
  ∃ before call after, d.assignments = before ++ ⟨call, none⟩ :: after ∧
    d' = d.answer before call after

variable [Quantity κ]

/-- A deployment in which nothing has happened. -/
def start (config : Config κ) (simulation : SimulationConfig) (now : Instant) : Deployment κ where
  scheduler := { config }
  simulation := { config := simulation }
  now := now

/-- The deployment after an advance, when `rest` are the earlier calls that have not come back. -/
def after (d : Deployment κ) (a : Advance κ) (rest : List (Assignment κ)) : Deployment κ where
  scheduler := { a.apply d.scheduler with outbox := [] }
  simulation := d.simulation
  assignments := rest ++ (a.apply d.scheduler).issued.map fun call => { call }
  told := d.told ++ (a.apply d.scheduler).outbox
  now := a.shown

/-- The scheduler advances. -/
def Advances (d : Deployment κ) (a : Advance κ) (d' : Deployment κ) : Prop :=
  a.Due d.scheduler ∧ a.Follows d.now ∧
    ∃ rest, Returned d.assignments a.completion? rest ∧ d' = d.after a rest

/-- The deployments that follow one when all advances satisfy `P` in the state they are made in. -/
inductive LeadsBy (P : Scheduler κ → Advance κ → Prop) (d : Deployment κ) : Deployment κ → Prop
  | refl : LeadsBy P d d
  | answer {d₁ d₂ : Deployment κ} : LeadsBy P d d₁ → d₁.Answers d₂ → LeadsBy P d d₂
  | advance {d₁ d₂ : Deployment κ} {a : Advance κ} : LeadsBy P d d₁ → P d₁.scheduler a →
      d₁.Advances a d₂ → LeadsBy P d d₂

end Deployment

/-- The deployments reached by advances that satisfy `P`, when the scheduler gives up on no
call. -/
def DeployedBy [Quantity κ] (P : Scheduler κ → Advance κ → Prop) (config : Config κ)
    (d : Deployment κ) : Prop :=
  config.validate = .ok () ∧ config.callTimeout = none ∧
    ∃ simulation now, (Deployment.start config simulation now).LeadsBy P d

/-- The deployments reached in any way. -/
def Deployed [Quantity κ] (config : Config κ) (d : Deployment κ) : Prop :=
  DeployedBy (fun _ _ => True) config d

theorem Returned.takes {assignments rest : List (Assignment κ)} {c : Option Completion}
    (h : Returned assignments c rest) :
    Takes (assignments.map (·.call)) c (rest.map (·.call)) := by
  cases c with
  | none => exact congrArg _ h
  | some c =>
    obtain ⟨before, call, result, after, rfl, rfl, rfl⟩ := h
    exact ⟨_, call, _, result, by rw [List.map_append, List.map_cons], rfl, by simp⟩

theorem Returned.sublist {assignments rest : List (Assignment κ)} {c : Option Completion}
    (h : Returned assignments c rest) : rest.Sublist assignments := by
  cases c with
  | none => exact h ▸ .refl _
  | some c =>
    obtain ⟨before, call, result, after, rfl, -, rfl⟩ := h
    exact (List.Sublist.refl before).append (List.sublist_cons_self _ after)

/-- A call that is not answered does not come back. -/
theorem Returned.mem_of_open {assignments rest : List (Assignment κ)} {c : Option Completion}
    (h : Returned assignments c rest) {assignment : Assignment κ} (hin : assignment ∈ assignments)
    (hopen : assignment.result = none) : assignment ∈ rest := by
  cases c with
  | none => exact h ▸ hin
  | some c =>
    obtain ⟨before, call, result, after, rfl, -, rfl⟩ := h
    rcases List.mem_append.1 hin with hin | hin
    · exact List.mem_append_left _ hin
    rcases List.mem_cons.1 hin with rfl | hin
    · cases hopen
    · exact List.mem_append_right _ hin

namespace Deployment

variable {d d' : Deployment κ}

section Answer

variable {before after : List (Assignment κ)} {call : Call κ} {assignment : Assignment κ}

theorem mem_iff_of_split {result : Option CallResult}
    (hsplit : d.assignments = before ++ ⟨call, result⟩ :: after) :
    assignment ∈ d.assignments ↔ assignment = ⟨call, result⟩ ∨ assignment ∈ before ++ after := by
  rw [hsplit, List.perm_middle.mem_iff, List.mem_cons]

/-- Only one assignment changes when a call is answered. -/
theorem mem_answer_iff : assignment ∈ (d.answer before call after).assignments ↔
    assignment = ⟨call, some (d.simulation.call call.kind call.run (d.cancels call)).2.1⟩ ∨
      assignment ∈ before ++ after :=
  List.perm_middle.mem_iff.trans List.mem_cons

end Answer

/-- The scheduler does not notice that a call is answered. -/
theorem Answers.session (h : d.Answers d') : d'.session = d.session := by
  obtain ⟨before, call, after, hsplit, rfl⟩ := h
  simp [Deployment.session, answer, hsplit]

variable [Quantity κ] {P : Scheduler κ → Advance κ → Prop} {a : Advance κ}

theorem Advances.session (h : d.Advances a d') : d.session.Step a d'.session := by
  obtain ⟨hdue, hfollows, rest, hreturned, rfl⟩ := h
  refine ⟨hdue, hfollows, _, hreturned.takes, ?_⟩
  simp [Deployment.session, Deployment.after, Session.after, Function.comp_def]

/-- What holds of a deployment and is kept by answers and advances holds of all that follow. -/
theorem LeadsBy.invariant {I : Deployment κ → Prop} (h : d.LeadsBy P d') (hd : I d)
    (answer : ∀ d₁ d₂, d.LeadsBy P d₁ → I d₁ → d₁.Answers d₂ → I d₂)
    (advance : ∀ d₁ a d₂, d.LeadsBy P d₁ → I d₁ → P d₁.scheduler a → d₁.Advances a d₂ → I d₂) :
    I d' := by
  induction h with
  | refl => exact hd
  | answer hl hanswers ih => exact answer _ _ hl ih hanswers
  | advance hl hP hadvances ih => exact advance _ _ _ hl ih hP hadvances

theorem LeadsBy.trans {d'' : Deployment κ} (h : d.LeadsBy P d') (h' : d'.LeadsBy P d'') :
    d.LeadsBy P d'' := by
  induction h' with
  | refl => exact h
  | answer _ hanswers ih => exact .answer ih hanswers
  | advance _ hP hadvances ih => exact .advance ih hP hadvances

end Deployment

namespace DeployedBy

variable [Quantity κ] {P : Scheduler κ → Advance κ → Prop} {config : Config κ}
  {d d' : Deployment κ}

/-- What follows a deployment that is reached is reached. -/
theorem leadsBy (h : DeployedBy P config d) (hleads : d.LeadsBy P d') :
    DeployedBy P config d' := by
  obtain ⟨hvalid, hpatient, simulation, now, hd⟩ := h
  exact ⟨hvalid, hpatient, simulation, now, hd.trans hleads⟩

/-- **What the scheduler of a deployment goes through is a history of its own.** -/
theorem reachedBy (h : DeployedBy P config d) : ReachedBy P config d.session := by
  obtain ⟨hvalid, -, simulation, now, hd⟩ := h
  refine hd.invariant (I := fun d => ReachedBy P config d.session) (.start now hvalid) ?_ ?_
  · intro d₁ d₂ _ hreach hanswers
    rw [hanswers.session]
    exact hreach
  · intro d₁ a d₂ _ hreach hP hadvances
    exact .step hreach hP hadvances.session

end DeployedBy

/-! ### Replayed histories -/

namespace Deployment

/-- What happens next in a replayed history. -/
inductive Cue (κ : Type)
  | request (command : Command κ)
  /-- The call at a place among those that have not come back is answered. -/
  | answer (place : Nat)
  /-- The call at a place comes back. -/
  | back (place : Nat)
  | leave

/-- The command that a cue sends. -/
def Cue.command? : Cue κ → Option (Command κ)
  | .request command => some command
  | _ => none

section Replay

variable [Quantity κ] {d d' : Deployment κ} {P : Scheduler κ → Advance κ → Prop}

/-- The deployment after an advance, if the advance is due and the clock allows it. -/
def advance? (d : Deployment κ) (a : Advance κ) (rest : List (Assignment κ)) :
    Option (Deployment κ) :=
  if a.Due d.scheduler ∧ a.Follows d.now then some (d.after a rest) else none

/-- The deployment after a cue, if it is possible then. -/
def next? (d : Deployment κ) (t : Instant) : Cue κ → Option (Deployment κ)
  | .request command => d.advance? (.turn (.request 0 command) t t t) d.assignments
  | .answer place =>
    match d.assignments[place]? with
    | some ⟨call, none⟩ =>
      some (d.answer (d.assignments.take place) call (d.assignments.drop (place + 1)))
    | _ => none
  | .back place =>
    match d.assignments[place]? with
    | some ⟨call, some result⟩ =>
      d.advance?
        (if d.scheduler.stage = .serving then .turn (.completion (call.completion result)) t t t
          else .drain (call.completion result) t t t) (d.assignments.eraseIdx place)
    | _ => none
  | .leave => d.advance? (.leave [] t t) d.assignments

/-- The deployment at the end of a list of cues, if each is possible in its turn. -/
def play (d : Deployment κ) : List (Instant × Cue κ) → Option (Deployment κ)
  | [] => some d
  | (t, cue) :: cues =>
    match d.next? t cue with
    | none => none
    | some d => d.play cues

theorem advances_of_advance? {a : Advance κ} {rest : List (Assignment κ)}
    (hreturned : Returned d.assignments a.completion? rest) (h : d.advance? a rest = some d') :
    d.Advances a d' := by
  unfold advance? at h
  split at h
  · rename_i hok
    obtain rfl := Option.some.inj h
    exact ⟨hok.1, hok.2, rest, hreturned, rfl⟩
  · cases h

/-- A cue is an answer or an advance that takes in the same command. -/
theorem next?_leadsBy {t : Instant} {cue : Cue κ}
    (hP : ∀ s (a : Advance κ), a.command? = cue.command? → P s a) (h : d.next? t cue = some d') :
    d.LeadsBy P d' := by
  cases cue with
  | request command =>
    simp only [next?] at h
    refine .advance .refl (hP _ _ ?_) (advances_of_advance? ?_ h) <;> rfl
  | leave =>
    simp only [next?] at h
    refine .advance .refl (hP _ _ ?_) (advances_of_advance? ?_ h) <;> rfl
  | answer place =>
    simp only [next?] at h
    split at h
    · rename_i call hcall
      obtain rfl := Option.some.inj h
      exact .answer .refl ⟨_, call, _, split_at_place hcall, rfl⟩
    · cases h
  | back place =>
    simp only [next?] at h
    split at h
    · rename_i call result hcall
      refine .advance .refl (hP _ _ ?_) (advances_of_advance? ?_ h)
      · split <;> rfl
      · rw [Advance.completion?_ite]
        exact ⟨_, call, result, _, split_at_place hcall, rfl, List.eraseIdx_eq_take_drop_succ _ _⟩
    · cases h

/-- What a replay ends at follows. -/
theorem play_leadsBy {cues : List (Instant × Cue κ)}
    (hP : ∀ cue ∈ cues, ∀ s (a : Advance κ), a.command? = cue.2.command? → P s a)
    (h : d.play cues = some d') : d.LeadsBy P d' := by
  induction cues generalizing d with
  | nil =>
    obtain rfl : d = d' := by simpa [play] using h
    exact .refl
  | cons cue cues ih =>
    obtain ⟨t, cue⟩ := cue
    rw [play] at h
    split at h
    · cases h
    · rename_i d₁ hnext
      have hfirst : d.LeadsBy P d₁ := next?_leadsBy (hP (t, cue) List.mem_cons_self) hnext
      exact hfirst.trans (ih (fun cue hcue => hP cue (List.mem_cons_of_mem _ hcue)) h)

end Replay

end Deployment

end Dispatch
