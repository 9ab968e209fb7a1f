import Dispatch.Proofs.History.Phases
import Dispatch.Proofs.Numbers
import Mathlib.Logic.Function.Basic

/-!
# The executor names that are shown

The time accounts of a job also show the name of the executor that it is on.  Executors may be
renamed, removed and added again under other names, so the name that belongs to a run is a matter of
the past: it is what its executor was called when the run was bound to it.

* `Book` : the bindings in force, each with the name of the executor at the time and the way in
  which the run came there; `Book.note` says which deeds make a binding and which end one;
* `Booked` : the histories, each with the book that is kept along it;
* `Does.named`, `Booked.named` : runs are bound as the book has it, and a name is shown for those
  of them that were started, not for those that were found to be hosted;
* `names_shown_iff` : **the name that is shown is the one in the book exactly if the run was started
  or its executor had no name**;
* `names_shown_fails` : a history in which an executor turns out to host two jobs that wait.  One of
  them stays there and the other one is taken off again, and both go without a name, since only
  a start notes it.
-/

namespace Dispatch

open Scheduler Registry

variable {κ : Type}

/-! ### The book -/

/-- How a run came to be bound. -/
inductive Arrival
  /-- It was started there. -/
  | started
  /-- It was hosted there already and stays. -/
  | adopted
  /-- It was hosted there already and is taken off again. -/
  | expelled
deriving DecidableEq

/-- What is noted of a run when it is bound to an executor. -/
structure Binding where
  executor : String
  /-- What the executor was called then. -/
  name : String
  arrival : Arrival

/-- The name that is shown for a binding. -/
def Binding.shown (binding : Binding) : String :=
  if binding.arrival = .started then binding.name else ""

/-- The shown name is the name of the executor, except that a name is missing for a job that was
found to be hosted. -/
theorem Binding.shown_eq_name_iff {binding : Binding} :
    binding.shown = binding.name ↔ binding.arrival = .started ∨ binding.name = "" := by
  unfold shown
  split
  · rename_i hstarted
    simp [hstarted]
  · rename_i hfound
    rw [or_iff_right hfound, eq_comm]

/-- The bindings in force, by job. -/
abbrev Book := String → Option Binding

/-- A binding to a registered executor that is made now. -/
def Registry.bindingTo (r : Registry κ) (executor : String) (arrival : Arrival) : Option Binding :=
  (r.executor? executor).map fun e => { executor, name := e.name, arrival }

theorem Registry.bindingTo_eq {r : Registry κ} {executor : String} {e : Executor κ}
    (he : r.executor? executor = some e) (arrival : Arrival) :
    r.bindingTo executor arrival = some ⟨executor, e.name, arrival⟩ := by
  rw [bindingTo, he, Option.map_some]

/-- Note the binding that a deed makes, or strike out the one that it ends. -/
def Book.note (b : Book) (r : Registry κ) : Deed κ → Book
  | .start job executor => Function.update b job (r.bindingTo executor .started)
  | .adopt job executor => Function.update b job (r.bindingTo executor .adopted)
  | .expel job executor => Function.update b job (r.bindingTo executor .expelled)
  | .release job | .settle job | .finish job | .forget job | .discard job =>
    Function.update b job none
  | _ => b

/-! ### The names that are shown -/

/-- Whether a job is on an executor in a phase. -/
def Phase.onExecutor : Phase → Bool
  | .existing | .gone => false
  | .starting | .running | .ending => true

theorem Timings.executorName_enter (t : Timings) (phase : Phase) (now : Instant) :
    (t.enter phase now).executorName = if phase.onExecutor then t.executorName else "" := by
  have hclosed : ∀ t : Timings, (t.close now).executorName = t.executorName := by
    rintro ⟨_ | ⟨_ | _ | _ | _ | _, since⟩⟩ <;> rfl
  cases phase with
  | existing | gone => rfl
  | starting | running | ending => exact hclosed _

namespace Scheduler

variable {s s' : Scheduler κ} {b : Book} {job id : String} {run run' : Run κ} {now : Instant}
  {phase : Phase}

/-- The executor name in the accounts of a job; no name without accounts. -/
def shownName (s : Scheduler κ) (id : String) : String :=
  ((s.timings.get? id).map (·.executorName)).getD ""

/-- A phase in which a job is on no executor is entered without a name. -/
theorem shownName_enter : (s.enter job phase now).shownName id =
    if id = job ∧ phase.onExecutor = false then "" else s.shownName id := by
  simp only [shownName, enter, Table.get?_update]
  by_cases hid : id = job
  · subst hid
    rw [if_pos rfl, Option.map_some, Option.getD_some, Timings.executorName_enter]
    cases s.timings.get? id <;> cases phase.onExecutor <;> simp
  · simp [hid]

theorem shownName_nameExecutor (name : String) :
    (s.nameExecutor job name).shownName id = if id = job then name else s.shownName id := by
  simp only [shownName, nameExecutor, Table.get?_update]
  split <;> rfl

theorem shownName_nameJob (name : String) :
    (s.nameJob job name).shownName id = s.shownName id := by
  simp only [shownName, nameJob, Table.get?_update]
  split
  · rename_i hid
    rw [hid]
    cases s.timings.get? job <;> rfl
  · rfl

/-- Which executor a run is on when one run has been put in place. -/
theorem executor_put (hrun : s.registry.runs.get? job = some run) :
    ((s.put job run' phase now).registry.runs.get? id).bind (·.executor) =
      if id = job then run'.executor else (s.registry.runs.get? id).bind (·.executor) := by
  rw [put_registry, get?_modifyRun hrun]
  split <;> rfl

/-- Runs are bound as the book has it, and the names shown are those that go with its bindings. -/
structure Named (s : Scheduler κ) (b : Book) : Prop where
  bound : ∀ id, (s.registry.runs.get? id).bind (·.executor) = (b id).map (·.executor)
  shown : ∀ id, s.shownName id = ((b id).map Binding.shown).getD ""

namespace Named

/-- Only the executors of the runs and the accounts count. -/
theorem congr (h : s.Named b)
    (hruns : ∀ id, (s'.registry.runs.get? id).bind (·.executor) =
      (s.registry.runs.get? id).bind (·.executor))
    (htimings : s'.timings = s.timings) : s'.Named b where
  bound id := (hruns id).trans (h.bound id)
  shown id := by
    rw [shownName, htimings]
    exact h.shown id

/-- The binding of one job changes, in the registry, in the accounts and in the book. -/
theorem update (h : s.Named b) (v : Option Binding)
    (bound : ∀ id, (s'.registry.runs.get? id).bind (·.executor) =
      if id = job then v.map (·.executor) else (s.registry.runs.get? id).bind (·.executor))
    (shown : ∀ id, s'.shownName id =
      if id = job then (v.map Binding.shown).getD "" else s.shownName id) :
    s'.Named (Function.update b job v) where
  bound id := by
    rw [bound, Function.update_apply]
    split
    · rfl
    · exact h.bound id
  shown id := by
    rw [shown, Function.update_apply]
    split
    · rfl
    · exact h.shown id

/-- The book has no binding of a job that is on no executor. -/
theorem book_eq_none (h : s.Named b)
    (hoff : (s.registry.runs.get? id).bind (·.executor) = none) : b id = none :=
  Option.map_eq_none_iff.1 ((h.bound id).symm.trans hoff)

/-- Nothing is shown for a run that is on no executor. -/
theorem shownName_unbound (h : s.Named b) (hrun : s.registry.runs.get? id = some run)
    (hexec : run.executor = none) : s.shownName id = "" := by
  rw [h.shown, h.book_eq_none (by rw [hrun, Option.bind_some, hexec])]
  rfl

/-- A run moves on where it is. -/
theorem putSame (h : s.Named b) (hrun : s.registry.runs.get? job = some run) (run' : Run κ)
    (hsame : run'.executor = run.executor) (phase : Phase) (hon : phase.onExecutor = true) :
    (s.put job run' phase now).Named b where
  bound id := by
    rw [executor_put hrun, ← h.bound]
    split
    · rename_i hid
      rw [hid, hrun, Option.bind_some, hsame]
    · rfl
  shown id := by
    rw [put, shownName_enter, if_neg (by simp [hon])]
    exact h.shown id

/-- A run comes off its executor. -/
theorem putFree (h : s.Named b) (hrun : s.registry.runs.get? job = some run)
    (hfree : run'.executor = none) :
    (s.put job run' .existing now).Named (Function.update b job none) := by
  refine h.update none (fun id => ?_) fun id => ?_
  · rw [executor_put hrun, hfree, Option.map_none]
  · rw [put, shownName_enter]
    simp only [Phase.onExecutor, and_true]
    rfl

/-- A run that was on no executor turns out to be on one: no name is noted. -/
theorem putFound (h : s.Named b) (hrun : s.registry.runs.get? job = some run)
    (hexec : run.executor = none) {binding : Binding} (hbound : run'.executor = binding.executor)
    (hfound : binding.arrival ≠ .started) (phase : Phase) (hon : phase.onExecutor = true) :
    (s.put job run' phase now).Named (Function.update b job binding) := by
  refine h.update _ (fun id => ?_) fun id => ?_
  · rw [executor_put hrun, hbound, Option.map_some]
  · rw [put, shownName_enter, if_neg (by simp [hon])]
    split
    · rename_i hid
      rw [Option.map_some, Option.getD_some, Binding.shown, if_neg hfound, hid]
      exact h.shownName_unbound hrun hexec
    · rfl

/-- A run is started, and the name of its executor is noted. -/
theorem putStarted (h : s.Named b) (hrun : s.registry.runs.get? job = some run)
    {executor name : String} (hbound : run'.executor = executor) :
    ((s.put job run' .starting now).nameExecutor job name).Named
      (Function.update b job (some ⟨executor, name, .started⟩)) := by
  refine h.update _ (fun id => ?_) fun id => ?_
  · rw [nameExecutor_registry, executor_put hrun, hbound, Option.map_some]
  · rw [shownName_nameExecutor]
    split
    · rfl
    · rw [put, shownName_enter, if_neg (by simp [Phase.onExecutor])]
      rfl

/-- A job is forgotten. -/
theorem drop (h : s.Named b) : (s.drop job now).Named (Function.update b job none) := by
  refine h.update none (fun id => ?_) fun id => ?_
  · rw [drop_registry]
    simp only [removeRun, Table.get?_erase]
    split <;> rfl
  · rw [Scheduler.drop, shownName_enter]
    simp only [Phase.onExecutor, and_true]
    rfl

theorem noteStop (h : s.Named b) (result : CallResult) : (s.noteStop run result).Named b := by
  cases result <;> exact h.congr (fun _ => rfl) rfl

variable [Quantity κ] {r : Registry κ}

/-- A job that is added is on no executor, and nothing is shown for it. -/
theorem addJob (h : s.Named b) (hsound : s.registry.Sound) {job : Job κ}
    (hr : s.registry.addJob job = .ok r) :
    (({ s with registry := r }.enter job.id .existing now).nameJob job.id job.name).Named b := by
  obtain ⟨-, hnew, rfl⟩ := of_addJob hr
  have hnorun := hsound.get?_runs_eq_none hnew
  have hunbound : b job.id = none := h.book_eq_none (by rw [hnorun, Option.bind_none])
  constructor
  · intro id
    rw [← h.bound, nameJob_registry, enter_registry, Table.get?_addNew]
    by_cases hid : id = job.id
    · rw [if_pos hid, hid, hnorun]
      rfl
    · rw [if_neg hid, Option.or_none]
  · intro id
    rw [shownName_nameJob, shownName_enter]
    split
    · rename_i hid
      rw [hid.1, hunbound]
      rfl
    · exact h.shown id

/-- A new definition leaves a run where it is. -/
theorem changeJob (h : s.Named b) {job : Job κ} (hr : s.registry.changeJob job = .ok r) :
    ({ s with registry := r }.nameJob job.id job.name).Named b := by
  obtain ⟨old, -, -, rfl⟩ := of_changeJob hr
  constructor
  · intro id
    rw [← h.bound, nameJob_registry, Table.get?_modify]
    split
    · rw [Option.bind_map]
      refine Option.bind_congr fun run _ => ?_
      rw [Function.comp_apply]
      split <;> rfl
    · rfl
  · intro id
    rw [shownName_nameJob]
    exact h.shown id

end Named

end Scheduler

section Deeds

variable [Quantity κ] {now : Instant} {s s' : Scheduler κ} {d : Deed κ} {b b' : Book}

/-- **Every deed keeps book and names together**: the name of an executor is noted by a start and
struck out when a run comes off its executor. -/
theorem Does.named (hdoes : Does now s d s') (hsound : s.registry.Sound) (h : s.Named b) :
    s'.Named (b.note s.registry d) := by
  cases hdoes with
  | aside hsame => exact h.congr (fun _ => by rw [hsame.registry]) hsame.timings
  | callBack => exact h.congr (fun _ => rfl) rfl
  | limit => exact h.congr (fun _ => rfl) rfl
  | say => exact h.congr (fun _ => rfl) rfl
  | addJob hr => exact h.addJob hsound hr
  | changeJob hr => exact h.changeJob hr
  | addExecutor hr =>
    obtain ⟨-, -, rfl⟩ := of_addExecutor hr
    exact h.congr (fun _ => rfl) rfl
  | removeExecutor hr =>
    obtain rfl := of_removeExecutor hr
    exact h.congr (fun _ => rfl) rfl
  | changeExecutor hr =>
    obtain ⟨-, -, -, -, rfl⟩ := of_changeExecutor hr
    exact h.congr (fun _ => rfl) rfl
  | keepAlive hr =>
    obtain rfl := of_keepAlive hr
    exact h.congr (fun _ => rfl) rfl
  | start he hdef hrun hplan =>
    rw [Book.note, bindingTo_eq he]
    have hid := (mem_of_executor? he).2
    exact (h.putStarted hrun (congrArg some hid)).congr (fun _ => rfl) rfl
  | @confirm _ run hrun =>
    exact (h.putSame hrun (run.confirm now) rfl .running rfl).congr (fun _ => rfl) rfl
  | mark hrun =>
    refine h.congr (fun id => ?_) rfl
    rw [modifyRun_registry, get?_modifyRun hrun]
    split
    · rename_i hid
      rw [hid, hrun]
      rfl
    · rfl
  | discard => exact h.drop
  | @stop _ _ remove run hrun =>
    exact (h.putSame hrun (run.stop remove now) rfl .ending rfl).congr (fun _ => rfl) rfl
  | release hrun => exact (h.putFree hrun rfl).congr (fun _ => rfl) rfl
  | @settle job run result hrun =>
    have hnoted : (s.noteStop run result).registry.runs.get? job = some run := by
      rw [noteStop_registry]
      exact hrun
    exact ((h.noteStop result).putFree hnoted rfl).congr (fun _ => rfl) rfl
  | finish => exact (h.noteStop _).drop
  | forget hrun => exact h.putFree hrun rfl
  | adopt he hrun _ hexec =>
    -- the binding is noted, and the accounts stay without a name
    rw [Book.note, bindingTo_eq he]
    exact h.putFound hrun hexec rfl (by simp) .running rfl
  | expel he hrun _ hexec =>
    rw [Book.note, bindingTo_eq he]
    exact (h.putFound hrun hexec rfl (by simp) .ending rfl).congr (fun _ => rfl) rfl

/-- A chain of deeds between two states, and what noting them makes of a book. -/
inductive Bookkeeping (s : Scheduler κ) (b : Book) : Scheduler κ → Book → Prop
  | refl : Bookkeeping s b s b
  | tail {s' s'' : Scheduler κ} {b' : Book} {now : Instant} {d : Deed κ} :
      Bookkeeping s b s' b' → Does now s' d s'' → Bookkeeping s b s'' (b'.note s'.registry d)

theorem Bookkeeping.named (h : Bookkeeping s b s' b') (hsound : s.registry.Sound)
    (hnamed : s.Named b) : s'.registry.Sound ∧ s'.Named b' := by
  induction h with
  | refl => exact ⟨hsound, hnamed⟩
  | tail _ hdoes ih =>
    obtain ⟨hsound, hnamed⟩ := ih
    exact ⟨hdoes.sound hsound, hdoes.named hsound hnamed⟩

/-- A book can be kept along every chain of deeds, with whatever each of them keeps. -/
theorem Course.bookkeeping {Q : Instant → Scheduler κ → Deed κ → Prop}
    {I : Registry κ → Book → Prop} (h : Course Q s s') (hs : I s.registry b)
    (step : ∀ now s d s' b, I s.registry b → Q now s d → Does now s d s' →
      I s'.registry (b.note s.registry d)) :
    ∃ b', Bookkeeping s b s' b' ∧ I s'.registry b' := by
  induction h with
  | refl => exact ⟨b, .refl, hs⟩
  | tail _ hQ hdoes ih =>
    obtain ⟨b', hbook, hI⟩ := ih
    exact ⟨_, hbook.tail hdoes, step _ _ _ _ _ hI hQ hdoes⟩

end Deeds

/-! ### Histories -/

section Histories

variable [Quantity κ] {config : Config κ} {session : Session κ} {book : Book}

/-- The sessions that are reached, each with the book that is kept along its history.  An advance is
noted as a chain of deeds that leads where it leads. -/
inductive Booked (config : Config κ) : Session κ → Book → Prop
  | start (now : Instant) : config.validate = .ok () →
      Booked config { scheduler := { config }, now } fun _ => none
  | step {session session' : Session κ} {a : Advance κ} {book book' : Book} :
      Booked config session book → session.Step a session' →
      Bookkeeping session.scheduler book (a.apply session.scheduler) book' →
      Booked config session' book'

theorem Booked.reachable (h : Booked config session book) : Reachable config session := by
  induction h with
  | start now hc => exact .start now hc
  | step _ hstep _ ih => exact .step ih trivial hstep

/-- **Book and names agree along every history.** -/
theorem Booked.named (h : Booked config session book) : session.scheduler.Named book := by
  induction h with
  | start => exact ⟨fun _ => rfl, fun _ => rfl⟩
  | step hbooked hstep hbook ih =>
    obtain ⟨-, -, rest, -, rfl⟩ := hstep
    exact (hbook.named hbooked.reachable.sound ih).2.congr (fun _ => rfl) rfl

/-- A book can be kept along every history, with whatever every deed keeps that its advances
grant. -/
theorem ReachedBy.booked {P : Scheduler κ → Advance κ → Prop}
    {Q : Instant → Scheduler κ → Deed κ → Prop} {I : Registry κ → Book → Prop}
    (h : ReachedBy P config session) (start : I ∅ fun _ => none)
    (grants : ∀ s a, P s a → a.Grants Q s)
    (step : ∀ now s d s' b, I s.registry b → Q now s d → Does now s d s' →
      I s'.registry (b.note s.registry d)) :
    ∃ book, Booked config session book ∧ I session.scheduler.registry book := by
  induction h with
  | start now hc => exact ⟨_, .start now hc, start⟩
  | step hreach hP hstep ih =>
    obtain ⟨book, hbooked, hI⟩ := ih
    obtain ⟨book', hbook, hI'⟩ :=
      (Advance.course hreach.sound.run_key (grants _ _ hP)).bookkeeping hI step
    refine ⟨book', hbooked.step hstep hbook, ?_⟩
    obtain ⟨-, -, rest, -, rfl⟩ := hstep
    exact hI'

/-- A book can be kept along every history. -/
theorem reachable_iff_booked : Reachable config session ↔ ∃ book, Booked config session book := by
  constructor
  · intro h
    obtain ⟨book, hbooked, -⟩ := h.booked (I := fun _ _ => True) trivial
      (fun s a _ => a.grants_all s) fun _ _ _ _ _ _ _ _ => trivial
    exact ⟨book, hbooked⟩
  · rintro ⟨book, hbooked⟩
    exact hbooked.reachable

end Histories

/-! ### The names in the book -/

section Given

variable {p : String → String → Prop}

/-- The deed gives an executor no name but one that `p` allows for its id. -/
def Deed.NamesBy (p : String → String → Prop) : Deed κ → Prop
  | .addExecutor e | .changeExecutor e => p e.id e.name
  | _ => True

/-- The command gives an executor no name but one that `p` allows for its id. -/
def Command.NamesBy (p : String → String → Prop) : Command κ → Prop
  | .addExecutor e | .changeExecutor e => p e.id e.name
  | _ => True

instance [∀ id name, Decidable (p id name)] (command : Command κ) :
    Decidable (command.NamesBy p) := by
  unfold Command.NamesBy
  split <;> infer_instance

/-- The names that executors have, and those in the book, are allowed for their ids. -/
structure Book.NamesBy (b : Book) (r : Registry κ) (p : String → String → Prop) : Prop where
  registered : ∀ e ∈ r.executors, p e.id e.name
  noted : ∀ id binding, b id = some binding → p binding.executor binding.name

variable [Quantity κ] {now : Instant} {s s' : Scheduler κ} {d : Deed κ} {b : Book}

theorem Does.executors_namesBy (hdoes : Does now s d s') (hd : d.NamesBy p)
    (h : ∀ e ∈ s.registry.executors, p e.id e.name) :
    ∀ e ∈ s'.registry.executors, p e.id e.name := by
  have hmodify : ∀ {r : Registry κ} {id : String} {f : Executor κ → Executor κ},
      r = s.registry.modifyExecutor id f →
      (∀ e ∈ s.registry.executors, e.id = id → p (f e).id (f e).name) →
      ∀ e ∈ r.executors, p e.id e.name := by
    rintro _ id f rfl hf e he
    obtain ⟨old, hold, rfl⟩ := List.mem_map.1 he
    split
    · rename_i hid
      exact hf old hold hid
    · exact h old hold
  cases hdoes with
  | aside hsame =>
    rw [hsame.registry]
    exact h
  | addExecutor hr =>
    obtain ⟨-, -, rfl⟩ := of_addExecutor hr
    intro e he
    rcases List.mem_append.1 he with he | he
    · exact h e he
    · obtain rfl := List.mem_singleton.1 he
      exact hd
  | removeExecutor hr =>
    obtain rfl := of_removeExecutor hr
    exact fun e he => h e (List.mem_filter.1 he).1
  | @changeExecutor changed _ _ hr =>
    obtain ⟨-, -, -, -, rfl⟩ := of_changeExecutor hr
    refine hmodify rfl fun e _ hid => ?_
    exact hid ▸ hd
  | keepAlive hr =>
    obtain rfl := of_keepAlive hr
    exact hmodify rfl fun e he _ => h e he
  | addJob hr =>
    obtain ⟨-, -, rfl⟩ := of_addJob hr
    exact h
  | changeJob hr =>
    obtain ⟨-, -, -, rfl⟩ := of_changeJob hr
    exact h
  | settle =>
    rw [report_registry, put_registry, noteStop_registry]
    exact h
  | finish =>
    rw [drop_registry, noteStop_registry]
    exact h
  | _ => exact h

omit [Quantity κ] in
/-- The names that are noted are names that the executors have. -/
theorem Book.NamesBy.note (h : b.NamesBy s.registry p) (d : Deed κ) :
    ∀ id binding, b.note s.registry d id = some binding → p binding.executor binding.name := by
  have hput : ∀ (job : String) (v : Option Binding),
      (∀ binding, v = some binding → p binding.executor binding.name) → ∀ id binding,
      Function.update b job v id = some binding → p binding.executor binding.name := by
    intro job v hv id binding hnoted
    rw [Function.update_apply] at hnoted
    split at hnoted
    · exact hv binding hnoted
    · exact h.noted id binding hnoted
  have hbinding : ∀ (executor : String) (arrival : Arrival) (binding : Binding),
      s.registry.bindingTo executor arrival = some binding →
      p binding.executor binding.name := by
    intro executor arrival binding hto
    obtain ⟨e, he, rfl⟩ := Option.map_eq_some_iff.1 hto
    obtain ⟨hmem, rfl⟩ := mem_of_executor? he
    exact h.registered e hmem
  cases d with
  | start job executor => exact hput job _ (hbinding executor .started)
  | adopt job executor => exact hput job _ (hbinding executor .adopted)
  | expel job executor => exact hput job _ (hbinding executor .expelled)
  | release job | settle job | finish job | forget job | discard job => exact hput job none nofun
  | _ => exact h.noted

theorem Advance.grants_namesBy {a : Advance κ} (h : ∀ command ∈ a.command?, command.NamesBy p) :
    a.Grants (fun _ _ d => d.NamesBy p) s where
  routine s d hd := by cases d <;> first | exact hd.elim | trivial
  callBack c _ := trivial
  effect c d hc hd := by
    obtain ⟨run, -, -, hreturns⟩ := Scheduler.effect?_eq_some_iff.1 hd
    cases hreturns <;> trivial
  add _ e _ _ _ ha := h (.addExecutor e) (by rw [ha]; rfl)
  change _ e _ _ _ ha := h (.changeExecutor e) (by rw [ha]; rfl)
  forget _ _ _ _ _ _ _ _ _ _ _ _ _ _ _ _ _ _ := trivial
  adopt _ _ _ _ _ _ _ _ _ := trivial
  redefine _ _ _ _ _ _ := trivial
  later s d hd := by cases d <;> first | exact hd.elim | trivial
  start _ _ _ _ _ _ _ _ _ _ := trivial

/-- **The book has the names that were given.**  A history in which executors only get names that
`p` allows for their ids has a book with such names. -/
theorem ReachedBy.booked_namesBy {config : Config κ} {session : Session κ}
    (h : ReachedBy (fun _ a => ∀ command ∈ a.command?, command.NamesBy p) config session) :
    ∃ book, Booked config session book ∧
      ∀ id binding, book id = some binding → p binding.executor binding.name := by
  obtain ⟨book, hbooked, hnamesBy⟩ := h.booked (I := fun r b => b.NamesBy r p)
    ⟨nofun, nofun⟩ (fun s a ha => Advance.grants_namesBy ha) fun _ s d _ _ hI hd hdoes =>
      ⟨hdoes.executors_namesBy hd hI.registered, hI.note d⟩
  exact ⟨book, hbooked, hnamesBy.noted⟩

end Given

/-! ### What is shown -/

theorem Timings.executorName_settled (t : Timings) (now : Instant) :
    (t.settled now).executorName = t.executorName := by
  obtain ⟨_ | ⟨_ | _ | _ | _ | _, since⟩⟩ := t <;> rfl

/-- A run is on an executor unless it is pending. -/
theorem Run.Shaped.executor_eq_none_iff {run : Run κ} (h : run.Shaped) :
    run.executor = none ↔ run.state = .pending := by
  cases h with
  | pending he _ hs hr hst => simp [Run.state, he, hs, hr, hst]
  | starting he _ hs hr _ hst => simp [Run.state, hs, hr, hst, Option.isSome_iff_ne_none.1 he]
  | running he _ _ hr _ hst => simp [Run.state, hr, hst, Option.isSome_iff_ne_none.1 he]
  | stopping he _ _ _ _ hst => simp [Run.state, hst, Option.isSome_iff_ne_none.1 he]

/-- The name in the accounts of a job, as they are handed out at an instant. -/
theorem Scheduler.executorName_of_mem {s : Scheduler κ} {id : String} {now : Instant} {t : Timings}
    (ht : (id, t) ∈ s.timingsAt now) : t.executorName = s.shownName id := by
  obtain ⟨⟨id', t'⟩, hmem, heq⟩ := List.mem_map.1 ht
  obtain ⟨rfl, rfl⟩ := Prod.mk.inj heq
  rw [Timings.executorName_settled, shownName, Table.mem_entries_iff.1 hmem]
  rfl

/-- **Which names are shown.**  A book can be kept along every history, and whichever is kept: each
registered job has a run and accounts at any time; while the run is pending, no name is shown; while
it is on an executor, the book has its binding, and the name that is shown is the one in the book
exactly if the run was started there or the executor had no name.  For a job that was found to be
hosted, whether it stayed or was taken off again, no name is shown. -/
theorem names_shown_iff [Quantity κ] {config : Config κ} {session : Session κ}
    (h : Reachable config session) :
    (∃ book, Booked config session book) ∧
    ∀ book, Booked config session book →
      ∀ id job, session.scheduler.registry.jobs.get? id = some job → ∀ now,
        ∃ run, session.scheduler.registry.runs.get? id = some run ∧
          (∃ t, (id, t) ∈ session.scheduler.timingsAt now) ∧
          ∀ t, (id, t) ∈ session.scheduler.timingsAt now →
            (run.state = .pending → t.executorName = "") ∧
            (run.state ≠ .pending → ∃ binding, book id = some binding ∧
              run.executor = some binding.executor ∧
              (binding.arrival ≠ .started → t.executorName = "") ∧
              (t.executorName = binding.name ↔
                binding.arrival = .started ∨ binding.name = "")) := by
  refine ⟨reachable_iff_booked.1 h, fun book hbooked id job hjob now => ?_⟩
  obtain ⟨run, hrun⟩ := h.sound.run_of_job hjob
  obtain ⟨t, ht, -⟩ := h.inPhase.get?_timings hrun
  have hbound := hbooked.named.bound id
  have hshown := hbooked.named.shown id
  rw [hrun, Option.bind_some] at hbound
  refine ⟨run, hrun, ⟨_, List.mem_map_of_mem (Table.mem_entries_iff.2 ht)⟩, fun t ht => ?_⟩
  rw [executorName_of_mem ht, ne_eq, ← (h.sound.shaped hrun).executor_eq_none_iff]
  refine ⟨hbooked.named.shownName_unbound hrun, fun hon => ?_⟩
  cases hbook : book id with
  | none => exact absurd (by rw [hbound, hbook, Option.map_none]) hon
  | some binding =>
    rw [hbook, Option.map_some] at hbound hshown
    rw [Option.getD_some] at hshown
    rw [hshown]
    exact ⟨binding, rfl, hbound, fun hfound => if_neg hfound, Binding.shown_eq_name_iff⟩

/-- An executor with a name of its own has started a job and turns out to host two others that
wait.  For one of them it has room. -/
def foundHosted : Session ℚ :=
  (Session.play (fun _ a => decide (∀ command ∈ a.command?, command.NamesBy
      fun id name => id = "A" ∧ name = "Alpha"))
    { scheduler := { config := ownerConfirms }, now := 0 }
    [(0, .request (.addExecutor { id := "A", name := "Alpha", capacity := 10 })),
      (0, .request (.addJob { id := "k", cost := 1 })),
      (0, .request (.addJob { id := "j", cost := 1 })),
      (0, .request (.addJob { id := "x", cost := 50 })),
      (0, .request (.jobsOnExecutor "A" ["k", "j", "x"]))]).get (by decide +kernel)

theorem foundHosted_reachedBy :
    ReachedBy (fun _ a => ∀ command ∈ a.command?, command.NamesBy
      fun id name => id = "A" ∧ name = "Alpha") ownerConfirms foundHosted :=
  Session.play_reachedBy (fun _ _ => of_decide_eq_true) (.start 0 (by decide +kernel))
    (Option.some_get _).symm

theorem foundHosted_names :
    ((foundHosted.scheduler.timingsAt 0).map fun e => (e.1, e.2.executorName)) =
      [("k", "Alpha"), ("j", ""), ("x", "")] := by
  decide +kernel

/-- The job that was started has the name shown that was noted for it. -/
theorem names_shown_iff_foundHosted : Reachable ownerConfirms foundHosted ∧
    ∃ book, Booked ownerConfirms foundHosted book ∧ ∃ binding, book "k" = some binding ∧
      binding.arrival = .started ∧ binding.name = "Alpha" := by
  have hreach := foundHosted_reachedBy.reachable
  obtain ⟨⟨book, hbooked⟩, hshown⟩ := names_shown_iff hreach
  have hjob : (foundHosted.scheduler.registry.jobs.get? "k").isSome = true := by decide +kernel
  have hstate : (foundHosted.scheduler.registry.runs.get? "k").map (·.state) = some .starting := by
    decide +kernel
  obtain ⟨job, hjob⟩ := Option.isSome_iff_exists.1 hjob
  obtain ⟨run, hrun, ⟨t, ht⟩, hall⟩ := hshown book hbooked "k" job hjob 0
  have hname : t.executorName = "Alpha" := by
    have hin : ("k", t.executorName) ∈ (foundHosted.scheduler.timingsAt 0).map
        fun e => (e.1, e.2.executorName) := List.mem_map_of_mem ht
    rw [foundHosted_names] at hin
    simpa using hin
  rw [hrun, Option.map_some, Option.some.injEq] at hstate
  obtain ⟨binding, hbinding, -, hfound, hiff⟩ := (hall t ht).2 (by simp [hstate])
  have hstarted : binding.arrival = .started := by
    by_contra hne
    rw [hfound hne] at hname
    simp at hname
  exact ⟨hreach, book, hbooked, binding, hbinding, hstarted,
    (hiff.2 (.inl hstarted)).symm.trans hname⟩

/-- The executor was called by its name whenever a job was bound to it, and the two jobs that were
found to be hosted there go without. -/
theorem names_shown_fails :
    ∃ book, Booked ownerConfirms foundHosted book ∧
      (foundHosted.scheduler.registry.runs.entries.map fun e => (e.1, e.2.state, e.2.executor)) =
        [("k", .starting, some "A"), ("j", .running, some "A"), ("x", .stopping, some "A")] ∧
      (∀ id ∈ ["k", "j", "x"], ∃ binding, book id = some binding ∧ binding.executor = "A" ∧
        binding.name = "Alpha") ∧
      ((foundHosted.scheduler.timingsAt 0).map fun e => (e.1, e.2.executorName)) =
        [("k", "Alpha"), ("j", ""), ("x", "")] := by
  obtain ⟨book, hbooked, hnames⟩ := foundHosted_reachedBy.booked_namesBy
  refine ⟨book, hbooked, by decide +kernel, fun id hid => ?_, foundHosted_names⟩
  have hon : ∀ id ∈ ["k", "j", "x"], (foundHosted.scheduler.registry.runs.get? id).bind
      (·.executor) = some "A" := by decide +kernel
  obtain ⟨binding, hbinding, -⟩ :=
    Option.map_eq_some_iff.1 ((hbooked.named.bound id).symm.trans (hon id hid))
  exact ⟨binding, hbinding, hnames id binding hbinding⟩

end Dispatch
