import Dispatch.Proofs.History.Calls
import Dispatch.Proofs.History.Positions
import Dispatch.Proofs.History.Replay
import Dispatch.Proofs.Numbers

/-!
# The books on calls

The loop keeps two records of its calls: it counts those under way, and a run that is being stopped
waits for its stop call.  Both are exact at every moment, whatever comes back in which order.

* `StopsBooked` : a stop call under way is for the run registered under its id, at its present
  attempt and executor, a run that is being stopped has one, and no call for a job follows it;
* `Shifts.stopsBooked`, `StopsBooked.complete`, `ReachedBy.stopsBooked` : deeds and returns keep
  that, so it holds in every session;
* `calls_accounted` : **the books are exact in every session and in the course of an advance**, so
  that the count is never lowered below zero, and a stop call that comes back always takes its
  run off the executor.
-/

namespace Dispatch

variable {κ : Type}

/-- The stop calls in a list are those of the runs that are being stopped, one for each. -/
structure StopsBooked (calls : List (Call κ)) (r : Registry κ) : Prop where
  position : ∀ call ∈ calls, call.kind = .stop →
    r.position? call.run.job.id = some call.run.position ∧ call.run.stopping = true
  awaited : ∀ id p, r.position? id = some p → p.stopping = true →
    ∃ call ∈ calls, call.kind = .stop ∧ call.run.job.id = id
  last : calls.Pairwise fun c c' => c.kind = .stop → c.run.job.id ≠ c'.run.job.id

namespace StopsBooked

variable {calls before after : List (Call κ)} {added : Option (Call κ)} {call : Call κ}
  {r r' : Registry κ} {job : String} {q : Option Position}

/-- Nothing is booked at the start. -/
theorem empty : StopsBooked [] (∅ : Registry κ) := ⟨by simp, nofun, .nil⟩

theorem congr (h : StopsBooked calls r) (positions : ∀ id, r'.position? id = r.position? id) :
    StopsBooked calls r' where
  position call hc hkind := by
    rw [positions]
    exact h.position call hc hkind
  awaited id p hp := by
    rw [positions] at hp
    exact h.awaited id p hp
  last := h.last

/-- The run of a job that is not being stopped may change, and calls be issued for it: no call when
it is not being stopped afterwards either, and its stop call otherwise. -/
theorem update (h : StopsBooked calls r)
    (positions : ∀ id, r'.position? id = if id = job then q else r.position? id)
    (free : ∀ p, r.position? job = some p → p.stopping = false)
    (target : ∀ c ∈ added, c.run.job.id = job)
    (stops : ∀ c ∈ added, c.kind = .stop → q = some c.run.position ∧ c.run.stopping = true)
    (awaited : ∀ p, q = some p → p.stopping = true → ∃ c ∈ added, c.kind = .stop) :
    StopsBooked (calls ++ added.toList) r' := by
  -- a stop call that was under way before is for another job
  have hother : ∀ c ∈ calls, c.kind = .stop → c.run.job.id ≠ job := by
    rintro c hc hkind rfl
    obtain ⟨hposition, hstopping⟩ := h.position c hc hkind
    have hfree : c.run.stopping = false := free _ hposition
    rw [hstopping] at hfree
    cases hfree
  refine ⟨fun c hc hkind => ?_, fun id p hp hstopping => ?_, ?_⟩
  · rw [positions]
    rcases List.mem_append.1 hc with hc | hc
    · rw [if_neg (hother c hc hkind)]
      exact h.position c hc hkind
    · have hc := Option.mem_toList.1 hc
      rw [if_pos (target c hc)]
      exact stops c hc hkind
  · rw [positions] at hp
    split at hp
    · rename_i hid
      obtain ⟨c, hc, hkind⟩ := awaited p hp hstopping
      exact ⟨c, List.mem_append_right _ (Option.mem_toList.2 hc), hkind,
        (target c hc).trans hid.symm⟩
    · obtain ⟨c, hc, hkind, hjob⟩ := h.awaited id p hp hstopping
      exact ⟨c, List.mem_append_left _ hc, hkind, hjob⟩
  · refine List.pairwise_append.2 ⟨h.last, ?_, ?_⟩
    · cases added <;> simp
    · intro c hc c' hc' hkind
      rw [target c' (Option.mem_toList.1 hc')]
      exact hother c hc hkind

/-- A stop call is back and its run is no longer being stopped. -/
theorem ended (h : StopsBooked (before ++ call :: after) r) (kind : call.kind = .stop)
    (positions : ∀ id, r'.position? id = if id = call.run.job.id then q else r.position? id)
    (off : ∀ p, q = some p → p.stopping = false) : StopsBooked (before ++ after) r' := by
  have hlast := List.pairwise_append.1 h.last
  have hother : ∀ c ∈ before ++ after, c.kind = .stop → c.run.job.id ≠ call.run.job.id := by
    intro c hc hkind
    rcases List.mem_append.1 hc with hc | hc
    · exact hlast.2.2 c hc call List.mem_cons_self hkind
    · exact ((List.pairwise_cons.1 hlast.2.1).1 c hc kind).symm
  have hsub : (before ++ after).Sublist (before ++ call :: after) :=
    (List.Sublist.refl before).append (List.sublist_cons_self call after)
  refine ⟨fun c hc hkind => ?_, fun id p hp hstopping => ?_, h.last.sublist hsub⟩
  · rw [positions, if_neg (hother c hc hkind)]
    exact h.position c (hsub.subset hc) hkind
  · rw [positions] at hp
    split at hp
    · rw [off p hp] at hstopping
      cases hstopping
    · rename_i hid
      obtain ⟨c, hc, hkind, hjob⟩ := h.awaited id p hp hstopping
      refine ⟨c, (List.mem_cons.1 (List.perm_middle.mem_iff.1 hc)).resolve_left ?_, hkind, hjob⟩
      rintro rfl
      exact hid hjob.symm

/-- A start call is back. -/
theorem startBack (h : StopsBooked (before ++ call :: after) r) (kind : call.kind = .start) :
    StopsBooked (before ++ after) r := by
  have hsub : (before ++ after).Sublist (before ++ call :: after) :=
    (List.Sublist.refl before).append (List.sublist_cons_self call after)
  refine ⟨fun c hc => h.position c (hsub.subset hc), fun id p hp hstopping => ?_,
    h.last.sublist hsub⟩
  obtain ⟨c, hc, hkind, hjob⟩ := h.awaited id p hp hstopping
  refine ⟨c, (List.mem_cons.1 (List.perm_middle.mem_iff.1 hc)).resolve_left ?_, hkind, hjob⟩
  rintro rfl
  cases kind.symm.trans hkind

end StopsBooked

variable {now : Instant} {s s' : Scheduler κ} {d : Deed κ}

/-- Deeds keep the stop calls booked, but for those that end a stop. -/
theorem Shifts.stopsBooked {rest : List (Call κ)} (h : Shifts now s s' d)
    (going : d.ended? = none) (hbooked : StopsBooked (rest ++ s.issued) s.registry) :
    StopsBooked (rest ++ s'.issued) s'.registry := by
  cases h with
  | same _ positions next issued =>
    rw [issued]
    exact hbooked.congr positions
  | fresh job _ positions old next issued =>
    rw [issued, ← List.append_nil (rest ++ s.issued), ← Option.toList_none]
    exact hbooked.update positions (by simp [old]) (by simp) (by simp) (by simp)
  | gone job p positions old off next issued =>
    have hfree : p.stopping = false := by
      rcases off with ⟨hpending, -⟩ | ⟨-, rfl⟩
      · exact hpending.2
      · cases going
    rw [issued, ← List.append_nil (rest ++ s.issued), ← Option.toList_none]
    exact hbooked.update positions (by simp [old, hfree]) (by simp) (by simp) (by simp)
  | shifted job p p' call? positions old shift next issued kind made =>
    rw [issued, ← List.append_assoc]
    refine hbooked.update positions ?_ (fun c hc => (made c hc).2) ?_ ?_
    · intro p₀ hp₀
      obtain rfl : p = p₀ := Option.some.inj (old.symm.trans hp₀)
      exact shift.free going
    · rintro c hc hstop
      have hstopping : p'.stopping = true := by
        rw [shift.stopping_iff, ← kind, Option.mem_def.1 hc, ← hstop, Option.map_some]
      rw [← (made c hc).1] at hstopping ⊢
      exact ⟨rfl, hstopping⟩
    · rintro _ ⟨⟩ hstopping
      rw [shift.stopping_iff, ← kind] at hstopping
      exact Option.map_eq_some_iff.1 hstopping

/-- The end of a stop takes the run off, and no call goes with it. -/
theorem Shifts.ended {job : String} (h : Shifts now s s' d) (hd : d.ended? = some job) :
    ∃ q : Option Position, (∀ id, s'.registry.position? id =
        if id = job then q else s.registry.position? id) ∧
      (∀ p, q = some p → p.stopping = false) ∧ s'.issued = s.issued := by
  cases h with
  | same going => simp [going] at hd
  | fresh _ going => simp [going] at hd
  | gone job p positions old off next issued =>
    rcases off with ⟨-, going⟩ | ⟨-, rfl⟩
    · simp [going] at hd
    · obtain rfl := Option.some.inj hd
      exact ⟨none, positions, by simp, issued⟩
  | shifted job p p' call? positions old shift next issued kind made =>
    cases shift with
    | settle =>
      obtain rfl := Option.some.inj hd
      obtain rfl : call? = none := Option.map_eq_none_iff.1 kind
      refine ⟨_, positions, ?_, by simp [issued]⟩
      rintro _ ⟨⟩
      rfl
    | _ => cases hd

/-- A stop call that comes back finds its run, at the same attempt and still being stopped, and ends
that. -/
theorem StopsBooked.effect? {calls : List (Call κ)} {call : Call κ}
    (h : StopsBooked calls s.registry) (hc : call ∈ calls) (kind : call.kind = .stop)
    (result : CallResult) : ∃ run d, s.registry.runs.get? call.run.job.id = some run ∧
      run.position = call.run.position ∧ run.stopping = true ∧
      s.effect? (call.completion result) = some d ∧ d.ended? = some call.run.job.id := by
  obtain ⟨hposition, hstopping⟩ := h.position call hc kind
  obtain ⟨run, hrun, hsame⟩ := Registry.get?_of_position? hposition
  have hattempt : run.attempt = call.run.attempt := congrArg Position.attempt hsame
  have hstop : run.stopping = true := (congrArg Position.stopping hsame).trans hstopping
  refine ⟨run, ?_⟩
  cases hrm : run.removing with
  | true => exact ⟨_, hrun, hsame, hstop,
      Scheduler.effect?_eq_some_iff.2 ⟨run, hrun, hattempt, .finish kind hstop hrm⟩, rfl⟩
  | false => exact ⟨_, hrun, hsame, hstop,
      Scheduler.effect?_eq_some_iff.2 ⟨run, hrun, hattempt, .settle kind hstop hrm⟩, rfl⟩

open Scheduler

variable [Quantity κ]

/-- Stop calls stay booked when a call comes back. -/
theorem StopsBooked.complete {before after : List (Call κ)} {call : Call κ}
    (h : StopsBooked (before ++ call :: after) s.registry) (hsound : s.registry.Sound)
    (hissued : s.issued = []) (result : CallResult) :
    StopsBooked (before ++ after ++ (s.complete (call.completion result) now).issued)
      (s.complete (call.completion result) now).registry := by
  have hback : s.heardBack.issued = [] := hissued
  have hmem : call ∈ before ++ call :: after := by simp
  have hdone := complete_eq s (call.completion result) now
  generalize s.complete (call.completion result) now = s' at hdone ⊢
  cases hkind : call.kind with
  | start =>
    have hstart : StopsBooked (before ++ after ++ s.heardBack.issued) s.heardBack.registry := by
      rw [hback, List.append_nil]
      exact h.startBack hkind
    rcases hdone with ⟨-, rfl⟩ | ⟨d, hd, hdoes⟩
    · exact hstart
    · refine (hdoes.shifts hsound).stopsBooked ?_ hstart
      obtain ⟨run, -, -, hreturns⟩ := effect?_eq_some_iff.1 hd
      cases hreturns with
      | confirm => rfl
      | release => rfl
      | finish kind => exact absurd (hkind.symm.trans kind) nofun
      | settle kind => exact absurd (hkind.symm.trans kind) nofun
  | stop =>
    obtain ⟨-, d, -, -, -, hd, hends⟩ := h.effect? hmem hkind result
    rcases hdone with ⟨hnone, -⟩ | ⟨d', hd', hdoes⟩
    · rw [hd] at hnone
      cases hnone
    · obtain rfl : d = d' := Option.some.inj (hd.symm.trans hd')
      obtain ⟨q, positions, off, issued⟩ := (hdoes.shifts hsound).ended hends
      rw [issued, hback, List.append_nil]
      exact h.ended hkind positions off

/-- The calls under way, those issued earlier and those in the outbox, are on the books. -/
structure Scheduler.Books (earlier : List (Call κ)) (s : Scheduler κ) : Prop where
  counted : s.inFlight = (earlier ++ s.issued).length
  stops : StopsBooked (earlier ++ s.issued) s.registry

/-- They stay so by every deed that is not about a call that comes back. -/
theorem Does.books {earlier : List (Call κ)} (hdoes : Does now s d s')
    (hd : d ≠ .callBack ∧ d.ended? = none) (hsound : s.registry.Sound) (h : s.Books earlier) :
    s'.Books earlier := by
  obtain ⟨calls, hissues⟩ := hdoes.issues hd.1
  refine ⟨?_, (hdoes.shifts hsound).stopsBooked hd.2 h.stops⟩
  rw [hissues.counted, hissues.issued, h.counted]
  simp [Nat.add_assoc]

/-- What is on the books stays there while no call comes back and no stop ends. -/
theorem Course.books {earlier : List (Call κ)}
    (h : Course (fun _ _ d => d ≠ .callBack ∧ d.ended? = none) s s') (hsound : s.registry.Sound)
    (hs : s.Books earlier) : s'.Books earlier :=
  h.invariant_of_sound (I := Scheduler.Books earlier) hsound hs
    fun _ _ _ _ hsound hbooks hd hdoes => hdoes.books hd hsound hbooks

/-- When the call that comes back is handled, the others are on the books. -/
theorem Advance.handled_books {a : Advance κ} {calls rest : List (Call κ)}
    (hsound : s.registry.Sound) (hissued : s.issued = []) (h : s.Books calls)
    (htakes : Takes calls a.completion? rest) : (a.handled s).Books rest := by
  cases hc : a.completion? with
  | none =>
    rw [hc] at htakes
    obtain rfl : rest = calls := htakes
    simpa [handled, hc] using h
  | some c =>
    rw [hc] at htakes
    obtain ⟨before, call, after, result, rfl, rfl, rfl⟩ := htakes
    obtain ⟨calls, hissues⟩ := Advance.handled_issues s a
    have hstops := h.stops
    have hcounted := h.counted
    rw [hissued, List.append_nil] at hstops hcounted
    refine ⟨?_, ?_⟩
    · have hback : a.counted s = s.heardBack := by simp [counted, hc]
      have hnone : s.heardBack.issued = [] := hissued
      have hfewer : s.heardBack.inFlight = (before ++ after).length := by
        simp [heardBack, hcounted]
      rw [hissues.counted, hissues.issued, hback, hnone, hfewer, List.nil_append,
        ← List.length_append]
    · simp only [handled, hc, Option.isSome_some, if_true, Advance.takeIn_completion hc]
      exact hstops.complete hsound hissued result

theorem ReachedBy.books {P : Scheduler κ → Advance κ → Prop} {config : Config κ}
    {session : Session κ} (h : ReachedBy P config session) :
    session.scheduler.Books session.underWay := by
  refine h.invariant (I := fun session => session.scheduler.Books session.underWay)
    (fun _ _ => ⟨rfl, .empty⟩) ?_
  rintro session a _ hreach hbooks - ⟨-, -, rest, htakes, rfl⟩
  have hhandled : (a.handled session.scheduler).Books rest :=
    Advance.handled_books hreach.sound hreach.issued_eq_nil hbooks htakes
  have hafter : (a.apply session.scheduler).Books rest :=
    (Advance.handled_course hreach.sound a).books (Advance.handled_sound hreach.sound) hhandled
  exact ⟨by simpa [Session.after, issued] using hafter.counted,
    by simpa [Session.after, issued] using hafter.stops⟩

/-- **The stop calls under way are those of the runs that are being stopped**, one for each, -/
theorem ReachedBy.stopsBooked {P : Scheduler κ → Advance κ → Prop} {config : Config κ}
    {session : Session κ} (h : ReachedBy P config session) :
    StopsBooked session.underWay session.scheduler.registry := by
  have hstops := h.books.stops
  rwa [h.issued_eq_nil, List.append_nil] at hstops

/-- so no run is being stopped when no call is under way. -/
theorem ReachedBy.not_stopping {P : Scheduler κ → Advance κ → Prop} {config : Config κ}
    {session : Session κ} (h : ReachedBy P config session) (idle : session.underWay = [])
    {id : String} {run : Run κ} (hrun : session.scheduler.registry.runs.get? id = some run) :
    run.stopping = false := by
  refine Bool.eq_false_iff.2 fun hstopping => ?_
  obtain ⟨call, hcall, -⟩ :=
    h.stopsBooked.awaited id _ (Registry.position?_of_get? hrun) hstopping
  simp [idle] at hcall

omit [Quantity κ] in
/-- When no call for a job follows a stop call for it, there is at most one such stop call. -/
theorem countP_stop_le_one {calls : List (Call κ)}
    (h : calls.Pairwise fun c c' => c.kind = .stop → c.run.job.id ≠ c'.run.job.id) (id : String) :
    calls.countP (fun c => c.kind = .stop ∧ c.run.job.id = id) ≤ 1 := by
  induction calls with
  | nil => simp
  | cons c calls ih =>
    obtain ⟨hfirst, hrest⟩ := List.pairwise_cons.1 h
    rw [List.countP_cons]
    split
    · rename_i hc
      obtain ⟨hkind, rfl⟩ : c.kind = .stop ∧ c.run.job.id = id := by simpa using hc
      have hnone : calls.countP (fun c' => c'.kind = .stop ∧ c'.run.job.id = c.run.job.id) = 0 := by
        refine List.countP_eq_zero.2 fun c' hc' => ?_
        simp [(hfirst c' hc' hkind).symm]
      omega
    · exact ih hrest

/-- The books of a scheduler on the calls that are outstanding are exact. -/
structure Scheduler.Accounts (calls : List (Call κ)) (s : Scheduler κ) : Prop where
  /-- All of them are counted. -/
  counted : s.inFlight = calls.length
  /-- A job has a stop call outstanding exactly when its run is being stopped. -/
  stopping : ∀ id, (∃ call ∈ calls, call.kind = .stop ∧ call.run.job.id = id) ↔
    ∃ run, s.registry.runs.get? id = some run ∧ run.stopping = true
  /-- It never has two. -/
  single : ∀ id, calls.countP (fun call => call.kind = .stop ∧ call.run.job.id = id) ≤ 1
  /-- A stop call is that of the present attempt of the run, on the executor that the run is on. -/
  matched : ∀ call ∈ calls, call.kind = .stop → ∀ run,
    s.registry.runs.get? call.run.job.id = some run → run.ordinal = call.run.ordinal ∧
      run.attempt = call.run.attempt ∧ run.executor = call.run.executor
  /-- No call is issued for a job after its stop call. -/
  last : calls.Pairwise fun c c' => c.kind = .stop → c.run.job.id ≠ c'.run.job.id

/-- A stop call is taken for what it is: it finds the run of its job at the attempt it was issued
for, still being stopped, and afterwards that run is no longer being stopped, or is gone. -/
def Scheduler.Heeds (s s' : Scheduler κ) (c : Completion) : Prop :=
  ∃ run, s.registry.runs.get? c.job = some run ∧ run.attempt = c.attempt ∧ run.stopping = true ∧
    ∀ run', s'.registry.runs.get? c.job = some run' → run'.stopping = false

omit [Quantity κ] in
/-- Calls that are on the books are accounted for. -/
theorem Scheduler.Books.accounts {earlier : List (Call κ)} (h : s.Books earlier) :
    s.Accounts (earlier ++ s.issued) where
  counted := h.counted
  stopping id := by
    constructor
    · rintro ⟨call, hc, hkind, rfl⟩
      obtain ⟨hposition, hstopping⟩ := h.stops.position call hc hkind
      obtain ⟨run, hrun, hsame⟩ := Registry.get?_of_position? hposition
      exact ⟨run, hrun, (congrArg Position.stopping hsame).trans hstopping⟩
    · rintro ⟨run, hrun, hstopping⟩
      exact h.stops.awaited id _ (Registry.position?_of_get? hrun) hstopping
  single id := countP_stop_le_one h.stops.last id
  matched call hc hkind run hrun := by
    have hposition := (h.stops.position call hc hkind).1
    rw [Registry.position?_of_get? hrun, Option.some.injEq] at hposition
    exact ⟨congrArg Position.ordinal hposition, congrArg Position.attempt hposition,
      congrArg Position.executor hposition⟩
  last := h.stops.last

/-- A stop call on the books is taken for what it is when it comes back. -/
theorem Advance.handled_heeds {a : Advance κ} {calls rest : List (Call κ)} {c : Completion}
    (hsound : s.registry.Sound) (h : StopsBooked calls s.registry)
    (htakes : Takes calls a.completion? rest) (hc : a.completion? = some c)
    (hkind : c.kind = .stop) : s.Heeds (a.handled s) c := by
  rw [hc] at htakes
  obtain ⟨before, call, after, result, rfl, rfl, rfl⟩ := htakes
  have hmem : call ∈ before ++ call :: after := by simp
  obtain ⟨run, d, hrun, hsame, hstopping, hd, hends⟩ := h.effect? hmem hkind result
  refine ⟨run, hrun, congrArg Position.attempt hsame, hstopping, fun run' hrun' => ?_⟩
  replace hrun' : (a.handled s).registry.runs.get? call.run.job.id = some run' := hrun'
  simp only [handled, hc, Option.isSome_some, if_true, Advance.takeIn_completion hc] at hrun'
  rcases complete_eq s (call.completion result) a.heard with ⟨hnone, -⟩ | ⟨d', hd', hdoes⟩
  · rw [hd] at hnone
    cases hnone
  · obtain rfl : d = d' := Option.some.inj (hd.symm.trans hd')
    obtain ⟨q, positions, off, -⟩ := (hdoes.shifts hsound).ended hends
    have hafter := positions call.run.job.id
    rw [if_pos rfl, Registry.position?_of_get? hrun'] at hafter
    exact off _ hafter.symm

/-- **The books on calls are exact** in every session that is reached, and in every advance: when
the call that comes back, if one does, has been handled, when the event has been taken in, and
afterwards.  That call was counted, and a stop call is always taken for what it is. -/
theorem calls_accounted {config : Config κ} {session : Session κ} (h : Reachable config session) :
    session.scheduler.Accounts session.underWay ∧
      ∀ (a : Advance κ) rest, Takes session.underWay a.completion? rest →
        (∀ c, a.completion? = some c → 0 < session.scheduler.inFlight ∧
          (c.kind = .stop → session.scheduler.Heeds (a.handled session.scheduler) c)) ∧
        (a.handled session.scheduler).Accounts (rest ++ (a.handled session.scheduler).issued) ∧
        (a.takeIn session.scheduler).Accounts (rest ++ (a.takeIn session.scheduler).issued) ∧
        (a.apply session.scheduler).Accounts (rest ++ (a.apply session.scheduler).issued) := by
  have hnow := h.books.accounts
  rw [h.issued_eq_nil, List.append_nil] at hnow
  refine ⟨hnow, fun a rest htakes => ?_⟩
  have hsound : (a.handled session.scheduler).registry.Sound := Advance.handled_sound h.sound
  have hhandled := Advance.handled_books h.sound h.issued_eq_nil h.books htakes
  have htaken := (Advance.handled_intake h.sound a).books hsound hhandled
  have hafter := (Advance.handled_course h.sound a).books hsound hhandled
  refine ⟨fun c hc => ⟨?_, Advance.handled_heeds h.sound h.stopsBooked htakes hc⟩,
    hhandled.accounts, htaken.accounts, hafter.accounts⟩
  rw [hc] at htakes
  obtain ⟨before, call, after, result, hsplit, -⟩ := htakes
  rw [hnow.counted, hsplit]
  exact List.length_pos_of_mem (List.mem_append_right before List.mem_cons_self)

/-- Two jobs are being started when one of them is stopped and then removed. -/
def removedLate : Session ℚ :=
  (Session.play (fun _ _ => true) { scheduler := { config := ownerConfirms }, now := 0 }
    [(0, .request (.addExecutor { id := "A", capacity := 10 })),
      (0, .request (.addJob { id := "j", cost := 1 })),
      (0, .request (.addJob { id := "k", cost := 1 })),
      (0, .request (.stopJob "j")),
      (0, .request (.removeJob "j"))]).get (by decide +kernel)

/-- The stop call comes back before the start call, with the calls that are left. -/
def removedLateBack : Advance ℚ × List (Call ℚ) :=
  ((Cue.answer 1 (.error .cancelled)).advance? removedLate 0).get (by decide +kernel)

/-- There is one stop call for the job, though it is stopped twice, and it ends the stop. -/
theorem calls_accounted_removedLate :
    removedLate.scheduler.inFlight = 3 ∧
      removedLate.underWay.countP (fun c => c.kind = .stop ∧ c.run.job.id = "j") = 1 ∧
      ∃ c, removedLateBack.1.completion? = some c ∧ c.kind = .stop ∧
        removedLate.scheduler.Heeds (removedLateBack.1.handled removedLate.scheduler) c := by
  have hreached : Reachable ownerConfirms removedLate :=
    Session.play_reachedBy (fun _ _ _ => trivial) (.start 0 (by decide +kernel))
      (Option.some_get _).symm
  obtain ⟨haccounts, hadvance⟩ := calls_accounted hreached
  have htakes : Takes removedLate.underWay removedLateBack.1.completion? removedLateBack.2 :=
    Cue.takes (Option.some_get _).symm
  have hkind : removedLateBack.1.completion?.map (·.kind) = some .stop := by decide +kernel
  obtain ⟨c, hc, hstop⟩ := Option.map_eq_some_iff.1 hkind
  refine ⟨haccounts.counted.trans (by decide +kernel), ?_, c, hc, hstop,
    ((hadvance _ _ htakes).1 c hc).2 hstop⟩
  exact Nat.le_antisymm (haccounts.single "j") (by decide +kernel)

end Dispatch
