import Dispatch.Proofs.History.Positions

/-!
# How calls are told apart

A call is matched with a run by the id of the job and the number of the attempt.  Whether that is
right depends on little of the position of a run: its ordinal, its attempt and whether it is being
stopped (its `Mark`), besides the ordinal of the next run and the calls that have been issued.
`Remarks` lists the five things that a deed can do to them, and `Does.remarks` shows that there are
no others, so what follows about the numbers of calls is proved by five cases.  They are a coarser
view of `Shifts` and `Does.shifts`.

* `Numbered` : among the calls for one run, attempts rise in the order of issue, up to the attempt
  that the run has now;
* `StopsMatched` : a stop call under way belongs to the run registered under its id, and is the only
  one for it.
-/

namespace Dispatch

variable {κ : Type}

/-- What a call is matched by, and whether the run is being stopped. -/
structure Mark where
  ordinal : Nat
  attempt : Nat
  stopping : Bool

/-- The mark of a run. -/
def Run.mark (run : Run κ) : Mark := ⟨run.ordinal, run.attempt, run.stopping⟩

/-- The mark of a position. -/
def Position.mark (p : Position) : Mark := ⟨p.ordinal, p.attempt, p.stopping⟩

namespace Registry

variable {r : Registry κ} {job id : String} {run run' : Run κ}

/-- The mark of the run registered under an id. -/
def mark? (r : Registry κ) (id : String) : Option Mark := (r.runs.get? id).map Run.mark

theorem mark?_of_get? (h : r.runs.get? id = some run) : r.mark? id = some run.mark := by
  simp [mark?, h]

theorem mark?_eq (r : Registry κ) (id : String) :
    r.mark? id = (r.position? id).map Position.mark := by
  rw [mark?, position?, Option.map_map]
  rfl

theorem get?_of_mark? {m : Mark} (h : r.mark? id = some m) :
    ∃ run, r.runs.get? id = some run ∧ run.mark = m := Option.map_eq_some_iff.1 h

theorem Sound.mark_ordinal_lt [Quantity κ] (h : r.Sound) {m : Mark} (hm : r.mark? id = some m) :
    m.ordinal < r.nextOrdinal := by
  obtain ⟨run, hrun, rfl⟩ := get?_of_mark? hm
  exact h.ordinal_lt hrun

theorem Sound.mark_inj [Quantity κ] (h : r.Sound) {id' : String} {m m' : Mark}
    (hm : r.mark? id = some m) (hm' : r.mark? id' = some m') (heq : m.ordinal = m'.ordinal) :
    id = id' := by
  obtain ⟨run, hrun, rfl⟩ := get?_of_mark? hm
  obtain ⟨run', hrun', rfl⟩ := get?_of_mark? hm'
  exact h.ordinal_inj hrun hrun' heq

end Registry

/-- What a deed does to the marks and to the calls issued. -/
inductive Remarks (s s' : Scheduler κ) (d : Deed κ) : Prop
  | same (marks : ∀ id, s'.registry.mark? id = s.registry.mark? id)
      (next : s'.registry.nextOrdinal = s.registry.nextOrdinal) (issued : s'.issued = s.issued)
  /-- A job is new. -/
  | fresh (job : String)
      (marks : ∀ id, s'.registry.mark? id =
        if id = job then some ⟨s.registry.nextOrdinal, 0, false⟩ else s.registry.mark? id)
      (old : s.registry.mark? job = none)
      (next : s'.registry.nextOrdinal = s.registry.nextOrdinal + 1)
      (issued : s'.issued = s.issued)
  /-- A job is gone, at the end of its stop if it was being stopped. -/
  | gone (job : String) (m : Mark)
      (marks : ∀ id, s'.registry.mark? id = if id = job then none else s.registry.mark? id)
      (old : s.registry.mark? job = some m) (stopped : m.stopping = true → d = .finish job)
      (next : s'.registry.nextOrdinal = s.registry.nextOrdinal) (issued : s'.issued = s.issued)
  /-- A run moves on, at the end of its stop if it was being stopped. -/
  | moved (job : String) (m m' : Mark)
      (marks : ∀ id, s'.registry.mark? id = if id = job then some m' else s.registry.mark? id)
      (old : s.registry.mark? job = some m) (stopped : m.stopping = true → d = .settle job)
      (ordinal : m'.ordinal = m.ordinal) (attempt : m.attempt ≤ m'.attempt)
      (next : s'.registry.nextOrdinal = s.registry.nextOrdinal) (issued : s'.issued = s.issued)
  /-- A call is issued for the next attempt of a run. -/
  | called (job : String) (m m' : Mark) (call : Call κ)
      (marks : ∀ id, s'.registry.mark? id = if id = job then some m' else s.registry.mark? id)
      (old : s.registry.mark? job = some m) (free : m.stopping = false)
      (ordinal : m'.ordinal = m.ordinal) (attempt : m'.attempt = m.attempt + 1)
      (mark : call.run.mark = m') (target : call.run.job.id = job)
      (stopping : call.kind = .stop → m'.stopping = true)
      (next : s'.registry.nextOrdinal = s.registry.nextOrdinal)
      (issued : s'.issued = s.issued ++ [call])

section Shift

variable {now : Instant} {job : String} {p p' : Position} {d : Deed κ}

/-- A shifted run stays the same run and counts no attempt less, -/
theorem Shift.ordinal_eq (h : Shift now job p p' d) : p'.ordinal = p.ordinal := by
  cases h <;> rfl

theorem Shift.attempt_le (h : Shift now job p p' d) : p.attempt ≤ p'.attempt := by
  cases h <;> first | exact Nat.le_refl _ | exact Nat.le_succ _

/-- and exactly one more when a call goes with it. -/
theorem Shift.attempt_eq (h : Shift now job p p' d) (hd : d.callKind? ≠ none) :
    p'.attempt = p.attempt + 1 := by
  cases h <;> first | rfl | exact absurd rfl hd

end Shift

variable {now : Instant} {s s' : Scheduler κ} {d : Deed κ}

open Scheduler Registry

/-- What is done to positions determines what is done to marks. -/
theorem Shifts.remarks (h : Shifts now s s' d) : Remarks s s' d := by
  have hmarks : ∀ {job : String} {q : Option Position},
      (∀ id, s'.registry.position? id = if id = job then q else s.registry.position? id) →
      ∀ id, s'.registry.mark? id =
        if id = job then q.map Position.mark else s.registry.mark? id := by
    intro job q positions id
    rw [mark?_eq, positions, mark?_eq]
    split <;> rfl
  cases h with
  | same _ positions next issued =>
    exact .same (fun id => by rw [mark?_eq, positions, mark?_eq]) next issued
  | fresh job _ positions old next issued =>
    exact .fresh job (hmarks positions) (by simp [mark?_eq, old]) next issued
  | gone job p positions old off next issued =>
    refine .gone job p.mark (hmarks positions) (by simp [mark?_eq, old]) (fun hstopping => ?_)
      next issued
    rcases off with ⟨hpending, -⟩ | ⟨-, hfinish⟩
    · cases hpending.2.symm.trans hstopping
    · exact hfinish
  | shifted job p p' call? positions old shift next issued kind made =>
    have hold : s.registry.mark? job = some p.mark := by simp [mark?_eq, old]
    cases call? with
    | none =>
      exact .moved job p.mark p'.mark (hmarks positions) hold shift.settles shift.ordinal_eq
        shift.attempt_le next (by simpa using issued)
    | some call =>
      obtain ⟨hposition, hjob⟩ := made call rfl
      have hcalled : d.callKind? = some call.kind := kind.symm
      have hfree : p.stopping = false := by
        cases hp : p.stopping with
        | false => rfl
        | true => cases shift.settles hp; cases hcalled
      refine .called job p.mark p'.mark call (hmarks positions) hold hfree shift.ordinal_eq
        (shift.attempt_eq (by simp [hcalled])) (congrArg Position.mark hposition) hjob ?_ next
        (by simpa using issued)
      exact fun hkind => shift.stopping_iff.2 (hcalled.trans (congrArg some hkind))

variable [Quantity κ]

/-- **There are five things** that a deed can do to marks and calls. -/
theorem Does.remarks (hdoes : Does now s d s') (hsound : s.registry.Sound) : Remarks s s' d :=
  (hdoes.shifts hsound).remarks

/-- Among the calls for one run, attempts rise in the order of issue, up to the attempt that the run
has now; runs yet to come have ordinals of their own. -/
structure Numbered (calls : List (Call κ)) (r : Registry κ) : Prop where
  ordinal_lt : ∀ call ∈ calls, call.run.ordinal < r.nextOrdinal
  attempt_le : ∀ call ∈ calls, ∀ id m, r.mark? id = some m → m.ordinal = call.run.ordinal →
    call.run.attempt ≤ m.attempt
  rising : calls.Pairwise fun c c' =>
    c.run.ordinal = c'.run.ordinal → c.run.attempt < c'.run.attempt

omit [Quantity κ] in
theorem Numbered.nil (r : Registry κ) : Numbered [] r := ⟨by simp, by simp, .nil⟩

/-- Deeds keep calls numbered, the calls issued before and those in the outbox taken together. -/
theorem Remarks.numbered {past : List (Call κ)} (hdeed : Remarks s s' d)
    (hsound : s.registry.Sound) (h : Numbered (past ++ s.issued) s.registry) :
    Numbered (past ++ s'.issued) s'.registry := by
  cases hdeed with
  | same marks next issued =>
    rw [issued]
    refine ⟨?_, ?_, h.rising⟩
    · intro call hc
      rw [next]
      exact h.ordinal_lt call hc
    · intro call hc id m hm
      rw [marks] at hm
      exact h.attempt_le call hc id m hm
  | fresh job marks old next issued =>
    rw [issued]
    refine ⟨?_, ?_, h.rising⟩
    · intro call hc
      rw [next]
      exact Nat.lt_succ_of_lt (h.ordinal_lt call hc)
    · intro call hc id m hm heq
      rw [marks] at hm
      split at hm
      · -- no call has been issued for the ordinal of the new run
        obtain rfl := Option.some.inj hm
        exact absurd heq.symm (Nat.ne_of_lt (h.ordinal_lt call hc))
      · exact h.attempt_le call hc id m hm heq
  | gone job m marks old stopped next issued =>
    rw [issued]
    refine ⟨?_, ?_, h.rising⟩
    · intro call hc
      rw [next]
      exact h.ordinal_lt call hc
    · intro call hc id m hm heq
      rw [marks] at hm
      split at hm
      · cases hm
      · exact h.attempt_le call hc id m hm heq
  | moved job m m' marks old stopped ordinal attempt next issued =>
    rw [issued]
    refine ⟨?_, ?_, h.rising⟩
    · intro call hc
      rw [next]
      exact h.ordinal_lt call hc
    · intro call hc id m₁ hm heq
      rw [marks] at hm
      split at hm
      · obtain rfl := Option.some.inj hm
        exact Nat.le_trans (h.attempt_le call hc job m old (ordinal ▸ heq)) attempt
      · exact h.attempt_le call hc id m₁ hm heq
  | called job m m' call marks old free ordinal attempt mark target stopping next issued =>
    have hordinal : call.run.ordinal = m.ordinal := by rw [← ordinal, ← mark]; rfl
    have hattempt : call.run.attempt = m.attempt + 1 := by rw [← attempt, ← mark]; rfl
    rw [issued, ← List.append_assoc]
    refine ⟨?_, ?_, ?_⟩
    · intro c hc
      rw [next]
      rcases List.mem_append.1 hc with hc | hc
      · exact h.ordinal_lt c hc
      · obtain rfl := List.mem_singleton.1 hc
        rw [hordinal]
        exact hsound.mark_ordinal_lt old
    · intro c hc id m₁ hm heq
      rw [marks] at hm
      rcases List.mem_append.1 hc with hc | hc
      · split at hm
        · obtain rfl := Option.some.inj hm
          have := h.attempt_le c hc job m old (ordinal ▸ heq)
          omega
        · exact h.attempt_le c hc id m₁ hm heq
      · obtain rfl := List.mem_singleton.1 hc
        split at hm
        · obtain rfl := Option.some.inj hm
          omega
        · rename_i hne
          exact absurd (hsound.mark_inj hm old (heq.trans hordinal)) hne
    · -- the earlier calls for this run are for at most the attempt that it had before
      refine List.pairwise_append.2 ⟨h.rising, List.pairwise_singleton _ _, ?_⟩
      intro c hc c' hc' heq
      obtain rfl := List.mem_singleton.1 hc'
      have := h.attempt_le c hc job m old (hordinal.symm.trans heq.symm)
      omega

/-- A stop call under way belongs to the run registered under its id, which is being stopped and has
not moved on; and there is no other one for it. -/
structure StopsMatched (calls : List (Call κ)) (r : Registry κ) : Prop where
  mark : ∀ call ∈ calls, call.kind = .stop →
    r.mark? call.run.job.id = some call.run.mark ∧ call.run.stopping = true
  alone : calls.Pairwise fun c c' =>
    c.kind = .stop → c'.kind = .stop → c.run.job.id ≠ c'.run.job.id

end Dispatch
