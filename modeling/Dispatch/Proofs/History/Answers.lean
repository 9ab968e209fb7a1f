import Dispatch.Proofs.History.Desk
import Dispatch.Proofs.History.Replay
import Dispatch.Proofs.Numbers
import Mathlib.Data.List.Induction
import Mathlib.Data.List.Nodup

/-!
# How requests are answered

A request is answered by the turn that takes it, and a check of the registry by the first turn that
leaves nothing to be done at once.  What is in line or waits when the loop is left is turned away.

* `Moment.replies_eq`, `Moment.answersTo_eq` : all that one advance answers;
* `Chronicle` : a history as the list of its moments;
* `Chronicle.mem_checksWaiting_iff` : which requests wait;
* `requests_answered` : **every request is answered exactly once**, and when.
-/

namespace Dispatch

variable {κ : Type}

open Scheduler

/-! ### Histories, moment by moment -/

/-- One advance in a history, with the scheduler that makes it. -/
structure Moment (κ : Type) where
  scheduler : Scheduler κ
  advance : Advance κ

/-- The tickets of the requests in line when the loop is left. -/
def Advance.queued : Advance κ → List Ticket
  | .leave queued .. => queued
  | _ => []

/-- The request that a turn takes. -/
def Advance.request? : Advance κ → Option (Ticket × Command κ)
  | .turn (.request ticket command) .. => some (ticket, command)
  | _ => none

/-- The check of the registry that a turn takes. -/
def Advance.check? : Advance κ → Option Ticket
  | .turn e .. => e.check?
  | _ => none

theorem Advance.check?_sublist (a : Advance κ) :
    a.check?.toList.Sublist (a.request?.toList.map Prod.fst) := by
  cases a with
  | turn e =>
    cases e with
    | request ticket command =>
      by_cases h : command = .checkInvariants
      · subst h
        exact .refl _
      · simp [check?, Event.check?_request ticket h]
    | _ => exact List.nil_sublist _
  | _ => exact List.nil_sublist _

variable [Quantity κ]

namespace Moment

variable (m : Moment κ)

/-- The scheduler afterwards, with what the moment says in its outbox. -/
def after : Scheduler κ := m.advance.apply m.scheduler

/-- The tickets that come before the loop: of the request that is taken, or of those that are in
line when the loop is left. -/
def asked : List Ticket := m.advance.request?.toList.map Prod.fst ++ m.advance.queued

/-- The reply to the request that is taken, unless it is a check. -/
def own? : Option (Ticket × Reply) :=
  match m.advance with
  | .turn e heard .. => (m.scheduler.accept e heard).2
  | _ => none

/-- The checks that wait once the moment has taken what comes before the loop. -/
def waiting : List Ticket := m.scheduler.checksWaiting ++ m.advance.check?.toList

/-- What the checks that wait are told, if it is time to tell them: the verdict on the registry at
the end of a turn whose plan has no action, and that the loop is left when it is. -/
def word? : Option Reply :=
  match m.advance with
  | .turn .. =>
    if (m.advance.planned m.scheduler).isNone then some (m.after.registry.verify m.after.config)
    else none
  | .leave .. => some (.error .shutdown)
  | .drain .. => none

/-- What the moment answers to a request, each time it does. -/
def answersTo (ticket : Ticket) : List Reply :=
  (m.after.replies.filter (·.1 == ticket)).map Prod.snd

/-- All that a moment answers. -/
theorem replies_eq (h : m.scheduler.outbox = []) : m.after.replies = m.own?.toList ++
    m.word?.toList.flatMap fun word => (m.advance.queued ++ m.waiting).map (·, word) := by
  obtain ⟨s, a⟩ := m
  cases a with
  | turn e heard looked shown =>
    have hacted : (s.acted e heard looked).replies = [] := by
      rw [(acted_desk s e heard looked).1, Scheduler.replies, show s.outbox = [] from h]
      rfl
    rw [Scheduler.replies] at hacted
    have hdue := turnAt_refreshDue s e heard looked shown
    simp only [after, Advance.apply, Scheduler.replies, turnAt_outbox, List.filterMap_append,
      hacted, hdue, List.filterMap_map, Function.comp_def, Output.reply?]
    cases hplan : (Advance.turn e heard looked shown).planned s with
    | none =>
      simp [own?, word?, waiting, after, Advance.apply, Advance.queued, Advance.check?, hplan]
    | some action => simp [own?, word?, hplan]
  | leave queued looked shown =>
    simpa [after, own?, word?, waiting, Advance.apply, Advance.queued, Advance.check?] using
      (leaveAt_replies s looked shown queued h).1
  | drain c heard looked shown =>
    simp only [after, Advance.apply, (drainTurnAt_desk s looked shown c heard).replies]
    simp [Scheduler.replies, show s.outbox = [] from h, own?, word?]

/-- Checks are told nothing in a turn after which more is due. -/
theorem word?_of_due {e : Event κ} {heard looked shown : Instant}
    (hm : m.advance = .turn e heard looked shown) (hdue : m.after.refreshDue = true) :
    m.word? = none := by
  rw [after, hm, Advance.apply, turnAt_refreshDue] at hdue
  simp [word?, hm, Option.isNone_iff_eq_none.not.mpr (Option.isSome_iff_ne_none.1 hdue)]

/-- A turn looks at the plan once; then comes the reply to its request, unless this is a check, and
after it nothing but words to checks. -/
theorem outbox_request {ticket : Ticket} {command : Command κ} {heard looked shown : Instant}
    (hm : m.advance = .turn (.request ticket command) heard looked shown)
    (hplain : command ≠ .checkInvariants) :
    m.after.registry = (m.scheduler.acted (.request ticket command) heard looked).registry ∧
      ∃ (checks : List Ticket) (word : Reply),
        m.after.outbox = (m.scheduler.acted (.request ticket command) heard looked).outbox ++
          .reply ticket (m.scheduler.handle command heard).2 ::
            checks.map fun check => .reply check word := by
  rw [after, hm, Advance.apply, turnAt_outbox, accept_request _ _ hplain, List.append_assoc]
  exact ⟨(turnAt_eq _ _ heard looked shown).1, _, _, rfl⟩

/-- What checks are told in a turn comes at its end. -/
theorem outbox_checks {e : Event κ} {heard looked shown : Instant} {word : Reply}
    (hm : m.advance = .turn e heard looked shown) (hword : m.word? = some word) :
    ∃ said, m.after.outbox = said ++ m.waiting.map fun check => .reply check word := by
  obtain ⟨s, a⟩ := m
  obtain rfl : a = .turn e heard looked shown := hm
  have hdue := turnAt_refreshDue s e heard looked shown
  cases hplan : (Advance.turn e heard looked shown).planned s with
  | some action => simp [word?, hplan] at hword
  | none =>
    obtain rfl : _ = word := by simpa [word?, hplan] using hword
    have hout := turnAt_outbox s e heard looked shown
    rw [hdue, hplan] at hout
    exact ⟨_, hout⟩

omit [Quantity κ] in
/-- Who is told one word with others is told it once. -/
theorem filter_told {tickets : List Ticket} (hd : tickets.Nodup) (word : Reply) (ticket : Ticket) :
    ((tickets.map (·, word)).filter (·.1 == ticket)).map Prod.snd =
      if ticket ∈ tickets then [word] else [] := by
  have hfilter : (tickets.map (·, word)).filter (·.1 == ticket) =
      (List.replicate (tickets.count ticket) ticket).map (·, word) := by
    rw [← List.filter_beq, List.filter_map]
    rfl
  rw [hfilter]
  split
  · rename_i hmem
    rw [List.count_eq_one_of_mem hd hmem]
    rfl
  · rename_i hmem
    rw [List.count_eq_zero_of_not_mem hmem]
    rfl

/-- What a moment answers to one request. -/
theorem answersTo_eq (h : m.scheduler.outbox = [])
    (hd : (m.scheduler.checksWaiting ++ m.asked).Nodup) (ticket : Ticket) :
    m.answersTo ticket = (m.own?.toList.filter (·.1 == ticket)).map Prod.snd ++
      if ticket ∈ m.advance.queued ++ m.waiting then m.word?.toList else [] := by
  have hnodup : (m.advance.queued ++ m.waiting).Nodup := by
    rw [waiting, List.perm_append_comm.nodup_iff, List.append_assoc]
    exact hd.sublist ((List.Sublist.refl _).append (m.advance.check?_sublist.append (.refl _)))
  rw [answersTo, replies_eq m h, List.filter_append, List.map_append]
  congr 1
  cases m.word? with
  | none => simp
  | some word => simpa using filter_told hnodup word ticket

omit [Quantity κ] in
theorem asked_of_advance {a : Advance κ} (h : m.advance = a) :
    m.asked = a.request?.toList.map Prod.fst ++ a.queued := by rw [asked, h]

/-- A reply of its own is to a request that the moment takes. -/
theorem mem_asked_of_own? {held : Ticket × Reply} (h : m.own? = some held) :
    held.1 ∈ m.asked := by
  obtain ⟨s, a⟩ := m
  cases a with
  | turn e heard =>
    cases e with
    | request ticket command =>
      by_cases hcheck : command = .checkInvariants
      · subst hcheck
        cases h
      · simp only [own?, accept_request s heard hcheck, Option.some.injEq] at h
        subst h
        simp [asked, Advance.request?]
    | _ => cases h
  | _ => cases h

section Answers

variable {m} (h : m.scheduler.outbox = []) (hd : (m.scheduler.checksWaiting ++ m.asked).Nodup)
  {ticket : Ticket} {command : Command κ} {queued : List Ticket} {heard looked shown : Instant}

include h hd

/-- Who does not come before the loop is told what the checks that wait are told. -/
theorem answersTo_of_not_asked (hticket : ticket ∉ m.asked) : m.answersTo ticket =
    if ticket ∈ m.scheduler.checksWaiting then m.word?.toList else [] := by
  have hown : m.own?.toList.filter (·.1 == ticket) = [] := by
    refine List.filter_eq_nil_iff.2 fun held hheld heq => hticket ?_
    rw [← beq_iff_eq.1 heq]
    exact mem_asked_of_own? m (Option.mem_toList.1 hheld)
  have hqueued : ticket ∉ m.advance.queued := fun hmem => hticket (List.mem_append_right _ hmem)
  have hcheck : ticket ∉ m.advance.check?.toList := fun hmem =>
    hticket (List.mem_append_left _ (m.advance.check?_sublist.subset hmem))
  rw [answersTo_eq m h hd, hown]
  simp [waiting, hqueued, hcheck]

theorem answersTo_request (hm : m.advance = .turn (.request ticket command) heard looked shown)
    (hplain : command ≠ .checkInvariants) :
    m.answersTo ticket = [(m.scheduler.handle command heard).2] := by
  have hown : m.own? = some (ticket, (m.scheduler.handle command heard).2) := by
    simp only [own?, hm, accept_request _ _ hplain]
  have hwaiting : ticket ∉ m.scheduler.checksWaiting := fun hmem =>
    List.disjoint_of_nodup_append hd hmem (mem_asked_of_own? m hown)
  rw [answersTo_eq m h hd, hown]
  simp [waiting, hm, Advance.queued, Advance.check?, Event.check?_request ticket hplain, hwaiting]

theorem answersTo_check
    (hm : m.advance = .turn (.request ticket .checkInvariants) heard looked shown) :
    m.answersTo ticket = m.word?.toList := by
  have hown : m.own? = none := by rw [own?, hm]; rfl
  rw [answersTo_eq m h hd, hown]
  simp [waiting, hm, Advance.check?, Event.check?]

theorem answersTo_queued (hm : m.advance = .leave queued looked shown) (hticket : ticket ∈ queued) :
    m.answersTo ticket = [.error .shutdown] := by
  rw [answersTo_eq m h hd, own?, word?, hm]
  simp [Advance.queued, hticket]

end Answers

/-- The checks that wait afterwards are those that were not told anything. -/
theorem waiting_after (h : m.scheduler.outbox = []) :
    m.after.checksWaiting = if m.word?.isSome then [] else m.waiting := by
  obtain ⟨s, a⟩ := m
  cases a with
  | turn e heard looked shown =>
    have hdue := turnAt_refreshDue s e heard looked shown
    simp only [after, Advance.apply, turnAt_waiting, hdue]
    cases hplan : (Advance.turn e heard looked shown).planned s with
    | none => simp [word?, hplan]
    | some action => simp [word?, waiting, Advance.check?, hplan]
  | leave queued looked shown =>
    simpa [after, word?, Advance.apply] using (leaveAt_replies s looked shown queued h).2
  | drain c heard looked shown =>
    simpa [after, word?, waiting, Advance.apply, Advance.check?] using
      (drainTurnAt_desk s looked shown c heard).waiting

end Moment

/-- A session with its history, oldest moment first. -/
inductive Chronicle (config : Config κ) : List (Moment κ) → Session κ → Prop
  | start (now : Instant) : config.validate = .ok () →
      Chronicle config [] { scheduler := { config }, now }
  | step {past : List (Moment κ)} {s s' : Session κ} {a : Advance κ} : Chronicle config past s →
      s.Step a s' → Chronicle config (past ++ [⟨s.scheduler, a⟩]) s'

/-- A request is answered in one moment of a history, once, and in no other. -/
structure AnsweredOnce (before : List (Moment κ)) (m : Moment κ) (later : List (Moment κ))
    (ticket : Ticket) (reply : Reply) : Prop where
  here : m.answersTo ticket = [reply]
  elsewhere : ∀ n ∈ before ++ later, n.answersTo ticket = []

namespace Chronicle

variable {config : Config κ} {past before later : List (Moment κ)} {m n : Moment κ}
  {s s' : Session κ} {ticket : Ticket}

theorem reachable (h : Chronicle config past s) : Reachable config s := by
  induction h with
  | start now hc => exact .start now hc
  | step _ hstep ih => exact .step ih trivial hstep

/-- Every session that is reached has a history. -/
theorem of_reachable (h : Reachable config s) : ∃ past, Chronicle config past s := by
  induction h with
  | start now hc => exact ⟨[], .start now hc⟩
  | step _ _ hstep ih =>
    obtain ⟨past, hpast⟩ := ih
    exact ⟨_, .step hpast hstep⟩

/-- What came before the last moment of a history. -/
theorem last (h : Chronicle config (past ++ [m]) s') : ∃ s, Chronicle config past s ∧
    m.scheduler = s.scheduler ∧ s.Step m.advance s' := by
  generalize hpast : past ++ [m] = all at h
  cases h with
  | start => simp at hpast
  | step h hstep =>
    obtain ⟨rfl, hm⟩ := List.append_inj' hpast rfl
    obtain rfl := List.head_eq_of_cons_eq hm
    exact ⟨_, h, rfl, hstep⟩

/-- Every part of a history from its start on is one. -/
theorem first (h : Chronicle config (past ++ later) s) : ∃ s₁, Chronicle config past s₁ := by
  induction later using List.reverseRecOn generalizing s with
  | nil => exact ⟨s, by simpa using h⟩
  | append_singleton later m ih =>
    rw [← List.append_assoc] at h
    obtain ⟨s₁, h₁, -⟩ := h.last
    exact ih h₁

/-- The session before a moment of a history, and the one after it. -/
theorem around (h : Chronicle config (before ++ m :: later) s) :
    ∃ s₁ s₂, Chronicle config before s₁ ∧ m.scheduler = s₁.scheduler ∧ s₁.Step m.advance s₂ := by
  rw [List.append_cons] at h
  obtain ⟨s₂, h₂⟩ := h.first
  obtain ⟨s₁, h₁, hm, hstep⟩ := h₂.last
  exact ⟨s₁, s₂, h₁, hm, hstep⟩

theorem outbox_eq_nil (h : Chronicle config (before ++ m :: later) s) :
    m.scheduler.outbox = [] := by
  obtain ⟨s₁, -, h₁, hm, -⟩ := h.around
  rw [hm]
  exact h₁.reachable.outbox_eq_nil

/-- What waits after the last moment of a history. -/
theorem checksWaiting_eq (h : Chronicle config (past ++ [m]) s) :
    s.scheduler.checksWaiting = if m.word?.isSome then [] else m.waiting := by
  have hempty := h.outbox_eq_nil
  obtain ⟨s₁, -, hm, -, -, rest, -, rfl⟩ := h.last
  rw [← Moment.waiting_after m hempty, Moment.after, hm]
  rfl

/-- Checks wait in the order in which they were taken. -/
theorem checksWaiting_sublist (h : Chronicle config past s) :
    s.scheduler.checksWaiting.Sublist (past.flatMap Moment.asked) := by
  induction h with
  | start => exact .refl _
  | @step past s s' a h hstep ih =>
    rw [checksWaiting_eq (.step h hstep), List.flatMap_append, List.flatMap_singleton]
    split
    · exact List.nil_sublist _
    · exact ih.append (a.check?_sublist.trans (List.sublist_append_left _ _))

/-- The tickets told anything in a moment, in the order in which they came. -/
theorem told_sublist (h : Chronicle config (before ++ m :: later) s) :
    (m.scheduler.checksWaiting ++ m.asked).Sublist
      ((before ++ m :: later).flatMap Moment.asked) := by
  obtain ⟨s₁, -, h₁, hm, -⟩ := h.around
  rw [hm, List.flatMap_append, List.flatMap_cons, ← List.append_assoc]
  exact (h₁.checksWaiting_sublist.append (.refl _)).trans (List.sublist_append_left _ _)

section Distinct

variable (h : Chronicle config (before ++ m :: later) s)
  (hd : ((before ++ m :: later).flatMap Moment.asked).Nodup) (hticket : ticket ∈ m.asked)

include hd hticket in
omit [Quantity κ] in
/-- A request comes before the loop in one moment alone. -/
theorem not_asked_elsewhere (hn : n ∈ before ++ later) : ticket ∉ n.asked := by
  have hpairs := (List.nodup_flatMap.1 hd).2
  rw [List.pairwise_append, List.pairwise_cons] at hpairs
  obtain ⟨-, ⟨hlater, -⟩, hbefore⟩ := hpairs
  rcases List.mem_append.1 hn with hn | hn
  · exact fun hmem => hbefore n hn m List.mem_cons_self hmem hticket
  · exact fun hmem => hlater n hn hticket hmem

include h hd hticket

/-- A request waits only once it is taken. -/
theorem not_waiting_before : ticket ∉ m.scheduler.checksWaiting := fun hmem =>
  List.disjoint_of_nodup_append (hd.sublist h.told_sublist) hmem hticket

/-- **A request waits** if it is a check and, since it was taken, none were told anything. -/
theorem mem_checksWaiting_iff : ticket ∈ s.scheduler.checksWaiting ↔
    m.advance.check? = some ticket ∧ ∀ w ∈ m :: later, w.word? = none := by
  induction later using List.reverseRecOn generalizing s with
  | nil =>
    have hbefore := not_waiting_before h hd hticket
    rw [checksWaiting_eq h]
    cases hword : m.word? <;> simp [Moment.waiting, hbefore, hword]
  | append_singleton later n ih =>
    have hasked : ticket ∉ n.asked := not_asked_elsewhere hd hticket (by simp)
    have hcheck : ticket ∉ n.advance.check?.toList := fun hmem =>
      hasked (List.mem_append_left _ (n.advance.check?_sublist.subset hmem))
    have hsplit : before ++ m :: (later ++ [n]) = (before ++ m :: later) ++ [n] := by simp
    rw [hsplit] at h hd
    obtain ⟨s₁, h₁, hn, -⟩ := h.last
    have hiff := ih h₁ (hd.sublist (by simp))
    rw [checksWaiting_eq h, Moment.waiting, hn]
    cases hword : n.word? with
    | some word => simp [hword]
    | none =>
      have hmore : (∀ w ∈ m :: (later ++ [n]), w.word? = none) ↔
          ∀ w ∈ m :: later, w.word? = none := by simp [or_imp, forall_and, hword]
      rw [hmore, ← hiff]
      simpa using fun hmem => absurd (Option.mem_toList.2 hmem) hcheck

/-- A request is told nothing before it is taken. -/
theorem answersTo_before (hn : n ∈ before) : n.answersTo ticket = [] := by
  have hasked : ticket ∉ n.asked := not_asked_elsewhere hd hticket (List.mem_append_left _ hn)
  obtain ⟨first, between, rfl⟩ := List.append_of_mem hn
  rw [List.append_assoc, List.cons_append] at h hd
  obtain ⟨s₁, -, h₁, hs₁, -⟩ := h.around
  have hwaiting : ticket ∉ n.scheduler.checksWaiting := fun hmem => by
    rw [hs₁] at hmem
    obtain ⟨w, hw, hmem⟩ := List.mem_flatMap.1 (h₁.checksWaiting_sublist.subset hmem)
    rw [← List.cons_append, ← List.append_assoc] at hd
    exact not_asked_elsewhere hd hticket (by simp [hw]) hmem
  rw [Moment.answersTo_of_not_asked h.outbox_eq_nil (hd.sublist h.told_sublist) hasked,
    if_neg hwaiting]

/-- Later on, only a check is told anything, and only when checks are for the first time. -/
theorem answersTo_after {between rest : List (Moment κ)} (hlater : later = between ++ n :: rest) :
    n.answersTo ticket =
      if m.advance.check? = some ticket ∧ ∀ w ∈ m :: between, w.word? = none then n.word?.toList
      else [] := by
  subst hlater
  have hasked : ticket ∉ n.asked := not_asked_elsewhere hd hticket (by simp)
  rw [← List.cons_append, ← List.append_assoc] at h hd
  obtain ⟨s₁, -, h₁, hs₁, -⟩ := h.around
  rw [Moment.answersTo_of_not_asked h.outbox_eq_nil (hd.sublist h.told_sublist) hasked, hs₁]
  rw [List.flatMap_append] at hd
  simp only [mem_checksWaiting_iff h₁ (hd.sublist (List.sublist_append_left _ _)) hticket]

/-- A request other than a check is told nothing but in the moment in which it is taken. -/
theorem answersTo_elsewhere (hcheck : m.advance.check? = none) (hn : n ∈ before ++ later) :
    n.answersTo ticket = [] := by
  rcases List.mem_append.1 hn with hn | hn
  · exact answersTo_before h hd hticket hn
  · obtain ⟨between, rest, hlater⟩ := List.append_of_mem hn
    rw [answersTo_after h hd hticket hlater]
    simp [hcheck]

variable (hcheck : m.advance.check? = some ticket) (hown : m.answersTo ticket = m.word?.toList)

include hown in
/-- Nothing is told to a check in a moment in which checks are told nothing. -/
theorem answersTo_wordless (hn : n ∈ before ++ m :: later) (hword : n.word? = none) :
    n.answersTo ticket = [] := by
  rcases List.mem_append.1 hn with hn | hn
  · exact answersTo_before h hd hticket hn
  rcases List.mem_cons.1 hn with rfl | hn
  · rw [hown, hword]
    rfl
  · obtain ⟨between, rest, hlater⟩ := List.append_of_mem hn
    rw [answersTo_after h hd hticket hlater, hword]
    simp

include hcheck hown

/-- A check is answered in the first moment in which checks are told anything. -/
theorem answeredOnce_first {waits rest : List (Moment κ)} {word : Reply}
    (hsplit : m :: later = waits ++ n :: rest) (hwaits : ∀ w ∈ waits, w.word? = none)
    (hword : n.word? = some word) : AnsweredOnce (before ++ waits) n rest ticket word := by
  have hwaits' : ∀ n' ∈ waits, n'.answersTo ticket = [] := fun n' hn' =>
    answersTo_wordless h hd hticket hown (by simp [hsplit, hn']) (hwaits n' hn')
  have hbefore : ∀ n' ∈ before, n'.answersTo ticket = [] := fun n' hn' =>
    answersTo_before h hd hticket hn'
  have hrest : ∀ n' ∈ rest, n'.answersTo ticket = [] := by
    intro n' hn'
    obtain ⟨between, rest', rfl⟩ := List.append_of_mem hn'
    have hlater : ∃ between', later = between' ++ n' :: rest' ∧ n ∈ m :: between' := by
      cases waits with
      | nil =>
        obtain ⟨rfl, rfl⟩ := List.cons.inj hsplit
        exact ⟨between, rfl, List.mem_cons_self⟩
      | cons w waits =>
        obtain ⟨rfl, rfl⟩ := List.cons.inj hsplit
        exact ⟨waits ++ n :: between, by simp, by simp⟩
    obtain ⟨between', hlater, hn⟩ := hlater
    rw [answersTo_after h hd hticket hlater, if_neg]
    intro hwords
    rw [hwords.2 n hn] at hword
    cases hword
  refine ⟨?_, by simp_all [or_imp]⟩
  cases waits with
  | nil =>
    obtain ⟨rfl, rfl⟩ := List.cons.inj hsplit
    rw [hown, hword]
    rfl
  | cons w waits =>
    obtain ⟨rfl, hlater⟩ := List.cons.inj hsplit
    rw [answersTo_after h hd hticket hlater, if_pos ⟨hcheck, hwaits⟩, hword]
    rfl

omit hown in
/-- Until then it waits. -/
theorem mem_waiting_first {waits rest : List (Moment κ)}
    (hsplit : m :: later = waits ++ n :: rest) (hwaits : ∀ w ∈ waits, w.word? = none) :
    ticket ∈ n.waiting := by
  cases waits with
  | nil =>
    obtain ⟨rfl, rfl⟩ := List.cons.inj hsplit
    simp [Moment.waiting, hcheck]
  | cons w waits =>
    obtain ⟨rfl, hlater⟩ := List.cons.inj hsplit
    rw [hlater, List.append_eq, ← List.cons_append, ← List.append_assoc] at h hd
    obtain ⟨s₁, -, h₁, hs₁, -⟩ := h.around
    rw [List.flatMap_append] at hd
    rw [Moment.waiting, hs₁]
    exact List.mem_append_left _ ((mem_checksWaiting_iff h₁
      (hd.sublist (List.sublist_append_left _ _)) hticket).2 ⟨hcheck, hwaits⟩)

end Distinct

/-- Once the loop is left, no request is taken. -/
theorem requests_over (h : Chronicle config (before ++ m :: later) s)
    (hleave : ∃ queued looked shown, m.advance = .leave queued looked shown) :
    s.scheduler.stage ≠ .serving ∧ ∀ n ∈ later, n.advance.request? = none := by
  obtain ⟨queued, looked, shown, hm⟩ := hleave
  induction later using List.reverseRecOn generalizing s with
  | nil =>
    obtain ⟨s₁, -, -, -, -, rest, -, rfl⟩ := h.last
    simp only [hm, Session.after, Advance.apply]
    exact ⟨leaveAt_stage, List.forall_mem_nil _⟩
  | append_singleton later n ih =>
    rw [show before ++ m :: (later ++ [n]) = (before ++ m :: later) ++ [n] by simp] at h
    obtain ⟨s₁, h₁, -, hdue, -, rest, -, rfl⟩ := h.last
    obtain ⟨hstage, hlater⟩ := ih h₁
    cases ha : n.advance with
    | turn e =>
      rw [ha] at hdue
      cases e with
      | refresh => exact absurd hdue.1 hstage
      | timer => exact absurd hdue.1 hstage
      | completion => exact absurd hdue hstage
      | request => exact absurd hdue hstage
    | leave =>
      rw [ha] at hdue
      exact absurd hdue hstage
    | drain c heard looked' shown' =>
      rw [ha] at hdue
      simp only [Session.after, Advance.apply]
      refine ⟨drainTurnAt_stage hdue, ?_⟩
      simp only [List.forall_mem_append, List.forall_mem_singleton, ha]
      exact ⟨hlater, rfl⟩

end Chronicle

/-- **Every request is answered exactly once, at the right moment.**  Requests are told apart by
their tickets.

* A request other than a check is answered by the turn that takes it, with what its command comes
  to, after one look at the plan.
* A check is answered at the end of the first turn, from its own on, whose plan has no action, with
  the verdict on the registry as it is then; no turn after which more is due answers it.  It waits
  until then, and is turned away if the loop is left before.
* A request in line when the loop is left is turned away, and has no other effect. -/
theorem requests_answered {config : Config κ} {before later : List (Moment κ)} {m : Moment κ}
    {s : Session κ} (h : Chronicle config (before ++ m :: later) s)
    (distinct : ((before ++ m :: later).flatMap Moment.asked).Nodup) :
    (∀ ticket command heard looked shown,
      m.advance = .turn (.request ticket command) heard looked shown →
      command ≠ .checkInvariants →
        AnsweredOnce before m later ticket (m.scheduler.handle command heard).2 ∧
        m.after.registry = (m.scheduler.acted (.request ticket command) heard looked).registry ∧
        ∃ (checks : List Ticket) (word : Reply),
          m.after.outbox = (m.scheduler.acted (.request ticket command) heard looked).outbox ++
            .reply ticket (m.scheduler.handle command heard).2 ::
              checks.map fun check => .reply check word) ∧
    (∀ ticket heard looked shown,
      m.advance = .turn (.request ticket .checkInvariants) heard looked shown →
        (∀ waits n rest word, m :: later = waits ++ n :: rest → (∀ w ∈ waits, w.word? = none) →
          n.word? = some word → AnsweredOnce (before ++ waits) n rest ticket word ∧
            ∀ e heard looked shown, n.advance = .turn e heard looked shown →
              ∃ (said : List (Output κ)) (checks : List Ticket), ticket ∈ checks ∧
                n.after.outbox = said ++ checks.map fun check => .reply check word) ∧
        ((∀ w ∈ m :: later, w.word? = none) → ticket ∈ s.scheduler.checksWaiting ∧
          ∀ n ∈ before ++ m :: later, n.answersTo ticket = []) ∧
        ∀ n ∈ before ++ m :: later, ∀ e heard looked shown,
          n.advance = .turn e heard looked shown → n.after.refreshDue = true →
            n.answersTo ticket = []) ∧
    (∀ queued looked shown, m.advance = .leave queued looked shown →
      (∀ ticket ∈ queued, AnsweredOnce before m later ticket (.error .shutdown)) ∧
      m.after = (m.scheduler.leaveAt [] looked shown).after
        (queued.map fun ticket => .reply ticket (.error .shutdown)) ∧
      ∀ n ∈ later, n.advance.request? = none) ∧
    ∀ ticket ∉ (before ++ m :: later).flatMap Moment.asked, m.answersTo ticket = [] := by
  have hempty := h.outbox_eq_nil
  have hd := distinct.sublist h.told_sublist
  refine ⟨?_, ?_, ?_, ?_⟩
  · intro ticket command heard looked shown hm hplain
    have hasked : ticket ∈ m.asked := by simp [m.asked_of_advance hm, Advance.request?]
    have hcheck : m.advance.check? = none := by
      simp [hm, Advance.check?, Event.check?_request ticket hplain]
    exact ⟨⟨Moment.answersTo_request hempty hd hm hplain, fun n hn =>
      Chronicle.answersTo_elsewhere h distinct hasked hcheck hn⟩, m.outbox_request hm hplain⟩
  · intro ticket heard looked shown hm
    have hasked : ticket ∈ m.asked := by simp [m.asked_of_advance hm, Advance.request?]
    have hcheck : m.advance.check? = some ticket := by rw [hm]; rfl
    have hown := Moment.answersTo_check hempty hd hm
    refine ⟨fun waits n rest word hsplit hwaits hword => ⟨?_, fun e heard looked shown hn => ?_⟩,
      fun hwords => ⟨?_, fun n hn => ?_⟩, fun n hn e heard looked shown hturn hdue => ?_⟩
    · exact Chronicle.answeredOnce_first h distinct hasked hcheck hown hsplit hwaits hword
    · obtain ⟨said, hsaid⟩ := n.outbox_checks hn hword
      exact ⟨said, n.waiting,
        Chronicle.mem_waiting_first h distinct hasked hcheck hsplit hwaits, hsaid⟩
    · exact (Chronicle.mem_checksWaiting_iff h distinct hasked).2 ⟨hcheck, hwords⟩
    · rcases List.mem_append.1 hn with hn | hn
      · exact Chronicle.answersTo_before h distinct hasked hn
      · exact Chronicle.answersTo_wordless h distinct hasked hown (List.mem_append_right _ hn)
          (hwords n hn)
    · exact Chronicle.answersTo_wordless h distinct hasked hown hn (n.word?_of_due hturn hdue)
  · intro queued looked shown hm
    have hcheck : m.advance.check? = none := by rw [hm]; rfl
    refine ⟨fun ticket hticket => ⟨Moment.answersTo_queued hempty hd hm hticket, fun n hn =>
      Chronicle.answersTo_elsewhere h distinct ?_ hcheck hn⟩, ?_,
      (h.requests_over ⟨queued, looked, shown, hm⟩).2⟩
    · simp [m.asked_of_advance hm, Advance.queued, hticket]
    · rw [Moment.after, hm, Advance.apply, leaveAt_eq, hempty, List.nil_append,
        show { m.scheduler with outbox := [] } = m.scheduler by rw [← hempty]]
  · intro ticket hticket
    have htold := fun hmem => hticket (h.told_sublist.subset hmem)
    rw [Moment.answersTo_of_not_asked hempty hd (fun hmem => htold (List.mem_append_right _ hmem)),
      if_neg (fun hmem => htold (List.mem_append_left _ hmem))]

/-! ### Histories in which no call comes back -/

namespace Session

/-- The moments of advances by which no call comes back. -/
def moments (s : Session κ) : List (Advance κ) → List (Moment κ)
  | [] => []
  | a :: advances => ⟨s.scheduler, a⟩ :: (s.after a s.underWay).moments advances

/-- The session at their end. -/
def follow (s : Session κ) : List (Advance κ) → Session κ
  | [] => s
  | a :: advances => (s.after a s.underWay).follow advances

/-- Whether the advances are possible, one after the other, and no call comes back by them. -/
def permits (s : Session κ) : List (Advance κ) → Bool
  | [] => true
  | a :: advances => decide (a.Due s.scheduler) && decide (a.Follows s.now) &&
      a.completion?.isNone && (s.after a s.underWay).permits advances

end Session

theorem Chronicle.follow {config : Config κ} {past : List (Moment κ)} {s : Session κ}
    {advances : List (Advance κ)} (h : Chronicle config past s)
    (hpermits : s.permits advances = true) :
    Chronicle config (past ++ s.moments advances) (s.follow advances) := by
  induction advances generalizing past s with
  | nil => simpa [Session.moments, Session.follow] using h
  | cons a advances ih =>
    simp only [Session.permits, Bool.and_eq_true, decide_eq_true_eq] at hpermits
    obtain ⟨⟨⟨hdue, hfollows⟩, hnone⟩, hpermits⟩ := hpermits
    have hstep : s.Step a (s.after a s.underWay) := by
      refine ⟨hdue, hfollows, _, ?_, rfl⟩
      rw [Option.isNone_iff_eq_none.1 hnone]
      rfl
    have hmore := ih (h.step hstep) hpermits
    rwa [List.append_assoc] at hmore

/-- Two jobs may be starting at once. -/
def twoStarts : Config ℚ := { balanceAt := 0, simultaneousStarts := 2 }

/-- A check comes when the second of two jobs is about to start, and another one when the second of
two stops is about to be issued; then the loop is left, with two requests in line. -/
def twoChecks : List (Advance ℚ) :=
  [.turn (.request 0 (.addJob { id := "j1", cost := 1 })) 0 0 0,
    .turn (.request 1 (.addJob { id := "j2", cost := 1 })) 0 0 0,
    .turn (.request 2 (.addExecutor { id := "A", capacity := 2 })) 1 1 1,
    .turn (.request 3 .checkInvariants) 2 2 2,
    .turn .refresh 2 2 2,
    .turn (.request 4 (.removeExecutor "A")) 3 3 3,
    .turn (.request 5 .checkInvariants) 4 4 4,
    .leave [6, 7] 5 5]

theorem requests_answered_twoChecks : ∃ s m₀ m₁ m₂ m₃ m₄ m₅ m₆ m₇,
    Chronicle twoStarts [m₀, m₁, m₂, m₃, m₄, m₅, m₆, m₇] s ∧
      ([m₀, m₁, m₂, m₃, m₄, m₅, m₆, m₇].flatMap Moment.asked).Nodup ∧
      m₃.after.refreshDue = true ∧ m₃.answersTo 3 = [] ∧
      AnsweredOnce [m₀, m₁, m₂, m₃] m₄ [m₅, m₆, m₇] 3 (.ok ()) ∧
      AnsweredOnce [m₀, m₁, m₂, m₃, m₄] m₅ [m₆, m₇] 4
        (m₅.scheduler.handle (.removeExecutor "A") 3).2 ∧
      AnsweredOnce [m₀, m₁, m₂, m₃, m₄, m₅, m₆] m₇ [] 5 (.error .shutdown) ∧
      AnsweredOnce [m₀, m₁, m₂, m₃, m₄, m₅, m₆] m₇ [] 6 (.error .shutdown) := by
  have hpermits : Session.permits { scheduler := { config := twoStarts }, now := 0 } twoChecks =
      true := by decide +kernel
  have h := Chronicle.follow (.start 0 (by decide +kernel)) hpermits
  refine ⟨_, _, _, _, _, _, _, _, _, h, ?_⟩
  have hd : ((Session.moments { scheduler := { config := twoStarts }, now := 0 }
      twoChecks).flatMap Moment.asked).Nodup := by decide +kernel
  have h₃ := (@requests_answered ℚ _ twoStarts [_, _, _] [_, _, _, _] _ _ h hd).2.1 3 2 2 2 rfl
  have h₄ := (@requests_answered ℚ _ twoStarts [_, _, _, _, _] [_, _] _ _ h hd).1 4 _ 3 3 3 rfl
    nofun
  have h₅ := (@requests_answered ℚ _ twoStarts [_, _, _, _, _, _] [_] _ _ h hd).2.1 5 4 4 4 rfl
  have h₆ := (@requests_answered ℚ _ twoStarts [_, _, _, _, _, _, _] [] _ _ h hd).2.2.1
    [6, 7] 5 5 rfl
  refine ⟨hd, by decide +kernel, ?_, ?_, ?_, ?_, h₆.1 6 (by simp)⟩
  · exact h₃.2.2 _ (by simp) _ 2 2 2 rfl (by decide +kernel)
  · exact (h₃.1 [_] _ [_, _, _] (.ok ()) rfl (by decide +kernel) (by decide +kernel)).1
  · exact h₄.1
  · exact (h₅.1 [_] _ [] (.error .shutdown) rfl (by decide +kernel) rfl).1

end Dispatch
