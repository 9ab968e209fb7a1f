import Dispatch.Table

/-!
# Tables seen as lists

A table lists each id once, so that looking up an id and finding its entry in the list are the
same (`Table.mem_entries_iff`).  When the value of one id is changed or dropped, the list of values
changes at one place only (`Table.exists_split`): this is what sums and counts over all values
need.
-/

namespace Dispatch

namespace Table

variable {α : Type} {t : Table α} {id : String} {v : α}

theorem lookup_eq_some_iff {l : List (String × α)} (hl : (l.map Prod.fst).Nodup) :
    l.lookup id = some v ↔ (id, v) ∈ l := by
  induction l with
  | nil => simp
  | cons e l ih =>
    obtain ⟨k, w⟩ := e
    rw [List.map_cons, List.nodup_cons] at hl
    rw [List.lookup_cons, List.mem_cons]
    by_cases hk : id = k
    · subst hk
      have hout : (id, v) ∉ l := fun h => hl.1 (List.mem_map.2 ⟨_, h, rfl⟩)
      simp [hout, eq_comm]
    · have hne : (id == k) = false := by simpa using hk
      simp [hne, hk, ih hl.2]

theorem mem_entries_iff : (id, v) ∈ t.entries ↔ t.get? id = some v :=
  (lookup_eq_some_iff t.nodup).symm

theorem mem_values_iff : v ∈ t.values ↔ ∃ id, t.get? id = some v := by
  simp [values, ← mem_entries_iff]

theorem mem_values (h : t.get? id = some v) : v ∈ t.values := mem_values_iff.2 ⟨id, h⟩

theorem size_eq (t : Table α) : t.size = t.ids.length := by simp [size, ids]

theorem get?_eq_none_iff : t.get? id = none ↔ id ∉ t.ids := by
  rw [← get?_isSome_iff]; simp

/-- The list of entries around the one of a given id, with what becomes of it when the value of
that id is changed or dropped. -/
theorem exists_split (h : t.get? id = some v) :
    ∃ before after : List α, t.values = before ++ v :: after ∧
      (∀ f, (t.modify id f).values = before ++ f v :: after) ∧
      (t.erase id).values = before ++ after := by
  obtain ⟨before, after, hsplit⟩ := List.append_of_mem (mem_entries_iff.2 h)
  have hids := t.nodup
  simp only [hsplit, List.map_append, List.map_cons, List.nodup_append, List.nodup_cons] at hids
  have hbefore : ∀ e ∈ before, e.1 ≠ id := fun e he =>
    hids.2.2 e.1 (List.mem_map.2 ⟨e, he, rfl⟩) id List.mem_cons_self
  have hafter : ∀ e ∈ after, e.1 ≠ id := fun e he heq =>
    hids.2.1.1 (List.mem_map.2 ⟨e, he, heq⟩)
  refine ⟨before.map Prod.snd, after.map Prod.snd, by simp [values, hsplit], fun f => ?_, ?_⟩
  · rw [values_modify, hsplit, List.map_append, List.map_cons, if_pos rfl]
    congr 1
    · exact List.map_congr_left fun e he => if_neg (hbefore e he)
    · congr 1
      exact List.map_congr_left fun e he => if_neg (hafter e he)
  · have hb : before.filter (fun e => decide (e.1 ≠ id)) = before :=
      List.filter_eq_self.2 fun e he => by simpa using hbefore e he
    have ha : after.filter (fun e => decide (e.1 ≠ id)) = after :=
      List.filter_eq_self.2 fun e he => by simpa using hafter e he
    simp only [values, erase, hsplit, List.filter_append, hb, List.map_append]
    rw [List.filter_cons_of_neg (by simp), ha]

theorem eq_of_entries {t' : Table α} (h : t.entries = t'.entries) : t = t' := by
  cases t; cases t'; cases h; rfl

/-- Only what is made of the present value of an id counts. -/
theorem modify_eq (h : t.get? id = some v) (f : α → α) :
    t.modify id f = t.modify id fun _ => f v := by
  refine eq_of_entries (List.map_congr_left fun e he => ?_)
  by_cases hid : e.1 = id
  · have hv : t.get? id = some e.2 := mem_entries_iff.1 (hid ▸ he)
    obtain rfl : v = e.2 := by simpa [h] using hv
    simp [hid]
  · simp [hid]

theorem modify_modify (t : Table α) (id : String) (f g : α → α) :
    (t.modify id f).modify id g = t.modify id fun v => g (f v) := by
  refine eq_of_entries ?_
  simp only [modify, List.map_map]
  refine List.map_congr_left fun e _ => ?_
  by_cases hid : e.1 = id <;> simp [hid]

theorem values_addNew (h : t.get? id = none) : (t.addNew id v).values = t.values ++ [v] := by
  have hc : t.contains id = false := by simp [contains, h]
  simp [addNew, hc, values]

end Table

end Dispatch
