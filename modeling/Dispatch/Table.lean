/-! # Tables

A `Table` is a finite map from ids to values that remembers the order in which ids were added.
No id occurs twice, which is part of the type.  Every operation is described by what `get?` finds
afterwards and by what happens to `ids`.
-/

namespace Dispatch

/-- A finite map from ids to values, in order of addition. -/
structure Table (α : Type) where
  entries : List (String × α) := []
  nodup : (entries.map Prod.fst).Nodup := by simp

namespace Table

variable {α : Type}

instance : EmptyCollection (Table α) := ⟨⟨[], .nil⟩⟩

instance : Inhabited (Table α) := ⟨∅⟩

/-- The ids, in order of addition. -/
def ids (t : Table α) : List String := t.entries.map Prod.fst

/-- The values, in order of addition. -/
def values (t : Table α) : List α := t.entries.map Prod.snd

/-- The number of ids. -/
def size (t : Table α) : Nat := t.entries.length

/-- The value of an id. -/
def get? (t : Table α) (id : String) : Option α := t.entries.lookup id

/-- Whether the id has a value. -/
def contains (t : Table α) (id : String) : Bool := (t.get? id).isSome

/-- Change the value of an id, if it has one. -/
def modify (t : Table α) (id : String) (f : α → α) : Table α where
  entries := t.entries.map fun e => (e.1, if e.1 = id then f e.2 else e.2)
  nodup := by
    rw [List.map_map]
    exact t.nodup

/-- Drop an id. -/
def erase (t : Table α) (id : String) : Table α where
  entries := t.entries.filter fun e => e.1 ≠ id
  nodup := t.nodup.sublist (List.filter_sublist.map _)

theorem mem_ids_of_lookup {l : List (String × α)} {id : String} {v : α}
    (h : l.lookup id = some v) : id ∈ l.map Prod.fst := by
  induction l with
  | nil => simp at h
  | cons e l ih =>
    obtain ⟨k, w⟩ := e
    rw [List.lookup_cons] at h
    by_cases hk : id = k
    · simp [hk]
    · have : (id == k) = false := by simpa using hk
      rw [this] at h
      exact List.mem_cons_of_mem _ (ih h)

theorem lookup_isSome_of_mem {l : List (String × α)} {id : String}
    (h : id ∈ l.map Prod.fst) : (l.lookup id).isSome := by
  induction l with
  | nil => simp at h
  | cons e l ih =>
    obtain ⟨k, w⟩ := e
    rw [List.lookup_cons]
    by_cases hk : id = k
    · simp [hk]
    · have : (id == k) = false := by simpa using hk
      rw [this]
      simp only [List.map_cons, List.mem_cons, hk, false_or] at h
      exact ih h

/-- An id has a value exactly when it was added. -/
theorem get?_isSome_iff {t : Table α} {id : String} : (t.get? id).isSome ↔ id ∈ t.ids := by
  refine ⟨fun h => ?_, lookup_isSome_of_mem⟩
  obtain ⟨v, hv⟩ := Option.isSome_iff_exists.1 h
  exact mem_ids_of_lookup hv

/-- Add an id at the end, unless it is there already. -/
def addNew (t : Table α) (id : String) (v : α) : Table α :=
  if h : t.contains id then t
  else
    { entries := t.entries ++ [(id, v)]
      nodup := by
        rw [List.map_append, List.nodup_iff_pairwise_ne, List.pairwise_append]
        refine ⟨t.nodup, by simp, fun a ha b hb => ?_⟩
        simp only [List.map_cons, List.map_nil, List.mem_singleton] at hb
        rintro rfl
        exact h (get?_isSome_iff.2 (hb ▸ ha)) }

/-- Give an id a value: in its place when it is there, else at the end. -/
def set (t : Table α) (id : String) (v : α) : Table α :=
  if t.contains id then t.modify id fun _ => v else t.addNew id v

/-- Change the value of an id, which counts as `initial` when it is not there. -/
def update (t : Table α) (id : String) (initial : α) (f : α → α) : Table α :=
  (t.addNew id initial).modify id f

/-! ### What is found afterwards -/

@[simp] theorem get?_empty (id : String) : (∅ : Table α).get? id = none := rfl

theorem lookup_map_modify (l : List (String × α)) (id id' : String) (f : α → α) :
    (l.map fun e => (e.1, if e.1 = id then f e.2 else e.2)).lookup id' =
      if id' = id then (l.lookup id').map f else l.lookup id' := by
  induction l with
  | nil => simp
  | cons e l ih =>
    obtain ⟨k, v⟩ := e
    rw [List.map_cons, List.lookup_cons, List.lookup_cons, ih]
    by_cases hk : id' = k
    · subst hk
      by_cases h : id' = id <;> simp [h]
    · have : (id' == k) = false := by simpa using hk
      simp [this]

theorem get?_modify (t : Table α) (id id' : String) (f : α → α) :
    (t.modify id f).get? id' = if id' = id then (t.get? id').map f else t.get? id' :=
  lookup_map_modify t.entries id id' f

theorem lookup_filter_ne (l : List (String × α)) (id id' : String) :
    (l.filter fun e => e.1 ≠ id).lookup id' = if id' = id then none else l.lookup id' := by
  induction l with
  | nil => simp
  | cons e l ih =>
    obtain ⟨k, v⟩ := e
    by_cases hk : k = id
    · rw [List.filter_cons_of_neg (by simpa using hk), ih, List.lookup_cons]
      by_cases h : id' = id
      · simp [h]
      · have : (id' == k) = false := by simpa [hk] using h
        simp [h, this]
    · rw [List.filter_cons_of_pos (by simpa using hk), List.lookup_cons, List.lookup_cons, ih]
      by_cases h' : id' = k
      · subst h'
        simp [hk]
      · have : (id' == k) = false := by simpa using h'
        simp [this]

theorem get?_erase (t : Table α) (id id' : String) :
    (t.erase id).get? id' = if id' = id then none else t.get? id' :=
  lookup_filter_ne t.entries id id'

theorem lookup_append_single (l : List (String × α)) (id id' : String) (v : α) :
    (l ++ [(id, v)]).lookup id' =
      (l.lookup id').or (if id' = id then some v else none) := by
  rw [List.lookup_append]
  congr 1
  by_cases h : id' = id
  · simp [h]
  · have : (id' == id) = false := by simpa using h
    simp [h, List.lookup_cons, this]

theorem get?_addNew (t : Table α) (id id' : String) (v : α) :
    (t.addNew id v).get? id' = (t.get? id').or (if id' = id then some v else none) := by
  unfold addNew
  split
  · rename_i h
    by_cases h' : id' = id
    · subst h'
      obtain ⟨w, hw⟩ := Option.isSome_iff_exists.1 h
      simp [hw]
    · simp [h']
  · exact lookup_append_single t.entries id id' v

theorem get?_set (t : Table α) (id id' : String) (v : α) :
    (t.set id v).get? id' = if id' = id then some v else t.get? id' := by
  unfold set
  split
  · rename_i h
    rw [get?_modify]
    by_cases h' : id' = id
    · subst h'
      obtain ⟨w, hw⟩ := Option.isSome_iff_exists.1 h
      simp [hw]
    · simp [h']
  · rename_i h
    rw [get?_addNew]
    by_cases h' : id' = id
    · subst h'
      have : t.get? id' = none := by simpa [contains] using h
      simp [this]
    · simp [h']

theorem get?_update (t : Table α) (id id' : String) (initial : α) (f : α → α) :
    (t.update id initial f).get? id' =
      if id' = id then some (f ((t.get? id').getD initial)) else t.get? id' := by
  rw [update, get?_modify, get?_addNew]
  by_cases h : id' = id
  · subst h
    cases t.get? id' <;> simp
  · simp [h]

/-! ### What happens to the ids -/

@[simp] theorem ids_modify (t : Table α) (id : String) (f : α → α) :
    (t.modify id f).ids = t.ids := by
  simp only [ids, modify, List.map_map]
  rfl

theorem ids_erase (t : Table α) (id : String) :
    (t.erase id).ids = t.ids.filter fun k => k ≠ id := by
  simp only [ids, erase, List.filter_map]
  rfl

theorem ids_addNew (t : Table α) (id : String) (v : α) :
    (t.addNew id v).ids = if id ∈ t.ids then t.ids else t.ids ++ [id] := by
  by_cases h : t.contains id
  · have : id ∈ t.ids := get?_isSome_iff.1 h
    simp [addNew, h, this]
  · have : id ∉ t.ids := fun hm => h (get?_isSome_iff.2 hm)
    rw [if_neg this]
    simp [addNew, h, ids]

theorem values_modify (t : Table α) (id : String) (f : α → α) :
    (t.modify id f).values = t.entries.map fun e => if e.1 = id then f e.2 else e.2 := by
  simp only [values, modify, List.map_map]
  rfl

end Table

end Dispatch
