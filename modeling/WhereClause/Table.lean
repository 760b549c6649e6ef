/-
WhereClause/Table.lean

Finite tables keyed by names.  The entries of a `Table` are kept in the order of
their names, by code points, with no name twice; the proof is a part of the
table.  Two tables with the same content are therefore equal, whatever the order
in which they were filled.

`get?_insert` describes an insertion through the look-up: the new value at its
own name and the old one everywhere else.
-/

namespace WhereClause

/-- A finite table from names to values. -/
structure Table (α : Type) where
  entries : List (String × α)
  sorted : entries.Pairwise fun a b => a.1 < b.1

namespace Table

variable {α : Type}

/-- Put a value in its place, over an older value of the same name. -/
def put (name : String) (value : α) : List (String × α) → List (String × α)
  | [] => [(name, value)]
  | (key, old) :: rest =>
      if name < key then (name, value) :: (key, old) :: rest
      else if name = key then (name, value) :: rest
      else (key, old) :: put name value rest

theorem fst_eq_or_mem_of_mem_put {name : String} {value : α} {entries : List (String × α)}
    {e : String × α} (h : e ∈ put name value entries) : e.1 = name ∨ e ∈ entries := by
  induction entries with
  | nil => simp_all [put]
  | cons head rest ih =>
      obtain ⟨key, old⟩ := head
      simp only [put] at h
      split at h
      · rcases List.mem_cons.mp h with rfl | h
        · exact Or.inl rfl
        · exact Or.inr h
      · split at h
        · rcases List.mem_cons.mp h with rfl | h
          · exact Or.inl rfl
          · exact Or.inr (List.mem_cons_of_mem _ h)
        · rcases List.mem_cons.mp h with rfl | h
          · exact Or.inr List.mem_cons_self
          · exact (ih h).imp_right (List.mem_cons_of_mem _)

theorem sorted_put (name : String) (value : α) {entries : List (String × α)}
    (h : entries.Pairwise fun a b => a.1 < b.1) :
    (put name value entries).Pairwise fun a b => a.1 < b.1 := by
  induction entries with
  | nil => simp [put]
  | cons head rest ih =>
      obtain ⟨key, old⟩ := head
      obtain ⟨hhead, hrest⟩ := List.pairwise_cons.mp h
      simp only [put]
      split
      · next hlt =>
          refine List.pairwise_cons.mpr ⟨fun e he => ?_, h⟩
          rcases List.mem_cons.mp he with rfl | he
          · exact hlt
          · exact String.lt_trans hlt (hhead e he)
      · next hlt =>
          split
          · next heq => exact List.pairwise_cons.mpr ⟨fun e he => heq ▸ hhead e he, hrest⟩
          · next hne =>
              refine List.pairwise_cons.mpr ⟨fun e he => ?_, ih hrest⟩
              rcases fst_eq_or_mem_of_mem_put he with hname | he
              · have hle : key ≤ name := String.not_lt.mp hlt
                simp only [hname]
                exact String.not_le.mp fun hge => hne (String.le_antisymm hge hle)
              · exact hhead e he

/-- The table without entries. -/
def empty : Table α := ⟨[], List.Pairwise.nil⟩

instance : Inhabited (Table α) := ⟨empty⟩

/-- A table with one more entry, or with another value at a name it has. -/
def insert (t : Table α) (name : String) (value : α) : Table α :=
  ⟨put name value t.entries, sorted_put name value t.sorted⟩

/-- The table of some entries; of two entries with one name the later counts. -/
def ofList (entries : List (String × α)) : Table α :=
  entries.foldl (fun t e => t.insert e.1 e.2) empty

/-- The value at a name. -/
def get? (t : Table α) (name : String) : Option α :=
  t.entries.lookup name

/-- The names that have a value, in order. -/
def names (t : Table α) : List String :=
  t.entries.map Prod.fst

/-- Tables are equal if their entries are. -/
theorem ext {t u : Table α} (h : t.entries = u.entries) : t = u := by
  cases t; cases u; cases h; rfl

instance [DecidableEq α] : DecidableEq (Table α) := fun t u =>
  decidable_of_iff (t.entries = u.entries) ⟨ext, fun h => h ▸ rfl⟩

theorem lookup_cons_eq_ite (key : String) (value : α) (rest : List (String × α)) (x : String) :
    ((key, value) :: rest).lookup x = if x = key then some value else rest.lookup x := by
  by_cases h : x = key
  · simp [h]
  · simp [List.lookup_cons, beq_false_of_ne h, h]

theorem lookup_put (name : String) (value : α) (entries : List (String × α)) (x : String) :
    (put name value entries).lookup x = if x = name then some value else entries.lookup x := by
  induction entries with
  | nil => simp [put, lookup_cons_eq_ite]
  | cons head rest ih =>
      obtain ⟨key, old⟩ := head
      simp only [put]
      split
      · simp only [lookup_cons_eq_ite]
      · split
        · next heq => subst heq; simp only [lookup_cons_eq_ite]; split <;> rfl
        · next hne =>
            simp only [lookup_cons_eq_ite, ih]
            by_cases hk : x = key
            · simp [hk, Ne.symm hne]
            · simp [hk]

/-- An insertion changes the value at its own name and no other. -/
@[simp] theorem get?_insert (t : Table α) (name : String) (value : α) (x : String) :
    (t.insert name value).get? x = if x = name then some value else t.get? x :=
  lookup_put name value t.entries x

/-- The names with a value in a table of some entries are those of the entries. -/
theorem isSome_get?_ofList {entries : List (String × α)} {x : String} :
    ((ofList entries).get? x).isSome ↔ x ∈ entries.map Prod.fst := by
  -- the walk along the entries starts from any table
  have hfold : ∀ t : Table α, ((entries.foldl (fun t e => t.insert e.1 e.2) t).get? x).isSome ↔
      (t.get? x).isSome ∨ x ∈ entries.map Prod.fst := by
    induction entries with
    | nil => simp
    | cons e rest ih =>
        intro t
        rw [List.foldl_cons, ih, get?_insert]
        by_cases hx : x = e.1 <;> simp [hx]
  rw [ofList, hfold empty]
  simp [empty, get?]

end Table

end WhereClause
