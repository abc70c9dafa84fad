/-! Tables that keep their keys in the order of first insertion. -/

namespace ConfigDoc

/-- Names with what they stand for; the tables of this library never list a name twice. -/
abbrev Table (α : Type u) := List (String × α)

namespace Table

variable {α : Type u}

def names (table : Table α) : List String := table.map Prod.fst

def find? (table : Table α) (name : String) : Option α :=
  match table with
  | [] => none
  | entry :: rest => if entry.1 = name then some entry.2 else find? rest name

def has (table : Table α) (name : String) : Bool := (table.find? name).isSome

/-- A name that is present keeps its place and takes the new meaning; another one goes last. -/
def insert (table : Table α) (name : String) (value : α) : Table α :=
  match table with
  | [] => [(name, value)]
  | entry :: rest =>
    if entry.1 = name then (name, value) :: rest else entry :: insert rest name value

def ofList (pairs : List (String × α)) : Table α :=
  pairs.foldl (fun table pair => table.insert pair.1 pair.2) []

@[simp] theorem find?_nil (name : String) : find? ([] : Table α) name = none := rfl

theorem find?_cons (entry : String × α) (rest : Table α) (name : String) :
    find? (entry :: rest) name = if entry.1 = name then some entry.2 else find? rest name := rfl

@[simp] theorem find?_insert_self (table : Table α) (name : String) (value : α) :
    (table.insert name value).find? name = some value := by
  induction table with
  | nil => simp [insert, find?_cons]
  | cons entry rest ih => by_cases h : entry.1 = name <;> simp [insert, h, find?_cons, ih]

theorem find?_insert_of_ne (table : Table α) {name other : String} (value : α)
    (h : name ≠ other) : (table.insert name value).find? other = table.find? other := by
  induction table with
  | nil => simp [insert, find?_cons, h]
  | cons entry rest ih =>
    by_cases he : entry.1 = name
    · simp [insert, he, find?_cons, h]
    · simp [insert, he, find?_cons, ih]

theorem names_insert (table : Table α) (name : String) (value : α) :
    (table.insert name value).names =
      if name ∈ table.names then table.names else table.names ++ [name] := by
  induction table with
  | nil => simp [insert, names]
  | cons entry rest ih =>
    by_cases h : entry.1 = name
    · simp [insert, h, names]
    · have h' : ¬ name = entry.1 := fun e => h e.symm
      simp only [insert, h, if_false, names, List.map_cons, List.mem_cons, h', false_or] at ih ⊢
      rw [ih]
      by_cases hm : name ∈ List.map Prod.fst rest <;> simp [hm]

end Table

end ConfigDoc
