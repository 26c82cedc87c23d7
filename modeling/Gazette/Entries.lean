/-!
# Entries

Collections of named items, kept as a list of pairs.  Reading is `List.lookup`.  There are two ways
to write an item under its name: with `put` a name that is already present keeps its place and a new
name goes to the end, and with `putSorted` the items stay in the order of their names.  The
statements say what a lookup sees after either, and which names there are after a `put`.
-/

namespace Gazette

/-- Items under names. -/
abbrev Entries (α : Type) := List (String × α)

namespace Entries

variable {α β : Type}

/-- Writes `item` under `name`, in place if the name is present and at the end if not. -/
def put (name : String) (item : α) : Entries α → Entries α
  | [] => [(name, item)]
  | (n, x) :: rest => if n = name then (n, item) :: rest else (n, x) :: put name item rest

/-- Writes `item` under `name` among entries in the order of their names: in place if the name is
present, and before the first larger name if not. -/
def putSorted (name : String) (item : α) : Entries α → Entries α
  | [] => [(name, item)]
  | (n, x) :: rest =>
    if n < name then (n, x) :: putSorted name item rest
    else if n = name then (name, item) :: rest
    else (name, item) :: (n, x) :: rest

/-- The names, in the order of the entries. -/
def names (entries : Entries α) : List String := entries.map Prod.fst

/-- Whether there is an item under a name. -/
def has (name : String) (entries : Entries α) : Bool := (entries.lookup name).isSome

/-- The entries without those under a name. -/
def erase (name : String) (entries : Entries α) : Entries α := entries.filter fun e => e.1 ≠ name

/-- The entries of `pairs`, where the last item of a repeated name wins and keeps the first
place. -/
def ofPairs (pairs : List (String × α)) : Entries α :=
  pairs.foldl (fun entries pair => put pair.1 pair.2 entries) []

/-- The first name of `names` that occurred before it. -/
def firstRepeated (names : List String) : Option String :=
  go [] names
where
  /-- Looks for the first name that is among `seen` or repeated after it. -/
  go (seen : List String) : List String → Option String
    | [] => none
    | n :: rest => if n ∈ seen then some n else go (n :: seen) rest

theorem lookup_put_self (name : String) (item : α) (entries : Entries α) :
    (put name item entries).lookup name = some item := by
  induction entries with
  | nil => simp [put]
  | cons e rest ih =>
    obtain ⟨n, x⟩ := e
    by_cases h : n = name
    · simp [put, h]
    · have h' : (name == n) = false := by simpa using fun hn => h hn.symm
      simp [put, h, List.lookup_cons, h', ih]

theorem lookup_put_of_ne {name other : String} (h : other ≠ name) (item : α)
    (entries : Entries α) : (put name item entries).lookup other = entries.lookup other := by
  induction entries with
  | nil =>
    have h' : (other == name) = false := by simpa using h
    simp [put, List.lookup_cons, h']
  | cons e rest ih =>
    obtain ⟨n, x⟩ := e
    by_cases hn : n = name
    · subst hn
      have h' : (other == n) = false := by simpa using h
      simp [put, List.lookup_cons, h']
    · simp only [put, hn, if_false, List.lookup_cons]
      split <;> simp_all

theorem lookup_putSorted_self (name : String) (item : α) (entries : Entries α) :
    (putSorted name item entries).lookup name = some item := by
  induction entries with
  | nil => simp [putSorted]
  | cons e rest ih =>
    obtain ⟨n, x⟩ := e
    rw [putSorted]
    split
    · rename_i hlt
      have h : (name == n) = false := by
        refine beq_eq_false_iff_ne.2 fun heq => ?_
        exact String.lt_irrefl n (heq ▸ hlt)
      rw [List.lookup_cons, h, ih]
    · split <;> simp

theorem lookup_putSorted_of_ne {name other : String} (h : other ≠ name) (item : α)
    (entries : Entries α) : (putSorted name item entries).lookup other = entries.lookup other := by
  have h' : (other == name) = false := beq_eq_false_iff_ne.2 h
  induction entries with
  | nil => simp [putSorted, List.lookup_cons, h']
  | cons e rest ih =>
    obtain ⟨n, x⟩ := e
    rw [putSorted]
    split
    · rw [List.lookup_cons, List.lookup_cons, ih]
    · split
      · rename_i heq
        rw [List.lookup_cons, List.lookup_cons, heq, h']
      · rw [List.lookup_cons, h']

theorem names_put (name : String) (item : α) (entries : Entries α) :
    (put name item entries).names =
      if name ∈ entries.names then entries.names else entries.names ++ [name] := by
  induction entries with
  | nil => simp [put, names]
  | cons e rest ih =>
    obtain ⟨n, x⟩ := e
    by_cases h : n = name
    · simp [put, names, h]
    · have h' : ¬ name = n := fun hn => h hn.symm
      simp only [names] at ih
      by_cases hm : name ∈ List.map Prod.fst rest <;> simp_all [put, names]

end Entries

end Gazette
