import Reckon.Unicode.Case

/-!
Tables whose names ignore case and keep their order.

A name is looked up by its lower-case form. Writing to a name that is present replaces its value in
place and keeps the spelling it was first written with; a new name goes to the end. No two names of a
table have the same lower-case form.
-/

namespace Reckon

/-- The form of a name that look-up compares. -/
def foldName (name : String) : String := lowerText name

/-- A name as first written, with its value. -/
structure Entry (α : Type) where
  name : String
  value : α
deriving Repr, DecidableEq

namespace Entry

variable {α : Type}

def key (e : Entry α) : String := foldName e.name

/-- Writes a value to a name. -/
def insertInto (name : String) (value : α) : List (Entry α) → List (Entry α)
  | [] => [⟨name, value⟩]
  | e :: rest =>
    if e.key = foldName name then ⟨e.name, value⟩ :: rest else e :: insertInto name value rest

theorem keys_insertInto (name : String) (value : α) (es : List (Entry α)) :
    (insertInto name value es).map key =
      if foldName name ∈ es.map key then es.map key else es.map key ++ [foldName name] := by
  induction es with
  | nil => simp [insertInto, key]
  | cons e rest ih =>
    by_cases h : e.key = foldName name
    · have h' : foldName name = foldName e.name := h.symm
      simp [insertInto, key, h']
    · have h' : ¬foldName name = foldName e.name := fun h' => h h'.symm
      rw [insertInto, if_neg h, List.map_cons, ih]
      by_cases hm : foldName name ∈ rest.map key
      · simp [hm]
      · simp [hm, key, h']

theorem nodup_insertInto {name : String} {value : α} {es : List (Entry α)}
    (h : (es.map key).Nodup) : ((insertInto name value es).map key).Nodup := by
  rw [keys_insertInto]
  split
  · exact h
  · rename_i hm
    rw [List.nodup_append]
    refine ⟨h, by simp, ?_⟩
    intro a ha b hb
    simp only [List.mem_singleton] at hb
    rintro rfl
    exact hm (hb ▸ ha)

theorem find?_insertInto (name : String) (value : α) (es : List (Entry α)) (key : String) :
    ((insertInto name value es).find? fun e => e.key = key).map Entry.value =
      if key = foldName name then some value
      else (es.find? fun e => e.key = key).map Entry.value := by
  induction es with
  | nil =>
    by_cases h : key = foldName name
    · simp [insertInto, Entry.key, h]
    · simp [insertInto, Entry.key, h, Ne.symm h]
  | cons e rest ih =>
    by_cases he : e.key = foldName name
    · rw [insertInto, if_pos he]
      have hwritten : (⟨e.name, value⟩ : Entry α).key = foldName name := he
      by_cases h : key = foldName name
      · simp [hwritten, h]
      · simp [hwritten, he, h, Ne.symm h]
    · rw [insertInto, if_neg he]
      by_cases hk : e.key = key
      · have h : key ≠ foldName name := fun h => he (hk.trans h)
        simp [hk, h]
      · rw [List.find?_cons_of_neg (by simpa using hk), List.find?_cons_of_neg (by simpa using hk),
          ih]

theorem names_insertInto (name : String) (value : α) (es : List (Entry α)) :
    (insertInto name value es).map Entry.name =
      if (es.find? fun e => e.key = foldName name).isSome then es.map Entry.name
      else es.map Entry.name ++ [name] := by
  induction es with
  | nil => rfl
  | cons e rest ih =>
    by_cases he : e.key = foldName name
    · simp [insertInto, he]
    · rw [insertInto, if_neg he, List.find?_cons_of_neg (by simpa using he), List.map_cons, ih]
      split <;> rfl

end Entry

/-- Entries with distinct keys, in the order of their first writing. -/
structure Table (α : Type) where
  entries : List (Entry α)
  distinct : (entries.map Entry.key).Nodup

namespace Table

variable {α : Type}

def empty : Table α := ⟨[], List.nodup_nil⟩

instance : Inhabited (Table α) := ⟨empty⟩

/-- The value of a name in any spelling. -/
def get? (t : Table α) (name : String) : Option α :=
  (t.entries.find? fun e => e.key = foldName name).map Entry.value

theorem get?_congr (t : Table α) {name other : String} (h : foldName name = foldName other) :
    t.get? name = t.get? other := by
  rw [get?, get?, h]

def contains (t : Table α) (name : String) : Bool := (t.get? name).isSome

/-- Writes a value to a name. -/
def insert (t : Table α) (name : String) (value : α) : Table α :=
  ⟨Entry.insertInto name value t.entries, Entry.nodup_insertInto t.distinct⟩

theorem get?_insert (t : Table α) (name : String) (value : α) (other : String) :
    (t.insert name value).get? other =
      if foldName other = foldName name then some value else t.get? other :=
  Entry.find?_insertInto name value t.entries (foldName other)

/-- Drops a name; the order of the others stays. -/
def erase (t : Table α) (name : String) : Table α :=
  ⟨t.entries.filter fun e => e.key ≠ foldName name,
    t.distinct.sublist (List.Sublist.map _ List.filter_sublist)⟩

/-- Changes the value of a name that is present. -/
def replace (t : Table α) (name : String) (value : α) : Table α :=
  if t.contains name then t.insert name value else t

/-- Writes all pairs in turn. -/
def insertAll (t : Table α) (pairs : List (String × α)) : Table α :=
  pairs.foldl (fun t (name, value) => t.insert name value) t

def ofList (pairs : List (String × α)) : Table α := empty.insertAll pairs

/-- The names as first written, in order. -/
def names (t : Table α) : List String := t.entries.map Entry.name

theorem names_insert (t : Table α) (name : String) (value : α) :
    (t.insert name value).names =
      if (t.get? name).isSome then t.names else t.names ++ [name] := by
  rw [names, insert, Entry.names_insertInto, get?, Option.isSome_map]
  rfl

def toList (t : Table α) : List (String × α) := t.entries.map fun e => (e.name, e.value)

def size (t : Table α) : Nat := t.entries.length

def isEmpty (t : Table α) : Bool := t.entries.isEmpty

/-- Whether two tables have as many entries and each of the first is found in the second. -/
def agrees (same : α → α → Bool) (t u : Table α) : Bool :=
  t.size == u.size &&
    t.entries.all fun e => match u.get? e.name with
      | some value => same value e.value
      | none => false

end Table
end Reckon
