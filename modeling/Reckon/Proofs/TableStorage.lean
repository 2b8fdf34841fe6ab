import Mathlib.Data.Finset.Dedup
import Mathlib.Data.Finset.Card
import Reckon.Table

/-!
How a table is stored, and what changes do to it.

A table is kept in slots that are found, written and taken out by their keys alone. Whatever changes are
made to an empty one, the key of every slot stays the lower-case form of the name beside it, and no key
comes twice. So a table is its names with their values, in order, and each change does to them what is
stated here for lists of such pairs.
-/

namespace Reckon

/-- A value as it is stored, with its key and the name as first written. -/
structure Slot (α : Type) where
  key : String
  name : String
  value : α
deriving Repr, DecidableEq

/-- Slots in the order in which they were added. -/
abbrev SlotList (α : Type) := List (Slot α)

/-- A change of a table. `overwrite` writes through a reference to the value of a name, if there is
one; `collect` begins a new table. -/
inductive Change (α : Type) where
  | insert (name : String) (value : α)
  | overwrite (name : String) (value : α)
  | remove (name : String)
  | extend (pairs : List (String × α))
  | collect (pairs : List (String × α))

/-- What changes one after the other answer, and what they leave. -/
def runChanges {α σ : Type} (change : Change α → σ → Option α × σ) : List (Change α) → σ →
    List (Option α) × σ
  | [], state => ([], state)
  | c :: rest, state =>
    let (answer, state) := change c state
    let (answers, state) := runChanges change rest state
    (answer :: answers, state)

variable {α : Type}

namespace SlotList

/-- The slot with a key. -/
def at? (key : String) (slots : SlotList α) : Option (Slot α) := slots.find? (·.key = key)

/-- Writes a value to the slot with a key. -/
def setValue (key : String) (value : α) (slots : SlotList α) : SlotList α :=
  slots.map fun slot => if slot.key = key then { slot with value } else slot

/-- Writes a value to a name: to its slot, or to a new one at the end. -/
def insert (name : String) (value : α) (slots : SlotList α) : Option α × SlotList α :=
  match slots.at? (foldName name) with
  | some slot => (some slot.value, slots.setValue (foldName name) value)
  | none => (none, slots ++ [⟨foldName name, name, value⟩])

/-- Writes all pairs in turn. -/
def insertAll (pairs : List (String × α)) (slots : SlotList α) : SlotList α :=
  pairs.foldl (fun slots (name, value) => (slots.insert name value).2) slots

/-- A change of the slots, with the value that was in the place of the name. -/
def change : Change α → SlotList α → Option α × SlotList α
  | .insert name value, slots => slots.insert name value
  | .overwrite name value, slots =>
    ((slots.at? (foldName name)).map Slot.value, slots.setValue (foldName name) value)
  | .remove name, slots =>
    ((slots.at? (foldName name)).map Slot.value, slots.eraseP (·.key = foldName name))
  | .extend pairs, slots => (none, slots.insertAll pairs)
  | .collect pairs, _ => (none, insertAll pairs [])

/-- The names with their values. -/
def pairs (slots : SlotList α) : List (String × α) := slots.map fun slot => (slot.name, slot.value)

end SlotList

/-- A change of a table, with the value that the name had. -/
def Table.change : Change α → Table α → Option α × Table α
  | .insert name value, t => (t.get? name, t.insert name value)
  | .overwrite name value, t => (t.get? name, t.replace name value)
  | .remove name, t => (t.get? name, t.erase name)
  | .extend pairs, t => (none, t.insertAll pairs)
  | .collect pairs, _ => (none, .ofList pairs)

/-- Whether no pair has a name, in any spelling. -/
def Absent (name : String) (pairs : List (String × α)) : Prop :=
  ∀ p ∈ pairs, foldName p.1 ≠ foldName name

/-- What changes do to pairs, and what they answer. Only a name that is there in some spelling is
replaced or removed, in its place; any other is added at the end. -/
inductive Changes : Change α → List (String × α) → Option α → List (String × α) → Prop
  | replaced {name spelling : String} {value old : α} {before after : List (String × α)} :
      foldName spelling = foldName name →
      Changes (.insert name value) (before ++ (spelling, old) :: after) (some old)
        (before ++ (spelling, value) :: after)
  | appended {name : String} {value : α} {pairs : List (String × α)} : Absent name pairs →
      Changes (.insert name value) pairs none (pairs ++ [(name, value)])
  | overwritten {name spelling : String} {value old : α} {before after : List (String × α)} :
      foldName spelling = foldName name →
      Changes (.overwrite name value) (before ++ (spelling, old) :: after) (some old)
        (before ++ (spelling, value) :: after)
  | notOverwritten {name : String} {value : α} {pairs : List (String × α)} : Absent name pairs →
      Changes (.overwrite name value) pairs none pairs
  | removed {name spelling : String} {old : α} {before after : List (String × α)} :
      foldName spelling = foldName name →
      Changes (.remove name) (before ++ (spelling, old) :: after) (some old) (before ++ after)
  | notRemoved {name : String} {pairs : List (String × α)} : Absent name pairs →
      Changes (.remove name) pairs none pairs
  | extended {pairs : List (String × α)} : Changes (.extend []) pairs none pairs
  | extendedBy {name : String} {value : α} {old : Option α} {more first second third :
      List (String × α)} : Changes (.insert name value) first old second →
      Changes (.extend more) second none third →
      Changes (.extend ((name, value) :: more)) first none third
  | collected {pairs old new : List (String × α)} : Changes (.extend pairs) [] none new →
      Changes (.collect pairs) old none new

/-! A name is absent from a table, or it is the name of just one entry. -/

def Entry.slot (e : Entry α) : Slot α := ⟨e.key, e.name, e.value⟩

theorem Table.eq_of_entries {t u : Table α} (h : t.entries = u.entries) : t = u := by
  cases t
  cases u
  cases h
  rfl

/-- An entry with the key of a name, between others that have other keys. -/
structure Entry.At (name : String) (es before : List (Entry α)) (e : Entry α)
    (after : List (Entry α)) : Prop where
  split : es = before ++ e :: after
  found : e.key = foldName name
  before : ∀ u ∈ before, u.key ≠ foldName name
  after : ∀ u ∈ after, u.key ≠ foldName name

theorem Table.absent_or_at (t : Table α) (name : String) :
    (∀ e ∈ t.entries, e.key ≠ foldName name) ∨
      ∃ before e after, Entry.At name t.entries before e after := by
  cases hfind : t.entries.find? fun e => e.key = foldName name with
  | none =>
    refine .inl fun e he hkey => ?_
    simpa [hkey] using List.find?_eq_none.mp hfind e he
  | some e =>
    obtain ⟨hkey, before, after, hsplit, hbefore⟩ := List.find?_eq_some_iff_append.mp hfind
    have hkey : e.key = foldName name := by simpa using hkey
    refine .inr ⟨before, e, after, hsplit, hkey, by simpa using hbefore, ?_⟩
    intro u hu hsame
    have hdistinct := t.distinct
    rw [hsplit, List.map_append, List.map_cons, List.nodup_append, List.nodup_cons] at hdistinct
    exact hdistinct.2.1.1 (List.mem_map.mpr ⟨u, hu, hsame.trans hkey.symm⟩)

section Absent

variable {name : String} {es : List (Entry α)} (h : ∀ e ∈ es, e.key ≠ foldName name)

include h

theorem Entry.insertInto_append (value : α) (more : List (Entry α)) :
    insertInto name value (es ++ more) = es ++ insertInto name value more := by
  induction es with
  | nil => rfl
  | cons e es ih =>
    rw [List.forall_mem_cons] at h
    rw [List.cons_append, insertInto, if_neg h.1, ih h.2, List.cons_append]

theorem Entry.insertInto_absent (value : α) : insertInto name value es = es ++ [⟨name, value⟩] := by
  have := insertInto_append h value []
  rwa [List.append_nil] at this

theorem Entry.find?_absent : es.find? (fun e => e.key = foldName name) = none :=
  List.find?_eq_none.mpr fun e he => by simpa using h e he

theorem Entry.filter_absent : es.filter (fun e => e.key ≠ foldName name) = es :=
  List.filter_eq_self.mpr fun e he => by simpa using h e he

theorem SlotList.ne_of_mem_map : ∀ slot ∈ es.map Entry.slot, slot.key ≠ foldName name := by
  intro slot hslot
  obtain ⟨e, he, rfl⟩ := List.mem_map.mp hslot
  exact h e he

theorem SlotList.at?_absent : at? (foldName name) (es.map Entry.slot) = none :=
  List.find?_eq_none.mpr fun slot hslot => by simpa using ne_of_mem_map h slot hslot

theorem SlotList.setValue_absent (value : α) :
    setValue (foldName name) value (es.map Entry.slot) = es.map Entry.slot := by
  rw [setValue, List.map_map]
  exact List.map_congr_left fun e he => if_neg (h e he)

theorem SlotList.eraseP_absent :
    (es.map Entry.slot).eraseP (·.key = foldName name) = es.map Entry.slot :=
  List.eraseP_of_forall_not fun slot hslot => by simpa using ne_of_mem_map h slot hslot

theorem absent_of_entries : Absent name (es.map fun e => (e.name, e.value)) := by
  intro p hp
  obtain ⟨e, he, rfl⟩ := List.mem_map.mp hp
  exact h e he

end Absent

namespace Entry.At

variable {name : String} {es before after : List (Entry α)} {e : Entry α}
  (h : Entry.At name es before e after)

include h

theorem find? : es.find? (fun e => e.key = foldName name) = some e := by
  rw [h.split, List.find?_append, find?_absent h.before, Option.none_or,
    List.find?_cons_of_pos (by simpa using h.found)]

theorem insertInto (value : α) :
    Entry.insertInto name value es = before ++ ⟨e.name, value⟩ :: after := by
  rw [h.split, insertInto_append h.before, Entry.insertInto, if_pos h.found]

theorem filter : es.filter (fun e => e.key ≠ foldName name) = before ++ after := by
  rw [h.split, List.filter_append, filter_absent h.before,
    List.filter_cons_of_neg (by simpa using h.found), filter_absent h.after]

theorem at? : SlotList.at? (foldName name) (es.map slot) = some e.slot := by
  rw [h.split, List.map_append, SlotList.at?, List.find?_append]
  rw [← SlotList.at?, SlotList.at?_absent h.before, Option.none_or, List.map_cons, List.find?_cons,
    show decide (e.slot.key = foldName name) = true from decide_eq_true h.found]

theorem setValue (value : α) : SlotList.setValue (foldName name) value (es.map slot) =
    (before ++ ⟨e.name, value⟩ :: after).map slot := by
  have hbefore := SlotList.setValue_absent h.before value
  have hafter := SlotList.setValue_absent h.after value
  have hslot : e.slot.key = foldName name := h.found
  simp only [SlotList.setValue] at hbefore hafter ⊢
  rw [h.split, List.map_append, List.map_append, List.map_append, hbefore, List.map_cons,
    List.map_cons, List.map_cons, hafter, if_pos hslot]
  rfl

theorem eraseP :
    (es.map slot).eraseP (·.key = foldName name) = (before ++ after).map slot := by
  rw [h.split, List.map_append, List.map_append, List.map_cons, List.eraseP_append_right _
    (fun slot hs => by simpa using SlotList.ne_of_mem_map h.before slot hs), List.eraseP_cons,
    show decide (e.slot.key = foldName name) = true from decide_eq_true h.found]
  rfl

end Entry.At

/-! Changes of a table, of its slots and of its pairs. -/

namespace Table

section Absent

variable {t : Table α} {name : String} (h : ∀ e ∈ t.entries, e.key ≠ foldName name)

include h

theorem get?_absent : t.get? name = none := by
  rw [get?, Entry.find?_absent h, Option.map_none]

theorem entries_insert_absent (value : α) :
    (t.insert name value).entries = t.entries ++ [⟨name, value⟩] :=
  Entry.insertInto_absent h value

theorem replace_absent (value : α) : t.replace name value = t := by
  rw [replace, contains, get?_absent h]
  rfl

theorem erase_absent : t.erase name = t := eq_of_entries (Entry.filter_absent h)

end Absent

section At

variable {t : Table α} {name : String} {before after : List (Entry α)} {e : Entry α}
  (h : Entry.At name t.entries before e after)

include h

theorem get?_at : t.get? name = some e.value := by
  rw [get?, h.find?, Option.map_some]

theorem entries_insert_at (value : α) :
    (t.insert name value).entries = before ++ ⟨e.name, value⟩ :: after := h.insertInto value

theorem replace_at (value : α) : t.replace name value = t.insert name value := by
  rw [replace, contains, get?_at h]
  rfl

theorem entries_erase_at : (t.erase name).entries = before ++ after := h.filter

end At

theorem toList_of_split {t : Table α} {before after : List (Entry α)} {e : Entry α}
    (h : t.entries = before ++ e :: after) :
    t.toList = (before.map fun e => (e.name, e.value)) ++ (e.name, e.value) ::
      after.map fun e => (e.name, e.value) := by
  rw [toList, h, List.map_append, List.map_cons]

theorem changes_insert (t : Table α) (name : String) (value : α) :
    Changes (.insert name value) t.toList (t.get? name) (t.insert name value).toList := by
  rcases t.absent_or_at name with h | ⟨before, e, after, h⟩
  · rw [get?_absent h, toList, toList, entries_insert_absent h, List.map_append]
    exact .appended (absent_of_entries h)
  · rw [get?_at h, toList_of_split h.split, toList_of_split (entries_insert_at h value)]
    exact .replaced h.found

theorem changes_overwrite (t : Table α) (name : String) (value : α) :
    Changes (.overwrite name value) t.toList (t.get? name) (t.replace name value).toList := by
  rcases t.absent_or_at name with h | ⟨before, e, after, h⟩
  · rw [replace_absent h, get?_absent h]
    exact .notOverwritten (absent_of_entries h)
  · rw [replace_at h, get?_at h, toList_of_split h.split,
      toList_of_split (entries_insert_at h value)]
    exact .overwritten h.found

theorem changes_remove (t : Table α) (name : String) :
    Changes (.remove name) t.toList (t.get? name) (t.erase name).toList := by
  rcases t.absent_or_at name with h | ⟨before, e, after, h⟩
  · rw [erase_absent h, get?_absent h]
    exact .notRemoved (absent_of_entries h)
  · rw [get?_at h, toList_of_split h.split, toList, entries_erase_at h, List.map_append]
    exact .removed h.found

theorem changes_extend (t : Table α) (pairs : List (String × α)) :
    Changes (.extend pairs) t.toList none (t.insertAll pairs).toList := by
  induction pairs generalizing t with
  | nil => exact .extended
  | cons p pairs ih => exact .extendedBy (t.changes_insert p.1 p.2) (ih (t.insert p.1 p.2))

/-- Each change of a table does to its pairs what it should. -/
theorem changes_change (t : Table α) (c : Change α) :
    Changes c t.toList (t.change c).1 (t.change c).2.toList := by
  cases c with
  | insert name value => exact t.changes_insert name value
  | overwrite name value => exact t.changes_overwrite name value
  | remove name => exact t.changes_remove name
  | extend pairs => exact t.changes_extend pairs
  | collect pairs => exact .collected (empty.changes_extend pairs)

/-- The slots in which the entries of a table are stored. -/
def slots (t : Table α) : SlotList α := t.entries.map Entry.slot

theorem insert_slots (t : Table α) (name : String) (value : α) :
    t.slots.insert name value = (t.get? name, (t.insert name value).slots) := by
  rcases t.absent_or_at name with h | ⟨before, e, after, h⟩
  · rw [SlotList.insert, slots, slots, SlotList.at?_absent h, get?_absent h, entries_insert_absent h,
      List.map_append]
    rfl
  · rw [SlotList.insert, slots, slots, h.at?, h.setValue, get?_at h, entries_insert_at h]
    rfl

theorem overwrite_slots (t : Table α) (name : String) (value : α) :
    ((t.slots.at? (foldName name)).map Slot.value, t.slots.setValue (foldName name) value) =
      (t.get? name, (t.replace name value).slots) := by
  rcases t.absent_or_at name with h | ⟨before, e, after, h⟩
  · rw [slots, SlotList.at?_absent h, SlotList.setValue_absent h, get?_absent h, replace_absent h]
    rfl
  · rw [slots, slots, h.at?, h.setValue, get?_at h, replace_at h, entries_insert_at h]
    rfl

theorem remove_slots (t : Table α) (name : String) :
    ((t.slots.at? (foldName name)).map Slot.value, t.slots.eraseP (·.key = foldName name)) =
      (t.get? name, (t.erase name).slots) := by
  rcases t.absent_or_at name with h | ⟨before, e, after, h⟩
  · rw [slots, SlotList.at?_absent h, SlotList.eraseP_absent h, get?_absent h, erase_absent h]
    rfl
  · rw [slots, slots, h.at?, h.eraseP, get?_at h, entries_erase_at h]
    rfl

theorem insertAll_slots (t : Table α) (pairs : List (String × α)) :
    t.slots.insertAll pairs = (t.insertAll pairs).slots := by
  induction pairs generalizing t with
  | nil => rfl
  | cons p pairs ih =>
    have hinsert := congrArg Prod.snd (t.insert_slots p.1 p.2)
    rw [SlotList.insertAll, List.foldl_cons]
    dsimp only at hinsert ⊢
    rw [hinsert]
    exact ih (t.insert p.1 p.2)

/-- Each change of the slots of a table is that of the table. -/
theorem change_slots (t : Table α) (c : Change α) :
    t.slots.change c = ((t.change c).1, (t.change c).2.slots) := by
  cases c with
  | insert name value => exact t.insert_slots name value
  | overwrite name value => exact t.overwrite_slots name value
  | remove name => exact t.remove_slots name
  | extend pairs => exact Prod.ext rfl (t.insertAll_slots pairs)
  | collect pairs => exact Prod.ext rfl (empty.insertAll_slots pairs)

theorem runChanges_slots (script : List (Change α)) (t : Table α) :
    runChanges SlotList.change script t.slots =
      ((runChanges change script t).1, (runChanges change script t).2.slots) := by
  induction script generalizing t with
  | nil => rfl
  | cons c rest ih => simp only [runChanges, change_slots, ih]

/-- New names with their values come after those that are there. -/
theorem entries_insertAll (t : Table α) (es : List (Entry α))
    (h : ((t.entries ++ es).map Entry.key).Nodup) :
    (t.insertAll (es.map fun e => (e.name, e.value))).entries = t.entries ++ es := by
  induction es generalizing t with
  | nil => exact (List.append_nil _).symm
  | cons e es ih =>
    have hnew : (t.insert e.name e.value).entries = t.entries ++ [e] := by
      refine Entry.insertInto_absent ?_ e.value
      intro u hu hsame
      rw [List.map_append, List.map_cons, List.nodup_append] at h
      exact h.2.2 _ (List.mem_map_of_mem hu) _ (List.mem_cons_self ..) hsame
    rw [List.append_cons, ← hnew] at h
    rw [List.append_cons, ← hnew]
    exact ih (t.insert e.name e.value) h

/-- Inserting the pairs of a table in order gives the table again. -/
theorem ofList_toList (t : Table α) : ofList t.toList = t :=
  eq_of_entries (empty.entries_insertAll t.entries t.distinct)

theorem get?_eq_some_iff (t : Table α) (name : String) (value : α) :
    t.get? name = some value ↔
      ∃ spelling, (spelling, value) ∈ t.toList ∧ foldName spelling = foldName name := by
  rcases t.absent_or_at name with h | ⟨before, e, after, h⟩
  · rw [get?_absent h]
    refine iff_of_false nofun ?_
    rintro ⟨spelling, hmem, hsame⟩
    exact absent_of_entries h _ hmem hsame
  · rw [get?_at h, toList_of_split h.split]
    constructor
    · rintro ⟨⟩
      exact ⟨e.name, List.mem_append_right _ (List.mem_cons_self ..), h.found⟩
    · rintro ⟨spelling, hmem, hsame⟩
      rcases List.mem_append.mp hmem with hmem | hmem
      · have hother := absent_of_entries h.before _ hmem
        exact absurd hsame hother
      · rcases List.mem_cons.mp hmem with heq | hmem
        · rw [(Prod.mk.inj heq).2]
        · have hother := absent_of_entries h.after _ hmem
          exact absurd hsame hother

theorem contains_iff (t : Table α) (name : String) :
    t.contains name ↔ ∃ p ∈ t.toList, foldName p.1 = foldName name := by
  rw [contains, Option.isSome_iff_exists]
  simp only [get?_eq_some_iff]
  exact ⟨fun ⟨value, spelling, hmem, hsame⟩ => ⟨(spelling, value), hmem, hsame⟩,
    fun ⟨(spelling, value), hmem, hsame⟩ => ⟨value, spelling, hmem, hsame⟩⟩

theorem pairs_slots (t : Table α) : t.slots.pairs = t.toList := by
  rw [slots, SlotList.pairs, List.map_map]
  rfl

theorem keys_slots (t : Table α) : t.slots.map Slot.key = t.entries.map Entry.key := by
  rw [slots, List.map_map]
  rfl

theorem names_slots (t : Table α) :
    (t.slots.map fun slot => foldName slot.name) = t.entries.map Entry.key := by
  rw [slots, List.map_map]
  rfl

theorem at?_slots (t : Table α) (name : String) :
    (t.slots.at? (foldName name)).map Slot.value = t.get? name := by
  rcases t.absent_or_at name with h | ⟨before, e, after, h⟩
  · rw [slots, SlotList.at?_absent h, get?_absent h]
    rfl
  · rw [slots, h.at?, get?_at h]
    rfl

theorem length_slots (t : Table α) :
    t.slots.length = (t.toList.map fun p => foldName p.1).toFinset.card := by
  have hkeys : (t.toList.map fun p => foldName p.1) = t.entries.map Entry.key := by
    rw [toList, List.map_map]
    rfl
  rw [hkeys, List.toFinset_card_of_nodup t.distinct, slots, List.length_map, List.length_map]

/-- Whatever changes are made to an empty table, in its slots or in itself, they answer the same and
leave the same. The key of each slot is the lower-case form of its name, no key comes twice, and any
further change does to the pairs of name and value what it should. A name is found just if a pair has it
in some spelling, there are as many slots as lower-case forms, and inserting the pairs in order gives the
slots again. -/
theorem stored_as_pairs (script : List (Change α)) :
    let stored := (runChanges SlotList.change script []).2
    let t := (runChanges change script empty).2
    (runChanges SlotList.change script []).1 = (runChanges change script empty).1 ∧
    stored = t.slots ∧ stored.pairs = t.toList ∧
    stored.map Slot.key = stored.map (fun slot => foldName slot.name) ∧
    (stored.map Slot.key).Nodup ∧
    (∀ c, Changes c stored.pairs (stored.change c).1 (stored.change c).2.pairs ∧
      Changes c t.toList (t.change c).1 (t.change c).2.toList) ∧
    (∀ name, (stored.at? (foldName name)).map Slot.value = t.get? name ∧
      (t.contains name ↔ ∃ p ∈ stored.pairs, foldName p.1 = foldName name) ∧
      ∀ value, t.get? name = some value ↔
        ∃ spelling, (spelling, value) ∈ stored.pairs ∧ foldName spelling = foldName name) ∧
    t.size = stored.length ∧
    stored.length = (stored.pairs.map fun p => foldName p.1).toFinset.card ∧
    (SlotList.change (.collect stored.pairs) []).2 = stored ∧ ofList t.toList = t := by
  intro stored t
  have hrun : runChanges SlotList.change script [] =
      ((runChanges change script empty).1, t.slots) := runChanges_slots script empty
  have hstored : stored = t.slots := congrArg Prod.snd hrun
  refine ⟨congrArg Prod.fst hrun, hstored, ?_⟩
  rw [hstored, pairs_slots]
  refine ⟨rfl, t.keys_slots.trans t.names_slots.symm, t.keys_slots ▸ t.distinct, fun c => ?_,
    fun name => ⟨t.at?_slots name, t.contains_iff name, t.get?_eq_some_iff name⟩,
    (List.length_map _).symm, t.length_slots, ?_, t.ofList_toList⟩
  · have hc := t.changes_change c
    rw [t.change_slots, pairs_slots]
    exact ⟨hc, hc⟩
  · rw [← congrArg slots t.ofList_toList]
    exact congrArg Prod.snd (empty.change_slots (.collect t.toList))

/-- A name that is written again keeps its place and its spelling, and loses both when it is removed. -/
example :
    runChanges SlotList.change [.insert "Total" 1, .insert "n" 2, .insert "TOTAL" 3, .remove "total",
      .insert "toTal" 4] [] =
        ([none, none, some 1, some 3, none], [⟨"n", "n", 2⟩, ⟨"total", "toTal", 4⟩]) := by
  decide

end Table

end Reckon
