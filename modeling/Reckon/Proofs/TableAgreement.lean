import Mathlib.Data.Finset.Card
import Mathlib.Data.Finset.Dedup
import Reckon.Proofs.TableStorage

/-!
When two tables agree.

Only the entries of one table are looked up in the other, by the spellings that the first remembers, and
the sizes are compared. No key comes twice, so as many entries that are all found are all there is: tables
agree just if they bind the same lower-case names, and to the same values. Neither the order nor the
spellings count, and agreement is an equivalence if the sameness of values is.
-/

namespace Reckon

variable {α : Type}

namespace SlotList

/-- Whether there are as many slots in both, and each of the first is found in the second. -/
def agrees (same : α → α → Bool) (slots others : SlotList α) : Bool :=
  slots.length == others.length &&
    slots.all fun slot => match others.at? (foldName slot.name) with
      | some other => same other.value slot.value
      | none => false

end SlotList

namespace Table

/-- The lower-case forms of the names. -/
def keys (t : Table α) : Finset String := (t.toList.map fun p => foldName p.1).toFinset

/-- Whether two tables have the same names, in any spelling, and the same values under them. -/
def SameBindings (same : α → α → Bool) (t u : Table α) : Prop :=
  t.keys = u.keys ∧
    ∀ p ∈ t.toList, ∀ q ∈ u.toList, foldName p.1 = foldName q.1 → same p.2 q.2

theorem mem_keys {t : Table α} {key : String} :
    key ∈ t.keys ↔ ∃ p ∈ t.toList, foldName p.1 = key := by
  rw [keys, List.mem_toFinset, List.mem_map]

theorem card_keys (t : Table α) : t.keys.card = t.size := by
  rw [keys, ← t.length_slots, slots, List.length_map, size]

theorem get?_of_mem {t : Table α} {p : String × α} {name : String} (h : p ∈ t.toList)
    (hname : foldName p.1 = foldName name) : t.get? name = some p.2 :=
  (t.get?_eq_some_iff name p.2).mpr ⟨p.1, h, hname⟩

section
variable {same : α → α → Bool} {t u : Table α}

theorem agrees_iff : t.agrees same u ↔ t.size = u.size ∧
    ∀ p ∈ t.toList, ∃ value, u.get? p.1 = some value ∧ same value p.2 := by
  rw [agrees, Bool.and_eq_true, beq_iff_eq, List.all_eq_true, toList, List.forall_mem_map]
  refine and_congr_right fun _ => forall₂_congr fun e _ => ?_
  cases h : u.get? e.name with
  | none => simp
  | some value => simp

/-- As many entries that are all found are all that there are. -/
theorem keys_eq_of_found (hsize : t.size = u.size)
    (hfound : ∀ p ∈ t.toList, ∃ value, u.get? p.1 = some value) : t.keys = u.keys := by
  have hsubset : t.keys ⊆ u.keys := by
    intro key hkey
    obtain ⟨p, hp, rfl⟩ := mem_keys.mp hkey
    obtain ⟨value, hvalue⟩ := hfound p hp
    obtain ⟨spelling, hmem, hspelling⟩ := (u.get?_eq_some_iff p.1 value).mp hvalue
    exact mem_keys.mpr ⟨(spelling, value), hmem, hspelling⟩
  apply Finset.eq_of_subset_of_card_le hsubset
  rw [card_keys, card_keys, hsize]

theorem agrees_iff_sameBindings (hsame : ∀ {a b}, same a b → same b a) :
    t.agrees same u ↔ t.SameBindings same u := by
  rw [agrees_iff]
  constructor
  · intro ⟨hsize, hfound⟩
    refine ⟨keys_eq_of_found hsize fun p hp => ?_, fun p hp q hq hname => ?_⟩
    · obtain ⟨value, hvalue, -⟩ := hfound p hp
      exact ⟨value, hvalue⟩
    · obtain ⟨value, hvalue, hv⟩ := hfound p hp
      rw [get?_of_mem hq hname.symm, Option.some.injEq] at hvalue
      exact hsame (hvalue ▸ hv)
  · intro ⟨hkeys, hvalues⟩
    refine ⟨by rw [← card_keys, ← card_keys, hkeys], fun p hp => ?_⟩
    obtain ⟨q, hq, hname⟩ := mem_keys.mp (hkeys ▸ mem_keys.mpr ⟨p, hp, rfl⟩)
    exact ⟨q.2, get?_of_mem hq hname, hsame (hvalues p hp q hq hname.symm)⟩

theorem sameBindings_equivalence (hsame : Equivalence fun a b => same a b = true) :
    Equivalence (SameBindings same) where
  refl t := by
    refine ⟨rfl, fun p hp q hq hname => ?_⟩
    have hvalue : some p.2 = some q.2 := by
      rw [← get?_of_mem hp rfl, ← get?_of_mem hq hname.symm]
    rw [Option.some.inj hvalue]
    exact hsame.refl q.2
  symm h := ⟨h.1.symm, fun q hq p hp hname => hsame.symm (h.2 p hp q hq hname.symm)⟩
  trans h h' := by
    refine ⟨h.1.trans h'.1, fun p hp r hr hname => ?_⟩
    obtain ⟨q, hq, hpq⟩ := mem_keys.mp (h.1 ▸ mem_keys.mpr ⟨p, hp, rfl⟩)
    exact hsame.trans (h.2 p hp q hq hpq.symm) (h'.2 q hq r hr (hpq.trans hname))

theorem agrees_slots (t u : Table α) : t.slots.agrees same u.slots = t.agrees same u := by
  have hlength (t : Table α) : t.slots.length = t.size := List.length_map _
  rw [SlotList.agrees, agrees, hlength, hlength, slots, List.all_map]
  congr 2
  funext e
  rw [← u.at?_slots e.name]
  show (match u.slots.at? (foldName e.name) with
    | some other => same other.value e.value
    | none => false) = _
  cases u.slots.at? (foldName e.name) <;> rfl

end

/-- Whatever changes two tables come from, in their slots or in themselves, they agree just if they bind
the same names, in any spelling and order, to the same values; and agreement is an equivalence. -/
theorem agrees_iff_same {same : α → α → Bool} (hsame : Equivalence fun a b => same a b = true)
    (script other : List (Change α)) :
    let t := (runChanges change script empty).2
    let u := (runChanges change other empty).2
    (runChanges SlotList.change script []).2.agrees same (runChanges SlotList.change other []).2 =
      t.agrees same u ∧
    (t.agrees same u ↔ t.SameBindings same u) ∧
    Equivalence fun t u : Table α => t.agrees same u = true := by
  intro t u
  have hiff (t u : Table α) : t.agrees same u ↔ t.SameBindings same u :=
    agrees_iff_sameBindings hsame.symm
  have hslots (script : List (Change α)) : (runChanges SlotList.change script []).2 =
      (runChanges change script empty).2.slots :=
    congrArg Prod.snd (runChanges_slots script empty)
  have hagrees : (fun t u : Table α => t.agrees same u = true) = SameBindings same := by
    funext t u
    exact propext (hiff t u)
  refine ⟨by rw [hslots, hslots, agrees_slots], hiff t u, ?_⟩
  rw [hagrees]
  exact sameBindings_equivalence hsame

/-- A name may be written, removed and written again in another spelling. -/
theorem agrees_iff_same_spellings :
    let t := (runChanges change [.insert "Total" 1, .insert "n" 2, .insert "TOTAL" 3] empty).2
    let u := (runChanges change
      [.insert "N" 7, .remove "n", .insert "total" 3, .insert "N" 2] empty).2
    Equivalence (fun a b : Nat => (a == b) = true) ∧ t.SameBindings (· == ·) u ∧
      u.agrees (· == ·) t = true := by
  intro t u
  have hsame : Equivalence fun a b : Nat => (a == b) = true :=
    ⟨beq_self_eq_true, fun h => by simp_all, fun h h' => by simp_all⟩
  have hagrees : t.agrees (· == ·) u = true := by decide
  obtain ⟨-, hiff, hequivalence⟩ := agrees_iff_same hsame
    [.insert "Total" 1, .insert "n" 2, .insert "TOTAL" 3]
    [.insert "N" 7, .remove "n", .insert "total" 3, .insert "N" 2]
  exact ⟨hsame, hiff.mp hagrees, hequivalence.symm hagrees⟩

end Table

end Reckon
