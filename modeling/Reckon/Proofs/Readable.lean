import Reckon.Proofs.ClosedText
import Reckon.Proofs.NameReading
import Reckon.Reduction

/-!
Sequences that a source can spell.

Commas belong to arguments and undefined tokens do not. Names are names and no operators, numbers have
no sign, and an operator follows another one only where reading keeps both. The true branch of a
conditional is no qualified name by itself, since its end would be found too early.
-/

namespace Reckon

/-- Whether the second operator is kept right after the first. -/
def Operator.Precedes (p op : Operator) : Prop :=
  (op.isSign ∧ ¬p.isSign) ∨ (p = .notNot ∧ op = .sub)

/-- Whether the second token is kept right after the first. -/
def Token.Precedes : Token → Token → Prop
  | .operator p, .operator op => p.Precedes op
  | _, _ => True

/-- A name that is read as one, not as an operator. -/
def IsReference (s : String) : Prop := IsName s.toList ∧ Operator.ofWord? s.toList = none

/-- Whether a token begins with a name of two parts. -/
def Token.IsQualified : Token → Prop
  | .name s | .call s _ => ':' ∈ s.toList
  | _ => False

/-- Whether a qualified name is the only token. -/
def SoleQualified : List Token → Prop
  | [t] => t.IsQualified
  | _ => False

mutual

/-- Whether a token can be spelled, inside arguments or not. -/
def Token.Readable : Bool → Token → Prop
  | inArguments, .undefined => inArguments = false
  | _, .number n => Unsigned n
  | _, .text _ => True
  | inArguments, .operator op => op = .comma → inArguments = true
  | _, .name s => IsReference s
  | _, .call s arguments => IsReference s ∧ AllReadable true arguments
  | _, .group inner => AllReadable false inner
  | _, .conditional whenTrue whenFalse =>
    AllReadable false whenTrue ∧ ¬SoleQualified whenTrue ∧ AllReadable false whenFalse

/-- Whether a sequence can be spelled, as arguments or not. -/
def AllReadable : Bool → List Token → Prop
  | _, [] => True
  | inArguments, t :: rest =>
    t.Readable inArguments ∧ (∀ next ∈ rest.head?, t.Precedes next) ∧ AllReadable inArguments rest

end

theorem AllReadable.readable {inArguments : Bool} {ts : List Token}
    (h : AllReadable inArguments ts) :
    ∀ t ∈ ts, t.Readable inArguments := by
  induction ts with
  | nil =>
    intro t ht
    cases ht
  | cons u rest ih =>
    simp only [AllReadable] at h
    intro t ht
    rcases List.mem_cons.mp ht with rfl | ht
    · exact h.1
    · exact ih h.2.2 t ht

theorem not_qualified_foldName {s : String} (h : IsName s.toList) (hs : ':' ∉ s.toList) :
    ':' ∉ (foldName s).toList := by
  rw [toList_foldName h, List.mem_map]
  rintro ⟨c, hc, hcolon⟩
  rcases h.mem hc with hc' | rfl
  · have := isNameChar_toLower hc'
    rw [hcolon] at this
    exact absurd this (by decide)
  · exact hs hc

theorem ne_of_isNameChar {c : Char} (h : isNameChar c) :
    isQuote c = false ∧ c ≠ '(' ∧ c ≠ ')' ∧ c ≠ ' ' ∧ c ≠ ':' ∧ c ≠ ',' := by
  refine ⟨?_, ?_, ?_, ?_, ?_, ?_⟩
  · cases hq : isQuote c with
    | false => rfl
    | true =>
      simp only [isQuote, Bool.or_eq_true, beq_iff_eq] at hq
      rcases hq with rfl | rfl <;> exact absurd h (by decide)
  all_goals
    rintro rfl
    exact absurd h (by decide)

theorem isNameChar_of_isDigit {c : Char} (h : c.isDigit) : isNameChar c := by
  simp only [isNameChar, Char.isAlphanum, Bool.or_eq_true]
  exact .inl (.inr h)

section
variable {p : Char → Prop} (hp : ∀ c, c ≠ ' ' → c ≠ ':' → c ≠ ',' → p c)
include hp

theorem closed_of_chars {w : List Char} (h : ∀ c ∈ w, isQuote c = false ∧ c ≠ '(' ∧ c ≠ ')' ∧
    c ≠ ' ' ∧ (c = ':' ∨ c = ',' → p c)) : Closed p w := by
  refine Closed.of_forall fun c hc => ?_
  obtain ⟨hq, hopen, hclose, hblank, hmark⟩ := h c hc
  refine ⟨hq, hopen, hclose, ?_⟩
  by_cases hc : c = ':' ∨ c = ','
  · exact hmark hc
  · exact hp c hblank (fun h => hc (.inl h)) (fun h => hc (.inr h))

theorem closed_foldName {s : String} (h : IsName s.toList) (hcolon : ':' ∈ s.toList → p ':') :
    Closed p (foldName s).toList := by
  refine closed_of_chars hp fun c hc => ?_
  rcases (isName_foldName h).mem hc with hc' | rfl
  · obtain ⟨hq, hopen, hclose, hblank, hne, hcomma⟩ := ne_of_isNameChar hc'
    exact ⟨hq, hopen, hclose, hblank, fun h => (h.elim hne hcomma).elim⟩
  · refine ⟨rfl, by decide, by decide, by decide, fun _ => hcolon ?_⟩
    exact Decidable.byContradiction fun hs => not_qualified_foldName h hs hc

theorem closed_numberText {x : Float} (hx : Unsigned x) : Closed p (numberText x) := by
  refine closed_of_chars hp fun d hd => ?_
  by_cases hf : x.isFinite
  · obtain ⟨c, cs, htext, hc, hcs⟩ := numberText_eq_cons hx hf
    rw [htext] at hd
    have hdigit : d.isDigit ∨ d = '.' := (List.mem_cons.mp hd).elim (fun h => h ▸ .inl hc) (hcs d)
    rcases hdigit with hdigit | rfl
    · obtain ⟨hq, hopen, hclose, hblank, hne, hcomma⟩ :=
        ne_of_isNameChar (isNameChar_of_isDigit hdigit)
      exact ⟨hq, hopen, hclose, hblank, fun h => (h.elim hne hcomma).elim⟩
    · exact ⟨rfl, by decide, by decide, by decide, fun h => absurd h (by decide)⟩
  · rw [numberText_infinite hx hf] at hd
    simp only [List.mem_cons, List.not_mem_nil, or_false] at hd
    rcases hd with rfl | rfl | rfl <;>
      exact ⟨rfl, by decide, by decide, by decide, fun h => absurd h (by decide)⟩

theorem closed_symbol (op : Operator) (hcomma : op = .comma → p ',') :
    Closed p op.symbol.toList := by
  have hall : (op.symbol.toList.all fun c => decide (isQuote c = false ∧ c ≠ '(' ∧ c ≠ ')' ∧ c ≠ ' ' ∧
      c ≠ ':' ∧ (c = ',' → op = .comma))) = true := by
    cases op <;> decide
  refine closed_of_chars hp fun c hc => ?_
  obtain ⟨hq, hopen, hclose, hblank, hne, hop⟩ := of_decide_eq_true (List.all_eq_true.mp hall c hc)
  refine ⟨hq, hopen, hclose, hblank, fun h => ?_⟩
  rcases h with h | rfl
  · exact absurd h hne
  · exact hcomma (hop rfl)

end

theorem closed_branchChars {w : List Char} (h : Closed (fun _ => True) w) (count : Nat) :
    Closed (fun _ => True) (branchChars count w) := by
  unfold branchChars
  split
  · exact h.blank trivial
  · have := Closed.parentheses (p := fun _ => True) (h.padded trivial)
    simpa using this.blank trivial

mutual

/-- Outside literals and parentheses, a token other than a conditional has no blank, a colon only in
its own name, and a comma only if it is one. -/
theorem closed_tokenChars {p : Char → Prop} (hp : ∀ c, c ≠ ' ' → c ≠ ':' → c ≠ ',' → p c) :
    (t : Token) → {inArguments : Bool} → t.Readable inArguments →
      (isConditional t → ∀ c, p c) → (t.IsQualified → p ':') → (t.isOperator .comma → p ',') →
      Closed p (tokenChars t)
  | .undefined, _, _, _, _, _ =>
    closed_of_chars hp fun c hc => by
      simp only [tokenChars, undefinedMark, List.mem_singleton] at hc
      rw [hc]
      exact ⟨rfl, by decide, by decide, by decide, fun h => absurd h (by decide)⟩
  | .number n, _, h, _, _, _ => by
    simp only [Token.Readable] at h
    exact closed_numberText hp h
  | .text s, _, _, _, _, _ => .quotedChars s.toList
  | .operator op, _, _, _, _, hcomma => closed_symbol hp op fun hop => hcomma (by simp [hop, Token.isOperator])
  | .name s, _, h, _, hcolon, _ => by
    simp only [Token.Readable] at h
    exact closed_foldName hp h.1 hcolon
  | .call s arguments, _, h, _, hcolon, _ => by
    simp only [Token.Readable] at h
    have harguments := closed_sequenceChars arguments false h.2
    rw [tokenChars, List.append_assoc]
    exact (closed_foldName hp h.1.1 hcolon).append (.parentheses harguments)
  | .group inner, _, h, _, _, _ => by
    simp only [Token.Readable] at h
    have hinner := closed_sequenceChars inner false h
    have := Closed.parentheses (p := p) (hinner.padded trivial)
    simpa [tokenChars] using this
  | .conditional whenTrue whenFalse, _, h, hall, _, _ => by
    simp only [Token.Readable] at h
    obtain ⟨htrue, -, hfalse⟩ := h
    have htrue := closed_branchChars (closed_sequenceChars whenTrue false htrue) whenTrue.length
    have hfalse := closed_branchChars (closed_sequenceChars whenFalse false hfalse) whenFalse.length
    have hmark (c : Char) (hc : c = '?' ∨ c = ':') {w : List Char} (hw : Closed (fun _ => True) w) :
        Closed (fun _ => True) (c :: w) := by
      rcases hc with rfl | rfl <;> exact .char rfl (by decide) (by decide) trivial hw
    have hclosed := hmark '?' (.inl rfl) (htrue.append ((hmark ':' (.inr rfl) hfalse).blank trivial))
    exact hclosed.mono fun c _ => hall rfl c

theorem closed_sequenceChars :
    (ts : List Token) → (written : Bool) → {inArguments : Bool} → AllReadable inArguments ts →
      Closed (fun _ => True) (sequenceChars written ts)
  | [], _, _, _ => .nil
  | t :: rest, written, _, h => by
    simp only [AllReadable] at h
    have ht := @closed_tokenChars (fun _ => True) (fun _ _ _ _ => trivial) t _ h.1
      (fun _ _ => trivial) (fun _ => trivial) (fun _ => trivial)
    have hrest := fun written => closed_sequenceChars rest written h.2.2
    have hgap : Closed (fun _ => True)
        (if written && !t.isOperator .comma then [' '] else []) := by
      split
      · exact Closed.nil.blank trivial
      · exact .nil
    exact (hgap.append ht).append (hrest _)

end

end Reckon
