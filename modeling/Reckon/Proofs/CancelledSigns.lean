import Reckon.Proofs.AssignmentRuns
import Reckon.Proofs.FloatSigns
import Reckon.Proofs.HigherLimit
import Reckon.Proofs.SequenceOutcome

/-!
Two minus signs in a row.

Reading drops both, and leaves the operands around them side by side: evaluation then joins the two as
it joins any operands without an operator between them. A minus in parentheses is carried out instead,
and what it makes of its operand is a number. The two come to the same for numbers, and otherwise only
where an operand is joined to nothing.
-/

namespace Reckon

/-! The values of source texts. -/

/-- The value of a source text. -/
def Formula.valueOf (limit : Nat) (scope : Scope) (source : String) : Value :=
  ((read limit source).evaluate scope).1.value

/-- A source text that is read as the tokens of a sequence has the value of the sequence. -/
theorem Formula.valueOf_of_tokens {low limit : Nat} (hle : low ≤ limit) {scope : Scope}
    {source : String} {s : Sequence}
    (hread : ∀ d ∈ (tokenize low source).diagnostics, d.cause ≠ .nestingIgnored low)
    (htokens : (read low source).tokens = s.tokens) (hnesting : sequenceNesting s.tokens < low)
    (hanswered : AllEvery (Token.Answered scope) false s.tokens) :
    valueOf limit scope source = (s.value scope).toValue := by
  have hsame : (read limit source).tokens = s.tokens := by
    rw [← htokens, read, read, tokenize_of_le hle hread]
  have hvalue : valueOf limit scope source =
      (evaluateTokens limit scope (read limit source).tokens).result.1.toValue := rfl
  rw [hvalue, hsame, evaluateTokens_of_answered (by omega) hanswered]

/-! Variables as operands. -/

namespace Value

/-- The operand that a variable with the value stands for. -/
def operand (v : Value) : Token := if v.isNull then .text "" else .ofValue v

theorem toNumber_operand (v : Value) : v.operand.toNumber = v.toNumber := by
  cases v <;> rfl

/-- Whether two values side by side come to their sum: both are numbers, or one is a number and the
other is empty. The negative zero and an empty value do not, for their sum has no sign. -/
def JoinsAsSum : Value → Value → Prop
  | .number _, .number _ => True
  | .number n, other | other, .number n => other.isEmpty ∧ n ≠ -0.0
  | _, _ => False

theorem eq_add_zero (n : Float) : number n = number (n + 0.0) ↔ n ≠ -0.0 := by
  rw [number.injEq, eq_comm, add_zero_eq_self]

theorem number_beside_text (n : Float) (s : String) :
    (mergeAdjacent (.number n) (.text s)).result.toValue = number (n + textNumber s) ↔
      s.isEmpty ∧ n ≠ -0.0 := by
  by_cases hs : s = ""
  · subst hs
    exact (eq_add_zero n).trans (and_iff_right rfl).symm
  · simp [mergeAdjacent, hs, Token.toValue]

theorem text_beside_number (s : String) (n : Float) :
    (mergeAdjacent (.text s) (.number n)).result.toValue = number (textNumber s + n) ↔
      s.isEmpty ∧ n ≠ -0.0 := by
  by_cases hs : s = ""
  · subst hs
    have hsum : textNumber "" + n = n + 0.0 := zero_add_double n
    rw [hsum]
    exact (eq_add_zero n).trans (and_iff_right rfl).symm
  · simp [mergeAdjacent, hs, Token.toValue]

theorem operand_beside_operand (a b : Value) :
    (mergeAdjacent a.operand b.operand).result.toValue = number (a.toNumber + b.toNumber) ↔
      a.JoinsAsSum b := by
  cases a with
  | number m =>
    cases b with
    | number n => exact iff_of_true rfl trivial
    | null => exact number_beside_text m ""
    | text s => exact number_beside_text m s
  | null =>
    cases b with
    | number n => exact text_beside_number "" n
    | null | text s => exact iff_of_false nofun id
  | text s =>
    cases b with
    | number n => exact text_beside_number s n
    | null | text s => exact iff_of_false nofun id

theorem operand_eq_number (v : Value) :
    v.operand.toValue = number v.toNumber ↔ ∃ n, v = number n := by
  cases v with
  | number n => exact iff_of_true rfl ⟨n, rfl⟩
  | null | text s => exact iff_of_false nofun nofun

end Value

theorem lookup_of_get? {store : Table Value} {name : String} {v : Value}
    (h : store.get? name = some v) : (lookup store name).result = v.operand := by
  unfold lookup
  rw [h]
  cases v <;> rfl

open Formula

section Variables

variable {limit : Nat} {scope : Scope} {a b : Value}

variable (hlimit : 2 ≤ limit) (hx : scope.store.get? "x" = some a)
  (hy : scope.store.get? "y" = some b)

include hlimit hy

theorem valueOf_cancelled : valueOf limit scope "- - y" = b.operand.toValue := by
  rw [← lookup_of_get? hy]
  exact valueOf_of_tokens hlimit (s := .mk (.minus 0) (.name "y") .nil) (by decide +kernel)
    (by decide +kernel) (by decide) ⟨trivial, trivial⟩

/-- The negation of a negation in parentheses makes a number of the operand. -/
theorem valueOf_negated_group : valueOf limit scope "-(-y)" = .number b.toNumber := by
  have hnegated : valueOf limit scope "-(-y)" =
      (negate (negate (lookup scope.store "y").result)).toValue :=
    valueOf_of_tokens hlimit
      (s := .mk (.minus 1) (.group (.mk (.minus 1) (.name "y") .nil)) .nil) (by decide +kernel)
      (by decide +kernel) (by decide) ⟨trivial, ⟨trivial, trivial, trivial, trivial⟩, trivial⟩
  rw [hnegated, lookup_of_get? hy, ← Value.toNumber_operand]
  exact congrArg Value.number (neg_neg_double b.operand.toNumber)

include hx

theorem valueOf_cancelled_between :
    valueOf limit scope "x - - y" = (mergeAdjacent a.operand b.operand).result.toValue := by
  rw [← lookup_of_get? hx, ← lookup_of_get? hy]
  exact valueOf_of_tokens hlimit (s := .mk (.minus 0) (.name "x") (.adjacent (.name "y") .nil))
    (by decide +kernel) (by decide +kernel) (by decide) ⟨trivial, trivial, trivial⟩

/-- The minus of a negation in parentheses adds the operand. -/
theorem valueOf_minus_group :
    valueOf limit scope "x - (-y)" = .number (a.toNumber + b.toNumber) := by
  have hdifference : valueOf limit scope "x - (-y)" =
      .number ((lookup scope.store "x").result.toNumber -
        -(lookup scope.store "y").result.toNumber) :=
    valueOf_of_tokens hlimit
      (s := .mk (.minus 0) (.name "x") (.binary .sub rfl (.minus 0)
        (.group (.mk (.minus 1) (.name "y") .nil)) .nil))
      (by decide +kernel) (by decide +kernel) (by decide)
      ⟨trivial, trivial, ⟨trivial, trivial, trivial, trivial⟩, trivial⟩
  rw [hdifference, lookup_of_get? hx, lookup_of_get? hy, ← Value.toNumber_operand,
    ← Value.toNumber_operand, sub_neg_double]

/-- Dropping two minus signs in a row comes to the same as carrying out a minus in parentheses where it
stands between values that join as their sum, or before a number, and nowhere else. -/
theorem valueOf_cancelled_signs_iff :
    (valueOf limit scope "x - - y" = valueOf limit scope "x - (-y)" ↔ a.JoinsAsSum b) ∧
      (valueOf limit scope "- - y" = valueOf limit scope "-(-y)" ↔ ∃ n, b = .number n) := by
  rw [valueOf_cancelled_between hlimit hx hy, valueOf_minus_group hlimit hx hy,
    valueOf_cancelled hlimit hy, valueOf_negated_group hlimit hy]
  exact ⟨Value.operand_beside_operand a b, Value.operand_eq_number b⟩

end Variables

/-- Null joins a number as zero does, and is the empty text by itself. -/
theorem valueOf_cancelled_signs_null :
    let scope : Scope := ⟨.empty, .ofList [("x", .number 3), ("y", .null)]⟩
    valueOf defaultLimit scope "x - - y" = valueOf defaultLimit scope "x - (-y)" ∧
      valueOf defaultLimit scope "- - y" ≠ valueOf defaultLimit scope "-(-y)" := by
  intro scope
  have h := @valueOf_cancelled_signs_iff defaultLimit scope (.number 3) .null (by decide)
    (by decide +kernel) (by decide +kernel)
  exact ⟨h.1.mpr ⟨rfl, by decide⟩, mt h.2.mp nofun⟩

/-- Texts are joined to one where their difference would be a number. -/
theorem not_valueOf_cancelled_signs_texts :
    let scope : Scope := ⟨.empty, .ofList [("x", .text "a"), ("y", .text "b")]⟩
    valueOf defaultLimit scope "x - - y" = .text "ab" ∧
      valueOf defaultLimit scope "x - (-y)" = .number 0 ∧
      valueOf defaultLimit scope "x - - y" ≠ valueOf defaultLimit scope "x - (-y)" ∧
      valueOf defaultLimit scope "- - y" ≠ valueOf defaultLimit scope "-(-y)" := by
  decide +kernel

end Reckon
