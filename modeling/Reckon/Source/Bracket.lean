import Reckon.Source.Quotation

/-!
Cutting a text at the parenthesis that closes it, or at the character that ends a branch. Characters
in string literals do not count.
-/

namespace Reckon

/-- The number of bytes of a text. -/
def width : List Char → Nat
  | [] => 0
  | c :: rest => c.utf8Size + width rest

/-- What stands between two parentheses. `rest?` is missing where the closing one is, and then
`ending` tells whether a literal was left open. -/
structure Enclosed where
  interior : List Char
  rest? : Option (List Char)
  ending : Quotation
deriving Repr, DecidableEq

/-- Cuts at the closing parenthesis, `depth` others being open inside. -/
def enclosed (q : Quotation) (depth : Nat) : List Char → Enclosed
  | [] => ⟨[], none, q⟩
  | c :: cs =>
    if q.isPlain c && c == ')' && depth == 0 then ⟨[], some cs, q⟩
    else
      let depth' :=
        if !q.isPlain c then depth
        else if c = '(' then depth + 1
        else if c = ')' then depth - 1
        else depth
      let e := enclosed (q.feed c) depth' cs
      { e with interior := c :: e.interior }

/-- One branch of a conditional. If nothing ended it, `ending` and `depth` tell what is still open at
the end of the text. -/
structure BranchText where
  text : List Char
  rest : List Char
  terminated : Bool
  ending : Quotation
  depth : Int
deriving Repr, DecidableEq

/-- Cuts at the first `stop` outside literals and parentheses. -/
def branchText (stop : Char) (q : Quotation) (depth : Int) : List Char → BranchText
  | [] => ⟨[], [], false, q, depth⟩
  | c :: cs =>
    if q.isPlain c && c != '(' && c != ')' && c == stop && depth == 0 then
      ⟨[], cs, true, .outside, depth⟩
    else
      let depth' :=
        if !q.isPlain c then depth
        else if c = '(' then depth + 1
        else if c = ')' then depth - 1
        else depth
      let b := branchText stop (q.feed c) depth' cs
      { b with text := c :: b.text }

theorem enclosed_interior_rest {q : Quotation} {depth : Nat} {cs rest : List Char}
    (h : (enclosed q depth cs).rest? = some rest) :
    (enclosed q depth cs).interior ++ ')' :: rest = cs := by
  induction cs generalizing q depth with
  | nil => simp [enclosed] at h
  | cons c cs ih =>
    by_cases hc : (q.isPlain c && c == ')' && depth == 0) = true
    · have hp : c = ')' := by simp_all
      simp only [enclosed, if_pos hc, Option.some.injEq] at h ⊢
      rw [h, hp, List.nil_append]
    · simp only [enclosed, if_neg hc] at h ⊢
      simpa using ih h

theorem length_rest_enclosed_le {q : Quotation} {depth : Nat} {cs : List Char} :
    ((enclosed q depth cs).rest?.getD []).length ≤ cs.length := by
  cases h : (enclosed q depth cs).rest? with
  | none => simp
  | some rest =>
    have := congrArg List.length (enclosed_interior_rest h)
    simp at this
    simp
    omega

theorem length_rest_branchText_le {stop : Char} {q : Quotation} {depth : Int} {cs : List Char} :
    (branchText stop q depth cs).rest.length ≤ cs.length := by
  induction cs generalizing q depth with
  | nil => simp [branchText]
  | cons c cs ih =>
    simp only [branchText]
    split
    · simp
    · simp only [List.length_cons]
      exact Nat.le_succ_of_le ih

end Reckon
