import Reckon.Source.Literal
import Reckon.Token

/-!
From a source text to its tokens.

A region of the source is read lexeme by lexeme. Parentheses and the branches of conditionals are
regions of their own, strictly inside the region that holds them, and are read down to a limit of
nesting. Reading never fails: what fits nowhere becomes an undefined token or is dropped, with a
diagnostic. Operators that may not stand beside the one before them are dropped as they come.
-/

namespace Reckon

/-- Characters between tokens. -/
def isGap (c : Char) : Bool := c == ' ' || c == '\t'

/-- What one step of reading found, and where reading goes on. -/
inductive Lexeme where
  | token (t : Token) (pos : Nat) (rest : List Char)
  | dropped (pos : Nat) (rest : List Char)
  | last
deriving Repr

namespace Lexeme

/-- What is left to read. -/
def rest : Lexeme → List Char
  | token _ _ rest => rest
  | dropped _ rest => rest
  | last => []

end Lexeme

/-- A reader for a region inside the one being read: whether it holds arguments, where it starts, and
its text. -/
abbrev RegionReader := Bool → Nat → List Char → Reported (List Token)

/-- The text between parentheses, where it starts and ends, and what follows. -/
structure Parenthesized where
  start : Nat
  interior : List Char
  stop : Nat
  rest : List Char
deriving Repr

/-- The text after a parenthesis at `pos`. A missing closing one is reported. -/
def readParenthesized (pos : Nat) (cs : List Char) : Reported Parenthesized :=
  let e := enclosed .outside 0 cs
  let interiorStop := pos + 1 + width e.interior
  match e.rest? with
  | some rest => pure ⟨pos + 1, e.interior, interiorStop + 1, rest⟩
  | none => do
    reportAt pos interiorStop
      (if e.ending.inString then .unterminatedStringInParentheses else .missingParenthesis)
    pure ⟨pos + 1, e.interior, interiorStop, []⟩

/-- What a branch leaves open, if anything. -/
def BranchText.openPart? (b : BranchText) : Option Cause :=
  if b.ending.inString then some .unevenQuotes
  else if b.depth ≠ 0 then some .unevenParentheses
  else none

/-- The tokens of a branch; an empty one gives zero. -/
def readBranch (nested : RegionReader) (branch : Branch) (start : Nat) (text : List Char) :
    Reported (List Token) :=
  if text.all isGap then do
    reportAt start (start + width text) (.emptyBranch branch)
    pure [.number 0.0]
  else nested false start text

/-- The conditional after a question mark at `pos`. The false branch ends at the next blank. -/
def readConditional (nested : RegionReader) (pos : Nat) (cs : List Char) : Reported Lexeme := do
  let trueStart := pos + 1 + (cs.takeWhile isGap).length
  let whenTrue := branchText ':' .outside 0 (cs.dropWhile isGap)
  let trueStop := trueStart + width whenTrue.text
  let afterTrue := if whenTrue.terminated then trueStop + 1 else trueStop
  reportAt? pos afterTrue
    (if whenTrue.terminated then none else some (whenTrue.openPart?.getD .missingColon))
  let falseStart := afterTrue + (whenTrue.rest.takeWhile isGap).length
  let whenFalse := branchText ' ' .outside 0 (whenTrue.rest.dropWhile isGap)
  let falseStop := falseStart + width whenFalse.text
  let afterFalse := if whenFalse.terminated then falseStop + 1 else falseStop
  reportAt? pos afterFalse (if whenFalse.terminated then none else whenFalse.openPart?)
  let trueTokens ← readBranch nested .whenTrue trueStart whenTrue.text
  let falseTokens ← readBranch nested .whenFalse falseStart whenFalse.text
  pure (.token (.conditional trueTokens falseTokens) afterFalse whenFalse.rest)

/-- A word operator, a call, or a name by itself. -/
def readNamed (nested : RegionReader) (pos : Nat) (cs : List Char) : Reported Lexeme := do
  let (word, rest) := readWord cs
  let stop := pos + width word
  match Operator.ofWord? word, rest with
  | some op, _ => pure (.token (.operator op) stop rest)
  | none, '(' :: inside => do
    let p ← readParenthesized stop inside
    let arguments ← nested true p.start p.interior
    pure (.token (.call (String.ofList word) arguments) p.stop p.rest)
  | none, _ => pure (.token (.name (String.ofList word)) stop rest)

/-- A number. -/
def readNumeral (pos : Nat) (cs : List Char) : Lexeme :=
  let (whole, fraction, rest) := readDigits cs
  let stop := pos + whole.length + if fraction.isEmpty then 0 else fraction.length + 1
  .token (.number (Numeral.toFloat ⟨false, whole, fraction, 0⟩)) stop rest

/-- The lexeme that begins with `c` at `pos`. -/
def readLexeme (nested : RegionReader) (inArguments : Bool) (pos : Nat) (c : Char)
    (cs : List Char) : Reported Lexeme :=
  if isNameStart c then readNamed nested pos (c :: cs)
  else if c.isDigit || (c == '.' && startsWithDigit cs) then pure (readNumeral pos (c :: cs))
  else if isQuote c then do
    let literal ← readString c pos (pos + 1) cs
    pure (.token (.text (String.ofList literal.value)) literal.stop literal.rest)
  else match Operator.ofSymbol? (c :: cs) with
    | some (op, size) =>
      let rest := (c :: cs).drop size
      if op = .comma ∧ !inArguments then do
        reportAt pos (pos + size) .strayComma
        pure (.dropped (pos + size) rest)
      else pure (.token (.operator op) (pos + size) rest)
    | none =>
      if c = '(' then do
        let p ← readParenthesized pos cs
        let inner ← nested false p.start p.interior
        pure (.token (.group inner) p.stop p.rest)
      else if c = '?' then readConditional nested pos cs
      else if inArguments then do
        reportAt pos (pos + width (c :: cs)) (.charEndsArguments c)
        pure .last
      else do
        reportAt pos (pos + c.utf8Size) (.charIgnored c)
        pure (.token .undefined (pos + c.utf8Size) cs)

/-- Adds a token to those before it, the last of them first. -/
def addToken (before : List Token) (t : Token) (start stop : Nat) : Reported (List Token) :=
  match t, before with
  | .operator op, .operator previous :: older =>
    match previous, op with
    | .not, .not => pure (.operator .notNot :: older)
    | .notNot, .not => do
      reportAt start stop .thirdNot
      pure before
    | .not, .sub => do
      reportAt start stop .subAfterNot
      pure before
    | .sub, .not => do
      reportAt start stop .notAfterSub
      pure before
    | .sub, .sub => pure older
    | _, _ =>
      if op.isSign then pure (t :: before)
      else do
        reportAt start stop (.operatorAfterOperator op previous)
        pure before
  | _, _ => pure (t :: before)

theorem length_rest_readParenthesized_le (pos : Nat) (cs : List Char) :
    (readParenthesized pos cs).result.rest.length ≤ cs.length := by
  have h := @length_rest_enclosed_le .outside 0 cs
  unfold readParenthesized
  simp only
  split
  · rename_i rest hr
    simpa [hr] using h
  · simp

theorem length_rest_readConditional_le (nested : RegionReader) (pos : Nat) (cs : List Char) :
    (readConditional nested pos cs).result.rest.length ≤ cs.length := by
  simp only [readConditional, Reported.result_bind, Reported.result_pure, Lexeme.rest]
  refine Nat.le_trans length_rest_branchText_le ?_
  refine Nat.le_trans ((List.dropWhile_suffix _).length_le) ?_
  refine Nat.le_trans length_rest_branchText_le ?_
  exact (List.dropWhile_suffix _).length_le

theorem length_rest_readWord_le {c : Char} {cs : List Char} (h : isNameStart c = true) :
    (readWord (c :: cs)).2.length ≤ cs.length := by
  have hc : isNameChar c = true := by
    simp only [isNameStart, isNameChar, Char.isAlphanum, Bool.or_eq_true] at h ⊢
    rcases h with h | h
    · exact .inl (.inl h)
    · exact .inr h
  have hd : ((c :: cs).dropWhile isNameChar).length ≤ cs.length := by
    rw [List.dropWhile_cons_of_pos hc]
    exact (List.dropWhile_suffix _).length_le
  unfold readWord
  simp only
  split
  · rename_i d more hm
    rw [hm] at hd
    split
    · have := (List.dropWhile_suffix (l := d :: more) isNameChar).length_le
      simp only [List.length_cons] at hd this ⊢
      omega
    · simpa [hm] using hd
  · exact hd

theorem length_rest_readDigits_lt {c : Char} {cs : List Char}
    (h : (c.isDigit || (c == '.' && startsWithDigit cs)) = true) :
    (readDigits (c :: cs)).2.2.length ≤ cs.length := by
  unfold readDigits
  simp only
  by_cases hc : c.isDigit = true
  · rw [List.dropWhile_cons_of_pos hc]
    have hd := (List.dropWhile_suffix (l := cs) Char.isDigit).length_le
    split
    · rename_i rest hr
      rw [hr] at hd
      split
      · have := (List.dropWhile_suffix (l := rest) Char.isDigit).length_le
        simp only [List.length_cons] at hd
        simp only
        omega
      · exact hd
    · exact hd
  · simp only [hc, Bool.false_or, Bool.and_eq_true, beq_iff_eq] at h
    obtain ⟨rfl, hs⟩ := h
    rw [List.dropWhile_cons_of_neg hc]
    simp only [hs, if_true]
    exact (List.dropWhile_suffix _).length_le

theorem ofSymbol?_size_pos {cs : List Char} {op : Operator} {n : Nat}
    (h : Operator.ofSymbol? cs = some (op, n)) : 0 < n := by
  unfold Operator.ofSymbol? at h
  split at h <;> simp_all <;> omega

/-- Every lexeme takes at least one character. -/
theorem length_rest_readLexeme_le (nested : RegionReader) (inArguments : Bool) (pos : Nat) (c : Char)
    (cs : List Char) :
    (readLexeme nested inArguments pos c cs).result.rest.length ≤ cs.length := by
  unfold readLexeme
  split
  · rename_i h
    have hw := @length_rest_readWord_le c cs h
    unfold readNamed
    simp only
    split
    · exact hw
    · rename_i hr
      have hp := length_rest_readParenthesized_le
        (pos + width (readWord (c :: cs)).1) ‹List Char›
      rw [hr] at hw
      simp only [List.length_cons] at hw
      simp only [Reported.result_bind, Reported.result_pure, Lexeme.rest]
      omega
    · exact hw
  · split
    · rename_i h
      exact length_rest_readDigits_lt h
    · split
      · simp only [Reported.result_bind, Reported.result_pure, Lexeme.rest]
        exact length_rest_readString_le _ _ _ _
      · split
        · rename_i op size h
          have := ofSymbol?_size_pos h
          split <;> simp [Lexeme.rest] <;> omega
        · split
          · simp only [Reported.result_bind, Reported.result_pure, Lexeme.rest]
            exact length_rest_readParenthesized_le _ _
          · split
            · exact length_rest_readConditional_le _ _ _
            · split <;> simp [Lexeme.rest]

/-- What follows a lexeme is shorter than the text it was read from. -/
theorem length_rest_lt_of_readLexeme {nested : RegionReader} {inArguments : Bool} {pos : Nat}
    {c : Char} {cs rest : List Char} {lexeme : Lexeme} (h : cs.dropWhile isGap = c :: rest)
    (hl : (readLexeme nested inArguments pos c rest).result = lexeme) :
    lexeme.rest.length < cs.length := by
  have hr := length_rest_readLexeme_le nested inArguments pos c rest
  have hd := (List.dropWhile_suffix (l := cs) isGap).length_le
  rw [h, List.length_cons] at hd
  rw [hl] at hr
  omega

/-- The tokens of a region from `pos` on, given those before in reverse. -/
def readRegion (nested : RegionReader) (inArguments : Bool) (before : List Token) (pos : Nat)
    (cs : List Char) : Reported (List Token) :=
  match h : cs.dropWhile isGap with
  | [] => pure before.reverse
  | c :: rest =>
    let start := pos + (cs.takeWhile isGap).length
    let lexeme := readLexeme nested inArguments start c rest
    match hl : lexeme.result with
    | .token t stop more => do
      have := length_rest_lt_of_readLexeme h hl
      Reported.mk () lexeme.diagnostics
      let before ← addToken before t start stop
      readRegion nested inArguments before stop more
    | .dropped stop more => do
      have := length_rest_lt_of_readLexeme h hl
      Reported.mk () lexeme.diagnostics
      readRegion nested inArguments before stop more
    | .last => do
      Reported.mk () lexeme.diagnostics
      pure before.reverse
termination_by cs.length

/-- The tokens of a region with `levels` more levels of nesting, the region itself included. -/
def readNested (limit : Nat) : Nat → RegionReader
  | 0, _, pos, cs => do
    reportAt pos (pos + width cs) (.nestingIgnored limit)
    pure []
  | levels + 1, inArguments, pos, cs =>
    readRegion (readNested limit levels) inArguments [] pos cs

/-- The tokens of a source text. -/
def tokenize (limit : Nat) (source : String) : Reported (List Token) :=
  readNested limit (limit + 1) false 0 source.toList

/-- The tokens of a source text that is an argument list. -/
def tokenizeArguments (limit : Nat) (source : String) : Reported (List Token) :=
  readNested limit (limit + 1) true 0 source.toList

end Reckon
