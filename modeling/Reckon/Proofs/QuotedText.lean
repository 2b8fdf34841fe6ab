import Reckon.Proofs.BracketReading

/-!
Texts in quotes.

A text is quoted character by character, and each of them is read back by itself: none of what stands for
a character depends on what comes after it. Only a null character is lost. Its escape stands for nothing,
and is reported.
-/

namespace Reckon

theorem causes_nullReports (pos : Nat) (cs : List Char) :
    (nullReports pos cs).map Diagnostic.cause =
      List.replicate (cs.count '\x00') .nullCharacter := by
  induction cs generalizing pos with
  | nil => rfl
  | cons c cs ih =>
    rw [nullReports]
    by_cases hc : c = '\x00'
    · rw [if_pos hc, List.map_cons, ih, hc, List.count_cons_self, List.replicate_succ]
    · rw [if_neg hc, ih, List.count_cons_of_ne hc]

theorem nullReports_eq_nil {cs : List Char} (h : '\x00' ∉ cs) (pos : Nat) :
    nullReports pos cs = [] := by
  have := causes_nullReports pos cs
  rwa [List.count_eq_zero.mpr h, List.replicate_zero, List.map_eq_nil_iff] at this

/-- A quoted text is read as one token, the text without its null characters. Each of these is reported
once, where its escape stands, and nothing else is; so a text without them is read back as it is. -/
theorem tokenize_quote (limit : Nat) (s : String) :
    tokenize limit (quote s) =
      ⟨[.text (String.ofList (s.toList.filter (· ≠ '\x00')))], nullReports 1 s.toList⟩ ∧
    (nullReports 1 s.toList).map Diagnostic.cause =
      List.replicate (s.toList.count '\x00') .nullCharacter ∧
    ('\x00' ∉ s.toList → tokenize limit (quote s) = pure [.text s]) := by
  have hread : tokenize limit (quote s) =
      ⟨[.text (String.ofList (s.toList.filter (· ≠ '\x00')))], nullReports 1 s.toList⟩ := by
    have hlexeme : readLexeme (readNested limit limit) false 0 '\''
        (s.toList.flatMap quotedChar ++ ['\'']) =
          (.token · (0 + 1 + width (s.toList.flatMap quotedChar) + 1) []) <$>
            ⟨.text (String.ofList (s.toList.filter (· ≠ '\x00'))), nullReports 1 s.toList⟩ := by
      have hliteral (cs : List Char) : readLexeme (readNested limit limit) false 0 '\'' cs = (do
          let literal ← readString '\'' 0 (0 + 1) cs
          pure (.token (.text (String.ofList literal.value)) literal.stop literal.rest)) := rfl
      rw [hliteral, readString_quotedChars]
      rfl
    rw [tokenize, readNested, quote, String.toList_ofList, quotedChars, List.cons_append,
      readRegion_lone rfl hlexeme]
    exact Reported.ext' rfl (List.append_nil _)
  refine ⟨hread, causes_nullReports 1 s.toList, fun hs => ?_⟩
  have hfilter : s.toList.filter (· ≠ '\x00') = s.toList := by
    rw [List.filter_eq_self]
    intro c hc
    rw [decide_eq_true_iff]
    rintro rfl
    exact hs hc
  rw [hread, nullReports_eq_nil hs, hfilter, String.ofList_toList]
  rfl

/-- The digits after an escape are not taken for digits of it. -/
example : quote "\x07f\n0\x00'1\\" = "'\\x07f\\n0\\x00\\'1\\\\'" ∧
    nullReports 1 "\x07f\n0\x00'1\\".toList = [⟨.nullCharacter, some ⟨9, 13⟩⟩] := by
  decide

end Reckon
