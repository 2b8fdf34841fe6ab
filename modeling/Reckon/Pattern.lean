import Reckon.Pattern.Meaning
import Reckon.Pattern.Reader

/-!
Searching texts for patterns.
-/

namespace Reckon

/-- Whether a part of a text is found by a written pattern; none if that is not a pattern. -/
def findsPattern? (pattern text : String) : Option Bool := do
  let p ← Pattern.read? pattern.toList
  let automaton ← p.automaton?
  some (automaton.finds text.toList)

end Reckon
