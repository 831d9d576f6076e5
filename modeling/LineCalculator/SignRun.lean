import LineCalculator.Failure

/-!
# Folding runs of signs

Signs may pile up in a line: two minus signs make a plus, equal signs stand for one, and a plus
beside a minus leaves a minus. Each of these is one pass from left to right over the whole text, so
a long mixed run may keep several signs: `+-+` only becomes `-+`. A doubled `*` or `/` has no
reading at all.
-/

namespace LineCalculator

def hasRepeatedProduct : Text → Bool
  | first :: second :: rest =>
    (first == second && (first == '*' || first == '/')) || hasRepeatedProduct (second :: rest)
  | _ => false

/-- Puts one plus for every block of minus pairs; `inBlock` tells that the block's plus is written. -/
def foldMinusPairs (inBlock : Bool) : Text → Text
  | '-' :: '-' :: rest =>
    if inBlock then foldMinusPairs true rest else '+' :: foldMinusPairs true rest
  | c :: rest => c :: foldMinusPairs false rest
  | [] => []

/-- Writes each block of plus signs as one. -/
def collapsePluses : Text → Text
  | '+' :: '+' :: rest => collapsePluses ('+' :: rest)
  | c :: rest => c :: collapsePluses rest
  | [] => []

/-- Puts a minus for each plus beside a minus, the leftmost pair first. -/
def mergeMixedSigns : Text → Text
  | '+' :: '-' :: rest => '-' :: mergeMixedSigns rest
  | '-' :: '+' :: rest => '-' :: mergeMixedSigns rest
  | c :: rest => c :: mergeMixedSigns rest
  | [] => []

/-- The three passes. After the first one no two minus signs touch and doubled products are refused, so only a plus can still be repeated. -/
def rewriteSigns (text : Text) : Text :=
  mergeMixedSigns (collapsePluses (foldMinusPairs false text))

/-- The text with its sign runs folded and its ends trimmed. -/
def foldSigns (text : Text) : Except Failure Text :=
  if hasRepeatedProduct text then throw .invalidExpression else return trim (rewriteSigns text)

theorem foldSigns_eq_ok_iff {text folded : Text} :
    foldSigns text = .ok folded ↔ hasRepeatedProduct text = false ∧ folded = trim (rewriteSigns text) := by
  rw [foldSigns]
  split
  next h => simp [h, throw, throwThe, MonadExceptOf.throw]
  next h => simp [h, pure, Except.pure, eq_comm]

theorem foldSigns_eq_error {text : Text} {failure : Failure} (h : foldSigns text = .error failure) :
    failure = .invalidExpression := by
  rw [foldSigns] at h
  split at h <;> cases h
  rfl

end LineCalculator
