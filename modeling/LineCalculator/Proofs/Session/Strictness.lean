import LineCalculator.Proofs.Session.Outcome
import LineCalculator.Proofs.SignRun.Runs
import LineCalculator.Proofs.Token.Gaps

/-!
# Strict sessions

Strict lexing has one effect: a line may fail because of text that belongs to no token. Every stage
of a line keeps this, from the lexer to the outcome, whichever of its texts is lexed. Such a failure
leaves the store as it was, so a strict session is the permissive session on the lines that it does
not refuse.
-/

namespace LineCalculator

/-! ### Strict beside permissive -/

/-- The permissive result refuses no text, and the strict one is the same unless it refuses some. -/
structure Narrows {α : Type} (strict permissive : Except Failure α) : Prop where
  accepts : ∀ skipped, permissive ≠ .error (.invalidToken skipped)
  agrees : strict = permissive ∨ ∃ skipped, strict = .error (.invalidToken skipped)

section

variable {α β : Type} {strict permissive : Except Failure α}

theorem Narrows.same {result : Except Failure α}
    (h : ∀ skipped, result ≠ .error (.invalidToken skipped)) : Narrows result result :=
  ⟨h, .inl rfl⟩

theorem Narrows.value (value : α) : Narrows (pure value : Except Failure α) (pure value) :=
  .same fun _ hrefused => by cases hrefused

theorem Narrows.invalidExpression {result : Except Failure α}
    (h : ∀ failure, result = .error failure → failure = .invalidExpression) :
    Narrows result result :=
  .same fun skipped hrefused => by cases h _ hrefused

theorem Narrows.bind {strictNext permissiveNext : α → Except Failure β}
    (h : Narrows strict permissive)
    (hnext : ∀ value, Narrows (strictNext value) (permissiveNext value)) :
    Narrows (strict >>= strictNext) (permissive >>= permissiveNext) := by
  refine ⟨fun skipped hrefused => ?_, ?_⟩
  · rcases bind_eq_error_iff.1 hrefused with hfirst | ⟨value, -, hsecond⟩
    · exact h.accepts skipped hfirst
    · exact (hnext value).accepts skipped hsecond
  · rcases h.agrees with hsame | ⟨skipped, hrefused⟩
    · subst hsame
      cases strict with
      | error failure => exact .inl rfl
      | ok value => exact (hnext value).agrees
    · subst hrefused
      exact .inr ⟨skipped, rfl⟩

end

/-! ### Stage by stage -/

variable {store : Store} {text : Text}

theorem narrows_lex (text : Text) : Narrows (lex .strict text) (lex .permissive text) := by
  obtain ⟨gaps, tokens, hparted⟩ := exists_parted text
  rw [hparted.lex_strict, hparted.lex_permissive]
  cases unlexed? gaps with
  | none => exact .value tokens
  | some skipped => exact ⟨(Narrows.value tokens).accepts, .inr ⟨skipped, rfl⟩⟩

theorem narrows_tokenize (text : Text) :
    Narrows (tokenize .strict text) (tokenize .permissive text) :=
  (Narrows.invalidExpression fun _ => foldSigns_eq_error).bind narrows_lex

theorem Line.narrows_readValue (value : Text) :
    Narrows (readValue .strict value) (readValue .permissive value) := by
  unfold readValue
  split
  · exact (narrows_tokenize value).bind fun tokens => .value (joinTokens tokens)
  · exact .value value

theorem Line.narrows_readAssignment (left right : Text) :
    Narrows (readAssignment .strict left right) (readAssignment .permissive left right) := by
  unfold readAssignment
  split
  · exact .same fun _ hrefused => by cases hrefused
  · split
    · exact .same fun _ hrefused => by cases hrefused
    · split
      · exact .same fun _ hrefused => by cases hrefused
      · exact (narrows_readValue (trim right)).bind fun value =>
          .value (Line.assignment (trim left) value)

theorem Line.narrows_read (text : Text) : Narrows (read .strict text) (read .permissive text) := by
  unfold read
  split
  · exact narrows_readAssignment _ _
  · exact (narrows_tokenize text).bind fun tokens => .value (Line.expression tokens)

theorem Item.ofToken_ne_invalidToken (store : Store) (token : Token) (skipped : Text) :
    ofToken store token ≠ .error (.invalidToken skipped) := by
  rcases ofToken_cases store token with ⟨item, hitem, -⟩ | hfailed | hfailed | hfailed
  · simp [hitem]
  all_goals simp [hfailed]

theorem Item.ofTokens_ne_invalidToken (store : Store) (tokens : List Token) (skipped : Text) :
    ofTokens store tokens ≠ .error (.invalidToken skipped) := by
  induction tokens with
  | nil => exact (Narrows.value []).accepts skipped
  | cons token tokens ih =>
    intro hrefused
    rw [ofTokens, List.mapM_cons] at hrefused
    rcases bind_eq_error_iff.1 hrefused with htoken | ⟨item, -, hrest⟩
    · exact ofToken_ne_invalidToken store token skipped htoken
    · rcases bind_eq_error_iff.1 hrest with htokens | ⟨items, -, hdone⟩
      · exact ih htokens
      · cases hdone

/-- What tokens evaluate to does not lex any more. -/
theorem narrows_evaluateTokens (store : Store) (tokens : List Token) :
    Narrows (Item.ofTokens store tokens >>= evaluateItems)
      (Item.ofTokens store tokens >>= evaluateItems) :=
  (Narrows.same (Item.ofTokens_ne_invalidToken store tokens)).bind fun _ =>
    .invalidExpression fun _ => evaluateItems_eq_error

theorem narrows_evaluateExpression (store : Store) (text : Text) :
    Narrows (evaluateExpression .strict store text) (evaluateExpression .permissive store text) :=
  (narrows_tokenize text).bind (narrows_evaluateTokens store)

theorem narrows_assignedNumber (store : Store) (text : Text) :
    Narrows (assignedNumber .strict store text) (assignedNumber .permissive store text) := by
  unfold assignedNumber
  split
  · exact .value _
  · exact (narrows_evaluateExpression store text).bind fun evaluation => .value evaluation.number

theorem Line.narrows_outcome (store : Store) (line : Line) :
    Narrows (line.outcome .strict store) (line.outcome .permissive store) := by
  cases line with
  | assignment name value =>
    exact (narrows_assignedNumber store value).bind fun number => .value (Evaluation.binding name number)
  | expression tokens => exact narrows_evaluateTokens store tokens

theorem narrows_lineOutcome (store : Store) (text : Text) :
    Narrows (lineOutcome .strict store text) (lineOutcome .permissive store text) :=
  (Line.narrows_read text).bind (Line.narrows_outcome store)

/-! ### Steps -/

/-- The text that a step was refused for. -/
def Step.refusal? (step : Step) : Option Text :=
  match step.outcome with
  | .error (.invalidToken skipped) => some skipped
  | _ => none

theorem Step.refusal?_eq_some_iff {step : Step} {skipped : Text} :
    step.refusal? = some skipped ↔ step.outcome = .error (.invalidToken skipped) := by
  unfold refusal?
  split <;> simp_all

theorem Step.refusal?_ofLine_permissive (text : Text) (store : Store) :
    (ofLine .permissive text store).refusal? = none := by
  rw [Option.eq_none_iff_forall_ne_some]
  intro skipped hrefused
  rw [refusal?_eq_some_iff, ofLine_eq] at hrefused
  exact (narrows_lineOutcome store text).accepts skipped hrefused

/-- A strict step is refused and changes nothing, or it is the permissive step. -/
theorem Step.ofLine_strict (text : Text) (store : Store) :
    (∃ skipped, (ofLine .strict text store).refusal? = some skipped ∧
      (ofLine .strict text store).store = store) ∨
    ofLine .strict text store = ofLine .permissive text store := by
  rcases (narrows_lineOutcome store text).agrees with hsame | ⟨skipped, hrefused⟩
  · refine .inr ?_
    rw [ofLine_eq, hsame, ← ofLine_eq]
  · refine .inl ⟨skipped, refusal?_eq_some_iff.2 ?_, ?_⟩
    · rw [ofLine_eq, hrefused]
    · rw [ofLine_eq, hrefused]
      rfl

/-! ### Sessions -/

/-- Lines that are all read in one way. -/
def linesUnder (lexing : Lexing) (texts : List Text) : List (Lexing × Text) :=
  texts.map fun text => (lexing, text)

/-- The lines that a strict session does not refuse. -/
def acceptedLines (store : Store) (texts : List Text) : List Text :=
  ((texts.zip (runSession store (linesUnder .strict texts))).filter fun entry =>
    entry.2.refusal?.isNone).map Prod.fst

theorem acceptedLines_cons (store : Store) (text : Text) (texts : List Text) :
    acceptedLines store (text :: texts) =
      if (Step.ofLine .strict text store).refusal?.isNone then
        text :: acceptedLines (Step.ofLine .strict text store).store texts
      else acceptedLines (Step.ofLine .strict text store).store texts := by
  rw [acceptedLines, linesUnder, List.map_cons, runSession_cons, List.zip_cons_cons, List.filter_cons]
  split <;> rfl

/-- The permissive session on the accepted lines takes the strict session's steps but the refused
ones, and ends with the same store. -/
theorem runSession_acceptedLines (store : Store) (texts : List Text) :
    runSession store (linesUnder .permissive (acceptedLines store texts)) =
        (runSession store (linesUnder .strict texts)).filter (fun step => step.refusal?.isNone) ∧
      storeAfter store (linesUnder .permissive (acceptedLines store texts)) =
        storeAfter store (linesUnder .strict texts) := by
  induction texts generalizing store with
  | nil => exact ⟨rfl, rfl⟩
  | cons text texts ih =>
    rw [acceptedLines_cons, linesUnder, linesUnder, List.map_cons, runSession_cons, storeAfter,
      List.filter_cons]
    rcases Step.ofLine_strict text store with ⟨skipped, hrefused, hstore⟩ | hsame
    · simp only [hrefused, hstore, Option.isNone_some, Bool.false_eq_true, if_false]
      exact ih store
    · obtain ⟨hsteps, hafter⟩ := ih (Step.ofLine .permissive text store).store
      simp only [hsame, Step.refusal?_ofLine_permissive, Option.isNone_none, if_true, List.map_cons,
        runSession_cons, storeAfter]
      exact ⟨congrArg _ hsteps, hafter⟩

theorem storeAfter_of_refused {store : Store} {texts : List Text} {index : Nat} {step : Step}
    {skipped : Text} (hstep : (runSession store (linesUnder .strict texts))[index]? = some step)
    (hrefused : step.refusal? = some skipped) :
    step.store = storeAfter store ((linesUnder .strict texts).take index) := by
  induction texts generalizing store index with
  | nil => cases hstep
  | cons text texts ih =>
    rw [linesUnder, List.map_cons, runSession_cons] at hstep
    cases index with
    | zero =>
      obtain rfl : Step.ofLine .strict text store = step := Option.some.inj hstep
      rcases Step.ofLine_strict text store with ⟨other, -, hstore⟩ | hsame
      · exact hstore
      · rw [hsame, Step.refusal?_ofLine_permissive] at hrefused
        cases hrefused
    | succ index => exact ih hstep

theorem refusal?_of_mem_permissive {store : Store} {texts : List Text} {step : Step}
    (hmem : step ∈ runSession store (linesUnder .permissive texts)) : step.refusal? = none := by
  induction texts generalizing store with
  | nil => cases hmem
  | cons text texts ih =>
    rw [linesUnder, List.map_cons, runSession_cons, List.mem_cons] at hmem
    rcases hmem with rfl | hmem
    · exact Step.refusal?_ofLine_permissive text store
    · exact ih hmem

/-! ### What a line is refused for -/

theorem foldSigns_eq_ok (htimes : ¬ ['*', '*'] <:+: text) (hover : ¬ ['/', '/'] <:+: text) :
    foldSigns text = .ok (trim (rewriteSigns text)) := by
  refine foldSigns_eq_ok_iff.2 ⟨?_, rfl⟩
  rw [Bool.eq_false_iff, ne_eq, hasRepeatedProduct_iff]
  exact not_or.2 ⟨htimes, hover⟩

theorem lineOutcome_strict_eq_invalidToken_iff (hequals : '=' ∉ text) {folded : Text}
    (hfolded : foldSigns text = .ok folded) {gaps : List Text} {tokens : List Token}
    (hparted : Parted gaps tokens folded) (store : Store) {skipped : Text} :
    lineOutcome .strict store text = .error (.invalidToken skipped) ↔
      unlexed? gaps = some skipped := by
  rw [lineOutcome_of_not_mem .strict store hequals, evaluateExpression, bind_eq_error_iff, tokenize,
    hfolded, ← hparted.lex_strict_eq_invalidToken_iff]
  refine ⟨fun hrefused => ?_, .inl⟩
  rcases hrefused with hlex | ⟨found, -, hevaluate⟩
  · exact hlex
  · exact absurd hevaluate ((narrows_evaluateTokens store found).accepts skipped)

/-- Text that lexing skips was in the line before its signs were folded. -/
theorem isInfix_of_unlexed? {folded skipped : Text} (hfolded : foldSigns text = .ok folded)
    {gaps : List Text} {tokens : List Token} (hparted : Parted gaps tokens folded)
    (hskipped : unlexed? gaps = some skipped) :
    skipped <:+: text ∧ ∀ c ∈ skipped, startsToken c = false := by
  obtain ⟨hwithin, hnone⟩ := hparted.of_unlexed? hskipped
  have hsignless : ∀ c ∈ skipped, isSign c = false := by
    intro c hc
    rw [not_isSign_iff]
    constructor <;> rintro rfl <;> exact absurd (hnone _ hc) (by decide)
  obtain ⟨-, rfl⟩ := foldSigns_eq_ok_iff.1 hfolded
  exact ⟨isInfix_of_rewriteSigns hsignless (hwithin.trans (trim_isInfix _)), hnone⟩

/-! ### Strict lexing only removes lines -/

/-- What strict lexing does to a session. -/
structure RemovesLines (store : Store) (texts : List Text) : Prop where
  /-- The other lines take the same steps in a permissive session, which ends with the same store. -/
  accepted : runSession store (linesUnder .permissive (acceptedLines store texts)) =
        (runSession store (linesUnder .strict texts)).filter (fun step => step.refusal?.isNone) ∧
      storeAfter store (linesUnder .permissive (acceptedLines store texts)) =
        storeAfter store (linesUnder .strict texts)
  /-- A line that is refused changes nothing. -/
  refused : ∀ index step skipped,
    (runSession store (linesUnder .strict texts))[index]? = some step →
    step.refusal? = some skipped →
    step.store = storeAfter store ((linesUnder .strict texts).take index)
  /-- A permissive session refuses nothing. -/
  permissive : ∀ step ∈ runSession store (linesUnder .permissive texts), step.refusal? = none

/-- What a line without an equals sign is refused for. -/
structure RefusedFor (text folded : Text) : Prop where
  parted : ∃ gaps tokens, Parted gaps tokens folded
  /-- It is what the leftmost gap with more than blanks in it holds. -/
  leftmost : ∀ gaps tokens, Parted gaps tokens folded → ∀ store skipped,
    (evaluateLine .strict text).run store = .error (.invalidToken skipped) store ↔
      unlexed? gaps = some skipped
  /-- It stands in the line and holds no character of a token. -/
  unlexed : ∀ gaps tokens skipped, Parted gaps tokens folded → unlexed? gaps = some skipped →
    skipped <:+: text ∧ ∀ c ∈ skipped, startsToken c = false

theorem strict_removesLines :
    (∀ store texts, RemovesLines store texts) ∧
      ∀ text : Text, '=' ∉ text → ¬ ['*', '*'] <:+: text → ¬ ['/', '/'] <:+: text →
        ∃ folded, foldSigns text = .ok folded ∧ RefusedFor text folded := by
  refine ⟨fun store texts => ⟨runSession_acceptedLines store texts, ?_, ?_⟩, ?_⟩
  · exact fun _ _ _ => storeAfter_of_refused
  · exact fun _ => refusal?_of_mem_permissive
  · intro text hequals htimes hover
    have hfolded := foldSigns_eq_ok htimes hover
    refine ⟨_, hfolded, exists_parted _, fun gaps tokens hparted store skipped => ?_, ?_⟩
    · rw [← lineOutcome_strict_eq_invalidToken_iff hequals hfolded hparted store,
        lineOutcome_of_not_mem .strict store hequals, run_evaluateLine_of_not_mem .strict store hequals]
      cases evaluateExpression .strict store text <;> simp [resultAt]
    · exact fun gaps tokens skipped => isInfix_of_unlexed? hfolded

theorem run_evaluateLine_strict_unlexed :
    (evaluateLine .strict "1 +- # 2".toList).run ∅ = .error (.invalidToken ['#']) ∅ := by
  have hequals : '=' ∉ "1 +- # 2".toList := by decide
  have htimes : ¬ ['*', '*'] <:+: "1 +- # 2".toList := by decide
  have hover : ¬ ['/', '/'] <:+: "1 +- # 2".toList := by decide
  obtain ⟨folded, hfolded, hrefused⟩ := strict_removesLines.2 _ hequals htimes hover
  obtain rfl : ['1', ' ', '-', ' ', '#', ' ', '2'] = folded := Except.ok.inj hfolded
  have hone : IsLexeme ⟨['1'], .number⟩ := .number (.whole ⟨by simp, by simp⟩)
  have hminus : IsLexeme ⟨['-'], .operator⟩ := .operator (by decide)
  have htwo : IsLexeme ⟨['2'], .number⟩ := .number (.whole ⟨by simp, by simp⟩)
  have hnone : ∀ c ∈ ([] : Text), startsToken c = false := by simp
  have hspace : ∀ c ∈ [' '], startsToken c = false := List.forall_mem_singleton.2 rfl
  have hhash : ∀ c ∈ [' ', '#', ' '], startsToken c = false := by
    rw [List.forall_mem_cons, List.forall_mem_cons, List.forall_mem_singleton]
    exact ⟨rfl, rfl, rfl⟩
  have hparted : Parted [[], [' '], [' ', '#', ' '], []]
      [⟨['1'], .number⟩, ⟨['-'], .operator⟩, ⟨['2'], .number⟩] ['1', ' ', '-', ' ', '#', ' ', '2'] :=
    .token hnone hone ⟨by simp, by simp⟩ (.token hspace hminus trivial
      (.token hhash htwo ⟨by simp, by simp⟩ (.last hnone)))
  exact (hrefused.leftmost _ _ hparted ∅ ['#']).2 (by decide)

end LineCalculator
