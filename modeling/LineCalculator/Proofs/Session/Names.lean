import LineCalculator.Proofs.Session.Outcome

/-!
# A line depends on the variables that it names

The store is read in one place only, where an identifier is looked up, and only words of letters get
that far. So stores that agree on such words among the tokens of a line give the line one outcome,
and then one change. Two lines of which neither names what the other assigns may change places.
-/

namespace LineCalculator

/-- The text of a line that is cut into tokens: what stands behind its first equals sign, or all
of it. -/
def lexedText (text : Text) : Text :=
  match text.dropWhile (· != '=') with
  | _ :: right => right
  | [] => text

/-- The name that a line assigns, if it assigns. -/
def lineTarget (text : Text) : Text :=
  trim (text.takeWhile (· != '='))

/-- The identifiers of letters among tokens. -/
def variablesOf (tokens : List Token) : List Text :=
  (tokens.filter fun token => token.kind == .identifier && isVariableName token.content).map
    Token.content

def textVariables (lexing : Lexing) (text : Text) : List Text :=
  match tokenize lexing text with
  | .ok tokens => variablesOf tokens
  | .error _ => []

def lineVariables (lexing : Lexing) (text : Text) : List Text :=
  textVariables lexing (lexedText text)

theorem lexedText_of_not_mem {text : Text} (h : '=' ∉ text) : lexedText text = text := by
  have hnone : text.dropWhile (· != '=') = [] :=
    dropWhile_eq_nil_of_forall (bne_of_not_mem h)
  rw [lexedText, hnone]

theorem lexedText_append {left : Text} (h : '=' ∉ left) (right : Text) :
    lexedText (left ++ '=' :: right) = right := by
  have hright : ∀ c ∈ ('=' :: right).head?, (c != '=') = false := by simp
  rw [lexedText, dropWhile_append_of_head? (bne_of_not_mem h) hright]

theorem lineTarget_append {left : Text} (h : '=' ∉ left) (right : Text) :
    lineTarget (left ++ '=' :: right) = trim left := by
  have hright : ∀ c ∈ ('=' :: right).head?, (c != '=') = false := by simp
  rw [lineTarget, takeWhile_append_of_head? (bne_of_not_mem h) hright]

/-! ### Stores that agree -/

variable {lexing : Lexing} {left right : Store} {text : Text}

theorem Item.ofToken_congr {token : Token}
    (h : token.kind = .identifier → isVariableName token.content = true →
      left.get? token.content = right.get? token.content) :
    ofToken left token = ofToken right token := by
  unfold ofToken
  split
  · rfl
  · next hkind =>
    unfold ofIdentifier Operand.ofName
    cases hname : isVariableName token.content with
    | false => rfl
    | true => rw [h hkind hname]
  all_goals rfl

theorem Item.ofTokens_congr {tokens : List Token}
    (h : ∀ name ∈ variablesOf tokens, left.get? name = right.get? name) :
    ofTokens left tokens = ofTokens right tokens := by
  induction tokens with
  | nil => rfl
  | cons token tokens ih =>
    have htoken : ofToken left token = ofToken right token := by
      refine ofToken_congr fun hkind hname => h _ ?_
      exact List.mem_map.2 ⟨token, List.mem_filter.2 ⟨List.mem_cons_self, by simp [hkind, hname]⟩, rfl⟩
    have htokens : ofTokens left tokens = ofTokens right tokens := by
      refine ih fun name hmem => h name ?_
      obtain ⟨found, hfound, rfl⟩ := List.mem_map.1 hmem
      obtain ⟨hin, hvariable⟩ := List.mem_filter.1 hfound
      exact List.mem_map.2 ⟨found, List.mem_filter.2 ⟨List.mem_cons_of_mem token hin, hvariable⟩, rfl⟩
    rw [ofTokens, ofTokens] at htokens
    rw [ofTokens, ofTokens, List.mapM_cons, List.mapM_cons, htoken, htokens]

theorem evaluateExpression_congr
    (h : ∀ name ∈ textVariables lexing text, left.get? name = right.get? name) :
    evaluateExpression lexing left text = evaluateExpression lexing right text := by
  rw [evaluateExpression, evaluateExpression]
  rw [textVariables] at h
  cases htokens : tokenize lexing text with
  | error failure => rfl
  | ok tokens =>
    rw [htokens] at h
    simp only [bind, Except.bind, Item.ofTokens_congr h]

theorem assignedNumber_congr
    (h : ∀ name ∈ textVariables lexing text, left.get? name = right.get? name) :
    assignedNumber lexing left text = assignedNumber lexing right text := by
  rw [assignedNumber, assignedNumber, evaluateExpression_congr h]

theorem lineOutcome_congr
    (h : ∀ name ∈ lineVariables lexing text, left.get? name = right.get? name) :
    lineOutcome lexing left text = lineOutcome lexing right text := by
  by_cases hequals : '=' ∈ text
  · cases hread : Line.read lexing text with
    | error failure => rw [lineOutcome, lineOutcome, hread]; rfl
    | ok line =>
      obtain ⟨before, behind, rfl, hbefore⟩ := List.eq_append_cons_of_mem hequals
      have hassigns := hread
      rw [Line.read_append lexing hbefore] at hassigns
      obtain ⟨-, -, hne, value, hvalue, rfl⟩ := Line.readAssignment_eq_ok hassigns
      have hfixed := Line.fixedValue_of_readValue hne hvalue
      rw [lineVariables, lexedText_append hbefore, textVariables, ← hfixed.tokens] at h
      rw [lineOutcome_of_read hread, lineOutcome_of_read hread, Line.outcome, Line.outcome,
        assignedNumber_congr h]
  · rw [lineVariables, lexedText_of_not_mem hequals] at h
    rw [lineOutcome_of_not_mem lexing left hequals, lineOutcome_of_not_mem lexing right hequals,
      evaluateExpression_congr h]

/-! ### What a line changes -/

variable {store : Store}

theorem name_of_lineOutcome {name : Text} {value : Float}
    (h : lineOutcome lexing store text = .ok (.binding name value)) : name = lineTarget text := by
  obtain ⟨line, hread, houtcome⟩ := bind_eq_ok_iff.1 h
  cases line with
  | expression tokens =>
    obtain ⟨other, hother⟩ := exists_value_of_outcome_expression houtcome
    cases hother
  | assignment target assigned =>
    obtain ⟨before, behind, rfl, hbefore, -, rfl, -⟩ := Line.read_eq_assignment hread
    obtain ⟨number, -, hnumber⟩ := bind_eq_ok_iff.1 houtcome
    cases hnumber
    exact (lineTarget_append hbefore behind).symm

theorem get?_settle_of_ne {other : Text} (h : lineTarget text ≠ other) :
    (store.settle (lineOutcome lexing store text)).get? other = store.get? other := by
  cases houtcome : lineOutcome lexing store text with
  | error failure => rfl
  | ok evaluation =>
    cases evaluation with
    | value value => rfl
    | binding name value =>
      obtain rfl := name_of_lineOutcome houtcome
      rw [Store.settle, Store.get?_assign, if_neg h]

theorem Store.assign_comm {name other : Text} (h : name ≠ other) (store : Store)
    (value second : Float) :
    (store.assign name value).assign other second = (store.assign other second).assign name value := by
  ext found
  rw [get?_assign, get?_assign, get?_assign, get?_assign]
  by_cases hname : name = found
  · rw [if_pos hname, if_neg fun hother => h (hname.trans hother.symm), if_pos hname]
  · rw [if_neg hname, if_neg hname]

/-- Outcomes that bind different names may be settled in either order. -/
theorem Store.settle_comm {first second : Except Failure Evaluation}
    (h : ∀ name other value number, first = .ok (.binding name value) →
      second = .ok (.binding other number) → name ≠ other) (store : Store) :
    (store.settle first).settle second = (store.settle second).settle first := by
  match first, second, h with
  | .error _, _, _ => rfl
  | .ok (.value _), _, _ => rfl
  | .ok (.binding _ _), .error _, _ => rfl
  | .ok (.binding _ _), .ok (.value _), _ => rfl
  | .ok (.binding name value), .ok (.binding other number), h =>
    exact assign_comm (h name other value number rfl rfl) store value number

/-! ### What a line depends on -/

/-- Two steps with one outcome and one change of the stores before them: none, or the same name
set to the same value. -/
structure Step.Parallel (left right : Store) (step other : Step) : Prop where
  outcome : step.outcome = other.outcome
  change : (step.store = left ∧ other.store = right) ∨
    ∃ name value, step.store = left.assign name value ∧ other.store = right.assign name value

/-- Two lines that may be run in either order, with the same outcomes and the same store at the end. -/
structure Commute (store : Store) (first second : Lexing × Text) : Prop where
  outcomes : (runSession store [second, first]).map Step.outcome =
    ((runSession store [first, second]).map Step.outcome).reverse
  store : storeAfter store [second, first] = storeAfter store [first, second]

theorem Step.parallel_ofLine
    (h : ∀ name ∈ lineVariables lexing text, left.get? name = right.get? name) :
    Parallel left right (ofLine lexing text left) (ofLine lexing text right) := by
  rw [ofLine_eq, ofLine_eq, lineOutcome_congr h]
  refine ⟨rfl, ?_⟩
  cases lineOutcome lexing right text with
  | error failure => exact .inl ⟨rfl, rfl⟩
  | ok evaluation =>
    cases evaluation with
    | value value => exact .inl ⟨rfl, rfl⟩
    | binding name value => exact .inr ⟨name, value, rfl, rfl⟩

/-- A line comes to the same after another that does not assign a variable of it. -/
theorem lineOutcome_settle {other : Text} {otherLexing : Lexing}
    (h : lineTarget other ∉ lineVariables lexing text) :
    lineOutcome lexing (store.settle (lineOutcome otherLexing store other)) text =
      lineOutcome lexing store text := by
  refine lineOutcome_congr fun name hmem => get?_settle_of_ne ?_
  rintro rfl
  exact h hmem

theorem commute_of_lineVariables {first second : Lexing × Text}
    (htargets : lineTarget first.2 ≠ lineTarget second.2)
    (hfirst : lineTarget second.2 ∉ lineVariables first.1 first.2)
    (hsecond : lineTarget first.2 ∉ lineVariables second.1 second.2) (store : Store) :
    Commute store first second := by
  have houtcomes : ∀ one other : Lexing × Text, lineTarget one.2 ∉ lineVariables other.1 other.2 →
      (runSession store [one, other]).map Step.outcome =
        [lineOutcome one.1 store one.2, lineOutcome other.1 store other.2] := by
    intro one other hother
    simp only [runSession, Step.ofLine_eq, lineOutcome_settle hother, List.map_cons, List.map_nil]
  have hstores : ∀ one other : Lexing × Text, lineTarget one.2 ∉ lineVariables other.1 other.2 →
      storeAfter store [one, other] =
        (store.settle (lineOutcome one.1 store one.2)).settle (lineOutcome other.1 store other.2) := by
    intro one other hother
    simp only [storeAfter, Step.ofLine_eq, lineOutcome_settle hother]
  refine ⟨?_, ?_⟩
  · rw [houtcomes second first hfirst, houtcomes first second hsecond]
    rfl
  · rw [hstores second first hfirst, hstores first second hsecond]
    refine Store.settle_comm (fun name other value number hname hother => ?_) store
    rw [name_of_lineOutcome hname, name_of_lineOutcome hother]
    exact htargets.symm

/-- A line depends on the variables that it names only, so lines that do not name each other's
targets commute. -/
theorem depends_on_lineVariables :
    (∀ lexing text (left right : Store),
      (∀ name ∈ lineVariables lexing text, left.get? name = right.get? name) →
      Step.Parallel left right (Step.ofLine lexing text left) (Step.ofLine lexing text right)) ∧
    ∀ (first second : Lexing × Text) (store : Store),
      lineTarget first.2 ≠ lineTarget second.2 →
      lineTarget second.2 ∉ lineVariables first.1 first.2 →
      lineTarget first.2 ∉ lineVariables second.1 second.2 → Commute store first second :=
  ⟨fun _ _ _ _ => Step.parallel_ofLine, fun _ _ store htargets hfirst hsecond =>
    commute_of_lineVariables htargets hfirst hsecond store⟩

theorem depends_on_lineVariables_product :
    Step.Parallel (Store.ofList [(['b'], 2)]) (Store.ofList [(['b'], 2), (['z'], 3)])
        (Step.ofLine .strict "a = b*b".toList (Store.ofList [(['b'], 2)]))
        (Step.ofLine .strict "a = b*b".toList (Store.ofList [(['b'], 2), (['z'], 3)])) ∧
      Commute (Store.ofList [(['b'], 2)]) (.strict, "a = b*b".toList) (.permissive, "c = b--c".toList) := by
  have hfirst : lineVariables .strict "a = b*b".toList = [['b'], ['b']] := by decide +kernel
  have hsecond : lineVariables .permissive "c = b--c".toList = [['b'], ['c']] := by decide +kernel
  have hleft : lineTarget "a = b*b".toList = ['a'] := by decide
  have hright : lineTarget "c = b--c".toList = ['c'] := by decide
  constructor
  · refine depends_on_lineVariables.1 _ _ _ _ fun name hmem => ?_
    rw [hfirst] at hmem
    obtain rfl : name = ['b'] := by simpa using hmem
    simp [Store.ofList, Store.get?_assign]
  · refine depends_on_lineVariables.2 _ _ _ ?_ ?_ ?_
    · rw [hleft, hright]
      decide
    · rw [hfirst, hright]
      decide
    · rw [hsecond, hleft]
      decide

end LineCalculator
