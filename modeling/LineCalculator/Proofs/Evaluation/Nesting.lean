import LineCalculator.Proofs.Evaluation.Line
import LineCalculator.Proofs.Number.Forms

/-!
# Evaluations below a line

An assignment may evaluate its right side as a line of its own, and that line may assign again. The
evaluations below a line are counted by a run that keeps a journal of all texts it evaluates, and
comes to the same in all else. A text that has been read as an assignment carries no equals sign on,
so two evaluations are the most there can be, also below a line that was put together by hand. A
commit in between does no harm: once the inner line has a value nothing can fail any more.
-/

namespace LineCalculator

/-! ### Noting what is evaluated -/

/-- The variables, and the texts that were evaluated so far. -/
structure Journal where
  store : Store
  evaluated : List Text

abbrev NotedCalculation := EStateM Failure Journal

instance : MonadStateOf Store NotedCalculation where
  get := return (← getThe Journal).store
  set store := modifyThe Journal fun journal => { journal with store }
  modifyGet change := modifyGet fun journal =>
    let (value, store) := change journal.store
    (value, { journal with store })

def Journal.note (text : Text) : NotedCalculation Unit :=
  modifyThe Journal fun journal => { journal with evaluated := journal.evaluated ++ [text] }

def evaluateLineNoted (lexing : Lexing) (text : Text) : NotedCalculation Evaluation :=
  evaluateLineWith Journal.note lexing text

def Line.toItemsNoted (lexing : Lexing) (line : Line) : NotedCalculation (List Item) :=
  line.toItemsWith Journal.note lexing

/-- A result beside the texts that were evaluated for it. -/
def noting {α : Type} (evaluated : List Text) :
    EStateM.Result Failure Store α → EStateM.Result Failure Journal α
  | .ok value store => .ok value ⟨store, evaluated⟩
  | .error failure store => .error failure ⟨store, evaluated⟩

/-- The noted computation does what the plain one does, from any store, and notes these texts. -/
def Notes {α : Type} (texts : List Text) (noted : NotedCalculation α) (plain : Calculation α) : Prop :=
  ∀ store before, noted.run ⟨store, before⟩ = noting (before ++ texts) (plain.run store)

variable {lexing : Lexing} {store : Store} {text name : Text} {texts nested : List Text} {line : Line}

def evaluatedIn {α : Type} : EStateM.Result Failure Journal α → List Text
  | .ok _ journal | .error _ journal => journal.evaluated

/-- There is one way to note a computation. -/
theorem Notes.evaluatedIn_run {α : Type} {noted : NotedCalculation α} {plain : Calculation α}
    (h : Notes texts noted plain) (store : Store) : evaluatedIn (noted.run ⟨store, []⟩) = texts := by
  rw [h store [], List.nil_append]
  cases plain.run store <;> rfl

theorem notes_pure {α : Type} (value : α) : Notes [] (pure value) (pure value) := by
  intro store before
  rw [List.append_nil]
  rfl

theorem notes_liftExcept {α : Type} (result : Except Failure α) :
    Notes [] (liftExcept result) (liftExcept result) := by
  intro store before
  rw [List.append_nil]
  cases result <;> rfl

theorem Notes.bind {α β : Type} {noted : NotedCalculation α} {plain : Calculation α}
    {next : α → NotedCalculation β} {plainNext : α → Calculation β}
    (h : Notes texts noted plain) (hnext : ∀ value, Notes [] (next value) (plainNext value)) :
    Notes texts (noted >>= next) (plain >>= plainNext) := by
  intro store before
  rw [EStateM.run_bind, EStateM.run_bind, h store before]
  cases plain.run store with
  | error failure after => rfl
  | ok value after =>
    have hrest := hnext value after (before ++ texts)
    rwa [List.append_nil] at hrest

theorem notes_assign (name : Text) (value : Float) : Notes []
    (do
      modify fun store : Store => store.assign name value
      return [.operand (.binding name value)])
    (do
      modify fun store => store.assign name value
      return [Item.operand (.binding name value)]) := by
  intro store before
  rw [List.append_nil]
  rfl

/-! ### What is noted below a line -/

theorem notes_evaluateLine_of_read_eq_error {failure : Failure}
    (h : Line.read lexing text = .error failure) :
    Notes [text] (evaluateLineNoted lexing text) (evaluateLine lexing text) := by
  intro store before
  rw [run_evaluateLine_of_read_eq_error h, evaluateLineNoted, evaluateLineWith_of_read_eq_error h]
  rfl

theorem notes_evaluateLine_of_read_eq_ok (h : Line.read lexing text = .ok line)
    (hnested : Notes nested (line.toItemsNoted lexing) (line.toItems lexing)) :
    Notes (text :: nested) (evaluateLineNoted lexing text) (evaluateLine lexing text) := by
  intro store before
  have hrun := hnested.bind (fun items => notes_liftExcept (evaluateItems items)) store
    (before ++ [text])
  rw [List.append_assoc, List.singleton_append] at hrun
  rw [evaluateLine, evaluateLineNoted, evaluateLineWith_of_read_eq_ok h, evaluateLineWith_of_read_eq_ok h]
  exact hrun

theorem notes_toItems_expression (lexing : Lexing) (tokens : List Token) :
    Notes [] ((Line.expression tokens).toItemsNoted lexing)
      ((Line.expression tokens).toItems lexing) := by
  intro store before
  rw [Line.toItemsNoted, Line.toItems, Line.toItemsWith, Line.toItemsWith]
  exact notes_liftExcept (Item.ofTokens store tokens) store before

/-- A literal is assigned without an evaluation. -/
theorem exists_notes_toItems_assignment (name : Text)
    (h : Notes texts (evaluateLineNoted lexing text) (evaluateLine lexing text)) :
    ∃ nested, (nested = [] ∨ nested = texts) ∧
      Notes nested ((Line.assignment name text).toItemsNoted lexing)
        ((Line.assignment name text).toItems lexing) := by
  have hvalue : ∃ nested, (nested = [] ∨ nested = texts) ∧
      Notes nested (assignedValue text (evaluateLineNoted lexing text))
        (assignedValue text (evaluateLine lexing text)) := by
    unfold assignedValue
    generalize (if hasLetter text then none else Number.read? text) = literal
    cases literal with
    | some value => exact ⟨[], .inl rfl, notes_pure value⟩
    | none => exact ⟨texts, .inr rfl, h.bind fun evaluation => notes_pure evaluation.number⟩
  obtain ⟨nested, hnested, hnotes⟩ := hvalue
  refine ⟨nested, hnested, ?_⟩
  rw [Line.toItemsNoted, Line.toItems, Line.toItemsWith, Line.toItemsWith]
  exact hnotes.bind fun value => notes_assign name value

theorem notes_evaluateLine_of_not_mem (lexing : Lexing) (h : '=' ∉ text) :
    Notes [text] (evaluateLineNoted lexing text) (evaluateLine lexing text) := by
  have hread := Line.read_of_not_mem lexing h
  cases htokens : tokenize lexing text with
  | error failure =>
    rw [htokens] at hread
    exact notes_evaluateLine_of_read_eq_error hread
  | ok tokens =>
    rw [htokens] at hread
    exact notes_evaluateLine_of_read_eq_ok hread (notes_toItems_expression lexing tokens)

theorem exists_notes_toItems_of_not_mem (lexing : Lexing) (name : Text) (h : '=' ∉ text) :
    ∃ nested, (nested = [] ∨ nested = [text]) ∧
      Notes nested ((Line.assignment name text).toItemsNoted lexing)
        ((Line.assignment name text).toItems lexing) :=
  exists_notes_toItems_assignment name (notes_evaluateLine_of_not_mem lexing h)

/-- Below any text at most one more is evaluated, the right side of its equals sign. -/
theorem exists_notes_evaluateLine (lexing : Lexing) (text : Text) :
    ∃ nested : List Text, nested.length ≤ 1 ∧
      Notes (text :: nested) (evaluateLineNoted lexing text) (evaluateLine lexing text) := by
  cases hread : Line.read lexing text with
  | error failure => exact ⟨[], Nat.zero_le 1, notes_evaluateLine_of_read_eq_error hread⟩
  | ok line =>
    cases line with
    | expression tokens =>
      exact ⟨[], Nat.zero_le 1,
        notes_evaluateLine_of_read_eq_ok hread (notes_toItems_expression lexing tokens)⟩
    | assignment name value =>
      obtain ⟨left, right, -, -, -, -, -, hequals⟩ := Line.read_eq_assignment hread
      obtain ⟨nested, hnested, hnotes⟩ := exists_notes_toItems_of_not_mem lexing name hequals
      refine ⟨nested, ?_, notes_evaluateLine_of_read_eq_ok hread hnotes⟩
      rcases hnested with rfl | rfl <;> simp

/-! ### What is committed -/

theorem store_of_resultAt_eq_ok {α : Type} {result : Except Failure α} {value : α} {after : Store}
    (h : resultAt store result = .ok value after) : after = store := by
  cases result with
  | error failure => cases h
  | ok value =>
    cases h
    rfl

theorem store_of_resultAt_eq_error {α : Type} {result : Except Failure α} {failure : Failure}
    {after : Store} (h : resultAt store result = .error failure after) : after = store := by
  cases result with
  | error failure =>
    cases h
    rfl
  | ok value => cases h

/-- The store behind a text that came to a value, which a text that assigns has committed. -/
def Store.behind (store : Store) (lexing : Lexing) (text : Text) (value : Float) : Store :=
  match Line.read lexing text with
  | .ok (.assignment name _) => store.assign name value
  | _ => store

theorem Store.behind_of_not_mem (store : Store) (lexing : Lexing) (h : '=' ∉ text) (value : Float) :
    store.behind lexing text value = store := by
  rw [behind, Line.read_of_not_mem lexing h]
  cases tokenize lexing text <;> rfl

theorem run_evaluateLine_cases (lexing : Lexing) (text : Text) (store : Store) :
    (∃ failure, (evaluateLine lexing text).run store = .error failure store) ∨
      ∃ evaluation, (evaluateLine lexing text).run store =
        .ok evaluation (store.behind lexing text evaluation.number) := by
  unfold Store.behind
  cases hread : Line.read lexing text with
  | error failure => exact .inl ⟨failure, run_evaluateLine_of_read_eq_error hread store⟩
  | ok line =>
    cases line with
    | expression tokens =>
      rw [run_evaluateLine_of_read_eq_ok hread, run_toItems_expression]
      cases Item.ofTokens store tokens with
      | error failure => exact .inl ⟨failure, rfl⟩
      | ok items =>
        simp only [resultAt]
        cases evaluateItems items with
        | error failure => exact .inl ⟨failure, rfl⟩
        | ok evaluation => exact .inr ⟨evaluation, rfl⟩
    | assignment name value =>
      rw [run_evaluateLine_of_read_eq_assignment hread]
      cases assignedNumber lexing store value with
      | error failure => exact .inl ⟨failure, rfl⟩
      | ok number => exact .inr ⟨.binding name number, rfl⟩

theorem equals_not_mem_of_isLiteral (h : IsLiteral text) : '=' ∉ text := by
  have hunsigned : ∀ {text : Text}, IsUnsigned text → '=' ∉ text := fun h hmem => by
    rcases h.isDigit_or_point hmem with hdigit | hpoint
    · cases hdigit
    · cases hpoint
  cases h with
  | unsigned h => exact hunsigned h
  | signed hsign h =>
    intro hmem
    rcases List.mem_cons.1 hmem with rfl | hmem
    · cases hsign
    · exact hunsigned h hmem

theorem run_assignedValue_cases (lexing : Lexing) (text : Text) (store : Store) :
    (∃ failure, (assignedValue text (evaluateLine lexing text)).run store = .error failure store) ∨
      ∃ value, (assignedValue text (evaluateLine lexing text)).run store =
        .ok value (store.behind lexing text value) := by
  unfold assignedValue
  split
  next value hliteral =>
    obtain ⟨hletter, hread⟩ : hasLetter text = false ∧ Number.read? text = some value := by
      simpa using hliteral
    have hequals := equals_not_mem_of_isLiteral (Number.isLiteral_of_read? hletter hread)
    exact .inr ⟨value, by rw [store.behind_of_not_mem lexing hequals]; rfl⟩
  next =>
    rw [EStateM.run_bind]
    rcases run_evaluateLine_cases lexing text store with ⟨failure, hrun⟩ | ⟨evaluation, hrun⟩
    · rw [hrun]
      exact .inl ⟨failure, rfl⟩
    · rw [hrun]
      exact .inr ⟨evaluation.number, rfl⟩

/-! ### Any line -/

/-- How many evaluations there are below a line, and of what. -/
structure Line.NestingBounded (lexing : Lexing) (line : Line) (nested : List Text) : Prop where
  notes : Notes nested (line.toItemsNoted lexing) (line.toItems lexing)
  most : nested.length ≤ 2
  expression : ∀ tokens, line = .expression tokens → nested = []
  single : ∀ name text, line = .assignment name text → '=' ∉ text → nested.length ≤ 1
  /-- Below a line that was read nothing assigns. -/
  read : ∀ reading text, Line.read reading text = .ok line → ∀ other ∈ nested, ∀ name value,
    Line.read lexing other ≠ .ok (.assignment name value)

/-- What a line changes: nothing if it fails or assigns nothing. -/
structure Line.Atomic (lexing : Lexing) (store : Store) (line : Line) : Prop where
  failure : ∀ failure after, (line.toItems lexing).run store = .error failure after → after = store
  expression : ∀ tokens items after, line = .expression tokens →
    (line.toItems lexing).run store = .ok items after → after = store
  assignment : ∀ name text items after, line = .assignment name text →
    (line.toItems lexing).run store = .ok items after →
      ∃ value, items = [.operand (.binding name value)] ∧
        after = (store.behind lexing text value).assign name value

theorem Line.exists_nestingBounded (lexing : Lexing) (line : Line) :
    ∃ nested, line.NestingBounded lexing nested := by
  cases line with
  | expression tokens =>
    refine ⟨[], notes_toItems_expression lexing tokens, Nat.zero_le 2, fun _ _ => rfl, ?_, ?_⟩
    · rintro name text ⟨⟩
    · exact fun reading text hread => List.forall_mem_nil _
  | assignment name text =>
    by_cases hequals : '=' ∈ text
    · obtain ⟨below, hbelow, hevaluate⟩ := exists_notes_evaluateLine lexing text
      obtain ⟨nested, hnested, hnotes⟩ := exists_notes_toItems_assignment name hevaluate
      refine ⟨nested, hnotes, ?_, ?_, ?_, ?_⟩
      · rcases hnested with rfl | rfl
        · exact Nat.zero_le 2
        · exact Nat.succ_le_succ hbelow
      · rintro tokens ⟨⟩
      · rintro name text ⟨rfl, rfl⟩ hnone
        exact absurd hequals hnone
      · -- What a read line assigns holds no equals sign.
        intro reading whole hread
        obtain ⟨left, right, -, -, -, -, -, hnone⟩ := Line.read_eq_assignment hread
        exact absurd hequals hnone
    · obtain ⟨nested, hnested, hnotes⟩ := exists_notes_toItems_of_not_mem lexing name hequals
      have hlength : nested.length ≤ 1 := by rcases hnested with rfl | rfl <;> simp
      refine ⟨nested, hnotes, hlength.trans (by decide), ?_, fun _ _ _ _ => hlength, ?_⟩
      · rintro tokens ⟨⟩
      · intro reading whole hread other hmem inner value hassigns
        obtain rfl : other = text := by
          rcases hnested with rfl | rfl
          · cases hmem
          · exact List.mem_singleton.1 hmem
        obtain ⟨left, right, rfl, -⟩ := Line.read_eq_assignment hassigns
        exact hequals (by simp)

theorem Line.atomic_expression (lexing : Lexing) (store : Store) (tokens : List Token) :
    (Line.expression tokens).Atomic lexing store := by
  have hrun := run_toItems_expression lexing tokens store
  constructor
  · intro failure after hfailed
    rw [hrun] at hfailed
    exact store_of_resultAt_eq_error hfailed
  · intro other items after _ hok
    rw [hrun] at hok
    exact store_of_resultAt_eq_ok hok
  · rintro name text items after ⟨⟩

theorem Line.atomic_assignment (lexing : Lexing) (store : Store) (name text : Text) :
    (Line.assignment name text).Atomic lexing store := by
  have hrun := run_toItems_assignment lexing name text store
  rcases run_assignedValue_cases lexing text store with ⟨failure, hvalue⟩ | ⟨value, hvalue⟩
  · rw [hvalue] at hrun
    constructor
    · intro other after hfailed
      cases hrun.symm.trans hfailed
      rfl
    · rintro tokens items after ⟨⟩
    · intro other more items after _ hok
      cases hrun.symm.trans hok
  · rw [hvalue] at hrun
    constructor
    · intro other after hfailed
      cases hrun.symm.trans hfailed
    · rintro tokens items after ⟨⟩
    · rintro name text items after ⟨rfl, rfl⟩ hok
      cases hrun.symm.trans hok
      exact ⟨value, rfl, rfl⟩

theorem Line.atomic (lexing : Lexing) (store : Store) (line : Line) : line.Atomic lexing store := by
  cases line with
  | expression tokens => exact atomic_expression lexing store tokens
  | assignment name text => exact atomic_assignment lexing store name text

/-- However a line was put together, at most two evaluations are nested below it, and it commits all or nothing. -/
theorem Line.nestingBounded_and_atomic (lexing : Lexing) (store : Store) (line : Line) :
    (∃ nested, line.NestingBounded lexing nested) ∧ line.Atomic lexing store :=
  ⟨line.exists_nestingBounded lexing, line.atomic lexing store⟩

theorem Line.nestingBounded_and_atomic_twice :
    ∃ nested, (Line.assignment ['x'] "y=z".toList).NestingBounded .strict nested ∧
      nested = ["y=z".toList, ['z']] := by
  obtain ⟨⟨nested, hbounded⟩, -⟩ :=
    nestingBounded_and_atomic .strict ∅ (.assignment ['x'] "y=z".toList)
  refine ⟨nested, hbounded, ?_⟩
  rw [← hbounded.notes.evaluatedIn_run ∅]
  decide +kernel

end LineCalculator
