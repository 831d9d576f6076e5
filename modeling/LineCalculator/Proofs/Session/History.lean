import LineCalculator.Proofs.Evaluation.Assignment
import LineCalculator.Proofs.Expression.Phrase
import LineCalculator.Session
import Mathlib.Data.Finset.Card

/-!
# The history of a session

A step changes the store only when it announces a binding, and then it assigns just that. So the
store after any lines is the store before them with all announcements assigned in order, and nothing
else about the lines matters to it: not the lines that failed, not those that only asked, and not
what the assigning lines looked like.
-/

namespace LineCalculator

/-- The binding that a step announces. -/
def Step.announcement? (step : Step) : Option (Text × Float) :=
  match step.outcome with
  | .ok (.binding name value) => some (name, value)
  | _ => none

def announcements (steps : List Step) : List (Text × Float) :=
  steps.filterMap Step.announcement?

def storeAfter (store : Store) : List (Lexing × Text) → Store
  | [] => store
  | (lexing, text) :: rest => storeAfter (Step.ofLine lexing text store).store rest

def bindingLines (store : Store) (lines : List (Lexing × Text)) : List (Lexing × Text) :=
  ((lines.zip (runSession store lines)).filter fun entry => entry.2.announcement?.isSome).map Prod.fst

/-- What a step may do to a store: a binding comes from a line with one equals sign, it binds letters, and it is all that the step changes. -/
def Step.Keeps (before : Store) (text : Text) (step : Step) : Prop :=
  match step.announcement? with
  | some (name, value) =>
    step.store = before.assign name value ∧ text.count '=' = 1 ∧ isVariableName name = true
  | none => step.store = before

/-! ### Assigning in order -/

namespace Store

def assignAll (store : Store) (pairs : List (Text × Float)) : Store :=
  pairs.foldl (fun store pair => store.assign pair.1 pair.2) store

theorem assignAll_cons (store : Store) (name : Text) (value : Float) (pairs : List (Text × Float)) :
    store.assignAll ((name, value) :: pairs) = (store.assign name value).assignAll pairs :=
  rfl

theorem get?_assignAll (store : Store) (pairs : List (Text × Float)) (name : Text) :
    (store.assignAll pairs).get? name = (pairs.reverse.lookup name).or (store.get? name) := by
  induction pairs generalizing store with
  | nil => rfl
  | cons pair pairs ih =>
    obtain ⟨other, value⟩ := pair
    rw [assignAll_cons, ih, List.reverse_cons, List.lookup_append, Option.or_assoc, get?_assign]
    congr 1
    by_cases hname : other = name
    · simp [hname]
    · have hne : (name == other) = false := beq_eq_false_iff_ne.2 (Ne.symm hname)
      simp [List.lookup_cons, hname, hne]

theorem contains_assign (store : Store) (name other : Text) (value : Float) :
    (store.assign name value).contains other = (decide (name = other) || store.contains other) := by
  rw [contains_eq_isSome_get?, contains_eq_isSome_get?, get?_assign]
  by_cases hname : name = other <;> simp [hname]

theorem size_assignAll (store : Store) (pairs : List (Text × Float)) :
    (store.assignAll pairs).size =
      store.size +
        ((pairs.map Prod.fst).toFinset.filter fun name => store.contains name = false).card := by
  induction pairs generalizing store with
  | nil => rfl
  | cons pair pairs ih =>
    obtain ⟨name, value⟩ := pair
    rw [assignAll_cons, ih, size_assign, List.map_cons, List.toFinset_cons]
    by_cases hname : store.contains name = true
    · have hsame : ∀ other, (store.assign name value).contains other = store.contains other := by
        intro other
        rw [contains_assign]
        by_cases hother : name = other
        · subst hother
          simp [hname]
        · simp [hother]
      rw [if_pos hname, Finset.filter_insert, if_neg (by simp [hname])]
      simp only [hsame]
    · rw [Bool.not_eq_true] at hname
      have hsplit : (insert name (pairs.map Prod.fst).toFinset).filter
          (fun other => store.contains other = false) =
          insert name ((pairs.map Prod.fst).toFinset.filter fun other =>
            (store.assign name value).contains other = false) := by
        ext other
        simp only [Finset.mem_filter, Finset.mem_insert, contains_assign, Bool.or_eq_false_iff,
          decide_eq_false_iff_not]
        by_cases hother : other = name
        · simp [hother, hname]
        · simp [hother, Ne.symm hother]
      rw [hsplit, Finset.card_insert_of_notMem (by simp [contains_assign]), hname]
      simp only [Bool.false_eq_true, if_false]
      omega

end Store

/-! ### One step -/

theorem Step.keeps_of_read_eq_expression {lexing : Lexing} {text : Text} {tokens : List Token}
    (h : Line.read lexing text = .ok (.expression tokens)) (store : Store) :
    Step.Keeps store text (Step.ofLine lexing text store) := by
  rw [Step.ofLine, run_evaluateLine_of_read_eq_ok h, run_toItems_expression]
  cases hitems : Item.ofTokens store tokens with
  | error failure => rfl
  | ok items =>
    simp only [resultAt]
    cases hevaluate : evaluateItems items with
    | error failure => rfl
    | ok evaluation =>
      obtain ⟨value, rfl⟩ := exists_value_of_evaluateItems (Item.isBinding_of_ofTokens hitems) hevaluate
      rfl

theorem Step.keeps_of_read_eq_assignment {lexing : Lexing} {text name value : Text}
    (h : Line.read lexing text = .ok (.assignment name value)) (store : Store) :
    Step.Keeps store text (Step.ofLine lexing text store) := by
  obtain ⟨left, right, rfl, hleft, hright, -, hname, -⟩ := Line.read_eq_assignment h
  rw [Step.ofLine, run_evaluateLine_of_read_eq_assignment h]
  cases assignedNumber lexing store value with
  | error failure => rfl
  | ok number =>
    refine ⟨rfl, ?_, hname⟩
    rw [List.count_append, List.count_cons_self, List.count_eq_zero.2 hleft,
      List.count_eq_zero.2 hright]

theorem Step.keeps_ofLine (lexing : Lexing) (text : Text) (store : Store) :
    Step.Keeps store text (Step.ofLine lexing text store) := by
  cases hread : Line.read lexing text with
  | error failure =>
    rw [Step.ofLine, run_evaluateLine_of_read_eq_error hread]
    exact rfl
  | ok line =>
    cases line with
    | expression tokens => exact keeps_of_read_eq_expression hread store
    | assignment name value => exact keeps_of_read_eq_assignment hread store

/-! ### Whole sessions -/

theorem runSession_cons (store : Store) (lexing : Lexing) (text : Text)
    (rest : List (Lexing × Text)) :
    runSession store ((lexing, text) :: rest) =
      Step.ofLine lexing text store :: runSession (Step.ofLine lexing text store).store rest :=
  rfl

theorem getElem?_runSession {store : Store} {lines : List (Lexing × Text)} {index : Nat}
    {lexing : Lexing} {text : Text} (h : lines[index]? = some (lexing, text)) :
    (runSession store lines)[index]? =
      some (Step.ofLine lexing text (storeAfter store (lines.take index))) := by
  induction lines generalizing store index with
  | nil => cases h
  | cons line rest ih =>
    cases index with
    | zero =>
      cases h
      rfl
    | succ index => exact ih h

theorem exists_of_mem_runSession {store : Store} {lines : List (Lexing × Text)} {step : Step}
    (h : step ∈ runSession store lines) :
    ∃ lexing text before, step = Step.ofLine lexing text before := by
  induction lines generalizing store with
  | nil => cases h
  | cons line rest ih =>
    obtain ⟨lexing, text⟩ := line
    rw [runSession_cons, List.mem_cons] at h
    rcases h with rfl | h
    · exact ⟨lexing, text, store, rfl⟩
    · exact ih h

/-- The announcements of a session are all that it does to the store. -/
theorem storeAfter_eq_assignAll (store : Store) (lines : List (Lexing × Text)) :
    storeAfter store lines = store.assignAll (announcements (runSession store lines)) := by
  induction lines generalizing store with
  | nil => rfl
  | cons line rest ih =>
    obtain ⟨lexing, text⟩ := line
    have hkeeps := Step.keeps_ofLine lexing text store
    rw [storeAfter, ih, runSession_cons, announcements, announcements, List.filterMap_cons]
    unfold Step.Keeps at hkeeps
    split at hkeeps
    next name value hsome =>
      rw [hsome, Store.assignAll_cons, hkeeps.1]
    next hnone =>
      rw [hnone, hkeeps]

theorem isVariableName_of_mem_announcements {store : Store} {lines : List (Lexing × Text)}
    {name : Text} {value : Float}
    (h : (name, value) ∈ announcements (runSession store lines)) : isVariableName name = true := by
  obtain ⟨step, hmem, hsome⟩ := List.mem_filterMap.1 h
  obtain ⟨lexing, text, before, rfl⟩ := exists_of_mem_runSession hmem
  have hkeeps := Step.keeps_ofLine lexing text before
  rw [Step.Keeps, hsome] at hkeeps
  exact hkeeps.2.2

theorem runSession_bindingLines (store : Store) (lines : List (Lexing × Text)) :
    runSession store (bindingLines store lines) =
      (runSession store lines).filter fun step => step.announcement?.isSome := by
  induction lines generalizing store with
  | nil => rfl
  | cons line rest ih =>
    obtain ⟨lexing, text⟩ := line
    have hkeeps := Step.keeps_ofLine lexing text store
    rw [bindingLines, runSession_cons, List.zip_cons_cons, List.filter_cons, List.filter_cons]
    unfold Step.Keeps at hkeeps
    split at hkeeps
    next name value hsome =>
      simp only [hsome, Option.isSome_some, if_true, List.map_cons, runSession_cons]
      exact congrArg _ (ih (Step.ofLine lexing text store).store)
    next hnone =>
      simp only [hnone, Option.isSome_none, Bool.false_eq_true, if_false]
      have hrest := ih (Step.ofLine lexing text store).store
      rw [hkeeps] at hrest ⊢
      exact hrest

theorem announcements_filter (steps : List Step) :
    announcements (steps.filter fun step => step.announcement?.isSome) = announcements steps := by
  rw [announcements, announcements, List.filterMap_filter]
  congr 1
  funext step
  cases step.announcement? <;> rfl

/-! ### The history of a session -/

/-- What holds of every session. -/
structure History (store : Store) (lines : List (Lexing × Text)) : Prop where
  /-- Each step is its line evaluated in the store so far, and it changes what it announces only. -/
  step : ∀ index lexing text, lines[index]? = some (lexing, text) →
    let before := storeAfter store (lines.take index)
    (runSession store lines)[index]? = some (Step.ofLine lexing text before) ∧
      (Step.ofLine lexing text before).Keeps before text
  /-- A session that starts empty binds words of letters only. -/
  names : store = ∅ → ∀ name value, (storeAfter store lines).get? name = some value →
    isVariableName name = true
  /-- A name has the value announced last, or else the one it started with. -/
  values : ∀ name, (storeAfter store lines).get? name =
    ((announcements (runSession store lines)).reverse.lookup name).or (store.get? name)
  /-- The store grows by the announced names that it did not hold. -/
  size : (storeAfter store lines).size =
    store.size + (((announcements (runSession store lines)).map Prod.fst).toFinset.filter fun name =>
      store.contains name = false).card
  /-- Alone, the lines that announced a binding announce the same and lead to the same store. -/
  rerun : announcements (runSession store (bindingLines store lines)) =
      announcements (runSession store lines) ∧
    storeAfter store (bindingLines store lines) = storeAfter store lines
  /-- After a session that starts empty, a name that is bound answers its value. -/
  answers : store = ∅ → ∀ name value, (storeAfter store lines).get? name = some value →
    ∀ lexing, (evaluateLine lexing name).run (storeAfter store lines) =
      .ok (.value value) (storeAfter store lines)

theorem isVariableName_of_get?_storeAfter {lines : List (Lexing × Text)} {name : Text}
    {value : Float} (h : (storeAfter ∅ lines).get? name = some value) :
    isVariableName name = true := by
  rw [storeAfter_eq_assignAll, Store.get?_assignAll, Store.get?_empty, Option.or_none] at h
  obtain ⟨before, after, hsplit, -⟩ := List.lookup_eq_some_iff.1 h
  have hmem : (name, value) ∈ (announcements (runSession ∅ lines)).reverse := by
    rw [hsplit]
    exact List.mem_append_right before List.mem_cons_self
  exact isVariableName_of_mem_announcements (List.mem_reverse.1 hmem)

theorem history (store : Store) (lines : List (Lexing × Text)) : History store lines where
  step := by
    intro index lexing text hline before
    exact ⟨getElem?_runSession hline, Step.keeps_ofLine lexing text before⟩
  names := by
    intro hempty name value hvalue
    subst hempty
    exact isVariableName_of_get?_storeAfter hvalue
  values := by
    intro name
    rw [storeAfter_eq_assignAll, Store.get?_assignAll]
  size := by
    rw [storeAfter_eq_assignAll, Store.size_assignAll]
  rerun := by
    have hsame : announcements (runSession store (bindingLines store lines)) =
        announcements (runSession store lines) := by
      rw [runSession_bindingLines, announcements_filter]
    refine ⟨hsame, ?_⟩
    rw [storeAfter_eq_assignAll, hsame, storeAfter_eq_assignAll]
  answers := by
    intro hempty name value hvalue lexing
    subst hempty
    have hname := isVariableName_of_get?_storeAfter hvalue
    rw [run_evaluateLine_of_not_mem lexing _ (equals_not_mem_of_isVariableName hname),
      Phrase.evaluateExpression_of_get?_eq_some lexing hname hvalue]
    rfl

end LineCalculator
