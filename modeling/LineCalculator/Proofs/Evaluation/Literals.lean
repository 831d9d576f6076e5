import LineCalculator.Proofs.Evaluation.TypedBack
import LineCalculator.Proofs.Number.Forms
import LineCalculator.Proofs.Token.Gaps
import LineCalculator.Proofs.Token.Signs

/-!
# Literals assigned and literals typed

A text without letters that is assigned is first tried as a literal, and evaluated like a line of
its own only if it is none. So assigning and typing a text come to the same unless it is a literal,
and then they part in two ways. A sign in front belongs to the literal, but on a line of its own it
is an operator without a left operand. A point needs digits on one side only in a literal, but on
both sides in a token, so a line drops a lone point or refuses it, and `.5` is five there.
-/

namespace LineCalculator

variable {lexing : Lexing} {store : Store} {gaps : List Text} {tokens : List Token}
  {name text content digits : Text} {sign : Char} {value : Float}

/-! ### Evaluating between the gaps -/

/-- What comes of a text, unless strict lexing refuses one of its gaps. -/
def Lexing.overGaps {α : Type} (lexing : Lexing) (gaps : List Text) (result : Except Failure α) :
    Except Failure α :=
  match lexing, unlexed? gaps with
  | .strict, some skipped => .error (.invalidToken skipped)
  | _, _ => result

theorem Parted.lex_eq (h : Parted gaps tokens text) (lexing : Lexing) :
    lex lexing text = lexing.overGaps gaps (.ok tokens) := by
  cases lexing with
  | permissive => exact h.lex_permissive
  | strict =>
    rw [h.lex_strict]
    unfold Lexing.overGaps
    cases unlexed? gaps <;> rfl

theorem Lexing.overGaps_bind {α β : Type} (lexing : Lexing) (gaps : List Text)
    (result : Except Failure α) (next : α → Except Failure β) :
    lexing.overGaps gaps result >>= next = lexing.overGaps gaps (result >>= next) := by
  unfold overGaps
  split <;> rfl

theorem Lexing.overGaps_cons_nil {α : Type} (lexing : Lexing) (gaps : List Text)
    (result : Except Failure α) : lexing.overGaps ([] :: gaps) result = lexing.overGaps gaps result :=
  rfl

theorem evaluateExpression_of_parted (hfold : foldSigns text = .ok text)
    (h : Parted gaps tokens text) :
    evaluateExpression lexing store text =
      lexing.overGaps gaps (Item.ofTokens store tokens >>= evaluateItems) := by
  have htokens : tokenize lexing text = lexing.overGaps gaps (.ok tokens) := by
    rw [tokenize, hfold]
    exact h.lex_eq lexing
  rw [evaluateExpression, htokens]
  exact lexing.overGaps_bind gaps (.ok tokens) _

/-! ### The tokens of literals -/

theorem parted_number (h : IsNumber content) : Parted [[], []] [⟨content, .number⟩] content := by
  have hnone : ∀ c ∈ ([] : Text), startsToken c = false := List.forall_mem_nil _
  have hparted := Parted.token hnone (.number h) (Token.endsBefore_of_head? _ (by simp)) (.last hnone)
  rwa [List.append_nil] at hparted

theorem parted_pointed (h : IsDigits digits) :
    Parted [[], ['.']] [⟨digits, .number⟩] (digits ++ ['.']) := by
  have hpoint : ∀ c ∈ ['.'], startsToken c = false := List.forall_mem_singleton.2 rfl
  have hends : (⟨digits, .number⟩ : Token).EndsBefore ['.'] := by
    refine ⟨fun c hc => ?_, fun _ d after heq => by cases heq⟩
    obtain rfl := Option.some.inj hc
    rfl
  exact .token (List.forall_mem_nil _) (.number (.whole h)) hends (.last hpoint)

theorem parted_fraction (h : IsDigits digits) :
    Parted [['.'], []] [⟨digits, .number⟩] ('.' :: digits) := by
  have hpoint : ∀ c ∈ ['.'], startsToken c = false := List.forall_mem_singleton.2 rfl
  have hparted := Parted.token hpoint (.number (.whole h)) (Token.endsBefore_of_head? _ (by simp))
    (.last (List.forall_mem_nil _))
  rwa [List.append_nil] at hparted

theorem Parted.signed (h : Parted gaps tokens text) (hsign : isSign sign = true) :
    Parted ([] :: gaps) (⟨[sign], .operator⟩ :: tokens) (sign :: text) :=
  .token (List.forall_mem_nil _) (isLexeme_of_isSign hsign) trivial h

/-! ### Literals have nothing to fold -/

theorem IsLiteral.signsApart (h : IsLiteral text) : SignsApart text := by
  cases h with
  | unsigned h => exact signsApart_of_forall fun c => h.not_isFoldable
  | signed hsign h =>
    refine List.isChain_cons.2 ⟨fun c hc hboth => ?_, signsApart_of_forall fun c => h.not_isFoldable⟩
    rw [h.not_isFoldable (List.mem_of_head? hc)] at hboth
    cases hboth.2

theorem IsLiteral.foldSigns_eq (h : IsLiteral text) (htrim : trim text = text) :
    foldSigns text = .ok text := by
  rw [h.signsApart.foldSigns_eq, htrim]

theorem evaluateExpression_unsigned (h : IsUnsigned text) (htrim : trim text = text)
    (hparted : Parted gaps [⟨content, .number⟩] text) (hread : Number.read? content = some value) :
    evaluateExpression lexing store text = lexing.overGaps gaps (.ok (.value value)) := by
  have hitems := Item.ofTokens_singleton (Item.ofToken_number store hread)
  rw [evaluateExpression_of_parted ((IsLiteral.unsigned h).foldSigns_eq htrim) hparted, hitems]
  rfl

/-- A sign in front has no left operand, but a gap is refused before that is seen. -/
theorem evaluateExpression_signed (hsign : isSign sign = true) (h : IsUnsigned text)
    (htrim : trim (sign :: text) = sign :: text) (hparted : Parted gaps [⟨content, .number⟩] text)
    (hread : Number.read? content = some value) :
    evaluateExpression lexing store (sign :: text) =
      lexing.overGaps gaps (.error .invalidExpression) := by
  have hitems := Item.ofTokens_append (Item.ofTokens_singleton (Item.ofToken_isSign hsign))
    (Item.ofTokens_singleton (Item.ofToken_number store hread))
  rw [List.singleton_append] at hitems
  rw [evaluateExpression_of_parted ((IsLiteral.signed hsign h).foldSigns_eq htrim)
    (hparted.signed hsign), hitems, Lexing.overGaps_cons_nil]
  cases Operator.ofSign sign <;> rfl

/-! ### Assigned or typed -/

/-- What comes of a text with a lone point, unless strict lexing refuses the point. -/
def Lexing.overPoint {α : Type} (lexing : Lexing) (result : Except Failure α) : Except Failure α :=
  match lexing with
  | .permissive => result
  | .strict => .error (.invalidToken ['.'])

theorem Lexing.overGaps_point_last {α : Type} (lexing : Lexing) (result : Except Failure α) :
    lexing.overGaps [[], ['.']] result = lexing.overPoint result := by
  cases lexing <;> rfl

theorem Lexing.overGaps_point_first {α : Type} (lexing : Lexing) (result : Except Failure α) :
    lexing.overGaps [['.'], []] result = lexing.overPoint result := by
  cases lexing <;> rfl

theorem Lexing.overGaps_empty {α : Type} (lexing : Lexing) (result : Except Failure α) :
    lexing.overGaps [[], []] result = result := by
  cases lexing <;> rfl

/-- The answer to a literal on a line of its own, form by form. -/
structure TypedLiteral (lexing : Lexing) (store : Store) (text : Text) (value : Float) : Prop where
  number : IsNumber text → (evaluateLine lexing text).run store = .ok (.value value) store
  pointed : ∀ digits, IsDigits digits → text = digits ++ ['.'] →
    (evaluateLine lexing text).run store = resultAt store (lexing.overPoint (.ok (.value value)))
  fraction : ∀ digits, IsDigits digits → text = '.' :: digits →
    ∃ whole, Number.read? digits = some whole ∧
      (evaluateLine lexing text).run store = resultAt store (lexing.overPoint (.ok (.value whole)))
  signedNumber : ∀ sign number, isSign sign = true → IsNumber number → text = sign :: number →
    (evaluateLine lexing text).run store = .error .invalidExpression store
  signedPoint : ∀ sign digits, isSign sign = true → IsDigits digits →
    text = sign :: (digits ++ ['.']) ∨ text = sign :: '.' :: digits →
      (evaluateLine lexing text).run store =
        resultAt store (lexing.overPoint (.error .invalidExpression))

theorem typedLiteral (lexing : Lexing) (store : Store) (hequals : '=' ∉ text)
    (htrim : trim text = text) (hread : Number.read? text = some value) :
    TypedLiteral lexing store text value := by
  have halone := run_evaluateLine_of_not_mem lexing store hequals
  constructor
  case number =>
    intro h
    rw [halone, evaluateExpression_number lexing store h hread]
    rfl
  case pointed =>
    rintro digits h rfl
    rw [Number.read?_pointed h] at hread
    rw [halone, evaluateExpression_unsigned (.pointed h) htrim (parted_pointed h) hread,
      Lexing.overGaps_point_last]
  case fraction =>
    rintro digits h rfl
    obtain ⟨whole, hwhole⟩ := Number.exists_read?_of_isNumber (.whole h)
    refine ⟨whole, hwhole, ?_⟩
    rw [halone, evaluateExpression_unsigned (.fraction h) htrim (parted_fraction h) hwhole,
      Lexing.overGaps_point_first]
  case signedNumber =>
    rintro sign number hsign h rfl
    obtain ⟨magnitude, hmagnitude⟩ := Number.exists_read?_of_isNumber h
    rw [halone, evaluateExpression_signed hsign h.isUnsigned htrim (parted_number h) hmagnitude,
      Lexing.overGaps_empty]
    rfl
  case signedPoint =>
    intro sign digits hsign h hform
    obtain ⟨whole, hwhole⟩ := Number.exists_read?_of_isNumber (.whole h)
    rcases hform with rfl | rfl
    · rw [halone, evaluateExpression_signed hsign (.pointed h) htrim (parted_pointed h) hwhole,
        Lexing.overGaps_point_last]
    · rw [halone, evaluateExpression_signed hsign (.fraction h) htrim (parted_fraction h) hwhole,
        Lexing.overGaps_point_first]

/-- What becomes of a text that is assigned to a name by a line, and typed as a line of its own. -/
structure AssignedOrTyped (lexing : Lexing) (store : Store) (name text line : Text) : Prop where
  other : ¬ IsLiteral text →
    (∃ number, (evaluateLine lexing text).run store = .ok (.value number) store ∧
      (evaluateLine lexing line).run store = .ok (.binding name number) (store.assign name number)) ∨
    (∃ failure, (evaluateLine lexing text).run store = .error failure store ∧
      (evaluateLine lexing line).run store = .error failure store)
  literal : IsLiteral text → ∃ value, Number.read? text = some value ∧
    (evaluateLine lexing line).run store = .ok (.binding name value) (store.assign name value) ∧
    TypedLiteral lexing store text value

theorem assignedOrTyped {before between text : Text} (lexing : Lexing) (store : Store)
    (hname : isVariableName name = true) (hequals : '=' ∉ text) (hletter : hasLetter text = false)
    (hne : trim text ≠ []) (hbefore : ∀ c ∈ before, isBlank c = true)
    (hbetween : ∀ c ∈ between, isBlank c = true) :
    AssignedOrTyped lexing store name (trim text) (before ++ name ++ between ++ '=' :: text) := by
  have hequals' : '=' ∉ trim text := fun hmem => hequals (trim_subset text hmem)
  have hletter' : hasLetter (trim text) = false := by
    rw [hasLetter_eq_false_iff] at hletter ⊢
    exact fun c hc => hletter c (trim_subset text hc)
  have hline := Line.read_of_isVariableName lexing hname hequals hne hbefore hbetween
    blank_nil blank_nil
  rw [List.nil_append, List.append_nil, Line.readValue_of_not_hasLetter lexing hletter'] at hline
  have hassigned := run_evaluateLine_of_read_eq_assignment hline store
  rw [assignedNumber, hletter'] at hassigned
  constructor
  case literal =>
    intro hliteral
    obtain ⟨value, hread⟩ := Number.exists_read?_of_isLiteral hletter' hliteral
    simp only [Bool.false_eq_true, if_false, hread] at hassigned
    exact ⟨value, hread, hassigned, typedLiteral lexing store hequals' (trim_trim text) hread⟩
  case other =>
    intro hother
    have hnone : Number.read? (trim text) = none := by
      rw [Option.eq_none_iff_forall_ne_some]
      exact fun value hread => hother (Number.isLiteral_of_read? hletter' hread)
    simp only [Bool.false_eq_true, if_false, hnone] at hassigned
    rw [run_evaluateLine_of_not_mem lexing store hequals', hassigned]
    cases hevaluate : evaluateExpression lexing store (trim text) with
    | error failure => exact .inr ⟨failure, rfl, rfl⟩
    | ok evaluation =>
      obtain ⟨number, rfl⟩ := exists_value_of_evaluateExpression hevaluate
      exact .inl ⟨number, rfl, rfl⟩

/-- A half when it is assigned, and five on a line of its own. -/
theorem assignedOrTyped_fraction :
    (evaluateLine .permissive ['x', '=', ' ', '.', '5']).run {} =
        .ok (.binding ['x'] 0.5) (Store.assign {} ['x'] 0.5) ∧
      (evaluateLine .permissive ['.', '5']).run {} = .ok (.value 5) {} := by
  have hfive : IsDigits ['5'] := ⟨by simp, by simp⟩
  obtain ⟨value, hvalue, hline, htyped⟩ := (assignedOrTyped .permissive {} rfl (by decide) rfl
    (by decide) blank_nil blank_nil :
      AssignedOrTyped .permissive {} ['x'] (trim [' ', '.', '5'])
        ([] ++ ['x'] ++ [] ++ '=' :: [' ', '.', '5'])).literal (.unsigned (.fraction hfive))
  obtain ⟨whole, hwhole, halone⟩ := htyped.fraction ['5'] hfive rfl
  have hhalf : Number.read? ['.', '5'] = some 0.5 := by decide +kernel
  have hread : Number.read? ['5'] = some 5 := by decide +kernel
  obtain rfl := Option.some.inj (hhalf.symm.trans hvalue)
  obtain rfl := Option.some.inj (hread.symm.trans hwhole)
  exact ⟨hline, halone⟩

end LineCalculator
