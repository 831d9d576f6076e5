import LineCalculator.Proofs.Expression.Acceptance
import LineCalculator.Proofs.Expression.Phrase
import LineCalculator.Proofs.SignRun.Parity
import LineCalculator.Proofs.Token.Signs

/-!
# Chains of summands

Numbers and names with runs of signs between them. Folding replaces every run in place, so a chain
is cut into its summands with one operator between them for each sign that is left of a run. If one
sign is left of every run, it adds or subtracts as the run has an even or an odd number of minus
signs, and the chain is read as a sum from left to right. If more are left of some run, there are
no fewer operators than summands. Every operator takes a value away, so no value is left then, in
whatever order the yard emits them.
-/

namespace LineCalculator

/-! ### Chains -/

inductive Summand where
  | number (content : Text) (h : IsNumber content)
  | name (content : Text) (h : isVariableName content = true)

namespace Summand

def token : Summand → Token
  | number content _ => ⟨content, .number⟩
  | name content _ => ⟨content, .identifier⟩

def names : Summand → List Text
  | number _ _ => []
  | name content _ => [content]

def value? (store : Store) : Summand → Option Float
  | number content _ => Number.read? content
  | name content _ => store.get? content

end Summand

/-- A run of signs with blanks around it, and the summand behind. -/
structure Link where
  before : Text
  run : Text
  behind : Text
  summand : Summand
  hbefore : ∀ c ∈ before, isBlank c = true
  hrun : IsSignRun run
  hbehind : ∀ c ∈ behind, isBlank c = true

namespace Link

/-- A link with other signs in the place of its run. -/
def written (link : Link) (signs : Text) : Text :=
  link.before ++ (signs ++ (link.behind ++ link.summand.token.content))

/-- What folding leaves of the run. -/
def folded (link : Link) : Text :=
  rewriteSigns link.run

/-- Addition for an even number of minus signs, subtraction for an odd one. -/
def operator (link : Link) : Operator :=
  if link.run.count '-' % 2 = 0 then .addition else .subtraction

/-- The sum with one more summand. -/
def sum? (store : Store) (sum : Float) (link : Link) : Option Float := do
  return link.operator.apply sum (← link.summand.value? store)

end Link

structure Chain where
  first : Summand
  links : List Link

namespace Chain

def written (signs : Link → Text) (chain : Chain) : Text :=
  chain.first.token.content ++ chain.links.flatMap fun link => link.written (signs link)

def text (chain : Chain) : Text :=
  chain.written Link.run

def names (chain : Chain) : List Text :=
  chain.first.names ++ chain.links.flatMap fun link => link.summand.names

/-- The summands added and subtracted from left to right. -/
def value? (store : Store) (chain : Chain) : Option Float := do
  chain.links.foldlM (Link.sum? store) (← chain.first.value? store)

end Chain

/-! ### Folding a chain -/

theorem Summand.isLexeme (summand : Summand) : IsLexeme summand.token := by
  cases summand with
  | number content h => exact .number h
  | name content h => exact .identifier (isIdentifier_of_isVariableName h)

theorem Summand.not_isFoldable (summand : Summand) {c : Char} (hc : c ∈ summand.token.content) :
    isFoldable c = false := by
  rw [Bool.eq_false_iff]
  intro hfoldable
  have hkind := summand.isLexeme.kind_of_isFoldable hc hfoldable
  cases summand <;> cases hkind

theorem Link.not_isFoldable_behind (link : Link) {c : Char}
    (hc : c ∈ link.behind ++ link.summand.token.content) : isFoldable c = false := by
  rcases List.mem_append.1 hc with hc | hc
  · exact not_isFoldable_of_isBlank (link.hbehind c hc)
  · exact link.summand.not_isFoldable hc

theorem Link.rewriteSigns_written_append (link : Link) (rest : Text) :
    rewriteSigns (link.written link.run ++ rest) = link.written link.folded ++ rewriteSigns rest := by
  have hbefore : ∀ c ∈ link.before, isFoldable c = false := fun c hc =>
    not_isFoldable_of_isBlank (link.hbefore c hc)
  have hbehind : ∀ c ∈ link.behind ++ link.summand.token.content, isFoldable c = false := fun _ =>
    link.not_isFoldable_behind
  have hhead : ∀ c ∈ (link.behind ++ link.summand.token.content ++ rest).head?, isSign c = false := by
    have hne : link.behind ++ link.summand.token.content ≠ [] := by
      simp [link.summand.isLexeme.content_ne_nil]
    intro c hc
    rw [List.head?_append_of_ne_nil _ hne] at hc
    exact not_isSign_of_not_isFoldable (hbehind c (List.mem_of_head? hc))
  rw [written, List.append_assoc, List.append_assoc,
    rewriteSigns_append_of_not_isFoldable hbefore, rewriteSigns_append_of_head? hhead,
    rewriteSigns_append_of_not_isFoldable hbehind, written, folded]
  simp only [List.append_assoc]

theorem Link.isSignRun_folded (link : Link) : IsSignRun link.folded :=
  link.hrun.rewriteSigns

theorem rewriteSigns_links (links : List Link) :
    rewriteSigns (links.flatMap fun link => link.written link.run) =
      links.flatMap fun link => link.written link.folded := by
  induction links with
  | nil => rfl
  | cons link links ih =>
    rw [List.flatMap_cons, link.rewriteSigns_written_append, ih, List.flatMap_cons]

theorem Chain.rewriteSigns_text (chain : Chain) :
    rewriteSigns chain.text = chain.written Link.folded := by
  rw [text, written, rewriteSigns_append_of_not_isFoldable (fun _ => chain.first.not_isFoldable),
    rewriteSigns_links, written]

/-! ### The tokens of a chain -/

def Link.tokens (link : Link) : List Token :=
  operatorTokens link.folded ++ [link.summand.token]

def Chain.tokens (chain : Chain) : List Token :=
  chain.first.token :: chain.links.flatMap Link.tokens

theorem Chain.spaced (first : Summand) (links : List Link) :
    Spaced Token.EndsAt (tokens ⟨first, links⟩) (written Link.folded ⟨first, links⟩) := by
  induction links generalizing first with
  | nil =>
    rw [written, List.flatMap_nil, List.append_nil]
    exact .single first.token
  | cons link links ih =>
    obtain ⟨hne, hsigns⟩ := link.isSignRun_folded
    have hspaced := (ih link.summand).signs hne link.hbehind
    obtain ⟨sign, signs, hfolded⟩ := List.exists_cons_of_ne_nil hne
    have hends : first.token.EndsAt ⟨[sign], .operator⟩ :=
      first.token.endsAt_sign (hsigns sign (by simp [hfolded]))
    rw [hfolded] at hspaced
    have hwhole := hspaced.cons link.hbefore (fun _ => hends)
    simpa [tokens, written, Link.tokens, Link.written, hfolded, operatorTokens] using hwhole

theorem Chain.token_cases (chain : Chain) {token : Token} (hmem : token ∈ chain.tokens) :
    (∃ summand : Summand, token = summand.token) ∨
      ∃ sign, isSign sign = true ∧ token = ⟨[sign], .operator⟩ := by
  rcases List.mem_cons.1 hmem with hfirst | hmem
  · exact .inl ⟨chain.first, hfirst⟩
  · obtain ⟨link, -, hmem⟩ := List.mem_flatMap.1 hmem
    rcases List.mem_append.1 hmem with hmem | hmem
    · obtain ⟨sign, hsign, rfl⟩ := List.mem_map.1 hmem
      exact .inr ⟨sign, link.isSignRun_folded.2 sign hsign, rfl⟩
    · exact .inl ⟨link.summand, List.mem_singleton.1 hmem⟩

theorem Chain.isLexeme_of_mem_tokens (chain : Chain) : ∀ token ∈ chain.tokens, IsLexeme token := by
  intro token hmem
  rcases chain.token_cases hmem with ⟨summand, rfl⟩ | ⟨sign, hsign, rfl⟩
  · exact summand.isLexeme
  · exact isLexeme_of_isSign hsign

theorem Chain.isSign_of_isFoldable (chain : Chain) {token : Token} (hmem : token ∈ chain.tokens)
    {c : Char} (hc : c ∈ token.content) (h : isFoldable c = true) : isSign c = true := by
  rcases chain.token_cases hmem with ⟨summand, rfl⟩ | ⟨sign, hsign, rfl⟩
  · rw [summand.not_isFoldable hc] at h
    cases h
  · obtain rfl := List.mem_singleton.1 hc
    exact hsign

theorem Chain.exists_mem_content (chain : Chain) {c : Char} (hc : c ∈ chain.text)
    (hsign : isSign c = false) (hblank : isBlank c = false) :
    ∃ token ∈ chain.tokens, c ∈ token.content := by
  obtain ⟨hplus, hminus⟩ := not_isSign_iff.1 hsign
  have hfolded : c ∈ chain.written Link.folded := by
    rw [← chain.rewriteSigns_text]
    exact (mem_rewriteSigns_iff hplus hminus).2 hc
  exact (spaced chain.first chain.links).exists_mem_content hfolded hblank

theorem Chain.equals_not_mem (chain : Chain) : '=' ∉ chain.text := by
  intro hmem
  obtain ⟨token, htoken, hin⟩ := chain.exists_mem_content hmem rfl (by decide)
  exact (chain.isLexeme_of_mem_tokens token htoken).equals_not_mem hin

theorem Chain.hasRepeatedProduct_text (chain : Chain) : hasRepeatedProduct chain.text = false := by
  have hproduct : ∀ c, isFoldable c = true → isSign c = false → isBlank c = false →
      c ∉ chain.text := by
    intro c hfoldable hsign hblank hmem
    obtain ⟨token, htoken, hin⟩ := chain.exists_mem_content hmem hsign hblank
    rw [chain.isSign_of_isFoldable htoken hin hfoldable] at hsign
    cases hsign
  exact hasRepeatedProduct_of_not_mem (hproduct '*' rfl rfl (by decide))
    (hproduct '/' rfl rfl (by decide))

theorem Chain.tokenize_text (chain : Chain) (lexing : Lexing) :
    tokenize lexing chain.text = .ok chain.tokens := by
  have hspaced := spaced chain.first chain.links
  have hfold : foldSigns chain.text = .ok (chain.written Link.folded) := by
    rw [foldSigns_eq_ok_iff]
    refine ⟨chain.hasRepeatedProduct_text, ?_⟩
    rw [chain.rewriteSigns_text, hspaced.trim_eq chain.isLexeme_of_mem_tokens]
  rw [tokenize, hfold]
  exact lex_of_cut (hspaced.cut (fun _ _ h => h) chain.isLexeme_of_mem_tokens lexing)

/-! ### The items of a chain -/

variable {store : Store}

theorem Summand.exists_operand (summand : Summand)
    (hbound : ∀ name ∈ summand.names, (store.get? name).isSome = true) :
    ∃ operand, Item.ofTokens store [summand.token] = .ok [.operand operand] ∧
      (Item.operand operand).isBinding = false ∧ summand.value? store = some operand.value := by
  cases summand with
  | number content h =>
    obtain ⟨value, hvalue⟩ := Number.exists_read?_of_isNumber h
    exact ⟨.number value, Item.ofTokens_singleton (Item.ofToken_number store hvalue), rfl, hvalue⟩
  | name content h =>
    obtain ⟨value, hvalue⟩ := Option.isSome_iff_exists.1 (hbound content List.mem_cons_self)
    exact ⟨.reference content value,
      Item.ofTokens_singleton (Item.ofIdentifier_of_get?_eq_some h hvalue), rfl, hvalue⟩

/-! ### One sign left of every run -/

/-- A sign alone has the parity of the run that it is left of. -/
theorem Link.ofSign_eq_operator (link : Link) {sign : Char} (h : link.folded = [sign]) :
    Operator.ofSign sign = link.operator := by
  have hparity : SameParity link.run [sign] := .of_rewriteSigns h.symm
  have hsign : isSign sign = true := link.isSignRun_folded.2 sign (by simp [h])
  rw [operator, ← hparity]
  rcases isSign_iff.1 hsign with rfl | rfl <;> rfl

theorem Link.precedence_operator (link : Link) : link.operator.precedence = 1 := by
  unfold operator
  split <;> rfl

theorem Link.exists_reads (link : Link) {left : List Item} {sum : Float}
    (hleft : Yard.Reads 1 left sum)
    (hbound : ∀ name ∈ link.summand.names, (store.get? name).isSome = true)
    (hsingle : ∃ sign, link.folded = [sign]) :
    ∃ items total, Item.ofTokens store link.tokens = .ok items ∧
      link.sum? store sum = some total ∧ Yard.Reads 1 (left ++ items) total := by
  obtain ⟨sign, hsign⟩ := hsingle
  obtain ⟨operand, hitem, hbinding, hvalue⟩ := link.summand.exists_operand hbound
  have hsigns : Item.ofTokens store (operatorTokens link.folded) =
      .ok [.symbol (.operator link.operator)] := by
    rw [Item.ofTokens_operatorTokens link.isSignRun_folded.2, hsign, ← link.ofSign_eq_operator hsign]
    rfl
  have hreads : Yard.Reads 1 (left ++ .symbol (.operator link.operator) :: [.operand operand])
      (link.operator.apply sum operand.value) := by
    rw [← link.precedence_operator] at hleft ⊢
    exact hleft.apply (Yard.reads_operand hbinding _)
  refine ⟨_, _, Item.ofTokens_append hsigns hitem, ?_, hreads⟩
  rw [sum?, hvalue]
  rfl

theorem exists_reads_links {links : List Link} {left : List Item} {sum : Float}
    (hleft : Yard.Reads 1 left sum)
    (hbound : ∀ link ∈ links, ∀ name ∈ link.summand.names, (store.get? name).isSome = true)
    (hsingle : ∀ link ∈ links, ∃ sign, link.folded = [sign]) :
    ∃ items total, Item.ofTokens store (links.flatMap Link.tokens) = .ok items ∧
      links.foldlM (Link.sum? store) sum = some total ∧ Yard.Reads 1 (left ++ items) total := by
  induction links generalizing left sum with
  | nil =>
    refine ⟨[], sum, rfl, rfl, ?_⟩
    rwa [List.append_nil]
  | cons link links ih =>
    obtain ⟨hboundLink, hboundLinks⟩ := List.forall_mem_cons.1 hbound
    obtain ⟨hsingleLink, hsingleLinks⟩ := List.forall_mem_cons.1 hsingle
    obtain ⟨first, next, hfirst, hnext, hreads⟩ := link.exists_reads hleft hboundLink hsingleLink
    obtain ⟨items, total, hitems, htotal, hall⟩ := ih hreads hboundLinks hsingleLinks
    refine ⟨first ++ items, total, ?_, ?_, ?_⟩
    · rw [List.flatMap_cons]
      exact Item.ofTokens_append hfirst hitems
    · rw [List.foldlM_cons, hnext]
      exact htotal
    · rwa [← List.append_assoc]

variable {chain : Chain}

theorem Chain.isSome_of_mem_names
    (hbound : ∀ name ∈ chain.names, (store.get? name).isSome = true) :
    (∀ name ∈ chain.first.names, (store.get? name).isSome = true) ∧
      ∀ link ∈ chain.links, ∀ name ∈ link.summand.names, (store.get? name).isSome = true := by
  refine ⟨fun name hmem => hbound name (List.mem_append_left _ hmem), fun link hlink name hmem => ?_⟩
  exact hbound name (List.mem_append_right _ (List.mem_flatMap.2 ⟨link, hlink, hmem⟩))

theorem Chain.evaluateExpression_of_single (lexing : Lexing)
    (hbound : ∀ name ∈ chain.names, (store.get? name).isSome = true)
    (hsingle : ∀ link ∈ chain.links, ∃ sign, link.folded = [sign]) :
    ∃ value, chain.value? store = some value ∧
      evaluateExpression lexing store chain.text = .ok (.value value) := by
  obtain ⟨hfirst, hlinks⟩ := isSome_of_mem_names hbound
  obtain ⟨operand, hitem, hbinding, hvalue⟩ := chain.first.exists_operand hfirst
  obtain ⟨items, total, hitems, htotal, hreads⟩ :=
    exists_reads_links (Yard.reads_operand hbinding 1) hlinks hsingle
  refine ⟨total, ?_, ?_⟩
  · rw [value?, hvalue]
    exact htotal
  · rw [evaluateExpression, chain.tokenize_text lexing]
    have hall : Item.ofTokens store chain.tokens = .ok ([.operand operand] ++ items) :=
      Item.ofTokens_append hitem hitems
    exact bind_eq_ok_iff.2 ⟨chain.tokens, rfl, bind_eq_ok_iff.2 ⟨_, hall, hreads.evaluateItems⟩⟩

/-! ### More signs left of a run -/

theorem Link.exists_counted (link : Link)
    (hbound : ∀ name ∈ link.summand.names, (store.get? name).isSome = true) :
    ∃ items, Item.ofTokens store link.tokens = .ok items ∧ (∀ item ∈ items, item.isBinding = false) ∧
      items.countP Item.isOperand = 1 ∧ items.countP Item.isOperator = link.folded.length := by
  obtain ⟨operand, hitem, hbinding, -⟩ := link.summand.exists_operand hbound
  refine ⟨_, Item.ofTokens_append (Item.ofTokens_operatorTokens link.isSignRun_folded.2) hitem, ?_⟩
  refine ⟨fun item hmem => ?_, ?_, ?_⟩
  · rcases List.mem_append.1 hmem with hmem | hmem
    · obtain ⟨operator, -, rfl⟩ := List.mem_map.1 hmem
      rfl
    · obtain rfl := List.mem_singleton.1 hmem
      exact hbinding
  · rw [List.countP_append, Item.countP_isOperand_ofOperators]
    rfl
  · rw [List.countP_append, Item.countP_isOperator_ofOperators, List.length_map]
    rfl

/-- One operand for each link, and at least as many operators as operands, more of them if a run is left with more than one sign. -/
theorem exists_counted_links {links : List Link}
    (hbound : ∀ link ∈ links, ∀ name ∈ link.summand.names, (store.get? name).isSome = true) :
    ∃ items, Item.ofTokens store (links.flatMap Link.tokens) = .ok items ∧
      (∀ item ∈ items, item.isBinding = false) ∧ items.countP Item.isOperand = links.length ∧
      links.length + links.countP (fun link => 1 < link.folded.length) ≤
        items.countP Item.isOperator := by
  induction links with
  | nil => exact ⟨[], rfl, by simp, rfl, Nat.le_refl 0⟩
  | cons link links ih =>
    obtain ⟨hboundLink, hboundLinks⟩ := List.forall_mem_cons.1 hbound
    obtain ⟨first, hfirst, hfirstBinding, hfirstOperands, hfirstOperators⟩ :=
      link.exists_counted hboundLink
    obtain ⟨items, hitems, hbinding, hoperands, hoperators⟩ := ih hboundLinks
    have hpos : 0 < link.folded.length := List.length_pos_of_ne_nil link.isSignRun_folded.1
    refine ⟨first ++ items, ?_, ?_, ?_, ?_⟩
    · rw [List.flatMap_cons]
      exact Item.ofTokens_append hfirst hitems
    · exact List.forall_mem_append.2 ⟨hfirstBinding, hbinding⟩
    · rw [List.countP_append, hfirstOperands, hoperands, List.length_cons, Nat.add_comm]
    · rw [List.countP_append, List.countP_cons, List.length_cons]
      by_cases hlong : 1 < link.folded.length
      · rw [if_pos (decide_eq_true hlong)]
        omega
      · rw [if_neg (by simpa using hlong)]
        omega

theorem Chain.evaluateExpression_of_long (lexing : Lexing)
    (hbound : ∀ name ∈ chain.names, (store.get? name).isSome = true)
    (hlong : ∃ link ∈ chain.links, 1 < link.folded.length) :
    evaluateExpression lexing store chain.text = .error .invalidExpression := by
  obtain ⟨hfirst, hlinks⟩ := isSome_of_mem_names hbound
  obtain ⟨operand, hitem, hbinding, -⟩ := chain.first.exists_operand hfirst
  obtain ⟨items, hitems, hbindings, hoperands, hoperators⟩ := exists_counted_links hlinks
  have hall : Item.ofTokens store chain.tokens = .ok (.operand operand :: items) :=
    Item.ofTokens_append hitem hitems
  have hevaluate : evaluateExpression lexing store chain.text =
      evaluateItems (.operand operand :: items) := by
    rw [evaluateExpression, chain.tokenize_text lexing]
    exact congrArg (· >>= evaluateItems) hall
  have hnone : ∀ item ∈ Item.operand operand :: items, item.isBinding = false :=
    List.forall_mem_cons.2 ⟨hbinding, hbindings⟩
  have hcount : 0 < chain.links.countP fun link => 1 < link.folded.length := by
    rw [List.countP_pos_iff]
    simpa using hlong
  rw [hevaluate]
  cases hresult : evaluateItems (.operand operand :: items) with
  | error failure => rw [evaluateItems_eq_error hresult]
  | ok evaluation =>
    -- The operands outnumber the operators in whatever evaluates.
    have hlt := countP_isOperator_lt_of_evaluateItems hnone ⟨_, List.mem_cons_self, rfl⟩ hresult
    rw [List.countP_cons_of_neg (by simp [Item.isOperator]), List.countP_cons_of_pos rfl] at hlt
    omega

/-! ### Summed or refused -/

theorem Link.foldSigns_run (link : Link) : foldSigns link.run = .ok link.folded := by
  have hproduct : ∀ c, isSign c = false → c ∉ link.run := by
    intro c hsign hmem
    rw [link.hrun.2 c hmem] at hsign
    cases hsign
  have hblank : ∀ c ∈ link.folded, isBlank c = false := by
    intro c hc
    rw [Bool.eq_false_iff]
    intro hblank
    have hsign := not_isSign_of_isBlank hblank
    rw [link.isSignRun_folded.2 c hc] at hsign
    cases hsign
  rw [foldSigns_eq_ok_iff]
  refine ⟨hasRepeatedProduct_of_not_mem (hproduct '*' rfl) (hproduct '/' rfl), ?_⟩
  exact (trim_eq_self (fun c hc => hblank c (List.mem_of_head? hc))
    fun c hc => hblank c (List.mem_of_getLast? hc)).symm

theorem Link.foldSigns_run_eq_singleton_iff (link : Link) {sign : Char} :
    foldSigns link.run = .ok [sign] ↔ link.folded = [sign] := by
  rw [link.foldSigns_run, Except.ok.injEq]

theorem Link.one_lt_length_folded (link : Link) (h : ∀ sign, link.folded ≠ [sign]) :
    1 < link.folded.length := by
  obtain ⟨sign, signs, hfolded⟩ := List.exists_cons_of_ne_nil link.isSignRun_folded.1
  cases signs with
  | nil => exact absurd hfolded (h sign)
  | cons second signs => simp [hfolded]

/-- What a chain answers when its runs are folded to one sign each, and when they are not. -/
structure Chain.Summed (lexing : Lexing) (store : Store) (chain : Chain) : Prop where
  single : (∀ link ∈ chain.links, ∃ sign, foldSigns link.run = .ok [sign]) →
    ∃ value, chain.value? store = some value ∧
      (evaluateLine lexing chain.text).run store = .ok (.value value) store
  long : (∃ link ∈ chain.links, ∀ sign, foldSigns link.run ≠ .ok [sign]) →
    (evaluateLine lexing chain.text).run store = .error .invalidExpression store
  /-- No summand is ever taken with the wrong sign. -/
  signed : ∀ evaluation after, (evaluateLine lexing chain.text).run store = .ok evaluation after →
    ∃ value, chain.value? store = some value ∧ evaluation = .value value

theorem Chain.summed (chain : Chain) (lexing : Lexing)
    (hbound : ∀ name ∈ chain.names, (store.get? name).isSome = true) :
    Summed lexing store chain := by
  have hrun := run_evaluateLine_of_not_mem lexing store chain.equals_not_mem
  have hsingle : (∀ link ∈ chain.links, ∃ sign, link.folded = [sign]) →
      ∃ value, chain.value? store = some value ∧
        (evaluateLine lexing chain.text).run store = .ok (.value value) store := by
    intro hall
    obtain ⟨value, hvalue, hevaluate⟩ := chain.evaluateExpression_of_single lexing hbound hall
    rw [hrun, hevaluate]
    exact ⟨value, hvalue, rfl⟩
  have hlong : (∃ link ∈ chain.links, ∀ sign, link.folded ≠ [sign]) →
      (evaluateLine lexing chain.text).run store = .error .invalidExpression store := by
    rintro ⟨link, hlink, hnone⟩
    have hlength := link.one_lt_length_folded hnone
    rw [hrun, chain.evaluateExpression_of_long lexing hbound ⟨link, hlink, hlength⟩]
    rfl
  constructor
  case single => simpa only [Link.foldSigns_run_eq_singleton_iff] using hsingle
  case long => simpa only [Ne, Link.foldSigns_run_eq_singleton_iff] using hlong
  case signed =>
    intro evaluation after hanswer
    by_cases hall : ∀ link ∈ chain.links, ∃ sign, link.folded = [sign]
    · obtain ⟨value, hvalue, hsummed⟩ := hsingle hall
      rw [hsummed] at hanswer
      cases hanswer
      exact ⟨value, hvalue, rfl⟩
    · simp only [not_forall, not_exists] at hall
      obtain ⟨link, hlink, hnone⟩ := hall
      rw [hlong ⟨link, hlink, hnone⟩] at hanswer
      cases hanswer

theorem Chain.summed_mixed :
    (evaluateLine .strict ['x', '-', '-', 'y', ' ', '-', '+', ' ', '2']).run
        (Store.ofList [(['x'], 5), (['y'], 3)]) =
      .ok (.value (Operator.subtraction.apply (Operator.addition.apply 5 3) 2))
        (Store.ofList [(['x'], 5), (['y'], 3)]) ∧
    (evaluateLine .permissive ['y', '+', '-', '+', 'x']).run (Store.ofList [(['x'], 5), (['y'], 3)]) =
      .error .invalidExpression (Store.ofList [(['x'], 5), (['y'], 3)]) := by
  have hx : (Store.ofList [(['x'], 5), (['y'], 3)]).get? ['x'] = some 5 := by
    simp [Store.ofList, Store.get?_assign]
  have hy : (Store.ofList [(['x'], 5), (['y'], 3)]).get? ['y'] = some 3 := by
    simp [Store.ofList, Store.get?_assign]
  have hbound : ∀ name ∈ [['x'], ['y']],
      ((Store.ofList [(['x'], 5), (['y'], 3)]).get? name).isSome = true := by simp [hx, hy]
  have htwo : Number.read? ['2'] = some 2 := by decide +kernel
  have hminuses : IsSignRun ['-', '-'] := ⟨by simp, by simp [isSign]⟩
  have hminusPlus : IsSignRun ['-', '+'] := ⟨by simp, by simp [isSign]⟩
  have hmixed : IsSignRun ['+', '-', '+'] := ⟨by simp, by simp [isSign]⟩
  constructor
  · have hsummed := Chain.summed ⟨.name ['x'] rfl,
      [⟨[], ['-', '-'], [], .name ['y'] rfl, blank_nil, hminuses, blank_nil⟩,
        ⟨[' '], ['-', '+'], [' '], .number ['2'] (.whole ⟨by simp, by simp⟩), blank_space, hminusPlus,
          blank_space⟩]⟩ .strict hbound
    obtain ⟨value, hvalue, hrun⟩ := hsummed.single
      (List.forall_mem_cons.2 ⟨⟨'+', rfl⟩, List.forall_mem_singleton.2 ⟨'-', rfl⟩⟩)
    have hsum : Operator.subtraction.apply (Operator.addition.apply 5 3) 2 = value := by
      simpa [value?, Link.sum?, Summand.value?, hx, hy, htwo, Link.operator] using hvalue
    rw [hsum]
    exact hrun
  · have hsummed := Chain.summed ⟨.name ['y'] rfl,
      [⟨[], ['+', '-', '+'], [], .name ['x'] rfl, blank_nil, hmixed, blank_nil⟩]⟩ .permissive
        fun name hname => hbound name (by simpa [names, Summand.names, or_comm] using hname)
    have hleft : foldSigns ['+', '-', '+'] = .ok ['-', '+'] := rfl
    refine hsummed.long ⟨_, List.mem_cons_self, fun sign hsign => ?_⟩
    rw [hleft] at hsign
    cases hsign

end LineCalculator
