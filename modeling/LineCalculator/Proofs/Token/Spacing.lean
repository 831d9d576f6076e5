import LineCalculator.Proofs.SignRun.Locality
import LineCalculator.Token.Cut

/-!
# Tokens written out

Tokens are written one after the other with blanks between them, and where two of them may touch the
blanks may be missing. Tokenizing gives such a text's tokens back if no two tokens touch that would
be read as one or would be folded. With a space between all of them that is always so, which is why
a joined text has the tokens that it was joined from.
-/

namespace LineCalculator

/-- Tokens with blanks between them, or without where `touch` allows it. -/
inductive Spaced (touch : Token → Token → Prop) : List Token → Text → Prop
  | single (token : Token) : Spaced touch [token] token.content
  | cons {token next : Token} {tokens : List Token} {blanks rest : Text}
      (hblanks : ∀ c ∈ blanks, isBlank c = true) (htouch : blanks = [] → touch token next)
      (hrest : Spaced touch (next :: tokens) rest) :
      Spaced touch (token :: next :: tokens) (token.content ++ (blanks ++ rest))

theorem Spaced.touching {touch : Token → Token → Prop} {token next : Token} {tokens : List Token}
    {rest : Text} (htouch : touch token next) (hrest : Spaced touch (next :: tokens) rest) :
    Spaced touch (token :: next :: tokens) (token.content ++ rest) := by
  exact .cons blank_nil (fun _ => htouch) hrest

theorem Spaced.of_isChain {touch : Token → Token → Prop} {tokens : List Token} {text : Text}
    (h : Spaced (fun _ _ => True) tokens text) (hchain : tokens.IsChain touch) :
    Spaced touch tokens text := by
  induction h with
  | single token => exact .single token
  | cons hblanks _ _ ih =>
    rw [List.isChain_cons_cons] at hchain
    exact .cons hblanks (fun _ => hchain.1) (ih hchain.2)

theorem spaced_joinTokens (touch : Token → Token → Prop) {tokens : List Token} (h : tokens ≠ []) :
    Spaced touch tokens (joinTokens tokens) := by
  induction tokens with
  | nil => exact absurd rfl h
  | cons token rest ih =>
    cases rest with
    | nil =>
      rw [joinTokens_singleton]
      exact .single token
    | cons next rest =>
      rw [joinTokens_cons_cons]
      exact .cons blank_space (fun hnil => absurd hnil (by simp)) (ih (by simp))

/-! ### The characters at the ends of a token -/

theorem IsLexeme.content_ne_nil {token : Token} (h : IsLexeme token) : token.content ≠ [] := by
  cases h with
  | number hnumber =>
    obtain ⟨c, rest, rfl, -⟩ := hnumber.exists_cons
    simp
  | identifier hidentifier =>
    obtain ⟨⟨c, hhead, -⟩, -⟩ := hidentifier
    rintro rfl
    cases hhead
  | operator => simp
  | punctuation => simp

theorem IsLexeme.not_isBlank {token : Token} (h : IsLexeme token) {c : Char}
    (hc : c ∈ token.content) :
    isBlank c = false := by
  rcases h.startsToken_or_point hc with hstart | rfl
  · exact not_isBlank_of_startsToken hstart
  · decide

theorem Token.endsBefore_of_head? (token : Token) {rest : Text}
    (h : ∀ c ∈ rest.head?, isNamePart c = false ∧ c ≠ '.') : token.EndsBefore rest := by
  have hdigit : ∀ c ∈ rest.head?, c.isDigit = false := fun c hc => by
    have hpart := (h c hc).1
    simp only [isNamePart, Char.isAlphanum, Bool.or_eq_false_iff] at hpart
    exact hpart.1.2
  unfold EndsBefore
  split
  · refine ⟨hdigit, ?_⟩
    rintro - d after rfl
    exact absurd rfl (h '.' rfl).2
  · exact fun c hc => (h c hc).1
  all_goals trivial

/-- What is put behind a text does not make its tokens longer, unless it starts with what goes on with one. -/
theorem Token.EndsBefore.append {token : Token} {rest tail : Text} (h : token.EndsBefore rest)
    (htail : ∀ c ∈ tail.head?, isNamePart c = false ∧ c ≠ '.') : token.EndsBefore (rest ++ tail) := by
  cases rest with
  | nil => exact token.endsBefore_of_head? htail
  | cons c rest =>
    unfold EndsBefore at h ⊢
    split at h
    · refine ⟨h.1, fun hpoint d after heq => ?_⟩
      rw [List.cons_append, List.cons.injEq] at heq
      obtain ⟨rfl, heq⟩ := heq
      cases rest with
      | nil =>
        have hpart := (htail d (by rw [List.nil_append] at heq; rw [heq]; rfl)).1
        simp only [isNamePart, Char.isAlphanum, Bool.or_eq_false_iff] at hpart
        exact hpart.1.2
      | cons e rest =>
        rw [List.cons_append, List.cons.injEq] at heq
        obtain ⟨rfl, -⟩ := heq
        exact h.2 hpoint e rest rfl
    · exact h
    all_goals trivial

theorem isNamePart_and_ne_point_of_isBlank {c : Char} (h : isBlank c = true) :
    isNamePart c = false ∧ c ≠ '.' := by
  constructor
  · rw [Bool.eq_false_iff]
    intro hpart
    rw [not_isBlank_of_startsToken (startsToken_of_isNamePart hpart)] at h
    cases h
  · rintro rfl
    exact absurd h (by decide)

/-! ### Tokens that may touch -/

/-- Whether a token is one of the signs and parentheses. -/
def Token.isSymbol (token : Token) : Bool :=
  token.kind == .operator || token.kind == .punctuation

/-- Two tokens that are neither read as one nor folded when no blank stands between them. -/
def Token.MayTouch (token next : Token) : Prop :=
  (token.isSymbol = true ∨ next.isSymbol = true) ∧ ¬ (token.kind = .operator ∧ next.kind = .operator)

theorem IsLexeme.endsBefore {token next : Token} (htoken : IsLexeme token) (hnext : IsLexeme next)
    (h : token.MayTouch next) (rest : Text) : token.EndsBefore (next.content ++ rest) := by
  rcases h.1 with hsymbol | hsymbol
  · cases htoken with
    | number => cases hsymbol
    | identifier => cases hsymbol
    | operator => trivial
    | punctuation => trivial
  · apply Token.endsBefore_of_head?
    cases hnext with
    | number => cases hsymbol
    | identifier => cases hsymbol
    | operator hsign =>
      rintro c ⟨rfl⟩
      have hsigns : ['+', '-', '*', '/', '^'].all
        fun sign => isNamePart sign = false ∧ sign ≠ '.' := by decide
      exact of_decide_eq_true (List.all_eq_true.1 hsigns _ hsign)
    | punctuation hsign =>
      rintro c ⟨rfl⟩
      have hsigns : ['(', ')'].all fun sign => isNamePart sign = false ∧ sign ≠ '.' := by decide
      exact of_decide_eq_true (List.all_eq_true.1 hsigns _ hsign)

/-- Two tokens that are read as two and not folded with nothing between them, whatever follows. -/
def Token.PartsFrom (token next : Token) : Prop :=
  (∀ rest : Text, token.EndsBefore (next.content ++ rest)) ∧
    ¬ (token.kind = .operator ∧ next.kind = .operator)

theorem Spaced.partsFrom {tokens : List Token} {text : Text} (h : Spaced Token.MayTouch tokens text)
    (hlexemes : ∀ token ∈ tokens, IsLexeme token) : Spaced Token.PartsFrom tokens text := by
  induction h with
  | single token => exact .single token
  | @cons token next tokens blanks rest hblanks htouch hrest ih =>
    have hlexeme := hlexemes token List.mem_cons_self
    have hmore : ∀ token ∈ next :: tokens, IsLexeme token := fun other hmem =>
      hlexemes other (List.mem_cons_of_mem token hmem)
    have hparts : blanks = [] → token.PartsFrom next := fun hnone =>
      ⟨hlexeme.endsBefore (hmore next List.mem_cons_self) (htouch hnone), (htouch hnone).2⟩
    exact .cons hblanks hparts (ih hmore)

/-- Only operators hold characters that are folded. -/
theorem IsLexeme.kind_of_isFoldable {token : Token} (h : IsLexeme token) {c : Char}
    (hc : c ∈ token.content)
    (hfold : isFoldable c = true) : token.kind = .operator := by
  have hnot : isNamePart c = false ∧ c ≠ '.' := by
    simp only [isFoldable, Bool.or_eq_true, beq_iff_eq] at hfold
    rcases hfold with ((rfl | rfl) | rfl) | rfl <;> decide
  have hdigits : ∀ {digits : Text}, IsDigits digits → c ∉ digits := fun hd hmem => by
    simp [isNamePart, Char.isAlphanum, hd.2 c hmem] at hnot
  cases h with
  | number hnumber =>
    cases hnumber with
    | whole hd => exact absurd hc (hdigits hd)
    | decimal hd hfraction =>
      rw [List.mem_append, List.mem_cons] at hc
      rcases hc with hc | hc | hc
      · exact absurd hc (hdigits hd)
      · exact absurd hc hnot.2
      · exact absurd hc (hdigits hfraction)
  | identifier hidentifier => simp [hidentifier.2 c hc] at hnot
  | operator => rfl
  | punctuation hsign =>
    obtain rfl := List.mem_singleton.1 hc
    have hsigns : ['(', ')'].all fun sign => !isFoldable sign := by decide
    have hnone := List.all_eq_true.1 hsigns _ hsign
    simp [hfold] at hnone

/-! ### Tokenizing what was written -/

variable {tokens : List Token} {text : Text}

theorem Spaced.exists_append {touch : Token → Token → Prop} (h : Spaced touch tokens text) :
    ∃ token more rest, tokens = token :: more ∧ text = token.content ++ rest := by
  cases h with
  | single token => exact ⟨token, [], [], rfl, (List.append_nil _).symm⟩
  | @cons token next more blanks rest => exact ⟨token, next :: more, blanks ++ rest, rfl, rfl⟩

theorem Spaced.exists_mem_content {touch : Token → Token → Prop} (h : Spaced touch tokens text)
    {c : Char}
    (hc : c ∈ text) (hblank : isBlank c = false) : ∃ token ∈ tokens, c ∈ token.content := by
  induction h with
  | single token => exact ⟨token, List.mem_cons_self, hc⟩
  | @cons token next tokens blanks rest hblanks htouch hrest ih =>
    rw [List.mem_append, List.mem_append] at hc
    rcases hc with hc | hc | hc
    · exact ⟨token, List.mem_cons_self, hc⟩
    · simp [hblanks c hc] at hblank
    · obtain ⟨found, hmem, hin⟩ := ih hc
      exact ⟨found, List.mem_cons_of_mem token hmem, hin⟩

theorem Spaced.equals_not_mem {touch : Token → Token → Prop} (h : Spaced touch tokens text)
    (hlexemes : ∀ token ∈ tokens, IsLexeme token) : '=' ∉ text := by
  intro hmem
  obtain ⟨token, htoken, hin⟩ := h.exists_mem_content hmem (by decide)
  exact (hlexemes token htoken).equals_not_mem hin

theorem Cut.append {drops : Char → Bool} {skipped : Text} (hskipped : ∀ c ∈ skipped, drops c = true)
    (h : Cut drops tokens text) : Cut drops tokens (skipped ++ text) := by
  have hall : ∀ {more : Text}, (∀ c ∈ more, drops c = true) → ∀ c ∈ skipped ++ more, drops c = true :=
    fun hmore c hc => (List.mem_append.1 hc).elim (hskipped c) (hmore c)
  cases h with
  | gap hmore => exact .gap (hall hmore)
  | token hmore hlexeme hends hrest =>
    rw [← List.append_assoc]
    exact .token (hall hmore) hlexeme hends hrest

/-- Written out, tokens that end where the next one starts are cut out again. -/
theorem Spaced.cut {touch : Token → Token → Prop} (h : Spaced touch tokens text)
    (hparts : ∀ token next, touch token next → ∀ rest, token.EndsBefore (next.content ++ rest))
    (hlexemes : ∀ token ∈ tokens, IsLexeme token) (lexing : Lexing) :
    Cut lexing.drops tokens text := by
  have hnil : ∀ c ∈ ([] : Text), lexing.drops c = true := by simp
  induction h with
  | single token =>
    have hcut : Cut lexing.drops [token] ([] ++ (token.content ++ [])) :=
      .token hnil (hlexemes token List.mem_cons_self) (token.endsBefore_of_head? (by simp)) (.gap hnil)
    rwa [List.nil_append, List.append_nil] at hcut
  | @cons token next tokens blanks rest hblanks htouch hrest ih =>
    have hlexeme := hlexemes token List.mem_cons_self
    have hmore : ∀ token ∈ next :: tokens, IsLexeme token := fun other hmem =>
      hlexemes other (List.mem_cons_of_mem token hmem)
    have hends : token.EndsBefore (blanks ++ rest) := by
      cases blanks with
      | nil =>
        obtain ⟨first, more, tail, hfirst, rfl⟩ := hrest.exists_append
        obtain ⟨rfl, -⟩ := List.cons.inj hfirst
        exact hparts _ _ (htouch rfl) tail
      | cons c tail =>
        apply token.endsBefore_of_head?
        rintro d ⟨rfl⟩
        exact isNamePart_and_ne_point_of_isBlank (hblanks c List.mem_cons_self)
    have hgap := (ih hmore).append fun c hc => lexing.drops_of_isBlank (hblanks c hc)
    exact .token hnil hlexeme hends hgap

theorem IsLexeme.signsApart {token : Token} (h : IsLexeme token) : SignsApart token.content := by
  by_cases hkind : token.kind = .operator
  · cases h with
    | number => cases hkind
    | identifier => cases hkind
    | operator => exact List.isChain_singleton _
    | punctuation => cases hkind
  · refine signsApart_of_forall fun c hc => ?_
    rw [Bool.eq_false_iff]
    intro hfold
    exact hkind (h.kind_of_isFoldable hc hfold)

theorem Spaced.signsApart (h : Spaced Token.PartsFrom tokens text)
    (hlexemes : ∀ token ∈ tokens, IsLexeme token) : SignsApart text := by
  induction h with
  | single token => exact (hlexemes token List.mem_cons_self).signsApart
  | @cons token next tokens blanks rest hblanks htouch hrest ih =>
    have hlexeme := hlexemes token List.mem_cons_self
    have hmore : ∀ token ∈ next :: tokens, IsLexeme token := fun other hmem =>
      hlexemes other (List.mem_cons_of_mem token hmem)
    have hnot : ∀ c ∈ blanks, isFoldable c = false := fun c hc =>
      not_isFoldable_of_isBlank (hblanks c hc)
    have hright : SignsApart (blanks ++ rest) := by
      refine (signsApart_of_forall hnot).append (ih hmore) fun c hc d _ hboth => ?_
      rw [hnot c (List.mem_of_getLast? hc)] at hboth
      cases hboth.1
    refine hlexeme.signsApart.append hright fun c hc d hd hboth => ?_
    have hoperator := hlexeme.kind_of_isFoldable (List.mem_of_getLast? hc) hboth.1
    cases blanks with
    | nil =>
      obtain ⟨first, more, tail, hfirst, rfl⟩ := hrest.exists_append
      obtain ⟨rfl, -⟩ := List.cons.inj hfirst
      have hnext := hmore next List.mem_cons_self
      have hmem : d ∈ next.content := by
        rw [List.nil_append, List.head?_append_of_ne_nil _ hnext.content_ne_nil] at hd
        exact List.mem_of_head? hd
      exact (htouch rfl).2 ⟨hoperator, hnext.kind_of_isFoldable hmem hboth.2⟩
    | cons e tail =>
      obtain rfl : e = d := by simpa using hd
      simp [hnot e List.mem_cons_self] at hboth

theorem Spaced.trim_eq {touch : Token → Token → Prop} (h : Spaced touch tokens text)
    (hlexemes : ∀ token ∈ tokens, IsLexeme token) : trim text = text := by
  apply trim_eq_self
  · intro c hc
    obtain ⟨token, more, rest, rfl, rfl⟩ := h.exists_append
    have hlexeme := hlexemes token List.mem_cons_self
    rw [List.head?_append_of_ne_nil _ hlexeme.content_ne_nil] at hc
    exact hlexeme.not_isBlank (List.mem_of_head? hc)
  · induction h with
    | single token =>
      exact fun c hc => (hlexemes token List.mem_cons_self).not_isBlank (List.mem_of_getLast? hc)
    | @cons token next tokens blanks rest hblanks htouch hrest ih =>
      have hmore : ∀ token ∈ next :: tokens, IsLexeme token := fun other hmem =>
        hlexemes other (List.mem_cons_of_mem token hmem)
      have hne : rest ≠ [] := by
        obtain ⟨first, more, tail, hfirst, rfl⟩ := hrest.exists_append
        obtain ⟨rfl, -⟩ := List.cons.inj hfirst
        simp [(hmore next List.mem_cons_self).content_ne_nil]
      intro c hc
      rw [← List.append_assoc, List.getLast?_append_of_ne_nil _ hne] at hc
      exact ih hmore c hc

/-- Tokens written out with blanks around are read again, however lexing treats other characters. -/
theorem tokenize_of_spaced (lexing : Lexing) {left right : Text}
    (h : Spaced Token.PartsFrom tokens text)
    (hlexemes : ∀ token ∈ tokens, IsLexeme token) (hleft : ∀ c ∈ left, isBlank c = true)
    (hright : ∀ c ∈ right, isBlank c = true) :
    tokenize lexing (left ++ text ++ right) = .ok tokens := by
  rw [tokenize, foldSigns_append hleft hright, (h.signsApart hlexemes).foldSigns_eq, h.trim_eq hlexemes]
  exact lex_of_cut (h.cut (fun _ _ hparts => hparts.1) hlexemes lexing)

theorem Spaced.tokenize_eq (h : Spaced Token.PartsFrom tokens text) (lexing : Lexing)
    (hlexemes : ∀ token ∈ tokens, IsLexeme token) : tokenize lexing text = .ok tokens := by
  have htokens := tokenize_of_spaced lexing h hlexemes blank_nil blank_nil
  rwa [List.nil_append, List.append_nil] at htokens

theorem tokenize_joinTokens (lexing : Lexing) (hlexemes : ∀ token ∈ tokens, IsLexeme token) :
    tokenize lexing (joinTokens tokens) = .ok tokens := by
  by_cases hne : tokens = []
  · subst hne
    have hgap : Cut lexing.drops [] [] := .gap (by simp)
    exact lex_of_cut hgap
  · exact (spaced_joinTokens Token.PartsFrom hne).tokenize_eq lexing hlexemes

/-! ### Characters that are never lost -/

theorem hasLetter_joinTokens {lexing : Lexing} (h : tokenize lexing text = .ok tokens)
    (hletter : hasLetter text = true) : hasLetter (joinTokens tokens) = true := by
  obtain ⟨c, hc, halpha⟩ := List.any_eq_true.1 hletter
  have hkept : lexing.drops c = false := by
    rw [Bool.eq_false_iff]
    intro hdrops
    have hstart := Lexing.not_startsToken_of_drops hdrops
    rw [startsToken_of_isAlpha halpha] at hstart
    cases hstart
  have hplus : c ≠ '+' := by
    rintro rfl
    cases halpha
  have hminus : c ≠ '-' := by
    rintro rfl
    cases halpha
  have hspace : c ≠ ' ' := by
    rintro rfl
    cases halpha
  obtain ⟨folded, hfold, hlex⟩ := bind_eq_ok_iff.1 h
  have hin : c ∈ folded := by
    obtain ⟨-, rfl⟩ := foldSigns_eq_ok_iff.1 hfold
    exact (mem_trim_iff (not_isBlank_of_isAlpha halpha)).2 ((mem_rewriteSigns_iff hplus hminus).2 hc)
  have htoken := (cut_of_lex hlex).exists_mem_content hin hkept
  exact List.any_eq_true.2 ⟨c, (mem_joinTokens_iff hspace).2 htoken, halpha⟩

end LineCalculator
