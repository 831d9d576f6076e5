import LineCalculator.Token.Lexeme

/-!
# Texts cut into tokens

A text is cut into tokens when it is these tokens with gaps between them, and each token is as long
as it can be. There is one way to do it at most, and lexing finds it: permissive lexing allows in a
gap whatever starts no token, strict lexing only blanks.
-/

namespace LineCalculator

/-- The characters that lexing may drop between tokens. -/
def Lexing.drops : Lexing → Char → Bool
  | permissive, c => !startsToken c
  | strict, c => isBlank c

inductive Cut (drops : Char → Bool) : List Token → Text → Prop
  | gap {skipped : Text} (h : ∀ c ∈ skipped, drops c = true) : Cut drops [] skipped
  | token {skipped rest : Text} {token : Token} {tokens : List Token}
      (h : ∀ c ∈ skipped, drops c = true) (hlexeme : IsLexeme token) (hends : token.EndsBefore rest)
      (hrest : Cut drops tokens rest) : Cut drops (token :: tokens) (skipped ++ (token.content ++ rest))

/-! ### Gaps -/

theorem Lexing.not_startsToken_of_drops {lexing : Lexing} {c : Char} (h : lexing.drops c = true) :
    startsToken c = false := by
  cases lexing with
  | permissive => simpa [drops] using h
  | strict => exact not_startsToken_of_isBlank h

theorem Lexing.drops_of_isBlank (lexing : Lexing) {c : Char} (h : isBlank c = true) :
    lexing.drops c = true := by
  cases lexing with
  | permissive => simp [drops, not_startsToken_of_isBlank h]
  | strict => exact h

theorem Lexing.checkGap_eq_ok_iff {lexing : Lexing} {skipped : Text}
    (h : ∀ c ∈ skipped, startsToken c = false) :
    lexing.checkGap skipped = .ok () ↔ ∀ c ∈ skipped, lexing.drops c = true := by
  cases lexing with
  | permissive => simpa [checkGap, drops, pure, Except.pure] using h
  | strict =>
    simp only [checkGap, drops, ← trim_eq_nil_iff]
    split <;> simp_all [throw, throwThe, MonadExceptOf.throw, pure, Except.pure]

theorem not_startsToken_of_mem_gap {text : Text} {c : Char} (h : c ∈ gap text) :
    startsToken c = false := by
  simpa using mem_takeWhile h

theorem gap_append {skipped text : Text} (hskipped : ∀ c ∈ skipped, startsToken c = false)
    (htext : ∀ c ∈ text.head?, startsToken c = true) : gap (skipped ++ text) = skipped :=
  takeWhile_append_of_head? (by simpa using hskipped) (by simpa using htext)

theorem next?_append {skipped text : Text} (hskipped : ∀ c ∈ skipped, startsToken c = false)
    (htext : ∀ c ∈ text.head?, startsToken c = true) : next? (skipped ++ text) = leading? text := by
  rw [next?, dropWhile_append_of_head? (by simpa using hskipped) (by simpa using htext)]

theorem next?_eq_none {text : Text} (h : next? text = none) : gap text = text := by
  have hsplit : gap text ++ text.dropWhile (fun c => !startsToken c) = text :=
    List.takeWhile_append_dropWhile
  rw [next?, leading?_eq_none_iff] at h
  cases hrest : text.dropWhile (fun c => !startsToken c) with
  | nil => rwa [hrest, List.append_nil] at hsplit
  | cons c rest =>
    have hmem : c ∈ (text.dropWhile fun c => !startsToken c).head? := by
      rw [hrest]
      rfl
    have hc := not_of_mem_head?_dropWhile hmem
    rw [hrest] at h
    simp [h c rfl] at hc

theorem next?_sound {text rest : Text} {token : Token} (h : next? text = some (token, rest)) :
    IsLexeme token ∧ token.EndsBefore rest ∧ text = gap text ++ (token.content ++ rest) := by
  obtain ⟨hlexeme, hends, hsplit⟩ := leading?_sound h
  refine ⟨hlexeme, hends, ?_⟩
  rw [← hsplit]
  exact List.takeWhile_append_dropWhile.symm

/-! ### Lexing finds the cut -/

theorem lex_eq (lexing : Lexing) (text : Text) :
    lex lexing text = do
      lexing.checkGap (gap text)
      match next? text with
      | none => return []
      | some (token, rest) => return token :: (← lex lexing rest) := by
  rw [lex]
  cases lexing.checkGap (gap text) with
  | error failure => rfl
  | ok done =>
    simp only [bind, Except.bind]
    split <;> simp_all

theorem gap_gap {skipped : Text} (h : ∀ c ∈ skipped, startsToken c = false) : gap skipped = skipped := by
  have hnone : ∀ c ∈ ([] : Text).head?, startsToken c = true := by simp
  have hgap := gap_append h hnone
  rwa [List.append_nil] at hgap

theorem next?_gap {skipped : Text} (h : ∀ c ∈ skipped, startsToken c = false) : next? skipped = none := by
  have hnone : ∀ c ∈ ([] : Text).head?, startsToken c = true := by simp
  have hnext := next?_append h hnone
  rwa [List.append_nil] at hnext

theorem lex_gap (lexing : Lexing) {skipped : Text} (h : ∀ c ∈ skipped, startsToken c = false) :
    lex lexing skipped = do
      lexing.checkGap skipped
      return [] := by
  rw [lex_eq, gap_gap h, next?_gap h]

section

variable {skipped rest : Text} {token : Token}

theorem startsToken_of_mem_head?_content (hlexeme : IsLexeme token) (hends : token.EndsBefore rest) :
    ∀ c ∈ (token.content ++ rest).head?, startsToken c = true := by
  intro c hc
  rw [← Bool.not_eq_false]
  intro hstart
  have hnone : leading? (token.content ++ rest) = none := leading?_eq_none_iff.2 fun d hd => by
    rwa [← Option.mem_unique hc hd]
  rw [leading?_of_isLexeme hlexeme hends] at hnone
  cases hnone

theorem gap_gap_token (h : ∀ c ∈ skipped, startsToken c = false) (hlexeme : IsLexeme token)
    (hends : token.EndsBefore rest) : gap (skipped ++ (token.content ++ rest)) = skipped :=
  gap_append h (startsToken_of_mem_head?_content hlexeme hends)

theorem next?_gap_token (h : ∀ c ∈ skipped, startsToken c = false) (hlexeme : IsLexeme token)
    (hends : token.EndsBefore rest) :
    next? (skipped ++ (token.content ++ rest)) = some (token, rest) := by
  rw [next?_append h (startsToken_of_mem_head?_content hlexeme hends),
    leading?_of_isLexeme hlexeme hends]

/-- A gap in front of a token is lexed before what stands behind the token. -/
theorem lex_gap_token (lexing : Lexing) (h : ∀ c ∈ skipped, startsToken c = false)
    (hlexeme : IsLexeme token) (hends : token.EndsBefore rest) :
    lex lexing (skipped ++ (token.content ++ rest)) = do
      lexing.checkGap skipped
      return token :: (← lex lexing rest) := by
  rw [lex_eq, gap_gap_token h hlexeme hends, next?_gap_token h hlexeme hends]

end

theorem lex_of_cut {lexing : Lexing} {tokens : List Token} {text : Text}
    (h : Cut lexing.drops tokens text) :
    lex lexing text = .ok tokens := by
  induction h with
  | gap h =>
    have hstarts := fun c hc => Lexing.not_startsToken_of_drops (h c hc)
    rw [lex_gap lexing hstarts, (Lexing.checkGap_eq_ok_iff hstarts).2 h]
    rfl
  | token h hlexeme hends hrest ih =>
    have hstarts := fun c hc => Lexing.not_startsToken_of_drops (h c hc)
    rw [lex_gap_token lexing hstarts hlexeme hends, (Lexing.checkGap_eq_ok_iff hstarts).2 h, ih]
    rfl

theorem cut_of_lex {lexing : Lexing} {tokens : List Token} {text : Text}
    (h : lex lexing text = .ok tokens) :
    Cut lexing.drops tokens text := by
  rw [lex_eq] at h
  obtain ⟨done, hcheck, h⟩ := bind_eq_ok_iff.1 h
  have hdrops := (Lexing.checkGap_eq_ok_iff fun _ => not_startsToken_of_mem_gap).1 hcheck
  cases hnext : next? text with
  | none =>
    rw [hnext] at h
    cases h
    rw [next?_eq_none hnext] at hdrops
    exact .gap hdrops
  | some pair =>
    obtain ⟨token, rest⟩ := pair
    obtain ⟨hlexeme, hends, hsplit⟩ := next?_sound hnext
    rw [hnext] at h
    obtain ⟨more, hrest, hmore⟩ := bind_eq_ok_iff.1 h
    cases hmore
    rw [hsplit]
    exact .token hdrops hlexeme hends (cut_of_lex hrest)
termination_by text.length
decreasing_by exact next?_length_lt hnext

/-! ### Cuts -/

variable {drops : Char → Bool} {tokens : List Token} {text : Text}

theorem Cut.isLexeme (h : Cut drops tokens text) : ∀ token ∈ tokens, IsLexeme token := by
  induction h with
  | gap => simp
  | token _ hlexeme _ _ ih =>
    intro token hmem
    rcases List.mem_cons.1 hmem with rfl | hmem
    · exact hlexeme
    · exact ih token hmem

/-- Every character of a text stands in a token or may be dropped. -/
theorem Cut.exists_mem_content (h : Cut drops tokens text) {c : Char} (hc : c ∈ text)
    (hdrops : drops c = false) :
    ∃ token ∈ tokens, c ∈ token.content := by
  induction h with
  | gap hskipped => simp [hskipped c hc] at hdrops
  | @token skipped rest token tokens hskipped _ _ _ ih =>
    rw [List.mem_append, List.mem_append] at hc
    rcases hc with hc | hc | hc
    · simp [hskipped c hc] at hdrops
    · exact ⟨token, List.mem_cons_self, hc⟩
    · obtain ⟨found, hmem, hin⟩ := ih hc
      exact ⟨found, List.mem_cons_of_mem _ hmem, hin⟩

/-- What is picked from a text apart from what may be dropped is picked from its tokens. -/
theorem Cut.filter_eq (h : Cut drops tokens text) {p : Char → Bool}
    (hdrops : ∀ c, drops c = true → p c = false) :
    text.filter p = tokens.flatMap fun token => token.content.filter p := by
  induction h with
  | gap hskipped => exact filter_eq_nil_of_forall hdrops hskipped
  | token hskipped _ _ _ ih =>
    rw [List.filter_append, List.filter_append, filter_eq_nil_of_forall hdrops hskipped, ih,
      List.nil_append, List.flatMap_cons]

theorem isLexeme_of_mem_tokenize {lexing : Lexing} (h : tokenize lexing text = .ok tokens)
    {token : Token}
    (hmem : token ∈ tokens) : IsLexeme token := by
  obtain ⟨folded, -, hlex⟩ := bind_eq_ok_iff.1 h
  exact (cut_of_lex hlex).isLexeme token hmem

end LineCalculator
