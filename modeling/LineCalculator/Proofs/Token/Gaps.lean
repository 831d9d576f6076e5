import LineCalculator.Token.Cut
import Mathlib.Data.List.Infix

/-!
# The gaps of a text

A text with all that lies between its tokens: one gap before each token and one behind the last.
Permissive lexing drops the gaps whatever is in them. Strict lexing fails with what the leftmost gap
holds besides blanks around it, if there is such a gap, and otherwise finds the same tokens.
-/

namespace LineCalculator

/-- The gaps and the tokens of a text, from left to right. -/
inductive Parted : List Text → List Token → Text → Prop
  | last {skipped : Text} (h : ∀ c ∈ skipped, startsToken c = false) : Parted [skipped] [] skipped
  | token {skipped rest : Text} {token : Token} {gaps : List Text} {tokens : List Token}
      (h : ∀ c ∈ skipped, startsToken c = false) (hlexeme : IsLexeme token)
      (hends : token.EndsBefore rest) (hrest : Parted gaps tokens rest) :
      Parted (skipped :: gaps) (token :: tokens) (skipped ++ (token.content ++ rest))

/-- What the leftmost gap with more than blanks in it holds, trimmed. -/
def unlexed? (gaps : List Text) : Option Text :=
  (gaps.map trim).find? fun skipped => skipped ≠ []

theorem exists_parted (text : Text) : ∃ gaps tokens, Parted gaps tokens text := by
  cases hnext : next? text with
  | none =>
    have hgap : ∀ c ∈ text, startsToken c = false := by
      rw [← next?_eq_none hnext]
      exact fun _ => not_startsToken_of_mem_gap
    exact ⟨[text], [], .last hgap⟩
  | some pair =>
    obtain ⟨token, rest⟩ := pair
    obtain ⟨hlexeme, hends, hsplit⟩ := next?_sound hnext
    obtain ⟨gaps, tokens, hrest⟩ := exists_parted rest
    have hgap : ∀ c ∈ gap text, startsToken c = false := fun _ => not_startsToken_of_mem_gap
    have hparted := Parted.token hgap hlexeme hends hrest
    rw [← hsplit] at hparted
    exact ⟨gap text :: gaps, token :: tokens, hparted⟩
termination_by text.length
decreasing_by exact next?_length_lt hnext

variable {gaps : List Text} {tokens : List Token} {text : Text}

/-! ### Lexing between the gaps -/

theorem Parted.lex_permissive (h : Parted gaps tokens text) : lex .permissive text = .ok tokens := by
  induction h with
  | last h => rw [lex_gap .permissive h]; rfl
  | token h hlexeme hends hrest ih => rw [lex_gap_token .permissive h hlexeme hends, ih]; rfl

theorem unlexed?_cons (skipped : Text) (gaps : List Text) :
    unlexed? (skipped :: gaps) = if trim skipped = [] then unlexed? gaps else some (trim skipped) := by
  by_cases hblank : trim skipped = [] <;> simp [unlexed?, hblank]

theorem Lexing.checkGap_strict (skipped : Text) :
    Lexing.strict.checkGap skipped =
      if trim skipped = [] then .ok () else .error (.invalidToken (trim skipped)) := by
  by_cases hblank : trim skipped = [] <;> simp [checkGap, hblank] <;> rfl

/-- Strict lexing fails at the leftmost gap with more than blanks in it. -/
theorem Parted.lex_strict (h : Parted gaps tokens text) :
    lex .strict text =
      match unlexed? gaps with
      | some skipped => .error (.invalidToken skipped)
      | none => .ok tokens := by
  induction h with
  | @last skipped h =>
    rw [lex_gap .strict h, Lexing.checkGap_strict, unlexed?_cons]
    by_cases hblank : trim skipped = []
    · rw [if_pos hblank, if_pos hblank]
      rfl
    · rw [if_neg hblank, if_neg hblank]
      rfl
  | @token skipped rest token gaps tokens h hlexeme hends hrest ih =>
    rw [lex_gap_token .strict h hlexeme hends, Lexing.checkGap_strict, unlexed?_cons]
    by_cases hblank : trim skipped = []
    · rw [if_pos hblank, if_pos hblank, ih]
      cases unlexed? gaps <;> rfl
    · rw [if_neg hblank, if_neg hblank]
      rfl

theorem Parted.lex_strict_eq_invalidToken_iff (h : Parted gaps tokens text) {skipped : Text} :
    lex .strict text = .error (.invalidToken skipped) ↔ unlexed? gaps = some skipped := by
  rw [h.lex_strict]
  cases unlexed? gaps <;> simp

/-! ### What is in a gap -/

theorem Parted.of_mem_gaps (h : Parted gaps tokens text) {skipped : Text} (hmem : skipped ∈ gaps) :
    skipped <:+: text ∧ ∀ c ∈ skipped, startsToken c = false := by
  induction h with
  | last h =>
    obtain rfl := List.mem_singleton.1 hmem
    exact ⟨List.infix_rfl, h⟩
  | @token found rest token gaps tokens h hlexeme hends hrest ih =>
    rcases List.mem_cons.1 hmem with rfl | hmem
    · exact ⟨(List.prefix_append skipped _).isInfix, h⟩
    · obtain ⟨hwithin, hnone⟩ := ih hmem
      have hsuffix : rest <:+ found ++ (token.content ++ rest) :=
        (List.suffix_append token.content rest).trans (List.suffix_append found _)
      exact ⟨hwithin.trans hsuffix.isInfix, hnone⟩

theorem Parted.of_unlexed? (h : Parted gaps tokens text) {skipped : Text}
    (hskipped : unlexed? gaps = some skipped) :
    skipped <:+: text ∧ ∀ c ∈ skipped, startsToken c = false := by
  obtain ⟨found, hmem, rfl⟩ := List.mem_map.1 (List.mem_of_find?_eq_some hskipped)
  obtain ⟨hwithin, hnone⟩ := h.of_mem_gaps hmem
  exact ⟨(trim_isInfix found).trans hwithin, fun c hc => hnone c (trim_subset found hc)⟩

end LineCalculator
