import LineCalculator.Proofs.Token.Gaps
import LineCalculator.Token.Scanner

/-!
# What a scanner meets

A text is parted into gaps and tokens in one way, since the first gap goes up to the first character
that starts a token and the token behind it is as long as it can be. A permissive scanner meets these
tokens one after the other and nothing but the end behind them. A strict one meets the same tokens up
to the first gap with more than blanks in it, where it fails with what the gap holds.
-/

namespace LineCalculator

variable {gaps : List Text} {tokens : List Token} {text : Text}

/-! ### One way to part a text -/

theorem Parted.of_next?_eq_none (h : Parted gaps tokens text) (hnext : next? text = none) :
    gaps = [gap text] ∧ tokens = [] := by
  cases h with
  | last h => exact ⟨by rw [next?_eq_none hnext], rfl⟩
  | token h hlexeme hends hrest =>
    rw [next?_gap_token h hlexeme hends] at hnext
    cases hnext

theorem Parted.of_next?_eq_some (h : Parted gaps tokens text) {token : Token} {rest : Text}
    (hnext : next? text = some (token, rest)) :
    ∃ behind after, gaps = gap text :: behind ∧ tokens = token :: after ∧ Parted behind after rest := by
  cases h with
  | last h =>
    rw [next?_gap h] at hnext
    cases hnext
  | @token skipped rest' token' behind after h hlexeme hends hrest =>
    rw [next?_gap_token h hlexeme hends] at hnext
    cases hnext
    exact ⟨behind, after, by rw [gap_gap_token h hlexeme hends], rfl, hrest⟩

theorem Parted.exists_eq_cons (h : Parted gaps tokens text) : ∃ behind, gaps = gap text :: behind := by
  cases hnext : next? text with
  | none => exact ⟨[], (h.of_next?_eq_none hnext).1⟩
  | some pair =>
    obtain ⟨behind, after, hgaps, -⟩ := h.of_next?_eq_some hnext
    exact ⟨behind, hgaps⟩

theorem Parted.unique {gaps others : List Text} {tokens more : List Token} {text : Text}
    (h : Parted gaps tokens text) (hother : Parted others more text) :
    others = gaps ∧ more = tokens := by
  cases hnext : next? text with
  | none =>
    obtain ⟨rfl, rfl⟩ := h.of_next?_eq_none hnext
    exact hother.of_next?_eq_none hnext
  | some pair =>
    obtain ⟨token, rest⟩ := pair
    obtain ⟨behind, after, rfl, rfl, hrest⟩ := h.of_next?_eq_some hnext
    obtain ⟨behind', after', rfl, rfl, hrest'⟩ := hother.of_next?_eq_some hnext
    obtain ⟨rfl, rfl⟩ := Parted.unique hrest hrest'
    exact ⟨rfl, rfl⟩
termination_by text.length
decreasing_by exact next?_length_lt hnext

/-! ### The moves of a scanner -/

theorem Lexing.checkGap_permissive (skipped : Text) : Lexing.permissive.checkGap skipped = .ok () := by
  simp [checkGap, pure, Except.pure]

namespace Scanner

/-- A report without a failure, by its token. -/
def met (token : Option Token) : Option Failure × Option Token :=
  (none, token)

/-- What is reported when a scanner is made and moved on a number of times. -/
def reports (lexing : Lexing) (text : Text) (count : Nat) : List (Option Failure × Option Token) :=
  match start lexing text with
  | .ok scanner => met scanner.current :: scanner.moves count
  | .error failure => [(some failure, none)]

variable {scanner : Scanner}

theorem moves_of_rest_eq_nil (h : scanner.rest = []) (count : Nat) :
    scanner.moves count = List.replicate count (met none) := by
  induction count generalizing scanner with
  | zero => rfl
  | succ count ih =>
    have hcheck : scanner.lexing.checkGap (gap []) = .ok () := by
      cases scanner.lexing <;> rfl
    have hnext : next? [] = none := rfl
    simp only [moves, run_advance, h, hcheck, hnext]
    rw [ih rfl, List.replicate_succ]
    rfl

theorem moves_of_next?_eq_some {token : Token} {rest : Text}
    (hcheck : scanner.lexing.checkGap (gap scanner.rest) = .ok ())
    (hnext : next? scanner.rest = some (token, rest)) (count : Nat) :
    scanner.moves (count + 1) =
      met (some token) :: { scanner with rest, current := some token }.moves count := by
  simp only [moves, run_advance, hcheck, hnext]
  rfl

theorem moves_of_next?_eq_none (hcheck : scanner.lexing.checkGap (gap scanner.rest) = .ok ())
    (hnext : next? scanner.rest = none) (count : Nat) :
    scanner.moves count = List.replicate count (met none) := by
  cases count with
  | zero => rfl
  | succ count =>
    simp only [moves, run_advance, hcheck, hnext]
    rw [moves_of_rest_eq_nil rfl, List.replicate_succ]
    rfl

theorem moves_of_checkGap_eq_error {failure : Failure}
    (hcheck : scanner.lexing.checkGap (gap scanner.rest) = .error failure) (count : Nat) :
    scanner.moves (count + 1) = (some failure, scanner.current) :: scanner.moves count := by
  simp only [moves, run_advance, hcheck]

/-- Making a scanner is its first move. -/
theorem reports_eq (lexing : Lexing) (text : Text) (count : Nat) :
    reports lexing text count =
      match lexing.checkGap (gap text) with
      | .ok () => moves { lexing, rest := text } (count + 1)
      | .error failure => [(some failure, none)] := by
  rw [reports, start, moves, run_advance]
  cases lexing.checkGap (gap text) with
  | error failure => rfl
  | ok done => cases next? text <;> rfl

/-! ### Permissive scanners -/

theorem moves_permissive (hlexing : scanner.lexing = .permissive)
    (h : Parted gaps tokens scanner.rest) (count : Nat) :
    scanner.moves count = (List.range count).map fun index => met tokens[index]? := by
  induction count generalizing scanner gaps tokens with
  | zero => rfl
  | succ count ih =>
    have hcheck : scanner.lexing.checkGap (gap scanner.rest) = .ok () := by
      rw [hlexing, Lexing.checkGap_permissive]
    cases hnext : next? scanner.rest with
    | none =>
      obtain ⟨-, rfl⟩ := h.of_next?_eq_none hnext
      rw [moves_of_next?_eq_none hcheck hnext]
      simp
    | some pair =>
      obtain ⟨token, rest⟩ := pair
      obtain ⟨behind, after, rfl, rfl, hrest⟩ := h.of_next?_eq_some hnext
      have hmoves := @ih _ _ { scanner with rest, current := some token } hlexing hrest
      rw [moves_of_next?_eq_some hcheck hnext, hmoves, List.range_succ_eq_map, List.map_cons,
        List.map_map]
      rfl

theorem reports_permissive (h : Parted gaps tokens text) (count : Nat) :
    reports .permissive text count = (List.range (count + 1)).map fun index => met tokens[index]? := by
  rw [reports_eq, Lexing.checkGap_permissive]
  exact moves_permissive rfl h (count + 1)

/-! ### Strict scanners -/

theorem checkGap_of_blank (hlexing : scanner.lexing = .strict) (h : trim (gap scanner.rest) = []) :
    scanner.lexing.checkGap (gap scanner.rest) = .ok () := by
  rw [hlexing, Lexing.checkGap_strict, if_pos h]

theorem checkGap_of_not_blank (hlexing : scanner.lexing = .strict)
    (h : trim (gap scanner.rest) ≠ []) :
    scanner.lexing.checkGap (gap scanner.rest) = .error (.invalidToken (trim (gap scanner.rest))) := by
  rw [hlexing, Lexing.checkGap_strict, if_neg h]

/-- Up to its first failure a strict scanner meets what a permissive one does. -/
theorem takeWhile_moves_strict (hlexing : scanner.lexing = .strict)
    (h : Parted gaps tokens scanner.rest) (count : Nat) :
    ((scanner.moves count).takeWhile fun report => report.1.isNone) <+:
      (List.range count).map fun index => met tokens[index]? := by
  induction count generalizing scanner gaps tokens with
  | zero => exact List.prefix_rfl
  | succ count ih =>
    by_cases hblank : trim (gap scanner.rest) = []
    · have hcheck := checkGap_of_blank hlexing hblank
      cases hnext : next? scanner.rest with
      | none =>
        obtain ⟨-, rfl⟩ := h.of_next?_eq_none hnext
        rw [moves_of_next?_eq_none hcheck hnext]
        simp [met]
      | some pair =>
        obtain ⟨token, rest⟩ := pair
        obtain ⟨behind, after, rfl, rfl, hrest⟩ := h.of_next?_eq_some hnext
        have hmoves := @ih _ _ { scanner with rest, current := some token } hlexing hrest
        rw [moves_of_next?_eq_some hcheck hnext, List.range_succ_eq_map, List.map_cons, List.map_map]
        exact List.cons_prefix_cons.2 ⟨rfl, hmoves⟩
    · rw [moves_of_checkGap_eq_error (checkGap_of_not_blank hlexing hblank)]
      exact List.nil_prefix

/-- A strict scanner that is moved behind the last token has failed at the first gap with more than blanks in it. -/
theorem first_failure_moves_strict (hlexing : scanner.lexing = .strict)
    (h : Parted gaps tokens scanner.rest) {count : Nat} (hcount : tokens.length < count) :
    ((scanner.moves count).findIdx? fun report => report.1.isSome) =
        (gaps.findIdx? fun skipped => trim skipped ≠ []) ∧
      (scanner.moves count).findSome? Prod.fst = (unlexed? gaps).map .invalidToken := by
  induction count generalizing scanner gaps tokens with
  | zero => omega
  | succ count ih =>
    obtain ⟨behind, rfl⟩ := h.exists_eq_cons
    rw [List.findIdx?_cons, unlexed?_cons]
    by_cases hblank : trim (gap scanner.rest) = []
    · have hcheck := checkGap_of_blank hlexing hblank
      cases hnext : next? scanner.rest with
      | none =>
        obtain ⟨hbehind, -⟩ := h.of_next?_eq_none hnext
        obtain ⟨-, rfl⟩ := List.cons.inj hbehind
        rw [moves_of_next?_eq_none hcheck hnext]
        simp [hblank, met, unlexed?]
      | some pair =>
        obtain ⟨token, rest⟩ := pair
        obtain ⟨behind, after, hbehind, rfl, hrest⟩ := h.of_next?_eq_some hnext
        obtain ⟨-, rfl⟩ := List.cons.inj hbehind
        obtain ⟨hindex, hfailure⟩ :=
          @ih _ _ { scanner with rest, current := some token } hlexing hrest
            (Nat.lt_of_succ_lt_succ hcount)
        rw [moves_of_next?_eq_some hcheck hnext, List.findIdx?_cons, List.findSome?_cons]
        simp [hblank, met, hindex, hfailure]
    · rw [moves_of_checkGap_eq_error (checkGap_of_not_blank hlexing hblank), List.findIdx?_cons,
        List.findSome?_cons]
      simp [hblank]

theorem takeWhile_reports_strict (h : Parted gaps tokens text) (count : Nat) :
    ((reports .strict text count).takeWhile fun report => report.1.isNone) <+:
      reports .permissive text count := by
  rw [reports_permissive h, reports_eq, Lexing.checkGap_strict]
  by_cases hblank : trim (gap text) = []
  · rw [if_pos hblank]
    exact takeWhile_moves_strict rfl h (count + 1)
  · rw [if_neg hblank]
    exact List.nil_prefix

theorem first_failure_reports_strict (h : Parted gaps tokens text) {count : Nat}
    (hcount : tokens.length ≤ count) :
    ((reports .strict text count).findIdx? fun report => report.1.isSome) =
        (gaps.findIdx? fun skipped => trim skipped ≠ []) ∧
      (reports .strict text count).findSome? Prod.fst = (unlexed? gaps).map .invalidToken := by
  rw [reports_eq, Lexing.checkGap_strict]
  by_cases hblank : trim (gap text) = []
  · rw [if_pos hblank]
    exact first_failure_moves_strict rfl h (Nat.lt_succ_of_le hcount)
  · obtain ⟨behind, rfl⟩ := h.exists_eq_cons
    rw [if_neg hblank, unlexed?_cons, if_neg hblank]
    simp [List.findIdx?_cons, hblank]

end Scanner

/-! ### What a text scans as -/

/-- A text scans as the tokens between given gaps. -/
structure ScansAs (text : Text) (gaps : List Text) (tokens : List Token) : Prop where
  parted : Parted gaps tokens text
  /-- No gap holds a character that could start a token. -/
  unlexed : ∀ skipped ∈ gaps, ∀ c ∈ skipped, c.isDigit = false ∧ c.isAlpha = false ∧
    c ∉ ['_', '(', ')', '*', '/', '+', '^', '-']
  /-- A permissive scanner meets the tokens in order, then the end, and never fails. -/
  permissive : ∀ count, Scanner.reports .permissive text count =
    (List.range (count + 1)).map fun index => (none, tokens[index]?)
  /-- A strict scanner meets the same up to its first failure. -/
  strict : ∀ count, ((Scanner.reports .strict text count).takeWhile fun report => report.1.isNone) <+:
    Scanner.reports .permissive text count
  /-- It fails first where the first gap with more than blanks in it stands, and with what that gap holds. -/
  refused : ∀ count, tokens.length ≤ count →
    ((Scanner.reports .strict text count).findIdx? fun report => report.1.isSome) =
        (gaps.findIdx? fun skipped => trim skipped ≠ []) ∧
      (Scanner.reports .strict text count).findSome? Prod.fst = (unlexed? gaps).map .invalidToken

theorem scansAs_of_parted (h : Parted gaps tokens text) : ScansAs text gaps tokens where
  parted := h
  unlexed := by
    intro skipped hmem c hc
    have hnone := (h.of_mem_gaps hmem).2 c hc
    rw [← Bool.not_eq_true, startsToken_iff, not_or, not_or, Bool.not_eq_true, Bool.not_eq_true] at hnone
    exact hnone
  permissive := Scanner.reports_permissive h
  strict := Scanner.takeWhile_reports_strict h
  refused := fun _ => Scanner.first_failure_reports_strict h

/-- Every text has one decomposition into gaps and tokens, and scanners find it. -/
theorem exists_unique_scansAs (text : Text) :
    ∃ gaps tokens, ScansAs text gaps tokens ∧
      ∀ others more, Parted others more text → others = gaps ∧ more = tokens := by
  obtain ⟨gaps, tokens, hparted⟩ := exists_parted text
  exact ⟨gaps, tokens, scansAs_of_parted hparted, fun _ _ => hparted.unique⟩

theorem exists_unique_scansAs_points :
    Scanner.reports .permissive ['1', '.', '2', '.', '3'] 2 =
        [(none, some ⟨['1', '.', '2'], .number⟩), (none, some ⟨['3'], .number⟩), (none, none)] ∧
      ((Scanner.reports .strict ['1', '.', '2', '.', '3'] 2).findIdx? fun report => report.1.isSome) = some 1 ∧
      (Scanner.reports .strict ['1', '.', '2', '.', '3'] 2).findSome? Prod.fst = some (.invalidToken ['.']) := by
  obtain ⟨gaps, tokens, hscans, hunique⟩ := exists_unique_scansAs ['1', '.', '2', '.', '3']
  have hone : IsDigits ['1'] := ⟨by simp, by simp⟩
  have htwo : IsDigits ['2'] := ⟨by simp, by simp⟩
  have hthree : IsDigits ['3'] := ⟨by simp, by simp⟩
  have hnone : ∀ c ∈ ([] : Text), startsToken c = false := by simp
  have hpoint : ∀ c ∈ ['.'], startsToken c = false := List.forall_mem_singleton.2 rfl
  have hparted : Parted [[], ['.'], []] [⟨['1', '.', '2'], .number⟩, ⟨['3'], .number⟩]
      ['1', '.', '2', '.', '3'] :=
    .token hnone (.number (.decimal hone htwo)) ⟨by simp, by simp⟩
      (.token hpoint (.number (.whole hthree)) ⟨by simp, by simp⟩ (.last hnone))
  obtain ⟨rfl, rfl⟩ := hunique _ _ hparted
  exact ⟨hscans.permissive 2, hscans.refused 2 (Nat.le_refl 2)⟩

end LineCalculator
