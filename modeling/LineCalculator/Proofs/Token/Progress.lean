import LineCalculator.Proofs.Token.Scanning
import LineCalculator.Proofs.Token.Spacing
import Mathlib.Data.String.Basic

/-!
# How a scanner gets on

A scanner holds what is left of its text. Told by byte indices into the whole text, it stands behind
some characters of it, and a move takes it over a gap and a token, which are the next characters: so
every index is on the boundary of a character, and every slice between two of them is there. A move
that fails changes nothing and therefore fails again. One that meets a token goes on by at least a
byte, and one that meets none has come to the end, where all moves succeed and nothing is left to do.
So going over the tokens comes to an end, and it gives what lexing gives.
-/

namespace LineCalculator

open String (utf8Len)

/-! ### Slices -/

/-- The characters between two byte indices. There are none unless both indices are on boundaries of characters, not past the end, and in order. -/
def slice? (text : Text) (start stop : Nat) : Option Text :=
  if (⟨start⟩ : String.Pos.Raw).IsValid (String.ofList text) ∧
      (⟨stop⟩ : String.Pos.Raw).IsValid (String.ofList text) ∧ start ≤ stop then
    some (String.Pos.Raw.extract (String.ofList text) ⟨start⟩ ⟨stop⟩).toList
  else none

theorem isValid_utf8Len (before behind : Text) :
    (⟨utf8Len before⟩ : String.Pos.Raw).IsValid (String.ofList (before ++ behind)) :=
  String.Pos.Raw.isValid_iff_exists_append.2
    ⟨String.ofList before, String.ofList behind, String.ofList_append,
      (String.rawEndPos_ofList before).symm⟩

theorem slice?_append (before middle behind : Text) :
    slice? (before ++ middle ++ behind) (utf8Len before) (utf8Len before + utf8Len middle) =
      some middle := by
  have hstart := isValid_utf8Len before (middle ++ behind)
  have hstop := isValid_utf8Len (before ++ middle) behind
  rw [← List.append_assoc] at hstart
  rw [String.utf8Len_append] at hstop
  rw [slice?, if_pos ⟨hstart, hstop, Nat.le_add_right _ _⟩, String.extract_of_valid,
    String.toList_ofList]

theorem slice?_append_end (before behind : Text) :
    slice? (before ++ behind) (utf8Len before) (utf8Len (before ++ behind)) = some behind := by
  have hslice := slice?_append before behind []
  rwa [List.append_nil, ← String.utf8Len_append] at hslice

/-! ### Scanners by byte indices -/

/-- A scanner that holds the whole text and the byte index at which it goes on. -/
structure Cursor where
  lexing : Lexing
  text : Text
  index : Nat := 0
  current : Option Token := none
deriving DecidableEq

namespace Cursor

/-- Where the next token starts and where it ends; without one both are the end of the text. -/
def find? (cursor : Cursor) : Option (Nat × Nat × Option Token) := do
  let rest ← slice? cursor.text cursor.index (utf8Len cursor.text)
  match next? rest with
  | some (token, _) =>
    let start := cursor.index + utf8Len (gap rest)
    return (start, start + utf8Len token.content, some token)
  | none => return (utf8Len cursor.text, utf8Len cursor.text, none)

/-- Checks what is skipped and moves on. There is no outcome when a slice is missing. -/
def advance? (cursor : Cursor) : Option (Option Failure × Cursor) := do
  let (start, stop, token) ← cursor.find?
  let skipped ← slice? cursor.text cursor.index start
  match cursor.lexing.checkGap skipped with
  | .error failure => return (some failure, cursor)
  | .ok () => return (none, { cursor with index := stop, current := token })

/-- The cursor after a number of moves, failed ones included. -/
def after? (cursor : Cursor) : Nat → Option Cursor
  | 0 => some cursor
  | count + 1 => do
    let moved ← cursor.after? count
    return (← moved.advance?).2

end Cursor

namespace Scanner

/-- What a move reports, and the scanner after it. -/
def step (scanner : Scanner) : Option Failure × Scanner :=
  match advance.run scanner with
  | .ok _ next => (none, next)
  | .error failure same => (some failure, same)

/-- The scanner after a number of moves, failed ones included. -/
def after (scanner : Scanner) : Nat → Scanner
  | 0 => scanner
  | count + 1 => (scanner.after count).step.2

theorem step_eq (scanner : Scanner) :
    scanner.step =
      match scanner.lexing.checkGap (gap scanner.rest) with
      | .error failure => (some failure, scanner)
      | .ok () =>
        match next? scanner.rest with
        | some (token, rest) => (none, { scanner with rest, current := some token })
        | none => (none, { scanner with rest := [], current := none }) := by
  rw [step, run_advance]
  cases scanner.lexing.checkGap (gap scanner.rest) with
  | error failure => rfl
  | ok done => cases next? scanner.rest <;> rfl

end Scanner

/-- A cursor and a scanner are at the same place of a text, behind the same token. -/
structure Cursor.Points (cursor : Cursor) (scanner : Scanner) : Prop where
  lexing : cursor.lexing = scanner.lexing
  current : cursor.current = scanner.current
  rest : ∃ before, cursor.text = before ++ scanner.rest ∧ cursor.index = utf8Len before

namespace Cursor

variable {cursor : Cursor} {scanner : Scanner}

theorem Points.slice?_rest (h : cursor.Points scanner) :
    slice? cursor.text cursor.index (utf8Len cursor.text) = some scanner.rest := by
  obtain ⟨before, htext, hindex⟩ := h.rest
  rw [htext, hindex, slice?_append_end]

theorem Points.slice?_gap (h : cursor.Points scanner) :
    slice? cursor.text cursor.index (cursor.index + utf8Len (gap scanner.rest)) =
      some (gap scanner.rest) := by
  obtain ⟨before, htext, hindex⟩ := h.rest
  have hsplit : gap scanner.rest ++ scanner.rest.dropWhile (fun c => !startsToken c) = scanner.rest :=
    List.takeWhile_append_dropWhile
  rw [htext, hindex, ← hsplit, ← List.append_assoc, hsplit, slice?_append]

theorem Points.length_eq (h : cursor.Points scanner) :
    utf8Len cursor.text = cursor.index + utf8Len scanner.rest := by
  obtain ⟨before, htext, hindex⟩ := h.rest
  rw [htext, hindex, String.utf8Len_append]

theorem Points.find?_eq (h : cursor.Points scanner) :
    cursor.find? =
      match next? scanner.rest with
      | some (token, _) =>
        some (cursor.index + utf8Len (gap scanner.rest),
          cursor.index + utf8Len (gap scanner.rest) + utf8Len token.content, some token)
      | none =>
        some (cursor.index + utf8Len (gap scanner.rest), utf8Len cursor.text, none) := by
  simp only [find?, h.slice?_rest, Option.bind_eq_bind, Option.bind_some]
  cases hnext : next? scanner.rest with
  | none =>
    rw [next?_eq_none hnext, ← h.length_eq]
    rfl
  | some pair => rfl

theorem Points.advance?_eq (h : cursor.Points scanner) {stop : Nat} {token : Option Token}
    (hfind : cursor.find? = some (cursor.index + utf8Len (gap scanner.rest), stop, token)) :
    cursor.advance? =
      match scanner.lexing.checkGap (gap scanner.rest) with
      | .error failure => some (some failure, cursor)
      | .ok () => some (none, { cursor with index := stop, current := token }) := by
  simp only [advance?, hfind, h.slice?_gap, h.lexing, Option.bind_eq_bind, Option.bind_some]
  cases scanner.lexing.checkGap (gap scanner.rest) <;> rfl

/-- What a move can do: it fails and changes nothing, it goes on behind a token, or it goes to the end. -/
inductive Move (cursor : Cursor) : Option Failure → Cursor → Prop
  | failed {failure : Failure} (hlexing : cursor.lexing = .strict) : Move cursor (some failure) cursor
  | token {stop : Nat} {token : Token} (hstop : cursor.index < stop) :
      Move cursor none { cursor with index := stop, current := some token }
  | ended : Move cursor none { cursor with index := utf8Len cursor.text, current := none }

theorem Move.text_eq {moved : Cursor} {report : Option Failure} (h : cursor.Move report moved) :
    moved.text = cursor.text := by
  cases h <;> rfl

theorem Move.lexing_eq {moved : Cursor} {report : Option Failure} (h : cursor.Move report moved) :
    moved.lexing = cursor.lexing := by
  cases h <;> rfl

/-- A refused gap stops the cursor and its scanner alike. -/
theorem Points.advance?_of_error (h : cursor.Points scanner) {failure : Failure}
    (hcheck : scanner.lexing.checkGap (gap scanner.rest) = .error failure) :
    cursor.advance? = some (some failure, cursor) ∧ scanner.step = (some failure, scanner) ∧
      cursor.lexing = .strict := by
  have hmove : ∃ stop token,
      cursor.find? = some (cursor.index + utf8Len (gap scanner.rest), stop, token) := by
    rw [h.find?_eq]
    cases next? scanner.rest <;> exact ⟨_, _, rfl⟩
  obtain ⟨stop, token, hfind⟩ := hmove
  refine ⟨by rw [h.advance?_eq hfind, hcheck], by rw [Scanner.step_eq, hcheck], ?_⟩
  rw [h.lexing]
  cases hlexing : scanner.lexing with
  | strict => rfl
  | permissive =>
    rw [hlexing, Lexing.checkGap_permissive] at hcheck
    cases hcheck

theorem Points.advance?_of_token (h : cursor.Points scanner) {token : Token} {rest : Text}
    (hcheck : scanner.lexing.checkGap (gap scanner.rest) = .ok ())
    (hnext : next? scanner.rest = some (token, rest)) :
    ∃ stop, cursor.index < stop ∧
      cursor.advance? = some (none, { cursor with index := stop, current := some token }) ∧
      scanner.step = (none, { scanner with rest, current := some token }) ∧
      Points { cursor with index := stop, current := some token }
        { scanner with rest, current := some token } := by
  obtain ⟨before, htext, hindex⟩ := h.rest
  obtain ⟨hlexeme, -, hsplit⟩ := next?_sound hnext
  have hpos := Nat.pos_of_ne_zero (mt String.utf8Len_eq_zero.1 hlexeme.content_ne_nil)
  have hfind := h.find?_eq
  simp only [hnext] at hfind
  have hmove := h.advance?_eq hfind
  have hstep := scanner.step_eq
  simp only [hcheck] at hmove
  simp only [hcheck, hnext] at hstep
  refine ⟨_, ?_, hmove, hstep, h.lexing, rfl, before ++ gap scanner.rest ++ token.content, ?_, ?_⟩
  · omega
  · simpa only [List.append_assoc, ← hsplit] using htext
  · simp only [String.utf8Len_append, hindex]

theorem Points.advance?_of_end (h : cursor.Points scanner)
    (hcheck : scanner.lexing.checkGap (gap scanner.rest) = .ok ()) (hnext : next? scanner.rest = none) :
    cursor.advance? = some (none, { cursor with index := utf8Len cursor.text, current := none }) ∧
      scanner.step = (none, { scanner with rest := [], current := none }) ∧
      Points { cursor with index := utf8Len cursor.text, current := none }
        { scanner with rest := [], current := none } := by
  have hfind := h.find?_eq
  simp only [hnext] at hfind
  exact ⟨by rw [h.advance?_eq hfind, hcheck], by simp only [Scanner.step_eq, hcheck, hnext],
    h.lexing, rfl, cursor.text, (List.append_nil _).symm, rfl⟩

theorem Points.exists_advance? (h : cursor.Points scanner) :
    ∃ moved, cursor.advance? = some (scanner.step.1, moved) ∧ cursor.Move scanner.step.1 moved ∧
      moved.Points scanner.step.2 := by
  cases hcheck : scanner.lexing.checkGap (gap scanner.rest) with
  | error failure =>
    obtain ⟨hmove, hstep, hlexing⟩ := h.advance?_of_error hcheck
    rw [hstep]
    exact ⟨cursor, hmove, .failed hlexing, h⟩
  | ok done =>
    cases hnext : next? scanner.rest with
    | none =>
      obtain ⟨hmove, hstep, hpoints⟩ := h.advance?_of_end hcheck hnext
      rw [hstep]
      exact ⟨_, hmove, .ended, hpoints⟩
    | some pair =>
      obtain ⟨stop, hstop, hmove, hstep, hpoints⟩ := h.advance?_of_token hcheck hnext
      rw [hstep]
      exact ⟨_, hmove, .token hstop, hpoints⟩

theorem Points.exists_after? (h : cursor.Points scanner) (count : Nat) :
    ∃ moved, cursor.after? count = some moved ∧ moved.text = cursor.text ∧
      moved.lexing = cursor.lexing ∧ moved.Points (scanner.after count) := by
  induction count with
  | zero => exact ⟨cursor, rfl, rfl, rfl, h⟩
  | succ count ih =>
    obtain ⟨last, hafter, htext, hlexing, hpoints⟩ := ih
    obtain ⟨moved, hadvance, hmove, hnext⟩ := hpoints.exists_advance?
    exact ⟨moved, by simp [after?, hafter, hadvance], hmove.text_eq.trans htext,
      hmove.lexing_eq.trans hlexing, hnext⟩

/-! ### Moves without effect -/

/-- However often it is moved, the cursor reports the same and does not change. -/
def Stays (cursor : Cursor) (report : Option Failure) : Prop :=
  ∀ count, (cursor.after? count).bind advance? = some (report, cursor)

theorem stays_of_advance?_eq {report : Option Failure} (h : cursor.advance? = some (report, cursor)) :
    cursor.Stays report := by
  have hafter : ∀ count, cursor.after? count = some cursor := by
    intro count
    induction count with
    | zero => rfl
    | succ count ih => simp [after?, ih, h]
  intro count
  rw [hafter, Option.bind_some, h]

theorem Points.rest_eq_nil (h : cursor.Points scanner) (hindex : cursor.index = utf8Len cursor.text) :
    scanner.rest = [] := by
  have hlength := h.length_eq
  exact String.utf8Len_eq_zero.1 (by omega)

theorem Points.stays_at_end (h : cursor.Points scanner) (hindex : cursor.index = utf8Len cursor.text)
    (hcurrent : cursor.current = none) : cursor.Stays none := by
  have hrest := h.rest_eq_nil hindex
  have hcheck : scanner.lexing.checkGap (gap scanner.rest) = .ok () := by
    rw [hrest]
    cases scanner.lexing <;> rfl
  have hnext : next? scanner.rest = none := by
    rw [hrest]
    rfl
  obtain ⟨hmove, -, -⟩ := h.advance?_of_end hcheck hnext
  rw [← hindex, ← hcurrent] at hmove
  exact stays_of_advance?_eq hmove

/-! ### Progress -/

/-- What holds of a cursor, where a scanner is at the same place. -/
structure Progresses (cursor : Cursor) (scanner : Scanner) : Prop where
  points : cursor.Points scanner
  /-- The index is on the boundary of a character and not past the end. -/
  boundary : (⟨cursor.index⟩ : String.Pos.Raw).IsValid (String.ofList cursor.text)
  /-- No slice is missing, and the scanner moves alike. -/
  moves : ∃ moved, cursor.advance? = some (scanner.step.1, moved) ∧ moved.Points scanner.step.2
  /-- A move that fails leaves all as it is, so all further moves fail with the same. -/
  failed : ∀ failure moved, cursor.advance? = some (some failure, moved) →
    cursor.lexing = .strict ∧ moved = cursor ∧ cursor.Stays (some failure)
  /-- Other moves go on to a token, or to the end, where further moves change nothing. -/
  moved : ∀ moved, cursor.advance? = some (none, moved) →
    (∃ token, moved.current = some token ∧ cursor.index < moved.index) ∨
      (moved.current = none ∧ moved.index = utf8Len cursor.text ∧ moved.Stays none)

theorem Points.boundary (h : cursor.Points scanner) :
    (⟨cursor.index⟩ : String.Pos.Raw).IsValid (String.ofList cursor.text) := by
  obtain ⟨before, htext, hindex⟩ := h.rest
  rw [htext, hindex]
  exact isValid_utf8Len before scanner.rest

theorem Points.progresses (h : cursor.Points scanner) : cursor.Progresses scanner := by
  obtain ⟨next, hadvance, hmove, hpoints⟩ := h.exists_advance?
  refine ⟨h, h.boundary, ⟨next, hadvance, hpoints⟩, ?_, ?_⟩
  · intro failure moved hfailed
    rw [hadvance, Option.some.injEq, Prod.mk.injEq] at hfailed
    obtain ⟨hreport, rfl⟩ := hfailed
    rw [hreport] at hadvance hmove
    cases hmove with
    | failed hlexing => exact ⟨hlexing, rfl, stays_of_advance?_eq hadvance⟩
  · intro moved hmoved
    rw [hadvance, Option.some.injEq, Prod.mk.injEq] at hmoved
    obtain ⟨hreport, rfl⟩ := hmoved
    rw [hreport] at hmove
    cases hmove with
    | token hstop => exact .inl ⟨_, rfl, hstop⟩
    | ended => exact .inr ⟨rfl, rfl, hpoints.stays_at_end rfl rfl⟩

/-! ### Going over the tokens -/

/-- Moves and collects the tokens met until there is none. There is no outcome when a slice is missing or the rounds do not suffice. -/
def collect? (cursor : Cursor) (collected : List Token) : Nat → Option (Except Failure (List Token))
  | 0 => none
  | rounds + 1 => do
    match ← cursor.advance? with
    | (some failure, _) => return .error failure
    | (none, moved) =>
      match moved.current with
      | none => return .ok collected
      | some token => moved.collect? (collected ++ [token]) rounds

/-- Every round but the last takes at least one of the bytes behind the cursor. -/
theorem Points.collect?_eq (h : cursor.Points scanner) (collected : List Token) {rounds : Nat}
    (hrounds : utf8Len cursor.text < cursor.index + rounds) :
    cursor.collect? collected rounds =
      some ((lex scanner.lexing scanner.rest).map (collected ++ ·)) := by
  induction rounds generalizing cursor scanner collected with
  | zero =>
    have hlength := h.length_eq
    omega
  | succ rounds ih =>
    rw [lex_eq]
    cases hcheck : scanner.lexing.checkGap (gap scanner.rest) with
    | error failure =>
      obtain ⟨hmove, -, -⟩ := h.advance?_of_error hcheck
      simp only [collect?, hmove]
      rfl
    | ok done =>
      cases hnext : next? scanner.rest with
      | none =>
        obtain ⟨hmove, -, -⟩ := h.advance?_of_end hcheck hnext
        simp only [collect?, hmove]
        exact congrArg (fun tokens => some (Except.ok tokens)) (List.append_nil collected).symm
      | some pair =>
        obtain ⟨token, rest⟩ := pair
        obtain ⟨stop, hstop, hmove, -, hpoints⟩ := h.advance?_of_token hcheck hnext
        -- The index has grown by a byte at least, which makes up for the round.
        have hfewer : utf8Len cursor.text < stop + rounds := by omega
        have hcollect := ih hpoints (collected ++ [token]) hfewer
        simp only [collect?, hmove, Option.bind_eq_bind, Option.bind_some]
        rw [hcollect]
        cases lex scanner.lexing rest with
        | error failure => rfl
        | ok behind =>
          exact congrArg (fun tokens => some (Except.ok tokens))
            (List.append_assoc collected [token] behind)

theorem points_start (lexing : Lexing) (text : Text) :
    Points { lexing, text } { lexing, rest := text } :=
  ⟨rfl, rfl, [], rfl, rfl⟩

theorem collect?_start (lexing : Lexing) (text : Text) :
    ({ lexing, text } : Cursor).collect? [] (utf8Len text + 1) = some (lex lexing text) := by
  have hrounds : utf8Len text < 0 + (utf8Len text + 1) := by omega
  rw [(points_start lexing text).collect?_eq [] hrounds]
  cases lex lexing text <;> rfl

end Cursor

theorem Parted.lex_eq_first_failure {gaps : List Text} {tokens : List Token} {text : Text}
    (h : Parted gaps tokens text) (lexing : Lexing) :
    lex lexing text =
      match (Scanner.reports lexing text tokens.length).findSome? Prod.fst with
      | some failure => .error failure
      | none => .ok tokens := by
  cases lexing with
  | permissive =>
    have hnone : (Scanner.reports .permissive text tokens.length).findSome? Prod.fst = none := by
      rw [Scanner.reports_permissive h]
      simp [Scanner.met]
    rw [hnone, h.lex_permissive]
  | strict =>
    rw [(Scanner.first_failure_reports_strict h (Nat.le_refl _)).2, h.lex_strict]
    cases unlexed? gaps <;> rfl

/-- Whatever moves were made, every index is on a boundary and every further move gets on, stays at the end, or fails for good; so going over the tokens ends, with all of them or with the first failure. -/
theorem scanning_progresses (lexing : Lexing) (text : Text) :
    (∀ count, ∃ cursor, ({ lexing, text } : Cursor).after? count = some cursor ∧ cursor.text = text ∧
      cursor.lexing = lexing ∧ cursor.Progresses (({ lexing, rest := text } : Scanner).after count)) ∧
    ({ lexing, text } : Cursor).collect? [] (utf8Len text + 1) = some (lex lexing text) ∧
    ∃ gaps tokens, Parted gaps tokens text ∧
      lex lexing text =
        match (Scanner.reports lexing text tokens.length).findSome? Prod.fst with
        | some failure => .error failure
        | none => .ok tokens := by
  refine ⟨fun count => ?_, Cursor.collect?_start lexing text, ?_⟩
  · obtain ⟨cursor, hafter, htext, hlexing, hpoints⟩ :=
      (Cursor.points_start lexing text).exists_after? count
    exact ⟨cursor, hafter, htext, hlexing, hpoints.progresses⟩
  · obtain ⟨gaps, tokens, hparted⟩ := exists_parted text
    exact ⟨gaps, tokens, hparted, hparted.lex_eq_first_failure lexing⟩

end LineCalculator
