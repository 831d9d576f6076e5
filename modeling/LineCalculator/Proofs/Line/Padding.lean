import LineCalculator.Evaluation.Line
import LineCalculator.Proofs.Line.Reading

/-!
# Blanks around a line

Blanks may stand at the ends of a line and on both sides of each of its equals signs. An expression
is trimmed when its signs are folded, and folding does not look past a blank. The two sides of an
assignment are trimmed before anything else is done with them, and where a right side is refused for
an equals sign in it, blanks do not hide the sign. So a line is read as the same line with such
blanks and without them, or fails in the same way, and all else follows from what was read.
-/

namespace LineCalculator

structure Blanks where
  text : Text
  blank : ∀ c ∈ text, isBlank c = true

structure Padding where
  before : Blanks
  behind : Blanks
  /-- What comes before and what comes behind each equals sign, these counted from the left. -/
  beside : Nat → Blanks × Blanks

/-- Puts blanks on both sides of each equals sign. -/
def padEquals (beside : Nat → Blanks × Blanks) : Text → Text
  | [] => []
  | c :: rest =>
    if c = '=' then
      (beside 0).1.text ++ '=' :: ((beside 0).2.text ++ padEquals (fun index => beside (index + 1)) rest)
    else c :: padEquals beside rest

def Padding.around (padding : Padding) (text : Text) : Text :=
  padding.before.text ++ padEquals padding.beside text ++ padding.behind.text

variable {beside : Nat → Blanks × Blanks} {text left right : Text}

theorem padEquals_of_not_mem (h : '=' ∉ text) : padEquals beside text = text := by
  induction text with
  | nil => rfl
  | cons c rest ih =>
    rw [List.mem_cons, not_or] at h
    rw [padEquals, if_neg (Ne.symm h.1), ih h.2]

theorem padEquals_append (h : '=' ∉ left) :
    padEquals beside (left ++ '=' :: right) =
      left ++ (beside 0).1.text ++
        '=' :: ((beside 0).2.text ++ padEquals (fun index => beside (index + 1)) right) := by
  induction left with
  | nil => rw [List.nil_append, padEquals, if_pos rfl, List.nil_append]
  | cons c left ih =>
    rw [List.mem_cons, not_or] at h
    rw [List.cons_append, padEquals, if_neg (Ne.symm h.1), ih h.2, List.cons_append, List.cons_append]

theorem equals_mem_padEquals : '=' ∈ padEquals beside text ↔ '=' ∈ text := by
  by_cases hmem : '=' ∈ text
  · obtain ⟨left, right, rfl, hleft⟩ := List.eq_append_cons_of_mem hmem
    rw [padEquals_append hleft]
    simp
  · rw [padEquals_of_not_mem hmem]

namespace Line

variable {lexing : Lexing}

/-- Of its two sides an assignment sees what trimming leaves, and whether there is an equals sign on the right. -/
theorem readAssignment_congr {left' right' : Text} (hleft : trim left' = trim left)
    (hequals : '=' ∈ right' ↔ '=' ∈ right) (hright : '=' ∉ right → trim right' = trim right) :
    readAssignment lexing left' right' = readAssignment lexing left right := by
  rw [readAssignment, readAssignment, hleft]
  by_cases hmem : '=' ∈ right
  · rw [if_pos hmem, if_pos (hequals.2 hmem)]
  · rw [if_neg hmem, if_neg (mt hequals.1 hmem), hright hmem]

theorem read_around (lexing : Lexing) (padding : Padding) (text : Text) :
    read lexing (padding.around text) = read lexing text := by
  have hblank : isBlank '=' = false := by decide
  have hbefore := padding.before.blank
  have hbehind := padding.behind.blank
  rw [Padding.around]
  by_cases hmem : '=' ∈ text
  · obtain ⟨left, right, rfl, hleft⟩ := List.eq_append_cons_of_mem hmem
    have hbetween := (padding.beside 0).1.blank
    have hafter := (padding.beside 0).2.blank
    have hfront : '=' ∉ padding.before.text ++ left ++ (padding.beside 0).1.text := by
      rwa [mem_append_blanks_iff hblank hbefore hbetween]
    have hsplit : padding.before.text ++ padEquals padding.beside (left ++ '=' :: right) ++
          padding.behind.text =
        padding.before.text ++ left ++ (padding.beside 0).1.text ++
          '=' :: ((padding.beside 0).2.text ++
            padEquals (fun index => padding.beside (index + 1)) right ++ padding.behind.text) := by
      rw [padEquals_append hleft]
      simp only [List.append_assoc, List.cons_append]
    rw [hsplit, read_append lexing hfront, read_append lexing hleft]
    apply readAssignment_congr
    · exact trim_append hbefore hbetween
    · rw [mem_append_blanks_iff hblank hafter hbehind, equals_mem_padEquals]
    · intro hright
      rw [padEquals_of_not_mem hright, trim_append hafter hbehind]
  · have hnone : '=' ∉ padding.before.text ++ text ++ padding.behind.text := by
      rwa [mem_append_blanks_iff hblank hbefore hbehind]
    rw [padEquals_of_not_mem hmem, read_of_not_mem lexing hnone, read_of_not_mem lexing hmem, tokenize,
      foldSigns_append hbefore hbehind, tokenize]

end Line

theorem run_evaluateLine_congr {lexing : Lexing} {other : Text}
    (h : Line.read lexing other = Line.read lexing text) (store : Store) :
    (evaluateLine lexing other).run store = (evaluateLine lexing text).run store := by
  cases hread : Line.read lexing text with
  | error failure =>
    rw [run_evaluateLine_of_read_eq_error hread, run_evaluateLine_of_read_eq_error (h.trans hread)]
  | ok line =>
    rw [run_evaluateLine_of_read_eq_ok hread, run_evaluateLine_of_read_eq_ok (h.trans hread)]

/-- Blanks at the ends of a line and beside its equals signs change neither its outcome nor the variables after it. -/
theorem run_evaluateLine_around (lexing : Lexing) (padding : Padding) (text : Text) (store : Store) :
    (evaluateLine lexing (padding.around text)).run store = (evaluateLine lexing text).run store :=
  run_evaluateLine_congr (Line.read_around lexing padding text) store

end LineCalculator
