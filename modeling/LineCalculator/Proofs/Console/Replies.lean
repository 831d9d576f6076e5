import LineCalculator.Console.Transcript
import LineCalculator.Proofs.Console.Delivery
import LineCalculator.Proofs.Console.OneLine

/-!
# Quiet and chatty sessions

What a line prints follows from the line and from the variables in front of it, and no switch but the
one for lexing has a part in that. So quiet and chatty sessions have the same replies, and a chatty
one shows a prompt behind each of them, except behind the one to the exit command. A reply is empty
for a blank line only, and it is one line for every other line that is no command.
-/

namespace LineCalculator

def isExit (line : Text) : Bool :=
  Command.read? line = some .exit

/-- The lines in front of the end of input and of the first line that cannot be decoded. -/
def decodedLines : List Delivery → List Text
  | .line text :: rest => text :: decodedLines rest
  | .undecodable :: _ | [] => []

/-- Lines up to the first exit command, and this with them. -/
def throughExit : List Text → List Text
  | [] => []
  | line :: rest => if isExit line then [line] else line :: throughExit rest

/-- The lines that a session answers. -/
def processedLines (deliveries : List Delivery) : List Text :=
  throughExit (decodedLines deliveries)

/-- What each line prints, one after the other. -/
def replies (lexing : Lexing) (store : Store) : List Text → List Text
  | [] => []
  | line :: rest =>
    let reply := Reply.ofLine lexing store line
    reply.printed :: replies lexing reply.store rest

/-! ### One line -/

section

variable {line : Text}

theorem Command.exists_of_read?_eq_some {command : Command} (h : read? line = some command) :
    ∃ name, line = '/' :: name := by
  unfold read? at h
  split at h
  next name => exact ⟨name, rfl⟩
  next => cases h

theorem Command.not_forall_isBlank {command : Command} (h : read? line = some command) :
    ¬ ∀ c ∈ line, isBlank c = true := by
  obtain ⟨name, rfl⟩ := exists_of_read?_eq_some h
  intro hblank
  have hslash := hblank '/' List.mem_cons_self
  revert hslash
  decide

namespace Reply

variable {store : Store} {lexing : Lexing}

theorem ofLine_of_read?_eq_some {command : Command} (lexing : Lexing) (store : Store)
    (h : Command.read? line = some command) : ofLine lexing store line = ofCommand store command := by
  rw [ofLine, h]

theorem ofLine_of_blank (lexing : Lexing) (store : Store) (h : ∀ c ∈ line, isBlank c = true) :
    ofLine lexing store line = { printed := [], store } := by
  cases hread : Command.read? line with
  | some command => exact absurd h (Command.not_forall_isBlank hread)
  | none => rw [ofLine, hread, if_pos (trim_eq_nil_iff.2 h)]

theorem ofLine_of_not_blank (lexing : Lexing) (store : Store) (hread : Command.read? line = none)
    (h : ¬ ∀ c ∈ line, isBlank c = true) :
    ofLine lexing store line = ofStep (Step.ofLine lexing line store) := by
  rw [ofLine, hread, if_neg (mt trim_eq_nil_iff.1 h)]

theorem ends_ofStep (step : Step) : (ofStep step).ends = false := by
  unfold ofStep
  split <;> rfl

/-- The exit command ends a session, and nothing else does. -/
theorem ends_ofLine (lexing : Lexing) (store : Store) (line : Text) :
    (ofLine lexing store line).ends = isExit line := by
  rw [isExit, ofLine]
  split
  next command hread => simp [ofCommand, hread]
  next hread =>
    rw [hread]
    split
    · rfl
    · exact ends_ofStep _

theorem printed_ofCommand_ne_nil (store : Store) (command : Command) :
    (ofCommand store command).printed ≠ [] :=
  List.append_ne_nil_of_right_ne_nil _ (List.cons_ne_nil _ _)

theorem printed_ofStep_ne_nil (step : Step) : (ofStep step).printed ≠ [] := by
  unfold ofStep
  split <;> exact List.append_ne_nil_of_right_ne_nil _ (List.cons_ne_nil _ _)

theorem printed_ofLine_eq_nil_iff (lexing : Lexing) (store : Store) (line : Text) :
    (ofLine lexing store line).printed = [] ↔ ∀ c ∈ line, isBlank c = true := by
  by_cases hblank : ∀ c ∈ line, isBlank c = true
  · rw [ofLine_of_blank lexing store hblank]
    exact iff_of_true rfl hblank
  · refine iff_of_false ?_ hblank
    cases hread : Command.read? line with
    | some command =>
      rw [ofLine_of_read?_eq_some lexing store hread]
      exact printed_ofCommand_ne_nil store command
    | none =>
      rw [ofLine_of_not_blank lexing store hread hblank]
      exact printed_ofStep_ne_nil _

/-- What a line evaluates to is shown on one line. -/
theorem exists_printed_ofLine (lexing : Lexing) (store : Store) (hline : '\n' ∉ line)
    (hread : Command.read? line = none) (hblank : ¬ ∀ c ∈ line, isBlank c = true) :
    ∃ shown, '\n' ∉ shown ∧ (ofLine lexing store line).printed = shown ++ ['\n'] := by
  rw [ofLine_of_not_blank lexing store hread hblank, ofStep]
  split
  next evaluation houtcome => exact ⟨_, Step.lineFeed_not_mem_display houtcome, rfl⟩
  next failure houtcome =>
    have hword : '\n' ∉ "Error: ".toList := by decide
    have hmessage := Step.lineFeed_not_mem_message hline houtcome
    exact ⟨_, List.not_mem_append hword hmessage, rfl⟩

end Reply

end

/-! ### All lines -/

theorem replies_cons (lexing : Lexing) (store : Store) (line : Text) (rest : List Text) :
    replies lexing store (line :: rest) =
      (Reply.ofLine lexing store line).printed ::
        replies lexing (Reply.ofLine lexing store line).store rest :=
  rfl

theorem length_replies (lexing : Lexing) (store : Store) (lines : List Text) :
    (replies lexing store lines).length = lines.length := by
  induction lines generalizing store with
  | nil => rfl
  | cons line rest ih => rw [replies_cons, List.length_cons, ih, List.length_cons]

theorem exists_of_mem_zip_replies {lexing : Lexing} {store : Store} {lines : List Text}
    {line answer : Text} (h : (line, answer) ∈ lines.zip (replies lexing store lines)) :
    ∃ before, answer = (Reply.ofLine lexing before line).printed := by
  induction lines generalizing store with
  | nil => cases h
  | cons first rest ih =>
    rw [replies_cons, List.zip_cons_cons, List.mem_cons] at h
    rcases h with hfirst | hmem
    · obtain ⟨rfl, rfl⟩ := Prod.mk.inj hfirst
      exact ⟨store, rfl⟩
    · exact ih hmem

theorem not_isExit_of_mem_dropLast {lines : List Text} {line : Text}
    (h : line ∈ (throughExit lines).dropLast) : isExit line = false := by
  induction lines with
  | nil => cases h
  | cons first rest ih =>
    rw [throughExit] at h
    split at h
    next => cases h
    next hfirst =>
      rw [Bool.not_eq_true] at hfirst
      cases hrest : throughExit rest with
      | nil =>
        rw [hrest] at h
        cases h
      | cons second more =>
        rw [List.dropLast_cons_of_ne_nil (by simp [hrest]), List.mem_cons] at h
        rcases h with rfl | hmem
        · exact hfirst
        · exact ih hmem

/-- Each reply, with a prompt behind it if the session goes on. -/
def withPrompts (prompt : Text) (lines answers : List Text) : Text :=
  (List.zipWith (fun line answer => answer ++ if isExit line then [] else prompt) lines answers).flatten

theorem printReplies_eq (switches : Switches) (store : Store) (deliveries : List Delivery) :
    printReplies switches store deliveries =
      withPrompts switches.prompt (processedLines deliveries)
        (replies switches.lexing store (processedLines deliveries)) := by
  induction deliveries generalizing store with
  | nil => rfl
  | cons delivery rest ih =>
    cases delivery with
    | undecodable => rfl
    | line text =>
      rw [printReplies, Reply.ends_ofLine, processedLines, decodedLines, throughExit]
      -- A line that ends the session is the last one in both, and no prompt follows it in either.
      by_cases hexit : isExit text = true
      · rw [if_pos hexit, if_pos hexit]
        simp [withPrompts, replies, hexit]
      · rw [if_neg hexit, if_neg hexit, ih, replies_cons, processedLines, withPrompts, withPrompts,
          List.zipWith_cons_cons, List.flatten_cons, if_neg hexit]

theorem withPrompts_nil {lines answers : List Text} (h : answers.length = lines.length) :
    withPrompts [] lines answers = answers.flatten := by
  rw [withPrompts]
  induction lines generalizing answers with
  | nil => rw [List.length_eq_zero_iff.1 h]; rfl
  | cons line rest ih =>
    cases answers with
    | nil => cases h
    | cons answer answers =>
      rw [List.zipWith_cons_cons, List.flatten_cons, ih (Nat.succ.inj h), List.flatten_cons]
      simp

/-- What a session prints, with its lines and what each of them prints. -/
structure Conversation (strict : Bool) (deliveries : List Delivery) (lines answers : List Text) :
    Prop where
  length : answers.length = lines.length
  quiet : transcript { strict, quiet := true } deliveries = answers.flatten
  chatty : transcript { strict, quiet := false } deliveries =
    "Welcome to Smart Calculator!\n".toList ++ "\nEnter an expression: ".toList ++
      withPrompts "\nEnter an expression: ".toList lines answers
  /-- Only the last line may be the exit command. -/
  exit : ∀ line ∈ lines.dropLast, isExit line = false
  /-- Blank lines print nothing, and only these. -/
  blank : ∀ line answer, (line, answer) ∈ lines.zip answers →
    (answer = [] ↔ ∀ c ∈ line, isBlank c = true)
  /-- Any other line that is no command prints one line. -/
  single : ∀ line answer, (line, answer) ∈ lines.zip answers → '\n' ∉ line →
    Command.read? line = none → (¬ ∀ c ∈ line, isBlank c = true) →
      ∃ shown, '\n' ∉ shown ∧ answer = shown ++ ['\n']

/-- Quiet and chatty sessions have the same replies to lines, in which there is no line feed. -/
theorem quiet_and_chatty (strict : Bool) :
    (∀ deliveries, Conversation strict deliveries (processedLines deliveries)
      (replies (if strict then .strict else .permissive) ∅ (processedLines deliveries))) ∧
    ∀ bytes text, .line text ∈ Delivery.ofBytes bytes → '\n' ∉ text := by
  refine ⟨fun deliveries => ⟨length_replies _ _ _, ?_, ?_, ?_, ?_, ?_⟩, fun bytes text =>
    Delivery.lineFeed_not_mem_of_mem_ofBytes⟩
  · rw [transcript, printReplies_eq]
    exact withPrompts_nil (length_replies _ _ _)
  · rw [transcript, printReplies_eq]
    rfl
  · exact fun _ => not_isExit_of_mem_dropLast
  · intro line answer hmem
    obtain ⟨before, rfl⟩ := exists_of_mem_zip_replies hmem
    exact Reply.printed_ofLine_eq_nil_iff _ before line
  · intro line answer hmem hline hread hblank
    obtain ⟨before, rfl⟩ := exists_of_mem_zip_replies hmem
    exact Reply.exists_printed_ofLine _ before hline hread hblank

theorem quiet_and_chatty_unknown :
    .line ['x'] ∈ Delivery.ofBytes [120, 13, 10] ∧ '\n' ∉ ['x'] ∧
      transcript { strict := true, quiet := true } [.line ['x'], .line "/EXIT".toList, .line ['x']] =
        "Error: Unknown variable 'x'\nBye!\n".toList := by
  have hdelivered : .line ['x'] ∈ Delivery.ofBytes [120, 13, 10] := by decide +kernel
  refine ⟨hdelivered, (quiet_and_chatty true).2 _ _ hdelivered, ?_⟩
  rw [((quiet_and_chatty true).1 _).quiet]
  decide +kernel

end LineCalculator
