import LineCalculator.Proofs.Console.Replies

/-!
# Lines that leave the calculation alone

Blank lines and commands leave the variables as they are, so it makes no difference to the other
lines whether they are there. What the other lines print is then what a session reports that is given
these lines only. All this goes on up to the first exit command or the first line that cannot be
decoded, and nothing behind that is read. The exit command is told by its letters without regard to
case, and a blank at either end of it makes it something else.
-/

namespace LineCalculator

/-- Whether a line is blank or a command, but not the one that ends the session. -/
def isIdle (line : Text) : Bool :=
  line.all isBlank || (line.head? == some '/' && !isExit line)

/-- The lines in front of the first exit command and of the first one that cannot be decoded. -/
def openLines (deliveries : List Delivery) : List Text :=
  (decodedLines deliveries).takeWhile fun line => !isExit line

def outcomeLine : Except Failure Evaluation → Text
  | .ok (.value value) => "Answer: ".toList ++ Number.print value ++ ['\n']
  | .ok (.binding name value) => name ++ " ==> ".toList ++ Number.print value ++ ['\n']
  | .error .invalidAssignment => "Error: Invalid assignment\n".toList
  | .error .invalidIdentifier => "Error: Invalid identifier\n".toList
  | .error .invalidExpression => "Error: Invalid expression\n".toList
  | .error (.invalidToken skipped) => "Error: Invalid token: ".toList ++ skipped ++ ['\n']
  | .error (.unknownVariable name) => "Error: Unknown variable '".toList ++ name ++ "'\n".toList

def Delivery.ends : Delivery → Bool
  | line text => isExit text
  | undecodable => true

/-! ### One line -/

section

variable {line : Text}

theorem Command.read?_slash (name : Text) :
    read? ('/' :: name) =
      if name.map Char.toLower = "exit".toList then some exit
      else if name.map Char.toLower = "help".toList then some help
      else some unknown :=
  rfl

theorem Command.read?_eq_none_iff : read? line = none ↔ line.head? ≠ some '/' := by
  constructor
  · intro hread hslash
    obtain ⟨name, rfl⟩ := List.head?_eq_some_iff.1 hslash
    rw [read?_slash] at hread
    split at hread
    · cases hread
    · split at hread <;> cases hread
  · intro hslash
    cases hread : read? line with
    | none => rfl
    | some command =>
      obtain ⟨name, rfl⟩ := exists_of_read?_eq_some hread
      exact absurd rfl hslash

theorem Reply.store_ofLine_of_isIdle (lexing : Lexing) (store : Store) (h : isIdle line = true) :
    (ofLine lexing store line).store = store := by
  rw [isIdle, Bool.or_eq_true, List.all_eq_true, Bool.and_eq_true, beq_iff_eq] at h
  rcases h with hblank | ⟨hslash, -⟩
  · rw [ofLine_of_blank lexing store hblank]
  · cases hread : Command.read? line with
    | some command =>
      rw [ofLine_of_read?_eq_some lexing store hread]
      rfl
    | none => exact absurd hslash (Command.read?_eq_none_iff.1 hread)

theorem Reply.ofLine_of_not_isIdle (lexing : Lexing) (store : Store) (hexit : isExit line = false)
    (h : isIdle line = false) :
    ofLine lexing store line = ofStep (Step.ofLine lexing line store) := by
  rw [isIdle, hexit, Bool.or_eq_false_iff, Bool.not_false, Bool.and_true, beq_eq_false_iff_ne] at h
  obtain ⟨hblank, hslash⟩ := h
  refine ofLine_of_not_blank lexing store (Command.read?_eq_none_iff.2 hslash) fun hall => ?_
  rw [List.all_eq_true.2 hall] at hblank
  cases hblank

theorem Reply.store_ofStep (step : Step) : (ofStep step).store = step.store := by
  unfold ofStep
  split <;> rfl

theorem Reply.printed_ofStep (step : Step) : (ofStep step).printed = outcomeLine step.outcome := by
  obtain ⟨outcome, store⟩ := step
  rcases outcome with failure | evaluation
  · cases failure with
    | unknownVariable name =>
      have hwords : "Error: Unknown variable '".toList =
          "Error: ".toList ++ "Unknown variable '".toList := rfl
      show "Error: ".toList ++ ("Unknown variable '".toList ++ name ++ ['\'']) ++ ['\n'] =
        "Error: Unknown variable '".toList ++ name ++ ['\'', '\n']
      rw [hwords]
      simp only [List.append_assoc, List.singleton_append]
    | _ => rfl
  · cases evaluation <;> rfl

end

/-! ### All lines -/

/-- Lines that are not kept make no difference to what the kept ones print, if they are idle. -/
theorem replies_kept (lexing : Lexing) (store : Store) {marked : List (Text × Bool)}
    (h : ∀ entry ∈ marked, entry.2 = false → isIdle entry.1 = true) :
    replies lexing store ((marked.filter Prod.snd).map Prod.fst) =
      ((marked.zip (replies lexing store (marked.map Prod.fst))).filter fun entry =>
        entry.1.2).map Prod.snd := by
  induction marked generalizing store with
  | nil => rfl
  | cons entry rest ih =>
    obtain ⟨line, kept⟩ := entry
    obtain ⟨hline, hrest⟩ := List.forall_mem_cons.1 h
    cases kept with
    | true =>
      simp only [List.filter_cons_of_pos, List.map_cons, replies_cons, List.zip_cons_cons]
      rw [ih _ hrest]
    | false =>
      -- The lines behind an idle one start from the store in front of it.
      have hstore := Reply.store_ofLine_of_isIdle lexing store (hline rfl)
      simp only [List.filter_cons, List.map_cons, replies_cons, List.zip_cons_cons, hstore,
        Bool.false_eq_true, if_false]
      exact ih store hrest

theorem replies_calculated (lexing : Lexing) (store : Store) {lines : List Text}
    (h : ∀ line ∈ lines, isExit line = false) :
    ((lines.zip (replies lexing store lines)).filter fun entry => !isIdle entry.1).map Prod.snd =
      (runSession store (linesUnder lexing (lines.filter fun line => !isIdle line))).map fun step =>
        outcomeLine step.outcome := by
  induction lines generalizing store with
  | nil => rfl
  | cons line rest ih =>
    obtain ⟨hline, hrest⟩ := List.forall_mem_cons.1 h
    rw [replies_cons, List.zip_cons_cons, List.filter_cons, List.filter_cons]
    cases hidle : isIdle line with
    | true =>
      rw [Reply.store_ofLine_of_isIdle lexing store hidle]
      exact ih store hrest
    | false =>
      have hreply := Reply.ofLine_of_not_isIdle lexing store hline hidle
      rw [hreply, Reply.store_ofStep]
      exact congrArg₂ _ (Reply.printed_ofStep _) (ih _ hrest)

/-! ### The end of a session -/

theorem printReplies_append_of_ends (switches : Switches) (store : Store) (front behind : List Delivery)
    {ending : Delivery} (h : ending.ends = true) :
    printReplies switches store (front ++ ending :: behind) =
      printReplies switches store (front ++ [ending]) := by
  induction front generalizing store with
  | nil =>
    cases ending with
    | undecodable => rfl
    | line text =>
      have hends : (Reply.ofLine switches.lexing store text).ends = true := by
        rw [Reply.ends_ofLine]
        exact h
      rw [List.nil_append, List.nil_append, printReplies, printReplies, if_pos hends, if_pos hends]
  | cons delivery front ih =>
    cases delivery with
    | undecodable => rfl
    | line text => rw [List.cons_append, List.cons_append, printReplies, printReplies, ih]

theorem printed_ofLine_of_isExit (lexing : Lexing) (store : Store) {line : Text}
    (h : isExit line = true) : (Reply.ofLine lexing store line).printed = "Bye!\n".toList := by
  rw [Reply.ofLine_of_read?_eq_some lexing store (of_decide_eq_true h)]
  rfl

theorem printReplies_eq_openLines (switches : Switches) (store : Store) (deliveries : List Delivery) :
    printReplies switches store deliveries =
      ((replies switches.lexing store (openLines deliveries)).map (· ++ switches.prompt)).flatten ++
        if (decodedLines deliveries).any isExit then "Bye!\n".toList else [] := by
  induction deliveries generalizing store with
  | nil => rfl
  | cons delivery rest ih =>
    cases delivery with
    | undecodable => rfl
    | line text =>
      rw [printReplies, Reply.ends_ofLine, openLines, decodedLines, List.takeWhile_cons, List.any_cons]
      cases hexit : isExit text with
      | true =>
        rw [if_pos rfl]
        exact printed_ofLine_of_isExit switches.lexing store hexit
      | false =>
        rw [if_neg Bool.false_ne_true, ih]
        simp only [openLines, Bool.not_false, if_true, Bool.false_or, replies_cons, List.map_cons,
          List.flatten_cons, List.append_assoc]

/-! ### The exit command -/

/-- What is taken for granted of lower case: letters of ASCII have their own, and of a character outside it something is left that is outside it too, or the letter k. -/
structure Lowercases (lower : Text → Text) : Prop where
  ascii : ∀ text, (∀ c ∈ text, c.toNat < 128) → lower text = text.map Char.toLower
  other : ∀ text, (∃ c ∈ text, 128 ≤ c.toNat) → ∃ c ∈ lower text, 128 ≤ c.toNat ∨ c = 'k'

section

variable {line blanks : Text} {c : Char}

theorem toLower_of_le (h : 128 ≤ c.toNat) : c.toLower = c := by
  apply Number.toLower_of_not_isAlpha
  rw [← Bool.not_eq_true]
  intro halpha
  have hbounds := toNat_of_isAlpha halpha
  omega

theorem eq_slash_of_toLower (h : c.toLower = '/') : c = '/' := by
  by_cases hascii : c.toNat < 128
  · have hslash : ∀ code < 128, (Char.ofNat code).toLower = '/' → Char.ofNat code = '/' := by decide
    have hc := hslash c.toNat hascii
    rw [Char.ofNat_toNat] at hc
    exact hc h
  · rwa [toLower_of_le (Nat.le_of_not_lt hascii)] at h

/-- Lower case letter by letter, with nothing done to characters outside ASCII. -/
theorem lowercases_map_toLower : Lowercases (List.map Char.toLower) where
  ascii := fun _ _ => rfl
  other := by
    rintro text ⟨c, hmem, hc⟩
    exact ⟨c, List.mem_map.2 ⟨c, hmem, toLower_of_le hc⟩, .inl hc⟩

theorem isExit_slash_iff {name : Text} :
    isExit ('/' :: name) = true ↔ name.map Char.toLower = "exit".toList := by
  rw [isExit, decide_eq_true_eq, Command.read?_slash]
  split
  next h => exact iff_of_true rfl h
  next h =>
    refine iff_of_false ?_ h
    split <;> simp

theorem exists_of_isExit (h : isExit line = true) : ∃ name, line = '/' :: name :=
  Command.exists_of_read?_eq_some (of_decide_eq_true h)

theorem isExit_iff : isExit line = true ↔ line.map Char.toLower = "/exit".toList := by
  constructor
  · intro h
    obtain ⟨name, rfl⟩ := exists_of_isExit h
    rw [List.map_cons, isExit_slash_iff.1 h]
    rfl
  · intro h
    obtain ⟨c, name, rfl, hslash, hname⟩ := List.map_eq_cons_iff.1 h
    rw [eq_slash_of_toLower hslash, isExit_slash_iff]
    exact hname

theorem isExit_iff_lower {lower : Text → Text} (h : Lowercases lower) :
    isExit line = true ↔ lower line = "/exit".toList := by
  have hword : ∀ c ∈ ['/', 'e', 'x', 'i', 't'], c.toNat < 128 ∧ c ≠ 'k' := by simp
  by_cases hascii : ∀ c ∈ line, c.toNat < 128
  · rw [h.ascii line hascii, isExit_iff]
  · -- With a character outside ASCII a line is no exit command, and neither is its lower case.
    push Not at hascii
    obtain ⟨c, hmem, hc⟩ := hascii
    refine iff_of_false (fun hexit => ?_) fun hlower => ?_
    · have hsame : c ∈ line.map Char.toLower := List.mem_map.2 ⟨c, hmem, toLower_of_le hc⟩
      rw [isExit_iff.1 hexit] at hsame
      exact absurd hc (Nat.not_le_of_lt (hword c hsame).1)
    · obtain ⟨d, hd, hother⟩ := h.other line ⟨c, hmem, hc⟩
      rw [hlower] at hd
      rcases hother with hle | hk
      · exact absurd hle (Nat.not_le_of_lt (hword d hd).1)
      · exact (hword d hd).2 hk

theorem equals_not_mem_of_isExit (h : isExit line = true) : '=' ∉ line := by
  intro hmem
  have hequals : '=' ∈ line.map Char.toLower := List.mem_map.2 ⟨'=', hmem, rfl⟩
  rw [isExit_iff.1 h] at hequals
  revert hequals
  decide

theorem expression_of_blanks_append (h : isExit line = true) (hne : blanks ≠ [])
    (hblanks : ∀ c ∈ blanks, isBlank c = true) :
    isIdle (blanks ++ line) = false ∧ isExit (blanks ++ line) = false ∧ '=' ∉ blanks ++ line := by
  obtain ⟨name, rfl⟩ := exists_of_isExit h
  have hnot : ∀ {c : Char}, isBlank c = false → c ∉ blanks := by
    intro c hc hmem
    rw [hblanks c hmem] at hc
    cases hc
  have hslash : isBlank '/' = false := by decide
  have hhead : (blanks ++ '/' :: name).head? ≠ some '/' := by
    rw [List.head?_append_of_ne_nil _ hne]
    exact fun hhead => hnot hslash (List.mem_of_head? hhead)
  refine ⟨?_, ?_, List.not_mem_append (hnot (by decide)) (equals_not_mem_of_isExit h)⟩
  · have hall : (blanks ++ '/' :: name).all isBlank = false := by simp [hslash]
    rw [isIdle, hall, beq_eq_false_iff_ne.2 hhead]
    rfl
  · rw [isExit, Command.read?_eq_none_iff.2 hhead]
    rfl

theorem read?_append_blanks (h : isExit line = true) (hne : blanks ≠ []) :
    Command.read? (line ++ blanks) = some .unknown := by
  obtain ⟨name, rfl⟩ := exists_of_isExit h
  have hname := congrArg List.length (isExit_slash_iff.1 h)
  have hblanks := List.length_pos_of_ne_nil hne
  have hlong : ∀ word : Text, word.length = 4 → (name ++ blanks).map Char.toLower ≠ word := by
    rintro word hword rfl
    rw [List.length_map] at hname
    simp at hword hname
    omega
  rw [List.cons_append, Command.read?_slash, if_neg (hlong _ rfl), if_neg (hlong _ rfl)]

end

structure ExitCommand (line : Text) : Prop where
  lower : ∀ lower, Lowercases lower → (isExit line = true ↔ lower line = "/exit".toList)
  /-- With blanks in front it is calculated, and as an expression. -/
  behind : isExit line = true → ∀ blanks, blanks ≠ [] → (∀ c ∈ blanks, isBlank c = true) →
    isIdle (blanks ++ line) = false ∧ isExit (blanks ++ line) = false ∧ '=' ∉ blanks ++ line
  /-- With blanks behind it is a command of no meaning. -/
  before : isExit line = true → ∀ blanks, blanks ≠ [] → (∀ c ∈ blanks, isBlank c = true) →
    Command.read? (line ++ blanks) = some .unknown

/-! ### Sessions -/

/-- What a session prints, with its open lines and what each of them prints. -/
structure Undisturbed (switches : Switches) (deliveries : List Delivery) (lines answers : List Text) :
    Prop where
  /-- Every open line prints its answer, and behind them only the exit command prints one more. -/
  printed : transcript switches deliveries =
    switches.banner ++ switches.prompt ++ ((answers.map (· ++ switches.prompt)).flatten ++
      if (decodedLines deliveries).any isExit then "Bye!\n".toList else [])
  /-- The lines that are not idle print what a session of these lines alone reports. -/
  calculated : ((lines.zip answers).filter fun entry => !isIdle entry.1).map Prod.snd =
    (runSession ∅ (linesUnder switches.lexing (lines.filter fun line => !isIdle line))).map fun step =>
      outcomeLine step.outcome

/-- The open lines of one session are those of another without some idle ones; the marks tell which of the lines stay. -/
structure LeavesOut (marked : List (Text × Bool)) (long short : List Delivery) : Prop where
  long : openLines long = marked.map Prod.fst
  short : openLines short = (marked.filter Prod.snd).map Prod.fst
  idle : ∀ entry ∈ marked, entry.2 = false → isIdle entry.1 = true

theorem not_isExit_of_mem_openLines {deliveries : List Delivery} :
    ∀ line ∈ openLines deliveries, isExit line = false := by
  intro line hmem
  simpa using mem_takeWhile hmem

theorem undisturbed (switches : Switches) (deliveries : List Delivery) :
    Undisturbed switches deliveries (openLines deliveries)
      (replies switches.lexing ∅ (openLines deliveries)) where
  printed := by rw [transcript, printReplies_eq_openLines]
  calculated := replies_calculated switches.lexing ∅ not_isExit_of_mem_openLines

/-- Idle lines leave the calculation alone, and so does all that follows the end of a session. -/
theorem session_undisturbed :
    (∀ switches deliveries, Undisturbed switches deliveries (openLines deliveries)
      (replies switches.lexing ∅ (openLines deliveries))) ∧
    (∀ marked long short, LeavesOut marked long short → ∀ lexing,
      replies lexing ∅ (openLines short) =
        ((marked.zip (replies lexing ∅ (openLines long))).filter fun entry =>
          entry.1.2).map Prod.snd) ∧
    (∀ switches front ending behind, Delivery.ends ending = true →
      transcript switches (front ++ ending :: behind) = transcript switches (front ++ [ending])) ∧
    ∀ line, ExitCommand line := by
  refine ⟨undisturbed, ?_, ?_, fun line => ⟨?_, ?_, ?_⟩⟩
  · intro marked long short hleaves lexing
    rw [hleaves.long, hleaves.short]
    exact replies_kept lexing ∅ hleaves.idle
  · intro switches front ending behind hends
    rw [transcript, printReplies_append_of_ends switches ∅ front behind hends, transcript]
  · exact fun lower => isExit_iff_lower
  · exact fun hexit blanks => expression_of_blanks_append hexit
  · exact fun hexit blanks hne _ => read?_append_blanks hexit hne

theorem session_undisturbed_help :
    LeavesOut [("/help".toList, false), (['x'], true)] [.line "/help".toList, .line ['x']]
        [.line ['x']] ∧
      (Reply.ofLine .strict ∅ ['x']).printed = (Reply.ofLine .strict
        (Reply.ofLine .strict ∅ "/help".toList).store ['x']).printed ∧
      Delivery.ends (.line "/eXit".toList) = true ∧
      transcript { quiet := true } ([.line ['x'], .line ['/'], .line "1+2".toList,
          .line " /eXit".toList, .line "/eXit ".toList] ++ .line "/eXit".toList :: [.undecodable]) =
        ("Error: Unknown variable 'x'\nUnknown command\nAnswer: 3.0\n" ++
          "Error: Unknown variable 'eXit'\nUnknown command\nBye!\n").toList ∧
      Lowercases (List.map Char.toLower) ∧ isExit "/eXit".toList = true ∧
      isIdle " /eXit".toList = false ∧ Command.read? "/eXit ".toList = some .unknown := by
  have hleaves : LeavesOut [("/help".toList, false), (['x'], true)]
      [.line "/help".toList, .line ['x']] [.line ['x']] := by
    refine ⟨rfl, rfl, ?_⟩
    rw [List.forall_mem_cons, List.forall_mem_singleton]
    exact ⟨fun _ => rfl, fun h => by cases h⟩
  have hexit : Delivery.ends (.line "/eXit".toList) = true := by decide
  have hsame := session_undisturbed.2.1 _ _ _ hleaves .strict
  have hcommand := session_undisturbed.2.2.2 "/eXit".toList
  have hlower := (hcommand.lower _ lowercases_map_toLower).2 rfl
  have hspace : [' '] ≠ [] := List.cons_ne_nil _ _
  refine ⟨hleaves, (List.cons.inj hsame).1, hexit, ?_, lowercases_map_toLower, hlower,
    (hcommand.behind hlower _ hspace blank_space).1, hcommand.before hlower _ hspace blank_space⟩
  rw [session_undisturbed.2.2.1 _ _ _ _ hexit, (session_undisturbed.1 _ _).printed]
  decide +kernel

end LineCalculator
