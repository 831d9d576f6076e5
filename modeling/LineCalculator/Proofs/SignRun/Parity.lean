import LineCalculator.Proofs.SignRun.Runs

/-!
# What folding makes of a run

No pass changes whether a run has an even or an odd number of minus signs: the first takes pairs of
them away and the other two take none. What is left of a run has its plus sign last. After the first
pass no two minus signs touch, after the second no two equal signs do, so the third meets runs that
alternate, and it leaves a plus only at the end of one.
-/

namespace LineCalculator

/-! ### Parity -/

/-- Both texts have an even number of minus signs, or both an odd one. -/
def SameParity (text other : Text) : Prop :=
  other.count '-' % 2 = text.count '-' % 2

theorem count_minus_foldMinusPairs (inBlock : Bool) (text : Text) :
    (foldMinusPairs inBlock text).count '-' % 2 = text.count '-' % 2 := by
  fun_induction foldMinusPairs inBlock text with
  | case1 rest ih =>
    rw [ih, List.count_cons_self, List.count_cons_self]
    omega
  | case2 inBlock rest hout ih =>
    rw [List.count_cons_of_ne (by decide), ih, List.count_cons_self, List.count_cons_self]
    omega
  | case3 inBlock c rest hne ih =>
    rw [List.count_cons, List.count_cons]
    omega
  | case4 => rfl

theorem count_minus_collapsePluses (text : Text) :
    (collapsePluses text).count '-' = text.count '-' := by
  fun_induction collapsePluses text with
  | case1 rest ih => simp [ih]
  | case2 c rest hne ih => rw [List.count_cons, List.count_cons, ih]
  | case3 => rfl

theorem count_minus_mergeMixedSigns (text : Text) :
    (mergeMixedSigns text).count '-' = text.count '-' := by
  fun_induction mergeMixedSigns text with
  | case1 rest ih => simp [ih]
  | case2 rest ih => simp [ih]
  | case3 c rest hplusMinus hminusPlus ih => rw [List.count_cons, List.count_cons, ih]
  | case4 => rfl

theorem sameParity_rewriteSigns (text : Text) : SameParity text (rewriteSigns text) := by
  rw [SameParity, rewriteSigns, count_minus_mergeMixedSigns, count_minus_collapsePluses,
    count_minus_foldMinusPairs]

/-! ### What the passes leave -/

theorem eq_plus_or_head?_of_foldMinusPairs {text : Text} :
    ∀ c ∈ (foldMinusPairs false text).head?, c = '+' ∨ c ∈ text.head? := by
  intro c hc
  unfold foldMinusPairs at hc
  split at hc
  next => exact .inl (Option.some.inj hc).symm
  next => exact .inr hc
  next => cases hc

theorem head?_collapsePluses (text : Text) : (collapsePluses text).head? = text.head? := by
  fun_induction collapsePluses text with
  | case1 rest ih => exact ih
  | case2 => rfl
  | case3 => rfl

theorem isSign_head?_of_mergeMixedSigns {text : Text} :
    ∀ c ∈ (mergeMixedSigns text).head?, isSign c = true → ∃ d ∈ text.head?, isSign d = true := by
  intro c hc hsign
  unfold mergeMixedSigns at hc
  split at hc <;> simp_all [isSign]

theorem hasRepeatedProduct_tail {c : Char} {text : Text}
    (h : hasRepeatedProduct (c :: text) = false) : hasRepeatedProduct text = false := by
  cases text with
  | nil => rfl
  | cons d rest =>
    rw [hasRepeatedProduct, Bool.or_eq_false_iff] at h
    exact h.2

/-- After the first pass only a plus can stand beside its like. -/
theorem isChain_foldMinusPairs {text : Text} (h : hasRepeatedProduct text = false)
    (inBlock : Bool) :
    (foldMinusPairs inBlock text).IsChain fun left right =>
      ¬ (left = right ∧ isFoldable left = true ∧ left ≠ '+') := by
  fun_induction foldMinusPairs inBlock text with
  | case1 rest ih => exact ih (hasRepeatedProduct_tail (hasRepeatedProduct_tail h))
  | case2 inBlock rest hout ih =>
    refine List.isChain_cons.2 ⟨?_, ih (hasRepeatedProduct_tail (hasRepeatedProduct_tail h))⟩
    rintro c - ⟨-, -, hplus⟩
    exact hplus rfl
  | case3 inBlock c rest hne ih =>
    refine List.isChain_cons.2 ⟨?_, ih (hasRepeatedProduct_tail h)⟩
    rintro d hd ⟨rfl, hfoldable, hplus⟩
    rcases eq_plus_or_head?_of_foldMinusPairs c hd with hsame | hhead
    · exact hplus hsame
    · obtain ⟨after, rfl⟩ := List.head?_eq_some_iff.1 hhead
      -- A minus beside its like is a pair, and a doubled product is refused.
      simp only [isFoldable, Bool.or_eq_true, beq_iff_eq] at hfoldable
      rcases hfoldable with ((rfl | rfl) | rfl) | rfl
      · exact hplus rfl
      · exact hne after rfl rfl
      · cases h
      · cases h
  | case4 => exact .nil

/-- After the second pass no two equal signs touch. -/
theorem isChain_collapsePluses {text : Text}
    (h : text.IsChain fun left right => ¬ (left = right ∧ isFoldable left = true ∧ left ≠ '+')) :
    (collapsePluses text).IsChain fun left right => ¬ (left = right ∧ isFoldable left = true) := by
  fun_induction collapsePluses text with
  | case1 rest ih => exact ih h.tail
  | case2 c rest hne ih =>
    refine List.isChain_cons.2 ⟨?_, ih h.tail⟩
    rintro d hd ⟨rfl, hfoldable⟩
    rw [head?_collapsePluses] at hd
    obtain ⟨after, rfl⟩ := List.head?_eq_some_iff.1 hd
    by_cases hplus : c = '+'
    · subst hplus
      exact hne after rfl rfl
    · exact (List.isChain_cons_cons.1 h).1 ⟨rfl, hfoldable, hplus⟩
  | case3 => exact .nil

/-- After the third pass no sign stands behind a plus. -/
theorem isChain_mergeMixedSigns {text : Text}
    (h : text.IsChain fun left right => ¬ (left = right ∧ isFoldable left = true)) :
    (mergeMixedSigns text).IsChain fun left right => ¬ (left = '+' ∧ isSign right = true) := by
  fun_induction mergeMixedSigns text with
  | case1 rest ih =>
    refine List.isChain_cons.2 ⟨?_, ih h.tail.tail⟩
    rintro c - ⟨hplus, -⟩
    cases hplus
  | case2 rest ih =>
    refine List.isChain_cons.2 ⟨?_, ih h.tail.tail⟩
    rintro c - ⟨hplus, -⟩
    cases hplus
  | case3 c rest hplusMinus hminusPlus ih =>
    refine List.isChain_cons.2 ⟨?_, ih h.tail⟩
    rintro d hd ⟨rfl, hsign⟩
    obtain ⟨e, he, hsign⟩ := isSign_head?_of_mergeMixedSigns d hd hsign
    obtain ⟨after, rfl⟩ := List.head?_eq_some_iff.1 he
    rcases isSign_iff.1 hsign with rfl | rfl
    · exact (List.isChain_cons_cons.1 h).1 ⟨rfl, rfl⟩
    · exact hplusMinus after rfl rfl
  | case4 => exact .nil

theorem isChain_rewriteSigns {text : Text} (h : hasRepeatedProduct text = false) :
    (rewriteSigns text).IsChain fun left right => ¬ (left = '+' ∧ isSign right = true) :=
  isChain_mergeMixedSigns (isChain_collapsePluses (isChain_foldMinusPairs h false))

/-- Writes each block of one of the four foldable characters as one of them. -/
def collapseRepeats : Text → Text
  | first :: second :: rest =>
    if first = second ∧ isFoldable first = true then collapseRepeats (second :: rest)
    else first :: collapseRepeats (second :: rest)
  | text => text

/-- Where only a plus stands beside its like there is nothing else to collapse. -/
theorem collapseRepeats_eq_collapsePluses {text : Text}
    (h : text.IsChain fun left right => ¬ (left = right ∧ isFoldable left = true ∧ left ≠ '+')) :
    collapseRepeats text = collapsePluses text := by
  induction text with
  | nil => rfl
  | cons first rest ih =>
    cases rest with
    | nil => simp [collapseRepeats, collapsePluses]
    | cons second rest =>
      rw [collapseRepeats]
      split
      next hsame =>
        obtain ⟨rfl, hfoldable⟩ := hsame
        have hplus : first = '+' := by
          by_contra hne
          exact (List.isChain_cons_cons.1 h).1 ⟨rfl, hfoldable, hne⟩
        subst hplus
        rw [ih h.tail, collapsePluses]
      next hne =>
        have hcons : collapsePluses (first :: second :: rest) =
            first :: collapsePluses (second :: rest) := by
          rw [collapsePluses]
          rintro after rfl ⟨⟩
          exact hne ⟨rfl, rfl⟩
        rw [hcons, ih h.tail]

/-! ### Trimming before or after -/

section

variable {stands : Text → Text → Prop} {text replaced : Text} {c : Char}

theorem RunsReplaced.mono_of_isInfix {others : Text → Text → Prop}
    (h : RunsReplaced stands text replaced)
    (hmono : ∀ run other, IsSignRun run → run <:+: text → stands run other → others run other) :
    RunsReplaced others text replaced := by
  induction h with
  | nil => exact .nil
  | char hchar hrest ih =>
    exact .char hchar (ih fun run other hrun hwithin => hmono run other hrun (List.infix_cons hwithin))
  | @run run other text replaced hrun hother hstands hstop hrest ih =>
    have hbehind : text <:+: run ++ text := (List.suffix_append run text).isInfix
    refine .run hrun hother (hmono _ _ hrun (List.prefix_append run text).isInfix hstands) hstop ?_
    exact ih fun more others hmore hwithin => hmono more others hmore (hwithin.trans hbehind)

theorem RunsReplaced.mono {others : Text → Text → Prop} (h : RunsReplaced stands text replaced)
    (hmono : ∀ run other, stands run other → others run other) :
    RunsReplaced others text replaced :=
  h.mono_of_isInfix fun run other _ _ => hmono run other

theorem RunsReplaced.ne_nil (h : RunsReplaced stands text replaced) (hne : text ≠ []) :
    replaced ≠ [] := by
  cases h with
  | nil => exact hne
  | char => simp
  | run hrun hother => simp [hother.1]

theorem RunsReplaced.mem_head? (h : RunsReplaced stands text replaced)
    (hc : c ∈ replaced.head?) (hsign : isSign c = false) : c ∈ text.head? := by
  cases h with
  | nil => exact hc
  | char => exact hc
  | @run run other text replaced hrun hother hstands hstop hrest =>
    obtain ⟨sign, signs, rfl⟩ := List.exists_cons_of_ne_nil hother.1
    obtain rfl : sign = c := Option.some.inj hc
    rw [hother.2 sign List.mem_cons_self] at hsign
    cases hsign

theorem RunsReplaced.mem_getLast? (h : RunsReplaced stands text replaced)
    (hc : c ∈ replaced.getLast?) (hsign : isSign c = false) : c ∈ text.getLast? := by
  induction h with
  | nil => exact hc
  | @char d text replaced hd hrest ih =>
    rw [List.getLast?_cons, Option.mem_some_iff] at hc ⊢
    cases hlast : replaced.getLast? with
    | some last =>
      rw [hlast, Option.getD_some] at hc
      subst hc
      rw [Option.mem_def.1 (ih hlast), Option.getD_some]
    | none =>
      have htext : text = [] := by
        by_contra hne
        exact hrest.ne_nil hne (List.getLast?_eq_none_iff.1 hlast)
      subst htext
      rwa [hlast] at hc
  | @run run other text replaced hrun hother hstands hstop hrest ih =>
    rw [List.getLast?_append, Option.mem_def, Option.or_eq_some_iff] at hc
    rcases hc with hc | ⟨-, hc⟩
    · rw [List.getLast?_append, Option.mem_def.1 (ih hc)]
      rfl
    · rw [hother.2 c (List.mem_of_getLast? hc)] at hsign
      cases hsign

theorem not_isSign_of_isBlank (h : isBlank c = true) : isSign c = false :=
  not_isSign_of_not_isFoldable (not_isFoldable_of_isBlank h)

theorem not_isBlank_of_imp (h : isSign c = false → isBlank c = false) : isBlank c = false := by
  cases hblank : isBlank c with
  | false => rfl
  | true =>
    rw [h (not_isSign_of_isBlank hblank)] at hblank
    cases hblank

/-- Folding keeps the blanks at the ends, so a text may as well be trimmed first. -/
theorem trim_rewriteSigns (text : Text) : trim (rewriteSigns text) = rewriteSigns (trim text) := by
  obtain ⟨left, right, hleft, hright, htext⟩ := exists_trim text
  have hreplaced := runsReplaced_rewriteSigns (trim text)
  have hstart : ∀ c ∈ (rewriteSigns (trim text)).head?, isBlank c = false := fun c hc =>
    not_isBlank_of_imp fun hsign => not_isBlank_of_mem_head?_trim (hreplaced.mem_head? hc hsign)
  have hend : ∀ c ∈ (rewriteSigns (trim text)).getLast?, isBlank c = false := fun c hc =>
    not_isBlank_of_imp fun hsign => not_isBlank_of_mem_getLast?_trim (hreplaced.mem_getLast? hc hsign)
  conv => lhs; rw [htext]
  rw [rewriteSigns_append_blanks hright, rewriteSigns_blanks_append hleft, trim_append hleft hright,
    trim_eq_self hstart hend]

end

/-! ### Runs that are left -/

/-- A plus alone, or minus signs with at most one plus behind them. -/
def IsFoldedRun (run : Text) : Prop :=
  run = ['+'] ∨ ∃ count, run = List.replicate (count + 1) '-' ∨
    run = List.replicate (count + 1) '-' ++ ['+']

theorem isChain_of_isInfix {related : Char → Char → Prop} {piece text : Text}
    (h : text.IsChain related) (hwithin : piece <:+: text) : piece.IsChain related := by
  obtain ⟨left, right, rfl⟩ := hwithin
  exact h.left_of_append.right_of_append

/-- A run in which no sign stands behind a plus has its plus last. -/
theorem isFoldedRun_of_isChain {run : Text} (hrun : IsSignRun run)
    (h : run.IsChain fun left right => ¬ (left = '+' ∧ isSign right = true)) : IsFoldedRun run := by
  obtain ⟨hne, hsigns⟩ := hrun
  induction run with
  | nil => exact absurd rfl hne
  | cons c rest ih =>
    have hsign := isSign_iff.1 (hsigns c List.mem_cons_self)
    cases rest with
    | nil =>
      rcases hsign with rfl | rfl
      · exact .inl rfl
      · exact .inr ⟨0, .inl rfl⟩
    | cons d rest =>
      have hrest : ∀ e ∈ d :: rest, isSign e = true := fun e he =>
        hsigns e (List.mem_cons_of_mem c he)
      have hminus : c = '-' := hsign.resolve_left fun hplus =>
        (List.isChain_cons_cons.1 h).1 ⟨hplus, hrest d List.mem_cons_self⟩
      subst hminus
      rcases ih h.tail (by simp) hrest with hfolded | ⟨count, hfolded | hfolded⟩
      · exact .inr ⟨0, .inr (congrArg _ hfolded)⟩
      · exact .inr ⟨count + 1, .inl (congrArg _ hfolded)⟩
      · exact .inr ⟨count + 1, .inr (congrArg _ hfolded)⟩

/-! ### Folding keeps the sign -/

theorem SameParity.of_rewriteSigns {run other : Text} (h : other = rewriteSigns run) :
    SameParity run other := by
  subst h
  exact sameParity_rewriteSigns run

/-- What folding makes of a text that it accepts. -/
structure FoldsTo (text folded : Text) : Prop where
  /-- It is what the three passes leave, and the second may collapse all four characters. -/
  passes : folded = trim (mergeMixedSigns (collapseRepeats (foldMinusPairs false text)))
  /-- Each run of the trimmed text is replaced in place by one of the same parity. -/
  runs : RunsReplaced SameParity (trim text) folded
  /-- No sign stands behind a plus, and no product is doubled. -/
  apart : ∀ pair ∈ [['+', '+'], ['+', '-'], ['*', '*'], ['/', '/']], ¬ pair <:+: folded
  /-- What is left of a run is a plus alone, or minus signs with at most one plus behind them. -/
  shapes : ∀ run, IsSignRun run → run <:+: folded → IsFoldedRun run

theorem foldsTo_rewriteSigns {text : Text} (h : hasRepeatedProduct text = false) :
    FoldsTo text (trim (rewriteSigns text)) := by
  have hchain := isChain_of_isInfix (isChain_rewriteSigns h) (trim_isInfix (rewriteSigns text))
  refine ⟨?_, ?_, ?_, ?_⟩
  · rw [collapseRepeats_eq_collapsePluses (isChain_foldMinusPairs h false), rewriteSigns]
  · rw [trim_rewriteSigns]
    exact (runsReplaced_rewriteSigns (trim text)).mono fun _ _ => .of_rewriteSigns
  · intro pair hpair hwithin
    have hkept : (∀ c ∈ pair, isSign c = false) → pair <:+: text := fun hsignless =>
      isInfix_of_rewriteSigns hsignless (hwithin.trans (trim_isInfix (rewriteSigns text)))
    have hnone : ¬ (['*', '*'] <:+: text ∨ ['/', '/'] <:+: text) := by
      rw [← hasRepeatedProduct_iff, h]
      exact Bool.false_ne_true
    simp only [List.mem_cons, List.not_mem_nil, or_false] at hpair
    rcases hpair with rfl | rfl | rfl | rfl
    · exact (List.isChain_cons_cons.1 (isChain_of_isInfix hchain hwithin)).1 ⟨rfl, rfl⟩
    · exact (List.isChain_cons_cons.1 (isChain_of_isInfix hchain hwithin)).1 ⟨rfl, rfl⟩
    · exact hnone (.inl (hkept (by simp [isSign])))
    · exact hnone (.inr (hkept (by simp [isSign])))
  · intro run hrun hwithin
    exact isFoldedRun_of_isChain hrun (isChain_of_isInfix hchain hwithin)

/-- Folding refuses doubled products, and of any other text it keeps the sign of each run. -/
theorem foldSigns_keeps_sign (text : Text) :
    (foldSigns text = .error .invalidExpression ↔
        ['*', '*'] <:+: text ∨ ['/', '/'] <:+: text) ∧
      (¬ (['*', '*'] <:+: text ∨ ['/', '/'] <:+: text) →
        ∃ folded, foldSigns text = .ok folded ∧ FoldsTo text folded) := by
  rw [← hasRepeatedProduct_iff, Bool.not_eq_true]
  constructor
  · rw [foldSigns]
    cases hasRepeatedProduct text <;> simp [throw, throwThe, MonadExceptOf.throw, pure, Except.pure]
  · intro h
    exact ⟨_, foldSigns_eq_ok_iff.2 ⟨h, rfl⟩, foldsTo_rewriteSigns h⟩

theorem foldSigns_mixed_run :
    foldSigns [' ', '1', '+', '-', '+', '-', '+', '2'] = .ok ['1', '-', '-', '+', '2'] ∧
      FoldsTo [' ', '1', '+', '-', '+', '-', '+', '2'] ['1', '-', '-', '+', '2'] := by
  have hfolded : foldSigns [' ', '1', '+', '-', '+', '-', '+', '2'] = .ok ['1', '-', '-', '+', '2'] := rfl
  have hnone : ¬ (['*', '*'] <:+: [' ', '1', '+', '-', '+', '-', '+', '2'] ∨
      ['/', '/'] <:+: [' ', '1', '+', '-', '+', '-', '+', '2']) := by decide
  obtain ⟨folded, hsame, hfolds⟩ := (foldSigns_keeps_sign _).2 hnone
  obtain rfl := Except.ok.inj (hfolded.symm.trans hsame)
  exact ⟨hfolded, hfolds⟩

end LineCalculator
