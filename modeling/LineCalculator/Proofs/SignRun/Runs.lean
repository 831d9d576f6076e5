import LineCalculator.Proofs.SignRun.Locality

/-!
# Folding replaces runs of signs

A text is sign runs with other characters between them. Folding acts on each run by itself and
leaves the rest in place, so what it gives is the text with every run replaced by another. Whatever
the folded text holds between two signs stood in the text already.
-/

namespace LineCalculator

def isSign (c : Char) : Bool :=
  c == '+' || c == '-'

theorem isSign_iff {c : Char} : isSign c = true ↔ c = '+' ∨ c = '-' := by
  simp [isSign]

theorem not_isSign_iff {c : Char} : isSign c = false ↔ c ≠ '+' ∧ c ≠ '-' := by
  simp [isSign]

theorem not_isSign_of_not_isFoldable {c : Char} (h : isFoldable c = false) : isSign c = false := by
  obtain ⟨hplus, hminus, -, -⟩ := not_isFoldable_iff.1 h
  exact not_isSign_iff.2 ⟨hplus, hminus⟩

/-- One sign or more. -/
def IsSignRun (text : Text) : Prop :=
  text ≠ [] ∧ ∀ c ∈ text, isSign c = true

/-- One text is the other with each of its longest runs of signs replaced by one that stands for it. -/
inductive RunsReplaced (stands : Text → Text → Prop) : Text → Text → Prop
  | nil : RunsReplaced stands [] []
  | char {c : Char} {text replaced : Text} (h : isSign c = false)
      (hrest : RunsReplaced stands text replaced) : RunsReplaced stands (c :: text) (c :: replaced)
  | run {run other text replaced : Text} (hrun : IsSignRun run) (hother : IsSignRun other)
      (hstands : stands run other) (hstop : ∀ c ∈ text.head?, isSign c = false)
      (hrest : RunsReplaced stands text replaced) :
      RunsReplaced stands (run ++ text) (other ++ replaced)

/-! ### Folding one run at a time -/

theorem rewriteSigns_cons {c : Char} (h : isSign c = false) (text : Text) :
    rewriteSigns (c :: text) = c :: rewriteSigns text := by
  have hsignless : ∀ d ∈ [c], d ≠ '+' ∧ d ≠ '-' := List.forall_mem_singleton.2 (not_isSign_iff.1 h)
  exact rewriteSigns_signless_append hsignless

theorem rewriteSigns_append_of_head? {left right : Text} (h : ∀ c ∈ right.head?, isSign c = false) :
    rewriteSigns (left ++ right) = rewriteSigns left ++ rewriteSigns right := by
  cases right with
  | nil => exact (congrArg rewriteSigns (List.append_nil left)).trans (List.append_nil _).symm
  | cons c rest =>
    obtain ⟨hplus, hminus⟩ := not_isSign_iff.1 (h c rfl)
    rw [rewriteSigns_append hplus hminus, rewriteSigns_cons (h c rfl)]

theorem foldMinusPairs_ne_nil {text : Text} (h : text ≠ []) : foldMinusPairs false text ≠ [] := by
  unfold foldMinusPairs
  split <;> simp_all

theorem collapsePluses_ne_nil {text : Text} (h : text ≠ []) : collapsePluses text ≠ [] := by
  fun_induction collapsePluses text with
  | case1 rest ih => exact ih (by simp)
  | case2 => simp
  | case3 => exact h

theorem mergeMixedSigns_ne_nil {text : Text} (h : text ≠ []) : mergeMixedSigns text ≠ [] := by
  unfold mergeMixedSigns
  split <;> simp_all

theorem IsSignRun.rewriteSigns {run : Text} (h : IsSignRun run) : IsSignRun (rewriteSigns run) := by
  refine ⟨mergeMixedSigns_ne_nil (collapsePluses_ne_nil (foldMinusPairs_ne_nil h.1)), ?_⟩
  intro c hc
  by_contra hsign
  obtain ⟨hplus, hminus⟩ := not_isSign_iff.1 (Bool.eq_false_iff.2 hsign)
  exact hsign (h.2 c ((mem_rewriteSigns_iff hplus hminus).1 hc))

/-- A rewriting that acts on each run of signs by itself and leaves every other character in place. -/
structure RunByRun (rewrite : Text → Text) : Prop where
  nil : rewrite [] = []
  char : ∀ {c : Char}, isSign c = false → ∀ text : Text, rewrite (c :: text) = c :: rewrite text
  run : ∀ {run text : Text}, IsSignRun run → (∀ c ∈ text.head?, isSign c = false) →
    rewrite (run ++ text) = rewrite run ++ rewrite text
  isSignRun : ∀ {run : Text}, IsSignRun run → IsSignRun (rewrite run)

theorem runByRun_rewriteSigns : RunByRun rewriteSigns where
  nil := rfl
  char := rewriteSigns_cons
  run := fun _ => rewriteSigns_append_of_head?
  isSignRun := IsSignRun.rewriteSigns

/-- Such a rewriting replaces every run by what becomes of the run alone. -/
theorem RunByRun.runsReplaced {rewrite : Text → Text} (h : RunByRun rewrite) (text : Text) :
    RunsReplaced (fun run other => other = rewrite run) text (rewrite text) := by
  cases text with
  | nil =>
    rw [h.nil]
    exact .nil
  | cons c rest =>
    cases hsign : isSign c with
    | false =>
      rw [h.char hsign]
      exact .char hsign (h.runsReplaced rest)
    | true =>
      have hrun : IsSignRun ((c :: rest).takeWhile isSign) :=
        ⟨by simp [hsign], fun _ => mem_takeWhile⟩
      have hstop : ∀ d ∈ ((c :: rest).dropWhile isSign).head?, isSign d = false :=
        fun _ => not_of_mem_head?_dropWhile
      have hreplaced := RunsReplaced.run hrun (h.isSignRun hrun) rfl hstop
        (h.runsReplaced ((c :: rest).dropWhile isSign))
      rwa [← h.run hrun hstop, List.takeWhile_append_dropWhile] at hreplaced
termination_by text.length
decreasing_by
  · simp
  · rw [List.dropWhile_cons_of_pos hsign]
    exact Nat.lt_succ_of_le (List.dropWhile_sublist isSign).length_le

/-- Folding replaces every run by what the run alone is folded to. -/
theorem runsReplaced_rewriteSigns (text : Text) :
    RunsReplaced (fun run other => other = rewriteSigns run) text (rewriteSigns text) :=
  runByRun_rewriteSigns.runsReplaced text

/-! ### What stands between the runs -/

variable {stands : Text → Text → Prop} {text replaced piece : Text}

theorem isInfix_of_append_run {run : Text} (hrun : ∀ c ∈ run, isSign c = true)
    (hpiece : ∀ c ∈ piece, isSign c = false) (h : piece <:+: run ++ text) :
    piece <:+: text := by
  induction run with
  | nil => exact h
  | cons sign run ih =>
    have hsign := hrun sign List.mem_cons_self
    rw [List.cons_append, List.infix_cons_iff] at h
    rcases h with h | h
    · cases piece with
      | nil => exact List.nil_infix
      | cons c piece =>
        obtain ⟨rfl, -⟩ := List.cons_prefix_cons.1 h
        rw [hpiece c List.mem_cons_self] at hsign
        cases hsign
    · exact ih (fun c hc => hrun c (List.mem_cons_of_mem sign hc)) h

theorem RunsReplaced.isPrefix_of_signless (h : RunsReplaced stands text replaced)
    (hpiece : ∀ c ∈ piece, isSign c = false) (hfront : piece <+: replaced) : piece <+: text := by
  induction h generalizing piece with
  | nil => exact hfront
  | char hchar hrest ih =>
    cases piece with
    | nil => exact List.nil_prefix
    | cons d piece =>
      obtain ⟨rfl, hbehind⟩ := List.cons_prefix_cons.1 hfront
      have hsignless : ∀ c ∈ piece, isSign c = false := fun c hc =>
        hpiece c (List.mem_cons_of_mem d hc)
      exact List.cons_prefix_cons.2 ⟨rfl, ih hsignless hbehind⟩
  | run hrun hother hstands hstop hrest ih =>
    cases piece with
    | nil => exact List.nil_prefix
    | cons d piece =>
      -- A run is not empty, so no other character can be the first of the replaced text.
      obtain ⟨sign, signs, rfl⟩ := List.exists_cons_of_ne_nil hother.1
      obtain ⟨rfl, -⟩ := List.cons_prefix_cons.1 hfront
      have hsign := hother.2 d List.mem_cons_self
      rw [hpiece d List.mem_cons_self] at hsign
      cases hsign

/-- What holds no sign stands in the replaced text only where it stood before. -/
theorem RunsReplaced.isInfix_of_signless (h : RunsReplaced stands text replaced)
    (hpiece : ∀ c ∈ piece, isSign c = false) (hwithin : piece <:+: replaced) : piece <:+: text := by
  induction h with
  | nil => exact hwithin
  | char hchar hrest ih =>
    rw [List.infix_cons_iff] at hwithin ⊢
    rcases hwithin with hfront | hwithin
    · exact .inl ((RunsReplaced.char hchar hrest).isPrefix_of_signless hpiece hfront)
    · exact .inr (ih hwithin)
  | run hrun hother hstands hstop hrest ih =>
    exact (ih (isInfix_of_append_run hother.2 hpiece hwithin)).trans
      (List.suffix_append _ _).isInfix

/-- What is picked from a text apart from its signs is picked from the replaced text in the same order. -/
theorem RunsReplaced.filter_eq (h : RunsReplaced stands text replaced) {p : Char → Bool}
    (hsigns : ∀ c, isSign c = true → p c = false) : replaced.filter p = text.filter p := by
  induction h with
  | nil => rfl
  | char hchar hrest ih => rw [List.filter_cons, List.filter_cons, ih]
  | run hrun hother hstands hstop hrest ih =>
    rw [List.filter_append, List.filter_append, filter_eq_nil_of_forall hsigns hrun.2,
      filter_eq_nil_of_forall hsigns hother.2, ih]

theorem isInfix_of_rewriteSigns (hpiece : ∀ c ∈ piece, isSign c = false)
    (h : piece <:+: rewriteSigns text) : piece <:+: text :=
  (runsReplaced_rewriteSigns text).isInfix_of_signless hpiece h

/-! ### Doubled products -/

/-- What folding refuses is a doubled product sign. -/
theorem hasRepeatedProduct_iff :
    hasRepeatedProduct text = true ↔ ['*', '*'] <:+: text ∨ ['/', '/'] <:+: text := by
  fun_induction hasRepeatedProduct text with
  | case1 first second rest ih =>
    have hsplit : ∀ pair : Text, pair <:+: first :: second :: rest ↔
        pair <+: first :: second :: rest ∨ pair <:+: second :: rest := fun pair =>
      List.infix_cons_iff
    rw [Bool.or_eq_true, ih, hsplit, hsplit]
    simp only [List.cons_prefix_cons, List.nil_prefix, and_true]
    grind
  | case2 text hne =>
    have hlength : text.length < 2 := by
      rcases text with _ | ⟨c, _ | ⟨d, rest⟩⟩
      · simp
      · simp
      · exact absurd rfl (hne c d rest)
    have hlong : ∀ pair : Text, pair.length = 2 → ¬ pair <:+: text := fun pair hpair h => by
      have hle := h.length_le
      omega
    simp [hlong]

theorem hasRepeatedProduct_of_not_mem (htimes : '*' ∉ text) (hover : '/' ∉ text) :
    hasRepeatedProduct text = false := by
  rw [Bool.eq_false_iff, Ne, hasRepeatedProduct_iff]
  rintro (hwithin | hwithin)
  · exact htimes (hwithin.subset List.mem_cons_self)
  · exact hover (hwithin.subset List.mem_cons_self)

end LineCalculator
