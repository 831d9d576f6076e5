import LineCalculator.Proofs.SignRun.Parity
import Mathlib.Logic.Function.Iterate

/-!
# Folding again

One pass over a run may leave several signs, and then folding once more makes less of them. What is
left has its plus last, so all but one of the minus signs go in pairs on the second time: the run is
one sign then, or a minus with a plus behind it, and on the third time that is one sign too. Folding
acts on each run by itself, so a text that was folded three times has no two signs side by side, and
such a text is not changed any more.
-/

namespace LineCalculator

def foldSignsTimes : Nat → Text → Except Failure Text
  | 0, text => return text
  | count + 1, text => do foldSignsTimes count (← foldSigns text)

def signOf (run : Text) : Char :=
  if run.count '-' % 2 = 0 then '+' else '-'

def HasSingleSigns (text : Text) : Prop :=
  ∀ run, IsSignRun run → run <:+: text → run.length = 1

/-! ### What is left of a run -/

theorem foldMinusPairs_pairs (pairs : Nat) (rest : Text) :
    foldMinusPairs true (List.replicate (2 * pairs) '-' ++ rest) = foldMinusPairs true rest := by
  induction pairs with
  | zero => rfl
  | succ pairs ih =>
    rw [Nat.mul_succ, List.replicate_succ, List.replicate_succ, List.cons_append, List.cons_append,
      foldMinusPairs, if_pos rfl, ih]

theorem rewriteSigns_pairs (pairs : Nat) (rest : Text) :
    rewriteSigns (List.replicate (2 * (pairs + 1)) '-' ++ rest) =
      mergeMixedSigns (collapsePluses ('+' :: foldMinusPairs true rest)) := by
  rw [rewriteSigns, Nat.mul_succ, List.replicate_succ, List.replicate_succ, List.cons_append,
    List.cons_append, foldMinusPairs, if_neg Bool.false_ne_true, foldMinusPairs_pairs]

theorem IsFoldedRun.exists_pairs {run : Text} (h : IsFoldedRun run) :
    ∃ (pairs : Nat) (rest : Text), run = List.replicate (2 * pairs) '-' ++ rest ∧
      (rest ∈ [['+'], ['-'], ['-', '+']] ∨ rest = [] ∧ pairs ≠ 0) := by
  have hsplit : ∀ count, ∃ (pairs : Nat) (rest : Text),
      List.replicate (count + 1) '-' = List.replicate (2 * pairs) '-' ++ rest ∧
        (rest = ['-'] ∨ rest = [] ∧ pairs ≠ 0) := by
    intro count
    obtain ⟨pairs, heven | hodd⟩ : ∃ pairs, count + 1 = 2 * pairs ∨ count + 1 = 2 * pairs + 1 :=
      ⟨(count + 1) / 2, by omega⟩
    · exact ⟨pairs, [], by rw [heven, List.append_nil], .inr ⟨rfl, by omega⟩⟩
    · exact ⟨pairs, ['-'], by rw [hodd, List.replicate_succ'], .inl rfl⟩
  rcases h with rfl | ⟨count, hminus | hplus⟩
  · exact ⟨0, ['+'], rfl, .inl (by decide)⟩
  · obtain ⟨pairs, rest, hrun, hrest⟩ := hsplit count
    exact ⟨pairs, rest, hminus.trans hrun, hrest.imp_left fun h => by simp [h]⟩
  · obtain ⟨pairs, rest, hrun, hrest⟩ := hsplit count
    refine ⟨pairs, rest ++ ['+'], by rw [hplus, hrun, List.append_assoc], .inl ?_⟩
    rcases hrest with rfl | ⟨rfl, -⟩ <;> decide

/-- Folding a folded run leaves one sign, or a minus with a plus behind it. -/
theorem rewriteSigns_of_isFoldedRun {run : Text} (h : IsFoldedRun run) :
    rewriteSigns run ∈ [['+'], ['-'], ['-', '+']] := by
  obtain ⟨pairs, rest, rfl, hrest⟩ := h.exists_pairs
  cases pairs with
  | zero =>
    have hshort : rest ∈ [['+'], ['-'], ['-', '+']] := hrest.resolve_right fun h => h.2 rfl
    simp only [List.mem_cons, List.not_mem_nil, or_false] at hshort
    rcases hshort with rfl | rfl | rfl <;> decide
  | succ pairs =>
    rw [rewriteSigns_pairs]
    simp only [List.mem_cons, List.not_mem_nil, or_false] at hrest
    rcases hrest with (rfl | rfl | rfl) | ⟨rfl, -⟩ <;> decide

theorem isFoldedRun_rewriteSigns {run : Text} (h : IsSignRun run) :
    IsFoldedRun (rewriteSigns run) := by
  have htimes : '*' ∉ run := fun hmem => absurd (h.2 '*' hmem) (by decide)
  have hover : '/' ∉ run := fun hmem => absurd (h.2 '/' hmem) (by decide)
  exact isFoldedRun_of_isChain h.rewriteSigns
    (isChain_rewriteSigns (hasRepeatedProduct_of_not_mem htimes hover))

/-- Folded three times, a run is the sign that it stands for. -/
theorem rewriteSigns_thrice {run : Text} (h : IsSignRun run) :
    rewriteSigns^[3] run = [signOf run] := by
  have hparity : SameParity run (rewriteSigns^[3] run) :=
    ((sameParity_rewriteSigns _).trans (sameParity_rewriteSigns _)).trans (sameParity_rewriteSigns run)
  have hsingle : rewriteSigns^[3] run = ['+'] ∨ rewriteSigns^[3] run = ['-'] := by
    have hshort := rewriteSigns_of_isFoldedRun (isFoldedRun_rewriteSigns h)
    simp only [List.mem_cons, List.not_mem_nil, or_false] at hshort
    have htimes : rewriteSigns^[3] run = rewriteSigns (rewriteSigns (rewriteSigns run)) := rfl
    rcases hshort with hshort | hshort | hshort <;> rw [htimes, hshort] <;> decide
  rw [SameParity] at hparity
  rw [signOf, ← hparity]
  rcases hsingle with hsingle | hsingle <;> rw [hsingle] <;> rfl

/-! ### Texts without runs -/

section

variable {stands : Text → Text → Prop} {text replaced : Text}

theorem RunsReplaced.not_isSign_head? (h : RunsReplaced stands text replaced)
    (hstop : ∀ c ∈ text.head?, isSign c = false) : ∀ c ∈ replaced.head?, isSign c = false := by
  cases h with
  | nil => exact hstop
  | char hchar hrest => exact hstop
  | @run run other text replaced hrun hother hstands hbehind hrest =>
    obtain ⟨sign, signs, rfl⟩ := List.exists_cons_of_ne_nil hrun.1
    have hsign := hrun.2 sign List.mem_cons_self
    rw [hstop sign rfl] at hsign
    cases hsign

theorem RunsReplaced.isChain_of_single (h : RunsReplaced stands text replaced)
    (hsingle : ∀ run other, stands run other → other.length = 1) :
    replaced.IsChain fun left right => ¬ (isSign left = true ∧ isSign right = true) := by
  induction h with
  | nil => exact .nil
  | char hchar hrest ih =>
    refine List.isChain_cons.2 ⟨?_, ih⟩
    rintro d - ⟨hsign, -⟩
    rw [hchar] at hsign
    cases hsign
  | run hrun hother hstands hstop hrest ih =>
    obtain ⟨sign, rfl⟩ := List.length_eq_one_iff.1 (hsingle _ _ hstands)
    refine List.isChain_cons.2 ⟨?_, ih⟩
    rintro d hd ⟨-, hsign⟩
    rw [hrest.not_isSign_head? hstop d hd] at hsign
    cases hsign

theorem hasSingleSigns_of_isChain
    (h : text.IsChain fun left right => ¬ (isSign left = true ∧ isSign right = true)) :
    HasSingleSigns text := by
  intro run hrun hwithin
  have hchain := isChain_of_isInfix h hwithin
  obtain ⟨hne, hsigns⟩ := hrun
  rcases run with _ | ⟨first, _ | ⟨second, rest⟩⟩
  · exact absurd rfl hne
  · rfl
  · exact absurd ⟨hsigns first (by simp), hsigns second (by simp)⟩ (List.isChain_cons_cons.1 hchain).1

theorem RunsReplaced.eq_of_eq (h : RunsReplaced (fun run other => other = run) text replaced) :
    replaced = text := by
  induction h with
  | nil => rfl
  | char hchar hrest ih => rw [ih]
  | run hrun hother hstands hstop hrest ih => rw [hstands, ih]

end

variable {text folded : Text}

theorem rewriteSigns_eq_self (h : HasSingleSigns text) : rewriteSigns text = text := by
  apply RunsReplaced.eq_of_eq
  refine (runsReplaced_rewriteSigns text).mono_of_isInfix ?_
  rintro run other hrun hwithin rfl
  obtain ⟨sign, rfl⟩ := List.length_eq_one_iff.1 (h run hrun hwithin)
  rcases isSign_iff.1 (hrun.2 sign List.mem_cons_self) with rfl | rfl <;> rfl

/-! ### Folding a whole text again -/

theorem RunByRun.comp {first second : Text → Text} (hsecond : RunByRun second)
    (hfirst : RunByRun first) : RunByRun (second ∘ first) where
  nil := by rw [Function.comp_apply, hfirst.nil, hsecond.nil]
  char := fun hchar text => by
    rw [Function.comp_apply, hfirst.char hchar, hsecond.char hchar, Function.comp_apply]
  run := fun hrun hstop => by
    rw [Function.comp_apply, hfirst.run hrun hstop, hsecond.run (hfirst.isSignRun hrun)
      ((hfirst.runsReplaced _).not_isSign_head? hstop), Function.comp_apply, Function.comp_apply]
  isSignRun := fun hrun => hsecond.isSignRun (hfirst.isSignRun hrun)

theorem runByRun_rewriteSigns_thrice : RunByRun rewriteSigns^[3] :=
  (runByRun_rewriteSigns.comp runByRun_rewriteSigns).comp runByRun_rewriteSigns

theorem runsReplaced_rewriteSigns_thrice (text : Text) :
    RunsReplaced (fun run other => other = [signOf run]) text (rewriteSigns^[3] text) :=
  (runByRun_rewriteSigns_thrice.runsReplaced text).mono_of_isInfix fun _ _ hrun _ hother =>
    hother.trans (rewriteSigns_thrice hrun)

theorem hasSingleSigns_rewriteSigns_thrice (text : Text) : HasSingleSigns (rewriteSigns^[3] text) := by
  apply hasSingleSigns_of_isChain
  refine (runsReplaced_rewriteSigns_thrice text).isChain_of_single ?_
  rintro run other rfl
  rfl

theorem rewriteSigns_settled (count : Nat) (text : Text) :
    rewriteSigns^[count + 3] text = rewriteSigns^[3] text := by
  rw [Function.iterate_add_apply]
  exact Function.iterate_fixed (rewriteSigns_eq_self (hasSingleSigns_rewriteSigns_thrice text)) count

theorem trim_iterate_rewriteSigns (count : Nat) (text : Text) :
    trim (rewriteSigns^[count] text) = rewriteSigns^[count] (trim text) := by
  induction count generalizing text with
  | zero => rfl
  | succ count ih =>
    rw [Function.iterate_succ_apply, ih, trim_rewriteSigns, Function.iterate_succ_apply]

theorem hasRepeatedProduct_of_isInfix {piece : Text} (hwithin : piece <:+: text)
    (h : hasRepeatedProduct text = false) : hasRepeatedProduct piece = false := by
  rw [Bool.eq_false_iff, Ne, hasRepeatedProduct_iff] at h ⊢
  exact mt (Or.imp (fun hpair => hpair.trans hwithin) fun hpair => hpair.trans hwithin) h

/-- Folding doubles no product, so what was folded is accepted again. -/
theorem hasRepeatedProduct_trim_rewriteSigns (h : hasRepeatedProduct text = false) :
    hasRepeatedProduct (trim (rewriteSigns text)) = false := by
  apply hasRepeatedProduct_of_isInfix (trim_isInfix _)
  rw [Bool.eq_false_iff, Ne, hasRepeatedProduct_iff] at h ⊢
  have htimes : ∀ c ∈ ['*', '*'], isSign c = false := by simp [isSign]
  have hover : ∀ c ∈ ['/', '/'], isSign c = false := by simp [isSign]
  exact mt (Or.imp (isInfix_of_rewriteSigns htimes) (isInfix_of_rewriteSigns hover)) h

theorem foldSigns_eq_ok_trim (h : hasRepeatedProduct text = false) :
    foldSigns text = .ok (trim (rewriteSigns text)) :=
  foldSigns_eq_ok_iff.2 ⟨h, rfl⟩

theorem foldSignsTimes_succ (h : hasRepeatedProduct text = false) (count : Nat) :
    foldSignsTimes (count + 1) text = .ok (trim (rewriteSigns^[count + 1] text)) := by
  induction count generalizing text with
  | zero =>
    rw [foldSignsTimes, foldSigns_eq_ok_trim h]
    rfl
  | succ count ih =>
    rw [foldSignsTimes, foldSigns_eq_ok_trim h]
    show foldSignsTimes (count + 1) (trim (rewriteSigns text)) = _
    rw [ih (hasRepeatedProduct_trim_rewriteSigns h), ← trim_iterate_rewriteSigns, trim_trim,
      Function.iterate_succ_apply rewriteSigns (count + 1)]

theorem foldSigns_folded_eq_ok_iff (h : foldSigns text = .ok folded) :
    foldSigns folded = .ok folded ↔ HasSingleSigns folded := by
  obtain ⟨hnone, rfl⟩ := foldSigns_eq_ok_iff.1 h
  rw [foldSigns_eq_ok_iff, trim_rewriteSigns (trim _), trim_trim]
  constructor
  · rintro ⟨-, hfixed⟩
    have hthrice := hasSingleSigns_rewriteSigns_thrice (trim (rewriteSigns text))
    rwa [Function.iterate_fixed hfixed.symm] at hthrice
  · intro hsingle
    exact ⟨hasRepeatedProduct_trim_rewriteSigns hnone, (rewriteSigns_eq_self hsingle).symm⟩

/-- What becomes of a text that folding accepts when it is folded again. -/
structure Settles (text folded : Text) : Prop where
  /-- Folding never fails again. -/
  again : ∀ count, ∃ later, foldSignsTimes count folded = .ok later
  /-- After three times it changes nothing. -/
  settled : foldSignsTimes 3 text = foldSignsTimes 4 text
  /-- By then each run is replaced in place by the sign that it stands for. -/
  runs : ∃ last, foldSignsTimes 3 text = .ok last ∧
    RunsReplaced (fun run other => other = [signOf run]) (trim text) last
  /-- One time is enough when it leaves no run of several signs, and only then. -/
  once : foldSigns folded = .ok folded ↔ HasSingleSigns folded

/-- Folding settles after three times, and some runs need all three. -/
theorem foldSigns_settles :
    (∀ text folded, foldSigns text = .ok folded → Settles text folded) ∧
      foldSignsTimes 2 ['+', '-', '+', '-', '+', '-', '+'] ≠
        foldSignsTimes 3 ['+', '-', '+', '-', '+', '-', '+'] := by
  refine ⟨fun text folded h => ?_, by decide⟩
  obtain ⟨hnone, hfolded⟩ := foldSigns_eq_ok_iff.1 h
  refine ⟨fun count => ?_, ?_, ⟨_, foldSignsTimes_succ hnone 2, ?_⟩, foldSigns_folded_eq_ok_iff h⟩
  · cases count with
    | zero => exact ⟨folded, rfl⟩
    | succ count =>
      have hagain := hasRepeatedProduct_trim_rewriteSigns hnone
      rw [← hfolded] at hagain
      exact ⟨_, foldSignsTimes_succ hagain count⟩
  · rw [foldSignsTimes_succ hnone 2, foldSignsTimes_succ hnone 3, rewriteSigns_settled 1]
  · rw [trim_iterate_rewriteSigns]
    exact runsReplaced_rewriteSigns_thrice (trim text)

/-- Once leaves three minus signs and a plus of this run, so once is not enough. -/
theorem foldSigns_settles_mixed :
    foldSigns ['+', '-', '+', '-', '+', '-', '+'] = .ok ['-', '-', '-', '+'] ∧
      Settles ['+', '-', '+', '-', '+', '-', '+'] ['-', '-', '-', '+'] := by
  have hfolded : foldSigns ['+', '-', '+', '-', '+', '-', '+'] = .ok ['-', '-', '-', '+'] := rfl
  exact ⟨hfolded, foldSigns_settles.1 _ _ hfolded⟩

end LineCalculator
