import LineCalculator.SignRun
import LineCalculator.Text.Split
import Mathlib.Data.List.Chain

/-!
# Folding is local

No pass looks past a character that is not a sign, so a text may be folded piece by piece between
such characters. Two things follow. Blanks around a text make no difference to folding, and a text
in which no two signs touch is only trimmed.
-/

namespace LineCalculator

/-! ### The passes on both sides of a character -/

theorem foldMinusPairs_append {c : Char} (h : c ≠ '-') (inBlock : Bool) (left right : Text) :
    foldMinusPairs inBlock (left ++ c :: right) =
      foldMinusPairs inBlock left ++ c :: foldMinusPairs false right := by
  fun_induction foldMinusPairs inBlock left with
  | case1 rest ih => simp_all [foldMinusPairs]
  | case2 inBlock rest hin ih => simp_all [foldMinusPairs]
  | case3 inBlock d rest hne ih =>
    rw [List.cons_append, List.cons_append, ← ih]
    cases rest with
    | nil => simp [foldMinusPairs, h]
    | cons e rest =>
      rw [List.cons_append, foldMinusPairs]
      simpa using hne
  | case4 => simp [foldMinusPairs, h]

theorem collapsePluses_append {c : Char} (h : c ≠ '+') (left right : Text) :
    collapsePluses (left ++ c :: right) = collapsePluses left ++ c :: collapsePluses right := by
  fun_induction collapsePluses left with
  | case1 rest ih => simp_all [collapsePluses]
  | case2 d rest hne ih =>
    rw [List.cons_append, List.cons_append, ← ih]
    cases rest with
    | nil => simp [collapsePluses, h]
    | cons e rest =>
      rw [List.cons_append, collapsePluses]
      simpa using hne
  | case3 => simp [collapsePluses, h]

theorem mergeMixedSigns_append {c : Char} (hplus : c ≠ '+') (hminus : c ≠ '-') (left right : Text) :
    mergeMixedSigns (left ++ c :: right) = mergeMixedSigns left ++ c :: mergeMixedSigns right := by
  fun_induction mergeMixedSigns left with
  | case1 rest ih => simp_all [mergeMixedSigns]
  | case2 rest ih => simp_all [mergeMixedSigns]
  | case3 d rest hplusMinus hminusPlus ih =>
    rw [List.cons_append, List.cons_append, ← ih]
    cases rest with
    | nil => simp [mergeMixedSigns, hplus, hminus]
    | cons e rest =>
      rw [List.cons_append, mergeMixedSigns]
      · simpa using hplusMinus
      · simpa using hminusPlus
  | case4 => simp [mergeMixedSigns, hplus, hminus]

theorem rewriteSigns_append {c : Char} (hplus : c ≠ '+') (hminus : c ≠ '-') (left right : Text) :
    rewriteSigns (left ++ c :: right) = rewriteSigns left ++ c :: rewriteSigns right := by
  rw [rewriteSigns, foldMinusPairs_append hminus, collapsePluses_append hplus,
    mergeMixedSigns_append hplus hminus, rewriteSigns, rewriteSigns]

/-- What holds no sign in front of a text stays as it is. -/
theorem rewriteSigns_signless_append {left right : Text} (h : ∀ c ∈ left, c ≠ '+' ∧ c ≠ '-') :
    rewriteSigns (left ++ right) = left ++ rewriteSigns right := by
  induction left with
  | nil => rfl
  | cons c rest ih =>
    obtain ⟨hplus, hminus⟩ := h c List.mem_cons_self
    have hcons : rewriteSigns (c :: (rest ++ right)) = c :: rewriteSigns (rest ++ right) :=
      rewriteSigns_append hplus hminus [] (rest ++ right)
    rw [List.cons_append, hcons, ih fun d hd => h d (List.mem_cons_of_mem c hd), List.cons_append]

theorem hasRepeatedProduct_cons {c : Char} (htimes : c ≠ '*') (hover : c ≠ '/') (text : Text) :
    hasRepeatedProduct (c :: text) = hasRepeatedProduct text := by
  cases text with
  | nil => rfl
  | cons d rest => simp [hasRepeatedProduct, htimes, hover]

theorem hasRepeatedProduct_append {c : Char} (htimes : c ≠ '*') (hover : c ≠ '/')
    (left right : Text) :
    hasRepeatedProduct (left ++ c :: right) = (hasRepeatedProduct left || hasRepeatedProduct right) := by
  fun_induction hasRepeatedProduct left with
  | case1 first second rest ih =>
    rw [List.cons_append, List.cons_append, hasRepeatedProduct, ← List.cons_append, ih, Bool.or_assoc]
  | case2 left hne =>
    rw [Bool.false_or]
    match left, hne with
    | [], _ => exact hasRepeatedProduct_cons htimes hover right
    | [d], _ =>
      have hsame : ((d == c) && (d == '*' || d == '/')) = false := by
        rw [Bool.and_eq_false_iff, beq_eq_false_iff_ne]
        by_cases hd : d = c
        · subst hd
          simp [htimes, hover]
        · exact .inl hd
      rw [List.cons_append, List.nil_append, hasRepeatedProduct, hsame,
        hasRepeatedProduct_cons htimes hover, Bool.false_or]
    | d :: e :: rest, hne => exact absurd rfl (hne d e rest)

/-! ### Blanks around a text -/

/-- The characters that folding looks at. -/
def isFoldable (c : Char) : Bool :=
  c == '+' || c == '-' || c == '*' || c == '/'

theorem not_isFoldable_iff {c : Char} :
    isFoldable c = false ↔ c ≠ '+' ∧ c ≠ '-' ∧ c ≠ '*' ∧ c ≠ '/' := by
  simp [isFoldable, and_assoc]

theorem not_isFoldable_of_isBlank {c : Char} (h : isBlank c = true) : isFoldable c = false := by
  rw [not_isFoldable_iff]
  refine ⟨?_, ?_, ?_, ?_⟩ <;> rintro rfl <;> revert h <;> decide

theorem rewriteSigns_append_blanks {text blanks : Text} (h : ∀ c ∈ blanks, isBlank c = true) :
    rewriteSigns (text ++ blanks) = rewriteSigns text ++ blanks := by
  induction blanks generalizing text with
  | nil => rw [List.append_nil, List.append_nil]
  | cons c rest ih =>
    obtain ⟨hplus, hminus, -, -⟩ :=
      not_isFoldable_iff.1 (not_isFoldable_of_isBlank (h c List.mem_cons_self))
    have hrest : rewriteSigns ([] ++ rest) = rewriteSigns [] ++ rest :=
      ih fun d hd => h d (List.mem_cons_of_mem c hd)
    rw [rewriteSigns_append hplus hminus, ← List.nil_append rest, hrest]
    rfl

theorem rewriteSigns_append_of_not_isFoldable {left : Text} (h : ∀ c ∈ left, isFoldable c = false)
    (right : Text) : rewriteSigns (left ++ right) = left ++ rewriteSigns right := by
  apply rewriteSigns_signless_append
  intro c hc
  obtain ⟨hplus, hminus, -, -⟩ := not_isFoldable_iff.1 (h c hc)
  exact ⟨hplus, hminus⟩

theorem rewriteSigns_blanks_append {blanks text : Text} (h : ∀ c ∈ blanks, isBlank c = true) :
    rewriteSigns (blanks ++ text) = blanks ++ rewriteSigns text :=
  rewriteSigns_append_of_not_isFoldable (fun c hc => not_isFoldable_of_isBlank (h c hc)) text

theorem hasRepeatedProduct_append_blanks {text blanks : Text} (h : ∀ c ∈ blanks, isBlank c = true) :
    hasRepeatedProduct (text ++ blanks) = hasRepeatedProduct text := by
  induction blanks generalizing text with
  | nil => rw [List.append_nil]
  | cons c rest ih =>
    obtain ⟨-, -, htimes, hover⟩ :=
      not_isFoldable_iff.1 (not_isFoldable_of_isBlank (h c List.mem_cons_self))
    have hrest : hasRepeatedProduct ([] ++ rest) = hasRepeatedProduct [] :=
      ih fun d hd => h d (List.mem_cons_of_mem c hd)
    rw [hasRepeatedProduct_append htimes hover, ← List.nil_append rest, hrest]
    exact Bool.or_false _

theorem hasRepeatedProduct_blanks_append {blanks text : Text} (h : ∀ c ∈ blanks, isBlank c = true) :
    hasRepeatedProduct (blanks ++ text) = hasRepeatedProduct text := by
  induction blanks with
  | nil => rfl
  | cons c rest ih =>
    obtain ⟨-, -, htimes, hover⟩ :=
      not_isFoldable_iff.1 (not_isFoldable_of_isBlank (h c List.mem_cons_self))
    rw [List.cons_append, hasRepeatedProduct_cons htimes hover,
      ih fun d hd => h d (List.mem_cons_of_mem c hd)]

theorem foldSigns_append {left text right : Text} (hleft : ∀ c ∈ left, isBlank c = true)
    (hright : ∀ c ∈ right, isBlank c = true) :
    foldSigns (left ++ text ++ right) = foldSigns text := by
  rw [foldSigns, hasRepeatedProduct_append_blanks hright, hasRepeatedProduct_blanks_append hleft,
    rewriteSigns_append_blanks hright, rewriteSigns_blanks_append hleft, trim_append hleft hright,
    foldSigns]

theorem foldSigns_trim (text : Text) : foldSigns (trim text) = foldSigns text := by
  obtain ⟨left, right, hleft, hright, htext⟩ := exists_trim text
  conv => rhs; rw [htext]
  rw [foldSigns_append hleft hright]

/-! ### Characters that are no signs -/

/-- Folding keeps every other character. -/
theorem mem_rewriteSigns_iff {c : Char} (hplus : c ≠ '+') (hminus : c ≠ '-') {text : Text} :
    c ∈ rewriteSigns text ↔ c ∈ text := by
  have hpairs : ∀ inBlock, c ∈ foldMinusPairs inBlock text ↔ c ∈ text := fun inBlock => by
    fun_induction foldMinusPairs inBlock text <;> simp_all
  have hpluses : ∀ text, c ∈ collapsePluses text ↔ c ∈ text := fun text => by
    fun_induction collapsePluses text <;> simp_all
  have hmixed : ∀ text, c ∈ mergeMixedSigns text ↔ c ∈ text := fun text => by
    fun_induction mergeMixedSigns text <;> simp_all
  rw [rewriteSigns, hmixed, hpluses, hpairs]

/-! ### Texts in which no two signs touch -/

def SignsApart (text : Text) : Prop :=
  text.IsChain fun left right => ¬ (isFoldable left = true ∧ isFoldable right = true)

variable {text : Text}

theorem signsApart_of_forall (h : ∀ c ∈ text, isFoldable c = false) : SignsApart text := by
  apply List.Pairwise.isChain
  apply List.pairwise_of_forall_mem_list
  intro left hleft right hright hboth
  rw [h left hleft] at hboth
  cases hboth.1

theorem SignsApart.hasRepeatedProduct_eq (h : SignsApart text) :
    hasRepeatedProduct text = false := by
  fun_induction hasRepeatedProduct text with
  | case1 first second rest ih =>
    obtain ⟨hpair, hrest⟩ := List.isChain_cons_cons.1 h
    rw [ih hrest, Bool.or_false, Bool.eq_false_iff]
    intro hsame
    simp only [Bool.and_eq_true, beq_iff_eq, Bool.or_eq_true] at hsame
    obtain ⟨rfl, hproduct⟩ := hsame
    exact hpair ⟨by rcases hproduct with rfl | rfl <;> rfl, by rcases hproduct with rfl | rfl <;> rfl⟩
  | case2 => rfl

theorem SignsApart.foldMinusPairs_eq (h : SignsApart text) (inBlock : Bool) :
    foldMinusPairs inBlock text = text := by
  fun_induction foldMinusPairs inBlock text with
  | case1 rest => exact absurd ⟨rfl, rfl⟩ (List.isChain_cons_cons.1 h).1
  | case2 inBlock rest => exact absurd ⟨rfl, rfl⟩ (List.isChain_cons_cons.1 h).1
  | case3 inBlock c rest hne ih => rw [ih h.tail]
  | case4 => rfl

theorem SignsApart.collapsePluses_eq (h : SignsApart text) : collapsePluses text = text := by
  fun_induction collapsePluses text with
  | case1 rest => exact absurd ⟨rfl, rfl⟩ (List.isChain_cons_cons.1 h).1
  | case2 c rest hne ih => rw [ih h.tail]
  | case3 => rfl

theorem SignsApart.mergeMixedSigns_eq (h : SignsApart text) : mergeMixedSigns text = text := by
  fun_induction mergeMixedSigns text with
  | case1 rest => exact absurd ⟨rfl, rfl⟩ (List.isChain_cons_cons.1 h).1
  | case2 rest => exact absurd ⟨rfl, rfl⟩ (List.isChain_cons_cons.1 h).1
  | case3 c rest hplusMinus hminusPlus ih => rw [ih h.tail]
  | case4 => rfl

theorem SignsApart.foldSigns_eq (h : SignsApart text) : foldSigns text = .ok (trim text) := by
  rw [foldSigns, rewriteSigns, h.hasRepeatedProduct_eq, h.foldMinusPairs_eq, h.collapsePluses_eq,
    h.mergeMixedSigns_eq]
  rfl

end LineCalculator
