import LineCalculator.Text.Blank

/-!
# Splitting a text at a character

Every reader here takes the longest run of characters of one class and goes on behind it. These are
the facts about such a run: what is in it, what cannot stand right behind it, and that a run
followed by something else is found again.
-/

namespace LineCalculator

section

variable {α : Type} {p : α → Bool} {text left right : List α} {c : α}

theorem mem_takeWhile (h : c ∈ text.takeWhile p) : p c = true :=
  List.all_eq_true.1 List.all_takeWhile c h

theorem not_of_mem_head?_dropWhile (h : c ∈ (text.dropWhile p).head?) : p c = false := by
  have hnot := List.head?_dropWhile_not p text
  rwa [Option.mem_def.1 h] at hnot

theorem takeWhile_append_of_head? (hleft : ∀ c ∈ left, p c = true)
    (hright : ∀ c ∈ right.head?, p c = false) : (left ++ right).takeWhile p = left := by
  rw [List.takeWhile_append_of_pos hleft]
  cases right with
  | nil => simp
  | cons c rest => simp [hright c rfl]

theorem dropWhile_append_of_head? (hleft : ∀ c ∈ left, p c = true)
    (hright : ∀ c ∈ right.head?, p c = false) : (left ++ right).dropWhile p = right := by
  rw [List.dropWhile_append_of_pos hleft]
  cases right with
  | nil => simp
  | cons c rest => simp [hright c rfl]

theorem dropWhile_eq_nil_of_forall (h : ∀ c ∈ text, p c = true) : text.dropWhile p = [] := by
  have hempty : (text ++ []).dropWhile p = [] := dropWhile_append_of_head? h (by simp)
  rwa [List.append_nil] at hempty

theorem dropWhile_eq_self_of_head? (h : ∀ c ∈ text.head?, p c = false) :
    text.dropWhile p = text := by
  have hself : ([] ++ text).dropWhile p = text := dropWhile_append_of_head? (by simp) h
  rwa [List.nil_append] at hself

/-- No run goes past a character of another class, whatever stands behind it. -/
theorem takeWhile_append_cons (h : p c = false) (left right : List α) :
    (left ++ c :: right).takeWhile p = left.takeWhile p := by
  induction left with
  | nil => simp [h]
  | cons d left ih => rw [List.cons_append, List.takeWhile_cons, List.takeWhile_cons, ih]

theorem dropWhile_append_cons (h : p c = false) (left right : List α) :
    (left ++ c :: right).dropWhile p = left.dropWhile p ++ c :: right := by
  induction left with
  | nil => simp [h]
  | cons d left ih =>
    rw [List.cons_append, List.dropWhile_cons, List.dropWhile_cons, ih]
    split <;> rfl

theorem filter_eq_nil_of_forall {q : α → Bool} (hdisjoint : ∀ c, q c = true → p c = false)
    (h : ∀ c ∈ text, q c = true) : text.filter p = [] :=
  List.filter_eq_nil_iff.2 fun c hc => by simp [hdisjoint c (h c hc)]

theorem forall_of_dropWhile_eq_nil (h : text.dropWhile p = []) : ∀ c ∈ text, p c = true := by
  have hsplit := List.takeWhile_append_dropWhile (p := p) (l := text)
  rw [h, List.append_nil] at hsplit
  rw [← hsplit]
  exact fun _ => mem_takeWhile

end

theorem bne_of_not_mem {text : Text} {c : Char} (h : c ∉ text) : ∀ d ∈ text, (d != c) = true := by
  intro d hd
  rw [bne_iff_ne]
  rintro rfl
  exact h hd

/-! ### Trimming -/

variable {text left right : Text} {c : Char}

theorem trimStart_append (h : ∀ c ∈ left, isBlank c = true) :
    trimStart (left ++ text) = trimStart text :=
  List.dropWhile_append_of_pos h

theorem trimEnd_append (h : ∀ c ∈ right, isBlank c = true) :
    trimEnd (text ++ right) = trimEnd text := by
  rw [trimEnd, trimEnd, List.reverse_append, trimStart_append (by simpa using h)]

theorem trim_eq_nil_of_forall (h : ∀ c ∈ text, isBlank c = true) : trim text = [] := by
  rw [trim, trimStart, dropWhile_eq_nil_of_forall h]
  rfl

/-- Blanks around a text make no difference to what is left of it. -/
theorem trim_append (hleft : ∀ c ∈ left, isBlank c = true)
    (hright : ∀ c ∈ right, isBlank c = true) :
    trim (left ++ text ++ right) = trim text := by
  rw [trim, List.append_assoc, trimStart_append hleft]
  cases hstart : trimStart text with
  | nil =>
    have hblank := forall_of_dropWhile_eq_nil hstart
    rw [trimStart, List.dropWhile_append_of_pos hblank, dropWhile_eq_nil_of_forall hright,
      trim_eq_nil_of_forall hblank]
    rfl
  | cons c rest =>
    have hlist : trimStart (text ++ right) = trimStart text ++ right := by
      rw [trimStart, List.dropWhile_append, ← trimStart, hstart]
      rfl
    rw [hlist, trimEnd_append hright, trim]

theorem exists_trim (text : Text) : ∃ left right : Text, (∀ c ∈ left, isBlank c = true) ∧
    (∀ c ∈ right, isBlank c = true) ∧ text = left ++ trim text ++ right := by
  refine ⟨text.takeWhile isBlank, ((trimStart text).reverse.takeWhile isBlank).reverse,
    fun _ => mem_takeWhile, fun c hc => mem_takeWhile (List.mem_reverse.1 hc), ?_⟩
  have hend : trim text ++ ((trimStart text).reverse.takeWhile isBlank).reverse = trimStart text := by
    rw [trim, trimEnd, trimStart, ← List.reverse_append, List.takeWhile_append_dropWhile,
      List.reverse_reverse]
  rw [List.append_assoc, hend, trimStart, List.takeWhile_append_dropWhile]

theorem trim_trim (text : Text) : trim (trim text) = trim text := by
  obtain ⟨left, right, hleft, hright, htext⟩ := exists_trim text
  rw [← trim_append hleft hright, ← htext]

theorem not_isBlank_of_mem_head?_trim (h : c ∈ (trim text).head?) : isBlank c = false := by
  have hfront : (trimStart (trimStart text).reverse).reverse <+: (trimStart text).reverse.reverse :=
    (List.dropWhile_suffix isBlank).reverse
  rw [List.reverse_reverse] at hfront
  obtain ⟨rest, hrest⟩ := hfront
  obtain ⟨kept, hkept⟩ := List.head?_eq_some_iff.1 h
  have hhead : c ∈ (trimStart text).head? := by
    rw [← hrest, ← trimEnd, ← trim, hkept]
    rfl
  exact not_of_mem_head?_dropWhile hhead

theorem not_isBlank_of_mem_getLast?_trim (h : c ∈ (trim text).getLast?) : isBlank c = false := by
  rw [trim, trimEnd, List.getLast?_reverse] at h
  exact not_of_mem_head?_dropWhile h

theorem trim_eq_nil_iff : trim text = [] ↔ ∀ c ∈ text, isBlank c = true := by
  refine ⟨fun h => ?_, trim_eq_nil_of_forall⟩
  obtain ⟨left, right, hleft, hright, htext⟩ := exists_trim text
  rw [h, List.append_nil] at htext
  rw [htext]
  exact fun c hc => (List.mem_append.1 hc).elim (hleft c) (hright c)

/-- Blanks around a text bring no other character in. -/
theorem mem_append_blanks_iff (h : isBlank c = false) (hleft : ∀ d ∈ left, isBlank d = true)
    (hright : ∀ d ∈ right, isBlank d = true) : c ∈ left ++ text ++ right ↔ c ∈ text := by
  have hnot : ∀ {blanks : Text}, (∀ d ∈ blanks, isBlank d = true) → c ∉ blanks := fun hblanks hmem => by
    simp [hblanks c hmem] at h
  simp [hnot hleft, hnot hright]

/-- Trimming a text keeps all of its characters but blanks. -/
theorem mem_trim_iff (h : isBlank c = false) : c ∈ trim text ↔ c ∈ text := by
  obtain ⟨left, right, hleft, hright, htext⟩ := exists_trim text
  conv => rhs; rw [htext]
  rw [mem_append_blanks_iff h hleft hright]

theorem trim_isInfix (text : Text) : trim text <:+: text := by
  obtain ⟨left, right, -, -, htext⟩ := exists_trim text
  exact ⟨left, right, htext.symm⟩

theorem filter_trim {p : Char → Bool} (h : ∀ c, isBlank c = true → p c = false) (text : Text) :
    (trim text).filter p = text.filter p := by
  obtain ⟨left, right, hleft, hright, htext⟩ := exists_trim text
  conv => rhs; rw [htext]
  rw [List.filter_append, List.filter_append, filter_eq_nil_of_forall h hleft,
    filter_eq_nil_of_forall h hright, List.nil_append, List.append_nil]

theorem trim_subset (text : Text) : trim text ⊆ text := by
  obtain ⟨left, right, -, -, htext⟩ := exists_trim text
  intro c hc
  rw [htext]
  simp [hc]

theorem trim_eq_self (hstart : ∀ c ∈ text.head?, isBlank c = false)
    (hend : ∀ c ∈ text.getLast?, isBlank c = false) : trim text = text := by
  have hself : trimStart text = text := dropWhile_eq_self_of_head? hstart
  have hlast : ∀ c ∈ text.reverse.head?, isBlank c = false := by rwa [List.head?_reverse]
  have hrev : trimStart text.reverse = text.reverse := dropWhile_eq_self_of_head? hlast
  rw [trim, hself, trimEnd, hrev, List.reverse_reverse]

end LineCalculator
