/-!
# Blank characters

A character is blank when it has the Unicode property White_Space. The property is a short list of
code point ranges, so it stands here as a table; it holds more than the ASCII blanks and less than
what looks empty on a screen, since a zero width space is not in it.
-/

namespace LineCalculator

/-- All reading is recursion on the characters that are left, so a text is their list. -/
abbrev Text := List Char

/-- First and last code point of each range. -/
def blankRanges : List (Nat × Nat) :=
  [(0x9, 0xD), (0x20, 0x20), (0x85, 0x85), (0xA0, 0xA0), (0x1680, 0x1680), (0x2000, 0x200A),
    (0x2028, 0x2029), (0x202F, 0x202F), (0x205F, 0x205F), (0x3000, 0x3000)]

def isBlank (c : Char) : Bool :=
  blankRanges.any fun range => range.1 ≤ c.toNat && c.toNat ≤ range.2

def trimStart (text : Text) : Text :=
  text.dropWhile isBlank

def trimEnd (text : Text) : Text :=
  (trimStart text.reverse).reverse

/-- The text without the blanks at its two ends. -/
def trim (text : Text) : Text :=
  trimEnd (trimStart text)

theorem blank_nil : ∀ c ∈ ([] : Text), isBlank c = true := List.forall_mem_nil _

theorem blank_space : ∀ c ∈ [' '], isBlank c = true := List.forall_mem_singleton.2 rfl

theorem toNat_of_isBlank {c : Char} (h : isBlank c = true) : c.toNat ≤ 0x20 ∨ 0x7F ≤ c.toNat := by
  obtain ⟨range, hmem, hrange⟩ := List.any_eq_true.1 h
  rw [Bool.and_eq_true, decide_eq_true_eq, decide_eq_true_eq] at hrange
  have hbounds : ∀ range ∈ blankRanges, range.2 ≤ 0x20 ∨ 0x7F ≤ range.1 := by decide
  have := hbounds range hmem
  omega

@[simp] theorem trim_nil : trim [] = [] := rfl

end LineCalculator
