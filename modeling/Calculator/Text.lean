/-!
# Text and blanks

Text is a list of Unicode scalar values, so that readers recurse on it directly. A blank is a character
with the Unicode property `White_Space`; blanks separate lexemes and are trimmed from both ends of an
entry. Main statements: trimming leaves no blank at either end, what it removes is blank, and trimming again changes
nothing.
-/

namespace Calculator

/-- A text, as the list of its characters. -/
abbrev Text := List Char

/-- The intervals of code points that have the Unicode property `White_Space`. -/
def blankRanges : List (Nat × Nat) :=
  [(0x9, 0xD), (0x20, 0x20), (0x85, 0x85), (0xA0, 0xA0), (0x1680, 0x1680), (0x2000, 0x200A),
    (0x2028, 0x2029), (0x202F, 0x202F), (0x205F, 0x205F), (0x3000, 0x3000)]

/-- A character is blank when its code point lies in one of the `blankRanges`. -/
def isBlank (c : Char) : Bool :=
  blankRanges.any fun range => decide (range.1 ≤ c.toNat ∧ c.toNat ≤ range.2)

namespace Text

/-- The text without its trailing blanks. -/
def trimEnd (text : Text) : Text :=
  (text.reverse.dropWhile isBlank).reverse

/-- The text without the blanks at its two ends. -/
def trim (text : Text) : Text :=
  trimEnd (text.dropWhile isBlank)

/-- A trimmed text does not end with a blank. -/
theorem isBlank_getLast?_trimEnd {text : Text} {c : Char} (h : (trimEnd text).getLast? = some c) :
    isBlank c = false := by
  simp only [trimEnd, List.getLast?_reverse] at h
  have kept := List.head?_dropWhile_not isBlank text.reverse
  simpa [h] using kept

/-- What trimming the end removes is blank. -/
theorem exists_trimEnd_append (text : Text) :
    ∃ blanks, text = trimEnd text ++ blanks ∧ blanks.all isBlank = true := by
  refine ⟨(text.reverse.takeWhile isBlank).reverse, ?_, ?_⟩
  · unfold trimEnd
    rw [← List.reverse_append, List.takeWhile_append_dropWhile, List.reverse_reverse]
  · simp

/-- A text that starts with no blank keeps its start. -/
theorem dropWhile_isBlank_eq_self {text : Text} (head : ∀ c ∈ text.head?, isBlank c = false) :
    text.dropWhile isBlank = text := by
  cases text with
  | nil => rfl
  | cons c rest => exact List.dropWhile_cons_of_neg (by simp [head c rfl])

/-- A text with no blank at either end is left as it is. -/
theorem trim_eq_self {text : Text} (head : ∀ c ∈ text.head?, isBlank c = false)
    (last : ∀ c ∈ text.getLast?, isBlank c = false) : text.trim = text := by
  have reversed : ∀ c ∈ text.reverse.head?, isBlank c = false := by simpa using last
  rw [trim, trimEnd, dropWhile_isBlank_eq_self head, dropWhile_isBlank_eq_self reversed, List.reverse_reverse]

/-- A trimmed text does not start with a blank. -/
theorem isBlank_head?_trim {text : Text} {c : Char} (h : text.trim.head? = some c) : isBlank c = false := by
  obtain ⟨blanks, split, -⟩ := exists_trimEnd_append (text.dropWhile isBlank)
  obtain ⟨rest, eq⟩ := List.head?_eq_some_iff.mp h
  have kept := List.head?_dropWhile_not isBlank text
  rw [split, ← trim, eq] at kept
  simpa using kept

/-- Trimming twice is trimming once. -/
theorem trim_trim (text : Text) : text.trim.trim = text.trim :=
  trim_eq_self (fun _ h => isBlank_head?_trim h) (fun _ h => isBlank_getLast?_trimEnd h)

/-- What is left of a text is part of it. -/
theorem mem_of_mem_trim {text : Text} {c : Char} (h : c ∈ text.trim) : c ∈ text := by
  obtain ⟨blanks, split, -⟩ := exists_trimEnd_append (text.dropWhile isBlank)
  have kept : c ∈ text.dropWhile isBlank := by
    rw [split]
    exact List.mem_append_left blanks h
  exact (List.dropWhile_sublist isBlank).mem kept

end Text

end Calculator
