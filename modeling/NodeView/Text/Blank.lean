/-!
# NodeView.Text.Blank

Blank characters, texts of nothing else, and texts without blanks at their ends.

Which characters may stand between the parts of a text depends on its format. So what is said of
blanks in general takes the test for them as a parameter.
-/

namespace NodeView.Text

/-! ### Blanks between the parts of a text -/

/-- Blanks and nothing else, where `blank` tells which characters are blank. -/
def Blanks (blank : Char → Bool) (text : List Char) : Prop := ∀ c ∈ text, blank c = true

theorem blanks_nil {blank : Char → Bool} : Blanks blank [] := by
  intro c hc
  cases hc

/-- What is skipped in front of a text are blanks. -/
theorem exists_blanks {blank : Char → Bool} {text rest : List Char}
    (h : text.dropWhile blank = rest) : ∃ blanks, Blanks blank blanks ∧ text = blanks ++ rest :=
  ⟨text.takeWhile blank, List.all_eq_true.mp List.all_takeWhile,
    h ▸ List.takeWhile_append_dropWhile.symm⟩

/-! ### White space -/

/-- The ranges of the characters that Unicode counts as white space. -/
def blankRanges : List (Nat × Nat) :=
  [(0x09, 0x0d), (0x20, 0x20), (0x85, 0x85), (0xa0, 0xa0), (0x1680, 0x1680), (0x2000, 0x200a),
   (0x2028, 0x2029), (0x202f, 0x202f), (0x205f, 0x205f), (0x3000, 0x3000)]

/-- Whether a character is white space. -/
def isBlank (c : Char) : Bool :=
  blankRanges.any fun (first, last) => first ≤ c.toNat && c.toNat ≤ last

/-- Whether a character is white space within ASCII; the vertical tab does not count. -/
def isAsciiBlank (c : Char) : Bool :=
  c = ' ' || c = '\t' || c = '\n' || c = '\x0c' || c = '\r'

theorem isBlank_of_isAsciiBlank {c : Char} (h : isAsciiBlank c = true) : isBlank c = true := by
  simp only [isAsciiBlank, Bool.or_eq_true, decide_eq_true_eq] at h
  rcases h with (((rfl | rfl) | rfl) | rfl) | rfl <;> decide

/-- A text without the white space at its two ends. -/
def trimChars (text : List Char) : List Char :=
  ((text.dropWhile isBlank).reverse.dropWhile isBlank).reverse

/-- A text without the white space at its two ends. -/
def trim (text : String) : String := String.ofList (trimChars text.toList)

end NodeView.Text
