import Mathlib.Data.List.Infix
import NodeView.Text.Blank
import NodeView.Text.Escape
/-!
# NodeView.Proofs.Text.Quotation

Texts between quotes, and texts without white space at their ends.

`Quotation` is the grammar of what follows an opening quote. A text is read as one up to its
closing quote exactly if it starts with one (`Quotation.readQuoted`, `exists_quotation`), and what
is read has fewer characters.
-/

namespace NodeView.Text

/-! ### Quotations -/

/-- What follows an opening quote, up to the closing one. -/
inductive Quotation : List Char → Prop
  | close : Quotation ['"']
  | plain {c : Char} {rest : List Char} (hquote : c ≠ '"') (hslash : c ≠ '\\')
      (hcontrol : isControl c = false) (hrest : Quotation rest) : Quotation (c :: rest)
  | letter {c d : Char} {rest : List Char} (hescape : simpleEscape? c = some d)
      (hrest : Quotation rest) : Quotation ('\\' :: c :: rest)
  | number {c d : Char} {digits rest : List Char} (hescape : hexEscape? c = some digits.length)
      (hdigits : charOfHex? digits = some d) (hrest : Quotation rest) :
      Quotation ('\\' :: c :: (digits ++ rest))

theorem simpleEscape?_eq_none {c : Char} {count : Nat} (h : hexEscape? c = some count) :
    simpleEscape? c = none := by
  rw [hexEscape?.eq_def] at h
  split at h
  · rfl
  · rfl
  · cases h

theorem readEscape_number {c d : Char} {digits : List Char}
    (hescape : hexEscape? c = some digits.length) (hdigits : charOfHex? digits = some d)
    (rest : List Char) : readEscape (c :: (digits ++ rest)) = some (d, rest) := by
  have hlength : ¬ (digits ++ rest).length < digits.length := by simp
  simp only [readEscape, simpleEscape?_eq_none hescape, hescape, if_neg hlength,
    List.take_left, List.drop_left, hdigits, Option.map_some]

theorem Quotation.quote_mem {text : List Char} (h : Quotation text) : '"' ∈ text := by
  induction h with
  | close => simp
  | plain _ _ _ _ ih => exact List.mem_cons_of_mem _ ih
  | letter _ _ ih => exact List.mem_cons_of_mem _ (List.mem_cons_of_mem _ ih)
  | number _ _ _ ih => simp [ih]

theorem Quotation.readQuotedFrom {text : List Char} (h : Quotation text) (done bound : List Char)
    (hbound : text.length ≤ bound.length) (tail : List Char) :
    ∃ s, readQuotedFrom done bound (text ++ tail) = some (s, tail) ∧
      s.toList.length < done.length + text.length := by
  induction h generalizing done bound with
  | close =>
      cases bound with
      | nil => simp at hbound
      | cons step bound => exact ⟨String.ofList done.reverse, rfl, by simp⟩
  | @plain c rest hquote hslash hcontrol _ ih =>
      cases bound with
      | nil => simp at hbound
      | cons step bound =>
          obtain ⟨s, hread, hlength⟩ := ih (c :: done) bound (by simpa using hbound)
          refine ⟨s, ?_, by simp at hlength ⊢; omega⟩
          rw [List.cons_append, Text.readQuotedFrom]
          · simpa [hcontrol] using hread
          · exact hquote
          · exact hslash
  | @letter c d rest hescape _ ih =>
      cases bound with
      | nil => simp at hbound
      | cons step bound =>
          obtain ⟨s, hread, hlength⟩ := ih (d :: done) bound
            (by simp at hbound ⊢; omega)
          refine ⟨s, ?_, by simp at hlength ⊢; omega⟩
          simpa [Text.readQuotedFrom, readEscape, hescape] using hread
  | @number c d digits rest hescape hdigits _ ih =>
      cases bound with
      | nil => simp at hbound
      | cons step bound =>
          obtain ⟨s, hread, hlength⟩ := ih (d :: done) bound
            (by simp at hbound ⊢; omega)
          refine ⟨s, ?_, by simp at hlength ⊢; omega⟩
          simpa [Text.readQuotedFrom, readEscape_number hescape hdigits] using hread

/-- A quotation is read up to its closing quote, whatever follows. -/
theorem Quotation.readQuoted {text : List Char} (h : Quotation text) (tail : List Char) :
    ∃ s, readQuoted (text ++ tail) = some (s, tail) ∧ s.toList.length < text.length := by
  obtain ⟨s, hread, hlength⟩ := h.readQuotedFrom [] (text ++ tail) (by simp) tail
  exact ⟨s, hread, by simpa using hlength⟩

theorem exists_escape {letter : Char} {rest behind : List Char} {c : Char}
    (h : readEscape (letter :: rest) = some (c, behind)) :
    (simpleEscape? letter = some c ∧ behind = rest) ∨
      ∃ digits, hexEscape? letter = some digits.length ∧ charOfHex? digits = some c ∧
        rest = digits ++ behind := by
  rw [readEscape] at h
  split at h
  · rename_i hescape
    cases h
    exact .inl ⟨hescape, rfl⟩
  · rename_i count _ hescape
    split at h
    · cases h
    · rename_i hlength
      obtain ⟨d, hdigits, hd⟩ := Option.map_eq_some_iff.mp h
      cases hd
      refine .inr ⟨rest.take count, ?_, hdigits, (List.take_append_drop _ _).symm⟩
      rw [hescape, List.length_take, Nat.min_eq_left (Nat.not_lt.mp hlength)]
  · cases h

theorem exists_quotation_of_readQuotedFrom {done bound text rest : List Char} {s : String}
    (h : readQuotedFrom done bound text = some (s, rest)) :
    ∃ front, text = front ++ rest ∧ Quotation front := by
  induction bound generalizing done text with
  | nil => cases h
  | cons step bound ih =>
      rw [readQuotedFrom.eq_def] at h
      dsimp only at h
      split at h
      · cases h
      · cases h
        exact ⟨['"'], rfl, .close⟩
      · rename_i behind
        split at h
        · cases h
        · rename_i c after hescape
          obtain ⟨front, rfl, hfront⟩ := ih h
          cases behind with
          | nil => cases hescape
          | cons letter behind =>
              rcases exists_escape hescape with ⟨hletter, rfl⟩ | ⟨digits, hcount, hdigits, rfl⟩
              · exact ⟨_, rfl, .letter hletter hfront⟩
              · exact ⟨_, by simp, .number hcount hdigits hfront⟩
      · rename_i c behind hquote hslash
        split at h
        · cases h
        · rename_i hcontrol
          obtain ⟨front, rfl, hfront⟩ := ih h
          exact ⟨c :: front, rfl, .plain hquote hslash (by simpa using hcontrol) hfront⟩

theorem exists_quotation {text rest : List Char} {s : String}
    (h : readQuoted text = some (s, rest)) : ∃ front, text = front ++ rest ∧ Quotation front :=
  exists_quotation_of_readQuotedFrom h

/-! ### Ends of texts -/

theorem trimChars_isPrefix (text : List Char) : trimChars text <+: text.dropWhile isBlank := by
  have hback : (text.dropWhile isBlank).reverse.dropWhile isBlank
      <:+ (text.dropWhile isBlank).reverse := List.dropWhile_suffix _
  simpa [trimChars] using List.reverse_prefix.mpr hback

theorem head?_of_trimChars_eq {text : List Char} (h : trimChars text = text) {c : Char}
    (hc : text.head? = some c) : isBlank c = false := by
  have hfront := trimChars_isPrefix text
  rw [h] at hfront
  have hwhole : text.dropWhile isBlank = text :=
    (List.dropWhile_suffix isBlank).eq_of_length_le hfront.length_le
  have hnot := List.head?_dropWhile_not isBlank text
  rw [hwhole, hc] at hnot
  exact hnot

theorem getLast?_of_trimChars_eq {text : List Char} (h : trimChars text = text) {c : Char}
    (hc : text.getLast? = some c) : isBlank c = false := by
  have hnot := List.head?_dropWhile_not isBlank (text.dropWhile isBlank).reverse
  rw [← List.head?_reverse, ← h, trimChars, List.reverse_reverse] at hc
  rw [hc] at hnot
  exact hnot

end NodeView.Text
