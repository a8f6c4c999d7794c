import NodeView.Proofs.Layer.Number
import NodeView.Proofs.Layer.Value
/-!
# NodeView.Proofs.Layer.Literal

The texts of variables that are read as something else than themselves.

Every value of the grammar is read up to its end (`Value.readValue`), whatever ends it. So a text
without white space at its ends stands for itself unless it is a literal: a number, or a complete
value that its first characters mark (`text?_entryOf_eq_some_iff`).
-/

namespace NodeView.EnvironmentValue

/-- A text that is read as something else than itself. -/
inductive Literal (text : List Char) : Prop
  | number (h : Number text)
  | marked {depth : Nat} (h : Marked (Value depth) text)

/-! ### A value is read -/

/-- Whether a character ends an item: a comma, or what closes the items. -/
def isEnd (c : Char) : Bool := [',', ']', '\x7d'].contains c

theorem eq_of_isEnd {c : Char} (h : isEnd c = true) : c = ',' ∨ c = ']' ∨ c = '\x7d' := by
  simpa [isEnd] using h

/-- Nothing stands behind an item, or something that ends it. -/
def Ends (tail : List Char) : Prop := ∀ c ∈ tail.head?, isEnd c = true

theorem Ends.isSeparator {tail : List Char} (h : Ends tail) :
    ∀ c ∈ tail.head?, isSeparator c = true := by
  intro c hc
  rcases eq_of_isEnd (h c hc) with rfl | rfl | rfl <;> rfl

theorem Ends.isAsciiBlank {tail : List Char} (h : Ends tail) :
    ∀ c ∈ tail.head?, Text.isAsciiBlank c = false :=
  fun c hc => isAsciiBlank_of_isSeparator (h.isSeparator c hc)

theorem ends_nil : Ends [] := by
  intro c hc
  cases hc

theorem ends_cons {c : Char} (h : isEnd c = true) (rest : List Char) :
    Ends (c :: rest) := by
  intro d hd
  cases hd
  exact h

/-- What stands in front does not reach into what ends it. -/
theorem Ends.isPrefix_of_append {marker text tail : List Char} (htail : Ends tail)
    (hmarker : ∀ c ∈ marker, isEnd c = false) (h : marker <+: text ++ tail) :
    marker <+: text := by
  induction marker generalizing text with
  | nil => exact List.nil_prefix
  | cons m marker ih =>
      obtain ⟨hm, hrest⟩ := List.forall_mem_cons.mp hmarker
      cases text with
      | nil =>
          obtain ⟨behind, hbehind⟩ := h
          rw [List.nil_append] at hbehind
          rw [htail m (by rw [← hbehind]; rfl)] at hm
          cases hm
      | cons c text =>
          rw [List.cons_append, List.cons_prefix_cons] at h
          exact List.cons_prefix_cons.mpr ⟨h.1, ih hrest h.2⟩

theorem Bare.readStart {text tail : List Char} (h : Bare text) (htail : Ends tail)
    (value : List Char → Option (Entry × List Char)) :
    readStart value (text ++ tail)
      = some (.scalar .environment (bare (Text.trimChars text)), tail) := by
  have hmarker (marker : List Char) {behind : List Char}
      (hmem : marker ∈ EnvironmentValue.markers)
      (hchars : marker.all (fun c => ! isEnd c) = true)
      (heq : text ++ tail = marker ++ behind) : False := by
    have hnot : ∀ c ∈ marker, isEnd c = false := by simpa using hchars
    exact h.markers marker hmem (htail.isPrefix_of_append hnot ⟨behind, heq.symm⟩)
  have hopen {c : Char} {behind : List Char} (hc : isSeparator c = true)
      (hchar : isEnd c = false) (heq : text ++ tail = c :: behind) : False := by
    have hstart : [c] <+: text :=
      htail.isPrefix_of_append (List.forall_mem_singleton.mpr hchar) ⟨behind, heq.symm⟩
    rw [h.separators c (hstart.subset List.mem_cons_self)] at hc
    cases hc
  rw [EnvironmentValue.readStart.eq_def]
  split
  · rename_i heq
    exact (hmarker "true".toList (by decide) rfl heq).elim
  · rename_i heq
    exact (hmarker "false".toList (by decide) rfl heq).elim
  · rename_i heq
    exact (hopen rfl rfl heq).elim
  · rename_i heq
    exact (hopen rfl rfl heq).elim
  · rename_i heq
    exact (hmarker ['"'] (by decide) rfl heq).elim
  · rename_i heq
    exact (hmarker ['\''] (by decide) rfl heq).elim
  · rename_i heq
    exact (hmarker ['\''] (by decide) rfl heq).elim
  · have hinside : ∀ c ∈ text, (! isSeparator c) = true :=
      fun c hc => by rw [h.separators c hc]; rfl
    rw [List.takeWhile_append_of_pos hinside, List.dropWhile_append_of_pos hinside]
    cases tail with
    | nil => simp
    | cons c tail => simp [htail.isSeparator c rfl]

/-- Whatever ends it, a reader takes every item of fewer than `size` characters. -/
def TakesEvery {α : Type} (read : List Char → Option (α × List Char)) (Item : List Char → Prop)
    (size : Nat) : Prop :=
  ∀ {text : List Char}, Item text → text.length < size → ∀ {tail : List Char}, Ends tail →
    ∃ value, read (text ++ tail) = some (value, tail)

theorem length_takeWhile_append_lt {p : Char → Bool} {c : Char} (hc : p c = false)
    {text : List Char} (hmem : c ∈ text) (tail : List Char) :
    ((text ++ tail).takeWhile p).length < text.length := by
  induction text with
  | nil => cases hmem
  | cons d text ih =>
      rw [List.cons_append, List.takeWhile_cons]
      split
      · rename_i hd
        have hne : c ≠ d := by
          rintro rfl
          rw [hc] at hd
          cases hd
        exact Nat.succ_lt_succ (ih (List.mem_of_ne_of_mem hne hmem))
      · exact Nat.succ_pos _

theorem readText_quotation {text : List Char} (h : Text.Quotation text) (tail : List Char) :
    ∃ s, readText (text ++ tail) = some (s, tail) ∧ s.toList.length < text.length := by
  obtain ⟨s, hread, hlength⟩ := h.readQuoted tail
  rw [readText, hread, Option.bind_eq_bind, Option.bind_some]
  dsimp only
  generalize hfront : (text ++ tail).takeWhile (fun c => ! ['"', '\\'].contains c) = front
  split
  · -- What stands in front of the first escape ends before the closing quote.
    have hshort : front.length < text.length := by
      rw [← hfront]
      exact length_takeWhile_append_lt (by decide) h.quote_mem tail
    refine ⟨_, rfl, ?_⟩
    have htaken := (takeBytes_isPrefix front.length front).length_le
    simp only [String.toList_ofList, List.length_append, List.length_drop]
    omega
  · exact ⟨s, rfl, hlength⟩

theorem Key.readKey {text tail : List Char} (h : Key text)
    (htail : ∀ c ∈ tail.head?, Text.isKeyChar c = false) :
    ∃ key, readKey (text ++ tail) = some (key, tail) := by
  cases h with
  | bare hne hchars =>
      refine ⟨String.ofList text, ?_⟩
      rw [EnvironmentValue.readKey.eq_def]
      split
      · rename_i heq
        cases text with
        | nil => exact absurd rfl hne
        | cons c text =>
            cases heq
            exact absurd (hchars _ List.mem_cons_self) (by decide)
      · rw [List.takeWhile_append_of_pos hchars, List.dropWhile_append_of_pos hchars]
        cases tail with
        | nil => simp [hne]
        | cons c tail => simp [htail c rfl, hne]
  | quoted h =>
      obtain ⟨s, hread, _⟩ := readText_quotation h tail
      exact ⟨s, hread⟩

section

variable {α : Type} {item : List Char → Option (α × List Char)} {close : Char} {done : List α}
  {step : Char} {bound text rest : List Char} {value : α}

theorem readItemsFrom_more (hhead : text.head? ≠ some close) (hne : text ≠ [])
    (hitem : item text = some (value, ',' :: rest)) :
    readItemsFrom item close done (step :: bound) text
      = readItemsFrom item close (value :: done) bound rest := by
  cases text with
  | nil => exact absurd rfl hne
  | cons c text =>
      have hc : c ≠ close := fun heq => hhead (heq ▸ rfl)
      simp [readItemsFrom, hc, hitem]

theorem readItemsFrom_last (hclose : close ≠ ',') (hhead : text.head? ≠ some close)
    (hne : text ≠ []) (hitem : item text = some (value, close :: rest)) :
    readItemsFrom item close done (step :: bound) text
      = some ((value :: done).reverse, rest) := by
  cases text with
  | nil => exact absurd rfl hne
  | cons c text =>
      have hc : c ≠ close := fun heq => hhead (heq ▸ rfl)
      simp [readItemsFrom, hc, hitem]

end

section

variable {Item : List Char → Prop} {size : Nat}

/-- Items are read up to what closes them, if none of them starts with that. -/
theorem Listing.readItemsFrom {α : Type} {item : List Char → Option (α × List Char)}
    (hitem : TakesEvery item Item size) {close : Char} (hclose : close = ']' ∨ close = '\x7d')
    (hhead : ∀ {text : List Char}, Item text → text.head? ≠ some close) {text : List Char}
    (h : Listing Item close text) (hsize : text.length ≤ size) (done : List α)
    (bound : List Char) (hbound : text.length ≤ bound.length) (tail : List Char) :
    ∃ values, readItemsFrom item close done bound (text ++ tail) = some (values, tail) := by
  have hend : isEnd close = true := by
    rcases hclose with rfl | rfl <;> rfl
  have hcomma : close ≠ ',' := by
    rcases hclose with rfl | rfl <;> decide
  have hempty (done : List α) (step : Char) (bound : List Char) :
      EnvironmentValue.readItemsFrom item close done (step :: bound) (close :: tail)
        = some (done.reverse, tail) := by simp [EnvironmentValue.readItemsFrom]
  induction h generalizing done bound with
  | close =>
      cases bound with
      | nil => simp at hbound
      | cons step bound => exact ⟨_, hempty done step bound⟩
  | @last text htext =>
      cases bound with
      | nil => simp at hbound
      | cons step bound =>
          cases text with
          | nil => exact ⟨_, hempty done step bound⟩
          | cons c text =>
              obtain ⟨value, hvalue⟩ := hitem htext (by simp at hsize; simp; omega)
                (ends_cons hend tail)
              have hc := hhead htext
              refine ⟨(value :: done).reverse, ?_⟩
              rw [List.append_assoc]
              exact readItemsFrom_last hcomma hc (List.cons_ne_nil _ _) hvalue
  | @more text rest htext _ ih =>
      cases bound with
      | nil => simp at hbound
      | cons step bound =>
          obtain ⟨value, hvalue⟩ := hitem htext (by simp at hsize; omega)
            (ends_cons (show isEnd ',' = true from rfl) (rest ++ tail))
          obtain ⟨values, hvalues⟩ := ih (by simp at hsize; omega) (value :: done) bound
            (by simp at hbound; omega)
          refine ⟨values, ?_⟩
          have hstart : (text ++ ',' :: (rest ++ tail)).head? ≠ some close := by
            cases text with
            | nil => simpa using hcomma.symm
            | cons c text =>
                have hc := hhead htext
                exact hc
          rw [List.append_assoc, List.cons_append, readItemsFrom_more hstart (by simp) hvalue,
            hvalues]

theorem Key.head_not_blank {text : List Char} (h : Key text) (tail : List Char) :
    ∀ c ∈ (text ++ tail).head?, Text.isAsciiBlank c = false := by
  intro c hc
  cases h with
  | bare hne hchars =>
      cases text with
      | nil => exact absurd rfl hne
      | cons d text =>
          cases hc
          have hkey := hchars c List.mem_cons_self
          by_contra hblank
          rw [isKeyChar_of_isAsciiBlank (by simpa using hblank)] at hkey
          cases hkey
  | quoted _ =>
      cases hc
      rfl

theorem Member.readMember {value : List Char → Option (Entry × List Char)}
    (hvalue : TakesEvery value Item size) : TakesEvery (readMember value) (Member Item) size := by
  intro text h hsize tail htail
  cases h with
  | @mk front key back inner hfront hkey hback hinner =>
      obtain ⟨entry, hentry⟩ := hvalue hinner (by simp at hsize; omega) htail
      have hequals : ∀ c ∈ (back ++ '=' :: (inner ++ tail)).head?, Text.isKeyChar c = false := by
        intro c hc
        cases back with
        | nil =>
            cases hc
            rfl
        | cons d back =>
            cases hc
            exact isKeyChar_of_isAsciiBlank (hback c List.mem_cons_self)
      obtain ⟨name, hname⟩ := hkey.readKey hequals
      have htext : front ++ (key ++ (back ++ '=' :: inner)) ++ tail
          = front ++ (key ++ (back ++ '=' :: (inner ++ tail))) := by simp
      have hback : skipBlanks (back ++ '=' :: (inner ++ tail)) = '=' :: (inner ++ tail) :=
        skipBlanks_append hback fun c hc => by cases hc; rfl
      refine ⟨(name, entry), ?_⟩
      rw [htext, EnvironmentValue.readMember, skipBlanks_append hfront (hkey.head_not_blank _),
        hname]
      simp [hback, hentry]

theorem Member.head?_ne {text : List Char} (h : Member Item text) : text.head? ≠ some '\x7d' := by
  intro hhead
  cases h with
  | @mk front key back inner hfront hkey hback hinner =>
      cases front with
      | nil =>
          cases hkey with
          | bare hne hchars =>
              cases key with
              | nil => exact absurd rfl hne
              | cons d key =>
                  cases hhead
                  exact absurd (hchars _ List.mem_cons_self) (by decide)
          | quoted _ => cases hhead
      | cons d front =>
          cases hhead
          exact absurd (hfront _ List.mem_cons_self) (by decide)

/-- A value that is marked does not start like what stands between values. -/
theorem Marked.head_spec {text : List Char} (h : Marked Item text) :
    ∃ c rest, text = c :: rest ∧ Text.isAsciiBlank c = false ∧ c ≠ ']' ∧ c ≠ '\x7d' := by
  cases h with
  | truth => exact ⟨'t', "rue".toList, rfl, rfl, by decide, by decide⟩
  | falsehood => exact ⟨'f', "alse".toList, rfl, rfl, by decide, by decide⟩
  | letter c => exact ⟨'\'', _, rfl, rfl, by decide, by decide⟩
  | quoted _ => exact ⟨'"', _, rfl, rfl, by decide, by decide⟩
  | list _ => exact ⟨'[', _, rfl, rfl, by decide, by decide⟩
  | table _ => exact ⟨'\x7b', _, rfl, rfl, by decide, by decide⟩

theorem Spaced.head?_ne {text : List Char} (h : Spaced Item text) {c : Char}
    (hc : c = ']' ∨ c = '\x7d') : text.head? ≠ some c := by
  have hblank : Text.isAsciiBlank c = false := by
    rcases hc with rfl | rfl <;> rfl
  have hseparator : isSeparator c = true := by
    rcases hc with rfl | rfl <;> rfl
  intro hhead
  cases h with
  | @bare front text hfront h =>
      rcases List.mem_append.mp (List.mem_of_mem_head? hhead) with hmem | hmem
      · rw [hfront c hmem] at hblank
        cases hblank
      · rw [h.separators c hmem] at hseparator
        cases hseparator
  | @marked front text back hfront h hback =>
      cases front with
      | nil =>
          obtain ⟨d, rest, rfl, _, hbracket, hbrace⟩ := h.head_spec
          cases hhead
          exact hc.elim hbracket hbrace
      | cons d front =>
          cases hhead
          rw [hfront c List.mem_cons_self] at hblank
          cases hblank

/-- A value that is marked is read up to its end, whatever follows, and not as a text that is
the value itself. -/
theorem Marked.readStart {value : List Char → Option (Entry × List Char)}
    (hvalue : TakesEvery value Item size)
    (hhead : ∀ {text : List Char}, Item text → text.head? ≠ some ']') {text : List Char}
    (h : Marked Item text) (hsize : text.length ≤ size) (tail : List Char) :
    ∃ entry, readStart value (text ++ tail) = some (entry, tail) ∧
      entry.text? ≠ some (String.ofList text) := by
  cases h with
  | truth => exact ⟨_, rfl, fun h => by cases h⟩
  | falsehood => exact ⟨_, rfl, fun h => by cases h⟩
  | letter c =>
      refine ⟨_, rfl, fun h => ?_⟩
      have hlength := congrArg (fun s => s.toList.length) (Option.some.inj h)
      simp at hlength
  | @quoted text h =>
      obtain ⟨s, hread, hlength⟩ := readText_quotation h tail
      refine ⟨.scalar .environment (.text s), ?_, fun h => ?_⟩
      · simp [EnvironmentValue.readStart, hread]
      · have hsame := Option.some.inj h
        rw [hsame, String.toList_ofList, List.length_cons] at hlength
        omega
  | @list text h =>
      obtain ⟨items, hitems⟩ := h.readItemsFrom hvalue (.inl rfl) hhead
        (by simp at hsize; omega) [] (text ++ tail) (by simp) tail
      refine ⟨.list .environment items, ?_, fun h => by cases h⟩
      simp [EnvironmentValue.readStart, readItems, hitems]
  | @table text h =>
      obtain ⟨members, hmembers⟩ := h.readItemsFrom (Member.readMember hvalue) (.inr rfl)
        Member.head?_ne (by simp at hsize; omega) [] (text ++ tail) (by simp) tail
      refine ⟨.table .environment (Keyed.ofList members), ?_, fun h => by cases h⟩
      simp [EnvironmentValue.readStart, readItems, hmembers]

end

theorem Value.head?_ne {depth : Nat} {text : List Char} (h : Value depth text) {c : Char}
    (hc : c = ']' ∨ c = '\x7d') : text.head? ≠ some c := by
  cases depth with
  | zero => exact h.elim
  | succ depth => exact Spaced.head?_ne h hc

/-- A value is read if it is nested less deep than its text is long. -/
theorem Value.readValue {depth : Nat} (size : Nat) :
    TakesEvery (readValue size) (Value depth) size := by
  induction depth generalizing size with
  | zero =>
      intro text h
      exact h.elim
  | succ depth ih =>
      intro text h hsize tail htail
      obtain ⟨size, rfl⟩ : ∃ less, size = less + 1 := ⟨size - 1, by omega⟩
      cases h with
      | @bare front inner hfront h =>
          have hinner : ∀ c ∈ (inner ++ tail).head?, Text.isAsciiBlank c = false := by
            intro c hc
            cases inner with
            | nil => exact htail.isAsciiBlank c hc
            | cons d inner => exact h.blank c hc
          have htailSkipped : skipBlanks tail = tail := skipBlanks_of_separator htail.isSeparator
          refine ⟨.scalar .environment (EnvironmentValue.bare (Text.trimChars inner)), ?_⟩
          simp only [EnvironmentValue.readValue, List.append_assoc,
            skipBlanks_append hfront hinner, h.readStart htail, Option.map_some, htailSkipped]
      | @marked front inner back hfront h hback =>
          obtain ⟨entry, hentry, _⟩ := h.readStart (ih size) (fun h => Value.head?_ne h (.inl rfl))
            (by simp at hsize; omega) (back ++ tail)
          have hinner : ∀ c ∈ (inner ++ (back ++ tail)).head?, Text.isAsciiBlank c = false := by
            obtain ⟨d, rest, rfl, hd, _⟩ := h.head_spec
            intro c hc
            cases hc
            exact hd
          refine ⟨entry, ?_⟩
          simp only [EnvironmentValue.readValue, List.append_assoc,
            skipBlanks_append hfront hinner, hentry, Option.map_some,
            skipBlanks_append hback htail.isAsciiBlank]

/-! ### Literals -/

/-- Whether a character other than a digit may stand in a number. -/
def isNumberMark (c : Char) : Bool := ['+', '-', '.', 'e', 'E'].contains c

theorem IsSign.chars {sign : List Char} (h : IsSign sign) : ∀ c ∈ sign, isNumberMark c = true := by
  rcases h with rfl | rfl | rfl <;> exact List.all_eq_true.mp rfl

theorem Exponent.chars {text : List Char} (h : Exponent text) :
    ∀ c ∈ text, c.isDigit = true ∨ isNumberMark c = true := by
  cases h with
  | missing => exact fun c hc => absurd hc List.not_mem_nil
  | written hletter hsign hdigits =>
      refine List.forall_mem_cons.mpr ⟨?_, fun c hc => ?_⟩
      · rcases hletter with rfl | rfl <;> exact .inr rfl
      · rcases List.mem_append.mp hc with hc | hc
        · exact .inr (hsign.chars c hc)
        · exact .inl (hdigits.isDigit c hc)

theorem Number.chars {text : List Char} (h : Number text) :
    ∀ c ∈ text, c.isDigit = true ∨ isNumberMark c = true := by
  cases h with
  | natural hdigits _ => exact fun c hc => .inl (hdigits.isDigit c hc)
  | positive hdigits _ =>
      exact List.forall_mem_cons.mpr ⟨.inr rfl, fun c hc => .inl (hdigits.isDigit c hc)⟩
  | negative hdigits _ =>
      exact List.forall_mem_cons.mpr ⟨.inr rfl, fun c hc => .inl (hdigits.isDigit c hc)⟩
  | decimal hsign hdigits hexponent =>
      intro c hc
      simp only [List.mem_append, List.mem_cons] at hc
      rcases hc with hc | hc | rfl | hc | hc
      · exact .inr (hsign.chars c hc)
      · exact .inl (hdigits.isDigit c (List.mem_append_left _ hc))
      · exact .inr rfl
      · exact .inl (hdigits.isDigit c (List.mem_append_right _ hc))
      · exact hexponent.chars c hc

/-- A number is bare. -/
theorem Number.bare {text : List Char} (h : Number text) : Bare text := by
  have hnot {c : Char} (hdigit : c.isDigit = false) (hmark : isNumberMark c = false) :
      c ∉ text := by
    intro hmem
    rcases h.chars c hmem with h | h
    · rw [hdigit] at h
      cases h
    · rw [hmark] at h
      cases h
  refine ⟨fun c hc => ?_, fun marker hmarker hstart => ?_, fun c hc => ?_⟩
  · by_contra hseparator
    rcases eq_of_isSeparator (by simpa using hseparator) with rfl | rfl | rfl | rfl | rfl <;>
      exact hnot rfl rfl hc
  · have hmem := hstart.subset
    simp only [markers, List.mem_cons, List.not_mem_nil, or_false] at hmarker
    rcases hmarker with rfl | rfl | rfl | rfl <;> exact hnot rfl rfl (hmem List.mem_cons_self)
  · have hmem := List.mem_of_mem_head? hc
    by_contra hblank
    rcases eq_of_isAsciiBlank (by simpa using hblank) with rfl | rfl | rfl | rfl | rfl <;>
      exact hnot rfl rfl hmem

section

variable {s : String} (htrim : Text.trimChars s.toList = s.toList)
include htrim

theorem head?_not_blank : ∀ c ∈ s.toList.head?, Text.isAsciiBlank c = false := by
  intro c hc
  have hblank := Text.head?_of_trimChars_eq htrim hc
  by_contra h
  rw [Text.isBlank_of_isAsciiBlank (by simpa using h)] at hblank
  cases hblank

theorem eq_nil_of_blanks {front back : List Char} (htext : s.toList = front ++ back)
    (hback : Text.Blanks Text.isAsciiBlank back) : back = [] := by
  by_contra hne
  have hlast : s.toList.getLast? = some (back.getLast hne) := by
    rw [htext, List.getLast?_append_of_ne_nil _ hne, List.getLast?_eq_some_getLast hne]
  have hblank := Text.getLast?_of_trimChars_eq htrim hlast
  rw [Text.isBlank_of_isAsciiBlank (hback _ (List.getLast_mem hne))] at hblank
  cases hblank

theorem entryOf_of_readStart {entry : Entry}
    (h : readStart (readValue s.toList.length) (s.toList ++ []) = some (entry, [])) :
    entryOf s = entry := by
  rw [List.append_nil] at h
  simp only [entryOf, readValue, skipBlanks_of_head? (head?_not_blank htrim), h, Option.map_some]
  rfl

/-- Without white space at its ends, a text that is no literal stands for itself. -/
theorem entryOf_of_not_literal (h : ¬ Literal s.toList) :
    entryOf s = .scalar .environment (.text s) := by
  rw [entryOf]
  split
  · rename_i entry hread
    obtain ⟨⟨found, behind⟩, hstart, hpair⟩ := Option.map_eq_some_iff.mp hread
    obtain ⟨rfl, hbehind⟩ := Prod.mk.inj hpair
    rw [skipBlanks_of_head? (head?_not_blank htrim)] at hstart
    obtain ⟨front, hfront, hkind⟩ :=
      TakesOnly.readStart (takesOnly_readValue _) (head?_not_blank htrim) hstart
    obtain ⟨blanks, hblanks, hall⟩ := Text.exists_blanks hbehind
    rw [List.append_nil] at hall
    obtain rfl : behind = [] := eq_nil_of_blanks htrim hfront (by rwa [hall])
    rw [List.append_nil] at hfront
    subst hfront
    rcases hkind with hmarked | ⟨hbare, _⟩
    · exact absurd (.marked hmarked) h
    · have hread := hbare.readStart ends_nil (readValue s.toList.length)
      rw [List.append_nil, hstart, htrim, bare_eq_text fun hnumber => h (.number hnumber)] at hread
      obtain ⟨rfl, _⟩ := Prod.mk.inj (Option.some.inj hread)
      rw [String.ofList_toList]
  · rfl

/-- **A text without white space at its ends stands for itself unless it is a literal.** -/
theorem text?_entryOf_eq_some_iff : (entryOf s).text? = some s ↔ ¬ Literal s.toList := by
  constructor
  · rintro htext (hnumber | hmarked)
    · rw [entryOf_of_readStart htrim (hnumber.bare.readStart ends_nil _), htrim,
        hnumber.text?_bare] at htext
      cases htext
    · obtain ⟨entry, hread, hne⟩ := hmarked.readStart (Value.readValue s.toList.length)
        (fun h => Value.head?_ne h (.inl rfl)) (Nat.le_refl _) []
      rw [entryOf_of_readStart htrim hread] at htext
      rw [String.ofList_toList] at hne
      exact hne htext
  · intro h
    rw [entryOf_of_not_literal htrim h]
    rfl

end

end NodeView.EnvironmentValue
