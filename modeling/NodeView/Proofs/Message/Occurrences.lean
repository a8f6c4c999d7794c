import NodeView.Proofs.Message.Concatenation
/-!
# NodeView.Proofs.Message.Occurrences

A binary message cut into the occurrences of its fields, and cut off between or within them.

An occurrence is the bytes of one field at the top level of a message. The bytes of a message are
occurrences one after the other in just one way (`Occurrence.join_injective`), because an
occurrence ends where it ends whatever follows it. So the beginning of a message is a message
only where an occurrence ends: were it one elsewhere, it would have occurrences of its own, and
with those behind it they would cut the whole message in a second way
(`Occurrence.exists_take_of_run`). This settles every cut at once, be it in a key, in a length, in
a text or somewhere inside a record or a group.
-/

namespace NodeView.Wire

/-- One field of a message of this type as it occurs: its bytes, from which the field is read
whatever follows them. -/
structure Occurrence (type : MessageType) where
  bytes : List UInt8
  field : Field
  takes : Takes (readField nestingBudget type) bytes field

namespace Occurrence

variable {type : MessageType}

/-- The bytes of some occurrences one after the other. -/
def join (occurrences : List (Occurrence type)) : List UInt8 := occurrences.flatMap (·.bytes)

/-- The fields that occur. -/
def fields (occurrences : List (Occurrence type)) : List Field := occurrences.map (·.field)

theorem join_append (as bs : List (Occurrence type)) : join (as ++ bs) = join as ++ join bs :=
  List.flatMap_append

/-- The bytes of an occurrence say which field occurs. -/
theorem ext {a b : Occurrence type} (h : a.bytes = b.bytes) : a = b := by
  obtain ⟨bytes, field, takes⟩ := a
  obtain ⟨_, field', takes'⟩ := b
  obtain rfl : bytes = _ := h
  have hfield := (takes []).symm.trans (takes' [])
  cases hfield
  rfl

theorem run_join (occurrences : List (Occurrence type)) :
    Run (readField nestingBudget type) (join occurrences) (fields occurrences) := by
  induction occurrences with
  | nil => exact .nil
  | cons occurrence others ih => exact .cons (readField_ne_nil occurrence.takes) occurrence.takes ih

theorem exists_of_run {bytes : List UInt8} {values : List Field}
    (run : Run (readField nestingBudget type) bytes values) :
    ∃ occurrences : List (Occurrence type), join occurrences = bytes
      ∧ fields occurrences = values := by
  induction run with
  | nil => exact ⟨[], rfl, rfl⟩
  | cons moves takes _ ih =>
      obtain ⟨others, rfl, rfl⟩ := ih
      exact ⟨⟨_, _, takes⟩ :: others, rfl, rfl⟩

/-- There is one way to cut bytes into occurrences. -/
theorem join_injective {as bs : List (Occurrence type)} (h : join as = join bs) : as = bs := by
  induction as generalizing bs with
  | nil =>
      cases bs with
      | nil => rfl
      | cons b bs => exact absurd (List.append_eq_nil_iff.mp h.symm).1 (readField_ne_nil b.takes)
  | cons a as ih =>
      cases bs with
      | nil => exact absurd (List.append_eq_nil_iff.mp h).1 (readField_ne_nil a.takes)
      | cons b bs =>
          have hbytes : a.bytes ++ join as = b.bytes ++ join bs := h
          -- The first occurrence of both is read from the same place.
          have hfirst := (a.takes (join as)).symm.trans (hbytes ▸ b.takes (join bs))
          simp only [Except.ok.injEq, Prod.mk.injEq] at hfirst
          have hrest : join as = join bs := congrArg Input.bytes hfirst.2
          rw [hrest] at hbytes
          rw [ext (List.append_cancel_right hbytes), ih hrest]

/-- A beginning of some occurrences that is a run is the first few of them. -/
theorem exists_take_of_run {occurrences : List (Occurrence type)} {front back : List UInt8}
    {values : List Field} (run : Run (readField nestingBudget type) front values)
    (h : front ++ back = join occurrences) : ∃ n, front = join (occurrences.take n) := by
  obtain ⟨others, -, hback⟩ := run.of_append (h ▸ run_join occurrences)
  obtain ⟨first, rfl, -⟩ := exists_of_run run
  obtain ⟨second, rfl, -⟩ := exists_of_run hback
  rw [← join_append] at h
  exact ⟨first.length, by rw [← join_injective h, List.take_left]⟩

theorem take_length_join_take (occurrences : List (Occurrence type)) (n : Nat) :
    (join occurrences).take (join (occurrences.take n)).length = join (occurrences.take n) := by
  conv_lhs => rw [← List.take_append_drop n occurrences, join_append]
  rw [List.take_append_drop, List.take_left]

end Occurrence

end NodeView.Wire

namespace NodeView.Message

open Wire (Occurrence)

variable {type : MessageType}

/-- The message that some occurrences of fields make. -/
def ofOccurrences (occurrences : List (Occurrence type)) : Message :=
  ofFields type (Occurrence.fields occurrences)

theorem decode_join {occurrences : List (Occurrence type)} {limit : Nat}
    (hsize : (Occurrence.join occurrences).length ≤ limit) :
    decode type (Occurrence.join occurrences) limit = .ok (ofOccurrences occurrences) :=
  (decode_eq_ok_iff_run hsize).mpr ⟨_, Occurrence.run_join occurrences, rfl⟩

/-- Within the limit the only reason to refuse bytes is a fault in them. -/
theorem decode_eq_binary {bytes : List UInt8} {limit : Nat} (hsize : bytes.length ≤ limit)
    (h : ∀ values, ¬ Wire.Run (Wire.readField Wire.nestingBudget type) bytes values) :
    ∃ fault, decode type bytes limit = .error (.binary fault) := by
  rw [decode, if_neg (Nat.not_lt.mpr hsize)]
  cases hread : Wire.readFields type bytes with
  | ok fields => exact absurd (Wire.readFields_eq_ok_iff.mp hread) (h fields)
  | error fault => exact ⟨fault, rfl⟩

/-- **Truncation is detected exactly.** Bytes that are read as a message are occurrences of its
fields in one way. Cut off where one of these ends, or before all of them, they are read as the
message that the occurrences in front of the cut make; cut off anywhere else, they are refused as
no binary form. -/
theorem decode_truncated {bytes : List UInt8} {limit : Nat} {message : Message}
    (h : decode type bytes limit = .ok message) :
    ∃ occurrences : List (Occurrence type),
      (∀ others, Occurrence.join others = bytes ↔ others = occurrences)
      ∧ message = ofOccurrences occurrences
      ∧ ∀ k < bytes.length,
        (∀ n, (Occurrence.join (occurrences.take n)).length = k →
          decode type (bytes.take k) limit = .ok (ofOccurrences (occurrences.take n)))
        ∧ ((∀ n, (Occurrence.join (occurrences.take n)).length ≠ k) →
          ∃ fault, decode type (bytes.take k) limit = .error (.binary fault)) := by
  obtain ⟨hsize, fields, hread, rfl⟩ := decode_eq_ok h
  obtain ⟨occurrences, rfl, rfl⟩ :=
    Occurrence.exists_of_run (Wire.readFields_eq_ok_iff.mp hread)
  refine ⟨occurrences, fun others => ⟨Occurrence.join_injective, fun heq => heq ▸ rfl⟩, rfl, ?_⟩
  intro k hk
  have hfits : ((Occurrence.join occurrences).take k).length ≤ limit := by
    rw [List.length_take]
    omega
  constructor
  · rintro n rfl
    rw [Occurrence.take_length_join_take] at hfits ⊢
    exact decode_join hfits
  · intro hwithin
    refine decode_eq_binary hfits fun values run => ?_
    obtain ⟨n, hn⟩ := Occurrence.exists_take_of_run run (List.take_append_drop k _)
    refine hwithin n ?_
    rw [← hn, List.length_take, Nat.min_eq_left (Nat.le_of_lt hk)]

/-- An identifier, a token and a group under a number that is not declared. -/
theorem decode_truncated_group :
    let bytes : List UInt8 :=
      [0x0a, 0x01, 0x41, 0x32, 0x03, 0x0a, 0x01, 0x58, 0x5b, 0x58, 0x07, 0x5c]
    decode .transactionRecord bytes 12
        = .ok (.transactionRecord { id := "A", token := some { name := "X" } })
      ∧ ∃ occurrences : List (Occurrence .transactionRecord),
        (∀ others, Occurrence.join others = bytes ↔ others = occurrences)
        ∧ .transactionRecord { id := "A", token := some { name := "X" } }
          = ofOccurrences occurrences
        ∧ ∀ k < 12,
          (∀ n, (Occurrence.join (occurrences.take n)).length = k →
            decode .transactionRecord (bytes.take k) 12
              = .ok (ofOccurrences (occurrences.take n)))
          ∧ ((∀ n, (Occurrence.join (occurrences.take n)).length ≠ k) →
            ∃ fault, decode .transactionRecord (bytes.take k) 12 = .error (.binary fault)) := by
  intro bytes
  have hread : decode .transactionRecord bytes 12
      = .ok (.transactionRecord { id := "A", token := some { name := "X" } }) :=
    decode_eq_ok_of_toOption (by decide +kernel)
  exact ⟨hread, decode_truncated hread⟩

end NodeView.Message
