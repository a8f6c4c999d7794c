import NodeView.Wire.Reader
/-!
# NodeView.Proofs.Wire.Locality

What a reader yields depends on the bytes it takes and on nothing behind them.

* `Takes read bytes value` says that a reader, whatever follows, takes exactly these bytes and
  makes this value of them. `Local read` says that every success of a reader is of this form.
* Readers made of local readers are local (`Local.andThen`, `Local.map`), and so are all that
  read or pass over a single payload (`readKey_local`, `readText_local`, `skip_local`).
* Two readers `Agree` if they succeed alike. What is true of the successes of one is true of
  those of the other, whatever faults they report.
-/

namespace NodeView.Wire

variable {α β : Type}

/-- A reader of one value, which also yields what is left to read. -/
abbrev Read (α : Type) := Input → Except Fault (α × Input)

/-- Whatever follows them, the reader takes exactly these bytes and yields this value. -/
def Takes (read : Read α) (bytes : List UInt8) (value : α) : Prop :=
  ∀ tail, read (.ofList (bytes ++ tail)) = .ok (value, .ofList tail)

/-- What the reader yields depends on no more than the bytes it takes. -/
def Local (read : Read α) : Prop :=
  ∀ ⦃input value rest⦄, read input = .ok (value, rest) →
    ∃ bytes, input.bytes = bytes ++ rest.bytes ∧ Takes read bytes value

/-! ### Readers made of readers -/

/-- One reader, then another that may depend on what the first one yielded. -/
def Read.andThen (first : Read α) (next : α → Read β) : Read β := fun input =>
  match first input with
  | .error fault => .error fault
  | .ok (value, rest) => next value rest

/-- A reader with another value made of what it yields. -/
def Read.map (f : α → β) (read : Read α) : Read β := fun input =>
  (read input).map fun (value, rest) => (f value, rest)

/-- What passes over something, as a reader that yields nothing of interest. -/
def passing (pass : Input → Except Fault Input) : Read Unit := fun input =>
  (pass input).map fun rest => ((), rest)

@[simp] theorem passing_eq_ok_iff {pass : Input → Except Fault Input} {input rest : Input} :
    passing pass input = .ok ((), rest) ↔ pass input = .ok rest := by
  unfold passing
  cases pass input <;> simp [Except.map]

theorem Local.pure (value : α) : Local fun input => .ok (value, input) := by
  intro input v rest h
  cases h
  exact ⟨[], rfl, fun tail => rfl⟩

theorem Local.fail (cause : Cause) : Local (fun _ => fail cause : Read α) := by
  intro input value rest h
  cases h

theorem Takes.andThen {first : Read α} {next : α → Read β} {front back : List UInt8} {a : α}
    {b : β} (hfirst : Takes first front a) (hnext : Takes (next a) back b) :
    Takes (first.andThen next) (front ++ back) b := by
  intro tail
  simp only [Read.andThen, List.append_assoc, hfirst (back ++ tail)]
  exact hnext tail

theorem Local.andThen {first : Read α} {next : α → Read β} (hfirst : Local first)
    (hnext : ∀ value, Local (next value)) : Local (first.andThen next) := by
  intro input value rest h
  unfold Read.andThen at h
  split at h
  · cases h
  · rename_i a middle heq
    obtain ⟨front, hfront, htakes⟩ := hfirst heq
    obtain ⟨back, hback, htakes'⟩ := hnext a h
    exact ⟨front ++ back, by rw [hfront, hback, List.append_assoc], htakes.andThen htakes'⟩

theorem Takes.map {read : Read α} {bytes : List UInt8} {value : α} (h : Takes read bytes value)
    (f : α → β) : Takes (read.map f) bytes (f value) := by
  intro tail
  simp [Read.map, h tail, Except.map]

theorem Local.map {read : Read α} (h : Local read) (f : α → β) : Local (read.map f) := by
  intro input value rest hread
  unfold Read.map at hread
  cases hmid : read input with
  | error fault => rw [hmid] at hread; cases hread
  | ok result =>
      rw [hmid] at hread
      cases hread
      obtain ⟨bytes, hbytes, htakes⟩ := h hmid
      exact ⟨bytes, hbytes, htakes.map f⟩

theorem Local.mapError {read : Read α} (h : Local read) (f : Fault → Fault) :
    Local fun input => (read input).mapError f := by
  intro input value rest hread
  dsimp only at hread
  cases hmid : read input with
  | error fault => rw [hmid] at hread; cases hread
  | ok result =>
      rw [hmid] at hread
      cases hread
      obtain ⟨bytes, hbytes, htakes⟩ := h hmid
      exact ⟨bytes, hbytes, fun tail => by simp only [htakes tail]; rfl⟩

/-! ### Readers that succeed alike -/

/-- Two readers succeed on the same inputs and with the same results. -/
def Agree (read other : Read α) : Prop :=
  ∀ input value rest, read input = .ok (value, rest) ↔ other input = .ok (value, rest)

theorem Agree.refl (read : Read α) : Agree read read := fun _ _ _ => Iff.rfl

theorem Agree.symm {read other : Read α} (h : Agree read other) : Agree other read :=
  fun input value rest => (h input value rest).symm

theorem Agree.takes {read other : Read α} (h : Agree read other) {bytes : List UInt8} {value : α}
    (takes : Takes read bytes value) : Takes other bytes value :=
  fun tail => (h _ _ _).mp (takes tail)

theorem Agree.isLocal {read other : Read α} (h : Agree read other) (hread : Local read) :
    Local other := by
  intro input value rest hother
  obtain ⟨bytes, hbytes, takes⟩ := hread ((h input value rest).mpr hother)
  exact ⟨bytes, hbytes, h.takes takes⟩

theorem Agree.andThen (first : Read α) {next other : α → Read β}
    (h : ∀ value, Agree (next value) (other value)) :
    Agree (first.andThen next) (first.andThen other) := by
  intro input value rest
  unfold Read.andThen
  cases first input with
  | error fault => exact Iff.rfl
  | ok result => exact h result.1 result.2 value rest

theorem Read.map_eq_ok_iff {f : α → β} {read : Read α} {input rest : Input} {value : β} :
    read.map f input = .ok (value, rest) ↔ ∃ a, read input = .ok (a, rest) ∧ f a = value := by
  unfold Read.map
  cases read input with
  | error fault => simp [Except.map]
  | ok result =>
      obtain ⟨a, after⟩ := result
      simp only [Except.map, Except.ok.injEq, Prod.mk.injEq]
      constructor
      · rintro ⟨rfl, rfl⟩
        exact ⟨a, ⟨rfl, rfl⟩, rfl⟩
      · rintro ⟨_, ⟨rfl, rfl⟩, rfl⟩
        exact ⟨rfl, rfl⟩

theorem Agree.map {read other : Read α} (h : Agree read other) (f : α → β) :
    Agree (read.map f) (other.map f) := by
  intro input value rest
  rw [Read.map_eq_ok_iff, Read.map_eq_ok_iff]
  exact exists_congr fun a => and_congr_left fun _ => h input a rest

theorem map_passing (value : α) (pass : Input → Except Fault Input) :
    Read.map (fun _ => value) (passing pass) = fun input =>
      (pass input).map fun rest => (value, rest) := by
  funext input
  unfold Read.map passing
  cases pass input <;> rfl

theorem Agree.mapError {read other : Read α} (h : Agree read other) (f : Fault → Fault) :
    Agree (fun input => (read input).mapError f) (fun input => (other input).mapError f) := by
  have hok : ∀ result : Except Fault (α × Input), ∀ value, result.mapError f = .ok value ↔
      result = .ok value := by
    intro result value
    cases result with
    | error => exact iff_of_false nofun nofun
    | ok => exact Iff.rfl
  intro input value rest
  rw [hok, hok]
  exact h input value rest

/-! ### Bytes and numbers -/

/-- The next `n` bytes. -/
def chunk (n : Nat) : Read (List UInt8) := fun input =>
  if input.size < n then fail .underflow else .ok (input.take n, input.drop n)

theorem takes_chunk (bytes : List UInt8) : Takes (chunk bytes.length) bytes bytes := by
  intro tail
  have hsize : ¬ (Input.ofList (bytes ++ tail)).size < bytes.length := by simp
  rw [chunk, if_neg hsize]
  simp

theorem chunk_local (n : Nat) : Local (chunk n) := by
  intro input value rest h
  unfold chunk at h
  split at h
  · cases h
  · rename_i hsize
    cases h
    have hlength : (input.take n).length = n := by
      have := input.size_eq
      simp [Input.take]
      omega
    exact ⟨input.take n, (List.take_append_drop n input.bytes).symm,
      by simpa only [hlength] using takes_chunk (input.take n)⟩

/-- A group of a number is found again in front of whatever follows it. -/
theorem readGroups_local {groups n : Nat} {input rest : Input}
    (h : readGroups groups input = some (n, rest)) :
    ∃ bytes, input.bytes = bytes ++ rest.bytes ∧
      ∀ tail, readGroups groups (.ofList (bytes ++ tail)) = some (n, .ofList tail) := by
  induction groups generalizing n input rest with
  | zero => simp [readGroups] at h
  | succ groups ih =>
      obtain ⟨bytes, rfl⟩ : ∃ bytes, input = .ofList bytes := ⟨_, input.ofList_bytes.symm⟩
      cases bytes with
      | nil => simp [readGroups] at h
      | cons byte bytes =>
          simp only [readGroups, Input.next?_cons] at h
          split at h
          · rename_i hlow
            split at h
            · cases h
            · rename_i hlast
              cases h
              exact ⟨[byte], rfl, fun tail => by simp [readGroups, hlow, hlast]⟩
          · rename_i hlow
            split at h
            · cases h
            · rename_i high after heq
              cases h
              obtain ⟨more, hmore, htakes⟩ := ih heq
              refine ⟨byte :: more, by simpa using hmore, fun tail => ?_⟩
              simp [readGroups, hlow, htakes tail]

theorem readNumber_local : Local readNumber := by
  intro input n rest h
  unfold readNumber at h
  split at h
  · cases h
  · rename_i result heq
    cases h
    obtain ⟨bytes, hbytes, htakes⟩ := readGroups_local heq
    exact ⟨bytes, hbytes, fun tail => by simp [readNumber, readVarint, htakes tail]⟩

/-- The key that a number stands for. -/
def keyOfNumber (n : Nat) : Read Key := fun rest =>
  if 2 ^ 32 ≤ n then fail (.invalidKey n)
  else
    match WireType.ofNat? (n % 8) with
    | none => fail (.invalidWireType (n % 8))
    | some wire => if n / 8 = 0 then fail .zeroNumber else .ok (⟨n / 8, wire⟩, rest)

theorem readKey_eq_andThen : readKey = Read.andThen readNumber keyOfNumber := by
  funext input
  unfold readKey Read.andThen
  cases readNumber input with
  | error fault => rfl
  | ok result => rfl

theorem readKey_local : Local readKey := by
  rw [readKey_eq_andThen]
  refine readNumber_local.andThen fun n => ?_
  unfold keyOfNumber
  split
  · exact .fail _
  · split
    · exact .fail _
    · split
      · exact .fail _
      · exact .pure _

/-! ### Payloads -/

/-- Refuses a wire type other than the expected one before anything is read. -/
theorem expect_local {read : Read α} (found expected : WireType) (h : Local read) :
    Local fun input =>
      match expect found expected with
      | .error fault => .error fault
      | .ok () => read input := by
  by_cases heq : found = expected
  · simpa only [expect, if_pos heq] using h
  · simp only [expect, if_neg heq]
    exact .fail _

theorem readInteger_local (wire : WireType) : Local (readInteger wire) :=
  expect_local wire .varint readNumber_local

/-- The text that some bytes are. -/
def textOfBytes (bytes : List UInt8) : Read String := fun rest =>
  match String.fromUTF8? bytes.toByteArray with
  | none => fail .notUtf8
  | some s => .ok (s, rest)

/-- Behind its wire type a text is a length, so many bytes, and what they stand for. -/
def readTextBytes : Read String :=
  Read.andThen readNumber fun length => (chunk length).andThen textOfBytes

theorem readText_eq (wire : WireType) (input : Input) :
    readText wire input =
      match expect wire .delimited with
      | .error fault => .error fault
      | .ok () => readTextBytes input := by
  unfold readText readTextBytes Read.andThen chunk
  cases expect wire .delimited with
  | error fault => rfl
  | ok done =>
      cases readNumber input with
      | error fault => rfl
      | ok result =>
          dsimp only
          split <;> rfl

theorem readText_local (wire : WireType) : Local (readText wire) := by
  rw [funext (readText_eq wire)]
  refine expect_local wire .delimited (readNumber_local.andThen fun length => ?_)
  refine (chunk_local length).andThen fun bytes => ?_
  unfold textOfBytes
  split
  · exact .fail _
  · exact .pure _

/-! ### Skipping -/

theorem skipBytes_local (n : Nat) : Local (passing (skipBytes n)) := by
  have heq : passing (skipBytes n) = (chunk n).map fun _ => () := by
    funext input
    unfold passing skipBytes Read.map chunk
    split <;> rfl
  rw [heq]
  exact (chunk_local n).map _

/-- A key is at least one byte. -/
theorem Takes.readKey_ne_nil {bytes : List UInt8} {key : Key} (h : Takes readKey bytes key) :
    bytes ≠ [] := by
  rintro rfl
  exact Nat.lt_irrefl _ (size_of_readKey (h []))

theorem Takes.skipGroup_end {skip : WireType → Nat → Input → Except Fault Input} {number : Nat}
    {bytes : List UInt8} (h : Takes readKey bytes ⟨number, .endGroup⟩) :
    Takes (passing (skipGroup skip number)) bytes () := by
  intro tail
  rw [passing_eq_ok_iff, skipGroup, h tail]
  simp

theorem Takes.skipGroup_field {skip : WireType → Nat → Input → Except Fault Input}
    {number : Nat} {key : Key} {front payload others : List UInt8}
    (hkey : Takes readKey front key) (hwire : key.wire ≠ .endGroup)
    (hskip : Takes (passing (skip key.wire key.number)) payload ())
    (hgroup : Takes (passing (skipGroup skip number)) others ()) :
    Takes (passing (skipGroup skip number)) (front ++ payload ++ others) () := by
  intro tail
  have hpayload := passing_eq_ok_iff.mp (hskip (others ++ tail))
  have hothers := passing_eq_ok_iff.mp (hgroup tail)
  have hfront : 0 < front.length := List.length_pos_iff.mpr hkey.readKey_ne_nil
  have hshorter : (Input.ofList (others ++ tail)).size
      < (Input.ofList (front ++ (payload ++ (others ++ tail)))).size := by
    simp only [Input.size_ofList, List.length_append]
    omega
  rw [passing_eq_ok_iff, List.append_assoc, List.append_assoc, skipGroup, hkey]
  simp only [if_neg hwire, hpayload, if_pos hshorter, hothers]

/-- A group is passed over alike in front of whatever follows it, if its fields are. -/
theorem skipGroup_local {skip : WireType → Nat → Input → Except Fault Input}
    (hskip : ∀ wire number, Local (passing (skip wire number))) (number : Nat) :
    Local (passing (skipGroup skip number)) := by
  intro input value rest h
  rw [passing_eq_ok_iff] at h
  -- The loop runs on the size of what is left, so that is what the induction is on.
  induction hsize : input.size using Nat.strongRecOn generalizing input with
  | ind size ih =>
      rw [skipGroup] at h
      split at h
      · cases h
      · rename_i key body hkey
        obtain ⟨front, hfront, hfront'⟩ := readKey_local hkey
        split at h
        · rename_i hwire
          split at h
          · rename_i hnumber
            cases h
            obtain ⟨n, wire⟩ := key
            subst hnumber hwire
            exact ⟨front, hfront, hfront'.skipGroup_end⟩
          · cases h
        · rename_i hwire
          split at h
          · cases h
          · rename_i after hafter
            split at h
            · rename_i hshorter
              obtain ⟨payload, hpayload, hpayload'⟩ := hskip _ _ (passing_eq_ok_iff.mpr hafter)
              obtain ⟨others, hothers, hothers'⟩ := ih after.size (hsize ▸ hshorter) h rfl
              refine ⟨front ++ payload ++ others, ?_, ?_⟩
              · rw [hfront, hpayload, hothers, List.append_assoc, List.append_assoc]
              · exact hfront'.skipGroup_field hwire hpayload' hothers'
            · cases h

theorem skip_local (budget : Nat) (wire : WireType) (number : Nat) :
    Local (passing (skip budget wire number)) := by
  induction budget generalizing wire number with
  | zero => exact .fail _
  | succ budget ih =>
      cases wire with
      | varint =>
          have heq : passing (skip (budget + 1) .varint number)
              = Read.map (fun _ => ()) readNumber := by
            funext input
            unfold passing skip Read.map
            cases readNumber input <;> rfl
          rw [heq]
          exact readNumber_local.map _
      | fixed64 => exact skipBytes_local 8
      | fixed32 => exact skipBytes_local 4
      | delimited =>
          have heq : passing (skip (budget + 1) .delimited number)
              = Read.andThen readNumber fun length => passing (skipBytes length) := by
            funext input
            unfold passing skip Read.andThen
            cases readNumber input <;> rfl
          rw [heq]
          exact readNumber_local.andThen skipBytes_local
      | startGroup => exact skipGroup_local ih number
      | endGroup => exact .fail _

end NodeView.Wire
