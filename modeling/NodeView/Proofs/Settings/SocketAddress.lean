import Mathlib.Data.List.Basic
import Mathlib.Data.List.TakeWhile
import Mathlib.Tactic.IntervalCases
import NodeView.Proofs.Decimal.Digits
import NodeView.Settings.SocketAddress
/-!
# NodeView.Proofs.Settings.SocketAddress

An address is read back from its text.

What is written is read in front of whatever does not carry it on: a number in front of no digit
of its base (`readNumber_toDigits`), a group in front of neither a digit nor a point, which would
make an octet of it (`readGroups_group`). Groups then stop in front of the two colons that stand
for the longest run of zeros, or behind the eighth, and either way the eight of the address are
found again (`readV6_v6Chars`).
-/

namespace NodeView.SocketAddress

open Text (digitIn? digitIn?_digitChar digitIn?_eq_none_of_le ofDigitValues ofDigitValues_append
  readChar)

/-! ### Numbers -/

/-- No digit of the base comes next. -/
def EndsNumber (base : Nat) (rest : List Char) : Prop := ∀ c ∈ rest.head?, digitIn? base c = none

theorem endsNumber_nil (base : Nat) : EndsNumber base [] := nofun

theorem endsNumber_cons {base : Nat} {c : Char} (h : digitIn? base c = none) (rest : List Char) :
    EndsNumber base (c :: rest) := by
  intro d hd
  obtain rfl : c = d := Option.some.inj hd
  exact h

theorem digitsOf_append {base : Nat} (hbase : base ≤ 16) {ds : List Nat}
    (hds : ∀ d ∈ ds, d < base) {rest : List Char} (hrest : EndsNumber base rest) :
    digitsOf base (ds.map Nat.digitChar ++ rest) = (ds, rest) := by
  induction ds with
  | nil =>
      cases rest with
      | nil => rfl
      | cons c rest => simp [digitsOf, hrest c rfl]
  | cons d ds ih =>
      obtain ⟨hd, hds⟩ := List.forall_mem_cons.mp hds
      obtain ⟨hfront, hback⟩ := Prod.mk.inj (ih hds)
      simp only [digitsOf, List.map_cons, List.cons_append, List.takeWhile_cons,
        List.dropWhile_cons, digitIn?_digitChar hbase hd, Option.isSome_some, if_true,
        List.filterMap_cons, hfront, hback]

/-- The digits of a number write it, without a needless zero in front. -/
theorem exists_digits {base : Nat} (hbase : 1 < base) (n : Nat) :
    ∃ ds, Nat.toDigits base n = ds.map Nat.digitChar ∧ (∀ d ∈ ds, d < base) ∧ ds ≠ []
      ∧ ofDigitValues base ds = n ∧ (ds.head? = some 0 → ds = [0]) := by
  induction n using Nat.strongRecOn with
  | _ n ih =>
      by_cases hn : n < base
      · refine ⟨[n], Nat.toDigits_of_lt_base hn, by simpa using hn, List.cons_ne_nil _ _,
          by simp [ofDigitValues], ?_⟩
        rintro h
        cases h
        rfl
      · have hbase' := Nat.not_lt.mp hn
        have hsmaller : n / base < n := Nat.div_lt_self (by omega) hbase
        obtain ⟨ds, hdigits, hds, hne, hvalue, hhead⟩ := ih (n / base) hsmaller
        refine ⟨ds ++ [n % base], ?_, ?_, by simp, ?_, fun h => ?_⟩
        · rw [Nat.toDigits_of_base_le hbase hbase', hdigits, List.map_append]
          rfl
        · exact List.forall_mem_append.mpr ⟨hds, by simpa using Nat.mod_lt n (by omega)⟩
        · rw [ofDigitValues_append, hvalue]
          exact Nat.div_add_mod n base
        · -- Only a number below the base has a zero in front.
          rw [List.head?_append_of_ne_nil _ hne] at h
          rw [hhead h] at hvalue
          have hpos := Nat.div_pos hbase' (by omega)
          exact absurd hvalue hpos.ne

/-- A number that is written in full is read back, and nothing behind it. -/
theorem readNumber_toDigits {base bound n : Nat} {accepts : List Nat → Bool} {rest : List Char}
    (hbase : 1 < base) (hsixteen : base ≤ 16) (hn : n ≤ bound)
    (haccepts : ∀ ds, Nat.toDigits base n = ds.map Nat.digitChar → (ds.head? = some 0 → ds = [0]) →
      accepts ds = true)
    (hrest : EndsNumber base rest) :
    readNumber base bound accepts (Nat.toDigits base n ++ rest) = some (n, rest) := by
  obtain ⟨ds, hdigits, hds, hne, hvalue, hhead⟩ := exists_digits hbase n
  rw [readNumber, hdigits, digitsOf_append hsixteen hds hrest]
  simp only [hvalue]
  exact if_pos ⟨hne, haccepts ds hdigits hhead, hn⟩

theorem readOctet_digits {n : Nat} (hn : n < 256) {rest : List Char}
    (hrest : EndsNumber 10 rest) : readOctet (Decimal.digitsOf n ++ rest) = some (n, rest) := by
  refine readNumber_toDigits (by decide) (by decide) (by omega) (fun ds hdigits hhead => ?_) hrest
  have hlength : ds.length ≤ 3 := by
    have hchars := (Nat.length_toDigits_le_iff (b := 10) (n := n) (k := 3) (by decide)
      (by decide)).mpr (by omega)
    rwa [hdigits, List.length_map] at hchars
  by_cases hzero : ds.head? = some 0
  · rw [hhead hzero]
    rfl
  · simp [hlength, hzero]

theorem readGroup_digits {n : Nat} (hn : n < 65536) {rest : List Char}
    (hrest : EndsNumber 16 rest) : readGroup (Nat.toDigits 16 n ++ rest) = some (n, rest) := by
  refine readNumber_toDigits (by decide) (by decide) (by omega) (fun ds hdigits _ => ?_) hrest
  have hchars := (Nat.length_toDigits_le_iff (b := 16) (n := n) (k := 4) (by decide)
    (by decide)).mpr (by omega)
  rw [hdigits, List.length_map] at hchars
  exact decide_eq_true hchars

theorem readPort_digits (port : UInt16) :
    readPort (':' :: Decimal.digitsOf port.toNat) = some (port.toNat, []) := by
  have hport := port.toNat_lt
  have hread := @readNumber_toDigits 10 65535 port.toNat (fun _ => true) [] (by decide) (by decide)
    (by omega) (fun _ _ _ => rfl) (endsNumber_nil 10)
  rw [List.append_nil] at hread
  exact hread

theorem readScope_digits (scope : UInt32) (rest : List Char) :
    readScope ('%' :: (Decimal.digitsOf scope.toNat ++ ']' :: rest))
      = some (scope.toNat, ']' :: rest) := by
  have hscope := scope.toNat_lt
  exact readNumber_toDigits (by decide) (by decide) (by omega) (fun _ _ _ => rfl)
    (endsNumber_cons (by decide) rest)

/-! ### Addresses of the older version -/

theorem readOctets_octetChars {a b c d : Nat} (ha : a < 256) (hb : b < 256) (hc : c < 256)
    (hd : d < 256) {rest : List Char} (hrest : EndsNumber 10 rest) :
    readOctets (octetChars [a, b, c, d] ++ rest) = some (#v[a, b, c, d], rest) := by
  have hpoint (more : List Char) : EndsNumber 10 ('.' :: more) := endsNumber_cons (by decide) more
  simp only [octetChars, List.map_cons, List.map_nil, separated, List.append_assoc,
    List.cons_append]
  rw [readOctets, readOctet_digits ha (hpoint _)]
  simp only [Option.bind_eq_bind, Option.bind_some, readChar, if_true,
    readOctet_digits hb (hpoint _), readOctet_digits hc (hpoint _), readOctet_digits hd hrest]
  rfl

theorem exists_octets (octets : Vector UInt8 4) : ∃ a b c d, octets = #v[a, b, c, d] := by
  refine ⟨octets[0], octets[1], octets[2], octets[3], Vector.ext fun i hi => ?_⟩
  interval_cases i <;> rfl

/-- An address of the older version is read back. -/
theorem readSocketV4_chars (octets : Vector UInt8 4) (port : UInt16) :
    readSocketV4 (SocketAddress.v4 octets port).chars = some (.v4 octets port, []) := by
  obtain ⟨a, b, c, d, rfl⟩ := exists_octets octets
  have hoctets := readOctets_octetChars a.toNat_lt b.toNat_lt c.toNat_lt d.toNat_lt
    (endsNumber_cons (by decide) (Decimal.digitsOf port.toNat) : EndsNumber 10 (':' :: _))
  have hchars : (SocketAddress.v4 #v[a, b, c, d] port).chars
      = octetChars [a.toNat, b.toNat, c.toNat, d.toNat] ++ ':' :: Decimal.digitsOf port.toNat := rfl
  rw [hchars, readSocketV4, hoctets]
  simp [readPort_digits]

/-! ### Groups -/

/-- Neither a digit of a group comes next nor a point, which would make octets of it. -/
def EndsGroup (rest : List Char) : Prop := ∀ c ∈ rest.head?, digitIn? 16 c = none ∧ c ≠ '.'

theorem readNumber_eq_none {base bound : Nat} {accepts : List Nat → Bool} {c : Char}
    (h : digitIn? base c = none) (rest : List Char) :
    readNumber base bound accepts (c :: rest) = none := by
  simp [readNumber, digitsOf, h]

/-- No group can be read on. -/
def NoGroup (rest : List Char) : Prop :=
  ∀ limit index, readGroups limit index rest = ([], false, rest)

theorem endsGroup_cons {c : Char} (h : digitIn? 16 c = none ∧ c ≠ '.') (rest : List Char) :
    EndsGroup (c :: rest) := by
  intro d hd
  obtain rfl : c = d := Option.some.inj hd
  exact h

theorem EndsGroup.endsNumber {rest : List Char} (h : EndsGroup rest) : EndsNumber 16 rest :=
  fun c hc => (h c hc).1

/-- What stands behind a number that is read is what stands behind its digits. -/
theorem eq_dropWhile_of_readNumber {base bound n : Nat} {accepts : List Nat → Bool}
    {text rest : List Char} (h : readNumber base bound accepts text = some (n, rest)) :
    rest = text.dropWhile fun c => (digitIn? base c).isSome := by
  unfold readNumber at h
  dsimp only at h
  split at h
  · cases h
    rfl
  · cases h

/-- Behind digits of either base there is no point before the end of the group. -/
theorem ne_point_of_dropWhile {digits rest : List Char} (hdigits : '.' ∉ digits)
    (hrest : EndsGroup rest) :
    ∀ c ∈ ((digits ++ rest).dropWhile fun c => (digitIn? 10 c).isSome).head?, c ≠ '.' := by
  induction digits with
  | nil =>
      cases rest with
      | nil => simp
      | cons c rest =>
          obtain ⟨hdigit, hpoint⟩ := hrest c rfl
          have hdecimal : digitIn? 10 c = none := digitIn?_eq_none_of_le (by decide) hdigit
          rintro d hd rfl
          rw [List.nil_append, List.dropWhile_cons, hdecimal] at hd
          cases hd
          exact hpoint rfl
  | cons d digits ih =>
      rw [List.cons_append, List.dropWhile_cons]
      split
      · exact ih fun hmem => hdigits (List.mem_cons_of_mem _ hmem)
      · rintro c hc rfl
        cases hc
        exact hdigits List.mem_cons_self

/-- A group is not taken for octets, as no point follows its first digits. -/
theorem readOctets_group (n : Nat) {rest : List Char} (hrest : EndsGroup rest) :
    readOctets (Nat.toDigits 16 n ++ rest) = none := by
  have hdigits : '.' ∉ Nat.toDigits 16 n := by
    obtain ⟨ds, hds, hlt, -⟩ := exists_digits (by decide : 1 < 16) n
    rw [hds]
    intro hmem
    obtain ⟨d, hd, hpoint⟩ := List.mem_map.mp hmem
    have hdigit := digitIn?_digitChar (by decide) (hlt d hd)
    rw [hpoint] at hdigit
    cases hdigit
  cases hoctet : readOctet (Nat.toDigits 16 n ++ rest) with
  | none => simp [readOctets, hoctet]
  | some result =>
      obtain ⟨octet, more⟩ := result
      have hpoint := ne_point_of_dropWhile hdigits hrest
      rw [← eq_dropWhile_of_readNumber hoctet] at hpoint
      have hread : readChar '.' more = none := by
        cases more with
        | nil => rfl
        | cons c more => exact if_neg (hpoint c rfl)
      simp [readOctets, hoctet, hread]

/-- A group is read where groups may still come. -/
theorem readGroups_group {n : Nat} (hn : n < 65536) (limit : Nat) {rest : List Char}
    (hrest : EndsGroup rest) :
    readGroups (limit + 1) 0 (Nat.toDigits 16 n ++ rest)
        = (let result := readGroups limit 1 rest; (n :: result.1, result.2)) ∧
      ∀ index, readGroups (limit + 1) (index + 1) (':' :: (Nat.toDigits 16 n ++ rest))
        = (let result := readGroups limit (index + 2) rest; (n :: result.1, result.2)) := by
  have hoctets := readOctets_group n hrest
  have hgroup := readGroup_digits hn hrest.endsNumber
  constructor
  · simp [readGroups, hoctets, hgroup]
  · intro index
    simp [readGroups, readChar, hoctets, hgroup]

theorem separated_cons (separator : Char) (piece : List Char) (pieces : List (List Char)) :
    separated separator (piece :: pieces) = piece ++ pieces.flatMap (separator :: ·) := by
  induction pieces generalizing piece with
  | nil => simp [separated]
  | cons next pieces ih => simp [separated, ih]

/-- Groups behind another one, each behind a colon. -/
def laterChars (groups : List UInt16) : List Char :=
  groups.flatMap fun group => ':' :: Nat.toDigits 16 group.toNat

theorem laterChars_cons (group : UInt16) (groups : List UInt16) (rest : List Char) :
    laterChars (group :: groups) ++ rest
      = ':' :: (Nat.toDigits 16 group.toNat ++ (laterChars groups ++ rest)) := by
  simp [laterChars]

theorem groupChars_cons (group : UInt16) (groups : List UInt16) :
    groupChars (group :: groups) = Nat.toDigits 16 group.toNat ++ laterChars groups := by
  rw [groupChars, List.map_cons, separated_cons, List.flatMap_map, laterChars]

theorem endsGroup_laterChars {rest : List Char} (hrest : EndsGroup rest) (groups : List UInt16) :
    EndsGroup (laterChars groups ++ rest) := by
  cases groups with
  | nil => exact hrest
  | cons group groups => exact endsGroup_cons (by decide) _

section

variable {rest : List Char} (hrest : EndsGroup rest)
include hrest

/-- Groups behind others are read up to the limit, or up to where none can be read on. -/
theorem readGroups_laterChars {groups : List UInt16} {limit : Nat} (hlimit : groups.length ≤ limit)
    (hstop : groups.length = limit ∨ NoGroup rest) (index : Nat) :
    readGroups limit (index + 1) (laterChars groups ++ rest)
      = (groups.map UInt16.toNat, false, rest) := by
  induction groups generalizing limit index with
  | nil =>
      rcases hstop with rfl | hstop
      · rfl
      · exact hstop _ _
  | cons group groups ih =>
      obtain ⟨limit, rfl⟩ : ∃ more, limit = more + 1 := ⟨limit - 1, by simp at hlimit; omega⟩
      have hmore := ih (Nat.le_of_succ_le_succ hlimit) (hstop.imp_left Nat.succ.inj) (index + 1)
      have hread := (readGroups_group group.toNat_lt limit
        (endsGroup_laterChars hrest groups)).2 index
      rw [laterChars_cons, hread, hmore]
      rfl

theorem readGroups_groupChars {groups : List UInt16} {limit : Nat}
    (hlimit : groups.length ≤ limit) (hstop : groups.length = limit ∨ NoGroup rest) :
    readGroups limit 0 (groupChars groups ++ rest) = (groups.map UInt16.toNat, false, rest) := by
  cases groups with
  | nil =>
      rcases hstop with rfl | hstop
      · rfl
      · exact hstop _ _
  | cons group groups =>
      obtain ⟨limit, rfl⟩ : ∃ more, limit = more + 1 := ⟨limit - 1, by simp at hlimit; omega⟩
      have hmore := readGroups_laterChars hrest (Nat.le_of_succ_le_succ hlimit)
        (hstop.imp_left Nat.succ.inj) 0
      have hread := (readGroups_group group.toNat_lt limit
        (endsGroup_laterChars hrest groups)).1
      rw [groupChars_cons, List.append_assoc, hread, hmore]
      rfl

end

/-- What is no digit of a group starts neither a group nor octets. -/
theorem read_eq_none {c : Char} (h : digitIn? 16 c = none) (rest : List Char) :
    readOctets (c :: rest) = none ∧ readGroup (c :: rest) = none := by
  have hdecimal : digitIn? 10 c = none := digitIn?_eq_none_of_le (by decide) h
  refine ⟨?_, readNumber_eq_none h rest⟩
  rw [readOctets, readOctet, readNumber_eq_none hdecimal]
  rfl

theorem noGroup_cons {c : Char} (hdigit : digitIn? 16 c = none) (hcolon : c ≠ ':')
    (rest : List Char) : NoGroup (c :: rest) := by
  obtain ⟨hoctets, hgroup⟩ := read_eq_none hdigit rest
  rintro (_ | limit) (_ | index)
  · rfl
  · rfl
  · simp [readGroups, hoctets, hgroup]
  · simp [readGroups, readChar, hcolon]

/-- A colon is no group, nor is there one behind it if another colon is. -/
theorem noGroup_colons (rest : List Char) : NoGroup (':' :: ':' :: rest) := by
  have hcolon : digitIn? 16 ':' = none := by decide
  obtain ⟨hoctets, hgroup⟩ := read_eq_none hcolon rest
  obtain ⟨hoctets', hgroup'⟩ := read_eq_none hcolon (':' :: rest)
  rintro (_ | limit) (_ | index)
  · rfl
  · rfl
  · simp [readGroups, hoctets', hgroup']
  · simp [readGroups, readChar, hoctets, hgroup]

/-! ### The longest run of zeros -/

theorem take_zeroRun (groups : List UInt16) :
    groups.take (zeroRun groups) = List.replicate (zeroRun groups) 0 := by
  have hprefix := List.prefix_iff_eq_take.mp (List.takeWhile_prefix (l := groups) (· = 0))
  refine hprefix.symm.trans (List.eq_replicate_iff.mpr ⟨rfl, fun group hgroup => ?_⟩)
  simpa using List.mem_takeWhile_imp hgroup

/-- The run that is left out is one of zeros. -/
theorem longestZeroRun_le (groups : List UInt16) :
    (longestZeroRun groups).2 ≤ zeroRun (groups.drop (longestZeroRun groups).1) := by
  refine List.foldlRecOn
    (motive := fun best : Nat × Nat => best.2 ≤ zeroRun (groups.drop best.1)) _ _
    (Nat.zero_le _) fun best hbest start _ => ?_
  dsimp only
  split
  · exact Nat.le_refl _
  · exact hbest

/-- Groups are what stands around the run, with zeros in its place. -/
theorem take_append_zeros_append_drop (groups : List UInt16) :
    groups.take (longestZeroRun groups).1
        ++ (List.replicate (longestZeroRun groups).2 0
          ++ groups.drop ((longestZeroRun groups).1 + (longestZeroRun groups).2)) = groups := by
  have hle := longestZeroRun_le groups
  generalize longestZeroRun groups = run at hle
  have hzeros : (groups.drop run.1).take run.2 = List.replicate run.2 0 := by
    rw [← Nat.min_eq_left hle, ← List.take_take, take_zeroRun, List.take_replicate]
  rw [← hzeros, ← List.drop_drop, List.take_append_drop, List.take_append_drop]

/-! ### Addresses of the newer version -/

theorem groupsOfList_toList (groups : Vector UInt16 8) :
    groupsOfList (groups.toList.map UInt16.toNat) = groups := by
  refine Vector.ext fun i hi => ?_
  simp [groupsOfList]

/-- What may follow the groups of an address: its scope or its closing bracket. -/
def EndsAddress (rest : List Char) : Prop := ∃ c more, rest = c :: more ∧ (c = '%' ∨ c = ']')

theorem EndsAddress.endsGroup {rest : List Char} (h : EndsAddress rest) : EndsGroup rest := by
  obtain ⟨c, more, rfl, rfl | rfl⟩ := h <;> exact endsGroup_cons (by decide) more

theorem EndsAddress.noGroup {rest : List Char} (h : EndsAddress rest) : NoGroup rest := by
  obtain ⟨c, more, rfl, rfl | rfl⟩ := h <;> exact noGroup_cons (by decide) (by decide) more

theorem eq_of_mappedOctets? {groups : List UInt16} {octets : List Nat}
    (h : mappedOctets? groups = some octets) :
    ∃ high low, groups = [0, 0, 0, 0, 0, 0xffff, high, low]
      ∧ octets = [high.toNat / 256, high.toNat % 256, low.toNat / 256, low.toNat % 256] := by
  unfold mappedOctets? at h
  split at h
  · exact ⟨_, _, rfl, (Option.some.inj h).symm⟩
  · cases h

section

variable {rest : List Char} (hrest : EndsAddress rest)
include hrest

/-- Eight groups are read back. -/
theorem readV6_groupChars (groups : Vector UInt16 8) :
    readV6 (groupChars groups.toList ++ rest) = some (groups, rest) := by
  have hlength : groups.toList.length = 8 := groups.length_toList
  have hread := readGroups_groupChars hrest.endsGroup (Nat.le_of_eq hlength) (.inl hlength)
  rw [readV6, hread]
  simp [hlength, groupsOfList_toList]

/-- Groups are read back with zeros in the place of the colons between them. -/
theorem readV6_compressed {front back : List UInt16} (h : front.length + back.length < 8) :
    readV6 (groupChars front ++ ':' :: ':' :: (groupChars back ++ rest))
      = some (groupsOfList ((front ++ (List.replicate (8 - front.length - back.length) 0
          ++ back)).map UInt16.toNat), rest) := by
  have hfront := readGroups_groupChars (endsGroup_cons (by decide) _)
    (by omega : front.length ≤ 8) (.inr (noGroup_colons (groupChars back ++ rest)))
  have hback := readGroups_groupChars hrest.endsGroup (by omega : back.length ≤ 7 - front.length)
    (.inr hrest.noGroup)
  rw [readV6, hfront]
  simp only [Option.bind_eq_bind, List.length_map, if_neg (by omega : front.length ≠ 8), readChar,
    if_true, Option.bind_some, hback]
  simp

/-- An address that stands for one of the older version is read back. -/
theorem readV6_mapped (high low : UInt16) :
    readV6 ([':', ':', 'f', 'f', 'f', 'f', ':'] ++ octetChars
        [high.toNat / 256, high.toNat % 256, low.toNat / 256, low.toNat % 256] ++ rest)
      = some (#v[0, 0, 0, 0, 0, 0xffff, high, low], rest) := by
  have hhigh := high.toNat_lt
  have hlow := low.toNat_lt
  have hdecimal : EndsNumber 10 rest := fun c hc =>
    digitIn?_eq_none_of_le (by decide) (hrest.endsGroup c hc).1
  have hoctets := readOctets_octetChars (by omega : high.toNat / 256 < 256)
    (by omega : high.toNat % 256 < 256) (by omega : low.toNat / 256 < 256)
    (by omega : low.toNat % 256 < 256) hdecimal
  generalize htext : octetChars
    [high.toNat / 256, high.toNat % 256, low.toNat / 256, low.toNat % 256] ++ rest = text at hoctets
  have hchars : [':', ':', 'f', 'f', 'f', 'f', ':'] ++ octetChars
        [high.toNat / 256, high.toNat % 256, low.toNat / 256, low.toNat % 256] ++ rest
      = ':' :: ':' :: (Nat.toDigits 16 65535 ++ ':' :: text) := by
    rw [List.append_assoc, htext]
    rfl
  have hlast : readGroups 6 1 (':' :: text) = ([high.toNat, low.toNat], true, rest) := by
    simp [readGroups, readChar, hoctets, Nat.div_add_mod]
  have hgroups := (readGroups_group (by decide : 65535 < 65536) 6
    (endsGroup_cons (by decide) text : EndsGroup (':' :: text))).1
  rw [hlast] at hgroups
  rw [hchars, readV6, noGroup_colons]
  simp only [Option.bind_eq_bind, List.length_nil, readChar, if_true, Option.bind_some, hgroups]
  exact congrArg (fun groups => some (groups, rest))
    (groupsOfList_toList #v[0, 0, 0, 0, 0, 0xffff, high, low])

/-- Groups are read back from the text that is chosen for them. -/
theorem readV6_v6Chars (groups : Vector UInt16 8) :
    readV6 (v6Chars groups.toList ++ rest) = some (groups, rest) := by
  unfold v6Chars
  cases hmapped : mappedOctets? groups.toList with
  | some octets =>
      obtain ⟨high, low, hgroups, rfl⟩ := eq_of_mappedOctets? hmapped
      obtain rfl : groups = #v[0, 0, 0, 0, 0, 0xffff, high, low] := Vector.toList_inj.mp hgroups
      exact readV6_mapped hrest high low
  | none =>
      dsimp only
      split
      · rename_i hlong
        have hgroups := take_append_zeros_append_drop groups.toList
        have hlength := congrArg List.length hgroups
        generalize longestZeroRun groups.toList = run at hlong hgroups hlength
        generalize groups.toList.take run.1 = front at hgroups hlength
        generalize groups.toList.drop (run.1 + run.2) = back at hgroups hlength
        simp only [List.length_append, List.length_replicate, Vector.length_toList] at hlength
        have hread := readV6_compressed hrest (by omega : front.length + back.length < 8)
        rw [(by omega : 8 - front.length - back.length = run.2), hgroups,
          groupsOfList_toList] at hread
        simpa using hread
      · exact readV6_groupChars hrest groups

end

/-! ### Any address -/

/-- An address of the newer version is read back. -/
theorem readSocketV6_chars (groups : Vector UInt16 8) (scope : UInt32) (port : UInt16) :
    readSocketV6 (SocketAddress.v6 groups scope port).chars = some (.v6 groups scope port, []) := by
  have hport := readPort_digits port
  rw [chars, readSocketV6]
  simp only [List.cons_append, List.append_assoc, readChar, if_true, Option.bind_eq_bind,
    Option.bind_some]
  split
  · rename_i hscope
    rw [List.nil_append, readV6_v6Chars ⟨']', _, rfl, .inr rfl⟩]
    simp [readScope, readChar, hport, hscope]
  · rw [List.cons_append, readV6_v6Chars ⟨'%', _, rfl, .inl rfl⟩]
    simp [readScope_digits, hport]

/-- **An address is read back from its text.** -/
theorem ofText?_text (address : SocketAddress) : ofText? address.text = some address := by
  rw [ofText?, text, String.toList_ofList, ofChars?]
  cases address with
  | v4 octets port => rw [readSocketV4_chars, Option.some_or]
  | v6 groups scope port =>
      have hnone : readSocketV4 (SocketAddress.v6 groups scope port).chars = none := by
        simp [chars, readSocketV4, read_eq_none (by decide : digitIn? 16 '[' = none)]
      rw [hnone, readSocketV6_chars, Option.none_or]

end NodeView.SocketAddress
