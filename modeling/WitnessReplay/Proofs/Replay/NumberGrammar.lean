import WitnessReplay.Proofs.Replay.NumberText

/-!
# The grammar of numbers, in either case

The recognizer lowers a text before it looks at it. Here the grammar is one of the text itself:
`NumberLiteral` names, wherever a letter may stand, the letter in both cases, and speaks of no
lowering. Both come to the same (`numberText_iff`), since lowering moves capital letters and nothing
else: what is lowered to a digit, a point or a sign was one already, and what is lowered to a letter
was that letter in one of its cases.

So the recognizer accepts exactly the texts of this grammar (`isNumber_iff_numberLiteral`).
-/

namespace WitnessReplay

/-! ### What is lowered to a character -/

/-- What is lowered to a letter is the letter or its capital. -/
theorem eq_or_eq_of_toLower {c letter : Char} (capital : Char)
    (hcapital : capital.toNat + 32 = letter.toNat) (h : c.toLower = letter) :
    c = letter ∨ c = capital := by
  rcases toLower_cases c with hc | ⟨-, -, hc⟩
  · exact .inl (hc.symm.trans h)
  · refine .inr (Char.toNat_inj.1 ?_)
    rw [h] at hc
    omega

/-- Capital letters are lowered by 32, and nothing else is moved. -/
theorem toNat_toLower (c : Char) :
    c.toLower.toNat = if 65 ≤ c.toNat ∧ c.toNat ≤ 90 then c.toNat + 32 else c.toNat := by
  unfold Char.toLower
  simp only [Char.toNat, UInt32.le_iff_toNat_le, ge_iff_le]
  split
  next h =>
    rw [if_pos (by simpa using h)]
    simp [UInt32.toNat_add] at h ⊢
    omega
  next h => rw [if_neg (by simpa using h)]

/-- Digits are the same in lower case. -/
theorem toLower_of_isDigit {c : Char} (h : c.isDigit = true) : c.toLower = c := by
  rcases toLower_cases c with hc | ⟨hc, -⟩
  · exact hc
  · rw [isAlpha_of_isDigit h] at hc
    cases hc

theorem map_toLower_of_isDigit {cs : List Char} (h : ∀ c ∈ cs, c.isDigit = true) :
    cs.map Char.toLower = cs := by
  rw [List.map_congr_left fun c hc => toLower_of_isDigit (h c hc), List.map_id']

/-- Only capital letters are lowered, so digits are lowered from digits. -/
theorem isDigit_of_mem_map {cs : List Char} (h : ∀ c ∈ cs.map Char.toLower, c.isDigit = true) :
    ∀ c ∈ cs, c.isDigit = true := by
  intro c hc
  exact isDigit_of_toLower (h _ (List.mem_map_of_mem hc))

namespace Assumption

/-! ### The grammar -/

/-- Whether a character is a hexadecimal digit, in either case. -/
def isHexDigit (c : Char) : Bool :=
  c.isDigit || ('a' ≤ c && c ≤ 'f') || ('A' ≤ c && c ≤ 'F')

/-- An exponent: its letter, a sign perhaps, and digits. -/
inductive ExponentPart : List Char → Prop
  | intro {mark : Char} {sign digits : List Char} (hmark : mark = 'e' ∨ mark = 'E')
      (hsign : sign = [] ∨ sign = ['+'] ∨ sign = ['-']) (hdigits : Digits digits) :
      ExponentPart (mark :: (sign ++ digits))

/-- Any run of the suffixes that an integer may have. -/
def IntegerSuffixes (cs : List Char) : Prop :=
  ∀ c ∈ cs, c = 'u' ∨ c = 'U' ∨ c = 'l' ∨ c = 'L'

/-- No suffix, or the one that a floating literal may have. -/
def AtMostOneSuffix (cs : List Char) : Prop :=
  cs = [] ∨ cs = ['f'] ∨ cs = ['F'] ∨ cs = ['l'] ∨ cs = ['L']

/-- A literal of a number. -/
inductive NumberLiteral : List Char → Prop
  | hexadecimal {mark : Char} {digits suffixes : List Char} (hmark : mark = 'x' ∨ mark = 'X')
      (hne : digits ≠ []) (hdigits : ∀ c ∈ digits, isHexDigit c = true)
      (hsuffixes : IntegerSuffixes suffixes) :
      NumberLiteral ('0' :: mark :: (digits ++ suffixes))
  | decimal {digits suffixes : List Char} (hdigits : Digits digits)
      (hsuffixes : IntegerSuffixes suffixes) : NumberLiteral (digits ++ suffixes)
  /-- Digits with a point, whose exponent may be missing. -/
  | pointed {mantissa exponent suffix : List Char} (hmantissa : Pointed mantissa)
      (hexponent : exponent = [] ∨ ExponentPart exponent) (hsuffix : AtMostOneSuffix suffix) :
      NumberLiteral (mantissa ++ exponent ++ suffix)
  /-- Digits without a point, whose exponent may not be missing. -/
  | scientific {digits exponent suffix : List Char} (hdigits : Digits digits)
      (hexponent : ExponentPart exponent) (hsuffix : AtMostOneSuffix suffix) :
      NumberLiteral (digits ++ exponent ++ suffix)

/-! ### The parts of a number, lowered -/

variable {cs : List Char}

/-- Digits are digits in lower case. -/
theorem digits_map_iff : Digits (cs.map Char.toLower) ↔ Digits cs := by
  unfold Digits
  rw [Ne, List.map_eq_nil_iff]
  refine and_congr_right fun _ => ⟨isDigit_of_mem_map, fun h => ?_⟩
  rwa [map_toLower_of_isDigit h]

theorem pointed_map_iff : Pointed (cs.map Char.toLower) ↔ Pointed cs := by
  constructor
  · rintro ⟨whole', rest', hcs, hne, hdigits⟩
    obtain ⟨whole, rest, rfl, rfl, hrest⟩ := List.map_eq_append_iff.1 hcs
    obtain ⟨point, fraction, rfl, hpoint, rfl⟩ := List.map_eq_cons_iff.1 hrest
    obtain rfl : point = '.' := eq_of_toLower_eq hpoint rfl
    rw [← List.map_append] at hne hdigits
    exact ⟨whole, fraction, rfl, mt List.map_eq_nil_iff.2 hne, isDigit_of_mem_map hdigits⟩
  · rintro ⟨whole, fraction, rfl, hne, hdigits⟩
    have hwhole := map_toLower_of_isDigit fun c hc => hdigits c (List.mem_append_left _ hc)
    have hfraction := map_toLower_of_isDigit fun c hc => hdigits c (List.mem_append_right _ hc)
    refine ⟨whole, fraction, ?_, hne, hdigits⟩
    rw [List.map_append, List.map_cons, hwhole, hfraction]
    rfl

/-- A sign is lowered from itself. -/
theorem map_toLower_eq_sign_iff {sign : List Char} (hsign : sign = [] ∨ sign = ['+'] ∨ sign = ['-']) :
    cs.map Char.toLower = sign ↔ cs = sign := by
  have hsingle {mark : Char} (hmark : mark.isAlpha = false) (hlower : mark.toLower = mark) :
      cs.map Char.toLower = [mark] ↔ cs = [mark] := by
    constructor
    · intro h
      obtain ⟨c, rest, rfl, hc, hrest⟩ := List.map_eq_cons_iff.1 h
      rw [List.map_eq_nil_iff.1 hrest, eq_of_toLower_eq hc hmark]
    · rintro rfl
      rw [List.map_singleton, hlower]
  rcases hsign with rfl | rfl | rfl
  · exact List.map_eq_nil_iff
  · exact hsingle rfl rfl
  · exact hsingle rfl rfl

/-- An exponent may have its letter in either case. -/
theorem exponentPart_iff :
    ExponentPart cs ↔ ∃ rest, cs.map Char.toLower = 'e' :: rest ∧ Exponent rest := by
  constructor
  · rintro ⟨hmark, hsign, hdigits⟩
    next mark sign digits =>
      refine ⟨sign ++ digits, ?_, sign, digits, by simpa using hsign, hdigits, rfl⟩
      have hlower : mark.toLower = 'e' := by
        rcases hmark with rfl | rfl <;> rfl
      rw [List.map_cons, List.map_append, hlower, map_toLower_of_isDigit hdigits.2,
        (map_toLower_eq_sign_iff hsign).2 rfl]
  · rintro ⟨rest', hcs, sign', digits', hsign, hdigits, rfl⟩
    obtain ⟨mark, rest, rfl, hmark, hrest⟩ := List.map_eq_cons_iff.1 hcs
    obtain ⟨sign, digits, rfl, hsign', rfl⟩ := List.map_eq_append_iff.1 hrest
    have hsigns : sign' = [] ∨ sign' = ['+'] ∨ sign' = ['-'] := by simpa using hsign
    obtain rfl := (map_toLower_eq_sign_iff hsigns).1 hsign'
    exact .intro (eq_or_eq_of_toLower _ rfl hmark) hsigns (digits_map_iff.1 hdigits)

/-- So may the suffixes of an integer. -/
theorem integerSuffixes_iff : IntegerSuffixes cs ↔ IntegerSuffix (cs.map Char.toLower) := by
  unfold IntegerSuffixes IntegerSuffix
  constructor
  · intro h c' hc'
    obtain ⟨c, hc, rfl⟩ := List.mem_map.1 hc'
    rcases h c hc with rfl | rfl | rfl | rfl
    · exact .inl rfl
    · exact .inl rfl
    · exact .inr rfl
    · exact .inr rfl
  · intro h c hc
    rcases h _ (List.mem_map_of_mem hc) with hu | hl
    · rcases eq_or_eq_of_toLower 'U' rfl hu with rfl | rfl
      · exact .inl rfl
      · exact .inr (.inl rfl)
    · rcases eq_or_eq_of_toLower 'L' rfl hl with rfl | rfl
      · exact .inr (.inr (.inl rfl))
      · exact .inr (.inr (.inr rfl))

theorem atMostOneSuffix_iff : AtMostOneSuffix cs ↔ FloatSuffix (cs.map Char.toLower) := by
  unfold AtMostOneSuffix FloatSuffix
  constructor
  · rintro (rfl | rfl | rfl | rfl | rfl) <;> decide
  · intro h
    simp only [List.mem_cons, List.not_mem_nil, or_false] at h
    have hsingle {letter : Char} (capital : Char) (hcapital : capital.toNat + 32 = letter.toNat)
        (hcs : cs.map Char.toLower = [letter]) : cs = [letter] ∨ cs = [capital] := by
      obtain ⟨c, rest, rfl, hc, hrest⟩ := List.map_eq_cons_iff.1 hcs
      rw [List.map_eq_nil_iff.1 hrest]
      rcases eq_or_eq_of_toLower capital hcapital hc with rfl | rfl
      · exact .inl rfl
      · exact .inr rfl
    rcases h with h | h | h
    · exact .inl (List.map_eq_nil_iff.1 h)
    · rcases hsingle 'F' rfl h with hf | hf
      · exact .inr (.inl hf)
      · exact .inr (.inr (.inl hf))
    · rcases hsingle 'L' rfl h with hl | hl
      · exact .inr (.inr (.inr (.inl hl)))
      · exact .inr (.inr (.inr (.inr hl)))

theorem isHexDigit_iff (c : Char) : isHexDigit c = true ↔ isLowerHexDigit c.toLower = true := by
  have hdigit : c.toLower.isDigit = true ↔ c.isDigit = true := by
    constructor
    · exact isDigit_of_toLower
    · intro h
      rwa [toLower_of_isDigit h]
  have hletter (d : Char) : ('a' ≤ d ∧ d ≤ 'f') ↔ 97 ≤ d.toNat ∧ d.toNat ≤ 102 := Iff.rfl
  have hcapital : ('A' ≤ c ∧ c ≤ 'F') ↔ 65 ≤ c.toNat ∧ c.toNat ≤ 70 := Iff.rfl
  have hlower := toNat_toLower c
  unfold isHexDigit isLowerHexDigit
  simp only [Bool.or_eq_true, Bool.and_eq_true, decide_eq_true_eq, or_assoc]
  rw [hdigit, hletter, hletter, hcapital]
  refine or_congr_right ?_
  split at hlower <;> omega

/-! ### The recognizer -/

/-- **The grammar in lower case and the one in either case are the same.** -/
theorem numberText_iff : NumberText cs ↔ NumberLiteral cs := by
  unfold NumberText
  constructor
  · intro h
    generalize hlower : cs.map Char.toLower = lower at h
    cases h with
    | decimal hdigits hsuffix =>
      obtain ⟨digits, suffixes, rfl, rfl, rfl⟩ := List.map_eq_append_iff.1 hlower
      exact .decimal (digits_map_iff.1 hdigits) (integerSuffixes_iff.2 hsuffix)
    | hexadecimal hne hdigits hsuffix =>
      -- the first two characters are told from their lower case: only the `x` may be either
      obtain ⟨zero, rest, rfl, hzero, hrest⟩ := List.map_eq_cons_iff.1 hlower
      obtain ⟨mark, rest, rfl, hmark, hrest⟩ := List.map_eq_cons_iff.1 hrest
      obtain ⟨digits, suffixes, rfl, rfl, rfl⟩ := List.map_eq_append_iff.1 hrest
      obtain rfl : zero = '0' := eq_of_toLower_eq hzero rfl
      refine .hexadecimal (eq_or_eq_of_toLower _ rfl hmark) (mt List.map_eq_nil_iff.2 hne) ?_
        (integerSuffixes_iff.2 hsuffix)
      intro c hc
      exact (isHexDigit_iff c).2 (hdigits _ (List.mem_map_of_mem hc))
    | floating hbody hsuffix =>
      obtain ⟨body, suffix, rfl, rfl, rfl⟩ := List.map_eq_append_iff.1 hlower
      have hsuffix := atMostOneSuffix_iff.2 hsuffix
      generalize hbody' : body.map Char.toLower = body' at hbody
      cases hbody with
      | pointed hpointed =>
        rw [← hbody'] at hpointed
        have := NumberLiteral.pointed (pointed_map_iff.1 hpointed) (.inl rfl) hsuffix
        rwa [List.append_nil] at this
      | scientific hmantissa hexponent =>
        obtain ⟨mantissa, rest, rfl, rfl, hrest⟩ := List.map_eq_append_iff.1 hbody'
        have hexponent : ExponentPart rest := exponentPart_iff.2 ⟨_, hrest, hexponent⟩
        rcases hmantissa with hdigits | hpointed
        · -- here an exponent is part of a decimal, in lower case it stands behind one
          exact .scientific (digits_map_iff.1 hdigits) hexponent hsuffix
        · exact .pointed (pointed_map_iff.1 hpointed) (.inr hexponent) hsuffix
  · intro h
    cases h with
    | @hexadecimal mark digits suffixes hmark hne hdigits hsuffixes =>
      have hmark : mark.toLower = 'x' := by
        rcases hmark with rfl | rfl <;> rfl
      rw [List.map_cons, List.map_cons, List.map_append, hmark]
      refine .hexadecimal (mt List.map_eq_nil_iff.1 hne) ?_ (integerSuffixes_iff.1 hsuffixes)
      intro c' hc'
      obtain ⟨c, hc, rfl⟩ := List.mem_map.1 hc'
      exact (isHexDigit_iff c).1 (hdigits c hc)
    | decimal hdigits hsuffixes =>
      rw [List.map_append]
      exact .decimal (digits_map_iff.2 hdigits) (integerSuffixes_iff.1 hsuffixes)
    | pointed hmantissa hexponent hsuffix =>
      have hmantissa := pointed_map_iff.2 hmantissa
      have hsuffix := atMostOneSuffix_iff.1 hsuffix
      rw [List.map_append, List.map_append]
      rcases hexponent with rfl | hexponent
      · rw [List.map_nil, List.append_nil]
        exact .floating (.pointed hmantissa) hsuffix
      · obtain ⟨rest, hrest, hexponent⟩ := exponentPart_iff.1 hexponent
        rw [hrest]
        exact .floating (.scientific (.inr hmantissa) hexponent) hsuffix
    | scientific hdigits hexponent hsuffix =>
      obtain ⟨rest, hrest, hexponent⟩ := exponentPart_iff.1 hexponent
      rw [List.map_append, List.map_append, hrest]
      exact .floating (.scientific (.inl (digits_map_iff.2 hdigits)) hexponent)
        (atMostOneSuffix_iff.1 hsuffix)

/-- **The recognizer accepts exactly the texts of the grammar.** -/
theorem isNumber_iff_numberLiteral (text : String) :
    isNumber text.toList = true ↔ NumberLiteral text.toList :=
  isNumber_iff.trans numberText_iff

end Assumption

end WitnessReplay
