import WitnessReplay.Proofs.Replay.NumberText
import WitnessReplay.Proofs.Text.Blank

/-!
# How conjuncts are written

A conjunct is written as a variable, two equality signs and a value. Blanks may stand around each of
its parts, and parentheses around the variable, around the value and around the number behind a sign
(`Wrapped`). What is written so with a number for its value is read as just this
(`conjunct?_of_writesConstraint`), and whatever is read was written so, with a number or with a text
between quotes (`equates_of_conjunct?`).
-/

namespace WitnessReplay.Assumption

open Text Text.Pattern

/-! ### Parentheses and blanks -/

/-- A text is another one with blanks and parentheses around it, in any number and order. -/
inductive Wrapped (core : List Char) : List Char → Prop
  | bare : Wrapped core core
  | blanks {b b' text : List Char} (hb : Blanks b) (hb' : Blanks b') (h : Wrapped core text) :
      Wrapped core (b ++ text ++ b')
  | parens {text : List Char} (h : Wrapped core text) : Wrapped core ('(' :: (text ++ [')']))

/-- Every parenthesis of a text has its partner in it. -/
abbrev Balanced (cs : List Char) : Prop :=
  balancedFrom 0 cs = true

/-- A balanced text keeps the depth, whatever comes behind it. -/
theorem balancedFrom_append {n : Nat} {cs : List Char} (h : balancedFrom n cs = true) (depth : Nat)
    (behind : List Char) : balancedFrom (depth + n) (cs ++ behind) = balancedFrom depth behind := by
  induction cs generalizing n with
  | nil =>
    obtain rfl : n = 0 := by simpa [balancedFrom] using h
    rfl
  | cons c cs ih =>
    rw [balancedFrom.eq_def] at h
    rw [List.cons_append, balancedFrom.eq_def]
    dsimp only at h ⊢
    split
    next hopen =>
      rw [if_pos hopen] at h
      exact ih h
    next hopen =>
      rw [if_neg hopen] at h
      split
      next hclose =>
        rw [if_pos hclose] at h
        -- the depth around the text is never touched: below zero the text would not be balanced
        cases n with
        | zero => cases h
        | succ n => exact ih h
      next hclose =>
        rw [if_neg hclose] at h
        exact ih h

/-- A text without parentheses is balanced. -/
theorem balanced_of_not_mem {cs : List Char} (h : ∀ c ∈ cs, c ≠ '(' ∧ c ≠ ')') : Balanced cs := by
  induction cs with
  | nil => rfl
  | cons c cs ih =>
    obtain ⟨⟨hopen, hclose⟩, hrest⟩ := List.forall_mem_cons.1 h
    rw [Balanced, balancedFrom.eq_def]
    dsimp only
    rw [if_neg hopen, if_neg hclose]
    exact ih hrest

theorem balanced_of_blanks {b : List Char} (hb : Blanks b) : Balanced b := by
  refine balanced_of_not_mem fun c hc => ?_
  constructor <;> rintro rfl <;> exact absurd (hb _ hc) (by decide)

/-- Balanced texts are balanced together. -/
theorem Balanced.append {as bs : List Char} (ha : Balanced as) (hb : Balanced bs) :
    Balanced (as ++ bs) :=
  (balancedFrom_append ha 0 bs).trans hb

theorem Balanced.parens {cs : List Char} (h : Balanced cs) : Balanced ('(' :: (cs ++ [')'])) :=
  balancedFrom_append h 1 [')']

/-- Parentheses around a text are taken off if those inside it have their partners there. -/
theorem stripParens_parens {cs : List Char} (h : Balanced cs) :
    stripParens ('(' :: (cs ++ [')'])) = stripParens (trim cs) := by
  have hboth : (cs ++ [')']).getLast? = some ')' ∧ balancedFrom 0 (cs ++ [')']).dropLast := by
    rw [List.getLast?_concat, List.dropLast_concat]
    exact ⟨rfl, h⟩
  rw [stripParens, if_pos hboth, List.dropLast_concat]

/-- Nothing is stripped of a text that begins with no parenthesis. -/
theorem stripParens_of_head {c : Char} (hc : c ≠ '(') (cs : List Char) :
    stripParens (c :: cs) = c :: cs := by
  rw [stripParens.eq_def]
  split
  next hcs => exact absurd (List.cons.inj hcs).1 hc
  next => rfl

/-- A text begins and ends with a pair of parentheses, and it is not trimmed. -/
theorem trim_parens (cs : List Char) : trim ('(' :: (cs ++ [')'])) = '(' :: (cs ++ [')']) := by
  have hend : trimEnd (cs ++ [')']) = cs ++ [')'] := trimEnd_append_cons (by decide) cs []
  have hstart : trim ('(' :: (cs ++ [')'])) = '(' :: trimEnd (cs ++ [')']) :=
    trim_append_cons (by decide) [] _
  rw [hstart, hend]

namespace Wrapped

variable {core text : List Char}

/-- What wraps a text that wraps another wraps that one. -/
theorem trans {text' : List Char} (h : Wrapped core text) (h' : Wrapped text text') :
    Wrapped core text' := by
  induction h' with
  | bare => exact h
  | blanks hb hb' _ ih => exact .blanks hb hb' ih
  | parens _ ih => exact .parens ih

/-- What wraps a balanced text is balanced. -/
theorem balanced (h : Wrapped core text) (hcore : Balanced core) : Balanced text := by
  induction h with
  | bare => exact hcore
  | blanks hb hb' _ ih => exact ((balanced_of_blanks hb).append ih).append (balanced_of_blanks hb')
  | parens _ ih => exact ih.parens

/-- What is around a text is taken off. -/
theorem stripParens_trim (h : Wrapped core text) (hcore : Balanced core) :
    stripParens (trim text) = stripParens (trim core) := by
  induction h with
  | bare => rfl
  | blanks hb hb' _ ih => rw [trim_append_blanks hb', trim_blanks_append hb, ih]
  | parens h ih => rw [trim_parens, stripParens_parens (h.balanced hcore), ih]

/-- All characters of a text are in what wraps it. -/
theorem subset (h : Wrapped core text) : core ⊆ text := by
  induction h with
  | bare => exact List.Subset.refl _
  | blanks _ _ _ ih => exact fun c hc => List.mem_append_left _ (List.mem_append_right _ (ih hc))
  | parens _ ih => exact fun c hc => List.mem_cons_of_mem _ (List.mem_append_left _ (ih hc))

theorem blanks_append {b : List Char} (hb : Blanks b) (h : Wrapped core text) :
    Wrapped core (b ++ text) := by
  have := Wrapped.blanks hb blanks_nil h
  rwa [List.append_nil] at this

theorem append_blanks {b : List Char} (h : Wrapped core text) (hb : Blanks b) :
    Wrapped core (text ++ b) :=
  .blanks blanks_nil hb h

/-- Only blanks and parentheses are around a text. -/
theorem not_mem {c : Char} (h : Wrapped core text) (hc : isBlank c = false ∧ c ≠ '(' ∧ c ≠ ')')
    (hcore : c ∉ core) : c ∉ text := by
  have hblanks {b : List Char} (hb : Blanks b) : c ∉ b := by
    intro hmem
    rw [hb c hmem] at hc
    exact absurd hc.1 (by decide)
  induction h with
  | bare => exact hcore
  | blanks hb hb' _ ih =>
    simp only [List.mem_append, not_or]
    exact ⟨⟨hblanks hb, ih⟩, hblanks hb'⟩
  | parens _ ih =>
    simp only [List.mem_cons, List.mem_append, List.not_mem_nil, or_false, not_or]
    exact ⟨hc.2.1, ih, hc.2.2⟩

end Wrapped

/-- A text is what is left of it with blanks around. -/
theorem wrapped_trim (cs : List Char) : Wrapped (trim cs) cs := by
  obtain ⟨b, b', hb, hb', hcs⟩ := exists_trim cs
  have h : Wrapped (trim cs) (b ++ trim cs ++ b') := .blanks hb hb' .bare
  rwa [← hcs] at h

/-- Stripping parentheses leaves a text that the old one wraps. -/
theorem wrapped_stripParens (cs : List Char) : Wrapped (stripParens cs) cs := by
  induction cs using stripParens.induct with
  | case1 rest h ih =>
    obtain ⟨inner, rfl⟩ := List.getLast?_eq_some_iff.1 h.1
    rw [stripParens, if_pos h]
    rw [List.dropLast_concat] at ih ⊢
    exact .parens (ih.trans (wrapped_trim inner))
  | case2 rest h =>
    rw [stripParens, if_neg h]
    exact .bare
  | case3 cs h =>
    have hsame : stripParens cs = cs := by
      cases cs with
      | nil => rw [stripParens.eq_def]
      | cons c cs => exact stripParens_of_head (fun hc => h cs (by rw [hc])) cs
    rw [hsame]
    exact .bare

theorem wrapped_stripParens_trim (cs : List Char) : Wrapped (stripParens (trim cs)) cs :=
  (wrapped_stripParens _).trans (wrapped_trim cs)

/-! ### The parts of a conjunct -/

/-- A letter or underscore, and then letters, digits and underscores. -/
def Identifier (cs : List Char) : Prop :=
  ∃ c rest, cs = c :: rest ∧ (c.isAlpha = true ∨ c = '_') ∧
    ∀ d ∈ rest, d.isAlphanum = true ∨ d = '_'

/-- The test for identifiers finds exactly these. -/
theorem isIdentifier_iff {cs : List Char} : isIdentifier cs = true ↔ Identifier cs := by
  cases cs with
  | nil => simp [isIdentifier, Identifier]
  | cons c rest =>
    constructor
    · intro h
      simp only [isIdentifier, Bool.and_eq_true, Bool.or_eq_true, beq_iff_eq,
        List.all_eq_true] at h
      exact ⟨c, rest, rfl, h⟩
    · rintro ⟨_, _, ⟨⟩, h⟩
      simpa [isIdentifier] using h

theorem Identifier.mem_cases {cs : List Char} (h : Identifier cs) {c : Char} (hc : c ∈ cs) :
    c.isAlphanum = true ∨ c = '_' := by
  obtain ⟨d, rest, rfl, hd, hrest⟩ := h
  rcases List.mem_cons.1 hc with rfl | hc
  · exact hd.imp_left fun halpha => by rw [Char.isAlphanum, halpha, Bool.true_or]
  · exact hrest c hc

/-- A text between quotes, of which nothing more is asked. -/
def Quoted (cs : List Char) : Prop :=
  ∃ body, body ≠ [] ∧ cs = '\'' :: (body ++ ['\''])

/-- The test for character literals finds whatever begins and ends with a single quote. -/
theorem isCharLiteral_iff {cs : List Char} : isCharLiteral cs = true ↔ Quoted cs := by
  constructor
  · intro h
    simp only [isCharLiteral, Bool.and_eq_true, decide_eq_true_eq, beq_iff_eq] at h
    obtain ⟨⟨hlen, hhead⟩, hlast⟩ := h
    obtain ⟨init, rfl⟩ := List.getLast?_eq_some_iff.1 hlast
    cases init with
    | nil => simp at hlen
    | cons c body =>
      obtain rfl : c = '\'' := by simpa using hhead
      refine ⟨body, ?_, rfl⟩
      rintro rfl
      simp at hlen
  · rintro ⟨body, hne, rfl⟩
    have hpos := List.length_pos_iff.2 hne
    simp only [isCharLiteral, Bool.and_eq_true, decide_eq_true_eq, beq_iff_eq, List.head?_cons,
      List.length_cons, List.length_append, List.length_nil, and_true]
    exact ⟨by omega, by rw [← List.cons_append, List.getLast?_concat]⟩

/-! ### Characters that are no blanks -/

theorem isBlank_of_isAlphanum {c : Char} (h : c.isAlphanum = true) : isBlank c = false := by
  unfold Char.isAlphanum Char.isAlpha Char.isUpper Char.isLower Char.isDigit at h
  simp only [Bool.or_eq_true, Bool.and_eq_true, decide_eq_true_eq, ge_iff_le,
    UInt32.le_iff_toNat_le, Char.reduceVal, UInt32.reduceToNat] at h
  have hval : c.val.toNat = c.toNat := rfl
  rw [hval] at h
  simp only [isBlank, Bool.or_eq_false_iff, Bool.and_eq_false_iff, decide_eq_false_iff_not,
    beq_eq_false_iff_ne]
  omega

theorem isBlank_of_isNumberChar {c : Char} (h : isNumberChar c = true) : isBlank c = false := by
  simp only [isNumberChar, Bool.or_eq_true, beq_iff_eq] at h
  rcases h with ((h | rfl) | rfl) | rfl
  · exact isBlank_of_isAlphanum h
  · decide
  · decide
  · decide

/-- A text of other characters than blanks and parentheses is what is taken out of blanks and
parentheses around it. -/
theorem Wrapped.stripParens_eq {core text : List Char} (h : Wrapped core text)
    (hcore : ∀ c ∈ core, isBlank c = false ∧ c ≠ '(' ∧ c ≠ ')') :
    stripParens (trim text) = core := by
  have htrim : trim core = core := trim_eq_self fun c hc => (hcore c hc).1
  rw [h.stripParens_trim (balanced_of_not_mem fun c hc => (hcore c hc).2), htrim]
  cases core with
  | nil => rw [stripParens.eq_def]
  | cons c core => exact stripParens_of_head (hcore c List.mem_cons_self).2.1 core

/-- A number has no blanks and no parentheses in it. -/
theorem NumberText.solid {cs : List Char} (h : NumberText cs) :
    ∀ c ∈ cs, isBlank c = false ∧ c ≠ '(' ∧ c ≠ ')' := by
  intro c hc
  have hchar := h.isNumberChar_of_mem hc
  refine ⟨isBlank_of_isNumberChar hchar, ?_, ?_⟩ <;> rintro rfl <;> exact absurd hchar (by decide)

theorem Identifier.solid {cs : List Char} (h : Identifier cs) :
    ∀ c ∈ cs, isBlank c = false ∧ c ≠ '(' ∧ c ≠ ')' := by
  intro c hc
  rcases h.mem_cases hc with hc | rfl
  · refine ⟨isBlank_of_isAlphanum hc, ?_, ?_⟩ <;> rintro rfl <;> exact absurd hc (by decide)
  · decide

/-! ### Values -/

/-- A text writes a number, with a sign perhaps, or a truth value, which stands for a number. -/
inductive WritesNumber : List Char → List Char → Prop
  | yes {text : List Char} (h : Wrapped "true".toList text) : WritesNumber ['1'] text
  | no {text : List Char} (h : Wrapped "false".toList text) : WritesNumber ['0'] text
  | unsigned {number text : List Char} (hn : NumberText number) (h : Wrapped number text) :
      WritesNumber number text
  | signed {sign : Char} {number inner text : List Char} (hs : sign = '-' ∨ sign = '+')
      (hn : NumberText number) (hi : Wrapped number inner) (h : Wrapped (sign :: inner) text) :
      WritesNumber (sign :: number) text

namespace WritesNumber

variable {value text : List Char}

/-- Blanks behind a number change nothing. -/
theorem append_blanks {b : List Char} (h : WritesNumber value text) (hb : Blanks b) :
    WritesNumber value (text ++ b) := by
  cases h with
  | yes h => exact .yes (h.append_blanks hb)
  | no h => exact .no (h.append_blanks hb)
  | unsigned hn h => exact .unsigned hn (h.append_blanks hb)
  | signed hs hn hi h => exact .signed hs hn hi (h.append_blanks hb)

/-- Blanks, parentheses and the characters of numbers are all that writes a number. -/
theorem not_mem {c : Char} (h : WritesNumber value text)
    (hc : isBlank c = false ∧ c ≠ '(' ∧ c ≠ ')') (hchar : isNumberChar c = false) : c ∉ text := by
  have hword {word : List Char} (hw : word.all isNumberChar = true) : c ∉ word := by
    intro hmem
    rw [List.all_eq_true.1 hw c hmem] at hchar
    cases hchar
  have hnumber {number : List Char} (hn : NumberText number) : c ∉ number :=
    hword (List.all_eq_true.2 fun _ hd => hn.isNumberChar_of_mem hd)
  cases h with
  | yes h => exact h.not_mem hc (hword (by decide))
  | no h => exact h.not_mem hc (hword (by decide))
  | unsigned hn h => exact h.not_mem hc (hnumber hn)
  | signed hs hn hi h =>
    refine h.not_mem hc ?_
    rw [List.mem_cons, not_or]
    refine ⟨?_, hi.not_mem hc (hnumber hn)⟩
    rintro rfl
    rcases hs with rfl | rfl <;> exact absurd hchar (by decide)

end WritesNumber

/-- A text that is neither a truth value nor in quotes is a number or begins with a sign. -/
theorem literal?_eq {cs : List Char} {c : Char} {rest : List Char}
    (h : stripParens (trim cs) = c :: rest)
    (hc : c ≠ 't' ∧ c ≠ 'f' ∧ c ≠ '\'') :
    literal? cs = if c = '-' ∨ c = '+' then
        if isNumber (stripParens (trim rest)) then some (c :: stripParens (trim rest)) else none
      else if isNumber (c :: rest) then some (c :: rest) else none := by
  have htrue : c :: rest ≠ "true".toList := fun heq => hc.1 (List.cons.inj heq).1
  have hfalse : c :: rest ≠ "false".toList := fun heq => hc.2.1 (List.cons.inj heq).1
  have hquoted : isCharLiteral (c :: rest) = false := by
    simp [isCharLiteral, hc.2.2]
  rw [literal?, h]
  dsimp only
  rw [if_neg htrue, if_neg hfalse, hquoted]
  rfl

/-- A number that was written, in whatever parentheses, is read as its value. -/
theorem literal?_of_writesNumber {value text : List Char} (h : WritesNumber value text) :
    literal? text = some value := by
  cases h with
  | yes h => rw [literal?, h.stripParens_eq (isIdentifier_iff.1 (by decide)).solid]; rfl
  | no h => rw [literal?, h.stripParens_eq (isIdentifier_iff.1 (by decide)).solid]; rfl
  | unsigned hn h =>
    obtain ⟨c, rest, rfl, hc⟩ := hn.exists_cons
    have hother {d : Char} (hd : d.isDigit = false ∧ d ≠ '.') : c ≠ d := by
      rintro rfl
      exact hc.elim (fun hdigit => absurd (hdigit.symm.trans hd.1) (by decide)) hd.2
    have hsign : ¬ (c = '-' ∨ c = '+') := not_or.2 ⟨hother (by decide), hother (by decide)⟩
    rw [literal?_eq (h.stripParens_eq hn.solid)
      ⟨hother (by decide), hother (by decide), hother (by decide)⟩, if_neg hsign,
      if_pos (isNumber_iff.2 hn)]
  | @signed sign number inner _ hs hn hi h =>
    have hsign : isBlank sign = false ∧ sign ≠ '(' ∧ sign ≠ ')' ∧
        sign ≠ 't' ∧ sign ≠ 'f' ∧ sign ≠ '\'' := by
      rcases hs with rfl | rfl <;> decide
    have hbalanced : Balanced (sign :: inner) := by
      have hone : Balanced [sign] := balanced_of_not_mem (by simp [hsign.2.1, hsign.2.2.1])
      exact hone.append (hi.balanced (balanced_of_not_mem fun c hc => (hn.solid c hc).2))
    -- blanks behind the number are trimmed with the whole, those before it behind the sign
    have htrim : trim (sign :: inner) = sign :: trimEnd inner := trim_append_cons hsign.1 [] inner
    have hwhole : stripParens (trim text) = sign :: trimEnd inner := by
      rw [h.stripParens_trim hbalanced, htrim, stripParens_of_head hsign.2.1]
    rw [literal?_eq hwhole hsign.2.2.2, if_pos hs, trim_trimEnd, hi.stripParens_eq hn.solid,
      if_pos (isNumber_iff.2 hn)]

/-- What is read as a value was written as a number, or stands between quotes. -/
theorem writes_of_literal? {text value : List Char} (h : literal? text = some value) :
    WritesNumber value text ∨ Quoted value ∧ Wrapped value text := by
  have hwrapped := wrapped_stripParens_trim text
  rw [literal?] at h
  dsimp only at h
  -- only the core decides, and it is wrapped in what was taken off
  generalize stripParens (trim text) = core at h hwrapped
  split at h
  next heq =>
    cases h
    exact .inl (.yes (heq ▸ hwrapped))
  split at h
  next heq =>
    cases h
    exact .inl (.no (heq ▸ hwrapped))
  split at h
  next hquoted =>
    cases h
    exact .inr ⟨isCharLiteral_iff.1 hquoted, hwrapped⟩
  cases core with
  | nil => cases h
  | cons c rest =>
    dsimp only at h
    split at h
    next hsign =>
      split at h
      next hnumber =>
        cases h
        exact .inl (.signed hsign (isNumber_iff.1 hnumber) (wrapped_stripParens_trim rest) hwrapped)
      next => cases h
    next =>
      split at h
      next hnumber =>
        cases h
        exact .inl (.unsigned (isNumber_iff.1 hnumber) hwrapped)
      next => cases h

/-! ### Conjuncts -/

/-- A text equates a variable with what is written on the right. -/
def Equates (name : List Char) (writes : List Char → Prop) (text : List Char) : Prop :=
  ∃ left right, text = left ++ '=' :: '=' :: right ∧ Identifier name ∧ Wrapped name left ∧
    writes right

/-- A text writes a constraint whose value is a number. -/
def WritesConstraint (constraint : Constraint) (text : List Char) : Prop :=
  Equates constraint.name.toList (WritesNumber constraint.value.toList) text

/-- A constraint that was written is read as it is. -/
theorem conjunct?_of_writesConstraint {constraint : Constraint} {text : List Char}
    (h : WritesConstraint constraint text) : conjunct? (trim text) = some constraint := by
  obtain ⟨left, right, rfl, hname, hleft, hright⟩ := h
  have hequals : '=' ∉ trimStart left := by
    have hmem : '=' ∉ left :=
      hleft.not_mem (by decide) fun hmem => absurd (hname.mem_cases hmem) (by decide)
    exact fun h => hmem ((List.dropWhile_sublist _).subset h)
  have hend : trimEnd ('=' :: right) = '=' :: trimEnd right :=
    trimEnd_append_cons (by decide) [] right
  have hcut : Pattern.cut ['=', '='] (trimStart left ++ ['=', '='] ++ trimEnd right)
      = some (trimStart left, trimEnd right) := cut_append ['='] hequals
  rw [List.append_assoc] at hcut
  have hvalue : literal? (trimEnd right) = some constraint.value.toList := by
    rw [← literal?_of_writesNumber hright, literal?, literal?, trim_trimEnd]
  have htrim : trim (left ++ '=' :: '=' :: right)
      = trimStart left ++ (['=', '='] ++ trimEnd right) := by
    rw [trim_append_cons (by decide), hend]
    rfl
  rw [htrim, conjunct?, hcut]
  dsimp only
  rw [trim_trimStart, hleft.stripParens_eq hname.solid, if_pos (isIdentifier_iff.2 hname), hvalue]
  simp

/-- What is read as a conjunct was written as one, with a number or a text in quotes. -/
theorem equates_of_conjunct? {constraint : Constraint} {text : List Char}
    (h : conjunct? (trim text) = some constraint) :
    Equates constraint.name.toList (fun right => WritesNumber constraint.value.toList right ∨
      Quoted constraint.value.toList ∧ Wrapped constraint.value.toList right) text := by
  obtain ⟨b, b', hb, hb', htext⟩ := exists_trim text
  rw [conjunct?] at h
  split at h
  next => cases h
  next left right hcut =>
    dsimp only at h
    split at h
    next hname =>
      obtain ⟨value, hvalue, rfl⟩ := Option.map_eq_some_iff.1 h
      rw [cut_eq hcut] at htext
      refine ⟨b ++ left, right ++ b', by simpa using htext, ?_, ?_, ?_⟩
      · simpa using isIdentifier_iff.1 hname
      · simpa using (wrapped_stripParens_trim left).blanks_append hb
      · rw [String.toList_ofList]
        exact (writes_of_literal? hvalue).imp (·.append_blanks hb') fun ⟨hquoted, hwrapped⟩ =>
          ⟨hquoted, hwrapped.append_blanks hb'⟩
    next => cases h

end WitnessReplay.Assumption
