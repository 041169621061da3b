import WitnessReplay.Proofs.Replay.Conjunct

/-!
# What an assumption says

A text that writes numbers for variables, conjunct by conjunct, is read as just these
(`parse_of_writesAll`), and what stands on both sides of a semicolon is read on its own.

Conversely what is read for a variable was written for it, and it is one literal. There is one
exception: of a text between quotes nothing is asked but that it is not empty, so one with a quote
of its own, and with it perhaps more of the conjunct, is taken for a character
(`literal_of_mem_parse`, `not_literal_of_mem_parse`).
-/

namespace WitnessReplay.Assumption

open Text Text.Pattern

/-! ### All that is written is read -/

/-- Some texts write the constraints of a list, one each, but for those that are blank. -/
inductive WritesAll : List Constraint → List (List Char) → Prop
  | nil : WritesAll [] []
  | blank {constraints : List Constraint} {text : List Char} {texts : List (List Char)}
      (hb : Blanks text) (h : WritesAll constraints texts) : WritesAll constraints (text :: texts)
  | conjunct {constraint : Constraint} {constraints : List Constraint} {text : List Char}
      {texts : List (List Char)} (hc : WritesConstraint constraint text)
      (h : WritesAll constraints texts) : WritesAll (constraint :: constraints) (text :: texts)

/-- A constraint is written without semicolons. -/
theorem WritesConstraint.not_mem {constraint : Constraint} {text : List Char}
    (h : WritesConstraint constraint text) : ';' ∉ text := by
  obtain ⟨left, right, rfl, hname, hleft, hright⟩ := h
  have hbefore : ';' ∉ left :=
    hleft.not_mem (by decide) fun hmem => absurd (hname.mem_cases hmem) (by decide)
  have hbehind : ';' ∉ right := hright.not_mem (by decide) (by decide)
  simp [hbefore, hbehind]

namespace WritesAll

variable {constraints : List Constraint} {texts : List (List Char)}

theorem not_mem (h : WritesAll constraints texts) : ∀ text ∈ texts, ';' ∉ text := by
  induction h with
  | nil => exact List.forall_mem_nil _
  | blank hb _ ih => exact List.forall_mem_cons.2 ⟨fun hmem => absurd (hb _ hmem) (by decide), ih⟩
  | conjunct hc _ ih => exact List.forall_mem_cons.2 ⟨hc.not_mem, ih⟩

theorem filterMap_eq (h : WritesAll constraints texts) :
    texts.filterMap (fun cs => conjunct? (trim cs)) = constraints := by
  induction h with
  | nil => rfl
  | blank hb _ ih =>
    rw [List.filterMap_cons_none, ih]
    rw [trim_blanks hb]
    rfl
  | conjunct hc _ ih =>
    rw [List.filterMap_cons_some (f := fun cs => conjunct? (trim cs))
      (conjunct?_of_writesConstraint hc), ih]

end WritesAll

/-- **Numbers are read however they are written, and conjuncts do not depend on each other.** A text
of conjuncts, with empty ones between them, is read as the constraints that they write, in their
order; and what is read on both sides of a semicolon is read in the text as a whole. -/
theorem parse_of_writesAll :
    (∀ constraints texts, WritesAll constraints texts →
      parse (String.ofList (List.intercalate [';'] texts)) = constraints) ∧
    ∀ a b, parse (a ++ ";" ++ b) = parse a ++ parse b := by
  constructor
  · intro constraints texts h
    rw [parse, String.toList_ofList]
    cases texts with
    | nil => exact h.filterMap_eq
    | cons text texts =>
      rw [splitAt_intercalate (List.cons_ne_nil _ _) h.not_mem, h.filterMap_eq]
  · intro a b
    have hsep : (a ++ ";" ++ b).toList = a.toList ++ ';' :: b.toList := by simp
    rw [parse, parse, parse, hsep, splitAt_append, List.filterMap_append]

theorem parse_of_writesAll_spaced :
    parse "\u2003( (flag) )== ( true ) ; ;x==-( 0x1FUL );y == (+1.5e-3f);"
      = [⟨"flag", "1"⟩, ⟨"x", "-0x1FUL"⟩, ⟨"y", "+1.5e-3f"⟩] := by
  have hspace : Blanks [' '] := by decide
  have hflag : WritesConstraint ⟨"flag", "1"⟩ "\u2003( (flag) )== ( true ) ".toList := by
    refine ⟨"\u2003( (flag) )".toList, " ( true ) ".toList, rfl, isIdentifier_iff.1 (by decide),
      ?_, ?_⟩
    · have hname : Wrapped "flag".toList "( (flag) )".toList :=
        .parens (.blanks hspace hspace (.parens .bare))
      have hwide : Blanks ['\u2003'] := by decide
      exact hname.blanks_append hwide
    · exact .yes (.blanks hspace hspace (.parens (.blanks hspace hspace .bare)))
  have hx : WritesConstraint ⟨"x", "-0x1FUL"⟩ "x==-( 0x1FUL )".toList := by
    have hnumber : NumberText "0x1FUL".toList := isNumber_iff.1 (by decide)
    exact ⟨['x'], "-( 0x1FUL )".toList, rfl, isIdentifier_iff.1 (by decide), .bare,
      .signed (.inl rfl) hnumber (.parens (.blanks hspace hspace .bare)) .bare⟩
  have hy : WritesConstraint ⟨"y", "+1.5e-3f"⟩ "y == (+1.5e-3f)".toList := by
    have hnumber : NumberText "1.5e-3f".toList := isNumber_iff.1 (by decide)
    exact ⟨"y ".toList, " (+1.5e-3f)".toList, rfl, isIdentifier_iff.1 (by decide),
      .append_blanks .bare hspace,
      .signed (.inr rfl) hnumber .bare (.blanks_append hspace (.parens .bare))⟩
  have hall : WritesAll [⟨"flag", "1"⟩, ⟨"x", "-0x1FUL"⟩, ⟨"y", "+1.5e-3f"⟩]
      ["\u2003( (flag) )== ( true ) ".toList, [' '], "x==-( 0x1FUL )".toList,
        "y == (+1.5e-3f)".toList, []] :=
    .conjunct hflag (.blank hspace (.conjunct hx (.conjunct hy (.blank blanks_nil .nil))))
  have htext : String.ofList (List.intercalate [';'] ["\u2003( (flag) )== ( true ) ".toList, [' '],
      "x==-( 0x1FUL )".toList, "y == (+1.5e-3f)".toList, []])
      = "\u2003( (flag) )== ( true ) ; ;x==-( 0x1FUL );y == (+1.5e-3f);" := by rfl
  rw [← htext]
  exact parse_of_writesAll.1 _ _ hall

/-! ### All that is read is written -/

/-- A number, with a sign perhaps. -/
def SignedNumber (cs : List Char) : Prop :=
  ∃ sign number, sign ∈ [[], ['-'], ['+']] ∧ NumberText number ∧ cs = sign ++ number

/-- What may stand between the quotes of a character: none is a quote itself, unless there is a
backslash before it, and none a backslash, unless there is something behind it. -/
inductive Quotable : List Char → Prop
  | nil : Quotable []
  | plain {c : Char} {rest : List Char} (hc : c ≠ '\'' ∧ c ≠ '\\') (h : Quotable rest) :
      Quotable (c :: rest)
  | escape {c : Char} {rest : List Char} (h : Quotable rest) : Quotable ('\\' :: c :: rest)

/-- One literal: a number with its sign, or a character. -/
inductive Literal : List Char → Prop
  | number {cs : List Char} (h : SignedNumber cs) : Literal cs
  | character {body : List Char} (hne : body ≠ []) (h : Quotable body) :
      Literal ('\'' :: (body ++ ['\'']))

/-- A text between quotes that is not one character, since there is a quote or a backslash too many
in it. -/
inductive Misquoted : List Char → Prop
  | intro {body : List Char} (hmark : '\'' ∈ body ∨ '\\' ∈ body) (h : ¬ Quotable body) :
      Misquoted ('\'' :: (body ++ ['\'']))

/-- Without quotes and backslashes a text can stand in quotes. -/
theorem quotable_of_not_mem {body : List Char} (h : ∀ c ∈ body, c ≠ '\'' ∧ c ≠ '\\') :
    Quotable body := by
  induction body with
  | nil => exact .nil
  | cons c body ih =>
    obtain ⟨hc, hrest⟩ := List.forall_mem_cons.1 h
    exact .plain hc (ih hrest)

/-- A quoted text is a literal, or has a quote too many. -/
theorem Quoted.cases {cs : List Char} (h : Quoted cs) : Literal cs ∨ Misquoted cs := by
  obtain ⟨body, hne, rfl⟩ := h
  by_cases hbody : Quotable body
  · exact .inl (.character hne hbody)
  · refine .inr (.intro ?_ hbody)
    by_contra hmark
    rw [not_or] at hmark
    refine hbody (quotable_of_not_mem fun c hc => ⟨?_, ?_⟩)
    · rintro rfl; exact hmark.1 hc
    · rintro rfl; exact hmark.2 hc

/-- A number that was written has at most one sign. -/
theorem WritesNumber.signedNumber {value text : List Char} (h : WritesNumber value text) :
    SignedNumber value := by
  cases h with
  | yes => exact ⟨[], ['1'], by simp, isNumber_iff.1 (by decide), rfl⟩
  | no => exact ⟨[], ['0'], by simp, isNumber_iff.1 (by decide), rfl⟩
  | unsigned hn => exact ⟨[], _, by simp, hn, rfl⟩
  | @signed sign number _ _ hs hn =>
    refine ⟨[sign], number, ?_, hn, rfl⟩
    rcases hs with rfl | rfl <;> simp

/-- It is made of characters of numbers. -/
theorem SignedNumber.isNumberChar_of_mem {cs : List Char} (h : SignedNumber cs) {c : Char}
    (hc : c ∈ cs) : isNumberChar c = true := by
  obtain ⟨sign, number, hsign, hnumber, rfl⟩ := h
  rcases List.mem_append.1 hc with hc | hc
  · simp only [List.mem_cons, List.not_mem_nil, or_false] at hsign
    rcases hsign with rfl | rfl | rfl
    · cases hc
    · obtain rfl := List.mem_singleton.1 hc; decide
    · obtain rfl := List.mem_singleton.1 hc; decide
  · exact hnumber.isNumberChar_of_mem hc

/-- **What is read for a variable is one literal, or a text between quotes with a mark too many.**
It was written for the variable between two semicolons, and if there are no quotes in it, it is a
number of which every character is a letter, a digit, a point or a sign. -/
theorem literal_of_mem_parse {text : String} {constraint : Constraint}
    (h : constraint ∈ parse text) :
    Identifier constraint.name.toList ∧
    (Literal constraint.value.toList ∨ Misquoted constraint.value.toList) ∧
    ('\'' ∉ constraint.value.toList →
      SignedNumber constraint.value.toList ∧
        ∀ c ∈ constraint.value.toList, isNumberChar c = true) ∧
    ∃ piece ∈ splitAt ';' text.toList, WritesConstraint constraint piece ∨
      Equates constraint.name.toList (fun right => Quoted constraint.value.toList ∧
        Wrapped constraint.value.toList right) piece := by
  obtain ⟨piece, hpiece, hconjunct⟩ := List.mem_filterMap.1 h
  obtain ⟨left, right, htext, hname, hleft, hright⟩ := equates_of_conjunct? hconjunct
  rcases hright with hnumber | ⟨hquoted, hwrapped⟩
  · have hsigned := hnumber.signedNumber
    refine ⟨hname, .inl (.number hsigned), fun _ => ⟨hsigned, fun c hc =>
      hsigned.isNumberChar_of_mem hc⟩, piece, hpiece, .inl ?_⟩
    exact ⟨left, right, htext, hname, hleft, hnumber⟩
  · refine ⟨hname, hquoted.cases, fun hnot => ?_, piece, hpiece, .inr ?_⟩
    · obtain ⟨body, -, hbody⟩ := hquoted
      rw [hbody] at hnot
      exact absurd List.mem_cons_self hnot
    · exact ⟨left, right, htext, hname, hleft, hquoted, hwrapped⟩

theorem literal_of_mem_parse_signed : ⟨"x", "-3"⟩ ∈ parse "y > 0; (x) == (-(3))" ∧
    SignedNumber "-3".toList := by
  have hmem : ⟨"x", "-3"⟩ ∈ parse "y > 0; (x) == (-(3))" := by decide +kernel
  exact ⟨hmem, ((literal_of_mem_parse hmem).2.2.1 (by decide)).1⟩

/-- Two conjuncts with characters in one are read as one, whose character is the rest of the text.
-/
theorem not_literal_of_mem_parse : ¬ ∀ text constraint, constraint ∈ parse text →
    Identifier constraint.name.toList ∧ Literal constraint.value.toList := by
  intro hall
  have hmem : ⟨"x", "'a' && y == 'b'"⟩ ∈ parse "x == 'a' && y == 'b'" := by decide +kernel
  have hliteral : Literal "'a' && y == 'b'".toList := (hall _ _ hmem).2
  generalize hvalue : "'a' && y == 'b'".toList = value at hliteral
  cases hliteral with
  | number h =>
    have hquote : '\'' ∈ value := by rw [← hvalue]; decide
    exact absurd (h.isNumberChar_of_mem hquote) (by decide)
  | @character body hne h =>
    have hbody : body = "a' && y == 'b".toList := by
      rw [← List.cons_append] at hvalue
      have hlast := congrArg List.dropLast hvalue
      rw [List.dropLast_concat] at hlast
      exact (List.cons.inj hlast).2.symm
    -- the second character between the quotes is a quote, without a backslash before it
    rw [hbody] at h
    cases h with
    | plain _ h =>
      cases h with
      | plain hc _ => exact hc.1 rfl

end WitnessReplay.Assumption
