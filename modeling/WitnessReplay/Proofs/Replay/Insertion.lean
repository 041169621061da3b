import WitnessReplay.Proofs.Program.Lines
import WitnessReplay.Proofs.Program.Operand
import WitnessReplay.Proofs.Replay.Step

/-!
# Statements that a replay puts into a program

A replay puts calls with two arguments into a program (`prints_callStmt`), and constants into the
statements that take a value (`Assigning.prints`). What is read from their text need not be what was
put in: a constant with a cast comes back as raw text, and a call of a name that the source
introduces as a type comes back as a declaration. It is printed as the same text, and begins with
the same word (`RereadsLeaf`).
-/

namespace WitnessReplay

open Token

/-! ### Calls -/

/-- The tokens of a call with two arguments. -/
def callTokens (name : String) (first second : List Token) : List Token :=
  ofText .word name :: openingParen ::
    (first ++ ofText .punctuation "," :: (second ++ [closingParen]))

/-- The text of a call with two arguments. -/
def callText (name first second : String) : String :=
  name ++ "(" ++ first ++ ", " ++ second ++ ")"

theorem texts_callTokens (name : String) (first second : List Token) :
    texts (callTokens name first second)
      = name :: "(" :: (texts first ++ "," :: (texts second ++ [")"])) := by
  simp [callTokens, openingParen, closingParen, ofText]

section Call

variable {name x y : String} {us vs ws : List Token}

/-- A scan passes over a call if it passes over its arguments. -/
theorem Token.Passes.call {σ : Type} {step : σ → String → Advance σ} {outer : σ} (inner : σ)
    (hn : step outer name = .goOn outer) (ho : step outer "(" = .goOn inner)
    (hu : Passes step inner (texts us) inner) (hcomma : step inner "," = .goOn inner)
    (hv : Passes step inner (texts vs) inner) (hc : step inner ")" = .goOn outer) :
    Passes step outer (texts (callTokens name us vs)) outer := by
  rw [texts_callTokens]
  exact .cons hn (.cons ho (hu.append (.cons hcomma (hv.append (.cons hc rfl)))))

variable (hn : Written [ofText .word name] name) (hb : Bland name) (hx : Operand us x)
  (hy : Operand vs y)

include hn hx hy in
/-- A call is written as it is printed. -/
theorem written_call : Written (callTokens name us vs) (callText name x y) := by
  have hcomma : Written [ofText .punctuation ","] "," := written_of_tokenize (by decide +kernel)
  have hlast := hy.written.append (g := "") written_closingParen hy.ne_nil (by simp) blank_empty
    opens_closing
  have hsecond := hcomma.append (g := " ") hlast (by simp) (by simp) blank_one
    (opens_blank.append _)
  have hfirst := hx.written.append (g := "") hsecond hx.ne_nil (by simp) blank_empty
    (opens_comma.append _)
  have hall := hn.append (g := "") (hfirst.opening (by simp)) (by simp) (by simp) blank_empty
    (opens_opening.append _)
  have htext : name ++ ("" ++ ("(" ++ (x ++ ("" ++ ("," ++ (" " ++ (y ++ ("" ++ ")"))))))))
      = callText name x y := by
    have hblank : ", " = "," ++ " " := rfl
    rw [callText, hblank]
    simp only [String.append_assoc, String.empty_append]
  rw [htext] at hall
  exact hall

include hb hx hy

/-- A search outside of brackets passes over a call. -/
theorem outside_call {test : String → Bool} (ht : Separates test) :
    Passes (outsideStep test) 0 (texts (callTokens name us vs)) 0 :=
  .call 1 (hb.outsideStep ht 0) (by simp [outsideStep, isOpening]) (hx.outside test ht 1)
    (by simp [outsideStep, isOpening, isClosing]) (hy.outside test ht 1)
    (by simp [outsideStep, isOpening, isClosing])

theorem statement_call : Passes statementStep 0 (texts (callTokens name us vs)) 0 :=
  .call 1 (hb.statementStep 0) rfl (hx.statement 1) rfl (hy.statement 1) rfl

theorem splitOutside_call {test : String → Bool} (ht : Separates test)
    (ha : Alike ws (callTokens name us vs)) : splitOutside test 0 ws = none := by
  rw [splitOutside_eq_scan]
  exact Passes.scan_eq_none (ha.texts_eq ▸ outside_call hb hx hy ht)

/-- A call is read back as a call with the same arguments. -/
theorem render_call {name' opening comma closing : Token} {first second : List Token}
    (hname : name'.kind = .word ∧ name'.text = name) (ho : opening.text = "(")
    (hcomma : comma.text = ",") (hc : closing.text = ")")
    (ha : Alike (name' :: opening :: (first ++ comma :: second) ++ [closing])
      (callTokens name us vs))
    (hfirst : Alike first us ∧ (Expr.ofTokens first).render = x)
    (hsecond : Alike second vs ∧ (Expr.ofTokens second).render = y) :
    (Expr.ofTokens (name' :: opening :: (first ++ comma :: second) ++ [closing])).render
      = callText name x y := by
  -- both arguments are operands, so the searches pass over them to the comma and the parenthesis
  have hclosing : Stops closingStep 0 (texts (first ++ comma :: second)) closing.text := by
    have htexts : texts (first ++ comma :: second) = texts us ++ "," :: texts vs := by
      rw [texts, List.map_append, List.map_cons, hcomma, ← hfirst.1.texts_eq, ← hsecond.1.texts_eq]
    rw [htexts, hc, ← List.append_nil (texts vs)]
    exact (hx.closing 0).stops ⟨0, rfl, (hy.closing 0).stops rfl⟩
  have hsplit : splitOutside (· == ",") 0 (first ++ comma :: second)
      = some (first, comma, second) := by
    refine splitOutside_eq_some.2 ⟨rfl, ?_⟩
    rw [hfirst.1.texts_eq, hcomma, ← List.append_nil (texts us)]
    exact (hx.outside _ separates_comma 0).stops (by simp [Stops, outsideStep, isOpening, isClosing])
  have hlast : splitOutside (· == ",") 0 second = none := by
    rw [splitOutside_eq_scan]
    exact Passes.scan_eq_none (hsecond.1.texts_eq ▸ hy.outside _ separates_comma 0)
  rw [ofTokens_call (by simp)
    (fun hs => by rw [splitOutside_call hb hx hy separates_assignment ha] at hs; cases hs)
    (splitOutside_call hb hx hy separates_comma ha)
    (callArguments?_eq_some.2 ⟨_, _, _, rfl, hname.1, rfl, ho, hclosing⟩),
    arguments_eq (by simp), argumentsOf_cons hsplit, argumentsOf_last hlast]
  simp only [Expr.render, Expr.renderArguments, hfirst.2, hsecond.2, hname.2, callText]
  simp only [String.append_assoc]

variable (types : List String)

include hn in
/-- **A call is read back from its text** as a statement that is printed like it, even where its
name was introduced as that of a type. -/
theorem prints_call :
    Prints BreaksInLine (fun ws => Alike ws (callTokens name us vs) ∧
      (Leaf.ofTokens types ws).inner = callText name x y) (callText name x y) := by
  by_cases hd : isDeclaration types (callTokens name us vs) = true
  · -- then the tokens are kept as they are
    refine (written_call hn hx hy).prints.imp fun ws ⟨ha, htext⟩ => ⟨ha, ?_⟩
    have hnone := splitOutside_call hb hx hy separates_equals ha
    rw [Leaf.ofTokens, isDeclaration_alike types ha, if_pos hd, Leaf.inner, ofTokens_verbatim
      (fun _ _ _ hs => by rw [hnone] at hs; cases hs), Declaration.render]
    exact htext
  · -- else the tokens are read one by one: the name, the parentheses and the arguments between them
    have hcomma : Written [ofText .punctuation ","] "," := written_of_tokenize (by decide +kernel)
    have hname := hn.prints.imp fun _ hvs => hvs.1.exists_singleton
    have hclosed := written_closingParen.prints.imp fun _ hvs => hvs.1.exists_singleton
    have hseparated := hcomma.prints.imp fun _ hvs => hvs.1.exists_singleton
    have harguments := (hx.prints.seq_opens blank_empty hseparated opens_comma).seq_opens blank_one
      hy.prints (opens_blank.append _)
    have hall := ((hname.seq_opens blank_empty (prints_single (t := openingParen) rfl (.inl rfl))
      opens_opening).seq blank_empty harguments fun _ _ => trivial).seq_opens blank_empty hclosed
      opens_closing
    refine (hall.imp ?_).of_eq ?_
    · rintro _ ⟨_, _, rfl, ⟨_, _, rfl, ⟨_, _, rfl, ⟨name', rfl, hkn, htn⟩, opening, rfl, hko, hto⟩, _,
        second, rfl, ⟨first, _, rfl, hfirst, comma, rfl, hkc, htc⟩, hsecond⟩, closing, rfl, hkl, htl⟩
      have ha : Alike (name' :: opening :: (first ++ comma :: second) ++ [closing])
          (callTokens name us vs) := by
        have hinside := hfirst.1.append (.cons hkc htc (hsecond.1.append (.cons hkl htl (.refl []))))
        simpa [callTokens] using Alike.cons hkn htn (.cons hko hto hinside)
      have hws : [name'] ++ [opening] ++ (first ++ [comma] ++ second) ++ [closing]
          = name' :: opening :: (first ++ comma :: second) ++ [closing] := by simp
      rw [hws]
      refine ⟨ha, ?_⟩
      rw [Leaf.ofTokens, isDeclaration_alike types ha, if_neg hd, Leaf.inner]
      exact render_call hb hx hy ⟨hkn, htn⟩ hto htc htl ha hfirst hsecond
    · have hblank : ", " = "," ++ " " := rfl
      simp only [callText, hblank, openingParen, ofText, String.append_assoc, String.empty_append]

end Call

/-! ### Statements -/

/-- Tokens that begin with a text, and from which a statement is read that prints as a text and its
semicolon. -/
def RereadsLeaf (types : List String) (first inner : String) (vs : List Token) : Prop :=
  headText vs = first ∧ ∃ content : Leaf, content.Spelled types vs ∧
    (∀ text, content ≠ .directive text) ∧ content.inner = inner

/-- A plain statement is no directive. -/
theorem Leaf.ofTokens_ne_directive (types : List String) (ts : List Token) (text : String) :
    Leaf.ofTokens types ts ≠ .directive text := by
  rw [Leaf.ofTokens]
  split <;> simp

/-- Tokens that are spelled like those of a statement that nothing marks are read as one. -/
theorem prints_plain {types : List String} (us : List Token) {inner : String} (hne : us ≠ [])
    (hp : Plain (us ++ [insertedSemicolon])) (hs : Passes statementStep 0 (texts us) 0)
    (h : Prints BreaksInLine (fun vs => Alike vs us ∧ (Leaf.ofTokens types vs).inner = inner)
      inner) :
    Prints Breaks (RereadsLeaf types (headText us) inner) (inner ++ ";") := by
  have hall := h.seq_opens blank_empty prints_semicolon opens_semicolon
  refine (hall.imp ?_).of_eq (by rw [String.empty_append])
  rintro _ ⟨vs, _, rfl, ⟨ha, hinner⟩, semicolon, rfl, hk, ht⟩
  have hends : Ends vs semicolon := by
    have hstop : Stops statementStep 0 (texts us ++ []) ";" := hs.stops rfl
    rw [Ends, ha.texts_eq, ht]
    rwa [List.append_nil] at hstop
  refine ⟨?_, _, .plain (hp.alike (ha.append (.cons hk ht (.refl _)))) hends,
    Leaf.ofTokens_ne_directive types vs, hinner⟩
  rw [headText_append_of_ne_nil (ha.ne_nil hne), ha.headText_eq]

/-- **A call that is put into a program is read back** as a statement that is printed like it. -/
theorem prints_callStmt {name x y : String} {us vs : List Token} (types : List String)
    (hn : Written [ofText .word name] name) (hb : Bland name) (hw : name ∉ statementWords)
    (hx : Operand us x) (hy : Operand vs y) :
    Prints Breaks (RereadsLeaf types name (callText name x y)) (callText name x y ++ ";") := by
  refine prints_plain (callTokens name us vs) (by simp [callTokens]) ⟨?_, hw, ?_⟩
    (statement_call hb hx hy) (prints_call hn hb hx hy types)
  · simp [callTokens, headKind?, ofText]
  · simp [callTokens, headText, openingParen, ofText]

/-! ### Values -/

/-- The first character of a word begins words. -/
theorem Token.Copyable.isWordStart {t : Token} {c : Char} {cs : List Char} (h : Copyable [t])
    (hk : t.kind = .word) (ht : t.text.toList = c :: cs) : isWordStart c = true := by
  obtain ⟨_, _, -, -, -, hstands, -⟩ := h.stood
  have hlexes := hstands.lexes (by rw [hk]; decide)
  rw [hk, ht] at hlexes
  cases hlexes with
  | word _ ht hc => cases ht; exact hc
  | number hk => cases hk
  | literal hk => split at hk <;> cases hk
  | punctuation hk => cases hk

/-- Whether tokens declare something is decided before an equals sign that has something before
it. -/
theorem isDeclaration_initialized (types : List String) {before : List Token} {equals : Token}
    (hne : before ≠ []) (ht : equals.text = "=") (hk : equals.kind ≠ .word)
    (after after' : List Token) :
    isDeclaration types (before ++ equals :: after)
      = isDeclaration types (before ++ equals :: after') := by
  have hpointer : isPointerPart equals.text = false := by rw [ht]; decide
  have hword : (equals.kind == .word) = false := by simpa using hk
  match before with
  | [] => exact absurd rfl hne
  | [first] => simp [isDeclaration, hk, hpointer]
  | first :: second :: more =>
    -- the test drops stars, and the equals sign stops it before what comes behind is looked at
    have hdrop (behind : List Token) :
        (second :: more ++ equals :: behind).dropWhile (fun t => isPointerPart t.text)
          = (second :: more).dropWhile (fun t => isPointerPart t.text) ++ equals :: behind := by
      rw [List.dropWhile_append]
      split
      next hempty =>
        rw [List.isEmpty_iff.1 hempty, List.dropWhile_cons_of_neg (by simp [hpointer])]
        rfl
      next => rfl
    simp only [List.cons_append] at hdrop
    simp only [List.cons_append, isDeclaration, hdrop]
    cases (second :: more).dropWhile fun t => isPointerPart t.text with
    | nil => simp [hword]
    | cons name behind => cases behind <;> simp [headText]

/-- The scan for the end of a statement is outside all brackets where the scan for a sign stops. -/
theorem Token.Passes.of_stops {test : String → Bool} {before rest : List String} (depth : Nat)
    {sign : String} (ho : Stops (outsideStep test) depth before sign)
    (hs : Stops statementStep depth (before ++ rest) ";") : Passes statementStep depth before 0 := by
  induction before generalizing depth with
  | nil =>
    have ho : outsideStep test depth sign = .stop := ho
    rw [outsideStep.eq_def] at ho
    split at ho
    next => cases ho
    split at ho
    next => cases ho
    split at ho
    next hd => exact Int.ofNat.inj hd.1
    next => cases ho
  | cons a before ih =>
    obtain ⟨next, hstep, hs⟩ := hs
    obtain ⟨next', hstep', ho⟩ := ho
    refine ⟨next, hstep, ih next ?_ hs⟩
    -- both scans count the same brackets
    have heq : next' = next := by
      rw [statementStep.eq_def] at hstep
      rw [outsideStep.eq_def] at hstep'
      split at hstep
      next hopen =>
        rw [if_pos hopen] at hstep'
        cases hstep
        cases hstep'
        rfl
      next hopen =>
        rw [if_neg hopen] at hstep'
        split at hstep
        next hclose =>
          rw [if_pos hclose] at hstep'
          cases depth with
          | zero => cases hstep
          | succ depth =>
            cases hstep
            cases hstep'
            simp
        next hclose =>
          rw [if_neg hclose] at hstep'
          split at hstep
          next => cases hstep
          split at hstep'
          next => cases hstep'
          cases hstep
          cases hstep'
          rfl
    rwa [heq] at ho

/-- The tokens of a statement that assigns a value to a variable, or declares one with it: what
stands before the equals sign, the sign, and the value. -/
inductive Assigning (types : List String) (before : List Token) (equals : Token)
    (value : List Token) : Prop
  | declares (hd : isDeclaration types (before ++ equals :: value) = true)
      (hs : Stops (outsideStep (· == "=")) 0 (texts before) "=")
      (hc : splitOutside (· == ",") 0 value = none)
  | evaluates (hd : isDeclaration types (before ++ equals :: value) = false)
      (hs : Stops (outsideStep assignmentOps.contains) 0 (texts before) "=")
      (hone : ∃ t, before = [t] ∧ t.kind = .word)

namespace Assigning

variable {types : List String} {before value before' value' us : List Token} {equals equals' : Token}
  {x : String}

/-- Another value is printed behind the equals sign. -/
theorem inner_withValue (h : Assigning types before equals value) (hne : before ≠ [])
    (ht : equals.text = "=") (e : Expr) :
    ((Leaf.ofTokens types (before ++ equals :: value)).withValue e).inner
      = verbatim before ++ " = " ++ e.render := by
  cases h with
  | declares hd hs hc =>
    rw [Leaf.ofTokens, if_pos hd, ofTokens_initialized (splitOutside_eq_some.2 ⟨rfl, ht ▸ hs⟩) hc]
    rfl
  | evaluates hd hs hone =>
    obtain ⟨t, rfl, hk⟩ := hone
    rw [Leaf.ofTokens, if_neg (by rw [hd]; decide),
      ofTokens_assign (splitOutside_eq_some.2 ⟨rfl, ht ▸ hs⟩) (by simp), ht]
    have hone : Expr.ofTokens [t] = Expr.ofToken t := by rw [Expr.ofTokens]
    simp only [Leaf.withValue, Leaf.inner, Expr.render, hone, render_ofToken, verbatim, spaced,
      String.append_empty]
    simp only [String.append_assoc]
    rfl

/-- The value that was there gives the leaf that was there. -/
theorem withValue_self (h : Assigning types before equals value) (hne : before ≠ [])
    (ht : equals.text = "=") :
    (Leaf.ofTokens types (before ++ equals :: value)).withValue (Expr.ofTokens value)
      = Leaf.ofTokens types (before ++ equals :: value) := by
  cases h with
  | declares hd hs hc =>
    rw [Leaf.ofTokens, if_pos hd, ofTokens_initialized (splitOutside_eq_some.2 ⟨rfl, ht ▸ hs⟩) hc]
    rfl
  | evaluates hd hs hone =>
    rw [Leaf.ofTokens, if_neg (by rw [hd]; decide),
      ofTokens_assign (splitOutside_eq_some.2 ⟨rfl, ht ▸ hs⟩) hne]
    rfl

/-- An operand in the place of the value. -/
theorem change (h : Assigning types before equals value) (hne : before ≠ [])
    (ht : equals.text = "=") (hk : equals.kind ≠ .word) (hx : Operand us x)
    (hb : Alike before' before) (hk' : equals'.kind = equals.kind)
    (ht' : equals'.text = equals.text) (hv : Alike value' us) :
    Assigning types before' equals' value' := by
  have hd : isDeclaration types (before' ++ equals' :: value')
      = isDeclaration types (before ++ equals :: value) := by
    rw [isDeclaration_initialized types hne ht hk value us]
    exact isDeclaration_alike types (hb.append (.cons hk' ht' hv))
  cases h with
  | declares hdeclares hs hc =>
    refine .declares (hd.trans hdeclares) (hb.texts_eq ▸ hs) ?_
    rw [splitOutside_eq_scan]
    exact Passes.scan_eq_none (hv.texts_eq ▸ hx.outside _ separates_comma 0)
  | evaluates hdeclares hs hone =>
    obtain ⟨t, rfl, hword⟩ := hone
    obtain ⟨t', rfl, hk₁, -⟩ := hb.exists_singleton
    exact .evaluates (hd.trans hdeclares) (hb.texts_eq ▸ hs) ⟨t', rfl, hk₁.trans hword⟩

/-- An assignment is cut at its equals sign. -/
theorem stops (h : Assigning types before equals value) :
    ∃ test, Stops (outsideStep test) 0 (texts before) "=" := by
  cases h with
  | declares _ hs _ => exact ⟨_, hs⟩
  | evaluates _ hs _ => exact ⟨_, hs⟩

/-- **A value that is put into a program is read back** with the statement that takes it, as a
statement that is printed like it. -/
theorem prints {semicolon : Token} (h : Assigning types before equals value) (hne : before ≠ [])
    (ht : equals.text = "=") (hb : Inline before) (hi : Inline [equals]) (hx : Operand us x)
    (hp : Plain (before ++ equals :: value ++ [semicolon]))
    (he : Ends (before ++ equals :: value) semicolon) :
    Prints Breaks (RereadsLeaf types (headText before) (verbatim before ++ " = " ++ x))
      (verbatim before ++ " = " ++ x ++ ";") := by
  have hk : equals.kind ≠ .word := by
    intro hk
    have := hi.toCopyable.isWordStart hk (by rw [ht]; rfl)
    exact absurd this (by decide)
  have hhead : headText (before ++ equals :: us) = headText before :=
    headText_append_of_ne_nil hne _
  rw [← hhead]
  refine prints_plain _ (by simp) ?_ ?_ ?_
  · obtain ⟨hkind, hword, hlabel⟩ := hp
    match before with
    | [] => exact absurd rfl hne
    | [first] => exact ⟨hkind, hword, fun h => absurd (ht.symm.trans h.2) (by decide)⟩
    | first :: second :: more => exact ⟨hkind, hword, hlabel⟩
  · -- the new value ends where the old one did: an operand leaves the search where it was
    obtain ⟨test, hs⟩ := h.stops
    have hsemicolon := he.text
    rw [Ends, hsemicolon, texts, List.map_append] at he
    rw [texts, List.map_append, List.map_cons, ht]
    exact (Passes.of_stops 0 hs he).append (.cons rfl (hx.statement 0))
  · have hequals := hi.prints_word
    rw [ht] at hequals
    have hall := (hb.prints.seq_opens blank_one hequals (opens_blank.append _)).seq_opens blank_one
      hx.prints (opens_blank.append _)
    refine (hall.imp ?_).of_eq ?_
    · rintro _ ⟨_, value', rfl, ⟨before', _, rfl, ⟨ha, hv⟩, equals', rfl, hk', ht'⟩, hvalue, hx'⟩
      have hnew := h.change hne ht hk hx ha hk' ht' hvalue
      have hvs : before' ++ [equals'] ++ value' = before' ++ equals' :: value' := by simp
      rw [hvs]
      refine ⟨ha.append (.cons hk' ht' hvalue), ?_⟩
      rw [← hnew.withValue_self (ha.ne_nil hne) (ht'.trans ht),
        hnew.inner_withValue (ha.ne_nil hne) (ht'.trans ht), hv, hx']
    · have hblank : " = " = " " ++ "=" ++ " " := rfl
      rw [hblank]
      simp only [String.append_assoc]

end Assigning

/-- A statement with a slot assigns or declares: the value in the slot stands behind an equals sign.
-/
theorem Leaf.Spelled.exists_assigning {types : List String} {content : Leaf} {ts : List Token}
    {slot : NondetSlot} (h : content.Spelled types ts) (hslot : content.nondetSlot? = some slot) :
    ∃ before equals value semicolon, ts = before ++ equals :: value ++ [semicolon] ∧ before ≠ [] ∧
      equals.text = "=" ∧ content = Leaf.ofTokens types (before ++ equals :: value) ∧
      Assigning types before equals value ∧ Plain ts ∧
      Ends (before ++ equals :: value) semicolon := by
  cases h with
  | directive | empty | returns | jump => cases hslot
  | @plain semicolon ts hp he =>
    by_cases hd : isDeclaration types ts = true
    · rw [Leaf.ofTokens, if_pos hd] at hslot
      -- a declaration has a slot only if it is split into a name and a value
      by_cases hi : ∃ before equals value,
          splitOutside (· == "=") 0 ts = some (before, equals, value) ∧
            splitOutside (· == ",") 0 value = none
      · obtain ⟨before, equals, value, hs, hc⟩ := hi
        rw [ofTokens_initialized hs hc] at hslot
        obtain ⟨htext, rfl⟩ := splitOutside_eq hs
        have htext : equals.text = "=" := by simpa using htext
        obtain ⟨-, hstops⟩ := splitOutside_eq_some.1 hs
        refine ⟨before, equals, value, semicolon, rfl, ?_, htext, rfl,
          .declares hd (htext ▸ hstops) hc, hp, he⟩
        rintro rfl
        cases hslot
      · rw [ofTokens_verbatim] at hslot
        · cases hslot
        · intro before equals value hs
          exact Option.isSome_iff_exists.1
            (Option.isSome_iff_ne_none.2 fun hc => hi ⟨_, _, _, hs, hc⟩)
    · rw [Leaf.ofTokens, if_neg hd] at hslot
      -- an expression has one only if it is an assignment with a single word in front
      have hbranch := exprBranch ts
      generalize hexpr : Expr.ofTokens ts = e at hslot hbranch
      cases hbranch with
      | call | raw => cases hslot
      | token ht =>
        rw [Expr.ofToken] at hslot
        repeat' split at hslot
        all_goals cases hslot
      | @assign before value sign hs hne =>
        have hbranch := exprBranch before
        generalize hexpr : Expr.ofTokens before = target at hslot hbranch
        cases hbranch with
        | call | raw | assign => cases hslot
        | @token t ht =>
          subst ht
          have hword : t.kind = .word ∧ sign.text = "=" := by
            rw [Expr.ofToken] at hslot
            split at hslot
            next hk =>
              refine ⟨hk, Decidable.byContradiction fun hop => ?_⟩
              rw [Leaf.nondetSlot?, if_neg hop] at hslot
              cases hslot
            next => split at hslot <;> cases hslot
            next => cases hslot
            next => cases hslot
          obtain ⟨-, hstops⟩ := splitOutside_eq_some.1 hs
          obtain ⟨-, rfl⟩ := splitOutside_eq hs
          exact ⟨[t], sign, value, semicolon, rfl, by simp, hword.2, rfl,
            .evaluates (by simpa using hd) (hword.2 ▸ hstops) ⟨t, rfl, hword.1⟩, hp, he⟩

end WitnessReplay
