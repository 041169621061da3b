import WitnessReplay.Proofs.Program.Expression
import WitnessReplay.Proofs.Program.Writing

/-!
# Operands

A constant that is put into a program is a number, a number with a sign, or one of these with a cast
before it. None of the scans by which expressions and statements are cut stops in such a text, so it
is read back as an expression that is printed like it (`Operand.prints`).
-/

namespace WitnessReplay

open Token

/-! ### Scans that go on -/

/-- A scan passes all the texts of a list, and is in a certain state behind them. -/
def Token.Passes {σ : Type} (step : σ → String → Advance σ) : σ → List String → σ → Prop
  | state, [], last => state = last
  | state, text :: rest, last => ∃ next, step state text = .goOn next ∧ Passes step next rest last

namespace Token.Passes

variable {σ : Type} {step : σ → String → Advance σ} {state middle last : σ} {as bs : List String}

/-- A scan that passes over two lists passes over both together. -/
theorem append (h : Passes step state as middle) (h' : Passes step middle bs last) :
    Passes step state (as ++ bs) last := by
  induction as generalizing state with
  | nil =>
    cases h
    exact h'
  | cons a as ih =>
    obtain ⟨next, hstep, h⟩ := h
    exact ⟨next, hstep, ih h⟩

/-- It passes over a list text by text. -/
theorem cons {a : String} (h : step state a = .goOn middle) (h' : Passes step middle bs last) :
    Passes step state (a :: bs) last :=
  ⟨middle, h, h'⟩

/-- It passes over texts that do not change its state. -/
theorem of_forall (h : ∀ a ∈ as, step state a = .goOn state) : Passes step state as state := by
  induction as with
  | nil => rfl
  | cons a as ih => exact ⟨state, h a (by simp), ih fun b hb => h b (List.mem_cons_of_mem _ hb)⟩

/-- Behind what it passes over it stops as it would there. -/
theorem stops {text : String} (h : Passes step state as middle) (h' : Stops step middle bs text) :
    Stops step state (as ++ bs) text := by
  induction as generalizing state with
  | nil =>
    cases h
    exact h'
  | cons a as ih =>
    obtain ⟨next, hstep, h⟩ := h
    exact ⟨next, hstep, ih h⟩

/-- Where a scan passes everything, nothing is cut. -/
theorem scan_eq_none {ts : List Token} (h : Passes step state (texts ts) last) :
    scan step state ts = none := by
  induction ts generalizing state with
  | nil => rfl
  | cons t ts ih =>
    obtain ⟨next, hstep, h⟩ := h
    rw [scan, hstep]
    dsimp only
    rw [ih h, Option.map_none]

end Token.Passes

/-! ### Texts that no scan takes notice of -/

/-- A text that is no bracket and that no scan looks for. -/
structure Bland (text : String) : Prop where
  opening : isOpening text = false
  closing : isClosing text = false
  semicolon : text ≠ ";"
  comma : text ≠ ","
  assigns : assignmentOps.contains text = false

instance (text : String) : Decidable (Bland text) :=
  decidable_of_iff (isOpening text = false ∧ isClosing text = false ∧ text ≠ ";" ∧ text ≠ "," ∧
      assignmentOps.contains text = false)
    ⟨fun ⟨h₁, h₂, h₃, h₄, h₅⟩ => ⟨h₁, h₂, h₃, h₄, h₅⟩,
      fun ⟨h₁, h₂, h₃, h₄, h₅⟩ => ⟨h₁, h₂, h₃, h₄, h₅⟩⟩

/-- A test of the scans for texts outside brackets. -/
def Separates (test : String → Bool) : Prop :=
  ∀ text, test text = true → text = "," ∨ assignmentOps.contains text = true

theorem separates_comma : Separates (· == ",") := fun _ h => .inl (eq_of_beq h)

theorem separates_assignment : Separates assignmentOps.contains := fun _ h => .inr h

theorem separates_equals : Separates (· == "=") := fun _ h => by
  rw [eq_of_beq h]
  exact .inr (by decide)

namespace Bland

variable {text : String} (h : Bland text)

include h

/-- A search outside of brackets passes over a bland text. -/
theorem outsideStep {test : String → Bool} (ht : Separates test) (depth : Int) :
    Token.outsideStep test depth text = .goOn depth := by
  have htest : test text = false := by
    refine Bool.eq_false_iff.2 fun htrue => ?_
    rcases ht text htrue with hcomma | hassigns
    · exact h.comma hcomma
    · rw [h.assigns] at hassigns
      cases hassigns
  simp [Token.outsideStep, h.opening, h.closing, htest]

theorem statementStep (depth : Nat) : Token.statementStep depth text = .goOn depth := by
  simp [Token.statementStep, h.opening, h.closing, h.semicolon]

theorem closingStep (depth : Nat) : Token.closingStep depth text = .goOn depth := by
  simp [Token.closingStep, h.opening, h.closing]

end Bland

/-- A numeral is bland: it is no bracket and no operator. -/
theorem Numeral.bland {text : String} (h : Numeral text) : Bland text := by
  have hne (other : String) {c : Char} {cs : List Char} (hother : other.toList = c :: cs)
      (hc : c.isDigit = false ∧ c ≠ '.') : text ≠ other := h.ne hother hc.1 hc.2
  refine ⟨?_, ?_, hne ";" rfl (by decide), hne "," rfl (by decide), ?_⟩
  · simp [isOpening, hne "(" rfl (by decide), hne "[" rfl (by decide),
      hne "\x7b" rfl (by decide)]
  · simp [isClosing, hne ")" rfl (by decide), hne "]" rfl (by decide),
      hne "\x7d" rfl (by decide)]
  · refine Bool.eq_false_iff.2 fun hmem => ?_
    have hall : ∀ op ∈ assignmentOps, ∃ c cs, op.toList = c :: cs ∧ c.isDigit = false ∧ c ≠ '.' := by
      simp [assignmentOps]
    obtain ⟨c, cs, hop, hc⟩ := hall text (List.contains_iff_mem.1 hmem)
    exact hne text hop hc rfl

/-! ### Operands -/

/-- Some tokens make up an operand that is written as a text: it begins with no word, and no scan
stops in it. -/
structure Operand (us : List Token) (text : String) : Prop where
  written : Written us text
  kind : headKind? us ≠ some .word
  ne_nil : us ≠ []
  outside : ∀ test, Separates test → ∀ depth, Passes (outsideStep test) depth (texts us) depth
  statement : ∀ depth, Passes statementStep depth (texts us) depth
  closing : ∀ depth, Passes closingStep depth (texts us) depth

/-- Tokens that no scan takes notice of are an operand. -/
theorem operand_of_bland {us : List Token} {text : String} (h : Written us text)
    (hk : headKind? us ≠ some .word) (hne : us ≠ []) (hb : ∀ a ∈ texts us, Bland a) :
    Operand us text :=
  ⟨h, hk, hne, fun _ ht depth => .of_forall fun a ha => (hb a ha).outsideStep ht depth,
    fun depth => .of_forall fun a ha => (hb a ha).statementStep depth,
    fun depth => .of_forall fun a ha => (hb a ha).closingStep depth⟩

theorem Numeral.operand {text : String} (h : Numeral text) : Operand [ofText .number text] text :=
  operand_of_bland (written_number h) (by simp [headKind?, ofText]) (by simp)
    (by simpa [ofText] using h.bland)

theorem Numeral.operand_signed {sign text : String} (hs : sign = "-" ∨ sign = "+")
    (h : Numeral text) :
    Operand [ofText .punctuation sign, ofText .number text] (sign ++ text) := by
  have hsign : Bland sign := by rcases hs with rfl | rfl <;> decide
  exact operand_of_bland (written_signed hs h) (by simp [headKind?, ofText]) (by simp)
    (by simpa [ofText] using ⟨hsign, h.bland⟩)

/-- The digits of an integer, with its sign, are an operand. -/
theorem exists_operand_toString (i : Int) : ∃ us, Operand us (toString i) := by
  cases i with
  | ofNat n => exact ⟨_, (numeral_toString n).operand⟩
  | negSucc n => exact ⟨_, (numeral_toString (n + 1)).operand_signed (.inl rfl)⟩

/-- The parentheses of a cast and of a call. -/
def openingParen : Token := ofText .punctuation "("

@[inherit_doc openingParen]
def closingParen : Token := ofText .punctuation ")"

theorem written_closingParen : Written [closingParen] ")" :=
  written_of_tokenize (by decide +kernel)

/-- The tokens of a value that is cast to a type, between parentheses. -/
def castTokens (type value : List Token) : List Token :=
  openingParen :: openingParen :: (type ++ closingParen :: (value ++ [closingParen]))

/-- A scan passes over a cast if it passes over the type and the value. -/
theorem Token.Passes.cast {σ : Type} {step : σ → String → Advance σ} {outer : σ} (middle inner : σ)
    {type value : List Token} (ho : step outer "(" = .goOn middle)
    (ho' : step middle "(" = .goOn inner) (ht : Passes step inner (texts type) inner)
    (hc' : step inner ")" = .goOn middle) (hv : Passes step middle (texts value) middle)
    (hc : step middle ")" = .goOn outer) : Passes step outer (texts (castTokens type value)) outer := by
  have htexts : texts (castTokens type value)
      = "(" :: "(" :: (texts type ++ ")" :: (texts value ++ [")"])) := by
    simp [castTokens, openingParen, closingParen, ofText]
  rw [htexts]
  exact .cons ho (.cons ho' (ht.append (.cons hc' (hv.append (.cons hc rfl)))))

namespace Operand

variable {us type : List Token} {text name : String}

/-- An operand with a cast before it is an operand. -/
theorem cast (h : Operand us text) (ht : Written type name) (hne : type ≠ [])
    (hb : ∀ a ∈ texts type, Bland a) :
    Operand (castTokens type us) ("((" ++ name ++ ") " ++ text ++ ")") := by
  refine ⟨?_, by simp [castTokens, openingParen, headKind?, ofText], by simp [castTokens], ?_, ?_, ?_⟩
  · -- the text, from the inside out: the operand, the type in front of it, then both parentheses
    have hvalue := h.written.append (g := "") written_closingParen h.ne_nil (by simp) blank_empty
      opens_closing
    have hright := written_closingParen.append (g := " ") hvalue (by simp) (by simp) blank_one
      (opens_blank.append _)
    have hcast := ht.append (g := "") hright hne (by simp) blank_empty (opens_closing.append _)
    have hall := (hcast.opening (by simp [hne])).opening (by simp)
    have htext : "(" ++ ("(" ++ (name ++ ("" ++ (")" ++ (" " ++ (text ++ ("" ++ ")")))))))
        = "((" ++ name ++ ") " ++ text ++ ")" := by
      have hopening : "((" = "(" ++ "(" := rfl
      have hclosing : ") " = ")" ++ " " := rfl
      rw [hopening, hclosing]
      simp only [String.append_assoc, String.empty_append]
    rw [htext] at hall
    exact hall
  · -- each search passes over the type one level deeper, and over the operand two levels deeper
    intro test htest depth
    exact .cast (depth + 1) (depth + 2) (by simp [outsideStep, isOpening])
      (by simp [outsideStep, isOpening]; omega)
      (.of_forall fun a ha => (hb a ha).outsideStep htest _)
      (by simp [outsideStep, isOpening, isClosing]; omega) (h.outside test htest _)
      (by simp [outsideStep, isOpening, isClosing])
  · intro depth
    exact .cast (depth + 1) (depth + 2) rfl rfl
      (.of_forall fun a ha => (hb a ha).statementStep _) rfl (h.statement _) rfl
  · intro depth
    exact .cast (depth + 1) (depth + 2) rfl rfl
      (.of_forall fun a ha => (hb a ha).closingStep _) rfl (h.closing _) rfl

/-- An operand is kept as its text, if it is no single token. -/
theorem render_eq (h : Operand us text) {ts : List Token} (ha : Alike ts us) :
    (Expr.ofTokens ts).render = verbatim ts := by
  have hnone {test : String → Bool} (htest : Separates test) : splitOutside test 0 ts = none := by
    rw [splitOutside_eq_scan]
    exact Passes.scan_eq_none (ha.texts_eq ▸ h.outside test htest 0)
  have hkind : headKind? ts ≠ some .word := ha.headKind?_eq ▸ h.kind
  match ts with
  | [] => exact absurd ha.symm.eq_nil h.ne_nil
  | [t] =>
    have hone : Expr.ofTokens [t] = Expr.ofToken t := by rw [Expr.ofTokens]
    rw [hone, render_ofToken]
    simp [verbatim, spaced]
  | t :: u :: more =>
    have hcall : callArguments? (t :: u :: more) = none := by
      rw [callArguments?, if_neg fun hc => hkind (congrArg some hc.1)]
    rw [ofTokens_raw (by simp) (fun hs => by rw [hnone separates_assignment] at hs; cases hs)
      (hnone separates_comma) hcall, Expr.render]

/-- **An operand is read back from its text** as an expression that is printed like it. -/
theorem prints (h : Operand us text) :
    Prints BreaksInLine (fun vs => Alike vs us ∧ (Expr.ofTokens vs).render = text) text := by
  refine h.written.prints.imp fun vs ⟨ha, htext⟩ => ⟨ha, ?_⟩
  exact (h.render_eq ha).trans htext

end Operand

end WitnessReplay
