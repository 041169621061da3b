import WitnessReplay.Proofs.Program.Operand
import WitnessReplay.Proofs.Program.RoundTrip

/-!
# Fragments of source text

A printed line is put together from fragments of the source, each kept with all that stood inside
it, and from marks. A directive inside a fragment keeps its line. One at the end of a fragment does
not: what is printed next to it lands on its line. So the directives of a line are carried over if
every fragment begins and ends with another token (`Framing`).

Nothing is asked of brackets here, and what is read back may be another expression: all that is
followed through the printer is the directives (`Carries`).
-/

namespace WitnessReplay

open Token

/-! ### The fragments of a program -/

namespace Expr

mutual

/-- The fragments that an expression keeps. -/
def kept : Expr → List String
  | assign target _ value => target.kept ++ value.kept
  | call _ args => keptAll args
  | ident name => [name]
  | constant _ value => [value]
  | raw text => [text]

/-- The fragments that expressions keep. -/
def keptAll : List Expr → List String
  | [] => []
  | e :: rest => e.kept ++ keptAll rest

end

end Expr

/-- The fragments that a declaration keeps. -/
def Declaration.kept (d : Declaration) : List String :=
  match d.init with
  | some init => d.text :: init.kept
  | none => [d.text]

/-- The fragments that a statement keeps which holds no other. A directive is a line of its own. -/
def Leaf.kept : Leaf → List String
  | returns (some value) => value.kept
  | returns none => []
  | jump text => [text]
  | declares d => d.kept
  | evaluates e => e.kept
  | directive _ => []
  | empty => []

/-- The fragments that a head keeps. A label begins with a word and ends with its colon, whatever is
inside. -/
def Head.kept : Head → List String
  | ifThen cond | whileDo cond | doWhile cond | switch cond => cond.kept
  | forLoop header => [header]
  | label _ => []

namespace Stmt

mutual

/-- The fragments that a statement keeps. -/
def kept : Stmt → List String
  | leaf _ content => content.kept
  | block _ items => keptAll items
  | headed _ head body => head.kept ++ body.kept
  | ifElse _ cond thenBranch elseBranch => cond.kept ++ (thenBranch.kept ++ elseBranch.kept)

/-- The fragments that the statements of a block keep. -/
def keptAll : List Stmt → List String
  | [] => []
  | s :: rest => s.kept ++ keptAll rest

end

end Stmt

/-- The fragments in the body of a function. What is kept of other items makes up whole lines. -/
def Item.kept : Item → List String
  | function f => f.body.kept
  | verbatim _ _ => []

/-- The fragments of a program. -/
def Program.kept (p : Program) : List String :=
  p.items.flatMap Item.kept

/-! ### Framed fragments -/

/-- No fragment, wherever its text stands among some tokens, begins or ends with a directive. -/
def Framing (ts : List Token) (fragments : List String) : Prop :=
  ∀ us, us <:+: ts → verbatim us ∈ fragments → Framed us

namespace Framing

variable {ts us : List Token} {fragments more : List String}

/-- What frames some fragments frames fewer of them in a part of the tokens. -/
theorem mono (h : Framing ts fragments) (hus : us <:+: ts) (hmore : more ⊆ fragments) :
    Framing us more :=
  fun vs hvs hmem => h vs (hvs.trans hus) (hmore hmem)

/-- A fragment among them is framed. -/
theorem framed (h : Framing ts fragments) (hmem : verbatim ts ∈ fragments) : Framed ts :=
  h ts (List.infix_refl ts) hmem

end Framing

/-! ### Directives that are carried over -/

@[simp] theorem directiveTexts_nil : directiveTexts [] = [] := rfl

@[simp] theorem directiveTexts_append (ts us : List Token) :
    directiveTexts (ts ++ us) = directiveTexts ts ++ directiveTexts us := by
  simp [directiveTexts]

theorem directiveTexts_cons {t : Token} (hk : t.kind ≠ .directive) (ts : List Token) :
    directiveTexts (t :: ts) = directiveTexts ts := by
  simp [directiveTexts, hk]

/-- Directives are seen from the spelling. -/
theorem Token.Alike.directiveTexts_eq {ts us : List Token} (h : Alike ts us) :
    directiveTexts ts = directiveTexts us := by
  refine h.congr fun ts => ?_
  simp only [directiveTexts, List.filter_map, List.map_map]
  rfl

/-- Among some tokens, the directives have certain texts. -/
def Carries (texts : List String) (vs : List Token) : Prop :=
  directiveTexts vs = texts

/-- Two parts carry the directives of both. -/
theorem Carries.both {a b : List String} {vs : List Token} (h : Both (Carries a) (Carries b) vs) :
    Carries (a ++ b) vs := by
  obtain ⟨us, ws, rfl, rfl, rfl⟩ := h
  exact directiveTexts_append us ws

/-- What is a token is spelled like it. -/
theorem Is.alike {t : Token} {vs : List Token} (h : Is t vs) : Alike vs [t] := by
  obtain ⟨v, rfl, hkind, htext⟩ := h
  exact .cons hkind htext (.refl [])

/-- A token that is no directive carries none. -/
theorem Is.carries {t : Token} {vs : List Token} (hk : t.kind ≠ .directive) (h : Is t vs) :
    Carries [] vs := by
  rw [Carries, h.alike.directiveTexts_eq, directiveTexts_cons hk, directiveTexts_nil]

/-- A parenthesis or a semicolon behind a text that carries some directives, and behind a blank. -/
theorem Prints.mark {a : List String} {text mark b : String}
    (h : Prints BreaksInLine (Carries a) text) (hm : mark = "(" ∨ mark = ")" ∨ mark = ";")
    (hb : Blank b) :
    Prints (fun _ => True) (fun vs => Carries a vs ∧ vs ≠ []) (text ++ (b ++ mark)) := by
  have hopens : Opens mark := by
    rcases hm with rfl | rfl | rfl
    · exact opens_opening
    · exact opens_closing
    · exact opens_semicolon
  have hmark := prints_single (t := ofText .punctuation mark) rfl hm
  refine (h.seq_opens hb hmark (hb.opens hopens)).imp ?_
  rintro _ ⟨us, ws, rfl, hus, hws⟩
  refine ⟨?_, by simp [hws.ne_nil]⟩
  have hboth : Both (Carries a) (Carries []) (us ++ ws) :=
    ⟨us, ws, rfl, hus, hws.carries (by simp [ofText])⟩
  exact List.append_nil a ▸ Carries.both hboth

/-- A fragment carries its directives. -/
theorem Token.Copyable.carries {ts : List Token} (h : Copyable ts) (hf : Framed ts) :
    Prints BreaksInLine (Carries (directiveTexts ts)) (verbatim ts) :=
  (h.prints_framed hf).imp fun _ hvs => hvs.1.directiveTexts_eq

theorem Token.Copyable.head {t : Token} {ts : List Token} (h : Copyable (t :: ts)) :
    Copyable [t] :=
  left (show Copyable ([t] ++ ts) from h)

theorem Token.Copyable.tail {t : Token} {ts : List Token} (h : Copyable (t :: ts)) : Copyable ts :=
  right (show Copyable ([t] ++ ts) from h)

/-- A scan for a closing bracket stops at one. -/
theorem isClosing_of_stop {depth : Nat} {text : String} (h : closingStep depth text = .stop) :
    isClosing text = true := by
  unfold closingStep at h
  split at h
  next => cases h
  split at h
  next hc => exact hc
  next => cases h

/-- A closing bracket is no directive. -/
theorem Token.Copyable.closing {inside : List Token} {closing : Token} (h : Copyable [closing])
    (hs : Stops closingStep 0 (texts inside) closing.text) : closing.kind ≠ .directive := by
  obtain ⟨depth, hstep⟩ := hs.last
  have hc := isClosing_of_stop hstep
  simp only [isClosing, Bool.or_eq_true, beq_iff_eq, or_assoc] at hc
  refine h.undirected ?_
  rcases hc with hc | hc | hc <;> rw [hc] <;> decide

/-! ### Expressions -/

/-- A single token is kept as its text. -/
theorem kept_ofToken (t : Token) : (Expr.ofToken t).kept = [t.text] := by
  unfold Expr.ofToken
  split
  next => rw [Expr.kept]
  next => split <;> simp [Expr.int, Expr.kept]
  next => simp [Expr.int, Expr.kept]
  next => rw [Expr.kept]

/-- The first argument is kept with the others. -/
theorem keptAll_argumentsOf_cons {ts before after : List Token} {comma : Token}
    (hs : splitOutside (· == ",") 0 ts = some (before, comma, after)) :
    Expr.keptAll (Expr.argumentsOf ts)
      = (Expr.ofTokens before).kept ++ Expr.keptAll (Expr.argumentsOf after) := by
  rw [argumentsOf_cons hs, Expr.keptAll]

/-- No assignment operator begins a directive. -/
theorem assignmentOp_head {text : String} (h : assignmentOps.contains text = true) :
    text.toList.head? ≠ some '#' := by
  have hall : ∀ op ∈ assignmentOps, op.toList.head? ≠ some '#' := by decide
  exact hall text (by simpa using h)

mutual

/-- The printed text of an expression carries its directives. -/
theorem Expr.carries (ts : List Token) (h : Copyable ts)
    (hf : Framing ts (Expr.ofTokens ts).kept) :
    Prints BreaksInLine (Carries (directiveTexts ts)) (Expr.ofTokens ts).render := by
  have hbranch := exprBranch ts
  generalize hexpr : Expr.ofTokens ts = e at hf hbranch ⊢
  cases hbranch with
  | @assign before after op hs hne =>
    have hshort := splitOutside_length hs
    obtain ⟨hop, rfl⟩ := splitOutside_eq hs
    have hk : op.kind ≠ .directive := h.right.head.undirected (assignmentOp_head hop)
    -- the operator stands between blanks, so it is one lexeme whatever is on either side
    have hbefore := Expr.carries before h.left
      (hf.mono (List.prefix_append ..).isInfix (by simp [Expr.kept]))
    have hafter := Expr.carries after h.right.tail
      (hf.mono ((List.suffix_cons ..).trans (List.suffix_append ..)).isInfix
        (by simp [Expr.kept]))
    have hword := (h.right.head.prints_word hk).imp fun _ hvs => hvs.carries hk
    have hall := ((hbefore.seq_opens blank_one hword (opens_blank.append _)).imp
      fun _ hvs => Carries.both hvs).seq_opens blank_one hafter (opens_blank.append _)
    refine ((hall.imp fun _ hvs => Carries.both hvs).of_eq ?_).imp fun vs hvs => ?_
    · simp [Expr.render, String.append_assoc]
    · simpa [Carries, directiveTexts_cons hk] using hvs
  | @call callee inside hc =>
    have hshort := callArguments?_length hc
    obtain ⟨name, opening, closing, rfl, hk, rfl, ho, hs⟩ := callArguments?_eq_some.1 hc
    have hk : name.kind ≠ .directive := by simp [hk]
    have hopening : opening.kind ≠ .directive :=
      h.left.tail.head.undirected (by rw [ho]; decide)
    have hclosing : closing.kind ≠ .directive := h.right.closing hs
    have hargs := Expr.arguments_carries inside h.left.tail.tail
      (hf.mono ⟨[name, opening], [closing], by simp⟩ (by simp [Expr.kept]))
    have hname := ((h.left.head.prints_word hk).imp fun _ hvs => hvs.carries hk).mark (.inl rfl)
      blank_empty
    have hall := ((hname.imp fun _ hvs => hvs.1).seq blank_empty hargs fun _ _ => trivial).imp
      fun _ hvs => Carries.both hvs
    refine ((((hall.mark (.inr (.inl rfl)) blank_empty).mono fun _ _ => trivial).imp
      fun _ hvs => hvs.1).of_eq ?_).imp fun vs hvs => ?_
    · simp [Expr.render, String.append_assoc]
    · simpa [Carries, directiveTexts_cons hk, directiveTexts_cons hopening,
        directiveTexts_cons hclosing] using hvs
  | @token t ht =>
    subst ht
    rw [render_ofToken]
    have htext : verbatim [t] = t.text := by simp [verbatim, spaced]
    refine htext ▸ h.carries (hf.framed ?_)
    rw [kept_ofToken, htext]
    exact List.mem_singleton_self _
  | raw => exact h.carries (hf.framed (by simp [Expr.kept]))
termination_by 3 * ts.length

/-- The arguments of a call carry their directives. -/
theorem Expr.arguments_carries (ts : List Token) (h : Copyable ts)
    (hf : Framing ts (Expr.keptAll (Expr.arguments ts))) :
    Prints BreaksInLine (Carries (directiveTexts ts))
      (Expr.renderArguments (Expr.arguments ts)) := by
  by_cases hne : ts = []
  · subst hne
    have hnil : Expr.arguments [] = [] := by rw [Expr.arguments]
    rw [hnil, Expr.renderArguments]
    exact h.carries (framed_of_undirected (by simp))
  · rw [arguments_eq hne] at hf ⊢
    exact Expr.argumentsOf_carries ts h hf
termination_by 3 * ts.length + 2

/-- Expressions between commas carry their directives. -/
theorem Expr.argumentsOf_carries (ts : List Token) (h : Copyable ts)
    (hf : Framing ts (Expr.keptAll (Expr.argumentsOf ts))) :
    Prints BreaksInLine (Carries (directiveTexts ts))
      (Expr.renderArguments (Expr.argumentsOf ts)) := by
  cases hs : splitOutside (· == ",") 0 ts with
  | none =>
    rw [argumentsOf_last hs] at hf ⊢
    rw [Expr.renderArguments]
    exact Expr.carries ts h (hf.mono (List.infix_refl ts) (by simp [Expr.keptAll]))
  | some cut =>
    obtain ⟨before, comma, after⟩ := cut
    have hshort := splitOutside_length hs
    rw [keptAll_argumentsOf_cons hs] at hf
    rw [argumentsOf_cons hs, renderArguments_cons]
    obtain ⟨hcomma, rfl⟩ := splitOutside_eq hs
    have hcomma : comma.text = "," := by simpa using hcomma
    have hk : comma.kind ≠ .directive := h.right.head.undirected (by rw [hcomma]; decide)
    have hbefore := Expr.carries before h.left
      (hf.mono (List.prefix_append ..).isInfix (by simp))
    have hafter := Expr.argumentsOf_carries after h.right.tail
      (hf.mono ((List.suffix_cons ..).trans (List.suffix_append ..)).isInfix (by simp))
    have hone := (h.right.head.prints_word hk).imp fun _ hvs => hvs.carries hk
    rw [hcomma] at hone
    -- a comma ends the lexeme before it, so no blank is needed there
    have hall := ((hbefore.seq_opens blank_empty hone opens_comma).imp
      fun _ hvs => Carries.both hvs).seq_opens blank_one hafter (opens_blank.append _)
    refine ((hall.imp fun _ hvs => Carries.both hvs).of_eq ?_).imp fun vs hvs => ?_
    · have hblank : ", " = "," ++ " " := rfl
      rw [hblank, String.empty_append]
      simp only [String.append_assoc]
    · simpa [Carries, directiveTexts_cons hk] using hvs
termination_by 3 * ts.length + 1

end

/-! ### Statements without statements inside -/

/-- The printed text of a declaration carries its directives. -/
theorem Declaration.carries {ts : List Token} (h : Copyable ts)
    (hf : Framing ts (Declaration.ofTokens ts).kept) :
    Prints BreaksInLine (Carries (directiveTexts ts)) (Declaration.ofTokens ts).render := by
  by_cases hi : ∃ before equals after, splitOutside (· == "=") 0 ts = some (before, equals, after) ∧
      splitOutside (· == ",") 0 after = none
  · obtain ⟨before, equals, after, hs, hc⟩ := hi
    rw [ofTokens_initialized hs hc] at hf ⊢
    obtain ⟨hequals, rfl⟩ := splitOutside_eq hs
    -- the name, the equals sign and the value, each with the directives of its own tokens
    have hequals : equals.text = "=" := by simpa using hequals
    have hk : equals.kind ≠ .directive := h.right.head.undirected (by rw [hequals]; decide)
    have hbefore := h.left.carries ((hf.mono (List.prefix_append ..).isInfix
      (List.Subset.refl _)).framed (by simp [Declaration.kept]))
    have hafter := Expr.carries after h.right.tail
      (hf.mono ((List.suffix_cons ..).trans (List.suffix_append ..)).isInfix
        (by simp [Declaration.kept]))
    have hone := (h.right.head.prints_word hk).imp fun _ hvs => hvs.carries hk
    rw [hequals] at hone
    have hall := ((hbefore.seq_opens blank_one hone (opens_blank.append _)).imp
      fun _ hvs => Carries.both hvs).seq_opens blank_one hafter (opens_blank.append _)
    refine ((hall.imp fun _ hvs => Carries.both hvs).of_eq ?_).imp fun vs hvs => ?_
    · have hblanks : " = " = " " ++ "=" ++ " " := rfl
      rw [Declaration.render, hblanks]
      simp only [String.append_assoc]
    · simpa [Carries, directiveTexts_cons hk] using hvs
  · -- in all other forms the tokens are copied as they are
    have hverbatim : Declaration.ofTokens ts = ⟨verbatim ts, none, none⟩ := by
      refine ofTokens_verbatim fun before equals after hs => ?_
      exact Option.isSome_iff_exists.1
        (Option.isSome_iff_ne_none.2 fun hc => hi ⟨before, equals, after, hs, hc⟩)
    rw [hverbatim] at hf ⊢
    exact h.carries (hf.framed (by simp [Declaration.kept]))

/-- A text that carries some directives and is not empty makes up a line. -/
theorem Prints.line {a : List String} {text : String}
    (h : Prints (fun _ => True) (fun vs => Carries a vs ∧ vs ≠ []) text) (depth : Nat) :
    PrintsLines (Carries a) (Line.render ⟨depth, text⟩) :=
  (PrintsLines.line (h.mono fun _ _ => trivial) (fun _ hvs => hvs.2) depth).imp fun _ hvs => hvs.1

/-- The line of a statement that no word marks carries its directives. -/
theorem Leaf.carries {types : List String} {ts : List Token} (h : Copyable ts)
    (hf : Framing ts (Leaf.ofTokens types ts).kept) (depth : Nat) :
    PrintsLines (Carries (directiveTexts ts)) ((Leaf.ofTokens types ts).render depth).render := by
  by_cases hd : isDeclaration types ts = true
  · rw [Leaf.ofTokens, if_pos hd] at hf ⊢
    exact (((Declaration.carries h hf).mark (.inr (.inr rfl)) blank_empty).line depth).of_eq
      (by simp [Leaf.render])
  · rw [Leaf.ofTokens, if_neg hd] at hf ⊢
    exact (((Expr.carries ts h hf).mark (.inr (.inr rfl)) blank_empty).line depth).of_eq
      (by simp [Leaf.render])

end WitnessReplay
