import WitnessReplay.Program.Printer
import WitnessReplay.Proofs.Program.Layout

/-!
# Printing expressions

The result is `Expr.prints`: an expression is read back from its printed text with the tokens that
it was read from, and the same expression is read from them.
-/

namespace WitnessReplay

open Token

/-! ### How expressions are told apart -/

/-- No assignment operator that something stands before is outside all brackets. -/
def Unassigned (ts : List Token) : Prop :=
  ∀ {before op after}, splitOutside assignmentOps.contains 0 ts = some (before, op, after) →
    before = []

/-- Tokens with an assignment operator outside of brackets are an assignment. -/
theorem ofTokens_assign {ts before after : List Token} {op : Token}
    (hs : splitOutside assignmentOps.contains 0 ts = some (before, op, after)) (hne : before ≠ []) :
    Expr.ofTokens ts = .assign (.ofTokens before) op.text (.ofTokens after) := by
  obtain ⟨b, before, rfl⟩ := List.exists_cons_of_ne_nil hne
  obtain ⟨-, hts⟩ := splitOutside_eq hs
  match ts with
  | [] => cases hts
  | [t] => simp at hts
  | t :: u :: more =>
    rw [Expr.ofTokens]
    split
    next hs' => rw [hs] at hs'; cases hs'; rfl
    next hs' => exact absurd hs (hs' _ _ _ _)

section

variable {ts : List Token} (hl : 2 ≤ ts.length) (ha : Unassigned ts)

include hl ha

/-- Tokens with a comma outside of brackets are kept as they stand. -/
theorem ofTokens_comma {before after : List Token} {comma : Token}
    (hc : splitOutside (· == ",") 0 ts = some (before, comma, after)) :
    Expr.ofTokens ts = .raw (verbatim ts) := by
  match ts with
  | [] => simp at hl
  | [t] => simp at hl
  | t :: u :: more =>
    rw [Expr.ofTokens]
    split
    next hs => cases ha hs
    next => rw [hc]

/-- A word with parentheses to the end is a call. -/
theorem ofTokens_call {inside : List Token} {callee : String}
    (hc : splitOutside (· == ",") 0 ts = none) (hcall : callArguments? ts = some (callee, inside)) :
    Expr.ofTokens ts = .call callee (Expr.arguments inside) := by
  match ts with
  | [] => simp at hl
  | [t] => simp at hl
  | t :: u :: more =>
    rw [Expr.ofTokens]
    split
    next hs => cases ha hs
    next =>
      rw [hc]
      dsimp only
      split
      next hs => rw [hcall] at hs; cases hs; rfl
      next hs => rw [hcall] at hs; cases hs

/-- All else is kept as it stands. -/
theorem ofTokens_raw (hc : splitOutside (· == ",") 0 ts = none) (hcall : callArguments? ts = none) :
    Expr.ofTokens ts = .raw (verbatim ts) := by
  match ts with
  | [] => simp at hl
  | [t] => simp at hl
  | t :: u :: more =>
    rw [Expr.ofTokens]
    split
    next hs => cases ha hs
    next =>
      rw [hc]
      dsimp only
      split
      next hs => rw [hcall] at hs; cases hs
      next => rfl

end

/-- How an expression comes about: it is an assignment, a call, a single token, or all of its
text. -/
inductive ExprBranch (ts : List Token) : Expr → Prop
  | assign {before after : List Token} {op : Token}
      (hs : splitOutside assignmentOps.contains 0 ts = some (before, op, after))
      (hne : before ≠ []) :
      ExprBranch ts (.assign (.ofTokens before) op.text (.ofTokens after))
  | call {callee : String} {inside : List Token}
      (hc : callArguments? ts = some (callee, inside)) :
      ExprBranch ts (.call callee (Expr.arguments inside))
  | token {t : Token} (ht : ts = [t]) : ExprBranch ts (.ofToken t)
  | raw : ExprBranch ts (.raw (verbatim ts))

theorem exprBranch (ts : List Token) : ExprBranch ts (.ofTokens ts) := by
  rcases ts with - | ⟨t, - | ⟨u, more⟩⟩
  · rw [Expr.ofTokens]
    show ExprBranch [] (.raw (verbatim []))
    exact .raw
  · rw [Expr.ofTokens]
    exact .token rfl
  · have hl : 2 ≤ (t :: u :: more).length := by simp
    -- the order of `Expr.ofTokens`: a token, an assignment, a comma, a call
    by_cases hu : Unassigned (t :: u :: more)
    · cases hc : splitOutside (· == ",") 0 (t :: u :: more) with
      | some cut =>
        rw [ofTokens_comma hl hu hc]
        exact .raw
      | none =>
        cases hcall : callArguments? (t :: u :: more) with
        | some call =>
          rw [ofTokens_call hl hu hc hcall]
          exact .call hcall
        | none =>
          rw [ofTokens_raw hl hu hc hcall]
          exact .raw
    · obtain ⟨before, op, after, hs, hne⟩ : ∃ before op after,
          splitOutside assignmentOps.contains 0 (t :: u :: more) = some (before, op, after) ∧
            before ≠ [] := by
        simpa [Unassigned] using hu
      rw [ofTokens_assign hs hne]
      exact .assign hs hne

/-- Whether tokens are an assignment is seen from their spelling. -/
theorem Unassigned.alike {ts us : List Token} (h : Unassigned ts) (ha : Alike us ts) :
    Unassigned us := by
  intro before op after hs
  obtain ⟨before', op', after', hs', hbefore, -⟩ := ha.splitOutside hs
  rw [h hs'] at hbefore
  exact hbefore.eq_nil

theorem callArguments?_alike {ts us : List Token} (h : callArguments? ts = none)
    (ha : Alike us ts) :
    callArguments? us = none := by
  cases hu : callArguments? us with
  | none => rfl
  | some cut =>
    obtain ⟨callee, inside⟩ := cut
    obtain ⟨name, opening, closing, rfl, hk, -, ho, hs⟩ := callArguments?_eq_some.1 hu
    obtain ⟨name', rest, rfl, hk', -, hrest⟩ := ha.symm.exists_cons
    obtain ⟨opening', rest, rfl, -, ho', hrest⟩ := hrest.exists_cons
    obtain ⟨inside', last, rfl, hinside, hlast⟩ := hrest.symm.of_append
    obtain ⟨closing', rfl, -, hc'⟩ := hlast.symm.exists_singleton
    have hcall : callArguments? (name' :: opening' :: (inside' ++ [closing']))
        = some (name'.text, inside') :=
      callArguments?_eq_some.2 ⟨name', opening', closing', rfl, hk'.trans hk, rfl, ho'.trans ho,
        by rw [← hinside.texts_eq, hc']; exact hs⟩
    rw [hcall] at h
    cases h

/-- A single token is read by its spelling. -/
theorem ofToken_alike {t u : Token} (hk : t.kind = u.kind) (ht : t.text = u.text) :
    Expr.ofToken t = Expr.ofToken u := by
  rw [Expr.ofToken, Expr.ofToken, hk, ht]

theorem render_ofToken (t : Token) : (Expr.ofToken t).render = t.text := by
  unfold Expr.ofToken
  split
  next => rw [Expr.render]
  next => split <;> simp [Expr.int, Expr.render]
  next => simp [Expr.int, Expr.render]
  next => rw [Expr.render]

/-- Arguments are cut at the first comma outside of brackets. -/
theorem argumentsOf_cons {ts before after : List Token} {comma : Token}
    (hs : splitOutside (· == ",") 0 ts = some (before, comma, after)) :
    Expr.argumentsOf ts = .ofTokens before :: Expr.argumentsOf after := by
  rw [Expr.argumentsOf]
  split
  next hs' => rw [hs] at hs'; cases hs'; rfl
  next hs' => rw [hs] at hs'; cases hs'

/-- Without one there is one argument. -/
theorem argumentsOf_last {ts : List Token} (hs : splitOutside (· == ",") 0 ts = none) :
    Expr.argumentsOf ts = [.ofTokens ts] := by
  rw [Expr.argumentsOf]
  split
  next hs' => rw [hs] at hs'; cases hs'
  next => rfl

/-- Arguments are printed with a comma between them. -/
theorem renderArguments_cons (e : Expr) (ts : List Token) :
    Expr.renderArguments (e :: Expr.argumentsOf ts)
      = e.render ++ ", " ++ Expr.renderArguments (Expr.argumentsOf ts) := by
  cases hs : splitOutside (· == ",") 0 ts with
  | none => simp [argumentsOf_last hs, Expr.renderArguments]
  | some cut =>
    obtain ⟨before, comma, after⟩ := cut
    simp [argumentsOf_cons hs, Expr.renderArguments]

theorem arguments_eq {ts : List Token} (h : ts ≠ []) : Expr.arguments ts = Expr.argumentsOf ts := by
  obtain ⟨t, ts, rfl⟩ := List.exists_cons_of_ne_nil h
  rw [Expr.arguments]

/-! ### Printing -/

/-- Tokens that are spelled like others and make up the same expression. -/
def SameExpr (ts vs : List Token) : Prop :=
  Alike vs ts ∧ Expr.ofTokens vs = Expr.ofTokens ts

/-- Tokens that are spelled like others and make up the same arguments. -/
def SameArguments (ts vs : List Token) : Prop :=
  Alike vs ts ∧ Expr.arguments vs = Expr.arguments ts

/-- Tokens that are spelled like others and make up the same expressions between commas. -/
def SameArgumentsOf (ts vs : List Token) : Prop :=
  Alike vs ts ∧ Expr.argumentsOf vs = Expr.argumentsOf ts

/-- An assignment is the same if its sides are. -/
theorem SameExpr.assign {before after vs : List Token} {op : Token} (hne : before ≠ [])
    (hs : Stops (outsideStep assignmentOps.contains) 0 (texts before) op.text)
    (hvs : Both (Both (SameExpr before) (Is op)) (SameExpr after) vs) :
    SameExpr (before ++ op :: after) vs := by
  obtain ⟨_, after', rfl, ⟨before', _, rfl, ⟨ha, he⟩, op', rfl, hk, ht⟩, ha', he'⟩ := hvs
  rw [List.append_assoc]
  refine ⟨ha.append (.cons hk ht ha'), ?_⟩
  have hold := splitOutside_eq_some.2 (⟨rfl, hs⟩ : before ++ op :: after = _ ∧ _)
  have hs' : Stops (outsideStep assignmentOps.contains) 0 (texts before') op'.text := by
    rw [ha.texts_eq, ht]
    exact hs
  have hnew := splitOutside_eq_some.2 (⟨rfl, hs'⟩ : before' ++ op' :: after' = _ ∧ _)
  rw [List.singleton_append, ofTokens_assign hold hne, ofTokens_assign hnew (ha.ne_nil hne),
    he, he',
    ht]

/-- Arguments are the same if the first and the rest are. -/
theorem SameArgumentsOf.cons {before after vs : List Token} {comma : Token}
    (hs : Stops (outsideStep (· == ",")) 0 (texts before) comma.text)
    (hvs : Both (Both (SameExpr before) (Is comma)) (SameArgumentsOf after) vs) :
    SameArgumentsOf (before ++ comma :: after) vs := by
  obtain ⟨_, after', rfl, ⟨before', _, rfl, ⟨ha, he⟩, comma', rfl, hk, ht⟩, ha', he'⟩ := hvs
  rw [List.append_assoc]
  refine ⟨ha.append (.cons hk ht ha'), ?_⟩
  have hold := splitOutside_eq_some.2 (⟨rfl, hs⟩ : before ++ comma :: after = _ ∧ _)
  have hs' : Stops (outsideStep (· == ",")) 0 (texts before') comma'.text := by
    rw [ha.texts_eq, ht]
    exact hs
  have hnew := splitOutside_eq_some.2 (⟨rfl, hs'⟩ : before' ++ comma' :: after' = _ ∧ _)
  rw [List.singleton_append, argumentsOf_cons hold, argumentsOf_cons hnew, he, he']

/-- What is kept as it stands is the same if it is spelled and written alike. -/
theorem sameExpr_of_raw {ts vs : List Token} (hl : 2 ≤ ts.length) (hu : Unassigned ts)
    (hraw : ∀ us, Alike us ts → 2 ≤ us.length → Unassigned us →
      Expr.ofTokens us = .raw (verbatim us))
    (ha : Alike vs ts) (hv : verbatim vs = verbatim ts) : SameExpr ts vs := by
  refine ⟨ha, ?_⟩
  rw [hraw vs ha (by rwa [ha.length_eq]) (hu.alike ha), hraw ts (.refl _) hl hu, hv]

/-- A call is the same if its arguments are. -/
theorem SameExpr.call {name opening closing : Token} {inside vs : List Token}
    (hu : Unassigned (name :: opening :: inside ++ [closing]))
    (hc : splitOutside (· == ",") 0 (name :: opening :: inside ++ [closing]) = none)
    (hk : name.kind = .word) (ho : opening.text = "(")
    (hs : Stops closingStep 0 (texts inside) closing.text)
    (hvs : Both (Both (Both (Is name) (Is opening)) (SameArguments inside)) (Is closing) vs) :
    SameExpr (name :: opening :: inside ++ [closing]) vs := by
  obtain ⟨_, _, rfl, ⟨_, inside', rfl, ⟨_, _, rfl, ⟨name', rfl, hk', ht'⟩, opening', rfl, hko, hto⟩,
    ha, hargs⟩, closing', rfl, hkc, htc⟩ := hvs
  have halike : Alike (name' :: opening' :: inside' ++ [closing'])
      (name :: opening :: inside ++ [closing]) :=
    .append (.cons hk' ht' (.cons hko hto ha)) (.cons hkc htc (.refl _))
  refine ⟨halike, ?_⟩
  show Expr.ofTokens (name' :: opening' :: inside' ++ [closing']) = _
  have hs' : Stops closingStep 0 (texts inside') closing'.text := by
    rw [ha.texts_eq, htc]
    exact hs
  rw [ofTokens_call (by simp) (hu.alike halike) (splitOutside_eq_none halike.texts_eq hc)
      (callArguments?_eq_some.2 ⟨name', opening', closing', rfl, hk'.trans hk, rfl,
        hto.trans ho, hs'⟩),
    ofTokens_call (by simp) hu hc
      (callArguments?_eq_some.2 ⟨name, opening, closing, rfl, hk, rfl, ho, hs⟩), ht', hargs]

/-- An expression of at most one token is its text. -/
theorem Expr.prints_of_short {ts : List Token} (hl : ¬ 2 ≤ ts.length) (h : Inline ts) :
    Prints BreaksInLine (SameExpr ts) (Expr.ofTokens ts).render := by
  rcases ts with - | ⟨t, - | ⟨u, more⟩⟩
  · have hnil : Expr.ofTokens [] = .raw "" := by rw [Expr.ofTokens]
    rw [hnil, Expr.render]
    exact h.prints.imp fun vs hvs => ⟨hvs.1, by rw [hvs.1.eq_nil]⟩
  · have hone (t : Token) : Expr.ofTokens [t] = Expr.ofToken t := by rw [Expr.ofTokens]
    rw [hone, render_ofToken]
    refine (h.prints.imp fun vs hvs => ⟨hvs.1, ?_⟩).of_eq (by simp [verbatim, spaced])
    obtain ⟨v, rfl, hk, ht⟩ := hvs.1.exists_singleton
    rw [hone, hone, ofToken_alike hk ht]
  · simp at hl

mutual

/-- **An expression is read back from its printed text**, token by token. -/
theorem Expr.prints (ts : List Token) (h : Inline ts) :
    Prints BreaksInLine (SameExpr ts) (Expr.ofTokens ts).render := by
  -- the cases of `Expr.ofTokens`, each read back by the same case
  by_cases hl : 2 ≤ ts.length
  · by_cases hu : Unassigned ts
    · cases hc : splitOutside (· == ",") 0 ts with
      | some cut =>
        obtain ⟨before, comma, after⟩ := cut
        rw [ofTokens_comma hl hu hc, Expr.render]
        refine h.prints.imp fun vs ⟨ha, hv⟩ =>
          sameExpr_of_raw hl hu (fun us hus hlus huus => ?_) ha hv
        obtain ⟨_, _, _, hcus, -⟩ := hus.symm.splitOutside hc
        exact ofTokens_comma hlus huus hcus
      | none =>
        cases hcall : callArguments? ts with
        | none =>
          rw [ofTokens_raw hl hu hc hcall, Expr.render]
          exact h.prints.imp fun vs ⟨ha, hv⟩ => sameExpr_of_raw hl hu (fun us hus hlus huus =>
            ofTokens_raw hlus huus (splitOutside_eq_none hus.texts_eq hc)
              (callArguments?_alike hcall hus)) ha hv
        | some cut =>
          obtain ⟨callee, inside⟩ := cut
          rw [ofTokens_call hl hu hc hcall, Expr.render]
          have hshort := callArguments?_length hcall
          obtain ⟨name, opening, closing, rfl, hk, rfl, ho, hs⟩ := callArguments?_eq_some.1 hcall
          have hclosing : closing.text = ")" := closing_text h.nested.tail ho hs
          have hname : Inline [name] := h.left.head
          have hopening : Inline [opening] := h.left.tail.head
          have hinside : Inline inside := h.left.tail.tail
          have hargs := Expr.arguments_prints inside hinside
          have hclosed := h.last.prints_one (by rw [hclosing]; decide)
          rw [hclosing] at hclosed
          have hcall' := ((hname.prints_word.seq_opens blank_empty (hopening.prints_opening ho)
            opens_opening).seq blank_empty hargs fun _ _ => trivial).seq_opens blank_empty hclosed
            opens_closing
          exact ((hcall'.mono fun z hz => hz.1).imp
            fun vs hvs => SameExpr.call hu hc hk ho hs hvs).of_eq
            (by simp [String.append_assoc])
    · obtain ⟨before, op, after, hs, hne⟩ : ∃ before op after,
          splitOutside assignmentOps.contains 0 ts = some (before, op, after) ∧ before ≠ [] := by
        simpa [Unassigned] using hu
      have hshort := splitOutside_length hs
      rw [ofTokens_assign hs hne, Expr.render]
      obtain ⟨rfl, hstops⟩ := splitOutside_eq_some.1 hs
      have hbefore := Expr.prints before h.left
      have hafter := Expr.prints after h.right.tail
      have hop := h.right.head.prints_word
      exact (((hbefore.seq_opens blank_one hop (opens_blank.append _)).seq_opens blank_one hafter
        (opens_blank.append _)).imp fun vs hvs => SameExpr.assign hne hstops hvs).of_eq
        (by simp [String.append_assoc])
  · exact Expr.prints_of_short hl h
termination_by 3 * ts.length

/-- The arguments of a call are read back from their printed text. -/
theorem Expr.arguments_prints (ts : List Token) (h : Inline ts) :
    Prints BreaksInLine (SameArguments ts) (Expr.renderArguments (Expr.arguments ts)) := by
  by_cases hne : ts = []
  · subst hne
    have hnil : Expr.arguments [] = [] := by rw [Expr.arguments]
    rw [hnil, Expr.renderArguments]
    exact h.prints.imp fun vs ⟨ha, _⟩ => ⟨ha, by rw [ha.eq_nil]⟩
  · rw [arguments_eq hne]
    refine (Expr.argumentsOf_prints ts h).imp fun vs ⟨ha, hargs⟩ => ⟨ha, ?_⟩
    rw [arguments_eq hne, arguments_eq (ha.ne_nil hne), hargs]
termination_by 3 * ts.length + 2

/-- Expressions between commas are read back from their printed text. -/
theorem Expr.argumentsOf_prints (ts : List Token) (h : Inline ts) :
    Prints BreaksInLine (SameArgumentsOf ts) (Expr.renderArguments (Expr.argumentsOf ts)) := by
  cases hs : splitOutside (· == ",") 0 ts with
  | none =>
    rw [argumentsOf_last hs, Expr.renderArguments]
    refine (Expr.prints ts h).imp fun vs ⟨ha, he⟩ => ⟨ha, ?_⟩
    rw [argumentsOf_last hs, argumentsOf_last (splitOutside_eq_none ha.texts_eq hs), he]
  | some cut =>
    obtain ⟨before, comma, after⟩ := cut
    have hshort := splitOutside_length hs
    obtain ⟨rfl, hstops⟩ := splitOutside_eq_some.1 hs
    have hcomma : comma.text = "," := by simpa using (splitOutside_eq hs).1
    have hbefore := Expr.prints before h.left
    have hafter := Expr.argumentsOf_prints after h.right.tail
    have hone := h.right.head.prints_one (by rw [hcomma]; decide)
    rw [hcomma] at hone
    rw [argumentsOf_cons hs, renderArguments_cons]
    have hall := (hbefore.seq_opens blank_empty hone opens_comma).seq blank_one hafter
      fun htrail => fun z => ((htrail.opens (opens_blank.append _)).leads z).1
    refine (hall.imp fun vs hvs => SameArgumentsOf.cons hstops hvs).of_eq ?_
    have hblank : ", " = "," ++ " " := rfl
    rw [hblank, String.empty_append]
    simp only [String.append_assoc]
termination_by 3 * ts.length + 1

end

end WitnessReplay
