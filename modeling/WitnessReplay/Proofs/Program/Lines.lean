import WitnessReplay.Proofs.Program.Expression
import WitnessReplay.Proofs.Program.Grammar

/-!
# Printing lines

Every line of a printed program ends with a token that is neither a directive nor a backslash, or it
is a directive; so the next line begins a line for the tokenizer as well. `PrintsLines` says that
tokens are read back from whole lines, and lines are put together by `PrintsLines.seq`.

The lines of the statements that hold no other, and the heads above the others, are read back with
the tokens that they were read from (`Leaf.Spelled.prints`, `Head.Spelled.prints`).
-/

namespace WitnessReplay

open Token

/-- The text of some lines. -/
def textOf (lines : List Line) : String :=
  String.join (lines.map Line.render)

@[simp] theorem textOf_nil : textOf [] = "" := rfl

@[simp] theorem textOf_cons (l : Line) (lines : List Line) :
    textOf (l :: lines) = l.render ++ textOf lines := by
  simp [textOf]

@[simp] theorem textOf_append (lines more : List Line) :
    textOf (lines ++ more) = textOf lines ++ textOf more := by
  simp [textOf]

/-- A gap is left behind some lines, and the next line begins behind it. -/
structure Lined (vs : List Token) (g trail : String) : Prop where
  of_nil : vs = [] → trail = g
  of_ne_nil : vs ≠ [] → ∃ b, Blank b ∧ trail = b ++ "\n"

/-- Whole lines are printed: behind any gap at any place, if a line begins there, tokens of which
`Q` holds are read back from the text. -/
def PrintsLines (Q : List Token → Prop) (text : String) : Prop :=
  ∀ (place : Cursor) (g : String), Gap g.toList → (place.skip g.toList).fresh = true →
    ∃ vs trail, Q vs ∧ Laid Breaks place vs (g ++ text) trail ∧ Lined vs g trail

/-- A line end behind blanks is a gap. -/
theorem Blank.gap_newline {b : String} (h : Blank b) : Gap (b ++ "\n").toList := by
  rw [String.toList_append]
  exact h.gap.append (.blank rfl .nil)

/-- It breaks what stands before it. -/
theorem Blank.leads_newline {b : String} (h : Blank b) (text : String) :
    Leads Breaks (b ++ "\n" ++ text) := by
  intro z
  have hlead : (b ++ "\n" ++ text).toList ++ z = b.toList ++ ('\n' :: (text.toList ++ z)) := by simp
  rw [hlead]
  cases hb : b.toList with
  | nil => exact ⟨'\n', _, rfl, rfl⟩
  | cons c cs =>
    obtain rfl := h c (by rw [hb]; simp)
    exact ⟨' ', _, rfl, rfl⟩

theorem fresh_of_newline (place : Cursor) (b : String) :
    (place.skip (b ++ "\n").toList).fresh = true := by
  simp [Cursor.skip]

namespace PrintsLines

variable {Q Q' : List Token → Prop} {text text' : String}

theorem of_eq (h : PrintsLines Q text) (ht : text = text') : PrintsLines Q text' := ht ▸ h

/-- Lines that print tokens with a property print tokens with any property that follows from it. -/
theorem imp (h : PrintsLines Q text) (hQ : ∀ vs, Q vs → Q' vs) : PrintsLines Q' text := by
  intro place g hg hfresh
  obtain ⟨vs, trail, hq, hl, hn⟩ := h place g hg hfresh
  exact ⟨vs, trail, hQ vs hq, hl, hn⟩

theorem nil (hQ : Q []) : PrintsLines Q "" := by
  intro place g _ _
  exact ⟨[], g, hQ, Laid.nil.of_eq (by simp), fun _ => rfl, fun h => absurd rfl h⟩

/-- Lines with other lines below. -/
theorem seq (h : PrintsLines Q text) (h' : PrintsLines Q' text') :
    PrintsLines (Both Q Q') (text ++ text') := by
  intro place g hg hfresh
  obtain ⟨vs, trail, hq, hl, hn⟩ := h place g hg hfresh
  by_cases hvs : vs = []
  · subst hvs
    obtain rfl := hn.of_nil rfl
    obtain ⟨us, trail', hq', hl', hn'⟩ := h' place trail hg hfresh
    refine ⟨us, trail', ⟨[], us, rfl, hq, hq'⟩, hl'.of_eq ?_, hn'⟩
    have htext := hl.text_eq
    simp only [spaced, String.empty_append] at htext
    rw [← String.append_assoc, htext]
  · obtain ⟨b, hb, rfl⟩ := hn.of_ne_nil hvs
    obtain ⟨us, trail', hq', hl', hn'⟩ :=
      h' (place.behind vs) _ hb.gap_newline (fresh_of_newline _ b)
    refine ⟨vs ++ us, trail', ⟨vs, us, rfl, hq, hq'⟩, ?_, fun hnil => ?_, fun _ => ?_⟩
    · rw [← String.append_assoc]
      exact hl.append hl' fun _ => hb.leads_newline text'
    · exact absurd (List.append_eq_nil_iff.1 hnil).1 hvs
    · by_cases hus : us = []
      · exact ⟨b, hb, hn'.of_nil hus⟩
      · exact hn'.of_ne_nil hus

/-- A text that ends in a token before any breaker makes up a line, at any depth. -/
theorem line (h : Prints Breaks Q text) (hne : ∀ vs, Q vs → vs ≠ []) (depth : Nat) :
    PrintsLines Q (Line.render ⟨depth, text⟩) := by
  intro place g hg _
  have hindent : Blank (String.ofList (List.replicate (4 * depth) ' ')) := by
    intro c hc
    rw [String.toList_ofList] at hc
    exact List.eq_of_mem_replicate hc
  obtain ⟨vs, trail, hq, hl, hs⟩ := h place (g ++ String.ofList (List.replicate (4 * depth) ' '))
    (by rw [String.toList_append]; exact hg.append hindent.gap)
  refine ⟨vs, trail ++ "\n", hq, ⟨?_, fun z hz => ?_⟩, fun hnil => absurd hnil (hne vs hq),
    fun hvs => ⟨trail, hs.of_ne_nil hvs, rfl⟩⟩
  · rw [Line.render, ← String.append_assoc, ← String.append_assoc, hl.text_eq, String.append_assoc]
  · rw [String.toList_append, List.append_assoc] at hz ⊢
    exact hl.lexed _ hz

/-- A directive makes up a line of its own, at the margin. -/
theorem directive {t : Token} (h : Copyable [t]) (hk : t.kind = .directive) :
    PrintsLines (Is t) (Line.render ⟨0, t.text⟩) := by
  intro place g hg hfresh
  obtain ⟨v, hv, hkind, htext⟩ := (alike_laid place g [t]).exists_singleton
  refine ⟨Token.laid place g [t], "\n", ⟨v, hv, hkind, htext⟩, ⟨?_, fun z _ => ?_⟩,
    fun hnil => absurd hnil (by rw [hv]; simp), fun _ => ⟨"", blank_empty, rfl⟩⟩
  · rw [spaced_laid place g (by simp), Line.render]
    simp [verbatim, spaced, String.append_assoc]
  · obtain ⟨_, _, -, -, -, hstands, -⟩ := h.stood
    refine ⟨hg, rfl, rfl, ?_, trivial⟩
    show Stands _ _ _
    rw [hfresh]
    exact hstands.directive hk (h.ends t (by simp)) z

end PrintsLines

/-! ### Declarations and guards -/

/-- Tokens that are spelled like others and declare the same. -/
def SameDeclaration (ts vs : List Token) : Prop :=
  Alike vs ts ∧ Declaration.ofTokens vs = Declaration.ofTokens ts

/-- A declaration with one declarator and an initializer is taken apart at its equals sign. -/
theorem ofTokens_initialized {ts before after : List Token} {equals : Token}
    (hs : splitOutside (· == "=") 0 ts = some (before, equals, after))
    (hc : splitOutside (· == ",") 0 after = none) :
    Declaration.ofTokens ts
      = ⟨verbatim before, declaredName? before, some (Expr.ofTokens after)⟩ := by
  rw [Declaration.ofTokens, hs]
  dsimp only
  rw [hc]

/-- A declaration without an initializer of its own is its text. -/
theorem ofTokens_verbatim {ts : List Token}
    (h : ∀ before equals after, splitOutside (· == "=") 0 ts = some (before, equals, after) →
      ∃ cut, splitOutside (· == ",") 0 after = some cut) :
    Declaration.ofTokens ts = ⟨verbatim ts, none, none⟩ := by
  rw [Declaration.ofTokens]
  split
  next hs =>
    obtain ⟨cut, hc⟩ := h _ _ _ hs
    rw [hc]
  next => rfl

/-- It is the same if its parts are. -/
theorem SameDeclaration.initialized {before after vs : List Token} {equals : Token}
    (hs : Stops (outsideStep (· == "=")) 0 (texts before) equals.text)
    (hc : splitOutside (· == ",") 0 after = none)
    (hvs : Both (Both (fun vs => Alike vs before ∧ verbatim vs = verbatim before) (Is equals))
      (SameExpr after) vs) : SameDeclaration (before ++ equals :: after) vs := by
  obtain ⟨_, after', rfl, ⟨before', _, rfl, ⟨ha, hv⟩, equals', rfl, hk, ht⟩, ha', he⟩ := hvs
  rw [List.append_assoc]
  refine ⟨ha.append (.cons hk ht ha'), ?_⟩
  have hs' : Stops (outsideStep (· == "=")) 0 (texts before') equals'.text := by
    rw [ha.texts_eq, ht]
    exact hs
  rw [List.singleton_append, ofTokens_initialized (splitOutside_eq_some.2 ⟨rfl, hs⟩) hc,
    ofTokens_initialized (splitOutside_eq_some.2 ⟨rfl, hs'⟩) (splitOutside_eq_none ha'.texts_eq hc),
    hv, declaredName?_alike ha, he]

/-- A declaration is read back from its printed text. -/
theorem Declaration.prints (ts : List Token) (h : Inline ts) :
    Prints BreaksInLine (SameDeclaration ts) (Declaration.ofTokens ts).render := by
  by_cases hi : ∃ before equals after, splitOutside (· == "=") 0 ts = some (before, equals, after) ∧
      splitOutside (· == ",") 0 after = none
  · obtain ⟨before, equals, after, hs, hc⟩ := hi
    rw [ofTokens_initialized hs hc, Declaration.render]
    have hequals : equals.text = "=" := by simpa using (splitOutside_eq hs).1
    obtain ⟨rfl, hstops⟩ := splitOutside_eq_some.1 hs
    have hall := (h.left.prints.seq_opens blank_one h.right.head.prints_word
      (opens_blank.append _)).seq_opens blank_one (Expr.prints after h.right.tail)
      (opens_blank.append _)
    have hblanks : " = " = " " ++ "=" ++ " " := rfl
    refine (hall.imp fun vs hvs => SameDeclaration.initialized hstops hc hvs).of_eq ?_
    rw [hequals, hblanks]
    simp only [String.append_assoc]
  · -- how the tokens are spelled decides the form, so all that are spelled alike are kept verbatim
    have hall : ∀ us, Alike us ts → ∀ before equals after,
        splitOutside (· == "=") 0 us = some (before, equals, after) →
          ∃ cut, splitOutside (· == ",") 0 after = some cut := by
      intro us hus before equals after hs
      refine Option.isSome_iff_exists.1 (Option.isSome_iff_ne_none.2 fun hc => hi ?_)
      obtain ⟨before', equals', after', hs', -, hafter⟩ := hus.splitOutside hs
      exact ⟨before', equals', after', hs', splitOutside_eq_none hafter.symm.texts_eq hc⟩
    rw [ofTokens_verbatim (hall ts (.refl _)), Declaration.render]
    refine h.prints.imp fun vs hvs => ⟨hvs.1, ?_⟩
    rw [ofTokens_verbatim (hall vs hvs.1), ofTokens_verbatim (hall ts (.refl _)), hvs.2]

variable {types : List String}

/-- A word and what is between the parentheses behind it. -/
theorem Guard.prints {word text : String} {Q : List Token → Prop} {inside ts : List Token}
    (hg : Guard word inside ts) (h : Inline ts) (hQ : ∀ vs, Q vs → Alike vs inside)
    (hinside : Prints BreaksInLine Q text) :
    Prints Breaks (fun vs => Alike vs ts ∧ ∃ inside', Q inside' ∧ Guard word inside' vs)
      (word ++ " (" ++ text ++ ")") := by
  cases hg with
  | @intro name opening closing hn ho hc hs =>
    have hclosed := h.last.prints_one (by rw [hc]; decide)
    rw [hc] at hclosed
    have hall := ((h.left.head.prints_word.seq_opens blank_one (h.left.tail.head.prints_opening ho)
      (opens_blank.append _)).seq blank_empty hinside
        fun _ _ => trivial).seq_opens blank_empty hclosed
      opens_closing
    refine (hall.imp ?_).of_eq (by simp [hn, String.append_assoc])
    intro _ h
    obtain ⟨_, _, rfl, ⟨_, inside', rfl, ⟨_, _, rfl, ⟨name', rfl, hk', ht'⟩, opening', rfl, hko,
      hto⟩, hq⟩, closing', rfl, hkc, htc⟩ := h
    have ha := hQ inside' hq
    refine ⟨.append (.cons hk' ht' (.cons hko hto ha)) (.cons hkc htc (.refl _)), inside', hq, ?_⟩
    exact .intro (ht'.trans hn) (hto.trans ho) (htc.trans hc) (by rw [ha.texts_eq]; exact hs)

/-! ### Statements without statements inside -/

/-- Tokens that are spelled like others and make up the same simple statement. -/
def SameLeaf (types : List String) (ts vs : List Token) : Prop :=
  Alike vs ts ∧ Leaf.ofTokens types vs = Leaf.ofTokens types ts

/-- The text of a leaf before its semicolon. -/
def Leaf.inner : Leaf → String
  | returns (some value) => "return " ++ value.render
  | returns none => "return"
  | jump text => text
  | declares d => d.render
  | evaluates e => e.render
  | directive _ => ""
  | empty => ""

/-- All leaves but directives are printed with a semicolon behind them. -/
theorem Leaf.render_eq {content : Leaf} (h : ∀ text, content ≠ .directive text) (depth : Nat) :
    content.render depth = ⟨depth, content.inner ++ ";"⟩ := by
  cases content with
  | returns value => cases value <;> simp [Leaf.render, Leaf.inner]
  | directive text => exact absurd rfl (h text)
  | empty => rfl
  | jump | declares | evaluates => rfl

/-- A leaf prints tokens from which the same leaf is read. -/
theorem SameLeaf.prints (ts : List Token) (h : Inline ts) :
    Prints BreaksInLine (SameLeaf types ts) (Leaf.ofTokens types ts).inner := by
  by_cases hd : isDeclaration types ts = true
  · rw [Leaf.ofTokens, if_pos hd, Leaf.inner]
    refine (Declaration.prints ts h).imp fun vs hvs => ⟨hvs.1, ?_⟩
    rw [Leaf.ofTokens, Leaf.ofTokens, isDeclaration_alike types hvs.1, if_pos hd, if_pos hd, hvs.2]
  · rw [Leaf.ofTokens, if_neg hd, Leaf.inner]
    refine (Expr.prints ts h).imp fun vs hvs => ⟨hvs.1, ?_⟩
    rw [Leaf.ofTokens, Leaf.ofTokens, isDeclaration_alike types hvs.1, if_neg hd, if_neg hd, hvs.2]

/-- Where a statement ends is seen from the spelling. -/
theorem Ends.alike {ts vs : List Token} {e e' : Token} (h : Ends ts e) (ha : Alike vs ts)
    (he : e'.text = e.text) : Ends vs e' := by
  rw [Ends, ha.texts_eq, he]
  exact h

theorem Plain.alike {ts vs : List Token} (h : Plain ts) (ha : Alike vs ts) : Plain vs := by
  refine ⟨ha.headKind?_eq ▸ h.kind, ha.headText_eq ▸ h.word, ?_⟩
  rw [ha.headKind?_eq]
  have htail : Alike vs.tail ts.tail := by
    rw [Alike, List.map_tail, List.map_tail, ha]
  rw [htail.headText_eq]
  exact h.label

/-- The text of a statement with its semicolon. -/
theorem Inline.prints_ended {Q : List Token → Prop} {text : String} {ts value : List Token}
    {e : Token}
    (h : Inline (ts ++ [e])) (he : Ends value e) (hp : Prints BreaksInLine Q text) :
    Prints Breaks (Both Q (Is e)) (text ++ ";") := by
  have hs := h.last.prints_one (by rw [he.text]; decide)
  rw [he.text] at hs
  exact (hp.seq_opens blank_empty hs opens_semicolon).of_eq (by simp)

/-- A statement that holds no other is read back from its printed line. -/
theorem Leaf.Spelled.prints {content : Leaf} {ts : List Token} (h : content.Spelled types ts)
    (hi : Inline ts) :
    Prints Breaks (fun vs => Alike vs ts ∧ content.Spelled types vs) (content.inner ++ ";") := by
  cases h with
  | @directive t hk => exact absurd hk (hi.undirected t (by simp))
  | @empty t hk ht =>
    have hone := hi.prints_one (by rw [ht]; decide)
    rw [ht] at hone
    refine (hone.imp ?_).of_eq (by simp [Leaf.inner])
    intro _ h
    obtain ⟨v, rfl, hk', ht'⟩ := h
    exact ⟨.cons hk' ht' (.refl _), .empty (hk' ▸ hk) (ht'.trans ht)⟩
  | @returns t e value hk ht he =>
    have hword := hi.left.head.prints_word
    rw [ht] at hword
    by_cases hne : value = []
    -- without a value there is no blank behind the word
    · subst hne
      refine (hi.prints_ended he hword).imp ?_
      intro _ h
      obtain ⟨_, _, rfl, ⟨t', rfl, hk', ht'⟩, e', rfl, hke, hte⟩ := h
      refine ⟨.cons hk' ht' (.cons hke hte (.refl _)), ?_⟩
      have he' : Ends [] e' := he.alike (.refl _) hte
      exact .returns (hk' ▸ hk) (ht'.trans ht) he'
    · have hall := hi.prints_ended he (hword.seq_opens blank_one (Expr.prints value hi.left.tail)
        (opens_blank.append _))
      have hsome (e : Expr) (us : List Token) (h : us ≠ []) :
          (if us.isEmpty then none else some e) = some e := by simp [h]
      rw [hsome _ _ hne]
      refine (hall.imp ?_).of_eq (by simp [Leaf.inner, ← String.append_assoc])
      intro _ h
      obtain ⟨_, _, rfl, ⟨_, value', rfl, ⟨t', rfl, hk', ht'⟩, ha, hv⟩, e', rfl, hke, hte⟩ := h
      refine ⟨.append (.cons hk' ht' ha) (.cons hke hte (.refl _)), ?_⟩
      rw [← hv, ← hsome _ _ (ha.ne_nil hne)]
      exact .returns (hk' ▸ hk) (ht'.trans ht) (he.alike ha hte)
  | @jump t e target hk ht he =>
    refine (hi.prints_ended he hi.left.prints).imp ?_
    intro _ h
    obtain ⟨vs, _, rfl, ⟨ha, hv⟩, e', rfl, hke, hte⟩ := h
    obtain ⟨t', target', rfl, hk', ht', ha'⟩ := ha.exists_cons
    refine ⟨.append ha (.cons hke hte (.refl _)), ?_⟩
    rw [← hv]
    exact .jump (hk' ▸ hk) (ht' ▸ ht) (he.alike ha' hte)
  | @plain e ts hp he =>
    refine (hi.prints_ended he (SameLeaf.prints ts hi.left)).imp ?_
    intro _ h
    obtain ⟨vs, _, rfl, ⟨ha, hl⟩, e', rfl, hk', ht'⟩ := h
    have halike : Alike (vs ++ [e']) (ts ++ [e]) := ha.append (.cons hk' ht' (.refl _))
    exact ⟨halike, hl ▸ .plain (hp.alike halike) (he.alike ha ht')⟩

/-! ### Heads -/

/-- The inside of a condition stands on one line with it. -/
theorem Guard.inside {word : String} {inside ts : List Token} (hg : Guard word inside ts)
    (h : Inline ts) : Inline inside := by
  cases hg
  exact h.left.tail.tail

/-- A condition between parentheses is read back from its printed text. -/
theorem Guard.prints_condition {word : String} {inside ts : List Token} (hg : Guard word inside ts)
    (h : Inline ts) :
    Prints Breaks (fun vs => Alike vs ts ∧ ∃ inside', SameExpr inside inside' ∧
      Guard word inside' vs)
      (word ++ " (" ++ (Expr.ofTokens inside).render ++ ")") :=
  hg.prints h (fun _ hvs => hvs.1) (Expr.prints inside (hg.inside h))

theorem label_text {value : List Token} {colon : Token}
    (h : Stops labelStep 0 (texts value) colon.text) : colon.text = ":" := by
  obtain ⟨pending, hstep⟩ := h.last
  rw [labelStep.eq_def] at hstep
  split at hstep
  next => cases hstep
  split at hstep
  next ht => exact ht
  split at hstep <;> cases hstep

theorem prints_label {ts : List Token} {colon : Token} (h : Inline (ts ++ [colon]))
    (hc : colon.text = ":") :
    Prints Breaks (fun vs => Alike vs (ts ++ [colon]) ∧ verbatim vs = verbatim (ts ++ [colon]))
      (verbatim (ts ++ [colon])) := by
  refine h.toCopyable.prints (by simp) (fun hk => ?_) fun t ht => ?_
  · cases ts with
    | nil => exact h.undirected colon (by simp) (Option.some.inj hk)
    | cons t ts => exact h.undirected t (by simp) (Option.some.inj hk)
  · obtain rfl : t = colon := by simpa [eq_comm] using ht
    exact ⟨h.undirected t (by simp), by rw [hc]; decide⟩

/-- The head above a statement is read back from its printed line. -/
theorem Head.Spelled.prints {head : Head} {ts : List Token} (h : head.Spelled ts) (hi : Inline ts) :
    Prints Breaks (fun vs => Alike vs ts ∧ head.Spelled vs) head.opening := by
  cases h with
  | ifThen hk hg =>
    refine ((hg.prints_condition hi).imp ?_).of_eq rfl
    intro vs h
    obtain ⟨ha, inside', ⟨-, he⟩, hg'⟩ := h
    exact ⟨ha, he ▸ .ifThen (ha.headKind?_eq ▸ hk) hg'⟩
  | whileDo hk hg =>
    refine ((hg.prints_condition hi).imp ?_).of_eq rfl
    intro vs h
    obtain ⟨ha, inside', ⟨-, he⟩, hg'⟩ := h
    exact ⟨ha, he ▸ .whileDo (ha.headKind?_eq ▸ hk) hg'⟩
  | switch hk hg =>
    refine ((hg.prints_condition hi).imp ?_).of_eq rfl
    intro vs h
    obtain ⟨ha, inside', ⟨-, he⟩, hg'⟩ := h
    exact ⟨ha, he ▸ .switch (ha.headKind?_eq ▸ hk) hg'⟩
  | forLoop hk hg =>
    refine ((hg.prints hi (fun _ hvs => hvs.1) (hg.inside hi).prints).imp ?_).of_eq rfl
    intro vs h
    obtain ⟨ha, inside', ⟨-, he⟩, hg'⟩ := h
    exact ⟨ha, he ▸ .forLoop (ha.headKind?_eq ▸ hk) hg'⟩
  | @case t colon value hk ht hs =>
    refine (prints_label hi (label_text hs)).imp fun vs ⟨ha, hv⟩ => ⟨ha, ?_⟩
    -- what is read back has the same parts: the word, the value and the colon
    obtain ⟨ts', last, rfl, hts, hlast⟩ := ha.symm.of_append
    obtain ⟨t', value', rfl, hk', ht', ha'⟩ := hts.symm.exists_cons
    obtain ⟨colon', rfl, -, hc'⟩ := hlast.symm.exists_singleton
    rw [← hv]
    exact .case (hk' ▸ hk) (ht'.trans ht) (by rw [ha'.texts_eq, hc']; exact hs)
  | @word t colon hk ht hc =>
    have hi : Inline ([t] ++ [colon]) := hi
    refine (prints_label hi hc).imp fun vs ⟨ha, hv⟩ => ⟨ha, ?_⟩
    obtain ⟨t', rest, rfl, hk', ht', ha'⟩ := ha.exists_cons
    obtain ⟨colon', rfl, -, hc'⟩ := ha'.exists_singleton
    rw [show verbatim [t, colon] = verbatim ([t] ++ [colon]) from rfl, ← hv]
    exact .word (hk'.trans hk) (ht' ▸ ht) (hc'.trans hc)

end WitnessReplay
