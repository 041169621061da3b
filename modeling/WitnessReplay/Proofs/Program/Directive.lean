import Mathlib.Data.List.Infix
import WitnessReplay.Proofs.Program.Fragment

/-!
# Directives in printed programs

Statement by statement and item by item, a printed program has the directives of the tokens it was
read from (`Stmt.carries`, `Program.carriesItems`). So reading the text again finds the same
directives in the same order, if none of them stands at an end of a fragment
(`Program.directives_render`).
-/

namespace WitnessReplay

open Token

/-! ### Lines one below the other -/

theorem PrintsLines.below {a b : List String} {text text' : String}
    (h : PrintsLines (Carries a) text) (h' : PrintsLines (Carries b) text') :
    PrintsLines (Carries (a ++ b)) (text ++ text') :=
  (h.seq h').imp fun _ hvs => Carries.both hvs

theorem Token.Copyable.within {ts us : List Token} (h : Copyable ts) (hus : us <:+: ts) :
    Copyable us := by
  obtain ⟨before, after, rfl⟩ := hus
  exact h.left.right

/-- A line that is a single token of the source. -/
theorem Token.Copyable.carries_mark {t : Token} {text : String} (h : Copyable [t])
    (ht : t.text = text) (hmark : text.toList.head? ≠ some '#') (hne : text ≠ "\\") (depth : Nat) :
    PrintsLines (Carries []) (Line.render ⟨depth, text⟩) := by
  have hk : t.kind ≠ .directive := h.undirected (ht ▸ hmark)
  exact (h.prints_mark hk ht hne depth).imp fun _ hvs => hvs.carries hk

/-- A word with some tokens behind it between parentheses, and a text that carries the directives
of these. -/
theorem prints_guarded {t : Token} {a : List String} {text : String} (h : Copyable [t])
    (hk : t.kind ≠ .directive) (hinside : Prints BreaksInLine (Carries a) text) :
    Prints (fun _ => True) (fun vs => Carries a vs ∧ vs ≠ [])
      (t.text ++ " (" ++ text ++ ")") := by
  have hword := ((h.prints_word hk).imp fun _ hvs => hvs.carries hk).mark (.inl rfl) blank_one
  have hall := ((hword.imp fun _ hvs => hvs.1).seq blank_empty hinside fun _ _ => trivial).imp
    fun _ hvs => Carries.both hvs
  refine (hall.mark (.inr (.inl rfl)) blank_empty).of_eq ?_
  simp [String.append_assoc]

/-- What is read between parentheses: the tokens through the closing bracket have no directive but
those inside. -/
theorem exists_guard {context : Construct} {ts inside behind : List Token}
    (hr : Reads (parenthesized context ts) inside behind) (h : Copyable ts) :
    ∃ guard, ts = guard ++ behind ∧ inside <:+: guard ∧
      directiveTexts guard = directiveTexts inside := by
  obtain ⟨opening, closing, rfl, ho, hs⟩ := parenthesized_eq_ok.1 hr
  have hopening : opening.kind ≠ .directive := h.head.undirected (by rw [ho]; decide)
  have hclosing : closing.kind ≠ .directive := h.right.head.closing hs
  refine ⟨opening :: inside ++ [closing], by simp, ⟨[opening], [closing], by simp⟩, ?_⟩
  simp [directiveTexts_cons hopening, directiveTexts_cons hclosing]

/-- What is read up to a semicolon. -/
theorem exists_semicolon {ts value behind : List Token}
    (hr : Reads (splitStatement 0 ts) value behind) (h : Copyable ts) :
    ∃ semicolon, ts = value ++ semicolon :: behind ∧ semicolon.kind ≠ .directive := by
  obtain ⟨semicolon, rfl, hs⟩ := splitStatement_eq_ok.1 hr
  have htext : semicolon.text = ";" := Ends.text hs
  exact ⟨semicolon, rfl, h.right.head.undirected (by rw [htext]; decide)⟩

section Statements

variable {types : List String}

/-- A word and a condition behind it make up a line that carries the directives of the condition. -/
theorem carries_condition {t : Token} {word : String} {inside guard : List Token}
    (h : Copyable (t :: guard)) (hk : t.kind ≠ .directive) (ht : t.text = word)
    (hin : inside <:+: guard) (hg : directiveTexts guard = directiveTexts inside)
    (hf : Framing (t :: guard) (Expr.ofTokens inside).kept) :
    Prints (fun _ => True) (fun vs => Carries (directiveTexts (t :: guard)) vs ∧ vs ≠ [])
      (word ++ " (" ++ (Expr.ofTokens inside).render ++ ")") := by
  rw [directiveTexts_cons hk, hg, ← ht]
  exact prints_guarded h.head hk (Expr.carries inside (h.tail.within hin)
    (hf.mono (hin.trans (List.suffix_cons ..).isInfix) (List.Subset.refl _)))

/-- A label makes up a line that carries its directives: it begins with a word and ends with its
colon. -/
theorem carries_label {t colon : Token} {value : List Token} (h : Copyable (t :: value ++ [colon]))
    (hk : t.kind ≠ .directive) (hc : colon.text = ":") (depth : Nat) :
    PrintsLines (Carries (directiveTexts (t :: value ++ [colon])))
      (Line.render ⟨depth, verbatim (t :: value ++ [colon])⟩) := by
  have hcolon : colon.kind ≠ .directive := h.right.undirected (by rw [hc]; decide)
  have hprints := h.prints (by simp) (fun hk' => hk (Option.some.inj hk')) fun u hu => by
    obtain rfl : u = colon := by
      rw [List.getLast?_append] at hu
      simpa [eq_comm] using hu
    exact ⟨hcolon, by rw [hc]; decide⟩
  exact (PrintsLines.line hprints (fun vs hvs => hvs.1.ne_nil (by simp)) depth).imp
    fun vs hvs => hvs.1.directiveTexts_eq

/-- A statement was read from the front of some tokens, and its lines carry the directives of what
it was read from. -/
def CarriesRead (s : Stmt) (ts rest : List Token) : Prop :=
  ∃ used, ts = used ++ rest ∧
    ∀ depth, PrintsLines (Carries (directiveTexts used)) (textOf (s.lines depth))

namespace CarriesRead

variable {body : Stmt} {head : Head} {behind rest : List Token} {line : Option Nat}

/-- A statement that holds no other. -/
theorem leaf {content : Leaf} (used : List Token) (h : ∀ depth,
      PrintsLines (Carries (directiveTexts used)) (content.render depth).render) :
    CarriesRead (.leaf line content) (used ++ rest) rest :=
  ⟨used, rfl, fun depth => (h depth).of_eq (by simp [Stmt.lines])⟩

/-- An empty statement for which no token was read. -/
theorem inserted : CarriesRead (.leaf line .empty) rest rest := by
  refine leaf [] fun depth => ?_
  refine (PrintsLines.line prints_semicolon (fun _ => Is.ne_nil) depth).imp fun vs hvs => ?_
  exact hvs.carries (by simp)

/-- A head with a line above its statement. -/
theorem headed (above : List Token) (hclosing : ∀ depth, head.closing depth = [])
    (hline : ∀ depth, PrintsLines (Carries (directiveTexts above))
      (Line.render ⟨depth, head.opening⟩))
    (hbody : CarriesRead body behind rest) :
    CarriesRead (.headed line head body) (above ++ behind) rest := by
  obtain ⟨used, rfl, hprints⟩ := hbody
  refine ⟨above ++ used, by simp, fun depth => ?_⟩
  rw [directiveTexts_append]
  refine ((hline depth).below (hprints
    (if head.indents then Stmt.bodyDepth depth body else depth))).of_eq ?_
  simp [Stmt.lines, hclosing]

/-- A head that is a word and what is between parentheses behind it. -/
theorem guarded {context : Construct} {t : Token} {ts inside : List Token} {word text : String}
    (hopening : head.opening = word ++ " (" ++ text ++ ")")
    (hclosing : ∀ depth, head.closing depth = []) (hk : t.kind ≠ .directive) (ht : t.text = word)
    (hread : Reads (parenthesized context ts) inside behind) (hc : Copyable (t :: ts))
    (hf : Framing (t :: ts) (Stmt.headed line head body).kept)
    (hinside : Copyable inside → Framing inside head.kept →
      Prints BreaksInLine (Carries (directiveTexts inside)) text)
    (hbody : Copyable behind → Framing behind body.kept → CarriesRead body behind rest) :
    CarriesRead (.headed line head body) (t :: ts) rest := by
  obtain ⟨guard, rfl, hin, hg⟩ := exists_guard hread hc.tail
  refine headed (t :: guard) hclosing ?_ (hbody hc.tail.right
    (hf.mono (List.suffix_append (t :: guard) behind).isInfix (by simp [Stmt.kept])))
  -- the brackets themselves are no directives, so those of the guard are all inside
  have hprints := prints_guarded hc.head hk (hinside (hc.tail.left.within hin)
    (hf.mono (hin.trans (List.infix_append [t] guard behind)) (by simp [Stmt.kept])))
  rw [hopening, directiveTexts_cons hk, hg, ← ht]
  exact hprints.line

/-- The statement behind a label. -/
theorem of_labeled {line : Nat} (h : ReadsLabeled types line behind body rest)
    (ih : Reads (Stmt.parse types behind) body rest → CarriesRead body behind rest) :
    CarriesRead body behind rest := by
  obtain ⟨-, rfl, rfl⟩ | ⟨-, hread⟩ := h
  · exact inserted
  · exact ih hread

/-- A statement that begins with `return`. -/
theorem returns {t : Token} {ts value : List Token} (hk : t.kind ≠ .directive)
    (ht : t.text = "return") (hread : Reads (splitStatement 0 ts) value rest)
    (hc : Copyable (t :: ts))
    (hf : Framing (t :: ts)
      (Leaf.returns (if value.isEmpty then none else some (.ofTokens value))).kept) :
    CarriesRead
      (.leaf line (.returns (if value.isEmpty then none else some (.ofTokens value))))
      (t :: ts) rest := by
  obtain ⟨semicolon, rfl, hks⟩ := exists_semicolon hread hc.tail
  have happend : t :: (value ++ semicolon :: rest) = t :: value ++ [semicolon] ++ rest := by simp
  have hword := (hc.head.prints_word hk).imp fun _ hvs => hvs.carries hk
  rw [ht] at hword
  rw [happend] at hf ⊢
  refine leaf _ fun depth => ?_
  rw [directiveTexts_append, directiveTexts_cons hk, directiveTexts_cons hks, directiveTexts_nil,
    List.append_nil]
  -- without a value there is no blank behind the word
  by_cases hne : value = []
  · subst hne
    exact ((hword.mark (.inr (.inr rfl)) blank_empty).line depth).of_eq (by simp [Leaf.render])
  · rw [if_neg (by simpa using hne)] at hf ⊢
    have hvalue := Expr.carries value hc.tail.left
      (hf.mono ⟨[t], [semicolon] ++ rest, by simp⟩ (List.Subset.refl _))
    have hall := (hword.seq_opens blank_one hvalue (opens_blank.append _)).imp
      fun _ hvs => Carries.both hvs
    have hblank : "return " = "return" ++ " " := rfl
    refine ((hall.mark (.inr (.inr rfl)) blank_empty).line depth).of_eq ?_
    rw [Leaf.render, hblank]
    simp only [String.append_assoc, String.empty_append]

theorem jump {t : Token} {ts target : List Token} (hread : Reads (splitStatement 0 ts) target rest)
    (hc : Copyable (t :: ts)) (hf : Framing (t :: ts) (Leaf.jump (verbatim (t :: target))).kept) :
    CarriesRead (.leaf line (.jump (verbatim (t :: target)))) (t :: ts) rest := by
  obtain ⟨semicolon, rfl, hks⟩ := exists_semicolon hread hc.tail
  have happend : t :: (target ++ semicolon :: rest) = t :: target ++ [semicolon] ++ rest := by simp
  rw [happend] at hc hf ⊢
  refine leaf _ fun depth => ?_
  have hprints := hc.left.left.carries ((hf.mono ⟨[], [semicolon] ++ rest, by simp⟩
    (List.Subset.refl _)).framed (by simp [Leaf.kept]))
  rw [directiveTexts_append, directiveTexts_cons hks, directiveTexts_nil, List.append_nil]
  exact ((hprints.mark (.inr (.inr rfl)) blank_empty).line depth).of_eq (by simp [Leaf.render])

/-- A statement that no word marks. -/
theorem plain {ts value : List Token} (hread : Reads (splitStatement 0 ts) value rest)
    (hc : Copyable ts) (hf : Framing ts (Leaf.ofTokens types value).kept) :
    CarriesRead (.leaf line (Leaf.ofTokens types value)) ts rest := by
  obtain ⟨semicolon, rfl, hks⟩ := exists_semicolon hread hc
  have happend : value ++ semicolon :: rest = value ++ [semicolon] ++ rest := by simp
  rw [happend] at hc hf ⊢
  refine leaf _ fun depth => ?_
  rw [directiveTexts_append, directiveTexts_cons hks, directiveTexts_nil, List.append_nil]
  exact Leaf.carries hc.left.left (hf.mono ⟨[], [semicolon] ++ rest, by simp⟩
    (List.Subset.refl _)) depth

end CarriesRead

mutual

/-- **The lines of a statement carry its directives.** -/
theorem Stmt.carries {rest : List Token} {s : Stmt} :
    (ts : List Token) → Reads (Stmt.parse types ts) s rest → Copyable ts → Framing ts s.kept →
      CarriesRead s ts rest
  | [], h, _, _ => (parse_nil h).elim
  | t :: ts, h, hc, hf => by
    -- each branch cuts the tokens it reads into the pieces that its lines are printed from
    cases branch_of_parse h with
    | directive hk =>
      refine .leaf [t] fun depth => ?_
      exact (PrintsLines.directive hc.head hk).imp fun vs hvs => hvs.alike.directiveTexts_eq
    | block hk ht hitems =>
      obtain ⟨used, closing, rfl, hclosing, hprints⟩ := Stmt.carriesAll ts hitems hc.tail
        (hf.mono (List.suffix_cons ..).isInfix (List.Subset.refl _))
      have hk' : closing.kind ≠ .directive :=
        hc.tail.right.head.undirected (by rw [hclosing]; decide)
      refine ⟨t :: used ++ [closing], by simp, fun depth => ?_⟩
      have hfirst := hc.head.carries_mark ht (by decide) (by decide) depth
      have hlast := hc.tail.right.head.carries_mark hclosing (by decide) (by decide) depth
      have hall := hfirst.below ((hprints (depth + 1)).below hlast)
      simpa [directiveTexts_cons hk, directiveTexts_cons hk', Stmt.lines] using hall
    | empty hk ht =>
      refine .leaf [t] fun depth => ?_
      rw [directiveTexts_cons hk]
      exact hc.head.carries_mark ht (by decide) (by decide) depth
    | @ifElse inside behind behind' _ yes no hk ht hcond hyes helse hno =>
      have := hcond.shorter
      have := hyes.shorter
      obtain ⟨guard, rfl, hin, hg⟩ := exists_guard hcond hc.tail
      have hcondition := carries_condition hc.left hk ht hin hg
        (hf.mono (List.prefix_append (t :: guard) behind).isInfix (by simp [Stmt.kept]))
      have hfbehind := hf.mono (List.suffix_append (t :: guard) behind).isInfix
        (List.Subset.refl _)
      obtain ⟨used, rfl, hprints⟩ := Stmt.carries behind hyes hc.tail.right
        (hfbehind.mono (List.infix_refl _) (by simp [Stmt.kept]))
      -- the branch is followed by the `else` that it was read before
      obtain ⟨word, hword, hbehind⟩ := exists_cons_of_headText helse (by decide)
      generalize behind'.tail = us at hno hbehind
      subst hbehind
      have hcword := hc.tail.right.right
      have hkword : word.kind ≠ .directive := hcword.head.undirected (by rw [hword]; decide)
      obtain ⟨used', rfl, hprints'⟩ := Stmt.carries us hno hcword.tail
        (hfbehind.mono ((List.suffix_cons ..).trans (List.suffix_append ..)).isInfix
          (by simp [Stmt.kept]))
      refine ⟨t :: guard ++ (used ++ word :: used'), by simp, fun depth => ?_⟩
      have helse := hcword.head.carries_mark hword (by decide) (by decide) depth
      have hall := (hcondition.line depth).below ((hprints (Stmt.bodyDepth depth yes)).below
        (helse.below (hprints' (Stmt.bodyDepth depth no))))
      simpa [Stmt.lines, directiveTexts_cons hk, directiveTexts_cons hkword] using hall
    | ifThen hk ht hcond hyes =>
      have := hcond.shorter
      exact .guarded rfl (fun _ => rfl) hk ht hcond hc hf (Expr.carries _)
        fun hc hf => Stmt.carries _ hyes hc hf
    | @doWhile inside behind _ word semicolon body hk ht hbody hword hcond hs =>
      obtain ⟨used, rfl, hprints⟩ := Stmt.carries ts hbody hc.tail
        (hf.mono (List.suffix_cons ..).isInfix (by simp [Stmt.kept]))
      obtain ⟨guard, rfl, hin, hg⟩ := exists_guard hcond hc.tail.right.tail
      have hcword := hc.tail.right
      have hkword : word.kind ≠ .directive := hcword.head.undirected (by rw [hword]; decide)
      have hks : semicolon.kind ≠ .directive :=
        hcword.tail.right.head.undirected (by rw [hs]; decide)
      have hcondition := carries_condition hcword.left hkword hword hin hg
        (hf.mono ⟨t :: used, semicolon :: rest, by simp⟩ (by simp [Stmt.kept, Head.kept]))
      refine ⟨t :: used ++ (word :: guard ++ [semicolon]), by simp, fun depth => ?_⟩
      have hlast := (((hcondition.imp fun _ hvs => hvs.1).mono fun _ _ => trivial).mark
        (.inr (.inr rfl)) blank_empty).line depth
      have hfirst := hc.head.carries_mark ht (by decide) (by decide) depth
      have hall := hfirst.below ((hprints (Stmt.bodyDepth depth body)).below hlast)
      simpa [Stmt.lines, Head.opening, Head.closing, Head.indents, directiveTexts_cons hk,
        directiveTexts_cons hkword, directiveTexts_cons hks, String.append_assoc] using hall
    | forLoop hk ht hheader hbody =>
      have := hheader.shorter
      exact .guarded rfl (fun _ => rfl) hk ht hheader hc hf
        (fun hc hf => hc.carries (hf.framed (List.mem_singleton_self _)))
        fun hc hf => Stmt.carries _ hbody hc hf
    | whileDo hk ht hcond hbody =>
      have := hcond.shorter
      exact .guarded rfl (fun _ => rfl) hk ht hcond hc hf (Expr.carries _)
        fun hc hf => Stmt.carries _ hbody hc hf
    | switch hk ht hcond hbody =>
      have := hcond.shorter
      exact .guarded rfl (fun _ => rfl) hk ht hcond hc hf (Expr.carries _)
        fun hc hf => Stmt.carries _ hbody hc hf
    | @case label behind _ body hk ht hlabel hbody =>
      have := hlabel.shorter
      obtain ⟨value, colon, rfl, rfl, hs⟩ := splitLabel_eq_ok.1 hlabel
      have happend : t :: (value ++ colon :: behind) = t :: value ++ [colon] ++ behind := by simp
      rw [happend] at hc hf ⊢
      refine .headed _ (fun _ => rfl) (carries_label hc.left hk (label_text hs)) ?_
      exact .of_labeled hbody fun hbody => Stmt.carries behind hbody hc.right
        (hf.mono (List.suffix_append ..).isInfix (by simp [Stmt.kept]))
    | @label _ body hk ht hcolon hbody =>
      obtain ⟨colon, hcolon, hts⟩ := exists_cons_of_headText hcolon (by decide)
      have hk' : t.kind ≠ .directive := by simp [hk]
      have htake : ts.take 1 = [colon] := by rw [hts]; rfl
      have happend : t :: ts = t :: [] ++ [colon] ++ ts.tail := by rw [hts]; rfl
      rw [htake]
      rw [happend] at hc hf ⊢
      refine .headed _ (fun _ => rfl) (carries_label hc.left hk' hcolon) ?_
      exact .of_labeled hbody fun hbody => Stmt.carries ts.tail hbody hc.right
        (hf.mono (List.suffix_append ..).isInfix (by simp [Stmt.kept]))
    | returns hk ht hvalue => exact .returns hk ht hvalue hc hf
    | jump hk ht htarget => exact .jump htarget hc hf
    | plain hk ht hlabel hvalue => exact .plain hvalue hc hf
termination_by ts => 2 * ts.length
decreasing_by
  all_goals simp only [List.length_tail, List.length_append, List.length_cons] at *
  all_goals omega

/-- The lines of the statements of a block carry their directives. -/
theorem Stmt.carriesAll {rest : List Token} {items : List Stmt} :
    (ts : List Token) → Reads (Stmt.parseItems types ts) items rest → Copyable ts →
      Framing ts (Stmt.keptAll items) →
      ∃ used closing, ts = used ++ closing :: rest ∧ closing.text = "\x7d" ∧
        ∀ depth, PrintsLines (Carries (directiveTexts used)) (textOf (Stmt.linesOf depth items))
  | [], h, _, _ => (parseItems_nil h).elim
  | t :: ts, h, hc, hf => by
    by_cases ht : t.text = "\x7d"
    · obtain ⟨rfl, rfl⟩ := (parseItems_end ht).1 h
      exact ⟨[], t, rfl, ht, fun depth => PrintsLines.nil rfl⟩
    obtain ⟨first, behind, more, hfirst, hmore, rfl⟩ := (parseItems_cons ht).1 h
    have hshort := hfirst.shorter
    obtain ⟨used, hused, hprints⟩ := Stmt.carries (t :: ts) hfirst hc
      (hf.mono (List.infix_refl _) (by simp [Stmt.keptAll]))
    have hbehind : behind <:+: t :: ts := ⟨used, [], by simp [hused]⟩
    obtain ⟨used', closing, rfl, hclosing, hprints'⟩ := Stmt.carriesAll behind hmore
      (hc.within hbehind) (hf.mono hbehind (by simp [Stmt.keptAll]))
    refine ⟨used ++ used', closing, by simp [hused], hclosing, fun depth => ?_⟩
    rw [directiveTexts_append]
    exact ((hprints depth).below (hprints' depth)).of_eq (by simp [Stmt.linesOf])
termination_by ts => 2 * ts.length + 1
decreasing_by
  all_goals simp only [List.length_cons] at *
  all_goals omega

end

end Statements

/-! ### Programs -/

/-- The lines of top-level items carry their directives. -/
theorem Program.carriesItems {types : List String} {items : List Item} :
    (ts : List Token) → parseProgramItems types ts = .ok items → Copyable ts →
      Framing ts (items.flatMap Item.kept) →
      PrintsLines (Carries (directiveTexts ts)) (textOf (items.flatMap Item.lines))
  | [], h, _, _ => by
    rw [parseProgramItems] at h
    cases h
    exact PrintsLines.nil rfl
  | t :: ts, h, hc, hf => by
    cases itemBranch_of_parse h with
    | @directive _ _ rest hk hrest =>
      have hone := (PrintsLines.directive hc.head hk).imp
        fun vs hvs => hvs.alike.directiveTexts_eq
      have hbehind := Program.carriesItems ts hrest hc.tail
        (hf.mono (List.suffix_cons ..).isInfix (by simp))
      have hcons : t :: ts = [t] ++ ts := rfl
      rw [hcons, directiveTexts_append]
      exact (hone.below hbehind).of_eq (by simp [Item.lines])
    | @verbatim _ before after semicolon rest hk hs ht hrest =>
      have hshort := splitItem_length hs
      have hkind := (firstLine_of_split hs).2 ▸ hk
      have happend : t :: ts = before ++ [semicolon] ++ after := by simp [splitItem_eq hs]
      rw [happend] at hc hf ⊢
      have hks : semicolon.kind ≠ .directive := hc.left.right.undirected (by rw [ht]; decide)
      have hprints := hc.left.prints (by simp) hkind fun u hu => by
        obtain rfl : u = semicolon := by simpa [eq_comm] using hu
        exact ⟨hks, by rw [ht]; decide⟩
      have hone := (PrintsLines.line hprints (fun vs hvs => hvs.1.ne_nil (by simp)) 0).imp
        fun vs hvs => hvs.1.directiveTexts_eq
      have hbehind := Program.carriesItems after hrest hc.right
        (hf.mono (List.suffix_append ..).isInfix (by simp))
      rw [directiveTexts_append]
      exact (hone.below hbehind).of_eq (by simp [Item.lines])
    | @function _ header after behind opening body rest hk hs ht hbody hrest =>
      have hshort := splitItem_length hs
      have hshort' := hbody.shorter
      have hbrace := text_of_splitItem hs ht
      obtain ⟨hts, hstops⟩ := splitItem_eq_some.1 hs
      rw [hbrace] at hstops
      -- the header is not empty, so what the item begins with is what the header begins with
      have hkind : headKind? header ≠ some .directive := by
        obtain ⟨u, header, rfl⟩ := List.exists_cons_of_ne_nil (header_ne_nil hstops)
        rwa [hts] at hk
      rw [hts] at hc hf ⊢
      obtain ⟨used, closing, rfl, hclosing, hprints⟩ := Stmt.carriesAll after hbody hc.right.tail
        (hf.mono ((List.suffix_cons ..).trans (List.suffix_append ..)).isInfix
          (by simp [Item.kept, Stmt.kept]))
      have hcclosing := hc.right.tail.right
      have hko : opening.kind ≠ .directive := hc.right.head.undirected (by rw [hbrace]; decide)
      have hkc : closing.kind ≠ .directive := hcclosing.head.undirected (by rw [hclosing]; decide)
      have hheader := (PrintsLines.line (hc.left.prints_header hkind hstops)
        (fun vs hvs => hvs.1.ne_nil (header_ne_nil hstops)) 0).imp
          fun vs hvs => hvs.1.directiveTexts_eq
      have hopening := hc.right.head.carries_mark hbrace (by decide) (by decide) 0
      have hlast := hcclosing.head.carries_mark hclosing (by decide) (by decide) 0
      have hbehind := Program.carriesItems behind hrest hcclosing.tail
        (hf.mono ⟨header ++ opening :: used ++ [closing], [], by simp⟩ (by simp))
      have hall := hheader.below (hopening.below ((hprints 1).below (hlast.below hbehind)))
      simpa [Item.lines, Stmt.lines, directiveTexts_cons hko, directiveTexts_cons hkc] using hall
termination_by ts => ts.length
decreasing_by
  all_goals simp only [List.length_append, List.length_cons] at *
  all_goals omega

instance (ts : List Token) : Decidable (Framed ts) :=
  decidable_of_iff (headKind? ts ≠ some .directive ∧ ∀ t ∈ ts.getLast?, t.kind ≠ .directive)
    ⟨fun ⟨h₁, h₂⟩ => ⟨h₁, h₂⟩, fun ⟨h₁, h₂⟩ => ⟨h₁, h₂⟩⟩

instance (ts : List Token) (fragments : List String) : Decidable (Framing ts fragments) :=
  decidable_of_iff (∀ behind ∈ ts.tails, ∀ us ∈ behind.inits, verbatim us ∈ fragments → Framed us)
    ⟨fun h us hus => by
      obtain ⟨behind, hpre, hsuf⟩ := List.infix_iff_prefix_suffix.1 hus
      exact h behind ((List.mem_tails ..).2 hsuf) us ((List.mem_inits ..).2 hpre),
    fun h behind hsuf us hpre => h us
      (((List.mem_inits ..).1 hpre).isInfix.trans ((List.mem_tails ..).1 hsuf).isInfix)⟩

/-- What the directives of a program have to satisfy to be kept by printing. -/
structure SetApart (ts : List Token) (p : Program) : Prop where
  /-- A number sign is part of a directive. -/
  marked : ∀ t ∈ ts, t.kind = .punctuation → t.text.toList.head? ≠ some '#'
  ended : ∀ t ∈ ts, t.kind = .directive → t.text.toList.getLast? ≠ some '\\'
  /-- No fragment that a line is put together from begins or ends with a directive. -/
  framed : Framing ts p.kept

instance (ts : List Token) (p : Program) : Decidable (SetApart ts p) :=
  decidable_of_iff ((∀ t ∈ ts, t.kind = .punctuation → t.text.toList.head? ≠ some '#') ∧
      (∀ t ∈ ts, t.kind = .directive → t.text.toList.getLast? ≠ some '\\') ∧
      Framing ts p.kept)
    ⟨fun ⟨h₁, h₂, h₃⟩ => ⟨h₁, h₂, h₃⟩, fun ⟨h₁, h₂, h₃⟩ => ⟨h₁, h₂, h₃⟩⟩

/-- **Directives are kept by printing.** The printed text of a program is read as tokens with the
directives of the source, in kind, text and order, if no fragment begins or ends with one. -/
theorem Program.directives_render {source : String} {p : Program} {ts : List Token}
    (hp : Program.parse source = .ok p) (ht : tokenize source = .ok ts) (h : SetApart ts p) :
    ∃ vs, tokenize p.render = .ok vs ∧ directiveTexts vs = directiveTexts ts := by
  obtain ⟨ts', ht', hitems⟩ := Program.parse_eq_ok hp
  rw [ht] at ht'
  cases ht'
  obtain ⟨after, -, hl, -⟩ := lexed_of_tokenizeFrom ht
  exact (Program.carriesItems ts hitems (hl.copyable h.marked h.ended) h.framed).exists_tokenize

/-- A source with directives as a statement, in the middle of a condition, of an argument and of a
header, and between functions. -/
def markedSource : String :=
  "int f(\n# 1 \"a.c\"\nint x) \x7b\n  if (x >\n# 2 \"a.c\"\n 0) g(1 +\n# 3 \"a.c\"\n 2);\n" ++
    "#pragma once\n  return x;\n\x7d\n# 4 \"b.c\"\nint y;\n"

theorem directives_render_markedSource : ∃ p ts, Program.parse markedSource = .ok p ∧
    tokenize markedSource = .ok ts ∧ SetApart ts p ∧
      ∃ vs, tokenize p.render = .ok vs ∧ directiveTexts vs = directiveTexts ts := by
  have hall : ∃ p, Program.parse markedSource = .ok p ∧
      ∃ ts, tokenize markedSource = .ok ts ∧ SetApart ts p := by decide +kernel
  obtain ⟨p, hp, ts, ht, h⟩ := hall
  exact ⟨p, ts, hp, ht, h, Program.directives_render hp ht h⟩

/-- A directive between an expression and its semicolon. The semicolon is printed on the line of the
directive. -/
def trailedSource : String :=
  "int main() \x7b\n  x = 1\n# 5 \"a.c\"\n  ;\n\x7d\n"

/-- Not every program keeps its directives. -/
theorem not_directives_render : ¬ ∀ (source : String) (p : Program) (ts : List Token),
    Program.parse source = .ok p → tokenize source = .ok ts →
      ∃ vs, tokenize p.render = .ok vs ∧ directiveTexts vs = directiveTexts ts := by
  intro h
  have hall : ∃ p, Program.parse trailedSource = .ok p ∧ ∃ ts, tokenize trailedSource = .ok ts ∧
      directiveTexts ts = ["# 5 \"a.c\""] ∧ ∃ vs, tokenize p.render = .ok vs ∧
        directiveTexts vs = ["# 5 \"a.c\";"] := by decide +kernel
  obtain ⟨p, hp, ts, ht, htexts, vs, hvs, hprinted⟩ := hall
  obtain ⟨vs', hvs', heq⟩ := h trailedSource p ts hp ht
  rw [hvs] at hvs'
  cases hvs'
  rw [hprinted, htexts] at heq
  exact absurd heq (by decide)

end WitnessReplay
