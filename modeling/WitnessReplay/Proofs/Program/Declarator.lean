import Mathlib.Data.List.Basic
import WitnessReplay.Proofs.Program.Balance

/-!
# The name in a header

The header of a function is read from behind for its name: the word before the parameter list that
ends the header, and where none is there the first word of the header that stands before a
parenthesis. `Declarator` derives what the language writes in a header behind its specifiers, a name
inside of pointers, parentheses and parameter lists, and `Program.name_of_parse` says what the
reader makes of each of them.

It finds the name if parameters stand right behind it, unless the declarator begins with a
parenthesis behind a word. Then it takes that word, which is a specifier (`not_name_of_parse`).
-/

namespace WitnessReplay

open Token

/-! ### Declarators -/

/-- Whether a token is a parenthesis. -/
def Token.isParenthesis (t : Token) : Bool :=
  t.text == "(" || t.text == ")"

/-- The parentheses among some tokens. -/
def parentheses (ts : List Token) : List Token :=
  ts.filter isParenthesis

/-- The tokens of a declarator before its name and behind it. Parameters are any tokens whose
parentheses pair up, between parentheses. -/
inductive Declarator (name : Token) : List Token → List Token → Prop
  | name (hk : name.kind = .word) : Declarator name [] []
  | pointer {star : Token} {before after : List Token} (hs : star.text = "*")
      (h : Declarator name before after) : Declarator name (star :: before) after
  | parens {opening closing : Token} {before after : List Token} (ho : opening.text = "(")
      (hc : closing.text = ")") (h : Declarator name before after) :
      Declarator name (opening :: before) (after ++ [closing])
  | function {opening closing : Token} {params before after : List Token}
      (ho : opening.text = "(") (hc : closing.text = ")") (hp : Paired (parentheses params))
      (h : Declarator name before after) :
      Declarator name before (after ++ (opening :: params ++ [closing]))

variable {name : Token} {before after : List Token}

theorem not_isParenthesis_iff {t : Token} :
    t.isParenthesis = false ↔ t.text ≠ "(" ∧ t.text ≠ ")" := by
  simp [isParenthesis]

/-- The parentheses of two lists come one behind the other. -/
theorem parentheses_append (ts us : List Token) :
    parentheses (ts ++ us) = parentheses ts ++ parentheses us :=
  List.filter_append ts us

theorem parentheses_single {t : Token} (h : t.isParenthesis = false) : parentheses [t] = [] :=
  List.filter_cons_of_neg (by simp [h])

/-- A group has its own parentheses around those inside. -/
theorem parentheses_group {opening closing : Token} (ho : opening.text = "(")
    (hc : closing.text = ")") (ts : List Token) :
    parentheses (opening :: ts ++ [closing]) = opening :: parentheses ts ++ [closing] := by
  have hopening : opening.isParenthesis = true := by rw [isParenthesis, ho]; rfl
  have hclosing : closing.isParenthesis = true := by rw [isParenthesis, hc]; rfl
  rw [parentheses_append]
  unfold parentheses
  rw [List.filter_cons_of_pos hopening, List.filter_cons_of_pos hclosing, List.filter_nil]

/-- A group whose inside pairs up pairs up. -/
theorem paired_parentheses_group {opening closing : Token} {ts : List Token}
    (ho : opening.text = "(") (hc : closing.text = ")") (h : Paired (parentheses ts)) :
    Paired (parentheses (opening :: ts ++ [closing])) := by
  rw [parentheses_group ho hc]
  exact h.group (by rw [opens_eq, ho]; rfl) (by rw [closes_eq, hc]; rfl)

namespace Declarator

/-- The name of a declarator is a word. -/
theorem kind (h : Declarator name before after) : name.kind = .word := by
  induction h with
  | name hk => exact hk
  | pointer _ _ ih => exact ih
  | parens _ _ _ ih => exact ih
  | function _ _ _ _ ih => exact ih

/-- What a declarator ends in closes something, or is the name. -/
theorem getLast?_after (h : Declarator name before after) :
    ∀ t ∈ after.getLast?, t.text = ")" := by
  induction h with
  | name => exact fun t ht => by cases ht
  | pointer _ _ ih => exact ih
  | parens _ hc =>
    intro t ht
    rw [List.getLast?_concat] at ht
    obtain rfl := Option.some.inj ht
    exact hc
  | function _ hc =>
    intro t ht
    rw [← List.append_assoc, List.getLast?_concat] at ht
    obtain rfl := Option.some.inj ht
    exact hc

/-- A declarator with nothing behind the name has pointers before it. -/
theorem headText_before (h : Declarator name before after) (ha : after = []) :
    headText before ≠ "(" := by
  cases h with
  | name => decide
  | pointer hs => exact fun h => absurd (hs.symm.trans h) (by decide)
  | parens => exact absurd ha (by simp)
  | function => exact absurd ha (by simp)

/-- The parentheses of a declarator pair up. -/
theorem paired (h : Declarator name before after) (hn : name.isParenthesis = false) :
    Paired (parentheses (before ++ name :: after)) := by
  induction h with
  | name =>
    rw [List.nil_append, parentheses_single hn]
    rfl
  | @pointer star before after hs _ ih =>
    have hstar : star.isParenthesis = false :=
      not_isParenthesis_iff.2 ⟨by rw [hs]; decide, by rw [hs]; decide⟩
    rw [List.cons_append, ← List.singleton_append, parentheses_append, parentheses_single hstar]
    exact ih
  | @parens opening closing before after ho hc _ ih =>
    have h := paired_parentheses_group ho hc ih
    simpa using h
  | @function opening closing params before after ho hc hp _ ih =>
    have h := ih.append (paired_parentheses_group ho hc hp)
    rw [← parentheses_append] at h
    simpa using h

end Declarator

/-! ### The scan from behind -/

section Scan

variable {t : Token} {rest : List Token}

/-- The search runs backwards, and so a closing parenthesis opens a level. -/
theorem beforeParameters_closing (depth : Nat) (h : t.text = ")") :
    beforeParameters depth (t :: rest) = beforeParameters (depth + 1) rest := by
  rw [beforeParameters, if_pos h]

theorem beforeParameters_opening (depth : Nat) (h : t.text = "(") :
    beforeParameters (depth + 2) (t :: rest) = beforeParameters (depth + 1) rest := by
  rw [beforeParameters, if_neg (by rw [h]; decide), if_pos h, if_neg (by omega)]
  rfl

/-- The last one to be open ends the search. -/
theorem beforeParameters_last (h : t.text = "(") :
    beforeParameters 1 (t :: rest) = some rest := by
  rw [beforeParameters, if_neg (by rw [h]; decide), if_pos h, if_pos (Nat.le_refl 1)]

/-- All other tokens are passed over. -/
theorem beforeParameters_other (depth : Nat) (h : t.isParenthesis = false) :
    beforeParameters depth (t :: rest) = beforeParameters depth rest := by
  obtain ⟨ho, hc⟩ := not_isParenthesis_iff.1 h
  rw [beforeParameters, if_neg hc, if_neg ho]

/-- The scan passes tokens from behind and counts what they leave open. -/
theorem beforeParameters_append {depth depth' : Nat} {ts : List Token}
    (h : depthBehind depth (parentheses ts) = some depth') (k : Nat) (rest : List Token) :
    beforeParameters (k + depth' + 1) (ts.reverse ++ rest)
      = beforeParameters (k + depth + 1) rest := by
  -- forwards the tokens lead from `depth` to `depth'`, so from behind they lead back; with one more
  -- parenthesis to find the scan does not stop among them
  induction ts generalizing depth rest with
  | nil =>
    obtain rfl := Option.some.inj h
    rfl
  | cons t ts ih =>
    rw [List.reverse_cons, List.append_assoc, List.singleton_append]
    rw [← List.singleton_append, parentheses_append, depthBehind_append] at h
    by_cases ho : t.text = "("
    · have hparenthesis : parentheses [t] = [t] :=
        List.filter_cons_of_pos (by rw [isParenthesis, ho]; rfl)
      have hopens : t.opens = true := by rw [opens_eq, ho]; rfl
      rw [hparenthesis, depthBehind_single, if_pos hopens] at h
      rw [ih h, ← Nat.add_assoc, beforeParameters_opening _ ho]
    by_cases hc : t.text = ")"
    · have hparenthesis : parentheses [t] = [t] :=
        List.filter_cons_of_pos (by rw [isParenthesis, hc]; rfl)
      have hopens : ¬ t.opens = true := by rw [opens_eq, hc]; decide
      have hcloses : t.closes = true := by rw [closes_eq, hc]; rfl
      rw [hparenthesis, depthBehind_single, if_neg hopens, if_pos hcloses] at h
      cases depth with
      | zero => cases h
      | succ d => rw [ih h, beforeParameters_closing _ hc, Nat.add_assoc k d 1]
    have ht : t.isParenthesis = false := not_isParenthesis_iff.2 ⟨ho, hc⟩
    rw [parentheses_single ht] at h
    rw [ih h, beforeParameters_other _ ht]

end Scan

/-- What the scan of a declarator from behind finds: the name right before the parameters at the
end, something that is no word, or what stands before a declarator that begins with a parenthesis.
-/
inductive Found (name : Token) (before after ahead : List Token) : Option (List Token) → Prop
  | name (ha : headText after = "(") (hb : headText before ≠ "(") :
      Found name before after ahead (some (name :: (before.reverse ++ ahead)))
  | other {t : Token} {rest : List Token} (ht : t.kind ≠ .word) :
      Found name before after ahead (some (t :: rest))
  | ahead (hb : headText before = "(") : Found name before after ahead (some ahead)

theorem Token.Lexical.kind_ne_word {ts : List Token} (h : Lexical ts) {t : Token} (ht : t ∈ ts)
    (htext : t.text = "*" ∨ t.text = "(" ∨ t.text = ")") : t.kind ≠ .word := by
  have hm : t.text.toList.head?.any isMark = true := by
    rcases htext with htext | htext | htext <;> rw [htext] <;> rfl
  rw [h t ht hm]
  decide

theorem Token.Lexical.not_isParenthesis {ts : List Token} (h : Lexical ts) {t : Token} (ht : t ∈ ts)
    (hk : t.kind = .word) : t.isParenthesis = false := by
  refine not_isParenthesis_iff.2 ⟨fun htext => ?_, fun htext => ?_⟩
  · exact h.kind_ne_word ht (.inr (.inl htext)) hk
  · exact h.kind_ne_word ht (.inr (.inr htext)) hk

/-- **What the search backwards finds in a declarator.** By induction on the declarator: a star or a
parenthesis in front does not change it, and parameters behind the name are passed over as a group.
-/
theorem Declarator.found (h : Declarator name before after)
    (hlex : Lexical (before ++ name :: after)) (hne : after ≠ []) (ahead : List Token) :
    Found name before after ahead
      (beforeParameters 0 ((before ++ name :: after).reverse ++ ahead)) := by
  induction h generalizing ahead with
  | name => exact absurd rfl hne
  | @pointer star before after hs _ ih =>
    have hsplit : (star :: before ++ name :: after).reverse ++ ahead
        = (before ++ name :: after).reverse ++ star :: ahead := by simp
    have htail : Lexical (before ++ name :: after) := fun t ht => hlex t (List.mem_cons_of_mem _ ht)
    have hstar := hlex.kind_ne_word List.mem_cons_self (.inl hs)
    rw [hsplit]
    -- the star is what stands ahead of the inner declarator, and it is no word
    generalize hresult : beforeParameters 0 _ = result
    have hfound := ih htail hne (star :: ahead)
    rw [hresult] at hfound
    cases hfound with
    | name ha _ =>
      have hsplit : before.reverse ++ star :: ahead = (star :: before).reverse ++ ahead := by simp
      rw [hsplit]
      exact .name ha fun hb => absurd (hs.symm.trans hb) (by decide)
    | other ht => exact .other ht
    | ahead => exact .other hstar
  | @parens opening closing before after ho hc h ih =>
    have hsplit : (opening :: before ++ name :: (after ++ [closing])).reverse ++ ahead
        = closing :: ((before ++ name :: after).reverse ++ opening :: ahead) := by simp
    have hn : name.isParenthesis = false := hlex.not_isParenthesis (by simp) h.kind
    -- the last parenthesis closes the first one, and the scan leaves the declarator
    rw [hsplit, beforeParameters_closing 0 hc]
    have hscan := beforeParameters_append (h.paired hn) 0 (opening :: ahead)
    rw [hscan, beforeParameters_last ho]
    exact .ahead ho
  | @function opening closing params before after ho hc hp h ih =>
    have hsplit : (before ++ name :: (after ++ (opening :: params ++ [closing]))).reverse ++ ahead
        = closing :: (params.reverse ++ opening :: ((before ++ name :: after).reverse ++ ahead)) := by
      simp
    have hscan := beforeParameters_append hp 0
      (opening :: ((before ++ name :: after).reverse ++ ahead))
    rw [hsplit, beforeParameters_closing 0 hc, hscan, beforeParameters_last ho]
    by_cases hafter : after = []
    · subst hafter
      have hresult : (before ++ [name]).reverse ++ ahead = name :: (before.reverse ++ ahead) := by
        simp
      rw [hresult]
      exact .name ho (h.headText_before rfl)
    · -- a parenthesis stands before the parameters
      obtain ⟨init, last, rfl⟩ := (List.eq_nil_or_concat' after).resolve_left hafter
      have hlast := h.getLast?_after last List.getLast?_concat
      have hresult : (before ++ name :: (init ++ [last])).reverse ++ ahead
          = last :: ((before ++ name :: init).reverse ++ ahead) := by simp
      rw [hresult]
      exact .other (hlex.kind_ne_word (by simp) (.inr (.inr hlast)))

/-! ### The first word before a parenthesis -/

/-- A token that no parenthesis stands behind is passed over. -/
theorem firstCallee?_cons {t : Token} {ts : List Token}
    (h : t.kind = .word → headText ts ≠ "(") : firstCallee? (t :: ts) = firstCallee? ts := by
  cases ts with
  | nil => rfl
  | cons u ts => rw [firstCallee?, if_neg fun ⟨hk, hu⟩ => h hk hu]

/-- A word with a parenthesis behind it is found. -/
theorem firstCallee?_found {t : Token} {ts : List Token} (hk : t.kind = .word)
    (h : headText ts = "(") : firstCallee? (t :: ts) = some t.text := by
  cases ts with
  | nil => exact absurd h (by decide)
  | cons u ts => rw [firstCallee?, if_pos ⟨hk, h⟩]

/-- Tokens without parentheses are passed, but for a word at their end. -/
theorem firstCallee?_append {specs ts : List Token} (hs : ∀ t ∈ specs, t.isParenthesis = false)
    (h : ∀ w ∈ specs.getLast?, w.kind = .word → headText ts ≠ "(") :
    firstCallee? (specs ++ ts) = firstCallee? ts := by
  induction specs with
  | nil => rfl
  | cons t specs ih =>
    obtain ⟨ht, hrest⟩ := List.forall_mem_cons.1 hs
    rw [List.cons_append]
    cases specs with
    | nil => exact firstCallee?_cons (h t rfl)
    | cons u specs =>
      have hu : headText (u :: specs ++ ts) ≠ "(" :=
        (not_isParenthesis_iff.1 (hrest u List.mem_cons_self)).1
      rw [firstCallee?_cons fun _ => hu]
      exact ih hrest h

/-- The last specifier is found if a parenthesis stands behind it, since none stands among
specifiers. -/
theorem firstCallee?_specifier {specs ts : List Token} {w : Token}
    (hs : ∀ t ∈ specs, t.isParenthesis = false) (hw : w ∈ specs.getLast?) (hk : w.kind = .word)
    (h : headText ts = "(") : firstCallee? (specs ++ ts) = some w.text := by
  obtain ⟨init, rfl⟩ : ∃ init, specs = init ++ [w] := List.getLast?_eq_some_iff.1 hw
  obtain ⟨hinit, hlast⟩ := List.forall_mem_append.1 hs
  have hw : headText ([w] ++ ts) ≠ "(" :=
    (not_isParenthesis_iff.1 (hlast w List.mem_cons_self)).1
  rw [List.append_assoc, firstCallee?_append hinit fun _ _ _ => hw]
  exact firstCallee?_found hk h

/-- Tokens that are no words are passed over. -/
theorem firstCallee?_behind {ts us : List Token} (h : ∀ t ∈ ts, t.kind ≠ .word) :
    firstCallee? (ts ++ us) = firstCallee? us := by
  induction ts with
  | nil => rfl
  | cons t ts ih =>
    obtain ⟨ht, hrest⟩ := List.forall_mem_cons.1 h
    rw [List.cons_append, firstCallee?_cons fun hk => absurd hk ht, ih hrest]

/-- Before the name of a declarator stand stars and opening parentheses. -/
theorem Declarator.text_of_mem_before (h : Declarator name before after) :
    ∀ t ∈ before, t.text = "*" ∨ t.text = "(" := by
  induction h with
  | name => exact List.forall_mem_nil _
  | pointer hs _ ih => exact List.forall_mem_cons.2 ⟨.inl hs, ih⟩
  | parens ho _ _ ih => exact List.forall_mem_cons.2 ⟨.inr ho, ih⟩
  | function _ _ _ _ ih => exact ih

/-- In a declarator the first word before a parenthesis is the name if parameters are right behind
it, and else in the parameters. -/
theorem Declarator.firstCallee?_eq (h : Declarator name before after)
    (hlex : Lexical (before ++ name :: after)) :
    firstCallee? (before ++ name :: after)
      = if headText after = "(" then some name.text else firstCallee? after := by
  have hbefore : ∀ t ∈ before, t.kind ≠ .word := by
    intro t ht
    have htext := h.text_of_mem_before t ht
    exact hlex.kind_ne_word (List.mem_append_left _ ht) (htext.imp_right .inl)
  rw [firstCallee?_behind hbefore]
  split
  next ha => exact firstCallee?_found h.kind ha
  next ha => exact firstCallee?_cons fun _ => ha

/-! ### Names of functions -/

/-- The name that is read in a header of specifiers and a declarator. -/
theorem functionName_declarator {specs : List Token} (h : Declarator name before after)
    (hne : after ≠ []) (hlex : Lexical (specs ++ (before ++ name :: after)))
    (hs : ∀ t ∈ specs, t.isParenthesis = false) :
    (∀ w ∈ specs.getLast?, w.kind = .word → headText before = "(" →
      functionName (specs ++ (before ++ name :: after)) = w.text) ∧
    ((∀ w ∈ specs.getLast?, w.kind = .word → headText before ≠ "(") →
      functionName (specs ++ (before ++ name :: after))
        = if headText after = "(" then name.text else (firstCallee? after).getD "") := by
  have hlexical : Lexical (before ++ name :: after) :=
    fun t ht => hlex t (List.mem_append_right _ ht)
  have hhead : headText (before ++ name :: after) = "(" ↔ headText before = "(" := by
    cases before with
    | nil =>
      have hn := hlexical.not_isParenthesis (by simp) h.kind
      exact iff_of_false (not_isParenthesis_iff.1 hn).1 (by decide)
    | cons t before => exact Iff.rfl
  have hfound := h.found hlexical hne specs.reverse
  rw [← List.reverse_append] at hfound
  unfold functionName
  generalize hscan : beforeParameters 0 (specs ++ (before ++ name :: after)).reverse = scanned
    at hfound
  constructor
  · intro w hw hk hb
    have hcallee := firstCallee?_specifier hs hw hk (hhead.2 hb)
    rw [hcallee]
    -- whatever the scan finds, the first word before a parenthesis is the specifier too
    cases hfound with
    | name _ hnot => exact absurd hb hnot
    | @other t rest ht => exact if_neg ht
    | ahead =>
      -- the scan has left the declarator and found the specifier itself
      obtain ⟨init, rfl⟩ : ∃ init, specs = init ++ [w] := List.getLast?_eq_some_iff.1 hw
      rw [List.reverse_append]
      exact if_pos hk
  · intro hnot
    have hcallee := firstCallee?_append hs fun w hw hk hb => hnot w hw hk (hhead.1 hb)
    rw [hcallee, h.firstCallee?_eq hlexical]
    have hdefault : (if headText after = "(" then some name.text else firstCallee? after).getD ""
        = if headText after = "(" then name.text else (firstCallee? after).getD "" := by
      split <;> rfl
    rw [hdefault]
    cases hfound with
    | name ha _ => rw [if_pos ha]; exact if_pos h.kind
    | @other t rest ht => exact if_neg ht
    | ahead hb =>
      cases hspecs : specs.reverse with
      | nil => rfl
      | cons w rest =>
        have hw : w ∈ specs.getLast? := by rw [List.getLast?_eq_head?_reverse, hspecs]; rfl
        exact if_neg fun hk => hnot w hw hk hb

/-- Where a function is read: the tokens of its header, which end in a parenthesis, before the brace
of its body. -/
structure Heads (header : List Token) (d : Function) (ts : List Token) : Prop where
  within : ∃ ahead opening behind, ts = ahead ++ (header ++ opening :: behind) ∧
    opening.text = "\x7b"
  text : d.header = verbatim header
  name : d.name = functionName header
  last : ∃ t, header.getLast? = some t ∧ t.text = ")"

/-- A header stands in a longer list too. -/
theorem Heads.widen {header ts us : List Token} {d : Function} (h : Heads header d us)
    (hsuffix : us <:+ ts) : Heads header d ts := by
  obtain ⟨ahead, opening, behind, rfl, hopening⟩ := h.within
  obtain ⟨first, rfl⟩ := hsuffix
  exact { h with within := ⟨first ++ ahead, opening, behind, by simp, hopening⟩ }

namespace Program

/-- Every function among the items has a header in the tokens. By induction on their number: an item
is a directive, ends at a semicolon, or is a function, whose header ends at the brace of its body; a
later function has its header behind the item. -/
theorem exists_heads_of_parseProgramItems {types : List String} {items : List Item} :
    (ts : List Token) → parseProgramItems types ts = .ok items → Lexical ts →
      ∀ d, .function d ∈ items → ∃ header, Heads header d ts
  | [], h, _ => by
    rw [parseProgramItems] at h
    cases h
    exact fun d hd => absurd hd List.not_mem_nil
  | t :: ts, h, hlex => by
    intro d hd
    cases itemBranch_of_parse h with
    | directive _ hrest =>
      have hsuffix := List.suffix_cons t ts
      rcases List.mem_cons.1 hd with hd | hd
      · cases hd
      · obtain ⟨header, hheads⟩ :=
          exists_heads_of_parseProgramItems ts hrest (hlex.of_suffix hsuffix) d hd
        exact ⟨header, hheads.widen hsuffix⟩
    | @verbatim _ _ after _ _ _ hs _ hrest =>
      have hshort := splitItem_length hs
      have hsuffix := suffix_of_splitItem hs
      rcases List.mem_cons.1 hd with hd | hd
      · cases hd
      · obtain ⟨header, hheads⟩ :=
          exists_heads_of_parseProgramItems after hrest (hlex.of_suffix hsuffix) d hd
        exact ⟨header, hheads.widen hsuffix⟩
    | @function _ header after behind opening _ _ _ hs ht hbody hrest =>
      have hshort := splitItem_length hs
      have hbehind := hbody.shorter
      have hafter := suffix_of_splitItem hs
      rcases List.mem_cons.1 hd with hd | hd
      · cases hd
        obtain ⟨hts, hstops⟩ := splitItem_eq_some.1 hs
        -- this one: its header ends at the brace where the item was cut
        have hbrace := text_of_splitItem hs ht
        rw [hbrace] at hstops
        exact ⟨header, ⟨[], opening, after, hts, hbrace⟩, rfl, rfl, header_last hstops⟩
      · obtain ⟨closing, -, hconsumes⟩ :=
          Stmt.consumes_of_parseItems after hbody (hlex.of_suffix hafter)
        -- a later one: its header stands behind the closing brace of the body
        have hsuffix := ((List.suffix_cons closing behind).trans hconsumes.suffix).trans hafter
        obtain ⟨header, hheads⟩ :=
          exists_heads_of_parseProgramItems behind hrest (hlex.of_suffix hsuffix) d hd
        exact ⟨header, hheads.widen hsuffix⟩
termination_by ts => ts.length
decreasing_by
  all_goals simp only [List.length_cons] at *
  all_goals omega

/-- The functions of a program that was read have headers in its tokens. -/
theorem exists_heads_of_parse {source : String} {p : Program} {ts : List Token}
    (hp : Program.parse source = .ok p) (hts : tokenize source = .ok ts) {d : Function}
    (hd : d ∈ p.functions) : ∃ header, Heads header d ts := by
  rw [Program.parse, hts] at hp
  dsimp only at hp
  split at hp
  next => cases hp
  next items hitems =>
    cases hp
    obtain ⟨item, hitem, hfunction⟩ := List.mem_filterMap.1 hd
    cases item with
    | verbatim => cases hfunction
    | function d' =>
      cases hfunction
      exact exists_heads_of_parseProgramItems ts hitems (lexical_of_tokenize hts) d hitem

/-- **The name that is read for a function.** Its header is a stretch of the tokens before a brace.
If that is specifiers without parentheses and a declarator, and the declarator begins with a
parenthesis behind a word, the name is the word, which is a specifier. Otherwise it is the name of
the declarator if parameters are right behind that, and if not, the first word before a parenthesis
further behind. -/
theorem name_of_parse {source : String} {p : Program} {ts : List Token}
    (hp : Program.parse source = .ok p) (hts : tokenize source = .ok ts) {d : Function}
    (hd : d ∈ p.functions) :
    ∃ header, (∃ ahead opening behind, ts = ahead ++ (header ++ opening :: behind) ∧
        opening.text = "\x7b") ∧ d.header = verbatim header ∧
      ∀ specs before name after, header = specs ++ (before ++ name :: after) →
        (∀ t ∈ specs, t.isParenthesis = false) → Declarator name before after →
        (∀ w ∈ specs.getLast?, w.kind = .word → headText before = "(" → d.name = w.text) ∧
        ((∀ w ∈ specs.getLast?, w.kind = .word → headText before ≠ "(") →
          d.name = if headText after = "(" then name.text else (firstCallee? after).getD "") := by
  obtain ⟨header, hheads⟩ := exists_heads_of_parse hp hts hd
  refine ⟨header, hheads.within, hheads.text, ?_⟩
  rintro specs before name after rfl hs h
  have hlex : Lexical (specs ++ (before ++ name :: after)) := by
    obtain ⟨ahead, opening, behind, rfl, -⟩ := hheads.within
    exact fun t ht =>
      lexical_of_tokenize hts t (List.mem_append_right _ (List.mem_append_left _ ht))
  -- a header ends in a parenthesis, and so not in a name
  have hne : after ≠ [] := by
    rintro rfl
    obtain ⟨t, hlast, ht⟩ := hheads.last
    rw [← List.append_assoc, List.getLast?_concat] at hlast
    obtain rfl := Option.some.inj hlast
    exact hlex.kind_ne_word (by simp) (.inr (.inr ht)) h.kind
  rw [hheads.name]
  exact functionName_declarator h hne hlex hs

end Program

/-- A header before a brace is the only stretch of tokens there that is written like it, if all
stretches up to a brace that are written so are one. -/
theorem eq_of_within {header known ts : List Token}
    (h : ∃ ahead opening behind, ts = ahead ++ (header ++ opening :: behind) ∧
      opening.text = "\x7b")
    (hall : ∀ n < ts.length, ts[n]?.map Token.text = some "\x7b" → ∀ m ≤ n,
      verbatim ((ts.take n).drop m) = verbatim known → (ts.take n).drop m = known)
    (htext : verbatim header = verbatim known) : header = known := by
  obtain ⟨ahead, opening, behind, rfl, hopening⟩ := h
  have hslice : ((ahead ++ (header ++ opening :: behind)).take (ahead ++ header).length).drop
      ahead.length = header := by
    rw [← List.append_assoc, List.take_left, List.drop_left]
  have heq := hall (ahead ++ header).length (by simp) (by simp [hopening]) ahead.length (by simp)
  rw [hslice] at heq
  exact heq htext

/-- The declarator of a function without parameters that returns a pointer to another. -/
theorem declarator_returning {o star o' c' c o₂ c₂ : Token} (hk : name.kind = .word)
    (ho : o.text = "(") (hs : star.text = "*") (ho' : o'.text = "(") (hc' : c'.text = ")")
    (hc : c.text = ")") (ho₂ : o₂.text = "(") (hc₂ : c₂.text = ")") :
    Declarator name [o, star] [o', c', c, o₂, c₂] := by
  have hnone : Paired (parentheses []) := rfl
  have hcall : Declarator name [] ([] ++ (o' :: [] ++ [c'])) := .function ho' hc' hnone (.name hk)
  have hparens : Declarator name [o, star] ([o', c'] ++ [c]) := .parens ho hc (.pointer hs hcall)
  have hreturned : Declarator name [o, star] ([o', c', c] ++ (o₂ :: [] ++ [c₂])) :=
    .function ho₂ hc₂ hnone hparens
  exact hreturned

/-- A function that returns a pointer to a function. -/
def returningSource : String :=
  "int (*f())() \x7b\x7d"

/-- Its tokens. -/
def returningTokens : List Token :=
  [⟨.word, "", "int", 0, 1⟩, ⟨.punctuation, " ", "(", 4, 1⟩, ⟨.punctuation, "", "*", 5, 1⟩,
    ⟨.word, "", "f", 6, 1⟩, ⟨.punctuation, "", "(", 7, 1⟩, ⟨.punctuation, "", ")", 8, 1⟩,
    ⟨.punctuation, "", ")", 9, 1⟩, ⟨.punctuation, "", "(", 10, 1⟩,
    ⟨.punctuation, "", ")", 11, 1⟩, ⟨.punctuation, " ", "\x7b", 13, 1⟩,
    ⟨.punctuation, "", "\x7d", 14, 1⟩]

/-- A function that returns a pointer. -/
def pointingSource : String :=
  "int *g(int x) \x7b\x7d"

/-- Its tokens. -/
def pointingTokens : List Token :=
  [⟨.word, "", "int", 0, 1⟩, ⟨.punctuation, " ", "*", 4, 1⟩, ⟨.word, "", "g", 5, 1⟩,
    ⟨.punctuation, "", "(", 6, 1⟩, ⟨.word, "", "int", 7, 1⟩, ⟨.word, " ", "x", 11, 1⟩,
    ⟨.punctuation, "", ")", 12, 1⟩, ⟨.punctuation, " ", "\x7b", 14, 1⟩,
    ⟨.punctuation, "", "\x7d", 15, 1⟩]

/-- The declarator of the first begins with a parenthesis behind `int`, and that is the name. The
one of the second does not, and its own name is found. -/
theorem name_of_parse_pointers :
    (∃ p d, Program.parse returningSource = .ok p ∧
      tokenize returningSource = .ok returningTokens ∧ d ∈ p.functions ∧
      d.header = "int (*f())()" ∧ d.name = "int") ∧
    ∃ p d, Program.parse pointingSource = .ok p ∧
      tokenize pointingSource = .ok pointingTokens ∧ d ∈ p.functions ∧
      d.header = "int *g(int x)" ∧ d.name = "g" := by
  constructor
  · have hall : ∃ p, Program.parse returningSource = .ok p ∧
        ∃ d ∈ p.functions, d.header = "int (*f())()" := by decide +kernel
    obtain ⟨p, hp, d, hd, hheader⟩ := hall
    have hts : tokenize returningSource = .ok returningTokens := by decide +kernel
    obtain ⟨header, hwithin, htext, hname⟩ := Program.name_of_parse hp hts hd
    have hsplit : header = returningTokens.take 9 :=
      eq_of_within hwithin (by decide) (htext.symm.trans hheader)
    obtain ⟨hspecifier, -⟩ := hname [_] [_, _] _ [_, _, _, _, _] hsplit (by decide)
      (declarator_returning rfl rfl rfl rfl rfl rfl rfl rfl)
    exact ⟨p, d, hp, hts, hd, hheader, hspecifier _ rfl rfl rfl⟩
  · have hall : ∃ p, Program.parse pointingSource = .ok p ∧
        ∃ d ∈ p.functions, d.header = "int *g(int x)" := by decide +kernel
    obtain ⟨p, hp, d, hd, hheader⟩ := hall
    have hts : tokenize pointingSource = .ok pointingTokens := by decide +kernel
    obtain ⟨header, hwithin, htext, hname⟩ := Program.name_of_parse hp hts hd
    have hsplit : header = pointingTokens.take 7 :=
      eq_of_within hwithin (by decide) (htext.symm.trans hheader)
    have hcall : Declarator ⟨.word, "", "g", 5, 1⟩ [] ([] ++ (⟨.punctuation, "", "(", 6, 1⟩ ::
        [⟨.word, "", "int", 7, 1⟩, ⟨.word, " ", "x", 11, 1⟩] ++ [⟨.punctuation, "", ")", 12, 1⟩])) :=
      .function rfl rfl rfl (.name rfl)
    obtain ⟨-, hdeclared⟩ := hname [_] [⟨.punctuation, " ", "*", 4, 1⟩] _ _ hsplit (by decide)
      (.pointer rfl hcall)
    exact ⟨p, d, hp, hts, hd, hheader, hdeclared (fun _ _ _ => by decide)⟩

/-- The name of a function that returns a pointer to a function is not found, but a specifier. -/
theorem not_name_of_parse : ¬ ∀ (source : String) (p : Program) (ts : List Token) (d : Function)
    (header specs before : List Token) (name : Token) (after : List Token),
    Program.parse source = .ok p → tokenize source = .ok ts → d ∈ p.functions →
    (∃ ahead opening behind, ts = ahead ++ (header ++ opening :: behind) ∧
      opening.text = "\x7b") → d.header = verbatim header →
    header = specs ++ (before ++ name :: after) → (∀ t ∈ specs, t.isParenthesis = false) →
    Declarator name before after → d.name = name.text := by
  intro h
  have hall : ∃ p, Program.parse returningSource = .ok p ∧
      ∃ d ∈ p.functions, d.header = "int (*f())()" ∧ d.name = "int" := by decide +kernel
  obtain ⟨p, hp, d, hd, hheader, hname⟩ := hall
  have hts : tokenize returningSource = .ok returningTokens := by decide +kernel
  have hfound := h returningSource p _ d _ [_] [_, _] _ [_, _, _, _, _] hp hts hd
    ⟨[], _, [_], rfl, rfl⟩ (hheader.trans (by decide)) rfl (by decide)
    (declarator_returning rfl rfl rfl rfl rfl rfl rfl rfl)
  rw [hname] at hfound
  exact absurd hfound (by decide)

end WitnessReplay
