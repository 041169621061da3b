import WitnessReplay.Proofs.Program.Items
import WitnessReplay.Proofs.Program.Printing

/-!
# Printing and reading programs

A program that was read is printed as a text that consists of the tokens it was read from, and
reading that text gives the same program on other lines. `Regular` collects what this takes:
brackets nest, no number sign stands for itself, a directive in a function is a statement, and no
directive asks for the next line.
-/

namespace WitnessReplay

open Token

/-! ### Function bodies -/

/-- The tokens of the function bodies, each through its closing brace. -/
def functionBodies (types : List String) (ts : List Token) : List (List Token) :=
  match ts with
  | [] => []
  | t :: rest =>
    if t.kind = .directive then functionBodies types rest
    else
      match h : splitItem 0 "" (t :: rest) with
      | none => []
      | some (before, last, after) =>
        have := splitItem_length h
        if last.text = ";" then functionBodies ((typedefName? before).toList ++ types) after
        else
          match Stmt.parseItems types after with
          | .error _ => []
          | .ok body =>
            have := body.shorter
            after.take (after.length - body.rest.length) :: functionBodies types body.rest
termination_by ts.length
decreasing_by
  all_goals simp only [List.length_cons] at *
  all_goals omega

section

variable {types : List String} {ts : List Token}

theorem functionBodies_directive {t : Token} (hk : t.kind = .directive) :
    functionBodies types (t :: ts) = functionBodies types ts := by
  rw [functionBodies, if_pos hk]

theorem functionBodies_verbatim {before after : List Token} {semicolon : Token}
    (hk : headKind? ts ≠ some .directive)
    (hs : splitItem 0 "" ts = some (before, semicolon, after)) (ht : semicolon.text = ";") :
    functionBodies types ts = functionBodies ((typedefName? before).toList ++ types) after := by
  cases ts with
  | nil => cases hs
  | cons t ts =>
    rw [functionBodies, if_neg fun h => hk (congrArg some h)]
    split
    next hs' => rw [hs] at hs'; cases hs'
    next hs' =>
      rw [hs] at hs'
      cases hs'
      rw [if_pos ht]

/-- The body of a function goes up to where the next item begins. -/
theorem functionBodies_function {header after behind : List Token} {opening : Token}
    {body : List Stmt} (hk : headKind? ts ≠ some .directive)
    (hs : splitItem 0 "" ts = some (header, opening, after)) (ht : opening.text ≠ ";")
    (hb : Reads (Stmt.parseItems types after) body behind) :
    functionBodies types ts
      = after.take (after.length - behind.length) :: functionBodies types behind := by
  cases ts with
  | nil => cases hs
  | cons t ts =>
    rw [functionBodies, if_neg fun h => hk (congrArg some h)]
    split
    next hs' => rw [hs] at hs'; cases hs'
    next hs' =>
      rw [hs] at hs'
      cases hs'
      obtain ⟨_, hb⟩ := hb.eq_ok
      rw [if_neg ht, hb]

end

/-! ### Top-level items -/

/-- Tokens that are spelled like others and that the same items are read from, but for lines. -/
def SameItems (types : List String) (items : List Item) (printed vs : List Token) : Prop :=
  Alike vs printed ∧ ∃ items' : List Item, items'.map Item.eraseLines = items.map Item.eraseLines ∧
    Program.ReadItems types items' vs vs

/-- What does not begin with a hash is no directive. -/
theorem Token.Copyable.undirected {t : Token} (h : Copyable [t])
    (ht : t.text.toList.head? ≠ some '#') : t.kind ≠ .directive := by
  intro hk
  obtain ⟨_, _, -, -, -, hstands, -⟩ := h.stood
  obtain ⟨-, cs, htext, -⟩ := hstands.of_directive hk
  rw [htext] at ht
  exact ht rfl

variable {types : List String}

/-- A directive is the same item if it is the same token. -/
theorem SameItems.of_directive {t : Token} {items : List Item} {printed vs : List Token}
    (hk : t.kind = .directive) (h : Both (Is t) (SameItems types items printed) vs) :
    SameItems types (.verbatim t.text t.line :: items) (t :: printed) vs := by
  obtain ⟨_, vs', rfl, ⟨t', rfl, hk', ht'⟩, ha, items', hitems, hread⟩ := h
  refine ⟨.cons hk' ht' ha, .verbatim t'.text t'.line :: items', ?_,
    .directive (hk'.trans hk) hread⟩
  simp only [List.map_cons, Item.eraseLines, hitems, ht']

/-- A declaration is the same if it is spelled and written alike. -/
theorem SameItems.of_verbatim {before printed vs : List Token} {semicolon : Token}
    {items : List Item} {line : Option Nat}
    (hk : headKind? (before ++ [semicolon]) ≠ some .directive)
    (hs : Stops itemStep (0, "") (texts before) semicolon.text) (ht : semicolon.text = ";")
    (h : Both (fun vs => Alike vs (before ++ [semicolon]) ∧
        verbatim vs = verbatim (before ++ [semicolon]))
      (SameItems ((typedefName? before).toList ++ types) items printed) vs) :
    SameItems types (.verbatim (verbatim (before ++ [semicolon])) line :: items)
      (before ++ semicolon :: printed) vs := by
  obtain ⟨copy, vs', rfl, ⟨ha, hv⟩, ha', items', hitems, hread⟩ := h
  obtain ⟨before', last, rfl, hbefore, hlast⟩ := ha.symm.of_append
  obtain ⟨semicolon', rfl, hks, hts⟩ := hlast.symm.exists_singleton
  rw [List.append_assoc]
  refine ⟨hbefore.symm.append (.cons hks hts ha'), .verbatim (verbatim (before' ++ [semicolon']))
    (firstLine (before' ++ [semicolon'])) :: items', ?_, .verbatim (ha.headKind?_eq ▸ hk) ?_
      (hts.trans ht) ?_⟩
  · simp only [List.map_cons, Item.eraseLines, hitems, hv]
  · rw [← hbefore.texts_eq, hts]
    exact hs
  · rw [← typedefName?_alike hbefore]
    exact hread

/-- A function is the same if its header is spelled and written alike and its body is the same. -/
theorem SameItems.of_function {header printed printed' vs : List Token} {opening closing : Token}
    {body : List Stmt} {items : List Item} {line line' : Option Nat}
    (hk : headKind? header ≠ some .directive)
    (hs : Stops itemStep (0, "") (texts header) "\x7b") (ho : opening.text = "\x7b")
    (hc : closing.text = "\x7d")
    (h : Both (fun vs => Alike vs header ∧ verbatim vs = verbatim header)
      (Both (Is opening) (Both (SameStmts types body printed)
        (Both (Is closing) (SameItems types items printed')))) vs) :
    SameItems types
      (.function ⟨verbatim header, functionName header, .block line body, line'⟩ :: items)
      (header ++ opening :: (printed ++ closing :: printed')) vs := by
  obtain ⟨header', _, rfl, ⟨ha, hv⟩, _, _, rfl, ⟨opening', rfl, hko, hto⟩, _, _, rfl,
    ⟨hbody, body', hitems, hread⟩, _, _, rfl, ⟨closing', rfl, hkc, htc⟩, hrest, items', hitems',
    hread'⟩ := h
  refine ⟨ha.append (.cons hko hto (hbody.append (.cons hkc htc hrest))),
    .function ⟨verbatim header', functionName header', .block (some opening'.line) body',
      firstLine header'⟩ :: items', ?_, ?_⟩
  · simp only [List.map_cons, Item.eraseLines, Stmt.eraseLines, hitems, hitems', hv,
      functionName_alike ha]
  · exact .function (ha.headKind?_eq ▸ hk) (ha.texts_eq ▸ hs) (hto.trans ho) (htc.trans hc) hread
      hread'

/-- A brace that has a line of its own. -/
theorem Token.Copyable.prints_brace {t : Token} {text : String} (h : Copyable [t])
    (ht : t.text = text) (hb : text = "\x7b" ∨ text = "\x7d") (depth : Nat) :
    PrintsLines (Is t) (Line.render ⟨depth, text⟩) := by
  have hk : t.kind ≠ .directive := by
    refine h.undirected ?_
    rcases hb with rfl | rfl <;> rw [ht] <;> decide
  exact h.prints_mark hk ht (by rcases hb with rfl | rfl <;> decide) depth

/-- A function header ends in a parenthesis, so it is read back whatever is in it. -/
theorem Token.Copyable.prints_header {header : List Token} (h : Copyable header)
    (hk : headKind? header ≠ some .directive)
    (hs : Stops itemStep (0, "") (texts header) "\x7b") :
    Prints Breaks (fun vs => Alike vs header ∧ verbatim vs = verbatim header)
      (verbatim header) := by
  refine h.prints (header_ne_nil hs) hk fun t ht => ?_
  obtain ⟨u, hu, htext⟩ := header_last hs
  obtain rfl : u = t := by rw [hu] at ht; simpa using ht
  obtain ⟨init, rfl⟩ := List.getLast?_eq_some_iff.1 hu
  exact ⟨h.right.undirected (by rw [htext]; decide), by rw [htext]; decide⟩

/-- Where the bodies begin behind a declaration. -/
theorem functionBodies_of_verbatim {before ts : List Token} {semicolon : Token}
    (hk : headKind? (before ++ [semicolon]) ≠ some .directive)
    (hs : Stops itemStep (0, "") (texts before) semicolon.text) (ht : semicolon.text = ";") :
    functionBodies types (before ++ semicolon :: ts)
      = functionBodies ((typedefName? before).toList ++ types) ts := by
  have hkind : headKind? (before ++ semicolon :: ts) = headKind? (before ++ [semicolon]) := by
    cases before <;> rfl
  exact functionBodies_verbatim (hkind ▸ hk) (splitItem_eq_some.2 ⟨rfl, hs⟩) ht

/-- Where the bodies begin behind a function. -/
theorem functionBodies_of_function {header ts us printed : List Token} {opening closing : Token}
    {body : List Stmt} (hk : headKind? header ≠ some .directive)
    (hs : Stops itemStep (0, "") (texts header) "\x7b") (ho : opening.text = "\x7b")
    (hc : closing.text = "\x7d") (hb : Stmt.ReadAll types body ts printed) :
    functionBodies types (header ++ opening :: (ts ++ closing :: us))
      = (ts ++ [closing]) :: functionBodies types us := by
  obtain ⟨t, header, rfl⟩ := List.exists_cons_of_ne_nil (header_ne_nil hs)
  have hhead : headKind? (t :: header ++ opening :: (ts ++ closing :: us)) ≠ some .directive := hk
  rw [functionBodies_function hhead (splitItem_eq_some.2 ⟨rfl, ho ▸ hs⟩) (by rw [ho]; decide)
    (hb.parse body hc)]
  have hlength : (ts ++ closing :: us).length - us.length = (ts ++ [closing]).length := by
    simp only [List.length_append, List.length_cons, List.length_nil]
    omega
  rw [hlength, show ts ++ closing :: us = ts ++ [closing] ++ us by simp, List.take_left]

/-- Every directive that is a statement is a token in the body of a function. -/
theorem Program.ReadItems.directives_le {items : List Item} {ts printed : List Token}
    (h : Program.ReadItems types items ts printed) :
    (items.flatMap Item.directives).length ≤ directiveCount (functionBodies types ts).flatten := by
  induction h with
  | nil => simp
  | directive hk _ ih =>
    rw [functionBodies_directive hk]
    simpa [Item.directives] using ih
  | verbatim hk hs ht _ ih =>
    rw [functionBodies_of_verbatim hk hs ht]
    simpa [Item.directives] using ih
  | @function types opening closing items body header ts us printed printed' hk hs ho hc hb _ ih =>
    rw [functionBodies_of_function hk hs ho hc hb]
    have := hb.directives_le
    simp only [List.flatMap_cons, Item.directives, Stmt.directives, List.length_append,
      List.flatten_cons, directiveCount_append]
    omega

/-- **Top-level items are read back from their printed lines**, but for their numbers. -/
theorem Program.ReadItems.prints {items : List Item} {ts printed : List Token}
    (h : Program.ReadItems types items ts printed) (he : Excerpt ts)
    (hd : directiveCount (functionBodies types ts).flatten
      ≤ (items.flatMap Item.directives).length) :
    PrintsLines (SameItems types items printed) (textOf (items.flatMap Item.lines)) := by
  induction h with
  | nil => exact PrintsLines.nil ⟨.refl _, [], rfl, .nil⟩
  | @directive types t items ts printed hk h ih =>
    rw [functionBodies_directive hk] at hd
    have hone := PrintsLines.directive he.head.toCopyable hk
    refine ((hone.seq (ih he.tail hd)).imp fun vs hvs => SameItems.of_directive hk hvs).of_eq ?_
    simp [Item.lines]
  | @verbatim types semicolon items before ts printed hk hs ht h ih =>
    rw [functionBodies_of_verbatim hk hs ht] at hd
    rw [show before ++ semicolon :: ts = before ++ [semicolon] ++ ts by simp] at he
    have hlast := he.left.right.toCopyable.undirected (by rw [ht]; decide)
    have hone := PrintsLines.line (he.left.toCopyable.prints (by simp) hk fun t ht' => by
      obtain rfl : t = semicolon := by simpa [eq_comm] using ht'
      exact ⟨hlast, by rw [ht]; decide⟩) (fun vs hvs => hvs.1.ne_nil (by simp)) 0
    refine ((hone.seq (ih he.right hd)).imp
      fun vs hvs => SameItems.of_verbatim hk hs ht hvs).of_eq ?_
    simp [Item.lines]
  | @function types opening closing items body header ts us printed printed' hk hs ho hc hb h ih =>
    rw [functionBodies_of_function hk hs ho hc hb] at hd
    have hle := hb.directives_le
    have hle' := h.directives_le
    -- the directives of the body and of the items behind it are counted apart, so both have enough
    simp only [List.flatMap_cons, Item.directives, Stmt.directives, List.length_append,
      List.flatten_cons, directiveCount_append] at hd
    have hheader := PrintsLines.line (he.left.toCopyable.prints_header hk hs)
      (fun vs hvs => hvs.1.ne_nil (header_ne_nil hs)) 0
    have hopening := he.right.head.toCopyable.prints_brace ho (.inl rfl) 0
    have hbody := hb.prints 1 body he.right.tail.left (by omega)
    have hclosing := he.right.tail.right.head.toCopyable.prints_brace hc (.inr rfl) 0
    have hrest := ih he.right.tail.right.tail (by omega)
    refine ((hheader.seq (hopening.seq (hbody.seq (hclosing.seq hrest)))).imp fun vs hvs =>
      SameItems.of_function hk hs ho hc hvs).of_eq ?_
    simp [Item.lines, Stmt.lines]

/-! ### Regular sources -/

/-- The texts of the directives among some tokens. -/
def directiveTexts (ts : List Token) : List String :=
  (ts.filter fun t => t.kind = .directive).map Token.text

/-- What the tokens of a program have to satisfy to be kept by printing. -/
structure Regular (ts : List Token) (p : Program) : Prop where
  nested : Nested ts
  /-- A number sign is part of a directive. -/
  marked : ∀ t ∈ ts, t.kind = .punctuation → t.text.toList.head? ≠ some '#'
  /-- Every directive in the body of a function is a statement. -/
  stated : directiveTexts (functionBodies standardTypes ts).flatten = p.directives
  ended : ∀ t ∈ ts, t.kind = .directive → t.text.toList.getLast? ≠ some '\\'

instance (ts : List Token) (p : Program) : Decidable (Regular ts p) :=
  decidable_of_iff (Nested ts ∧ (∀ t ∈ ts, t.kind = .punctuation → t.text.toList.head? ≠ some '#') ∧
      directiveTexts (functionBodies standardTypes ts).flatten = p.directives ∧
      ∀ t ∈ ts, t.kind = .directive → t.text.toList.getLast? ≠ some '\\')
    ⟨fun ⟨h₁, h₂, h₃, h₄⟩ => ⟨h₁, h₂, h₃, h₄⟩, fun ⟨h₁, h₂, h₃, h₄⟩ => ⟨h₁, h₂, h₃, h₄⟩⟩

/-- A lexeme that begins with a number sign is a directive or a punctuator. -/
theorem Token.Stands.kind_of_mark {fresh : Bool} {t : Token} {after : List Char}
    (h : t.Stands fresh after) (hc : t.text.toList.head? = some '#') :
    t.kind = .directive ∨ t.kind = .punctuation := by
  obtain ⟨-, c, cs, htext, hlex⟩ := h
  rw [htext] at hc
  obtain rfl : c = '#' := by simpa using hc
  rw [lexeme.eq_def] at hlex
  split at hlex
  next =>
    injection hlex with hlex
    injection hlex with hkind
    exact .inl hkind.symm
  · rw [if_neg (by decide), if_neg (by simp), if_neg (by decide), if_neg (by simp)] at hlex
    injection hlex with hlex
    injection hlex with hkind
    exact .inr hkind.symm

theorem Token.Lexed.line_pos {place : Cursor} {ts : List Token} {after : List Char}
    (h : Lexed place ts after) (hp : 0 < place.line) : ∀ t ∈ ts, 0 < t.line := by
  induction ts generalizing place with
  | nil => simp
  | cons t ts ih =>
    obtain ⟨-, -, hline, -, hrest⟩ := h
    refine List.forall_mem_cons.2 ⟨?_, ih hrest ?_⟩
    · rw [hline]
      exact Nat.add_pos_left hp _
    · exact Nat.add_pos_left (Nat.add_pos_left hp _) _

/-- The tokens of a text can be copied, if number signs are parts of directives and no directive
asks for the next line. -/
theorem Token.Lexed.copyable {place : Cursor} {ts : List Token} {after : List Char}
    (hl : Lexed place ts after)
    (hmarked : ∀ t ∈ ts, t.kind = .punctuation → t.text.toList.head? ≠ some '#')
    (hended : ∀ t ∈ ts, t.kind = .directive → t.text.toList.getLast? ≠ some '\\') :
    Copyable ts := by
  refine ⟨⟨place, after, hl⟩, fun t ht hk hc => ?_, hended⟩
  obtain ⟨fresh, y, hstands⟩ := hl.stands t ht
  rcases hstands.kind_of_mark hc with hkind | hkind
  · exact hk hkind
  · exact hmarked t ht hkind hc

/-- The tokens of a regular source are an excerpt. -/
theorem Regular.excerpt {place : Cursor} {ts : List Token} {after : List Char} {p : Program}
    (h : Regular ts p) (hl : Lexed place ts after) : Excerpt ts :=
  ⟨hl.copyable h.marked h.ended, [], [], h.nested⟩

/-- All its directives are statements or items. -/
theorem Regular.directives_eq {ts : List Token} {p : Program} (h : Regular ts p) :
    directiveCount (functionBodies standardTypes ts).flatten = p.directives.length := by
  rw [← h.stated, directiveTexts, List.length_map, ← List.countP_eq_length_filter]
  rfl

/-! ### Programs -/

/-- A source that is read has tokens, and these are read as items. -/
theorem Program.parse_eq_ok {source : String} {p : Program} (h : Program.parse source = .ok p) :
    ∃ ts, tokenize source = .ok ts ∧ parseProgramItems standardTypes ts = .ok p.items := by
  rw [Program.parse] at h
  split at h
  next => cases h
  next ts hts =>
    split at h
    next => cases h
    next items hitems =>
      cases h
      exact ⟨ts, hts, hitems⟩

/-- What is printed in lines is read as tokens again. -/
theorem PrintsLines.exists_tokenize {Q : List Token → Prop} {text : String}
    (h : PrintsLines Q text) : ∃ vs, tokenize text = .ok vs ∧ Q vs := by
  obtain ⟨vs, trail, hq, hlaid, hlined⟩ := h .start "" .nil rfl
  refine ⟨vs, ?_, hq⟩
  have htext : text.toList = (spaced vs).toList ++ trail.toList := by
    rw [← String.toList_append, ← hlaid.text_eq, String.empty_append]
  rw [tokenize, htext]
  refine tokenizeFrom_of_lexed ?_ ?_
  · -- each line is ended, so every token is read before the line end behind it
    by_cases hvs : vs = []
    · rw [hvs]
      trivial
    · obtain ⟨b, hb, rfl⟩ := hlined.of_ne_nil hvs
      have hbreaks := hb.leads_newline "" []
      rw [String.append_empty] at hbreaks
      have := hlaid.lexed [] hbreaks
      rwa [List.append_nil] at this
  · have hgap : Gap trail.toList := by
      by_cases hvs : vs = []
      · rw [hlined.of_nil hvs]
        exact .nil
      · obtain ⟨b, hb, rfl⟩ := hlined.of_ne_nil hvs
        exact hb.gap_newline
    have hsplit : splitGap (trail.toList ++ []) = (trail.toList, []) :=
      splitGap_of_gap hgap (by rfl)
    rw [List.append_nil] at hsplit
    rw [hsplit]

/-- A program that was read from regular tokens is printed as tokens spelled like them. -/
theorem Program.Read.tokenize_eq {p : Program} {ts printed : List Token} {after : List Char}
    (h : p.Read ts printed) (hr : Regular ts p) (hl : Lexed .start ts after) :
    ∃ vs, tokenize p.render = .ok vs ∧ SameItems standardTypes p.items printed vs :=
  (Program.ReadItems.prints h (hr.excerpt hl) (Nat.le_of_eq hr.directives_eq)).exists_tokenize

/-- A source with a type definition, a directive, a comment, an empty argument and a label that
closes its block. -/
def labelledSource : String :=
  "typedef int num;\nint f(num x) \x7b\n#define N 1\n  if (x == 1) /* out */ goto end;\n" ++
    "  x = g(N, , x);\n  end:\n\x7d\n"

theorem labelledSource_regular : ∃ p ts, Program.parse labelledSource = .ok p ∧
    tokenize labelledSource = .ok ts ∧ Regular ts p := by
  have hall : ∃ p, Program.parse labelledSource = .ok p ∧
      ∃ ts, tokenize labelledSource = .ok ts ∧ Regular ts p := by decide +kernel
  obtain ⟨p, hp, ts, hts, hr⟩ := hall
  exact ⟨p, ts, hp, hts, hr⟩

section

variable {source : String} {p : Program} {ts : List Token}

/-- What was read from a regular source is derived by the grammar. -/
theorem Regular.read (hr : Regular ts p) (hp : Program.parse source = .ok p)
    (ht : tokenize source = .ok ts) :
    ∃ printed after, p.Read ts printed ∧ Lexed .start ts after := by
  obtain ⟨ts', ht', hitems⟩ := Program.parse_eq_ok hp
  rw [ht] at ht'
  cases ht'
  obtain ⟨printed, hread⟩ := Program.readItems_of_parse ts hitems ⟨[], [], hr.nested⟩
  obtain ⟨after, -, hl, -⟩ := lexed_of_tokenizeFrom ht
  exact ⟨printed, after, hread, hl⟩

/-- **Reading and printing a program keeps its tokens.** The printed text consists of the tokens of
the source, in kind and text, with a semicolon behind each label that closes its block. -/
theorem Program.tokenize_render (hp : Program.parse source = .ok p) (ht : tokenize source = .ok ts)
    (hr : Regular ts p) :
    ∃ printed vs, p.Read ts printed ∧ printed.filter isSource = ts ∧
      tokenize p.render = .ok vs ∧ vs.map spelling = printed.map spelling := by
  obtain ⟨printed, after, hread, hl⟩ := hr.read hp ht
  obtain ⟨vs, hvs, halike, -⟩ := hread.tokenize_eq hr hl
  refine ⟨printed, vs, hread, hread.filter_printed fun t htoken => ?_, hvs, halike⟩
  -- no token of a text is on the line of an inserted semicolon
  have hline := hl.line_pos (by decide) t htoken
  simp only [isSource, bne_iff_ne]
  intro heq
  subst heq
  cases hline

theorem tokenize_render_labelledSource : ∃ p ts, Program.parse labelledSource = .ok p ∧
    tokenize labelledSource = .ok ts ∧ Regular ts p ∧
      ∃ printed vs, p.Read ts printed ∧ printed.filter isSource = ts ∧
        tokenize p.render = .ok vs ∧ vs.map spelling = printed.map spelling := by
  obtain ⟨p, ts, hp, ht, hr⟩ := labelledSource_regular
  exact ⟨p, ts, hp, ht, hr, Program.tokenize_render hp ht hr⟩

/-- **Reading undoes printing.** The printed text of a program that was read from a regular source
is read as the same program on other lines, and printed as the same text again. -/
theorem Program.parse_render (hp : Program.parse source = .ok p) (ht : tokenize source = .ok ts)
    (hr : Regular ts p) :
    ∃ p', Program.parse p.render = .ok p' ∧ p'.eraseLines = p.eraseLines ∧
      p'.render = p.render := by
  obtain ⟨printed, after, hread, hl⟩ := hr.read hp ht
  obtain ⟨vs, hvs, -, items, hitems, hread'⟩ := hread.tokenize_eq hr hl
  have herase : (Program.mk items).eraseLines = p.eraseLines := by
    rw [Program.eraseLines, hitems, Program.eraseLines]
  refine ⟨⟨items⟩, ?_, herase, ?_⟩
  · rw [Program.parse, hvs]
    dsimp only
    rw [hread'.parse]
  · rw [← Program.render_eraseLines, herase, Program.render_eraseLines]

theorem parse_render_labelledSource : ∃ p ts, Program.parse labelledSource = .ok p ∧
    tokenize labelledSource = .ok ts ∧ Regular ts p ∧
      ∃ p', Program.parse p.render = .ok p' ∧ p'.eraseLines = p.eraseLines ∧
        p'.render = p.render := by
  obtain ⟨p, ts, hp, ht, hr⟩ := labelledSource_regular
  exact ⟨p, ts, hp, ht, hr, Program.parse_render hp ht hr⟩

end

end WitnessReplay
