import WitnessReplay.Proofs.Program.Declarator
import WitnessReplay.Proofs.Program.Respacing
import WitnessReplay.Proofs.Replay.Linking

/-!
# What linking makes of each item

Linking rewrites the headers of functions and nothing else: behind the prototypes every item stands
in its old place (`linked_of_parseSanitized`). A header is rewritten word by word. Where its words
are made of whole tokens that is the same as token by token; but a line marker in a header is no
longer one when all words are put on one line (`not_tokens_of_relinked`).
-/

namespace WitnessReplay

open Text Token

/-! ### Words of a header -/

theorem ofList_toList_map (ws : List String) :
    (ws.map String.toList).map String.ofList = ws := by
  simp [Function.comp_def]

theorem toList_withoutWords (dropped : List String) (header : String) :
    (withoutWords dropped header).toList
      = List.intercalate [' ']
        (((headerWords header).filter fun w => w ∉ dropped).map String.toList) := by
  rw [withoutWords, String.toList_intercalate]
  congr 3
  funext w
  simp

/-- What is written without some words has the others. -/
theorem headerWords_withoutWords (dropped : List String) (header : String) :
    headerWords (withoutWords dropped header)
      = (headerWords header).filter fun w => w ∉ dropped := by
  rw [headerWords, toList_withoutWords, words_intercalate, ofList_toList_map]
  intro w hw
  obtain ⟨v, hv, rfl⟩ := List.mem_map.1 hw
  obtain ⟨u, hu, rfl⟩ := List.mem_map.1 (List.mem_of_mem_filter hv)
  rw [String.toList_ofList]
  exact isWord_of_mem_words hu

/-! ### Tokens of a header -/

section Header

variable {dropped : List String} {header : List Token} {closing : Token} {y : List Char}

/-- Before the brace of its body, a header stands as it was read. -/
theorem Heads.stood {d : Function} {ts : List Token} {source : String} (h : Heads header d ts)
    (hts : tokenize source = .ok ts) : ∃ y, Stood header y ∧ y.head?.any isWordPart = false := by
  obtain ⟨ahead, opening, behind, rfl, hopening⟩ := h.within
  obtain ⟨after, -, hlexed, -⟩ := lexed_of_tokenizeFrom hts
  obtain ⟨hheader, hopen⟩ := lexed_append.1 (lexed_append.1 hlexed).2
  refine ⟨_, hheader.stood, ?_⟩
  have hgap := hopen.1.not_isWordPart
  cases hg : opening.gap.toList with
  | nil => simp [spaced, hg, hopening]; decide
  | cons c g =>
    rw [hg] at hgap
    simpa [spaced, hg] using hgap

theorem headerWords_of_stretches {ws : List String}
    (hwords : words (verbatim header).toList = ws.map String.toList) :
    headerWords (verbatim header) = ws := by
  rw [headerWords, hwords, ofList_toList_map]

/-- A linkage word is a word of a header just if it is a token. -/
theorem mem_headerWords (h : WellSpaced linkageWords (Token.regapped " " header))
    (hstood : Stood header y) (hy : y.head?.any isWordPart = false) {w : String}
    (hw : w ∈ linkageWords) : w ∈ headerWords (verbatim header) ↔ w ∈ texts header := by
  obtain ⟨ws, hstretches, hwords⟩ := h.stretches (fun _ hmem => hmem) hstood hy
  rw [headerWords_of_stretches hwords, hstretches.mem_iff hw]
  cases header <;> rfl

/-- The words that are left, behind a blank, are written as the tokens that are left. -/
theorem blank_withoutWords (h : WellSpaced dropped (Token.regapped " " header))
    (hd : dropped ⊆ linkageWords) (hstood : Stood header y) (hy : y.head?.any isWordPart = false)
    (hclosing : header.getLast? = some closing) (hparen : closing.text = ")") :
    " " ++ withoutWords dropped (verbatim header)
      = spaced (rejoined dropped (Token.regapped " " header)) := by
  have hno : ")" ∉ dropped := fun hmem => absurd (hd hmem) (by decide)
  obtain ⟨ws, hstretches, hwords⟩ := h.stretches hd hstood hy
  obtain ⟨⟨w, hw⟩, -⟩ := h.exists_rejoined hno hstood hclosing hparen
  have hspaced := hstretches.spaced_rejoined
  have hne : (ws.filter fun w => w ∉ dropped).map String.toList ≠ [] := by
    intro hnil
    rw [List.map_eq_nil_iff] at hnil
    rw [hnil, hw] at hspaced
    cases hspaced
  refine String.toList_inj.1 ?_
  rw [hspaced, String.toList_append, toList_withoutWords, headerWords_of_stretches hwords]
  have := flatMap_cons_blank hne
  rw [List.flatMap_map] at this
  exact this.symm

/-- What is left of a header is read between other tokens as the tokens that are left. -/
theorem tokenize_rejoined (front : List Token) {tail : List Token}
    (h : WellSpaced dropped (Token.regapped " " header)) (hd : dropped ⊆ linkageWords)
    (hstood : Stood header y) (hy : y.head?.any isWordPart = false)
    (hclosing : header.getLast? = some closing) (hparen : closing.text = ")")
    (hall : Lexed .start
      (located .start (front ++ (rejoined dropped (Token.regapped " " header) ++ tail))) []) :
    ∃ ts, tokenize
        (spaced front ++ (" " ++ withoutWords dropped (verbatim header)) ++ spaced tail) = .ok ts ∧
      ts.map spelling
        = front.map spelling ++ (spellingsWithout dropped header ++ tail.map spelling) := by
  refine ⟨_, (congrArg tokenize ?_).trans (tokenize_spaced hall), ?_⟩
  · rw [blank_withoutWords h hd hstood hy hclosing hparen, spaced_append, spaced_append,
      String.append_assoc]
  · rw [spelling_located, List.map_append, List.map_append, spelling_rejoined,
      spellingsWithout_regapped]

/-- What is left of a header, behind `extern` and before a semicolon, has the tokens that are left.
-/
theorem tokenize_declared (h : WellSpaced linkageWords (Token.regapped " " header))
    (hstood : Stood header y) (hy : y.head?.any isWordPart = false)
    (hclosing : header.getLast? = some closing) (hparen : closing.text = ")") :
    ∃ ts, tokenize ("extern " ++ withoutWords linkageWords (verbatim header) ++ ";") = .ok ts ∧
      ts.map spelling = (.word, "extern") ::
        (spellingsWithout linkageWords header ++ [(.punctuation, ";")]) := by
  obtain ⟨⟨w, hw⟩, hlexed⟩ := h.exists_rejoined (by decide) hstood hclosing hparen
  have hsemicolon (place : Cursor) :
      Lexed place (located place [⟨.punctuation, "", ";", 0, 0⟩]) [] :=
    ⟨.nil, rfl, rfl, stands_single rfl (.inr (.inr rfl)), trivial⟩
  have hall := lexed_wordToken .start (g := "") (w := "extern") (by decide) .nil
    ⟨w ++ [';'], by rw [spaced_append, String.toList_append, hw]; rfl⟩ (hlexed _ hsemicolon)
  have hread := tokenize_rejoined [wordToken "" "extern"] h (fun _ hmem => hmem) hstood
    hy hclosing hparen hall
  simpa [spaced, wordToken, spelling, ← String.append_assoc] using hread

/-- What is left of a header behind `extern inline` has the tokens that are left. -/
theorem tokenize_shared (h : WellSpaced linkageWords (Token.regapped " " header))
    (hstood : Stood header y) (hy : y.head?.any isWordPart = false)
    (hclosing : header.getLast? = some closing) (hparen : closing.text = ")") :
    ∃ ts, tokenize ("extern inline " ++ withoutWords ["inline", "extern"] (verbatim header)) = .ok ts ∧
      ts.map spelling = (.word, "extern") :: (.word, "inline") ::
        spellingsWithout ["inline", "extern"] header := by
  have hsub : ["inline", "extern"] ⊆ linkageWords := by decide
  have h := h.mono hsub
  obtain ⟨⟨w, hw⟩, hlexed⟩ := h.exists_rejoined (by decide) hstood hclosing hparen
  have hnone := hlexed [] fun _ => trivial
  have hall := lexed_wordToken .start (g := "") (w := "extern") (by decide) .nil
    ⟨"inline".toList ++ ' ' :: w, by simp [spaced, wordToken, hw]⟩ fun place _ =>
      lexed_wordToken place (g := " ") (w := "inline") (by decide) (.blank rfl .nil)
        ⟨w, by rw [List.append_nil, hw]⟩ hnone
  have hread := tokenize_rejoined [wordToken "" "extern", wordToken " " "inline"] h hsub
    hstood hy hclosing hparen hall
  simpa [spaced, wordToken, spelling, ← String.append_assoc] using hread

end Header

/-! ### Items -/

/-- What linking makes of a function whose header is some tokens. The new header has the words of
the old one, but for some; and if the tokens stand apart, it has their tokens, but for the same. -/
inductive LinkedAs (header : List Token) (d : Function) : Item → Prop
  | declared {rest : String} (hname : d.name = errorFunction)
      (hwords : headerWords rest = (headerWords d.header).filter fun w => w ∉ linkageWords)
      (htokens : WellSpaced linkageWords (regapped " " header) →
        ∃ ts, tokenize ("extern " ++ rest ++ ";") = .ok ts ∧
          ts.map spelling = (.word, "extern") ::
            (spellingsWithout linkageWords header ++ [(.punctuation, ";")])) :
      LinkedAs header d (.verbatim ("extern " ++ rest ++ ";") d.line)
  | shared {rest : String} (hname : d.name ≠ errorFunction) (hshared : d.isSharedInline = true)
      (hwords : headerWords rest
        = (headerWords d.header).filter fun w => w ∉ ["inline", "extern"])
      (htokens : WellSpaced linkageWords (regapped " " header) →
        ∃ ts, tokenize ("extern inline " ++ rest) = .ok ts ∧
          ts.map spelling = (.word, "extern") :: (.word, "inline") ::
            spellingsWithout ["inline", "extern"] header) :
      LinkedAs header d (.function { d with header := "extern inline " ++ rest })
  | kept (hname : d.name ≠ errorFunction) (hshared : d.isSharedInline = false) :
      LinkedAs header d (.function d)

/-- What linking makes of an item among the tokens of its program. Whether a function is inline and
not static is decided by the words of its header, and so by its tokens if these stand apart. -/
inductive Linked (ts : List Token) : Item → Item → Prop
  | verbatim (text : String) (line : Option Nat) : Linked ts (.verbatim text line) (.verbatim text line)
  | function {d : Function} {header : List Token} {item : Item} (hheads : Heads header d ts)
      (hshared : WellSpaced linkageWords (regapped " " header) →
        (d.isSharedInline = true ↔ "inline" ∈ texts header ∧ "static" ∉ texts header))
      (hlinked : LinkedAs header d item) : Linked ts (.function d) item

theorem Heads.linkedAs {header ts : List Token} {d : Function} {source : String}
    (h : Heads header d ts) (hts : tokenize source = .ok ts) :
    LinkedAs header d (Item.function d).relinked := by
  obtain ⟨y, hstood, hy⟩ := h.stood hts
  obtain ⟨closing, hclosing, hparen⟩ := h.last
  by_cases hname : d.name = errorFunction
  · rw [Item.relinked, if_pos hname]
    refine .declared hname (headerWords_withoutWords _ _) fun hs => ?_
    rw [h.text]
    exact tokenize_declared hs hstood hy hclosing hparen
  rw [Item.relinked, if_neg hname]
  by_cases hshared : d.isSharedInline = true
  · rw [if_pos hshared]
    refine .shared hname hshared (headerWords_withoutWords _ _) fun hs => ?_
    rw [h.text]
    exact tokenize_shared hs hstood hy hclosing hparen
  · rw [if_neg hshared]
    exact .kept hname (eq_false_of_ne_true hshared)

theorem Heads.isSharedInline_iff {header ts : List Token} {d : Function} {source : String}
    (h : Heads header d ts) (hts : tokenize source = .ok ts)
    (hs : WellSpaced linkageWords (regapped " " header)) :
    d.isSharedInline = true ↔ "inline" ∈ texts header ∧ "static" ∉ texts header := by
  obtain ⟨y, hstood, hy⟩ := h.stood hts
  have hinline := mem_headerWords hs hstood hy (w := "inline") (by decide)
  have hstatic := mem_headerWords hs hstood hy (w := "static") (by decide)
  rw [← h.text] at hinline hstatic
  rw [← hinline, ← hstatic, Function.isSharedInline]
  simp

namespace Program

/-- No function of a program that is linked has the name of the error function. -/
theorem name_ne_of_mem_prepared {p : Program} {d : Function} (h : d ∈ p.prepared.functions) :
    d.name ≠ errorFunction := by
  obtain ⟨item, hitem, hd⟩ := List.mem_filterMap.1 h
  rcases List.mem_cons.1 hitem with rfl | hitem
  · cases hd
  obtain ⟨old, -, rfl⟩ := List.mem_map.1 hitem
  cases old with
  | verbatim text line => cases hd
  | function d' =>
    by_cases hname : d'.name = errorFunction
    · rw [Item.relinked, if_pos hname] at hd
      cases hd
    rw [Item.relinked, if_neg hname] at hd
    split at hd
    next => cases hd; exact hname
    next => cases hd; exact hname

/-- **Linking rewrites headers and nothing else.** -/
theorem linked_of_parseSanitized {source sanitized : String} {p : Program}
    (h : parseSanitized source = .ok (sanitized, p)) :
    ∃ ts items, tokenize sanitized = .ok ts ∧
      p.prepared.items = .verbatim markerPrototypes none :: items ∧
      List.Forall₂ (Linked ts) p.items items ∧
      (∀ d ∈ p.prepared.functions, d.name ≠ errorFunction) ∧
      (p.linkReport.errorFunctionRelinked = true ↔
        ∃ d ∈ p.functions, d.name = errorFunction) ∧
      p.linkReport.externInline
        = (p.functions.filter fun d => d.name ≠ errorFunction ∧ d.isSharedInline = true).map
            Function.name := by
  have hp := parse_of_parseSanitized h
  obtain ⟨ts, hts⟩ : ∃ ts, tokenize sanitized = .ok ts := by
    rw [parse] at hp
    cases hts : tokenize sanitized with
    | error e => rw [hts] at hp; cases hp
    | ok ts => exact ⟨ts, rfl⟩
  refine ⟨ts, p.items.map Item.relinked, hts, rfl, ?_, fun d => name_ne_of_mem_prepared, ?_, ?_⟩
  · rw [List.forall₂_map_right_iff, List.forall₂_same]
    intro item hitem
    cases item with
    | verbatim text line => exact .verbatim text line
    | function d =>
      -- the header of each function is found in the tokens; that of its item follows
      have hd : d ∈ p.functions := List.mem_filterMap.2 ⟨_, hitem, rfl⟩
      obtain ⟨header, hheads⟩ := exists_heads_of_parse hp hts hd
      exact .function hheads (fun hs => hheads.isSharedInline_iff hts hs) (hheads.linkedAs hts)
  · simp [linkReport]
  · refine congrArg (List.map Function.name) (List.filter_congr fun d _ => ?_)
    by_cases hname : d.name = errorFunction <;> simp [hname]

end Program

/-- A source with an error function, a shared inline function and one that is not shared. -/
def inlineSource : String :=
  "static void reach_error() \x7b\x7d\nint inline f(int x) \x7b return x; \x7d\n" ++
    "static inline int g() \x7b return 0; \x7d\n"

/-- Its tokens. -/
def inlineTokens : List Token :=
  [⟨.word, "", "static", 0, 1⟩, ⟨.word, " ", "void", 7, 1⟩, ⟨.word, " ", "reach_error", 12, 1⟩,
    ⟨.punctuation, "", "(", 23, 1⟩, ⟨.punctuation, "", ")", 24, 1⟩,
    ⟨.punctuation, " ", "\x7b", 26, 1⟩, ⟨.punctuation, "", "\x7d", 27, 1⟩,
    ⟨.word, "\n", "int", 29, 2⟩, ⟨.word, " ", "inline", 33, 2⟩, ⟨.word, " ", "f", 40, 2⟩,
    ⟨.punctuation, "", "(", 41, 2⟩, ⟨.word, "", "int", 42, 2⟩, ⟨.word, " ", "x", 46, 2⟩,
    ⟨.punctuation, "", ")", 47, 2⟩, ⟨.punctuation, " ", "\x7b", 49, 2⟩,
    ⟨.word, " ", "return", 51, 2⟩, ⟨.word, " ", "x", 58, 2⟩, ⟨.punctuation, "", ";", 59, 2⟩,
    ⟨.punctuation, " ", "\x7d", 61, 2⟩, ⟨.word, "\n", "static", 63, 3⟩,
    ⟨.word, " ", "inline", 70, 3⟩, ⟨.word, " ", "int", 77, 3⟩, ⟨.word, " ", "g", 81, 3⟩,
    ⟨.punctuation, "", "(", 82, 3⟩, ⟨.punctuation, "", ")", 83, 3⟩,
    ⟨.punctuation, " ", "\x7b", 85, 3⟩, ⟨.word, " ", "return", 87, 3⟩, ⟨.number, " ", "0", 94, 3⟩,
    ⟨.punctuation, "", ";", 95, 3⟩, ⟨.punctuation, " ", "\x7d", 97, 3⟩]

/-- The tokens of its headers. -/
def inlineHeaders : List (List Token) :=
  [inlineTokens.take 5, (inlineTokens.drop 7).take 7, (inlineTokens.drop 19).take 6]

/-- What is written before a brace like one of these headers is that header. -/
theorem eq_of_heads_inlineTokens {header : List Token} {d : Function}
    (hheads : Heads header d inlineTokens) (known : List Token) (hknown : known ∈ inlineHeaders)
    (htext : d.header = verbatim known) : header = known := by
  have hall : ∀ known ∈ inlineHeaders, ∀ n < inlineTokens.length,
      inlineTokens[n]?.map Token.text = some "\x7b" → ∀ m ≤ n,
        verbatim ((inlineTokens.take n).drop m) = verbatim known →
          (inlineTokens.take n).drop m = known := by decide +kernel
  exact eq_of_within hheads.within (hall known hknown) (hheads.text.symm.trans htext)

/-- Where there are as many functions as items, the items are the functions. -/
theorem Program.items_eq_map_function {p : Program} (h : p.functions.length = p.items.length) :
    p.items = p.functions.map .function := by
  have hall := List.filterMap_length_eq_length.1 h
  rw [Program.functions, List.map_filterMap]
  refine ((List.filterMap_congr fun item hitem => ?_).trans List.filterMap_some).symm
  cases item with
  | function d => rfl
  | verbatim text line => cases hall _ hitem

/-- The words of its headers stand apart. So the first function becomes a declaration with the
tokens of its header but `static`, the second is `extern` with the tokens it had, and the third,
which is inline and static, stays. -/
theorem linked_of_parseSanitized_inlineSource : ∃ p rest rest' us us', ∃ f g : Function,
    Program.parseSanitized inlineSource = .ok (inlineSource, p) ∧
    p.prepared.items = [.verbatim markerPrototypes none,
      .verbatim ("extern " ++ rest ++ ";") (some 1),
      .function { f with header := "extern inline " ++ rest' }, .function g] ∧
    tokenize ("extern " ++ rest ++ ";") = .ok us ∧
    us.map spelling = [(.word, "extern"), (.word, "void"), (.word, "reach_error"),
      (.punctuation, "("), (.punctuation, ")"), (.punctuation, ";")] ∧
    tokenize ("extern inline " ++ rest') = .ok us' ∧
    us'.map spelling = [(.word, "extern"), (.word, "inline"), (.word, "int"), (.word, "f"),
      (.punctuation, "("), (.word, "int"), (.word, "x"), (.punctuation, ")")] ∧
    f.name = "f" ∧ g.header = "static inline int g()" ∧
    p.linkReport.errorFunctionRelinked = true ∧ p.linkReport.externInline = ["f"] := by
  have hall : ∃ read, Program.parseSanitized inlineSource = .ok read ∧ read.1 = inlineSource ∧
      read.2.functions.length = read.2.items.length ∧
      read.2.functions.map (fun d => (d.header, d.name, d.line))
        = [("static void reach_error()", "reach_error", some 1), ("int inline f(int x)", "f", some 2),
            ("static inline int g()", "g", some 3)] := by decide +kernel
  obtain ⟨⟨_, p⟩, hparse, rfl, hlength, hfunctions⟩ := hall
  have htokens : tokenize inlineSource = .ok inlineTokens := by decide +kernel
  obtain ⟨ts, items, hts, hitems, hlinked, -, herror, hnames⟩ :=
    Program.linked_of_parseSanitized hparse
  obtain rfl := Except.ok.inj (hts.symm.trans htokens)
  obtain ⟨reach, fs, hfs, hreach, htail⟩ := List.map_eq_cons_iff.1 hfunctions
  obtain ⟨f, gs, rfl, hf, hlast⟩ := List.map_eq_cons_iff.1 htail
  obtain ⟨g, rfl, hg⟩ := List.map_eq_singleton_iff.1 hlast
  simp only [Prod.mk.injEq] at hfs hreach hf hg
  rw [Program.items_eq_map_function hlength, hfs] at hlinked
  cases hlinked with | cons hreached hlinked
  cases hlinked with | cons hshared hlinked
  cases hlinked with | cons hkept hlinked
  cases hlinked
  cases hreached with | function hheads _ hreached
  obtain rfl := eq_of_heads_inlineTokens hheads (inlineTokens.take 5) (by decide)
    (hreach.1.trans (by decide))
  cases hshared with | function hheads hinline hshared
  obtain rfl := eq_of_heads_inlineTokens hheads ((inlineTokens.drop 7).take 7) (by decide)
    (hf.1.trans (by decide))
  cases hkept with | function hheads hstatic hkept
  obtain rfl := eq_of_heads_inlineTokens hheads ((inlineTokens.drop 19).take 6) (by decide)
    (hg.1.trans (by decide))
  -- that the second is shared and the third is not is decided by their tokens
  have hinline := (hinline (by decide)).2 (by decide)
  have hstatic : g.isSharedInline = false :=
    eq_false_of_ne_true fun h => absurd ((hstatic (by decide)).1 h).2 (by decide)
  cases hreached with
  | shared hname => exact absurd hreach.2.1 hname
  | kept hname => exact absurd hreach.2.1 hname
  | @declared rest _ _ hus =>
  cases hshared with
  | declared hname => exact absurd (hf.2.1.symm.trans hname) (by decide)
  | kept _ h => exact absurd (hinline.symm.trans h) (by decide)
  | @shared rest' _ _ _ hus' =>
  cases hkept with
  | declared hname => exact absurd (hg.2.1.symm.trans hname) (by decide)
  | shared _ h => exact absurd (hstatic.symm.trans h) (by decide)
  | kept =>
  obtain ⟨us, hus, hspelling⟩ := hus (by decide)
  obtain ⟨us', hus', hspelling'⟩ := hus' (by decide)
  rw [hreach.2.2] at hitems
  refine ⟨p, rest, rest', us, us', f, g, hparse, hitems, hus, hspelling.trans (by decide), hus',
    hspelling'.trans (by decide), hf.2.1, hg.1, herror.2 ⟨reach, ?_, hreach.2.1⟩, ?_⟩
  · rw [hfs]
    exact List.mem_cons_self
  · simp [hnames, hfs, hreach, hf, hg, hinline, hstatic, errorFunction]

/-- A source whose error function has a line marker in its header. -/
def markedHeaderSource : String :=
  "void\n# 5 \"a.c\"\nreach_error() \x7b\x7d"

/-- Such a header is not rewritten token by token: on one line with the other words, the line marker
is none. -/
theorem not_tokens_of_relinked : ¬ ∀ (source sanitized : String) (p : Program)
    (ts header : List Token) (d : Function),
    Program.parseSanitized source = .ok (sanitized, p) → tokenize sanitized = .ok ts →
    d ∈ p.functions → Heads header d ts → d.name = errorFunction →
    ∃ text us, (Item.function d).relinked = .verbatim text d.line ∧ tokenize text = .ok us ∧
      us.map spelling = (.word, "extern") ::
        (spellingsWithout linkageWords header ++ [(.punctuation, ";")]) := by
  intro h
  have hall : ∃ read, Program.parseSanitized markedHeaderSource = .ok read ∧
      read.1 = markedHeaderSource ∧
      ∃ d ∈ read.2.functions, d.header = "void\n# 5 \"a.c\"\nreach_error()" ∧
        d.name = errorFunction := by
    decide +kernel
  obtain ⟨⟨sanitized, p⟩, hp, rfl, d, hd, hheader, hname⟩ := hall
  have hts : tokenize markedHeaderSource = .ok [⟨.word, "", "void", 0, 1⟩,
      ⟨.directive, "\n", "# 5 \"a.c\"", 5, 2⟩, ⟨.word, "\n", "reach_error", 15, 3⟩,
      ⟨.punctuation, "", "(", 26, 3⟩, ⟨.punctuation, "", ")", 27, 3⟩,
      ⟨.punctuation, " ", "\x7b", 29, 3⟩, ⟨.punctuation, "", "\x7d", 30, 3⟩] := by decide +kernel
  obtain ⟨text, us, hitem, hus, hspelling⟩ := h _ _ p _ [_, _, _, _, _] d hp hts hd
    ⟨⟨[], _, [_], rfl, rfl⟩, hheader.trans (by decide), hname.trans (by decide), ⟨_, rfl, rfl⟩⟩ hname
  have htext : text = "extern void # 5 \"a.c\" reach_error();" := by
    rw [Item.relinked, if_pos hname, hheader] at hitem
    injection hitem with htext
    rw [← htext]
    decide
  subst htext
  have hread : (tokenize "extern void # 5 \"a.c\" reach_error();").toOption.map
      (List.map spelling) ≠ some [(.word, "extern"), (.word, "void"), (.directive, "# 5 \"a.c\""),
        (.word, "reach_error"), (.punctuation, "("), (.punctuation, ")"), (.punctuation, ";")] := by
    decide +kernel
  refine hread ?_
  rw [hus]
  exact congrArg some hspelling

end WitnessReplay
