import WitnessReplay.Proofs.Program.Layout

/-!
# Writing new text

A replay puts text into a program that did not stand in the source: calls with numbers, constants
with their types. `Written` says that some tokens, told by their kinds and texts, make up a text and
are read from it, wherever the text is put. Words and brackets are read once and for all
(`written_of_tokenize`), numbers whatever they are (`written_number`, `written_signed`), and
`Written.append` puts such texts together.
-/

namespace WitnessReplay

open Token

/-- A token of some kind and text that stands nowhere. -/
def Token.ofText (kind : TokenKind) (text : String) : Token :=
  ⟨kind, "", text, 0, 0⟩

/-- Some tokens make up a text, and a stretch of tokens like them is read from it. -/
def Written (us : List Token) (text : String) : Prop :=
  ∃ ts, Copyable ts ∧ (∀ t ∈ ts, t.kind ≠ .directive) ∧ Alike ts us ∧ verbatim ts = text

theorem Token.Alike.exists_mem {ts us : List Token} (h : Alike ts us) {t : Token} (ht : t ∈ ts) :
    ∃ u ∈ us, t.kind = u.kind ∧ t.text = u.text := by
  have hmem : spelling t ∈ us.map spelling := h ▸ List.mem_map_of_mem ht
  obtain ⟨u, hu, hs⟩ := List.mem_map.1 hmem
  obtain ⟨hk, htext⟩ := Prod.ext_iff.1 hs
  exact ⟨u, hu, hk.symm, htext.symm⟩

theorem verbatim_append {ts : List Token} (hne : ts ≠ []) (us : List Token) :
    verbatim (ts ++ us) = verbatim ts ++ spaced us := by
  obtain ⟨t, ts, rfl⟩ := List.exists_cons_of_ne_nil hne
  simp [verbatim, String.append_assoc]

/-- A text that is read as tokens, none of which is a directive, is written as them. -/
theorem written_of_tokenize {us : List Token} {text : String}
    (h : ∃ ts, tokenize text = .ok ts ∧ (∀ t ∈ ts, t.kind ≠ .directive ∧
      t.text.toList.head? ≠ some '#') ∧ ts.map spelling = us.map spelling ∧ verbatim ts = text) :
    Written us text := by
  obtain ⟨ts, hts, hall, halike, htext⟩ := h
  obtain ⟨after, -, hlexed, -⟩ := lexed_of_tokenizeFrom hts
  exact ⟨ts, ⟨⟨_, after, hlexed⟩, fun t ht _ => (hall t ht).2, fun t ht hk => absurd hk (hall t ht).1⟩,
    fun t ht => (hall t ht).1, halike, htext⟩

namespace Written

variable {us vs : List Token} {text text' g : String}

/-- A written text is read back as its tokens, and as the same text. -/
theorem prints (h : Written us text) :
    Prints BreaksInLine (fun vs => Alike vs us ∧ verbatim vs = text) text := by
  obtain ⟨ts, hcopy, hu, ha, rfl⟩ := h
  exact (hcopy.prints_framed (framed_of_undirected hu)).imp fun vs hvs => ⟨Eq.trans hvs.1 ha, hvs.2⟩

/-- A written text behind tokens that are read before it. -/
theorem compose {ts : List Token} (h : Written vs text') (hts : ts ≠ []) (hvs : vs ≠ [])
    (hg : Gap g.toList) (hm : ∀ t ∈ ts, t.kind ≠ .directive ∧ t.Unmarked)
    (hl : ∀ z, Lexed .start (laid .start "" ts) ((g ++ text').toList ++ z)) :
    Written (ts ++ vs) (verbatim ts ++ (g ++ text')) := by
  obtain ⟨ws, hcopy, hu, halike, rfl⟩ := h
  have hws : ws ≠ [] := halike.ne_nil hvs
  have hfirst := alike_laid .start "" ts
  have hnext := alike_laid (Cursor.start.behind (laid .start "" ts)) g ws
  have hspaced := spaced_laid (Cursor.start.behind (laid .start "" ts)) g hws
  -- a semicolon is put behind, for the tokens have to be read before something
  have hlexed : Lexed .start
      (laid .start "" ts ++ laid (Cursor.start.behind (laid .start "" ts)) g ws) [';'] :=
    lexed_append.2 ⟨hspaced ▸ hl [';'],
      hcopy.lexed_framed (framed_of_undirected hu) hg ⟨⟨';', [], rfl, rfl⟩, by decide⟩⟩
  have hboth : ∀ t ∈ laid .start "" ts ++ laid (Cursor.start.behind (laid .start "" ts)) g ws,
      t.kind ≠ .directive ∧ t.Unmarked := by
    intro t ht
    rcases List.mem_append.1 ht with ht | ht
    · obtain ⟨u, hu', hk, htext⟩ := hfirst.exists_mem ht
      rw [Unmarked, hk, htext]
      exact hm u hu'
    · obtain ⟨u, hu', hk, htext⟩ := hnext.exists_mem ht
      rw [Unmarked, hk, htext]
      exact ⟨hu u hu', hcopy.unmarked u hu'⟩
  refine ⟨_, ⟨⟨_, _, hlexed⟩, fun t ht => (hboth t ht).2,
    fun t ht hk => absurd hk (hboth t ht).1⟩, fun t ht => (hboth t ht).1,
    hfirst.append (hnext.trans halike), ?_⟩
  rw [verbatim_append (hfirst.ne_nil hts), verbatim_laid, hspaced]

theorem of_alike (h : Written us text) (ha : Alike us vs) : Written vs text := by
  obtain ⟨ts, hcopy, hu, halike, htext⟩ := h
  exact ⟨ts, hcopy, hu, Eq.trans halike ha, htext⟩

/-- A written text behind another one. -/
theorem append (h : Written us text) (h' : Written vs text') (hus : us ≠ []) (hvs : vs ≠ [])
    (hg : Blank g) (ho : Opens (g ++ text')) : Written (us ++ vs) (text ++ (g ++ text')) := by
  obtain ⟨ts, hcopy, hu, halike, rfl⟩ := h
  have hall := h'.compose (halike.ne_nil hus) hvs hg.gap
    (fun t ht => ⟨hu t ht, hcopy.unmarked t ht⟩)
    fun z => hcopy.lexed_framed (framed_of_undirected hu) .nil (ho.leads z)
  exact hall.of_alike (halike.append (.refl _))

/-- A written text behind an opening parenthesis. -/
theorem opening (h : Written us text) (hus : us ≠ []) :
    Written (ofText .punctuation "(" :: us) ("(" ++ text) := by
  have hm : ∀ t ∈ [ofText .punctuation "("], t.kind ≠ .directive ∧ t.Unmarked := by
    intro t ht
    obtain rfl := List.mem_singleton.1 ht
    exact ⟨by decide, fun _ => by decide⟩
  have hall := h.compose (g := "") (by simp) hus .nil hm
    fun z => ⟨.nil, rfl, rfl, stands_single rfl (.inl rfl), trivial⟩
  simpa [verbatim, spaced, ofText] using hall

end Written

/-! ### Numbers -/

theorem isWordStart_of_isDigit {c : Char} (h : c.isDigit = true) : isWordStart c = false := by
  have hne : c ≠ '_' ∧ c ≠ '$' := by
    constructor <;> rintro rfl <;> exact absurd h (by decide)
  unfold isWordStart Char.isAlpha Char.isUpper Char.isLower
  simp only [Char.isDigit, Char.toNat, Bool.and_eq_true, Bool.or_eq_false_iff,
    Bool.and_eq_false_iff, decide_eq_true_eq, decide_eq_false_iff_not, ge_iff_le,
    UInt32.le_iff_toNat_le, beq_eq_false_iff_ne, ne_eq] at h ⊢
  refine ⟨⟨⟨⟨?_, ?_⟩, hne.1⟩, hne.2⟩, ?_⟩ <;> simp at h ⊢ <;> omega

/-- A text that is read as one number. -/
def Numeral (text : String) : Prop :=
  ∃ c cs, text.toList = c :: cs ∧ (c.isDigit || (c == '.' && cs.head?.any Char.isDigit)) = true ∧
    splitNumber c cs = (cs, [])

/-- A number begins with a digit or a point, and with no other character. -/
theorem ne_of_numeralHead {c d : Char} (hc : c.isDigit = true ∨ c = '.') (hd : d.isDigit = false)
    (hpoint : d ≠ '.') : c ≠ d := by
  rintro rfl
  rcases hc with hc | hc
  · rw [hd] at hc
    cases hc
  · exact hpoint hc

namespace Numeral

variable {text : String}

theorem head (h : Numeral text) :
    ∃ c cs, text.toList = c :: cs ∧ (c.isDigit = true ∨ c = '.') := by
  obtain ⟨c, cs, htext, hc, -⟩ := h
  rw [Bool.or_eq_true, Bool.and_eq_true, beq_iff_eq] at hc
  exact ⟨c, cs, htext, hc.imp_right (·.1)⟩

theorem ne (h : Numeral text) {other : String} {c : Char} {cs : List Char}
    (hother : other.toList = c :: cs) (hc : c.isDigit = false) (hpoint : c ≠ '.') :
    text ≠ other := by
  rintro rfl
  obtain ⟨d, ds, htext, hd⟩ := h.head
  rw [htext] at hother
  cases hother
  exact ne_of_numeralHead hd hc hpoint rfl

/-- Where a number ends the text, it is read as a token. -/
theorem stands (h : Numeral text) (fresh : Bool) : (ofText .number text).Stands fresh [] := by
  obtain ⟨c, cs, htext, hhead⟩ := h.head
  obtain ⟨_, _, htext', hc, hsplit⟩ := h
  rw [htext] at htext'
  cases htext'
  have hword : ¬ isWordStart c = true := by
    rcases hhead with hhead | rfl
    · rw [isWordStart_of_isDigit hhead]
      decide
    · decide
  have hspacing : isSpacing c = false := by
    refine Bool.eq_false_iff.2 fun hs => ?_
    simp only [isSpacing, Bool.or_eq_true, beq_iff_eq] at hs
    rcases hs with ((((hs | hs) | hs) | hs) | hs) | hs <;>
      exact ne_of_numeralHead hhead (by decide) (by decide) hs
  have hunit : gapUnit? (c :: cs) = none :=
    gapUnit?_eq_none hspacing
      (fun h => ne_of_numeralHead hhead (d := '\\') (by decide) (by decide) h.1)
      (fun h => ne_of_numeralHead hhead (d := '/') (by decide) (by decide) h.1)
      fun h => ne_of_numeralHead hhead (d := '/') (by decide) (by decide) h.1
  refine ⟨by rwa [List.append_nil, ofText, htext], c, cs, htext, ?_⟩
  exact lexeme_of_lexes (.number rfl rfl hword hc (by rw [List.append_nil]; exact hsplit))
    fun h => ne_of_numeralHead hhead (d := '#') (by decide) (by decide) h.1

end Numeral

/-- A number is written as it is. -/
theorem written_number {text : String} (h : Numeral text) : Written [ofText .number text] text := by
  have hlexed : Lexed ⟨0, 0, true⟩ [ofText .number text] [] :=
    ⟨.nil, rfl, rfl, h.stands _, trivial⟩
  have hmark : text.toList.head? ≠ some '#' := by
    obtain ⟨c, cs, htext, hc⟩ := h.head
    rw [htext]
    exact fun heq => ne_of_numeralHead hc (by decide) (by decide) (Option.some.inj heq)
  refine ⟨_, ⟨⟨_, _, hlexed⟩, ?_, ?_⟩, ?_, .refl _, by simp [verbatim, spaced, ofText]⟩
  all_goals
    intro t ht
    obtain rfl := List.mem_singleton.1 ht
  · exact fun _ => hmark
  · exact fun hk => by cases hk
  · exact fun hk => by cases hk

/-- Characters of words and points are read as part of a number. -/
theorem splitNumber_of_forall {cs : List Char} (h : ∀ d ∈ cs, isWordPart d = true ∨ d = '.')
    (last : Char) (ds : List Char) :
    ∃ last', last' ∈ last :: cs ∧
      splitNumber last (cs ++ ds) = (cs ++ (splitNumber last' ds).1, (splitNumber last' ds).2) := by
  induction cs generalizing last with
  | nil => exact ⟨last, by simp, rfl⟩
  | cons c cs ih =>
    obtain ⟨hc, hcs⟩ := List.forall_mem_cons.1 h
    obtain ⟨last', hlast, hsplit⟩ := ih hcs c
    have hon : numberGoesOn last c = true := by
      rcases hc with hc | rfl
      · exact numberGoesOn_of_isWordPart hc last
      · simp [numberGoesOn]
    refine ⟨last', List.mem_cons_of_mem _ hlast, ?_⟩
    rw [List.cons_append, splitNumber_cons, if_pos hon, hsplit]
    rfl

theorem isWordPart_of_isDigit {c : Char} (h : c.isDigit = true) : isWordPart c = true := by
  rw [isWordPart, h, Bool.or_true]

/-- The decimal digits of a number are read as one. -/
theorem numeral_toString (n : Nat) : Numeral (toString n) := by
  have htext : (toString n).toList = Nat.toDigits 10 n := by simp [toString, Nat.repr]
  have hdigits : ∀ c ∈ Nat.toDigits 10 n, c.isDigit = true := fun c hc =>
    Nat.isDigit_of_mem_toDigits (by decide) (by decide) hc
  obtain ⟨c, cs, hcs⟩ := List.exists_cons_of_ne_nil (Nat.toDigits_ne_nil (n := n) (b := 10))
  rw [hcs] at htext hdigits
  obtain ⟨hc, hall⟩ := List.forall_mem_cons.1 hdigits
  obtain ⟨last, -, hsplit⟩ := splitNumber_of_forall
    (fun d hd => .inl (isWordPart_of_isDigit (hall d hd))) c []
  refine ⟨c, cs, htext, by rw [hc, Bool.true_or], ?_⟩
  simpa [splitNumber] using hsplit

/-- Before a number a sign stands for itself. -/
theorem stands_sign {sign text : String} (hs : sign = "-" ∨ sign = "+") (h : Numeral text)
    (fresh : Bool) (z : List Char) :
    (ofText .punctuation sign).Stands fresh (text.toList ++ z) := by
  obtain ⟨c, cs, htext, hc⟩ := h.head
  have hne {d : Char} := ne_of_numeralHead (d := d) hc
  have hlength {s : Char} (hs : s = '-' ∨ s = '+') :
      punctuatorLength ([s] ++ (text.toList ++ z)) = [s].length := by
    -- no longer punctuator begins with a sign and goes on with the head of a number
    have hnone : ∀ p ∈ longPunctuators, ¬ p.toList.isPrefixOf (s :: c :: (cs ++ z)) = true := by
      have hgreater : '>' ≠ c := (hne (by decide) (by decide)).symm
      have hequals : '=' ≠ c := (hne (by decide) (by decide)).symm
      have hminus : '-' ≠ c := (hne (by decide) (by decide)).symm
      have hplus : '+' ≠ c := (hne (by decide) (by decide)).symm
      rcases hs with rfl | rfl <;> simp [longPunctuators, hgreater, hequals, hminus, hplus]
    have hfind : (longPunctuators.find? fun p => p.toList.isPrefixOf ([s] ++ (c :: cs ++ z)))
        = none := List.find?_eq_none.2 hnone
    rw [htext, punctuatorLength, hfind]
    rfl
  have hstands {s : Char} (hs : s = '-' ∨ s = '+') (hsign : sign.toList = [s]) :
      (ofText .punctuation sign).Stands fresh (text.toList ++ z) := by
    refine ⟨?_, s, [], hsign, lexeme_of_lexes (.punctuation rfl rfl ?_ ?_ ?_ ?_ (hlength hs)) ?_⟩
    · rw [ofText, hsign]
      rcases hs with rfl | rfl <;> exact gapUnit?_eq_none (by decide) (by simp) (by simp) (by simp)
    all_goals rcases hs with rfl | rfl <;> simp [isWordStart, isQuote]
  rcases hs with rfl | rfl
  · exact hstands (.inl rfl) rfl
  · exact hstands (.inr rfl) rfl

/-- A number with its sign is written as it is. -/
theorem written_signed {sign text : String} (hs : sign = "-" ∨ sign = "+") (h : Numeral text) :
    Written [ofText .punctuation sign, ofText .number text] (sign ++ text) := by
  have hm : ∀ t ∈ [ofText .punctuation sign], t.kind ≠ .directive ∧ t.Unmarked := by
    intro t ht
    obtain rfl := List.mem_singleton.1 ht
    refine ⟨by simp [ofText], fun _ => ?_⟩
    rcases hs with rfl | rfl <;> decide
  have hall := (written_number h).compose (g := "") (by simp) (by simp) .nil hm
    fun z => ⟨.nil, rfl, rfl, by rw [String.empty_append]; exact stands_sign hs h _ z, trivial⟩
  simpa [verbatim, spaced, ofText] using hall

end WitnessReplay
