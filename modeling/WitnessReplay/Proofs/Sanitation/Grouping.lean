import WitnessReplay.Proofs.Sanitation.Matching

/-!
# Matches of groups

A group is matched from the words in front of it through the last closing bracket of its line, and
cut where its parentheses balance. In a wholesome text the match contains the whole construct,
because the construct closes on the line if anything does (`exists_closing`), and the cut is at the
end of the construct, because the parentheses inside come in pairs (`hits_brackets`). A group in
parentheses and a block in parentheses are two cases of this (`hits_group`, `hits_block`).
-/

namespace WitnessReplay

open Text Text.Pattern Token

namespace Sanitation

variable {cs after before behind found a : List Char} {ts : List Token} {f : Form} {action : Action}

/-! ### Brackets in general -/

/-- A pattern reads the brackets that close a group, the first of which it begins with. -/
structure Form.ClosedBy (f : Form) (p : Pattern) (c : Char) : Prop where
  splits : Splits p
  begins : Begins p [c]
  first : f.closing.head? = some (String.ofList [c])
  bracket : c ≠ '\n' ∧ ∀ {g}, Clear g → c ∉ g
  reads : ∀ {closing : List Token} (rest : List Char), texts closing = f.closing →
    (∀ t ∈ closing.tail, t.gap.toList.all isLayout = true) →
    p ((verbatim closing).toList ++ rest) = some ((verbatim closing).toList, rest) ∧
      c ∉ (verbatim closing).toList.tail

theorem Form.closing_ne_nil (hbrackets : f.brackets ≠ []) : f.closing ≠ [] := by
  simpa [closing] using hbrackets

theorem spaced_eq_verbatim {ts : List Token} (h : ts ≠ []) :
    ∃ t rest, ts = t :: rest ∧ (spaced ts).toList = t.gap.toList ++ (verbatim ts).toList := by
  obtain ⟨t, rest, rfl⟩ := List.exists_cons_of_ne_nil h
  exact ⟨t, rest, rfl, by simp [spaced, verbatim]⟩

theorem Form.Complete.exists_parts {ts : List Token} (h : f.Complete ts) :
    ∃ inside closing post, ts = inside ++ (closing ++ post) ∧ f.Closes inside closing := by
  obtain ⟨n, -, hcloses⟩ := h
  refine ⟨_, _, (ts.drop n).drop f.brackets.length, ?_, hcloses⟩
  rw [List.take_append_drop, List.take_append_drop]

/-- What stands behind a text on its last line stands in the text or behind it. -/
theorem mem_takeWhile_append {α : Type} {p : α → Bool} {as bs : List α} {a : α}
    (h : a ∈ (as ++ bs).takeWhile p) : a ∈ as.takeWhile p ∨ a ∈ bs := by
  rw [List.takeWhile_append] at h
  split at h
  next hall =>
    have has : as.takeWhile p = as :=
      (List.takeWhile_prefix p).eq_of_length hall
    rw [has]
    exact (List.mem_append.1 h).imp_right fun hm => (List.takeWhile_prefix p).subset hm
  next => exact .inl h

/-- A group that is matched at all is complete, and the match reaches to its end. -/
theorem exists_closing {p : Pattern} {c : Char} {rest : List Token} (hclosed : f.ClosedBy p c)
    (hbrackets : f.brackets ≠ []) (hgroup : f.Complete rest ∨ f.Unclosed rest)
    (hafter : Clear after) (hline : onLine p ((spaced rest).toList ++ after) = some (a, behind)) :
    ∃ inside closing post extra, rest = inside ++ (closing ++ post) ∧ f.Closes inside closing ∧
      a = (spaced (inside ++ closing)).toList ++ extra ∧
      extra ++ behind = (spaced post).toList ++ after := by
  rcases hgroup with hcomplete | hunclosed
  · obtain ⟨inside, closing, post, rfl, hcloses⟩ := hcomplete.exists_parts
    obtain ⟨htexts, -, -, hinside, hfirst, hgaps⟩ := id hcloses
    have hne : closing ≠ [] := fun hnil =>
      Form.closing_ne_nil hbrackets (by rw [← htexts, hnil]; rfl)
    obtain ⟨t, more, hcons, hspaced⟩ := spaced_eq_verbatim hne
    obtain ⟨hreads, htail⟩ := hclosed.reads ((spaced post).toList ++ after) htexts hgaps
    -- no line ends before the closing brackets, so the pattern finds them or goes further
    have hz : '\n' ∉ (spaced inside).toList ++ t.gap.toList := by
      rw [List.mem_append, not_or]
      exact ⟨hinside, hfirst t (by rw [hcons]; rfl)⟩
    have hsplit : (spaced (inside ++ (closing ++ post))).toList ++ after
        = ((spaced inside).toList ++ t.gap.toList) ++
          ((verbatim closing).toList ++ ((spaced post).toList ++ after)) := by
      simp [hspaced]
    rw [hsplit] at hline
    obtain ⟨extra, rfl⟩ :=
      prefix_of_onLine hclosed.splits hclosed.begins hz hreads htail hline
    have hwhole := onLine_splits hclosed.splits hline
    exact ⟨inside, closing, post, extra, rfl, hcloses, by simp [hspaced], by simpa using hwhole⟩
  · -- nowhere on the rest of the line do the brackets close
    have hnone : onLine p ((spaced rest).toList ++ after) = none := by
      obtain ⟨hnewline, hgap⟩ := hclosed.bracket
      refine onLine_eq_none hclosed.splits hclosed.begins hnewline fun hmem => ?_
      rcases mem_takeWhile_append hmem with hmem | hmem
      · have hnone := List.all_eq_true.1 (hunclosed _ hclosed.first) c hmem
        rw [String.toList_ofList] at hnone
        simp at hnone
      · exact hgap hafter hmem
    rw [hnone] at hline
    cases hline

/-- **A match of a group is the whole construct**, if parentheses are counted right. -/
theorem hits_brackets {p : Pattern} {c : Char} {pre rest post : List Token} {t : Token}
    (h : Parted cs ts after) (hwhole : Wholesome ts) (hf : f ∈ forms) (hbrackets : f.brackets ≠ [])
    (hclosed : f.ClosedBy p c) (hact : Acts action f.standin)
    (hts : ts = pre ++ (t :: rest ++ post)) (htexts : texts (t :: rest) = f.head ++ f.brackets)
    (hlayout : ∀ u ∈ rest, ∀ d ∈ u.gap.toList, isLayout d = true)
    (hcut : ∀ {inside closing extra}, f.Closes inside closing →
      (∀ u ∈ closing, Clear u.gap.toList) →
      splitBalanced 0 ((verbatim (t :: rest ++ (inside ++ closing))).toList ++ extra)
        = ((verbatim (t :: rest ++ (inside ++ closing))).toList, extra))
    (hline : onLine p ((spaced post).toList ++ after) = some (a, behind)) :
    Hits ts after action ((spaced pre).toList ++ t.gap.toList) ((verbatim (t :: rest)).toList ++ a)
      behind := by
  have hwidth : (t :: rest).length = f.width := by
    have := congrArg List.length htexts
    rwa [List.length_map, List.length_append] at this
  have hopens (us : List Token) : f.Opens (t :: rest ++ us) := by
    rw [Form.Opens, ← hwidth, List.take_left]
    exact ⟨htexts, fun u hu => List.all_eq_true.2 (hlayout u hu)⟩
  -- the construct is complete on its line, or was never closed there
  have hgroup := hwhole.complete (t :: rest ++ post)
    ((List.mem_tails _ _).2 (by rw [hts]; exact List.suffix_append ..)) f hf hbrackets (hopens post)
  rw [← hwidth, List.drop_left] at hgroup
  obtain ⟨inside, closing, post', extra, rfl, hcloses, rfl, hbehind⟩ :=
    exists_closing hclosed hbrackets hgroup h.after hline
  have hgaps : ∀ u ∈ closing, Clear u.gap.toList := fun u hu =>
    h.gaps u (by rw [hts]; simp [hu])
  have hverbatim : (verbatim (t :: rest ++ (inside ++ closing))).toList
      = (verbatim (t :: rest)).toList ++ (spaced (inside ++ closing)).toList := by
    simp [verbatim]
  have hfound : (verbatim (t :: rest)).toList ++ ((spaced (inside ++ closing)).toList ++ extra)
      = (verbatim (t :: rest ++ (inside ++ closing))).toList ++ extra := by
    rw [hverbatim, List.append_assoc]
  refine ⟨pre, t, rest ++ (inside ++ closing), post', extra, f, hf,
    ⟨t :: rest, inside, closing, by simp, htexts, hcloses.1, hcloses.2.1, fun hnil =>
      absurd hnil hbrackets⟩, ?_, ?_, rfl, hfound, hbehind, ?_⟩
  · have := hopens (inside ++ (closing ++ post'))
    simpa using this
  · rw [hts]
    simp
  · rw [hfound]
    exact hact (hcut hcloses hgaps)

/-! ### Groups in parentheses -/

theorem closedBy_group (hbrackets : f.brackets = ["("]) : f.ClosedBy (exactly [')']) ')' := by
  have hclosing : f.closing = [")"] := by rw [Form.closing, hbrackets]; rfl
  refine ⟨exactly_splits _, exactly_begins _, by rw [hclosing]; rfl,
    ⟨by decide, fun hg hmem => (hg.not_bracket _ hmem).1.2 rfl⟩, fun {closing} rest htexts _ => ?_⟩
  rw [hclosing] at htexts
  obtain ⟨u, rfl, hu⟩ := List.map_eq_singleton_iff.1 htexts
  have hverbatim : (verbatim [u]).toList = [')'] := by simp [verbatim, spaced, hu]
  rw [hverbatim]
  exact ⟨exactly_append .., by simp⟩

theorem forms_head_chars : ∀ f ∈ forms, ∀ w ∈ f.head, '(' ∉ w.toList ∧ ')' ∉ w.toList := by
  decide

/-- What is true of all characters of the gaps and texts of some tokens. -/
theorem forall_mem_spaced {q : Char → Prop} {us : List Token}
    (h : ∀ u ∈ us, (∀ c ∈ u.gap.toList, q c) ∧ ∀ c ∈ u.text.toList, q c) :
    ∀ c ∈ (spaced us).toList, q c := by
  induction us with
  | nil => exact List.forall_mem_nil _
  | cons u us ih =>
    obtain ⟨⟨hgap, htext⟩, hrest⟩ := List.forall_mem_cons.1 h
    rw [spaced, String.toList_append, String.toList_append]
    exact List.forall_mem_append.2 ⟨List.forall_mem_append.2 ⟨hgap, htext⟩, ih hrest⟩

/-- There are no parentheses in the words of a construct and the layout between them. -/
theorem not_paren_of_head {t : Token} {rest : List Token} (hf : f ∈ forms)
    (htexts : texts (t :: rest) = f.head)
    (hlayout : ∀ u ∈ rest, ∀ d ∈ u.gap.toList, isLayout d = true) :
    ∀ c ∈ (verbatim (t :: rest)).toList, c ≠ '(' ∧ c ≠ ')' := by
  have hwords : ∀ u ∈ t :: rest, ∀ c ∈ u.text.toList, c ≠ '(' ∧ c ≠ ')' := by
    intro u hu c hc
    have hmem : u.text ∈ f.head := by
      rw [← htexts]
      exact List.mem_map_of_mem hu
    obtain ⟨hopen, hclose⟩ := forms_head_chars f hf u.text hmem
    exact ⟨fun heq => hopen (heq ▸ hc), fun heq => hclose (heq ▸ hc)⟩
  obtain ⟨hword, hwords⟩ := List.forall_mem_cons.1 hwords
  rw [toList_verbatim]
  refine List.forall_mem_append.2
    ⟨hword, forall_mem_spaced fun u hu => ⟨fun c hc => ?_, hwords u hu⟩⟩
  exact not_paren_of_isLayout (hlayout u hu c hc)

/-- **A match of a group in parentheses is a whole construct.** -/
theorem hits_group {pre rest post : List Token} {t : Token} {g more : List Char}
    (h : Parted cs ts after) (hwhole : Wholesome ts) (hf : f ∈ forms)
    (hbrackets : f.brackets = ["("]) (hact : Acts action f.standin)
    (hts : ts = pre ++ (t :: rest ++ post)) (htexts : texts (t :: rest) = f.head)
    (hlayout : ∀ u ∈ rest, ∀ d ∈ u.gap.toList, isLayout d = true)
    (hg : ∀ d ∈ g, isLayout d = true)
    (hpost : (spaced post).toList ++ after = g ++ '(' :: more)
    (hline : onLine (exactly [')']) more = some (a, behind)) :
    Hits ts after action ((spaced pre).toList ++ t.gap.toList)
      ((verbatim (t :: rest)).toList ++ (g ++ '(' :: a)) behind := by
  have hlexed := h.lexed
  rw [hts] at hlexed
  have hlexedPost := (lexed_append.1 (lexed_append.1 hlexed).2).2
  have hgapsPost : ∀ u ∈ post, Clear u.gap.toList := fun u hu => h.gaps u (by rw [hts]; simp [hu])
  -- the parenthesis of the match is a token, so it opens the group of the form
  obtain ⟨o, post', rfl, rfl, ho⟩ := exists_next hlexedPost hgapsPost h.after hg (by decide) hpost
  have hplain := hwhole.plain o (by rw [hts]; simp)
  obtain ⟨hopen, rfl⟩ := hlexedPost.2.2.2.1.eq_single hplain.settled.1 (.inl rfl) ho
  have hopen' : o.text = "(" := String.toList_inj.1 hopen
  have hfound : (verbatim (t :: rest)).toList ++ (o.gap.toList ++ '(' :: a)
      = (verbatim (t :: (rest ++ [o]))).toList ++ a := by
    simp [verbatim, spaced, hopen]
  rw [hfound]
  refine hits_brackets h hwhole hf (by rw [hbrackets]; decide) (closedBy_group hbrackets) hact
    (by rw [hts]; simp) ?_ ?_ (fun {inside closing extra} hcloses hgaps => ?_) hline
  · have happ : texts (t :: (rest ++ [o])) = texts (t :: rest) ++ [o.text] := by simp
    rw [happ, htexts, hbrackets, hopen']
  · refine List.forall_mem_append.2 ⟨hlayout, List.forall_mem_singleton.2 hg⟩
  · obtain ⟨htexts', -, hparens, -⟩ := hcloses
    have hclosing : f.closing = [")"] := by rw [Form.closing, hbrackets]; rfl
    rw [hclosing] at htexts'
    obtain ⟨u, rfl, hu⟩ := List.map_eq_singleton_iff.1 htexts'
    have hgap : ∀ c ∈ u.gap.toList, c ≠ '(' ∧ c ≠ ')' := fun c hc =>
      ((hgaps u (by simp)).not_bracket c hc).1
    -- inside of the group every parenthesis is closed again
    have hq : parensBehind 0 ((spaced inside).toList ++ u.gap.toList) = some 0 := by
      rw [parensBehind_append, hparens, Option.bind_some, parensBehind_none hgap]
    have hp : ∀ c ∈ (verbatim (t :: rest)).toList ++ o.gap.toList, c ≠ '(' ∧ c ≠ ')' :=
      List.forall_mem_append.2 ⟨not_paren_of_head hf htexts hlayout, fun c hc =>
        not_paren_of_isLayout (hg c hc)⟩
    have hgroup := splitBalanced_group hp hq extra
    simpa [verbatim, spaced, hopen, hu] using hgroup

/-! ### Blocks in parentheses -/

/-- Layout is read to its end, and then the character behind it. -/
theorem layout_then_exactly {g : List Char} (hg : ∀ d ∈ g, isLayout d = true) {c : Char}
    (hc : isLayout c = false) (rest : List Char) :
    Pattern.seq (many isLayout) (exactly [c]) (g ++ c :: rest) = some (g ++ [c], rest) := by
  obtain ⟨htake, hdrop⟩ := takeWhile_eq_self (w := c :: rest) hg hc
  have hlast : exactly [c] (c :: rest) = some ([c], rest) := exactly_append [c] rest
  rw [Pattern.seq, many, htake, hdrop]
  dsimp only
  rw [hlast]
  rfl

theorem exists_pair_of_texts {ts : List Token} {a b : String} (h : texts ts = [a, b]) :
    ∃ u v, ts = [u, v] ∧ u.text = a ∧ v.text = b := by
  obtain ⟨u, us, rfl, hu, hus⟩ := List.map_eq_cons_iff.1 h
  obtain ⟨v, rfl, hv⟩ := List.map_eq_singleton_iff.1 hus
  exact ⟨u, v, rfl, hu, hv⟩

/-- What closes a block in parentheses. -/
def blockClosing : Pattern :=
  .seq (.exactly ['\x7d']) (.seq (.many isLayout) (.exactly [')']))

theorem closedBy_block (hbrackets : f.brackets = ["(", "\x7b"]) :
    f.ClosedBy blockClosing '\x7d' := by
  have hclosing : f.closing = ["\x7d", ")"] := by rw [Form.closing, hbrackets]; rfl
  refine ⟨seq_splits (exactly_splits _) (seq_splits (many_splits _) (exactly_splits _)),
    seq_begins (exactly_begins _), by rw [hclosing]; rfl,
    ⟨by decide, fun hg hmem => (hg.not_bracket _ hmem).2 rfl⟩,
    fun {closing} rest htexts hlayout => ?_⟩
  rw [hclosing] at htexts
  obtain ⟨u, v, rfl, hu, hv⟩ := exists_pair_of_texts htexts
  have hgap := List.all_eq_true.1 (hlayout v (by simp))
  have hverbatim : (verbatim [u, v]).toList = ['\x7d'] ++ (v.gap.toList ++ [')']) := by
    simp [verbatim, spaced, hu, hv]
  rw [hverbatim]
  refine ⟨?_, fun hmem => ?_⟩
  · have hseq := seq_exactly ['\x7d']
      (layout_then_exactly hgap (show isLayout ')' = false from rfl) rest)
    rw [← hseq, blockClosing]
    simp
  · rcases List.mem_append.1 (show '\x7d' ∈ v.gap.toList ++ [')'] from hmem) with hm | hm
    · exact absurd (hgap _ hm) (by decide)
    · simp at hm

/-- An opening parenthesis in a token is the token, or stands in a literal. -/
theorem paren_of_stands {t : Token} {fresh : Bool} {rest x y : List Char} (h : t.Stands fresh rest)
    (hk : t.kind ≠ .directive) (ht : t.text.toList = x ++ '(' :: y) :
    (x = [] ∧ y = []) ∨ ∃ quote, isQuote quote = true ∧ t.text.toList.getLast? = some quote := by
  have hmem : '(' ∈ t.text.toList := by
    rw [ht]
    simp
  -- neither a word nor a number has a parenthesis, and no punctuator of more characters does
  cases h.lexes hk with
  | word _ htext hc hcs =>
    rw [htext] at hmem
    rcases List.mem_cons.1 hmem with rfl | hmem
    · exact absurd hc (by decide)
    · exact absurd (hcs _ hmem) (by decide)
  | @number c cs _ htext _ hd hs =>
    rw [htext] at hmem
    rcases List.mem_cons.1 hmem with rfl | hmem
    · simp at hd
    · have hin : '(' ∈ (splitNumber c (cs ++ rest)).1 := by rw [hs]; exact hmem
      obtain ⟨last, hgoes⟩ := mem_splitNumber hin
      exact absurd hgoes (by simp [numberGoesOn]; decide)
  | @literal opening body quote _ htext hq _ hbody =>
    refine .inr ⟨quote, hq, ?_⟩
    rw [htext, List.getLast?_append, getLast?_of_splitLiteral hbody, Option.some_or]
  | punctuation _ htext _ _ _ _ hl =>
    have hlong : ∀ p ∈ longPunctuators, '(' ∉ p.toList := by decide
    rcases punctuator_cases hl with rfl | ⟨p, hp, hpt⟩
    · rw [htext] at ht
      cases x with
      | nil => exact .inl ⟨rfl, (List.cons_eq_cons.1 ht).2.symm⟩
      | cons d x => simp at ht
    · rw [htext, ← hpt] at hmem
      exact absurd hmem (hlong p hp)

/-- In a plain token no block in parentheses opens. -/
theorem Plain.eq_paren {t : Token} {fresh : Bool} {rest x y g more : List Char} (h : Plain t)
    (hstands : t.Stands fresh rest) (ht : t.text.toList = x ++ '(' :: y)
    (hg : ∀ d ∈ g, isLayout d = true) (hsplit : y ++ rest = g ++ '\x7b' :: more) :
    x = [] ∧ y = [] := by
  rcases paren_of_stands hstands h.settled.1 ht with hpart | ⟨quote, hq, hlast⟩
  · exact hpart
  -- the quote that ends the literal is neither layout nor a brace, so the brace is in the literal
  have hquote : isLayout quote = false ∧ quote ≠ '(' := by
    rcases isQuote_cases hq with rfl | rfl <;> decide
  have hy : y ≠ [] := by
    rintro rfl
    rw [ht, List.getLast?_append] at hlast
    exact hquote.2 (by simpa using hlast.symm)
  have hmem : quote ∈ y := by
    rw [ht, ← List.singleton_append (x := '('), ← List.append_assoc,
      List.getLast?_append_of_ne_nil _ hy] at hlast
    exact List.mem_of_getLast? hlast
  have hnot : quote ∉ g := fun hm => by
    have := hg quote hm
    rw [hquote.1] at this
    cases this
  rcases List.append_eq_append_iff.1 hsplit with ⟨b, hb, -⟩ | ⟨b, rfl, hb⟩
  · exact absurd (by rw [hb]; exact List.mem_append_left _ hmem) hnot
  · cases b with
    | nil => exact absurd (by simpa using hmem) hnot
    | cons d b =>
      obtain ⟨rfl, -⟩ := List.cons_eq_cons.1 hb
      have hnone := h.blocks ('(' :: (g ++ '\x7b' :: b))
        ((List.mem_tails _ _).2 (by rw [ht]; exact List.suffix_append ..))
      have hsome := seq_exactly ['(']
        (layout_then_exactly hg (show isLayout '\x7b' = false from rfl) b)
      rw [List.singleton_append] at hsome
      rw [blockOpening, hsome] at hnone
      cases hnone

/-- **A match of a block in parentheses is a whole construct.** -/
theorem hits_block (h : Parted cs ts after) (hwhole : Wholesome ts) (hf : f ∈ forms)
    (hhead : f.head = []) (hbrackets : f.brackets = ["(", "\x7b"]) (hact : Acts action f.standin)
    (hcs : cs = before ++ (found ++ behind))
    (hp : blockInParentheses (found ++ behind) = some (found, behind)) :
    Hits ts after action before found behind := by
  obtain ⟨_, rest₁, b₁, hopen, hrest₁, rfl⟩ := seq_eq_some hp
  obtain ⟨rfl, hrest⟩ := exactly_eq_some hopen
  obtain ⟨g, rest₂, b₂, hmany, hrest₂, rfl⟩ := seq_eq_some hrest₁
  obtain ⟨hg, rfl⟩ := many_eq_some hmany
  obtain ⟨_, more, a, hbrace, hline, rfl⟩ := seq_eq_some hrest₂
  obtain ⟨rfl, rfl⟩ := exactly_eq_some hbrace
  have hsplit : (spaced ts).toList ++ after = before ++ '(' :: (g ++ '\x7b' :: more) := by
    rw [← h.text, hcs, hrest]
    rfl
  -- both brackets of the match are tokens, one behind the other
  obtain ⟨pre, t, post, x, y, rfl, htext, hy, rfl, hmore⟩ :=
    exists_token h.lexed h.gaps h.after (by decide) hsplit
  have hlexed := (lexed_append.1 h.lexed).2
  have hplain := hwhole.plain t (by simp)
  obtain ⟨d, y, rfl⟩ := List.exists_cons_of_ne_nil hy
  have hcons : '(' :: (g ++ '\x7b' :: more) = d :: (y ++ ((spaced post).toList ++ after)) := hmore
  obtain ⟨rfl, hinner⟩ := List.cons_eq_cons.1 hcons
  obtain ⟨rfl, rfl⟩ := hplain.eq_paren hlexed.2.2.2.1 htext hg hinner.symm
  have hparen : t.text = "(" := String.toList_inj.1 htext
  have hgapsPost : ∀ u ∈ post, Clear u.gap.toList := fun u hu => h.gaps u (by simp [hu])
  obtain ⟨o, post', rfl, rfl, ho⟩ :=
    exists_next hlexed.2.2.2.2 hgapsPost h.after hg (by decide) hinner.symm
  have hplain' := hwhole.plain o (by simp)
  obtain ⟨hopen', rfl⟩ := hlexed.2.2.2.2.2.2.2.1.eq_single hplain'.settled.1 (.inr rfl) ho
  have hbrace' : o.text = "\x7b" := String.toList_inj.1 hopen'
  have hfound : ['('] ++ (o.gap.toList ++ (['\x7b'] ++ a)) = (verbatim [t, o]).toList ++ a := by
    simp [verbatim, spaced, htext, hopen']
  rw [hfound, List.append_nil]
  refine hits_brackets h hwhole hf (by rw [hbrackets]; decide) (closedBy_block hbrackets) hact rfl
    ?_ (List.forall_mem_singleton.2 hg) (fun {inside closing extra} hcloses hgaps => ?_) hline
  · rw [hhead, hbrackets, texts, List.map_cons, List.map_singleton, hparen, hbrace']
    rfl
  · obtain ⟨htexts', -, hparens, -⟩ := hcloses
    have hclosing : f.closing = ["\x7d", ")"] := by rw [Form.closing, hbrackets]; rfl
    rw [hclosing] at htexts'
    obtain ⟨u, v, rfl, hu, hv⟩ := exists_pair_of_texts htexts'
    have hgap {w : Token} (hw : w = u ∨ w = v) : ∀ c ∈ w.gap.toList, c ≠ '(' ∧ c ≠ ')' :=
      fun c hc => ((hgaps w (by simpa using hw)).not_bracket c hc).1
    -- the braces count for nothing, so the parentheses inside decide
    have hq : parensBehind 0 (o.gap.toList ++ ('\x7b' :: ((spaced inside).toList ++
        (u.gap.toList ++ '\x7d' :: v.gap.toList)))) = some 0 := by
      rw [parensBehind_append, parensBehind_none fun c hc => not_paren_of_isLayout (hg c hc),
        Option.bind_some, parensBehind_other (by decide), parensBehind_append, hparens,
        Option.bind_some, parensBehind_append, parensBehind_none (hgap (.inl rfl)),
        Option.bind_some, parensBehind_other (by decide), parensBehind_none (hgap (.inr rfl))]
    have hgroup := splitBalanced_group (p := []) (List.forall_mem_nil _) hq extra
    simpa [verbatim, spaced, htext, hopen', hu, hv] using hgroup

end Sanitation

end WitnessReplay
