import WitnessReplay.Proofs.Sanitation.Grouping

/-!
# Sanitation as a rewriting of constructs

One substitution of the table after the other finds its matches, and over a wholesome text every
match is a whole construct (`hits_of_match`). So a sanitized text is made of the tokens of the
source from which whole constructs were taken, one by one, if the text is wholesome at every step of
the way: that is `Regular`, and `overwrites_sanitize` is the result.

`Regular` speaks of the order in which constructs may be taken away, not of the order in which the
sanitizer takes them. It is checked by trying them all (`regular_of_within`).
-/

namespace WitnessReplay

open Text Text.Pattern Token

namespace Sanitation

variable {cs after before behind found : List Char} {ts : List Token} {f : Form} {action : Action}

/-! ### The patterns of the table -/

theorem mem_extensionWords {w : String} {ws : List String} (hf : f ∈ forms)
    (hhead : f.head = w :: ws) :
    w ∈ extensionWords :=
  List.mem_filterMap.2 ⟨f, hf, by rw [hhead]; rfl⟩

theorem not_word_of_isLayout {c : Char} (h : isLayout c = true) :
    isWordChar c = false ∧ isWordPart c = false := by
  rcases isLayout_cases h with rfl | rfl | rfl <;> decide

/-- No word goes on with layout or a parenthesis. -/
theorem not_word_of_group {g more : List Char} (hg : ∀ c ∈ g, isLayout c = true) :
    (g ++ '(' :: more).head?.any isWordChar = false ∧
      (g ++ '(' :: more).head?.any isWordPart = false := by
  cases g with
  | nil => exact ⟨(by decide : isWordChar '(' = false), (by decide : isWordPart '(' = false)⟩
  | cons c g => exact not_word_of_isLayout (hg c (by simp))

/-- What a word with its group finds: the word, some layout, a parenthesis, and the line up to the
last closing one. -/
theorem wordWithGroup_eq_some {word : Pattern} (hword : Splits word)
    (h : wordWithGroup word cs = some (found, behind)) :
    ∃ w g more a, word cs = some (w, g ++ '(' :: more) ∧ cs = w ++ (g ++ '(' :: more) ∧
      (∀ c ∈ g, isLayout c = true) ∧ onLine (exactly [')']) more = some (a, behind) ∧
      found = w ++ (g ++ '(' :: a) := by
  obtain ⟨w, rest₁, b₁, hw, hrest₁, rfl⟩ := seq_eq_some h
  obtain ⟨g, rest₂, b₂, hmany, hrest₂, rfl⟩ := seq_eq_some hrest₁
  obtain ⟨hg, rfl⟩ := many_eq_some hmany
  obtain ⟨_, more, a, hparen, hline, rfl⟩ := seq_eq_some hrest₂
  obtain ⟨rfl, rfl⟩ := exactly_eq_some hparen
  exact ⟨w, g, more, a, hw, (hword hw).symm, hg, hline, rfl⟩

section Heads

variable {w w' : String} {g g' more a : List Char}

theorem hits_head (h : Parted cs ts after) (hwhole : Wholesome ts) (hf : f ∈ forms)
    (hhead : f.head = [w]) (hbrackets : f.brackets = ["("]) (hact : Acts action f.standin)
    (hcs : cs = before ++ (w.toList ++ (g ++ '(' :: more))) (hbefore : endsInWord before = false)
    (hg : ∀ c ∈ g, isLayout c = true) (hline : onLine (exactly [')']) more = some (a, behind)) :
    Hits ts after action before (w.toList ++ (g ++ '(' :: a)) behind := by
  obtain ⟨pre, t, post, rfl, rfl, rfl, hpost⟩ := exists_word h hwhole (mem_extensionWords hf hhead)
    hcs hbefore (not_word_of_group hg).1
  have hverbatim : (verbatim [t]).toList = t.text.toList := by simp [verbatim, spaced]
  rw [← hverbatim]
  exact hits_group h hwhole hf hbrackets hact rfl hhead.symm (List.forall_mem_nil _) hg hpost.symm
    hline

/-- The second words of constructs are words by themselves. -/
theorem letters_of_second (hf : f ∈ forms) (hhead : f.head = [w, w']) :
    ∃ c word, w'.toList = c :: word ∧ isWordStart c = true ∧ isLiteralMark c = false ∧
      (∀ d ∈ c :: word, isWordPart d = true) ∧ isSpacing c = false ∧ c ≠ '\\' := by
  have hall : ∀ f ∈ forms, ∀ w' ∈ f.head.tail, w'.toList ≠ [] ∧
      (w'.toList.head?.all fun c => isWordStart c && !isLiteralMark c && !isSpacing c &&
        c ≠ '\\') = true ∧ w'.toList.all isWordPart = true := by
    decide
  obtain ⟨hne, hfirst, hword⟩ := hall f hf w' (by rw [hhead]; simp)
  obtain ⟨c, word, heq⟩ := List.exists_cons_of_ne_nil hne
  rw [heq] at hfirst hword
  have hfirst : isWordStart c = true ∧ isLiteralMark c = false ∧ isSpacing c = false ∧
      c ≠ '\\' := by
    simpa [and_assoc] using hfirst
  exact ⟨c, word, heq, hfirst.1, hfirst.2.1, List.all_eq_true.1 hword, hfirst.2.2⟩

theorem hits_heads (h : Parted cs ts after) (hwhole : Wholesome ts) (hf : f ∈ forms)
    (hhead : f.head = [w, w']) (hbrackets : f.brackets = ["("]) (hact : Acts action f.standin)
    (hcs : cs = before ++ (w.toList ++ (g' ++ (w'.toList ++ (g ++ '(' :: more)))))
    (hbefore : endsInWord before = false) (hg' : ∀ c ∈ g', isLayout c = true) (hne : g' ≠ [])
    (hg : ∀ c ∈ g, isLayout c = true) (hline : onLine (exactly [')']) more = some (a, behind)) :
    Hits ts after action before (w.toList ++ (g' ++ (w'.toList ++ (g ++ '(' :: a)))) behind := by
  have hnext : (g' ++ (w'.toList ++ (g ++ '(' :: more))).head?.any isWordChar = false := by
    obtain ⟨d, ds, rfl⟩ := List.exists_cons_of_ne_nil hne
    exact (not_word_of_isLayout (hg' d (by simp))).1
  obtain ⟨pre, t, post, rfl, rfl, rfl, hpost⟩ := exists_word h hwhole (mem_extensionWords hf hhead)
    hcs hbefore hnext
  have hlexed := (lexed_append.1 h.lexed).2.2.2.2.2
  have hgapsPost : ∀ u ∈ post, Clear u.gap.toList := fun u hu => h.gaps u (by simp [hu])
  obtain ⟨c, word, hw', hc, hmark, hword, hblank⟩ := letters_of_second hf hhead
  rw [hw', List.cons_append] at hpost
  obtain ⟨u, post', rfl, rfl, hu⟩ := exists_next hlexed hgapsPost h.after hg' hblank hpost.symm
  have hplain := hwhole.plain u (by simp)
  obtain ⟨htext, hrest⟩ := hlexed.2.2.2.1.eq_word hplain.settled.1 hc hmark hword
    (not_word_of_group hg).2 hu
  have htext' : u.text = w' := String.toList_inj.1 (htext.trans hw'.symm)
  have hverbatim : t.text.toList ++ (u.gap.toList ++ (w'.toList ++ (g ++ '(' :: a)))
      = (verbatim [t, u]).toList ++ (g ++ '(' :: a) := by
    simp [verbatim, spaced, htext']
  rw [hverbatim]
  exact hits_group h hwhole hf hbrackets hact (by simp)
    (by rw [hhead, texts, List.map_cons, List.map_singleton, htext'])
    (List.forall_mem_singleton.2 hg') hg hrest.symm hline

end Heads

/-- A pattern that reads a word and a group finds a whole construct. -/
theorem hits_wordWithGroup {w : String} (h : Parted cs ts after) (hwhole : Wholesome ts)
    (hf : f ∈ forms) (hhead : f.head = [w]) (hbrackets : f.brackets = ["("])
    (hact : Acts action f.standin) (hcs : cs = before ++ (found ++ behind))
    (hbefore : endsInWord before = false)
    (hp : wordWithGroup (.exactly w.toList) (found ++ behind) = some (found, behind)) :
    Hits ts after action before found behind := by
  obtain ⟨_, g, more, a, hw, hsplit, hg, hline, rfl⟩ := wordWithGroup_eq_some (exactly_splits _) hp
  obtain ⟨rfl, -⟩ := exactly_eq_some hw
  exact hits_head h hwhole hf hhead hbrackets hact (by rw [hcs, hsplit]) hbefore hg hline

/-- The pattern for `__asm__`, which may be followed by another word. -/
def asmWord : Pattern :=
  .seq (.exactly "__asm__".toList)
    (.orElse (.seq (.many1 isLayout) (.exactly "__volatile__".toList)) (.exactly []))

/-- Where an `asm` word with its group is found among wholesome tokens, it is a form that is
overwritten. -/
theorem hits_asmWord (h : Parted cs ts after) (hwhole : Wholesome ts)
    (hcs : cs = before ++ (found ++ behind)) (hbefore : endsInWord before = false)
    (hp : wordWithGroup asmWord (found ++ behind) = some (found, behind)) :
    Hits ts after .blankGroup before found behind := by
  have hsplits : Splits asmWord := seq_splits (exactly_splits _)
    (orElse_splits (seq_splits (many1_splits _) (exactly_splits _)) (exactly_splits _))
  obtain ⟨_, g, more, a, hw, hsplit, hg, hline, rfl⟩ := wordWithGroup_eq_some hsplits hp
  obtain ⟨_, rest, b, hasm, hrest, rfl⟩ := seq_eq_some hw
  obtain ⟨rfl, -⟩ := exactly_eq_some hasm
  rw [hsplit] at hcs
  rcases orElse_cases hrest with hrest | hrest
  · obtain ⟨g', rest', b', hmany, hvolatile, rfl⟩ := seq_eq_some hrest
    obtain ⟨hg', hne, -⟩ := many1_eq_some hmany
    obtain ⟨rfl, -⟩ := exactly_eq_some hvolatile
    have hsplit' : cs = before ++ ("__asm__".toList ++ (g' ++ ("__volatile__".toList ++
        (g ++ '(' :: more)))) := by simpa using hcs
    have hits := hits_heads (f := ⟨["__asm__", "__volatile__"], ["("], none⟩) h hwhole (by decide)
      rfl rfl acts_blankGroup hsplit' hbefore hg' hne hg hline
    simpa using hits
  · obtain ⟨rfl, -⟩ := exactly_eq_some hrest
    have hits := hits_head (f := ⟨["__asm__"], ["("], none⟩) h hwhole (by decide) rfl rfl
      acts_blankGroup (by simpa using hcs) hbefore hg hline
    simpa using hits

theorem hits_asmVolatile (h : Parted cs ts after) (hwhole : Wholesome ts)
    (hcs : cs = before ++ (found ++ behind)) (hbefore : endsInWord before = false)
    (hp : wordWithGroup (.exactly "asm volatile".toList) (found ++ behind) = some (found, behind)) :
    Hits ts after .blankGroup before found behind := by
  obtain ⟨_, g, more, a, hw, hsplit, hg, hline, rfl⟩ := wordWithGroup_eq_some (exactly_splits _) hp
  obtain ⟨rfl, -⟩ := exactly_eq_some hw
  have hwords : "asm volatile".toList = "asm".toList ++ ([' '] ++ "volatile".toList) := by decide
  rw [hsplit] at hcs
  rw [hwords, List.append_assoc, List.append_assoc] at hcs ⊢
  exact hits_heads (f := ⟨["asm", "volatile"], ["("], none⟩) h hwhole (by decide) rfl rfl
    acts_blankGroup hcs hbefore (List.forall_mem_singleton.2 rfl) (by decide) hg hline

/-- **Every match in a wholesome text is a whole construct**, whichever entry of the table finds
it. -/
theorem hits_of_match {s : Substitution} (hs : s ∈ substitutions.tail) (h : Parted cs ts after)
    (hwhole : Wholesome ts) (hcs : cs = before ++ (found ++ behind))
    (hword : s.atWord = true → endsInWord before = false)
    (hp : s.pattern (found ++ behind) = some (found, behind)) :
    Hits ts after s.action before found behind := by
  simp only [substitutions, List.tail_cons, List.mem_cons, List.not_mem_nil, or_false] at hs
  rcases hs with rfl | rfl | rfl | rfl | rfl | rfl | rfl | rfl | rfl | rfl | rfl
  · exact hits_wordWithGroup (f := ⟨["__attribute__"], ["("], none⟩) h hwhole (by decide) rfl rfl
      acts_blankGroup hcs (hword rfl) hp
  · exact hits_asmWord h hwhole hcs (hword rfl) hp
  · exact hits_asmVolatile h hwhole hcs (hword rfl) hp
  · exact hits_wordWithGroup (f := ⟨["asm"], ["("], none⟩) h hwhole (by decide) rfl rfl
      acts_blankGroup hcs (hword rfl) hp
  · exact hits_wordWithGroup (f := ⟨["__extension__"], ["("], some .zero⟩) h hwhole (by decide) rfl
      rfl acts_zeroGroup hcs (hword rfl) hp
  · exact hits_word (f := ⟨["__extension__"], [], none⟩) h hwhole (by decide) rfl rfl (by decide)
      hcs (hword rfl) hp
  · rcases orElse_cases hp with hp | hp
    · exact hits_word (f := ⟨["__inline__"], [], none⟩) h hwhole (by decide) rfl rfl (by decide) hcs
        (hword rfl) hp
    · exact hits_word (f := ⟨["__inline"], [], none⟩) h hwhole (by decide) rfl rfl (by decide) hcs
        (hword rfl) hp
  · rcases orElse_cases hp with hp | hp
    · exact hits_word (f := ⟨["__restrict__"], [], none⟩) h hwhole (by decide) rfl rfl (by decide)
        hcs (hword rfl) hp
    · exact hits_word (f := ⟨["__restrict"], [], none⟩) h hwhole (by decide) rfl rfl (by decide) hcs
        (hword rfl) hp
  · exact hits_word (f := ⟨["__builtin_va_list"], [], some ⟨0, .word, "int"⟩⟩) h hwhole (by decide)
      rfl rfl (by decide) hcs (hword rfl) hp
  · exact hits_word (f := ⟨["__signed__"], [], some ⟨2, .word, "signed"⟩⟩) h hwhole (by decide) rfl
      rfl (by decide) hcs (hword rfl) hp
  · exact hits_block (f := ⟨[], ["(", "\x7b"], some .zero⟩) h hwhole (by decide) rfl rfl
      acts_zeroGroup hcs hp

/-! ### Runs -/

/-- Whichever constructs are overwritten, in whichever order, the tokens stay wholesome. -/
def Regular (ts : List Token) : Prop :=
  ∀ us, Relation.ReflTransGen Overwrites ts us → Wholesome us

/-- Where a match is replaced, a construct is overwritten. -/
theorem Hits.exists_overwrites (hhits : Hits ts after action before found behind)
    (h : Parted cs ts after) (hwhole : Wholesome ts) :
    ∃ us after', Overwrites ts us ∧
      Parted (before ++ (action.apply found ++ behind)) us after' := by
  obtain ⟨pre, t, rest, post, extra, f, hf, hspells, hopens, rfl, rfl, -, hbehind, happly⟩ := hhits
  have hjoin : t.gap = "" → ∀ u ∈ pre.getLast?, joins u.kind u.text.toList f.first = false := by
    intro hgap u hu
    obtain ⟨pre', rfl⟩ := List.getLast?_eq_some_iff.1 hu
    refine hwhole.apart (u :: (t :: rest ++ post)) ((List.mem_tails _ _).2 ?_) f hf hopens ?_ u rfl
    · exact ⟨pre', by simp⟩
    · rintro v ⟨⟩
      exact hgap
  obtain ⟨after', hparted⟩ := h.overwritten hf hspells
    (fun u hu => (hwhole.plain u hu).settled) hjoin
  refine ⟨_, after', ⟨pre, t :: rest, post, f, hf, hspells, rfl, rfl⟩, ?_⟩
  have htext : (spaced pre).toList ++ t.gap.toList ++ (action.apply found ++ behind)
      = (spaced pre).toList ++ (t.gap.toList ++ (written f.standin (verbatim (t :: rest)).toList ++
        ((spaced post).toList ++ after))) := by
    rw [happly, ← hbehind]
    simp
  rw [htext]
  exact hparted

/-- A text is what is left of some tokens where constructs of them were overwritten. -/
def Reached (ts : List Token) (cs : List Char) : Prop :=
  ∃ us after, Relation.ReflTransGen Overwrites ts us ∧ Parted cs us after

/-- A substitution overwrites forms, and so leads from tokens to tokens. -/
theorem Reached.apply {s : Substitution} (hr : Regular ts) (hs : s ∈ substitutions.tail)
    (h : Reached ts cs) : Reached ts (s.apply cs) := by
  refine s.apply_induct (proper_of_mem (List.mem_of_mem_tail hs)) (P := Reached ts)
    (fun {before found behind} hreached hword hp => ?_) h
  obtain ⟨us, after, hus, hparted⟩ := hreached
  have hwhole := hr us hus
  obtain ⟨vs, after', hstep, hparted'⟩ :=
    (hits_of_match hs hparted hwhole rfl hword hp).exists_overwrites hparted hwhole
  exact ⟨vs, after', hus.tail hstep, hparted'⟩

/-- No comments come up on the way. -/
theorem Reached.uncommented_eq (hr : Regular ts) (h : Reached ts cs) : uncommented cs = cs := by
  obtain ⟨us, after, hus, hparted⟩ := h
  have hplain := (hr us hus).plain
  exact hparted.uncommented_eq (fun t ht => (hplain t ht).settled.1)
    fun t ht => (hplain t ht).shielded

/-- Behind the comments, a pass overwrites constructs. -/
theorem Reached.pass (hr : Regular ts) (h : Reached ts (uncommented cs)) :
    Reached ts (pass cs) := by
  rw [Sanitation.pass, substitutions_eq, List.foldl_cons]
  exact List.foldlRecOn substitutions.tail _ h fun _ h s hs => h.apply hr hs

/-- All passes together lead from tokens to tokens. -/
theorem Reached.sanitizeFrom (hr : Regular ts) (h : Reached ts (uncommented cs)) :
    Reached ts (sanitizeFrom cs) := by
  have hpass := h.pass hr
  fun_induction Sanitation.sanitizeFrom cs with
  | case1 cs next _ ih =>
    have hnext : Reached ts (uncommented next) := by rwa [hpass.uncommented_eq hr]
    exact ih hnext (hnext.pass hr)
  | case2 => exact hpass

/-- **Sanitation takes away whole constructs and nothing else**, where the tokens of the source stay
wholesome: the sanitized text is read, and its tokens are those of the source with constructs
overwritten, one after the other. So its brackets nest if and only if those of the source do. -/
theorem overwrites_sanitize {source : String} (h : tokenize source = .ok ts)
    (hr : Regular (ts.map Token.uncommented)) :
    ∃ us, tokenize (sanitize source) = .ok us ∧
      Relation.ReflTransGen Overwrites (ts.map Token.uncommented) us ∧ (Nested us ↔ Nested ts) := by
  have hplain : ∀ t ∈ ts, Plain t.uncommented := fun t ht =>
    (hr _ .refl).plain _ (List.mem_map_of_mem ht)
  obtain ⟨after, hparted⟩ := exists_parted h (fun t ht => (hplain t ht).settled.1)
    fun t ht => (hplain t ht).shielded
  obtain ⟨us, after', hus, hparted'⟩ := Reached.sanitizeFrom hr ⟨_, after, .refl, hparted⟩
  have hbrackets : Nested (ts.map Token.uncommented) ↔ Nested ts := by
    rw [Nested, Nested, pendingBehind_map (g := Token.uncommented) fun _ => rfl]
  exact ⟨us, hparted'.tokenize_eq, hus, (nested_of_overwrites hus).trans hbrackets⟩

/-! ### Checking that tokens are regular -/

/-- What some tokens are where one construct is overwritten. -/
def successors (ts : List Token) : List (List Token) :=
  (List.range ts.length).flatMap fun i => forms.flatMap fun f =>
    if texts ((ts.drop i).take f.width) = f.head ++ f.brackets then
      ((List.range (ts.length + 1)).filter fun n => f.Spells ((ts.drop i).take n)).map fun n =>
        ts.take i ++ overwritten f.standin ((ts.drop i).take n) (ts.drop (i + n))
    else []

/-- The list of successors has all of them. -/
theorem mem_successors {us : List Token} (h : Overwrites ts us) : us ∈ successors ts := by
  obtain ⟨pre, construct, post, f, hf, hspells, rfl, rfl⟩ := h
  have hne := List.length_pos_iff.2 (hspells.ne_nil hf)
  have hstart : (pre ++ construct ++ post).drop pre.length = construct ++ post := by
    rw [List.append_assoc, List.drop_left]
  have htake : (pre ++ construct ++ post).take pre.length = pre := by
    rw [List.append_assoc, List.take_left]
  have hend : (pre ++ construct ++ post).drop (pre.length + construct.length) = post := by
    rw [← List.drop_drop, hstart, List.drop_left]
  have hopens : texts ((construct ++ post).take f.width) = f.head ++ f.brackets := by
    obtain ⟨opening, inside, closing, rfl, hopening, -⟩ := hspells
    have hwidth := congrArg List.length hopening
    rw [List.length_map, List.length_append] at hwidth
    rw [List.append_assoc, List.append_assoc, Form.width, ← hwidth, List.take_left, hopening]
  refine List.mem_flatMap.2 ⟨pre.length, List.mem_range.2 (by simp; omega),
    List.mem_flatMap.2 ⟨f, hf, ?_⟩⟩
  rw [hstart, htake, if_pos hopens]
  refine List.mem_map.2 ⟨construct.length,
    List.mem_filter.2 ⟨List.mem_range.2 (by simp; omega), ?_⟩, ?_⟩
  · rw [List.take_left]
    exact decide_eq_true hspells
  · rw [List.take_left, hend]

/-- Whether tokens stay wholesome until no construct is left, within a number of steps. -/
def regularWithin : Nat → List Token → Bool
  | 0, _ => false
  | n + 1, ts => decide (Wholesome ts) && (successors ts).all (regularWithin n)

/-- So regularity can be tested, for as many steps as are given. -/
theorem regular_of_within {n : Nat} (h : regularWithin n ts = true) : Regular ts := by
  induction n generalizing ts with
  | zero => cases h
  | succ n ih =>
    obtain ⟨hwhole, hall⟩ := Bool.and_eq_true_iff.1 h
    intro us hus
    cases Relation.ReflTransGen.cases_head hus with
    | inl heq => exact heq ▸ of_decide_eq_true hwhole
    | inr hstep =>
      obtain ⟨vs, hvs, hrest⟩ := hstep
      exact ih (List.all_eq_true.1 hall vs (mem_successors hvs)) us hrest

end Sanitation

/-- A source with a group behind a keyword, and a block in parentheses behind another. -/
def extendedSource : String :=
  "int f() __attribute__((pure)); /* asm( */ int y = __extension__ (\x7b 1; \x7d);"

theorem overwrites_sanitize_extendedSource : ∃ ts us, tokenize extendedSource = .ok ts ∧
    tokenize (Sanitation.sanitize extendedSource) = .ok us ∧
    Relation.ReflTransGen Sanitation.Overwrites (ts.map Token.uncommented) us ∧
    (Nested us ↔ Nested ts) := by
  have hall : ∃ ts, tokenize extendedSource = .ok ts ∧
      Sanitation.regularWithin 4 (ts.map Token.uncommented) = true := by decide +kernel
  obtain ⟨ts, hts, hregular⟩ := hall
  obtain ⟨us, hus, hpath, hnested⟩ :=
    Sanitation.overwrites_sanitize hts (Sanitation.regular_of_within hregular)
  exact ⟨ts, us, hts, hus, hpath, hnested⟩

/-- A group that goes on behind the end of its line. The last closing parenthesis of the line does
not close it, and all of the line is blanked. -/
def brokenSource : String :=
  "int f() \x7b asm(\"\" : \"=r\"(y)\n : \"0\"(z)); \x7d"

/-- That a source can be read, and has no directives, is not enough. -/
theorem not_overwrites_sanitize : ¬ ∀ (source : String) (ts : List Token),
    tokenize source = .ok ts → (∀ t ∈ ts, t.kind ≠ .directive) →
    ∃ us, tokenize (Sanitation.sanitize source) = .ok us ∧
      Relation.ReflTransGen Sanitation.Overwrites (ts.map Token.uncommented) us ∧
      (Nested ts → Nested us) := by
  intro h
  have hall : ∃ ts, tokenize brokenSource = .ok ts ∧ (∀ t ∈ ts, t.kind ≠ .directive) ∧
      Nested ts ∧ ∃ us, tokenize (Sanitation.sanitize brokenSource) = .ok us ∧ ¬ Nested us := by
    decide +kernel
  obtain ⟨ts, hts, hk, hnested, us, hus, hbroken⟩ := hall
  obtain ⟨vs, hvs, -, hkept⟩ := h brokenSource ts hts hk
  rw [hus] at hvs
  cases hvs
  exact hbroken (hkept hnested)

end WitnessReplay
