import WitnessReplay.Proofs.Sanitation.Surgery

/-!
# Which token a match begins in

A pattern is matched at a place of the text, and nothing says that a token begins there. In a text
without comments every character that is no blank stands in a token (`exists_token`), and a stretch
of word characters that begins in a token lies in it as a whole (`Stands.within`): a word or a
number does not end before a word character, and a literal ends in its quote, which no word crosses.

Behind a token that was found the next one is found in the same way, where only layout stands
between (`exists_next`).
-/

namespace WitnessReplay

open Text Token

/-! ### Characters of words -/

theorem isWordPart_of_isWordChar {c : Char} (h : isWordChar c = true) : isWordPart c = true := by
  unfold isWordChar at h
  split at h
  next =>
    rw [Bool.or_eq_true, Char.isAlphanum, Bool.or_eq_true] at h
    rcases h with (h | h) | h
    · simp [isWordPart, isWordStart, h]
    · simp [isWordPart, h]
    · simp [isWordPart, isWordStart, of_decide_eq_true h]
  next hc => simp [isWordPart, isWordStart, Nat.le_of_not_lt hc]

namespace Token

variable {t : Token} {fresh : Bool} {after : List Char}

/-- A word that begins in a token does not reach over its end. -/
theorem Stands.within (h : t.Stands fresh after) (hk : t.kind ≠ .directive)
    {x y word more : List Char} (ht : t.text.toList = x ++ y) (hy : y ≠ [])
    (hword : ∀ c ∈ word, isWordChar c = true) (hsplit : y ++ after = word ++ more) :
    ∃ y', y = word ++ y' ∧ more = y' ++ after := by
  rcases List.append_eq_append_iff.1 hsplit with ⟨b, hb, hafter⟩ | ⟨y', hy', hmore⟩
  · cases b with
    | nil => exact ⟨[], by simpa using hb.symm, by simpa using hafter.symm⟩
    | cons d b =>
      -- the token ends inside the word, before `d`
      have hd : isWordChar d = true := hword d (by rw [hb]; simp)
      have hjoin : after.head?.any isWordPart = true := by
        rw [hafter]
        exact isWordPart_of_isWordChar hd
      cases h.lexes hk with
      | word _ _ _ _ hend => rw [hjoin] at hend; cases hend
      | @number c cs _ _ _ _ hs =>
        have hend := splitNumber_head? c (cs ++ after)
        rw [hs, hjoin] at hend
        cases hend
      | @literal opening body quote _ htext hq _ hbody =>
        have hlast : t.text.toList.getLast? = some quote := by
          rw [htext, List.getLast?_append, getLast?_of_splitLiteral hbody, Option.some_or]
        rw [ht, List.getLast?_append_of_ne_nil _ hy] at hlast
        have hmem : quote ∈ word := by
          rw [hb]
          exact List.mem_append_left _ (List.mem_of_getLast? hlast)
        have := hword quote hmem
        rcases isQuote_cases hq with rfl | rfl <;> exact absurd this (by decide)
      | @punctuation c cs _ htext hw hn _ _ hl =>
        obtain ⟨e, ys, rfl⟩ := List.exists_cons_of_ne_nil hy
        have he : isWordPart e = true :=
          isWordPart_of_isWordChar (hword e (by rw [hb]; simp))
        have hmem : e ∈ c :: cs := by
          rw [← htext, ht]
          simp
        rcases punctuator_cases hl with rfl | ⟨p, hp, hpt⟩
        · obtain rfl := List.mem_singleton.1 hmem
          rw [Bool.or_eq_true, not_or] at hn
          rw [isWordPart, Bool.or_eq_true] at he
          exact (he.elim hw hn.1).elim
        · rw [← hpt] at hmem
          rw [longPunctuators_not_wordPart p hp e hmem] at he
          cases he
  · exact ⟨y', hy', hmore⟩

/-- A token does not begin with a blank. -/
theorem Stands.exists_cons (h : t.Stands fresh after) :
    ∃ c cs, t.text.toList = c :: cs ∧ isSpacing c = false := by
  obtain ⟨hunit, c, cs, htext, -⟩ := h
  rw [htext] at hunit
  exact ⟨c, cs, htext, (of_gapUnit?_eq_none hunit).1⟩

/-- An opening parenthesis or brace is a token by itself. -/
theorem Stands.eq_single (h : t.Stands fresh after) (hk : t.kind ≠ .directive) {c : Char}
    {more : List Char} (hc : c = '(' ∨ c = '\x7b')
    (hsplit : t.text.toList ++ after = c :: more) : t.text.toList = [c] ∧ more = after := by
  obtain ⟨d, cs, htext, -⟩ := h.exists_cons
  rw [htext, List.cons_append] at hsplit
  obtain ⟨rfl, rfl⟩ := List.cons_eq_cons.1 hsplit
  have hlong : ∀ p ∈ longPunctuators, '(' ∉ p.toList ∧ '\x7b' ∉ p.toList := by decide
  have hcs : cs = [] := by
    -- no token of another kind begins with it, and no longer punctuator has it
    cases h.lexes hk with
    | word _ ht hw =>
      rw [htext] at ht
      cases ht
      rcases hc with rfl | rfl <;> exact absurd hw (by decide)
    | number _ ht _ hd =>
      rw [htext] at ht
      cases ht
      rcases hc with rfl | rfl <;> simp at hd
    | literal _ ht hq ho =>
      rcases ho with rfl | ⟨mark, hmark, rfl⟩
      · rw [htext] at ht
        cases ht
        rcases hc with rfl | rfl <;> exact absurd hq (by decide)
      · rw [htext] at ht
        cases ht
        rcases hc with rfl | rfl <;> exact absurd hmark (by decide)
    | punctuation _ ht _ _ _ _ hl =>
      rw [htext] at ht
      cases ht
      rcases punctuator_cases hl with hcs | ⟨p, hp, hpt⟩
      · exact hcs
      · have hmem : d ∈ p.toList := by
          rw [hpt]
          simp
        rcases hc with rfl | rfl
        · exact absurd hmem (hlong p hp).1
        · exact absurd hmem (hlong p hp).2
  subst hcs
  exact ⟨htext, rfl⟩

/-- A token that begins with the letters of a word is that word, if the word ends there. -/
theorem Stands.eq_word (h : t.Stands fresh after) (hk : t.kind ≠ .directive) {c : Char}
    {word more : List Char} (hc : isWordStart c = true) (hmark : isLiteralMark c = false)
    (hword : ∀ d ∈ c :: word, isWordPart d = true) (hmore : more.head?.any isWordPart = false)
    (hsplit : t.text.toList ++ after = c :: word ++ more) :
    t.text.toList = c :: word ∧ more = after := by
  obtain ⟨d, cs, htext, -⟩ := h.exists_cons
  have hd : d = c := by
    rw [htext] at hsplit
    exact (List.cons_eq_cons.1 hsplit).1
  subst hd
  cases h.lexes hk with
  | @word e es _ ht he hes hend =>
    have hall : ∀ d ∈ t.text.toList, isWordPart d = true := by
      rw [ht]
      refine List.forall_mem_cons.2 ⟨?_, hes⟩
      rw [isWordPart, he, Bool.true_or]
    -- both words are cut where the text stops going on with a word
    obtain ⟨h1, h2⟩ := takeWhile_eq_self hall hend
    obtain ⟨h3, h4⟩ := takeWhile_eq_self hword hmore
    rw [hsplit] at h1 h2
    exact ⟨h1.symm.trans h3, h4.symm.trans h2⟩
  | number _ ht hw =>
    rw [htext] at ht
    cases ht
    exact absurd hc hw
  | literal _ ht hq ho =>
    rcases ho with rfl | ⟨mark, hmark', rfl⟩
    · rw [htext] at ht
      cases ht
      rcases isQuote_cases hq with rfl | rfl <;> exact absurd hc (by decide)
    · rw [htext] at ht
      cases ht
      rw [hmark] at hmark'
      cases hmark'
  | punctuation _ ht hw =>
    rw [htext] at ht
    cases ht
    exact absurd hc hw

end Token

namespace Sanitation

/-! ### Places in a text -/

/-- **Every character of a text but blanks stands in a token.** -/
theorem exists_token {place : Cursor} {ts : List Token} {after before more : List Char} {c : Char}
    (h : Lexed place ts after) (hgaps : ∀ t ∈ ts, Clear t.gap.toList) (hafter : Clear after)
    (hc : isSpacing c = false ∧ c ≠ '\\')
    (hsplit : (spaced ts).toList ++ after = before ++ c :: more) :
    ∃ pre t post x y, ts = pre ++ t :: post ∧ t.text.toList = x ++ y ∧ y ≠ [] ∧
      before = (spaced pre).toList ++ (t.gap.toList ++ x) ∧
      c :: more = y ++ ((spaced post).toList ++ after) := by
  have hblank {g : List Char} (hg : Clear g) : c ∉ g := fun hmem =>
    (hg.cases hmem).elim (fun h => by rw [hc.1] at h; cases h) hc.2
  induction ts generalizing place before with
  | nil =>
    have hmem : c ∈ after := by
      rw [show after = before ++ c :: more from hsplit]
      simp
    exact absurd hmem (hblank hafter)
  | cons t ts ih =>
    obtain ⟨hgap, hgaps'⟩ := List.forall_mem_cons.1 hgaps
    have hcs : (spaced (t :: ts)).toList ++ after
        = t.gap.toList ++ (t.text.toList ++ ((spaced ts).toList ++ after)) := by simp [spaced]
    rw [hcs] at hsplit
    -- the place lies behind the gap, for it is no blank
    have hpast : ∃ x, before = t.gap.toList ++ x ∧
        t.text.toList ++ ((spaced ts).toList ++ after) = x ++ c :: more := by
      rcases List.append_eq_append_iff.1 hsplit with ⟨x, hx, hrest⟩ | ⟨x, hx, hrest⟩
      · exact ⟨x, hx, hrest⟩
      · cases x with
        | nil => exact ⟨[], by simpa using hx.symm, hrest.symm⟩
        | cons d x =>
          obtain ⟨rfl, -⟩ := List.cons_eq_cons.1 hrest
          exact absurd (by rw [hx]; simp) (hblank hgap)
    obtain ⟨x, rfl, hrest⟩ := hpast
    have hbehind {b : List Char} (hb : x = t.text.toList ++ b)
        (hb' : (spaced ts).toList ++ after = b ++ c :: more) :
        ∃ pre u post x' y, t :: ts = pre ++ u :: post ∧ u.text.toList = x' ++ y ∧ y ≠ [] ∧
          t.gap.toList ++ x = (spaced pre).toList ++ (u.gap.toList ++ x') ∧
          c :: more = y ++ ((spaced post).toList ++ after) := by
      obtain ⟨pre, u, post, x', y, rfl, htext, hne, hbefore, hmore⟩ := ih h.2.2.2.2 hgaps' hb'
      exact ⟨t :: pre, u, post, x', y, rfl, htext, hne, by rw [hb, hbefore]; simp [spaced], hmore⟩
    rcases List.append_eq_append_iff.1 hrest with ⟨b, hb, hb'⟩ | ⟨y, hy, hmore⟩
    · exact hbehind hb hb'
    · cases y with
      | nil => exact hbehind (b := []) (by simpa using hy.symm) hmore.symm
      | cons d y => exact ⟨[], t, ts, x, d :: y, rfl, hy, List.cons_ne_nil d y, rfl, hmore⟩

/-- The next character behind layout begins the next token. -/
theorem exists_next {place : Cursor} {ts : List Token} {after g more : List Char} {c : Char}
    (h : Lexed place ts after) (hgaps : ∀ t ∈ ts, Clear t.gap.toList) (hafter : Clear after)
    (hg : ∀ d ∈ g, isLayout d = true) (hc : isSpacing c = false ∧ c ≠ '\\')
    (hsplit : (spaced ts).toList ++ after = g ++ c :: more) :
    ∃ t rest, ts = t :: rest ∧ t.gap.toList = g ∧
      t.text.toList ++ ((spaced rest).toList ++ after) = c :: more := by
  have hspacing : ∀ d ∈ g, isSpacing d = true := by
    intro d hd
    have hlayout := hg d hd
    rw [isLayout, Bool.or_eq_true, Bool.or_eq_true] at hlayout
    rcases hlayout with (h | h) | h <;> rw [eq_of_beq h] <;> rfl
  obtain ⟨pre, t, post, x, y, rfl, htext, -, hbefore, hmore⟩ :=
    exists_token h hgaps hafter hc hsplit
  -- a token in front would begin with a blank
  have hpre : pre = [] := by
    cases pre with
    | nil => rfl
    | cons u pre =>
      obtain ⟨d, ds, hd, hblank⟩ := h.2.2.2.1.exists_cons
      have := hspacing d (by rw [hbefore]; simp [spaced, hd])
      rw [hblank] at this
      cases this
  subst hpre
  have hx : x = [] := by
    cases x with
    | nil => rfl
    | cons e x =>
      obtain ⟨d, ds, hd, hblank⟩ := h.2.2.2.1.exists_cons
      rw [htext, List.cons_append] at hd
      obtain ⟨rfl, -⟩ := List.cons_eq_cons.1 hd
      have := hspacing e (by rw [hbefore]; simp)
      rw [hblank] at this
      cases this
  subst hx
  refine ⟨t, post, rfl, by simpa [spaced] using hbefore.symm, ?_⟩
  rw [htext, hmore]
  rfl

end Sanitation

end WitnessReplay
