import WitnessReplay.Source.Sanitation

/-!
# Sanitation, one match at a time

A substitution runs over a text and replaces its matches from left to right. What is true of a text
and stays true when one match is replaced is true of the result (`Substitution.apply_induct`), and
then it is true of the sanitized text (`sanitizeFrom_induct`). This needs little of a substitution,
and `proper_of_mem` says that every entry of the table has it.

The one thing that a substitution knows of what stands before a place is whether it is a word
character. The step of the induction speaks of the text as it is by then, in which earlier matches
are replaced: there may be a blank now where a word ended, but no word where none was.
-/

namespace WitnessReplay

namespace Text.Pattern

/-! ### How a pattern begins -/

/-- All that a pattern reads begins with a word. -/
def Begins (p : Pattern) (word : List Char) : Prop :=
  ∀ cs a after, p cs = some (a, after) → word <+: a

/-- What a word finds begins with it. -/
theorem exactly_begins (word : List Char) : Begins (exactly word) word := by
  intro cs a after h
  unfold exactly at h
  split at h
  · cases h; exact List.prefix_rfl
  · cases h

/-- What a sequence of patterns finds begins as what the first of them finds. -/
theorem seq_begins {p q : Pattern} {word : List Char} (hp : Begins p word) :
    Begins (seq p q) word := by
  intro cs a after h
  unfold seq at h
  split at h
  · cases h
  next hb =>
    obtain ⟨_, _, heq⟩ := Option.map_eq_some_iff.1 h
    cases heq
    exact (hp _ _ _ hb).trans (List.prefix_append ..)

/-- An alternative finds what one of its patterns finds. -/
theorem orElse_cases {p q : Pattern} {cs a after : List Char}
    (h : orElse p q cs = some (a, after)) : p cs = some (a, after) ∨ q cs = some (a, after) := by
  unfold orElse at h
  split at h
  next hr => cases h; exact .inl hr
  · exact .inr h

/-- If both patterns of an alternative find texts that begin alike, so does it. -/
theorem orElse_begins {p q : Pattern} {word : List Char} (hp : Begins p word)
    (hq : Begins q word) : Begins (orElse p q) word :=
  fun cs a after h => (orElse_cases h).elim (hp cs a after) (hq cs a after)

theorem Begins.mono {p : Pattern} {word longer : List Char} (h : Begins p longer)
    (hw : word <+: longer) : Begins p word :=
  fun cs a after hp => hw.trans (h cs a after hp)

/-- What begins with a word is not shorter than the word. -/
theorem length_of_begins {p : Pattern} {word : List Char} (h : Begins p word)
    {cs a after : List Char} (hp : p cs = some (a, after)) : word.length ≤ a.length :=
  (h cs a after hp).length_le

/-- What is read in two parts is as long as both. -/
theorem length_of_seq {p q : Pattern} {m n : Nat}
    (hp : ∀ {cs a after}, p cs = some (a, after) → m ≤ a.length)
    (hq : ∀ {cs a after}, q cs = some (a, after) → n ≤ a.length)
    {cs a after : List Char} (h : seq p q cs = some (a, after)) : m + n ≤ a.length := by
  unfold seq at h
  split at h
  · cases h
  next hb =>
    obtain ⟨⟨b, after'⟩, hc, heq⟩ := Option.map_eq_some_iff.1 h
    cases heq
    have := hp hb
    have := hq hc
    rw [List.length_append]
    omega

end Text.Pattern

namespace Sanitation

open Text Text.Pattern

/-! ### The patterns of the table -/

/-- A word with its group is a part of the text. -/
theorem wordWithGroup_splits {word : Pattern} (h : Splits word) : Splits (wordWithGroup word) :=
  seq_splits h <| seq_splits (many_splits _) <|
    seq_splits (exactly_splits _) (onLine_splits (exactly_splits _))

theorem wordWithGroup_begins {word : Pattern} {w : List Char} (h : Begins word w) :
    Begins (wordWithGroup word) w :=
  seq_begins h

theorem wholeWord_splits (word : String) : Splits (wholeWord word) :=
  seq_splits (exactly_splits _) (unlessNext_splits _)

theorem wholeWord_begins (word : String) : Begins (wholeWord word) word.toList :=
  seq_begins (exactly_begins _)

/-- A whole word is read where it stands and no word character follows. -/
theorem wholeWord_eq_some {word : String} {cs found behind : List Char} :
    wholeWord word cs = some (found, behind) ↔
      found = word.toList ∧ cs = word.toList ++ behind ∧ behind.head?.any isWordChar = false := by
  constructor
  · intro h
    have hcs := wholeWord_splits word h
    unfold wholeWord Pattern.seq exactly at h
    split at h
    next => cases h
    next a rest ha =>
      split at ha
      next =>
        cases ha
        obtain ⟨⟨b, after⟩, hb, heq⟩ := Option.map_eq_some_iff.1 h
        cases heq
        unfold unlessNext at hb
        split at hb
        next => cases hb
        next hnext =>
          cases hb
          rw [List.append_nil] at hcs ⊢
          exact ⟨rfl, hcs.symm, by simpa using hnext⟩
      next => cases ha
  · rintro ⟨rfl, rfl, hnext⟩
    simp [wholeWord, Pattern.seq, exactly, unlessNext, hnext]

/-- The rest of a string is a part of the text. -/
theorem restOfString_splits : Splits restOfString := by
  intro cs a after h
  fun_induction restOfString cs generalizing a with
  | case1 => cases h
  | case2 => cases h; rfl
  | case3 => cases h
  | case4 => cases h; rfl
  | case5 => cases h
  | case6 => cases h
  | case7 b rest hb _ _ ih =>
    obtain ⟨⟨a', after'⟩, hr, heq⟩ := Option.map_eq_some_iff.1 h
    cases heq
    simp [ih hr]
  | case8 a b rest _ _ _ ih =>
    obtain ⟨⟨a', after'⟩, hr, heq⟩ := Option.map_eq_some_iff.1 h
    cases heq
    simp [ih hr]

/-- The rest of a string has at least its closing quote. -/
theorem restOfString_ne_nil {cs a after : List Char} (h : restOfString cs = some (a, after)) :
    a ≠ [] := by
  rintro rfl
  fun_cases restOfString cs <;> simp_all [restOfString]

theorem commentOrString_splits : Splits commentOrString :=
  orElse_splits (seq_splits (exactly_splits _) restOfString_splits) <|
    orElse_splits (seq_splits (exactly_splits _) (many_splits _))
      (seq_splits (exactly_splits _) (through_splits _))

theorem blockInParentheses_splits : Splits blockInParentheses :=
  seq_splits (exactly_splits _) <| seq_splits (many_splits _) <| seq_splits (exactly_splits _) <|
    onLine_splits <| seq_splits (exactly_splits _) <|
      seq_splits (many_splits _) (exactly_splits _)

theorem blockInParentheses_begins : Begins blockInParentheses ['('] :=
  seq_begins (exactly_begins _)

/-- A comment or a string has two characters at least, its marks. -/
theorem two_le_commentOrString {cs found after : List Char}
    (h : commentOrString cs = some (found, after)) : 2 ≤ found.length := by
  unfold commentOrString at h
  rcases orElse_cases h with h | h
  · exact length_of_seq (fun hq => length_of_begins (exactly_begins ['"']) hq)
      (fun hr => List.length_pos_iff.2 (restOfString_ne_nil hr)) h
  rcases orElse_cases h with h | h
  · exact length_of_begins (seq_begins (exactly_begins ['/', '/'])) h
  · exact length_of_begins (seq_begins (exactly_begins ['/', '*'])) h

theorem two_le_blockInParentheses {cs found after : List Char}
    (h : blockInParentheses cs = some (found, after)) : 2 ≤ found.length :=
  length_of_seq (fun ho => length_of_begins (exactly_begins ['(']) ho)
    (fun hr => length_of_seq (fun _ => Nat.zero_le _)
      (fun hb => length_of_begins (seq_begins (exactly_begins ['\x7b'])) hb) hr) h

/-! ### Matches -/

/-- Whether a text ends in a word character. -/
def endsInWord (cs : List Char) : Bool :=
  cs.getLast?.any isWordChar

/-- Whether a text ends in a word depends on its last part alone. -/
theorem endsInWord_append (as : List Char) {bs : List Char} (h : bs ≠ []) :
    endsInWord (as ++ bs) = endsInWord bs := by
  rw [endsInWord, List.getLast?_append, List.getLast?_eq_some_getLast h, endsInWord,
    List.getLast?_eq_some_getLast h, Option.some_or]

/-- What the substitutions of the table have in common. -/
structure Substitution.Proper (s : Substitution) : Prop where
  splits : Splits s.pattern
  two_le : ∀ {cs found after}, s.pattern cs = some (found, after) → 2 ≤ found.length
  /-- No word ends behind a match that is replaced unless one ended behind the match. -/
  ends : ∀ {found}, 2 ≤ found.length → endsInWord found = false →
    endsInWord (s.action.apply found) = false ∧ s.action.apply found ≠ []

/-- The balanced part and the rest make up the text. -/
theorem splitBalanced_append (depth : Nat) (cs : List Char) :
    (splitBalanced depth cs).1 ++ (splitBalanced depth cs).2 = cs := by
  fun_induction splitBalanced depth cs <;> simp_all

/-- A blanked text has nothing but blanks and line ends. -/
theorem mem_blank {c : Char} {cs : List Char} (h : c ∈ blank cs) : c = ' ' ∨ c = '\n' := by
  obtain ⟨d, -, hd⟩ := List.mem_flatMap.1 h
  split at hd
  · exact .inr (List.mem_singleton.1 hd)
  · exact .inl (List.eq_of_mem_replicate hd)

@[simp] theorem blank_nil : blank [] = [] := rfl

@[simp] theorem blank_append (as bs : List Char) : blank (as ++ bs) = blank as ++ blank bs :=
  List.flatMap_append

theorem blank_cons (c : Char) (cs : List Char) : blank (c :: cs)
    = (if c = '\n' then ['\n'] else List.replicate c.utf8Size ' ') ++ blank cs := rfl

/-- A blanked text has no fewer characters: a wide one becomes several blanks. -/
theorem length_le_blank (cs : List Char) : cs.length ≤ (blank cs).length := by
  induction cs with
  | nil => simp
  | cons c cs ih =>
    have := c.utf8Size_pos
    rw [blank_cons, List.length_append, List.length_cons]
    split <;> simp <;> omega

theorem blank_eq_nil {cs : List Char} : blank cs = [] ↔ cs = [] := by
  refine ⟨fun h => ?_, fun h => by rw [h, blank_nil]⟩
  have := length_le_blank cs
  rw [h] at this
  exact List.eq_nil_of_length_eq_zero (Nat.le_zero.1 this)

/-- A blanked text does not end in a word. -/
theorem endsInWord_blank (cs : List Char) : endsInWord (blank cs) = false := by
  rw [endsInWord, Option.any_eq_false]
  intro c hc
  rcases mem_blank (List.mem_of_getLast? hc) with rfl | rfl <;> decide

/-- Blanks and then the rest of a text end in a word only if the text does. -/
theorem endsInWord_blank_append {as bs : List Char} (h : endsInWord (as ++ bs) = false) :
    endsInWord (blank as ++ bs) = false := by
  by_cases hb : bs = []
  · rw [hb, List.append_nil]
    exact endsInWord_blank as
  · rw [endsInWord_append _ hb] at h ⊢
    exact h

/-- Where a comment was blanked, no word ends, if none did before. -/
theorem blankComment_ends {found : List Char} (hlen : 2 ≤ found.length)
    (hend : endsInWord found = false) : endsInWord (Action.blankComment.apply found) = false ∧
      Action.blankComment.apply found ≠ [] := by
  have hne : found ≠ [] := List.ne_nil_of_length_pos (by omega)
  unfold Action.apply
  dsimp only
  split
  · exact ⟨hend, hne⟩
  · exact ⟨endsInWord_blank found, by simpa [blank_eq_nil] using hne⟩

theorem blankGroup_ends {found : List Char} (hlen : 2 ≤ found.length)
    (hend : endsInWord found = false) : endsInWord (Action.blankGroup.apply found) = false ∧
      Action.blankGroup.apply found ≠ [] := by
  have happ := splitBalanced_append 0 found
  refine ⟨endsInWord_blank_append (by rwa [happ]), fun hnil => ?_⟩
  obtain ⟨hp, hq⟩ := List.append_eq_nil_iff.1 hnil
  rw [blank_eq_nil.1 hp, hq] at happ
  simp [← happ] at hlen

/-- A zero put in place of a group does not end in a word: behind it stand the blanks for the
rest. -/
theorem zeroGroup_ends {found : List Char} (hlen : 2 ≤ found.length)
    (hend : endsInWord found = false) : endsInWord (Action.zeroGroup.apply found) = false ∧
      Action.zeroGroup.apply found ≠ [] := by
  have happ := splitBalanced_append 0 found
  refine ⟨?_, by simp [Action.apply]⟩
  show endsInWord ('0' :: (blank (splitBalanced 0 found).1).drop 1 ++ (splitBalanced 0 found).2)
    = false
  generalize splitBalanced 0 found = parts at happ ⊢
  obtain ⟨p, q⟩ := parts
  dsimp only at happ ⊢
  by_cases hq : q = []
  · -- the match is blanked to its end, and more than its first character
    subst hq
    rw [List.append_nil] at happ ⊢
    subst happ
    have hdrop : (blank p).drop 1 ≠ [] := by
      intro hnil
      have := List.drop_eq_nil_iff.1 hnil
      have := length_le_blank p
      omega
    have hsplit := endsInWord_append ['0'] hdrop
    rw [show '0' :: (blank p).drop 1 = ['0'] ++ (blank p).drop 1 from rfl, hsplit]
    have hblank := endsInWord_blank p
    rwa [← List.take_append_drop 1 (blank p), endsInWord_append _ hdrop] at hblank
  · rw [← happ, endsInWord_append _ hq] at hend
    rwa [endsInWord_append _ hq]

/-- All substitutions of the table read stretches of two characters or more. -/
theorem proper_of_mem {s : Substitution} (hs : s ∈ substitutions) : s.Proper := by
  have group {word : Pattern} {w : List Char} {action : Action} (hsplits : Splits word)
      (hbegins : Begins word w) (hw : 2 ≤ w.length)
      (hends : ∀ {found}, 2 ≤ found.length → endsInWord found = false →
        endsInWord (action.apply found) = false ∧ action.apply found ≠ []) :
      (Substitution.mk true (wordWithGroup word) action).Proper :=
    ⟨wordWithGroup_splits hsplits,
      fun h => Nat.le_trans hw (length_of_begins (wordWithGroup_begins hbegins) h), hends⟩
  have spelled {word text : String} (hw : 2 ≤ word.toList.length)
      (htext : endsInWord text.toList = false) (hne : text.toList ≠ []) :
      (Substitution.mk true (wholeWord word) (.replaceBy text)).Proper :=
    ⟨wholeWord_splits word, fun h => Nat.le_trans hw (length_of_begins (wholeWord_begins word) h),
      fun _ _ => ⟨htext, hne⟩⟩
  have either {word more : String} (hw : 2 ≤ more.toList.length)
      (hpre : more.toList <+: word.toList) :
      (Substitution.mk true (.orElse (wholeWord word) (wholeWord more)) .blankGroup).Proper :=
    ⟨orElse_splits (wholeWord_splits word) (wholeWord_splits more),
      fun h => Nat.le_trans hw (length_of_begins (orElse_begins
        ((wholeWord_begins word).mono hpre) (wholeWord_begins more)) h),
      blankGroup_ends⟩
  have hasm : Begins (.seq (.exactly "__asm__".toList)
      (.orElse (.seq (.many1 isLayout) (.exactly "__volatile__".toList)) (.exactly [])))
      "__asm__".toList := seq_begins (exactly_begins _)
  simp only [substitutions, List.mem_cons, List.not_mem_nil, or_false] at hs
  rcases hs with rfl | rfl | rfl | rfl | rfl | rfl | rfl | rfl | rfl | rfl | rfl | rfl
  · exact ⟨commentOrString_splits, fun h => two_le_commentOrString h, blankComment_ends⟩
  · exact group (exactly_splits _) (exactly_begins _) (by decide) blankGroup_ends
  · exact group (seq_splits (exactly_splits _) (orElse_splits
      (seq_splits (many1_splits _) (exactly_splits _)) (exactly_splits _))) hasm (by decide)
      blankGroup_ends
  · exact group (exactly_splits _) (exactly_begins _) (by decide) blankGroup_ends
  · exact group (exactly_splits _) (exactly_begins _) (by decide) blankGroup_ends
  · exact group (exactly_splits _) (exactly_begins _) (by decide) zeroGroup_ends
  · exact ⟨wholeWord_splits _, fun h => Nat.le_trans (by decide)
      (length_of_begins (wholeWord_begins _) h), blankGroup_ends⟩
  · exact either (by decide) (by decide)
  · exact either (by decide) (by decide)
  · exact spelled (by decide) (by decide) (by decide)
  · exact spelled (by decide) (by decide) (by decide)
  · exact ⟨blockInParentheses_splits, fun h => two_le_blockInParentheses h, zeroGroup_ends⟩

/-! ### The run of a substitution -/

namespace Substitution

variable {s : Substitution} {inWord : Bool}

/-- What a substitution finds is at the front of the text, and is found by its pattern; inside of a
word one that looks for words finds nothing. -/
theorem exists_behind (hs : s.Proper) {cs found : List Char}
    (h : s.find? inWord cs = some found) : ∃ behind, cs = found ++ behind ∧
      s.pattern cs = some (found, behind) ∧ (s.atWord = true → inWord = false) := by
  unfold find? at h
  split at h
  · cases h
  next hw =>
    obtain ⟨⟨a, behind⟩, hp, rfl⟩ := Option.map_eq_some_iff.1 h
    exact ⟨behind, (hs.splits hp).symm, hp, by simpa using hw⟩

/-- Characters that are part of a replaced text are passed over. -/
theorem applyFrom_skip (s : Substitution) (inWord : Bool) (a b : List Char) (hne : a ≠ []) :
    s.applyFrom a.length inWord (a ++ b) = s.applyFrom 0 (endsInWord a) b := by
  induction a generalizing inWord with
  | nil => exact absurd rfl hne
  | cons c a ih =>
    rw [List.length_cons, List.cons_append, applyFrom]
    cases a with
    | nil => rfl
    | cons d a =>
      rw [ih (isWordChar c) (List.cons_ne_nil d a)]
      rfl

/-- A text that is found is replaced, and the search goes on behind it. -/
theorem applyFrom_found {found behind : List Char}
    (h : s.find? inWord (found ++ behind) = some found) (hne : found ≠ []) :
    s.applyFrom 0 inWord (found ++ behind)
      = s.action.apply found ++ s.applyFrom 0 (endsInWord found) behind := by
  obtain ⟨c, rest, rfl⟩ := List.exists_cons_of_ne_nil hne
  rw [List.cons_append] at h
  rw [List.cons_append, applyFrom, h]
  show _ ++ s.applyFrom (rest.length + 1 - 1) (isWordChar c) (rest ++ behind) = _
  rw [Nat.add_sub_cancel]
  cases rest with
  | nil => rfl
  | cons d rest => rw [applyFrom_skip _ _ _ _ (List.cons_ne_nil d rest)]; rfl

/-- A character where nothing is found stays. -/
theorem applyFrom_none {c : Char} {rest : List Char} (h : s.find? inWord (c :: rest) = none) :
    s.applyFrom 0 inWord (c :: rest) = c :: s.applyFrom 0 (isWordChar c) rest := by
  rw [applyFrom, h]

/-- Where a substitution has come to the rest of a text, what is true of the whole is still true
behind it. -/
theorem applyFrom_induct (hs : s.Proper) {P : List Char → Prop} {inWord : Bool}
    (before : List Char) {rest : List Char}
    (step : ∀ {before found behind : List Char}, P (before ++ (found ++ behind)) →
      (s.atWord = true → endsInWord before = false) →
      s.pattern (found ++ behind) = some (found, behind) →
      P (before ++ (s.action.apply found ++ behind)))
    (hword : inWord = false → endsInWord before = false) (h : P (before ++ rest)) :
    P (before ++ s.applyFrom 0 inWord rest) := by
  cases rest with
  | nil => exact h
  | cons c rest =>
    cases hfind : s.find? inWord (c :: rest) with
    | none =>
      rw [applyFrom_none hfind, List.append_cons]
      exact applyFrom_induct hs _ step (fun hc => by
        rwa [endsInWord_append _ (List.cons_ne_nil c [])]) (by rwa [← List.append_cons])
    | some found =>
      -- a match is replaced as a whole, and the search goes on behind it
      obtain ⟨behind, hcs, hp, hw⟩ := exists_behind hs hfind
      have hlen := hs.two_le hp
      have hne : found ≠ [] := List.ne_nil_of_length_pos (by omega)
      have hshort : behind.length < (c :: rest).length := by
        rw [hcs, List.length_append]
        omega
      rw [hcs] at h hfind hp
      rw [hcs, applyFrom_found hfind hne, ← List.append_assoc]
      refine applyFrom_induct hs _ step (fun hend => ?_) ?_
      · obtain ⟨hends, hnil⟩ := hs.ends hlen hend
        rwa [endsInWord_append _ hnil]
      · rw [List.append_assoc]
        exact step h (fun ha => hword (hw ha)) hp
termination_by rest.length

/-- **What holds of a text and is kept by each replacement holds where a substitution was
applied.** -/
theorem apply_induct (hs : s.Proper) {P : List Char → Prop}
    (step : ∀ {before found behind : List Char}, P (before ++ (found ++ behind)) →
      (s.atWord = true → endsInWord before = false) →
      s.pattern (found ++ behind) = some (found, behind) →
      P (before ++ (s.action.apply found ++ behind)))
    {cs : List Char} (h : P cs) : P (s.apply cs) :=
  applyFrom_induct hs [] step (fun _ => rfl) h

end Substitution

/-! ### Passes -/

/-- What every substitution preserves, a pass over all of them preserves. -/
theorem pass_induct {P : List Char → Prop}
    (step : ∀ s ∈ substitutions, ∀ {cs}, P cs → P (s.apply cs)) {cs : List Char} (h : P cs) :
    P (pass cs) :=
  List.foldlRecOn substitutions _ h fun _ h s hs => step s hs h

/-- **What holds of a text and is kept by each substitution holds of the sanitized text.** -/
theorem sanitizeFrom_induct {P : List Char → Prop}
    (step : ∀ s ∈ substitutions, ∀ {cs}, P cs → P (s.apply cs)) {cs : List Char} (h : P cs) :
    P (sanitizeFrom cs) := by
  fun_induction sanitizeFrom cs with
  | case1 cs next _ ih => exact ih (pass_induct step h)
  | case2 cs next => exact pass_induct step h

end Sanitation

end WitnessReplay
