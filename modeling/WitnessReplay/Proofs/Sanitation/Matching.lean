import Mathlib.Data.List.Infix
import WitnessReplay.Proofs.Sanitation.Locating

/-!
# When a match is a whole construct

A pattern reads to the last closing parenthesis of its line, and what is overwritten is then cut at
the parenthesis that balances the first one, counted over all characters. A construct is overwritten
as a whole where both come out right: `Wholesome` says of a list of tokens that every construct that
opens is complete, on its line, or has no closing bracket there at all; that parentheses count the
same with literals and without; and that no word of a construct stands inside a token. Then every
match is a whole construct, perhaps with more of its line behind it (`exists_construct`).
-/

namespace WitnessReplay

open Text Text.Pattern Token

/-! ### The rest of a line -/

namespace Text.Pattern

/-- A word finds itself and nothing else. -/
theorem exactly_eq_some {word cs a after : List Char} (h : exactly word cs = some (a, after)) :
    a = word ∧ cs = word ++ after := by
  have hsplit := exactly_splits word h
  unfold exactly at h
  split at h
  next => cases h; exact ⟨rfl, hsplit.symm⟩
  next => cases h

/-- What a repetition finds passes its test. -/
theorem many_eq_some {p : Char → Bool} {cs a after : List Char} (h : many p cs = some (a, after)) :
    (∀ c ∈ a, p c = true) ∧ cs = a ++ after := by
  have hsplit := many_splits p h
  cases h
  exact ⟨fun c hc => List.mem_takeWhile_imp hc, hsplit.symm⟩

/-- The same for a repetition that finds one character at least. -/
theorem many1_eq_some {p : Char → Bool} {cs a after : List Char}
    (h : many1 p cs = some (a, after)) : (∀ c ∈ a, p c = true) ∧ a ≠ [] ∧ cs = a ++ after := by
  unfold many1 at h
  split at h
  next hfirst =>
    obtain ⟨hall, hsplit⟩ := many_eq_some h
    refine ⟨hall, ?_, hsplit⟩
    rintro rfl
    have hstop := dropWhile_head? (p := p) cs
    injection h with h
    injection h with htake hdrop
    rw [hdrop, ← List.nil_append after, ← hsplit, hfirst] at hstop
    cases hstop
  next => cases h

/-- What a sequence finds is in two parts, one for each pattern. -/
theorem seq_eq_some {p q : Pattern} {cs found behind : List Char}
    (h : seq p q cs = some (found, behind)) :
    ∃ a rest b, p cs = some (a, rest) ∧ q rest = some (b, behind) ∧ found = a ++ b := by
  unfold seq at h
  split at h
  next => cases h
  next a rest ha =>
    obtain ⟨⟨b, after⟩, hb, heq⟩ := Option.map_eq_some_iff.1 h
    cases heq
    exact ⟨a, rest, b, ha, hb, rfl⟩

/-- What is looked for on a line is found behind characters of that line. -/
theorem onLine_eq_some {p : Pattern} (hp : Splits p) {cs a after : List Char}
    (h : onLine p cs = some (a, after)) :
    ∃ z b, a = z ++ b ∧ '\n' ∉ z ∧ p (b ++ after) = some (b, after) := by
  induction cs generalizing a with
  | nil => exact ⟨[], a, rfl, by simp, by rwa [hp h]⟩
  | cons c cs ih =>
    have hstop (h : p (c :: cs) = some (a, after)) :
        ∃ z b, a = z ++ b ∧ '\n' ∉ z ∧ p (b ++ after) = some (b, after) :=
      ⟨[], a, rfl, by simp, by rwa [hp h]⟩
    rw [onLine] at h
    split at h
    next => exact hstop h
    next hline =>
      split at h
      next a' after' hr =>
        cases h
        obtain ⟨z, b, rfl, hz, hb⟩ := ih hr
        refine ⟨c :: z, b, rfl, ?_, hb⟩
        rw [List.mem_cons, not_or]
        exact ⟨Ne.symm hline, hz⟩
      next => exact hstop h

/-- What is read on a line ends on it, with what begins with a closing bracket. -/
theorem onLine_eq_none {p : Pattern} {c : Char} (hp : Splits p) (hbegins : Begins p [c])
    (hc : c ≠ '\n') {cs : List Char} (h : c ∉ cs.takeWhile (· ≠ '\n')) : onLine p cs = none := by
  cases hr : onLine p cs with
  | none => rfl
  | some r =>
    obtain ⟨a, after⟩ := r
    obtain ⟨z, b, rfl, hz, hb⟩ := onLine_eq_some hp hr
    have hcs := onLine_splits hp hr
    obtain ⟨tail, rfl⟩ := hbegins _ _ _ hb
    refine absurd ?_ h
    have hz' : ∀ d ∈ z, decide (d ≠ '\n') = true :=
      fun d hd => decide_eq_true fun heq => hz (heq ▸ hd)
    have hsplit : cs = z ++ c :: (tail ++ after) := by simp [← hcs]
    rw [hsplit, List.takeWhile_append_of_pos hz', List.takeWhile_cons_of_pos (by simpa using hc)]
    simp

theorem onLine_ne_none {p : Pattern} {z cs : List Char} {r : List Char × List Char}
    (hz : '\n' ∉ z) (hr : p cs = some r) : onLine p (z ++ cs) ≠ none := by
  induction z with
  | nil =>
    cases cs with
    | nil => rw [List.nil_append, onLine, hr]; simp
    | cons c cs =>
      rw [List.nil_append, onLine]
      split
      next => rw [hr]; simp
      next => split <;> simp_all
  | cons c z ih =>
    rw [List.mem_cons, not_or] at hz
    rw [List.cons_append, onLine, if_neg (Ne.symm hz.1)]
    split
    next => simp
    next hnone => exact absurd hnone (ih hz.2)

/-- The longest reading on a line reaches behind every other one. -/
theorem prefix_of_onLine {p : Pattern} {c : Char} (hp : Splits p) (hbegins : Begins p [c])
    {z cs a after b behind : List Char} (hz : '\n' ∉ z) (hb : p cs = some (b, behind))
    (hc : c ∉ b.tail) (h : onLine p (z ++ cs) = some (a, after)) : z ++ b <+: a := by
  induction z generalizing a with
  | nil =>
    have hstop (h : p cs = some (a, after)) : b <+: a := by
      rw [hb] at h
      cases h
      exact List.prefix_rfl
    cases cs with
    | nil => exact hstop h
    | cons d cs =>
      rw [List.nil_append, onLine] at h
      split at h
      next => exact hstop h
      next =>
        split at h
        next a' after' hr =>
          cases h
          -- the later reading begins behind the end of the earlier one
          obtain ⟨z', b', rfl, -, hb'⟩ := onLine_eq_some hp hr
          obtain ⟨tail, rfl⟩ := hbegins _ _ _ hb
          obtain ⟨tail', rfl⟩ := hbegins _ _ _ hb'
          have hcs := onLine_splits hp hr
          have hcons : c :: (tail ++ behind) = d :: cs := hp hb
          obtain ⟨rfl, hd⟩ := List.cons_eq_cons.1 hcons
          rw [List.nil_append, List.singleton_append, List.cons_prefix_cons]
          refine ⟨rfl, ?_⟩
          rcases List.prefix_or_prefix_of_prefix (⟨_, hd⟩ : tail <+: cs) ⟨_, hcs⟩ with hle | hle
          · exact hle
          · exact absurd (hle.subset (by simp)) hc
        next => exact hstop h
  | cons d z ih =>
    rw [List.mem_cons, not_or] at hz
    rw [List.cons_append, onLine, if_neg (Ne.symm hz.1)] at h
    split at h
    next a' after' hr =>
      cases h
      exact List.cons_prefix_cons.2 ⟨rfl, ih hz.2 hr⟩
    next hnone => exact absurd hnone (onLine_ne_none hz.2 hb)

end Text.Pattern

namespace Sanitation

/-! ### Counted parentheses -/

/-- How many parentheses are open behind some characters, if none is closed that was not opened. -/
def parensBehind (depth : Nat) : List Char → Option Nat
  | [] => some depth
  | c :: rest =>
    if c = '(' then parensBehind (depth + 1) rest
    else if c = ')' then
      match depth with
      | 0 => none
      | d + 1 => parensBehind d rest
    else parensBehind depth rest

section Parentheses

variable {depth : Nat} {c : Char} {cs : List Char}

theorem parensBehind_open : parensBehind depth ('(' :: cs) = parensBehind (depth + 1) cs := by
  rw [parensBehind.eq_def]
  exact if_pos rfl

theorem parensBehind_close : parensBehind (depth + 1) (')' :: cs) = parensBehind depth cs := by
  rw [parensBehind.eq_def]
  dsimp only
  rw [if_neg (by decide), if_pos rfl]

theorem parensBehind_other (h : c ≠ '(' ∧ c ≠ ')') :
    parensBehind depth (c :: cs) = parensBehind depth cs := by
  rw [parensBehind.eq_def]
  dsimp only
  rw [if_neg h.1, if_neg h.2]

theorem splitBalanced_open : splitBalanced depth ('(' :: cs)
    = ('(' :: (splitBalanced (depth + 1) cs).1, (splitBalanced (depth + 1) cs).2) := by
  rw [splitBalanced.eq_def]
  exact if_pos rfl

theorem splitBalanced_last : splitBalanced 1 (')' :: cs) = ([')'], cs) := by
  rw [splitBalanced.eq_def]
  dsimp only
  rw [if_neg (by decide), if_pos rfl]

theorem splitBalanced_close : splitBalanced (depth + 2) (')' :: cs)
    = (')' :: (splitBalanced (depth + 1) cs).1, (splitBalanced (depth + 1) cs).2) := by
  rw [splitBalanced.eq_def]
  dsimp only
  rw [if_neg (by decide), if_pos rfl]

theorem splitBalanced_other (h : c ≠ '(' ∧ c ≠ ')') : splitBalanced depth (c :: cs)
    = (c :: (splitBalanced depth cs).1, (splitBalanced depth cs).2) := by
  rw [splitBalanced.eq_def]
  dsimp only
  rw [if_neg h.1, if_neg h.2]

end Parentheses

/-- Parentheses are counted from left to right. -/
theorem parensBehind_append {depth : Nat} {as bs : List Char} :
    parensBehind depth (as ++ bs) = (parensBehind depth as).bind fun d => parensBehind d bs := by
  induction as generalizing depth with
  | nil => rfl
  | cons c as ih =>
    by_cases ho : c = '('
    · rw [ho, List.cons_append, parensBehind_open, parensBehind_open, ih]
    by_cases hc : c = ')'
    · rw [hc, List.cons_append]
      cases depth with
      | zero => rfl
      | succ d => rw [parensBehind_close, parensBehind_close, ih]
    · rw [List.cons_append, parensBehind_other ⟨ho, hc⟩, parensBehind_other ⟨ho, hc⟩, ih]

/-- A text without parentheses keeps the count. -/
theorem parensBehind_none {depth : Nat} {cs : List Char} (h : ∀ c ∈ cs, c ≠ '(' ∧ c ≠ ')') :
    parensBehind depth cs = some depth := by
  induction cs with
  | nil => rfl
  | cons c cs ih =>
    obtain ⟨hc, hrest⟩ := List.forall_mem_cons.1 h
    rw [parensBehind_other hc, ih hrest]

/-- A text without parentheses is passed over, whatever comes behind it. -/
theorem splitBalanced_skip {depth : Nat} {p x : List Char} (h : ∀ c ∈ p, c ≠ '(' ∧ c ≠ ')') :
    splitBalanced depth (p ++ x)
      = (p ++ (splitBalanced depth x).1, (splitBalanced depth x).2) := by
  induction p with
  | nil => rfl
  | cons c p ih =>
    obtain ⟨hc, hrest⟩ := List.forall_mem_cons.1 h
    rw [List.cons_append, splitBalanced_other hc, ih hrest]
    rfl

/-- Inside of an open parenthesis a text is passed over that closes none but its own. -/
theorem splitBalanced_inside {depth depth' : Nat} {q : List Char}
    (h : parensBehind depth q = some depth') (x : List Char) :
    splitBalanced (depth + 1) (q ++ x)
      = (q ++ (splitBalanced (depth' + 1) x).1, (splitBalanced (depth' + 1) x).2) := by
  induction q generalizing depth with
  | nil =>
    cases h
    rfl
  | cons c q ih =>
    by_cases ho : c = '('
    · rw [ho, parensBehind_open] at h
      rw [ho, List.cons_append, splitBalanced_open, ih h]
      rfl
    by_cases hc : c = ')'
    · -- at depth zero the text would close a parenthesis that is not its own
      cases depth with
      | zero =>
        rw [hc] at h
        cases h
      | succ d =>
        rw [hc, parensBehind_close] at h
        rw [hc, List.cons_append, splitBalanced_close, ih h]
        rfl
    · rw [parensBehind_other ⟨ho, hc⟩] at h
      rw [List.cons_append, splitBalanced_other ⟨ho, hc⟩, ih h]
      rfl

theorem splitBalanced_group {p q : List Char} (hp : ∀ c ∈ p, c ≠ '(' ∧ c ≠ ')')
    (hq : parensBehind 0 q = some 0) (extra : List Char) :
    splitBalanced 0 (p ++ ('(' :: (q ++ ')' :: extra))) = (p ++ ('(' :: (q ++ [')'])), extra) := by
  rw [splitBalanced_skip hp, splitBalanced_open, splitBalanced_inside hq, splitBalanced_last]

/-! ### Wholesome token lists -/

/-- The words that constructs begin with. -/
def extensionWords : List String :=
  forms.filterMap fun f => f.head.head?

/-- The substitution that blanks a word. -/
def blankWord (word : String) : Substitution :=
  ⟨true, wholeWord word, .blankGroup⟩

/-- A parenthesis and then a brace. -/
def blockOpening : Pattern :=
  .seq (.exactly ['(']) (.seq (.many isLayout) (.exactly ['\x7b']))

/-- The sanitizer finds nothing to overwrite inside a token, and the token reads the same wherever
it stands. -/
structure Plain (t : Token) : Prop where
  settled : t.Settled
  shielded : t.Shielded
  words : ∀ w ∈ extensionWords, t.text = w ∨ (blankWord w).misses false t.text.toList = true
  blocks : ∀ cs ∈ t.text.toList.tails, blockOpening cs = none

instance (t : Token) : Decidable (Plain t) :=
  decidable_of_iff (t.Settled ∧ t.Shielded ∧
    (∀ w ∈ extensionWords, t.text = w ∨ (blankWord w).misses false t.text.toList = true) ∧
    ∀ cs ∈ t.text.toList.tails, blockOpening cs = none)
    ⟨fun ⟨h1, h2, h3, h4⟩ => ⟨h1, h2, h3, h4⟩, fun ⟨h1, h2, h3, h4⟩ => ⟨h1, h2, h3, h4⟩⟩

namespace Form

/-- A list of tokens begins with the words and brackets of a form, and only layout stands between
them. -/
def Opens (f : Form) (ts : List Token) : Prop :=
  texts (ts.take f.width) = f.head ++ f.brackets ∧
    ∀ t ∈ (ts.take f.width).tail, t.gap.toList.all isLayout = true

/-- A group is closed by these tokens, the first of them on the line where the group opens, and it
has as many parentheses in its literals that open as close. -/
def Closes (f : Form) (inside closing : List Token) : Prop :=
  texts closing = f.closing ∧ Nested inside ∧ parensBehind 0 (spaced inside).toList = some 0 ∧
    '\n' ∉ (spaced inside).toList ∧ (∀ t ∈ closing.head?, '\n' ∉ t.gap.toList) ∧
    ∀ t ∈ closing.tail, t.gap.toList.all isLayout = true

/-- The group that opens before some tokens is complete. -/
def Complete (f : Form) (ts : List Token) : Prop :=
  ∃ n < ts.length, f.Closes (ts.take n) ((ts.drop n).take f.brackets.length)

/-- No bracket that would close the group stands on the line. -/
def Unclosed (f : Form) (ts : List Token) : Prop :=
  ∀ bracket ∈ f.closing.head?,
    ((spaced ts).toList.takeWhile (· ≠ '\n')).all (fun c => !bracket.toList.contains c) = true

instance (f : Form) (ts : List Token) : Decidable (f.Opens ts) :=
  inferInstanceAs (Decidable (_ ∧ _))

instance (f : Form) (inside closing : List Token) : Decidable (f.Closes inside closing) :=
  inferInstanceAs (Decidable (_ ∧ _ ∧ _ ∧ _ ∧ _ ∧ _))

instance (f : Form) (ts : List Token) : Decidable (f.Complete ts) :=
  inferInstanceAs (Decidable (∃ n < ts.length, _))

instance (f : Form) (ts : List Token) : Decidable (f.Unclosed ts) :=
  inferInstanceAs (Decidable (∀ bracket ∈ f.closing.head?, _))

end Form

/-- Every token is plain, every construct that opens is complete or not closed on its line, and no
stand-in joins the token before. -/
structure Wholesome (ts : List Token) : Prop where
  plain : ∀ t ∈ ts, Plain t
  complete : ∀ us ∈ ts.tails, ∀ f ∈ forms, f.brackets ≠ [] → f.Opens us →
    f.Complete (us.drop f.width) ∨ f.Unclosed (us.drop f.width)
  apart : ∀ us ∈ ts.tails, ∀ f ∈ forms, f.Opens us.tail → (∀ u ∈ us.tail.head?, u.gap = "") →
    ∀ t ∈ us.head?, joins t.kind t.text.toList f.first = false

instance (ts : List Token) : Decidable (Wholesome ts) :=
  decidable_of_iff ((∀ t ∈ ts, Plain t) ∧
    (∀ us ∈ ts.tails, ∀ f ∈ forms, f.brackets ≠ [] → f.Opens us →
      f.Complete (us.drop f.width) ∨ f.Unclosed (us.drop f.width)) ∧
    ∀ us ∈ ts.tails, ∀ f ∈ forms, f.Opens us.tail → (∀ u ∈ us.tail.head?, u.gap = "") →
      ∀ t ∈ us.head?, joins t.kind t.text.toList f.first = false)
    ⟨fun ⟨h1, h2, h3⟩ => ⟨h1, h2, h3⟩, fun ⟨h1, h2, h3⟩ => ⟨h1, h2, h3⟩⟩

/-! ### Whole words -/

/-- Whether a word ends behind some characters, where `inWord` says whether one ends before them. -/
def endsIn (inWord : Bool) (cs : List Char) : Bool :=
  cs.getLast?.elim inWord isWordChar

/-- Whether a text ends in a word depends on its last character. -/
theorem endsIn_cons (inWord : Bool) (c : Char) (cs : List Char) :
    endsIn inWord (c :: cs) = endsIn (isWordChar c) cs := by
  cases cs with
  | nil => rfl
  | cons d cs => rfl

theorem endsIn_false (cs : List Char) : endsIn false cs = endsInWord cs := by
  rw [endsIn, endsInWord]
  cases cs.getLast? <;> rfl

/-- A substitution that misses a text finds nothing at any place of it. -/
theorem Substitution.find?_of_misses {s : Substitution} {inWord : Bool} {x y : List Char}
    (h : s.misses inWord (x ++ y) = true) (hy : y ≠ []) : s.find? (endsIn inWord x) y = none := by
  induction x generalizing inWord with
  | nil =>
    obtain ⟨c, rest, rfl⟩ := List.exists_cons_of_ne_nil hy
    exact Option.isNone_iff_eq_none.1 (Bool.and_eq_true_iff.1 h).1
  | cons c x ih =>
    rw [endsIn_cons]
    exact ih (Bool.and_eq_true_iff.1 h).2

/-- The words of the extensions are made of characters of words. -/
theorem extensionWords_chars : ∀ w ∈ extensionWords,
    w.toList ≠ [] ∧ ∀ c ∈ w.toList, isWordChar c = true ∧ isSpacing c = false ∧ c ≠ '\\' := by
  have hall : (extensionWords.all fun w => w.toList ≠ [] &&
      w.toList.all fun c => isWordChar c && !isSpacing c && c ≠ '\\') = true := by decide +kernel
  intro w hw
  obtain ⟨hne, hchars⟩ := Bool.and_eq_true_iff.1 (List.all_eq_true.1 hall w hw)
  refine ⟨of_decide_eq_true hne, fun c hc => ?_⟩
  simpa [and_assoc] using List.all_eq_true.1 hchars c hc

/-- A word of a construct that stands in a plain token is all of it. -/
theorem Plain.eq_word {t : Token} (h : Plain t) {w : String} (hw : w ∈ extensionWords)
    {x y : List Char} (ht : t.text.toList = x ++ (w.toList ++ y)) (hx : endsInWord x = false)
    (hy : y.head?.any isWordChar = false) : x = [] ∧ y = [] := by
  rcases h.words w hw with heq | hmisses
  · rw [heq] at ht
    have hlength := congrArg List.length ht
    rw [List.length_append, List.length_append] at hlength
    exact ⟨List.eq_nil_of_length_eq_zero (by omega), List.eq_nil_of_length_eq_zero (by omega)⟩
  · have hne : w.toList ++ y ≠ [] := fun hnil =>
      (extensionWords_chars w hw).1 (List.append_eq_nil_iff.1 hnil).1
    rw [ht] at hmisses
    have hnone := Substitution.find?_of_misses hmisses hne
    have hsome : wholeWord w (w.toList ++ y) = some (w.toList, y) :=
      wholeWord_eq_some.2 ⟨rfl, rfl, hy⟩
    rw [endsIn_false, hx] at hnone
    have hfind : (blankWord w).find? false (w.toList ++ y) = some w.toList :=
      congrArg (Option.map Prod.fst) hsome
    rw [hfind] at hnone
    cases hnone

section Matches

variable {cs after before behind found : List Char} {ts : List Token}

/-- A word of a construct that is found in a text is a token. -/
theorem exists_word {w : String} {more : List Char} (h : Parted cs ts after) (hwhole : Wholesome ts)
    (hw : w ∈ extensionWords) (hcs : cs = before ++ (w.toList ++ more))
    (hbefore : endsInWord before = false) (hmore : more.head?.any isWordChar = false) :
    ∃ pre t post, ts = pre ++ t :: post ∧ t.text = w ∧
      before = (spaced pre).toList ++ t.gap.toList ∧ more = (spaced post).toList ++ after := by
  obtain ⟨hne, hchars⟩ := extensionWords_chars w hw
  obtain ⟨c, word, hword⟩ := List.exists_cons_of_ne_nil hne
  have hsplit : (spaced ts).toList ++ after = before ++ c :: (word ++ more) := by
    rw [← h.text, hcs, hword]
    rfl
  obtain ⟨pre, t, post, x, y, rfl, htext, hy, rfl, hmore'⟩ :=
    exists_token h.lexed h.gaps h.after (hchars c (by rw [hword]; simp)).2 hsplit
  have hplain := hwhole.plain t (by simp)
  have hstands := (lexed_append.1 h.lexed).2.2.2.2.1
  obtain ⟨y', rfl, rfl⟩ := hstands.within hplain.settled.1 htext hy (fun c hc => (hchars c hc).1)
    (show y ++ _ = w.toList ++ more by rw [← hmore', hword]; rfl)
  have hx : endsInWord x = false := by
    by_cases hnil : x = []
    · rw [hnil]
      rfl
    · rwa [endsInWord_append _ (by simp [hnil]), endsInWord_append _ hnil] at hbefore
  have hy' : y'.head?.any isWordChar = false := by
    cases y' with
    | nil => rfl
    | cons d y' => exact hmore
  obtain ⟨rfl, rfl⟩ := hplain.eq_word hw htext hx hy'
  refine ⟨pre, t, post, rfl, String.toList_inj.1 ?_, ?_, rfl⟩
  · simpa using htext
  · rw [List.append_nil]

/-! ### Matches that are whole constructs -/

/-- A match is a whole construct, perhaps with more of its line behind it, and what is done with the
match overwrites the construct. -/
def Hits (ts : List Token) (after : List Char) (action : Action) (before found behind : List Char) :
    Prop :=
  ∃ pre t rest post extra, ∃ f ∈ forms, f.Spells (t :: rest) ∧ f.Opens (t :: rest ++ post) ∧
    ts = pre ++ t :: rest ++ post ∧ before = (spaced pre).toList ++ t.gap.toList ∧
    found = (verbatim (t :: rest)).toList ++ extra ∧
    extra ++ behind = (spaced post).toList ++ after ∧
    action.apply found = written f.standin (verbatim (t :: rest)).toList ++ extra

/-- An action overwrites what a match is cut to. -/
def Acts (action : Action) (standin : Option Standin) : Prop :=
  ∀ {construct extra : List Char}, splitBalanced 0 (construct ++ extra) = (construct, extra) →
    action.apply (construct ++ extra) = written standin construct ++ extra

/-- Blanking a group leaves no token. -/
theorem acts_blankGroup : Acts .blankGroup none := by
  intro construct extra h
  rw [Action.apply, h]
  rfl

/-- Putting a zero in its place leaves one. -/
theorem acts_zeroGroup : Acts .zeroGroup (some .zero) := by
  intro construct extra h
  rw [Action.apply, h]
  rfl

theorem isLayout_cases {c : Char} (h : isLayout c = true) : c = ' ' ∨ c = '\r' ∨ c = '\n' := by
  simpa [isLayout, or_assoc] using h

theorem not_paren_of_isLayout {c : Char} (h : isLayout c = true) : c ≠ '(' ∧ c ≠ ')' := by
  rcases isLayout_cases h with rfl | rfl | rfl <;> decide

/-- A clear gap has no brackets in it. -/
theorem Clear.not_bracket {g : List Char} (h : Clear g) :
    ∀ c ∈ g, (c ≠ '(' ∧ c ≠ ')') ∧ c ≠ '\x7d' := by
  intro c hc
  rcases h.cases hc with hspacing | rfl
  · refine ⟨⟨?_, ?_⟩, ?_⟩ <;> rintro rfl <;> exact absurd hspacing (by decide)
  · decide

/-- A match that is a single word. -/
theorem hits_word {f : Form} {w : String} {action : Action} (h : Parted cs ts after)
    (hwhole : Wholesome ts) (hf : f ∈ forms) (hhead : f.head = [w]) (hbrackets : f.brackets = [])
    (hact : action.apply w.toList = written f.standin w.toList)
    (hcs : cs = before ++ (found ++ behind)) (hbefore : endsInWord before = false)
    (hp : wholeWord w (found ++ behind) = some (found, behind)) :
    Hits ts after action before found behind := by
  obtain ⟨rfl, -, hnext⟩ := wholeWord_eq_some.1 hp
  have hw : w ∈ extensionWords := List.mem_filterMap.2 ⟨f, hf, by rw [hhead]; rfl⟩
  obtain ⟨pre, t, post, rfl, rfl, hpre, hpost⟩ := exists_word h hwhole hw hcs hbefore hnext
  have hverbatim : (verbatim [t]).toList = t.text.toList := by simp [verbatim, spaced]
  have htexts : texts [t] = f.head ++ f.brackets := by rw [hhead, hbrackets]; rfl
  refine ⟨pre, t, [], post, [], f, hf, ⟨[t], [], [], rfl, htexts, ?_, rfl, fun _ => rfl⟩,
    ⟨?_, ?_⟩, by simp, hpre, by rw [hverbatim, List.append_nil], hpost, ?_⟩
  · rw [Form.closing, hbrackets]
    rfl
  · rw [Form.width, hhead, hbrackets]
    rfl
  · rw [Form.width, hhead, hbrackets]
    exact List.forall_mem_nil _
  · rw [hverbatim, List.append_nil, hact]

end Matches

end Sanitation

end WitnessReplay
