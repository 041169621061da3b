import Mathlib.Logic.Function.Iterate
import WitnessReplay.Proofs.Sanitation.Matching

/-!
# What is left of a text

Substitutions write text that other substitutions may match, so it has to be said why they come to
an end together. Every match but one is replaced by a text of less weight: blanks weigh nothing, and
the words that are put in weigh less than the words that they replace. The exception is a string
literal that the search for comments comes upon; it is kept as it is.

So a substitution makes a text lighter or finds nothing but such literals (`lighter_or_leaves`), and
the same is true of a pass. The passes before the last one are no more than the characters of the
source, and what they leave is a normal form (`normalForm_sanitize`): no substitution finds anything
in it, whichever is applied next.
-/

namespace WitnessReplay.Sanitation

open Text Text.Pattern

/-! ### Weight -/

theorem weight_append (as bs : List Char) : weight (as ++ bs) = weight as + weight bs :=
  List.countP_append

/-- There are no more of them than characters. -/
theorem weight_le_length (cs : List Char) : weight cs ≤ cs.length :=
  List.countP_le_length

theorem weight_blank (cs : List Char) : weight (blank cs) = 0 := by
  refine List.countP_eq_zero.2 fun c hc => ?_
  rcases mem_blank hc with rfl | rfl <;> decide

/-- A word weighs as much as it adds to any text that begins with it. -/
theorem weight_le_of_begins {as cs : List Char} (h : as <+: cs) : weight as ≤ weight cs := by
  obtain ⟨bs, rfl⟩ := h
  rw [weight_append]
  exact Nat.le_add_right _ _

/-! ### What is blanked of a match -/

/-- A match weighs what its blanked part and the rest of it weigh. -/
theorem weight_splitBalanced (found : List Char) :
    weight (splitBalanced 0 found).1 + weight (splitBalanced 0 found).2 = weight found := by
  rw [← weight_append, splitBalanced_append]

/-- Blanking a group takes parentheses away. -/
theorem weight_blankGroup {found : List Char} (h : 1 ≤ weight (splitBalanced 0 found).1) :
    weight (Action.blankGroup.apply found) < weight found := by
  have hsum := weight_splitBalanced found
  have happly : weight (Action.blankGroup.apply found) = weight (splitBalanced 0 found).2 := by
    rw [Action.apply, weight_append, weight_blank, Nat.zero_add]
  omega

/-- The zero weighs as much as one character. -/
theorem weight_zeroGroup {found : List Char} (h : 2 ≤ weight (splitBalanced 0 found).1) :
    weight (Action.zeroGroup.apply found) < weight found := by
  have hsum := weight_splitBalanced found
  have hdrop : weight ((blank (splitBalanced 0 found).1).drop 1) = 0 := by
    have hzero := weight_blank (splitBalanced 0 found).1
    rw [← List.take_append_drop 1 (blank _), weight_append] at hzero
    omega
  have happly : weight (Action.zeroGroup.apply found)
      = 1 + weight (splitBalanced 0 found).2 := by
    rw [Action.apply, weight_append, ← List.singleton_append, weight_append, hdrop]
    rfl
  omega

/-- A word without parentheses at the start of a match is blanked. -/
theorem weight_le_splitBalanced {word found : List Char} (h : word <+: found)
    (hw : '(' ∉ word ∧ ')' ∉ word) : weight word ≤ weight (splitBalanced 0 found).1 := by
  obtain ⟨more, rfl⟩ := h
  have hskip : ∀ c ∈ word, c ≠ '(' ∧ c ≠ ')' := fun c hc =>
    ⟨ne_of_mem_of_not_mem hc hw.1, ne_of_mem_of_not_mem hc hw.2⟩
  rw [splitBalanced_skip hskip]
  exact weight_le_of_begins (List.prefix_append ..)

/-- A block in parentheses is blanked behind its brace at the earliest. -/
theorem two_le_weight_block {cs found behind : List Char}
    (h : blockInParentheses cs = some (found, behind)) :
    2 ≤ weight (splitBalanced 0 found).1 := by
  obtain ⟨_, rest₁, _, hopen, h₁, rfl⟩ := seq_eq_some h
  obtain ⟨g, rest₂, _, hmany, h₂, rfl⟩ := seq_eq_some h₁
  obtain ⟨_, rest₃, more, hbrace, -, rfl⟩ := seq_eq_some h₂
  obtain ⟨rfl, -⟩ := exactly_eq_some hopen
  obtain ⟨rfl, -⟩ := exactly_eq_some hbrace
  have hlayout := (many_eq_some hmany).1
  have hinside : ∀ c ∈ g ++ ['\x7b'], c ≠ '(' ∧ c ≠ ')' := by
    intro c hc
    rcases List.mem_append.1 hc with hc | hc
    · exact not_paren_of_isLayout (hlayout c hc)
    · rw [List.mem_singleton.1 hc]
      decide
  rw [List.singleton_append, ← List.append_assoc, splitBalanced_open, splitBalanced_skip hinside]
  have hweight : weight ['(', '\x7b'] = 2 := rfl
  have hsub : weight ['(', '\x7b'] ≤ weight ('(' :: (g ++ ['\x7b'])) :=
    List.Sublist.countP_le (.cons_cons _ (List.sublist_append_right _ _))
  rw [hweight] at hsub
  exact hsub.trans (weight_le_of_begins (List.cons_prefix_cons.2 ⟨rfl, List.prefix_append ..⟩))

/-! ### Strings and comments -/

/-- A string literal, as the search for comments knows them. -/
def IsString (cs : List Char) : Prop :=
  ∃ body, cs = '"' :: body ∧ restOfString body = some (body, [])

/-- What stands behind a string does not matter to it. -/
theorem restOfString_self {cs body after : List Char} (h : restOfString cs = some (body, after)) :
    restOfString body = some (body, []) := by
  fun_induction restOfString cs generalizing body with
  | case1 => cases h
  | case2 => cases h; rfl
  | case3 => cases h
  | case4 => cases h; rfl
  | case5 => cases h
  | case6 => cases h
  | case7 b rest hb hquote _ ih =>
    obtain ⟨⟨body', after'⟩, hr, heq⟩ := Option.map_eq_some_iff.1 h
    cases heq
    rw [restOfString, if_neg (by decide), if_neg (by decide), if_pos rfl, if_neg hb, ih hr]
    rfl
  | case8 a b rest hquote hline hback ih =>
    obtain ⟨⟨body', after'⟩, hr, heq⟩ := Option.map_eq_some_iff.1 h
    cases heq
    obtain ⟨c, body', rfl⟩ := List.exists_cons_of_ne_nil (restOfString_ne_nil hr)
    rw [restOfString, if_neg hquote, if_neg hline, if_neg hback, ih hr]
    rfl

/-- The search for comments finds a string, which is kept, or something that is blanked. -/
theorem comment_or_string {found behind : List Char}
    (h : commentOrString (found ++ behind) = some (found, behind)) :
    weight (Action.blankComment.apply found) < weight found ∨
      Action.blankComment.apply found = found ∧ IsString found := by
  have hcomment {mark : List Char} (hmark : 1 ≤ weight mark) (hfirst : mark.head? = some '/')
      (hbegins : mark <+: found) : weight (Action.blankComment.apply found) < weight found := by
    have hhead : found.head? ≠ some '"' := by
      obtain ⟨rest, rfl⟩ := hbegins
      rw [List.head?_append, hfirst, Option.some_or]
      decide
    rw [Action.apply, if_neg hhead, weight_blank]
    exact hmark.trans (weight_le_of_begins hbegins)
  unfold commentOrString at h
  rcases orElse_cases h with h | h
  · obtain ⟨_, rest, body, hquote, hbody, rfl⟩ := seq_eq_some h
    obtain ⟨rfl, -⟩ := exactly_eq_some hquote
    refine .inr ⟨?_, body, rfl, restOfString_self hbody⟩
    rw [Action.apply, List.singleton_append]
    exact if_pos rfl
  rcases orElse_cases h with h | h
  · exact .inl (hcomment (by decide) rfl (seq_begins (exactly_begins ['/', '/']) _ _ _ h))
  · exact .inl (hcomment (by decide) rfl (seq_begins (exactly_begins ['/', '*']) _ _ _ h))

/-! ### Single matches -/

/-- A substitution keeps a match, if it is a string that the search for comments found. -/
def Substitution.Keeps (s : Substitution) (found : List Char) : Prop :=
  s.action = .blankComment ∧ IsString found

/-- **Every substitution makes its matches lighter**, but for the strings that are kept. -/
theorem lighter_or_keeps {s : Substitution} (hs : s ∈ substitutions) {found behind : List Char}
    (h : s.pattern (found ++ behind) = some (found, behind)) :
    weight (s.action.apply found) < weight found ∨
      s.action.apply found = found ∧ s.Keeps found := by
  have blanked (word : List Char) (hword : 1 ≤ weight word ∧ '(' ∉ word ∧ ')' ∉ word)
      (hbegins : Begins s.pattern word) : weight (Action.blankGroup.apply found) < weight found :=
    weight_blankGroup (hword.1.trans (weight_le_splitBalanced (hbegins _ _ _ h) hword.2))
  have spelled {word text : String} (hweight : weight text.toList < weight word.toList)
      (hbegins : Begins s.pattern word.toList) :
      weight ((Action.replaceBy text).apply found) < weight found :=
    hweight.trans_le (weight_le_of_begins (hbegins _ _ _ h))
  simp only [substitutions, List.mem_cons, List.not_mem_nil, or_false] at hs
  rcases hs with rfl | rfl | rfl | rfl | rfl | rfl | rfl | rfl | rfl | rfl | rfl | rfl
  · exact (comment_or_string h).imp_right fun hkept => ⟨hkept.1, rfl, hkept.2⟩
  · exact .inl (blanked _ (by decide) (wordWithGroup_begins (exactly_begins _)))
  · exact .inl (blanked "__asm__".toList (by decide)
      (wordWithGroup_begins (seq_begins (exactly_begins _))))
  · exact .inl (blanked _ (by decide) (wordWithGroup_begins (exactly_begins _)))
  · exact .inl (blanked _ (by decide) (wordWithGroup_begins (exactly_begins _)))
  · have hbegins := wordWithGroup_begins (exactly_begins "__extension__".toList) _ _ _ h
    exact .inl (weight_zeroGroup (Nat.le_trans (by decide)
      (weight_le_splitBalanced hbegins (by decide))))
  · exact .inl (blanked _ (by decide) (wholeWord_begins _))
  · exact .inl (blanked _ (by decide)
      (orElse_begins ((wholeWord_begins _).mono (by decide)) (wholeWord_begins "__inline")))
  · exact .inl (blanked _ (by decide)
      (orElse_begins ((wholeWord_begins _).mono (by decide)) (wholeWord_begins "__restrict")))
  · exact .inl (spelled (by decide) (wholeWord_begins _))
  · exact .inl (spelled (by decide) (wholeWord_begins _))
  · exact .inl (weight_zeroGroup (two_le_weight_block h))

/-! ### The run of a substitution -/

/-- A substitution goes over a text from left to right and comes upon some matches; `inWord` says
that a word character stands before the text. What it writes stands last. -/
inductive Substitution.Sweeps (s : Substitution) :
    Bool → List Char → List (List Char) → List Char → Prop
  | nil {inWord : Bool} : s.Sweeps inWord [] [] []
  | pass {inWord : Bool} {c : Char} {rest out : List Char} {founds : List (List Char)}
      (hnone : s.find? inWord (c :: rest) = none)
      (hrest : s.Sweeps (isWordChar c) rest founds out) :
      s.Sweeps inWord (c :: rest) founds (c :: out)
  | hit {inWord : Bool} {found behind out : List Char} {founds : List (List Char)}
      (hword : s.atWord = true → inWord = false)
      (hfound : s.pattern (found ++ behind) = some (found, behind))
      (hrest : s.Sweeps (endsInWord found) behind founds out) :
      s.Sweeps inWord (found ++ behind) (found :: founds) (s.action.apply found ++ out)

namespace Substitution

variable {s : Substitution} {inWord : Bool} {cs out : List Char} {founds : List (List Char)}

/-- What a substitution does, as a list of the texts it has found. -/
theorem exists_sweeps (hs : s.Proper) (inWord : Bool) (cs : List Char) :
    ∃ founds, s.Sweeps inWord cs founds (s.applyFrom 0 inWord cs) := by
  cases cs with
  | nil => exact ⟨[], .nil⟩
  | cons c rest =>
    cases hfind : s.find? inWord (c :: rest) with
    | none =>
      obtain ⟨founds, hrest⟩ := exists_sweeps hs (isWordChar c) rest
      rw [applyFrom_none hfind]
      exact ⟨founds, .pass hfind hrest⟩
    | some found =>
      obtain ⟨behind, hcs, hp, hword⟩ := exists_behind hs hfind
      have hlen := hs.two_le hp
      have hshort : behind.length < (c :: rest).length := by
        rw [hcs, List.length_append]
        omega
      obtain ⟨founds, hrest⟩ := exists_sweeps hs (endsInWord found) behind
      rw [hcs] at hfind hp ⊢
      rw [applyFrom_found hfind (List.ne_nil_of_length_pos (by omega))]
      exact ⟨found :: founds, .hit hword hp hrest⟩
termination_by cs.length
decreasing_by
  · exact Nat.lt_succ_self _
  · exact hshort

/-- Where no match is come upon there is none. -/
theorem Sweeps.misses (h : s.Sweeps inWord cs founds out) (hnone : founds = []) :
    s.misses inWord cs = true := by
  induction h with
  | nil => rfl
  | pass hfind _ ih => exact Bool.and_eq_true_iff.2 ⟨Option.isNone_iff_eq_none.2 hfind, ih hnone⟩
  | hit => cases hnone

/-- A run that replaces anything leaves a lighter text. -/
theorem Sweeps.lighter_or_keeps (hs : s ∈ substitutions) (h : s.Sweeps inWord cs founds out) :
    weight out < weight cs ∨ out = cs ∧ ∀ found ∈ founds, s.Keeps found := by
  induction h with
  | nil => exact .inr ⟨rfl, by simp⟩
  | @pass _ c rest out founds _ _ ih =>
    have hcons (ds : List Char) : weight (c :: ds) = weight [c] + weight ds :=
      weight_append [c] ds
    rw [hcons out, hcons rest]
    rcases ih with hlt | ⟨rfl, hkeeps⟩
    · exact .inl (by omega)
    · exact .inr ⟨rfl, hkeeps⟩
  | hit _ hp _ ih =>
    rw [weight_append, weight_append]
    rcases Sanitation.lighter_or_keeps hs hp with hlt | ⟨happly, hkeep⟩ <;>
      rcases ih with hlt' | ⟨rfl, hkeeps⟩
    · exact .inl (by omega)
    · exact .inl (by omega)
    · exact .inl (by rw [happly]; omega)
    · exact .inr ⟨by rw [happly], List.forall_mem_cons.2 ⟨hkeep, hkeeps⟩⟩

/-- A substitution comes upon nothing in a text but what it keeps, and leaves the text as it is. -/
structure Leaves (s : Substitution) (cs : List Char) : Prop where
  apply_eq : s.apply cs = cs
  keeps : ∃ founds, s.Sweeps false cs founds cs ∧ ∀ found ∈ founds, s.Keeps found

/-- A substitution takes parentheses away or leaves the text. -/
theorem lighter_or_leaves (hs : s ∈ substitutions) (cs : List Char) :
    weight (s.apply cs) < weight cs ∨ s.Leaves cs := by
  obtain ⟨founds, hsweeps⟩ := exists_sweeps (proper_of_mem hs) false cs
  refine (hsweeps.lighter_or_keeps hs).imp_right fun ⟨heq, hkeeps⟩ => ⟨heq, founds, ?_, hkeeps⟩
  rwa [heq] at hsweeps

end Substitution

/-! ### Passes -/

/-- A text in which no extension is found at any place, and no comment. What the search for
comments comes upon are strings. -/
structure NormalForm (cs : List Char) : Prop where
  misses : ∀ s ∈ substitutions.tail, s.misses false cs = true
  strings : ∃ founds, comments.Sweeps false cs founds cs ∧ ∀ found ∈ founds, IsString found

/-- A text that all substitutions leave is in normal form. -/
theorem normalForm_of_leaves {cs : List Char} (h : ∀ s ∈ substitutions, s.Leaves cs) :
    NormalForm cs := by
  refine ⟨fun s hs => ?_, ?_⟩
  · have hother : ∀ s ∈ substitutions.tail, s.action ≠ .blankComment := by
      simp [substitutions]
    obtain ⟨founds, hsweeps, hkeeps⟩ := (h s (List.mem_of_mem_tail hs)).keeps
    refine hsweeps.misses (List.eq_nil_iff_forall_not_mem.2 fun found hfound => ?_)
    exact hother s hs (hkeeps found hfound).1
  · obtain ⟨founds, hsweeps, hkeeps⟩ := (h comments (by rw [substitutions_eq]; simp)).keeps
    exact ⟨founds, hsweeps, fun found hfound => (hkeeps found hfound).2⟩

theorem foldl_of_leaves {ss : List Substitution} {cs : List Char} (h : ∀ s ∈ ss, s.Leaves cs) :
    ss.foldl (fun text s => s.apply text) cs = cs := by
  induction ss with
  | nil => rfl
  | cons s ss ih =>
    obtain ⟨hs, hss⟩ := List.forall_mem_cons.1 h
    rw [List.foldl_cons, hs.apply_eq, ih hss]

/-- Substitutions one after the other make a text lighter, or each of them leaves it. So none of
them takes back what another one did. -/
theorem lighter_or_all_leave {ss : List Substitution} (hss : ss ⊆ substitutions)
    (cs : List Char) : weight (ss.foldl (fun text s => s.apply text) cs) < weight cs ∨
      ∀ s ∈ ss, s.Leaves cs := by
  induction ss generalizing cs with
  | nil => exact .inr (by simp)
  | cons s ss ih =>
    obtain ⟨hs, hss⟩ := List.cons_subset.1 hss
    rw [List.foldl_cons]
    rcases s.lighter_or_leaves hs cs with hlt | hleaves
    · refine .inl (Nat.lt_of_le_of_lt ?_ hlt)
      rcases ih hss (s.apply cs) with hlt' | hleaves'
      · exact hlt'.le
      · rw [foldl_of_leaves hleaves']
    · rw [hleaves.apply_eq]
      exact (ih hss cs).imp_right fun hleaves' => List.forall_mem_cons.2 ⟨hleaves, hleaves'⟩

/-- **A pass makes a text lighter, or no substitution changes it.** -/
theorem lighter_or_fixed (cs : List Char) :
    weight (pass cs) < weight cs ∨ ∀ s ∈ substitutions, s.Leaves cs :=
  lighter_or_all_leave (List.Subset.refl _) cs

/-- Passes are made until one changes nothing, each on a lighter text than the one before. -/
theorem exists_passes (cs : List Char) :
    ∃ n ≤ weight cs, pass^[n] cs = sanitizeFrom cs ∧
      (∀ s ∈ substitutions, s.Leaves (sanitizeFrom cs)) ∧
      ∀ i < n, pass^[i + 1] cs ≠ pass^[i] cs := by
  fun_induction sanitizeFrom cs with
  | case1 cs next hlt ih =>
    obtain ⟨n, hn, heq, hleaves, hmoves⟩ := ih
    refine ⟨n + 1, by omega, heq, hleaves, fun i hi => ?_⟩
    cases i with
    | zero =>
      intro hsame
      rw [show next = cs from hsame] at hlt
      exact Nat.lt_irrefl _ hlt
    | succ i => exact hmoves i (by omega)
  | case2 cs next hle =>
    have hleaves := (lighter_or_fixed cs).resolve_left hle
    have hsame : next = cs := foldl_of_leaves hleaves
    rw [hsame]
    exact ⟨0, Nat.zero_le _, rfl, hleaves, fun i hi => absurd hi (Nat.not_lt_zero i)⟩

/-- **Sanitation ends in a normal form.** The passes that change the text are no more than its
characters, one more changes nothing, and what is left is a normal form: whichever substitutions are
applied to it in whichever order, and however often it is sanitized, it stays as it is. -/
theorem normalForm_sanitize (source : String) :
    (∃ n ≤ source.length, pass^[n] source.toList = (sanitize source).toList ∧
      pass^[n + 1] source.toList = pass^[n] source.toList ∧
      ∀ i < n, pass^[i + 1] source.toList ≠ pass^[i] source.toList) ∧
    NormalForm (sanitize source).toList ∧
    (∀ ss : List Substitution, ss ⊆ substitutions →
      ss.foldl (fun text s => s.apply text) (sanitize source).toList = (sanitize source).toList) ∧
    sanitize (sanitize source) = sanitize source := by
  have htext : (sanitize source).toList = sanitizeFrom source.toList := String.toList_ofList
  obtain ⟨n, hn, heq, hleaves, hmoves⟩ := exists_passes source.toList
  have hpass : pass (sanitizeFrom source.toList) = sanitizeFrom source.toList :=
    foldl_of_leaves hleaves
  rw [htext]
  refine ⟨⟨n, hn.trans (weight_le_length _), heq, ?_, hmoves⟩, normalForm_of_leaves hleaves,
    fun ss hss => foldl_of_leaves fun s hs => hleaves s (hss hs), ?_⟩
  · rw [Function.iterate_succ_apply', heq, hpass]
  · have hagain := sanitizeFrom_of_pass (hpass.symm ▸ hpass)
    rw [sanitize, htext, hagain, hpass]
    rfl

/-- Behind a word that is blanked late in a pass, an earlier substitution finds more in the next. -/
example : pass "asm __restrict (x);".toList = "asm            (x);".toList ∧
    pass^[2] "asm __restrict (x);".toList = "                  ;".toList ∧
    sanitize "asm __restrict (x);" = "                  ;" := by
  decide +kernel

end WitnessReplay.Sanitation
