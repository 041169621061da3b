import Mathlib.Data.List.TakeWhile
import Mathlib.Logic.Basic
import WitnessReplay.Text.Blank

/-!
# Trimming and splitting

Blanks around a text do not matter to what is left when it is trimmed, and all else does. A text
that is put together from two at a separator is split into the pieces of both.
-/

namespace WitnessReplay.Text

/-! ### Blanks -/

/-- A text of nothing but blanks. -/
def Blanks (cs : List Char) : Prop :=
  ∀ c ∈ cs, isBlank c = true

instance (cs : List Char) : Decidable (Blanks cs) :=
  decidable_of_iff (cs.all isBlank = true) List.all_eq_true

theorem blanks_nil : Blanks [] := by
  intro c hc
  cases hc

variable {b cs : List Char} {c : Char}

theorem trimStart_append (hb : Blanks b) (cs : List Char) : trimStart (b ++ cs) = trimStart cs :=
  List.dropWhile_append_of_pos hb

theorem trimEnd_append (hb : Blanks b) (cs : List Char) : trimEnd (cs ++ b) = trimEnd cs := by
  have hrev : Blanks b.reverse := fun c hc => hb c (List.mem_reverse.1 hc)
  rw [trimEnd, List.reverse_append, trimStart_append hrev, trimEnd]

/-- What is not blank is kept, with all that stands behind it. -/
theorem trimStart_append_cons (hc : isBlank c = false) (before behind : List Char) :
    trimStart (before ++ c :: behind) = trimStart before ++ c :: behind := by
  induction before with
  | nil => exact List.dropWhile_cons_of_neg (by simp [hc])
  | cons d before ih =>
    rw [List.cons_append, trimStart, trimStart]
    by_cases hd : isBlank d = true
    · rw [List.dropWhile_cons_of_pos hd, List.dropWhile_cons_of_pos hd]
      exact ih
    · rw [List.dropWhile_cons_of_neg hd, List.dropWhile_cons_of_neg hd, List.cons_append]

/-- Trimming behind stops at the last character that is not blank. -/
theorem trimEnd_append_cons (hc : isBlank c = false) (before behind : List Char) :
    trimEnd (before ++ c :: behind) = before ++ c :: trimEnd behind := by
  rw [trimEnd, List.reverse_append, List.reverse_cons, List.append_assoc, List.singleton_append,
    trimStart_append_cons hc, trimEnd]
  simp

/-- Around a character that is not blank both ends are trimmed by themselves. -/
theorem trim_append_cons (hc : isBlank c = false) (before behind : List Char) :
    trim (before ++ c :: behind) = trimStart before ++ c :: trimEnd behind := by
  rw [trim, trimStart_append_cons hc, trimEnd_append_cons hc]

/-- What is trimmed in front is blank. -/
theorem exists_trimStart (cs : List Char) : ∃ b, Blanks b ∧ cs = b ++ trimStart cs :=
  ⟨cs.takeWhile isBlank, fun _ hc => List.mem_takeWhile_imp hc,
    List.takeWhile_append_dropWhile.symm⟩

theorem exists_trimEnd (cs : List Char) : ∃ b, Blanks b ∧ cs = trimEnd cs ++ b := by
  obtain ⟨b, hb, hcs⟩ := exists_trimStart cs.reverse
  refine ⟨b.reverse, fun c hc => hb c (List.mem_reverse.1 hc), ?_⟩
  rw [trimEnd, ← List.reverse_append, ← hcs, List.reverse_reverse]

/-- A text is what is left of it between blanks. -/
theorem exists_trim (cs : List Char) :
    ∃ b b', Blanks b ∧ Blanks b' ∧ cs = b ++ trim cs ++ b' := by
  obtain ⟨b, hb, hstart⟩ := exists_trimStart cs
  obtain ⟨b', hb', hend⟩ := exists_trimEnd (trimStart cs)
  exact ⟨b, b', hb, hb', by rw [trim, List.append_assoc, ← hend, ← hstart]⟩

/-- Blanks in front do not count. -/
theorem trim_blanks_append (hb : Blanks b) (cs : List Char) : trim (b ++ cs) = trim cs := by
  rw [trim, trimStart_append hb, trim]

theorem trim_append_blanks (hb : Blanks b) (cs : List Char) : trim (cs ++ b) = trim cs := by
  by_cases hcs : Blanks cs
  · have hboth : Blanks (cs ++ b) := fun c hc => (List.mem_append.1 hc).elim (hcs c) (hb c)
    rw [← List.append_nil (cs ++ b), trim_blanks_append hboth, ← List.append_nil cs,
      trim_blanks_append hcs]
  · -- behind the first character that is not blank the blanks stand at the end
    obtain ⟨c, hmem, hc⟩ : ∃ c ∈ cs, isBlank c = false := by simpa [Blanks] using hcs
    obtain ⟨before, behind, rfl⟩ := List.append_of_mem hmem
    rw [List.append_assoc, List.cons_append, trim_append_cons hc, trim_append_cons hc,
      trimEnd_append hb]

theorem trim_blanks (hb : Blanks b) : trim b = [] := by
  rw [← List.append_nil b, trim_blanks_append hb]
  rfl

theorem trim_trimStart (cs : List Char) : trim (trimStart cs) = trim cs := by
  obtain ⟨b, hb, hcs⟩ := exists_trimStart cs
  rw [← trim_blanks_append hb (trimStart cs), ← hcs]

theorem trim_trimEnd (cs : List Char) : trim (trimEnd cs) = trim cs := by
  obtain ⟨b, hb, hcs⟩ := exists_trimEnd cs
  rw [← trim_append_blanks hb (trimEnd cs), ← hcs]

/-- A text without blanks is not trimmed. -/
theorem trim_eq_self (h : ∀ c ∈ cs, isBlank c = false) : trim cs = cs := by
  obtain ⟨b, b', hb, hb', hcs⟩ := exists_trim cs
  have hnone {a : List Char} (ha : Blanks a) (hsub : a ⊆ cs) : a = [] := by
    refine List.eq_nil_iff_forall_not_mem.2 fun c hc => ?_
    have := ha c hc
    rw [h c (hsub hc)] at this
    cases this
  have hstart : b = [] := hnone hb (by rw [hcs]; simp)
  have hend : b' = [] := hnone hb' (by rw [hcs]; simp)
  rw [hstart, hend, List.nil_append, List.append_nil] at hcs
  exact hcs.symm

/-! ### Pieces -/

theorem splitAt_ne_nil (sep : Char) (cs : List Char) : splitAt sep cs ≠ [] := by
  cases cs with
  | nil => exact List.cons_ne_nil _ _
  | cons c cs =>
    rw [splitAt]
    split
    · exact List.cons_ne_nil _ _
    · split <;> exact List.cons_ne_nil _ _

/-- A text is split at each separator on its own. -/
theorem splitAt_append (sep : Char) (before behind : List Char) :
    splitAt sep (before ++ sep :: behind) = splitAt sep before ++ splitAt sep behind := by
  induction before with
  | nil =>
    rw [List.nil_append, splitAt.eq_def]
    exact if_pos rfl
  | cons c before ih =>
    rw [List.cons_append, splitAt, splitAt, ih]
    split
    · rfl
    · obtain ⟨piece, pieces, hpieces⟩ := List.exists_cons_of_ne_nil (splitAt_ne_nil sep before)
      rw [hpieces]
      rfl

/-- A text without the mark is one piece. -/
theorem splitAt_of_not_mem {sep : Char} (h : sep ∉ cs) : splitAt sep cs = [cs] := by
  induction cs with
  | nil => rfl
  | cons c cs ih =>
    rw [splitAt, if_neg (List.ne_of_not_mem_cons h).symm, ih (List.not_mem_of_not_mem_cons h)]

/-- Pieces without the separator are what a text of them is split into. -/
theorem splitAt_intercalate {sep : Char} {pieces : List (List Char)} (hne : pieces ≠ [])
    (h : ∀ piece ∈ pieces, sep ∉ piece) : splitAt sep (List.intercalate [sep] pieces) = pieces := by
  induction pieces with
  | nil => exact absurd rfl hne
  | cons piece rest ih =>
    obtain ⟨hpiece, hrest⟩ := List.forall_mem_cons.1 h
    cases rest with
    | nil => rw [List.intercalate_singleton, splitAt_of_not_mem hpiece]
    | cons second rest =>
      rw [List.intercalate_cons_cons, List.append_assoc, List.singleton_append, splitAt_append,
        splitAt_of_not_mem hpiece, ih (List.cons_ne_nil _ _) hrest]
      rfl

/-- A piece has only characters of the text. -/
theorem subset_of_mem_splitAt {sep : Char} {piece : List Char} (h : piece ∈ splitAt sep cs) :
    piece ⊆ cs := by
  induction cs generalizing piece with
  | nil => simp [splitAt] at h; simp [h]
  | cons c rest ih =>
    rw [splitAt] at h
    split at h
    next =>
      rcases List.mem_cons.1 h with rfl | h
      · exact List.nil_subset _
      · exact List.subset_cons_of_subset _ (ih h)
    next =>
      split at h
      next =>
        obtain rfl := List.mem_singleton.1 h
        simp
      next first pieces hsplit =>
        rw [hsplit] at ih
        rcases List.mem_cons.1 h with rfl | h
        · exact List.cons_subset_cons _ (ih List.mem_cons_self)
        · exact List.subset_cons_of_subset _ (ih (List.mem_cons_of_mem _ h))

end WitnessReplay.Text
