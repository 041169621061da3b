import WitnessReplay.Proofs.Text.Blank

/-!
# Words

A text is split into words at its blanks, however many there are. So words that are joined with one
blank each are the words of what comes out (`words_intercalate`): what is left of a text when some
of its words are left out has the others.
-/

namespace WitnessReplay.Text

/-- A text that is one word. -/
def IsWord (cs : List Char) : Prop :=
  cs ≠ [] ∧ ∀ c ∈ cs, isBlank c = false

/-- A word ends where the text ends or a blank follows. -/
def EndsWord (cs : List Char) : Prop :=
  ∀ c ∈ cs.head?, isBlank c = true

variable {b w cs word : List Char} {c : Char}

/-! ### One character -/

theorem wordsFrom_of_not_blank (hc : isBlank c = false) (word cs : List Char) :
    wordsFrom word (c :: cs) = wordsFrom (c :: word) cs := by
  rw [wordsFrom.eq_def]
  cases word <;> simp [hc]

theorem words_of_blank (hc : isBlank c = true) (cs : List Char) : words (c :: cs) = words cs := by
  rw [words, wordsFrom.eq_def]
  simp [hc, words]

theorem wordsFrom_of_blank (hc : isBlank c = true) (hword : word ≠ []) (cs : List Char) :
    wordsFrom word (c :: cs) = word.reverse :: words cs := by
  obtain ⟨d, word, rfl⟩ := List.exists_cons_of_ne_nil hword
  rw [wordsFrom.eq_def]
  simp [hc, words]

theorem wordsFrom_nil (hword : word ≠ []) : wordsFrom word [] = [word.reverse] := by
  obtain ⟨d, word, rfl⟩ := List.exists_cons_of_ne_nil hword
  rfl

/-! ### Words of a text -/

theorem words_blanks_append (hb : Blanks b) (cs : List Char) : words (b ++ cs) = words cs := by
  induction b with
  | nil => rfl
  | cons c b ih =>
    rw [List.cons_append, words_of_blank (hb c List.mem_cons_self)]
    exact ih fun d hd => hb d (List.mem_cons_of_mem c hd)

theorem wordsFrom_append (hw : ∀ c ∈ w, isBlank c = false) (word cs : List Char) :
    wordsFrom word (w ++ cs) = wordsFrom (w.reverse ++ word) cs := by
  induction w generalizing word with
  | nil => rfl
  | cons c w ih =>
    obtain ⟨hc, hw⟩ := List.forall_mem_cons.1 hw
    rw [List.cons_append, wordsFrom_of_not_blank hc, ih hw]
    simp

/-- A word in front of a blank or at the end is the first of the words. -/
theorem words_append (hw : IsWord w) (hcs : EndsWord cs) : words (w ++ cs) = w :: words cs := by
  have hne := List.reverse_ne_nil_iff.2 hw.1
  rw [words, wordsFrom_append hw.2, List.append_nil]
  cases cs with
  | nil =>
    rw [wordsFrom_nil hne, List.reverse_reverse]
    rfl
  | cons c cs =>
    have hc := hcs c rfl
    rw [wordsFrom_of_blank hc hne, words_of_blank hc, List.reverse_reverse]

/-- Words that are joined with blanks are the words of the text. -/
theorem words_intercalate {ws : List (List Char)} (h : ∀ w ∈ ws, IsWord w) :
    words (List.intercalate [' '] ws) = ws := by
  induction ws with
  | nil => rfl
  | cons w ws ih =>
    obtain ⟨hw, hws⟩ := List.forall_mem_cons.1 h
    cases ws with
    | nil =>
      have hsingle := words_append hw (show EndsWord [] by simp [EndsWord])
      rw [List.append_nil] at hsingle
      rw [List.intercalate_singleton]
      exact hsingle
    | cons v ws =>
      have hends : EndsWord (' ' :: List.intercalate [' '] (v :: ws)) := by
        intro c hc
        obtain rfl := Option.some.inj hc
        decide
      have hblank : isBlank ' ' = true := by decide
      rw [List.intercalate_cons_cons, List.append_assoc, List.singleton_append,
        words_append hw hends, words_of_blank hblank, ih hws]

/-- Words behind one blank each are words that are joined with blanks. -/
theorem flatMap_cons_blank {ws : List (List Char)} (hne : ws ≠ []) :
    ws.flatMap (' ' :: ·) = ' ' :: List.intercalate [' '] ws := by
  obtain ⟨w, ws, rfl⟩ := List.exists_cons_of_ne_nil hne
  induction ws generalizing w with
  | nil => simp
  | cons v ws ih =>
    rw [List.flatMap_cons, ih v (List.cons_ne_nil v ws), List.intercalate_cons_cons]
    simp

/-- What a text is split into are words. -/
theorem isWord_of_mem_wordsFrom (hword : ∀ c ∈ word, isBlank c = false)
    (h : w ∈ wordsFrom word cs) : IsWord w := by
  have hback {word : List Char} (hne : word ≠ []) (hword : ∀ c ∈ word, isBlank c = false) :
      IsWord word.reverse :=
    ⟨List.reverse_ne_nil_iff.2 hne, fun c hc => hword c (List.mem_reverse.1 hc)⟩
  have hnone : ∀ c ∈ ([] : List Char), isBlank c = false :=
    fun _ hc => absurd hc List.not_mem_nil
  induction cs generalizing word with
  | nil =>
    by_cases hne : word = []
    · rw [hne] at h
      cases h
    · rw [wordsFrom_nil hne] at h
      rw [List.mem_singleton.1 h]
      exact hback hne hword
  | cons c cs ih =>
    by_cases hc : isBlank c = true
    · by_cases hne : word = []
      · rw [hne] at h
        rw [← words, words_of_blank hc] at h
        exact ih hnone h
      · rw [wordsFrom_of_blank hc hne] at h
        rcases List.mem_cons.1 h with rfl | h
        · exact hback hne hword
        · exact ih hnone h
    · have hc := eq_false_of_ne_true hc
      rw [wordsFrom_of_not_blank hc] at h
      exact ih (List.forall_mem_cons.2 ⟨hc, hword⟩) h

theorem isWord_of_mem_words (h : w ∈ words cs) : IsWord w :=
  isWord_of_mem_wordsFrom (fun _ hc => absurd hc List.not_mem_nil) h

end WitnessReplay.Text
