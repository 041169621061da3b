import WitnessReplay.Proofs.Sanitation.Locating
import WitnessReplay.Proofs.Text.Word

/-!
# Tokens that are joined by blanks

A header is rewritten word by word: it is split at its blanks, some words are left out, and the
others are joined with one blank each. Words are not tokens. But where only blanks stand between the
tokens, none stands inside of one and none is a directive, a word is a stretch of tokens without
gaps (`exists_stretches`). If also the words to be left out have gaps on both sides, then just these
tokens are left out, and the others are read back from what comes out (`Lexed.rejoined`).
-/

namespace WitnessReplay

open Text Token

/-- The words that change how a function is linked. -/
def linkageWords : List String := ["static", "inline", "extern"]

variable {dropped : List String} {ts us : List Token} {t : Token} {y : List Char}
  {place place' : Cursor}

/-- Whether dropped words have a gap between themselves and what is next to them. -/
def Apart (dropped : List String) (ts : List Token) : Prop :=
  ts.IsChain fun t u => t.text ∈ dropped ∨ u.text ∈ dropped → u.gap ≠ ""

/-- Tokens of which some can be dropped by the words of their text. -/
structure WellSpaced (dropped : List String) (ts : List Token) : Prop where
  undirected : ∀ t ∈ ts, t.kind ≠ .directive
  solid : ∀ t ∈ ts, ∀ c ∈ t.text.toList, isBlank c = false
  blank : ∀ t ∈ ts, Blanks t.gap.toList
  apart : Apart dropped ts

instance (dropped : List String) (ts : List Token) : Decidable (Apart dropped ts) :=
  inferInstanceAs (Decidable (List.IsChain _ ts))

instance (dropped : List String) (ts : List Token) : Decidable (WellSpaced dropped ts) :=
  -- a text is searched, not all the characters there are
  letI (cs : List Char) : Decidable (∀ c ∈ cs, isBlank c = false) := List.decidableBAll _ cs
  decidable_of_iff ((∀ t ∈ ts, t.kind ≠ .directive) ∧
      (∀ t ∈ ts, ∀ c ∈ t.text.toList, isBlank c = false) ∧
      (∀ t ∈ ts, Blanks t.gap.toList) ∧ Apart dropped ts)
    ⟨fun ⟨hk, hsolid, hblank, hapart⟩ => ⟨hk, hsolid, hblank, hapart⟩,
      fun h => ⟨h.undirected, h.solid, h.blank, h.apart⟩⟩

namespace Apart

theorem tail (h : Apart dropped (t :: ts)) : Apart dropped ts :=
  List.IsChain.of_cons h

/-- Behind a word that is dropped there is a gap. -/
theorem of_dropped (h : Apart dropped (t :: ts)) (ht : t.text ∈ dropped) :
    ∀ u ∈ ts.head?, u.gap ≠ "" := by
  intro u hu
  cases h with
  | singleton => cases hu
  | cons_cons hfirst _ =>
    obtain rfl := Option.some.inj hu
    exact hfirst (.inl ht)

/-- A token that touches the one before it is not dropped. -/
theorem not_mem (h : Apart dropped (t :: ts)) : ∀ u ∈ ts, u.gap = "" → u.text ∉ dropped := by
  intro u hu hgap
  induction ts generalizing t with
  | nil => cases hu
  | cons v ts ih =>
    cases h with
    | cons_cons hfirst hrest =>
      rcases List.mem_cons.1 hu with rfl | hu
      · exact fun hmem => hfirst (.inr hmem) hgap
      · exact ih hrest hu

end Apart

theorem WellSpaced.tail (h : WellSpaced dropped (t :: ts)) : WellSpaced dropped ts where
  undirected := (List.forall_mem_cons.1 h.undirected).2
  solid := (List.forall_mem_cons.1 h.solid).2
  blank := (List.forall_mem_cons.1 h.blank).2
  apart := h.apart.tail

/-- Tokens from which some words can be dropped are such tokens for fewer words. -/
theorem WellSpaced.mono {fewer : List String} (h : WellSpaced dropped ts) (hd : fewer ⊆ dropped) :
    WellSpaced fewer ts :=
  { h with apart := h.apart.imp fun _ _ hgap hmem => hgap (hmem.imp (@hd _) (@hd _)) }

/-- Tokens that stand one behind the other before some text, wherever that is. -/
def Stood : List Token → List Char → Prop
  | [], _ => True
  | t :: rest, after =>
    Gap t.gap.toList ∧ (∃ fresh, t.Stands fresh ((spaced rest).toList ++ after)) ∧ Stood rest after

/-- Tokens that were read stood as they are written. -/
theorem Token.Lexed.stood (h : Lexed place ts y) : Stood ts y := by
  induction ts generalizing place with
  | nil => trivial
  | cons t ts ih => exact ⟨h.1, ⟨_, h.2.2.2.1⟩, ih h.2.2.2.2⟩

theorem Stood.right (h : Stood (ts ++ us) y) : Stood us y := by
  induction ts with
  | nil => exact h
  | cons t ts ih => exact ih h.2.2

/-! ### Words as stretches of tokens -/

/-- Tokens and the words that their text is split into: a dropped token is a word by itself, and any
other word is a stretch of tokens without gaps. -/
inductive Stretches (dropped : List String) : List Token → List String → Prop
  | nil : Stretches dropped [] []
  | dropped {t : Token} {ts : List Token} {ws : List String} (ht : t.text ∈ dropped)
      (h : Stretches dropped ts ws) : Stretches dropped (t :: ts) (t.text :: ws)
  | kept {t : Token} {g ts : List Token} {ws : List String} (hgap : t.gap ≠ "")
      (hg : ∀ u ∈ g, u.gap = "") (hno : ∀ u ∈ t :: g, u.text ∉ dropped)
      (hword : t.text ++ spaced g ∉ dropped) (h : Stretches dropped ts ws) :
      Stretches dropped (t :: g ++ ts) ((t.text ++ spaced g) :: ws)

/-- The linkage words are words, and none of them opens a literal. -/
theorem linkageWords_letters {w : String} (hw : w ∈ linkageWords) :
    ∃ c word, w.toList = c :: word ∧ isWordStart c = true ∧ isLiteralMark c = false ∧
      ∀ d ∈ c :: word, isWordPart d = true := by
  have hall : ∀ w ∈ linkageWords, w.toList ≠ [] ∧
      (w.toList.head?.all fun c => isWordStart c && !isLiteralMark c) = true ∧
      w.toList.all isWordPart = true := by
    decide
  obtain ⟨hne, hfirst, hword⟩ := hall w hw
  obtain ⟨c, word, heq⟩ := List.exists_cons_of_ne_nil hne
  rw [heq] at hfirst hword
  have hfirst : isWordStart c = true ∧ isLiteralMark c = false := by simpa using hfirst
  exact ⟨c, word, heq, hfirst.1, hfirst.2, List.all_eq_true.1 hword⟩

/-- A token that is not dropped, with what stands right behind it, is no word that is dropped. -/
theorem Token.Stands.not_mem_dropped {fresh : Bool} {glued more : List Char}
    (h : t.Stands fresh (glued ++ more)) (hk : t.kind ≠ .directive) (hd : dropped ⊆ linkageWords)
    (ht : t.text ∉ dropped) (hmore : more.head?.any isWordPart = false) :
    t.text ++ String.ofList glued ∉ dropped := by
  intro hmem
  obtain ⟨c, word, hw, hc, hmark, hword⟩ := linkageWords_letters (hd hmem)
  rw [String.toList_append, String.toList_ofList] at hw
  have hsplit : t.text.toList ++ (glued ++ more) = c :: word ++ more := by
    rw [← List.append_assoc, hw]
  obtain ⟨htext, hrest⟩ := h.eq_word hk hc hmark hword hmore hsplit
  rw [htext, List.append_right_eq_self] at hw
  subst hw
  exact ht (by simpa using hmem)

theorem isWordPart_of_isSpacing {c : Char} (h : isSpacing c = true) : isWordPart c = false := by
  simp only [isSpacing, Bool.or_eq_true, beq_iff_eq] at h
  rcases h with ((((rfl | rfl) | rfl) | rfl) | rfl) | rfl <;> decide

/-- A gap does not begin with a part of a word. -/
theorem Gap.not_isWordPart {g : List Char} (h : Gap g) : g.head?.any isWordPart = false := by
  cases h with
  | nil => rfl
  | blank hc => exact isWordPart_of_isSpacing hc
  | continued => exact (by decide : isWordPart '\\' = false)
  | line => exact (by decide : isWordPart '/' = false)
  | block => exact (by decide : isWordPart '/' = false)

/-- Tokens behind a gap do not go on with a word. -/
theorem Stood.not_isWordPart (h : Stood ts y) (hgap : ∀ u ∈ ts.head?, u.gap ≠ "")
    (hy : y.head?.any isWordPart = false) :
    ((spaced ts).toList ++ y).head?.any isWordPart = false := by
  cases ts with
  | nil => exact hy
  | cons u us =>
    have hne : u.gap.toList ≠ [] := fun hnil => hgap u rfl (String.toList_eq_nil_iff.1 hnil)
    have hhead := Gap.not_isWordPart h.1
    obtain ⟨c, g, hc⟩ := List.exists_cons_of_ne_nil hne
    rw [hc] at hhead
    simpa [spaced, hc] using hhead

/-- Tokens that no gap separates are written without blanks. -/
theorem spaced_glued {g : List Token} (hg : ∀ u ∈ g, u.gap = "")
    (hsolid : ∀ u ∈ g, ∀ c ∈ u.text.toList, isBlank c = false) :
    ∀ c ∈ (spaced g).toList, isBlank c = false := by
  induction g with
  | nil => simp [spaced]
  | cons u g ih =>
    obtain ⟨hu, hg⟩ := List.forall_mem_cons.1 hg
    obtain ⟨husolid, hsolid⟩ := List.forall_mem_cons.1 hsolid
    intro c hc
    simp only [spaced, hu, String.empty_append, String.toList_append, List.mem_append] at hc
    rcases hc with hc | hc
    · exact husolid c hc
    · exact ih hg hsolid c hc

/-- A word ends where a gap or nothing comes behind it. -/
theorem endsWord_spaced (hgap : ∀ u ∈ ts.head?, u.gap ≠ "")
    (hblank : ∀ u ∈ ts, Blanks u.gap.toList) : EndsWord (spaced ts).toList := by
  cases ts with
  | nil => simp [EndsWord, spaced]
  | cons u us =>
    have hne : u.gap.toList ≠ [] := fun hnil => hgap u rfl (String.toList_eq_nil_iff.1 hnil)
    obtain ⟨c, g, hc⟩ := List.exists_cons_of_ne_nil hne
    have hhead := hblank u List.mem_cons_self c (by simp [hc])
    simpa [EndsWord, spaced, hc] using hhead

/-- The words of tokens are stretches of them, from the first gap on. -/
theorem exists_stretches (hd : dropped ⊆ linkageWords) (h : Stood ts y)
    (hs : WellSpaced dropped ts) (hy : y.head?.any isWordPart = false) :
    ∃ g rest ws, ts = g ++ rest ∧ (∀ u ∈ g, u.gap = "") ∧ (∀ u ∈ rest.head?, u.gap ≠ "") ∧
      Stretches dropped rest ws ∧ words (spaced rest).toList = ws.map String.toList := by
  induction ts with
  | nil => exact ⟨[], [], [], rfl, by simp, by simp, .nil, rfl⟩
  | cons t ts ih =>
    obtain ⟨-, ⟨fresh, hstands⟩, hrest⟩ := h
    obtain ⟨g, rest, ws, rfl, hg, hgap, hstretches, hwords⟩ := ih hrest hs.tail
    obtain ⟨hk, hsolid, hblank, hapart⟩ := hs
    rw [List.forall_mem_cons] at hk hsolid hblank
    by_cases ht : t.gap = ""
    · exact ⟨t :: g, rest, ws, rfl, List.forall_mem_cons.2 ⟨ht, hg⟩, hgap, hstretches, hwords⟩
    -- the token begins a word, which goes on up to the next gap
    have hends := endsWord_spaced hgap fun u hu => hblank.2 u (List.mem_append_right g hu)
    have hglued := spaced_glued hg fun u hu => hsolid.2 u (List.mem_append_left rest hu)
    have hword : IsWord (t.text ++ spaced g).toList := by
      rw [String.toList_append]
      refine ⟨List.append_ne_nil_of_left_ne_nil hstands.ne_nil _, fun c hc => ?_⟩
      exact (List.mem_append.1 hc).elim (hsolid.1 c) (hglued c)
    have hsplit : words (spaced (t :: g ++ rest)).toList
        = ((t.text ++ spaced g) :: ws).map String.toList := by
      have htext : (spaced (t :: g ++ rest)).toList
          = t.gap.toList ++ ((t.text ++ spaced g).toList ++ (spaced rest).toList) := by
        simp [spaced]
      rw [htext, words_blanks_append hblank.1, words_append hword hends, hwords, List.map_cons]
    refine ⟨[], t :: g ++ rest, _, rfl, by simp, by simpa using ht, ?_, hsplit⟩
    by_cases hmem : t.text ∈ dropped
    · have hnil : g = [] := by
        cases g with
        | nil => rfl
        | cons u g => exact absurd (hg u List.mem_cons_self) (hapart.of_dropped hmem u rfl)
      subst hnil
      simpa [spaced] using Stretches.dropped hmem hstretches
    · have hmore : ((spaced rest).toList ++ y).head?.any isWordPart = false :=
        hrest.right.not_isWordPart hgap hy
      have hno : ∀ u ∈ g, u.text ∉ dropped := fun u hu =>
        hapart.not_mem u (List.mem_append_left rest hu) (hg u hu)
      rw [spaced_append, String.toList_append, List.append_assoc] at hstands
      have := hstands.not_mem_dropped hk.1 hd hmem hmore
      rw [String.ofList_toList] at this
      exact .kept ht hg (List.forall_mem_cons.2 ⟨hmem, hno⟩) this hstretches

/-! ### Tokens without some words -/

/-- Tokens without some words, with one blank where there was a gap. -/
def rejoined (dropped : List String) : List Token → List Token
  | [] => []
  | t :: ts =>
    if t.text ∈ dropped then rejoined dropped ts
    else { t with gap := if t.gap = "" then "" else " " } :: rejoined dropped ts

/-- A dropped word leaves nothing. -/
theorem rejoined_of_mem (ht : t.text ∈ dropped) (ts : List Token) :
    rejoined dropped (t :: ts) = rejoined dropped ts :=
  if_pos ht

/-- All other tokens stay, with one blank before them where there was a gap. -/
theorem rejoined_of_not_mem (ht : t.text ∉ dropped) (ts : List Token) :
    rejoined dropped (t :: ts)
      = { t with gap := if t.gap = "" then "" else " " } :: rejoined dropped ts :=
  if_neg ht

/-- The spellings of the tokens that are left. -/
def spellingsWithout (dropped : List String) (ts : List Token) : List (TokenKind × String) :=
  (ts.map spelling).filter fun s => s.2 ∉ dropped

/-- What is left is spelled as the tokens without the dropped words. -/
theorem spelling_rejoined (dropped : List String) (ts : List Token) :
    (rejoined dropped ts).map spelling = spellingsWithout dropped ts := by
  unfold spellingsWithout
  induction ts with
  | nil => rfl
  | cons t ts ih =>
    rw [List.map_cons]
    by_cases ht : t.text ∈ dropped
    · rw [rejoined_of_mem ht, ih, List.filter_cons_of_neg (by simp [spelling, ht])]
    · rw [rejoined_of_not_mem ht, List.filter_cons_of_pos (by simp [spelling, ht]),
        List.map_cons, ih]
      rfl

theorem spellingsWithout_regapped (dropped : List String) (g : String) (ts : List Token) :
    spellingsWithout dropped (regapped g ts) = spellingsWithout dropped ts := by
  cases ts <;> rfl

namespace Stretches

variable {ws : List String}

/-- A dropped word is a word of the text just if it is a token. -/
theorem mem_iff (h : Stretches dropped ts ws) {w : String} (hw : w ∈ dropped) :
    w ∈ ws ↔ w ∈ texts ts := by
  induction h with
  | nil => exact Iff.rfl
  | dropped ht _ ih => rw [texts, List.map_cons, List.mem_cons, List.mem_cons, ih]
  | @kept t g ts ws _ _ hno hword _ ih =>
    have hne : w ≠ t.text ++ spaced g := fun heq => hword (heq ▸ hw)
    have hnone : w ∉ texts (t :: g) := by
      intro hmem
      obtain ⟨u, hu, rfl⟩ := List.mem_map.1 hmem
      exact hno u hu hw
    rw [List.mem_cons, texts, List.map_append, List.mem_append, ih]
    exact ⟨fun h => .inr (h.resolve_left hne), fun h => .inr (h.resolve_left hnone)⟩

/-- Tokens that touch each other are written as they stood. -/
theorem spaced_rejoined_glued {g : List Token} (hg : ∀ u ∈ g, u.gap = "")
    (hno : ∀ u ∈ g, u.text ∉ dropped) (ts : List Token) :
    spaced (rejoined dropped (g ++ ts)) = spaced g ++ spaced (rejoined dropped ts) := by
  induction g with
  | nil => simp [spaced]
  | cons u g ih =>
    obtain ⟨hu, hg⟩ := List.forall_mem_cons.1 hg
    obtain ⟨hnou, hno⟩ := List.forall_mem_cons.1 hno
    rw [List.cons_append, rejoined_of_not_mem hnou, spaced, spaced, ih hg hno, hu]
    simp [String.append_assoc]

/-- The words that are not dropped, behind one blank each, are written as the tokens that are not
dropped. -/
theorem spaced_rejoined (h : Stretches dropped ts ws) :
    (spaced (rejoined dropped ts)).toList
      = (ws.filter fun w => w ∉ dropped).flatMap fun w => ' ' :: w.toList := by
  induction h with
  | nil => rfl
  | dropped ht _ ih => rw [rejoined_of_mem ht, ih, List.filter_cons_of_neg (by simpa using ht)]
  | @kept t g ts ws hgap hg hno hword _ ih =>
    obtain ⟨hnot, hnog⟩ := List.forall_mem_cons.1 hno
    rw [List.cons_append, rejoined_of_not_mem hnot, spaced, spaced_rejoined_glued hg hnog,
      if_neg hgap, List.filter_cons_of_pos (by simpa using hword), List.flatMap_cons, ← ih]
    simp

end Stretches

/-! ### Reading them back -/

variable {last : Token} {tail : List Token}

/-- Behind a gap, what is left of some tokens goes on with a blank or with their parenthesis. -/
theorem exists_breaker (hlast : last.text = ")") (hno : ")" ∉ dropped)
    (hapart : Apart dropped (ts ++ [last])) (hgap : ∀ u ∈ (ts ++ [last]).head?, u.gap ≠ "") :
    ∃ w, (spaced (rejoined dropped (ts ++ [last]))).toList = ' ' :: w := by
  induction ts with
  | nil =>
    have hgap := hgap last rfl
    rw [List.nil_append, rejoined_of_not_mem (hlast ▸ hno), if_neg hgap]
    exact ⟨last.text.toList, by simp [spaced, rejoined]⟩
  | cons t ts ih =>
    by_cases ht : t.text ∈ dropped
    · rw [List.cons_append, rejoined_of_mem ht]
      exact ih hapart.tail (hapart.of_dropped ht)
    · rw [List.cons_append, rejoined_of_not_mem ht, if_neg (hgap t rfl)]
      exact ⟨t.text.toList ++ (spaced (rejoined dropped (ts ++ [last]))).toList, by simp [spaced]⟩

/-- What is left of some tokens reads as they did up to a blank or up to their last parenthesis. -/
theorem exists_agreement (hlast : last.text = ")") (hno : ")" ∉ dropped)
    (hapart : Apart dropped (t :: (ts ++ [last]))) (y z : List Char) :
    ∃ x y' d w, (spaced (ts ++ [last])).toList ++ y = x ++ y' ∧
      (spaced (rejoined dropped (ts ++ [last]))).toList ++ z = x ++ d :: w ∧
      (d = ' ' ∨ d = ')') := by
  induction ts generalizing t with
  | nil =>
    have hkept := rejoined_of_not_mem (hlast ▸ hno : last.text ∉ dropped) []
    rw [List.nil_append, hkept]
    by_cases hgap : last.gap = ""
    · exact ⟨[], _, ')', z, rfl, by simp [hgap, spaced, rejoined, hlast], .inr rfl⟩
    · exact ⟨[], _, ' ', ')' :: z, rfl, by simp [hgap, spaced, rejoined, hlast], .inl rfl⟩
  | cons u ts ih =>
    by_cases hgap : u.gap = ""
    · -- written right behind the token before it, so it was not dropped
      have hu := hapart.not_mem u List.mem_cons_self hgap
      obtain ⟨x, y', d, w, hold, hnew, hd⟩ := ih hapart.tail
      refine ⟨u.text.toList ++ x, y', d, w, ?_, ?_, hd⟩
      · rw [List.append_assoc, ← hold]
        simp [spaced, hgap]
      · rw [List.append_assoc, ← hnew, List.cons_append, rejoined_of_not_mem hu]
        simp [spaced, hgap]
    · -- a gap stood here: at its place there is a blank, whatever was dropped
      obtain ⟨w, hw⟩ := exists_breaker hlast hno hapart.tail fun v hv => by
        obtain rfl := Option.some.inj hv
        exact hgap
      exact ⟨[], _, ' ', w ++ z, rfl, by rw [hw]; rfl, .inl rfl⟩

/-- **What is left of some tokens is read back**, behind something on the same line and before
anything that is read there. -/
theorem lexed_rejoined (h : Stood (ts ++ [last]) y) (hfresh : place'.fresh = false)
    (hs : WellSpaced dropped (ts ++ [last])) (hlast : last.text = ")") (hno : ")" ∉ dropped)
    (htail : ∀ place, Lexed place (located place tail) []) :
    Lexed place' (located place' (rejoined dropped (ts ++ [last]) ++ tail)) [] := by
  have hgap (t : Token) : Gap (if t.gap = "" then "" else " ").toList := by
    by_cases hgap : t.gap = ""
    · rw [if_pos hgap]; exact .nil
    · rw [if_neg hgap]; exact .blank rfl .nil
  have hline (place' : Cursor) (hfresh : place'.fresh = false) (t : Token) :
      (place'.skip (if t.gap = "" then "" else " ").toList).fresh = false := by
    by_cases hgap : t.gap = "" <;> simp [Cursor.skip, hgap, hfresh]
  induction ts generalizing place' with
  | nil =>
    obtain ⟨-, ⟨fresh, hstands⟩, -⟩ := h
    have hkind := hstands.kind_single (.inr (.inl hlast))
    rw [List.nil_append, rejoined_of_not_mem (hlast ▸ hno), rejoined, List.singleton_append]
    exact ⟨hgap last, rfl, rfl, stands_single hkind (.inr (.inl hlast)), htail _⟩
  | cons t ts ih =>
    rw [List.cons_append] at h
    obtain ⟨-, ⟨fresh, hstands⟩, hrest⟩ := h
    have hk := hs.undirected t List.mem_cons_self
    -- a dropped token leaves nothing: what is behind it is read from the same place
    by_cases ht : t.text ∈ dropped
    · rw [List.cons_append, rejoined_of_mem ht]
      exact ih hrest hfresh hs.tail
    rw [List.cons_append, rejoined_of_not_mem ht, List.cons_append]
    refine ⟨hgap t, rfl, rfl, ?_, ih hrest ?_ hs.tail⟩
    · -- up to the next blank or the parenthesis that ends it all, nothing changes
      obtain ⟨x, y', d, w, hold, hnew, hd⟩ :=
        exists_agreement hlast hno hs.apart y (spaced tail).toList
      rw [List.append_nil, spaced_located, spaced_append, String.toList_append, hnew]
      rw [hold] at hstands
      have hbreaks : isBreaker d = true := by rcases hd with rfl | rfl <;> rfl
      exact hstands.goOn hk (fun _ => hline place' hfresh t) (neutral_of_isBreaker hbreaks)
        (fun _ => joins_eq_false (isWordPart_of_isBreaker d hbreaks))
        fun _ hd' => absurd hd' (by rcases hd with rfl | rfl <;> decide)
    · have hnewline : '\n' ∉ t.text.toList := fun hmem =>
        absurd (hs.solid t List.mem_cons_self _ hmem) (by decide)
      simpa [Cursor.past, Cursor.pass] using fun _ => hnewline

/-! ### A header behind other words -/

/-- A word that stands in front of tokens. -/
def wordToken (gap word : String) : Token :=
  ⟨.word, gap, word, 0, 0⟩

/-- A word that a blank follows is read as a token. -/
theorem lexed_wordToken (place : Cursor) {g w : String} (hw : w ∈ linkageWords) (hg : Gap g.toList)
    (hblank : ∃ cs, (spaced ts).toList = ' ' :: cs)
    (h : ∀ place : Cursor, place.fresh = false → Lexed place (located place ts) []) :
    Lexed place (located place (wordToken g w :: ts)) [] := by
  obtain ⟨c, word, htext, hc, hmark, hword⟩ := linkageWords_letters hw
  have hafter : (spaced ts).toList.head?.any isWordPart = false := by
    obtain ⟨cs, hcs⟩ := hblank
    rw [hcs]
    exact isWordPart_of_isSpacing (c := ' ') rfl
  -- the word begins with a letter, so neither a comment nor a directive begins there
  have hnot {d : Char} (hd : isWordPart d = false) : c ≠ d := by
    rintro rfl
    rw [hword c List.mem_cons_self] at hd
    cases hd
  refine ⟨hg, rfl, rfl, ?_, h _ ?_⟩
  · rw [List.append_nil, spaced_located]
    have hlexes : Lexes .word (c :: word) (spaced ts).toList :=
      .word rfl rfl hc (List.forall_mem_cons.1 hword).2 hafter (by rw [hmark]; rfl)
    refine ⟨?_, c, word, htext, lexeme_of_lexes hlexes fun hsign => ?_⟩
    · show gapUnit? (w.toList ++ _) = none
      rw [htext]
      refine gapUnit?_eq_none (eq_false_of_ne_true fun hs => ?_)
        (fun h => hnot (by decide) h.1) (fun h => hnot (by decide) h.1)
        fun h => hnot (by decide) h.1
      exact hnot (isWordPart_of_isSpacing hs) rfl
    · exact hnot (by decide) hsign.1
  · have hnewline : '\n' ∉ w.toList := by
      rw [htext]
      intro hmem
      exact absurd (hword '\n' hmem) (by decide)
    simpa [Cursor.past, Cursor.pass, wordToken] using hnewline

section Header

variable {header : List Token} {closing : Token}

/-- A blank may take the place of the first gap. -/
theorem Stood.regapped (h : Stood ts y) : Stood (regapped " " ts) y := by
  cases ts with
  | nil => exact h
  | cons t ts =>
    have hblank : Gap " ".toList := .blank rfl .nil
    exact ⟨hblank, h.2⟩

/-- Then the tokens are written behind it. -/
theorem spaced_regapped (g : String) (hne : ts ≠ []) :
    spaced (regapped g ts) = g ++ verbatim ts := by
  obtain ⟨t, ts, rfl⟩ := List.exists_cons_of_ne_nil hne
  exact String.append_assoc

/-- The words of a header are stretches of its tokens. -/
theorem WellSpaced.stretches (h : WellSpaced dropped (Token.regapped " " ts))
    (hd : dropped ⊆ linkageWords) (hstood : Stood ts y) (hy : y.head?.any isWordPart = false) :
    ∃ ws, Stretches dropped (Token.regapped " " ts) ws ∧
      words (verbatim ts).toList = ws.map String.toList := by
  obtain ⟨g, rest, ws, heq, hg, -, hstretches, hwords⟩ := exists_stretches hd hstood.regapped h hy
  cases ts with
  | nil =>
    obtain ⟨rfl, rfl⟩ := List.append_eq_nil_iff.1 heq.symm
    exact ⟨ws, hstretches, hwords⟩
  | cons t ts =>
    -- a blank stands in front, so the first word begins with the first token
    have hnil : g = [] := by
      cases g with
      | nil => rfl
      | cons u g =>
        have hu := hg u List.mem_cons_self
        rw [← (List.cons.inj heq).1] at hu
        exact absurd (show " " = "" from hu) (by decide)
    subst hnil
    rw [List.nil_append] at heq
    rw [← heq] at hstretches hwords
    refine ⟨ws, hstretches, ?_⟩
    rw [spaced_regapped " " (List.cons_ne_nil t ts)] at hwords
    rw [← hwords, String.toList_append]
    exact (words_of_blank (by decide) _).symm

/-- What is left of a header behind a blank begins with that, and is read back behind a word. -/
theorem WellSpaced.exists_rejoined (h : WellSpaced dropped (Token.regapped " " header))
    (hno : ")" ∉ dropped) (hstood : Stood header y) (hclosing : header.getLast? = some closing)
    (hparen : closing.text = ")") :
    (∃ w, (spaced (rejoined dropped (Token.regapped " " header))).toList = ' ' :: w) ∧
      ∀ tail, (∀ place, Lexed place (located place tail) []) →
        ∀ place : Cursor, place.fresh = false → Lexed place
          (located place (rejoined dropped (Token.regapped " " header) ++ tail)) [] := by
  obtain ⟨init, rfl⟩ := List.getLast?_eq_some_iff.1 hclosing
  obtain ⟨init', last, heq, hlast, hgap⟩ : ∃ init' last,
      Token.regapped " " (init ++ [closing]) = init' ++ [last] ∧ last.text = ")" ∧
        ∀ u ∈ (init' ++ [last]).head?, u.gap ≠ "" := by
    cases init with
    | nil => exact ⟨[], { closing with gap := " " }, rfl, hparen, by simp⟩
    | cons t init => exact ⟨{ t with gap := " " } :: init, closing, rfl, hparen, by simp⟩
  have hstood := hstood.regapped
  rw [heq] at h hstood ⊢
  exact ⟨exists_breaker hlast hno h.apart hgap, fun tail htail place hfresh =>
    lexed_rejoined hstood hfresh h hlast hno htail⟩

/-- Tokens that can be placed are what their text is cut into. -/
theorem tokenize_spaced (h : Lexed .start (located .start ts) []) :
    tokenize (spaced ts) = .ok (located .start ts) := by
  have hnil : (splitGap []).2 = [] := by rw [splitGap_of_none rfl]
  have := tokenizeFrom_of_lexed h hnil
  rwa [List.append_nil, spaced_located] at this

end Header

end WitnessReplay
