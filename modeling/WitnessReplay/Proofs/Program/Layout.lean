import WitnessReplay.Proofs.Program.Spelling

/-!
# Laying out text

A printed text is laid out from left to right. What is printed at a place are tokens, copied from
the source with a gap in front, and behind the last of them there may be blanks that become part of
the next gap: an assignment without a value ends in one. `Laid` says that some tokens are read back
from a text at a place, up to such a `trail`, and `Laid.append` puts two such pieces together. What
has to be shown for this is that the second begins with a breaker.
-/

namespace WitnessReplay

open Token

/-! ### Pieces of text -/

/-- A text goes on with a breaker on the same line. -/
def BreaksInLine (cs : List Char) : Prop :=
  Breaks cs ∧ cs.head? ≠ some '\n'

/-- Whatever a text goes on with, it begins in a certain way. -/
def Leads (P : List Char → Prop) (text : String) : Prop :=
  ∀ z, P (text.toList ++ z)

/-- The text at a place is that of some tokens and a trail of blanks; the tokens are read back there
if the trail and what is behind it satisfy `P`. -/
structure Laid (P : List Char → Prop) (place : Cursor) (vs : List Token) (text trail : String) :
    Prop where
  text_eq : text = spaced vs ++ trail
  lexed : ∀ z, P (trail.toList ++ z) → Lexed place vs (trail.toList ++ z)

namespace Laid

variable {P Q : List Char → Prop} {place : Cursor} {vs us : List Token} {text trail trail' : String}

theorem of_eq {text' : String} (h : Laid P place vs text trail) (ht : text = text') :
    Laid P place vs text' trail := ht ▸ h

/-- A text that is laid out before some texts is so before fewer of them. -/
theorem mono (h : Laid P place vs text trail) (hPQ : ∀ z, Q z → P z) : Laid Q place vs text trail :=
  ⟨h.text_eq, fun z hz => h.lexed z (hPQ _ hz)⟩

/-- Nothing is laid out, and all of the text is left. -/
theorem nil : Laid P place [] trail trail :=
  ⟨by simp [spaced], fun _ _ => trivial⟩

/-- Two pieces are laid out one behind the other. The trail of the first begins the second. -/
theorem append {text' : String} (h : Laid P place vs text trail)
    (h' : Laid Q (place.behind vs) us (trail ++ text') trail')
    (hlead : vs ≠ [] → Leads P (trail ++ text')) :
      Laid Q place (vs ++ us) (text ++ text') trail' := by
  refine ⟨?_, fun z hz => lexed_append.2 ⟨?_, h'.lexed z hz⟩⟩
  · rw [h.text_eq, spaced_append, String.append_assoc, String.append_assoc, h'.text_eq]
  · cases vs with
    | nil => trivial
    | cons v vs =>
      have hspaced : (spaced us).toList ++ (trail'.toList ++ z)
        = trail.toList ++ (text'.toList ++ z) := by
        rw [← List.append_assoc, ← String.toList_append, ← h'.text_eq, String.toList_append,
          List.append_assoc]
      rw [hspaced]
      refine h.lexed _ ?_
      have := hlead (by simp) z
      rwa [String.toList_append, List.append_assoc] at this

end Laid

/-- A text begins with a breaker that is no line end. -/
def Opens (text : String) : Prop :=
  ∃ c cs, text.toList = c :: cs ∧ isBreaker c = true ∧ c ≠ '\n'

/-- Whether a text opens is decided by its front. -/
theorem Opens.append {text : String} (h : Opens text) (more : String) : Opens (text ++ more) := by
  obtain ⟨c, cs, htext, hc, hn⟩ := h
  exact ⟨c, cs ++ more.toList, by simp [htext], hc, hn⟩

/-- A text that opens breaks what stands before it. -/
theorem Opens.leads {text : String} (h : Opens text) : Leads BreaksInLine text := by
  intro z
  obtain ⟨c, cs, htext, hc, hn⟩ := h
  rw [htext]
  exact ⟨⟨c, cs ++ z, rfl, hc⟩, by simpa using hn⟩

theorem opens_blank : Opens " " := ⟨' ', [], rfl, rfl, by decide⟩

theorem opens_opening : Opens "(" := ⟨'(', [], rfl, rfl, by decide⟩

theorem opens_closing : Opens ")" := ⟨')', [], rfl, rfl, by decide⟩

theorem opens_comma : Opens "," := ⟨',', [], rfl, rfl, by decide⟩

theorem opens_semicolon : Opens ";" := ⟨';', [], rfl, rfl, by decide⟩

/-! ### Copies -/

/-- A stretch of the tokens of a program whose brackets nest. -/
structure Excerpt (ts : List Token) : Prop extends Copyable ts where
  nested : NestedWithin ts

namespace Excerpt

variable {ts us : List Token}

theorem left (h : Excerpt (ts ++ us)) : Excerpt ts :=
  ⟨h.toCopyable.left, h.nested.left⟩

theorem right (h : Excerpt (ts ++ us)) : Excerpt us :=
  ⟨h.toCopyable.right, h.nested.right⟩

theorem tail {t : Token} (h : Excerpt (t :: ts)) : Excerpt ts :=
  right (show Excerpt ([t] ++ ts) from h)

theorem head {t : Token} (h : Excerpt (t :: ts)) : Excerpt [t] :=
  left (show Excerpt ([t] ++ ts) from h)

theorem init {t u : Token} (h : Excerpt (t :: ts ++ [u])) : Excerpt (t :: ts) :=
  h.left

theorem last {t u : Token} (h : Excerpt (t :: ts ++ [u])) : Excerpt [u] :=
  h.right

end Excerpt

/-- Tokens of a program that stand on one line wherever they are printed: there is no directive
among them. -/
structure Inline (ts : List Token) : Prop extends Excerpt ts where
  undirected : ∀ t ∈ ts, t.kind ≠ .directive

namespace Inline

variable {ts us : List Token}

theorem left (h : Inline (ts ++ us)) : Inline ts :=
  ⟨h.toExcerpt.left, fun t ht => h.undirected t (List.mem_append_left _ ht)⟩

theorem right (h : Inline (ts ++ us)) : Inline us :=
  ⟨h.toExcerpt.right, fun t ht => h.undirected t (List.mem_append_right _ ht)⟩

theorem tail {t : Token} (h : Inline (t :: ts)) : Inline ts :=
  right (show Inline ([t] ++ ts) from h)

theorem head {t : Token} (h : Inline (t :: ts)) : Inline [t] :=
  left (show Inline ([t] ++ ts) from h)

theorem last {t : Token} (h : Inline (ts ++ [t])) : Inline [t] :=
  h.right

end Inline

/-- The last token of a list keeps its kind and its text when the gap before the first is changed.
-/
theorem mem_regapped {g : String} {ts : List Token} {t : Token} (h : t ∈ (regapped g ts).getLast?) :
    ∃ u ∈ ts.getLast?, t.kind = u.kind ∧ t.text = u.text := by
  cases ts with
  | nil => cases h
  | cons u ts =>
    cases ts with
    | nil => cases h; exact ⟨u, rfl, rfl, rfl⟩
    | cons v ts =>
      rw [regapped, List.getLast?_cons_cons] at h
      exact ⟨t, by rwa [List.getLast?_cons_cons], rfl, rfl⟩

/-- Tokens that neither begin nor end with a directive are copied to any place. -/
theorem Token.Copyable.laid {ts : List Token} {place : Cursor} {g : String} (h : Copyable ts)
    (hne : ts ≠ []) (hg : Gap g.toList) (hfirst : headKind? ts ≠ some .directive)
    (hlast : ∀ t ∈ ts.getLast?, t.kind ≠ .directive ∧ t.text ≠ "\\") :
    Laid Breaks place (Token.laid place g ts) (g ++ verbatim ts) "" := by
  refine ⟨by rw [spaced_laid place g hne, String.append_empty], fun z hz => ?_⟩
  refine h.lexed_laid hg hz ⟨fun t ht hk => ?_, fun t ht => ?_⟩
  · cases ts with
    | nil => cases ht
    | cons u ts => cases ht; exact absurd (congrArg some hk) hfirst
  · obtain ⟨u, hu, hk, htext⟩ := mem_regapped ht
    obtain ⟨hk', htext'⟩ := hlast u hu
    exact ⟨hk ▸ hk', fun _ => htext ▸ htext'⟩

/-- Tokens that neither begin nor end with a directive. -/
structure Token.Framed (ts : List Token) : Prop where
  first : headKind? ts ≠ some .directive
  last : ∀ t ∈ ts.getLast?, t.kind ≠ .directive

/-- Tokens without directives are framed. -/
theorem Token.framed_of_undirected {ts : List Token} (h : ∀ t ∈ ts, t.kind ≠ .directive) :
    Framed ts := by
  refine ⟨fun hk => ?_, fun t ht => h t (List.mem_of_getLast? ht)⟩
  cases ts with
  | nil => cases hk
  | cons t ts => exact h t List.mem_cons_self (Option.some.inj hk)

/-- Tokens that neither begin nor end with a directive are read back at any place, if the line goes
on. -/
theorem Token.Copyable.lexed_framed {ts : List Token} {place : Cursor} {g : String} {z : List Char}
    (h : Copyable ts) (hf : Framed ts) (hg : Gap g.toList) (hz : BreaksInLine z) :
    Lexed place (Token.laid place g ts) z := by
  refine h.lexed_laid hg hz.1 ⟨fun t ht hk => ?_, fun t ht => ?_⟩
  · cases ts with
    | nil => cases ht
    | cons u ts => cases ht; exact absurd (congrArg some hk) hf.first
  · obtain ⟨u, hu, hk, -⟩ := mem_regapped ht
    exact ⟨hk ▸ hf.last u hu, fun hn => absurd hn hz.2⟩

/-! ### Phrases -/

/-- A text of blanks. -/
def Blank (text : String) : Prop :=
  ∀ c ∈ text.toList, c = ' '

theorem blank_empty : Blank "" := by simp [Blank]

theorem blank_one : Blank " " := by simp [Blank]

/-- Two blank texts are blank together. -/
theorem Blank.append {b b' : String} (h : Blank b) (h' : Blank b') : Blank (b ++ b') := by
  intro c hc
  rw [String.toList_append] at hc
  exact (List.mem_append.1 hc).elim (h c) (h' c)

theorem Blank.gap {b : String} (h : Blank b) : Gap b.toList := by
  unfold Blank at h
  generalize b.toList = cs at h
  induction cs with
  | nil => exact .nil
  | cons c cs ih =>
    obtain rfl := h c (by simp)
    exact .blank rfl (ih fun d hd => h d (List.mem_cons_of_mem _ hd))

/-- Behind blanks, what opens with a breaker still does. -/
theorem Blank.opens {b text : String} (h : Blank b) (ht : Opens text) : Opens (b ++ text) := by
  unfold Opens
  rw [String.toList_append]
  cases hb : b.toList with
  | nil => exact ht
  | cons c cs =>
    obtain rfl := h c (by rw [hb]; simp)
    exact ⟨' ', _, rfl, rfl, by decide⟩

/-- What is left behind some tokens in a line are blanks, and if there are no tokens also the gap
that was to stand before them. -/
structure Spare (vs : List Token) (g trail : String) : Prop where
  of_nil : vs = [] → ∃ b, Blank b ∧ trail = g ++ b
  of_ne_nil : vs ≠ [] → Blank trail

/-- What is left of a gap is a gap. -/
theorem Spare.gap {vs : List Token} {g trail : String} (h : Spare vs g trail) (hg : Gap g.toList) :
    Gap trail.toList := by
  by_cases hvs : vs = []
  · obtain ⟨b, hb, rfl⟩ := h.of_nil hvs
    rw [String.toList_append]
    exact hg.append hb.gap
  · exact (h.of_ne_nil hvs).gap

/-- A text in a line is printed: behind any gap at any place, tokens of which `Q` holds are read
back from it, if what is behind it satisfies `P`. -/
def Prints (P : List Char → Prop) (Q : List Token → Prop) (text : String) : Prop :=
  ∀ (place : Cursor) (g : String), Gap g.toList → ∃ vs trail, Q vs ∧
    Laid P place vs (g ++ text) trail ∧ Spare vs g trail

/-- Tokens put together from two lists. -/
def Both (Q Q' : List Token → Prop) (vs : List Token) : Prop :=
  ∃ us ws, vs = us ++ ws ∧ Q us ∧ Q' ws

/-- If the second part is not empty, neither is the whole. -/
theorem Both.ne_nil_right {Q Q' : List Token → Prop} {vs : List Token} (h : Both Q Q' vs)
    (hne : ∀ ws, Q' ws → ws ≠ []) : vs ≠ [] := by
  obtain ⟨us, ws, rfl, -, hq⟩ := h
  simp [hne ws hq]

/-- A list of one token that is spelled like another. -/
def Is (t : Token) (vs : List Token) : Prop :=
  ∃ v, vs = [v] ∧ v.kind = t.kind ∧ v.text = t.text

namespace Prints

variable {P P' : List Char → Prop} {Q Q' : List Token → Prop} {text text' : String}

theorem of_eq (h : Prints P Q text) (ht : text = text') : Prints P Q text' := ht ▸ h

/-- A text that prints tokens with a property prints tokens with any property that follows from it.
-/
theorem imp (h : Prints P Q text) (hQ : ∀ vs, Q vs → Q' vs) : Prints P Q' text := by
  intro place g hg
  obtain ⟨vs, trail, hq, hl, hs⟩ := h place g hg
  exact ⟨vs, trail, hQ vs hq, hl, hs⟩

/-- A text that is printed before some texts is printed before fewer of them. -/
theorem mono (h : Prints P Q text) (hP : ∀ z, P' z → P z) : Prints P' Q text := by
  intro place g hg
  obtain ⟨vs, trail, hq, hl, hs⟩ := h place g hg
  exact ⟨vs, trail, hq, hl.mono hP, hs⟩

/-- A printed text with blanks and another one behind it. -/
theorem seq {b : String} (h : Prints P Q text) (hb : Blank b) (h' : Prints P' Q' text')
    (hlead : ∀ {trail}, Blank trail → Leads P (trail ++ (b ++ text'))) :
    Prints P' (Both Q Q') (text ++ (b ++ text')) := by
  intro place g hg
  obtain ⟨vs, trail, hq, hl, hs⟩ := h place g hg
  have hgap : Gap (trail ++ b).toList := by
    rw [String.toList_append]
    exact (hs.gap hg).append hb.gap
  obtain ⟨us, trail', hq', hl', hs'⟩ := h' (place.behind vs) (trail ++ b) hgap
  rw [String.append_assoc] at hl'
  refine ⟨vs ++ us, trail', ⟨vs, us, rfl, hq, hq'⟩, ?_, fun hnil => ?_, fun hne => ?_⟩
  · rw [← String.append_assoc]
    exact hl.append hl' fun hvs => hlead (hs.of_ne_nil hvs)
  · obtain ⟨hvs, hus⟩ := List.append_eq_nil_iff.1 hnil
    obtain ⟨b₁, hb₁, rfl⟩ := hs.of_nil hvs
    obtain ⟨b₂, hb₂, rfl⟩ := hs'.of_nil hus
    exact ⟨b₁ ++ b ++ b₂, (hb₁.append hb).append hb₂, by simp [String.append_assoc]⟩
  · by_cases hus : us = []
    · obtain ⟨b₂, hb₂, rfl⟩ := hs'.of_nil hus
      have hvs : vs ≠ [] := by simpa [hus] using hne
      exact ((hs.of_ne_nil hvs).append hb).append hb₂
    · exact hs'.of_ne_nil hus

/-- A printed text with another one behind it that opens with a breaker. -/
theorem seq_opens {b : String} (h : Prints BreaksInLine Q text) (hb : Blank b)
    (h' : Prints P' Q' text') (ho : Opens (b ++ text')) :
    Prints P' (Both Q Q') (text ++ (b ++ text')) :=
  h.seq hb h' fun htrail => (htrail.opens ho).leads

end Prints

/-- Tokens that neither begin nor end with a directive are kept as they are, if the line goes on. -/
theorem Token.Copyable.prints_framed {ts : List Token} (h : Copyable ts) (hf : Framed ts) :
    Prints BreaksInLine (fun vs => Alike vs ts ∧ verbatim vs = verbatim ts) (verbatim ts) := by
  intro place g hg
  by_cases hne : ts = []
  · subst hne
    exact ⟨[], g, ⟨.refl _, rfl⟩, Laid.nil.of_eq (by simp [verbatim]),
      fun _ => ⟨"", blank_empty, by simp⟩, fun h => absurd rfl h⟩
  · have ha := alike_laid place g ts
    exact ⟨Token.laid place g ts, "", ⟨ha, verbatim_laid ..⟩,
      ⟨by rw [spaced_laid place g hne, String.append_empty], fun _ hz => h.lexed_framed hf hg hz⟩,
      fun hnil => absurd hnil (ha.ne_nil hne), fun _ => blank_empty⟩

/-- Tokens that are kept as they are. -/
theorem Inline.prints {ts : List Token} (h : Inline ts) :
    Prints BreaksInLine (fun vs => Alike vs ts ∧ verbatim vs = verbatim ts) (verbatim ts) :=
  h.toCopyable.prints_framed (framed_of_undirected h.undirected)

/-- Tokens that neither begin nor end with a directive are kept as they are, whatever breaker is
behind them. -/
theorem Token.Copyable.prints {ts : List Token} (h : Copyable ts) (hne : ts ≠ [])
    (hfirst : headKind? ts ≠ some .directive)
    (hlast : ∀ t ∈ ts.getLast?, t.kind ≠ .directive ∧ t.text ≠ "\\") :
    Prints Breaks (fun vs => Alike vs ts ∧ verbatim vs = verbatim ts) (verbatim ts) := by
  intro place g hg
  have ha := alike_laid place g ts
  exact ⟨Token.laid place g ts, "", ⟨ha, verbatim_laid ..⟩, h.laid hne hg hfirst hlast,
    fun hnil => absurd hnil (ha.ne_nil hne), fun _ => blank_empty⟩

theorem Token.Copyable.prints_one {t : Token} (h : Copyable [t]) (hk : t.kind ≠ .directive)
    (ht : t.text ≠ "\\") : Prints Breaks (Is t) t.text := by
  have := h.prints (by simp) (fun h => hk (Option.some.inj h))
    (fun u hu => by cases hu; exact ⟨hk, ht⟩)
  exact (this.imp fun vs hvs => hvs.1.exists_singleton).of_eq (by simp [verbatim, spaced])

/-- A single token prints its text. -/
theorem Inline.prints_one {t : Token} (h : Inline [t]) (ht : t.text ≠ "\\") :
    Prints Breaks (Is t) t.text :=
  h.toCopyable.prints_one (h.undirected t (by simp)) ht

/-- A single token in a line that goes on. -/
theorem Token.Copyable.prints_word {t : Token} (h : Copyable [t]) (hk : t.kind ≠ .directive) :
    Prints BreaksInLine (Is t) t.text :=
  ((h.prints_framed (framed_of_undirected (by simpa using hk))).imp
    fun _ hvs => hvs.1.exists_singleton).of_eq (by simp [verbatim, spaced])

/-- A single token that stands on one line prints its text before more texts. -/
theorem Inline.prints_word {t : Token} (h : Inline [t]) : Prints BreaksInLine (Is t) t.text :=
  h.toCopyable.prints_word (h.undirected t (by simp))

/-- A parenthesis and a semicolon are read back whatever is behind them, and no token of the source
has to stand for them. -/
theorem prints_single {t : Token} (hk : t.kind = .punctuation)
    (ht : t.text = "(" ∨ t.text = ")" ∨ t.text = ";") :
    Prints (fun _ => True) (Is t) t.text := by
  intro place g hg
  obtain ⟨v, hv, hkind, htext⟩ := (alike_laid place g [t]).exists_singleton
  refine ⟨Token.laid place g [t], "", ⟨v, hv, hkind, htext⟩, ⟨?_, fun z _ => ?_⟩,
    fun hnil => absurd hnil (by rw [hv]; simp), fun _ => blank_empty⟩
  · rw [spaced_laid place g (by simp), String.append_empty]
    simp [verbatim, spaced]
  · exact ⟨hg, rfl, rfl, stands_single hk ht, trivial⟩

/-- An opening parenthesis of the source, whatever is behind it. -/
theorem Inline.prints_opening {t : Token} (h : Inline [t]) (ht : t.text = "(") :
    Prints (fun _ => True) (Is t) "(" := by
  have hk : t.kind = .punctuation := by
    obtain ⟨_, _, -, -, -, hstands, -⟩ := h.stood
    exact hstands.kind_single (.inl ht)
  exact (prints_single hk (.inl ht)).of_eq ht

/-- A semicolon that no token of the source stands for. -/
theorem prints_semicolon : Prints Breaks (Is ⟨.punctuation, "", ";", 0, 0⟩) ";" :=
  (prints_single rfl (.inr (.inr rfl))).mono fun _ _ => trivial

end WitnessReplay
