import Mathlib.Data.List.Find
import WitnessReplay.Proofs.Source.ByteScan
import WitnessReplay.Proofs.Source.LineCount

/-!
# Characters and their bytes

The functions that split a text look for ASCII characters only, and treat all others alike. So it
makes no difference to them whether a character outside of ASCII is there, or the bytes that it is
written with: `octets` replaces the characters of a text by their bytes, and each function splits
the replaced text where it splits the text.

With what the loops of the scanner pass, this is enough to compare the scanner with `tokenize`
(`scan_encode`). The scanner may stand inside of a character on the way, behind a backslash that
escapes the first byte of one, but a lexeme always ends with a character.
-/

namespace WitnessReplay

open Text

/-- The bytes of a text, each as the character of its number. -/
def octets (cs : List Char) : List Char :=
  (encode cs).map Char.ofUInt8

@[simp] theorem octets_append (as bs : List Char) : octets (as ++ bs) = octets as ++ octets bs := by
  unfold octets
  rw [encode_append, List.map_append]

/-- A text has as many octets as bytes. -/
theorem length_octets (cs : List Char) : (octets cs).length = byteSize cs := by
  unfold octets
  rw [List.length_map, length_encode]

/-- A character outside of ASCII, or a byte of one. -/
def Wide (c : Char) : Prop :=
  0x80 ≤ c.toNat

instance (c : Char) : Decidable (Wide c) :=
  inferInstanceAs (Decidable (_ ≤ _))

namespace Wide

variable {c k : Char}

/-- A wide character is none of the marks that a scanner looks for, which are all narrow. -/
theorem ne (hc : Wide c) (hk : ¬ Wide k) : c ≠ k := by
  rintro rfl
  exact hk hc

theorem ne_newline (hc : Wide c) : c ≠ '\n' :=
  hc.ne (by decide)

theorem ne_backslash (hc : Wide c) : c ≠ '\\' :=
  hc.ne (by decide)

theorem ne_slash (hc : Wide c) : c ≠ '/' :=
  hc.ne (by decide)

theorem ne_star (hc : Wide c) : c ≠ '*' :=
  hc.ne (by decide)

/-! The classes of characters lie in ASCII, but for those that can stand in a word. -/

/-- No wide character opens a literal. -/
theorem isQuote (hc : Wide c) : isQuote c = false := by
  rw [← Bool.not_eq_true]
  intro hquote
  rcases isQuote_cases hquote with rfl | rfl
  · exact absurd hc (by decide)
  · exact absurd hc (by decide)

theorem ne_quote (hc : Wide c) (hk : WitnessReplay.isQuote k = true) : c ≠ k := by
  rintro rfl
  rw [hc.isQuote] at hk
  cases hk

/-- Inside a literal, a wide character is one like any other. -/
theorem isLiteralMark (hc : Wide c) : isLiteralMark c = false := by
  rw [← Bool.not_eq_true]
  intro hmark
  rcases isLiteralMark_cases hmark with rfl | rfl | rfl
  · exact absurd hc (by decide)
  · exact absurd hc (by decide)
  · exact absurd hc (by decide)

/-- No wide character is white space to the lexer. -/
theorem isSpacing (hc : Wide c) : isSpacing c = false := by
  rw [← Bool.not_eq_true]
  intro hblank
  have hle : c.toNat ≤ 32 := by
    simp only [WitnessReplay.isSpacing, Bool.or_eq_true, beq_iff_eq] at hblank
    rcases hblank with ((((rfl | rfl) | rfl) | rfl) | rfl) | rfl <;> decide
  unfold Wide at hc
  omega

theorem isDigit (hc : Wide c) : c.isDigit = false := by
  rw [← Bool.not_eq_true]
  intro hdigit
  have hnine : c.toNat ≤ 57 := (Char.isDigit_iff_toNat.1 hdigit).2
  unfold Wide at hc
  omega

/-- A wide character begins a word, and so does each of its octets. -/
theorem isWordStart (hc : Wide c) : isWordStart c = true := by
  have hwide : decide (0x80 ≤ c.toNat) = true := decide_eq_true hc
  unfold WitnessReplay.isWordStart
  rw [hwide, Bool.or_true]

theorem isWordPart (hc : Wide c) : isWordPart c = true := by
  unfold WitnessReplay.isWordPart
  rw [hc.isWordStart, Bool.true_or]

end Wide

theorem octets_cons (c : Char) (cs : List Char) : octets (c :: cs) = octets [c] ++ octets cs :=
  octets_append [c] cs

/-- A narrow character is its own only octet. -/
theorem octets_singleton {c : Char} (hc : ¬ Wide c) : octets [c] = [c] := by
  have hlt : c.toNat < 0x80 := Nat.lt_of_not_le hc
  have hbyte : Char.ofUInt8 (UInt8.ofNat c.toNat) = c := by
    refine Char.toNat_inj.1 ?_
    show (UInt8.ofNat c.toNat).toNat = c.toNat
    rw [toNat_ofNat (by omega)]
  unfold octets
  rw [encode_cons, utf8EncodeChar_of_lt hlt, encode_nil, List.append_nil, List.map_singleton, hbyte]

theorem octets_cons_of_narrow {c : Char} (hc : ¬ Wide c) (cs : List Char) :
    octets (c :: cs) = c :: octets cs := by
  rw [octets_cons, octets_singleton hc]
  rfl

/-- The bytes of a character outside of ASCII are outside of ASCII. -/
theorem wide_of_mem_octets {c : Char} (hc : Wide c) : ∀ b ∈ octets [c], Wide b := by
  intro b hb
  unfold octets at hb
  rw [encode_cons, encode_nil, List.append_nil] at hb
  obtain ⟨byte, hbyte, rfl⟩ := List.mem_map.1 hb
  have hle := le_of_mem_utf8EncodeChar hc byte hbyte
  rwa [UInt8.le_iff_toNat_le] at hle

/-- A text without wide characters is its own list of octets. -/
theorem octets_of_narrow {cs : List Char} (h : ∀ c ∈ cs, ¬ Wide c) : octets cs = cs := by
  induction cs with
  | nil => rfl
  | cons c cs ih =>
    obtain ⟨hc, hcs⟩ := List.forall_mem_cons.1 h
    rw [octets_cons_of_narrow hc, ih hcs]

theorem octets_cons_ne_nil (c : Char) (cs : List Char) : octets (c :: cs) ≠ [] := by
  intro hnil
  have hlength := congrArg List.length hnil
  rw [length_octets, byteSize_cons, List.length_nil] at hlength
  have := c.utf8Size_pos
  omega

/-- The octets of a wide character are wide themselves, and there is at least one. -/
theorem exists_octets_of_wide {c : Char} (hc : Wide c) (cs : List Char) :
    ∃ b bs, Wide b ∧ (∀ x ∈ bs, Wide x) ∧ octets (c :: cs) = b :: (bs ++ octets cs) := by
  have hbytes := wide_of_mem_octets hc
  obtain ⟨b, bs, hoctets⟩ := List.exists_cons_of_ne_nil (octets_cons_ne_nil c [])
  rw [hoctets, List.forall_mem_cons] at hbytes
  exact ⟨b, bs, hbytes.1, hbytes.2, by rw [octets_cons, hoctets, List.cons_append]⟩

/-- No octet of another character is a line end, so that both sides count the same lines. -/
theorem count_octets (cs : List Char) : (octets cs).count '\n' = cs.count '\n' := by
  induction cs with
  | nil => rfl
  | cons c cs ih =>
    rw [octets_cons, List.count_append, ih]
    by_cases hc : Wide c
    · have hnone : (octets [c]).count '\n' = 0 := by
        refine List.count_eq_zero.2 ?_
        intro hmem
        exact absurd (wide_of_mem_octets hc _ hmem) (by decide)
      rw [hnone, List.count_cons_of_ne hc.ne_newline, Nat.zero_add]
    · rw [octets_singleton hc, ← List.count_append, List.singleton_append]

theorem contains_octets (cs : List Char) : (octets cs).contains '\n' = cs.contains '\n' := by
  have hiff (xs : List Char) : xs.contains '\n' = decide (0 < xs.count '\n') := by
    rw [Bool.eq_iff_iff, List.contains_iff_mem, decide_eq_true_iff, List.count_pos_iff]
  rw [hiff, hiff, count_octets]

/-! ### Looking at the first byte -/

section Heads

variable {c k : Char} {cs : List Char} {test : Char → Bool}

/-- The first byte passes a test that treats everything outside of ASCII alike, if the first
character does. -/
theorem any_head?_octets {v : Bool} (hwide : ∀ c, Wide c → test c = v) (cs : List Char) :
    (octets cs).head?.any test = cs.head?.any test := by
  cases cs with
  | nil => rfl
  | cons c cs =>
    by_cases hc : Wide c
    · obtain ⟨b, bs, hb, -, hoctets⟩ := exists_octets_of_wide hc cs
      rw [hoctets]
      show test b = test c
      rw [hwide b hb, hwide c hc]
    · rw [octets_cons_of_narrow hc]
      rfl

/-- Whether a text begins with a narrow character can be seen from its octets. -/
theorem head?_octets (hk : ¬ Wide k) (cs : List Char) :
    (octets cs).head? = some k ↔ cs.head? = some k := by
  have hwide : ∀ c, Wide c → (c == k) = false := fun c hc => beq_false_of_ne (hc.ne hk)
  have hiff (o : Option Char) : o = some k ↔ o.any (· == k) = true := by
    cases o <;> simp
  rw [hiff, hiff, any_head?_octets hwide]

theorem tail_octets (h : cs.head? = some k) (hk : ¬ Wide k) :
    (octets cs).tail = octets cs.tail := by
  obtain ⟨rest, rfl⟩ := List.head?_eq_some_iff.1 h
  rw [octets_cons_of_narrow hk]
  rfl

/-- A test that every wide character passes cuts the octets of a text where it cuts the text. -/
theorem takeWhile_octets (hwide : ∀ c, Wide c → test c = true) (cs : List Char) :
    (octets cs).takeWhile test = octets (cs.takeWhile test) ∧
      (octets cs).dropWhile test = octets (cs.dropWhile test) := by
  induction cs with
  | nil => exact ⟨rfl, rfl⟩
  | cons c cs ih =>
    rw [octets_cons]
    by_cases htest : test c = true
    · have hall : ∀ b ∈ octets [c], test b = true := by
        intro b hb
        by_cases hc : Wide c
        · exact hwide b (wide_of_mem_octets hc b hb)
        · rw [octets_singleton hc, List.mem_singleton] at hb
          rwa [hb]
      rw [List.takeWhile_cons_of_pos htest, List.dropWhile_cons_of_pos htest,
        List.takeWhile_append_of_pos hall, List.dropWhile_append_of_pos hall, ih.1, ih.2]
      exact ⟨(octets_cons c _).symm, rfl⟩
    · have hc : ¬ Wide c := fun hc => htest (hwide c hc)
      rw [octets_singleton hc, List.takeWhile_cons_of_neg htest, List.dropWhile_cons_of_neg htest,
        octets_cons_of_narrow hc]
      exact ⟨List.takeWhile_cons_of_neg htest, List.dropWhile_cons_of_neg htest⟩

end Heads

/-! ### Splitting the bytes -/

/-- Both parts of a split text in bytes. -/
def octetParts (parts : List Char × List Char) : List Char × List Char :=
  (octets parts.1, octets parts.2)

theorem octetParts_prepend (front : List Char) (parts : List Char × List Char) :
    octetParts (prepend front parts) = prepend (octets front) (octetParts parts) := by
  unfold octetParts prepend
  rw [octets_append]

theorem map_octetParts_prepend (front : List Char) (parts : Option (List Char × List Char)) :
    (parts.map (prepend front)).map octetParts
      = (parts.map octetParts).map (prepend (octets front)) := by
  rw [Option.map_map, Option.map_map]
  exact congrArg (Option.map · parts) (funext (octetParts_prepend front))

section Wide

variable {bs : List Char}

/-- A block comment goes on over wide characters. -/
theorem splitComment_wide (h : ∀ b ∈ bs, Wide b) (xs : List Char) :
    splitComment (bs ++ xs) = (splitComment xs).map (prepend bs) := by
  induction bs with
  | nil => exact Option.map_id'.symm
  | cons b bs ih =>
    have hb : b ≠ '*' := (h b (by simp)).ne_star
    rw [List.cons_append, splitComment_cons, if_neg (by simp [hb]),
      ih fun d hd => h d (List.mem_cons_of_mem _ hd), Option.map_map]
    rfl

/-- A directive goes on over wide characters. -/
theorem splitDirective_wide (h : ∀ b ∈ bs, Wide b) (xs : List Char) :
    splitDirective (bs ++ xs) = prepend bs (splitDirective xs) := by
  induction bs with
  | nil => rfl
  | cons b bs ih =>
    have hline : b ≠ '\n' := (h b (by simp)).ne_newline
    have hcont : b ≠ '\\' := (h b (by simp)).ne_backslash
    rw [List.cons_append, splitDirective_cons, if_neg hline, if_neg (by simp [hcont]),
      ih fun d hd => h d (List.mem_cons_of_mem _ hd)]
    rfl

/-- A literal goes on over wide characters. -/
theorem splitLiteral_wide {quote : Char} (hq : isQuote quote = true) (h : ∀ b ∈ bs, Wide b)
    (xs : List Char) :
    splitLiteral quote (bs ++ xs) = (splitLiteral quote xs).map (prepend bs) := by
  induction bs with
  | nil => exact Option.map_id'.symm
  | cons b bs ih =>
    have hwide : Wide b := h b (by simp)
    rw [List.cons_append, splitLiteral_cons hq hwide.ne_backslash, if_neg hwide.ne_newline,
      if_neg (hwide.ne_quote hq), ih fun d hd => h d (List.mem_cons_of_mem _ hd),
      Option.map_map]
    rfl

end Wide

/-- A block comment ends at the same place in a text and in its octets. -/
theorem splitComment_octets (cs : List Char) :
    splitComment (octets cs) = (splitComment cs).map octetParts := by
  induction cs with
  | nil => rfl
  | cons c cs ih =>
    rw [octets_cons, splitComment_cons]
    by_cases hc : Wide c
    · have hstar : c ≠ '*' := hc.ne_star
      rw [splitComment_wide (wide_of_mem_octets hc), ih, if_neg (by simp [hstar]),
        map_octetParts_prepend]
    · rw [octets_singleton hc, List.singleton_append, splitComment_cons]
      simp only [head?_octets (show ¬ Wide '/' by decide)]
      by_cases hclose : c = '*' ∧ cs.head? = some '/'
      · rw [if_pos hclose, if_pos hclose, tail_octets hclose.2 (by decide)]
        rfl
      · rw [if_neg hclose, if_neg hclose, ih, map_octetParts_prepend, octets_singleton hc]

/-- A directive ends at the same place in a text and in its octets. -/
theorem splitDirective_octets (cs : List Char) :
    splitDirective (octets cs) = octetParts (splitDirective cs) := by
  -- a continued line end takes two characters at once
  induction hn : cs.length using Nat.strong_induction_on generalizing cs with
  | _ n ih =>
    cases cs with
    | nil => rfl
    | cons c cs =>
      rw [List.length_cons] at hn
      rw [octets_cons, splitDirective_cons]
      by_cases hc : Wide c
      · have hcont : c ≠ '\\' := hc.ne_backslash
        rw [splitDirective_wide (wide_of_mem_octets hc), ih cs.length (by omega) cs rfl,
          if_neg hc.ne_newline, if_neg (by simp [hcont]), octetParts_prepend]
      · rw [octets_singleton hc, List.singleton_append, splitDirective_cons]
        simp only [head?_octets (show ¬ Wide '\n' by decide)]
        by_cases hline : c = '\n'
        · rw [if_pos hline, if_pos hline]
          unfold octetParts
          rw [octets_cons_of_narrow hc]
          rfl
        rw [if_neg hline, if_neg hline]
        by_cases hcont : c = '\\' ∧ cs.head? = some '\n'
        · have hlength : cs.tail.length < n := by
            rw [List.length_tail]
            omega
          rw [if_pos hcont, if_pos hcont, tail_octets hcont.2 (by decide),
            ih cs.tail.length hlength cs.tail rfl, octetParts_prepend, hcont.1]
          rfl
        · rw [if_neg hcont, if_neg hcont, ih cs.length (by omega) cs rfl, octetParts_prepend,
            octets_singleton hc]

/-- A literal ends at the same place in a text and in its octets. -/
theorem splitLiteral_octets {quote : Char} (hq : isQuote quote = true) (cs : List Char) :
    splitLiteral quote (octets cs) = (splitLiteral quote cs).map octetParts := by
  -- an escape takes two characters at once
  induction hn : cs.length using Nat.strong_induction_on generalizing cs with
  | _ n ih =>
    cases cs with
    | nil => rfl
    | cons c cs =>
      rw [List.length_cons] at hn
      by_cases hescape : c = '\\'
      · subst hescape
        rw [octets_cons_of_narrow (by decide)]
        cases cs with
        | nil => rcases isQuote_cases hq with rfl | rfl <;> rfl
        | cons d cs =>
          rw [List.length_cons] at hn
          -- the escaped byte is the first of its character, and the others follow
          obtain ⟨b, bs, hoctets⟩ := List.exists_cons_of_ne_nil (octets_cons_ne_nil d [])
          have hbs : ∀ x ∈ bs, Wide x := by
            by_cases hd : Wide d
            · intro x hx
              refine wide_of_mem_octets hd x ?_
              rw [hoctets]
              exact List.mem_cons_of_mem _ hx
            · rw [octets_singleton hd] at hoctets
              cases hoctets
              exact List.forall_mem_nil _
          rw [octets_cons d, hoctets, List.cons_append, splitLiteral_escape,
            splitLiteral_wide hq hbs, ih cs.length (by omega) cs rfl, splitLiteral_escape,
            map_octetParts_prepend, Option.map_map, octets_cons_of_narrow (by decide), hoctets]
          rfl
      · rw [octets_cons, splitLiteral_cons hq hescape]
        by_cases hc : Wide c
        · rw [splitLiteral_wide hq (wide_of_mem_octets hc), ih cs.length (by omega) cs rfl,
            if_neg hc.ne_newline, if_neg (hc.ne_quote hq), map_octetParts_prepend]
        · rw [octets_singleton hc, List.singleton_append, splitLiteral_cons hq hescape]
          by_cases hline : c = '\n'
          · rw [if_pos hline, if_pos hline]
            rfl
          rw [if_neg hline, if_neg hline]
          by_cases hclose : c = quote
          · rw [if_pos hclose, if_pos hclose]
            show some ([c], octets cs) = some (octets [c], octets cs)
            rw [octets_singleton hc]
          · rw [if_neg hclose, if_neg hclose, ih cs.length (by omega) cs rfl,
              map_octetParts_prepend, octets_singleton hc]

/-- A number goes on over the octets of a wide character; the last of them is what the scanner has
seen when it comes to the next character, and all that counts is that it is wide. -/
theorem splitNumber_wide {bs : List Char} (h : ∀ b ∈ bs, Wide b) (hne : bs ≠ []) (last : Char)
    (xs : List Char) :
    ∃ b, Wide b ∧ splitNumber last (bs ++ xs) = prepend bs (splitNumber b xs) := by
  induction bs generalizing last with
  | nil => exact absurd rfl hne
  | cons b bs ih =>
    have hgoes := numberGoesOn_of_isWordPart ((h b (by simp)).isWordPart) last
    rw [List.cons_append, splitNumber_cons, if_pos hgoes]
    cases bs with
    | nil => exact ⟨b, h b (by simp), rfl⟩
    | cons d bs =>
      obtain ⟨e, he, hsplit⟩ := ih (fun x hx => h x (List.mem_cons_of_mem _ hx)) (by simp) b
      refine ⟨e, he, ?_⟩
      rw [hsplit]
      rfl

/-- How a number goes on depends on the character before only as far as it is in ASCII. -/
theorem splitNumber_octets {last last' : Char} (hlast : last = last' ∨ Wide last ∧ Wide last')
    (cs : List Char) : splitNumber last (octets cs) = octetParts (splitNumber last' cs) := by
  induction cs generalizing last last' with
  | nil => rfl
  | cons c cs ih =>
    rw [octets_cons, splitNumber_cons]
    by_cases hc : Wide c
    · obtain ⟨b, hb, hsplit⟩ := splitNumber_wide (wide_of_mem_octets hc) (octets_cons_ne_nil c [])
        last (octets cs)
      rw [hsplit, ih (.inr ⟨hb, hc⟩), if_pos (numberGoesOn_of_isWordPart hc.isWordPart _)]
      exact (octetParts_prepend [c] _).symm
    · have hgoes : numberGoesOn last c = numberGoesOn last' c := by
        rcases hlast with rfl | ⟨hl, hl'⟩
        · rfl
        · -- the letter of an exponent is in ASCII, so no wide character is one
          have hletters {d : Char} (hd : Wide d) :
              (d == 'e' || d == 'E' || d == 'p' || d == 'P') = false := by
            simp only [Bool.or_eq_false_iff, beq_eq_false_iff_ne]
            exact ⟨⟨⟨hd.ne (by decide), hd.ne (by decide)⟩, hd.ne (by decide)⟩, hd.ne (by decide)⟩
          unfold numberGoesOn
          rw [hletters hl, hletters hl']
      rw [octets_singleton hc, List.singleton_append, splitNumber_cons, hgoes]
      by_cases hon : numberGoesOn last' c = true
      · rw [if_pos hon, if_pos hon, ih (.inl rfl)]
        have hparts := octetParts_prepend [c] (splitNumber c cs)
        rw [octets_singleton hc] at hparts
        exact hparts.symm
      · rw [if_neg hon, if_neg hon]
        unfold octetParts
        rw [octets_cons_of_narrow hc]
        rfl

/-- No unit of a gap begins with a wide character. -/
theorem gapUnit?_of_wide {c : Char} (hc : Wide c) (cs : List Char) : gapUnit? (c :: cs) = none := by
  have hback : c ≠ '\\' := hc.ne_backslash
  have hslash : c ≠ '/' := hc.ne_slash
  exact Token.gapUnit?_eq_none hc.isSpacing (by simp [hback]) (by simp [hslash])
    (by simp [hslash])

/-- The same unit of a gap is found in a text and in its octets. -/
theorem gapUnit?_octets (cs : List Char) :
    gapUnit? (octets cs) = (gapUnit? cs).map octetParts := by
  cases cs with
  | nil => rfl
  | cons c cs =>
    by_cases hc : Wide c
    · obtain ⟨b, bs, hb, -, hoctets⟩ := exists_octets_of_wide hc cs
      rw [hoctets, gapUnit?_of_wide hb, gapUnit?_of_wide hc]
      rfl
    · have hparts (front rest : List Char) :
          octetParts (c :: front, rest) = (c :: octets front, octets rest) := by
        unfold octetParts
        rw [octets_cons_of_narrow hc]
      rw [octets_cons_of_narrow hc, gapUnit?, gapUnit?]
      simp only [head?_octets (show ¬ Wide '\n' by decide),
        head?_octets (show ¬ Wide '/' by decide), head?_octets (show ¬ Wide '*' by decide)]
      by_cases hblank : isSpacing c = true
      · rw [if_pos hblank, if_pos hblank]
        exact congrArg some (hparts [] cs).symm
      rw [if_neg hblank, if_neg hblank]
      by_cases hcont : c = '\\' ∧ cs.head? = some '\n'
      · rw [if_pos hcont, if_pos hcont, tail_octets hcont.2 (by decide)]
        exact congrArg some (hparts ['\n'] cs.tail).symm
      rw [if_neg hcont, if_neg hcont]
      by_cases hline : c = '/' ∧ cs.head? = some '/'
      · have hwide : ∀ d, Wide d → decide (d ≠ '\n') = true :=
          fun d hd => decide_eq_true hd.ne_newline
        obtain ⟨htake, hdrop⟩ := takeWhile_octets hwide cs
        rw [if_pos hline, if_pos hline, htake, hdrop]
        exact congrArg some (hparts _ _).symm
      rw [if_neg hline, if_neg hline]
      by_cases hopen : c = '/' ∧ cs.head? = some '*'
      · rw [if_pos hopen, if_pos hopen, tail_octets hopen.2 (by decide), splitComment_octets,
          Option.map_map, Option.map_map]
        refine congrArg (Option.map · _) (funext fun parts => ?_)
        exact (hparts ('*' :: parts.1) parts.2).symm
      rw [if_neg hopen, if_neg hopen]
      rfl

/-- The gap before a token is the same in a text and in its octets. -/
theorem splitGap_octets (cs : List Char) : splitGap (octets cs) = octetParts (splitGap cs) := by
  fun_induction splitGap cs with
  | case1 cs hunit =>
    have hoctets := gapUnit?_octets cs
    rw [hunit] at hoctets
    exact splitGap_of_none hoctets
  | case2 cs unit after hunit _ ih =>
    have hoctets := gapUnit?_octets cs
    rw [hunit] at hoctets
    rw [splitGap_of_some hoctets, ih]
    exact (octetParts_prepend unit (splitGap after)).symm

/-! ### Lexemes in bytes -/

/-- An ASCII text stands in front of the bytes of a text if it stands in front of the text, and the
rest of the text is behind it. -/
theorem isPrefixOf_octets {p : List Char} (hp : ∀ c ∈ p, ¬ Wide c) (cs : List Char) :
    p.isPrefixOf (octets cs) = p.isPrefixOf cs := by
  induction p generalizing cs with
  | nil => simp
  | cons a p ih =>
    obtain ⟨ha, hp⟩ := List.forall_mem_cons.1 hp
    cases cs with
    | nil => rfl
    | cons c cs =>
      by_cases hc : Wide c
      · obtain ⟨b, bs, hb, -, hoctets⟩ := exists_octets_of_wide hc cs
        have hbyte : (a == b) = false := beq_false_of_ne (hb.ne ha).symm
        have hchar : (a == c) = false := beq_false_of_ne (hc.ne ha).symm
        rw [hoctets, List.isPrefixOf_cons_cons, List.isPrefixOf_cons_cons, hbyte, hchar,
          Bool.false_and, Bool.false_and]
      · rw [octets_cons_of_narrow hc, List.isPrefixOf_cons_cons, List.isPrefixOf_cons_cons, ih hp]

theorem mark_prefix_octets {cs : List Char} :
    ['/', '*'] <+: octets cs ↔ ['/', '*'] <+: cs := by
  have hmark : ∀ c ∈ ['/', '*'], ¬ Wide c := by
    rw [List.forall_mem_cons, List.forall_mem_singleton]
    exact ⟨by decide, by decide⟩
  rw [← List.isPrefixOf_iff_prefix, ← List.isPrefixOf_iff_prefix, isPrefixOf_octets hmark]

theorem longPunctuators_not_wide : ∀ p ∈ longPunctuators, ∀ c ∈ p.toList, ¬ Wide c := by
  intro p hp c hc hwide
  have hpart := longPunctuators_not_wordPart p hp c hc
  rw [hwide.isWordPart] at hpart
  cases hpart

/-- The same punctuator is found in a text and in its octets. -/
theorem punctuatorLength_octets (cs : List Char) :
    punctuatorLength (octets cs) = punctuatorLength cs := by
  unfold punctuatorLength
  have hfind : longPunctuators.find? (fun p => p.toList.isPrefixOf (octets cs))
      = longPunctuators.find? fun p => p.toList.isPrefixOf cs := by
    refine List.find?_congr ?_
    intro p hp
    exact isPrefixOf_octets (longPunctuators_not_wide p hp) cs
  rw [hfind]

/-- A lexeme in bytes. -/
def Lexeme.octets (l : Lexeme) : Lexeme :=
  ⟨l.kind, WitnessReplay.octets l.text, WitnessReplay.octets l.rest⟩

theorem quotedLexeme_octets {quote : Char} (hq : isQuote quote = true) (opening cs : List Char) :
    quotedLexeme (octets opening) quote (octets cs)
      = (quotedLexeme opening quote cs).map Lexeme.octets := by
  unfold quotedLexeme
  rw [splitLiteral_octets hq]
  cases splitLiteral quote cs with
  | none => rfl
  | some parts =>
    show Except.ok (Lexeme.mk _ (octets opening ++ octets parts.1) (octets parts.2))
      = .ok (Lexeme.octets ⟨_, opening ++ parts.1, parts.2⟩)
    unfold Lexeme.octets
    rw [octets_append]

section Lexemes

variable {fresh : Bool} {b c : Char} {bs cs : List Char}

/-- A punctuator in front of a text is in front of the bytes of the text. -/
theorem take_octets_punctuatorLength (hc : ¬ Wide c) (cs : List Char) :
    (octets (c :: cs)).take (punctuatorLength (c :: cs))
        = octets ((c :: cs).take (punctuatorLength (c :: cs))) ∧
      (octets (c :: cs)).drop (punctuatorLength (c :: cs))
        = octets ((c :: cs).drop (punctuatorLength (c :: cs))) := by
  have hnarrow : ∀ d ∈ (c :: cs).take (punctuatorLength (c :: cs)), ¬ Wide d := by
    intro d hd
    obtain rfl | ⟨p, hp, hdp⟩ := mem_take_punctuatorLength hd
    · exact hc
    · exact longPunctuators_not_wide p hp d hdp
  have hlength : ((c :: cs).take (punctuatorLength (c :: cs))).length
      = punctuatorLength (c :: cs) := by
    have hle := punctuatorLength_le c cs
    rw [List.length_take]
    omega
  have hsplit : octets (c :: cs) = (c :: cs).take (punctuatorLength (c :: cs))
      ++ octets ((c :: cs).drop (punctuatorLength (c :: cs))) := by
    have happend := octets_append ((c :: cs).take (punctuatorLength (c :: cs)))
      ((c :: cs).drop (punctuatorLength (c :: cs)))
    rwa [List.take_append_drop, octets_of_narrow hnarrow] at happend
  rw [hsplit, octets_of_narrow hnarrow]
  exact ⟨List.take_left' hlength, List.drop_left' hlength⟩

/-- A comment that is still there where a token should begin has no end. -/
theorem lexeme_comment (hc : ¬ (c = '#' ∧ fresh = true)) (hopen : c = '/' ∧ cs.head? = some '*') :
    lexeme fresh c cs = .error .comment := by
  obtain ⟨rfl, hhead⟩ := hopen
  have hword : ¬ isWordStart '/' = true := by decide
  have hnumber : ¬ ('/'.isDigit || ('/' == '.' && cs.head?.any Char.isDigit)) = true := by simp
  have hquote : ¬ isQuote '/' = true := by decide
  rw [lexeme.eq_def, if_neg hc, if_neg hword, if_neg hnumber, if_neg hquote,
    if_pos ⟨rfl, hhead⟩]

/-- The bytes of a text begin with the lexeme that the text begins with. -/
theorem lexeme_octets (h : octets (c :: cs) = b :: bs) :
    lexeme fresh b bs = (lexeme fresh c cs).map Lexeme.octets := by
  obtain ⟨htake, hdrop⟩ := takeWhile_octets (fun d hd => hd.isWordPart) (c :: cs)
  rw [h] at htake hdrop
  by_cases hc : Wide c
  · obtain ⟨b', bs', hb, -, hoctets⟩ := exists_octets_of_wide hc cs
    have hmark {d : Char} (hd : Wide d) : ¬ (d = '#' ∧ fresh = true) :=
      fun hmark => absurd hmark.1 (hd.ne (by decide))
    have hquote {d : Char} (hd : Wide d) (o : Option Char) :
        (isLiteralMark d && o.any isQuote) = false := by
      rw [hd.isLiteralMark, Bool.false_and]
    rw [h] at hoctets
    obtain ⟨rfl, -⟩ := List.cons.inj hoctets
    rw [List.takeWhile_cons_of_pos hb.isWordPart,
      List.takeWhile_cons_of_pos hc.isWordPart] at htake
    rw [List.dropWhile_cons_of_pos hb.isWordPart,
      List.dropWhile_cons_of_pos hc.isWordPart] at hdrop
    rw [lexeme_word (hmark hb) hb.isWordStart (hquote hb _),
      lexeme_word (hmark hc) hc.isWordStart (hquote hc _), htake, hdrop]
    rfl
  -- a wide character begins a word; a narrow one is its own octet, and the kinds are tried in order
  have hnarrow := octets_cons_of_narrow hc
  rw [hnarrow] at h
  obtain ⟨rfl, rfl⟩ := List.cons.inj h
  have hquote : (octets cs).head?.any isQuote = cs.head?.any isQuote :=
    any_head?_octets (fun d hd => hd.isQuote) cs
  have hdigit : (octets cs).head?.any Char.isDigit = cs.head?.any Char.isDigit :=
    any_head?_octets (fun d hd => hd.isDigit) cs
  have hlexeme (kind : TokenKind) (parts : List Char × List Char) :
      Lexeme.mk kind (c :: (octetParts parts).1) (octetParts parts).2
        = Lexeme.octets ⟨kind, c :: parts.1, parts.2⟩ := by
    unfold Lexeme.octets octetParts
    rw [hnarrow]
  by_cases hmark : c = '#' ∧ fresh = true
  · rw [lexeme.eq_def, if_pos hmark, lexeme.eq_def, if_pos hmark, splitDirective_octets, hlexeme]
    rfl
  by_cases hword : isWordStart c = true
  · by_cases hliteral : (isLiteralMark c && cs.head?.any isQuote) = true
    · cases cs with
      | nil => simp at hliteral
      | cons quote body =>
        obtain ⟨hletter, hq⟩ := Bool.and_eq_true_iff.1 hliteral
        have hq : isQuote quote = true := hq
        have hqn : ¬ Wide quote := by
          intro hwide
          rw [hwide.isQuote] at hq
          cases hq
        have hopening := quotedLexeme_octets hq [c, quote] body
        rw [hnarrow, octets_singleton hqn] at hopening
        rw [octets_cons_of_narrow hqn, lexeme_marked hmark hword hletter hq,
          lexeme_marked hmark hword hletter hq, hopening]
    · have hpart : isWordPart c = true := by simp [isWordPart, hword]
      rw [List.takeWhile_cons_of_pos hpart, List.takeWhile_cons_of_pos hpart] at htake
      rw [List.dropWhile_cons_of_pos hpart, List.dropWhile_cons_of_pos hpart] at hdrop
      have hplain : (isLiteralMark c && cs.head?.any isQuote) = false := by simpa using hliteral
      have hplain' : (isLiteralMark c && (octets cs).head?.any isQuote) = false := by rwa [hquote]
      rw [lexeme_word hmark hword hplain, lexeme_word hmark hword hplain', htake, hdrop]
      rfl
  by_cases hnumber : (c.isDigit || (c == '.' && cs.head?.any Char.isDigit)) = true
  · rw [lexeme_number hmark hword hnumber, lexeme_number hmark hword (by rwa [hdigit]),
      splitNumber_octets (.inl rfl), hlexeme]
    rfl
  by_cases hq : isQuote c = true
  · have hopening := quotedLexeme_octets hq [c] cs
    rw [octets_singleton hc] at hopening
    rw [lexeme_quoted hmark hword hnumber hq, lexeme_quoted hmark hword (by rwa [hdigit]) hq,
      hopening]
  by_cases hcomment : c = '/' ∧ cs.head? = some '*'
  · have hcomment' : c = '/' ∧ (octets cs).head? = some '*' :=
      ⟨hcomment.1, (head?_octets (by decide) cs).2 hcomment.2⟩
    rw [lexeme_comment hmark hcomment, lexeme_comment hmark hcomment']
    rfl
  · have hcomment' : ¬ (c = '/' ∧ (octets cs).head? = some '*') :=
      fun h => hcomment ⟨h.1, (head?_octets (by decide) cs).1 h.2⟩
    have hlength := punctuatorLength_octets (c :: cs)
    have hparts := take_octets_punctuatorLength hc cs
    rw [hnarrow] at hlength hparts
    rw [lexeme_punctuator hmark hword hnumber hq hcomment,
      lexeme_punctuator hmark hword (by rwa [hdigit]) hq hcomment', hlength, hparts.1, hparts.2]
    rfl

end Lexemes

/-! ### The scanner and the tokens -/

namespace Cursor

/-- A cursor that walks over octets comes to where one comes to that skips the characters. -/
theorem walk_octets (place : Cursor) (gap : List Char) :
    place.walk (octets gap) = place.skip gap := by
  unfold walk skip
  rw [length_octets, count_octets, contains_octets]

theorem cross_octets (place : Cursor) (l : Lexeme) :
    place.cross l.kind (octets l.text) = place.pass l := by
  unfold cross pass
  rw [length_octets, count_octets, contains_octets]

end Cursor

/-- The size of a string is the number of bytes of its characters. -/
theorem utf8ByteSize_ofList (cs : List Char) : (String.ofList cs).utf8ByteSize = byteSize cs := by
  induction cs with
  | nil => rfl
  | cons c cs ih =>
    rw [← List.singleton_append, String.ofList_append, String.utf8ByteSize_append, ih,
      ← String.singleton_eq_ofList, String.utf8ByteSize_singleton, List.singleton_append,
      byteSize_cons]

/-- Where a token lies in its text. -/
def Token.span (t : Token) : Span :=
  ⟨t.kind, t.start, t.stop, t.line⟩

/-- What a scan yields that meets no error but those of the text. -/
def spansOf : Except ParseError (List Token) → Except ScanError (List Span)
  | .ok ts => .ok (ts.map Token.span)
  | .error e => .error (.text e)

/-- Where no lexeme can be read behind a gap, the tokenizer fails on the line of that place. -/
theorem tokenizeFrom_of_error {cs gap rest : List Char} {c : Char} {place : Cursor}
    {what : Enclosure} (hgap : splitGap cs = (gap, c :: rest))
    (hlex : lexeme (place.skip gap).fresh c rest = .error what) :
    tokenizeFrom place cs = .error (.unterminated what (place.skip gap).line) := by
  obtain ⟨rfl, hrest⟩ := Prod.ext_iff.1 hgap
  rw [tokenizeFrom]
  split
  next h => rw [hrest] at h; cases h
  next c' rest' h =>
    rw [hrest] at h
    cases h
    split
    next hl => rw [hlex] at hl; cases hl; rfl
    next hl => rw [hlex] at hl; cases hl

namespace SourceText

variable {t : SourceText} {place : Cursor} {cs gap rest : List Char} {c : Char}

/-- Behind a gap the scanner is at the place behind the gap, if no comment is left open there. -/
theorem skipGap_octets (h : t.after place.offset = octets cs) (hgap : splitGap cs = (gap, rest)) :
    t.skipGap place =
      if ['/', '*'] <+: rest then .error (.text (.unterminated .comment (place.skip gap).line))
      else .ok (place.skip gap) := by
  have hoctets : splitGap (octets cs) = (octets gap, octets rest) := by
    rw [splitGap_octets, hgap]
    rfl
  rw [skipGap_eq h, hoctets]
  simp only [mark_prefix_octets, Cursor.walk_octets]

/-- Behind a gap stand the octets of the rest. -/
theorem after_skip (h : t.after place.offset = octets cs) (hgap : splitGap cs = (gap, rest)) :
    t.after (place.skip gap).offset = octets rest := by
  have happend := splitGap_append cs
  rw [hgap] at happend
  rw [← happend, octets_append] at h
  rw [← place.walk_octets gap]
  exact after_add _ h

/-- Where only a gap is left, the scanner finds no further token. -/
theorem scanToken_of_end (h : t.after place.offset = octets cs) (hgap : splitGap cs = (gap, [])) :
    t.scanToken place = .ok none := by
  unfold scanToken
  rw [skipGap_octets h hgap, if_neg (by simp), ok_bind, peek?_of_nil (after_skip h hgap)]
  rfl

/-- What is found in the octets is located where it is in the text. -/
theorem located_octets (here : Cursor) (found : Except Enclosure Lexeme) :
    located here (found.map Lexeme.octets) =
      match found with
      | .ok l => .ok (l.kind, here.pass l)
      | .error what => .error (.text (.unterminated what here.line)) := by
  cases found with
  | error what => rfl
  | ok l =>
    show Except.ok (l.kind, here.cross l.kind (octets l.text)) = .ok (l.kind, here.pass l)
    rw [Cursor.cross_octets]

/-- The scanner finds the next lexeme of the text, or fails for the reason that there is none. -/
theorem scanToken_eq (h : t.after place.offset = octets cs)
    (hgap : splitGap cs = (gap, c :: rest)) :
    t.scanToken place =
      match lexeme (place.skip gap).fresh c rest with
      | .ok l =>
        .ok (some (⟨l.kind, (place.skip gap).offset, ((place.skip gap).pass l).offset,
          (place.skip gap).line⟩, (place.skip gap).pass l))
      | .error what => .error (.text (.unterminated what (place.skip gap).line)) := by
  have hunit := gapUnit?_splitGap cs
  rw [hgap] at hunit
  unfold scanToken
  rw [skipGap_octets h hgap]
  by_cases hopen : ['/', '*'] <+: c :: rest
  · have hcomment := mark_prefix_cons.1 hopen
    rw [if_pos hopen, lexeme_comment (by simp [hcomment.1]) hcomment]
    rfl
  · obtain ⟨b, bs, hoctets⟩ := List.exists_cons_of_ne_nil (octets_cons_ne_nil c rest)
    have hafter : t.after (place.skip gap).offset = b :: bs := (after_skip h hgap).trans hoctets
    have hunit' := gapUnit?_octets (c :: rest)
    rw [hunit, hoctets] at hunit'
    have hopen' : ¬ (b = '/' ∧ bs.head? = some '*') := by
      rwa [← mark_prefix_cons, ← hoctets, mark_prefix_octets]
    rw [if_neg hopen, ok_bind, peek?_of_after hafter]
    dsimp only
    rw [scanLexeme_eq hafter hunit' hopen', lexeme_octets hoctets, located_octets]
    cases lexeme (place.skip gap).fresh c rest <;> rfl

/-- The scanner finds the tokens of the text. -/
theorem scanFrom_eq (h : t.after place.offset = octets cs) :
    t.scanFrom place = spansOf (tokenizeFrom place cs) := by
  induction hn : cs.length using Nat.strong_induction_on generalizing place cs with
  | _ n ih =>
    obtain ⟨⟨gap, behind⟩, hgap⟩ : ∃ parts, splitGap cs = parts := ⟨_, rfl⟩
    cases behind with
    | nil =>
      rw [scanFrom, scanToken_of_end h hgap, tokenizeFrom_eq_nil place (by rw [hgap])]
      rfl
    | cons c rest =>
      have htoken := scanToken_eq h hgap
      cases hlex : lexeme (place.skip gap).fresh c rest with
      | error what =>
        rw [hlex] at htoken
        rw [scanFrom, htoken, tokenizeFrom_of_error hgap hlex]
        rfl
      | ok l =>
        rw [hlex] at htoken
        have hbehind : cs = gap ++ l.text ++ l.rest := by
          have happend := splitGap_append cs
          rw [hgap, ← lexeme_append hlex] at happend
          rw [← happend, List.append_assoc]
        have hoffset : ((place.skip gap).pass l).offset
            = place.offset + (octets (gap ++ l.text)).length := by
          rw [length_octets, byteSize_append, ← Nat.add_assoc]
          rfl
        have hne : octets (gap ++ l.text) ≠ [] := by
          obtain ⟨d, ds, htext⟩ := List.exists_cons_of_ne_nil (lexeme_ne_nil hlex)
          rw [octets_append, htext]
          simp [octets_cons_ne_nil]
        have hsplit : t.after place.offset = octets (gap ++ l.text) ++ octets l.rest := by
          rw [h, hbehind, octets_append]
        have hle := add_length_le hsplit hne
        have hpos := List.length_pos_iff.2 hne
        have hnext : t.after ((place.skip gap).pass l).offset = octets l.rest := by
          rw [hoffset]
          exact after_add _ hsplit
        -- the induction is on the text, of which every token takes something away
        have hshorter : l.rest.length < n := by
          have hlength := lexeme_length hlex
          have hsum := congrArg List.length (splitGap_append cs)
          rw [hgap, List.length_append, List.length_cons] at hsum
          omega
        have hgoes : place.offset < ((place.skip gap).pass l).offset ∧
            ((place.skip gap).pass l).offset ≤ t.size := by
          rw [hoffset]
          omega
        rw [scanFrom, htoken, tokenizeFrom_of_lexeme hgap hlex]
        dsimp only
        rw [if_pos hgoes, ih l.rest.length hshorter hnext rfl]
        cases tokenizeFrom ((place.skip gap).pass l) l.rest with
        | error e => rfl
        | ok ts =>
          have hstop : (Token.mk l.kind (String.ofList gap) (String.ofList l.text)
              (place.skip gap).offset (place.skip gap).line).stop
                = ((place.skip gap).pass l).offset := by
            unfold Token.stop
            rw [utf8ByteSize_ofList]
            rfl
          unfold spansOf
          dsimp only
          rw [List.map_cons, Token.span, hstop]

/-- **The scanner is `tokenize`**: it finds the lexemes where the tokens are, and meets no error but
a comment or literal that does not end. -/
theorem scan_encode (source : String) :
    (mk (encode source.toList)).scan = spansOf (tokenize source) :=
  scanFrom_eq rfl

end SourceText

end WitnessReplay
