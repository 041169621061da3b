import Mathlib.Algebra.GroupWithZero.Nat
import WitnessReplay.Proofs.Sanitation.Comment
import WitnessReplay.Proofs.Sanitation.Construct

/-!
# Reading a text in which a construct was overwritten

The blanks that are written over a construct join the gaps around it, and the stand-in becomes a
token among them. The tokens in front read as they did because what follows them now begins with a
space, or with a stand-in that does not join the token right before it; the tokens behind stand
before the same text as ever, at the same places, since a construct is overwritten byte by byte and
line by line (`Parted.overwritten`).
-/

namespace WitnessReplay

open Text Token

/-! ### Tokens at another place -/

/-- Behind some tokens the offset is greater by their bytes. -/
theorem Cursor.offset_behind (place : Cursor) (ts : List Token) :
    (place.behind ts).offset = place.offset + byteSize (spaced ts).toList := by
  induction ts generalizing place with
  | nil => rfl
  | cons t ts ih =>
    rw [Cursor.behind, ih, Cursor.past, Cursor.pass, Cursor.skip, spaced, String.toList_append,
      String.toList_append, byteSize_append, byteSize_append]
    dsimp only
    omega

theorem Cursor.line_behind (place : Cursor) (ts : List Token) :
    (place.behind ts).line = place.line + (spaced ts).toList.count '\n' := by
  induction ts generalizing place with
  | nil => rfl
  | cons t ts ih =>
    rw [Cursor.behind, ih, Cursor.past, Cursor.pass, Cursor.skip, spaced, String.toList_append,
      String.toList_append, List.count_append, List.count_append]
    dsimp only
    omega

namespace Token

/-- A token that reads the same wherever on a line it stands: no directive, and nothing that would
be one at the start of a line. -/
def Settled (t : Token) : Prop :=
  t.kind ≠ .directive ∧ t.text.toList.head? ≠ some '#'

instance (t : Token) : Decidable t.Settled :=
  inferInstanceAs (Decidable (_ ∧ _))

/-- A settled token stands at the start of a line as it does inside of one. -/
theorem Stands.anywhere {t : Token} {fresh fresh' : Bool} {after : List Char}
    (h : t.Stands fresh after) (ht : t.Settled) : t.Stands fresh' after := by
  have hlexes := h.lexes ht.1
  obtain ⟨hunit, c, cs, htext, -⟩ := h
  refine ⟨hunit, c, cs, htext, ?_⟩
  rw [htext] at hlexes
  refine lexeme_of_lexes hlexes fun hc => ht.2 ?_
  rw [htext, hc.1]
  rfl

/-- What is read at a place is read at every other one with the same number. -/
theorem Lexed.moved {place place' : Cursor} {ts : List Token} {after : List Char}
    (h : Lexed place ts after) (ht : ∀ t ∈ ts, t.Settled) (hoffset : place'.offset = place.offset)
    (hline : place'.line = place.line) : Lexed place' ts after := by
  induction ts generalizing place place' with
  | nil => trivial
  | cons t ts ih =>
    obtain ⟨hgap, hstart, hat, hstands, hrest⟩ := h
    have hoffset' (g : List Char) : (place'.skip g).offset = (place.skip g).offset := by
      rw [Cursor.skip, Cursor.skip, hoffset]
    have hline' (g : List Char) : (place'.skip g).line = (place.skip g).line := by
      rw [Cursor.skip, Cursor.skip, hline]
    refine ⟨hgap, hstart.trans (hoffset' _).symm, hat.trans (hline' _).symm,
      hstands.anywhere (ht t (by simp)),
      ih hrest (fun u hu => ht u (List.mem_cons_of_mem _ hu)) ?_ ?_⟩
    · rw [Cursor.past, Cursor.pass, Cursor.past, Cursor.pass, hoffset']
    · rw [Cursor.past, Cursor.pass, Cursor.past, Cursor.pass, hline']

/-- Tokens are read where the text behind them is cut off and goes on with a character that does not
join the last of them. -/
theorem Lexed.goOn {place : Cursor} {ts : List Token} {d : Char} {x y w : List Char}
    (h : Lexed place ts (x ++ y)) (ht : ∀ t ∈ ts, t.Settled) (hd : Neutral d) (hline : d ≠ '\n')
    (hj : x = [] → ∀ t ∈ ts.getLast?, joins t.kind t.text.toList d = false) :
    Lexed place ts (x ++ d :: w) := by
  induction ts generalizing place with
  | nil => trivial
  | cons t ts ih =>
    obtain ⟨hgap, hstart, hat, hstands, hrest⟩ := h
    have hsettled := ht t (by simp)
    refine ⟨hgap, hstart, hat, ?_, ih hrest (fun u hu => ht u (List.mem_cons_of_mem _ hu))
      fun hx u hu => hj hx u (getLast?_of_cons hu)⟩
    rw [← List.append_assoc] at hstands ⊢
    refine hstands.goOn hsettled.1 (fun hm => absurd hm hsettled.2) hd (fun hnil => ?_)
      fun _ hline' => absurd hline' hline
    obtain ⟨hts, rfl⟩ := List.append_eq_nil_iff.1 hnil
    have hlast : ts = [] := Decidable.byContradiction fun hne => hrest.spaced_ne_nil hne hts
    exact hj rfl t (by rw [hlast]; rfl)

end Token

namespace Sanitation

/-! ### Gaps without comments -/

/-- A gap without comments. -/
def Clear (g : List Char) : Prop :=
  Gap g ∧ ∀ c ∈ g, c ≠ '"' ∧ c ≠ '/'

theorem Clear.append {g g' : List Char} (h : Clear g) (h' : Clear g') : Clear (g ++ g') :=
  ⟨h.1.append h'.1, fun c hc => (List.mem_append.1 hc).elim (h.2 c) (h'.2 c)⟩

theorem clear_of_spacing {g : List Char} (h : ∀ c ∈ g, isSpacing c = true) : Clear g :=
  ⟨gap_of_spacing h, fun c hc => isSpacing_ne (h c hc)⟩

theorem isSpacing_of_mem_blank {c : Char} {cs : List Char} (h : c ∈ blank cs) :
    isSpacing c = true := by
  rcases mem_blank h with rfl | rfl <;> decide

/-- A clear gap has white space in it, and backslashes before line ends. -/
theorem Clear.cases {g : List Char} (h : Clear g) {c : Char} (hc : c ∈ g) :
    isSpacing c = true ∨ c = '\\' := by
  obtain ⟨hgap, hclear⟩ := h
  induction hgap with
  | nil => cases hc
  | blank hd _ ih =>
    obtain ⟨-, hclear⟩ := List.forall_mem_cons.1 hclear
    rcases List.mem_cons.1 hc with rfl | hc
    · exact .inl hd
    · exact ih hc hclear
  | continued _ ih =>
    obtain ⟨-, hclear⟩ := List.forall_mem_cons.1 hclear
    obtain ⟨-, hclear⟩ := List.forall_mem_cons.1 hclear
    rcases List.mem_cons.1 hc with rfl | hc
    · exact .inr rfl
    · rcases List.mem_cons.1 hc with rfl | hc
      · exact .inl rfl
      · exact ih hc hclear
  | line | block => exact absurd rfl (hclear '/' (by simp)).2

/-- Nothing is blanked in a clear gap. -/
theorem Clear.uncommented_eq {g : List Char} (h : Clear g) : uncommented g = g :=
  uncommented_clear h.2

/-- A clear gap is one to the lexer. -/
theorem Clear.splitGap_eq {g : List Char} (h : Clear g) : (splitGap g).2 = [] := by
  have hsplit := splitGap_of_gap h.1 (show gapUnit? [] = none from rfl)
  rw [List.append_nil] at hsplit
  rw [hsplit]

/-! ### Texts without comments -/

/-- A text is made of tokens and gaps without comments. -/
structure Parted (cs : List Char) (ts : List Token) (after : List Char) : Prop where
  text : cs = (spaced ts).toList ++ after
  lexed : Lexed .start ts after
  gaps : ∀ t ∈ ts, Clear t.gap.toList
  after : Clear after

/-- What is parted into tokens is read as these. -/
theorem Parted.tokenize_eq {cs after : List Char} {ts : List Token} (h : Parted cs ts after) :
    tokenize (String.ofList cs) = .ok ts := by
  rw [tokenize, String.toList_ofList, h.text]
  exact tokenizeFrom_of_lexed h.lexed h.after.splitGap_eq

/-- Once the comments are blanked, all gaps of tokens that were read are clear. -/
theorem clear_uncommented_of_lexed {place : Cursor} {ts : List Token} {after : List Char}
    (h : Lexed place ts after) : ∀ t ∈ ts.map Token.uncommented, Clear t.gap.toList := by
  induction ts generalizing place with
  | nil => exact List.forall_mem_nil _
  | cons t ts ih =>
    obtain ⟨hgap, -, -, -, hrest⟩ := h
    have hclears := (uncommented_gap hgap).1
    refine List.forall_mem_cons.2 ⟨?_, ih hrest⟩
    rw [Token.uncommented, String.toList_ofList]
    exact ⟨hclears.gap, hclears.clear⟩

/-- Where comments are blanked a text is parted. -/
theorem exists_parted {source : String} {ts : List Token} (h : tokenize source = .ok ts)
    (hk : ∀ t ∈ ts, t.kind ≠ .directive) (hs : ∀ t ∈ ts, t.Shielded) :
    ∃ after, Parted (uncommented source.toList) (ts.map Token.uncommented) after := by
  obtain ⟨after, hsource, hlexed, hend⟩ := lexed_of_tokenizeFrom h
  obtain ⟨htext, hlexed'⟩ := lexed_uncommented hlexed hk hs
  have hclears := clears_uncommented hend
  exact ⟨_, by rw [hsource, htext], hlexed', clear_uncommented_of_lexed hlexed, hclears.gap,
    hclears.clear⟩

/-- A text that is parted has no comments to blank. -/
theorem Parted.uncommented_eq {cs after : List Char} {ts : List Token} (h : Parted cs ts after)
    (hk : ∀ t ∈ ts, t.kind ≠ .directive) (hs : ∀ t ∈ ts, t.Shielded) : uncommented cs = cs := by
  have hself : ts.map Token.uncommented = ts := by
    refine List.map_congr_left (g := id) (fun t ht => ?_) |>.trans (List.map_id ts)
    rw [Token.uncommented, (h.gaps t ht).uncommented_eq, String.ofList_toList]
    rfl
  rw [h.text, (lexed_uncommented h.lexed hk hs).1, hself, h.after.uncommented_eq]

/-! ### What is written over a construct -/

/-- The first word of a construct is long enough for its stand-in, and takes a byte a character. -/
theorem forms_room : ∀ f ∈ forms, ∀ w ∈ (f.head ++ f.brackets).head?,
    blank w.toList = List.replicate w.toList.length ' ' ∧ w.toList ≠ [] ∧
      ∀ s ∈ f.standin, s.lead + s.text.toList.length ≤ w.toList.length ∧
        s.lead + s.text.toList.length < ((f.head ++ f.brackets).map String.length).sum := by
  decide

/-- A stand-in is a lexeme, without line ends and with a byte for each character. -/
structure Standin.Sound (s : Standin) : Prop where
  stands : ∀ gap start line, Token.Stands false ⟨s.kind, gap, s.text, start, line⟩ []
  settled : ∀ gap start line, Token.Settled ⟨s.kind, gap, s.text, start, line⟩
  nonescaping : s.text ≠ "\\"
  line : '\n' ∉ s.text.toList
  size : byteSize s.text.toList = s.text.toList.length

/-- What a stand-in needs to be sound: its text is a lexeme on one line, of bytes, and begins no gap
and no directive. -/
theorem Standin.sound_of_lexeme {s : Standin} (c : Char) (cs : List Char)
    (htext : s.text.toList = c :: cs) (hunit : gapUnit? (c :: cs) = none)
    (hlex : lexeme false c cs = .ok ⟨s.kind, c :: cs, []⟩) (hk : s.kind ≠ .directive)
    (hc : c ≠ '#') (hback : c ≠ '\\') (hline : '\n' ∉ c :: cs)
    (hsize : byteSize (c :: cs) = (c :: cs).length) : s.Sound := by
  refine ⟨fun gap start line => ⟨?_, c, cs, htext, ?_⟩, fun gap start line => ⟨hk, ?_⟩,
    fun heq => hback ?_, ?_, ?_⟩
  · rw [htext, List.append_nil]
    exact hunit
  · rw [List.append_nil]
    exact hlex
  · rw [htext]
    simpa using hc
  · rw [heq] at htext
    exact (List.cons_eq_cons.1 htext).1.symm
  · rwa [htext]
  · rwa [htext]

/-- All stand-ins of the forms are sound. -/
theorem forms_sound : ∀ f ∈ forms, ∀ s ∈ f.standin, s.Sound := by
  have hstandins : ∀ f ∈ forms, ∀ s ∈ f.standin,
      s = .zero ∨ s = ⟨0, .word, "int"⟩ ∨ s = ⟨2, .word, "signed"⟩ := by
    decide
  intro f hf s hs
  rcases hstandins f hf s hs with rfl | rfl | rfl
  · exact Standin.sound_of_lexeme '0' [] (by decide) (by decide) rfl (by decide)
      (by decide) (by decide) (by decide) (by decide)
  · exact Standin.sound_of_lexeme 'i' ['n', 't'] (by decide) (by decide) rfl
      (by decide) (by decide) (by decide) (by decide) (by decide)
  · exact Standin.sound_of_lexeme 's' ['i', 'g', 'n', 'e', 'd'] (by decide)
      (by decide) rfl (by decide) (by decide) (by decide) (by decide) (by decide)

/-- The first character that is written over a construct. -/
def Form.first (f : Form) : Char :=
  match f.standin with
  | none => ' '
  | some s => if s.lead = 0 then s.text.toList.headD ' ' else ' '

/-- No form begins with a character that changes what stands before it. -/
theorem forms_first : ∀ f ∈ forms, Neutral f.first ∧ f.first ≠ '\n' := by
  decide

theorem toList_verbatim (t : Token) (rest : List Token) :
    (verbatim (t :: rest)).toList = t.text.toList ++ (spaced rest).toList := by
  rw [verbatim, String.toList_append]

/-- The texts of tokens are no longer than the tokens with their gaps. -/
theorem length_texts_le (ts : List Token) :
    ((texts ts).map String.length).sum ≤ (spaced ts).toList.length := by
  induction ts with
  | nil => exact Nat.zero_le _
  | cons t ts ih =>
    have hcons : ((texts (t :: ts)).map String.length).sum
        = t.text.toList.length + ((texts ts).map String.length).sum := by
      rw [String.length_toList]
      rfl
    rw [hcons, spaced, String.toList_append, String.toList_append, List.length_append,
      List.length_append]
    omega

namespace Form.Spells

variable {f : Form} {t : Token} {rest : List Token}

/-- The spelling of a construct begins with the words and brackets of its form. -/
theorem texts_eq (h : f.Spells (t :: rest)) :
    ∃ more, t.text :: texts rest = f.head ++ f.brackets ++ more := by
  obtain ⟨opening, inside, closing, heq, hopening, -⟩ := h
  refine ⟨texts (inside ++ closing), ?_⟩
  rw [← hopening, ← List.map_append, ← List.append_assoc, ← heq]
  rfl

/-- A form begins with its words, or with its brackets if it has none. -/
theorem head?_eq (h : f.Spells (t :: rest)) (hf : f ∈ forms) :
    t.text ∈ (f.head ++ f.brackets).head? := by
  obtain ⟨more, hmore⟩ := h.texts_eq
  have hpos := width_pos f hf
  cases hw : f.head ++ f.brackets with
  | nil =>
    have := congrArg List.length hw
    rw [List.length_append] at this
    rw [width] at hpos
    exact absurd this (by rw [List.length_nil]; omega)
  | cons w ws =>
    rw [hw] at hmore
    rw [(List.cons_eq_cons.1 hmore).1]
    rfl

/-- The blanks for a construct begin with spaces, enough for the stand-in and more. -/
theorem exists_trail (h : f.Spells (t :: rest)) (hf : f ∈ forms) {s : Standin}
    (hs : s ∈ f.standin) : ∃ trail, trail ≠ [] ∧ blank (verbatim (t :: rest)).toList
      = List.replicate (s.lead + s.text.toList.length) ' ' ++ trail := by
  obtain ⟨hblank, -, hroom⟩ := forms_room f hf t.text (h.head?_eq hf)
  obtain ⟨hle, hlt⟩ := hroom s hs
  have hwhole : s.lead + s.text.toList.length < (verbatim (t :: rest)).toList.length := by
    obtain ⟨more, hmore⟩ := h.texts_eq
    have hsum := congrArg (fun ws => (ws.map String.length).sum) hmore
    have hrest := length_texts_le rest
    rw [List.map_cons, List.sum_cons, List.map_append (f := String.length), List.sum_append] at hsum
    rw [toList_verbatim, List.length_append, String.length_toList (s := t.text)]
    omega
  refine ⟨List.replicate (t.text.toList.length - (s.lead + s.text.toList.length)) ' ' ++
    blank (spaced rest).toList, fun hnil => ?_, ?_⟩
  · obtain ⟨hnone, hempty⟩ := List.append_eq_nil_iff.1 hnil
    rw [blank_eq_nil] at hempty
    rw [List.replicate_eq_nil_iff] at hnone
    rw [toList_verbatim, hempty, List.append_nil] at hwhole
    omega
  · rw [toList_verbatim, blank_append, hblank, ← List.append_assoc, List.replicate_append_replicate,
      Nat.add_sub_cancel' hle]

end Form.Spells

/-! ### The tokens behind a place -/

/-- Tokens are read where the gap in front of them is wider. -/
theorem exists_widened (place : Cursor) {place' : Cursor} {ts : List Token} {g after : List Char}
    (h : Lexed place' ts after) (ht : ∀ t ∈ ts, t.Settled) (hgaps : ∀ t ∈ ts, Clear t.gap.toList)
    (hafter : Clear after) (hg : Clear g) (hoffset : (place.skip g).offset = place'.offset)
    (hline : (place.skip g).line = place'.line) :
    ∃ after', (spaced (widened g ts)).toList ++ after' = g ++ ((spaced ts).toList ++ after) ∧
      Lexed place (widened g ts) after' ∧ Clear after' ∧
      ∀ t ∈ widened g ts, Clear t.gap.toList := by
  cases ts with
  | nil => exact ⟨g ++ after, rfl, trivial, hg.append hafter, List.forall_mem_nil _⟩
  | cons t rest =>
    -- only the first token has the wider gap in front of it; all others are merely moved
    obtain ⟨hgap, hstart, hat, hstands, hrest⟩ := h
    obtain ⟨hsettled, hsettled'⟩ := List.forall_mem_cons.1 ht
    obtain ⟨hclear, hclear'⟩ := List.forall_mem_cons.1 hgaps
    have hwide : (String.ofList g ++ t.gap).toList = g ++ t.gap.toList := by
      rw [String.toList_append, String.toList_ofList]
    have hoffset' (x : List Char) : (place.skip (g ++ x)).offset = (place'.skip x).offset := by
      rw [skip_append, Cursor.skip, hoffset]
      rfl
    have hline' (x : List Char) : (place.skip (g ++ x)).line = (place'.skip x).line := by
      rw [skip_append, Cursor.skip, hline]
      rfl
    refine ⟨after, ?_, ⟨?_, ?_, ?_, hstands.anywhere hsettled, hrest.moved hsettled' ?_ ?_⟩, hafter,
      List.forall_mem_cons.2 ⟨?_, hclear'⟩⟩
    · simp [widened, spaced]
    · rw [hwide]
      exact hg.1.append hgap
    · rw [hwide, hoffset']
      exact hstart
    · rw [hwide, hline']
      exact hat
    · rw [Cursor.past, Cursor.pass, hwide, hoffset', Cursor.past, Cursor.pass]
    · rw [Cursor.past, Cursor.pass, hwide, hline', Cursor.past, Cursor.pass]
    · rw [hwide]
      exact hg.append hclear

/-- A stand-in is read before blanks. -/
theorem Standin.Sound.before_blank {s : Standin} (h : s.Sound) {gap : String} {start line : Nat}
    {fresh : Bool} {d : Char} {w : List Char} (hd : d = ' ' ∨ d = '\n') :
    Token.Stands fresh ⟨s.kind, gap, s.text, start, line⟩ (d :: w) := by
  have hbreaker : isBreaker d = true := by
    rcases hd with rfl | rfl <;> decide
  have hsettled := h.settled gap start line
  refine (h.stands gap start line).goOn (x := []) (y := []) hsettled.1
    (fun hm => absurd hm hsettled.2) (neutral_of_isBreaker hbreaker)
    (fun _ => joins_eq_false (isWordPart_of_isBreaker d hbreaker)) fun _ _ => h.nonescaping

/-- A stand-in is read behind spaces, and the tokens behind it are read behind the blanks that are
left. -/
theorem exists_standin {place place' : Cursor} {s : Standin} {t : Token} {behind : List Token}
    {trail after : List Char} (hs : s.Sound) (hgap : Clear t.gap.toList)
    (hstart : t.start = (place.skip t.gap.toList).offset)
    (hat : t.line = (place.skip t.gap.toList).line) (hne : trail ≠ [])
    (htrail : ∀ c ∈ trail, c = ' ' ∨ c = '\n') (h : Lexed place' behind after)
    (ht : ∀ u ∈ behind, u.Settled) (hgaps : ∀ u ∈ behind, Clear u.gap.toList) (hafter : Clear after)
    (hoffset : place'.offset = place.offset + byteSize t.gap.toList +
      (s.lead + s.text.toList.length + byteSize trail))
    (hline : place'.line = place.line + t.gap.toList.count '\n' + trail.count '\n') :
    let us := ⟨s.kind, t.gap ++ String.ofList (List.replicate s.lead ' '), s.text, t.start + s.lead,
      t.line⟩ :: widened trail behind
    ∃ after', (spaced us).toList ++ after' = t.gap.toList ++ (List.replicate s.lead ' ' ++
        (s.text.toList ++ (trail ++ ((spaced behind).toList ++ after)))) ∧
      Lexed place us after' ∧ Clear after' ∧ ∀ u ∈ us, Clear u.gap.toList := by
  intro us
  have hclear : Clear trail := clear_of_spacing fun c hc => by
    rcases htrail c hc with rfl | rfl <;> decide
  have hspaces : Clear (List.replicate s.lead ' ') :=
    clear_of_spacing fun c hc => by rw [List.eq_of_mem_replicate hc]; rfl
  have hgap' : (t.gap ++ String.ofList (List.replicate s.lead ' ')).toList
      = t.gap.toList ++ List.replicate s.lead ' ' := by
    rw [String.toList_append, String.toList_ofList]
  have hwide : Clear (t.gap.toList ++ List.replicate s.lead ' ') := hgap.append hspaces
  have hoffset' : (place.skip (t.gap.toList ++ List.replicate s.lead ' ')).offset
      = place.offset + byteSize t.gap.toList + s.lead := by
    rw [Cursor.skip, byteSize_append, byteSize_replicate, Nat.add_assoc]
  have hline' : (place.skip (t.gap.toList ++ List.replicate s.lead ' ')).line
      = place.line + t.gap.toList.count '\n' := by
    rw [Cursor.skip, List.count_append, List.count_replicate, if_neg (by decide), Nat.add_zero]
  -- what the stand-in leaves of the construct widens the gap behind it
  obtain ⟨after', htext, hlexed, hclear', hall⟩ := exists_widened
    (place.past ⟨s.kind, t.gap ++ String.ofList (List.replicate s.lead ' '), s.text,
      t.start + s.lead, t.line⟩)
    (g := trail) h ht hgaps hafter hclear
    (by
      rw [hoffset, Cursor.skip, Cursor.past, Cursor.pass, hgap', hoffset', hs.size]
      dsimp only
      omega)
    (by
      rw [hline, Cursor.skip, Cursor.past, Cursor.pass, hgap', hline',
        List.count_eq_zero.2 hs.line]
      dsimp only
      omega)
  refine ⟨after', ?_, ⟨?_, ?_, ?_, ?_, hlexed⟩, hclear', List.forall_mem_cons.2 ⟨?_, hall⟩⟩
  · simp only [us, spaced, String.toList_append, hgap', List.append_assoc, htext]
  · rw [hgap']
    exact hwide.1
  · rw [hgap', hoffset', hstart]
    rfl
  · rw [hgap', hline', hat]
    rfl
  · rw [htext]
    obtain ⟨d, w, rfl⟩ := List.exists_cons_of_ne_nil hne
    exact hs.before_blank (htrail d (by simp))
  · rw [hgap']
    exact hwide

/-- The tokens behind a place are read where the construct there is overwritten. -/
theorem exists_overwritten {place : Cursor} {f : Form} {t : Token} {rest behind : List Token}
    {after : List Char} (hf : f ∈ forms) (hspells : f.Spells (t :: rest))
    (h : Lexed place (t :: rest ++ behind) after) (ht : ∀ u ∈ behind, u.Settled)
    (hgap : Clear t.gap.toList) (hgaps : ∀ u ∈ behind, Clear u.gap.toList) (hafter : Clear after) :
    ∃ after', (spaced (overwritten f.standin (t :: rest) behind)).toList ++ after'
        = t.gap.toList ++ (written f.standin (verbatim (t :: rest)).toList ++
          ((spaced behind).toList ++ after)) ∧
      Lexed place (overwritten f.standin (t :: rest) behind) after' ∧ Clear after' ∧
      ∀ u ∈ overwritten f.standin (t :: rest) behind, Clear u.gap.toList := by
  have hbehind := (lexed_append.1 h).2
  have hoffset : (place.behind (t :: rest)).offset
      = place.offset + byteSize t.gap.toList + byteSize (verbatim (t :: rest)).toList := by
    rw [Cursor.offset_behind, spaced, toList_verbatim]
    simp only [String.toList_append, byteSize_append]
    omega
  have hline : (place.behind (t :: rest)).line
      = place.line + t.gap.toList.count '\n' + (verbatim (t :: rest)).toList.count '\n' := by
    rw [Cursor.line_behind, spaced, toList_verbatim]
    simp only [String.toList_append, List.count_append]
    omega
  cases hstandin : f.standin with
  | none =>
    -- without a stand-in the blanks join the gap in front of the next token
    have hblank : Clear (blank (verbatim (t :: rest)).toList) :=
      clear_of_spacing fun _ => isSpacing_of_mem_blank
    obtain ⟨after', htext, hlexed, hclear, hall⟩ := exists_widened place
      (g := t.gap.toList ++ blank (verbatim (t :: rest)).toList) hbehind ht hgaps hafter
      (hgap.append hblank)
      (by rw [hoffset, Cursor.skip, byteSize_append, byteSize_blank, Nat.add_assoc])
      (by rw [hline, Cursor.skip, List.count_append, count_blank, Nat.add_assoc])
    exact ⟨after', by rw [overwritten, htext, List.append_assoc]; rfl, hlexed, hclear, hall⟩
  | some s =>
    have hs : s ∈ f.standin := by rw [hstandin]; rfl
    -- with one, it stands behind some of the blanks and before at least one
    obtain ⟨trail, hne, htrail⟩ := hspells.exists_trail hf hs
    have hlead : (blank (verbatim (t :: rest)).toList).take s.lead
        = List.replicate s.lead ' ' := by
      rw [htrail, ← List.replicate_append_replicate, List.append_assoc,
        List.take_left' (List.length_replicate ..)]
    have hdrop : (blank (verbatim (t :: rest)).toList).drop (s.lead + s.text.toList.length)
        = trail := by
      rw [htrail, List.drop_left' (List.length_replicate ..)]
    have hsize := congrArg byteSize htrail
    rw [byteSize_blank, byteSize_append, byteSize_replicate] at hsize
    have hcount := congrArg (List.count '\n') htrail
    rw [count_blank, List.count_append, List.count_replicate, if_neg (by decide),
      Nat.zero_add] at hcount
    have hmem : ∀ c ∈ trail, c = ' ' ∨ c = '\n' := by
      intro c hc
      have hblank : c ∈ blank (verbatim (t :: rest)).toList := by
        rw [htrail]
        exact List.mem_append_right _ hc
      exact mem_blank hblank
    rw [overwritten, written, hlead, hdrop, List.append_assoc, List.append_assoc]
    exact exists_standin (forms_sound f hf s hs) hgap h.2.1 h.2.2.1 hne hmem hbehind ht hgaps hafter
      (by rw [hoffset, hsize]) (by rw [hline, hcount])

/-- What is written over a construct begins with the form's first character. -/
theorem Form.Spells.written_eq {f : Form} {t : Token} {rest : List Token}
    (h : f.Spells (t :: rest)) (hf : f ∈ forms) :
    ∃ more, written f.standin (verbatim (t :: rest)).toList = f.first :: more := by
  cases hstandin : f.standin with
  | none =>
    obtain ⟨hblank, hne, -⟩ := forms_room f hf t.text (h.head?_eq hf)
    obtain ⟨n, hn⟩ := Nat.exists_eq_succ_of_ne_zero (mt List.eq_nil_of_length_eq_zero hne)
    refine ⟨List.replicate n ' ' ++ blank (spaced rest).toList, ?_⟩
    rw [written, toList_verbatim, blank_append, hblank, hn, List.replicate_succ, first, hstandin]
    rfl
  | some s =>
    have hs : s ∈ f.standin := by rw [hstandin]; rfl
    obtain ⟨trail, -, htrail⟩ := h.exists_trail hf hs
    have hne : s.text.toList ≠ [] := ((forms_sound f hf s hs).stands "" 0 0).ne_nil
    obtain ⟨c, cs, htext⟩ := List.exists_cons_of_ne_nil hne
    rw [written, htrail, ← List.replicate_append_replicate, List.append_assoc,
      List.take_left' (List.length_replicate ..), first, hstandin]
    dsimp only
    rw [htext]
    cases s.lead with
    | zero => exact ⟨_, rfl⟩
    | succ n => exact ⟨_, rfl⟩

/-- **A text is parted where a construct of it was overwritten**, if the stand-in does not join the
token right before it. -/
theorem Parted.overwritten {cs after : List Char} {f : Form} {before rest behind : List Token}
    {t : Token} (h : Parted cs (before ++ t :: rest ++ behind) after) (hf : f ∈ forms)
    (hspells : f.Spells (t :: rest)) (ht : ∀ u ∈ before ++ t :: rest ++ behind, u.Settled)
    (hj : t.gap = "" → ∀ u ∈ before.getLast?, joins u.kind u.text.toList f.first = false) :
    ∃ after', Parted ((spaced before).toList ++ (t.gap.toList ++
        (written f.standin (verbatim (t :: rest)).toList ++ ((spaced behind).toList ++ after))))
      (before ++ Sanitation.overwritten f.standin (t :: rest) behind) after' := by
  obtain ⟨-, hlexed, hgaps, hafter⟩ := h
  rw [List.append_assoc] at hlexed hgaps ht
  obtain ⟨hbefore, hmiddle⟩ := lexed_append.1 hlexed
  obtain ⟨hgapsBefore, hgapsMiddle⟩ := List.forall_mem_append.1 hgaps
  obtain ⟨hsettledBefore, hsettledMiddle⟩ := List.forall_mem_append.1 ht
  obtain ⟨hgapsConstruct, hgapsBehind⟩ := List.forall_mem_append.1 hgapsMiddle
  obtain ⟨-, hsettledBehind⟩ := List.forall_mem_append.1 hsettledMiddle
  obtain ⟨after', htext, hlexed', hclear, hall⟩ := exists_overwritten hf hspells hmiddle
    hsettledBehind (hgapsConstruct t (by simp)) hgapsBehind hafter
  obtain ⟨more, hwritten⟩ := hspells.written_eq hf
  obtain ⟨hneutral, hline⟩ := forms_first f hf
  refine ⟨after', ?_, lexed_append.2 ⟨?_, hlexed'⟩, List.forall_mem_append.2 ⟨hgapsBefore, hall⟩,
    hclear⟩
  · rw [spaced_append, String.toList_append, List.append_assoc, htext]
  · rw [htext, hwritten]
    have hold : (spaced (t :: rest ++ behind)).toList ++ after
        = t.gap.toList ++ ((verbatim (t :: rest)).toList ++ ((spaced behind).toList ++ after)) := by
      simp [spaced, verbatim]
    rw [hold] at hbefore
    exact hbefore.goOn hsettledBefore hneutral hline fun hnil =>
      hj (String.toList_eq_nil_iff.1 hnil)

end Sanitation

end WitnessReplay
