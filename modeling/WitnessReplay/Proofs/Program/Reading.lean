import WitnessReplay.Proofs.Program.Grammar

/-!
# Reading by the grammar

The reader of programs reads what the grammar derives, and nothing else, as long as brackets nest.
`Stmt.Read.parse` and `Program.ReadItems.parse` say that what is derived is read;
`Stmt.read_of_parse` and `Program.read_of_parse` say that what is read is derived.
-/

namespace WitnessReplay

open Token

/-! ### What is derived is read -/

section Complete

variable {types : List String} {behind : List Token}

/-- A statement is read up to its end. -/
theorem Ends.parse {ts : List Token} {semicolon : Token} (h : Ends ts semicolon) :
    Reads (splitStatement 0 (ts ++ [semicolon] ++ behind)) ts behind :=
  splitStatement_eq_ok.2 ⟨semicolon, by simp, h⟩

/-- A leaf is read from how it is spelled. -/
theorem Leaf.Spelled.parse {content : Leaf} {ts : List Token} (h : content.Spelled types ts) :
    Reads (Stmt.parse types (ts ++ behind)) (.leaf (firstLine ts) content) behind := by
  cases h with
  | directive hk => exact (parse_directive hk).2 ⟨rfl, rfl⟩
  | empty hk ht => exact (parse_empty hk ht).2 ⟨rfl, rfl⟩
  | returns hk ht he => exact (parse_return hk ht).2 ⟨_, he.parse, rfl⟩
  | jump hk ht he => exact (parse_jump hk ht).2 ⟨_, he.parse, rfl⟩
  | plain hp he =>
    obtain ⟨t, ts, rfl⟩ := List.exists_cons_of_ne_nil (hp.ne_nil he)
    refine (parse_unmarked (fun hk => hp.kind (congrArg some hk)) hp.word).2
      (.inr ⟨?_, _, he.parse, rfl⟩)
    intro h
    obtain ⟨hk, hl⟩ := h
    refine hp.label ⟨congrArg some hk, ?_⟩
    exact (headText_append_of_ne_nil (by simp) behind).symm.trans hl

theorem Guard.parse {word : String} {inside ts : List Token} (h : Guard word inside ts) :
    ∃ name rest, ts = name :: rest ∧ name.text = word ∧ ∀ context behind,
      Reads (parenthesized context (rest ++ behind)) inside behind := by
  cases h with
  | @intro name opening closing hn ho hc hs =>
    refine ⟨name, opening :: inside ++ [closing], rfl, hn, fun context behind => ?_⟩
    exact parenthesized_eq_ok.2 ⟨opening, closing, by simp, ho, by rw [hc]; exact hs⟩

/-- A label heads what is read behind it. -/
theorem Head.Spelled.parse_label {text : String} {ts us : List Token} {line : Nat} {body : Stmt}
    (h : (Head.label text).Spelled ts) (hl : firstLine ts = some line)
    (hb : ReadsLabeled types line us body behind) :
    Reads (Stmt.parse types (ts ++ us)) (.headed (firstLine ts) (.label text) body) behind := by
  cases h with
  | case hk ht hs =>
    cases hl
    exact (parse_case hk ht).2
      ⟨_, us, body, splitLabel_eq_ok.2 ⟨_, _, rfl, by simp, hs⟩, hb, rfl⟩
  | word hk ht hc =>
    cases hl
    have hcolon : headText (_ :: us) = ":" := hc
    exact (parse_unmarked (by simp [hk]) ht).2 (.inl ⟨⟨hk, hcolon⟩, body, hb, rfl⟩)

theorem Head.Spelled.parse {head : Head} {before us : List Token} {body : Stmt}
    (h : head.Spelled before) (hb : Reads (Stmt.parse types us) body behind)
    (ha : head.Allows (headText us) (headText behind)) :
    Reads (Stmt.parse types (before ++ us)) (.headed (firstLine before) head body) behind := by
  cases h with
  | ifThen hk hg =>
    obtain ⟨name, rest, rfl, hn, hp⟩ := hg.parse
    exact (parse_if (fun h => hk (congrArg some h)) hn).2
      ⟨_, us, body, behind, hp _ _, hb, .inr ⟨ha, rfl, rfl⟩⟩
  | whileDo hk hg =>
    obtain ⟨name, rest, rfl, hn, hp⟩ := hg.parse
    exact (parse_conditional (fun h => hk (congrArg some h)) (by rw [hn]; rfl)).2
      ⟨_, us, body, hp _ _, hb, rfl⟩
  | switch hk hg =>
    obtain ⟨name, rest, rfl, hn, hp⟩ := hg.parse
    exact (parse_conditional (fun h => hk (congrArg some h)) (by rw [hn]; rfl)).2
      ⟨_, us, body, hp _ _, hb, rfl⟩
  | forLoop hk hg =>
    obtain ⟨name, rest, rfl, hn, hp⟩ := hg.parse
    exact (parse_for (fun h => hk (congrArg some h)) hn).2 ⟨_, us, body, hp _ _, hb, rfl⟩
  | case hk ht hs => exact (Head.Spelled.case hk ht hs).parse_label rfl (.inr ⟨ha, hb⟩)
  | word hk ht hc => exact (Head.Spelled.word hk ht hc).parse_label rfl (.inr ⟨ha, hb⟩)

mutual

/-- What the grammar derives of a statement is read. -/
theorem Stmt.Read.parse {ts printed behind : List Token} :
    (s : Stmt) → Stmt.Read types s ts (headText behind) printed →
      Reads (Stmt.parse types (ts ++ behind)) s behind
  | .leaf _ _, h => by
    cases h with
    | leaf h => exact h.parse
  | .block _ items, h => by
    cases h with
    | @block opening closing _ ts printed _ hk ho hc h =>
      refine (parse_block hk ho).2 ⟨items, ?_, rfl⟩
      show Reads (Stmt.parseItems types (ts ++ [closing] ++ behind)) items behind
      rw [List.append_assoc]
      exact Stmt.ReadAll.parse items h hc
  | .headed _ _ body, h => by
    generalize hnext : headText behind = next at h
    cases h with
    | @headed head _ before ts printed _ hh hb ha =>
      subst hnext
      rw [List.append_assoc]
      refine hh.parse (Stmt.Read.parse body hb) ?_
      rwa [headText_append_of_ne_nil hb.ne_nil]
    | lastLabel hh =>
      obtain ⟨t, ts, rfl⟩ := List.exists_cons_of_ne_nil hh.ne_nil
      exact hh.parse_label rfl (.inl ⟨hnext, rfl, rfl⟩)
    | @doWhile word semicolon _ inside guard ts printed _ hk hw hb hg hs =>
      obtain ⟨name, rest, rfl, hn, hp⟩ := hg.parse
      have hbehind : headText (name :: rest ++ [semicolon] ++ behind) = "while" := hn
      rw [← hbehind] at hb
      have hbody := Stmt.Read.parse body hb
      have hguard := hp .condition (semicolon :: behind)
      rw [show rest ++ semicolon :: behind = rest ++ [semicolon] ++ behind by simp] at hguard
      show Reads (Stmt.parse types (word :: (ts ++ (name :: rest ++ [semicolon])) ++ behind)) _ _
      rw [List.cons_append, List.append_assoc]
      exact (parse_do hk hw).2 ⟨body, _, name, inside, _, semicolon, hbody, rfl, hn, hs,
        hguard, rfl⟩
  | .ifElse _ _ yes no, h => by
    cases h with
    | @ifElse word _ _ inside guard ts us printed printed' _ hk hg hy hw hn =>
      obtain ⟨name, rest, rfl, hname, hp⟩ := hg.parse
      have hbehind : headText (word :: us ++ behind) = "else" := hw
      rw [← hbehind] at hy
      have hyes := Stmt.Read.parse yes hy
      have hno := Stmt.Read.parse no hn
      rw [List.append_assoc, List.append_assoc]
      exact (parse_if (fun h => hk (congrArg some h)) hname).2
        ⟨inside, _, yes, _, hp _ _, hyes, .inl ⟨hbehind, no, hno, rfl⟩⟩

/-- What the grammar derives of the statements of a block is read through the closing brace. -/
theorem Stmt.ReadAll.parse {ts printed behind : List Token} {closing : Token} :
    (items : List Stmt) → Stmt.ReadAll types items ts printed → closing.text = "\x7d" →
      Reads (Stmt.parseItems types (ts ++ closing :: behind)) items behind
  | [], h, hc => by
    cases h
    exact (parseItems_end hc).2 ⟨rfl, rfl⟩
  | s :: rest, h, hc => by
    cases h with
    | @cons _ _ ts us printed printed' hs ht hr =>
      have hnext : headText (us ++ closing :: behind) = textAt us "\x7d" := by
        rw [headText_append, ← hc]
        rfl
      rw [← hnext] at hs
      have hfirst := Stmt.Read.parse s hs
      have hmore : Reads (Stmt.parseItems types (us ++ closing :: behind)) rest behind :=
        Stmt.ReadAll.parse rest hr hc
      obtain ⟨t, ts, rfl⟩ := List.exists_cons_of_ne_nil hs.ne_nil
      rw [List.append_assoc]
      exact (parseItems_cons ht).2 ⟨s, _, rest, hfirst, hmore, rfl⟩

end

end Complete

/-! ### What is read is derived -/

section Sound

variable {types : List String}

/-- A statement that was read ends where it was cut. -/
theorem Ends.of_parse {ts value rest : List Token} (h : Reads (splitStatement 0 ts) value rest) :
    ∃ semicolon, Ends value semicolon ∧ ts = value ++ semicolon :: rest := by
  obtain ⟨semicolon, hts, hs⟩ := splitStatement_eq_ok.1 h
  exact ⟨semicolon, hs, hts⟩

/-- A condition that was read is one. -/
theorem Guard.of_parse {t : Token} {ts inside rest : List Token} {context : Construct}
    (h : Reads (parenthesized context ts) inside rest) (hn : NestedWithin (t :: ts)) :
    ∃ guard, Guard t.text inside (t :: guard) ∧ ts = guard ++ rest := by
  obtain ⟨opening, closing, rfl, ho, hs⟩ := parenthesized_eq_ok.1 h
  have hc := closing_text hn.tail ho hs
  rw [hc] at hs
  exact ⟨opening :: inside ++ [closing], .intro rfl ho hc hs, by simp⟩

/-- A statement that no word makes another is plain. -/
theorem Plain.of_parse {t semicolon : Token} {ts value rest : List Token}
    (hk : t.kind ≠ .directive) (ht : t.text ∉ statementWords)
    (hl : ¬ (t.kind = .word ∧ headText ts = ":")) (he : Ends value semicolon)
    (hts : t :: ts = value ++ semicolon :: rest) : Plain (value ++ [semicolon]) := by
  cases value with
  | nil =>
    cases hts
    exact absurd (by simp [he.text, statementWords]) ht
  | cons u value =>
    cases hts
    refine ⟨fun h => hk (Option.some.inj h), ht, ?_⟩
    intro h
    obtain ⟨hkind, hcolon⟩ := h
    refine hl ⟨Option.some.inj hkind, ?_⟩
    have happend : value ++ semicolon :: rest = value ++ [semicolon] ++ rest := by simp
    have hhead := headText_append_of_ne_nil (by simp : value ++ [semicolon] ≠ []) rest
    rw [← happend] at hhead
    exact hhead.trans hcolon

/-- Tokens that begin with a text have a first token. -/
theorem exists_cons_of_headText {ts : List Token} {text : String} (h : headText ts = text)
    (hne : text ≠ "") : ∃ t, t.text = text ∧ ts = t :: ts.tail := by
  cases ts with
  | nil => exact absurd h.symm hne
  | cons t ts => exact ⟨t, h, rfl⟩

/-- A label with the statement behind it. -/
theorem Stmt.Read.of_label {text : String} {label ts rest : List Token} {line : Nat} {body : Stmt}
    (hl : (Head.label text).Spelled label) (hline : firstLine label = some line)
    (hbody : ReadsLabeled types line ts body rest)
    (ih : Reads (Stmt.parse types ts) body rest →
      ∃ used printed, Stmt.Read types body used (headText rest) printed ∧ ts = used ++ rest) :
    ∃ used printed, Stmt.Read types (.headed line (.label text) body) used (headText rest) printed ∧
      label ++ ts = used ++ rest := by
  rw [← hline]
  rcases hbody with ⟨hend, rfl, rfl⟩ | ⟨hend, hbody⟩
  · rw [hend, ← hline]
    exact ⟨label, _, .lastLabel hl, rfl⟩
  · obtain ⟨used, printed, hread, rfl⟩ := ih hbody
    rw [headText_append_of_ne_nil hread.ne_nil] at hend
    exact ⟨_, _, .headed hl hread hend, (List.append_assoc ..).symm⟩

mutual

/-- What is read as a statement is derived. -/
theorem Stmt.read_of_parse {rest : List Token} {s : Stmt} :
    (ts : List Token) → Reads (Stmt.parse types ts) s rest → NestedWithin ts →
      ∃ used printed, Stmt.Read types s used (headText rest) printed ∧ ts = used ++ rest
  | [], h, _ => (parse_nil h).elim
  | t :: ts, h, hn => by
    have htail : NestedWithin ts := hn.tail
    have hhead (hk : t.kind ≠ .directive) (us : List Token) :
        headKind? (t :: us) ≠ some .directive :=
      fun h => hk (Option.some.inj h)
    cases branch_of_parse h with
    | directive hk => exact ⟨[t], _, .leaf (.directive hk), rfl⟩
    | block hk ht hitems =>
      obtain ⟨used, printed, closing, hread, hc, rfl⟩ := Stmt.readAll_of_parse ts hitems htail
      exact ⟨_, _, .block hk ht hc hread, by simp⟩
    | empty hk ht => exact ⟨[t], _, .leaf (.empty hk ht), rfl⟩
    | @ifElse inside behind behind' _ yes no hk ht hcond hyes helse hno =>
      have := hcond.shorter
      have := hyes.shorter
      obtain ⟨guard, hguard, rfl⟩ := Guard.of_parse hcond hn
      rw [ht] at hguard
      obtain ⟨used, printed, hread, rfl⟩ := Stmt.read_of_parse behind hyes htail.right
      -- the branch is derived before the `else` that is behind it
      obtain ⟨word, hword, hbehind⟩ := exists_cons_of_headText helse (by decide)
      obtain ⟨used', printed', hread', hused⟩ :=
        Stmt.read_of_parse behind'.tail hno htail.right.right.tail
      rw [helse] at hread
      refine ⟨_, _, .ifElse (hhead hk _) hguard hread hword hread', ?_⟩
      rw [hbehind, hused]
      simp
    | @ifThen inside behind _ yes hk ht hcond hyes helse =>
      have := hcond.shorter
      obtain ⟨guard, hguard, rfl⟩ := Guard.of_parse hcond hn
      rw [ht] at hguard
      obtain ⟨used, printed, hread, rfl⟩ := Stmt.read_of_parse behind hyes htail.right
      exact ⟨_, _, .headed (.ifThen (hhead hk _) hguard) hread helse, by simp⟩
    | @doWhile inside behind _ word semicolon body hk ht hbody hword hcond hs =>
      obtain ⟨used, printed, hread, rfl⟩ := Stmt.read_of_parse ts hbody htail
      obtain ⟨guard, hguard, rfl⟩ := Guard.of_parse hcond htail.right
      rw [hword] at hguard
      have hread : Stmt.Read types body used "while" printed := hword ▸ hread
      exact ⟨_, _, .doWhile hk ht hread hguard hs, by simp⟩
    | @forLoop inside behind _ body hk ht hheader hbody =>
      have := hheader.shorter
      obtain ⟨guard, hguard, rfl⟩ := Guard.of_parse hheader hn
      rw [ht] at hguard
      obtain ⟨used, printed, hread, rfl⟩ := Stmt.read_of_parse behind hbody htail.right
      exact ⟨_, _, .headed (.forLoop (hhead hk _) hguard) hread trivial, by simp⟩
    | @whileDo inside behind _ body hk ht hcond hbody =>
      have := hcond.shorter
      obtain ⟨guard, hguard, rfl⟩ := Guard.of_parse hcond hn
      rw [ht] at hguard
      obtain ⟨used, printed, hread, rfl⟩ := Stmt.read_of_parse behind hbody htail.right
      exact ⟨_, _, .headed (.whileDo (hhead hk _) hguard) hread trivial, by simp⟩
    | @switch inside behind _ body hk ht hcond hbody =>
      have := hcond.shorter
      obtain ⟨guard, hguard, rfl⟩ := Guard.of_parse hcond hn
      rw [ht] at hguard
      obtain ⟨used, printed, hread, rfl⟩ := Stmt.read_of_parse behind hbody htail.right
      exact ⟨_, _, .headed (.switch (hhead hk _) hguard) hread trivial, by simp⟩
    | @case label behind _ body hk ht hlabel hbody =>
      have := hlabel.shorter
      obtain ⟨value, colon, rfl, rfl, hs⟩ := splitLabel_eq_ok.1 hlabel
      have hbehind := htail.right.tail
      obtain ⟨used, printed, hread, hused⟩ := Stmt.Read.of_label (.case hk ht hs) rfl hbody
        fun hbody => Stmt.read_of_parse behind hbody hbehind
      exact ⟨used, printed, hread, by rw [← hused]; simp⟩
    | @label _ body hk ht hcolon hbody =>
      obtain ⟨colon, hcolon, hts⟩ := exists_cons_of_headText hcolon (by decide)
      obtain ⟨used, printed, hread, hused⟩ := Stmt.Read.of_label (.word hk ht hcolon) rfl
        hbody fun hbody => Stmt.read_of_parse ts.tail hbody htail.tail
      have htake : ts.take 1 = [colon] := by rw [hts]; rfl
      rw [htake]
      exact ⟨used, printed, hread, by rw [← hused, hts]; rfl⟩
    | returns hk ht hvalue =>
      obtain ⟨semicolon, he, rfl⟩ := Ends.of_parse hvalue
      exact ⟨_, _, .leaf (.returns hk ht he), by simp⟩
    | jump hk ht htarget =>
      obtain ⟨semicolon, he, rfl⟩ := Ends.of_parse htarget
      exact ⟨_, _, .leaf (.jump hk ht he), by simp⟩
    | @plain value _ hk ht hlabel hvalue =>
      obtain ⟨semicolon, he, hts⟩ := Ends.of_parse hvalue
      have hplain : Plain (value ++ [semicolon]) := .of_parse hk ht hlabel he hts
      have hline : firstLine (value ++ [semicolon]) = some t.line := by
        cases value <;> cases hts <;> rfl
      rw [← hline]
      exact ⟨_, _, .leaf (.plain hplain he), by rw [hts]; simp⟩
termination_by ts => 2 * ts.length
decreasing_by
  all_goals simp only [List.length_tail, List.length_append, List.length_cons] at *
  all_goals omega

/-- What is read as the statements of a block is derived, and a closing brace is behind it. -/
theorem Stmt.readAll_of_parse {rest : List Token} {items : List Stmt} :
    (ts : List Token) → Reads (Stmt.parseItems types ts) items rest → NestedWithin ts →
      ∃ used printed closing, Stmt.ReadAll types items used printed ∧ closing.text = "\x7d" ∧
        ts = used ++ closing :: rest
  | [], h, _ => (parseItems_nil h).elim
  | t :: ts, h, hn => by
    by_cases ht : t.text = "\x7d"
    · obtain ⟨rfl, rfl⟩ := (parseItems_end ht).1 h
      exact ⟨[], [], t, .nil, ht, rfl⟩
    obtain ⟨first, behind, more, hfirst, hmore, rfl⟩ := (parseItems_cons ht).1 h
    obtain ⟨used, printed, hread, hused⟩ := Stmt.read_of_parse (t :: ts) hfirst hn
    have hbehind : NestedWithin behind :=
      NestedWithin.right (show NestedWithin (used ++ behind) from hused ▸ hn)
    have hpos := List.length_pos_iff.2 hread.ne_nil
    have hlength := congrArg List.length hused
    obtain ⟨used', printed', closing, hread', hc, rfl⟩ := Stmt.readAll_of_parse behind hmore hbehind
    rw [headText_append, show headText (closing :: rest) = "\x7d" from hc] at hread
    have hfirst : headText used ≠ "\x7d" := by
      rw [← headText_append_of_ne_nil hread.ne_nil, ← hused]
      exact ht
    exact ⟨_, _, closing, .cons hread hfirst hread', hc, by rw [hused]; simp⟩
termination_by ts => 2 * ts.length + 1
decreasing_by
  all_goals simp only [List.length_append, List.length_cons] at *
  all_goals omega

end

end Sound

end WitnessReplay
