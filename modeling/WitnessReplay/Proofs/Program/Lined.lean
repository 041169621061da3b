import WitnessReplay.Proofs.Program.Items
import WitnessReplay.Proofs.Program.Walk

/-!
# Every statement that was read has a line

A statement that the parser reads starts on the line of its first token, and so do all statements
below it. So a statement that was read is told from one that a replay inserts, which has no line
(`Program.lined_of_parse`), and its line is one on which a token stands (`linedBy_of_parse`).
-/

namespace WitnessReplay

open Token

namespace Stmt

/-- A statement that has a line, as have all below it. -/
def Lined (s : Stmt) : Prop :=
  s.line.isSome ∧ s.Every fun _ t => t.line.isSome

/-- A statement that has a line of some sort, as have all below it. -/
def LinedBy (P : Nat → Prop) (s : Stmt) : Prop :=
  (∃ l ∈ s.line, P l) ∧ s.Every fun _ t => ∃ l ∈ t.line, P l

variable {P : Nat → Prop}

/-- A statement with lines of some kind has lines. -/
theorem LinedBy.lined {s : Stmt} (h : s.LinedBy P) : s.Lined :=
  ⟨Option.isSome_iff_exists.2 (h.1.imp fun _ hl => hl.1),
    fun o ho => Option.isSome_iff_exists.2 ((h.2 o ho).imp fun _ hl => hl.1)⟩

section

variable {l : Nat} (hl : P l)

include hl

theorem LinedBy.leaf {content : Leaf} : (leaf (some l) content).LinedBy P :=
  ⟨⟨l, rfl, hl⟩, every_leaf⟩

theorem LinedBy.block {items : List Stmt} (h : ∀ s ∈ items, s.LinedBy P) :
    (block (some l) items).LinedBy P :=
  ⟨⟨l, rfl, hl⟩, every_block.2 h⟩

theorem LinedBy.headed {head : Head} {body : Stmt} (h : body.LinedBy P) :
    (headed (some l) head body).LinedBy P :=
  ⟨⟨l, rfl, hl⟩, every_headed.2 h⟩

theorem LinedBy.ifElse {cond : Expr} {yes no : Stmt} (hyes : yes.LinedBy P)
    (hno : no.LinedBy P) : (ifElse (some l) cond yes no).LinedBy P :=
  ⟨⟨l, rfl, hl⟩, every_ifElse.2 ⟨hyes, hno⟩⟩

end

end Stmt

namespace Token

/-- All of some tokens stand on lines of some sort. -/
def On (P : Nat → Prop) (ts : List Token) : Prop :=
  ∀ t ∈ ts, P t.line

variable {P : Nat → Prop} {ts us : List Token}

theorem On.right (h : On P (ts ++ us)) : On P us :=
  fun t ht => h t (List.mem_append_right _ ht)

theorem On.tail (h : On P ts) : On P ts.tail :=
  fun t ht => h t (List.mem_of_mem_tail ht)

/-- Behind a condition, tokens are still on lines of that kind. -/
theorem On.parenthesized {context : Construct} {inside rest : List Token} (h : On P ts)
    (hp : Reads (parenthesized context ts) inside rest) : On P rest := by
  obtain ⟨opening, closing, rfl, -, -⟩ := parenthesized_eq_ok.1 hp
  exact h.right.tail

theorem On.splitStatement {value rest : List Token} (h : On P ts)
    (hs : Reads (splitStatement 0 ts) value rest) : On P rest := by
  obtain ⟨semicolon, rfl, -⟩ := splitStatement_eq_ok.1 hs
  exact h.right.tail

theorem On.splitLabel {label rest : List Token} (h : On P ts)
    (hl : Reads (splitLabel 0 ts) label rest) : On P rest := by
  obtain ⟨before, colon, -, rfl, -⟩ := splitLabel_eq_ok.1 hl
  exact h.right.tail

end Token

namespace Stmt

variable {types : List String} {P : Nat → Prop}

/-- The statement behind a label is lined if what is read as a statement is. -/
theorem LinedBy.of_label {line : Nat} {ts rest : List Token} {body : Stmt} (hl : P line)
    (h : ReadsLabeled types line ts body rest) (hts : On P ts)
    (ih : Reads (Stmt.parse types ts) body rest → body.LinedBy P ∧ On P rest) :
    body.LinedBy P ∧ On P rest := by
  rcases h with ⟨-, rfl, rfl⟩ | ⟨-, hbody⟩
  · exact ⟨.leaf hl, hts⟩
  · exact ih hbody

mutual

/-- A statement that is read has the line of its first token, and so have those inside of it. The
induction is on the tokens; each case reads its parts from fewer. -/
theorem linedBy_of_parse {rest : List Token} {s : Stmt} :
    (ts : List Token) → Reads (Stmt.parse types ts) s rest → On P ts → s.LinedBy P ∧ On P rest
  | [], h, _ => (parse_nil h).elim
  | t :: ts, h, hon => by
    have hl : P t.line := hon t List.mem_cons_self
    have hts : On P ts := hon.tail
    cases branch_of_parse h with
    | directive | empty => exact ⟨.leaf hl, hts⟩
    | returns _ _ hvalue | jump _ _ hvalue => exact ⟨.leaf hl, hts.splitStatement hvalue⟩
    | plain _ _ _ hvalue => exact ⟨.leaf hl, hon.splitStatement hvalue⟩
    | block _ _ hitems =>
      obtain ⟨hitems, hrest⟩ := linedBy_of_parseItems ts hitems hts
      exact ⟨.block hl hitems, hrest⟩
    | @ifElse _ behind behind' _ _ _ _ _ hcond hyes _ hno =>
      have := hcond.shorter
      have := hyes.shorter
      obtain ⟨hyes, hbehind⟩ := linedBy_of_parse behind hyes (hts.parenthesized hcond)
      obtain ⟨hno, hrest⟩ := linedBy_of_parse behind'.tail hno hbehind.tail
      exact ⟨.ifElse hl hyes hno, hrest⟩
    | doWhile _ _ hbody _ hcond =>
      obtain ⟨hbody, hbehind⟩ := linedBy_of_parse ts hbody hts
      exact ⟨.headed hl hbody, (hbehind.tail.parenthesized hcond).tail⟩
    | @ifThen _ behind _ _ _ _ hbefore hbody | @whileDo _ behind _ _ _ _ hbefore hbody
    | @switch _ behind _ _ _ _ hbefore hbody | @forLoop _ behind _ _ _ _ hbefore hbody =>
      -- one condition in front of one body, whatever word heads them
      have := hbefore.shorter
      obtain ⟨hbody, hrest⟩ := linedBy_of_parse behind hbody (hts.parenthesized hbefore)
      exact ⟨.headed hl hbody, hrest⟩
    | @case _ behind _ _ _ _ hlabel hbody =>
      have := hlabel.shorter
      have hbehind := hts.splitLabel hlabel
      obtain ⟨hbody, hrest⟩ := LinedBy.of_label hl hbody hbehind
        fun hbody => linedBy_of_parse behind hbody hbehind
      exact ⟨.headed hl hbody, hrest⟩
    | label _ _ _ hbody =>
      obtain ⟨hbody, hrest⟩ := LinedBy.of_label hl hbody hts.tail
        fun hbody => linedBy_of_parse ts.tail hbody hts.tail
      exact ⟨.headed hl hbody, hrest⟩
termination_by ts => 2 * ts.length
decreasing_by
  all_goals simp only [List.length_tail, List.length_cons] at *
  all_goals omega

theorem linedBy_of_parseItems {rest : List Token} {items : List Stmt} :
    (ts : List Token) → Reads (Stmt.parseItems types ts) items rest → On P ts →
      (∀ s ∈ items, s.LinedBy P) ∧ On P rest
  | [], h, _ => (parseItems_nil h).elim
  | t :: ts, h, hon => by
    by_cases ht : t.text = "\x7d"
    · obtain ⟨rfl, rfl⟩ := (parseItems_end ht).1 h
      exact ⟨List.forall_mem_nil _, hon.tail⟩
    obtain ⟨first, behind, more, hfirst, hmore, rfl⟩ := (parseItems_cons ht).1 h
    have := hfirst.shorter
    obtain ⟨hfirst, hbehind⟩ := linedBy_of_parse (t :: ts) hfirst hon
    obtain ⟨hmore, hrest⟩ := linedBy_of_parseItems behind hmore hbehind
    exact ⟨List.forall_mem_cons.2 ⟨hfirst, hmore⟩, hrest⟩
termination_by ts => 2 * ts.length + 1
decreasing_by
  all_goals simp only [List.length_cons] at *
  all_goals omega

end

end Stmt

namespace Program

variable {P : Nat → Prop}

theorem linedBy_of_parseProgramItems {types : List String} {items : List Item} :
    (ts : List Token) → parseProgramItems types ts = .ok items → On P ts →
      ∀ d, .function d ∈ items → d.body.LinedBy P
  | [], h, _ => by
    rw [parseProgramItems] at h
    cases h
    exact fun d hd => absurd hd List.not_mem_nil
  | t :: ts, h, hon => by
    intro d hd
    cases itemBranch_of_parse h with
    | directive _ hrest =>
      rcases List.mem_cons.1 hd with hd | hd
      · cases hd
      · exact linedBy_of_parseProgramItems ts hrest hon.tail d hd
    | @verbatim _ _ after _ _ _ hs _ hrest =>
      have hshort := splitItem_length hs
      -- a declaration has no body: the function is behind it
      have hafter : On P after := (splitItem_eq hs ▸ hon).right.tail
      rcases List.mem_cons.1 hd with hd | hd
      · cases hd
      · exact linedBy_of_parseProgramItems after hrest hafter d hd
    | @function _ _ after behind _ _ _ _ hs _ hbody hrest =>
      have hshort := splitItem_length hs
      have hbehind := hbody.shorter
      have hon := (splitItem_eq hs ▸ hon).right
      obtain ⟨hbody, hrestOn⟩ := Stmt.linedBy_of_parseItems after hbody hon.tail
      rcases List.mem_cons.1 hd with hd | hd
      · cases hd
        exact .block (hon _ List.mem_cons_self) hbody
      · exact linedBy_of_parseProgramItems behind hrest hrestOn d hd
termination_by ts => ts.length
decreasing_by
  all_goals simp only [List.length_cons] at *
  all_goals omega

/-- The functions of a program that was read have bodies with lines on which tokens stand. -/
theorem linedBy_of_parse {source : String} {p : Program} {ts : List Token}
    (h : Program.parse source = .ok p) (hts : tokenize source = .ok ts) (hon : On P ts) :
    ∀ d, .function d ∈ p.items → d.body.LinedBy P := by
  rw [Program.parse, hts] at h
  dsimp only at h
  split at h
  next => cases h
  next hitems =>
    cases h
    exact linedBy_of_parseProgramItems _ hitems hon

/-- The functions of a program that was read have lined bodies. -/
theorem lined_of_parse {source : String} {p : Program} (h : Program.parse source = .ok p) :
    ∀ d, .function d ∈ p.items → d.body.Lined := by
  cases hts : tokenize source with
  | error e =>
    rw [Program.parse, hts] at h
    cases h
  | ok ts =>
    exact fun d hd =>
      (linedBy_of_parse (P := fun _ => True) h hts (fun _ _ => trivial) d hd).lined

end Program

end WitnessReplay
