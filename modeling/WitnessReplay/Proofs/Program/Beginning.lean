import WitnessReplay.Proofs.Program.Items
import WitnessReplay.Proofs.Program.Order
import WitnessReplay.Proofs.Source.LineCount

/-!
# Where statements begin

A statement that was read begins at a token, its first one (`Stmt.BeginsAt`), and has the line of
that token. Taken in the order of the text, the statements of a program begin one after the other in
its tokens (`Program.inOrder_of_parse`). Tokens come in the order of their lines, so the lines of
the statements never decrease (`Program.pairwise_line_of_parse`), however deep the statements stand
in each other.
-/

namespace WitnessReplay

open Token

namespace Stmt

/-- A statement that begins at the front of some tokens: it is what is read there, or the empty
statement behind a label that closes its block. The tokens are those of the label then, which are
all that is read. -/
inductive BeginsAt : List Token → Stmt → Prop
  | read {types : List String} {t : Token} {ts rest : List Token} {s : Stmt}
      (h : Reads (Stmt.parse types (t :: ts)) s rest) : BeginsAt (t :: ts) s
  | closing {types : List String} {t : Token} {ts label rest : List Token}
      (h : Reads (Stmt.parse types (t :: ts))
        (headed t.line (.label (verbatim (t :: label))) (leaf t.line .empty)) rest)
      (hts : ts = label ++ rest) (hend : headText rest = "\x7d") :
      BeginsAt (t :: ts) (leaf t.line .empty)

/-- A statement has the line of its first token. -/
theorem BeginsAt.line_eq {t : Token} {ts : List Token} {s : Stmt} (h : s.BeginsAt (t :: ts)) :
    s.line = some t.line := by
  cases h with
  | read h => cases branch_of_parse h <;> rfl
  | closing => rfl

theorem BeginsAt.ne_nil {ts : List Token} {s : Stmt} (h : s.BeginsAt ts) : ts ≠ [] := by
  cases h <;> exact List.cons_ne_nil _ _

/-- Statements that begin one after the other in a token list: each no earlier than the one before,
and the last no later than what is left of the list behind all of them. -/
inductive InOrder : List Token → List Stmt → List Token → Prop
  | nil {ts after : List Token} (h : after <:+ ts) : InOrder ts [] after
  | cons {ts us after : List Token} {s : Stmt} {ss : List Stmt} (h : us <:+ ts)
      (hs : s.BeginsAt us) (hss : InOrder us ss after) : InOrder ts (s :: ss) after

namespace InOrder

variable {ts us after after' : List Token} {s : Stmt} {ss more : List Stmt}

/-- What is left behind statements is the end of the tokens. -/
theorem suffix (h : InOrder ts ss after) : after <:+ ts := by
  induction h with
  | nil h => exact h
  | cons h _ _ ih => exact ih.trans h

/-- Statements in order stay so with more tokens before them. -/
theorem widen (h : InOrder us ss after) (hs : us <:+ ts) : InOrder ts ss after := by
  cases h with
  | nil h => exact .nil (h.trans hs)
  | cons h hbegins hss => exact .cons (h.trans hs) hbegins hss

/-- Statements in order behind others are in order with them. -/
theorem append (h : InOrder ts ss after) (hmore : InOrder after more after') :
    InOrder ts (ss ++ more) after' := by
  induction h with
  | nil h => exact hmore.widen h
  | cons h hbegins _ ih => exact .cons h hbegins (ih hmore)

/-- They leave less if less is left. -/
theorem narrow (h : InOrder ts ss after) (hs : after' <:+ after) : InOrder ts ss after' := by
  have := h.append (.nil hs)
  rwa [List.append_nil] at this

/-- The places at which the statements begin, from the first to the last. -/
theorem exists_places (h : InOrder ts ss after) : ∃ places : List (List Token),
    List.Forall₂ (fun us s => s.BeginsAt us) places ss ∧ (∀ us ∈ places, us <:+ ts) ∧
      places.Pairwise fun us us' => us' <:+ us := by
  induction h with
  | nil => exact ⟨[], .nil, List.forall_mem_nil _, .nil⟩
  | @cons ts us after s ss h hbegins _ ih =>
    obtain ⟨places, hplaces, hsuffix, hpairwise⟩ := ih
    refine ⟨us :: places, .cons hbegins hplaces, ?_, .cons hsuffix hpairwise⟩
    exact List.forall_mem_cons.2 ⟨h, fun us' hus' => (hsuffix us' hus').trans h⟩

/-- Where tokens come in the order of their lines, so do statements. -/
theorem pairwise_line (h : InOrder ts ss after) (hts : ts.Pairwise (·.line ≤ ·.line)) :
    ss.Pairwise fun s s' => ∀ l ∈ s.line, ∀ l' ∈ s'.line, l ≤ l' := by
  -- no statement begins before the tokens that are left
  have hlower {ts after : List Token} {ss : List Stmt} (h : InOrder ts ss after) (n : Nat)
      (hn : ∀ t ∈ ts, n ≤ t.line) : ∀ s ∈ ss, ∀ l ∈ s.line, n ≤ l := by
    induction h with
    | nil => exact List.forall_mem_nil _
    | @cons ts us after s ss h hbegins _ ih =>
      have hus : ∀ t ∈ us, n ≤ t.line := fun t ht => hn t (h.subset ht)
      refine List.forall_mem_cons.2 ⟨?_, ih hus⟩
      obtain ⟨t, rest, rfl⟩ := List.exists_cons_of_ne_nil hbegins.ne_nil
      intro l hl
      rw [hbegins.line_eq] at hl
      cases hl
      exact hus t List.mem_cons_self
  induction h with
  | nil => exact .nil
  | @cons ts us after s ss h hbegins hss ih =>
    have hus := hts.sublist h.sublist
    refine .cons ?_ (ih hus)
    obtain ⟨t, rest, rfl⟩ := List.exists_cons_of_ne_nil hbegins.ne_nil
    intro s' hs' l hl
    rw [hbegins.line_eq] at hl
    cases hl
    refine hlower hss t.line ?_ s' hs'
    exact List.forall_mem_cons.2 ⟨Nat.le_refl _, fun u hu => List.rel_of_pairwise_cons hus hu⟩

end InOrder

end Stmt

/-! ### What is left behind the parts of a statement -/

section

variable {ts inside rest : List Token}

/-- What is behind a condition is the end of the tokens. -/
theorem suffix_of_parenthesized {context : Construct}
    (h : Reads (parenthesized context ts) inside rest) : rest <:+ ts := by
  obtain ⟨opening, closing, rfl, -, -⟩ := parenthesized_eq_ok.1 h
  exact ⟨opening :: inside ++ [closing], by simp⟩

theorem suffix_of_splitStatement (h : Reads (splitStatement 0 ts) inside rest) : rest <:+ ts := by
  obtain ⟨semicolon, rfl, -⟩ := splitStatement_eq_ok.1 h
  exact ⟨inside ++ [semicolon], by simp⟩

/-- A label and what is behind it are the tokens. -/
theorem splitLabel_append (h : Reads (splitLabel 0 ts) inside rest) : ts = inside ++ rest := by
  obtain ⟨before, colon, rfl, rfl, -⟩ := splitLabel_eq_ok.1 h
  simp

end

namespace Stmt

variable {types : List String}

theorem listing_singleton (s : Stmt) : listing [s] = s :: s.inner := by
  rw [listing_cons, listing, List.flatMap_nil, List.append_nil]

/-- The statement behind a label begins no earlier than the label. -/
theorem InOrder.of_label {t : Token} {ts label behind rest : List Token} {body : Stmt}
    (hbody : ReadsLabeled types t.line behind body rest) (hts : ts = label ++ behind)
    (h : Reads (Stmt.parse types (t :: ts))
      (headed t.line (.label (verbatim (t :: label))) body) rest)
    (ih : Reads (Stmt.parse types behind) body rest → InOrder behind (listing [body]) rest) :
    InOrder (t :: ts) (listing [body]) rest := by
  have hbehind : behind <:+ t :: ts := ⟨t :: label, by rw [hts, List.cons_append]⟩
  rcases hbody with ⟨hend, rfl, rfl⟩ | ⟨-, hbody⟩
  · refine .cons List.suffix_rfl (.closing h hts hend) ?_
    rw [inner_leaf]
    exact .nil hbehind
  · exact (ih hbody).widen hbehind

mutual

/-- A statement that was read and those below it begin one after the other. -/
theorem inOrder_of_parse {rest : List Token} {s : Stmt} :
    (ts : List Token) → Reads (Stmt.parse types ts) s rest → InOrder ts (listing [s]) rest
  | [], h => (parse_nil h).elim
  | t :: ts, h => by
    have hts : ts <:+ t :: ts := List.suffix_cons t ts
    -- the statement itself begins at `t`: only those below it are left to show
    suffices InOrder (t :: ts) s.inner rest by
      rw [listing_singleton]
      exact .cons List.suffix_rfl (.read h) this
    cases branch_of_parse h with
    | directive | empty => rw [inner_leaf]; exact .nil hts
    | returns _ _ hvalue | jump _ _ hvalue =>
      rw [inner_leaf]
      exact .nil ((suffix_of_splitStatement hvalue).trans hts)
    | plain _ _ _ hvalue =>
      rw [inner_leaf]
      exact .nil (suffix_of_splitStatement hvalue)
    | block _ _ hitems =>
      rw [inner_block]
      exact (inOrder_of_parseItems ts hitems).widen hts
    | @ifElse _ behind behind' _ yes no _ _ hcond hyes _ hno =>
      have := hcond.shorter
      have := hyes.shorter
      have hbehind := (suffix_of_parenthesized hcond).trans hts
      rw [inner_ifElse, show [yes, no] = [yes] ++ [no] from rfl, listing_append]
      exact ((inOrder_of_parse behind hyes).widen hbehind).append
        ((inOrder_of_parse behind'.tail hno).widen (List.tail_suffix _))
    | @doWhile _ behind _ word semicolon body _ _ hbody _ hcond =>
      rw [inner_headed]
      have hbehind := (suffix_of_parenthesized hcond).trans (List.suffix_cons word behind)
      exact ((inOrder_of_parse ts hbody).widen hts).narrow
        ((List.suffix_cons semicolon rest).trans hbehind)
    | @ifThen _ behind _ _ _ _ hbefore hbody | @whileDo _ behind _ _ _ _ hbefore hbody
    | @switch _ behind _ _ _ _ hbefore hbody | @forLoop _ behind _ _ _ _ hbefore hbody =>
      -- one condition in front of one body, whatever word heads them
      have := hbefore.shorter
      rw [inner_headed]
      exact (inOrder_of_parse behind hbody).widen ((suffix_of_parenthesized hbefore).trans hts)
    | @case _ behind _ _ _ _ hlabel hbody =>
      have := hlabel.shorter
      rw [inner_headed]
      exact .of_label hbody (splitLabel_append hlabel) h fun hbody => inOrder_of_parse behind hbody
    | label _ _ _ hbody =>
      rw [inner_headed]
      exact .of_label hbody (by rw [← List.drop_one, List.take_append_drop]) h
        fun hbody => inOrder_of_parse ts.tail hbody
termination_by ts => 2 * ts.length
decreasing_by
  all_goals simp only [List.length_tail, List.length_cons] at *
  all_goals omega

/-- The statements of a list that is read begin in order in its tokens. -/
theorem inOrder_of_parseItems {rest : List Token} {items : List Stmt} :
    (ts : List Token) → Reads (Stmt.parseItems types ts) items rest →
      InOrder ts (listing items) rest
  | [], h => (parseItems_nil h).elim
  | t :: ts, h => by
    by_cases ht : t.text = "\x7d"
    · obtain ⟨rfl, rfl⟩ := (parseItems_end ht).1 h
      exact .nil (List.suffix_cons t _)
    obtain ⟨first, behind, more, hfirst, hmore, rfl⟩ := (parseItems_cons ht).1 h
    have := hfirst.shorter
    rw [show first :: more = [first] ++ more from rfl, listing_append]
    exact (inOrder_of_parse (t :: ts) hfirst).append (inOrder_of_parseItems behind hmore)
termination_by ts => 2 * ts.length + 1
decreasing_by
  all_goals simp only [List.length_cons] at *
  all_goals omega

end

end Stmt

namespace Program

open Stmt

/-- So do those of all functions in the tokens of a program. -/
theorem inOrder_of_parseProgramItems {types : List String} {items : List Item} :
    (ts : List Token) → parseProgramItems types ts = .ok items →
      (∀ t ∈ ts, t.kind = .directive → t.text.toList.head? = some '#') →
      InOrder ts (listing ((items.filterMap Item.function?).map Function.body)) []
  | [], h, _ => by
    rw [parseProgramItems] at h
    cases h
    exact .nil List.suffix_rfl
  | t :: ts, h, hmarked => by
    cases itemBranch_of_parse h with
    | directive _ hrest =>
      exact (inOrder_of_parseProgramItems ts hrest
        fun u hu => hmarked u (List.mem_cons_of_mem _ hu)).widen (List.suffix_cons t ts)
    | @verbatim _ _ after _ _ _ hs _ hrest =>
      have hshort := splitItem_length hs
      have hafter := suffix_of_splitItem hs
      exact (inOrder_of_parseProgramItems after hrest
        fun u hu => hmarked u (hafter.subset hu)).widen hafter
    | @function _ header after behind opening body rest _ hs ht hbody hrest =>
      have hshort := splitItem_length hs
      have hshorter := hbody.shorter
      have hopening : opening :: after <:+ t :: ts := ⟨header, (splitItem_eq hs).symm⟩
      have hbrace := text_of_splitItem hs ht
      have hkind : opening.kind ≠ .directive := by
        intro hk
        have := hmarked opening (hopening.subset List.mem_cons_self) hk
        rw [hbrace] at this
        exact absurd this (by decide)
      -- the body is read as a block would be that begins at the opening brace
      have hread : Reads (Stmt.parse types (opening :: after)) (.block opening.line body) behind :=
        (parse_block hkind hbrace).2 ⟨body, hbody, rfl⟩
      have hfirst := (inOrder_of_parse (opening :: after) hread).widen hopening
      have hbehind := hfirst.suffix
      rw [listing_singleton] at hfirst
      exact hfirst.append (inOrder_of_parseProgramItems behind hrest
        fun u hu => hmarked u (hbehind.subset hu))
termination_by ts => ts.length
decreasing_by
  all_goals simp only [List.length_cons] at *
  all_goals omega

variable {source : String} {p : Program} {ts : List Token}

/-- **The statements of a program begin one after the other in its tokens**, the bodies of its
functions among them. -/
theorem inOrder_of_parse (hp : Program.parse source = .ok p) (hts : tokenize source = .ok ts) :
    InOrder ts (listing (p.functions.map Function.body)) [] := by
  rw [Program.parse, hts] at hp
  dsimp only at hp
  split at hp
  next => cases hp
  next hitems =>
    cases hp
    exact inOrder_of_parseProgramItems ts hitems fun t ht hk => head?_of_directive hts ht hk

/-- The statements below the bodies come in the same order as together with the bodies. -/
theorem sublist_statements (p : Program) :
    p.statements.Sublist (listing (p.functions.map Function.body)) := by
  have h (i : Nat) (items : List Item) : ((occurrencesFrom i items).map (·.2.2)).Sublist
      (listing ((items.filterMap Item.function?).map Function.body)) := by
    induction items generalizing i with
    | nil => exact .slnil
    | cons item items ih =>
      cases item with
      | verbatim => exact ih (i + 1)
      | function d =>
        rw [occurrencesFrom, List.map_append, List.map_map]
        exact ((List.Sublist.refl _).cons _).append (ih (i + 1))
  exact h 0 p.items

/-- The lines of statements never decrease in the order of the text. -/
theorem pairwise_line_of_parse (h : Program.parse source = .ok p) :
    p.statements.Pairwise fun s s' => ∀ l ∈ s.line, ∀ l' ∈ s'.line, l ≤ l' := by
  cases hts : tokenize source with
  | error e =>
    rw [Program.parse, hts] at h
    cases h
  | ok ts =>
    exact ((inOrder_of_parse h hts).pairwise_line (pairwise_line_of_tokenize hts)).sublist
      p.sublist_statements

end Program

end WitnessReplay
