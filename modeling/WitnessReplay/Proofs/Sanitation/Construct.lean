import Mathlib.Data.List.Basic
import Mathlib.Logic.Relation
import WitnessReplay.Proofs.Program.Cutting
import WitnessReplay.Source.Sanitation

/-!
# Extension constructs

The sanitizer works on characters. What it is meant to do is said here of tokens: `forms` lists the
constructs that it knows, each a word or two, or words with a complete group, with the token that
stands in for it; and `Overwrites` takes one such construct of a token list away, as a whole, and
leaves every other token as it is, where it is.

A construct opens and closes the same brackets, and no stand-in is a bracket. So brackets that nest
still nest where constructs were overwritten (`Overwrites.nested`).
-/

namespace WitnessReplay

open Token

namespace Sanitation

/-! ### Constructs -/

/-- A token that stands in for a construct, some bytes behind where the construct began. -/
structure Standin where
  lead : Nat
  kind : TokenKind
  text : String
deriving DecidableEq, Repr

/-- The zero that stands in for a value. -/
def Standin.zero : Standin :=
  ⟨0, .number, "0"⟩

/-- How a construct is spelled: some words, and the opening brackets of a group behind them, if
there is one. -/
structure Form where
  head : List String
  brackets : List String
  standin : Option Standin
deriving DecidableEq, Repr

/-- The constructs that are overwritten, and what stands in for them. -/
def forms : List Form := [
  ⟨["__attribute__"], ["("], none⟩,
  ⟨["__asm__"], ["("], none⟩,
  ⟨["__asm__", "__volatile__"], ["("], none⟩,
  ⟨["asm", "volatile"], ["("], none⟩,
  ⟨["asm"], ["("], none⟩,
  ⟨["__extension__"], ["("], some .zero⟩,
  ⟨["__extension__"], [], none⟩,
  ⟨["__inline__"], [], none⟩,
  ⟨["__inline"], [], none⟩,
  ⟨["__restrict__"], [], none⟩,
  ⟨["__restrict"], [], none⟩,
  ⟨["__builtin_va_list"], [], some ⟨0, .word, "int"⟩⟩,
  ⟨["__signed__"], [], some ⟨2, .word, "signed"⟩⟩,
  ⟨[], ["(", "\x7b"], some .zero⟩]

namespace Form

/-- How many tokens stand before the inside of a group. -/
def width (f : Form) : Nat :=
  f.head.length + f.brackets.length

/-- The brackets that close a group. -/
def closing (f : Form) : List String :=
  f.brackets.reverse.map partner

/-- Some tokens are a whole construct: the group is closed, and the brackets inside nest. -/
def Spells (f : Form) (ts : List Token) : Prop :=
  ∃ opening inside closing, ts = opening ++ inside ++ closing ∧
    texts opening = f.head ++ f.brackets ∧ texts closing = f.closing ∧ Nested inside ∧
    (f.brackets = [] → inside = [])

/-- How to test whether tokens spell a form: by its words, its closing brackets, and what is
between. -/
theorem spells_iff {f : Form} {ts : List Token} : f.Spells ts ↔
    texts (ts.take f.width) = f.head ++ f.brackets ∧
      texts (ts.drop (ts.length - f.brackets.length)) = f.closing ∧
      f.width + f.brackets.length ≤ ts.length ∧
      Nested ((ts.take (ts.length - f.brackets.length)).drop f.width) ∧
      (f.brackets = [] → (ts.take (ts.length - f.brackets.length)).drop f.width = []) := by
  constructor
  · rintro ⟨opening, inside, closing, rfl, hopening, hclosing, hnested, hword⟩
    have hwidth : opening.length = f.width := by
      simpa [width] using congrArg List.length hopening
    have hback : closing.length = f.brackets.length := by
      simpa [Form.closing] using congrArg List.length hclosing
    have hlength : (opening ++ inside ++ closing).length - f.brackets.length
        = (opening ++ inside).length := by
      rw [List.length_append, hback, Nat.add_sub_cancel]
    rw [hlength, List.take_left, List.drop_left, ← hwidth, List.drop_left, List.append_assoc,
      List.take_left]
    exact ⟨hopening, hclosing, by simp [hback], hnested, hword⟩
  · rintro ⟨hopening, hclosing, hlength, hnested, hword⟩
    refine ⟨ts.take f.width, _, _, ?_, hopening, hclosing, hnested, hword⟩
    have hfront : (ts.take (ts.length - f.brackets.length)).take f.width = ts.take f.width := by
      rw [List.take_take, Nat.min_eq_left (by omega)]
    rw [← hfront, List.take_append_drop]
    exact (List.take_append_drop ..).symm

instance (f : Form) (ts : List Token) : Decidable (f.Spells ts) :=
  decidable_of_iff' _ spells_iff

end Form

/-! ### Overwriting -/

/-- Tokens with more in front of the first gap. -/
def widened (g : List Char) : List Token → List Token
  | [] => []
  | t :: rest => { t with gap := String.ofList g ++ t.gap } :: rest

/-- What is written over a construct: blanks, with the stand-in among them. -/
def written (standin : Option Standin) (construct : List Char) : List Char :=
  match standin with
  | none => blank construct
  | some s =>
    (blank construct).take s.lead ++
      (s.text.toList ++ (blank construct).drop (s.lead + s.text.toList.length))

/-- The tokens behind some place where the construct there is overwritten. The blanks belong to the
gaps. -/
def overwritten (standin : Option Standin) (construct behind : List Token) : List Token :=
  match construct with
  | [] => behind
  | t :: rest =>
    let blanks := blank (verbatim (t :: rest)).toList
    match standin with
    | none => widened (t.gap.toList ++ blanks) behind
    | some s =>
      ⟨s.kind, t.gap ++ String.ofList (blanks.take s.lead), s.text, t.start + s.lead, t.line⟩ ::
        widened (blanks.drop (s.lead + s.text.toList.length)) behind

/-- One whole construct is overwritten, and every other token stays as and where it is. -/
def Overwrites (ts us : List Token) : Prop :=
  ∃ before construct behind, ∃ f ∈ forms, f.Spells construct ∧ ts = before ++ construct ++ behind ∧
    us = before ++ overwritten f.standin construct behind

/-! ### Brackets -/

section Pending

variable {pending : List String} {t : Token} {ts : List Token}

/-- An opening bracket waits for its partner. -/
theorem pendingBehind_opening (h : isOpening t.text = true) :
    pendingBehind pending (t :: ts) = pendingBehind (partner t.text :: pending) ts := by
  rw [pendingBehind.eq_def]
  exact if_pos h

/-- A closing bracket is the one that was waited for. -/
theorem pendingBehind_closing (ho : isOpening t.text = false) (hc : isClosing t.text = true) :
    pendingBehind (t.text :: pending) (t :: ts) = pendingBehind pending ts := by
  rw [pendingBehind.eq_def]
  dsimp only
  rw [if_neg (by simp [ho]), if_pos hc, if_pos rfl]

/-- All other tokens leave the open brackets. -/
theorem pendingBehind_word (ho : isOpening t.text = false) (hc : isClosing t.text = false) :
    pendingBehind pending (t :: ts) = pendingBehind pending ts := by
  rw [pendingBehind.eq_def]
  dsimp only
  rw [if_neg (by simp [ho]), if_neg (by simp [hc])]

end Pending

/-- Brackets behind which some wait do not touch those that wait further out. -/
theorem pendingBehind_more {pending pending' : List String} {ts : List Token}
    (h : pendingBehind pending ts = some pending') (more : List String) :
    pendingBehind (pending ++ more) ts = some (pending' ++ more) := by
  induction ts generalizing pending with
  | nil =>
    cases h
    rfl
  | cons t ts ih =>
    cases ho : isOpening t.text with
    | true =>
      rw [pendingBehind_opening ho] at h ⊢
      exact ih h
    | false =>
      cases hc : isClosing t.text with
      | false =>
        rw [pendingBehind_word ho hc] at h ⊢
        exact ih h
      | true =>
        cases pending with
        | nil => simp [pendingBehind.eq_def, ho, hc] at h
        | cons expected outer =>
          -- only the innermost bracket is looked at
          by_cases heq : t.text = expected
          · subst heq
            rw [pendingBehind_closing ho hc] at h
            rw [List.cons_append, pendingBehind_closing ho hc]
            exact ih h
          · simp [pendingBehind.eq_def, ho, hc, heq] at h

/-- Brackets are told by the texts of the tokens. -/
theorem pendingBehind_map {g : Token → Token} (hg : ∀ t, (g t).text = t.text) (ts : List Token)
    (pending : List String) : pendingBehind pending (ts.map g) = pendingBehind pending ts := by
  induction ts generalizing pending with
  | nil => rfl
  | cons t ts ih =>
    rw [List.map_cons, pendingBehind.eq_def, pendingBehind.eq_def pending (t :: ts)]
    dsimp only
    simp only [hg, ih]

/-- Words leave the brackets as they are. -/
theorem pendingBehind_words {ts : List Token} {words : List String} (h : texts ts = words)
    (hw : ∀ w ∈ words, isOpening w = false ∧ isClosing w = false) (pending : List String) :
    pendingBehind pending ts = some pending := by
  subst h
  induction ts with
  | nil => rfl
  | cons t ts ih =>
    obtain ⟨⟨ho, hc⟩, hrest⟩ := List.forall_mem_cons.1 hw
    rw [pendingBehind_word ho hc]
    exact ih hrest

/-- Opening brackets wait for their partners, the last one first. -/
theorem pendingBehind_brackets {ts : List Token} {brackets : List String} (h : texts ts = brackets)
    (hb : ∀ b ∈ brackets, isOpening b = true) (pending : List String) :
    pendingBehind pending ts = some (brackets.reverse.map partner ++ pending) := by
  subst h
  induction ts generalizing pending with
  | nil => rfl
  | cons t ts ih =>
    obtain ⟨ho, hrest⟩ := List.forall_mem_cons.1 hb
    rw [pendingBehind_opening ho, ih _ hrest]
    simp

/-- Closing brackets end the waiting. -/
theorem pendingBehind_closings {ts : List Token} {closings : List String} (h : texts ts = closings)
    (hc : ∀ c ∈ closings, isOpening c = false ∧ isClosing c = true) (pending : List String) :
    pendingBehind (closings ++ pending) ts = some pending := by
  subst h
  induction ts with
  | nil => rfl
  | cons t ts ih =>
    obtain ⟨⟨ho, hclose⟩, hrest⟩ := List.forall_mem_cons.1 hc
    rw [texts, List.map_cons, List.cons_append, pendingBehind_closing ho hclose]
    exact ih hrest

/-- What the forms have in common: the words are no brackets, and neither are the stand-ins. -/
theorem forms_brackets : ∀ f ∈ forms,
    (∀ w ∈ f.head, isOpening w = false ∧ isClosing w = false) ∧
      (∀ b ∈ f.brackets, isOpening b = true) ∧
      (∀ c ∈ f.closing, isOpening c = false ∧ isClosing c = true) ∧
      ∀ s ∈ f.standin, isOpening s.text = false ∧ isClosing s.text = false := by
  decide

/-- What spells a form leaves the open brackets as they were. -/
theorem Form.Spells.pendingBehind_eq {f : Form} {ts : List Token} (h : f.Spells ts) (hf : f ∈ forms)
    (pending : List String) : pendingBehind pending ts = some pending := by
  obtain ⟨opening, inside, closing, rfl, hopening, hclosing, hnested, -⟩ := h
  obtain ⟨hwords, hopens, hcloses, -⟩ := forms_brackets f hf
  obtain ⟨words, brackets, rfl, hw, hb⟩ := List.map_eq_append_iff.1 hopening
  have hinside := pendingBehind_more hnested (f.brackets.reverse.map partner ++ pending)
  rw [List.nil_append] at hinside
  rw [List.append_assoc, pendingBehind_append, pendingBehind_append, pendingBehind_words hw hwords,
    Option.bind_some, pendingBehind_brackets hb hopens, Option.bind_some, pendingBehind_append,
    hinside, Option.bind_some]
  exact pendingBehind_closings hclosing hcloses pending

theorem pendingBehind_widened (g : List Char) (ts : List Token) (pending : List String) :
    pendingBehind pending (widened g ts) = pendingBehind pending ts := by
  cases ts <;> rfl

theorem pendingBehind_overwritten {f : Form} {construct : List Token} (hf : f ∈ forms)
    (hne : construct ≠ []) (behind : List Token) (pending : List String) :
    pendingBehind pending (overwritten f.standin construct behind)
      = pendingBehind pending behind := by
  obtain ⟨t, rest, rfl⟩ := List.exists_cons_of_ne_nil hne
  unfold overwritten
  dsimp only
  split
  next => exact pendingBehind_widened ..
  next s hs =>
    obtain ⟨ho, hc⟩ := (forms_brackets f hf).2.2.2 s hs
    rw [pendingBehind_word ho hc]
    exact pendingBehind_widened ..

/-- Every form has words or brackets. -/
theorem width_pos : ∀ f ∈ forms, 0 < f.width := by
  decide

theorem Form.Spells.ne_nil {f : Form} {ts : List Token} (h : f.Spells ts) (hf : f ∈ forms) :
    ts ≠ [] := by
  obtain ⟨opening, inside, closing, rfl, hopening, -⟩ := h
  have hlength := congrArg List.length hopening
  rw [List.length_map, List.length_append] at hlength
  have := width_pos f hf
  intro hnil
  rw [List.append_assoc, List.append_eq_nil_iff] at hnil
  rw [hnil.1, List.length_nil] at hlength
  rw [Form.width] at this
  omega

/-- **Brackets nest as before** where a construct is overwritten. -/
theorem Overwrites.nested {ts us : List Token} (h : Overwrites ts us) : Nested us ↔ Nested ts := by
  obtain ⟨before, construct, behind, f, hf, hspells, rfl, rfl⟩ := h
  rw [Nested, Nested, List.append_assoc, pendingBehind_append, pendingBehind_append]
  have heq (pending : List String) :
      pendingBehind pending (overwritten f.standin construct behind)
        = pendingBehind pending (construct ++ behind) := by
    rw [pendingBehind_overwritten hf (hspells.ne_nil hf), pendingBehind_append,
      hspells.pendingBehind_eq hf, Option.bind_some]
  simp only [heq]

/-- Overwriting keeps brackets nested, and makes none nest that did not. -/
theorem nested_of_overwrites {ts us : List Token} (h : Relation.ReflTransGen Overwrites ts us) :
    Nested us ↔ Nested ts := by
  induction h with
  | refl => exact Iff.rfl
  | tail _ hstep ih => exact hstep.nested.trans ih

end Sanitation

end WitnessReplay
