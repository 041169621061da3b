import WitnessReplay.Proofs.Program.Cutting
import WitnessReplay.Proofs.Source.Relexing

/-!
# What is decided by the spelling

Gaps and positions change when a program is printed; kinds and texts do not. `Alike` says that two
token lists agree in these, and what the reader decides is the same for both: whether a statement
declares something, which names a declaration, a type definition and a function header introduce.

Each such decision is shown to be the same for a list and for the list without gaps and positions
(`bare`), which is one list for all that are spelled alike.
-/

namespace WitnessReplay

namespace Token

/-- A token without its gap and position. -/
def bare (t : Token) : Token :=
  ⟨t.kind, "", t.text, 0, 0⟩

@[simp] theorem bare_kind (t : Token) : t.bare.kind = t.kind := rfl

@[simp] theorem bare_text (t : Token) : t.bare.text = t.text := rfl

/-- Two token lists agree in kinds and texts. -/
def Alike (ts us : List Token) : Prop :=
  ts.map spelling = us.map spelling

namespace Alike

variable {ts us vs ws : List Token} {t u : Token}

@[refl] theorem refl (ts : List Token) : Alike ts ts := rfl

theorem symm (h : Alike ts us) : Alike us ts := Eq.symm h

/-- Lists that are spelled alike in parts are spelled alike. -/
theorem append (h : Alike ts us) (h' : Alike vs ws) : Alike (ts ++ vs) (us ++ ws) := by
  rw [Alike, List.map_append, List.map_append, h, h']

/-- One token and the rest decide whether lists are spelled alike. -/
theorem cons (hk : t.kind = u.kind) (ht : t.text = u.text) (h : Alike ts us) :
    Alike (t :: ts) (u :: us) := by
  rw [Alike, List.map_cons, List.map_cons, h, spelling, hk, ht]
  rfl

theorem of_cons (h : Alike (t :: ts) (u :: us)) :
    t.kind = u.kind ∧ t.text = u.text ∧ Alike ts us := by
  obtain ⟨hs, hrest⟩ := List.cons_eq_cons.1 h
  obtain ⟨hk, ht⟩ := Prod.ext_iff.1 hs
  exact ⟨hk, ht, hrest⟩

/-- Only the empty list is spelled like it. -/
theorem eq_nil (h : Alike ts []) : ts = [] :=
  List.map_eq_nil_iff.1 h

/-- What is spelled like a list with a first token has one too. -/
theorem exists_cons (h : Alike vs (u :: us)) :
    ∃ t ts, vs = t :: ts ∧ t.kind = u.kind ∧ t.text = u.text ∧ Alike ts us := by
  cases vs with
  | nil => cases h
  | cons t ts => exact ⟨t, ts, rfl, of_cons h⟩

/-- What is spelled like a single token is one. -/
theorem exists_singleton (h : Alike vs [u]) :
    ∃ t, vs = [t] ∧ t.kind = u.kind ∧ t.text = u.text := by
  obtain ⟨t, ts, rfl, hk, ht, hrest⟩ := h.exists_cons
  rw [hrest.eq_nil]
  exact ⟨t, rfl, hk, ht⟩

/-- Lists that are spelled alike are of one length. -/
theorem length_eq (h : Alike ts us) : ts.length = us.length := by
  simpa using congrArg List.length h

theorem ne_nil (h : Alike ts us) (hne : us ≠ []) : ts ≠ [] := by
  intro heq
  subst heq
  exact hne h.symm.eq_nil

/-- A list that is spelled like two put together consists of two that are spelled like them. -/
theorem of_append (h : Alike (ts ++ us) vs) :
    ∃ ts' us', vs = ts' ++ us' ∧ Alike ts ts' ∧ Alike us us' := by
  rw [Alike, List.map_append] at h
  obtain ⟨ts', us', rfl, hts, hus⟩ := List.map_eq_append_iff.1 h.symm
  exact ⟨ts', us', rfl, hts.symm, hus.symm⟩

/-- Without gaps and places they are the same. -/
theorem map_bare (h : Alike ts us) : ts.map bare = us.map bare := by
  have hbare : bare = (fun s : TokenKind × String => ⟨s.1, "", s.2, 0, 0⟩) ∘ spelling := rfl
  rw [hbare, ← List.map_map, ← List.map_map, h]

theorem texts_eq (h : Alike ts us) : texts ts = texts us := by
  have htext : Token.text = Prod.snd ∘ spelling := rfl
  rw [texts, texts, htext, ← List.map_map, ← List.map_map, h]

/-- Tokens that are spelled alike begin with the same text. -/
theorem headText_eq (h : Alike ts us) : headText ts = headText us := by
  cases us with
  | nil => rw [h.eq_nil]
  | cons u us =>
    obtain ⟨t, ts, rfl, -, ht, -⟩ := h.exists_cons
    exact ht

/-- They begin with a token of the same kind. -/
theorem headKind?_eq (h : Alike ts us) : headKind? ts = headKind? us := by
  cases us with
  | nil => rw [h.eq_nil]
  | cons u us =>
    obtain ⟨t, ts, rfl, hk, -, -⟩ := h.exists_cons
    exact congrArg some hk

end Alike

/-- A scan cuts lists that are spelled alike at the same place. -/
theorem Alike.scan {σ : Type} {step : σ → String → Advance σ} {state : σ}
    {ts us before after : List Token} {at_ : Token} (h : Alike ts us)
    (hs : scan step state ts = some (before, at_, after)) :
    ∃ before' at' after', Token.scan step state us = some (before', at', after') ∧
      Alike before before' ∧ Alike after after' := by
  obtain ⟨rfl, hstops⟩ := scan_eq_some.1 hs
  obtain ⟨before', us', rfl, hbefore, hus⟩ := h.of_append
  obtain ⟨at', after', rfl, -, hat, hafter⟩ := hus.symm.exists_cons
  refine ⟨before', at', after', scan_eq_some.2 ⟨rfl, ?_⟩, hbefore, hafter.symm⟩
  rw [← hbefore.texts_eq, hat]
  exact hstops

/-- They are cut at the same place. -/
theorem Alike.splitOutside {test : String → Bool} {depth : Int} {ts us before after : List Token}
    {at_ : Token} (h : Alike ts us) (hs : splitOutside test depth ts = some (before, at_, after)) :
    ∃ before' at' after', Token.splitOutside test depth us = some (before', at', after') ∧
      Alike before before' ∧ Alike after after' := by
  rw [splitOutside_eq_scan] at hs ⊢
  exact h.scan hs

/-- Laying tokens out changes only where they stand. -/
theorem alike_laid (place : Cursor) (g : String) (ts : List Token) : Alike (laid place g ts) ts :=
  spelling_laid place g ts

/-- What does not see gaps and positions is the same for lists that are spelled alike. -/
theorem Alike.congr {α : Type} {ts us : List Token} (h : Alike ts us) {f : List Token → α}
    (hf : ∀ ts, f (ts.map bare) = f ts) : f ts = f us := by
  rw [← hf ts, h.map_bare, hf us]

end Token

open Token

variable {ts us : List Token}

/-! ### Declarations -/

theorem headText_bare (ts : List Token) : headText (ts.map bare) = headText ts := by
  cases ts <;> rfl

/-- Whether tokens are a declaration is seen from their spelling. -/
theorem isDeclaration_alike (types : List String) (h : Alike ts us) :
    isDeclaration types ts = isDeclaration types us := by
  refine h.congr fun ts => ?_
  cases ts with
  | nil => rfl
  | cons first rest =>
    cases rest with
    | nil => rfl
    | cons second rest =>
      have hdrop : ((second :: rest).map bare).dropWhile (fun t => isPointerPart t.text)
          = ((second :: rest).dropWhile fun t => isPointerPart t.text).map bare := by
        rw [List.dropWhile_map]
        rfl
      rw [List.map_cons, List.map_cons, isDeclaration, isDeclaration]
      rw [← List.map_cons, hdrop]
      cases (second :: rest).dropWhile fun t => isPointerPart t.text with
      | nil => rfl
      | cons name behind => simp [headText_bare]

theorem declaredName?_alike (h : Alike ts us) : declaredName? ts = declaredName? us := by
  refine h.congr fun ts => ?_
  rw [declaredName?, List.getLast?_map, declaredName?]
  cases ts.getLast? <;> rfl

/-! ### Top-level items -/

/-- What stands before parameters is found without gaps and places. -/
theorem beforeParameters_bare (depth : Nat) (ts : List Token) :
    beforeParameters depth (ts.map bare) = (beforeParameters depth ts).map (List.map bare) := by
  induction ts generalizing depth with
  | nil => rfl
  | cons t ts ih =>
    rw [List.map_cons, beforeParameters, beforeParameters, ih, ih, ih, bare_text]
    split
    next => rfl
    split
    next => split <;> rfl
    next => rfl

theorem firstCallee?_bare (ts : List Token) : firstCallee? (ts.map bare) = firstCallee? ts := by
  induction ts with
  | nil => rfl
  | cons t ts ih =>
    cases ts with
    | nil => rfl
    | cons u ts =>
      rw [List.map_cons, List.map_cons, firstCallee?, firstCallee?, ← List.map_cons, ih]
      rfl

/-- The name of a function is found in the spelling of its header. -/
theorem functionName_alike (h : Alike ts us) : functionName ts = functionName us := by
  refine h.congr fun ts => ?_
  rw [functionName, functionName, ← List.map_reverse, beforeParameters_bare, firstCallee?_bare]
  cases beforeParameters 0 ts.reverse with
  | none => rfl
  | some before => cases before <;> rfl

theorem pointerName?_bare (ts : List Token) : pointerName? (ts.map bare) = pointerName? ts := by
  induction ts with
  | nil => rfl
  | cons a ts ih =>
    cases ts with
    | nil => rfl
    | cons b ts =>
      cases ts with
      | nil => rfl
      | cons c ts =>
        simp only [List.map_cons] at ih
        rw [List.map_cons, List.map_cons, List.map_cons, pointerName?, pointerName?, ih]
        rfl

theorem typedefName?_alike (h : Alike ts us) : typedefName? ts = typedefName? us := by
  refine h.congr fun ts => ?_
  rw [typedefName?, typedefName?, headText_bare, pointerName?_bare, ← List.map_reverse,
    List.find?_map, Option.map_map]
  rfl

end WitnessReplay
