import Mathlib.Data.List.Forall2
import WitnessReplay.Proofs.Sanitation.Scan
import WitnessReplay.Proofs.Text.Utf8
import WitnessReplay.Source.Position

/-!
# Sanitation and positions

Sanitation leaves every line end at its byte, and the bytes in between keep their number. Two byte
sequences that are alike in this way are `Aligned`. Each action aligns what it writes with the match
that it replaces, so by the induction over matches the whole text is aligned with its source
(`aligned_sanitize`).

Lines, columns and offsets are computed from nothing but the number of bytes and the places of the
line ends. So a position in a witness resolves to the same range before and after sanitation, and
`resolve_sanitize` says so. Only the text in the range may be another one.
-/

namespace WitnessReplay

/-! ### Byte sequences with the same lines -/

/-- Two byte sequences have the same length and the same line ends. -/
abbrev Aligned (xs ys : List UInt8) : Prop :=
  List.Forall₂ (fun x y => x = 10 ↔ y = 10) xs ys

namespace Aligned

variable {xs ys zs us vs : List UInt8}

theorem refl (xs : List UInt8) : Aligned xs xs :=
  List.forall₂_same.2 fun _ _ => Iff.rfl

theorem trans (h : Aligned xs ys) (h' : Aligned ys zs) : Aligned xs zs := by
  induction h generalizing zs with
  | nil => exact h'
  | cons hxy _ ih =>
    cases h' with
    | cons hyz hrest => exact .cons (hxy.trans hyz) (ih hrest)

/-- Parts that are aligned are so together. -/
theorem append (h : Aligned xs ys) (h' : Aligned us vs) : Aligned (xs ++ us) (ys ++ vs) :=
  List.rel_append h h'

/-- Aligned bytes have their line ends at the same offsets. -/
theorem getElem?_eq (h : Aligned xs ys) (i : Nat) : xs[i]? = some 10 ↔ ys[i]? = some 10 := by
  induction h generalizing i with
  | nil => rfl
  | cons hxy _ ih =>
    cases i with
    | zero => simpa using hxy
    | succ i => simpa using ih i

/-- So their lines start at the same offsets. -/
theorem lineStartsFrom_eq (h : Aligned xs ys) (offset : Nat) :
    lineStartsFrom offset xs = lineStartsFrom offset ys := by
  induction h generalizing offset with
  | nil => rfl
  | cons hxy _ ih => rw [lineStartsFrom, lineStartsFrom, ih]; simp only [hxy]

end Aligned

/-- All that a range says except the text in it. -/
def Coords.extent (c : Coords) : Nat × Nat × Nat × Nat :=
  (c.startline, c.column, c.endline, c.length)

namespace SourceText

variable {t t' : SourceText}

/-- Hints point to the same range in texts with the same lines. -/
theorem resolve_extent (h : Aligned t.bytes t'.bytes) (hints : LocationHints) :
    (t.resolve hints).map Coords.extent = (t'.resolve hints).map Coords.extent := by
  have hsize : t.size = t'.size := h.length_eq
  have hstarts : t.lineStarts = t'.lineStarts := by
    rw [lineStarts, lineStarts, h.lineStartsFrom_eq]
  have hoffset : t.offsetOfLine = t'.offsetOfLine := by
    funext line
    rw [offsetOfLine, offsetOfLine, hstarts, hsize]
  have hline : t.lineOfOffset = t'.lineOfOffset := by
    funext offset
    rw [lineOfOffset, lineOfOffset, hstarts]
  unfold resolve
  rw [hsize, hoffset, hline]
  dsimp only
  -- only the text in the range is still read from the two sequences
  cases hints.startoffset.or (hints.startline.map t'.offsetOfLine) with
  | none => rfl
  | some start =>
    cases hints.endoffset.or
        ((hints.endline.or hints.startline).map fun l => t'.offsetOfLine (l + 1)) with
    | none => rfl
    | some stop => rfl

end SourceText

namespace Sanitation

open Text Text.Pattern

/-! ### What each action writes -/

theorem encode_replicate (n : Nat) :
    encode (List.replicate n ' ') = List.replicate n 0x20 := by
  induction n with
  | zero => rfl
  | succ n ih => rw [List.replicate_succ, encode_cons, ih]; rfl

/-- Blanking keeps bytes aligned: each character becomes as many blanks as it has bytes. -/
theorem aligned_blank (cs : List Char) : Aligned (encode (blank cs)) (encode cs) := by
  induction cs with
  | nil => exact .nil
  | cons c cs ih =>
    rw [blank_cons, encode_append, encode_cons]
    refine Aligned.append ?_ ih
    split
    next hc => rw [hc]; exact Aligned.refl _
    next hc =>
      rw [encode_replicate]
      refine List.forall₂_iff_zip.2 ⟨by simp, fun {a b} hab => ?_⟩
      have ha := List.eq_of_mem_replicate (List.of_mem_zip hab).1
      have hb : b ≠ 10 := fun hb =>
        hc (newline_mem_utf8EncodeChar (hb ▸ (List.of_mem_zip hab).2))
      simp [ha, hb]

/-- A blanked front of a match and the rest of it stand as the match did. -/
theorem aligned_blankGroup (found : List Char) :
    Aligned (encode (Action.blankGroup.apply found)) (encode found) := by
  have h := (aligned_blank (splitBalanced 0 found).1).append
    (Aligned.refl (encode (splitBalanced 0 found).2))
  rwa [← encode_append, ← encode_append, splitBalanced_append] at h

theorem aligned_blankComment (found : List Char) :
    Aligned (encode (Action.blankComment.apply found)) (encode found) := by
  unfold Action.apply
  dsimp only
  split
  · exact Aligned.refl _
  · exact aligned_blank found

/-- The zero takes the place of one byte, if the match begins with a character of one byte. -/
theorem aligned_zeroGroup {c : Char} {cs : List Char} (hsize : c.utf8Size = 1) (hline : c ≠ '\n')
    (hclose : c ≠ ')') :
    Aligned (encode (Action.zeroGroup.apply (c :: cs))) (encode (c :: cs)) := by
  have hfirst : ∃ p, (splitBalanced 0 (c :: cs)).1 = c :: p := by
    rw [splitBalanced]
    split
    · exact ⟨_, rfl⟩
    · exact ⟨_, rfl⟩
  obtain ⟨p, hp⟩ := hfirst
  have hblank : blank (c :: p) = ' ' :: blank p := by
    rw [blank_cons, if_neg hline, hsize]
    rfl
  have h := aligned_blankGroup (c :: cs)
  refine Aligned.trans ?_ h
  show Aligned (encode ('0' :: (blank (splitBalanced 0 (c :: cs)).1).drop 1 ++ _))
    (encode (blank (splitBalanced 0 (c :: cs)).1 ++ _))
  rw [hp, hblank]
  exact .cons (by decide) (Aligned.refl _)

/-- And replacing a word by a text that is aligned with it. -/
theorem aligned_replaceBy {word text : String} {found behind : List Char}
    (h : Aligned (encode text.toList) (encode word.toList))
    (hfound : wholeWord word (found ++ behind) = some (found, behind)) :
    Aligned (encode ((Action.replaceBy text).apply found)) (encode found) := by
  rw [(wholeWord_eq_some.1 hfound).1]
  exact h

/-- Every substitution of the table writes what is aligned with the match. -/
theorem aligned_of_mem {s : Substitution} (hs : s ∈ substitutions) {found behind : List Char}
    (h : s.pattern (found ++ behind) = some (found, behind)) :
    Aligned (encode (s.action.apply found)) (encode found) := by
  have zero {c : Char} (hsize : c.utf8Size = 1) (hline : c ≠ '\n') (hclose : c ≠ ')')
      (hbegins : Begins s.pattern [c]) :
      Aligned (encode (Action.zeroGroup.apply found)) (encode found) := by
    obtain ⟨rest, rfl⟩ := hbegins _ _ _ h
    exact aligned_zeroGroup hsize hline hclose
  simp only [substitutions, List.mem_cons, List.not_mem_nil, or_false] at hs
  rcases hs with rfl | rfl | rfl | rfl | rfl | rfl | rfl | rfl | rfl | rfl | rfl | rfl
  · exact aligned_blankComment found
  · exact aligned_blankGroup found
  · exact aligned_blankGroup found
  · exact aligned_blankGroup found
  · exact aligned_blankGroup found
  · exact zero (c := '_') (by decide) (by decide) (by decide)
      ((wordWithGroup_begins (exactly_begins _)).mono (by decide))
  · exact aligned_blankGroup found
  · exact aligned_blankGroup found
  · exact aligned_blankGroup found
  · exact aligned_replaceBy (by decide) h
  · exact aligned_replaceBy (by decide) h
  · exact zero (c := '(') (by decide) (by decide) (by decide) blockInParentheses_begins

/-- A sanitized text has its line ends where the source has them. -/
theorem aligned_sanitize (source : String) :
    Aligned (encode (sanitize source).toList) (encode source.toList) := by
  have step : ∀ s ∈ substitutions, ∀ {cs}, Aligned (encode cs) (encode source.toList) →
      Aligned (encode (s.apply cs)) (encode source.toList) := by
    intro s hs cs h
    refine Substitution.apply_induct (P := fun cs => Aligned (encode cs) (encode source.toList))
      (proper_of_mem hs) (fun {before found behind} h _ hp => ?_) h
    refine Aligned.trans ?_ h
    simp only [encode_append]
    exact (Aligned.refl _).append ((aligned_of_mem hs hp).append (Aligned.refl _))
  rw [sanitize, String.toList_ofList]
  exact sanitizeFrom_induct (P := fun cs => Aligned (encode cs) (encode source.toList)) step
    (Aligned.refl _)

/-- **Sanitation keeps every position.** The sanitized text is valid UTF-8 with as many bytes and
with its line ends at the same offsets, and hints of all kinds point to the same range in it. -/
theorem resolve_sanitize (source : String) :
    decode? (encode (sanitize source).toList) = some (sanitize source).toList ∧
    (encode (sanitize source).toList).length = (encode source.toList).length ∧
    (∀ i : Nat, (encode (sanitize source).toList)[i]? = some 10 ↔
      (encode source.toList)[i]? = some 10) ∧
    ∀ hints, ((SourceText.mk (encode (sanitize source).toList)).resolve hints).map Coords.extent
      = ((SourceText.mk (encode source.toList)).resolve hints).map Coords.extent :=
  have h := aligned_sanitize source
  ⟨decode?_encode _, h.length_eq, h.getElem?_eq, SourceText.resolve_extent h⟩

end Sanitation

end WitnessReplay
