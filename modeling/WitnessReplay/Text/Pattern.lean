/-!
# Patterns

A pattern reads the front of a text and splits the text behind what it read. Patterns are put
together by choice and by sequence. Each reading is the only one that is tried: a sequence does not
go back into its first part. The one exception is `onLine`, which prefers the longest stretch of a
line behind which its continuation still reads something.
-/

namespace WitnessReplay.Text

/-- Splits a text behind what was read at its front, if that could be read. -/
abbrev Pattern := List Char → Option (List Char × List Char)

namespace Pattern

/-- Reads a given word. -/
def exactly (word : List Char) : Pattern := fun cs =>
  if word.isPrefixOf cs then some (word, cs.drop word.length) else none

/-- Reads the longest stretch of some characters, which may be empty. -/
def many (p : Char → Bool) : Pattern := fun cs =>
  some (cs.takeWhile p, cs.dropWhile p)

/-- Reads the longest stretch of some characters, which must not be empty. -/
def many1 (p : Char → Bool) : Pattern := fun cs =>
  if cs.head?.any p then some (cs.takeWhile p, cs.dropWhile p) else none

/-- Reads nothing, at a place before which some character does not stand. -/
def unlessNext (p : Char → Bool) : Pattern := fun cs =>
  if cs.head?.any p then none else some ([], cs)

/-- Reads one thing and then another. -/
def seq (first second : Pattern) : Pattern := fun cs =>
  match first cs with
  | none => none
  | some (a, rest) => (second rest).map fun (b, after) => (a ++ b, after)

/-- Reads one thing, or else another. -/
def orElse (first second : Pattern) : Pattern := fun cs =>
  match first cs with
  | some r => some r
  | none => second cs

/-- Reads as much of a line as can go before `last`, and then `last`. -/
def onLine (last : Pattern) : Pattern
  | [] => last []
  | c :: rest =>
    if c = '\n' then last (c :: rest)
    else
      match onLine last rest with
      | some (a, after) => some (c :: a, after)
      | none => last (c :: rest)

/-- Reads from behind an opening mark through the next closing mark, wherever it stands. -/
def through (close : List Char) : Pattern
  | [] => exactly close []
  | c :: rest =>
    match exactly close (c :: rest) with
    | some r => some r
    | none => (through close rest).map fun (a, after) => (c :: a, after)

/-- Splits a text around the first place where a mark stands. -/
def cut (mark : List Char) : List Char → Option (List Char × List Char)
  | [] => if mark = [] then some ([], []) else none
  | c :: rest =>
    if mark.isPrefixOf (c :: rest) then some ([], (c :: rest).drop mark.length)
    else (cut mark rest).map fun (before, behind) => (c :: before, behind)

/-- What a pattern promises: the two parts make up the text. -/
def Splits (p : Pattern) : Prop :=
  ∀ {cs a after}, p cs = some (a, after) → a ++ after = cs

theorem exactly_splits (word : List Char) : Splits (exactly word) := by
  intro cs a after h
  unfold exactly at h
  split at h
  next hp =>
    cases h
    obtain ⟨t, rfl⟩ := List.isPrefixOf_iff_prefix.1 hp
    simp
  · cases h

theorem many_splits (p : Char → Bool) : Splits (many p) := by
  intro cs a after h
  cases h
  exact List.takeWhile_append_dropWhile

theorem many1_splits (p : Char → Bool) : Splits (many1 p) := by
  intro cs a after h
  unfold many1 at h
  split at h
  · cases h; exact List.takeWhile_append_dropWhile
  · cases h

theorem unlessNext_splits (p : Char → Bool) : Splits (unlessNext p) := by
  intro cs a after h
  unfold unlessNext at h
  split at h
  · cases h
  · cases h; rfl

/-- A sequence finds a part of the text if its patterns do. -/
theorem seq_splits {p q : Pattern} (hp : Splits p) (hq : Splits q) : Splits (seq p q) := by
  intro cs a after h
  unfold seq at h
  split at h
  · cases h
  next b rest hb =>
    obtain ⟨⟨c, after'⟩, hc, heq⟩ := Option.map_eq_some_iff.1 h
    cases heq
    rw [List.append_assoc, hq hc, hp hb]

theorem orElse_splits {p q : Pattern} (hp : Splits p) (hq : Splits q) : Splits (orElse p q) := by
  intro cs a after h
  unfold orElse at h
  split at h
  next hr => cases h; exact hp hr
  · exact hq h

theorem onLine_splits {last : Pattern} (hl : Splits last) : Splits (onLine last) := by
  intro cs a after h
  induction cs generalizing a with
  | nil => exact hl h
  | cons c rest ih =>
    unfold onLine at h
    split at h
    · exact hl h
    split at h
    next hr => cases h; simp [ih hr]
    · exact hl h

theorem through_splits (close : List Char) : Splits (through close) := by
  intro cs a after h
  induction cs generalizing a with
  | nil => exact exactly_splits close h
  | cons c rest ih =>
    unfold through at h
    split at h
    next hr => cases h; exact exactly_splits close hr
    · obtain ⟨⟨a', after'⟩, hr, heq⟩ := Option.map_eq_some_iff.1 h
      cases heq
      simp [ih hr]

/-- A text that is cut is what is before the mark, the mark, and what is behind it. -/
theorem cut_eq {mark cs before behind : List Char} (h : cut mark cs = some (before, behind)) :
    cs = before ++ mark ++ behind := by
  induction cs generalizing before with
  | nil =>
    unfold cut at h
    split at h
    next hm => cases h; simp [hm]
    · cases h
  | cons c rest ih =>
    unfold cut at h
    split at h
    next hp =>
      cases h
      obtain ⟨t, ht⟩ := List.isPrefixOf_iff_prefix.1 hp
      simp [← ht]
    · obtain ⟨⟨before', behind'⟩, hr, heq⟩ := Option.map_eq_some_iff.1 h
      cases heq
      simp [ih hr]

end Pattern

end WitnessReplay.Text
