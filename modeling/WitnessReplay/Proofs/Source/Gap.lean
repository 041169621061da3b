import Mathlib.Data.List.TakeWhile
import WitnessReplay.Source.Lexer

/-!
# Gaps as a language

`splitGap` takes blanks, continued line ends and comments off a text until none is left. `Gap`
says the same without the text behind: it is the language of the texts that may stand between two
lexemes. A gap is a gap wherever it stands (`splitGap_of_gap`), and gaps put together are one gap
(`Gap.append`), which is all that printing needs to know of them.

A comment that runs to the end of its line belongs to the language only together with the line end:
without it, the comment would swallow the lexeme behind.
-/

namespace WitnessReplay

/-- The texts that separate lexemes. -/
inductive Gap : List Char → Prop
  | nil : Gap []
  | blank {c : Char} {g : List Char} (hc : isSpacing c = true) (hg : Gap g) : Gap (c :: g)
  | continued {g : List Char} (hg : Gap g) : Gap ('\\' :: '\n' :: g)
  | line {body g : List Char} (hb : '\n' ∉ body) (hg : Gap g) :
      Gap ('/' :: '/' :: (body ++ '\n' :: g))
  | block {body g : List Char} (hb : splitComment body = some (body, [])) (hg : Gap g) :
      Gap ('/' :: '*' :: (body ++ g))

/-! ### Comments -/

/-- A comment has its end at least. -/
theorem splitComment_ne_nil {cs body after : List Char}
    (h : splitComment cs = some (body, after)) : body ≠ [] := by
  fun_induction splitComment cs with
  | case1 => cases h
  | case2 => cases h
  | case3 => cases h; simp
  | case4 =>
    obtain ⟨p, -, heq⟩ := Option.map_eq_some_iff.1 h
    cases heq
    simp

theorem exists_tail_of_append {α : Type} {xs ys zs : List α} {a : α} (hne : xs ≠ [])
    (h : xs ++ ys = a :: zs) : ∃ tail, xs = a :: tail := by
  cases xs with
  | nil => exact absurd rfl hne
  | cons x xs =>
    rw [List.cons_append] at h
    injection h with hx _
    exact ⟨xs, by rw [hx]⟩

/-- Where a comment closes does not depend on what stands behind it. -/
theorem splitComment_extend {cs body after : List Char}
    (h : splitComment cs = some (body, after)) (more : List Char) :
    splitComment (body ++ more) = some (body, more) := by
  fun_induction splitComment cs generalizing body with
  | case1 => cases h
  | case2 => cases h
  | case3 a b rest hc =>
    cases h
    show splitComment (a :: b :: more) = some ([a, b], more)
    rw [splitComment, if_pos hc]
  | case4 a b rest hc ih =>
    obtain ⟨⟨body', after'⟩, hp, heq⟩ := Option.map_eq_some_iff.1 h
    cases heq
    have hrest := ih hp
    -- the part behind `a` begins with `b`, so the mark is looked for at the same places
    obtain ⟨tail, rfl⟩ := exists_tail_of_append (splitComment_ne_nil hp) (splitComment_append hp)
    show splitComment (a :: b :: (tail ++ more)) = _
    rw [splitComment, if_neg hc]
    show (splitComment ((b :: tail) ++ more)).map _ = _
    rw [hrest]
    rfl

/-- A comment ends where it ends, whatever comes behind it. -/
theorem splitComment_self {cs body after : List Char}
    (h : splitComment cs = some (body, after)) : splitComment body = some (body, []) := by
  have := splitComment_extend h []
  rwa [List.append_nil] at this

/-! ### One unit of a gap -/

theorem gapUnit?_blank {c : Char} (hc : isSpacing c = true) (x : List Char) :
    gapUnit? (c :: x) = some ([c], x) := by
  rw [gapUnit?, if_pos hc]

theorem gapUnit?_continued (x : List Char) :
    gapUnit? ('\\' :: '\n' :: x) = some (['\\', '\n'], x) := by
  rw [gapUnit?, if_neg (by decide), if_pos ⟨rfl, rfl⟩]
  rfl

theorem gapUnit?_line {body : List Char} (hb : '\n' ∉ body) (x : List Char) :
    gapUnit? ('/' :: '/' :: (body ++ '\n' :: x)) = some ('/' :: '/' :: body, '\n' :: x) := by
  have hall : ∀ c ∈ '/' :: body, decide (c ≠ '\n') = true := by
    intro c hc
    rcases List.mem_cons.1 hc with rfl | hc
    · decide
    · exact decide_eq_true fun he => hb (he ▸ hc)
  rw [gapUnit?, if_neg (by decide), if_neg (by simp), if_pos ⟨rfl, rfl⟩]
  rw [← List.cons_append, List.takeWhile_append_of_pos hall, List.dropWhile_append_of_pos hall]
  simp

theorem gapUnit?_block {body : List Char} (hb : splitComment body = some (body, []))
    (x : List Char) : gapUnit? ('/' :: '*' :: (body ++ x)) = some ('/' :: '*' :: body, x) := by
  rw [gapUnit?, if_neg (by decide), if_neg (by simp), if_neg (by simp), if_pos ⟨rfl, rfl⟩]
  show (splitComment (body ++ x)).map _ = _
  rw [splitComment_extend hb x]
  rfl

/-- The units of gaps, each with the text behind it. A comment to the end of its line ends there, or
with the text. -/
inductive GapUnit : List Char → List Char → Prop
  | blank {c : Char} {after : List Char} (hc : isSpacing c = true) : GapUnit [c] after
  | continued {after : List Char} : GapUnit ['\\', '\n'] after
  | line {body after : List Char} (hb : '\n' ∉ body) (hend : ∀ c ∈ after.head?, c = '\n') :
      GapUnit ('/' :: '/' :: body) after
  | block {body after : List Char} (hb : splitComment body = some (body, [])) :
      GapUnit ('/' :: '*' :: body) after

theorem gapUnit_of_eq_some {cs unit after : List Char} (h : gapUnit? cs = some (unit, after)) :
    GapUnit unit after := by
  unfold gapUnit? at h
  split at h
  · cases h
  next c rest =>
    split at h
    next hc =>
      cases h
      exact .blank hc
    split at h
    next hc =>
      cases h
      obtain ⟨rfl, -⟩ := hc
      exact .continued
    split at h
    next hc =>
      cases h
      obtain ⟨rfl, hr⟩ := hc
      have hbody : '\n' ∉ rest.tail.takeWhile (· ≠ '\n') :=
        fun hm => by simpa using List.mem_takeWhile_imp hm
      have hstart : rest.takeWhile (· ≠ '\n') = '/' :: rest.tail.takeWhile (· ≠ '\n') := by
        rw [← cons_tail_of_head? hr, List.takeWhile_cons_of_pos (by decide)]
        rfl
      rw [hstart]
      -- what is behind a line comment is empty or begins with the line end
      refine .line hbody fun c hc => ?_
      have hstop := List.head?_dropWhile_not (· ≠ '\n') rest
      rw [Option.mem_def.1 hc] at hstop
      simpa using hstop
    split at h
    next hc =>
      obtain ⟨rfl, -⟩ := hc
      obtain ⟨⟨body, after'⟩, hp, heq⟩ := Option.map_eq_some_iff.1 h
      cases heq
      exact .block (splitComment_self hp)
    · cases h

/-! ### Whole gaps -/

/-- A gap may begin behind its line end. -/
theorem Gap.of_newline {g : List Char} (h : Gap ('\n' :: g)) : Gap g := by
  cases h with
  | blank _ hg => exact hg

/-- A gap ends where no unit begins. -/
theorem splitGap_of_none {cs : List Char} (h : gapUnit? cs = none) : splitGap cs = ([], cs) := by
  rw [splitGap]
  split
  next => rfl
  next hu => rw [h] at hu; cases hu

theorem splitGap_of_some {cs unit after : List Char} (h : gapUnit? cs = some (unit, after)) :
    splitGap cs = (unit ++ (splitGap after).1, (splitGap after).2) := by
  rw [splitGap]
  split
  next hu => rw [h] at hu; cases hu
  next hu =>
    rw [h] at hu
    cases hu
    rfl

/-- A gap before a text that goes on with a lexeme is taken off as a whole. -/
theorem splitGap_of_gap {g x : List Char} (hg : Gap g) (hx : gapUnit? x = none) :
    splitGap (g ++ x) = (g, x) := by
  induction hg with
  | nil => exact splitGap_of_none hx
  | blank hc _ ih =>
    rw [List.cons_append, splitGap_of_some (gapUnit?_blank hc _), ih]
    rfl
  | continued _ ih =>
    rw [List.cons_append, List.cons_append, splitGap_of_some (gapUnit?_continued _), ih]
    rfl
  | @line body g hb _ ih =>
    have hgap : '/' :: '/' :: (body ++ '\n' :: g) ++ x
        = '/' :: '/' :: (body ++ '\n' :: (g ++ x)) := by
      simp
    rw [hgap, splitGap_of_some (gapUnit?_line hb _), splitGap_of_some (gapUnit?_blank rfl _), ih]
    simp
  | @block body g hb _ ih =>
    have hgap : '/' :: '*' :: (body ++ g) ++ x = '/' :: '*' :: (body ++ (g ++ x)) := by simp
    rw [hgap, splitGap_of_some (gapUnit?_block hb _), ih]
    rfl

theorem Gap.append {g g' : List Char} (h : Gap g) (h' : Gap g') : Gap (g ++ g') := by
  induction h with
  | nil => exact h'
  | blank hc _ ih => exact .blank hc ih
  | continued _ ih => exact .continued ih
  | @line body g hb _ ih =>
    have := Gap.line hb ih
    simpa using this
  | @block body g hb _ ih =>
    have := Gap.block hb ih
    simpa using this

/-- What `splitGap` leaves begins with no further unit. -/
theorem gapUnit?_splitGap (cs : List Char) : gapUnit? (splitGap cs).2 = none := by
  fun_induction splitGap cs with
  | case1 cs h => exact h
  | case2 cs unit after h _ ih => exact ih

/-- What `splitGap` takes off is a gap, but for a last comment that lacks its line end. -/
theorem exists_of_splitGap (cs : List Char) :
    ∃ g tail, (splitGap cs).1 = g ++ tail ∧ Gap g ∧
      (tail = [] ∨ (splitGap cs).2 = [] ∧ ∃ body, tail = '/' :: '/' :: body ∧ '\n' ∉ body) := by
  fun_induction splitGap cs with
  | case1 cs _ => exact ⟨[], [], rfl, .nil, .inl rfl⟩
  | case2 cs unit after hunit _ ih =>
    obtain ⟨g, tail, happ, hg, htail⟩ := ih
    cases gapUnit_of_eq_some hunit with
    | @blank c _ hc => exact ⟨c :: g, tail, congrArg (c :: ·) happ, .blank hc hg, htail⟩
    | continued =>
      exact ⟨'\\' :: '\n' :: g, tail, congrArg ('\\' :: '\n' :: ·) happ, .continued hg, htail⟩
    | @line body _ hb hend =>
      cases after with
      | nil =>
        have hnil : splitGap [] = ([], []) := splitGap_of_none rfl
        exact ⟨[], '/' :: '/' :: body, by simp [hnil], .nil, .inr ⟨by rw [hnil], body, rfl, hb⟩⟩
      | cons d more =>
        -- the line end behind the comment is the first thing of the gap that follows
        obtain rfl : d = '\n' := hend d rfl
        rw [splitGap_of_some (gapUnit?_blank rfl _)] at happ htail ⊢
        cases g with
        | nil =>
          obtain rfl | ⟨-, _, rfl, -⟩ := htail
          · cases happ
          · cases happ
        | cons c g =>
          obtain ⟨rfl, -⟩ := List.cons.inj happ
          exact ⟨'/' :: '/' :: (body ++ '\n' :: g), tail, by simpa using happ,
            .line hb hg.of_newline, htail⟩
    | @block body _ hb =>
      exact ⟨'/' :: '*' :: (body ++ g), tail, by simp [happ], .block hb hg, htail⟩

/-- What `splitGap` takes off before a lexeme is a gap. -/
theorem gap_splitGap {cs : List Char} (hne : (splitGap cs).2 ≠ []) : Gap (splitGap cs).1 := by
  obtain ⟨g, tail, happ, hg, rfl | ⟨hnil, -⟩⟩ := exists_of_splitGap cs
  · rw [happ, List.append_nil]
    exact hg
  · exact absurd hnil hne

end WitnessReplay
