import WitnessReplay.Source.Token

/-!
# Cutting token lists at bracket depth

How far a construct reaches is decided by counting brackets, whatever their kind. The functions
here cut a token list at a place: behind the bracket that closes the one before the list, at the
first token of some sort outside all brackets. Each comes with the lemma that its parts make up
the list, from which the parts are seen to be shorter.
-/

namespace WitnessReplay.Token

/-- Cuts a list at the bracket that closes the list's surroundings: what stands before it, where
`depth` further brackets are open, and what stands behind it. -/
def splitClosing (depth : Nat) : List Token → Option (List Token × List Token)
  | [] => none
  | t :: rest =>
    if t.opens then (splitClosing (depth + 1) rest).map fun (inside, after) => (t :: inside, after)
    else if t.closes then
      match depth with
      | 0 => some ([], rest)
      | d + 1 => (splitClosing d rest).map fun (inside, after) => (t :: inside, after)
    else (splitClosing depth rest).map fun (inside, after) => (t :: inside, after)

theorem splitClosing_eq {depth : Nat} {ts inside after : List Token}
    (h : splitClosing depth ts = some (inside, after)) :
    ∃ close, close.closes = true ∧ ts = inside ++ close :: after := by
  induction ts generalizing depth inside with
  | nil => cases h
  | cons t rest ih =>
    have step {d : Nat}
        (h : (splitClosing d rest).map (fun (inside, after) => (t :: inside, after))
          = some (inside, after)) :
        ∃ close, close.closes = true ∧ t :: rest = inside ++ close :: after := by
      obtain ⟨⟨inside', after'⟩, hp, heq⟩ := Option.map_eq_some_iff.1 h
      cases heq
      obtain ⟨close, hc, hrest⟩ := ih hp
      exact ⟨close, hc, by simp [hrest]⟩
    unfold splitClosing at h
    split at h
    · exact step h
    split at h
    next hc =>
      split at h
      · cases h; exact ⟨t, hc, rfl⟩
      · exact step h
    · exact step h

/-- Cuts a list at the first token outside all brackets whose text passes a test. The depth may
fall below zero, and such a place is not outside. -/
def splitOutside (test : String → Bool) (depth : Int) :
    List Token → Option (List Token × Token × List Token)
  | [] => none
  | t :: rest =>
    if t.opens then
      (splitOutside test (depth + 1) rest).map fun (before, at_, after) => (t :: before, at_, after)
    else if t.closes then
      (splitOutside test (depth - 1) rest).map fun (before, at_, after) => (t :: before, at_, after)
    else if depth = 0 ∧ test t.text then some ([], t, rest)
    else (splitOutside test depth rest).map fun (before, at_, after) => (t :: before, at_, after)

theorem splitOutside_eq {test : String → Bool} {depth : Int} {ts before after : List Token}
    {at_ : Token} (h : splitOutside test depth ts = some (before, at_, after)) :
    test at_.text = true ∧ ts = before ++ at_ :: after := by
  induction ts generalizing depth before with
  | nil => cases h
  | cons t rest ih =>
    have step {d : Int}
        (h : (splitOutside test d rest).map (fun (before, at_, after) => (t :: before, at_, after))
          = some (before, at_, after)) :
        test at_.text = true ∧ t :: rest = before ++ at_ :: after := by
      obtain ⟨⟨before', at', after'⟩, hp, heq⟩ := Option.map_eq_some_iff.1 h
      cases heq
      obtain ⟨ht, hrest⟩ := ih hp
      exact ⟨ht, by simp [hrest]⟩
    unfold splitOutside at h
    split at h
    · exact step h
    split at h
    · exact step h
    split at h
    next hc => cases h; exact ⟨hc.2, rfl⟩
    · exact step h

theorem splitOutside_length {test : String → Bool} {depth : Int} {ts before after : List Token}
    {at_ : Token} (h : splitOutside test depth ts = some (before, at_, after)) :
    before.length < ts.length ∧ after.length < ts.length := by
  have := congrArg List.length (splitOutside_eq h).2
  simp only [List.length_append, List.length_cons] at this
  omega

end WitnessReplay.Token
