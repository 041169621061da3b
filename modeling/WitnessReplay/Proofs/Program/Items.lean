import WitnessReplay.Proofs.Program.Reading

/-!
# Reading top-level items by the grammar

What `Stmt.Read.parse` and `Stmt.read_of_parse` say of statements is said here of whole programs:
the items of a token list are read exactly as the grammar derives them (`Program.ReadItems.parse`
and `Program.readItems_of_parse`).
-/

namespace WitnessReplay

open Token

/-- A top-level item ends at a semicolon, or its body begins at a brace behind a parenthesis. -/
theorem itemStep_eq_stop {state : Int × String} {text : String} (h : itemStep state text = .stop) :
    text = ";" ∨ (text = "\x7b" ∧ state.2 = ")") := by
  rw [itemStep] at h
  split at h
  next hb => exact .inr ⟨hb.1, hb.2.2⟩
  split at h
  next hs => exact .inl hs.1
  next => cases h

/-- What ends no declaration begins a body. -/
theorem text_of_splitItem {depth : Int} {previous : String} {ts before after : List Token}
    {at_ : Token} (h : splitItem depth previous ts = some (before, at_, after))
    (ht : at_.text ≠ ";") : at_.text = "\x7b" := by
  obtain ⟨-, hstops⟩ := splitItem_eq_some.1 h
  obtain ⟨state, hstep⟩ := hstops.last
  rcases itemStep_eq_stop hstep with h | ⟨h, -⟩
  · exact absurd h ht
  · exact h

/-- What is behind an item is the end of the tokens. -/
theorem suffix_of_splitItem {depth : Int} {previous : String} {ts before after : List Token}
    {at_ : Token} (h : splitItem depth previous ts = some (before, at_, after)) : after <:+ ts := by
  rw [splitItem_eq h]
  exact (List.suffix_cons at_ after).trans (List.suffix_append before _)

/-- Where a body begins, the parenthesis before it is the last token of the header. -/
theorem getLast?_of_stops {state : Int × String} {header : List Token}
    (h : Stops itemStep state (texts header) "\x7b") :
    (header = [] ∧ state.2 = ")") ∨ ∃ t, header.getLast? = some t ∧ t.text = ")" := by
  induction header generalizing state with
  | nil =>
    rcases itemStep_eq_stop (show itemStep state "\x7b" = .stop from h) with hs | hb
    · exact absurd hs (by decide)
    · exact .inl ⟨rfl, hb.2⟩
  | cons t header ih =>
    obtain ⟨next, hstep, hrest⟩ := h
    have hnext : next.2 = t.text := by
      rw [itemStep] at hstep
      split at hstep
      next => cases hstep
      split at hstep
      next => cases hstep
      next => cases hstep; rfl
    rcases ih hrest with ⟨rfl, hprevious⟩ | ⟨u, hu, ht⟩
    · exact .inr ⟨t, rfl, hnext ▸ hprevious⟩
    · refine .inr ⟨u, ?_, ht⟩
      cases header with
      | nil => cases hu
      | cons v header => rwa [List.getLast?_cons_cons]

/-- A header ends in a closing parenthesis. -/
theorem header_last {header : List Token} (h : Stops itemStep (0, "") (texts header) "\x7b") :
    ∃ t, header.getLast? = some t ∧ t.text = ")" := by
  rcases getLast?_of_stops h with ⟨-, hprevious⟩ | hlast
  · exact absurd hprevious (by decide)
  · exact hlast

theorem header_ne_nil {header : List Token} (h : Stops itemStep (0, "") (texts header) "\x7b") :
    header ≠ [] := by
  intro heq
  subst heq
  obtain ⟨t, hlast, -⟩ := header_last h
  cases hlast

section

variable {types : List String} {ts : List Token} {items : List Item}

/-- A directive is an item of its own. -/
theorem parseProgramItems_cons_directive {t : Token} (hk : t.kind = .directive) :
    parseProgramItems types (t :: ts)
      = (parseProgramItems types ts).map (.verbatim t.text t.line :: ·) := by
  rw [parseProgramItems, if_pos hk]
  cases parseProgramItems types ts <;> rfl

/-- Behind the last item of a text nothing may be left. -/
theorem parseProgramItems_unended {t : Token} (hk : t.kind ≠ .directive)
    (hs : splitItem 0 "" (t :: ts) = none) :
    parseProgramItems types (t :: ts) = .error (.endOfInput .topLevel) := by
  rw [parseProgramItems, if_neg hk]
  split
  next => rfl
  next hs' => rw [hs] at hs'; cases hs'

/-- What ends at a semicolon is read as it is spelled. -/
theorem parseProgramItems_cons_verbatim {t semicolon : Token} {before after : List Token}
    (hk : t.kind ≠ .directive) (hs : splitItem 0 "" (t :: ts) = some (before, semicolon, after))
    (ht : semicolon.text = ";") :
    parseProgramItems types (t :: ts)
      = (parseProgramItems ((typedefName? before).toList ++ types) after).map
          (.verbatim (verbatim (before ++ [semicolon])) t.line :: ·) := by
  rw [parseProgramItems, if_neg hk]
  split
  next hs' => rw [hs] at hs'; cases hs'
  next hs' =>
    rw [hs] at hs'
    cases hs'
    rw [if_pos ht]
    cases parseProgramItems ((typedefName? before).toList ++ types) after <;> rfl

/-- What does not end at a semicolon is the header of a function, whose body is read behind it. -/
theorem parseProgramItems_cons_function {t opening : Token} {header after : List Token}
    (hk : t.kind ≠ .directive) (hs : splitItem 0 "" (t :: ts) = some (header, opening, after))
    (ht : opening.text ≠ ";") :
    parseProgramItems types (t :: ts)
      = Stmt.parseItems types after >>= fun body =>
          (parseProgramItems types body.rest).map (.function ⟨verbatim header, functionName header,
            .block opening.line body.value, t.line⟩ :: ·) := by
  rw [parseProgramItems, if_neg hk]
  split
  next hs' => rw [hs] at hs'; cases hs'
  next hs' =>
    rw [hs] at hs'
    cases hs'
    rw [if_neg ht]
    cases Stmt.parseItems types after with
    | error e => rfl
    | ok body =>
      rw [ok_bind]
      dsimp only
      cases parseProgramItems types body.rest <;> rfl

/-- A directive is an item of its own. -/
theorem parseProgramItems_directive {t : Token} (hk : t.kind = .directive) :
    parseProgramItems types (t :: ts) = .ok items ↔
      ∃ rest, parseProgramItems types ts = .ok rest ∧ items = .verbatim t.text t.line :: rest := by
  rw [parseProgramItems_cons_directive hk, map_eq_ok]

/-- A declaration goes up to its semicolon, and may name a type. -/
theorem parseProgramItems_verbatim {before after : List Token} {semicolon : Token}
    (hk : headKind? ts ≠ some .directive)
    (hs : splitItem 0 "" ts = some (before, semicolon, after)) (ht : semicolon.text = ";") :
    parseProgramItems types ts = .ok items ↔
      ∃ rest, parseProgramItems ((typedefName? before).toList ++ types) after = .ok rest ∧
        items = .verbatim (verbatim (before ++ [semicolon])) (firstLine ts) :: rest := by
  cases ts with
  | nil => cases hs
  | cons t ts =>
    rw [parseProgramItems_cons_verbatim (fun h => hk (congrArg some h)) hs ht, map_eq_ok]
    rfl

/-- A function has a header and a body. -/
theorem parseProgramItems_function {header after : List Token} {opening : Token}
    (hk : headKind? ts ≠ some .directive)
    (hs : splitItem 0 "" ts = some (header, opening, after)) (ht : opening.text ≠ ";") :
    parseProgramItems types ts = .ok items ↔
      ∃ body behind rest, Reads (Stmt.parseItems types after) body behind ∧
        parseProgramItems types behind = .ok rest ∧
        items = .function ⟨verbatim header, functionName header, .block opening.line body,
          firstLine ts⟩ :: rest := by
  cases ts with
  | nil => cases hs
  | cons t ts =>
    rw [parseProgramItems_cons_function (fun h => hk (congrArg some h)) hs ht]
    constructor
    · intro h
      cases hbody : Stmt.parseItems types after with
      | error e => rw [hbody] at h; cases h
      | ok body =>
        rw [hbody, ok_bind, map_eq_ok] at h
        obtain ⟨rest, hrest, rfl⟩ := h
        exact ⟨body.value, body.rest, rest, rfl, hrest, rfl⟩
    · intro h
      obtain ⟨body, behind, rest, hbody, hrest, rfl⟩ := h
      obtain ⟨_, hbody⟩ := hbody.eq_ok
      rw [hbody, ok_bind, map_eq_ok]
      exact ⟨rest, hrest, rfl⟩

/-- How the first of some top-level items is read, and what is read behind it. -/
inductive ItemBranch (types : List String) : List Token → List Item → Prop
  | directive {t : Token} {ts : List Token} {rest : List Item} (hk : t.kind = .directive)
      (hrest : parseProgramItems types ts = .ok rest) :
      ItemBranch types (t :: ts) (.verbatim t.text t.line :: rest)
  | verbatim {ts before after : List Token} {semicolon : Token} {rest : List Item}
      (hk : headKind? ts ≠ some .directive)
      (hs : splitItem 0 "" ts = some (before, semicolon, after)) (ht : semicolon.text = ";")
      (hrest : parseProgramItems ((typedefName? before).toList ++ types) after = .ok rest) :
      ItemBranch types ts (.verbatim (verbatim (before ++ [semicolon])) (firstLine ts) :: rest)
  | function {ts header after behind : List Token} {opening : Token} {body : List Stmt}
      {rest : List Item} (hk : headKind? ts ≠ some .directive)
      (hs : splitItem 0 "" ts = some (header, opening, after)) (ht : opening.text ≠ ";")
      (hbody : Reads (Stmt.parseItems types after) body behind)
      (hrest : parseProgramItems types behind = .ok rest) :
      ItemBranch types ts (.function ⟨verbatim header, functionName header,
        .block opening.line body, firstLine ts⟩ :: rest)

theorem itemBranch_of_parse {t : Token} (h : parseProgramItems types (t :: ts) = .ok items) :
    ItemBranch types (t :: ts) items := by
  by_cases hk : t.kind = .directive
  · obtain ⟨rest, hrest, rfl⟩ := (parseProgramItems_directive hk).1 h
    exact .directive hk hrest
  have hhead : headKind? (t :: ts) ≠ some .directive := fun h => hk (Option.some.inj h)
  cases hs : splitItem 0 "" (t :: ts) with
  | none =>
    rw [parseProgramItems, if_neg hk] at h
    split at h
    next => cases h
    next hs' => rw [hs] at hs'; cases hs'
  | some cut =>
    obtain ⟨before, last, after⟩ := cut
    by_cases ht : last.text = ";"
    · obtain ⟨rest, hrest, rfl⟩ := (parseProgramItems_verbatim hhead hs ht).1 h
      exact .verbatim hhead hs ht hrest
    · obtain ⟨body, behind, rest, hbody, hrest, rfl⟩ :=
        (parseProgramItems_function hhead hs ht).1 h
      exact .function hhead hs ht hbody hrest

/-- What the grammar derives of top-level items is read. -/
theorem Program.ReadItems.parse {printed : List Token}
    (h : Program.ReadItems types items ts printed) : parseProgramItems types ts = .ok items := by
  induction h with
  | nil => rw [parseProgramItems]
  | directive hk _ ih => exact (parseProgramItems_directive hk).2 ⟨_, ih, rfl⟩
  | @verbatim types semicolon items before ts printed hk hs ht _ ih =>
    have happend : before ++ semicolon :: ts = before ++ [semicolon] ++ ts := by simp
    have hline : firstLine (before ++ [semicolon]) = firstLine (before ++ semicolon :: ts) := by
      cases before <;> rfl
    have hkind : headKind? (before ++ semicolon :: ts) = headKind? (before ++ [semicolon]) := by
      cases before <;> rfl
    rw [hline]
    exact (parseProgramItems_verbatim (by rwa [hkind]) (splitItem_eq_some.2 ⟨rfl, hs⟩) ht).2
      ⟨_, ih, rfl⟩
  | @function types opening closing items body header ts us printed printed' hk hs ho hc hb _ ih =>
    obtain ⟨t, header, rfl⟩ := List.exists_cons_of_ne_nil (header_ne_nil hs)
    have hsplit : splitItem 0 "" (t :: header ++ opening :: (ts ++ closing :: us))
        = some (t :: header, opening, ts ++ closing :: us) :=
      splitItem_eq_some.2 ⟨rfl, ho ▸ hs⟩
    have hhead : headKind? (t :: header ++ opening :: (ts ++ closing :: us)) ≠ some .directive := hk
    exact (parseProgramItems_function hhead hsplit (by rw [ho]; decide)).2
      ⟨body, us, _, hb.parse body hc, ih, rfl⟩

/-- An item begins where its tokens do. -/
theorem firstLine_of_split {ts before after : List Token} {last : Token}
    (hs : splitItem 0 "" ts = some (before, last, after)) :
    firstLine ts = firstLine (before ++ [last]) ∧ headKind? ts = headKind? (before ++ [last]) := by
  rw [splitItem_eq hs]
  cases before <;> exact ⟨rfl, rfl⟩

/-- Behind an item tokens are still nested. -/
theorem NestedWithin.behind_split {ts before after : List Token} {last : Token}
    (hn : NestedWithin ts) (hs : splitItem 0 "" ts = some (before, last, after)) :
    NestedWithin after := by
  rw [splitItem_eq hs] at hn
  exact hn.right.tail

/-- What is read as top-level items is derived. -/
theorem Program.readItems_of_parse {types : List String} {items : List Item} :
    (ts : List Token) → parseProgramItems types ts = .ok items → NestedWithin ts →
      ∃ printed, Program.ReadItems types items ts printed
  | [], h, _ => by
    rw [parseProgramItems] at h
    cases h
    exact ⟨[], .nil⟩
  | t :: ts, h, hn => by
    cases itemBranch_of_parse h with
    | directive hk hrest =>
      obtain ⟨printed, hread⟩ := Program.readItems_of_parse ts hrest hn.tail
      exact ⟨_, .directive hk hread⟩
    | @verbatim _ before after _ rest hk hs ht hrest =>
      have hshort := splitItem_length hs
      obtain ⟨hts, hstops⟩ := splitItem_eq_some.1 hs
      obtain ⟨hline, hkind⟩ := firstLine_of_split hs
      have hafter := hn.behind_split hs
      obtain ⟨printed, hread⟩ := Program.readItems_of_parse after hrest hafter
      rw [hline, hts]
      exact ⟨_, .verbatim (hkind ▸ hk) hstops ht hread⟩
    | @function _ header after behind opening body rest hk hs ht hbody hrest =>
      have hshort := splitItem_length hs
      have hbehind := hbody.shorter
      obtain ⟨hts, hstops⟩ := splitItem_eq_some.1 hs
      obtain ⟨hline, hkind⟩ := firstLine_of_split hs
      have hafter := hn.behind_split hs
      have hbrace := text_of_splitItem hs ht
      -- the body is derived first: the items behind it begin where it was closed
      obtain ⟨used, printed, closing, hread, hc, rfl⟩ := Stmt.readAll_of_parse after hbody hafter
      obtain ⟨printed', hread'⟩ := Program.readItems_of_parse behind hrest hafter.right.tail
      rw [hbrace] at hstops
      rw [hkind] at hk
      obtain ⟨u, header, rfl⟩ := List.exists_cons_of_ne_nil (header_ne_nil hstops)
      rw [hline, hts]
      exact ⟨_, .function hk hstops hbrace hc hread hread'⟩
termination_by ts => ts.length
decreasing_by
  all_goals simp only [List.length_append, List.length_cons] at *
  all_goals omega

end

end WitnessReplay
