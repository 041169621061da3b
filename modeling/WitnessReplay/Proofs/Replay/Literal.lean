import WitnessReplay.Proofs.Program.Operand
import WitnessReplay.Proofs.Replay.Conjunct
import WitnessReplay.Replay.Nondet

/-!
# The values of assumptions

What an assumption says of a variable is put into the program as it stands. A truth value is a
number there, and a literal of a number is taken only if the whole of it is one: such a text is read
back as one number (`NumberText.numeral`). A character between quotes may be anything, so nothing is
said of assumptions with quotes.
-/

namespace WitnessReplay

open Token Text

/-! ### Lower case -/

/-- A character is part of a word if it is so in lower case. -/
theorem isWordPart_of_toLower {c : Char} (h : isWordPart c.toLower = true) :
    isWordPart c = true := by
  rcases toLower_cases c with hc | ⟨hc, -⟩
  · rwa [hc] at h
  · simp [isWordPart, isWordStart, hc]

/-- What a number goes on with in lower case, it goes on with. -/
theorem numberGoesOn_of_toLower {last c : Char}
    (h : numberGoesOn last.toLower c.toLower = true) : numberGoesOn last c = true := by
  simp only [numberGoesOn, Bool.or_eq_true, Bool.and_eq_true, beq_iff_eq] at h ⊢
  rcases h with h | ⟨hc, hlast⟩
  · exact .inl (h.imp isWordPart_of_toLower fun hc => eq_of_toLower_eq hc rfl)
  refine .inr ⟨hc.imp (eq_of_toLower_eq · rfl) (eq_of_toLower_eq · rfl), ?_⟩
  rcases toLower_cases last with heq | ⟨halpha, -, hval⟩
  · rwa [heq] at hlast
  · -- the letter is the one 32 before
    have hletter (n : Nat) (hn : last.toNat = n) : last = Char.ofNat n := by
      rw [← hn, Char.ofNat_toNat]
    rcases hlast with ((hlast | hlast) | hlast) | hlast <;> rw [hlast] at hval
    · exact .inl (.inl (.inr (hletter 69 (by simpa using hval.symm))))
    · obtain rfl := hletter 37 (by simpa using hval.symm)
      cases halpha
    · exact .inr (hletter 80 (by simpa using hval.symm))
    · obtain rfl := hletter 48 (by simpa using hval.symm)
      cases halpha

/-- What is one number in lower case is one number. -/
theorem splitNumber_of_toLower {last : Char} {cs : List Char}
    (h : splitNumber last.toLower (cs.map Char.toLower) = (cs.map Char.toLower, [])) :
    splitNumber last cs = (cs, []) := by
  induction cs generalizing last with
  | nil => rfl
  | cons c cs ih =>
    rw [List.map_cons, splitNumber_cons] at h
    split at h
    next hon =>
      obtain ⟨hread, hleft⟩ := Prod.ext_iff.1 h
      rw [splitNumber_cons, if_pos (numberGoesOn_of_toLower hon),
        ih (Prod.ext (List.cons.inj hread).2 hleft)]
    next => cases h

/-- So a text is a numeral if it is one in lower case. -/
theorem Numeral.of_toLower {cs : List Char} (h : Numeral (String.ofList (cs.map Char.toLower))) :
    Numeral (String.ofList cs) := by
  obtain ⟨c, rest, hcs, hhead, hsplit⟩ := h
  rw [String.toList_ofList, List.map_eq_cons_iff] at hcs
  obtain ⟨c, rest, rfl, rfl, rfl⟩ := hcs
  refine ⟨c, rest, String.toList_ofList, ?_, splitNumber_of_toLower hsplit⟩
  simp only [Bool.or_eq_true, Bool.and_eq_true, beq_iff_eq] at hhead ⊢
  refine hhead.imp isDigit_of_toLower fun ⟨hc, hnext⟩ => ⟨eq_of_toLower_eq hc rfl, ?_⟩
  cases rest with
  | nil => cases hnext
  | cons d rest => exact isDigit_of_toLower hnext

/-! ### Numbers -/

namespace Assumption

/-- A text with which any number goes on to its end. -/
def Continues (cs : List Char) : Prop :=
  ∀ last, splitNumber last cs = (cs, [])

theorem continues_nil : Continues [] := fun _ => rfl

/-- Parts of words and points may stand before what continues a number. -/
theorem Continues.append {cs ds : List Char} (hcs : ∀ c ∈ cs, isWordPart c = true ∨ c = '.')
    (hds : Continues ds) : Continues (cs ++ ds) := by
  intro last
  obtain ⟨last', -, hsplit⟩ := splitNumber_of_forall hcs last ds
  rw [hsplit, hds last']

theorem Continues.cons {c : Char} {cs : List Char} (hc : isWordPart c = true ∨ c = '.')
    (h : Continues cs) : Continues (c :: cs) := by
  have hone : ∀ d ∈ [c], isWordPart d = true ∨ d = '.' := by simpa using hc
  exact h.append hone

theorem continues_of_forall {cs : List Char} (h : ∀ c ∈ cs, isWordPart c = true ∨ c = '.') :
    Continues cs := by
  have := continues_nil.append h
  rwa [List.append_nil] at this

/-- A digit and what continues a number are a numeral. -/
theorem numeral_of_digit {c : Char} {cs : List Char} (hc : c.isDigit = true) (h : Continues cs) :
    Numeral (String.ofList (c :: cs)) :=
  ⟨c, cs, String.toList_ofList, by rw [hc, Bool.true_or], h c⟩

theorem Digits.continues {cs ds : List Char} (h : Digits cs) (hds : Continues ds) :
    Continues (cs ++ ds) :=
  hds.append fun c hc => .inl (isWordPart_of_isDigit (h.2 c hc))

/-- Digits begin a number, if it goes on behind them. -/
theorem Digits.numeral {cs ds : List Char} (h : Digits cs) (hds : Continues ds) :
    Numeral (String.ofList (cs ++ ds)) := by
  obtain ⟨c, rest, rfl⟩ := List.exists_cons_of_ne_nil h.1
  obtain ⟨hc, hrest⟩ := List.forall_mem_cons.1 h.2
  exact numeral_of_digit hc (hds.append fun d hd => .inl (isWordPart_of_isDigit (hrest d hd)))

/-- Digits with a point begin a number. -/
theorem Pointed.numeral {cs ds : List Char} (h : Pointed cs) (hds : Continues ds) :
    Numeral (String.ofList (cs ++ ds)) := by
  obtain ⟨whole, fraction, rfl, hne, hdigits⟩ := h
  have hpart (c : Char) (hc : c ∈ whole ++ fraction) : isWordPart c = true ∨ c = '.' :=
    .inl (isWordPart_of_isDigit (hdigits c hc))
  have hbehind : Continues (fraction ++ ds) :=
    hds.append fun c hc => hpart c (List.mem_append_right _ hc)
  rw [List.append_assoc, List.cons_append]
  cases whole with
  | cons c whole =>
    have hwhole (d : Char) (hd : d ∈ whole) : isWordPart d = true ∨ d = '.' :=
      hpart d (by simp [hd])
    exact numeral_of_digit (hdigits c (by simp)) (.append hwhole (hbehind.cons (.inr rfl)))
  | nil =>
    -- a point without digits before it has some behind
    obtain ⟨c, rest, rfl⟩ := List.exists_cons_of_ne_nil (by simpa using hne)
    exact ⟨'.', _, String.toList_ofList, by simp [hdigits c (by simp)], hbehind '.'⟩

/-- A number goes on with the mark of an exponent, its sign and its digits. -/
theorem Exponent.continues {cs ds : List Char} (h : Exponent cs) (hds : Continues ds) :
    Continues ('e' :: (cs ++ ds)) := by
  obtain ⟨sign, digits, hsign, hdigits, rfl⟩ := h
  have hbehind := hdigits.continues hds
  have hsigned {c : Char} (hon : numberGoesOn 'e' c = true) :
      Continues ('e' :: c :: (digits ++ ds)) := by
    intro last
    rw [splitNumber_cons, if_pos (numberGoesOn_of_isWordPart (by decide) last), splitNumber_cons,
      if_pos hon, hbehind c]
  simp only [List.mem_cons, List.not_mem_nil, or_false] at hsign
  rcases hsign with rfl | rfl | rfl
  · exact hbehind.cons (.inl (by decide))
  · exact hsigned (by decide)
  · exact hsigned (by decide)

/-- A floating number is a numeral, with whatever continues it. -/
theorem Floating.numeral {cs ds : List Char} (h : Floating cs) (hds : Continues ds) :
    Numeral (String.ofList (cs ++ ds)) := by
  cases h with
  | pointed h => exact h.numeral hds
  | scientific hm he =>
    rw [List.append_assoc, List.cons_append]
    rcases hm with hm | hm
    · exact hm.numeral (he.continues hds)
    · exact hm.numeral (he.continues hds)

/-- The suffix of an integer continues it. -/
theorem IntegerSuffix.continues {cs : List Char} (h : IntegerSuffix cs) : Continues cs := by
  refine continues_of_forall fun c hc => .inl ?_
  rcases h c hc with rfl | rfl <;> decide

theorem FloatSuffix.continues {cs : List Char} (h : FloatSuffix cs) : Continues cs := by
  refine continues_of_forall fun c hc => .inl ?_
  simp only [FloatSuffix, List.mem_cons, List.not_mem_nil, or_false] at h
  rcases h with rfl | rfl | rfl
  · cases hc
  · rw [List.mem_singleton.1 hc]; decide
  · rw [List.mem_singleton.1 hc]; decide

theorem isWordPart_of_isLowerHexDigit {c : Char} (h : isLowerHexDigit c = true) :
    isWordPart c = true := by
  rcases isAlpha_of_isLowerHexDigit h with h | h
  · exact isWordPart_of_isDigit h
  · simp [isWordPart, isWordStart, h]

/-- Every number of the grammar is a numeral to the lexer. -/
theorem LowerNumber.numeral {cs : List Char} (h : LowerNumber cs) :
    Numeral (String.ofList cs) := by
  cases h with
  | decimal hd hs => exact hd.numeral hs.continues
  | hexadecimal hne hd hs =>
    have hdigits := hs.continues.append fun c hc => .inl (isWordPart_of_isLowerHexDigit (hd c hc))
    exact numeral_of_digit rfl (hdigits.cons (.inl (by decide)))
  | floating hb hs => exact hb.numeral hs.continues

/-- **A literal of a number is read as one number.** -/
theorem NumberText.numeral {cs : List Char} (h : NumberText cs) : Numeral (String.ofList cs) :=
  .of_toLower (LowerNumber.numeral h)

/-! ### Assumptions -/

/-- A number that was written as a constraint is an operand, with its sign and parentheses. -/
theorem WritesNumber.exists_operand {value text : List Char} (h : WritesNumber value text) :
    ∃ us, Operand us (String.ofList value) := by
  cases h with
  | yes => exact ⟨_, (numeral_toString 1).operand⟩
  | no => exact ⟨_, (numeral_toString 0).operand⟩
  | unsigned hn => exact ⟨_, hn.numeral.operand⟩
  | @signed sign number _ _ hs hn =>
    have hsign : String.singleton sign = "-" ∨ String.singleton sign = "+" := by
      rcases hs with rfl | rfl
      · exact .inl rfl
      · exact .inr rfl
    have htext : String.ofList (sign :: number)
        = String.singleton sign ++ String.ofList number := by
      apply String.toList_inj.1
      simp
    rw [htext]
    exact ⟨_, hn.numeral.operand_signed hsign⟩

/-- **The value that an assumption gives to a variable can be put into a program**, if there are no
quotes in the assumption. -/
theorem exists_operand_of_mem_parse {text : String} {constraint : Constraint}
    (h : constraint ∈ parse text) (hq : '\'' ∉ text.toList) :
    ∃ us, Operand us constraint.value := by
  obtain ⟨piece, hpiece, hconjunct⟩ := List.mem_filterMap.1 h
  obtain ⟨left, right, hequals, -, -, hright⟩ := equates_of_conjunct? hconjunct
  rcases hright with hnumber | ⟨⟨body, -, hbody⟩, hwrapped⟩
  · simpa using hnumber.exists_operand
  · have hright : '\'' ∈ right := by
      rw [hbody] at hwrapped
      exact hwrapped.subset List.mem_cons_self
    refine absurd (subset_of_mem_splitAt hpiece ?_) hq
    rw [hequals]
    exact List.mem_append_right _ (List.mem_cons_of_mem _ (List.mem_cons_of_mem _ hright))

end Assumption

/-! ### Constants -/

/-- The type of a nondeterministic value is one of the table. -/
theorem Leaf.type_mem_of_nondetSlot? {content : Leaf} {slot : NondetSlot}
    (h : content.nondetSlot? = some slot) : ∃ entry ∈ nondetTypes, entry.2 = slot.type := by
  have hmem {e : Expr} {name : String}
      (he : e.nondetType?.map (fun type => (⟨name, type⟩ : NondetSlot)) = some slot) :
      ∃ entry ∈ nondetTypes, entry.2 = slot.type := by
    obtain ⟨type, htype, rfl⟩ := Option.map_eq_some_iff.1 he
    cases e with
    | call callee args =>
      obtain ⟨entry, hentry, rfl⟩ := Option.map_eq_some_iff.1 htype
      exact ⟨entry, List.mem_of_find?_eq_some hentry, rfl⟩
    | assign | ident | constant | raw => cases htype
  rw [Leaf.nondetSlot?.eq_def] at h
  split at h
  next =>
    split at h
    next => exact hmem h
    next => cases h
  next => exact hmem h
  next => cases h

/-- The types of nondeterministic values can be written in a cast. -/
theorem exists_written_type {entry : String × String} (h : entry ∈ nondetTypes) :
    ∃ ts, Written ts entry.2 ∧ ts ≠ [] ∧ ∀ a ∈ texts ts, Bland a := by
  have hall : ∀ entry ∈ nondetTypes, ∃ ts, tokenize entry.2 = .ok ts ∧
      (∀ t ∈ ts, t.kind ≠ .directive ∧ t.text.toList.head? ≠ some '#') ∧
        verbatim ts = entry.2 ∧ ts ≠ [] ∧ ∀ a ∈ texts ts, Bland a := by decide +kernel
  obtain ⟨ts, hts, hkind, htext, hne, hbland⟩ := hall entry h
  exact ⟨ts, written_of_tokenize ⟨ts, hts, hkind, rfl, htext⟩, hne, hbland⟩

/-- A constant of the type of a nondeterministic value is an operand if its value is one. -/
theorem exists_operand_constant {content : Leaf} {slot : NondetSlot} {us : List Token}
    {value : String} (h : content.nondetSlot? = some slot) (hv : Operand us value) :
    ∃ vs, Operand vs (Expr.constant slot.type value).render := by
  rw [Expr.render]
  split
  next => exact ⟨us, hv⟩
  next =>
    obtain ⟨entry, hentry, htype⟩ := Leaf.type_mem_of_nondetSlot? h
    obtain ⟨ts, hts, hne, hbland⟩ := exists_written_type hentry
    exact ⟨_, hv.cast (htype ▸ hts) hne hbland⟩

end WitnessReplay
