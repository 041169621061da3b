import Mathlib.Data.List.Infix
import WitnessReplay.Proofs.Text.Utf8

/-!
# Bytes that may be no text

What the lossy reader makes of any bytes is said here without its states. `Deciphered` cuts the
bytes into the encodings of characters and into broken stretches, and a broken stretch is as long as
a character could begin with it, or a single byte that no character begins with. `deciphered` says
that the reader cuts so; each broken stretch becomes one replacement character.

No broken stretch and no character of several bytes has an ASCII byte in it. So ASCII texts stand in
what was read just where their bytes stand in the bytes (`infix_decodeLossy_iff`).
-/

namespace WitnessReplay.Text

/-- Whether a character is written with these bytes first. -/
def BeginsChar (bytes : List UInt8) : Prop :=
  ∃ c, bytes <+: String.utf8EncodeChar c

/-- A stretch of bytes that breaks before `rest`. -/
inductive Broken : List UInt8 → List UInt8 → Prop
  /-- A character could begin so, but is not complete and cannot go on. -/
  | cut {bytes rest : List UInt8} (hbegins : BeginsChar bytes)
      (hopen : ∀ c, bytes ≠ String.utf8EncodeChar c) (hne : bytes ≠ [])
      (hstop : ∀ b ∈ rest.head?, ¬ BeginsChar (bytes ++ [b])) : Broken bytes rest
  | stray {b : UInt8} {rest : List UInt8} (h : ¬ BeginsChar [b]) : Broken [b] rest

/-- Bytes and what they are read as: characters, and `none` for each broken stretch. -/
inductive Deciphered : List UInt8 → List (Option Char) → Prop
  | nil : Deciphered [] []
  | char (c : Char) {bytes : List UInt8} {read : List (Option Char)} (h : Deciphered bytes read) :
      Deciphered (String.utf8EncodeChar c ++ bytes) (some c :: read)
  | broken {stretch bytes : List UInt8} {read : List (Option Char)} (hb : Broken stretch bytes)
      (h : Deciphered bytes read) : Deciphered (stretch ++ bytes) (none :: read)

variable {b : UInt8} {c : Char} {p : Partial} {held bytes rest : List UInt8}

/-! ### Encodings by their bits -/

section Encoding

variable {v : Nat} {b₁ b₂ b₃ : UInt8}

/-- A valid number is the number of its character. -/
theorem val_ofNat (h : v.isValidChar) : (Char.ofNat v).val.toNat = v := by
  rw [Char.ofNat, dif_pos h]
  rfl

/-- A byte of ASCII is the character of its number. -/
theorem utf8EncodeChar_ascii (h : b < 0x80) :
    String.utf8EncodeChar (Char.ofNat b.toNat) = [b] := by
  have hlt : b.toNat < 0x80 := UInt8.lt_iff_toNat_lt.1 h
  have hval : (Char.ofNat b.toNat).toNat = b.toNat := val_ofNat (.inl (by omega))
  rw [utf8EncodeChar_of_lt (by rwa [hval]), hval, UInt8.ofNat_toNat]

/-- Two bytes that fit together encode one character. -/
theorem utf8EncodeChar_two (hb : 0xC2 ≤ b.toNat ∧ b.toNat ≤ 0xDF)
    (h₁ : 0x80 ≤ b₁.toNat ∧ b₁.toNat ≤ 0xBF) :
    String.utf8EncodeChar (Char.ofNat (b.toNat % 32 * 64 + b₁.toNat % 64)) = [b, b₁] := by
  have hvalid : (b.toNat % 32 * 64 + b₁.toNat % 64).isValidChar := .inl (by omega)
  unfold String.utf8EncodeChar
  rw [val_ofNat hvalid, if_neg (by omega), if_pos (by omega)]
  simp only [List.cons.injEq, ← UInt8.toNat_inj, and_true]
  exact ⟨(toNat_ofNat (by omega)).trans (by omega), (toNat_ofNat (by omega)).trans (by omega)⟩

/-- Three bytes are a character, if their bits are none of fewer bytes and no surrogate. -/
theorem utf8EncodeChar_three (hb : 0xE0 ≤ b.toNat ∧ b.toNat ≤ 0xEF)
    (h₁ : 0x80 ≤ b₁.toNat ∧ b₁.toNat ≤ 0xBF) (h₂ : 0x80 ≤ b₂.toNat ∧ b₂.toNat ≤ 0xBF)
    (hlow : b.toNat = 0xE0 → 0xA0 ≤ b₁.toNat) (hhigh : b.toNat = 0xED → b₁.toNat ≤ 0x9F) :
    String.utf8EncodeChar
      (Char.ofNat ((b.toNat % 16 * 64 + b₁.toNat % 64) * 64 + b₂.toNat % 64)) = [b, b₁, b₂] := by
  have hvalid : ((b.toNat % 16 * 64 + b₁.toNat % 64) * 64 + b₂.toNat % 64).isValidChar := by
    unfold Nat.isValidChar
    omega
  unfold String.utf8EncodeChar
  rw [val_ofNat hvalid, if_neg (by omega), if_neg (by omega), if_pos (by omega)]
  simp only [List.cons.injEq, ← UInt8.toNat_inj, and_true]
  refine ⟨?_, ?_, ?_⟩ <;> exact (toNat_ofNat (by omega)).trans (by omega)

/-- Four bytes are a character, if their bits are none of fewer bytes and not too many. -/
theorem utf8EncodeChar_four (hb : 0xF0 ≤ b.toNat ∧ b.toNat ≤ 0xF4)
    (h₁ : 0x80 ≤ b₁.toNat ∧ b₁.toNat ≤ 0xBF) (h₂ : 0x80 ≤ b₂.toNat ∧ b₂.toNat ≤ 0xBF)
    (h₃ : 0x80 ≤ b₃.toNat ∧ b₃.toNat ≤ 0xBF)
    (hlow : b.toNat = 0xF0 → 0x90 ≤ b₁.toNat) (hhigh : b.toNat = 0xF4 → b₁.toNat ≤ 0x8F) :
    String.utf8EncodeChar (Char.ofNat
      (((b.toNat % 8 * 64 + b₁.toNat % 64) * 64 + b₂.toNat % 64) * 64 + b₃.toNat % 64))
        = [b, b₁, b₂, b₃] := by
  have hvalid : (((b.toNat % 8 * 64 + b₁.toNat % 64) * 64 + b₂.toNat % 64) * 64
      + b₃.toNat % 64).isValidChar := by
    unfold Nat.isValidChar
    omega
  unfold String.utf8EncodeChar
  rw [val_ofNat hvalid, if_neg (by omega), if_neg (by omega), if_neg (by omega)]
  simp only [List.cons.injEq, ← UInt8.toNat_inj, and_true]
  refine ⟨?_, ?_, ?_, ?_⟩ <;> exact (toNat_ofNat (by omega)).trans (by omega)

end Encoding

/-! ### Bytes that are held -/

theorem continuation_range : (0x80 : UInt8) ≤ 0xBF := by decide

/-- Whatever continuation bytes follow, `owed` of them and the first one from `low` to `high`, the
bytes held and these are the character that their bits make up. -/
def Completes (held : List UInt8) : Nat → Nat → UInt8 → UInt8 → Prop
  | 0, bits, _, _ => String.utf8EncodeChar (Char.ofNat bits) = held
  | owed + 1, bits, low, high => ∀ b, low ≤ b → b ≤ high →
      Completes (held ++ [b]) owed (bits * 64 + b.toNat % 64) 0x80 0xBF

/-- The bytes of an open character, which the reader holds in a state. -/
structure Held (held : List UInt8) (p : Partial) : Prop where
  owed_pos : 0 < p.owed
  range : p.low ≤ p.high
  completes : Completes held p.owed p.bits p.low p.high
  /-- Reading the bytes leads to the state and completes nothing. -/
  reads : ∀ rest, decodeFrom none (held ++ rest) = decodeFrom (some p) rest

/-- Bytes that can be completed begin a character. -/
theorem Completes.beginsChar {owed bits : Nat} {low high : UInt8} (hrange : low ≤ high)
    (h : Completes held owed bits low high) : BeginsChar held := by
  induction owed generalizing held bits low high with
  | zero =>
    have hc : String.utf8EncodeChar (Char.ofNat bits) = held := h
    exact ⟨Char.ofNat bits, by rw [hc]⟩
  | succ owed ih =>
    obtain ⟨c, hc⟩ := ih continuation_range (h low (UInt8.le_refl low) hrange)
    exact ⟨c, (List.prefix_append held [low]).trans hc⟩

/-- How many bytes a lead byte announces, with what bits it begins and where the next byte may lie.
-/
theorem lead?_cases (h : lead? b = some p) :
    ((0xC2 ≤ b.toNat ∧ b.toNat ≤ 0xDF) ∧ p = ⟨b.toNat % 32, 1, 0x80, 0xBF⟩) ∨
    ((0xE0 ≤ b.toNat ∧ b.toNat ≤ 0xEF) ∧ ∃ low high, p = ⟨b.toNat % 16, 2, low, high⟩ ∧
      0x80 ≤ low.toNat ∧ low.toNat ≤ high.toNat ∧ high.toNat ≤ 0xBF ∧
      (b.toNat = 0xE0 → 0xA0 ≤ low.toNat) ∧ (b.toNat = 0xED → high.toNat ≤ 0x9F)) ∨
    ((0xF0 ≤ b.toNat ∧ b.toNat ≤ 0xF4) ∧ ∃ low high, p = ⟨b.toNat % 8, 3, low, high⟩ ∧
      0x80 ≤ low.toNat ∧ low.toNat ≤ high.toNat ∧ high.toNat ≤ 0xBF ∧
      (b.toNat = 0xF0 → 0x90 ≤ low.toNat) ∧ (b.toNat = 0xF4 → high.toNat ≤ 0x8F)) := by
  unfold lead? at h
  simp only [UInt8.le_iff_toNat_le, ← UInt8.toNat_inj, UInt8.reduceToNat] at h
  split at h
  next hb =>
    cases h
    exact .inl ⟨hb, rfl⟩
  iterate 3
    split at h
    next hb =>
      cases h
      refine .inr (.inl ⟨by omega, _, _, rfl, ?_, ?_, ?_, ?_, ?_⟩) <;> simp <;> omega
  iterate 3
    split at h
    next hb =>
      cases h
      refine .inr (.inr ⟨by omega, _, _, rfl, ?_, ?_, ?_, ?_, ?_⟩) <;> simp <;> omega
  cases h

/-- A byte from 0x80 to 0xBF, as the range of a state allows it. -/
theorem toNat_range (hlow : (0x80 : UInt8) ≤ b) (hhigh : b ≤ 0xBF) :
    0x80 ≤ b.toNat ∧ b.toNat ≤ 0xBF := by
  simpa [UInt8.le_iff_toNat_le] using And.intro hlow hhigh

/-- A lead byte opens a character. -/
theorem held_of_lead (h : lead? b = some p) : Held [b] p := by
  have hreads (hb : 0xC2 ≤ b.toNat) (rest : List UInt8) :
      decodeFrom none ([b] ++ rest) = decodeFrom (some p) rest := by
    have hfirst : readByte none b = ([], some p) := by
      rw [readByte, readFirst, if_neg, h]
      simp only [UInt8.lt_iff_toNat_lt, UInt8.reduceToNat]
      omega
    exact decodeFrom_step hfirst rest
  -- each range of lead bytes is that of the characters of one length
  rcases lead?_cases h with ⟨hb, rfl⟩ | ⟨hb, low, high, rfl, hlow, hlh, hhigh, hE0, hED⟩ |
    ⟨hb, low, high, rfl, hlow, hlh, hhigh, hF0, hF4⟩
  · exact {
      owed_pos := Nat.one_pos
      range := continuation_range
      completes := fun b₁ h₁ h₁' => utf8EncodeChar_two hb (toNat_range h₁ h₁')
      reads := hreads hb.1 }
  · refine ⟨Nat.two_pos, UInt8.le_iff_toNat_le.2 hlh, fun b₁ h₁ h₁' b₂ h₂ h₂' => ?_,
      hreads (by omega)⟩
    have hlow₁ : low.toNat ≤ b₁.toNat := h₁
    have hhigh₁ : b₁.toNat ≤ high.toNat := h₁'
    exact utf8EncodeChar_three hb ⟨by omega, by omega⟩ (toNat_range h₂ h₂')
      (fun h => (hE0 h).trans hlow₁) (fun h => hhigh₁.trans (hED h))
  · refine ⟨by simp, UInt8.le_iff_toNat_le.2 hlh, fun b₁ h₁ h₁' b₂ h₂ h₂' b₃ h₃ h₃' => ?_,
      hreads (by omega)⟩
    have hlow₁ : low.toNat ≤ b₁.toNat := h₁
    have hhigh₁ : b₁.toNat ≤ high.toNat := h₁'
    exact utf8EncodeChar_four hb ⟨by omega, by omega⟩ (toNat_range h₂ h₂') (toNat_range h₃ h₃')
      (fun h => (hF0 h).trans hlow₁) (fun h => hhigh₁.trans (hF4 h))

/-- A continuation byte is held too, unless it is the last one. -/
theorem Held.goOn (h : Held held p) (hlow : p.low ≤ b) (hhigh : b ≤ p.high) (howed : 1 < p.owed) :
    Held (held ++ [b]) ⟨p.bits * 64 + b.toNat % 64, p.owed - 1, 0x80, 0xBF⟩ := by
  have hstep : readByte (some p) b
      = ([], some ⟨p.bits * 64 + b.toNat % 64, p.owed - 1, 0x80, 0xBF⟩) := by
    rw [readByte, if_pos ⟨hlow, hhigh⟩, if_neg (by omega)]
  obtain ⟨n, hn⟩ : ∃ n, p.owed = n + 1 := ⟨p.owed - 1, by omega⟩
  refine ⟨Nat.sub_pos_of_lt howed, continuation_range, ?_, fun rest => ?_⟩
  · have hcompletes := h.completes
    rw [hn] at hcompletes
    rw [hn]
    exact hcompletes b hlow hhigh
  · rw [List.append_assoc, h.reads]
    exact decodeFrom_step hstep rest

/-- The last continuation byte completes the character of the bits. -/
theorem Held.last (h : Held held p) (hlow : p.low ≤ b) (hhigh : b ≤ p.high) (howed : p.owed ≤ 1) :
    String.utf8EncodeChar (Char.ofNat (p.bits * 64 + b.toNat % 64)) = held ++ [b] := by
  have hcompletes := h.completes
  rw [show p.owed = 1 from Nat.le_antisymm howed h.owed_pos] at hcompletes
  exact hcompletes b hlow hhigh

/-! ### Broken stretches -/

theorem Broken.ne_nil (h : Broken bytes rest) : bytes ≠ [] := by
  cases h with
  | cut hbegins hopen hne hstop => exact hne
  | stray h => simp

/-- What reads as a broken stretch at once is no character. -/
theorem ne_utf8EncodeChar {read : List (Option Char)}
    (h : decodeFrom none (bytes ++ rest) = none :: read) : bytes ≠ String.utf8EncodeChar c := by
  rintro rfl
  rw [decodeFrom_utf8EncodeChar] at h
  cases h

/-- What reads as a broken stretch, whatever follows, begins no character. -/
theorem not_beginsChar
    (h : ∀ rest, ∃ read, decodeFrom none (bytes ++ rest) = none :: read) : ¬ BeginsChar bytes := by
  rintro ⟨c, rest, hc⟩
  obtain ⟨read, hread⟩ := h rest
  rw [hc, ← List.append_nil (String.utf8EncodeChar c)] at hread
  exact ne_utf8EncodeChar hread rfl

/-- Bytes that are held break at the end and before a byte out of range. -/
theorem Held.broken (h : Held held p) (hstop : ∀ b ∈ rest.head?, ¬ (p.low ≤ b ∧ b ≤ p.high)) :
    Broken held rest := by
  have hnone : decodeFrom none held = [none] := by
    rw [← List.append_nil held, h.reads]
    rfl
  refine .cut (h.completes.beginsChar h.range) (fun c => ?_) ?_ (fun b hb => ?_)
  · rw [← List.append_nil held] at hnone
    exact ne_utf8EncodeChar hnone
  · rintro rfl
    cases hnone
  · have hstep : readByte (some p) b = (none :: (readFirst b).1, (readFirst b).2) := by
      rw [readByte, if_neg (hstop b hb)]
    refine not_beginsChar fun tail => ?_
    rw [List.append_assoc, h.reads]
    exact ⟨_, decodeFrom_step hstep tail⟩

/-! ### The reader -/

/-- The bytes after a lead byte, a stray one or an ASCII one, once the bytes after it are read. -/
theorem deciphered_cons (hnone : Deciphered bytes (decodeFrom none bytes))
    (hheld : ∀ held p, Held held p → Deciphered (held ++ bytes) (decodeFrom (some p) bytes)) :
    Deciphered (b :: bytes) (decodeFrom none (b :: bytes)) := by
  by_cases hascii : b < 0x80
  · have hstep : readByte none b = ([some (Char.ofNat b.toNat)], none) := by
      rw [readByte, readFirst, if_pos hascii]
    rw [decodeFrom_step hstep]
    have := Deciphered.char (Char.ofNat b.toNat) hnone
    rwa [utf8EncodeChar_ascii hascii] at this
  cases hlead : lead? b with
  | some p =>
    have hp := held_of_lead hlead
    have := hheld [b] p hp
    rwa [← hp.reads] at this
  | none =>
    have hstep : readByte none b = ([none], none) := by
      rw [readByte, readFirst, if_neg hascii, hlead]
    have hstray : ¬ BeginsChar [b] := not_beginsChar fun rest => ⟨_, decodeFrom_step hstep rest⟩
    rw [decodeFrom_step hstep]
    exact .broken (.stray hstray) hnone

/-- What holds of the reader in every state, by induction on the bytes: it cuts the bytes held and
those to come into characters and broken stretches. -/
theorem deciphered_states (bytes : List UInt8) :
    Deciphered bytes (decodeFrom none bytes) ∧
      ∀ held p, Held held p → Deciphered (held ++ bytes) (decodeFrom (some p) bytes) := by
  induction bytes with
  | nil =>
    refine ⟨.nil, fun held p h => ?_⟩
    exact .broken (h.broken (by simp)) .nil
  | cons b bytes ih =>
    have hfresh := deciphered_cons (b := b) ih.1 ih.2
    refine ⟨hfresh, fun held p h => ?_⟩
    by_cases hrange : p.low ≤ b ∧ b ≤ p.high
    · by_cases howed : p.owed ≤ 1
      · have hstep : readByte (some p) b
            = ([some (Char.ofNat (p.bits * 64 + b.toNat % 64))], none) := by
          rw [readByte, if_pos hrange, if_pos howed]
        have := Deciphered.char (Char.ofNat (p.bits * 64 + b.toNat % 64)) ih.1
        rw [h.last hrange.1 hrange.2 howed, List.append_assoc] at this
        rw [decodeFrom_step hstep]
        exact this
      · have hgo := h.goOn hrange.1 hrange.2 (by omega)
        have := ih.2 _ _ hgo
        rwa [← hgo.reads, List.append_assoc, h.reads] at this
    · -- the byte that breaks the character is read afresh
      have hbreak : readByte (some p) b = (none :: (readFirst b).1, (readFirst b).2) := by
        rw [readByte, if_neg hrange]
      have hfirst : readByte none b = ((readFirst b).1, (readFirst b).2) := rfl
      have hstep : decodeFrom (some p) (b :: bytes) = none :: decodeFrom none (b :: bytes) := by
        rw [decodeFrom_step hbreak, decodeFrom_step hfirst, List.cons_append]
      rw [hstep]
      exact .broken (h.broken (by simpa using hrange)) hfresh

/-- **The lossy reader cuts all bytes into characters and maximal broken stretches.** -/
theorem deciphered (bytes : List UInt8) : Deciphered bytes (decodeFrom none bytes) :=
  (deciphered_states bytes).1

/-! ### No other reading -/

theorem BeginsChar.of_begin {first : List UInt8} (hbegins : BeginsChar bytes)
    (h : first <+: bytes) : BeginsChar first := by
  obtain ⟨c, hc⟩ := hbegins
  exact ⟨c, h.trans hc⟩

/-- No character is written with the bytes of another one first. -/
theorem utf8EncodeChar_append_not_beginsChar (h : rest ≠ []) :
    ¬ BeginsChar (String.utf8EncodeChar c ++ rest) := by
  rintro ⟨c', tail, hc'⟩
  have hread := decodeFrom_utf8EncodeChar c' []
  rw [List.append_nil, ← hc', List.append_assoc, decodeFrom_utf8EncodeChar, List.cons.injEq,
    Option.some.injEq] at hread
  obtain ⟨rfl, -⟩ := hread
  rw [List.append_assoc, List.append_right_eq_self] at hc'
  exact h (List.append_eq_nil_iff.1 hc').1

/-- One of the stretches into which the bytes are cut. -/
def Stretch (bytes rest : List UInt8) : Prop :=
  (∃ c, bytes = String.utf8EncodeChar c) ∨ Broken bytes rest

/-- A stretch begins a character or is one byte long. -/
theorem Stretch.begins (h : Stretch bytes rest) : BeginsChar bytes ∨ ∃ b, bytes = [b] := by
  rcases h with ⟨c, rfl⟩ | h
  · exact .inl ⟨c, List.prefix_rfl⟩
  cases h with
  | cut hbegins hopen hne hstop => exact .inl hbegins
  | @stray b _ h => exact .inr ⟨b, rfl⟩

theorem Stretch.ne_nil (h : Stretch bytes rest) : bytes ≠ [] := by
  rcases h with ⟨c, rfl⟩ | h
  · exact String.utf8EncodeChar_ne_nil
  · exact h.ne_nil

/-- No character begins with a stretch and the byte after it. -/
theorem Stretch.maximal (h : Stretch bytes (b :: rest)) : ¬ BeginsChar (bytes ++ [b]) := by
  rcases h with ⟨c, rfl⟩ | h
  · exact utf8EncodeChar_append_not_beginsChar (List.cons_ne_nil b [])
  cases h with
  | cut hbegins hopen hne hstop => exact hstop b rfl
  | @stray b' _ h => exact fun hbegins => h (hbegins.of_begin ⟨[b], rfl⟩)

/-- A stretch is not longer than another one at its place. -/
theorem Stretch.eq_nil {more : List UInt8} (h : Stretch bytes (more ++ rest))
    (hmore : Stretch (bytes ++ more) rest) : more = [] := by
  cases more with
  | nil => rfl
  | cons b more =>
    rcases hmore.begins with hbegins | ⟨b', hb'⟩
    · refine absurd (hbegins.of_begin ⟨more, ?_⟩) h.maximal
      rw [List.append_assoc, List.singleton_append]
    · have hlength := congrArg List.length hb'
      have hpos := List.length_pos_iff.2 h.ne_nil
      simp only [List.length_append, List.length_cons, List.length_nil] at hlength
      omega

/-- Bytes can be cut into a stretch and a rest in one way only. -/
theorem Stretch.unique {bytes' rest' : List UInt8} (h : Stretch bytes rest)
    (h' : Stretch bytes' rest') (heq : bytes ++ rest = bytes' ++ rest') :
    bytes = bytes' ∧ rest = rest' := by
  rcases List.append_eq_append_iff.1 heq with ⟨more, rfl, rfl⟩ | ⟨more, rfl, rfl⟩
  · have := h.eq_nil h'
    simp [this]
  · have := h'.eq_nil h
    simp [this]

/-- Broken bytes encode no character. -/
theorem Broken.ne_utf8EncodeChar (h : Broken bytes rest) : bytes ≠ String.utf8EncodeChar c := by
  cases h with
  | cut hbegins hopen hne hstop => exact hopen c
  | stray h => exact fun heq => h ⟨c, heq ▸ List.prefix_rfl⟩

/-- **There is only one way to decipher bytes.** By induction on the first way: at each step, what
is read next is decided by the bytes. -/
theorem Deciphered.unique {read read' : List (Option Char)} (h : Deciphered bytes read)
    (h' : Deciphered bytes read') : read = read' := by
  induction h generalizing read' with
  | nil =>
    generalize hb : ([] : List UInt8) = bytes at h'
    cases h' with
    | nil => rfl
    | char c h' => exact absurd (List.append_eq_nil_iff.1 hb.symm).1 String.utf8EncodeChar_ne_nil
    | broken hb' h' => exact absurd (List.append_eq_nil_iff.1 hb.symm).1 hb'.ne_nil
  | @char c bytes read h ih =>
    -- the first stretch is the same in both ways, and it is a character or broken, not both
    generalize hb : String.utf8EncodeChar c ++ bytes = all at h'
    cases h' with
    | nil => exact absurd (List.append_eq_nil_iff.1 hb).1 String.utf8EncodeChar_ne_nil
    | char c' h' =>
      obtain ⟨hc, rfl⟩ := Stretch.unique (.inl ⟨c, rfl⟩) (.inl ⟨c', rfl⟩) hb
      have hread := congrArg (decodeFrom none) hb
      rw [decodeFrom_utf8EncodeChar, decodeFrom_utf8EncodeChar] at hread
      obtain ⟨hc, -⟩ := List.cons.inj hread
      rw [hc, ih h']
    | broken hb' h' =>
      obtain ⟨hc, -⟩ := Stretch.unique (.inl ⟨c, rfl⟩) (.inr hb') hb
      exact absurd hc.symm hb'.ne_utf8EncodeChar
  | @broken stretch bytes read hbroken h ih =>
    generalize hb : stretch ++ bytes = all at h'
    cases h' with
    | nil => exact absurd (List.append_eq_nil_iff.1 hb).1 hbroken.ne_nil
    | char c' h' =>
      obtain ⟨hc, -⟩ := Stretch.unique (.inr hbroken) (.inl ⟨c', rfl⟩) hb
      exact absurd hc hbroken.ne_utf8EncodeChar
    | broken hb' h' =>
      obtain ⟨-, rfl⟩ := Stretch.unique (.inr hbroken) (.inr hb') hb
      rw [ih h']

/-- The reader cuts all bytes into characters and maximal broken stretches, and that can be done in
one way only. -/
theorem deciphered_iff {read : List (Option Char)} :
    Deciphered bytes read ↔ decodeFrom none bytes = read :=
  ⟨(deciphered bytes).unique, fun h => h ▸ deciphered bytes⟩

/-! ### ASCII texts -/

/-- No broken stretch has a byte of ASCII. -/
theorem Broken.le_of_mem (h : Broken bytes rest) : ∀ b ∈ bytes, 0x80 ≤ b := by
  cases h with
  | cut hbegins hopen hne hstop =>
    obtain ⟨c, hc⟩ := hbegins
    have hlow : 0x80 ≤ c.toNat := by
      by_contra hlt
      -- the encoding is one byte long, so that a part of it is all of it
      have hlength := hc.length_le
      rw [utf8EncodeChar_of_lt (Nat.lt_of_not_le hlt), List.length_singleton] at hlength
      refine hopen c (hc.eq_of_length_le ?_)
      rw [utf8EncodeChar_of_lt (Nat.lt_of_not_le hlt)]
      exact List.length_pos_iff.2 hne
    exact fun b hb => le_of_mem_utf8EncodeChar hlow b (hc.subset hb)
  | @stray b _ h =>
    rw [List.forall_mem_singleton]
    by_contra hlt
    exact h ⟨Char.ofNat b.toNat, by rw [utf8EncodeChar_ascii (UInt8.not_le.1 hlt)]⟩

/-- Behind the first byte of a character no byte is ASCII. -/
theorem tail_utf8EncodeChar (c : Char) : ∀ b ∈ (String.utf8EncodeChar c).tail, 0x80 ≤ b := by
  by_cases h : c.toNat < 0x80
  · rw [utf8EncodeChar_of_lt h]
    simp
  · intro b hb
    exact le_of_mem_utf8EncodeChar (Nat.le_of_not_lt h) b (List.mem_of_mem_tail hb)

/-! ### ASCII texts in what is read -/

section Ascii

variable {tail : List UInt8}

/-- Bytes that begin with ASCII stand at no beginning that is not ASCII. -/
theorem not_prefix_append (hb : b < 0x80) (hbytes : ∀ x ∈ bytes, 0x80 ≤ x) (hne : bytes ≠ []) :
    ¬ b :: tail <+: bytes ++ rest := by
  obtain ⟨x, bytes, rfl⟩ := List.exists_cons_of_ne_nil hne
  rw [List.cons_append, List.cons_prefix_cons]
  rintro ⟨rfl, -⟩
  exact UInt8.not_le.2 hb (hbytes b List.mem_cons_self)

/-- Bytes that begin with ASCII stand nowhere in bytes that are not ASCII. -/
theorem infix_append_iff (hb : b < 0x80) (hbytes : ∀ x ∈ bytes, 0x80 ≤ x) :
    b :: tail <:+: bytes ++ rest ↔ b :: tail <:+: rest := by
  induction bytes with
  | nil => exact Iff.rfl
  | cons x bytes ih =>
    have hno : ¬ b :: tail <+: x :: bytes ++ rest :=
      not_prefix_append hb hbytes (List.cons_ne_nil x bytes)
    rw [List.cons_append] at hno
    rw [List.cons_append, List.infix_cons_iff, ih (List.forall_mem_cons.1 hbytes).2]
    exact or_iff_right hno

end Ascii

/-- The text in which broken stretches are replaced. -/
def replaced (read : List (Option Char)) : List Char :=
  read.map (·.getD '\uFFFD')

theorem replaced_some (c : Char) (read : List (Option Char)) :
    replaced (some c :: read) = c :: replaced read := rfl

theorem replaced_none (read : List (Option Char)) :
    replaced (none :: read) = '\uFFFD' :: replaced read := rfl

variable {m : Char} {mark : List Char} {read : List (Option Char)}

/-- An ASCII text stands at the beginning of what is read just where its bytes do. -/
theorem Deciphered.prefix_iff (h : Deciphered bytes read) (hmark : ∀ c ∈ mark, c.toNat < 0x80) :
    mark <+: replaced read ↔ encode mark <+: bytes := by
  induction mark generalizing bytes read with
  | nil => simp
  | cons m mark ih =>
    rw [List.forall_mem_cons] at hmark
    have hm : UInt8.ofNat m.toNat < 0x80 := by
      rw [UInt8.lt_iff_toNat_lt, toNat_ofNat (by omega)]
      exact hmark.1
    rw [encode_cons, utf8EncodeChar_of_lt hmark.1, List.singleton_append]
    cases h with
    | nil => simp [replaced]
    | char c h =>
      rw [replaced_some]
      by_cases hc : c.toNat < 0x80
      · rw [utf8EncodeChar_of_lt hc, List.singleton_append, List.cons_prefix_cons,
          List.cons_prefix_cons, ih h hmark.2, ← UInt8.toNat_inj, toNat_ofNat (by omega),
          toNat_ofNat (by omega), Char.toNat_inj]
      · -- all bytes of a wide character lie above ASCII, as it does itself
        refine iff_of_false (fun hpre => ?_) (not_prefix_append hm
          (le_of_mem_utf8EncodeChar (Nat.le_of_not_lt hc)) String.utf8EncodeChar_ne_nil)
        obtain ⟨rfl, -⟩ := List.cons_prefix_cons.1 hpre
        exact hc hmark.1
    | broken hb h =>
      rw [replaced_none]
      refine iff_of_false (fun hpre => ?_) (not_prefix_append hm hb.le_of_mem hb.ne_nil)
      obtain ⟨rfl, -⟩ := List.cons_prefix_cons.1 hpre
      exact absurd hmark.1 (by decide)

/-- An ASCII text stands in a character and what is read behind it just where its bytes do, if the
character comes from one byte and more bytes that are not ASCII. -/
theorem infix_cons_iff_of_prefix {stretch : List UInt8} {text : List Char} (hm : m.toNat < 0x80)
    (hne : stretch ≠ []) (htail : ∀ b ∈ stretch.tail, 0x80 ≤ b)
    (hfirst : m :: mark <+: c :: text ↔ encode (m :: mark) <+: stretch ++ bytes)
    (hrest : m :: mark <:+: text ↔ encode (m :: mark) <:+: bytes) :
    m :: mark <:+: c :: text ↔ encode (m :: mark) <:+: stretch ++ bytes := by
  have hencode : encode (m :: mark) = UInt8.ofNat m.toNat :: encode mark := by
    rw [encode_cons, utf8EncodeChar_of_lt hm, List.singleton_append]
  have hbyte : UInt8.ofNat m.toNat < 0x80 := by
    rw [UInt8.lt_iff_toNat_lt, toNat_ofNat (by omega)]
    exact hm
  obtain ⟨b, tail, rfl⟩ := List.exists_cons_of_ne_nil hne
  rw [List.tail_cons] at htail
  rw [List.cons_append] at hfirst ⊢
  rw [List.infix_cons_iff, List.infix_cons_iff, hencode, infix_append_iff hbyte htail, ← hencode]
  exact or_congr hfirst hrest

/-- An ASCII text stands somewhere in what is read just where its bytes do. -/
theorem Deciphered.infix_iff (h : Deciphered bytes read)
    (hmark : ∀ c ∈ m :: mark, c.toNat < 0x80) :
    m :: mark <:+: replaced read ↔ encode (m :: mark) <:+: bytes := by
  have hm := hmark m List.mem_cons_self
  induction h with
  | nil => simp [encode_cons, replaced]
  | char c h ih =>
    exact infix_cons_iff_of_prefix hm String.utf8EncodeChar_ne_nil (tail_utf8EncodeChar c)
      ((Deciphered.char c h).prefix_iff hmark) ih
  | broken hb h ih =>
    exact infix_cons_iff_of_prefix hm hb.ne_nil
      (fun b hmem => hb.le_of_mem b (List.mem_of_mem_tail hmem))
      ((Deciphered.broken hb h).prefix_iff hmark) ih

/-- **Reading bytes neither hides nor forges an ASCII text.** -/
theorem infix_decodeLossy_iff (hmark : ∀ c ∈ mark, c.toNat < 0x80) (hne : mark ≠ []) :
    mark <:+: decodeLossy bytes ↔ encode mark <:+: bytes := by
  obtain ⟨m, mark, rfl⟩ := List.exists_cons_of_ne_nil hne
  exact (deciphered bytes).infix_iff hmark

end WitnessReplay.Text
