import WitnessReplay.Text.Utf8

/-!
# Reading back what was written as UTF-8

The bytes of a text are read back as that text (`decodeFrom_encode`): the reader takes the lead byte
of a character, holds the bits it saw, and completes the character with the last continuation byte.
So the bytes of every text pass the strict reader (`decode?_encode`).

The only byte of a character that is a line end is the one of the line end itself
(`newline_mem_utf8EncodeChar`), and that is why lines can be counted in bytes.
-/

namespace WitnessReplay.Text

@[simp] theorem encode_nil : encode [] = [] := rfl

@[simp] theorem encode_cons (c : Char) (cs : List Char) :
    encode (c :: cs) = String.utf8EncodeChar c ++ encode cs := rfl

@[simp] theorem encode_append (as bs : List Char) : encode (as ++ bs) = encode as ++ encode bs :=
  List.flatMap_append

/-! ### Single bytes -/

theorem toNat_ofNat {n : Nat} (h : n < 256) : (UInt8.ofNat n).toNat = n := by
  simpa using Nat.mod_eq_of_lt h

/-- A byte that is owed is taken in. -/
theorem readByte_goOn {p : Partial} {n : Nat} (hn : n < 256)
    (hrange : p.low.toNat ≤ n ∧ n ≤ p.high.toNat) (howed : 1 < p.owed) :
    readByte (some p) (UInt8.ofNat n)
      = ([], some ⟨p.bits * 64 + n % 64, p.owed - 1, 0x80, 0xBF⟩) := by
  rw [readByte, if_pos (by simpa [UInt8.le_iff_toNat_le, toNat_ofNat hn] using hrange),
    if_neg (by omega), toNat_ofNat hn]

/-- The last one completes the character. -/
theorem readByte_last {p : Partial} {n : Nat} (hn : n < 256)
    (hrange : p.low.toNat ≤ n ∧ n ≤ p.high.toNat) (howed : p.owed ≤ 1) :
    readByte (some p) (UInt8.ofNat n) = ([some (Char.ofNat (p.bits * 64 + n % 64))], none) := by
  rw [readByte, if_pos (by simpa [UInt8.le_iff_toNat_le, toNat_ofNat hn] using hrange),
    if_pos howed, toNat_ofNat hn]

/-- A leading byte says how many are owed. -/
theorem readByte_lead {n : Nat} {p : Partial} (hn : n < 256) (h : 128 ≤ n)
    (hp : lead? (UInt8.ofNat n) = some p) : readByte none (UInt8.ofNat n) = ([], some p) := by
  rw [readByte, readFirst, if_neg, hp]
  simp only [UInt8.lt_iff_toNat_lt, toNat_ofNat hn]
  exact Nat.not_lt.2 h

/-! ### Lead bytes -/

theorem lead?_two {n : Nat} (h : 0xC2 ≤ n ∧ n ≤ 0xDF) :
    lead? (UInt8.ofNat n) = some ⟨n % 32, 1, 0x80, 0xBF⟩ := by
  have hn : n < 256 := by omega
  rw [lead?, if_pos (by simpa [UInt8.le_iff_toNat_le, toNat_ofNat hn] using h), toNat_ofNat hn]

/-- The lead byte of three allows the continuation byte that follows it in a character. -/
theorem lead?_three {v : Nat} (hv : 0x800 ≤ v ∧ v < 0x10000) (hs : v < 0xD800 ∨ 0xDFFF < v) :
    ∃ low high : UInt8, lead? (UInt8.ofNat (v / 4096 % 16 + 224))
        = some ⟨v / 4096 % 16, 2, low, high⟩ ∧
      low.toNat ≤ v / 64 % 64 + 128 ∧ v / 64 % 64 + 128 ≤ high.toNat := by
  have hn : v / 4096 % 16 + 224 < 256 := by omega
  have hmod : (v / 4096 % 16 + 224) % 16 = v / 4096 % 16 := by omega
  rw [lead?]
  simp only [UInt8.le_iff_toNat_le, ← UInt8.toNat_inj, toNat_ofNat hn, UInt8.reduceToNat, hmod]
  rw [if_neg (by omega)]
  split
  · exact ⟨_, _, rfl, by simp; omega, by simp; omega⟩
  split
  · exact ⟨_, _, rfl, by simp, by simp; omega⟩
  rw [if_pos (by omega)]
  exact ⟨_, _, rfl, by simp, by simp; omega⟩

/-- The lead byte of four allows the continuation byte that follows it in a character. -/
theorem lead?_four {v : Nat} (hv : 0x10000 ≤ v ∧ v < 0x110000) :
    ∃ low high : UInt8, lead? (UInt8.ofNat (v / 262144 % 8 + 240))
        = some ⟨v / 262144 % 8, 3, low, high⟩ ∧
      low.toNat ≤ v / 4096 % 64 + 128 ∧ v / 4096 % 64 + 128 ≤ high.toNat := by
  have hn : v / 262144 % 8 + 240 < 256 := by omega
  have hmod : (v / 262144 % 8 + 240) % 8 = v / 262144 % 8 := by omega
  rw [lead?]
  simp only [UInt8.le_iff_toNat_le, ← UInt8.toNat_inj, toNat_ofNat hn, UInt8.reduceToNat, hmod]
  rw [if_neg (by omega), if_neg (by omega), if_neg (by omega), if_neg (by omega)]
  split
  · exact ⟨_, _, rfl, by simp; omega, by simp; omega⟩
  split
  · exact ⟨_, _, rfl, by simp, by simp; omega⟩
  rw [if_pos (by omega)]
  exact ⟨_, _, rfl, by simp, by simp; omega⟩

/-! ### Characters -/

/-- What is read one byte at a time is read in one go. -/
theorem decodeFrom_step {state next : Option Partial} {b : UInt8} {done : List (Option Char)}
    (h : readByte state b = (done, next)) (rest : List UInt8) :
    decodeFrom state (b :: rest) = done ++ decodeFrom next rest := by
  rw [decodeFrom.eq_def]
  cases state <;> simp [h]

/-- The bytes of a character are read as that character. -/
theorem decodeFrom_utf8EncodeChar (c : Char) (rest : List UInt8) :
    decodeFrom none (String.utf8EncodeChar c ++ rest) = some c :: decodeFrom none rest := by
  have hc : Char.ofNat c.val.toNat = c := Char.ofNat_toNat c
  have hvalid : c.val.toNat < 0xD800 ∨ 0xDFFF < c.val.toNat ∧ c.val.toNat < 0x110000 := c.valid
  rw [String.utf8EncodeChar]
  -- one case for each length: the bits of the bytes put together are the number of the character
  generalize c.val.toNat = v at hc hvalid
  split
  next h =>
    have hfirst : readByte none (UInt8.ofNat v) = ([some c], none) := by
      rw [readByte, readFirst, if_pos, toNat_ofNat (by omega), hc]
      simp only [UInt8.lt_iff_toNat_lt, toNat_ofNat (show v < 256 by omega)]
      exact Nat.lt_succ_of_le h
    exact decodeFrom_step hfirst rest
  split
  next h1 h =>
    have hfirst := readByte_lead (by omega) (by omega)
      (lead?_two (n := v / 64 % 32 + 192) (by omega))
    have hlast := readByte_last (p := ⟨(v / 64 % 32 + 192) % 32, 1, 0x80, 0xBF⟩)
      (n := v % 64 + 128) (by omega) (by simp; omega) (by simp)
    have hbits : (v / 64 % 32 + 192) % 32 * 64 + (v % 64 + 128) % 64 = v := by omega
    simp only [hbits, hc] at hlast
    simp only [List.cons_append, List.nil_append, decodeFrom_step hfirst, decodeFrom_step hlast]
  split
  next h2 h1 h =>
    obtain ⟨low, high, hlead, hlow, hhigh⟩ := lead?_three (v := v) (by omega) (by omega)
    have hfirst := readByte_lead (by omega) (by omega) hlead
    have hsecond := readByte_goOn (p := ⟨v / 4096 % 16, 2, low, high⟩)
      (n := v / 64 % 64 + 128) (by omega) ⟨hlow, hhigh⟩ (by simp)
    have hlast := readByte_last
      (p := ⟨v / 4096 % 16 * 64 + (v / 64 % 64 + 128) % 64, 1, 0x80, 0xBF⟩)
      (n := v % 64 + 128) (by omega) (by simp; omega) (by simp)
    have hbits : (v / 4096 % 16 * 64 + (v / 64 % 64 + 128) % 64) * 64 + (v % 64 + 128) % 64 = v := by
      omega
    simp only [hbits, hc] at hlast
    simp only [List.cons_append, List.nil_append, decodeFrom_step hfirst, decodeFrom_step hsecond,
      decodeFrom_step hlast]
  next h2 h1 h =>
    obtain ⟨low, high, hlead, hlow, hhigh⟩ := lead?_four (v := v) (by omega)
    have hfirst := readByte_lead (by omega) (by omega) hlead
    have hsecond := readByte_goOn (p := ⟨v / 262144 % 8, 3, low, high⟩)
      (n := v / 4096 % 64 + 128) (by omega) ⟨hlow, hhigh⟩ (by simp)
    have hthird := readByte_goOn
      (p := ⟨v / 262144 % 8 * 64 + (v / 4096 % 64 + 128) % 64, 2, 0x80, 0xBF⟩)
      (n := v / 64 % 64 + 128) (by omega) (by simp; omega) (by simp)
    have hlast := readByte_last (p := ⟨(v / 262144 % 8 * 64 + (v / 4096 % 64 + 128) % 64) * 64
        + (v / 64 % 64 + 128) % 64, 1, 0x80, 0xBF⟩)
      (n := v % 64 + 128) (by omega) (by simp; omega) (by simp)
    have hbits : ((v / 262144 % 8 * 64 + (v / 4096 % 64 + 128) % 64) * 64
        + (v / 64 % 64 + 128) % 64) * 64 + (v % 64 + 128) % 64 = v := by omega
    simp only [hbits, hc] at hlast
    simp only [List.cons_append, List.nil_append, decodeFrom_step hfirst, decodeFrom_step hsecond,
      decodeFrom_step hthird, decodeFrom_step hlast]

/-! ### Texts -/

/-- **The bytes of a text are read back as the text.** -/
theorem decodeFrom_encode (cs : List Char) : decodeFrom none (encode cs) = cs.map some := by
  induction cs with
  | nil => rfl
  | cons c cs ih => rw [encode_cons, decodeFrom_utf8EncodeChar, ih, List.map_cons]

theorem decode?_encode (cs : List Char) : decode? (encode cs) = some cs := by
  rw [decode?, decodeFrom_encode]
  induction cs with
  | nil => rfl
  | cons c cs ih => simp [ih]

/-! ### ASCII bytes -/

/-- An ASCII character is written as the byte of its number. -/
theorem utf8EncodeChar_of_lt {c : Char} (h : c.toNat < 0x80) :
    String.utf8EncodeChar c = [UInt8.ofNat c.toNat] := by
  unfold String.utf8EncodeChar
  exact if_pos (Nat.le_of_lt_succ h)

/-- Every other character is written without the bytes of ASCII. -/
theorem le_of_mem_utf8EncodeChar {c : Char} (h : 0x80 ≤ c.toNat) :
    ∀ b ∈ String.utf8EncodeChar c, 0x80 ≤ b := by
  have hbyte {n : Nat} (hn : 0x80 ≤ n ∧ n < 256) : 0x80 ≤ UInt8.ofNat n := by
    rw [UInt8.le_iff_toNat_le, toNat_ofNat hn.2]
    exact hn.1
  have hlow : 0x80 ≤ c.val.toNat := h
  have hvalid : c.val.toNat < 0xD800 ∨ 0xDFFF < c.val.toNat ∧ c.val.toNat < 0x110000 := c.valid
  rw [String.utf8EncodeChar, if_neg (by omega)]
  split
  · simp only [List.forall_mem_cons]
    exact ⟨hbyte (by omega), hbyte (by omega), by simp⟩
  split
  · simp only [List.forall_mem_cons]
    exact ⟨hbyte (by omega), hbyte (by omega), hbyte (by omega), by simp⟩
  · simp only [List.forall_mem_cons]
    exact ⟨hbyte (by omega), hbyte (by omega), hbyte (by omega), hbyte (by omega), by simp⟩

/-- A byte of a character is a line end only if the character is one. -/
theorem newline_mem_utf8EncodeChar {c : Char} (h : 10 ∈ String.utf8EncodeChar c) : c = '\n' := by
  by_cases hc : c.toNat < 0x80
  · rw [utf8EncodeChar_of_lt hc, List.mem_singleton, ← UInt8.toNat_inj,
      toNat_ofNat (by omega)] at h
    exact Char.toNat_inj.1 h.symm
  · exact absurd (le_of_mem_utf8EncodeChar (Nat.le_of_not_lt hc) 10 h) (by decide)

end WitnessReplay.Text
