import WitnessReplay.Proofs.Trial.Conduct

/-!
# Early stops and the full run

The same trials are run in each mode. A mode that stops early goes through the first of the trials
that the normal mode goes through, and if it misses any of them, it has seen the outcome it waits
for (`Tally.Cut`). What the verdicts of the three modes then have to do with each other follows from
the counts (`verdicts_agree`).
-/

namespace WitnessReplay

/-! ### Verdicts by their counts -/

namespace Tally

/-- How often an outcome came. -/
def count (t : Tally) : Outcome → Nat
  | .errorReached => t.reached
  | .notReached => t.notReached
  | .timedOut => t.timedOut

variable {t : Tally}

/-- What the counts say where the error was always reached. -/
theorem verdict_eq_always : t.verdict = .always ↔ 0 < t.reached ∧ t.notReached = 0 := by
  unfold verdict
  cases t.reached <;> cases t.notReached <;> simp

theorem verdict_eq_never : t.verdict = .never ↔ t.reached = 0 ∧ 0 < t.notReached := by
  unfold verdict
  cases t.reached <;> cases t.notReached <;> simp

/-- Where it was sometimes reached. -/
theorem verdict_eq_sometimes : t.verdict = .sometimes ↔ 0 < t.reached ∧ 0 < t.notReached := by
  unfold verdict
  cases t.reached <;> cases t.notReached <;> simp

theorem verdict_eq_timeout : t.verdict = .timeout ↔ t.reached = 0 ∧ t.notReached = 0 := by
  unfold verdict
  cases t.reached <;> cases t.notReached <;> simp

/-- Counts of a run that stops early at an outcome, beside those of the run in full. -/
structure Cut (stop : Outcome) (t full : Tally) : Prop where
  reached : t.reached ≤ full.reached
  notReached : t.notReached ≤ full.notReached
  whole : t.count stop = 0 → t = full

namespace Cut

variable {stop : Outcome} {full : Tally}

/-- A run that stops at a miss says `always` just if the full one does. -/
theorem always_iff (h : t.Cut .notReached full) :
    t.verdict = .always ↔ full.verdict = .always := by
  have hle := h.notReached
  rw [verdict_eq_always, verdict_eq_always]
  constructor
  · rintro ⟨hreached, hnone⟩
    rw [← h.whole hnone]
    exact ⟨hreached, hnone⟩
  · rintro ⟨hreached, hnone⟩
    have hzero : t.notReached = 0 := by omega
    rw [h.whole hzero]
    exact ⟨hreached, hnone⟩

/-- A run that stops at a hit says `never` just if the full one does. -/
theorem never_iff (h : t.Cut .errorReached full) : t.verdict = .never ↔ full.verdict = .never := by
  have hle := h.reached
  rw [verdict_eq_never, verdict_eq_never]
  constructor
  · rintro ⟨hnone, hmissed⟩
    rw [← h.whole hnone]
    exact ⟨hnone, hmissed⟩
  · rintro ⟨hnone, hmissed⟩
    have hzero : t.reached = 0 := by omega
    rw [h.whole hzero]
    exact ⟨hnone, hmissed⟩

theorem timeout_iff (h : t.Cut stop full) (hstop : stop ≠ .timedOut) :
    t.verdict = .timeout ↔ full.verdict = .timeout := by
  have hreached := h.reached
  have hnotReached := h.notReached
  rw [verdict_eq_timeout, verdict_eq_timeout]
  constructor
  · rintro ⟨hr, hn⟩
    have hzero : t.count stop = 0 := by
      cases stop with
      | errorReached => exact hr
      | notReached => exact hn
      | timedOut => exact absurd rfl hstop
    rw [← h.whole hzero]
    exact ⟨hr, hn⟩
  · rintro ⟨hr, hn⟩
    omega

/-- What a cut run has seen both ways the full one has too. -/
theorem sometimes (h : t.Cut stop full) (ht : t.verdict = .sometimes) :
    full.verdict = .sometimes := by
  obtain ⟨hr, hn⟩ := verdict_eq_sometimes.1 ht
  exact verdict_eq_sometimes.2
    ⟨Nat.lt_of_lt_of_le hr h.reached, Nat.lt_of_lt_of_le hn h.notReached⟩

/-- Behind a run that has seen misses alone there may be hits. -/
theorem never_or_sometimes (h : t.Cut stop full) (ht : t.verdict = .never) :
    full.verdict = .never ∨ full.verdict = .sometimes := by
  have hn := Nat.lt_of_lt_of_le (verdict_eq_never.1 ht).2 h.notReached
  rw [verdict_eq_never, verdict_eq_sometimes]
  omega

theorem always_or_sometimes (h : t.Cut stop full) (ht : t.verdict = .always) :
    full.verdict = .always ∨ full.verdict = .sometimes := by
  have hr := Nat.lt_of_lt_of_le (verdict_eq_always.1 ht).1 h.reached
  rw [verdict_eq_always, verdict_eq_sometimes]
  omega

end Cut

/-- A tally counts the trials of each outcome. -/
theorem count_ofTrials (o : Outcome) (records : List TrialRecord) :
    (ofTrials records).count o = countOf o records := by
  rw [ofTrials_eq]
  cases o <;> rfl

/-- More trials have no smaller counts. -/
theorem countOf_le (o : Outcome) {records full : List TrialRecord} (h : records <+: full) :
    countOf o records ≤ countOf o full :=
  h.sublist.countP_le

/-- The first ones of some trials, with the outcome among them that stops or none left out. -/
theorem cut_ofTrials {stop : Outcome} {records full : List TrialRecord} (h : records <+: full)
    (hstop : records.length = full.length ∨ ∃ r ∈ records, r.outcome = stop) :
    (ofTrials records).Cut stop (ofTrials full) := by
  refine ⟨?_, ?_, fun hzero => ?_⟩
  · rw [ofTrials_eq, ofTrials_eq]
    exact countOf_le .errorReached h
  · rw [ofTrials_eq, ofTrials_eq]
    exact countOf_le .notReached h
  · obtain hlength | ⟨r, hr, hout⟩ := hstop
    · rw [h.eq_of_length hlength]
    · rw [count_ofTrials] at hzero
      have hpos : 0 < countOf stop records :=
        List.countP_pos_iff.2 ⟨r, hr, decide_eq_true hout⟩
      omega

end Tally

/-! ### Runs in several modes -/

section Runs

variable {σ : Type} {trial : σ → Except TrialError TrialRecord × σ} {s : σ} {budget : Nat}
  {mode mode' : Mode} {records full : List TrialRecord}

/-- Of two runs that go through the same trials, the shorter one is where the longer one begins. -/
theorem Conducts.prefix_of_length_le (h : Conducts trial mode s budget records)
    (h' : Conducts trial mode' s budget full) (hlength : records.length ≤ full.length) :
    records <+: full := by
  rw [List.prefix_iff_eq_take]
  refine List.ext_getElem (by rw [List.length_take, Nat.min_eq_left hlength]) fun k hk hk' => ?_
  have hshown := h.shown k hk
  rw [h'.shown k (Nat.lt_of_lt_of_le hk hlength)] at hshown
  rw [List.getElem_take]
  exact (Except.ok.inj hshown).symm

/-- A run of trials none of which fails comes to the counts of those it goes through. -/
theorem exists_records (h : ∀ k < budget, ∃ record, trialResult trial k s = .ok record)
    (mode : Mode) :
    ∃ records, Conducts trial mode s budget records ∧
      (runTrials trial mode budget 0 .empty s).result = .ok (Tally.ofTrials records) ∧
      (records.length = budget ∨ ∃ r ∈ records, mode.shouldStop r.outcome = true) := by
  obtain ⟨records, hc, hend⟩ := exists_conducts trial mode budget 0 .empty s
  refine ⟨records, hc, ?_⟩
  generalize runTrials trial mode budget 0 .empty s = run at hend ⊢
  cases hend with
  | counted hspent =>
    exact ⟨rfl, hspent.imp_right fun ⟨r, hr, hstop⟩ => ⟨r, List.mem_of_getLast? hr, hstop⟩⟩
  | failed hwithin _ he =>
    obtain ⟨record, hok⟩ := h records.length hwithin
    rw [he] at hok
    cases hok

end Runs

/-- Early stops do not contradict the full run. Of the same trials, none of which fails, the strict
mode finds that the error is always reached exactly when the normal mode does, and the permissive
mode that it is never reached; no trial decides anything in all modes or in none; if an early mode
finds both, the normal mode does; and the outcome at which an early mode stops is one that the
normal mode finds as well. -/
theorem verdicts_agree {σ : Type} (trial : σ → Except TrialError TrialRecord × σ) (n : UInt32)
    (s : σ) (h : ∀ k < n.toNat, ∃ record, trialResult trial k s = .ok record) :
    ∃ strict normal permissive,
      (runTrials trial .strict n.toNat 0 .empty s).result = .ok strict ∧
      (runTrials trial .normal n.toNat 0 .empty s).result = .ok normal ∧
      (runTrials trial .permissive n.toNat 0 .empty s).result = .ok permissive ∧
      (strict.verdict = .always ↔ normal.verdict = .always) ∧
      (permissive.verdict = .never ↔ normal.verdict = .never) ∧
      (strict.verdict = .timeout ∨ normal.verdict = .timeout ∨ permissive.verdict = .timeout →
        strict.verdict = .timeout ∧ normal.verdict = .timeout ∧ permissive.verdict = .timeout) ∧
      (strict.verdict = .sometimes ∨ permissive.verdict = .sometimes →
        normal.verdict = .sometimes) ∧
      (strict.verdict = .never → normal.verdict = .never ∨ normal.verdict = .sometimes) ∧
      (permissive.verdict = .always →
        normal.verdict = .always ∨ normal.verdict = .sometimes) := by
  obtain ⟨full, hfull, hnormal, hspent⟩ := exists_records h .normal
  have hlength : full.length = n.toNat :=
    hspent.resolve_right fun ⟨r, _, hstop⟩ => absurd hstop (by simp [Mode.shouldStop])
  -- an early mode goes through a front of the full run, and stops there at its own outcome
  have hcut (mode : Mode) (stop : Outcome)
      (hmode : ∀ o, mode.shouldStop o = true → o = stop) :
      ∃ t, (runTrials trial mode n.toNat 0 .empty s).result = .ok t ∧
        t.Cut stop (.ofTrials full) := by
    obtain ⟨records, hc, hresult, hend⟩ := exists_records h mode
    have hprefix : records <+: full := hc.prefix_of_length_le hfull (hlength ▸ hc.within)
    refine ⟨_, hresult, Tally.cut_ofTrials hprefix (hend.imp ?_ ?_)⟩
    · exact fun hrecords => hrecords.trans hlength.symm
    · exact fun ⟨r, hr, hstop⟩ => ⟨r, hr, hmode _ hstop⟩
  obtain ⟨strict, hstrict, hs⟩ := hcut .strict .notReached
    (by intro o; cases o <;> simp [Mode.shouldStop])
  obtain ⟨permissive, hpermissive, hp⟩ := hcut .permissive .errorReached
    (by intro o; cases o <;> simp [Mode.shouldStop])
  have htimeout := hs.timeout_iff (by decide)
  have htimeout' := hp.timeout_iff (by decide)
  refine ⟨strict, .ofTrials full, permissive, hstrict, hnormal, hpermissive, hs.always_iff,
    hp.never_iff, fun hany => ?_, ?_, hs.never_or_sometimes, hp.always_or_sometimes⟩
  · rw [htimeout, htimeout', or_self, or_self] at hany
    exact ⟨htimeout.2 hany, hany, htimeout'.2 hany⟩
  · rintro (h | h)
    · exact hs.sometimes h
    · exact hp.sometimes h

/-- Trials of which the first reaches the error, the second does not, and all others are cut off. -/
def mixedTrials : Nat → Except TrialError TrialRecord × Nat
  | 0 => (.ok ⟨.errorReached, some 74, "", ""⟩, 1)
  | 1 => (.ok ⟨.notReached, some 0, "", ""⟩, 2)
  | k + 2 => (.ok ⟨.timedOut, none, "", ""⟩, k + 3)

/-- Of three such trials the permissive mode runs one, the strict mode two, the normal mode all. -/
theorem verdicts_agree_mixedTrials :
    (∀ k < (3 : UInt32).toNat, ∃ record, trialResult mixedTrials k 0 = .ok record) ∧
    ∃ strict normal permissive,
      (runTrials mixedTrials .strict 3 0 .empty 0).result = .ok strict ∧
      (runTrials mixedTrials .normal 3 0 .empty 0).result = .ok normal ∧
      (runTrials mixedTrials .permissive 3 0 .empty 0).result = .ok permissive ∧
      strict = ⟨1, 1, 0⟩ ∧ permissive = ⟨1, 0, 0⟩ ∧ normal.verdict = .sometimes := by
  have h : ∀ k < (3 : UInt32).toNat, ∃ record, trialResult mixedTrials k 0 = .ok record
    | 0, _ => ⟨_, rfl⟩
    | 1, _ => ⟨_, rfl⟩
    | 2, _ => ⟨_, rfl⟩
    | k + 3, hk => absurd hk (Nat.not_lt.2 (Nat.le_add_left 3 k))
  obtain ⟨strict, normal, permissive, hs, hn, hp, _, _, _, hboth, _⟩ :=
    verdicts_agree mixedTrials 3 0 h
  have hstrict : strict = ⟨1, 1, 0⟩ := (Except.ok.inj hs).symm
  have hpermissive : permissive = ⟨1, 0, 0⟩ := (Except.ok.inj hp).symm
  refine ⟨h, strict, normal, permissive, hs, hn, hp, hstrict, hpermissive, hboth (.inl ?_)⟩
  rw [hstrict]
  rfl

end WitnessReplay
