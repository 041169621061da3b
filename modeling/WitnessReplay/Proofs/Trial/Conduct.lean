import WitnessReplay.Proofs.Trial.Compilation

/-!
# How trials are conducted

A validation compiles a program and then runs trials, one behind the other, up to a budget. Which
trials these are, what is seen of them and what is counted is said here of every mode, every budget
and every machine (`trials_conducted`), from what a single trial adds (`runTrials_error`,
`runTrials_stop`, `runTrials_goOn`).
-/

namespace WitnessReplay

/-! ### Trials and their traces -/

section Trial

variable {σ : Type} (trial : σ → Except TrialError TrialRecord × σ)

/-- The state behind some trials. -/
def stateBehind : Nat → σ → σ
  | 0, s => s
  | k + 1, s => stateBehind k (trial s).2

/-- What the trial behind some others comes to. -/
def trialResult (k : Nat) (s : σ) : Except TrialError TrialRecord :=
  (trial (stateBehind trial k s)).1

end Trial

/-- What is seen of trials that end, numbered from an index. -/
def Event.ofTrials (index : Nat) : List TrialRecord → List Event
  | [] => []
  | r :: rest => trialStarted index :: trialFinished index r :: ofTrials (index + 1) rest

namespace Tally

/-- The counts after some trials more. -/
def recordAll (t : Tally) (records : List TrialRecord) : Tally :=
  records.foldl (fun t r => t.record r.outcome) t

/-- The counts of some trials. -/
def ofTrials (records : List TrialRecord) : Tally :=
  empty.recordAll records

/-- Counts that are numbers of 32 bits, and their sum too. -/
structure Fits (t : Tally) : Prop where
  reached : t.reached < UInt32.size
  notReached : t.notReached < UInt32.size
  timedOut : t.timedOut < UInt32.size
  total : t.total < UInt32.size

/-- How many of some trials came to an outcome. -/
def countOf (o : Outcome) (records : List TrialRecord) : Nat :=
  records.countP fun r => r.outcome = o

@[simp] theorem recordAll_cons (t : Tally) (r : TrialRecord) (rest : List TrialRecord) :
    t.recordAll (r :: rest) = (t.record r.outcome).recordAll rest := rfl

theorem total_recordAll (t : Tally) (records : List TrialRecord) :
    (t.recordAll records).total = t.total + records.length := by
  induction records generalizing t with
  | nil => rfl
  | cons r rest ih =>
    rw [recordAll_cons, ih, total_record, List.length_cons]
    omega

/-- Each trial is counted once, under its outcome. -/
theorem recordAll_eq (t : Tally) (records : List TrialRecord) :
    t.recordAll records = ⟨t.reached + countOf .errorReached records,
      t.notReached + countOf .notReached records, t.timedOut + countOf .timedOut records⟩ := by
  induction records generalizing t with
  | nil => rfl
  | cons r rest ih =>
    rw [recordAll_cons, ih]
    cases h : r.outcome <;> simp [record, countOf, h] <;> omega

theorem ofTrials_eq (records : List TrialRecord) :
    ofTrials records = ⟨countOf .errorReached records, countOf .notReached records,
      countOf .timedOut records⟩ := by
  rw [ofTrials, recordAll_eq]
  simp [empty]

theorem total_ofTrials (records : List TrialRecord) :
    (ofTrials records).total = records.length := by
  rw [ofTrials, total_recordAll]
  simp [empty, total]

/-- No count is more than all trials. -/
theorem fits_of_total {t : Tally} (h : t.total < UInt32.size) : t.Fits := by
  have hsum : t.total = t.reached + t.notReached + t.timedOut := rfl
  constructor <;> omega

end Tally

/-! ### One trial more -/

section Step

variable {σ : Type} {trial : σ → Except TrialError TrialRecord × σ} {mode : Mode} {s : σ}
  {budget index : Nat} {tally : Tally} {record : TrialRecord} {e : TrialError}

/-- A trial that fails is the last one that is started. -/
theorem runTrials_error (h : (trial s).1 = .error e) :
    runTrials trial mode (budget + 1) index tally s
      = ⟨[.trialStarted index], .error e, (trial s).2⟩ := by
  rcases hs : trial s with ⟨result, next⟩
  rw [hs] at h
  cases h
  rw [runTrials, hs]

/-- A trial whose outcome asks to stop is the last one. -/
theorem runTrials_stop (h : (trial s).1 = .ok record)
    (hstop : mode.shouldStop record.outcome = true) :
    runTrials trial mode (budget + 1) index tally s
      = ⟨[.trialStarted index, .trialFinished index record], .ok (tally.record record.outcome),
        (trial s).2⟩ := by
  rcases hs : trial s with ⟨result, next⟩
  rw [hs] at h
  cases h
  rw [runTrials, hs]
  simp only [hstop, if_true, Progress.after, List.append_nil]

/-- Behind any other trial the run goes on with a smaller budget. -/
theorem runTrials_goOn (h : (trial s).1 = .ok record)
    (hstop : mode.shouldStop record.outcome = false) :
    runTrials trial mode (budget + 1) index tally s
      = .after [.trialStarted index, .trialFinished index record]
        (runTrials trial mode budget (index + 1) (tally.record record.outcome) (trial s).2) := by
  rcases hs : trial s with ⟨result, next⟩
  rw [hs] at h
  cases h
  rw [runTrials, hs]
  simp only [hstop, Bool.false_eq_true, if_false]

end Step

/-! ### A whole run -/

section Run

variable {σ : Type} (trial : σ → Except TrialError TrialRecord × σ) (mode : Mode) (s : σ)

/-- Trials that a run goes through: the first ones, no more than the budget, and none before the
last asks to stop. -/
structure Conducts (budget : Nat) (records : List TrialRecord) : Prop where
  within : records.length ≤ budget
  shown : ∀ k (hk : k < records.length), trialResult trial k s = .ok records[k]
  goesOn : ∀ r ∈ records.dropLast, mode.shouldStop r.outcome = false

/-- How a run of trials ends: with the counts of its trials, for the budget is spent or the last
outcome asks to stop, or with the failure of the trial behind them. -/
inductive Concludes (budget index : Nat) (tally : Tally) (records : List TrialRecord) :
    Progress σ Tally → Prop
  | counted (hend : records.length = budget ∨
        ∃ r ∈ records.getLast?, mode.shouldStop r.outcome = true) :
      Concludes budget index tally records
        ⟨Event.ofTrials index records, .ok (tally.recordAll records),
          stateBehind trial records.length s⟩
  | failed {e : TrialError} (hwithin : records.length < budget)
      (hnone : ∀ r ∈ records, mode.shouldStop r.outcome = false)
      (he : trialResult trial records.length s = .error e) :
      Concludes budget index tally records
        ⟨Event.ofTrials index records ++ [.trialStarted (index + records.length)], .error e,
          stateBehind trial (records.length + 1) s⟩

variable {trial mode s} {budget index : Nat} {tally : Tally} {record : TrialRecord}
  {records : List TrialRecord}

theorem Conducts.cons (h : (trial s).1 = .ok record)
    (hstop : mode.shouldStop record.outcome = false)
    (hc : Conducts trial mode (trial s).2 budget records) :
    Conducts trial mode s (budget + 1) (record :: records) := by
  refine ⟨Nat.succ_le_succ hc.within, fun k hk => ?_, fun r hr => ?_⟩
  · cases k with
    | zero => exact h
    | succ k => exact hc.shown k (Nat.lt_of_succ_lt_succ hk)
  · cases records with
    | nil => cases hr
    | cons u rest =>
      rw [List.dropLast_cons_cons] at hr
      rcases List.mem_cons.1 hr with rfl | hr
      · exact hstop
      · exact hc.goesOn r hr

theorem Concludes.cons {run : Progress σ Tally}
    (hstop : mode.shouldStop record.outcome = false)
    (hc : Concludes trial mode (trial s).2 budget (index + 1) (tally.record record.outcome)
      records run) :
    Concludes trial mode s (budget + 1) index tally (record :: records)
      (.after [.trialStarted index, .trialFinished index record] run) := by
  cases hc with
  | counted hend =>
    refine .counted (hend.imp (congrArg (· + 1)) fun ⟨r, hr, hlast⟩ => ⟨r, ?_, hlast⟩)
    cases records with
    | nil => cases hr
    | cons u rest => rwa [List.getLast?_cons_cons]
  | failed hwithin hnone he =>
    have hindex : index + 1 + records.length = index + (records.length + 1) := by omega
    rw [hindex]
    exact .failed (Nat.succ_lt_succ hwithin) (List.forall_mem_cons.2 ⟨hstop, hnone⟩) he

/-- Every run of trials goes through some and ends behind them. -/
theorem exists_conducts (trial : σ → Except TrialError TrialRecord × σ) (mode : Mode)
    (budget index : Nat) (tally : Tally) (s : σ) :
    ∃ records, Conducts trial mode s budget records ∧
      Concludes trial mode s budget index tally records
        (runTrials trial mode budget index tally s) := by
  induction budget generalizing index tally s with
  | zero =>
    have hnil : Conducts trial mode s 0 [] := ⟨Nat.le_refl 0, by simp, by simp⟩
    exact ⟨[], hnil, .counted (.inl rfl)⟩
  | succ budget ih =>
    -- by induction on the budget: the first trial fails, stops the run, or comes before the others
    cases h : (trial s).1 with
    | error e =>
      have hnil : Conducts trial mode s (budget + 1) [] := ⟨Nat.zero_le _, by simp, by simp⟩
      refine ⟨[], hnil, ?_⟩
      rw [runTrials_error h]
      exact .failed (Nat.succ_pos _) (by simp) h
    | ok record =>
      cases hstop : mode.shouldStop record.outcome with
      | true =>
        refine ⟨[record], ⟨Nat.succ_le_succ (Nat.zero_le _), fun k hk => ?_, by simp⟩, ?_⟩
        · obtain rfl : k = 0 := by simpa using hk
          exact h
        · rw [runTrials_stop h hstop]
          exact .counted (.inr ⟨record, rfl, hstop⟩)
      | false =>
        obtain ⟨records, hc, hend⟩ := ih (index + 1) (tally.record record.outcome) (trial s).2
        refine ⟨record :: records, hc.cons h hstop, ?_⟩
        rw [runTrials_goOn h hstop]
        exact hend.cons hstop

end Run

/-! ### Validations -/

/-- Trials are conducted as the mode says. A run with a budget of `n` goes through the first trials,
`n` of them at most and none behind one that asks to stop; no count of theirs exceeds 32 bits at any
time. If it comes to counts, each is the number of trials of its outcome, and they are `n` together
unless the last trial asks to stop; if it fails, the trial behind them has failed. What is seen is
each trial's start and end in their order, and the start of the one that fails. A validation starts
no trial unless its compiler has ended with the exit code zero. -/
theorem trials_conducted {σ : Type} (trial : σ → Except TrialError TrialRecord × σ) (mode : Mode)
    (n : UInt32) (s : σ) (m : Machine σ) (config : ValidationConfig) (source : String) (start : σ) :
    (∃ records, Conducts trial mode s n.toNat records ∧
      (∀ k ≤ records.length, (Tally.ofTrials (records.take k)).Fits) ∧
      match (runTrials trial mode n.toNat 0 .empty s).result with
      | .ok tally =>
        tally = ⟨Tally.countOf .errorReached records, Tally.countOf .notReached records,
          Tally.countOf .timedOut records⟩ ∧
        tally.total ≤ n.toNat ∧
        (tally.total = n.toNat ∨ ∃ r ∈ records.getLast?, mode.shouldStop r.outcome = true) ∧
        (runTrials trial mode n.toNat 0 .empty s).events = Event.ofTrials 0 records
      | .error e =>
        trialResult trial records.length s = .error e ∧
        records.length < n.toNat ∧
        (∀ r ∈ records, mode.shouldStop r.outcome = false) ∧
        (runTrials trial mode n.toNat 0 .empty s).events
          = Event.ofTrials 0 records ++ [.trialStarted records.length]) ∧
    ∀ i, .trialStarted i ∈ (m.validate config source start).events →
      ∃ args s' o next binary, m.run config.compiler.cc args none s' = (.ok (.ended o), next) ∧
        o.exitCode = some 0 ∧
        (m.validate config source start).events
          = .compilationStarted :: .compiled (.ofRun (.ended o))
            :: (runTrials (m.trial binary config.timeout) config.mode config.maxTrials.toNat 0
              .empty next).events := by
  refine ⟨?_, fun i => Machine.exists_run_of_trialStarted⟩
  obtain ⟨records, hc, hend⟩ := exists_conducts trial mode n.toNat 0 .empty s
  refine ⟨records, hc, fun k hk => ?_, ?_⟩
  · refine Tally.fits_of_total ?_
    rw [Tally.total_ofTrials, List.length_take, Nat.min_eq_left hk]
    exact Nat.lt_of_le_of_lt (Nat.le_trans hk hc.within) n.toNat_lt
  · generalize runTrials trial mode n.toNat 0 .empty s = run at hend ⊢
    cases hend with
    | counted hspent =>
      have htotal : (Tally.empty.recordAll records).total = records.length :=
        Tally.total_ofTrials records
      refine ⟨Tally.ofTrials_eq records, ?_, ?_, rfl⟩
      · rw [htotal]
        exact hc.within
      · rwa [htotal]
    | failed hwithin hnone he => exact ⟨he, hwithin, hnone, by rw [Nat.zero_add]⟩

end WitnessReplay
