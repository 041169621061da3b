import WitnessReplay.Trial.Validation

/-!
# Before the first trial

A validation compiles, and only if that succeeds it goes on to its trials. The compilation is
singled out here as a piece of its own (`Machine.compileSource`), so that a validation is this piece
and the trials behind it (`Machine.validate_eq`), and a trial that is started stands behind a
compiler that has ended with the exit code zero (`Machine.exists_run_of_trialStarted`).
-/

namespace WitnessReplay

variable {σ : Type}

/-- A piece of a validation, and if it comes to something, another piece behind it. -/
def Progress.andThen {α β : Type} (p : Progress σ α) (f : α → σ → Progress σ β) : Progress σ β :=
  match p.result with
  | .error e => ⟨p.events, .error e, p.state⟩
  | .ok a => .after p.events (f a p.state)

namespace Machine

variable (m : Machine σ) (config : ValidationConfig)

/-- Compiles the files of a directory. It comes to the compiled program. -/
def runCompiler (dir : String) (s : σ) : Progress σ String :=
  let binary := dir ++ "/program"
  let args := config.compiler.flags
    ++ [dir ++ "/program.c", dir ++ "/" ++ supportFileName, "-o", binary]
  match m.run config.compiler.cc args none s with
  | (.error e, next) =>
    ⟨[.compilationStarted], .error (.compilerSpawn config.compiler.cc e.cause), next⟩
  | (.ok finish, next) =>
    let output := CompilerOutput.ofRun finish
    ⟨[.compilationStarted, .compiled output],
      if output.success then .ok binary else .error (.compilation output.exitCode), next⟩

/-- Compiles an instrumented program in a scratch directory. -/
def compileSource (source : String) (s : σ) : Progress σ String :=
  match m.makeScratch s with
  | (.error cause, s) => ⟨[], .error (.file cause), s⟩
  | (.ok dir, s) =>
    match m.writeFile (dir ++ "/program.c") (Text.encode source.toList) s with
    | (.error cause, s) => ⟨[], .error (.file cause), s⟩
    | (.ok _, s) =>
      match m.writeFile (dir ++ "/" ++ supportFileName) (Text.encode supportSource.toList) s with
      | (.error cause, s) => ⟨[], .error (.file cause), s⟩
      | (.ok _, s) => m.runCompiler config dir s

/-- Runs the trials of a compiled program. -/
def tryOut (binary : String) (s : σ) : Progress σ ValidationResult :=
  let trials := runTrials (m.trial binary config.timeout) config.mode config.maxTrials.toNat 0
    .empty s
  { trials with result := trials.result.map fun tally => ⟨tally.verdict, tally⟩ }

variable {m config} {source dir binary : String} {s : σ}

theorem compileAndRun_eq :
    m.compileAndRun config dir s = (m.runCompiler config dir s).andThen (m.tryOut config) := by
  simp only [compileAndRun, runCompiler]
  generalize m.run config.compiler.cc _ none s = finished
  obtain ⟨e | finish, next⟩ := finished
  · rfl
  · cases hsuccess : (CompilerOutput.ofRun finish).success with
    | true => simp only [hsuccess, if_true]; rfl
    | false => simp only [hsuccess, Bool.false_eq_true, if_false]; rfl

/-- A validation compiles, and if that succeeds, it goes on to the trials. -/
theorem validate_eq :
    m.validate config source s = (m.compileSource config source s).andThen (m.tryOut config) := by
  unfold validate compileSource
  rcases m.makeScratch s with ⟨cause | dir, s⟩
  · rfl
  dsimp only
  rcases m.writeFile (dir ++ "/program.c") (Text.encode source.toList) s with ⟨cause | _, s⟩
  · rfl
  dsimp only
  rcases m.writeFile (dir ++ "/" ++ supportFileName) (Text.encode supportSource.toList) s
    with ⟨cause | _, s⟩
  · rfl
  · exact compileAndRun_eq

/-- A compilation fails over a file and shows nothing, or it is what the compiler does in some
directory. -/
theorem compileSource_cases (m : Machine σ) (config : ValidationConfig) (source : String) (s : σ) :
    (∃ cause next, m.compileSource config source s = ⟨[], .error (.file cause), next⟩) ∨
      ∃ dir next, m.compileSource config source s = m.runCompiler config dir next := by
  unfold compileSource
  rcases m.makeScratch s with ⟨cause | dir, s⟩
  · exact .inl ⟨cause, s, rfl⟩
  dsimp only
  rcases m.writeFile (dir ++ "/program.c") (Text.encode source.toList) s with ⟨cause | _, s⟩
  · exact .inl ⟨cause, s, rfl⟩
  dsimp only
  rcases m.writeFile (dir ++ "/" ++ supportFileName) (Text.encode supportSource.toList) s
    with ⟨cause | _, s⟩
  · exact .inl ⟨cause, s, rfl⟩
  · exact .inr ⟨dir, s, rfl⟩

/-- A compiler that succeeds has come to its end with the exit code zero. -/
theorem of_runCompiler_eq_ok (h : (m.runCompiler config dir s).result = .ok binary) :
    ∃ args o, m.run config.compiler.cc args none s
        = (.ok (.ended o), (m.runCompiler config dir s).state) ∧
      o.exitCode = some 0 ∧
      (m.runCompiler config dir s).events
        = [.compilationStarted, .compiled (.ofRun (.ended o))] := by
  refine ⟨config.compiler.flags ++ [dir ++ "/program.c", dir ++ "/" ++ supportFileName, "-o",
    dir ++ "/program"], ?_⟩
  simp only [runCompiler] at h ⊢
  generalize m.run config.compiler.cc _ none s = finished at h ⊢
  obtain ⟨e | o | _, next⟩ := finished
  · cases h
  · cases hcode : (CompilerOutput.ofRun (.ended o)).success with
    | true => exact ⟨o, rfl, beq_iff_eq.1 hcode, rfl⟩
    | false => simp [hcode] at h
  · cases h

/-- No trial is started by the compiler. -/
theorem trialStarted_not_mem_runCompiler (i : Nat) :
    .trialStarted i ∉ (m.runCompiler config dir s).events := by
  simp only [runCompiler]
  generalize m.run config.compiler.cc _ none s = finished
  obtain ⟨e | finish, next⟩ := finished <;> simp

/-- Behind a trial that is started stands a compiler that has succeeded. -/
theorem exists_run_of_trialStarted {i : Nat}
    (h : .trialStarted i ∈ (m.validate config source s).events) :
    ∃ args s' o next binary, m.run config.compiler.cc args none s' = (.ok (.ended o), next) ∧
      o.exitCode = some 0 ∧
      (m.validate config source s).events
        = .compilationStarted :: .compiled (.ofRun (.ended o))
          :: (runTrials (m.trial binary config.timeout) config.mode config.maxTrials.toNat 0
            .empty next).events := by
  rw [validate_eq] at h ⊢
  obtain ⟨cause, next, hfile⟩ | ⟨dir, s', hrun⟩ := compileSource_cases m config source s
  · rw [hfile] at h
    cases h
  rw [hrun, Progress.andThen] at h ⊢
  cases hresult : (m.runCompiler config dir s').result with
  | error e =>
    rw [hresult] at h
    exact absurd h (trialStarted_not_mem_runCompiler i)
  | ok binary =>
    obtain ⟨args, o, hcc, hcode, hevents⟩ := of_runCompiler_eq_ok hresult
    refine ⟨args, s', o, _, binary, hcc, hcode, ?_⟩
    simp only [hevents, Progress.after, List.cons_append, List.nil_append]
    rfl

end Machine

end WitnessReplay
