import WitnessReplay.Proofs.Program.Beginning
import WitnessReplay.Proofs.Program.RoundTrip
import WitnessReplay.Replay.Target

/-!
# Offsets as hints

A witness may say where a step happens by the offset of a byte. The offset is turned into a line,
and the line into a statement: three counts have to agree, the one of the lexer, the one of the
positions and the order of the statements. For an offset at which a statement of a block begins they
do (`Program.lines_agree`): the line is the one the statement has, and a statement of a block on
that line is found, if not this one then one before it.
-/

namespace WitnessReplay

open Text

/-- Offsets as hints resolve to the line of the first. -/
theorem SourceText.resolve_offsets (t : SourceText) {start stop : Nat} (h : start ≤ t.size) :
    ∃ coords, t.resolve ⟨none, none, some start, some stop⟩ = some coords ∧
      coords.startline = (t.lineOfOffset start).1 := by
  refine ⟨_, rfl, ?_⟩
  show (t.lineOfOffset (min start t.size)).1 = _
  rw [Nat.min_eq_left h]

theorem Stmt.startsFrom_iff {line : Nat} {s : Stmt} :
    s.startsFrom line ↔ ∃ l, s.line = some l ∧ line ≤ l := by
  rw [Stmt.startsFrom, Option.any_eq_true]
  simp only [decide_eq_true_eq]

namespace Program

variable {source : String} {p : Program} {ts : List Token}

/-- The search from the line of a statement of a block finds one on that line, and none behind the
statement. -/
theorem statementFrom?_of_mem (hp : Program.parse source = .ok p) {place : Place} {s : Stmt}
    {l : Nat} (h : (place, true, s) ∈ p.occurrences) (hl : s.line = some l) :
    ∃ found s', p.statementFrom? l = some found ∧ (found, true, s') ∈ p.occurrences ∧
      s'.line = some l ∧ p.number found ≤ p.number place := by
  have hstarts : s.startsFrom l := Stmt.startsFrom_iff.2 ⟨l, hl, Nat.le_refl l⟩
  have hsome : (p.occurrences.find? fun o => o.2.1 && o.2.2.startsFrom l).isSome :=
    List.find?_isSome.2 ⟨_, h, hstarts⟩
  obtain ⟨⟨found, inBlock, s'⟩, hfind⟩ := Option.isSome_iff_exists.1 hsome
  obtain ⟨htest, before, after, hoccurrences, hbefore⟩ := List.find?_eq_some_iff_append.1 hfind
  obtain ⟨rfl, hstarts'⟩ := Bool.and_eq_true_iff.1 htest
  obtain ⟨l', hl', hle⟩ := Stmt.startsFrom_iff.1 hstarts'
  have hnumber := number_eq hoccurrences
  refine ⟨found, s', by rw [statementFrom?, find?, hfind]; rfl,
    hoccurrences ▸ List.mem_append_right _ List.mem_cons_self, ?_⟩
  rw [hoccurrences] at h
  rcases List.mem_append.1 h with h | h
  · -- nothing before the first hit is one
    have := hbefore _ h
    rw [hstarts] at this
    cases this
  rcases List.mem_cons.1 h with heq | h
  · cases heq
    exact ⟨hl, Nat.le_refl _⟩
  -- lines do not fall from the one found to the one given, and both are `l` or later
  obtain ⟨between, rest, rfl⟩ := List.append_of_mem h
  have hpairwise := pairwise_line_of_parse hp
  rw [statements, hoccurrences, List.pairwise_map] at hpairwise
  have hle' := List.rel_of_pairwise_cons (List.pairwise_append.1 hpairwise).2.1 h l' hl' l hl
  have hplace : p.occurrences
      = (before ++ (found, true, s') :: between) ++ (place, true, s) :: rest := by
    rw [hoccurrences, List.append_assoc, List.cons_append]
  refine ⟨?_, ?_⟩
  · rw [hl', Nat.le_antisymm hle' hle]
  · rw [hnumber, number_eq hplace, List.countP_append]
    exact Nat.le_add_right _ _

/-- **The two counters of lines agree**, on every token and so on every statement. A statement has
the line of the token that it begins at, and the search from the offset of that token finds a
statement of a block on the same line, if this one stands in a block. -/
theorem lines_agree (hts : tokenize source = .ok ts) :
    (∀ t ∈ ts, ((SourceText.mk (encode source.toList)).lineOfOffset t.start).1 = t.line) ∧
    ∀ p, Program.parse source = .ok p →
      (∃ places : List (List Token),
        List.Forall₂ (fun us s => s.BeginsAt us ∧ s.line = us.head?.map Token.line) places
          (Stmt.listing (p.functions.map Function.body)) ∧
        (∀ us ∈ places, us <:+ ts) ∧ places.Pairwise fun us us' => us' <:+ us) ∧
      ∀ place s t us stop, (place, true, s) ∈ p.occurrences → s.BeginsAt (t :: us) →
        t :: us <:+ ts →
        ∃ coords found s', (SourceText.mk (encode source.toList)).resolve
            ⟨none, none, some t.start, some stop⟩ = some coords ∧
          s.line = some coords.startline ∧ p.statementFrom? coords.startline = some found ∧
          (found, true, s') ∈ p.occurrences ∧ s'.line = s.line ∧
          p.number found ≤ p.number place := by
  refine ⟨fun t ht => (lineOfOffset_start hts ht).1, fun p hp => ⟨?_, ?_⟩⟩
  · obtain ⟨places, hplaces, hsuffix, hpairwise⟩ := (inOrder_of_parse hp hts).exists_places
    refine ⟨places, hplaces.imp fun us s hs => ⟨hs, ?_⟩, hsuffix, hpairwise⟩
    obtain ⟨t, rest, rfl⟩ := List.exists_cons_of_ne_nil hs.ne_nil
    exact hs.line_eq
  · intro place s t us stop hmem hbegins hsuffix
    obtain ⟨hline, hsize⟩ := lineOfOffset_start hts (hsuffix.subset List.mem_cons_self)
    -- the offset resolves to the line of the first token, which is the line of the statement
    obtain ⟨coords, hcoords, hstart⟩ := SourceText.resolve_offsets _ hsize
    rw [hline] at hstart
    obtain ⟨found, s', hfound, hmem', hl', hnumber⟩ := statementFrom?_of_mem hp hmem hbegins.line_eq
    have hline := hbegins.line_eq
    rw [← hstart] at hline hfound hl'
    exact ⟨coords, found, s', hcoords, hline, hfound, hmem', hl'.trans hline.symm, hnumber⟩

end Program

/-- A source with a directive that goes on, a comment over two lines, a line end inside a statement
and one inside a literal, a switch inside one line, and a label that closes its block. -/
def splicedSource : String :=
  "#define N \\\n 1\nint x;\nint main() \x7b\n  /* first\n */ x = 1; if (x)\n x \\\n = 2;\n" ++
    "  puts(\"a\\\nb\"); x = 3; end:\n\x7d\n"

theorem lines_agree_splicedSource : ∃ ts p, tokenize splicedSource = .ok ts ∧
    Program.parse splicedSource = .ok p ∧
    p.statements.map Stmt.line = [some 6, some 6, some 7, some 9, some 10, some 10, some 10] ∧
    ∀ place s, (place, true, s) ∈ p.occurrences → ∃ t ∈ ts, s.line = some t.line ∧
      ∃ coords found, (SourceText.mk (encode splicedSource.toList)).resolve
          ⟨none, none, some t.start, some t.start⟩ = some coords ∧
        p.statementFrom? coords.startline = some found ∧ p.number found ≤ p.number place := by
  have hall : ∃ ts, tokenize splicedSource = .ok ts ∧ ∃ p, Program.parse splicedSource = .ok p ∧
      p.statements.map Stmt.line
        = [some 6, some 6, some 7, some 9, some 10, some 10, some 10] := by decide +kernel
  obtain ⟨ts, hts, p, hp, hlines⟩ := hall
  obtain ⟨-, hagree⟩ := Program.lines_agree hts
  obtain ⟨⟨places, hplaces, hsuffix, -⟩, hsearch⟩ := hagree p hp
  refine ⟨ts, p, hts, hp, hlines, fun place s hs => ?_⟩
  have hmem : s ∈ Stmt.listing (p.functions.map Function.body) :=
    p.sublist_statements.subset (List.mem_map.2 ⟨_, hs, rfl⟩)
  obtain ⟨i, hi, rfl⟩ := List.getElem_of_mem hmem
  obtain ⟨hbegins, -⟩ := hplaces.get (hplaces.length_eq ▸ hi) hi
  have hsuffix := hsuffix _ (List.get_mem places ⟨i, hplaces.length_eq ▸ hi⟩)
  obtain ⟨t, rest, htokens⟩ := List.exists_cons_of_ne_nil hbegins.ne_nil
  rw [htokens] at hbegins hsuffix
  obtain ⟨coords, found, s', hcoords, hline, hfound, -, -, hnumber⟩ :=
    hsearch place _ t rest t.start hs hbegins hsuffix
  exact ⟨t, hsuffix.subset List.mem_cons_self, hbegins.line_eq, coords, found, hcoords, hfound,
    hnumber⟩

end WitnessReplay
