import WitnessReplay.Proofs.Replay.Nesting
import WitnessReplay.Proofs.Replay.Separation

/-!
# What a search finds after barriers

A barrier inserts only statements without a line, and no search finds those. But where a barrier
stands at a statement with a body that has no braces, the body is put into a block, and then it is
found by the search for statements of blocks. That is all that a replay changes for the searches to
come (`Program.entries_replay`): it finds the first of the statements that stood in a block from the
beginning and of the bodies that got a block (`Program.statementFrom?_replay`). So a later search
may find another statement than in the program that was read (`not_statementFrom?_replay`).
-/

namespace WitnessReplay

/-- What a search for places of barriers sees of a statement that was read: its line, whether it
stands in the list of a block, and if it is or was a body without braces, the number of the
statement at which a barrier puts a block around it. -/
structure Entry where
  line : Nat
  inBlock : Bool
  host : Option Nat
deriving DecidableEq, Repr

/-- What the search reads of a statement that has a line. -/
def Occurrence.seen? (o : Occurrence) : Option (Bool × Nat) :=
  o.stmt.line.map (o.inBlock, ·)

namespace Entry

/-- What the search reads. -/
def seen (e : Entry) : Bool × Nat :=
  (e.inBlock, e.line)

/-- Whether a statement can be found from a line on. -/
def startsFrom (line : Nat) (e : Entry) : Bool :=
  e.inBlock && line ≤ e.line

/-- What is seen of a statement behind some barriers at the statements of some numbers. -/
def behind (hosts : List Nat) (e : Entry) : Entry :=
  { e with inBlock := e.inBlock || e.host.any (· ∈ hosts) }

theorem behind_nil : behind [] = id := by
  funext ⟨line, inBlock, host⟩
  cases host <;> simp [behind]

/-- An entry behind two lists of hosts is behind both together. -/
theorem behind_behind (hosts hosts' : List Nat) (e : Entry) :
    (e.behind hosts).behind hosts' = e.behind (hosts ++ hosts') := by
  cases h : e.host <;> simp [behind, h, Bool.or_assoc]

/-- A barrier elsewhere changes nothing. -/
theorem map_behind_eq {n : Nat} (es : List Entry) (h : ∀ e ∈ es, e.host ≠ some n) :
    es.map (behind [n]) = es := by
  have hid : ∀ e ∈ es, behind [n] e = e := by
    intro e he
    obtain ⟨line, inBlock, host⟩ := e
    have hne := h _ he
    cases host with
    | none => simp [behind]
    | some m => simpa [behind] using fun heq => absurd (congrArg some heq) hne
  rw [List.map_congr_left hid, List.map_id']

/-- Entries, numbered from `k` on, before and behind a barrier at the first that starts on a line or
later; there is no such entry where there is nothing behind. -/
inductive Selects (line k : Nat) (es : List Entry) : Option (List Entry) → Prop
  | none (h : ∀ e ∈ es, e.startsFrom line = false) : Selects line k es none
  | some {i : Nat} (h : es.findIdx? (startsFrom line) = some i) :
      Selects line k es (some (es.map (behind [k + i])))

namespace Selects

variable {line k : Nat} {es more : List Entry} {result result' : Option (List Entry)}

/-- A selection keeps the number of entries. -/
theorem length_eq {es' : List Entry} (h : Selects line k es (.some es')) :
    es'.length = es.length := by
  cases h
  exact List.length_map _

/-- An entry in front that is not found, and has its host before it. -/
theorem cons {e : Entry} (h : Selects line (k + 1) es result) (he : e.startsFrom line = false)
    (hhost : ∀ n, e.host = .some n → n ≤ k) : Selects line k (e :: es) (result.map (e :: ·)) := by
  cases h with
  | none h => exact .none (List.forall_mem_cons.2 ⟨he, h⟩)
  | @some i h =>
    have hfind : (e :: es).findIdx? (startsFrom line) = .some (i + 1) := by
      simp [List.findIdx?_cons, he, h]
    have hself : [e].map (behind [k + (i + 1)]) = [e] := map_behind_eq _ (by
      intro e' he' heq
      obtain rfl := List.mem_singleton.1 he'
      have := hhost _ heq
      omega)
    have hall := Selects.some (k := k) hfind
    rw [List.map_cons, (List.cons.inj hself).1, show k + (i + 1) = k + 1 + i by omega] at hall
    exact hall

/-- Entries in two parts, of which none has its host in the other one. -/
theorem append (h : Selects line k es result) (h' : Selects line (k + es.length) more result')
    (hes : ∀ e ∈ es, ∀ n, e.host = .some n → n < k + es.length)
    (hmore : ∀ e ∈ more, ∀ n, e.host = .some n → n < k ∨ k + es.length ≤ n) :
    Selects line k (es ++ more) ((result.map (· ++ more)).or (result'.map (es ++ ·))) := by
  cases h with
  | @some i hi =>
    have hlt := (List.findIdx?_eq_some_iff_getElem.1 hi).1
    have hfind : (es ++ more).findIdx? (startsFrom line) = .some i := by
      rw [List.findIdx?_append, hi, Option.some_or]
    have hall := Selects.some (k := k) hfind
    rw [List.map_append, map_behind_eq more] at hall
    · exact hall
    · intro e he heq
      have := hmore e he _ heq
      omega
  | none hnone =>
    -- nothing in the first part: the place in the second one is moved by its length
    cases h' with
    | none hnone' => exact .none (List.forall_mem_append.2 ⟨hnone, hnone'⟩)
    | @some i hi =>
      have hfind : (es ++ more).findIdx? (startsFrom line) = .some (i + es.length) := by
        rw [List.findIdx?_append, List.findIdx?_eq_none_iff.2 hnone, Option.none_or, hi,
          Option.map_some]
      have hall := Selects.some (k := k) hfind
      rw [List.map_append, map_behind_eq es,
        show k + (i + es.length) = k + es.length + i by omega] at hall
      · exact hall
      · intro e he heq
        have := hes e he _ heq
        omega

end Selects

end Entry

namespace Stmt

mutual

/-- The entries of a statement and of those below it, where the first has a number. -/
def entries (k : Nat) (inBlock : Bool) (host : Option Nat) : Stmt → List Entry
  | leaf none _ => []
  | leaf (some l) _ => [⟨l, inBlock, host⟩]
  | block none items => entriesOf k host items
  | block (some l) items => ⟨l, inBlock, none⟩ :: entriesOf (k + 1) none items
  | headed none _ body => entries k false none body
  | headed (some l) head body =>
    ⟨l, inBlock, host⟩ :: entries (k + 1) false (if head.entersBody then some k else none) body
  | ifElse none _ yes no =>
    entries k false none yes ++ entries (k + (entries k false none yes).length) false none no
  | ifElse (some l) _ yes no =>
    ⟨l, inBlock, host⟩ :: (entries (k + 1) false (some k) yes
      ++ entries (k + 1 + (entries (k + 1) false (some k) yes).length) false (some k) no)

/-- The entries of the list of a block. -/
def entriesOf (k : Nat) (host : Option Nat) : List Stmt → List Entry
  | [] => []
  | s :: rest => entries k true host s ++ entriesOf (k + (entries k true host s).length) host rest

end

/-- The entries of what is below a statement. -/
def entriesBelow (k : Nat) : Stmt → List Entry
  | leaf .. => []
  | block _ items => entriesOf k none items
  | headed _ _ body => entries k false none body
  | ifElse _ _ yes no =>
    entries k false none yes ++ entries (k + (entries k false none yes).length) false none no

section

variable {k : Nat} {host : Option Nat}

mutual

/-- The host of an entry is one of the statements above it. -/
theorem host_of_mem_entries (k : Nat) (inBlock : Bool) (host : Option Nat) : (s : Stmt) →
    ∀ e ∈ entries k inBlock host s, ∀ n, e.host = some n →
      host = some n ∨ k ≤ n ∧ n < k + (entries k inBlock host s).length
  | leaf none _ => by simp [entries]
  | leaf (some l) _ => by
    intro e he n hn
    obtain rfl := List.mem_singleton.1 he
    exact .inl hn
  | block none items => host_of_mem_entriesOf k host items
  | block (some l) items => by
    -- the list of a block has no host, whatever stands above the block
    have ih := host_of_mem_entriesOf (k + 1) none items
    intro e he n hn
    rw [entries, List.length_cons]
    rcases List.mem_cons.1 he with rfl | he
    · cases hn
    · rcases ih e he n hn with h | h
      · cases h
      · exact .inr (by omega)
  | headed none _ body => by
    have ih := host_of_mem_entries k false none body
    intro e he n hn
    exact .inr ((ih e he n hn).resolve_left (by simp))
  | headed (some l) head body => by
    -- the statement is the host of its body if a barrier would enter it
    have ih := host_of_mem_entries (k + 1) false (if head.entersBody then some k else none) body
    intro e he n hn
    rw [entries, List.length_cons]
    rcases List.mem_cons.1 he with rfl | he
    · exact .inl hn
    · rcases ih e he n hn with h | h
      · split at h
        · cases h
          exact .inr (by omega)
        · cases h
      · exact .inr (by omega)
  | ifElse none _ yes no => by
    have ihYes := host_of_mem_entries k false none yes
    have ihNo := host_of_mem_entries (k + (entries k false none yes).length) false none no
    intro e he n hn
    rw [entries, List.length_append]
    rcases List.mem_append.1 he with he | he
    · have := (ihYes e he n hn).resolve_left (by simp)
      exact .inr (by omega)
    · have := (ihNo e he n hn).resolve_left (by simp)
      exact .inr (by omega)
  | ifElse (some l) _ yes no => by
    have ihYes := host_of_mem_entries (k + 1) false (some k) yes
    have ihNo := host_of_mem_entries (k + 1 + (entries (k + 1) false (some k) yes).length) false
      (some k) no
    intro e he n hn
    rw [entries, List.length_cons, List.length_append]
    rcases List.mem_cons.1 he with rfl | he
    · exact .inl hn
    rcases List.mem_append.1 he with he | he
    · rcases ihYes e he n hn with h | h
      · cases h
        exact .inr (by omega)
      · exact .inr (by omega)
    · rcases ihNo e he n hn with h | h
      · cases h
        exact .inr (by omega)
      · exact .inr (by omega)

/-- The host of an entry is the one that is given, or an entry of the list itself. -/
theorem host_of_mem_entriesOf (k : Nat) (host : Option Nat) : (items : List Stmt) →
    ∀ e ∈ entriesOf k host items, ∀ n, e.host = some n →
      host = some n ∨ k ≤ n ∧ n < k + (entriesOf k host items).length
  | [] => by simp [entriesOf]
  | s :: rest => by
    have ihs := host_of_mem_entries k true host s
    have ihRest := host_of_mem_entriesOf (k + (entries k true host s).length) host rest
    intro e he n hn
    rw [entriesOf, List.length_append]
    rcases List.mem_append.1 he with he | he
    · rcases ihs e he n hn with h | h
      · exact .inl h
      · exact .inr (by omega)
    · rcases ihRest e he n hn with h | h
      · exact .inl h
      · exact .inr (by omega)

end

/-! ### What a barrier does at its statement -/

variable {m : Nat} {inBlock : Bool} {name : String} {seq : Nat} {thread : Int}

/-- A host that is not there cannot be replaced. -/
theorem map_behind_entries (hm : m < k) (hhost : host ≠ some m) (s : Stmt) :
    (entries k inBlock host s).map (Entry.behind [m]) = entries k inBlock host s := by
  refine Entry.map_behind_eq _ fun e he heq => ?_
  rcases host_of_mem_entries k inBlock host s e he m heq with h | h
  · exact hhost h
  · omega

theorem map_behind_entriesOf (hm : m < k) (hhost : host ≠ some m) (items : List Stmt) :
    (entriesOf k host items).map (Entry.behind [m]) = entriesOf k host items := by
  refine Entry.map_behind_eq _ fun e he heq => ?_
  rcases host_of_mem_entriesOf k host items e he m heq with h | h
  · exact hhost h
  · omega

theorem entriesOf_singleton (s : Stmt) : entriesOf k host [s] = entries k true host s := by
  rw [entriesOf, entriesOf, List.append_nil]

theorem entriesOf_cons_marker (items : List Stmt) :
    entriesOf k host (marker name seq thread :: items) = entriesOf k host items := by
  simp [entriesOf, marker, call, entries]

mutual

/-- A statement that already has its block is not changed by a further barrier. -/
theorem map_behind_entries_true {k m : Nat} (hm : m < k) : (s : Stmt) →
    (entries k true (some m) s).map (Entry.behind [m]) = entries k true (some m) s
  | leaf none _ => rfl
  | leaf (some l) _ => rfl
  | block none items => map_behind_entriesOf_host hm items
  | block (some l) items => by
    rw [entries, List.map_cons, map_behind_entriesOf (by omega) (by simp)]
    rfl
  | headed none _ body => map_behind_entries hm (by simp) body
  | headed (some l) head body => by
    rw [entries, List.map_cons, map_behind_entries (by omega) (by split <;> simp; omega)]
    rfl
  | ifElse none cond yes no => by
    rw [entries, List.map_append, map_behind_entries hm (by simp),
      map_behind_entries (by omega) (by simp)]
  | ifElse (some l) cond yes no => by
    rw [entries, List.map_cons, List.map_append, map_behind_entries (by omega) (by simp; omega),
      map_behind_entries (by omega) (by simp; omega)]
    rfl

/-- Statements of a block have no host but those inside of them. -/
theorem map_behind_entriesOf_host {k m : Nat} (hm : m < k) : (items : List Stmt) →
    (entriesOf k (some m) items).map (Entry.behind [m]) = entriesOf k (some m) items
  | [] => rfl
  | s :: rest => by
    rw [entriesOf, List.map_append, map_behind_entries_true hm s,
      map_behind_entriesOf_host (Nat.lt_add_right _ hm) rest]

end

/-- A body that is put into a block is found from then on. -/
theorem entries_true (hm : m < k) {s : Stmt} (hs : s.isBlock = false) :
    entries k true (some m) s = (entries k false (some m) s).map (Entry.behind [m]) := by
  rw [← map_behind_entries_true hm s]
  match s with
  | block .. => cases hs
  | leaf none _ => rfl
  | leaf (some l) _ => simp [entries, Entry.behind]
  | headed none _ body => rfl
  | headed (some l) head body =>
    rw [entries, entries, List.map_cons, List.map_cons]
    simp [Entry.behind]
  | ifElse none cond yes no => rfl
  | ifElse (some l) cond yes no =>
    rw [entries, entries, List.map_cons, List.map_cons]
    simp [Entry.behind]

/-- A marker in front of a statement puts its entries behind the host of the statement. -/
theorem entries_prepend (hm : m < k) (s : Stmt) :
    entries k false (some m) (prepend (marker name seq thread) s)
      = (entries k false (some m) s).map (Entry.behind [m]) := by
  cases hblock : s.isBlock with
  | true =>
    obtain ⟨l, items, rfl⟩ := isBlock_iff.1 hblock
    cases l with
    | none =>
      rw [prepend, entries, entries, entriesOf_cons_marker, map_behind_entriesOf_host hm]
    | some l =>
      rw [prepend, entries, entries, entriesOf_cons_marker, List.map_cons,
        map_behind_entriesOf (by omega) (by simp)]
      rfl
  | false =>
    rw [prepend_of_not_block hblock, entries, entriesOf_cons_marker, entriesOf_singleton,
      entries_true hm hblock]

/-- A barrier at a statement gives its bodies their blocks, and changes nothing else. -/
theorem entriesOf_guarded (hhost : ∀ n, host = some n → n < k) {s : Stmt} (hl : s.line.isSome) :
    entriesOf k host (guarded seq thread s)
      = (entries k true host s).map (Entry.behind [k]) := by
  have hself (l : Nat) (b : Bool) : Entry.behind [k] ⟨l, b, host⟩ = ⟨l, b, host⟩ := by
    have := Entry.map_behind_eq (n := k) [⟨l, b, host⟩] (by
      simpa using fun heq => Nat.lt_irrefl k (hhost k heq))
    simpa using this
  match s with
  | leaf none _ => cases hl
  | block none _ => cases hl
  | headed none .. => cases hl
  | ifElse none .. => cases hl
  | leaf (some l) content =>
    simp [guarded, enterWith?, entriesOf, entries, marker, call, hself]
  | block (some l) items =>
    rw [guarded, enterWith?, entriesOf_cons_marker, entriesOf_singleton, entries, entries,
      entriesOf_cons_marker, List.map_cons, map_behind_entriesOf (by omega) (by simp)]
    rfl
  | headed (some l) head body =>
    cases hhead : head.entersBody with
    | true =>
      rw [guarded, enterWith?, if_pos hhead]
      dsimp only
      rw [entriesOf_cons_marker, entriesOf_singleton, entries, entries, hhead, if_pos rfl,
        entries_prepend (by omega), List.map_cons, hself]
    | false =>
      rw [guarded, enterWith?, hhead, if_neg (by simp)]
      dsimp only
      rw [entriesOf_cons_marker, entriesOf, entriesOf_cons_marker, entries, hhead,
        if_neg (by simp), List.map_cons, hself, map_behind_entries (by omega) (by simp)]
      simp [entriesOf]
  | ifElse (some l) cond yes no =>
    rw [guarded, enterWith?]
    dsimp only
    rw [entriesOf_cons_marker, entriesOf_singleton, entries, entries, entries_prepend (by omega),
      List.length_map, entries_prepend (by omega), List.map_cons, List.map_append, hself]

/-! ### Where a barrier is placed -/

variable {line : Nat} {g : Stmt → List Stmt}

/-- What puts bodies into blocks at the statement of a barrier, and changes nothing else. -/
def Barring (g : Stmt → List Stmt) : Prop :=
  ∀ k host s, (∀ n, host = some n → n < k) → s.line.isSome →
    entriesOf k host (g s) = (entries k true host s).map (Entry.behind [k])

/-- The pair of markers around a statement is a barrier in the sense of `Barring`. -/
theorem barring_guarded (seq : Nat) (thread : Int) : Barring (guarded seq thread) :=
  fun _ _ _ hhost hl => entriesOf_guarded hhost hl

/-- The entries of a list are those of its parts, one behind the other. -/
theorem entriesOf_append (k : Nat) (items more : List Stmt) :
    entriesOf k host (items ++ more)
      = entriesOf k host items ++ entriesOf (k + (entriesOf k host items).length) host more := by
  induction items generalizing k with
  | nil => rfl
  | cons s items ih =>
    rw [List.cons_append, entriesOf, entriesOf, ih, List.append_assoc, List.length_append,
      Nat.add_assoc]

/-- The first entry is that of the statement itself. -/
theorem entries_of_line {l : Nat} {s : Stmt} (hl : s.line = some l) (k : Nat) (inBlock : Bool)
    (host : Option Nat) : ∃ host' es, entries k inBlock host s = ⟨l, inBlock, host'⟩ :: es := by
  match s, hl with
  | leaf (some _) _, rfl | block (some _) _, rfl | headed (some _) _ _, rfl
  | ifElse (some _) _ _ _, rfl => exact ⟨_, _, by rw [entries]⟩

/-- The arms of an `if`, of which each is seen alone. -/
theorem selects_arms (hhost : ∀ n, host = some n → n < k) {yes no : Stmt}
    (hyes : Entry.Selects line k (entries k false host yes)
      ((yes.spliceFirst? line g).map (entries k false host)))
    (hno : Entry.Selects line (k + (entries k false host yes).length)
      (entries (k + (entries k false host yes).length) false host no)
      ((no.spliceFirst? line g).map
        (entries (k + (entries k false host yes).length) false host))) :
    Entry.Selects line k
      (entries k false host yes ++ entries (k + (entries k false host yes).length) false host no)
      (((yes.spliceFirst? line g).map fun yes' => entries k false host yes'
          ++ entries (k + (entries k false host yes').length) false host no).or
        ((no.spliceFirst? line g).map fun no' => entries k false host yes
          ++ entries (k + (entries k false host yes).length) false host no')) := by
  have hall := hyes.append hno
    (fun e he n hn => by
      rcases host_of_mem_entries k false host yes e he n hn with h | h
      · have := hhost n h
        omega
      · exact h.2)
    (fun e he n hn => by
      rcases host_of_mem_entries _ false host no e he n hn with h | h
      · exact .inl (hhost n h)
      · exact .inr h.1)
  rw [Option.map_map, Option.map_map] at hall
  -- a splice keeps the number of entries, so the second branch is numbered as before
  cases h : yes.spliceFirst? line g with
  | some yes' =>
    rw [h] at hall hyes
    rw [Option.map_some, Option.some_or, hyes.length_eq]
    exact hall
  | none =>
    rw [h] at hall
    exact hall

mutual

/-- A splice is made at the first entry that is found. -/
theorem selects_spliceFirst? (hg : Barring g) (k : Nat) (inBlock : Bool) (host : Option Nat)
    (hhost : ∀ n, host = some n → n < k) :
    (s : Stmt) → (inBlock && s.startsFrom line) = false →
      Entry.Selects line k (entries k inBlock host s)
        ((s.spliceFirst? line g).map (entries k inBlock host))
  | leaf none _, _ => .none (by simp [entries])
  | leaf (some l) _, hs => .none (List.forall_mem_singleton.2 hs)
  | block none items, hs => by
    have ih := selects_spliceFirstOf? hg k host hhost items
    rw [spliceFirst?, Option.map_map]
    exact ih
  | block (some l) items, hs => by
    have ih := selects_spliceFirstOf? hg (k + 1) none (by simp) items
    have hall := ih.cons (e := ⟨l, inBlock, none⟩) hs (by simp)
    rw [spliceFirst?, Option.map_map]
    rwa [Option.map_map] at hall
  | headed none _ body, hs => by
    have ih := selects_spliceFirst? hg k false none (by simp) body rfl
    rw [spliceFirst?, Option.map_map]
    exact ih
  | headed (some l) head body, hs => by
    have ih := selects_spliceFirst? hg (k + 1) false (if head.entersBody then some k else none)
      (by split <;> simp) body rfl
    have hall := ih.cons (e := ⟨l, inBlock, host⟩) hs fun n hn => Nat.le_of_lt (hhost n hn)
    rw [spliceFirst?, Option.map_map]
    rwa [Option.map_map] at hall
  | ifElse none cond yes no, hs => by
    -- the second branch is searched only if nothing was found in the first
    have hall := selects_arms (by simp)
      (selects_spliceFirst? hg k false none (by simp) yes rfl)
      (selects_spliceFirst? hg (k + (entries k false none yes).length) false none (by simp) no rfl)
    rw [spliceFirst?]
    cases h : yes.spliceFirst? line g with
    | some yes' => rw [h] at hall; exact hall
    | none =>
      rw [h] at hall
      rw [Option.map_map]
      exact hall
  | ifElse (some l) cond yes no, hs => by
    have hall := (selects_arms (by simp)
      (selects_spliceFirst? hg (k + 1) false (some k) (by simp) yes rfl)
      (selects_spliceFirst? hg (k + 1 + (entries (k + 1) false (some k) yes).length) false (some k)
        (by simp; omega) no rfl)).cons (e := ⟨l, inBlock, host⟩) hs
        fun n hn => Nat.le_of_lt (hhost n hn)
    rw [spliceFirst?]
    cases h : yes.spliceFirst? line g with
    | some yes' => rw [h] at hall; exact hall
    | none =>
      rw [h, Option.map_none, Option.none_or, Option.map_map] at hall
      rw [Option.map_map]
      exact hall

/-- In a list the first entry is selected from the line on. -/
theorem selects_spliceFirstOf? (hg : Barring g) (k : Nat) (host : Option Nat)
    (hhost : ∀ n, host = some n → n < k) : (items : List Stmt) →
      Entry.Selects line k (entriesOf k host items)
        ((spliceFirstOf? line g items).map (entriesOf k host))
  | [] => .none (by simp [entriesOf])
  | s :: rest => by
    have hrest := selects_spliceFirstOf? hg (k + (entries k true host s).length) host
      (fun n hn => Nat.lt_add_right _ (hhost n hn)) rest
    have hhostRest : ∀ e ∈ entriesOf (k + (entries k true host s).length) host rest,
        ∀ n, e.host = some n → n < k ∨ k + (entries k true host s).length ≤ n := by
      intro e he n hn
      rcases host_of_mem_entriesOf _ host rest e he n hn with h | h
      · exact .inl (hhost n h)
      · exact .inr h.1
    rw [spliceFirstOf?, entriesOf]
    split
    next hstarts =>
      -- the statement itself is found
      obtain ⟨l, hl⟩ := Option.isSome_iff_exists.1 (line_isSome_of_startsFrom hstarts)
      obtain ⟨host', es, hes⟩ := entries_of_line hl k true host
      have hle : line ≤ l := by simpa [startsFrom, hl] using hstarts
      have hfind : (entries k true host s
          ++ entriesOf (k + (entries k true host s).length) host rest).findIdx?
            (Entry.startsFrom line) = some 0 := by
        rw [hes, List.cons_append, List.findIdx?_cons, Entry.startsFrom, Bool.true_and,
          decide_eq_true hle, if_pos rfl]
      have hall := Entry.Selects.some (k := k) hfind
      rw [Nat.add_zero, List.map_append,
        Entry.map_behind_eq (entriesOf (k + (entries k true host s).length) host rest)] at hall
      · rw [Option.map_some, entriesOf_append, hg k host s hhost (hl ▸ rfl), List.length_map]
        exact hall
      · intro e he heq
        have := hhostRest e he k heq
        rw [hes, List.length_cons] at this
        omega
    next hstarts =>
      -- else the search goes through the statement first, and then through the rest
      have hs := selects_spliceFirst? hg k true host hhost s (by simpa using hstarts)
      have hall := hs.append hrest
        (fun e he n hn => by
          rcases host_of_mem_entries k true host s e he n hn with h | h
          · have := hhost n h
            omega
          · exact h.2)
        hhostRest
      rw [Option.map_map, Option.map_map] at hall
      cases h : s.spliceFirst? line g with
      | some s' =>
        rw [h] at hall hs
        dsimp only
        rw [Option.map_some, entriesOf, hs.length_eq]
        exact hall
      | none =>
        rw [h] at hall
        dsimp only
        rw [Option.map_map]
        exact hall

end

/-- The hosts of the entries below a statement are below it too. -/
theorem host_of_mem_entriesBelow (k : Nat) (s : Stmt) :
    ∀ e ∈ entriesBelow k s, ∀ n, e.host = some n → k ≤ n ∧ n < k + (entriesBelow k s).length := by
  cases s with
  | leaf => simp [entriesBelow]
  | block l items =>
    exact fun e he n hn => (host_of_mem_entriesOf k none items e he n hn).resolve_left (by simp)
  | headed l head body =>
    exact fun e he n hn => (host_of_mem_entries k false none body e he n hn).resolve_left (by simp)
  | ifElse l cond yes no =>
    -- an `if` without a line has the same entries below
    exact fun e he n hn =>
      (host_of_mem_entries k false none (ifElse none cond yes no) e he n hn).resolve_left (by simp)

theorem selects_entriesBelow (hg : Barring g) (k : Nat) (s : Stmt) :
    Entry.Selects line k (entriesBelow k s) ((s.spliceFirst? line g).map (entriesBelow k)) := by
  cases s with
  | leaf => exact .none (by simp [entriesBelow])
  | block l items =>
    rw [spliceFirst?, Option.map_map]
    exact selects_spliceFirstOf? hg k none (by simp) items
  | headed l head body =>
    rw [spliceFirst?, Option.map_map]
    exact selects_spliceFirst? hg k false none (by simp) body rfl
  | ifElse l cond yes no =>
    have hall : Entry.Selects line _ _ _ := selects_spliceFirst? hg k false none (by simp)
      (ifElse none cond yes no) rfl
    rw [spliceFirst?] at hall ⊢
    cases h : yes.spliceFirst? line g with
    | some yes' => rw [h] at hall; exact hall
    | none =>
      rw [h, Option.map_map] at hall
      rw [Option.map_map]
      exact hall

/-! ### What a visit leaves -/

section

variable {σ : Type} {f : σ → Nat → Leaf → σ × Leaf}

mutual

theorem entries_visit (k : Nat) (inBlock : Bool) (host : Option Nat) (state : σ) : (s : Stmt) →
    entries k inBlock host (s.visit f state).2 = entries k inBlock host s
  | leaf none _ => rfl
  | leaf (some l) _ => rfl
  | block none items => entriesOf_visitAll k host state items
  | block (some l) items => congrArg (_ :: ·) (entriesOf_visitAll (k + 1) none state items)
  | headed none _ body => entries_visit k false none state body
  | headed (some l) head body => congrArg (_ :: ·) (entries_visit (k + 1) false _ state body)
  | ifElse none _ yes no => by
    rw [visit, entries, entries, entries_visit k false none state yes, entries_visit]
  | ifElse (some l) _ yes no => by
    rw [visit, entries, entries, entries_visit (k + 1) false (some k) state yes, entries_visit]

/-- A visit that keeps lines and blocks keeps the entries of a list. -/
theorem entriesOf_visitAll (k : Nat) (host : Option Nat) (state : σ) : (items : List Stmt) →
    entriesOf k host (visitAll f state items).2 = entriesOf k host items
  | [] => rfl
  | s :: rest => by
    rw [visitAll, entriesOf, entriesOf, entries_visit k true host state s, entriesOf_visitAll]

end

theorem entriesBelow_visitBelow (k : Nat) (state : σ) (s : Stmt) :
    entriesBelow k (s.visitBelow f state).2 = entriesBelow k s := by
  cases s with
  | leaf => rfl
  | block l items => exact entriesOf_visitAll k none state items
  | headed l head body => exact entries_visit k false none state body
  | ifElse l cond yes no => exact entries_visit k false none state (ifElse none cond yes no)

end

/-! ### Entries and occurrences -/

theorem filterMap_seen?_under (i : Nat) (os : List Occurrence) :
    (os.map (·.under i)).filterMap Occurrence.seen? = os.filterMap Occurrence.seen? := by
  rw [List.filterMap_map]
  rfl

/-- An occurrence is seen if its statement has a line. -/
theorem seen?_mk (steps : List Nat) (inBlock : Bool) (s : Stmt) (os : List Occurrence) :
    (⟨steps, inBlock, s⟩ :: os).filterMap Occurrence.seen?
      = (s.line.map (inBlock, ·)).toList ++ os.filterMap Occurrence.seen? := by
  rw [List.filterMap_cons, Occurrence.seen?]
  cases s.line <;> rfl

mutual

/-- The entries of a statement are its occurrences that have a line. -/
theorem seen_entries (k : Nat) (inBlock : Bool) (host : Option Nat) : (s : Stmt) →
    (entries k inBlock host s).map Entry.seen
      = (s.line.map (inBlock, ·)).toList ++ s.occurrences.filterMap Occurrence.seen?
  | leaf none _ => rfl
  | leaf (some l) _ => rfl
  | block none items => by
    rw [entries, occurrences, seen_entriesOf k host 0 items]
    rfl
  | block (some l) items => by
    rw [entries, occurrences, List.map_cons, seen_entriesOf (k + 1) none 0 items]
    rfl
  | headed none _ body => by
    rw [entries, occurrences, seen?_mk, filterMap_seen?_under, seen_entries k false none body]
    rfl
  | headed (some l) head body => by
    rw [entries, occurrences, seen?_mk, filterMap_seen?_under, List.map_cons, seen_entries]
    rfl
  | ifElse none _ yes no => by
    rw [entries, occurrences, List.cons_append, seen?_mk, List.filterMap_append, seen?_mk,
      filterMap_seen?_under, filterMap_seen?_under, List.map_append, seen_entries k false none yes,
      seen_entries]
    simp [Stmt.line]
  | ifElse (some l) _ yes no => by
    rw [entries, occurrences, List.cons_append, seen?_mk, List.filterMap_append, seen?_mk,
      filterMap_seen?_under, filterMap_seen?_under, List.map_cons, List.map_append,
      seen_entries (k + 1) false (some k) yes, seen_entries]
    simp [Stmt.line, Entry.seen]

/-- The entries of a list stand for the statements in it that have a line, in order. -/
theorem seen_entriesOf (k : Nat) (host : Option Nat) (i : Nat) : (items : List Stmt) →
    (entriesOf k host items).map Entry.seen
      = (occurrencesFrom i items).filterMap Occurrence.seen?
  | [] => rfl
  | s :: rest => by
    rw [entriesOf, occurrencesFrom, List.map_append, List.cons_append, seen?_mk,
      List.filterMap_append, filterMap_seen?_under, seen_entries k true host s,
      seen_entriesOf _ host (i + 1) rest]
    simp

end

theorem seen_entriesBelow (k : Nat) (s : Stmt) :
    (entriesBelow k s).map Entry.seen = s.occurrences.filterMap Occurrence.seen? := by
  cases s with
  | leaf => simp [entriesBelow, occurrences]
  | block l items => exact seen_entriesOf k none 0 items
  | headed l head body =>
    rw [entriesBelow, occurrences, seen?_mk, filterMap_seen?_under, seen_entries]
  | ifElse l cond yes no =>
    have h := seen_entries k false none (ifElse none cond yes no)
    simpa [entries, entriesBelow, occurrences, Stmt.line] using h

end

end Stmt

/-! ### Programs -/

namespace Program

open Stmt

/-- The entries of the statements below the bodies of the functions among some items. -/
def entriesFrom (k : Nat) : List Item → List Entry
  | [] => []
  | .verbatim .. :: rest => entriesFrom k rest
  | .function d :: rest =>
    d.body.entriesBelow k ++ entriesFrom (k + (d.body.entriesBelow k).length) rest

/-- The entries of a program: one for each statement that was read, in the order of the text. -/
def entries (p : Program) : List Entry :=
  entriesFrom 0 p.items

variable {p q : Program} {line : Nat}

theorem seen_entriesFrom (k i : Nat) (items : List Item) :
    (entriesFrom k items).map Entry.seen
      = (occurrencesFrom i items).filterMap fun o => o.2.2.line.map (o.2.1, ·) := by
  induction items generalizing k i with
  | nil => rfl
  | cons item rest ih =>
    cases item with
    | verbatim => exact ih k (i + 1)
    | function d =>
      rw [entriesFrom, occurrencesFrom, List.map_append, List.filterMap_append, seen_entriesBelow,
        ih _ (i + 1), List.filterMap_map]
      rfl

/-- The entries of a program are its occurrences that have a line. -/
theorem seen_entries (p : Program) :
    p.entries.map Entry.seen = p.occurrences.filterMap fun o => o.2.2.line.map (o.2.1, ·) :=
  seen_entriesFrom 0 0 p.items

/-- A search for the place of a barrier finds the first entry. -/
theorem number_statementFrom? (p : Program) (line : Nat) :
    (p.statementFrom? line).map p.number = p.entries.findIdx? (Entry.startsFrom line) := by
  have hseen : p.entries.findIdx? (Entry.startsFrom line)
      = (p.entries.map Entry.seen).findIdx? fun e => e.1 && line ≤ e.2 := by
    rw [List.findIdx?_map]
    rfl
  have hnone {os : List (Place × Bool × Stmt)}
      (h : ∀ o ∈ os, (o.2.1 && o.2.2.startsFrom line) = false) :
      (os.filterMap fun o => o.2.2.line.map (o.2.1, ·)).findIdx? (fun e => e.1 && line ≤ e.2)
        = none := by
    refine List.findIdx?_eq_none_iff.2 fun e he => ?_
    obtain ⟨o, ho, hline⟩ := List.mem_filterMap.1 he
    obtain ⟨l, hl, rfl⟩ := Option.map_eq_some_iff.1 hline
    have hbehind := h o ho
    rwa [Stmt.startsFrom, hl, Option.any_some] at hbehind
  have hsearch : p.statementFrom? line
      = (p.occurrences.find? fun o => o.2.1 && o.2.2.startsFrom line).map Prod.fst := rfl
  rw [hseen, seen_entries, hsearch]
  -- the index of an entry is the number of statements with a line before it
  cases hfind : p.occurrences.find? fun o => o.2.1 && o.2.2.startsFrom line with
  | none =>
    exact (hnone fun o ho => Bool.eq_false_iff.2 (List.find?_eq_none.1 hfind o ho)).symm
  | some o =>
    obtain ⟨place, inBlock, s⟩ := o
    obtain ⟨htest, before, after, hoccurrences, hbefore⟩ := List.find?_eq_some_iff_append.1 hfind
    obtain ⟨hblock, hstarts⟩ := Bool.and_eq_true_iff.1 htest
    obtain ⟨l, hl⟩ := Option.isSome_iff_exists.1 (line_isSome_of_startsFrom hstarts)
    have hle : line ≤ l := by simpa [Stmt.startsFrom, hl] using hstarts
    rw [Option.map_some, Option.map_some, number_eq hoccurrences, hoccurrences,
      List.filterMap_append, List.findIdx?_append,
      hnone fun o ho => Bool.not_eq_eq_eq_not.1 (hbefore o ho), Option.none_or, List.filterMap_cons, hl]
    dsimp only [Option.map_some]
    rw [List.findIdx?_cons, hblock, Bool.true_and, decide_eq_true hle, if_pos rfl, Option.map_some,
      Nat.zero_add, List.length_filterMap_eq_countP]
    simp

/-- No entry of a program has a host that comes before all of them. -/
theorem host_of_mem_entriesFrom (k : Nat) (items : List Item) :
    ∀ e ∈ entriesFrom k items, ∀ n, e.host = some n → k ≤ n := by
  induction items generalizing k with
  | nil => simp [entriesFrom]
  | cons item rest ih =>
    cases item with
    | verbatim => exact ih k
    | function d =>
      intro e he n hn
      rcases List.mem_append.1 he with he | he
      · exact (host_of_mem_entriesBelow k d.body e he n hn).1
      · exact Nat.le_trans (Nat.le_add_right _ _) (ih _ e he n hn)

/-- In a program the first entry is selected from the line on. -/
theorem selects_spliceFirstOf? {g : Stmt → List Stmt} (hg : Barring g) (k : Nat)
    (items : List Item) :
    Entry.Selects line k (entriesFrom k items)
      ((spliceFirstOf? line g items).map (entriesFrom k)) := by
  induction items generalizing k with
  | nil => exact .none (by simp [entriesFrom])
  | cons item rest ih =>
    cases item with
    | verbatim =>
      rw [spliceFirstOf?, Option.map_map]
      exact ih k
    | function d =>
      have hbody : Entry.Selects line _ _ _ := selects_entriesBelow hg k d.body
      have hall := hbody.append (ih _)
        (fun e he n hn => (host_of_mem_entriesBelow k d.body e he n hn).2)
        (fun e he n hn => .inr (host_of_mem_entriesFrom _ rest e he n hn))
      rw [spliceFirstOf?, entriesFrom]
      rw [Option.map_map, Option.map_map] at hall
      cases h : d.body.spliceFirst? line g with
      | some body =>
        rw [h] at hall hbody
        dsimp only
        rw [Option.map_some, entriesFrom, hbody.length_eq]
        exact hall
      | none =>
        rw [h] at hall
        dsimp only
        rw [Option.map_map]
        exact hall

/-- A barrier is placed at the statement of the first entry, and gives its bodies their blocks. -/
theorem entries_insertBarrier? {b : Barrier} (h : p.insertBarrier? b = some q) :
    ∃ place, p.statementFrom? b.line = some place ∧
      q.entries = p.entries.map (Entry.behind [p.number place]) := by
  rw [insertBarrier?_eq] at h
  obtain ⟨items, hitems, rfl⟩ := Option.map_eq_some_iff.1 h
  have hselects : Entry.Selects b.line _ _ _ :=
    selects_spliceFirstOf? (barring_guarded b.seq b.threadId) 0 p.items
  have hnumber := p.number_statementFrom? b.line
  rw [hitems, Option.map_some] at hselects
  change Entry.Selects b.line 0 p.entries (some (Program.mk items).entries) at hselects
  generalize (Program.mk items).entries = es at hselects ⊢
  cases hselects with
  | @some i hi =>
    rw [hi] at hnumber
    obtain ⟨place, hplace, hn⟩ := Option.map_eq_some_iff.1 hnumber
    refine ⟨place, hplace, ?_⟩
    rw [hn, Nat.zero_add]

/-- A pin keeps the entries of a program. -/
theorem entries_pinAt (assumption : String) (line : Nat) (p : Program) :
    (p.pinAt assumption line).2.entries = p.entries := by
  have h {σ : Type} {f : σ → Nat → Leaf → σ × Leaf} (k : Nat) (state : σ) (items : List Item) :
      entriesFrom k (visitItems f state items).2 = entriesFrom k items := by
    induction items generalizing k state with
    | nil => rfl
    | cons item rest ih =>
      cases item with
      | verbatim => exact ih k state
      | function d =>
        rw [visitItems, entriesFrom, entriesFrom, entriesBelow_visitBelow, ih]
  exact h 0 none p.items

end Program

/-! ### Sessions -/

namespace Session

variable {s s' : Session} {step : Transition}

theorem entries_pin (s : Session) (step : Transition) :
    (s.pin step).program.entries = s.program.entries := by
  rw [pin_eq]
  split
  next => exact Program.entries_pinAt _ _ s.program
  next => rfl

/-- Each step leaves the entries behind the barrier that it places, so all of them do. -/
theorem entries_run {steps : List Transition} (h : s.run steps = (s', none)) :
    s'.program.entries = s.program.entries.map (Entry.behind (s.numbers steps)) := by
  induction steps generalizing s with
  | nil =>
    cases h
    rw [numbers, Entry.behind_nil, List.map_id]
  | cons step rest ih =>
    obtain ⟨next, hnext, hrest⟩ := next_of_run h
    rw [ih hrest, numbers]
    dsimp only
    rw [hnext]
    dsimp only
    rcases switch_eq_ok hnext with ⟨hswitch, rfl⟩ | ⟨thread, line, q, hswitch, hq, rfl⟩
    · rw [pin_activeThread] at hswitch
      rw [hswitch, entries_pin]
      rfl
    · rw [pin_activeThread] at hswitch
      obtain ⟨place, hplace, hentries⟩ := Program.entries_insertBarrier? hq
      rw [hswitch, Option.bind_some, hplace, Option.map_some, Option.toList_some]
      dsimp only
      rw [hentries, entries_pin, List.map_map]
      exact List.map_congr_left fun e _ => Entry.behind_behind _ _ e

end Session

namespace Program

variable {source : String} {p : Program} {steps : List Transition} {s : Session}

/-- A replay changes for a search only that bodies got blocks. -/
theorem entries_replay (hs : p.replay steps = (s, none)) :
    s.program.entries
      = p.entries.map (Entry.behind ((Session.start p steps).numbers steps)) :=
  Session.entries_run hs

/-- **What a search finds after barriers.** A replay that succeeds keeps the lines of all statements
that were read, so that a number stands for the same statement all along. A search from a line on
finds the first statement of a block that starts there or later; after the replay it finds the
first one that is a statement of a block or a body without braces of a statement with a barrier. It
finds the same in both programs if no such body starts there or later. -/
theorem statementFrom?_replay (h : parse source = .ok p) (hs : p.replay steps = (s, none))
    (line : Nat) :
    s.program.statements.filterMap Stmt.line = p.statements.filterMap Stmt.line ∧
    (p.statementFrom? line).map p.number
      = p.entries.findIdx? (fun e => e.inBlock && line ≤ e.line) ∧
    (s.program.statementFrom? line).map s.program.number
      = p.entries.findIdx? (fun e =>
          (e.inBlock || e.host.any (· ∈ (Session.start p steps).numbers steps))
            && line ≤ e.line) ∧
    ((∀ e ∈ p.entries, e.host.any (· ∈ (Session.start p steps).numbers steps) → line ≤ e.line →
        e.inBlock) →
      (s.program.statementFrom? line).map s.program.number
        = (p.statementFrom? line).map p.number) := by
  have hbehind : (s.program.statementFrom? line).map s.program.number
      = p.entries.findIdx? (fun e =>
          (e.inBlock || e.host.any (· ∈ (Session.start p steps).numbers steps))
            && line ≤ e.line) := by
    rw [number_statementFrom?, entries_replay hs, List.findIdx?_map]
    rfl
  refine ⟨lines_replay h hs, p.number_statementFrom? line, hbehind, fun hsame => ?_⟩
  -- both tests agree on every entry, and so do the first indices
  have htests : p.entries.map (fun e =>
        (e.inBlock || e.host.any (· ∈ (Session.start p steps).numbers steps)) && line ≤ e.line)
      = p.entries.map (Entry.startsFrom line) := by
    refine List.map_congr_left fun e he => ?_
    have := hsame e he
    rw [Entry.startsFrom, Bool.eq_iff_iff]
    simp only [Bool.and_eq_true, Bool.or_eq_true, decide_eq_true_eq]
    tauto
  rw [hbehind, number_statementFrom?]
  have hfind := congrArg (List.findIdx? id) htests
  rwa [List.findIdx?_map, List.findIdx?_map, Function.id_comp, Function.id_comp] at hfind

end Program

/-- A source with a body that has no braces. -/
def unbracedSource : String :=
  "int x;\nint main() \x7b\n  if (x)\n    x = 1;\n  x = 2;\n\x7d\n"

/-- Steps that switch threads at the `if` of the source. -/
def unbracedSteps : List Transition :=
  let step (thread : Int) : Transition := ⟨some ⟨3, 1, 3, 0, ""⟩, ⟨none, none, some thread, none⟩⟩
  [step 0, step 1]

theorem replay_unbracedSource : ∃ p s, Program.parse unbracedSource = .ok p ∧
    p.replay unbracedSteps = (s, none) ∧
    p.entries = [⟨3, true, none⟩, ⟨4, false, some 0⟩, ⟨5, true, none⟩] ∧
    (Session.start p unbracedSteps).numbers unbracedSteps = [0] := by
  have hall : ∃ p, Program.parse unbracedSource = .ok p ∧ (p.replay unbracedSteps).2 = none ∧
      p.entries = [⟨3, true, none⟩, ⟨4, false, some 0⟩, ⟨5, true, none⟩] ∧
      (Session.start p unbracedSteps).numbers unbracedSteps = [0] := by decide +kernel
  obtain ⟨p, hp, hdone, hentries, hnumbers⟩ := hall
  exact ⟨p, _, hp, Prod.ext rfl hdone, hentries, hnumbers⟩

theorem statementFrom?_replay_unbracedSource : ∃ p s, Program.parse unbracedSource = .ok p ∧
    p.replay unbracedSteps = (s, none) ∧ (p.statementFrom? 4).map p.number = some 2 ∧
    (s.program.statementFrom? 4).map s.program.number = some 1 := by
  obtain ⟨p, s, hp, hs, hentries, hnumbers⟩ := replay_unbracedSource
  obtain ⟨-, hbefore, hbehind, -⟩ := Program.statementFrom?_replay hp hs 4
  rw [hentries] at hbefore hbehind
  rw [hnumbers] at hbehind
  exact ⟨p, s, hp, hs, hbefore.trans (by decide), hbehind.trans (by decide)⟩

/-- Not every search finds the same statement after a replay. -/
theorem not_statementFrom?_replay : ¬ ∀ source p steps s line, Program.parse source = .ok p →
    p.replay steps = (s, none) →
    (s.program.statementFrom? line).map s.program.number
      = (p.statementFrom? line).map p.number := by
  intro h
  obtain ⟨p, s, hp, hs, hentries, hnumbers⟩ := replay_unbracedSource
  have hsame := h _ p _ s 4 hp hs
  rw [Program.number_statementFrom?, Program.number_statementFrom?, Program.entries_replay hs,
    hentries, hnumbers] at hsame
  revert hsame
  decide

end WitnessReplay
