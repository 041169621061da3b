/-!
# Attributes

The attributes of an element of a graph: values under names, in the order in which the names first
came. Setting a name again changes its value and leaves its place.
-/

namespace WitnessReplay

/-- Values under names, in order. -/
structure Attributes where
  entries : List (String × String)
deriving DecidableEq, Repr, Inhabited

namespace Attributes

/-- No attributes. -/
def empty : Attributes := ⟨[]⟩

/-- The value under a name. -/
def get? (a : Attributes) (name : String) : Option String :=
  a.entries.lookup name

/-- Sets the value under a name in a list of entries. -/
def insertEntry (name value : String) : List (String × String) → List (String × String)
  | [] => [(name, value)]
  | (n, v) :: rest =>
    if n = name then (n, value) :: rest else (n, v) :: insertEntry name value rest

/-- Sets the value under a name. -/
def insert (a : Attributes) (name value : String) : Attributes :=
  ⟨insertEntry name value a.entries⟩

/-- The attributes that some settings, one after the other, come to. -/
def ofList (settings : List (String × String)) : Attributes :=
  settings.foldl (fun a (name, value) => a.insert name value) empty

/-- What is found after setting a name: the new value there, and elsewhere what was there before. -/
theorem get?_insert (a : Attributes) (name value other : String) :
    (a.insert name value).get? other = if other = name then some value else a.get? other := by
  obtain ⟨entries⟩ := a
  simp only [get?, insert]
  induction entries with
  | nil =>
    by_cases h : other = name
    · simp [insertEntry, h]
    · have hb : (other == name) = false := by simp [h]
      simp [insertEntry, List.lookup_cons, h, hb]
  | cons e rest ih =>
    obtain ⟨n, v⟩ := e
    by_cases hn : n = name
    · subst hn
      by_cases ho : other = n
      · simp [insertEntry, ho]
      · have hb : (other == n) = false := by simp [ho]
        simp [insertEntry, List.lookup_cons, ho, hb]
    · by_cases ho : other = n
      · subst ho
        simp [insertEntry, hn]
      · have hb : (other == n) = false := by simp [ho]
        simp [insertEntry, hn, List.lookup_cons, hb, ih]

end Attributes

end WitnessReplay
