import Mathlib.Data.List.Basic
import WitnessReplay.GraphML.Document

/-!
# Looking attributes up

The attributes of an element come about by settings, one after the other: the defaults of keys and
then the given values, each under all its spellings. So names of different keys can meet, and the
last setting counts. Here the value under a name is found without them: it is the last value given
under the name, and if there is none, the last default (`get?_readAttributes`).
-/

namespace WitnessReplay

variable {s : String}

/-! ### The last of some settings -/

/-- The value that some settings leave under a name. -/
def lastSetting (s : String) (all : List (String × String)) : Option String :=
  all.findSomeRev? fun (name, value) => if name = s then some value else none

@[simp] theorem lastSetting_nil : lastSetting s [] = none := rfl

theorem lastSetting_append (earlier later : List (String × String)) :
    lastSetting s (earlier ++ later) = (lastSetting s later).or (lastSetting s earlier) := by
  simp only [lastSetting, List.findSomeRev?_eq_findSome?_reverse, List.reverse_append,
    List.findSome?_append]

theorem lastSetting_cons (e : String × String) (later : List (String × String)) :
    lastSetting s (e :: later)
      = (lastSetting s later).or (if e.1 = s then some e.2 else none) :=
  lastSetting_append [e] later

/-- Setting values one after the other leaves the last one under a name. -/
theorem Attributes.get?_ofList (all : List (String × String)) :
    (ofList all).get? s = lastSetting s all := by
  suffices h : ∀ a : Attributes,
      (all.foldl (fun a (name, value) => a.insert name value) a).get? s
        = (lastSetting s all).or (a.get? s) by
    rw [ofList, h]
    exact Option.or_none
  induction all with
  | nil => intro a; rfl
  | cons e all ih =>
    intro a
    rw [List.foldl_cons, ih, get?_insert, lastSetting_cons, Option.or_assoc]
    congr 1
    by_cases h : e.1 = s
    · rw [if_pos h, if_pos h.symm]; rfl
    · rw [if_neg h, if_neg (Ne.symm h)]; rfl

namespace GraphML

/-- A value is set under the id of its key and under the name of the key, and nowhere else. -/
theorem lastSetting_settings (id : String) (name : Option String) (value : String) :
    lastSetting s (settings id name value)
      = if id = s ∨ name = some s then some value else none := by
  cases name with
  | none => simp [settings, spellings, lastSetting_cons]
  | some n =>
    by_cases hn : n = id
    · simp [settings, spellings, lastSetting_cons, hn]
    · rw [settings, spellings, if_neg hn]
      by_cases hs : n = s <;> simp [lastSetting_cons, hs]

/-! ### The last value and the last default -/

/-- Whether an element gives a value under a name: it is data whose key has the name for its id, or
whose key is first declared with that name. -/
def givesValue (keys : List KeyDecl) (s : String) (d : Xml.Node) : Bool :=
  d.isElement "data" && (d.attribute? "key").any fun id =>
    id = s || (keys.find? (·.id == id)).any fun k => k.name = some s

/-- Whether a key has a default for a kind of element under a name. -/
def setsDefault (domain : Domain) (s : String) (k : KeyDecl) : Bool :=
  k.default.isSome && (k.id = s || k.name = some s) && k.appliesTo domain

/-- The last element of a list is looked at first. -/
theorem findRev?_cons {α : Type} (p : α → Bool) (a : α) (as : List α) :
    (a :: as).findRev? p = (as.findRev? p).or (if p a then some a else none) := by
  rw [List.findRev?]
  cases as.findRev? p <;> simp

/-- What a key adds to the settings of the defaults. -/
theorem defaultSettings_cons (k : KeyDecl) (keys : List KeyDecl) (domain : Domain) :
    lastSetting s (defaultSettings (k :: keys) domain)
      = (lastSetting s (defaultSettings keys domain)).or
        (if setsDefault domain s k then k.default else none) := by
  unfold defaultSettings setsDefault
  rw [List.filter_cons]
  by_cases happlies : k.appliesTo domain = true
  · rw [if_pos happlies, List.flatMap_cons, lastSetting_append]
    cases hdefault : k.default with
    | none => simp
    | some value => simp [lastSetting_settings, happlies]
  · rw [if_neg happlies]
    simp [happlies]

/-- The defaults leave the last one under a name. -/
theorem lastSetting_defaultSettings (keys : List KeyDecl) (domain : Domain) :
    lastSetting s (defaultSettings keys domain)
      = (keys.findRev? (setsDefault domain s)).bind KeyDecl.default := by
  induction keys with
  | nil => rfl
  | cons k keys ih =>
    rw [defaultSettings_cons, ih, findRev?_cons]
    cases hlast : keys.findRev? (setsDefault domain s) with
    | none => by_cases hk : setsDefault domain s k = true <;> simp [hk]
    | some last =>
      have hsets : setsDefault domain s last = true := by
        rw [List.findRev?_eq_find?_reverse] at hlast
        exact List.find?_some hlast
      rw [setsDefault, Bool.and_eq_true, Bool.and_eq_true] at hsets
      obtain ⟨value, hvalue⟩ := Option.isSome_iff_exists.1 hsets.1.1
      simp [hvalue]

/-- The settings of a value that is given under a key, in front of others. -/
theorem lastSetting_dataSettings_cons (keys : List KeyDecl) (id value : String)
    (given : List (String × String)) :
    lastSetting s (dataSettings keys ((id, value) :: given))
      = (lastSetting s (dataSettings keys given)).or
        (if id = s || (keys.find? (·.id == id)).any fun k => k.name = some s then some value
          else none) := by
  unfold dataSettings
  rw [List.flatMap_cons, lastSetting_append, lastSetting_settings]
  cases keys.find? (·.id == id) <;> simp

/-- The given values leave the last one under a name. -/
theorem lastSetting_dataSettings (keys : List KeyDecl) (n : Xml.Node) :
    lastSetting s (dataSettings keys (givenValues n))
      = (n.children.findRev? (givesValue keys s)).map contentOf := by
  unfold givenValues
  induction n.children with
  | nil => rfl
  | cons d children ih =>
    rw [List.filter_cons, findRev?_cons, Option.map_or, ← ih, givesValue]
    by_cases hdata : d.isElement "data" = true
    · rw [if_pos hdata]
      cases hkey : d.attribute? "key" with
      | none => simp [hkey]
      | some id =>
        rw [List.filterMap_cons_some (by rw [hkey]; rfl), lastSetting_dataSettings_cons]
        simp only [hdata, Bool.true_and, Option.any_some]
        congr 1
        split <;> rfl
    · simp [hdata]

/-- **The value under a name is the last one given under it, and else the last default.** It is
given under the id of its key and under the name of the first key with that id; defaults count only
for the kind of the element, and no default counts beside a given value. -/
theorem get?_readAttributes (keys : List KeyDecl) (domain : Domain) (n : Xml.Node) (s : String) :
    (readAttributes keys domain n).get? s =
      match n.children.findRev? (givesValue keys s) with
      | some d => some (String.ofList (Text.trim d.leadingText))
      | none => (keys.findRev? (setsDefault domain s)).bind KeyDecl.default := by
  rw [readAttributes, attributesOf, Attributes.get?_ofList, lastSetting_append,
    lastSetting_dataSettings, lastSetting_defaultSettings]
  cases n.children.findRev? (givesValue keys s) with
  | some d => rfl
  | none => exact Option.none_or

end GraphML

end WitnessReplay
