import Baileyrs.InsertionMap

/-!
# Plain objects as maps

The event buffer keeps pending values in plain objects. A lookup by a name that is not
an own one finds the built-in member of that name, where there is one.
-/

namespace Baileyrs.PlainObjects

/-- Names of the built-in members of a plain object. -/
def inheritedNames : List String :=
  ["constructor","__defineGetter__","__defineSetter__","hasOwnProperty","__lookupGetter__",
    "__lookupSetter__","isPrototypeOf","propertyIsEnumerable","toString","valueOf","__proto__",
    "toLocaleString"]

/-- What a lookup by name finds in a plain object. -/
inductive Held (β : Type*) where
  | own (value : β)
  | inherited
  | nothing

variable {β : Type*} {object : InsertionMap String β} {name : String}

/-- Look a name up. -/
def lookup (object : InsertionMap String β) (name : String) : Held β :=
  match object.get name with
  | some value => .own value
  | none => if name ∈ inheritedNames then .inherited else .nothing

theorem lookup_ne_inherited (h : name ∉ inheritedNames) :
    lookup object name = match object.get name with
      | some value => .own value
      | none => .nothing := by
  unfold lookup
  rw [if_neg h]

theorem lookup_own {value : β} (h : lookup object name = .own value) : object.get name = some value := by
  unfold lookup at h
  cases hget : object.get name with
  | some found =>
    rw [hget] at h
    cases h
    rfl
  | none =>
    rw [hget] at h
    dsimp only at h
    split at h
    · cases h
    · cases h

theorem lookup_nothing (h : lookup object name = .nothing) : object.get name = none ∧ name ∉ inheritedNames := by
  unfold lookup at h
  cases hget : object.get name with
  | some found =>
    rw [hget] at h
    cases h
  | none =>
    rw [hget] at h
    dsimp only at h
    split at h
    · cases h
    · exact ⟨rfl,by assumption⟩

/-- Nothing is found under a new name. -/
theorem lookup_new (hget : object.get name = none) (h : name ∉ inheritedNames) : lookup object name = .nothing := by
  rw [lookup_ne_inherited h,hget]

end Baileyrs.PlainObjects
