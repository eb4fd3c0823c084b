import Baileyrs.InsertionMap

/-!
# Objects with identities

Objects are told apart by their addresses and hold values or other objects under keys. A
new object leaves all others as they are, and a write leaves all but the one it is to. What
an object leads to is what a reader of it can see.
-/

namespace Baileyrs.ObjectHeap

section Objects

/-- What is under a key: a value of its own, or an object. -/
inductive Slot (π : Type*) where
  /-- A value. -/
  | leaf (value : π)
  /-- An object by its address. -/
  | ref (address : ℕ)
  deriving DecidableEq

/-- Kinds of objects. -/
inductive Kind where
  /-- An object without a class. -/
  | plain
  /-- An array. -/
  | array
  /-- A function. -/
  | function
  /-- Any other object. -/
  | other
  deriving DecidableEq

/-- An object. -/
structure Object (κ π : Type*) where
  /-- Its kind. -/
  kind : Kind
  /-- What it holds, in order. -/
  members : InsertionMap κ (Slot π)

/-- Objects by their addresses. -/
abbrev Heap (κ π : Type*) := List (Object κ π)

variable {κ π : Type*} [DecidableEq κ]

/-- What is under a key of an object. -/
def own (heap : Heap κ π) (slot : Slot π) (key : κ) : Option (Slot π) :=
  match slot with
  | .leaf _ => none
  | .ref address => heap[address]?.bind fun object => object.members.get key

/-- Make an object. -/
def allocate (heap : Heap κ π) (object : Object κ π) : ℕ × Heap κ π := (heap.length,heap++[object])

/-- Put something under a key. -/
def Object.assign (object : Object κ π) (key : κ) (slot : Slot π) : Object κ π :=
  { object with members := object.members.set key slot }

/-- Take a key away. -/
def Object.remove (object : Object κ π) (key : κ) : Object κ π :=
  { object with members := object.members.delete key }

/-- Write to an object. -/
def update (heap : Heap κ π) (address : ℕ) (f : Object κ π → Object κ π) : Heap κ π := heap.modify address f

/-- Every object that is held exists. -/
def Closed (heap : Heap κ π) : Prop :=
  ∀ object ∈ heap, ∀ key address, object.members.get key = some (.ref address) → address < heap.length

/-- Addresses that an object leads to. -/
inductive Reach (heap : Heap κ π) (root : ℕ) : ℕ → Prop where
  /-- Its own. -/
  | root : Reach heap root root
  /-- One that is held by an object it leads to. -/
  | step {address next : ℕ} {key : κ} (before : Reach heap root address)
      (held : own heap (.ref address) key = some (.ref next)) : Reach heap root next

end Objects

section Frames

variable {κ π : Type*} {heap : Heap κ π} {object : Object κ π} {address : ℕ} {f : Object κ π → Object κ π}

theorem update_self (h : heap[address]? = some object) : (update heap address f)[address]? = some (f object) := by
  rw [update,List.getElem?_modify_eq,h]
  rfl

/-- A write to an object behind others changes it in its place. -/
theorem update_append (rest : Heap κ π) : update (heap++object::rest) heap.length f = heap++f object::rest := by
  induction heap with
  | nil => rfl
  | cons first others ih => exact congrArg (first::·) ih

/-- Objects behind others. -/
theorem getElem?_behind (rest : Heap κ π) (i : ℕ) : (heap++rest)[heap.length+i]? = rest[i]? := by
  rw [List.getElem?_append_right (Nat.le_add_right _ _),Nat.add_sub_cancel_left]

variable [DecidableEq κ]

theorem own_ref (h : heap[address]? = some object) (key : κ) : own heap (.ref address) key = object.members.get key := by
  rw [own,h]
  rfl

/-- What an object held by another is one that exists. -/
theorem Closed.own_lt (hclosed : Closed heap) {slot : Slot π} {key : κ} (h : own heap slot key = some (.ref address)) :
    address < heap.length := by
  cases slot with
  | leaf value => cases h
  | ref held =>
    obtain ⟨object,hobject,hget⟩ := Option.bind_eq_some_iff.mp h
    exact hclosed object (List.mem_of_getElem? hobject) key address hget

/-- What the members list exists. -/
theorem closed_entries (h : (heap.all fun object => object.members.entries.all fun member =>
    match member.2 with | .leaf _ => true | .ref address => address < heap.length) = true) : Closed heap := by
  intro object hobject key address hget
  have hentries := List.all_eq_true.mp h object hobject
  exact of_decide_eq_true (List.all_eq_true.mp hentries _ (InsertionMap.get_eq_some_iff.mp hget))

theorem lt_of_own {slot : Slot π} {key : κ} (h : own heap (.ref address) key = some slot) : address < heap.length := by
  obtain ⟨object,hobject,_⟩ := Option.bind_eq_some_iff.mp h
  exact (List.getElem?_eq_some_iff.mp hobject).1

/-- Every address that is led to exists. -/
theorem Reach.lt (hclosed : Closed heap) {root : ℕ} (hroot : root < heap.length) (h : Reach heap root address) :
    address < heap.length := by
  induction h with
  | root => exact hroot
  | step _ held _ => exact hclosed.own_lt held

end Frames

end Baileyrs.ObjectHeap
