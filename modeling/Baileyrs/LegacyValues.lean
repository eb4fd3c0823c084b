import Baileyrs.AtomicStore
import Baileyrs.JsNumber

/-!
# Values of a legacy key store

A legacy key store keeps host values. A persistent one writes them as JSON
texts with binary data in base64, and reads them back through a reviver. A
text is represented by the tree it is written from, since reading a written
text gives that tree back.
-/

namespace Baileyrs.LegacyValues

open JsString AtomicStore

/-- A host value. Both kinds of byte arrays are one constructor, since a store
and a fingerprint treat them alike; a message is an object whose `toJSON`
method gives a plain object. -/
inductive Value where
  | undefined
  | null
  | bool (b : Bool)
  | number (x : JsNumber)
  | bigint (n : ℤ)
  | string (text : JsString)
  | bytes (data : Bytes)
  | date (iso : JsString)
  | array (items : List Value)
  | object (members : List (JsString × Value))
  | message (members json : List (JsString × Value))
  | unsupported (kind : JsString)

namespace Value

/-- Absent for a store: the value compares loosely equal to `null`. -/
def isNullish : Value → Bool
  | .undefined => true
  | .null => true
  | _ => false

/-- Bytes of a byte array. -/
def toBytes : Value → Option Bytes
  | .bytes data => some data
  | _ => none

/-- A value counts as true in a condition. -/
def isTruthy : Value → Bool
  | .undefined => false
  | .null => false
  | .bool b => b
  | .number x => !(x = .zero || x = .negativeZero || x.isNaN)
  | .bigint n => n != 0
  | .string text => !text.isEmpty
  | _ => true

end Value

open Value

/-- Property of an object. -/
def property (name : String) (members : List (JsString × Value)) : Option Value :=
  InsertionMap.find members (ofString name)

/-- A property holds a given text. -/
def hasText (name text : String) (members : List (JsString × Value)) : Bool :=
  match property name members with
  | some (.string found) => found == ofString text
  | _ => false

/-- The object a byte array is written as. -/
def bufferObject (data : Bytes) : Value :=
  .object [(ofString "type",.string (ofString "Buffer")),(ofString "data",.string (Base64.encode data))]

section Persistence

-- The element a value becomes in a byte array; none when the conversion throws.
variable (byteOf : Value → Option UInt8)

/-- Bytes of a list of values. -/
def arrayBytes (items : List Value) : Except StoreError Bytes :=
  match items.mapM byteOf with
  | some data => .ok data
  | none => .error (.typeError "Cannot convert a value to a number")

/-- Bytes the replacer finds in an object that looks like a written byte array. -/
def bufferData (members : List (JsString × Value)) : Option (Except StoreError Bytes) :=
  if hasText "type" "Buffer" members = true then
    match property "data" members with
    | some (.array items) => some (arrayBytes byteOf items)
    | some (.bytes data) => some (.ok data)
    | _ => none
  else none

mutual

/-- Tree of the text a value is written as, under the replacer; none when the
value has no text. -/
def stringify : Value → Except StoreError (Option Value)
  | .undefined => .ok none
  | .null => .ok (some .null)
  | .bool b => .ok (some (.bool b))
  | .number x =>
    .ok (some (if x.isFinite then .number (if x = .negativeZero then .zero else x) else .null))
  | .bigint _ => .error (.typeError "Do not know how to serialize a BigInt")
  | .string text => .ok (some (.string text))
  | .bytes data => .ok (some (bufferObject data))
  | .date iso => .ok (some (.string iso))
  | .array items => do
    let written ← stringifyItems items
    return some (.array written)
  | .object members =>
    match bufferData byteOf members with
    | some found => do
      let data ← found
      return some (bufferObject data)
    | none => do
      let written ← stringifyMembers members
      return some (.object written)
  | .message _ json =>
    match bufferData byteOf json with
    | some found => do
      let data ← found
      return some (bufferObject data)
    | none => do
      let written ← stringifyMembers json
      return some (.object written)
  | .unsupported _ => .ok none

/-- Items of a written array; one without a text is written as `null`. -/
def stringifyItems : List Value → Except StoreError (List Value)
  | [] => .ok []
  | item::rest => do
    let first ← stringify item
    let others ← stringifyItems rest
    return first.getD .null::others

/-- Members of a written object; one without a text is left out. -/
def stringifyMembers : List (JsString × Value) → Except StoreError (List (JsString × Value))
  | [] => .ok []
  | (name,value)::rest => do
    let first ← stringify value
    let others ← stringifyMembers rest
    match first with
    | some written => return (name,written)::others
    | none => return others

end

/-- The reviver takes an object for a written byte array. -/
def looksWritten (members : List (JsString × Value)) : Bool :=
  hasText "type" "Buffer" members ||
    match property "buffer" members with
    | some (.bool b) => b
    | _ => false

/-- Data of an object the reviver takes for a written byte array. -/
def writtenData (members : List (JsString × Value)) : Option Value :=
  match property "data" members with
  | some value => if value.isNullish then property "value" members else some value
  | none => property "value" members

/-- Bytes the reviver makes of an object. -/
def revivedBytes (members : List (JsString × Value)) : Except StoreError Value :=
  match writtenData members with
  | some (.string text) => .ok (.bytes (Base64.decode text))
  | some (.array items) => do
    let data ← arrayBytes byteOf items
    return .bytes data
  | _ => .ok (.bytes [])

mutual

/-- Value a text is read as, under the reviver. -/
def revive : Value → Except StoreError Value
  | .array items => do
    let revived ← reviveItems items
    return .array revived
  | .object members => do
    let revived ← reviveMembers members
    if looksWritten revived then revivedBytes byteOf revived else return .object revived
  | value => .ok value

/-- Items of a revived array. -/
def reviveItems : List Value → Except StoreError (List Value)
  | [] => .ok []
  | item::rest => do
    let first ← revive item
    let others ← reviveItems rest
    return first::others

/-- Members of a revived object. -/
def reviveMembers : List (JsString × Value) → Except StoreError (List (JsString × Value))
  | [] => .ok []
  | (name,value)::rest => do
    let first ← revive value
    let others ← reviveMembers rest
    return (name,first)::others

end

/-- A value a persistent store returns as it was set. -/
inductive Plain : Value → Prop where
  | null : Plain .null
  | bool (b : Bool) : Plain (.bool b)
  | number (x : JsNumber) (hfinite : x.isFinite = true) (hzero : x ≠ .negativeZero) :
      Plain (.number x)
  | string (text : JsString) : Plain (.string text)
  | bytes (data : Bytes) : Plain (.bytes data)
  | array (items : List Value) (hitems : ∀ item ∈ items, Plain item) : Plain (.array items)
  | object (members : List (JsString × Value)) (hmembers : ∀ m ∈ members, Plain m.2)
      (hwritten : looksWritten members = false) : Plain (.object members)

/-- A value is written, and reading the text gives it back. -/
def Carried (value : Value) : Prop :=
  ∃ written, stringify byteOf value = .ok (some written) ∧ revive byteOf written = .ok value

/-- A written byte array is read back. -/
theorem carried_bytes (data : Bytes) : Carried byteOf (.bytes data) := by
  have hread : revive byteOf (bufferObject data) = .ok (.bytes (Base64.decode (Base64.encode data))) := rfl
  rw [Base64.decode_encode] at hread
  exact ⟨bufferObject data,rfl,hread⟩

theorem carried_items {items : List Value} (h : ∀ item ∈ items, Carried byteOf item) :
    ∃ written, stringifyItems byteOf items = .ok written ∧ reviveItems byteOf written = .ok items := by
  induction items with
  | nil => exact ⟨[],rfl,rfl⟩
  | cons item rest ih =>
    obtain ⟨first,hfirst,hreadFirst⟩ := h item List.mem_cons_self
    obtain ⟨others,hothers,hreadOthers⟩ := ih fun other hother => h other (List.mem_cons_of_mem _ hother)
    have hwrite : stringifyItems byteOf (item::rest) = .ok (first::others) := by
      rw [stringifyItems,hfirst,hothers]
      rfl
    have hread : reviveItems byteOf (first::others) = .ok (item::rest) := by
      rw [reviveItems,hreadFirst,hreadOthers]
      rfl
    exact ⟨first::others,hwrite,hread⟩

theorem carried_members {members : List (JsString × Value)} (h : ∀ m ∈ members, Carried byteOf m.2) :
    ∃ written, stringifyMembers byteOf members = .ok written ∧ reviveMembers byteOf written = .ok members := by
  induction members with
  | nil => exact ⟨[],rfl,rfl⟩
  | cons m rest ih =>
    obtain ⟨first,hfirst,hreadFirst⟩ := h m List.mem_cons_self
    obtain ⟨others,hothers,hreadOthers⟩ := ih fun other hother => h other (List.mem_cons_of_mem _ hother)
    have hwrite : stringifyMembers byteOf (m::rest) = .ok ((m.1,first)::others) := by
      rw [stringifyMembers,hfirst,hothers]
      rfl
    have hread : reviveMembers byteOf ((m.1,first)::others) = .ok (m::rest) := by
      rw [reviveMembers,hreadFirst,hreadOthers]
      rfl
    exact ⟨(m.1,first)::others,hwrite,hread⟩

/-- An object that is no written byte array keeps its members. -/
theorem bufferData_eq_none {members : List (JsString × Value)} (h : looksWritten members = false) :
    bufferData byteOf members = none := by
  have htype : hasText "type" "Buffer" members = false := (Bool.or_eq_false_iff.mp h).1
  rw [bufferData,htype,if_neg Bool.false_ne_true]

/-- A plain value is carried through a persistent store. -/
theorem Plain.carried {value : Value} (h : Plain value) : Carried byteOf value := by
  induction h with
  | null => exact ⟨.null,rfl,rfl⟩
  | bool b => exact ⟨.bool b,rfl,rfl⟩
  | number x hfinite hzero =>
    have hwrite : stringify byteOf (.number x) = .ok (some (.number x)) := by
      rw [stringify,if_pos hfinite,if_neg hzero]
    exact ⟨.number x,hwrite,rfl⟩
  | string text => exact ⟨.string text,rfl,rfl⟩
  | bytes data => exact carried_bytes byteOf data
  | array items _ ih =>
    obtain ⟨written,hwrite,hread⟩ := carried_items byteOf ih
    have hwhole : stringify byteOf (.array items) = .ok (some (.array written)) := by
      rw [stringify,hwrite]
      rfl
    have hback : revive byteOf (.array written) = .ok (.array items) := by
      rw [revive,hread]
      rfl
    exact ⟨.array written,hwhole,hback⟩
  | object members _ hwritten ih =>
    obtain ⟨written,hwrite,hread⟩ := carried_members byteOf ih
    have hwhole : stringify byteOf (.object members) = .ok (some (.object written)) := by
      rw [stringify,bufferData_eq_none byteOf hwritten,hwrite]
      rfl
    have hback : revive byteOf (.object written) = .ok (.object members) := by
      rw [revive,hread]
      change (if looksWritten members then _ else _) = _
      rw [hwritten]
      rfl
    exact ⟨.object written,hwhole,hback⟩

end Persistence

end Baileyrs.LegacyValues
