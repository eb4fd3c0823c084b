import Baileyrs.ProtoHeap

/-!
# Message trees

What the encoder's passes compute, without the heap: a pass returns the
changed tree, or nothing when it leaves the tree as it is. A message tree is
an object whose message-typed fields hold message trees and whose collections
have their shapes; what its other values are is left to a parameter.
-/

namespace Baileyrs.ProtoRuntime

open JsString

/-- Value of an item that is not an object. -/
def Item.value : Item → Value
  | .undefined => .undefined
  | .null => .null
  | .bool b => .bool b
  | .number x => .number x
  | .bigint n => .bigint n
  | .string text => .string text
  | .symbol => .symbol
  | .function length => .function length
  | .reference _ => .undefined

namespace Value

/-- Assign a property. -/
def setMember (name : JsString) (value : Value) : Value → Value
  | .object prototype members => .object prototype (InsertionMap.put members name value)
  | other => other

/-- Remove a property. -/
def deleteMember (name : JsString) : Value → Value
  | .object prototype members => .object prototype (members.filter fun member => member.1 ≠ name)
  | other => other

/-- Assign an element. -/
def setIndex (index : ℕ) (value : Value) : Value → Value
  | .array items => .array (items.set index value)
  | other => other

end Value

/-- Write a changed value into a copy. -/
def putChanged (copy : Value) (write : Value → Value → Value) (output changed : Option Value) :
    Option Value :=
  match changed with
  | some value => some (write value (output.getD copy))
  | none => output

/-- Change elements one after the other, in a copy if one of them changes. -/
def changeEach {κ : Type} (copy : Value) (write : κ → Value → Value → Value)
    (change : Value → Option Value) (elements : List (κ × Value)) : Option Value :=
  elements.foldl (fun output element => putChanged copy (write element.1) output (change element.2)) none

/-- Change what a field holds. -/
def changeField (change : Value → Option Value) (field : ProtoField) (current : Value) : Option Value :=
  if field.isRepeated then
    match current with
    | .array items => changeEach current Value.setIndex change (items.zipIdx.map fun item => (item.2,item.1))
    | _ => none
  else if field.isMap then
    match current with
    | .object _ entries => changeEach (.object .plain entries) Value.setMember change entries
    | _ => none
  else change current

section Passes

variable (schemas : Schemas)

/-- Change what an object holds under a name, in a copy of the object. -/
def changeMember (change : Value → Option Value) (copy : Value) (field : ProtoField) (name : JsString)
    (output : Option Value) (current : Value) : Option Value :=
  if current.isNullish then output
  else putChanged copy (Value.setMember name) output (changeField change field current)

/-- A plain copy of an instance. -/
def copyInstanceTree (prototype : Prototype) (members : Members) : Option Value :=
  match prototype with
  | .message _ => some (.object .plain members)
  | _ => none

/-- The own aliased field moved to its bridge name. -/
def renameTree (members : Members) (names : Option (JsString × JsString)) (output : Option Value) :
    Option Value :=
  match names with
  | none => output
  | some names =>
    match InsertionMap.find members names.1 with
    | none => output
    | some value =>
      some ((Value.setMember names.2 value (output.getD (.object .plain members))).deleteMember names.1)

/-- The projection of a tree. -/
def projectTree : ℕ → ℕ → Value → Option Value
  | fuel+1,schemaId,.object prototype members =>
    (schemas.messageFields schemaId).foldl (fun output field =>
      match InsertionMap.find members field.name with
      | none => output
      | some nested => changeMember (projectTree fuel field.reference) (.object .plain members) field
          field.name output nested)
      (renameTree members (schemas.aliasFor schemaId) (copyInstanceTree prototype members))
  | _,_,_ => none

/-- What one field of the members does to the rewritten tree. -/
def projectStep (fuel : ℕ) (members : Members) (output : Option Value) (field : ProtoField) : Option Value :=
  match InsertionMap.find members field.name with
  | none => output
  | some nested => changeMember (projectTree schemas fuel field.reference) (.object .plain members) field
      field.name output nested

/-- What an aliased field moves, with its message rewritten too. -/
def aliasValue (project : ℕ → Value → Option Value) (fields : List ProtoField) (name : JsString)
    (moved : Value) : Value :=
  match fields.find? fun field => field.name = name with
  | some field => if moved.isNullish then moved else (project field.reference moved).getD moved
  | none => moved

/-- The aliased field of a tree under its bridge name. -/
def moveAliasTree (project : ℕ → Value → Option Value) (fields : List ProtoField) (members : Members)
    (names : Option (JsString × JsString)) : Option Value :=
  match names with
  | none => none
  | some names =>
    match InsertionMap.find members names.1 with
    | none => none
    | some moved =>
      some ((Value.setMember names.2 (aliasValue project fields names.1 moved)
        (.object .plain members)).deleteMember names.1)

/-- The names of the bridge for a tree. -/
def aliasTree : ℕ → ℕ → Value → Option Value
  | fuel+1,schemaId,.object _ members =>
    let fields := schemas.messageFields schemaId
    let names := schemas.aliasFor schemaId
    members.foldl (fun output member =>
      if names.any fun names => member.1 = names.1 then output
      else
        match fields.find? fun field => field.name = member.1 with
        | none => output
        | some field => changeMember (aliasTree fuel field.reference) (.object .plain members) field member.1
            output member.2)
      (moveAliasTree (aliasTree fuel) fields members names)
  | _,_,_ => none

/-- What one of the members does to the tree with the names of the bridge. -/
def aliasStep (fuel schemaId : ℕ) (members : Members) (output : Option Value) (member : JsString × Value) : Option Value :=
  if (schemas.aliasFor schemaId).any fun names => member.1 = names.1 then output
  else
    match (schemas.messageFields schemaId).find? fun field => field.name = member.1 with
    | none => output
    | some field => changeMember (aliasTree schemas fuel field.reference) (.object .plain members) field member.1
        output member.2

/-- A scalar put back, if it changes. -/
def repairValue (item : Item) (repaired : Item) : Option Value :=
  if repaired.differs item then some repaired.value else none

/-- A value of a field put back, if it changes. -/
def repairTreeItem (repair : ℕ → Value → Option Value) (field : ProtoField) (value : Value) : Option Value :=
  match field.kind with
  | .message => repair field.reference value
  | .enum =>
    match value with
    | .string name => (schemas.enumValueFor field.reference name).map fun i => Value.number (.ofInt i)
    | .number x => repairValue (.number x) (.number x)
    | _ => none
  | kind =>
    match value with
    | .string text => repairValue (.string text) (repairScalar kind (.string text))
    | .number x => repairValue (.number x) (.number x)
    | _ => none

/-- Property of a field, under the name it has. -/
def treeKey (members : Members) (field : ProtoField) (names : Option (JsString × JsString)) :
    Option (JsString × Value) :=
  match InsertionMap.find members field.name with
  | some value => some (field.name,value)
  | none =>
    match names with
    | some names =>
      if names.1 = field.name then (InsertionMap.find members names.2).map fun value => (names.2,value) else none
    | none => none

/-- The repair of a tree. -/
def repairTree : ℕ → ℕ → Value → Option Value
  | fuel+1,schemaId,.object _ members =>
    (schemas.fieldsOf schemaId).foldl (fun output field =>
      match treeKey members field (schemas.aliasFor schemaId) with
      | none => output
      | some held => changeMember (repairTreeItem schemas (repairTree fuel) field) (.object .plain members)
          field held.1 output held.2) none
  | _,_,_ => none

/-- What one field of the members does to the repaired tree. -/
def repairStep (fuel schemaId : ℕ) (members : Members) (output : Option Value) (field : ProtoField) : Option Value :=
  match treeKey members field (schemas.aliasFor schemaId) with
  | none => output
  | some held => changeMember (repairTreeItem schemas (repairTree schemas fuel) field) (.object .plain members)
      field held.1 output held.2

end Passes

/-- The values a field holds. -/
def fieldItems (field : ProtoField) (value : Value) : List Value :=
  if value.isNullish then []
  else if field.isRepeated then
    match value with
    | .array items => items
    | _ => []
  else if field.isMap then
    match value with
    | .object _ entries => entries.map Prod.snd
    | _ => []
  else [value]

/-- A repeated field holds an array, and a map field an object of its own. -/
def HasShape (field : ProtoField) (value : Value) : Prop :=
  value.isNullish = true ∨
    (field.isRepeated = true → ∃ items, value = .array items) ∧
      (field.isMap = true → ∃ prototype entries, value = .object prototype entries ∧
        (∀ id, prototype ≠ .message id) ∧ (entries.map Prod.fst).Nodup)

/-- Which names of a field are looked at. -/
abbrev FieldNames := Option (JsString × JsString) → ProtoField → List JsString

/-- The name of a field that the bridge codec reads. -/
def bridgeName (names : Option (JsString × JsString)) (field : ProtoField) : JsString :=
  match names with
  | some names => if names.1 = field.name then names.2 else field.name
  | none => field.name

/-- The bridge's name only. -/
def bridgeNames : FieldNames := fun names field => [bridgeName names field]

/-- An object with each key once, whose fields have their shapes, whose messages are message trees
and whose other values are acceptable. -/
inductive MessageTree (schemas : Schemas) (names : FieldNames) (accepts : ProtoField → Value → Prop) :
    ℕ → Value → Prop where
  | object (schemaId : ℕ) (prototype : Prototype) (members : Members)
    (distinct : (members.map Prod.fst).Nodup)
    (shapes : ∀ field ∈ schemas.fieldsOf schemaId, ∀ name ∈ names (schemas.aliasFor schemaId) field,
      ∀ value, InsertionMap.find members name = some value → HasShape field value)
    (scalars : ∀ field ∈ schemas.fieldsOf schemaId, field.kind ≠ .message →
      ∀ name ∈ names (schemas.aliasFor schemaId) field, ∀ value,
        InsertionMap.find members name = some value → ∀ item ∈ fieldItems field value, accepts field item)
    (messages : ∀ field ∈ schemas.fieldsOf schemaId, field.kind = .message →
      ∀ name ∈ names (schemas.aliasFor schemaId) field, ∀ value,
        InsertionMap.find members name = some value →
          ∀ item ∈ fieldItems field value, MessageTree schemas names accepts field.reference item) :
    MessageTree schemas names accepts schemaId (.object prototype members)

/-- The bridge has a codec for every message of the tree. -/
inductive Sourced (schemas : Schemas) (codecs : Codecs) : ℕ → Value → Prop where
  | object (schemaId : ℕ) (prototype : Prototype) (members : Members)
    (sources : ∀ field ∈ schemas.messageFields schemaId, ∀ value,
      InsertionMap.find members field.name = some value → value.isNullish = false →
        codecs.hasSource field.reference = true)
    (messages : ∀ field ∈ schemas.messageFields schemaId, ∀ value,
      InsertionMap.find members field.name = some value → ∀ item ∈ fieldItems field value,
        Sourced schemas codecs field.reference item) :
    Sourced schemas codecs schemaId (.object prototype members)

/-- No object of the tree has an aliased field under its public name. -/
inductive AliasFree (schemas : Schemas) : ℕ → Value → Prop where
  | object (schemaId : ℕ) (prototype : Prototype) (members : Members)
    (absent : ∀ names, schemas.aliasFor schemaId = some names → InsertionMap.find members names.1 = none)
    (messages : ∀ field ∈ schemas.fieldsOf schemaId, field.kind = .message → ∀ value,
      InsertionMap.find members (bridgeName (schemas.aliasFor schemaId) field) = some value →
        ∀ item ∈ fieldItems field value, AliasFree schemas field.reference item) :
    AliasFree schemas schemaId (.object prototype members)

/-- An instance is held under the public name of an aliased message field,
somewhere in the tree. -/
inductive InstanceUnderAlias (schemas : Schemas) : ℕ → Value → Prop where
  | here (schemaId : ℕ) (prototype : Prototype) (members : Members) (names : JsString × JsString)
    (field : ProtoField) (held : schemas.aliasFor schemaId = some names)
    (mem : field ∈ schemas.fieldsOf schemaId) (kind : field.kind = .message) (name : field.name = names.1)
    (other : ℕ) (inner : Members) (value : InsertionMap.find members names.1 = some (.object (.message other) inner)) :
    InstanceUnderAlias schemas schemaId (.object prototype members)
  | under (schemaId : ℕ) (prototype : Prototype) (members : Members) (field : ProtoField)
    (mem : field ∈ schemas.fieldsOf schemaId) (kind : field.kind = .message) (value : Value)
    (held : InsertionMap.find members field.name = some value) (item : Value)
    (hitem : item ∈ fieldItems field value) (nested : InstanceUnderAlias schemas field.reference item) :
    InstanceUnderAlias schemas schemaId (.object prototype members)

/-- A tree is no deeper than a bound. -/
def Within : ℕ → Value → Prop
  | 0,value => value.isObject = false
  | n+1,.array items => ∀ item ∈ items, Within n item
  | n+1,.object _ members => ∀ member ∈ members, Within n member.2
  | _+1,_ => True

end Baileyrs.ProtoRuntime
