import Baileyrs.ProtoWalk

/-!
# Messages on the heap

The encoder's passes over a message copy what they change and share the rest,
so objects have identities here: a message is a reference into a heap of
cells, and a copy is a new cell. The passes write to their own copies only,
which is a property of this code and not of the heap.
-/

namespace Baileyrs.ProtoRuntime

open JsString AtomicStore

/-- A host value; objects are on the heap. -/
inductive Item where
  | undefined
  | null
  | bool (b : Bool)
  | number (x : JsNumber)
  | bigint (n : ℤ)
  | string (text : JsString)
  | symbol
  | function (length : ℕ)
  | reference (address : ℕ)
  deriving DecidableEq

/-- An object. -/
inductive Cell where
  | bytes (data : Bytes)
  | long (value : Long)
  | array (items : List Item)
  | object (prototype : Prototype) (members : List (JsString × Item))
  deriving DecidableEq

/-- Objects by their addresses. -/
abbrev Heap := List Cell

/-- A computation on the heap. -/
abbrev HeapM := StateT Heap (Except ProtoError)

namespace Item

/-- Absent for a message. -/
def isNullish : Item → Bool
  | .undefined => true
  | .null => true
  | _ => false

/-- Not the same value under strict comparison. -/
def differs : Item → Item → Bool
  | .number x,.number y =>
    x.isNaN || y.isNaN || !(x = y || ([.zero,.negativeZero].contains x && [.zero,.negativeZero].contains y))
  | x,y => x ≠ y

end Item

namespace Cell

/-- Own properties by which an object is enumerated. -/
def members : Cell → List (JsString × Item)
  | .bytes data => data.zipIdx.map fun item => (natText item.2,.number (.ofInt item.1.toNat))
  | .long value => [(ofString "low",.number (.ofInt value.low.toInt32.toInt)),
      (ofString "high",.number (.ofInt value.high.toInt32.toInt)),(ofString "unsigned",.bool value.unsigned)]
  | .array items => items.zipIdx.map fun item => (natText item.2,item.1)
  | .object _ members => members

/-- Own property of an object. -/
def own (cell : Cell) (name : JsString) : Option Item :=
  match cell with
  | .array items =>
    if name = ofString "length" then some (.number (.ofInt items.length)) else InsertionMap.find cell.members name
  | cell => InsertionMap.find cell.members name

/-- An instance of a schema. -/
def isInstance : Cell → Bool
  | .object (.message _) _ => true
  | _ => false

/-- Assign a property. -/
def setMember (name : JsString) (item : Item) : Cell → Cell
  | .object prototype members => .object prototype (InsertionMap.put members name item)
  | cell => cell

/-- Remove a property. -/
def deleteMember (name : JsString) : Cell → Cell
  | .object prototype members => .object prototype (members.filter fun member => member.1 ≠ name)
  | cell => cell

/-- Assign an element. -/
def setIndex (index : ℕ) (item : Item) : Cell → Cell
  | .array items => .array (items.set index item)
  | cell => cell

end Cell

/-- Object of a reference; every reference has one. -/
def cellAt (heap : Heap) (address : ℕ) : Cell := heap[address]?.getD (.object .bare [])

/-- Read an object. -/
def readCell (address : ℕ) : HeapM Cell := fun heap => .ok (cellAt heap address,heap)

/-- Make an object. -/
def allocate (cell : Cell) : HeapM ℕ := fun heap => .ok (heap.length,heap++[cell])

/-- Write to an object. -/
def modifyCell (address : ℕ) (f : Cell → Cell) : HeapM Unit :=
  fun heap => .ok ((),heap.set address (f (cellAt heap address)))

/-- A plain object with the own properties of an object. -/
def copyObject (cell : Cell) : HeapM ℕ := allocate (.object .plain cell.members)

/-- What the encoder knows of its environment. -/
structure Codecs where
  /-- The bridge has a codec for the schema. -/
  hasSource : ℕ → Bool
  /-- Enumerable properties of the prototype of the schema's instances. -/
  prototypeMembers : ℕ → List (JsString × Item)

/-- Properties a loop over the names of an object visits: its own, then those it inherits. -/
def Codecs.enumerable (codecs : Codecs) (cell : Cell) : List (JsString × Item) :=
  match cell with
  | .object (.message schemaId) members =>
    members++(codecs.prototypeMembers schemaId).filter fun member => (InsertionMap.find members member.1).isNone
  | cell => cell.members

/-- The address of a copy, made by the first write. -/
def copyOnce (copy : HeapM ℕ) : Option ℕ → HeapM ℕ
  | some address => pure address
  | none => copy

/-- Write a value that differs into a copy. -/
def putConverted (copy : HeapM ℕ) (write : Item → Cell → Cell) (output : Option ℕ)
    (current converted : Item) : HeapM (Option ℕ) :=
  if converted.differs current then do
    let address ← copyOnce copy output
    modifyCell address (write converted)
    return some address
  else return output

/-- Convert elements one after the other, into a copy if one of them changes. -/
def convertEach {κ : Type} (copy : HeapM ℕ) (write : κ → Item → Cell → Cell)
    (convert : Item → HeapM Item) (elements : List (κ × Item)) : HeapM (Option ℕ) :=
  elements.foldlM (fun output element => do
    let converted ← convert element.2
    putConverted copy (write element.1) output element.2 converted) none

section Passes

variable (schemas : Schemas) (codecs : Codecs) (walk : Walk)

/-- Convert what a field holds. -/
def convertField (convert : Item → HeapM Item) (field : ProtoField) (current : Item) : HeapM Item :=
  if field.isRepeated then
    match current with
    | .reference address => do
      let cell ← readCell address
      match cell with
      | .array items => do
        let output ← convertEach (allocate cell) Cell.setIndex convert
          (items.zipIdx.map fun item => (item.2,item.1))
        return output.elim current Item.reference
      | _ => return current
    | _ => return current
  else if field.isMap then
    match current with
    | .reference address => do
      let cell ← readCell address
      let output ← convertEach (copyObject cell) Cell.setMember convert (codecs.enumerable cell)
      return output.elim current Item.reference
    | _ => return current
  else convert current

/-- Positions a walk visits over the fields of an object. -/
def Walk.overCell (cell : Cell) (positions : List (JsString × ℕ)) (candidates : ℕ) : List ℕ :=
  match cell with
  | .object prototype members =>
    walk.positions (ownFieldPositions prototype (members.map Prod.fst) positions candidates true) candidates
  | _ => List.range candidates

/-- Move an own aliased field to its bridge name. -/
def renameAlias (cell : Cell) (names : Option (JsString × JsString)) (output : Option ℕ) :
    HeapM (Option ℕ) :=
  match names with
  | none => return output
  | some names =>
    match cell.own names.1 with
    | none => return output
    | some item => do
      let address ← copyOnce (copyObject cell) output
      modifyCell address (Cell.setMember names.2 item)
      modifyCell address (Cell.deleteMember names.1)
      return some address

/-- Convert what an object holds under a name, into a copy of the object. -/
def convertMember (convert : Item → HeapM Item) (cell : Cell) (field : ProtoField) (name : JsString)
    (output : Option ℕ) (current : Item) : HeapM (Option ℕ) := do
  let converted ← convertField codecs convert field current
  putConverted (copyObject cell) (Cell.setMember name) output current converted

/-- An instance is copied to a plain object. -/
def copyInstance (cell : Cell) : HeapM (Option ℕ) :=
  if cell.isInstance then some <$> copyObject cell else return none

/-- Project what an object holds for a message-typed field. -/
def projectMember (requireCodecs : Bool) (project : ℕ → Item → HeapM Item) (cell : Cell)
    (output : Option ℕ) (field : ProtoField) : HeapM (Option ℕ) :=
  match cell.own field.name with
  | none => return output
  | some nested =>
    if nested.isNullish then return output
    else if requireCodecs ∧ ¬codecs.hasSource field.reference then
      throw (.error ("protobuf codec unavailable for "++schemas.pathOf field.reference))
    else convertMember codecs (project field.reference) cell field field.name output nested

/-- A step for the element at a position. -/
def stepAt {α β : Type} (step : β → α → HeapM β) (items : List α) (state : β) (position : ℕ) : HeapM β :=
  match items[position]? with
  | none => return state
  | some item => step state item

/-- A message under the names of the bridge, with plain objects for instances. -/
def projectForEncode (requireCodecs : Bool) : ℕ → ℕ → Item → HeapM Item
  | 0,_,_ => throw stackExhausted
  | fuel+1,schemaId,.reference address => do
    let cell ← readCell address
    let output ← copyInstance cell
    let output ← renameAlias cell (schemas.aliasFor schemaId) output
    let fields := schemas.messageFields schemaId
    let positions := walk.overCell cell (schemas.messageFieldPositionsOf schemaId) fields.length
    let output ← positions.foldlM
      (stepAt (projectMember schemas codecs requireCodecs (projectForEncode requireCodecs fuel) cell) fields) output
    return output.elim (.reference address) Item.reference
  | _+1,_,value => return value

/-- What an aliased field moves, with its message rewritten too. -/
def aliasItem (project : ℕ → Item → HeapM Item) (fields : List ProtoField) (name : JsString) (moved : Item) :
    HeapM Item :=
  match fields.find? fun field => field.name = name with
  | some field => if moved.isNullish then return moved else project field.reference moved
  | none => return moved

/-- The aliased field of a message under its bridge name. -/
def moveAlias (project : ℕ → Item → HeapM Item) (fields : List ProtoField) (cell : Cell)
    (names : Option (JsString × JsString)) : HeapM (Option ℕ) :=
  match names with
  | none => return none
  | some names =>
    match cell.own names.1 with
    | none => return none
    | some moved => do
      let address ← copyObject cell
      let item ← aliasItem project fields names.1 moved
      modifyCell address (Cell.setMember names.2 item)
      modifyCell address (Cell.deleteMember names.1)
      return some address

/-- Rewrite an own property of a message. -/
def aliasMember (project : ℕ → Item → HeapM Item) (fields : List ProtoField) (cell : Cell)
    (names : Option (JsString × JsString)) (output : Option ℕ) (member : JsString × Item) : HeapM (Option ℕ) :=
  if names.any fun names => member.1 = names.1 then return output
  else
    match fields.find? fun field => field.name = member.1 with
    | none => return output
    | some field =>
      if member.2.isNullish then return output
      else convertMember codecs (project field.reference) cell field member.1 output member.2

/-- A message under the names of the bridge. -/
def projectAliases : ℕ → ℕ → Item → HeapM Item
  | 0,_,_ => throw stackExhausted
  | fuel+1,schemaId,.reference address => do
    let cell ← readCell address
    let fields := schemas.messageFields schemaId
    let names := schemas.aliasFor schemaId
    let output ← moveAlias (projectAliases fuel) fields cell names
    let output ← cell.members.foldlM (aliasMember codecs (projectAliases fuel) fields cell names) output
    return output.elim (.reference address) Item.reference
  | _+1,_,value => return value

/-- Text with every unpaired surrogate replaced. -/
def replaceUnpaired : JsString → JsString
  | [] => []
  | [u] => [if isSurrogate u then replacement else u]
  | u::v::rest =>
    if isHigh u && isLow v then u::v::replaceUnpaired rest
    else (if isSurrogate u then replacement else u)::replaceUnpaired (v::rest)

/-- What the codec used to do with an empty 64-bit text or an unpaired surrogate. -/
def repairScalar (kind : FieldKind) (item : Item) : Item :=
  match item with
  | .string text =>
    match kind with
    | .signed64 => if text = [] then .number .zero else item
    | .unsigned64 => if text = [] then .number .zero else item
    | .string => .string (replaceUnpaired text)
    | _ => item
  | item => item

/-- Repair a value of a field. -/
def repairItem (repair : ℕ → Item → HeapM Item) (field : ProtoField) (item : Item) : HeapM Item :=
  match field.kind with
  | .message => repair field.reference item
  | .enum =>
    match item with
    | .string name =>
      return ((schemas.enumValueFor field.reference name).map fun i => Item.number (.ofInt i)).getD item
    | item => return item
  | kind => return repairScalar kind item

/-- Own property of a field, under the name it has. -/
def fieldKey (cell : Cell) (field : ProtoField) (names : Option (JsString × JsString)) :
    Option (JsString × Item) :=
  match cell.own field.name with
  | some item => some (field.name,item)
  | none =>
    match names with
    | some names => if names.1 = field.name then (cell.own names.2).map fun item => (names.2,item) else none
    | none => none

/-- Repair what an object holds for a field. -/
def repairMember (repair : ℕ → Item → HeapM Item) (names : Option (JsString × JsString)) (cell : Cell)
    (output : Option ℕ) (field : ProtoField) : HeapM (Option ℕ) :=
  match fieldKey cell field names with
  | none => return output
  | some held =>
    if held.2.isNullish then return output
    else convertMember codecs (repairItem schemas repair field) cell field held.1 output held.2

/-- A message with the values that the codec refuses put back. -/
def repairMessage : ℕ → List ℕ → ℕ → Item → HeapM Item
  | 0,_,_,_ => throw stackExhausted
  | fuel+1,seen,schemaId,.reference address =>
    if seen.contains address then return .reference address
    else do
      let cell ← readCell address
      let output ← (schemas.fieldsOf schemaId).foldlM
        (repairMember schemas codecs (repairMessage fuel (address::seen)) (schemas.aliasFor schemaId) cell) none
      return output.elim (.reference address) Item.reference
  | _+1,_,_,value => return value

/-- Schema of a message type. -/
def schemaIdFor (path : String) : Option ℕ :=
  (schemas.messages.zipIdx.reverse.find? fun schema => schema.1.path = path).map Prod.snd

/-- The projection by type name. -/
def projectProtoMessage (fuel : ℕ) (path : String) (message : Item) : HeapM Item :=
  match schemaIdFor schemas path with
  | some schemaId => projectAliases schemas codecs fuel schemaId message
  | none => return message

/-- The repair by type name. -/
def repairProtoMessage (fuel : ℕ) (path : String) (message : Item) : HeapM Item :=
  match schemaIdFor schemas path with
  | some schemaId => repairMessage schemas codecs fuel [] schemaId message
  | none => return message

/-- Encode by type name, and again after a repair of the caller's message. -/
def encodeProtoCompat (encode : String → Item → HeapM Bytes) (fuel : ℕ) (path : String) (message : Item) :
    HeapM Bytes := do
  let projected ← projectProtoMessage schemas codecs fuel path message
  try encode path projected
  catch error =>
    let repaired ← repairProtoMessage schemas codecs fuel path message
    if repaired.differs message then do
      let retried ← projectProtoMessage schemas codecs fuel path repaired
      encode path retried
    else throw error

/-- Encode by a constructor of the runtime, and again after a repair of the projected message. -/
def encodeMessage (encode : Item → HeapM Bytes) (fuel : ℕ) (schemaId : ℕ) (message : Item) : HeapM Bytes := do
  let projected ← projectForEncode schemas codecs walk true fuel schemaId message
  try encode projected
  catch error =>
    let repaired ← repairMessage schemas codecs fuel [] schemaId projected
    if repaired.differs projected then encode repaired else throw error

end Passes

end Baileyrs.ProtoRuntime
