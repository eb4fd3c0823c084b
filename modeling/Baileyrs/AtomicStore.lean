import Baileyrs.SnapshotRows
import Mathlib.Data.Int.Notation

/-!
# Atomic store callbacks

Three callbacks change several rows as one: a sync patch with its MAC rows, and
the two halves of a TC token row. Each is a program of reads and writes of
rows, executed by whatever transaction the store supplies; the store keeps the
changes only when the program does not throw.
-/

namespace Baileyrs.AtomicStore

open JsString SnapshotRows

/-- What a callback can throw. -/
inductive StoreError where
  | typeError (message : String)
  | rangeError (message : String)
  | syntaxError
  | uriError
  | error (message : String)
  deriving DecidableEq

/-- A bind that succeeds has a first part that does. -/
theorem bind_ok {α β ε : Type} {first : Except ε α} {next : α → Except ε β} {result : β}
    (h : (first >>= next) = .ok result) : ∃ value, first = .ok value ∧ next value = .ok result := by
  cases first with
  | error error => cases h
  | ok value => exact ⟨value,rfl,h⟩

/-- Value of decimal digits. -/
def ofDigits (digits : JsString) : ℕ := digits.foldl (fun n u => n*10+(u.toNat-48)) 0

/-- Decimal digits of a number. -/
def natText (n : ℕ) : JsString := ofString (toString n)

/-- Decimal text of an integer. -/
def intText : ℤ → JsString
  | .ofNat n => natText n
  | .negSucc n => unit '-'::natText (n+1)

/-- Integer of a canonical signed decimal in the range of an i64. -/
def signedTimestamp (value : JsString) : Except StoreError ℤ :=
  let (sign,digits) := Json.readOptional [unit '-'] value
  if digits.all Json.isDigit ∧ digits ≠ [] ∧ (digits.head? = some (unit '0') → digits.length = 1)
  then
    let result : ℤ := if sign = [] then ofDigits digits else -ofDigits digits
    if result < -(2^63) ∨ 2^63 ≤ result then .error (.rangeError "timestamp is outside i64")
    else .ok result
  else .error (.typeError "timestamp must be a signed i64 decimal string")

/-- A TC token row. -/
structure TokenRow where
  /-- Bytes of the token. -/
  token : List ℕ
  /-- When it was received. -/
  token_timestamp : ℤ
  /-- When it was last sent. -/
  sender_timestamp : Option ℤ
  deriving DecidableEq

/-- Match a string token; a backslash takes the next character with it, unless
that ends a line. -/
def matchString : JsString → Option (JsString × JsString)
  | [] => none
  | [u] => if u = Json.quotation then some ([u],[]) else none
  | u::v::rest =>
    if u = Json.quotation then some ([u],v::rest)
    else if u = Json.backslash then
      if v = 10 ∨ v = 13 ∨ v = 8232 ∨ v = 8233 then none
      else (matchString rest).map fun read => (u::v::read.1,read.2)
    else (matchString (v::rest)).map fun read => (u::read.1,read.2)

/-- Match a number token. -/
def matchNumber (text : JsString) : Option (JsString × JsString) := do
  let (sign,tail) := Json.readOptional [unit '-'] text
  let (digits,tail) ← Json.readDigits tail
  let (fraction,tail) := (Json.readPart [unit '.'] [] tail).getD ([],tail)
  let (exponent,tail) :=
    (Json.readPart [unit 'e',unit 'E'] [unit '+',unit '-'] tail).getD ([],tail)
  some (sign++digits++fraction++exponent,tail)

/-- Quote the numbers outside strings; the fuel bounds the number of tokens. -/
def quoteNumbers : ℕ → JsString → JsString
  | 0,text => text
  | _+1,[] => []
  | n+1,u::rest =>
    let copied := u::quoteNumbers n rest
    if u = Json.quotation then
      match matchString rest with
      | some (token,tail) => u::(token++quoteNumbers n tail)
      | none => copied
    else
      match matchNumber (u::rest) with
      | some (token,tail) => Json.quote token++quoteNumbers n tail
      | none => copied

/-- Member of an object by name. -/
def member (name : String) : List (JsString × Json) → Option Json
  | [] => none
  | (other,value)::members => if other = ofString name then some value else member name members

/-- Whether a number literal is an integer from 0 to 255. Literals with a
fraction or an exponent are decided without rounding: the second pass refuses
them whatever this one says. -/
def isByteLiteral (literal : JsString) : Bool :=
  let (sign,tail) := Json.readOptional [unit '-'] literal
  let (digits,tail) := tail.span Json.isDigit
  tail.isEmpty && (if sign = [] then ofDigits digits ≤ 255 else ofDigits digits = 0)

/-- A value is a number in the range of a byte. -/
def isByteNumber : Json → Bool
  | .number literal => isByteLiteral literal
  | _ => false

/-- A value is a number. -/
def isNumber : Json → Bool
  | .number _ => true
  | _ => false

/-- Check the members of a token row before its numbers are quoted. -/
def checkTokenRow : Json → Bool
  | .object members =>
    (match member "token" members with
      | some (.array items) => items.all isByteNumber
      | _ => false) &&
    (member "token_timestamp" members).any isNumber &&
    (match member "sender_timestamp" members with
      | none => true
      | some .null => true
      | some value => isNumber value)
  | _ => false

/-- Byte of a quoted number. -/
def tokenByte : Json → Option ℕ
  | .string text =>
    if text ≠ [] ∧ text.all Json.isDigit ∧ ofDigits text ≤ 255 then some (ofDigits text) else none
  | _ => none

/-- Timestamp of a quoted number. -/
def quotedTimestamp : Option Json → Except StoreError ℤ
  | some (.string text) => signedTimestamp text
  | _ => .error (.typeError "timestamp must be a signed i64 decimal string")

/-- Read the members of a token row whose numbers are quoted. -/
def readTokenRow : Json → Except StoreError TokenRow
  | .object members =>
    match member "token" members with
    | some (.array items) =>
      match items.mapM tokenByte with
      | some token => do
        let token_timestamp ← quotedTimestamp (member "token_timestamp" members)
        let sender_timestamp ← match member "sender_timestamp" members with
          | none => .ok none
          | some .null => .ok none
          | value => (quotedTimestamp value).map some
        .ok ⟨token,token_timestamp,sender_timestamp⟩
      | none => .error (.typeError "invalid TC token row")
    | _ => .error (.typeError "invalid TC token row")
  | _ => .error (.typeError "invalid TC token row")

/-- Read a token row. -/
def decodeTokenRow (bytes : Bytes) : Except StoreError TokenRow :=
  let text := decodeUtf8 bytes
  match Json.parse text with
  | none => .error .syntaxError
  | some original =>
    if checkTokenRow original then
      match Json.parse (quoteNumbers text.length text) with
      | none => .error .syntaxError
      | some row => readTokenRow row
    else .error (.typeError "invalid TC token row")

/-- Text of numbers in an array. -/
def numbersText (numbers : List ℕ) : JsString :=
  Json.stringify (.array (numbers.map fun n => .number (natText n)))

/-- Write a token row. -/
def encodeTokenRow (row : TokenRow) : Bytes :=
  let sender := match row.sender_timestamp with
    | some timestamp => intText timestamp
    | none => ofString "null"
  encodeUtf8 (ofString "\x7b\"token\":"++numbersText row.token++
    ofString ",\"token_timestamp\":"++intText row.token_timestamp++
    ofString ",\"sender_timestamp\":"++sender++ofString "\x7d")

/-- Namespaces whose rows change together. -/
def nativeAtomicNamespaces : List JsString :=
  ["sync_version","mutation_mac","tc_token","meta"].map ofString

/-- One of these namespaces. -/
abbrev AtomicNamespace := {store : JsString // store ∈ nativeAtomicNamespaces}

/-- Namespace of the sync states. -/
def syncVersion : AtomicNamespace := ⟨ofString "sync_version",by decide⟩

/-- Namespace of the MAC rows. -/
def mutationMac : AtomicNamespace := ⟨ofString "mutation_mac",by decide⟩

/-- Namespace of the token rows. -/
def tcToken : AtomicNamespace := ⟨ofString "tc_token",by decide⟩

/-- Namespace of the indexes. -/
def metaRows : AtomicNamespace := ⟨ofString "meta",by decide⟩

/-- A program of reads and writes of rows. -/
inductive RowProgram (R : Type*) where
  | done (result : R)
  | throw (error : StoreError)
  | get (store : AtomicNamespace) (key : JsString) (next : Option Bytes → RowProgram R)
  | set (store : AtomicNamespace) (key : JsString) (value : Bytes) (next : RowProgram R)
  | delete (store : AtomicNamespace) (key : JsString) (next : RowProgram R)

namespace RowProgram

variable {R R' : Type*}

/-- Continue with the result of a program. -/
def bind : RowProgram R → (R → RowProgram R') → RowProgram R'
  | .done result,f => f result
  | .throw error,_ => .throw error
  | .get store key next,f => .get store key fun bytes => (next bytes).bind f
  | .set store key value next,f => .set store key value (next.bind f)
  | .delete store key next,f => .delete store key (next.bind f)

instance : Monad RowProgram where
  pure := .done
  bind := bind

/-- A computation that may throw. -/
def ofExcept : Except StoreError R → RowProgram R
  | .ok result => .done result
  | .error error => .throw error

end RowProgram

/-- What a change reads and writes; reading may throw. -/
structure RowView (S : Type*) where
  /-- Bytes of a row. -/
  get : S → JsString → Except StoreError (Option Bytes)
  /-- Write a row. -/
  set : S → JsString → Bytes → S
  /-- Remove a row. -/
  delete : S → JsString → Except StoreError S

/-- Execute a program over a view. -/
def RowView.run {S R : Type*} (view : RowView S) (s : S) : RowProgram R → Except StoreError (R × S)
  | .done result => .ok (result,s)
  | .throw error => .error error
  | .get store key next =>
    match view.get s (rowKey store key) with
    | .ok bytes => view.run s (next bytes)
    | .error error => .error error
  | .set store key value next => view.run (view.set s (rowKey store key) value) next
  | .delete store key next =>
    match view.delete s (rowKey store key) with
    | .ok s => view.run s next
    | .error error => .error error

/-- The rows themselves as a view. -/
def rowsView : RowView (AtomicRows Bytes) where
  get rows key := .ok (rows.get key)
  set rows key value := rows.set key value
  delete rows key := .ok (rows.delete key)

/-- Read the bytes of a row. -/
def getRow (store : AtomicNamespace) (key : JsString) : RowProgram (Option Bytes) :=
  .get store key .done

/-- Write a row. -/
def setRow (store : AtomicNamespace) (key : JsString) (value : Bytes) : RowProgram Unit :=
  .set store key value (.done ())

/-- Remove a row. -/
def deleteRow (store : AtomicNamespace) (key : JsString) : RowProgram Unit :=
  .delete store key (.done ())

/-- Text of an index of strings. -/
def encodeIndex (index : InsertionMap JsString Unit) : Bytes :=
  encodeUtf8 (Json.stringify (.array (index.keys.map .string)))

/-- Text of a value that is a string. -/
def stringItem : Json → Option JsString
  | .string text => some text
  | _ => none

/-- Set of strings listed in an index row. -/
def readIndex (key : String) : RowProgram (InsertionMap JsString Unit) := do
  let bytes ← getRow metaRows (ofString key)
  match bytes with
  | none => pure InsertionMap.empty
  | some bytes =>
    match Json.parse (decodeUtf8 bytes) with
    | none => .throw .syntaxError
    | some (.array items) =>
      match items.mapM stringItem with
      | some texts => pure (texts.foldl (fun index text => index.set text ()) InsertionMap.empty)
      | none => .throw (.typeError ("invalid "++key++" index"))
    | some _ => .throw (.typeError ("invalid "++key++" index"))

/-- Change of a sync patch. -/
def commitPatch (name : JsString) (state : Bytes) (removed : List JsString)
    (added : List (JsString × Bytes)) (maintainIndex : Bool) : RowProgram Unit := do
  removed.forM fun key => deleteRow mutationMac key
  added.forM fun pair => setRow mutationMac pair.1 pair.2
  setRow syncVersion name state
  if maintainIndex then
    let index ← readIndex "mutation_mac_keys"
    let index := removed.foldl (fun index key => index.delete key) index
    let index := added.foldl (fun index pair => index.set pair.1 ()) index
    setRow metaRows (ofString "mutation_mac_keys") (encodeIndex index)

/-- Row of a token, or an empty one. -/
def tokenRow (jid : JsString) (incoming : ℤ) : RowProgram TokenRow := do
  let bytes ← getRow tcToken jid
  match bytes with
  | some bytes => .ofExcept (decodeTokenRow bytes)
  | none => pure ⟨[],incoming,none⟩

/-- Write a token row and list its jid in the index. -/
def storeTokenRow (jid : JsString) (row : TokenRow) : RowProgram Unit := do
  setRow tcToken jid (encodeTokenRow row)
  let index ← readIndex "tc_token_jids"
  setRow metaRows (ofString "tc_token_jids") (encodeIndex (index.set jid ()))

/-- Change of a sent token; the timestamp was checked before. -/
def touchTcTokenSenderTimestamp (jid : JsString) (incoming : ℤ) : RowProgram Unit := do
  let row ← tokenRow jid incoming
  let sent := match row.sender_timestamp with
    | none => incoming
    | some timestamp => if timestamp < incoming then incoming else timestamp
  storeTokenRow jid {row with sender_timestamp := some sent}

/-- Change of a received token; the timestamp was checked before. -/
def storeReceivedTcToken (jid : JsString) (token : Bytes) (incoming : ℤ) : RowProgram Unit := do
  let row ← tokenRow jid incoming
  if row.token.length = 0 ∨ row.token_timestamp ≤ incoming then
    storeTokenRow jid {row with token := token.map UInt8.toNat, token_timestamp := incoming}
  else storeTokenRow jid row

end Baileyrs.AtomicStore
