import Baileyrs.JsNumberSums
import Baileyrs.ObjectHeap
import Mathlib.Data.List.Infix

/-!
# Contents of forwarded messages

A message is forwarded with its content copied and marked. The content is unwrapped first,
through a few layers at most. The mark is put on the first of its fields, which is the
field that names the content only where no other one stands before it.
-/

namespace Baileyrs.ForwardedContent

open JsString JsNumber ObjectHeap AtomicStore

section Model

/-- A value that is no object. -/
inductive Primitive where
  | undefined
  | null
  | bool (b : Bool)
  | number (x : JsNumber)
  | bigint (n : ℤ)
  | text (t : JsString)
  deriving DecidableEq

/-- A value. -/
abbrev Item := Slot Primitive

/-- Objects with texts as keys. -/
abbrev Objects := Heap JsString Primitive

/-- Members of an object. -/
abbrev Members := InsertionMap JsString Item

/-- The absent value. -/
def absent : Item := .leaf .undefined

/-- What counts as true. -/
def truthy : Item → Bool
  | .leaf .undefined => false
  | .leaf .null => false
  | .leaf (.bool b) => b
  | .leaf (.number x) => !(x.isNaN || x = zero || x = negativeZero)
  | .leaf (.bigint n) => n ≠ 0
  | .leaf (.text t) => t ≠ []
  | .ref _ => true

/-- Neither null nor undefined. -/
def isNullish (item : Item) : Bool := item = .leaf .undefined || item = .leaf .null

/-- Read a property; what is no object has none of those that are read here. -/
def read (heap : Objects) (item : Item) (name : String) : Item := (own heap item (ofString name)).getD absent

/-- Own properties that a spread copies. -/
def ownMembers (heap : Objects) : Item → Members
  | .ref address => (heap[address]?.map Object.members).getD .empty
  | .leaf (.text t) => t.zipIdx.foldl (fun members u => members.set (natText u.2) (.leaf (.text [u.1]))) .empty
  | .leaf _ => .empty

/-- Names of contents that most messages have. -/
def commonContentKeys : List String :=
  ["conversation","extendedTextMessage","imageMessage","videoMessage","audioMessage","stickerMessage",
    "documentMessage","reactionMessage","protocolMessage","pollCreationMessage"]

/-- A common name of a content. -/
def isCommonContentKey (key : JsString) : Bool := commonContentKeys.any fun name => ofString name = key

/-- A name of a content. -/
def isContentKey (key : JsString) : Bool :=
  isCommonContentKey key || (ofString "Message" <:+: key && key ≠ ofString "senderKeyDistributionMessage")

/-- The first key that names the content. -/
def getContentType (heap : Objects) (content : Item) : Option JsString :=
  if truthy content then (ownMembers heap content).keys.find? isContentKey else none

/-- Names of the wrappers of a message. -/
def futureProofKeys : List String :=
  ["ephemeralMessage","viewOnceMessage","documentWithCaptionMessage","viewOnceMessageV2",
    "viewOnceMessageV2Extension","editedMessage","associatedChildMessage","groupStatusMessage",
    "groupStatusMessageV2"]

/-- The wrapper of a message. -/
def getFutureProofMessage (heap : Objects) (message : Item) : Option Item :=
  (futureProofKeys.map fun name => read heap message name).find? truthy

/-- Take some layers off a message. -/
def unwrap (heap : Objects) : ℕ → Item → Item
  | 0,content => content
  | layers+1,content =>
    match getFutureProofMessage heap content with
    | none => content
    | some inner => unwrap heap layers (read heap inner "message")

/-- The content within its wrappers. -/
def normalizeMessageContent (heap : Objects) (content : Item) : Item :=
  if truthy content then unwrap heap 5 content else absent

/-- Why nothing is forwarded. -/
inductive Thrown where
  /-- The message has no content. -/
  | noContent
  /-- A property of what has none. -/
  | typeError

/-- A score, or zero for what counts as false; a score is declared as a number. -/
def scoreOf : Item → JsNumber
  | .leaf (.number x) => if truthy (.leaf (.number x)) then x else zero
  | _ => zero

/-- Number one. -/
def one : JsNumber := ofInt 1

/-- Members of the mark. -/
def forwardingMembers (score : JsNumber) : Members :=
  if score.isPositive then
    (InsertionMap.empty.set (ofString "forwardingScore") (.leaf (.number score))).set (ofString "isForwarded") (.leaf (.bool true))
  else .empty

/-- Objects that are copied for the mark. -/
def isCopied (kind : Kind) : Bool := kind ≠ .array && kind ≠ .function

/-- Put the mark on the first field of the content. -/
def markFirst (heap : Objects) (content contextInfo : ℕ) (key : Option JsString) (nested : Item) : Except Thrown (ℕ × Objects) :=
  if key = some (ofString "conversation") then
    let (extended,heap) := allocate heap
      ⟨.plain,(InsertionMap.empty.set (ofString "text") nested).set (ofString "contextInfo") (.ref contextInfo)⟩
    .ok (content,update heap content fun object =>
      (object.assign (ofString "extendedTextMessage") (.ref extended)).remove (ofString "conversation"))
  else
    match key,nested with
    | some key,.ref address =>
      match heap[address]? with
      | some object =>
        if isCopied object.kind then
          let (copy,heap) := allocate heap ⟨.plain,object.members.set (ofString "contextInfo") (.ref contextInfo)⟩
          .ok (content,update heap content fun object => object.assign key (.ref copy))
        else .ok (content,update heap address fun object => object.assign (ofString "contextInfo") (.ref contextInfo))
      | none => .error .typeError
    | _,_ => .error .typeError

/-- The content of a message, marked as forwarded. -/
def generateForwardMessageContent (heap : Objects) (message : ℕ) (forceForward : Bool) : Except Thrown (ℕ × Objects) :=
  if !truthy (read heap (.ref message) "message") then .error .noContent
  else
    let members := ownMembers heap (normalizeMessageContent heap (read heap (.ref message) "message"))
    let (content,copied) := allocate heap ⟨.plain,members⟩
    let key := members.keys.head?
    let nested := (key.bind members.get).getD absent
    let messageKey := read heap (.ref message) "key"
    if isNullish messageKey then .error .typeError
    else
      let score := (scoreOf (read heap (read heap nested "contextInfo") "forwardingScore")).add
        (if truthy (read heap messageKey "fromMe") && !forceForward then zero else one)
      let (contextInfo,marked) := allocate copied ⟨.plain,forwardingMembers score⟩
      markFirst marked content contextInfo key nested

/-- Objects of a caller. -/
structure Caller where
  /-- The objects. -/
  heap : Objects
  /-- What is held exists. -/
  closed : Closed heap
  /-- A score is a number, null or absent. -/
  scored : ∀ object ∈ heap, ∀ item, object.members.get (ofString "forwardingScore") = some item →
    isNullish item = true ∨ ∃ x, item = .leaf (.number x)

end Model

section Marks

/-- A message whose content can be forwarded. -/
structure Forwardable (heap : Objects) (message content : ℕ) (members : Members) (field : JsString) (item : Item) : Prop where
  /-- It has a content. -/
  present : truthy (read heap (.ref message) "message") = true
  /-- It has a key. -/
  keyed : isNullish (read heap (.ref message) "key") = false
  /-- The content within its wrappers. -/
  normalized : normalizeMessageContent heap (read heap (.ref message) "message") = .ref content
  /-- The content is a plain object. -/
  plain : heap[content]? = some ⟨.plain,members⟩
  /-- The field that names the content. -/
  named : getContentType heap (.ref content) = some field
  /-- What it holds. -/
  held : members.get field = some item
  /-- A plain object, or the text of a conversation. -/
  value : (∃ address object, item = .ref address ∧ heap[address]? = some object ∧ object.kind = .plain) ∨
    (field = ofString "conversation" ∧ ∃ t, item = .leaf (.text t))

/-- The score that a field holds. -/
def oldScore (heap : Objects) (item : Item) : JsNumber := scoreOf (read heap (read heap item "contextInfo") "forwardingScore")

/-- The score is unchanged for an own message that is not forced, and one more for others. -/
def newScore (old : JsNumber) (unchanged : Bool) : JsNumber := if unchanged then old else old.add one

/-- The field that is marked. -/
def markedField (field : JsString) : JsString :=
  if field = ofString "conversation" then ofString "extendedTextMessage" else field

/-- A context that marks what is forwarded, exactly where the score is positive. -/
structure IsMark (heap : Objects) (context : ℕ) (score : JsNumber) : Prop where
  /-- The score. -/
  counted : own heap (.ref context) (ofString "forwardingScore") = if score.isPositive then some (.leaf (.number score)) else none
  /-- The flag. -/
  flag : own heap (.ref context) (ofString "isForwarded") = if score.isPositive then some (.leaf (.bool true)) else none
  /-- Nothing else. -/
  rest : ∀ name, name ≠ ofString "forwardingScore" → name ≠ ofString "isForwarded" → own heap (.ref context) name = none

/-- The result is the content, marked, and what the message leads to is as it was. -/
structure Marked (before after : Objects) (message content result : ℕ) (field : JsString) (item : Item) (score : JsNumber) : Prop where
  /-- The field holds an object with the mark, and with what it held otherwise. -/
  mark : ∃ target context, own after (.ref result) (markedField field) = some (.ref target) ∧
    own after (.ref target) (ofString "contextInfo") = some (.ref context) ∧ IsMark after context score ∧
    ∀ name, name ≠ ofString "contextInfo" → own after (.ref target) name =
      if field = ofString "conversation" then if name = ofString "text" then some item else none else own before item name
  /-- A conversation is replaced. -/
  replaced : field ≠ markedField field → own after (.ref result) field = none
  /-- Other fields are what they were. -/
  others : ∀ name, name ≠ field → name ≠ markedField field → own after (.ref result) name = own before (.ref content) name
  /-- Nothing that the message leads to is modified. -/
  unmodified : ∀ address, Reach before message address → after[address]? = before[address]?

variable {heap : Objects} {message content : ℕ} {members : Members} {field : JsString} {item : Item}

/-- Own and not forced. -/
def isUnchanged (heap : Objects) (message : ℕ) (forceForward : Bool) : Bool :=
  truthy (read heap (read heap (.ref message) "key") "fromMe") && !forceForward

theorem scoreOf_number (item : Item) : (scoreOf item).isNaN = false ∧ scoreOf item ≠ negativeZero := by
  have hzero : zero.isNaN = false ∧ zero ≠ negativeZero := by decide
  unfold scoreOf
  split
  · rename_i x
    split
    · rename_i htruthy
      unfold truthy at htruthy
      rw [Bool.not_eq_true',Bool.or_eq_false_iff,Bool.or_eq_false_iff,decide_eq_false_iff_not] at htruthy
      exact ⟨htruthy.1.1,of_decide_eq_false htruthy.2⟩
    · exact hzero
  · exact hzero

/-- The score that is counted. -/
theorem add_score (item : Item) (unchanged : Bool) :
    (scoreOf item).add (if unchanged then zero else one) = newScore (scoreOf item) unchanged := by
  obtain ⟨hnumber,hnegative⟩ := scoreOf_number item
  unfold newScore
  cases unchanged with
  | true =>
    rw [if_pos rfl,if_pos rfl]
    exact add_noAmount hnumber hnegative
  | false => rw [if_neg Bool.false_ne_true,if_neg Bool.false_ne_true]

theorem isMark_forwardingMembers {context : ℕ} {score : JsNumber} (h : heap[context]? = some ⟨.plain,forwardingMembers score⟩) :
    IsMark heap context score := by
  have hflag : ofString "isForwarded" ≠ ofString "forwardingScore" := by decide
  refine ⟨?_,?_,fun name hscore hforwarded => ?_⟩
  · rw [own_ref h,forwardingMembers]
    split
    · rw [InsertionMap.get_set_ne _ _ hflag,InsertionMap.get_set_self]
    · rfl
  · rw [own_ref h,forwardingMembers]
    split
    · rw [InsertionMap.get_set_self]
    · rfl
  · rw [own_ref h,forwardingMembers]
    split
    · rw [InsertionMap.get_set_ne _ _ hforwarded.symm,InsertionMap.get_set_ne _ _ hscore.symm]
      rfl
    · rfl

/-- A property of what a message leads to is led to. -/
theorem reach_read {value : Item} (h : ∀ address, value = .ref address → Reach heap message address) (name : String) :
    ∀ address, read heap value name = .ref address → Reach heap message address := by
  intro address hread
  unfold read at hread
  cases hown : own heap value (ofString name) with
  | none =>
    rw [hown] at hread
    cases hread
  | some found =>
    rw [hown,Option.getD_some] at hread
    cases value with
    | leaf primitive => cases hown
    | ref held =>
      rw [hread] at hown
      exact .step (h held rfl) hown

/-- A content within its wrappers is led to. -/
theorem reach_unwrap (layers : ℕ) {value : Item} (h : ∀ address, value = .ref address → Reach heap message address) :
    ∀ address, unwrap heap layers value = .ref address → Reach heap message address := by
  induction layers generalizing value with
  | zero => exact h
  | succ layers ih =>
    intro address hunwrap
    unfold unwrap at hunwrap
    split at hunwrap
    · exact h address hunwrap
    · rename_i inner hinner
      obtain ⟨name,_,hname⟩ := List.mem_map.mp (List.mem_of_find?_eq_some hinner)
      have hreach : ∀ address, inner = .ref address → Reach heap message address := by
        rw [← hname]
        exact reach_read h name
      exact ih (reach_read hreach "message") address hunwrap

theorem Forwardable.reach (h : Forwardable heap message content members field item) : Reach heap message content := by
  have hnormalized := h.normalized
  have hroot : ∀ address, Slot.ref message = (.ref address : Item) → Reach heap message address := by
    intro address heq
    rw [← Slot.ref.inj heq]
    exact .root
  rw [normalizeMessageContent,if_pos h.present] at hnormalized
  exact reach_unwrap 5 (reach_read hroot "message") content hnormalized

theorem Forwardable.ownMembers_eq (h : Forwardable heap message content members field item) :
    ownMembers heap (.ref content) = members := by
  rw [ownMembers,h.plain]
  rfl

/-- Under its first key the content is marked in a new heap. -/
theorem Forwardable.generate (h : Forwardable heap message content members field item) {key : JsString} {value : Item}
    (hfirst : members.keys.head? = some key) (hvalue : members.get key = some value) (forceForward : Bool) :
    generateForwardMessageContent heap message forceForward =
      markFirst (heap++[⟨.plain,members⟩,⟨.plain,forwardingMembers (newScore (oldScore heap value) (isUnchanged heap message forceForward))⟩])
        heap.length (heap.length+1) (some key) value := by
  unfold generateForwardMessageContent
  rw [h.present,if_neg (by decide),h.normalized,h.ownMembers_eq]
  unfold allocate
  dsimp only
  rw [h.keyed,if_neg Bool.false_ne_true,hfirst,Option.bind_some,hvalue,Option.getD_some,add_score,List.append_assoc,
    List.length_append]
  rfl

/-- A conversation is marked as an extended text. -/
theorem markFirst_conversation (heap : Objects) (a b : Object JsString Primitive) (item : Item) :
    markFirst (heap++[a,b]) heap.length (heap.length+1) (some (ofString "conversation")) item =
      .ok (heap.length,heap++[(a.assign (ofString "extendedTextMessage") (.ref (heap.length+2))).remove (ofString "conversation"),b,
        ⟨.plain,(InsertionMap.empty.set (ofString "text") item).set (ofString "contextInfo") (.ref (heap.length+1))⟩]) := by
  unfold markFirst allocate
  dsimp only
  rw [if_pos rfl,List.append_assoc,List.cons_append,update_append,List.length_append]
  rfl

/-- Any other object is copied with the mark. -/
theorem markFirst_copied {heap : Objects} (a b : Object JsString Primitive) {key : JsString} {address : ℕ}
    {object : Object JsString Primitive} (hkey : key ≠ ofString "conversation") (hobject : heap[address]? = some object)
    (hcopied : isCopied object.kind = true) :
    markFirst (heap++[a,b]) heap.length (heap.length+1) (some key) (.ref address) =
      .ok (heap.length,heap++[a.assign key (.ref (heap.length+2)),b,
        ⟨.plain,object.members.set (ofString "contextInfo") (.ref (heap.length+1))⟩]) := by
  have hlt := (List.getElem?_eq_some_iff.mp hobject).1
  have hfound : (heap++[a,b])[address]? = some object := by rwa [List.getElem?_append_left hlt]
  have hother : ¬some key = some (ofString "conversation") := fun heq => hkey (Option.some.inj heq)
  unfold markFirst allocate
  dsimp only
  rw [if_neg hother,hfound]
  dsimp only
  rw [if_pos hcopied,List.append_assoc,List.cons_append,update_append,List.length_append]
  rfl

/-- What is not copied is written to. -/
theorem markFirst_shared {heap : Objects} (a b : Object JsString Primitive) {key : JsString} {address : ℕ}
    {object : Object JsString Primitive} (hkey : key ≠ ofString "conversation") (hobject : heap[address]? = some object)
    (hshared : isCopied object.kind = false) :
    markFirst (heap++[a,b]) heap.length (heap.length+1) (some key) (.ref address) =
      .ok (heap.length,update (heap++[a,b]) address fun object => object.assign (ofString "contextInfo") (.ref (heap.length+1))) := by
  have hlt := (List.getElem?_eq_some_iff.mp hobject).1
  have hfound : (heap++[a,b])[address]? = some object := by rwa [List.getElem?_append_left hlt]
  have hother : ¬some key = some (ofString "conversation") := fun heq => hkey (Option.some.inj heq)
  unfold markFirst
  rw [if_neg hother]
  dsimp only
  rw [hfound]
  dsimp only
  rw [hshared,if_neg Bool.false_ne_true]

/-- Objects behind a heap. -/
theorem behind (heap : Objects) (a b c : Object JsString Primitive) :
    (heap++[a,b,c])[heap.length]? = some a ∧ (heap++[a,b,c])[heap.length+1]? = some b ∧ (heap++[a,b,c])[heap.length+2]? = some c :=
  ⟨getElem?_behind _ 0,getElem?_behind _ 1,getElem?_behind _ 2⟩

theorem Forwardable.find_field (h : Forwardable heap message content members field item) :
    members.keys.find? isContentKey = some field := by
  have hnamed := h.named
  have htruthy : truthy (.ref content) = true := rfl
  rwa [getContentType,if_pos htruthy,h.ownMembers_eq] at hnamed

theorem Forwardable.root_lt (h : Forwardable heap message content members field item) : message < heap.length := by
  have hpresent := h.present
  unfold read at hpresent
  cases hown : own heap (.ref message) (ofString "message") with
  | none =>
    rw [hown] at hpresent
    cases hpresent
  | some slot => exact lt_of_own hown

/-- Objects behind a heap leave what a message leads to as it is. -/
theorem Forwardable.unmodified (h : Forwardable heap message content members field item) (hclosed : Closed heap)
    (rest : Objects) : ∀ address, Reach heap message address → (heap++rest)[address]? = heap[address]? :=
  fun _ hreach => List.getElem?_append_left (hreach.lt hclosed h.root_lt)

theorem Forwardable.own_content (h : Forwardable heap message content members field item) (name : JsString) :
    own heap (.ref content) name = members.get name := own_ref h.plain name

/-- A conversation that stands first is marked as an extended text. -/
theorem Forwardable.marked_conversation (h : Forwardable heap message content members (ofString "conversation") item)
    (hclosed : Closed heap) (score : JsNumber) :
    Marked heap (heap++[((Object.mk .plain members).assign (ofString "extendedTextMessage") (.ref (heap.length+2))).remove
        (ofString "conversation"),⟨.plain,forwardingMembers score⟩,
        ⟨.plain,(InsertionMap.empty.set (ofString "text") item).set (ofString "contextInfo") (.ref (heap.length+1))⟩])
      message content heap.length (ofString "conversation") item score := by
  have hmarked : markedField (ofString "conversation") = ofString "extendedTextMessage" := if_pos rfl
  have hnames : ofString "conversation" ≠ ofString "extendedTextMessage" := by decide
  obtain ⟨hresult,hcontext,htarget⟩ := behind heap
    (((Object.mk .plain members).assign (ofString "extendedTextMessage") (.ref (heap.length+2))).remove (ofString "conversation"))
    ⟨.plain,forwardingMembers score⟩
    ⟨.plain,(InsertionMap.empty.set (ofString "text") item).set (ofString "contextInfo") (.ref (heap.length+1))⟩
  refine ⟨⟨heap.length+2,heap.length+1,?_,?_,isMark_forwardingMembers hcontext,fun name hname => ?_⟩,fun _ => ?_,
    fun name hfield hother => ?_,h.unmodified hclosed _⟩
  · rw [own_ref hresult,hmarked]
    exact (InsertionMap.get_delete_ne _ hnames).trans (InsertionMap.get_set_self _ _ _)
  · rw [own_ref htarget,InsertionMap.get_set_self]
  · rw [own_ref htarget,InsertionMap.get_set_ne _ _ hname.symm,InsertionMap.get_set,if_pos rfl]
    by_cases htext : name = ofString "text"
    · rw [if_pos htext.symm,if_pos htext]
    · rw [if_neg fun heq => htext heq.symm,if_neg htext]
      rfl
  · rw [own_ref hresult]
    exact InsertionMap.get_delete_self _ _
  · rw [hmarked] at hother
    rw [own_ref hresult,h.own_content]
    exact (InsertionMap.get_delete_ne _ hfield.symm).trans (InsertionMap.get_set_ne _ _ hother.symm)

/-- Any other content that stands first is copied and marked. -/
theorem Forwardable.marked_copied {address : ℕ} {object : Object JsString Primitive}
    (h : Forwardable heap message content members field (.ref address)) (hclosed : Closed heap)
    (hfield : field ≠ ofString "conversation") (hobject : heap[address]? = some object) (score : JsNumber) :
    Marked heap (heap++[(Object.mk .plain members).assign field (.ref (heap.length+2)),⟨.plain,forwardingMembers score⟩,
        ⟨.plain,object.members.set (ofString "contextInfo") (.ref (heap.length+1))⟩])
      message content heap.length field (.ref address) score := by
  have hmarked : markedField field = field := if_neg hfield
  obtain ⟨hresult,hcontext,htarget⟩ := behind heap ((Object.mk .plain members).assign field (.ref (heap.length+2)))
    ⟨.plain,forwardingMembers score⟩ ⟨.plain,object.members.set (ofString "contextInfo") (.ref (heap.length+1))⟩
  refine ⟨⟨heap.length+2,heap.length+1,?_,?_,isMark_forwardingMembers hcontext,fun name hname => ?_⟩,
    fun hreplaced => absurd hmarked.symm hreplaced,fun name hother _ => ?_,h.unmodified hclosed _⟩
  · rw [own_ref hresult,hmarked]
    exact InsertionMap.get_set_self _ _ _
  · rw [own_ref htarget,InsertionMap.get_set_self]
  · rw [own_ref htarget,InsertionMap.get_set_ne _ _ hname.symm,if_neg hfield,own_ref hobject]
  · rw [own_ref hresult,h.own_content]
    exact InsertionMap.get_set_ne _ _ hother.symm

/-- Where the content stands first, it is marked. -/
theorem Forwardable.marked (h : Forwardable heap message content members field item) (hclosed : Closed heap)
    (hfirst : members.keys.head? = some field) (forceForward : Bool) :
    ∃ result after, generateForwardMessageContent heap message forceForward = .ok (result,after) ∧
      Marked heap after message content result field item (newScore (oldScore heap item) (isUnchanged heap message forceForward)) := by
  have hgenerate := h.generate hfirst h.held forceForward
  by_cases hconversation : field = ofString "conversation"
  · subst hconversation
    rw [markFirst_conversation] at hgenerate
    exact ⟨_,_,hgenerate,h.marked_conversation hclosed _⟩
  · obtain ⟨address,object,hitem,hobject,hplain⟩ := h.value.resolve_right fun htext => hconversation htext.1
    subst hitem
    have hcopied : isCopied object.kind = true := by
      rw [hplain]
      rfl
    rw [markFirst_copied _ _ hconversation hobject hcopied] at hgenerate
    exact ⟨_,_,hgenerate,h.marked_copied hclosed hconversation hobject _⟩

/-- Where the content is marked, it stands first. -/
theorem Forwardable.first (h : Forwardable heap message content members field item) (hclosed : Closed heap)
    {forceForward : Bool} {result : ℕ} {after : Objects} {score : JsNumber}
    (hgenerate : generateForwardMessageContent heap message forceForward = .ok (result,after))
    (hmarked : Marked heap after message content result field item score) : members.keys.head? = some field := by
  have hmem : field ∈ members.keys := InsertionMap.mem_keys_iff.mpr ⟨item,h.held⟩
  obtain ⟨key,hfirst⟩ : ∃ key, members.keys.head? = some key := by
    cases hkeys : members.keys with
    | nil =>
      rw [hkeys] at hmem
      exact absurd hmem List.not_mem_nil
    | cons key rest => exact ⟨key,rfl⟩
  by_cases hkey : key = field
  · rw [hfirst,hkey]
  · exfalso
    have hnone : isContentKey key = false := by
      have hfind := h.find_field
      obtain ⟨rest,hkeys⟩ := List.head?_eq_some_iff.mp hfirst
      rw [hkeys,List.find?_cons] at hfind
      cases hnamed : isContentKey key with
      | false => rfl
      | true =>
        rw [hnamed] at hfind
        exact absurd (Option.some.inj hfind) hkey
    have hconversation : key ≠ ofString "conversation" := by
      intro heq
      rw [heq] at hnone
      revert hnone
      decide
    obtain ⟨value,hvalue⟩ := InsertionMap.mem_keys_iff.mp (List.mem_of_mem_head? hfirst)
    rw [h.generate hfirst hvalue] at hgenerate
    cases value with
    | leaf primitive =>
      have hother : ¬some key = some (ofString "conversation") := fun heq => hconversation (Option.some.inj heq)
      unfold markFirst at hgenerate
      rw [if_neg hother] at hgenerate
      cases hgenerate
    | ref address =>
      have hown : own heap (.ref content) key = some (.ref address) := (h.own_content key).trans hvalue
      have hlt := hclosed.own_lt hown
      have hobject : heap[address]? = some heap[address] := List.getElem?_eq_getElem hlt
      cases hcopied : isCopied heap[address].kind with
      | true =>
        rw [markFirst_copied _ _ hconversation hobject hcopied] at hgenerate
        cases hgenerate
        have hother : key ≠ markedField field := by
          unfold markedField
          split
          · intro heq
            rw [heq] at hnone
            revert hnone
            decide
          · exact hkey
        have hsame := hmarked.others key hkey hother
        have hresult := fun b c => (behind heap ((Object.mk .plain members).assign key (.ref (heap.length+2))) b c).1
        rw [own_ref (hresult _ _),hown] at hsame
        have hfresh := (InsertionMap.get_set_self members key (Slot.ref (heap.length+2))).symm.trans hsame
        cases hfresh
        omega
      | false =>
        rw [markFirst_shared _ _ hconversation hobject hcopied] at hgenerate
        cases hgenerate
        have hsame := hmarked.unmodified address (.step h.reach hown)
        have hfound := hobject
        rw [← List.getElem?_append_left hlt] at hfound
        rw [update_self hfound,hobject] at hsame
        have hheld : heap[address].members.get (ofString "contextInfo") = some (.ref (heap.length+1)) := by
          rw [← Option.some.inj hsame]
          exact InsertionMap.get_set_self _ _ _
        have hfresh := hclosed _ (List.getElem_mem hlt) _ _ hheld
        omega

/-- A content is marked, and nothing else is, exactly where no other field stands before it. -/
theorem forward_marks_iff (caller : Caller) {message content : ℕ} {members : Members} {field : JsString} {item : Item}
    (h : Forwardable caller.heap message content members field item) (forceForward : Bool) :
    (∃ result after, generateForwardMessageContent caller.heap message forceForward = .ok (result,after) ∧
      Marked caller.heap after message content result field item
        (newScore (oldScore caller.heap item) (isUnchanged caller.heap message forceForward))) ↔
    members.keys.head? = some field := by
  refine ⟨fun hmarked => ?_,fun hfirst => h.marked caller.closed hfirst forceForward⟩
  obtain ⟨result,after,hgenerate,hafter⟩ := hmarked
  exact h.first caller.closed hgenerate hafter

/-- A message with a content of these members, and nothing else but an empty object. -/
def incoming (members : Members) : Objects :=
  [⟨.plain,(InsertionMap.empty.set (ofString "key") (.ref 1)).set (ofString "message") (.ref 2)⟩,
    ⟨.plain,InsertionMap.empty.set (ofString "fromMe") (.leaf (.bool false))⟩,⟨.plain,members⟩,⟨.plain,.empty⟩]

/-- A conversation. -/
def greeting : Item := .leaf (.text (ofString "hello"))

/-- A conversation behind the context of its message. -/
def hiddenMembers : Members :=
  (InsertionMap.empty.set (ofString "messageContextInfo") (.ref 3)).set (ofString "conversation") greeting

/-- A conversation before it. -/
def firstMembers : Members :=
  (InsertionMap.empty.set (ofString "conversation") greeting).set (ofString "messageContextInfo") (.ref 3)

theorem unscored {heap : Objects} (h : (heap.all fun object => (object.members.get (ofString "forwardingScore")).isNone) = true) :
    ∀ object ∈ heap, ∀ item, object.members.get (ofString "forwardingScore") = some item →
      isNullish item = true ∨ ∃ x, item = .leaf (.number x) := by
  intro object hobject item hget
  have hnone := List.all_eq_true.mp h object hobject
  rw [hget] at hnone
  cases hnone

/-- A caller whose conversation stands second. -/
def hiddenCaller : Caller := ⟨incoming hiddenMembers,closed_entries (by decide),unscored (by decide)⟩

/-- A caller whose conversation stands first. -/
def firstCaller : Caller := ⟨incoming firstMembers,closed_entries (by decide),unscored (by decide)⟩

/-- A conversation that stands first is marked. -/
theorem forward_marks_first : ∃ result after, generateForwardMessageContent firstCaller.heap 0 false = .ok (result,after) ∧
    Marked firstCaller.heap after 0 2 result (ofString "conversation") greeting
      (newScore (oldScore firstCaller.heap greeting) (isUnchanged firstCaller.heap 0 false)) := by
  have h : Forwardable firstCaller.heap 0 2 firstMembers (ofString "conversation") greeting :=
    ⟨by decide,by decide,by decide,rfl,by decide,by decide,.inr ⟨rfl,_,rfl⟩⟩
  exact (forward_marks_iff firstCaller h false).mpr (by decide)

/-- Behind the context of its message a conversation is not marked. -/
theorem forward_marks_hidden : Forwardable hiddenCaller.heap 0 2 hiddenMembers (ofString "conversation") greeting ∧
    ¬∃ result after, generateForwardMessageContent hiddenCaller.heap 0 false = .ok (result,after) ∧
      Marked hiddenCaller.heap after 0 2 result (ofString "conversation") greeting
        (newScore (oldScore hiddenCaller.heap greeting) (isUnchanged hiddenCaller.heap 0 false)) := by
  have h : Forwardable hiddenCaller.heap 0 2 hiddenMembers (ofString "conversation") greeting :=
    ⟨by decide,by decide,by decide,rfl,by decide,by decide,.inr ⟨rfl,_,rfl⟩⟩
  refine ⟨h,fun hmarked => ?_⟩
  obtain ⟨result,after,hgenerate,hafter⟩ := hmarked
  have hfirst := h.first hiddenCaller.closed hgenerate hafter
  revert hfirst
  decide

end Marks

end Baileyrs.ForwardedContent
