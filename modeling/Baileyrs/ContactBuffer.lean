import Baileyrs.PlainObjects
import Mathlib.Data.List.Induction

/-!
# Buffered contacts

Within one window the updates and upserts of a contact are merged: an update assigns
its fields as given, an upsert its defined fields. What is pending is kept in plain
objects, so an identifier that names a built-in member of every object finds that
member instead of a pending contact.
-/

namespace Baileyrs.ContactBuffer

open PlainObjects

/-- Fields of a contact. -/
inductive ContactField where
  | id
  | lid
  | phoneNumber
  | name
  | notify
  | verifiedName
  | imgUrl
  | status
  | username
  deriving DecidableEq

/-- Value of a field. -/
inductive FieldValue where
  | undefined
  | null
  | text (text : String)
  deriving DecidableEq

/-- Own fields of an object; none is a field it does not have. -/
abbrev Fields := ContactField → Option FieldValue

/-- A contact; its identifier is a string. -/
structure Contact where
  /-- Its own fields. -/
  fields : Fields
  /-- Its identifier. -/
  id : String
  /-- The identifier is one of the fields. -/
  has_id : fields .id = some (.text id)

/-- Contacts that wait for the release. -/
structure ContactData where
  /-- Upserted contacts. -/
  contactUpserts : InsertionMap String Fields
  /-- Updates of contacts that were not upserted. -/
  contactUpdates : InsertionMap String Fields

/-- Assign all own fields. -/
def assign (target source : Fields) : Fields := fun field =>
  match source field with
  | some value => some value
  | none => target field

/-- Remove undefined fields. -/
def trimUndefined (fields : Fields) : Fields := fun field =>
  match fields field with
  | some .undefined => none
  | value => value

/-- Fill the gaps of a target. -/
def fillGaps (target source : Fields) : Fields := fun field =>
  match source field,target field with
  | some value,none => some value
  | some value,some .undefined => some value
  | _,found => found

/-- Assigning to a built-in function throws at its name, which is read-only; the
members of `Object.prototype` itself can be assigned, and what later lookups then
inherit is not followed. -/
def assignInherited (id : String) (source : Fields) : Bool :=
  id ≠ "__proto__" && (source .name).isSome

/-- Fold an upsert into what is pending; true when it throws. -/
def appendUpsert (data : ContactData) (contact : Contact) : ContactData × Bool :=
  let pending := lookup data.contactUpdates contact.id
  let data := {data with contactUpdates := data.contactUpdates.delete contact.id}
  match lookup data.contactUpserts contact.id with
  | .own existing =>
    let existing := match pending with
      | .own update => assign existing update
      | _ => existing
    ({data with contactUpserts :=
        data.contactUpserts.set contact.id (assign existing (trimUndefined contact.fields))},false)
  | .inherited => (data,assignInherited contact.id (trimUndefined contact.fields))
  | .nothing =>
    let fields := match pending with
      | .own update => fillGaps contact.fields update
      | _ => contact.fields
    ({data with contactUpserts := data.contactUpserts.set contact.id fields},false)

/-- Identifier of the fields of a contact; without one it is empty. -/
def idOf (fields : Fields) : String :=
  match fields .id with
  | some (.text id) => id
  | _ => ""

/-- Fold an update into what is pending; true when it throws. -/
def appendUpdate (data : ContactData) (update : Fields) : ContactData × Bool :=
  let id := idOf update
  match lookup data.contactUpserts id with
  | .own existing => ({data with contactUpserts := data.contactUpserts.set id (assign existing update)},false)
  | .inherited => (data,assignInherited id update)
  | .nothing =>
    let pending := match lookup data.contactUpdates id with
      | .own pending => pending
      | _ => fun _ => none
    ({data with contactUpdates := data.contactUpdates.set id (assign pending update)},false)

/-- Fold items until one throws. -/
def appendAll {α : Type} (append : ContactData → α → ContactData × Bool) : ContactData → List α → ContactData
  | data,[] => data
  | data,item::rest =>
    let next := append data item
    if next.2 then next.1 else appendAll append next.1 rest

/-- A contact event. -/
inductive ContactEvent where
  | upsert (contacts : List Contact)
  | update (updates : List Fields)

/-- Buffer an event. -/
def appendEvent (data : ContactData) : ContactEvent → ContactData
  | .upsert contacts => appendAll appendUpsert data contacts
  | .update updates => appendAll appendUpdate data updates

/-- What is pending after the events of one window. -/
def pendingAfter (events : List ContactEvent) : ContactData :=
  events.foldl appendEvent ⟨InsertionMap.empty,InsertionMap.empty⟩

/-- Contacts released on `contacts.upsert`, their order aside. -/
def releasedUpserts (events : List ContactEvent) : List Fields := (pendingAfter events).contactUpserts.values

/-- Contacts released on `contacts.update`, their order aside. -/
def releasedUpdates (events : List ContactEvent) : List Fields := (pendingAfter events).contactUpdates.values

section Specification

/-- One contact of an event. -/
inductive Change where
  | upsert (contact : Contact)
  | update (fields : Fields)

/-- Contact it is about. -/
def Change.id : Change → String
  | .upsert contact => contact.id
  | .update fields => idOf fields

/-- It is an upsert. -/
def Change.isUpsert : Change → Bool
  | .upsert _ => true
  | .update _ => false

/-- Contacts of an event, in order. -/
def ContactEvent.changes : ContactEvent → List Change
  | .upsert contacts => contacts.map .upsert
  | .update updates => updates.map .update

/-- Defined value of a field. -/
def defined (value : Option FieldValue) : Option FieldValue :=
  match value with
  | some .undefined => none
  | found => found

/-- The fields of a contact after one more change: an update assigns its fields as
given, an upsert its defined fields. -/
def Change.write (fields : Fields) : Change → Fields
  | .upsert contact => fun field => (defined (contact.fields field)).or (fields field)
  | .update changed => fun field =>
    match changed field with
    | some value => defined (some value)
    | none => fields field

/-- Defined fields of a contact after its own changes. -/
def written (changes : List Change) (id : String) : Fields :=
  (changes.filter fun change => change.id = id).foldl Change.write fun _ => none

/-- Contacts with an identifier among released ones. -/
def about (id : String) (released : List Fields) : List Fields := released.filter fun fields => idOf fields = id

/-- Every contact is released once, with the fields written by its own changes, on
`contacts.upsert` exactly when it was upserted. -/
def LastWriterWins (events : List ContactEvent) : Prop :=
  ∀ id ∈ (events.flatMap ContactEvent.changes).map Change.id,
    ∃ fields, (∀ field, defined (fields field) = written (events.flatMap ContactEvent.changes) id field) ∧
      if (events.flatMap ContactEvent.changes).any (fun change => change.id = id && change.isUpsert) then
        about id (releasedUpserts events) = [fields] ∧ about id (releasedUpdates events) = []
      else about id (releasedUpserts events) = [] ∧ about id (releasedUpdates events) = [fields]

/-- No contact is named like a built-in member. -/
def NotInherited (events : List ContactEvent) : Prop :=
  ∀ id ∈ (events.flatMap ContactEvent.changes).map Change.id, id ∉ inheritedNames

end Specification

section Merging

/-- Pending contacts after one change; nothing throws for names that are not built in. -/
def applyChange (data : ContactData) : Change → ContactData
  | .upsert contact => (appendUpsert data contact).1
  | .update fields => (appendUpdate data fields).1

/-- Such a change does not throw. -/
theorem append_ok (data : ContactData) :
    (∀ contact : Contact, contact.id ∉ inheritedNames → (appendUpsert data contact).2 = false) ∧
    ∀ fields, idOf fields ∉ inheritedNames → (appendUpdate data fields).2 = false := by
  refine ⟨fun contact h => ?_,fun fields h => ?_⟩
  · unfold appendUpsert
    dsimp only
    rw [lookup_ne_inherited h]
    cases data.contactUpserts.get contact.id with
    | some existing => rfl
    | none => rfl
  · unfold appendUpdate
    dsimp only
    rw [lookup_ne_inherited h]
    cases data.contactUpserts.get (idOf fields) with
    | some existing => rfl
    | none => rfl

/-- Without a throw every item is folded. -/
theorem appendAll_eq {α : Type} {append : ContactData → α → ContactData × Bool} {items : List α}
    (h : ∀ item ∈ items, ∀ data, (append data item).2 = false) (data : ContactData) :
    appendAll append data items = items.foldl (fun data item => (append data item).1) data := by
  induction items generalizing data with
  | nil => rfl
  | cons item rest ih =>
    rw [appendAll,h item List.mem_cons_self data,if_neg Bool.false_ne_true]
    exact ih (fun other hother => h other (List.mem_cons_of_mem _ hother)) _

/-- All changes of the events are folded one after the other. -/
theorem pendingAfter_eq {events : List ContactEvent} (h : NotInherited events) :
    pendingAfter events = (events.flatMap ContactEvent.changes).foldl applyChange
      ⟨InsertionMap.empty,InsertionMap.empty⟩ := by
  have hall : ∀ data, events.foldl appendEvent data =
      (events.flatMap ContactEvent.changes).foldl applyChange data := by
    induction events with
    | nil => exact fun data => rfl
    | cons event rest ih =>
      intro data
      have hrest : NotInherited rest := fun id hid => h id (by
        rw [List.flatMap_cons,List.map_append]
        exact List.mem_append_right _ hid)
      have hevent : ∀ change ∈ event.changes, change.id ∉ inheritedNames := fun change hchange =>
        h change.id (by
          rw [List.flatMap_cons,List.map_append]
          exact List.mem_append_left _ (List.mem_map_of_mem hchange))
      have hfirst : appendEvent data event = event.changes.foldl applyChange data := by
        cases event with
        | upsert contacts =>
          have hok : ∀ contact ∈ contacts, ∀ data, (appendUpsert data contact).2 = false := fun contact hcontact data =>
            (append_ok data).1 contact (hevent (.upsert contact) (List.mem_map_of_mem hcontact))
          rw [appendEvent,appendAll_eq hok,ContactEvent.changes,List.foldl_map]
          rfl
        | update updates =>
          have hok : ∀ fields ∈ updates, ∀ data, (appendUpdate data fields).2 = false := fun fields hfields data =>
            (append_ok data).2 fields (hevent (.update fields) (List.mem_map_of_mem hfields))
          rw [appendEvent,appendAll_eq hok,ContactEvent.changes,List.foldl_map]
          rfl
      rw [List.foldl_cons,hfirst,List.flatMap_cons,List.foldl_append]
      exact ih hrest _
  exact hall _

/-- Assigned fields, as far as they are defined. -/
theorem defined_assign (target source : Fields) (field : ContactField) :
    defined (assign target source field) = match source field with
      | some value => defined (some value)
      | none => defined (target field) := by
  unfold assign
  cases source field with
  | some value => rfl
  | none => rfl

/-- An upsert writes its defined fields over the pending ones. -/
theorem defined_trim (target source : Fields) (field : ContactField) :
    defined (assign target (trimUndefined source) field) = (defined (source field)).or (defined (target field)) := by
  rw [defined_assign,trimUndefined]
  cases source field with
  | none => rfl
  | some value =>
    cases value with
    | undefined => rfl
    | null => rfl
    | text text => rfl

/-- A first upsert takes what it leaves undefined from the updates before it. -/
theorem defined_fillGaps (target source : Fields) (field : ContactField) :
    defined (fillGaps target source field) = (defined (target field)).or (defined (source field)) := by
  unfold fillGaps
  cases source field with
  | none => exact (Option.or_none).symm
  | some value =>
    cases target field with
    | none => rfl
    | some found =>
      cases found with
      | undefined => rfl
      | null => rfl
      | text text => rfl

theorem idOf_contact (contact : Contact) : idOf contact.fields = contact.id := by
  unfold idOf
  rw [contact.has_id]

theorem idOf_trim (target : Fields) (contact : Contact) :
    idOf (assign target (trimUndefined contact.fields)) = contact.id := by
  unfold idOf assign trimUndefined
  rw [contact.has_id]

theorem idOf_fillGaps (contact : Contact) (source : Fields) : idOf (fillGaps contact.fields source) = contact.id := by
  unfold idOf fillGaps
  rw [contact.has_id]
  cases source .id with
  | none => rfl
  | some value => rfl

theorem idOf_assign {target source : Fields} {id : String} (htarget : idOf target = id) (hsource : idOf source = id) :
    idOf (assign target source) = id := by
  unfold idOf assign at *
  cases hid : source .id with
  | none => exact htarget
  | some value =>
    rw [hid] at hsource
    exact hsource

/-- Whether a contact was upserted. -/
def wasUpserted (changes : List Change) (id : String) : Bool :=
  changes.any fun change => change.id = id && change.isUpsert

/-- A pending contact holds what its changes wrote. -/
structure Holds (changes : List Change) (id : String) (fields : Fields) : Prop where
  /-- Its defined fields. -/
  same : ∀ field, defined (fields field) = written changes id field
  /-- Its identifier. -/
  named : idOf fields = id

/-- Where a contact is pending after some changes. -/
inductive Placed (changes : List Change) (data : ContactData) (id : String) : Prop where
  | unnamed (hnone : id ∉ changes.map Change.id) (hupserts : data.contactUpserts.get id = none)
    (hupdates : data.contactUpdates.get id = none)
  | updated (fields : Fields) (hnamed : id ∈ changes.map Change.id) (hflag : wasUpserted changes id = false)
    (hupserts : data.contactUpserts.get id = none) (hupdates : data.contactUpdates.get id = some fields)
    (h : Holds changes id fields)
  | upserted (fields : Fields) (hnamed : id ∈ changes.map Change.id) (hflag : wasUpserted changes id = true)
    (hupserts : data.contactUpserts.get id = some fields) (hupdates : data.contactUpdates.get id = none)
    (h : Holds changes id fields)

/-- One more change of a contact is written last. -/
theorem written_append_own (changes : List Change) (change : Change) :
    written (changes++[change]) change.id = change.write (written changes change.id) := by
  have hown : [change].filter (fun other => other.id = change.id) = [change] := by simp
  rw [written,List.filter_append,hown,List.foldl_append]
  rfl

/-- Changes of other contacts do not matter. -/
theorem written_append_ne (changes : List Change) {change : Change} {id : String} (h : change.id ≠ id) :
    written (changes++[change]) id = written changes id := by
  have hown : [change].filter (fun other => other.id = id) = [] := by simp [h]
  rw [written,List.filter_append,hown,List.append_nil]
  rfl

/-- A change leaves other contacts where they are. -/
theorem Placed.other {changes : List Change} {data : ContactData} {change : Change} {id : String}
    (h : Placed changes data id) (hne : change.id ≠ id) : Placed (changes++[change]) (applyChange data change) id := by
  have hupserts : (applyChange data change).contactUpserts.get id = data.contactUpserts.get id := by
    cases change with
    | upsert contact =>
      unfold applyChange appendUpsert
      dsimp only
      split
      · exact InsertionMap.get_set_ne _ _ hne
      · rfl
      · exact InsertionMap.get_set_ne _ _ hne
    | update fields =>
      unfold applyChange appendUpdate
      dsimp only
      split
      · exact InsertionMap.get_set_ne _ _ hne
      · rfl
      · rfl
  have hupdates : (applyChange data change).contactUpdates.get id = data.contactUpdates.get id := by
    cases change with
    | upsert contact =>
      unfold applyChange appendUpsert
      dsimp only
      split
      · exact InsertionMap.get_delete_ne _ hne
      · exact InsertionMap.get_delete_ne _ hne
      · exact InsertionMap.get_delete_ne _ hne
    | update fields =>
      unfold applyChange appendUpdate
      dsimp only
      split
      · rfl
      · rfl
      · exact InsertionMap.get_set_ne _ _ hne
  have hnamed : id ∈ (changes++[change]).map Change.id ↔ id ∈ changes.map Change.id := by
    rw [List.map_append,List.mem_append,List.map_singleton,List.mem_singleton]
    exact ⟨fun hor => hor.resolve_right fun heq => hne heq.symm,.inl⟩
  have hupserted : wasUpserted (changes++[change]) id = wasUpserted changes id := by
    rw [wasUpserted,List.any_append,List.any_cons,List.any_nil]
    simp [hne,wasUpserted]
  have hholds : ∀ fields, Holds changes id fields → Holds (changes++[change]) id fields := fun fields h =>
    ⟨by rw [written_append_ne changes hne]; exact h.same,h.named⟩
  cases h with
  | unnamed hnone hu hp => exact .unnamed (fun hmem => hnone (hnamed.mp hmem)) (hupserts.trans hu) (hupdates.trans hp)
  | updated fields hname hflag hu hp h =>
    exact .updated fields (hnamed.mpr hname) (hupserted.trans hflag) (hupserts.trans hu) (hupdates.trans hp) (hholds fields h)
  | upserted fields hname hflag hu hp h =>
    exact .upserted fields (hnamed.mpr hname) (hupserted.trans hflag) (hupserts.trans hu) (hupdates.trans hp) (hholds fields h)

/-- The changed contact is named. -/
theorem mem_append_own (changes : List Change) (change : Change) : change.id ∈ (changes++[change]).map Change.id := by
  rw [List.map_append]
  exact List.mem_append_right _ List.mem_cons_self

/-- An unnamed contact has written nothing. -/
theorem written_unnamed {changes : List Change} {id : String} (h : id ∉ changes.map Change.id) :
    written changes id = fun _ => none := by
  have hown : changes.filter (fun change => change.id = id) = [] := by
    rw [List.filter_eq_nil_iff]
    intro change hchange hid
    exact h (List.mem_map.mpr ⟨change,hchange,of_decide_eq_true hid⟩)
  rw [written,hown]
  rfl

theorem wasUpserted_unnamed {changes : List Change} {id : String} (h : id ∉ changes.map Change.id) :
    wasUpserted changes id = false := by
  rw [wasUpserted,List.any_eq_false]
  intro change hchange hboth
  rw [Bool.and_eq_true] at hboth
  exact h (List.mem_map.mpr ⟨change,hchange,of_decide_eq_true hboth.1⟩)

/-- An upsert puts its contact among the upserts. -/
theorem Placed.upsert {changes : List Change} {data : ContactData} {contact : Contact}
    (h : Placed changes data contact.id) (hid : contact.id ∉ inheritedNames) :
    Placed (changes++[.upsert contact]) (applyChange data (.upsert contact)) contact.id := by
  have hflag : wasUpserted (changes++[.upsert contact]) contact.id = true := by
    rw [wasUpserted,List.any_append]
    simp [Change.id,Change.isUpsert]
  have hwritten : written (changes++[.upsert contact]) contact.id =
      Change.write (written changes contact.id) (.upsert contact) := written_append_own changes (.upsert contact)
  have hplace : ∀ fields, (applyChange data (.upsert contact)).contactUpserts.get contact.id = some fields →
      (applyChange data (.upsert contact)).contactUpdates.get contact.id = none →
      (∀ field, defined (fields field) = (defined (contact.fields field)).or (written changes contact.id field)) →
      idOf fields = contact.id →
      Placed (changes++[.upsert contact]) (applyChange data (.upsert contact)) contact.id := by
    intro fields hupserts hupdates hfields hnamed
    exact .upserted fields (mem_append_own changes (.upsert contact)) hflag hupserts hupdates
      ⟨fun field => by rw [hwritten]; exact hfields field,hnamed⟩
  cases h with
  | unnamed hnone hu hp =>
    have happly : applyChange data (.upsert contact) = ⟨data.contactUpserts.set contact.id contact.fields,
        data.contactUpdates.delete contact.id⟩ := by
      unfold applyChange appendUpsert
      dsimp only
      rw [lookup_ne_inherited hid,hu,lookup_ne_inherited hid,hp]
    refine hplace contact.fields ?_ ?_ (fun field => ?_) (idOf_contact contact)
    · rw [happly]
      exact InsertionMap.get_set_self _ _ _
    · rw [happly]
      exact InsertionMap.get_delete_self _ _
    · rw [written_unnamed hnone]
      exact (Option.or_none).symm
  | updated fields hname _ hu hp h =>
    have happly : applyChange data (.upsert contact) = ⟨data.contactUpserts.set contact.id
        (fillGaps contact.fields fields),data.contactUpdates.delete contact.id⟩ := by
      unfold applyChange appendUpsert
      dsimp only
      rw [lookup_ne_inherited hid,hu,lookup_ne_inherited hid,hp]
    refine hplace (fillGaps contact.fields fields) ?_ ?_ (fun field => ?_) (idOf_fillGaps contact fields)
    · rw [happly]
      exact InsertionMap.get_set_self _ _ _
    · rw [happly]
      exact InsertionMap.get_delete_self _ _
    · rw [defined_fillGaps,h.same]
  | upserted fields hname _ hu hp h =>
    have happly : applyChange data (.upsert contact) = ⟨data.contactUpserts.set contact.id
        (assign fields (trimUndefined contact.fields)),data.contactUpdates.delete contact.id⟩ := by
      unfold applyChange appendUpsert
      dsimp only
      rw [lookup_ne_inherited hid,hu,lookup_ne_inherited hid,hp]
    refine hplace (assign fields (trimUndefined contact.fields)) ?_ ?_ (fun field => ?_) (idOf_trim fields contact)
    · rw [happly]
      exact InsertionMap.get_set_self _ _ _
    · rw [happly]
      exact InsertionMap.get_delete_self _ _
    · rw [defined_trim,h.same]

/-- An update goes where its contact is pending. -/
theorem Placed.update {changes : List Change} {data : ContactData} {changed : Fields}
    (h : Placed changes data (idOf changed)) (hid : idOf changed ∉ inheritedNames) :
    Placed (changes++[.update changed]) (applyChange data (.update changed)) (idOf changed) := by
  have hflag : wasUpserted (changes++[.update changed]) (idOf changed) = wasUpserted changes (idOf changed) := by
    rw [wasUpserted,List.any_append]
    simp [Change.isUpsert,wasUpserted]
  have hwritten : written (changes++[.update changed]) (idOf changed) =
      Change.write (written changes (idOf changed)) (.update changed) := written_append_own changes (.update changed)
  have hname := mem_append_own changes (.update changed)
  have hholds : ∀ fields, (∀ field, defined (fields field) = written changes (idOf changed) field) →
      idOf (assign fields changed) = idOf changed →
      Holds (changes++[.update changed]) (idOf changed) (assign fields changed) := by
    intro fields hfields hnamed
    refine ⟨fun field => ?_,hnamed⟩
    rw [hwritten,defined_assign,Change.write]
    dsimp only
    cases changed field with
    | some value => rfl
    | none => exact hfields field
  cases h with
  | unnamed hnone hu hp =>
    have happly : applyChange data (.update changed) = ⟨data.contactUpserts,
        data.contactUpdates.set (idOf changed) (assign (fun _ => none) changed)⟩ := by
      unfold applyChange appendUpdate
      dsimp only
      rw [lookup_ne_inherited hid,hu,lookup_ne_inherited hid,hp]
    have hsame : assign (fun _ => none) changed = changed := by
      funext field
      unfold assign
      cases changed field with
      | some value => rfl
      | none => rfl
    refine .updated (assign (fun _ => none) changed) hname (hflag.trans (wasUpserted_unnamed hnone)) ?_ ?_
      (hholds _ (fun field => ?_) (by rw [hsame]))
    · rw [happly]
      exact hu
    · rw [happly]
      exact InsertionMap.get_set_self _ _ _
    · rw [written_unnamed hnone]
      rfl
  | updated fields _ hnot hu hp h =>
    have happly : applyChange data (.update changed) = ⟨data.contactUpserts,
        data.contactUpdates.set (idOf changed) (assign fields changed)⟩ := by
      unfold applyChange appendUpdate
      dsimp only
      rw [lookup_ne_inherited hid,hu,lookup_ne_inherited hid,hp]
    refine .updated (assign fields changed) hname (hflag.trans hnot) ?_ ?_
      (hholds fields h.same (idOf_assign h.named rfl))
    · rw [happly]
      exact hu
    · rw [happly]
      exact InsertionMap.get_set_self _ _ _
  | upserted fields _ hwas hu hp h =>
    have happly : applyChange data (.update changed) = ⟨data.contactUpserts.set (idOf changed)
        (assign fields changed),data.contactUpdates⟩ := by
      unfold applyChange appendUpdate
      dsimp only
      rw [lookup_ne_inherited hid,hu]
    refine .upserted (assign fields changed) hname (hflag.trans hwas) ?_ ?_
      (hholds fields h.same (idOf_assign h.named rfl))
    · rw [happly]
      exact InsertionMap.get_set_self _ _ _
    · rw [happly]
      exact hp

/-- Every contact is placed after any changes. -/
theorem placed_run (changes : List Change) (h : ∀ id ∈ changes.map Change.id, id ∉ inheritedNames) (id : String) :
    Placed changes (changes.foldl applyChange ⟨InsertionMap.empty,InsertionMap.empty⟩) id := by
  induction changes using List.reverseRecOn with
  | nil => exact .unnamed List.not_mem_nil rfl rfl
  | append_singleton changes change ih =>
    have hbefore := ih fun other hother => h other (by
      rw [List.map_append]
      exact List.mem_append_left _ hother)
    have hnew := h change.id (mem_append_own changes change)
    rw [List.foldl_append,List.foldl_cons,List.foldl_nil]
    by_cases hid : change.id = id
    · subst hid
      cases change with
      | upsert contact => exact hbefore.upsert hnew
      | update changed => exact hbefore.update hnew
    · exact hbefore.other hid

end Merging

section Release

/-- Entries are released under their own identifiers. -/
theorem about_values {pending : InsertionMap String Fields} (h : ∀ id fields, pending.get id = some fields → idOf fields = id)
    (id : String) : about id pending.values = (pending.get id).toList := by
  have hentries : ∀ entries : List (String × Fields), (entries.map Prod.fst).Nodup →
      (∀ entry ∈ entries, idOf entry.2 = entry.1) →
      about id (entries.map Prod.snd) = (InsertionMap.find entries id).toList := by
    intro entries
    induction entries with
    | nil => exact fun _ _ => rfl
    | cons entry rest ih =>
      intro hnodup hnamed
      obtain ⟨name,fields⟩ := entry
      rw [List.map_cons,List.nodup_cons] at hnodup
      have hrest := ih hnodup.2 fun other hother => hnamed other (List.mem_cons_of_mem _ hother)
      have hfields : idOf fields = name := hnamed (name,fields) List.mem_cons_self
      rw [List.map_cons,about,List.filter_cons,InsertionMap.find,hfields]
      unfold about at hrest
      rw [hrest]
      by_cases hname : name = id
      · have hnone : InsertionMap.find rest id = none :=
          InsertionMap.find_eq_none_iff.mpr (hname ▸ hnodup.1)
        rw [if_pos hname,if_pos (decide_eq_true hname),hnone]
        rfl
      · rw [if_neg hname,if_neg (by simpa using hname)]
  refine hentries pending.entries pending.nodup fun entry hentry => ?_
  exact h entry.1 entry.2 (InsertionMap.get_eq_some_iff.mpr hentry)

/-- Names of built-in members are never pending. -/
structure NeverInherited (data : ContactData) : Prop where
  /-- Among upserts, entries are named by their identifiers, none of which is built in. -/
  upserts : ∀ id fields, data.contactUpserts.get id = some fields → idOf fields = id ∧ id ∉ inheritedNames
  /-- So are updates. -/
  updates : ∀ id fields, data.contactUpdates.get id = some fields → idOf fields = id ∧ id ∉ inheritedNames

/-- Storing under a name that is not built in. -/
theorem NeverInherited.set {pending : InsertionMap String Fields} {id : String} {fields : Fields}
    (h : ∀ id fields, pending.get id = some fields → idOf fields = id ∧ id ∉ inheritedNames)
    (hfields : idOf fields = id) (hid : id ∉ inheritedNames) :
    ∀ other found, (pending.set id fields).get other = some found → idOf found = other ∧ other ∉ inheritedNames := by
  intro other found hget
  rw [InsertionMap.get_set] at hget
  split at hget
  · rename_i heq
    cases hget
    exact heq ▸ ⟨hfields,hid⟩
  · exact h other found hget

theorem NeverInherited.delete {pending : InsertionMap String Fields} (id : String)
    (h : ∀ id fields, pending.get id = some fields → idOf fields = id ∧ id ∉ inheritedNames) :
    ∀ other found, (pending.delete id).get other = some found → idOf found = other ∧ other ∉ inheritedNames := by
  intro other found hget
  rw [InsertionMap.get_delete] at hget
  split at hget
  · cases hget
  · exact h other found hget

theorem NeverInherited.appendUpsert {data : ContactData} (h : NeverInherited data) (contact : Contact) :
    NeverInherited (appendUpsert data contact).1 := by
  unfold ContactBuffer.appendUpsert
  dsimp only
  split
  · rename_i existing hheld
    exact ⟨NeverInherited.set h.upserts (idOf_trim _ contact) (h.upserts _ _ (lookup_own hheld)).2,
      NeverInherited.delete _ h.updates⟩
  · exact ⟨h.upserts,NeverInherited.delete _ h.updates⟩
  · rename_i hheld
    refine ⟨NeverInherited.set h.upserts ?_ (lookup_nothing hheld).2,NeverInherited.delete _ h.updates⟩
    split
    · exact idOf_fillGaps contact _
    · exact idOf_contact contact

theorem NeverInherited.appendUpdate {data : ContactData} (h : NeverInherited data) (changed : Fields) :
    NeverInherited (appendUpdate data changed).1 := by
  unfold ContactBuffer.appendUpdate
  dsimp only
  split
  · rename_i existing hheld
    have hown := h.upserts _ _ (lookup_own hheld)
    exact ⟨NeverInherited.set h.upserts (idOf_assign hown.1 rfl) hown.2,h.updates⟩
  · exact h
  · rename_i hheld
    refine ⟨h.upserts,NeverInherited.set h.updates ?_ (lookup_nothing hheld).2⟩
    split
    · rename_i pending hpending
      exact idOf_assign (h.updates _ _ (lookup_own hpending)).1 rfl
    · unfold idOf assign
      cases changed .id with
      | none => rfl
      | some value => rfl

theorem NeverInherited.appendAll {α : Type} {append : ContactData → α → ContactData × Bool}
    (happend : ∀ data item, NeverInherited data → NeverInherited (append data item).1) {data : ContactData}
    (h : NeverInherited data) (items : List α) : NeverInherited (appendAll append data items) := by
  induction items generalizing data with
  | nil => exact h
  | cons item rest ih =>
    rw [ContactBuffer.appendAll]
    split
    · exact happend data item h
    · exact ih (happend data item h)

/-- Whatever was emitted. -/
theorem neverInherited_pendingAfter (events : List ContactEvent) : NeverInherited (pendingAfter events) := by
  have hall : ∀ data, NeverInherited data → NeverInherited (events.foldl appendEvent data) := by
    induction events with
    | nil => exact fun data h => h
    | cons event rest ih =>
      intro data h
      refine ih _ ?_
      cases event with
      | upsert contacts => exact NeverInherited.appendAll (fun data item h => h.appendUpsert item) h contacts
      | update updates => exact NeverInherited.appendAll (fun data item h => h.appendUpdate item) h updates
  exact hall _ ⟨fun id fields h => (by cases h),fun id fields h => (by cases h)⟩

/-- Buffered contacts are last-writer-wins exactly when no contact is named like a
built-in member. -/
theorem contacts_last_writer_wins (events : List ContactEvent) : LastWriterWins events ↔ NotInherited events := by
  have hnever := neverInherited_pendingAfter events
  have hupserts : ∀ id, about id (releasedUpserts events) = ((pendingAfter events).contactUpserts.get id).toList :=
    about_values fun id fields h => (hnever.upserts id fields h).1
  have hupdates : ∀ id, about id (releasedUpdates events) = ((pendingAfter events).contactUpdates.get id).toList :=
    about_values fun id fields h => (hnever.updates id fields h).1
  constructor
  · intro h id hid hinherited
    have hnone : (pendingAfter events).contactUpserts.get id = none ∧
        (pendingAfter events).contactUpdates.get id = none := by
      constructor
      · cases hget : (pendingAfter events).contactUpserts.get id with
        | none => rfl
        | some fields => exact absurd hinherited (hnever.upserts id fields hget).2
      · cases hget : (pendingAfter events).contactUpdates.get id with
        | none => rfl
        | some fields => exact absurd hinherited (hnever.updates id fields hget).2
    obtain ⟨fields,_,hplace⟩ := h id hid
    rw [hupserts,hupdates,hnone.1,hnone.2] at hplace
    split at hplace
    · exact absurd hplace.1 (List.cons_ne_nil _ _).symm
    · exact absurd hplace.2 (List.cons_ne_nil _ _).symm
  · intro h id hid
    have hplaced := placed_run (events.flatMap ContactEvent.changes) h id
    rw [← pendingAfter_eq h] at hplaced
    cases hplaced with
    | unnamed hnone _ _ => exact absurd hid hnone
    | updated fields _ hflag hu hp hholds =>
      refine ⟨fields,hholds.same,?_⟩
      rw [hupserts,hupdates,hu,hp,if_neg (by rw [← wasUpserted,hflag]; exact Bool.false_ne_true)]
      exact ⟨rfl,rfl⟩
    | upserted fields _ hflag hu hp hholds =>
      refine ⟨fields,hholds.same,?_⟩
      rw [hupserts,hupdates,hu,hp,if_pos (by rw [← wasUpserted,hflag])]
      exact ⟨rfl,rfl⟩

/-- A contact named like a built-in member is lost. -/
theorem contacts_inherited_lost :
    ¬LastWriterWins [.upsert [⟨fun field => if field = .id then some (.text "constructor") else none,
      "constructor",rfl⟩]] := by
  intro h
  obtain ⟨fields,_,hplace⟩ := h "constructor" List.mem_cons_self
  have hplace : about "constructor" [] = [fields] ∧ about "constructor" [] = [] := hplace
  exact absurd hplace.1 (List.cons_ne_nil _ _).symm

end Release

end Baileyrs.ContactBuffer
