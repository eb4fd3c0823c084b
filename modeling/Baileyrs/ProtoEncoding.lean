import Baileyrs.ProtoForms

/-!
# Encoders see the same message

The projection before an encode, the rewriting of aliases on the send path and
the repair after a refused encode, each as what it does to the members of an
object and then to the form of a tree. The projection brings a public alias
back when an instance was held under it; otherwise both encoders see the own
fields of the message, and after a repair the same fields with the refused
values put back.
-/

namespace Baileyrs.ProtoRuntime

open JsString

/-- The properties a pass visits, field by field. -/
def heldVisits (held : ProtoField → Option (JsString × Value)) (fields : List ProtoField) :
    List (ProtoField × JsString × Value) :=
  fields.filterMap fun field => (held field).map fun named => (field,named.1,named.2)

/-- Distinct names are visited once each. -/
theorem nodup_heldVisits {held : ProtoField → Option (JsString × Value)} {keys : ProtoField → List JsString}
    {fields : List ProtoField} (hnodup : (fields.flatMap keys).Nodup)
    (hheld : ∀ field ∈ fields, ∀ named, held field = some named → named.1 ∈ keys field) :
    ((heldVisits held fields).map fun visit => visit.2.1).Nodup ∧
      ∀ visit ∈ heldVisits held fields, visit.2.1 ∈ fields.flatMap keys := by
  induction fields with
  | nil => exact ⟨List.nodup_nil,fun visit hvisit => nomatch hvisit⟩
  | cons field rest ih =>
    rw [List.flatMap_cons] at hnodup
    obtain ⟨_,hrest,hcross⟩ := List.nodup_append.mp hnodup
    obtain ⟨hnames,hmem⟩ := ih hrest fun other hother => hheld other (List.mem_cons_of_mem _ hother)
    unfold heldVisits at hnames hmem ⊢
    rw [List.filterMap_cons]
    cases hfield : held field with
    | none =>
      rw [Option.map_none]
      refine ⟨hnames,fun visit hvisit => ?_⟩
      rw [List.flatMap_cons]
      exact List.mem_append_right _ (hmem visit hvisit)
    | some named =>
      have hkey := hheld field List.mem_cons_self named hfield
      rw [Option.map_some]
      dsimp only
      refine ⟨?_,fun visit hvisit => ?_⟩
      · rw [List.map_cons,List.nodup_cons]
        refine ⟨fun hin => ?_,hnames⟩
        obtain ⟨visit,hvisit,heq⟩ := List.mem_map.mp hin
        exact hcross _ hkey _ (hmem visit hvisit) heq.symm
      · rw [List.flatMap_cons]
        rcases List.mem_cons.mp hvisit with rfl | hvisit
        · exact List.mem_append_left _ hkey
        · exact List.mem_append_right _ (hmem visit hvisit)

theorem mem_heldVisits {held : ProtoField → Option (JsString × Value)} {fields : List ProtoField}
    {visit : ProtoField × JsString × Value} :
    visit ∈ heldVisits held fields ↔ visit.1 ∈ fields ∧ held visit.1 = some visit.2 := by
  unfold heldVisits
  rw [List.mem_filterMap]
  constructor
  · rintro ⟨field,hfield,hmap⟩
    obtain ⟨named,hnamed,rfl⟩ := Option.map_eq_some_iff.mp hmap
    exact ⟨hfield,hnamed⟩
  · rintro ⟨hfield,hheld⟩
    refine ⟨visit.1,hfield,?_⟩
    rw [hheld]
    rfl

/-- The members of a copy are those of the original when nothing was copied. -/
theorem getD_original {output : Option Value} {prototype other : Prototype} {members last : Members}
    (h : output.getD (.object .plain members) = .object other last) :
    ∃ final, output.getD (.object prototype members) = .object final last := by
  cases output with
  | none =>
    cases h
    exact ⟨prototype,rfl⟩
  | some value => exact ⟨other,h⟩

/-- The members of an object with its aliased field under the bridge name. -/
def renamedMembers (members : Members) (names : Option (JsString × JsString)) : Members :=
  match names with
  | none => members
  | some names =>
    match InsertionMap.find members names.1 with
    | none => members
    | some value => (InsertionMap.put members names.2 value).filter fun member => member.1 ≠ names.1

theorem nodup_renamedMembers {members : Members} (names : Option (JsString × JsString))
    (h : (members.map Prod.fst).Nodup) : ((renamedMembers members names).map Prod.fst).Nodup := by
  unfold renamedMembers
  cases names with
  | none => exact h
  | some names =>
    dsimp only
    cases InsertionMap.find members names.1 with
    | none => exact h
    | some value =>
      have hput := (InsertionMap.set ⟨members,h⟩ names.2 value).nodup
      exact hput.sublist (List.filter_sublist.map _)

/-- Visiting properties is visiting fields and looking each up. -/
theorem changeVisits_heldVisits (change : ProtoField → Value → Option Value) (copy : Value)
    (held : ProtoField → Option (JsString × Value)) (fields : List ProtoField) (output : Option Value) :
    changeVisits change copy (heldVisits held fields) output =
      fields.foldl (fun output field =>
        match held field with
        | none => output
        | some named => changeMember (change field) copy field named.1 output named.2) output := by
  induction fields generalizing output with
  | nil => rfl
  | cons field rest ih =>
    unfold heldVisits changeVisits at ih ⊢
    rw [List.filterMap_cons,List.foldl_cons]
    cases held field with
    | none => exact ih output
    | some named => exact ih _

/-- What visits leave in the object they started from. -/
theorem visits_node {change : ProtoField → Value → Option Value} {visits : List (ProtoField × JsString × Value)}
    {output : Option Value} {prototype start : Prototype} {members before : Members}
    (hnodup : (visits.map fun visit => visit.2.1).Nodup)
    (houtput : output.getD (.object .plain members) = .object start before) :
    ∃ other last, (changeVisits change (.object .plain members) visits output).getD (.object prototype members) =
        .object other last ∧ ((before.map Prod.fst).Nodup → (last.map Prod.fst).Nodup) ∧
      (∀ visit ∈ visits, InsertionMap.find last visit.2.1 =
        (newValue change visit.1 visit.2.2).or (InsertionMap.find before visit.2.1)) ∧
      ∀ key, (∀ visit ∈ visits, visit.2.1 ≠ key) → InsertionMap.find last key = InsertionMap.find before key := by
  obtain ⟨last,hlast,hfacts⟩ := changeVisits_find change hnodup houtput
  obtain ⟨final,hfinal⟩ := @getD_original _ prototype _ _ _ hlast
  exact ⟨final,last,hfinal,hfacts⟩

section Aliases

variable {schemas : Schemas} {schemaId : ℕ}

/-- The two names of an aliased field differ. -/
theorem alias_ne {names : JsString × JsString} (h : schemas.aliasFor schemaId = some names) : names.1 ≠ names.2 := by
  have hlisted : ∀ entry ∈ fieldAliases, entry.2.1 ≠ entry.2.2 := by decide
  unfold Schemas.aliasFor at h
  obtain ⟨schema,_,halias⟩ := Option.bind_eq_some_iff.mp h
  have hnodup : (fieldAliases.map Prod.fst).Nodup := by decide
  unfold aliasOf at halias
  exact hlisted _ ((InsertionMap.find_eq_some_iff hnodup).mp halias)

/-- Value of a field, under its own public name or else its bridge name. -/
def heldValue (names : Option (JsString × JsString)) (members : Members) (field : ProtoField) : Option Value :=
  (treeKey members field names).map Prod.snd

/-- Value of a field under its bridge name. -/
def bridgeValue (names : Option (JsString × JsString)) (members : Members) (field : ProtoField) :
    Option Value := InsertionMap.find members (bridgeName names field)

theorem heldValue_eq (names : Option (JsString × JsString)) (members : Members) (field : ProtoField) :
    heldValue names members field =
      (InsertionMap.find members field.name).or (InsertionMap.find members (bridgeName names field)) := by
  unfold heldValue treeKey bridgeName
  cases hfind : InsertionMap.find members field.name with
  | some value => rfl
  | none =>
    rw [Option.none_or]
    cases names with
    | none => exact hfind.symm
    | some names =>
      dsimp only
      split
      · rw [Option.map_map]
        cases InsertionMap.find members names.2 with
        | _ => rfl
      · exact hfind.symm

/-- A moved field is no longer held under its public name. -/
theorem find_renamed_public {members : Members} {names : JsString × JsString}
    (h : schemas.aliasFor schemaId = some names) :
    InsertionMap.find (renamedMembers members (schemas.aliasFor schemaId)) names.1 = none := by
  rw [h]
  unfold renamedMembers
  dsimp only
  cases hfind : InsertionMap.find members names.1 with
  | none => exact hfind
  | some value =>
    dsimp only
    rw [InsertionMap.find_filter,if_pos rfl]

/-- A moved field is held under its bridge name. -/
theorem find_renamed_bridge {members : Members} {names : JsString × JsString}
    (h : schemas.aliasFor schemaId = some names) :
    InsertionMap.find (renamedMembers members (schemas.aliasFor schemaId)) names.2 =
      (InsertionMap.find members names.1).or (InsertionMap.find members names.2) := by
  rw [h]
  unfold renamedMembers
  dsimp only
  cases hfind : InsertionMap.find members names.1 with
  | none => rfl
  | some value =>
    dsimp only
    rw [InsertionMap.find_filter,if_neg (alias_ne h),InsertionMap.find_put,if_pos rfl]
    rfl

/-- Every other property is as it was. -/
theorem find_renamed_other {members : Members} {key : JsString}
    (h : ∀ names, schemas.aliasFor schemaId = some names → names.1 ≠ key ∧ names.2 ≠ key) :
    InsertionMap.find (renamedMembers members (schemas.aliasFor schemaId)) key = InsertionMap.find members key := by
  unfold renamedMembers
  cases hnames : schemas.aliasFor schemaId with
  | none => rfl
  | some names =>
    obtain ⟨hpublic,hbridge⟩ := h names hnames
    dsimp only
    cases InsertionMap.find members names.1 with
    | none => rfl
    | some value =>
      dsimp only
      rw [InsertionMap.find_filter,if_neg hpublic,InsertionMap.find_put,if_neg hbridge]

/-- The field has a second name. -/
def Aliased (names : Option (JsString × JsString)) (field : ProtoField) : Prop :=
  ∃ pair, names = some pair ∧ pair.1 = field.name

theorem bridgeName_of_aliased {names : JsString × JsString} {field : ProtoField} (h : names.1 = field.name) :
    bridgeName (some names) field = names.2 := by
  unfold bridgeName
  dsimp only
  rw [if_pos h]

theorem bridgeName_of_not_aliased {names : Option (JsString × JsString)} {field : ProtoField}
    (h : ¬Aliased names field) : bridgeName names field = field.name := by
  unfold bridgeName
  cases names with
  | none => rfl
  | some names =>
    dsimp only
    rw [if_neg fun heq => h ⟨names,rfl,heq⟩]

theorem heldValue_of_not_aliased {names : Option (JsString × JsString)} {members : Members} {field : ProtoField}
    (h : ¬Aliased names field) : heldValue names members field = InsertionMap.find members field.name := by
  rw [heldValue_eq,bridgeName_of_not_aliased h]
  cases InsertionMap.find members field.name with
  | _ => rfl

end Aliases

/-- What a pass that moves aliased fields does to an object: a field with one
name has its messages changed, and the other is found under its bridge name. -/
structure RenamesObject (schemas : Schemas) (schemaId : ℕ) (change : ProtoField → Value → Option Value)
    (members last : Members) : Prop where
  /-- Keys stay distinct. -/
  distinct : (members.map Prod.fst).Nodup → (last.map Prod.fst).Nodup
  /-- Fields with one name. -/
  single : ∀ field ∈ schemas.fieldsOf schemaId, ¬Aliased (schemas.aliasFor schemaId) field →
    InsertionMap.find last field.name = (InsertionMap.find members field.name).map fun value =>
      if field.kind = .message then (newValue change field value).getD value else value
  /-- The aliased field. -/
  moved : ∀ names, schemas.aliasFor schemaId = some names → InsertionMap.find last names.2 =
    (InsertionMap.find members names.1).or (InsertionMap.find members names.2)

section Project

variable (schemas : Schemas)

/-- Message fields of one name are one field. -/
theorem field_unique {schemas : Schemas} {schemaId : ℕ} {first second : ProtoField}
    (hfirst : first ∈ schemas.fieldsOf schemaId) (hsecond : second ∈ schemas.fieldsOf schemaId)
    (h : first.name = second.name) : first = second :=
  List.inj_on_of_nodup_map (nodup_fieldsOf schemas schemaId) hfirst hsecond h

theorem mem_messageFields {schemas : Schemas} {schemaId : ℕ} {field : ProtoField} :
    field ∈ schemas.messageFields schemaId ↔ field ∈ schemas.fieldsOf schemaId ∧ field.kind = .message := by
  unfold Schemas.messageFields
  rw [List.mem_filter,decide_eq_true_eq]

/-- What the projection leaves in an object; the public name of an aliased
message field is back when its message changed. -/
theorem projectTree_node (fuel schemaId : ℕ) (prototype : Prototype) (members : Members) :
    ∃ other last, (projectTree schemas (fuel+1) schemaId (.object prototype members)).getD
        (.object prototype members) = .object other last ∧
      RenamesObject schemas schemaId (fun field => projectTree schemas fuel field.reference) members last ∧
      ∀ names, schemas.aliasFor schemaId = some names → InsertionMap.find last names.1 =
        (InsertionMap.find members names.1).bind fun value =>
          ((schemas.messageFields schemaId).find? fun field => field.name = names.1).bind fun field =>
            newValue (fun field => projectTree schemas fuel field.reference) field value := by
  have hrenamed : (renameTree members (schemas.aliasFor schemaId)
      (copyInstanceTree prototype members)).getD (.object .plain members) =
      .object .plain (renamedMembers members (schemas.aliasFor schemaId)) := by
    have hcopy : (copyInstanceTree prototype members).getD (.object .plain members) = .object .plain members := by
      cases prototype with
      | _ => rfl
    unfold renameTree renamedMembers
    cases schemas.aliasFor schemaId with
    | none => exact hcopy
    | some names =>
      dsimp only
      cases InsertionMap.find members names.1 with
      | none => exact hcopy
      | some value =>
        dsimp only
        rw [hcopy]
        rfl
  have hnames : ((schemas.messageFields schemaId).flatMap fun field => [field.name]).Nodup := by
    rw [←List.map_eq_flatMap]
    exact (nodup_fieldsOf schemas schemaId).sublist (List.filter_sublist.map _)
  obtain ⟨hdistinct,_⟩ := @nodup_heldVisits (fun field => (InsertionMap.find members field.name).map fun value =>
    (field.name,value)) (fun field => [field.name]) _ hnames fun field _ named hnamed => by
      obtain ⟨value,_,rfl⟩ := Option.map_eq_some_iff.mp hnamed
      exact List.mem_cons_self
  have htree : projectTree schemas (fuel+1) schemaId (.object prototype members) =
      changeVisits (fun field => projectTree schemas fuel field.reference) (.object .plain members)
        (heldVisits (fun field => (InsertionMap.find members field.name).map fun value => (field.name,value))
          (schemas.messageFields schemaId))
        (renameTree members (schemas.aliasFor schemaId) (copyInstanceTree prototype members)) := by
    rw [changeVisits_heldVisits,projectTree]
    congr 1
    funext output field
    cases InsertionMap.find members field.name with
    | _ => rfl
  obtain ⟨final,last,hfinal,hkeys,hvisited,hother⟩ := @visits_node
    (fun field => projectTree schemas fuel field.reference) _ _ prototype _ _ _ hdistinct hrenamed
  rw [←htree] at hfinal
  have hheld : ∀ field ∈ schemas.messageFields schemaId, ∀ value, InsertionMap.find members field.name = some value →
      InsertionMap.find last field.name =
        (newValue (fun field => projectTree schemas fuel field.reference) field value).or
          (InsertionMap.find (renamedMembers members (schemas.aliasFor schemaId)) field.name) := by
    intro field hfield value hvalue
    have hmem : (field,field.name,value) ∈ heldVisits (fun field => (InsertionMap.find members field.name).map
        fun value => (field.name,value)) (schemas.messageFields schemaId) := by
      rw [mem_heldVisits]
      exact ⟨hfield,by rw [hvalue]; rfl⟩
    exact hvisited _ hmem
  have hfree : ∀ key, (∀ field ∈ schemas.messageFields schemaId, field.name = key →
      InsertionMap.find members key = none) → InsertionMap.find last key =
        InsertionMap.find (renamedMembers members (schemas.aliasFor schemaId)) key := by
    intro key hno
    refine hother key fun visit hvisit heq => ?_
    obtain ⟨hfield,hheld⟩ := mem_heldVisits.mp hvisit
    obtain ⟨value,hvalue,hpair⟩ := Option.map_eq_some_iff.mp hheld
    have hname : visit.1.name = key := (congrArg Prod.fst hpair).trans heq
    rw [hname,hno visit.1 hfield hname] at hvalue
    cases hvalue
  refine ⟨final,last,hfinal,⟨fun h => hkeys (nodup_renamedMembers _ h),fun field hfield hsingle => ?_,
    fun names halias => ?_⟩,fun names halias => ?_⟩
  · have hkept : InsertionMap.find (renamedMembers members (schemas.aliasFor schemaId)) field.name =
        InsertionMap.find members field.name := by
      refine find_renamed_other fun names halias => ⟨fun heq => hsingle ⟨names,halias,heq⟩,fun heq => ?_⟩
      exact alias_notMem halias (heq ▸ List.mem_map_of_mem hfield)
    cases hvalue : InsertionMap.find members field.name with
    | none => rw [hfree _ fun other _ _ => hvalue,hkept,hvalue,Option.map_none]
    | some value =>
      rw [Option.map_some]
      by_cases hkind : field.kind = .message
      · rw [if_pos hkind,hheld field (mem_messageFields.mpr ⟨hfield,hkind⟩) value hvalue,hkept,hvalue]
        cases newValue (fun field => projectTree schemas fuel field.reference) field value with
        | _ => rfl
      · have hno : ∀ other ∈ schemas.messageFields schemaId, other.name = field.name →
            InsertionMap.find members field.name = none := by
          intro other hmem heq
          obtain ⟨hlisted,hmessage⟩ := mem_messageFields.mp hmem
          rw [field_unique hlisted hfield heq] at hmessage
          exact absurd hmessage hkind
        rw [if_neg hkind,hfree _ hno,hkept,hvalue]
  · have hno : ∀ other ∈ schemas.messageFields schemaId, other.name = names.2 →
        InsertionMap.find members names.2 = none := fun other hmem heq =>
      absurd (heq ▸ List.mem_map_of_mem (mem_messageFields.mp hmem).1) (alias_notMem halias)
    rw [hfree _ hno,find_renamed_bridge halias]
  · cases hvalue : InsertionMap.find members names.1 with
    | none => rw [hfree _ fun other _ _ => hvalue,find_renamed_public halias,Option.bind_none]
    | some value =>
      rw [Option.bind_some]
      cases hfind : (schemas.messageFields schemaId).find? fun field => field.name = names.1 with
      | none =>
        have hno : ∀ other ∈ schemas.messageFields schemaId, other.name = names.1 →
            InsertionMap.find members names.1 = none := by
          intro other hmem heq
          have hapart := List.find?_eq_none.mp hfind other hmem
          exact absurd (decide_eq_true heq) hapart
        rw [hfree _ hno,find_renamed_public halias,Option.bind_none]
      | some field =>
        have hfound := List.find?_some hfind
        have hname : field.name = names.1 := of_decide_eq_true hfound
        have hplaced := hheld field (List.mem_of_find?_eq_some hfind) value (hname ▸ hvalue)
        rw [hname,find_renamed_public halias,Option.or_none] at hplaced
        rw [hplaced,Option.bind_some]

/-- A message without aliased field and message-typed fields is only copied by
the projection, when it is an instance. -/
theorem projectTree_leaf {schemaId : ℕ} (hnames : schemas.aliasFor schemaId = none)
    (hfields : schemas.messageFields schemaId = []) (fuel : ℕ) (prototype : Prototype) (members : Members) :
    projectTree schemas (fuel+1) schemaId (.object prototype members) = copyInstanceTree prototype members := by
  rw [projectTree,hnames,hfields]
  rfl

/-- Such a message has nothing to rename. -/
theorem aliasTree_leaf {schemaId : ℕ} (hnames : schemas.aliasFor schemaId = none)
    (hfields : schemas.messageFields schemaId = []) (fuel : ℕ) (value : Value) :
    aliasTree schemas fuel schemaId value = none := by
  cases fuel with
  | zero => rfl
  | succ fuel =>
    cases value with
    | object prototype members =>
      rw [aliasTree,hnames,hfields]
      have hfold : ∀ members : Members, members.foldl (fun (output : Option Value) _ => output) none = none := by
        intro members
        induction members with
        | nil => rfl
        | cons member rest ih => exact ih
      exact hfold members
    | _ => rfl

/-- The properties the rewriting of aliases visits. -/
def aliasVisits (schemaId : ℕ) (members : Members) : List (ProtoField × JsString × Value) :=
  members.filterMap fun member =>
    if (schemas.aliasFor schemaId).any fun names => member.1 = names.1 then none
    else ((schemas.messageFields schemaId).find? fun field => field.name = member.1).map fun field => (field,member)

/-- What the rewriting of aliases leaves in an object; no public name of an
aliased field is left. -/
theorem aliasTree_node (fuel schemaId : ℕ) (prototype : Prototype) {members : Members}
    (hdistinct : (members.map Prod.fst).Nodup) :
    ∃ other last, (aliasTree schemas (fuel+1) schemaId (.object prototype members)).getD
        (.object prototype members) = .object other last ∧
      RenamesObject schemas schemaId (fun field => aliasTree schemas fuel field.reference) members last ∧
      ∀ names, schemas.aliasFor schemaId = some names → InsertionMap.find last names.1 = none := by
  have hmoved : (moveAliasTree (aliasTree schemas fuel) (schemas.messageFields schemaId) members
      (schemas.aliasFor schemaId)).getD (.object .plain members) =
      .object .plain (renamedMembers members (schemas.aliasFor schemaId)) := by
    unfold moveAliasTree renamedMembers
    cases hnames : schemas.aliasFor schemaId with
    | none => rfl
    | some names =>
      dsimp only
      cases hvalue : InsertionMap.find members names.1 with
      | none => rfl
      | some moved =>
        have hsame : aliasValue (aliasTree schemas fuel) (schemas.messageFields schemaId) names.1 moved = moved := by
          unfold aliasValue
          cases hfind : (schemas.messageFields schemaId).find? fun field => field.name = names.1 with
          | none => rfl
          | some field =>
            obtain ⟨hfield,hkind⟩ := mem_messageFields.mp (List.mem_of_find?_eq_some hfind)
            have hfound := List.find?_some hfind
            have hname : field.name = names.1 := of_decide_eq_true hfound
            obtain ⟨_,_,hleaf,hfields⟩ := alias_leaf hnames hfield hkind hname.symm
            dsimp only
            rw [aliasTree_leaf schemas hleaf hfields]
            split
            · rfl
            · rfl
        dsimp only
        rw [hsame]
        rfl
  have hvisits : ∀ visit ∈ aliasVisits schemas schemaId members,
      visit.1 ∈ schemas.messageFields schemaId ∧ visit.1.name = visit.2.1 ∧
        ¬Aliased (schemas.aliasFor schemaId) visit.1 ∧ visit.2 ∈ members := by
    intro visit hvisit
    obtain ⟨member,hmember,hsome⟩ := List.mem_filterMap.mp hvisit
    split at hsome
    · cases hsome
    · rename_i halias
      obtain ⟨field,hfind,rfl⟩ := Option.map_eq_some_iff.mp hsome
      have hfound := List.find?_some hfind
      have hname : field.name = member.1 := of_decide_eq_true hfound
      refine ⟨List.mem_of_find?_eq_some hfind,hname,?_,hmember⟩
      rintro ⟨pair,hpair,heq⟩
      rw [hpair,Option.any_some] at halias
      exact halias (decide_eq_true (hname.symm.trans heq.symm))
  have hnodup : ((aliasVisits schemas schemaId members).map fun visit => visit.2.1).Nodup := by
    have hsublist : ∀ rest : Members,
        ((aliasVisits schemas schemaId rest).map fun visit => visit.2.1).Sublist (rest.map Prod.fst) := by
      intro rest
      unfold aliasVisits
      induction rest with
      | nil => exact List.Sublist.slnil
      | cons member rest ih =>
        rw [List.filterMap_cons]
        split
        · exact ih.cons _
        · rename_i visit hsome
          split at hsome
          · cases hsome
          · obtain ⟨field,_,rfl⟩ := Option.map_eq_some_iff.mp hsome
            exact ih.cons_cons _
    exact hdistinct.sublist (hsublist members)
  have htree : aliasTree schemas (fuel+1) schemaId (.object prototype members) =
      changeVisits (fun field => aliasTree schemas fuel field.reference) (.object .plain members)
        (aliasVisits schemas schemaId members)
        (moveAliasTree (aliasTree schemas fuel) (schemas.messageFields schemaId) members
          (schemas.aliasFor schemaId)) := by
    rw [changeVisits,aliasVisits,List.foldl_filterMap,aliasTree]
    congr 1
    funext output member
    split
    · rfl
    · cases (schemas.messageFields schemaId).find? fun field => field.name = member.1 with
      | _ => rfl
  obtain ⟨final,last,hfinal,hkeys,hvisited,hother⟩ := @visits_node
    (fun field => aliasTree schemas fuel field.reference) _ _ prototype _ _ _ hnodup hmoved
  rw [←htree] at hfinal
  refine ⟨final,last,hfinal,⟨fun h => hkeys (nodup_renamedMembers _ h),fun field hfield hsingle => ?_,
    fun names halias => ?_⟩,fun names halias => ?_⟩
  · have hkept : InsertionMap.find (renamedMembers members (schemas.aliasFor schemaId)) field.name =
        InsertionMap.find members field.name := by
      refine find_renamed_other fun names halias => ⟨fun heq => hsingle ⟨names,halias,heq⟩,fun heq => ?_⟩
      exact alias_notMem halias (heq ▸ List.mem_map_of_mem hfield)
    cases hvalue : InsertionMap.find members field.name with
    | none =>
      have hno : ∀ visit ∈ aliasVisits schemas schemaId members, visit.2.1 ≠ field.name := by
        intro visit hvisit heq
        obtain ⟨_,_,_,hmem⟩ := hvisits visit hvisit
        exact InsertionMap.find_eq_none_iff.mp hvalue (heq ▸ List.mem_map_of_mem hmem)
      rw [hother _ hno,hkept,hvalue,Option.map_none]
    | some value =>
      rw [Option.map_some]
      by_cases hkind : field.kind = .message
      · have hmem : (field,field.name,value) ∈ aliasVisits schemas schemaId members := by
          refine List.mem_filterMap.mpr ⟨_,(InsertionMap.find_eq_some_iff hdistinct).mp hvalue,?_⟩
          have hany : ¬((schemas.aliasFor schemaId).any fun names => field.name = names.1) = true := by
            intro hany
            cases hnames : schemas.aliasFor schemaId with
            | none =>
              rw [hnames] at hany
              cases hany
            | some pair =>
              rw [hnames,Option.any_some] at hany
              exact hsingle ⟨pair,hnames,(of_decide_eq_true hany).symm⟩
          have hfind : ((schemas.messageFields schemaId).find? fun other => other.name = field.name) = some field := by
            cases hfound : (schemas.messageFields schemaId).find? fun other => other.name = field.name with
            | none =>
              have hapart := List.find?_eq_none.mp hfound field (mem_messageFields.mpr ⟨hfield,hkind⟩)
              exact absurd (decide_eq_true rfl) hapart
            | some other =>
              have hsame := List.find?_some hfound
              have hother := (mem_messageFields.mp (List.mem_of_find?_eq_some hfound)).1
              rw [field_unique hother hfield (of_decide_eq_true hsame)]
          rw [if_neg hany,hfind]
          rfl
        have hplaced := hvisited _ hmem
        dsimp only at hplaced
        rw [if_pos hkind,hplaced,hkept,hvalue]
        cases newValue (fun field => aliasTree schemas fuel field.reference) field value with
        | _ => rfl
      · have hno : ∀ visit ∈ aliasVisits schemas schemaId members, visit.2.1 ≠ field.name := by
          intro visit hvisit heq
          obtain ⟨hmem,hname,_,_⟩ := hvisits visit hvisit
          obtain ⟨hlisted,hmessage⟩ := mem_messageFields.mp hmem
          rw [field_unique hlisted hfield (hname.trans heq)] at hmessage
          exact hkind hmessage
        rw [if_neg hkind,hother _ hno,hkept,hvalue]
  · have hno : ∀ visit ∈ aliasVisits schemas schemaId members, visit.2.1 ≠ names.2 := by
      intro visit hvisit heq
      obtain ⟨hmem,hname,_,_⟩ := hvisits visit hvisit
      have hlisted := List.mem_map_of_mem (f := ProtoField.name) (mem_messageFields.mp hmem).1
      rw [hname,heq] at hlisted
      exact alias_notMem halias hlisted
    rw [hother _ hno,find_renamed_bridge halias]
  · have hno : ∀ visit ∈ aliasVisits schemas schemaId members, visit.2.1 ≠ names.1 := by
      intro visit hvisit heq
      obtain ⟨_,hname,hsingle,_⟩ := hvisits visit hvisit
      exact hsingle ⟨names,halias,(hname.trans heq).symm⟩
    rw [hother _ hno,find_renamed_public halias]

/-- A name is a spelling of one field. -/
theorem spelling_unique {schemas : Schemas} {schemaId : ℕ} {first second : ProtoField} {name : JsString}
    (hfirst : first ∈ schemas.fieldsOf schemaId) (hsecond : second ∈ schemas.fieldsOf schemaId)
    (hone : name ∈ spellings (schemas.aliasFor schemaId) first)
    (htwo : name ∈ spellings (schemas.aliasFor schemaId) second) : first = second := by
  obtain ⟨i,hi⟩ := List.mem_iff_getElem?.mp hfirst
  obtain ⟨j,hj⟩ := List.mem_iff_getElem?.mp hsecond
  have hone := (find_fieldPositionsOf schemas schemaId name i).mpr ⟨first,hi,hone⟩
  have htwo := (find_fieldPositionsOf schemas schemaId name j).mpr ⟨second,hj,htwo⟩
  rw [hone] at htwo
  cases htwo
  exact Option.some.inj (hi.symm.trans hj)

/-- The held name of a field is one of its spellings. -/
theorem treeKey_mem {members : Members} {field : ProtoField} {names : Option (JsString × JsString)}
    {named : JsString × Value} (h : treeKey members field names = some named) :
    named.1 ∈ spellings names field ∧ InsertionMap.find members named.1 = some named.2 := by
  unfold treeKey at h
  cases hfind : InsertionMap.find members field.name with
  | some value =>
    rw [hfind] at h
    cases h
    exact ⟨List.mem_cons_self,hfind⟩
  | none =>
    rw [hfind] at h
    cases names with
    | none => cases h
    | some names =>
      dsimp only at h
      split at h
      · rename_i heq
        obtain ⟨value,hvalue,rfl⟩ := Option.map_eq_some_iff.mp h
        refine ⟨?_,hvalue⟩
        unfold spellings
        dsimp only
        rw [if_pos heq]
        exact List.mem_cons_of_mem _ List.mem_cons_self
      · cases h

/-- What the repair leaves in an object: each field is repaired under the name it
has, and the rest is as before. -/
theorem repairTree_node (fuel schemaId : ℕ) (prototype : Prototype) (members : Members) :
    ∃ other last, (repairTree schemas (fuel+1) schemaId (.object prototype members)).getD
        (.object prototype members) = .object other last ∧ ((members.map Prod.fst).Nodup → (last.map Prod.fst).Nodup) ∧
      (∀ field ∈ schemas.fieldsOf schemaId, ∀ named, treeKey members field (schemas.aliasFor schemaId) = some named →
        InsertionMap.find last named.1 =
          some ((newValue (repairTreeItem schemas (repairTree schemas fuel)) field named.2).getD named.2)) ∧
      ∀ key, (∀ field ∈ schemas.fieldsOf schemaId, ∀ value,
        treeKey members field (schemas.aliasFor schemaId) ≠ some (key,value)) →
          InsertionMap.find last key = InsertionMap.find members key := by
  have hnames := nodup_spellings (nodup_fieldsOf schemas schemaId) fun pair h => alias_notMem h
  obtain ⟨hdistinct,_⟩ := @nodup_heldVisits (fun field => treeKey members field (schemas.aliasFor schemaId))
    (spellings (schemas.aliasFor schemaId)) _ hnames fun field _ named hnamed => (treeKey_mem hnamed).1
  have hnone : (none : Option Value).getD (.object .plain members) = .object .plain members := rfl
  have htree : repairTree schemas (fuel+1) schemaId (.object prototype members) =
      changeVisits (repairTreeItem schemas (repairTree schemas fuel)) (.object .plain members)
        (heldVisits (fun field => treeKey members field (schemas.aliasFor schemaId)) (schemas.fieldsOf schemaId))
        none := by
    rw [changeVisits_heldVisits]
    rfl
  obtain ⟨final,last,hfinal,hkeys,hvisited,hother⟩ := @visits_node
    (repairTreeItem schemas (repairTree schemas fuel)) _ _ prototype _ _ _ hdistinct hnone
  rw [←htree] at hfinal
  refine ⟨final,last,hfinal,hkeys,fun field hfield named hnamed => ?_,fun key hno => ?_⟩
  · have hplaced := hvisited (field,named) (mem_heldVisits.mpr ⟨hfield,hnamed⟩)
    rw [(treeKey_mem hnamed).2] at hplaced
    rw [hplaced]
    cases newValue (repairTreeItem schemas (repairTree schemas fuel)) field named.2 with
    | _ => rfl
  · refine hother key fun visit hvisit heq => ?_
    obtain ⟨hfield,hheld⟩ := mem_heldVisits.mp hvisit
    exact hno visit.1 hfield visit.2.2 (heq ▸ hheld)

/-- A repaired object holds the repaired values. -/
theorem heldValue_repair {fuel schemaId : ℕ} {members last : Members} {field : ProtoField}
    (hfield : field ∈ schemas.fieldsOf schemaId) (hheld : ∀ field ∈ schemas.fieldsOf schemaId, ∀ named,
      treeKey members field (schemas.aliasFor schemaId) = some named → InsertionMap.find last named.1 =
        some ((newValue (repairTreeItem schemas (repairTree schemas fuel)) field named.2).getD named.2))
    (hother : ∀ key, (∀ field ∈ schemas.fieldsOf schemaId, ∀ value,
      treeKey members field (schemas.aliasFor schemaId) ≠ some (key,value)) →
        InsertionMap.find last key = InsertionMap.find members key) : heldValue (schemas.aliasFor schemaId) last field =
      (heldValue (schemas.aliasFor schemaId) members field).map fun value =>
        (newValue (repairTreeItem schemas (repairTree schemas fuel)) field value).getD value := by
  have hfree : ∀ name ∈ spellings (schemas.aliasFor schemaId) field,
      (∀ value, treeKey members field (schemas.aliasFor schemaId) ≠ some (name,value)) →
        InsertionMap.find last name = InsertionMap.find members name := by
    intro name hname hno
    refine hother name fun other hmem value heq => ?_
    have hsame := spelling_unique hmem hfield (treeKey_mem heq).1 hname
    rw [hsame] at heq
    exact hno value heq
  have hbridge : bridgeName (schemas.aliasFor schemaId) field ∈ spellings (schemas.aliasFor schemaId) field := by
    unfold bridgeName spellings
    cases schemas.aliasFor schemaId with
    | none => exact List.mem_cons_self
    | some names =>
      dsimp only
      split
      · exact List.mem_cons_of_mem _ List.mem_cons_self
      · exact List.mem_cons_self
  rw [heldValue_eq (schemas.aliasFor schemaId) last field]
  unfold heldValue
  cases hkey : treeKey members field (schemas.aliasFor schemaId) with
  | none =>
    have hvalue := heldValue_eq (schemas.aliasFor schemaId) members field
    unfold heldValue at hvalue
    rw [hkey] at hvalue
    have hno : ∀ name value, treeKey members field (schemas.aliasFor schemaId) ≠ some (name,value) := by
      intro name value heq
      rw [hkey] at heq
      cases heq
    rw [hfree _ List.mem_cons_self (hno _),hfree _ hbridge (hno _),←hvalue]
    rfl
  | some named =>
    obtain ⟨name,value⟩ := named
    have hplaced := hheld field hfield _ hkey
    dsimp only at hplaced
    rw [Option.map_some,Option.map_some]
    by_cases hpublic : name = field.name
    · rw [←hpublic,hplaced]
      rfl
    · have habsent : InsertionMap.find members field.name = none := by
        cases hown : InsertionMap.find members field.name with
        | none => rfl
        | some other =>
          unfold treeKey at hkey
          rw [hown] at hkey
          cases hkey
          exact absurd rfl hpublic
      have hkept : InsertionMap.find last field.name = none := by
        rw [hfree field.name List.mem_cons_self fun other heq => ?_,habsent]
        rw [hkey] at heq
        cases heq
        exact hpublic rfl
      have hname : name = bridgeName (schemas.aliasFor schemaId) field := by
        have hspelling := (treeKey_mem hkey).1
        unfold spellings at hspelling
        unfold bridgeName
        rcases List.mem_cons.mp hspelling with heq | hspelling
        · exact absurd heq hpublic
        · cases hnames : schemas.aliasFor schemaId with
          | none =>
            rw [hnames] at hspelling
            cases hspelling
          | some names =>
            rw [hnames] at hspelling
            dsimp only at hspelling ⊢
            split at hspelling
            · rename_i heq
              rw [if_pos heq]
              exact List.mem_singleton.mp hspelling
            · cases hspelling
      rw [hkept,←hname,hplaced]
      rfl

end Project

/-- What a codec sees of a tree: the own fields of its objects, each under its
bridge name, as far as a depth. -/
def treeForm (schemas : Schemas)
    (held : Option (JsString × JsString) → Members → ProtoField → Option Value)
    (scalar : ProtoField → Value → Value) : ℕ → ℕ → Value → Value
  | 0,_,_ => .undefined
  | depth+1,schemaId,.object _ members =>
    .object .plain ((schemas.fieldsOf schemaId).filterMap fun field =>
      (held (schemas.aliasFor schemaId) members field).map fun value =>
        (bridgeName (schemas.aliasFor schemaId) field,
          mapItems (if field.kind = .message then treeForm schemas held scalar depth field.reference
            else scalar field) field value))
  | _+1,_,value => value

section Forms

variable (schemas : Schemas) (scalar : ProtoField → Value → Value)

/-- A message without aliases is seen alike under either name. -/
theorem treeForm_leaf {schemaId : ℕ} (hnames : schemas.aliasFor schemaId = none)
    (hfields : schemas.messageFields schemaId = []) (depth : ℕ) (value : Value) :
    treeForm schemas bridgeValue scalar depth schemaId value =
      treeForm schemas heldValue scalar depth schemaId value := by
  cases depth with
  | zero => rfl
  | succ depth =>
    cases value with
    | object prototype members =>
      rw [treeForm,treeForm,hnames]
      refine congrArg (Value.object .plain) (List.filterMap_congr fun field hfield => ?_)
      have hkind : field.kind ≠ .message := by
        intro hkind
        have hmem := mem_messageFields.mpr ⟨hfield,hkind⟩
        rw [hfields] at hmem
        cases hmem
      have hno : ¬Aliased none field := fun ⟨_,heq,_⟩ => nomatch heq
      rw [heldValue_of_not_aliased hno,bridgeValue,bridgeName_of_not_aliased hno]
      rw [if_neg hkind,if_neg hkind]
    | _ => rfl

/-- A tree without public aliases is seen alike under either name. -/
theorem treeForm_aliasFree {schemaId : ℕ} {value : Value} (h : AliasFree schemas schemaId value) (depth : ℕ) :
    treeForm schemas bridgeValue scalar depth schemaId value =
      treeForm schemas heldValue scalar depth schemaId value := by
  induction depth generalizing schemaId value with
  | zero => rfl
  | succ depth ih =>
    cases h with
    | object _ prototype members habsent hmessages =>
      rw [treeForm,treeForm]
      refine congrArg (Value.object .plain) (List.filterMap_congr fun field hfield => ?_)
      have hvalues : heldValue (schemas.aliasFor schemaId) members field =
          bridgeValue (schemas.aliasFor schemaId) members field := by
        by_cases hsingle : Aliased (schemas.aliasFor schemaId) field
        · obtain ⟨names,hnames,hname⟩ := hsingle
          have hpublic := habsent names hnames
          rw [hname] at hpublic
          rw [heldValue_eq,hpublic,Option.none_or]
          rfl
        · rw [heldValue_of_not_aliased hsingle,bridgeValue,bridgeName_of_not_aliased hsingle]
      rw [hvalues]
      cases hvalue : bridgeValue (schemas.aliasFor schemaId) members field with
      | none => rfl
      | some value =>
        rw [Option.map_some,Option.map_some]
        by_cases hkind : field.kind = .message
        · rw [if_pos hkind,if_pos hkind,mapItems_congr fun item hitem =>
            ih (hmessages field hfield hkind value hvalue item hitem)]
        · rw [if_neg hkind,if_neg hkind]

/-- A pass that moves aliased fields shows a codec the own fields of the tree. -/
theorem treeForm_renames {accepts : ProtoField → Value → Prop} {pass : ℕ → ℕ → Value → Option Value}
    (hnode : ∀ fuel schemaId prototype members, (members.map Prod.fst).Nodup → ∃ other last,
      (pass (fuel+1) schemaId (.object prototype members)).getD (.object prototype members) = .object other last ∧
        RenamesObject schemas schemaId (fun field => pass fuel field.reference) members last)
    (hpresent : ∀ fuel schemaId item changed, pass fuel schemaId item = some changed → changed.isNullish = false)
    (depth : ℕ) {fuel schemaId : ℕ} {value : Value} (hwithin : Within fuel value)
    (htree : MessageTree schemas spellings accepts schemaId value) :
    treeForm schemas bridgeValue scalar depth schemaId ((pass fuel schemaId value).getD value) =
      treeForm schemas heldValue scalar depth schemaId value := by
  induction depth generalizing fuel schemaId value with
  | zero => rfl
  | succ depth ih =>
    cases htree with
    | object _ prototype members hdistinct hshapes _ hmessages =>
      cases fuel with
      | zero => cases hwithin
      | succ fuel =>
        obtain ⟨other,last,hlast,hrenames⟩ := hnode fuel schemaId prototype members hdistinct
        rw [hlast,treeForm,treeForm]
        refine congrArg (Value.object .plain) (List.filterMap_congr fun field hfield => ?_)
        by_cases hsingle : Aliased (schemas.aliasFor schemaId) field
        · obtain ⟨names,hnames,hname⟩ := hsingle
          have hvalues : bridgeValue (schemas.aliasFor schemaId) last field =
              heldValue (schemas.aliasFor schemaId) members field := by
            rw [heldValue_eq,bridgeValue,hnames,bridgeName_of_aliased hname,hrenames.moved names hnames,hname]
          rw [hvalues]
          by_cases hkind : field.kind = .message
          · obtain ⟨_,_,hleaf,hfields⟩ := alias_leaf hnames hfield hkind hname
            have hsame : treeForm schemas bridgeValue scalar depth field.reference =
                treeForm schemas heldValue scalar depth field.reference := by
              funext value
              exact treeForm_leaf schemas scalar hleaf hfields depth value
            rw [hsame]
          · rw [if_neg hkind,if_neg hkind]
        · rw [heldValue_of_not_aliased hsingle,bridgeValue,bridgeName_of_not_aliased hsingle,
            hrenames.single field hfield hsingle]
          cases hvalue : InsertionMap.find members field.name with
          | none => rfl
          | some value =>
            rw [Option.map_some,Option.map_some,Option.map_some]
            by_cases hkind : field.kind = .message
            · have hshape := hshapes field hfield field.name List.mem_cons_self value hvalue
              have hinner : ∀ item ∈ fieldItems field value, Within fuel item :=
                fun item hitem => Within.fieldItems (hwithin _ (InsertionMap.mem_of_find hvalue)) hitem
              rw [if_pos hkind,if_pos hkind,if_pos hkind,mapItems_newValue _ hshape fun item changed h =>
                hpresent fuel field.reference item changed h]
              rw [mapItems_congr fun item hitem => ih (hinner item hitem)
                (hmessages field hfield hkind field.name List.mem_cons_self value hvalue item hitem)]
            · rw [if_neg hkind,if_neg hkind,if_neg hkind]

end Forms

end Baileyrs.ProtoRuntime
