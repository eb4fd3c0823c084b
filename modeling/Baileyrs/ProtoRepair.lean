import Baileyrs.ProtoAgreement

/-!
# Public aliases and the repair

After the rewriting of aliases no object has an aliased field under its public
name; after the projection one has it exactly when an instance was held there.
The repair keeps the names that objects have, and a codec sees the repaired
values of the same fields.
-/

namespace Baileyrs.ProtoRuntime

open JsString

variable {schemas : Schemas} {accepts : ProtoField → Value → Prop}

section Leaves

variable {schemaId : ℕ} (hnames : schemas.aliasFor schemaId = none) (hfields : schemas.messageFields schemaId = [])

include hfields in
/-- A message without message-typed fields has none. -/
theorem no_messageField {field : ProtoField} (hfield : field ∈ schemas.fieldsOf schemaId) : field.kind ≠ .message := by
  intro hkind
  have hmem := mem_messageFields.mpr ⟨hfield,hkind⟩
  rw [hfields] at hmem
  cases hmem

include hnames hfields

/-- A message without aliased field and message-typed fields has no public alias. -/
theorem aliasFree_leaf (prototype : Prototype) (members : Members) :
    AliasFree schemas schemaId (.object prototype members) := by
  refine .object _ _ _ (fun names halias => ?_) fun field hfield hkind => ?_
  · rw [hnames] at halias
    cases halias
  · exact absurd hkind (no_messageField hfields hfield)

/-- Nor does it hold an instance under one. -/
theorem not_instanceUnderAlias_leaf (value : Value) : ¬InstanceUnderAlias schemas schemaId value := by
  intro h
  cases h with
  | here _ _ _ names field held =>
    rw [hnames] at held
    cases held
  | under _ _ _ field mem kind => exact no_messageField hfields mem kind

end Leaves

/-- A message tree is an object. -/
theorem MessageTree.isObject {names : FieldNames} {schemaId : ℕ} {value : Value}
    (h : MessageTree schemas names accepts schemaId value) : ∃ prototype members, value = .object prototype members := by
  cases h with
  | object _ prototype members => exact ⟨prototype,members,rfl⟩

/-- A pass that moves aliased fields leaves no public alias where every object
of the tree ends without one. -/
theorem renames_aliasFree {pass : ℕ → ℕ → Value → Option Value} {good : ℕ → Value → Prop}
    (hnode : ∀ fuel schemaId prototype members, good schemaId (.object prototype members) →
      MessageTree schemas spellings accepts schemaId (.object prototype members) → ∃ other last,
      (pass (fuel+1) schemaId (.object prototype members)).getD (.object prototype members) = .object other last ∧
        RenamesObject schemas schemaId (fun field => pass fuel field.reference) members last ∧
        ∀ names, schemas.aliasFor schemaId = some names → InsertionMap.find last names.1 = none)
    (hnested : ∀ schemaId prototype members field value item, good schemaId (.object prototype members) →
      field ∈ schemas.fieldsOf schemaId → field.kind = .message →
      InsertionMap.find members field.name = some value → item ∈ fieldItems field value → good field.reference item)
    (hpresent : ∀ fuel schemaId item changed, pass fuel schemaId item = some changed → changed.isNullish = false)
    {fuel schemaId : ℕ} {value : Value} (hwithin : Within fuel value)
    (htree : MessageTree schemas spellings accepts schemaId value) (hgood : good schemaId value) :
    AliasFree schemas schemaId ((pass fuel schemaId value).getD value) := by
  induction fuel generalizing schemaId value with
  | zero =>
    cases htree with
    | object => cases hwithin
  | succ fuel ih =>
    obtain ⟨prototype,members,rfl⟩ := htree.isObject
    obtain ⟨other,last,hlast,hrenames,habsent⟩ := hnode fuel schemaId prototype members hgood htree
    rw [hlast]
    cases htree with
    | object _ _ _ _ hshapes _ hmessages =>
      refine .object _ _ _ habsent fun field hfield hkind value hvalue item hitem => ?_
      by_cases hsingle : Aliased (schemas.aliasFor schemaId) field
      · obtain ⟨names,hnames,hname⟩ := hsingle
        obtain ⟨_,_,hleaf,hfields⟩ := alias_leaf hnames hfield hkind hname
        have hspelled : ∃ name ∈ spellings (schemas.aliasFor schemaId) field,
            InsertionMap.find members name = some value := by
          rw [hnames,bridgeName_of_aliased hname,hrenames.moved names hnames] at hvalue
          rw [hnames,spellings,if_pos hname]
          rcases Option.or_eq_some_iff.mp hvalue with hown | ⟨_,hbridge⟩
          · exact ⟨names.1,hname ▸ List.mem_cons_self,hown⟩
          · exact ⟨names.2,List.mem_cons_of_mem _ List.mem_cons_self,hbridge⟩
        obtain ⟨name,hmem,hheld⟩ := hspelled
        obtain ⟨inner,values,rfl⟩ := (hmessages field hfield hkind name hmem value hheld item hitem).isObject
        exact aliasFree_leaf hleaf hfields inner values
      · rw [bridgeName_of_not_aliased hsingle,hrenames.single field hfield hsingle] at hvalue
        obtain ⟨held,hheld,rfl⟩ := Option.map_eq_some_iff.mp hvalue
        rw [if_pos hkind,fieldItems_newValue (hshapes field hfield field.name List.mem_cons_self held hheld)
          fun item changed h => hpresent fuel field.reference item changed h] at hitem
        obtain ⟨original,horiginal,rfl⟩ := List.mem_map.mp hitem
        exact ih (Within.fieldItems (hwithin _ (InsertionMap.mem_of_find hheld)) horiginal)
          (hmessages field hfield hkind field.name List.mem_cons_self held hheld original horiginal)
          (hnested schemaId prototype members field held original hgood hfield hkind hheld horiginal)

/-- The rewriting of aliases leaves no public alias. -/
theorem aliasTree_aliasFree {fuel schemaId : ℕ} {value : Value} (hwithin : Within fuel value)
    (htree : MessageTree schemas spellings accepts schemaId value) :
    AliasFree schemas schemaId ((aliasTree schemas fuel schemaId value).getD value) := by
  refine @renames_aliasFree schemas accepts (aliasTree schemas) (fun _ _ => True)
    (fun fuel schemaId prototype members _ htree => ?_) (fun _ _ _ _ _ _ _ _ _ _ _ => trivial)
    aliasTree_present fuel schemaId value hwithin htree trivial
  cases htree with
  | object _ _ _ hdistinct => exact aliasTree_node schemas fuel schemaId prototype hdistinct

/-- The projection changes the message of an aliased field when it is an instance. -/
theorem newValue_alias {fuel schemaId : ℕ} {field : ProtoField} {names : JsString × JsString}
    (hnames : schemas.aliasFor schemaId = some names) (hfield : field ∈ schemas.fieldsOf schemaId)
    (hkind : field.kind = .message) (hname : names.1 = field.name) (prototype : Prototype) (members : Members) :
    newValue (fun field => projectTree schemas (fuel+1) field.reference) field (.object prototype members) =
      copyInstanceTree prototype members := by
  obtain ⟨hrepeated,hmap,hleaf,hfields⟩ := alias_leaf hnames hfield hkind hname
  have hplain : newValue (fun field => projectTree schemas (fuel+1) field.reference) field
      (.object prototype members) =
      projectTree schemas (fuel+1) field.reference (.object prototype members) := by
    unfold newValue changeField
    rw [hrepeated,hmap]
    rfl
  rw [hplain,projectTree_leaf schemas hleaf hfields]

/-- The projection leaves no public alias unless an instance is held under one. -/
theorem projectTree_aliasFree {fuel schemaId : ℕ} {value : Value} (hwithin : Within fuel value)
    (htree : MessageTree schemas spellings accepts schemaId value) (h : ¬InstanceUnderAlias schemas schemaId value) :
    AliasFree schemas schemaId ((projectTree schemas fuel schemaId value).getD value) := by
  refine @renames_aliasFree schemas accepts (projectTree schemas)
    (fun schemaId value => ¬InstanceUnderAlias schemas schemaId value)
    (fun fuel schemaId prototype members hno htree => ?_)
    (fun schemaId prototype members field value item hno hfield hkind hheld hitem hnested =>
      hno (.under _ _ _ field hfield hkind value hheld item hitem hnested))
    projectTree_present fuel schemaId value hwithin htree h
  obtain ⟨other,last,hlast,hrenames,hpublic⟩ := projectTree_node schemas fuel schemaId prototype members
  refine ⟨other,last,hlast,hrenames,fun names hnames => ?_⟩
  rw [hpublic names hnames]
  cases hvalue : InsertionMap.find members names.1 with
  | none => rfl
  | some value =>
    rw [Option.bind_some]
    cases hfind : (schemas.messageFields schemaId).find? fun field => field.name = names.1 with
    | none => rfl
    | some field =>
      rw [Option.bind_some]
      obtain ⟨hfield,hkind⟩ := mem_messageFields.mp (List.mem_of_find?_eq_some hfind)
      have hfound := List.find?_some hfind
      have hname : field.name = names.1 := of_decide_eq_true hfound
      obtain ⟨hrepeated,hmap,_⟩ := alias_leaf hnames hfield hkind hname.symm
      have hnone : fuel = 0 ∨ (∀ prototype members, value ≠ .object prototype members) →
          newValue (fun field => projectTree schemas fuel field.reference) field value = none := by
        intro hcase
        have hchange : projectTree schemas fuel field.reference value = none := by
          rcases hcase with rfl | hother
          · rfl
          · cases fuel with
            | zero => rfl
            | succ fuel =>
              cases value with
              | object prototype members => exact absurd rfl (hother prototype members)
              | _ => rfl
        unfold newValue changeField
        rw [hrepeated,hmap,if_neg Bool.false_ne_true,if_neg Bool.false_ne_true]
        dsimp only
        rw [hchange]
        exact ite_self none
      cases fuel with
      | zero => exact hnone (.inl rfl)
      | succ fuel =>
        cases value with
        | object inner values =>
          rw [newValue_alias hnames hfield hkind hname.symm]
          cases inner with
          | message id => exact absurd (.here _ _ _ names field hnames hfield hkind hname id values hvalue) hno
          | _ => rfl
        | _ => exact hnone (.inr fun prototype members hobject => nomatch hobject)

/-- And it leaves one where it does. -/
theorem not_projectTree_aliasFree {fuel schemaId : ℕ} {value : Value} (hwithin : Within fuel value)
    (htree : MessageTree schemas spellings accepts schemaId value) (h : InstanceUnderAlias schemas schemaId value) :
    ¬AliasFree schemas schemaId ((projectTree schemas fuel schemaId value).getD value) := by
  induction h generalizing fuel with
  | here schemaId prototype members names field held mem kind name other inner value =>
    intro hfree
    cases fuel with
    | zero => cases hwithin
    | succ fuel =>
      obtain ⟨final,last,hlast,_,hpublic⟩ := projectTree_node schemas fuel schemaId prototype members
      rw [hlast] at hfree
      cases hfree with
      | object _ _ _ habsent =>
        have hinner := hwithin _ (InsertionMap.mem_of_find value)
        cases fuel with
        | zero => cases hinner
        | succ fuel =>
          have hfind : ((schemas.messageFields schemaId).find? fun other => other.name = names.1) = some field := by
            cases hfound : (schemas.messageFields schemaId).find? fun other => other.name = names.1 with
            | none =>
              have hapart := List.find?_eq_none.mp hfound field (mem_messageFields.mpr ⟨mem,kind⟩)
              exact absurd (decide_eq_true name) hapart
            | some other =>
              have hsame := List.find?_some hfound
              have hlisted := (mem_messageFields.mp (List.mem_of_find?_eq_some hfound)).1
              have heq : other.name = names.1 := of_decide_eq_true hsame
              rw [field_unique hlisted mem (heq.trans name.symm)]
          have hnone := habsent names held
          rw [hpublic names held,value,Option.bind_some,hfind,Option.bind_some,
            newValue_alias held mem kind name.symm] at hnone
          cases hnone
  | under schemaId prototype members field mem kind value held item hitem nested ih =>
    intro hfree
    cases fuel with
    | zero => cases hwithin
    | succ fuel =>
      obtain ⟨final,last,hlast,hrenames,_⟩ := projectTree_node schemas fuel schemaId prototype members
      rw [hlast] at hfree
      by_cases hsingle : Aliased (schemas.aliasFor schemaId) field
      · obtain ⟨names,hnames,hname⟩ := hsingle
        obtain ⟨_,_,hleaf,hfields⟩ := alias_leaf hnames mem kind hname
        exact not_instanceUnderAlias_leaf hleaf hfields item nested
      · cases hfree with
        | object _ _ _ _ hmessages =>
          cases htree with
          | object _ _ _ _ hshapes _ htrees =>
            have hafter := hrenames.single field mem hsingle
            rw [held,Option.map_some,if_pos kind,←bridgeName_of_not_aliased hsingle] at hafter
            have hitems := @fieldItems_newValue field value (fun field => projectTree schemas fuel field.reference)
              (hshapes field mem field.name List.mem_cons_self value held)
              fun item changed h => projectTree_present fuel field.reference item changed h
            have hchanged := hmessages field mem kind _ hafter ((projectTree schemas fuel field.reference item).getD item)
            rw [hitems] at hchanged
            exact ih (Within.fieldItems (hwithin _ (InsertionMap.mem_of_find held)) hitem)
              (htrees field mem kind field.name List.mem_cons_self value held item hitem)
              (hchanged (List.mem_map_of_mem hitem))

/-- More values may be acceptable, and fewer names looked at. -/
theorem MessageTree.mono {names : FieldNames} {accepted : ProtoField → Value → Prop} {schemaId : ℕ} {value : Value}
    (h : MessageTree schemas spellings accepts schemaId value)
    (hspelled : ∀ pair field name, name ∈ names pair field → name ∈ spellings pair field)
    (haccepted : ∀ field value, accepts field value → accepted field value) :
    MessageTree schemas names accepted schemaId value := by
  induction h with
  | object _ prototype members hdistinct hshapes hscalars hmessages ih =>
    refine .object _ _ _ hdistinct (fun field hfield name hname => ?_)
      (fun field hfield hkind name hname value hvalue item hitem => ?_)
      fun field hfield hkind name hname value hvalue item hitem => ?_
    · exact hshapes field hfield name (hspelled _ _ _ hname)
    · exact haccepted _ _ (hscalars field hfield hkind name (hspelled _ _ _ hname) value hvalue item hitem)
    · exact ih field hfield hkind name (hspelled _ _ _ hname) value hvalue item hitem

/-- The repair of a message-typed value is the repair of its message. -/
theorem repairTreeItem_message {repair : ℕ → Value → Option Value} {field : ProtoField}
    (hkind : field.kind = .message) (value : Value) :
    repairTreeItem schemas repair field value = repair field.reference value := by
  unfold repairTreeItem
  rw [hkind]

/-- A repair does not make a value absent. -/
theorem repairTreeItem_repairTree {fuel : ℕ} {field : ProtoField} (item changed : Value)
    (h : repairTreeItem schemas (repairTree schemas fuel) field item = some changed) : changed.isNullish = false :=
  repairTreeItem_present schemas (fun changed h => repairTree_present fuel field.reference item changed h) h

/-- Members of an object after the repair of the field that has the name. -/
theorem repairTree_find {schemas : Schemas} (fuel schemaId : ℕ) (prototype : Prototype) (members : Members) :
    ∃ other last, (repairTree schemas (fuel+1) schemaId (.object prototype members)).getD
        (.object prototype members) = .object other last ∧ ((members.map Prod.fst).Nodup → (last.map Prod.fst).Nodup) ∧
      (∀ field ∈ schemas.fieldsOf schemaId, ∀ name ∈ spellings (schemas.aliasFor schemaId) field,
        InsertionMap.find last name = (InsertionMap.find members name).map fun value =>
          if (treeKey members field (schemas.aliasFor schemaId)).map Prod.fst = some name then
            (newValue (repairTreeItem schemas (repairTree schemas fuel)) field value).getD value else value) ∧
      (∀ field ∈ schemas.fieldsOf schemaId, heldValue (schemas.aliasFor schemaId) last field =
        (heldValue (schemas.aliasFor schemaId) members field).map fun value =>
          (newValue (repairTreeItem schemas (repairTree schemas fuel)) field value).getD value) ∧
      ∀ key, InsertionMap.find last key = none ↔ InsertionMap.find members key = none := by
  obtain ⟨other,last,hlast,hdistinct,hheld,hother⟩ := repairTree_node schemas fuel schemaId prototype members
  refine ⟨other,last,hlast,hdistinct,fun field hfield name hname => ?_,
    fun field hfield => heldValue_repair schemas hfield hheld hother,fun key => ?_⟩
  · cases hkey : treeKey members field (schemas.aliasFor schemaId) with
    | none =>
      have hno : ∀ other ∈ schemas.fieldsOf schemaId, ∀ value,
          treeKey members other (schemas.aliasFor schemaId) ≠ some (name,value) := by
        intro other hmem value heq
        have hsame := spelling_unique hmem hfield (treeKey_mem heq).1 hname
        rw [hsame,hkey] at heq
        cases heq
      rw [hother name hno]
      cases InsertionMap.find members name with
      | _ => rfl
    | some named =>
      by_cases hsame : named.1 = name
      · rw [←hsame,hheld field hfield named hkey,(treeKey_mem hkey).2,Option.map_some,Option.map_some,if_pos rfl]
      · have hno : ∀ other ∈ schemas.fieldsOf schemaId, ∀ value,
            treeKey members other (schemas.aliasFor schemaId) ≠ some (name,value) := by
          intro other hmem value heq
          have hunique := spelling_unique hmem hfield (treeKey_mem heq).1 hname
          rw [hunique,hkey] at heq
          exact hsame (congrArg Prod.fst (Option.some.inj heq))
        have hapart : (some named).map Prod.fst ≠ some name := fun heq => hsame (Option.some.inj heq)
        rw [hother name hno]
        cases InsertionMap.find members name with
        | none => rfl
        | some value => rw [Option.map_some,if_neg hapart]
  · by_cases hkey : ∃ field ∈ schemas.fieldsOf schemaId, ∃ value,
        treeKey members field (schemas.aliasFor schemaId) = some (key,value)
    · obtain ⟨field,hfield,value,hnamed⟩ := hkey
      rw [hheld field hfield _ hnamed,(treeKey_mem hnamed).2]
      exact ⟨(fun h => nomatch h),fun h => nomatch h⟩
    · rw [hother key fun field hfield value heq => hkey ⟨field,hfield,value,heq⟩]

/-- The repair of a tree whose looked-at fields have one name each is a tree of
repaired values. -/
theorem repairTree_messageTree {names : FieldNames} {accepted : ProtoField → Value → Prop} {good : ℕ → Value → Prop}
    (hspelled : ∀ pair field name, name ∈ names pair field → name ∈ spellings pair field)
    (hseen : ∀ schemaId prototype members, good schemaId (.object prototype members) →
      ∀ field ∈ schemas.fieldsOf schemaId, ∀ name ∈ names (schemas.aliasFor schemaId) field, ∀ value,
        InsertionMap.find members name = some value →
          (treeKey members field (schemas.aliasFor schemaId)).map Prod.fst = some name ∨
            ∀ field value, accepted field value)
    (hnested : ∀ schemaId prototype members, good schemaId (.object prototype members) →
      ∀ field ∈ schemas.fieldsOf schemaId, field.kind = .message →
        ∀ name ∈ names (schemas.aliasFor schemaId) field, ∀ value, InsertionMap.find members name = some value →
          ∀ item ∈ fieldItems field value, good field.reference item)
    (haccepted : ∀ field value, field.kind ≠ .message → accepts field value →
      accepted field (repairedValue schemas field value))
    {fuel schemaId : ℕ} {value : Value} (hwithin : Within fuel value)
    (htree : MessageTree schemas spellings accepts schemaId value) (hgood : good schemaId value) :
    MessageTree schemas names accepted schemaId ((repairTree schemas fuel schemaId value).getD value) := by
  induction fuel generalizing schemaId value with
  | zero =>
    cases htree with
    | object => cases hwithin
  | succ fuel ih =>
    cases htree with
    | object _ prototype members hdistinct hshapes hscalars hmessages =>
      obtain ⟨other,last,hlast,hkeys,hfind,_,_⟩ := @repairTree_find schemas fuel schemaId prototype members
      rw [hlast]
      -- what is found afterwards was held before, and is repaired unless anything is acceptable
      have horigin : ∀ field ∈ schemas.fieldsOf schemaId, ∀ name ∈ names (schemas.aliasFor schemaId) field,
          ∀ value, InsertionMap.find last name = some value → ∃ held, InsertionMap.find members name = some held ∧
            (value = (newValue (repairTreeItem schemas (repairTree schemas fuel)) field held).getD held ∨
              value = held ∧ ∀ field value, accepted field value) := by
        intro field hfield name hname value hvalue
        rw [hfind field hfield name (hspelled _ _ _ hname)] at hvalue
        obtain ⟨held,hheld,rfl⟩ := Option.map_eq_some_iff.mp hvalue
        refine ⟨held,hheld,?_⟩
        rcases hseen _ _ _ hgood field hfield name hname held hheld with hkey | hall
        · rw [if_pos hkey]
          exact .inl rfl
        · split
          · exact .inl rfl
          · exact .inr ⟨rfl,hall⟩
      refine .object _ _ _ (hkeys hdistinct) (fun field hfield name hname value hvalue => ?_)
        (fun field hfield hkind name hname value hvalue item hitem => ?_)
        fun field hfield hkind name hname value hvalue item hitem => ?_
      · obtain ⟨held,hheld,hcase⟩ := horigin field hfield name hname value hvalue
        have hshape := hshapes field hfield name (hspelled _ _ _ hname) held hheld
        rcases hcase with rfl | ⟨rfl,_⟩
        · exact newValue_shape hshape
        · exact hshape
      · obtain ⟨held,hheld,hcase⟩ := horigin field hfield name hname value hvalue
        have hmem := hspelled _ _ _ hname
        rcases hcase with rfl | ⟨_,hall⟩
        · rw [fieldItems_newValue (hshapes field hfield name hmem held hheld) repairTreeItem_repairTree] at hitem
          obtain ⟨original,horiginal,rfl⟩ := List.mem_map.mp hitem
          rw [repairTreeItem_getD schemas hkind]
          exact haccepted field original hkind (hscalars field hfield hkind name hmem held hheld original horiginal)
        · exact hall field item
      · obtain ⟨held,hheld,hcase⟩ := horigin field hfield name hname value hvalue
        have hmem := hspelled _ _ _ hname
        rcases hcase with rfl | ⟨rfl,hall⟩
        · rw [fieldItems_newValue (hshapes field hfield name hmem held hheld) repairTreeItem_repairTree] at hitem
          obtain ⟨original,horiginal,rfl⟩ := List.mem_map.mp hitem
          rw [repairTreeItem_message hkind]
          exact ih (Within.fieldItems (hwithin _ (InsertionMap.mem_of_find hheld)) horiginal)
            (hmessages field hfield hkind name hmem held hheld original horiginal)
            (hnested _ _ _ hgood field hfield hkind name hname held hheld original horiginal)
        · exact (hmessages field hfield hkind name hmem value hheld item hitem).mono hspelled fun field value _ =>
            hall field value

/-- The repair of a message tree is one. -/
theorem repairTree_spelled {fuel schemaId : ℕ} {value : Value} (hwithin : Within fuel value)
    (htree : MessageTree schemas spellings accepts schemaId value) :
    MessageTree schemas spellings (fun _ _ => True) schemaId ((repairTree schemas fuel schemaId value).getD value) :=
  @repairTree_messageTree schemas accepts spellings (fun _ _ => True) (fun _ _ => True) (fun _ _ _ h => h)
    (fun _ _ _ _ _ _ _ _ _ _ => .inr fun _ _ => trivial) (fun _ _ _ _ _ _ _ _ _ _ _ _ _ => trivial)
    (fun _ _ _ _ => trivial) fuel schemaId value hwithin htree trivial

/-- The bridge name of a field is one of its names. -/
theorem bridgeName_mem (names : Option (JsString × JsString)) (field : ProtoField) :
    bridgeName names field ∈ spellings names field := by
  unfold bridgeName spellings
  cases names with
  | none => exact List.mem_cons_self
  | some names =>
    dsimp only
    split
    · exact List.mem_cons_of_mem _ List.mem_cons_self
    · exact List.mem_cons_self

/-- Without its public alias, a field is held under its bridge name. -/
theorem treeKey_bridge {schemaId : ℕ} {members : Members} {field : ProtoField} {value : Value}
    (habsent : ∀ names, schemas.aliasFor schemaId = some names → InsertionMap.find members names.1 = none)
    (hvalue : InsertionMap.find members (bridgeName (schemas.aliasFor schemaId) field) = some value) :
    treeKey members field (schemas.aliasFor schemaId) = some (bridgeName (schemas.aliasFor schemaId) field,value) := by
  unfold treeKey
  by_cases hsingle : Aliased (schemas.aliasFor schemaId) field
  · obtain ⟨names,hnames,hname⟩ := hsingle
    have hpublic := habsent names hnames
    rw [hname] at hpublic
    rw [hnames,bridgeName_of_aliased hname] at hvalue ⊢
    rw [hpublic]
    dsimp only
    rw [if_pos hname,hvalue]
    rfl
  · rw [bridgeName_of_not_aliased hsingle] at hvalue ⊢
    rw [hvalue]

/-- Without public aliases, the codec reads repaired values. -/
theorem repairTree_accepted {accepted : ProtoField → Value → Prop}
    (haccepted : ∀ field value, field.kind ≠ .message → accepts field value →
      accepted field (repairedValue schemas field value))
    {fuel schemaId : ℕ} {value : Value} (hwithin : Within fuel value)
    (htree : MessageTree schemas spellings accepts schemaId value) (hfree : AliasFree schemas schemaId value) :
    MessageTree schemas bridgeNames accepted schemaId ((repairTree schemas fuel schemaId value).getD value) := by
  refine repairTree_messageTree (fun pair field name hname => ?_)
    (fun schemaId prototype members hgood field hfield name hname value hvalue => .inl ?_)
    (fun schemaId prototype members hgood field hfield hkind name hname value hvalue item hitem => ?_) haccepted hwithin
    htree hfree
  · rw [List.mem_singleton.mp hname]
    exact bridgeName_mem pair field
  · cases hgood with
    | object _ _ _ habsent =>
      rw [List.mem_singleton.mp hname] at hvalue ⊢
      rw [treeKey_bridge habsent hvalue]
      rfl
  · cases hgood with
    | object _ _ _ _ hmessages =>
      rw [List.mem_singleton.mp hname] at hvalue
      exact hmessages field hfield hkind value hvalue item hitem

/-- The repair neither removes public aliases nor adds any. -/
theorem repairTree_aliasFree {fuel schemaId : ℕ} {value : Value} (hwithin : Within fuel value)
    (htree : MessageTree schemas spellings accepts schemaId value) :
    AliasFree schemas schemaId ((repairTree schemas fuel schemaId value).getD value) ↔
      AliasFree schemas schemaId value := by
  induction fuel generalizing schemaId value with
  | zero =>
    cases htree with
    | object => cases hwithin
  | succ fuel ih =>
    cases htree with
    | object _ prototype members hdistinct hshapes hscalars hmessages =>
      obtain ⟨other,last,hlast,_,hfind,_,hnone⟩ := @repairTree_find schemas fuel schemaId prototype members
      rw [hlast]
      -- without public aliases, a message-typed field holds the repaired messages
      have hitems : (∀ names, schemas.aliasFor schemaId = some names → InsertionMap.find members names.1 = none) →
          ∀ field ∈ schemas.fieldsOf schemaId, field.kind = .message → ∀ held,
            InsertionMap.find members (bridgeName (schemas.aliasFor schemaId) field) = some held → ∃ value,
              InsertionMap.find last (bridgeName (schemas.aliasFor schemaId) field) = some value ∧
                fieldItems field value =
                  (fieldItems field held).map fun item => (repairTree schemas fuel field.reference item).getD item := by
        intro habsent field hfield hkind held hheld
        have hmem := bridgeName_mem (schemas.aliasFor schemaId) field
        have hafter := hfind field hfield _ hmem
        rw [treeKey_bridge habsent hheld,Option.map_some,hheld,Option.map_some,if_pos rfl] at hafter
        refine ⟨_,hafter,?_⟩
        rw [fieldItems_newValue (hshapes field hfield _ hmem held hheld) repairTreeItem_repairTree]
        exact List.map_congr_left fun item _ => by rw [repairTreeItem_message hkind]
      have hinner : ∀ field ∈ schemas.fieldsOf schemaId, field.kind = .message → ∀ held,
          InsertionMap.find members (bridgeName (schemas.aliasFor schemaId) field) = some held →
            ∀ item ∈ fieldItems field held, Within fuel item ∧
              MessageTree schemas spellings accepts field.reference item :=
        fun field hfield hkind held hheld item hitem =>
          ⟨Within.fieldItems (hwithin _ (InsertionMap.mem_of_find hheld)) hitem,
            hmessages field hfield hkind _ (bridgeName_mem _ _) held hheld item hitem⟩
      constructor
      · intro hfree
        cases hfree with
        | object _ _ _ habsent hlater =>
          have hbefore := fun names hnames => (hnone names.1).mp (habsent names hnames)
          refine .object _ _ _ hbefore fun field hfield hkind held hheld item hitem => ?_
          obtain ⟨value,hvalue,hmap⟩ := hitems hbefore field hfield hkind held hheld
          obtain ⟨hdeep,hmessage⟩ := hinner field hfield hkind held hheld item hitem
          refine (ih hdeep hmessage).mp (hlater field hfield hkind value hvalue _ ?_)
          rw [hmap]
          exact List.mem_map_of_mem hitem
      · intro hfree
        cases hfree with
        | object _ _ _ habsent hlater =>
          refine .object _ _ _ (fun names hnames => (hnone names.1).mpr (habsent names hnames))
            fun field hfield hkind value hvalue item hitem => ?_
          cases hheld : InsertionMap.find members (bridgeName (schemas.aliasFor schemaId) field) with
          | none =>
            rw [(hnone _).mpr hheld] at hvalue
            cases hvalue
          | some held =>
            obtain ⟨other,hother,hmap⟩ := hitems habsent field hfield hkind held hheld
            rw [hvalue] at hother
            cases hother
            rw [hmap] at hitem
            obtain ⟨original,horiginal,rfl⟩ := List.mem_map.mp hitem
            obtain ⟨hdeep,hmessage⟩ := hinner field hfield hkind held hheld original horiginal
            exact (ih hdeep hmessage).mpr (hlater field hfield hkind held hheld original horiginal)

/-- A codec sees the repaired values of the same fields. -/
theorem treeForm_repair (scalar : ProtoField → Value → Value) (depth : ℕ) {fuel schemaId : ℕ} {value : Value}
    (hwithin : Within fuel value) (htree : MessageTree schemas spellings accepts schemaId value) :
    treeForm schemas heldValue scalar depth schemaId ((repairTree schemas fuel schemaId value).getD value) =
      treeForm schemas heldValue (fun field value => scalar field (repairedValue schemas field value)) depth schemaId
        value := by
  induction depth generalizing fuel schemaId value with
  | zero => rfl
  | succ depth ih =>
    cases htree with
    | object _ prototype members hdistinct hshapes _ hmessages =>
      cases fuel with
      | zero => cases hwithin
      | succ fuel =>
        obtain ⟨other,last,hlast,_,_,hheld,_⟩ := @repairTree_find schemas fuel schemaId prototype members
        rw [hlast,treeForm,treeForm]
        refine congrArg (Value.object .plain) (List.filterMap_congr fun field hfield => ?_)
        rw [hheld field hfield]
        cases hvalue : heldValue (schemas.aliasFor schemaId) members field with
        | none => rfl
        | some value =>
          obtain ⟨named,hnamed,rfl⟩ := Option.map_eq_some_iff.mp hvalue
          obtain ⟨hmem,hfound⟩ := treeKey_mem hnamed
          have hshape := hshapes field hfield named.1 hmem named.2 hfound
          rw [Option.map_some,Option.map_some,Option.map_some,mapItems_newValue _ hshape repairTreeItem_repairTree]
          refine congrArg (fun form => some (bridgeName (schemas.aliasFor schemaId) field,form))
            (mapItems_congr fun item hitem => ?_)
          by_cases hkind : field.kind = .message
          · rw [if_pos hkind,if_pos hkind,repairTreeItem_message hkind]
            exact ih (Within.fieldItems (hwithin _ (InsertionMap.mem_of_find hfound)) hitem)
              (hmessages field hfield hkind named.1 hmem named.2 hfound item hitem)
          · rw [if_neg hkind,if_neg hkind,repairTreeItem_getD schemas hkind]

end Baileyrs.ProtoRuntime
