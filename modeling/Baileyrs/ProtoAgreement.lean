import Baileyrs.ProtoEncoding

/-!
# What the bridge codec is given

The codec reads a message under its bridge names, and refuses some values. The
projection leaves no public alias in a tree unless an instance is held under
one, the rewriting of aliases leaves none, and the repair puts back every
refused value it knows. Together: what a retry encodes, on either path.
-/

namespace Baileyrs.ProtoRuntime

open JsString

/-- Every surrogate has its pair. -/
def isWellFormed : JsString → Bool
  | [] => true
  | [u] => !isSurrogate u
  | u::v::rest =>
    if isHigh u && isLow v then isWellFormed rest else !isSurrogate u && isWellFormed (v::rest)

theorem isWellFormed_cons {u : UInt16} (h : isSurrogate u = false) (text : JsString) :
    isWellFormed (u::text) = isWellFormed text := by
  have hhigh : isHigh u = false := by
    unfold isSurrogate at h
    exact (Bool.or_eq_false_iff.mp h).1
  cases text with
  | nil =>
    unfold isWellFormed
    rw [h]
    rfl
  | cons v rest =>
    rw [isWellFormed,hhigh,h]
    rfl

/-- Replacing unpaired surrogates leaves none. -/
theorem isWellFormed_replaceUnpaired (text : JsString) : isWellFormed (replaceUnpaired text) = true := by
  have hreplaced : ∀ u : UInt16, isSurrogate (if isSurrogate u then replacement else u) = false := by
    intro u
    cases hu : isSurrogate u with
    | true =>
      rw [if_pos rfl]
      rfl
    | false =>
      rw [if_neg Bool.false_ne_true]
      exact hu
  induction text using replaceUnpaired.induct with
  | case1 => rfl
  | case2 u =>
    rw [replaceUnpaired,isWellFormed_cons (hreplaced u)]
    rfl
  | case3 u v rest hpair ih =>
    rw [replaceUnpaired,if_pos hpair,isWellFormed,if_pos hpair]
    exact ih
  | case4 u v rest hpair ih =>
    rw [replaceUnpaired,if_neg hpair,isWellFormed_cons (hreplaced u)]
    exact ih

section Values

variable (schemas : Schemas)

/-- A value of a field with what the repair knows put back. -/
def repairedValue (field : ProtoField) : Value → Value
  | .string text =>
    match field.kind with
    | .enum => ((schemas.enumValueFor field.reference text).map fun i => Value.number (.ofInt i)).getD (.string text)
    | .signed64 => if text = [] then .number .zero else .string text
    | .unsigned64 => if text = [] then .number .zero else .string text
    | .string => .string (replaceUnpaired text)
    | _ => .string text
  | value => value

/-- An empty 64-bit text, a text with an unpaired surrogate, or a known enum name. -/
def Repairable (field : ProtoField) (value : Value) : Prop :=
  ∃ text, value = .string text ∧
    (((field.kind = .signed64 ∨ field.kind = .unsigned64) ∧ text = []) ∨
      (field.kind = .string ∧ isWellFormed text = false) ∨
      (field.kind = .enum ∧ (schemas.enumValueFor field.reference text).isSome))

/-- What the bridge codec refuses. It takes zero for a 64-bit integer, texts
whose surrogates have their pairs, and the numbers of enums. -/
structure BridgeCodec where
  /-- The codec throws on the value. -/
  refuses : ProtoField → Value → Prop
  /-- Zero is a 64-bit integer. -/
  zero : ∀ field, field.kind = .signed64 ∨ field.kind = .unsigned64 → ¬refuses field (.number .zero)
  /-- Texts have a UTF-8 form. -/
  text : ∀ field, field.kind = .string → ∀ text, isWellFormed text = true → ¬refuses field (.string text)
  /-- Enum values are integers. -/
  enum : ∀ field, field.kind = .enum → ∀ name i, schemas.enumValueFor field.reference name = some i →
    ¬refuses field (.number (.ofInt i))

/-- The repair of a value that is not a message. -/
theorem repairTreeItem_getD {field : ProtoField} (hkind : field.kind ≠ .message)
    (repair : ℕ → Value → Option Value) (value : Value) :
    (repairTreeItem schemas repair field value).getD value = repairedValue schemas field value := by
  have hnumber : ∀ x : JsNumber, (repairValue (.number x) (.number x)).getD (.number x) = .number x := by
    intro x
    unfold repairValue
    split
    · rfl
    · rfl
  have htext : ∀ kind text, (repairValue (.string text) (repairScalar kind (.string text))).getD (.string text) =
      (repairScalar kind (.string text)).value := by
    intro kind text
    unfold repairValue
    cases hdiffers : (repairScalar kind (.string text)).differs (.string text) with
    | true => rfl
    | false =>
      have hsame := eq_of_differs (by intro x hno; cases hno) hdiffers
      rw [if_neg Bool.false_ne_true,Option.getD_none,hsame]
      rfl
  unfold repairTreeItem repairedValue
  cases hfield : field.kind with
  | message => exact absurd hfield hkind
  | enum => cases value with
    | string name => rfl
    | number x => exact hnumber x
    | _ => rfl
  | signed64 => cases value with
    | string text =>
      rw [htext,repairScalar]
      dsimp only
      split
      · rfl
      · rfl
    | number x => exact hnumber x
    | _ => rfl
  | unsigned64 => cases value with
    | string text =>
      rw [htext,repairScalar]
      dsimp only
      split
      · rfl
      · rfl
    | number x => exact hnumber x
    | _ => rfl
  | _ => cases value with
    | string text => exact htext _ text
    | number x => exact hnumber x
    | _ => rfl

/-- A change of a value that is not a message is not an absence. -/
theorem repairTreeItem_present {repair : ℕ → Value → Option Value} {field : ProtoField} {value changed : Value}
    (hrepair : ∀ changed, repair field.reference value = some changed → changed.isNullish = false)
    (h : repairTreeItem schemas repair field value = some changed) : changed.isNullish = false := by
  have hvalue : ∀ item repaired, repairValue item repaired = some changed → repaired.value.isNullish = false →
      changed.isNullish = false := by
    intro item repaired hsome hpresent
    unfold repairValue at hsome
    split at hsome
    · cases hsome
      exact hpresent
    · cases hsome
  have hscalar : ∀ kind text, (repairScalar kind (.string text)).value.isNullish = false := by
    intro kind text
    rcases repairScalar_cases kind (.string text) with heq | ⟨other,_,⟨heq,_⟩ | heq⟩
    · rw [heq]
      rfl
    · rw [heq]
      rfl
    · rw [heq]
      rfl
  unfold repairTreeItem at h
  cases hkind : field.kind with
  | message =>
    rw [hkind] at h
    exact hrepair changed h
  | enum =>
    rw [hkind] at h
    cases value with
    | string name =>
      obtain ⟨i,_,rfl⟩ := Option.map_eq_some_iff.mp h
      rfl
    | number x => exact hvalue _ _ h rfl
    | _ => cases h
  | _ =>
    rw [hkind] at h
    cases value with
    | string text => exact hvalue _ _ h (hscalar _ text)
    | number x => exact hvalue _ _ h rfl
    | _ => cases h

/-- What the repair puts back is not refused, if what it knows was all that was. -/
theorem repairedValue_accepted {schemas : Schemas} (codec : BridgeCodec schemas) {field : ProtoField}
    {value : Value} (hkind : field.kind ≠ .message) (h : codec.refuses field value → Repairable schemas field value) :
    ¬codec.refuses field (repairedValue schemas field value) := by
  intro hrefused
  have hunchanged : repairedValue schemas field value = value → False := by
    intro hsame
    rw [hsame] at hrefused
    obtain ⟨text,rfl,⟨hlong,rfl⟩ | ⟨hstring,hbroken⟩ | ⟨henum,hknown⟩⟩ := h hrefused
    · unfold repairedValue at hsame
      rcases hlong with hlong | hlong
      · rw [hlong] at hsame
        cases hsame
      · rw [hlong] at hsame
        cases hsame
    · unfold repairedValue at hsame
      rw [hstring] at hsame
      have htext : replaceUnpaired text = text := Value.string.inj hsame
      have hwell := isWellFormed_replaceUnpaired text
      rw [htext,hbroken] at hwell
      cases hwell
    · unfold repairedValue at hsame
      obtain ⟨i,hi⟩ := Option.isSome_iff_exists.mp hknown
      rw [henum] at hsame
      dsimp only at hsame
      rw [hi] at hsame
      cases hsame
  cases value with
  | string text =>
    unfold repairedValue at hrefused hunchanged
    cases hfield : field.kind with
    | message => exact hkind hfield
    | enum =>
      rw [hfield] at hrefused hunchanged
      dsimp only at hrefused hunchanged
      cases hname : schemas.enumValueFor field.reference text with
      | none =>
        rw [hname] at hunchanged
        exact hunchanged rfl
      | some i =>
        rw [hname] at hrefused
        exact codec.enum field hfield text i hname hrefused
    | signed64 =>
      rw [hfield] at hrefused hunchanged
      dsimp only at hrefused hunchanged
      split at hrefused
      · exact codec.zero field (.inl hfield) hrefused
      · rename_i hne
        rw [if_neg hne] at hunchanged
        exact hunchanged rfl
    | unsigned64 =>
      rw [hfield] at hrefused hunchanged
      dsimp only at hrefused hunchanged
      split at hrefused
      · exact codec.zero field (.inr hfield) hrefused
      · rename_i hne
        rw [if_neg hne] at hunchanged
        exact hunchanged rfl
    | string =>
      rw [hfield] at hrefused
      exact codec.text field hfield _ (isWellFormed_replaceUnpaired text) hrefused
    | _ =>
      rw [hfield] at hunchanged
      exact hunchanged rfl
  | _ => exact hunchanged rfl

end Values

section Trees

variable {schemas : Schemas} {accepts : ProtoField → Value → Prop}

/-- A pass over trees changes objects to objects. -/
theorem present_of_object {pass : ℕ → ℕ → Value → Option Value}
    (hobject : ∀ fuel schemaId prototype members, ∃ other last,
      (pass (fuel+1) schemaId (.object prototype members)).getD (.object prototype members) = .object other last)
    (hother : ∀ fuel schemaId value, (∀ prototype members, value ≠ .object prototype members) →
      pass (fuel+1) schemaId value = none) (hzero : ∀ schemaId value, pass 0 schemaId value = none)
    (fuel schemaId : ℕ) (item changed : Value) (h : pass fuel schemaId item = some changed) :
    changed.isNullish = false := by
  cases fuel with
  | zero =>
    rw [hzero] at h
    cases h
  | succ fuel =>
    cases item with
    | object prototype members =>
      obtain ⟨other,last,hlast⟩ := hobject fuel schemaId prototype members
      rw [h,Option.getD_some] at hlast
      rw [hlast]
      rfl
    | _ =>
      rw [hother fuel schemaId _ (by intro prototype members hno; cases hno)] at h
      cases h

theorem projectTree_present (fuel schemaId : ℕ) (item changed : Value)
    (h : projectTree schemas fuel schemaId item = some changed) : changed.isNullish = false := by
  refine present_of_object (fun fuel schemaId prototype members => ?_) (fun fuel schemaId value hno => ?_)
    (fun _ _ => rfl) fuel schemaId item changed h
  · obtain ⟨other,last,hlast,_⟩ := projectTree_node schemas fuel schemaId prototype members
    exact ⟨other,last,hlast⟩
  · cases value with
    | object prototype members => exact absurd rfl (hno prototype members)
    | _ => rfl

theorem repairTree_present (fuel schemaId : ℕ) (item changed : Value)
    (h : repairTree schemas fuel schemaId item = some changed) : changed.isNullish = false := by
  refine present_of_object (fun fuel schemaId prototype members => ?_) (fun fuel schemaId value hno => ?_)
    (fun _ _ => rfl) fuel schemaId item changed h
  · obtain ⟨other,last,hlast,_⟩ := repairTree_node schemas fuel schemaId prototype members
    exact ⟨other,last,hlast⟩
  · cases value with
    | object prototype members => exact absurd rfl (hno prototype members)
    | _ => rfl

/-- A member written into an object leaves an object. -/
theorem changeMember_object {change : Value → Option Value} {copy : Value} {field : ProtoField} {name : JsString}
    {output : Option Value} {current : Value} {prototype : Prototype} {members : Members}
    (h : output.getD copy = .object prototype members) :
    ∃ next, (changeMember change copy field name output current).getD copy = .object prototype next := by
  unfold changeMember
  split
  · exact ⟨members,h⟩
  · unfold putChanged
    cases changeField change field current with
    | none => exact ⟨members,h⟩
    | some changed =>
      dsimp only
      rw [h]
      exact ⟨_,rfl⟩

theorem aliasTree_present (fuel schemaId : ℕ) (item changed : Value)
    (h : aliasTree schemas fuel schemaId item = some changed) : changed.isNullish = false := by
  refine present_of_object (fun fuel schemaId prototype members => ?_) (fun fuel schemaId value hno => ?_)
    (fun _ _ => rfl) fuel schemaId item changed h
  · have hmoved : ∃ next, (moveAliasTree (aliasTree schemas fuel) (schemas.messageFields schemaId) members
        (schemas.aliasFor schemaId)).getD (.object .plain members) = .object .plain next := by
      unfold moveAliasTree
      cases schemas.aliasFor schemaId with
      | none => exact ⟨members,rfl⟩
      | some names =>
        dsimp only
        cases InsertionMap.find members names.1 with
        | none => exact ⟨members,rfl⟩
        | some moved => exact ⟨_,rfl⟩
    -- each member visited leaves an object, whatever it writes
    have hfold : ∀ (rest : Members) (output : Option Value),
        (∃ next, output.getD (.object .plain members) = .object .plain next) →
          ∃ next, (rest.foldl (aliasStep schemas fuel schemaId members) output).getD (.object .plain members) =
            .object .plain next := by
      intro rest
      induction rest with
      | nil => exact fun output h => h
      | cons member rest ih =>
        intro output houtput
        rw [List.foldl_cons]
        refine ih _ ?_
        unfold aliasStep
        cases (schemas.aliasFor schemaId).any fun names => member.1 = names.1 with
        | true => exact houtput
        | false =>
          rw [if_neg Bool.false_ne_true]
          cases (schemas.messageFields schemaId).find? fun field => field.name = member.1 with
          | none => exact houtput
          | some field =>
            obtain ⟨next,hnext⟩ := houtput
            exact changeMember_object hnext
    obtain ⟨last,hlast⟩ := hfold members _ hmoved
    obtain ⟨final,hfinal⟩ := @getD_original _ prototype _ _ _ hlast
    exact ⟨final,last,hfinal⟩
  · cases value with
    | object prototype members => exact absurd rfl (hno prototype members)
    | _ => rfl

/-- A pass that moves aliased fields keeps a message tree one. -/
theorem renames_messageTree {pass : ℕ → ℕ → Value → Option Value}
    (hnode : ∀ fuel schemaId prototype members, (members.map Prod.fst).Nodup → ∃ other last,
      (pass (fuel+1) schemaId (.object prototype members)).getD (.object prototype members) = .object other last ∧
        RenamesObject schemas schemaId (fun field => pass fuel field.reference) members last ∧
        ∀ names, schemas.aliasFor schemaId = some names → ∀ value, InsertionMap.find last names.1 = some value →
          ∃ field ∈ schemas.messageFields schemaId, field.name = names.1 ∧ ∃ held,
            InsertionMap.find members names.1 = some held ∧
              newValue (fun field => pass fuel field.reference) field held = some value)
    (hpresent : ∀ fuel schemaId item changed, pass fuel schemaId item = some changed → changed.isNullish = false)
    {fuel schemaId : ℕ} {value : Value} (hwithin : Within fuel value)
    (htree : MessageTree schemas spellings accepts schemaId value) :
    MessageTree schemas spellings accepts schemaId ((pass fuel schemaId value).getD value) := by
  induction fuel generalizing schemaId value with
  | zero =>
    cases htree with
    | object => cases hwithin
  | succ fuel ih =>
    cases htree with
    | object _ prototype members hdistinct hshapes hscalars hmessages =>
      obtain ⟨other,last,hlast,hrenames,hpublic⟩ := hnode fuel schemaId prototype members hdistinct
      rw [hlast]
      -- every value found afterwards was found before, or is what the pass made of it
      have horigin : ∀ field ∈ schemas.fieldsOf schemaId, ∀ name ∈ spellings (schemas.aliasFor schemaId) field,
          ∀ value, InsertionMap.find last name = some value →
            ∃ held, (∃ source ∈ spellings (schemas.aliasFor schemaId) field,
                InsertionMap.find members source = some held) ∧
              (value = held ∨ field.kind = .message ∧
                value = (newValue (fun field => pass fuel field.reference) field held).getD held) := by
        intro field hfield name hname value hvalue
        by_cases hsingle : Aliased (schemas.aliasFor schemaId) field
        · obtain ⟨names,hnames,halias⟩ := hsingle
          have hpair : spellings (schemas.aliasFor schemaId) field = [field.name,names.2] := by
            unfold spellings
            rw [hnames]
            dsimp only
            rw [if_pos halias]
          rw [hpair] at hname ⊢
          rcases List.mem_pair.mp hname with rfl | rfl
          · rw [←halias] at hvalue
            obtain ⟨found,hfound,hsame,held,hheld,hnew⟩ := hpublic names hnames value hvalue
            obtain ⟨hlisted,hkind⟩ := mem_messageFields.mp hfound
            have hfields := field_unique hlisted hfield (hsame.trans halias)
            rw [hfields] at hkind hnew
            refine ⟨held,⟨field.name,List.mem_cons_self,halias ▸ hheld⟩,.inr ⟨hkind,?_⟩⟩
            rw [hnew]
            rfl
          · rw [hrenames.moved names hnames,halias] at hvalue
            rcases Option.or_eq_some_iff.mp hvalue with hown | ⟨_,hbridge⟩
            · exact ⟨value,⟨field.name,List.mem_cons_self,hown⟩,.inl rfl⟩
            · exact ⟨value,⟨names.2,List.mem_cons_of_mem _ List.mem_cons_self,hbridge⟩,.inl rfl⟩
        · have honly : spellings (schemas.aliasFor schemaId) field = [field.name] := by
            unfold spellings
            cases hnames : schemas.aliasFor schemaId with
            | none => rfl
            | some names =>
              dsimp only
              rw [if_neg fun heq => hsingle ⟨names,hnames,heq⟩]
          rw [honly] at hname ⊢
          rw [List.mem_singleton.mp hname,hrenames.single field hfield hsingle] at hvalue
          obtain ⟨held,hheld,rfl⟩ := Option.map_eq_some_iff.mp hvalue
          refine ⟨held,⟨field.name,List.mem_cons_self,hheld⟩,?_⟩
          split
          · rename_i hkind
            exact .inr ⟨hkind,rfl⟩
          · exact .inl rfl
      have hinner : ∀ {source : JsString} {held item : Value} {field : ProtoField},
          InsertionMap.find members source = some held → item ∈ fieldItems field held → Within fuel item :=
        fun hheld hitem => Within.fieldItems (hwithin _ (InsertionMap.mem_of_find hheld)) hitem
      refine .object _ _ _ (hrenames.distinct hdistinct) (fun field hfield name hname value hvalue => ?_)
        (fun field hfield hkind name hname value hvalue item hitem => ?_)
        fun field hfield hkind name hname value hvalue item hitem => ?_
      · obtain ⟨held,⟨source,hsource,hheld⟩,rfl | ⟨_,rfl⟩⟩ := horigin field hfield name hname value hvalue
        · exact hshapes field hfield source hsource value hheld
        · exact newValue_shape (hshapes field hfield source hsource held hheld)
      · obtain ⟨held,⟨source,hsource,hheld⟩,rfl | ⟨hmessage,_⟩⟩ := horigin field hfield name hname value hvalue
        · exact hscalars field hfield hkind source hsource value hheld item hitem
        · exact absurd hmessage hkind
      · obtain ⟨held,⟨source,hsource,hheld⟩,rfl | ⟨_,rfl⟩⟩ := horigin field hfield name hname value hvalue
        · exact hmessages field hfield hkind source hsource value hheld item hitem
        · rw [fieldItems_newValue (hshapes field hfield source hsource held hheld) fun item changed h =>
            hpresent fuel field.reference item changed h] at hitem
          obtain ⟨original,horiginal,rfl⟩ := List.mem_map.mp hitem
          exact ih (hinner hheld horiginal) (hmessages field hfield hkind source hsource held hheld original horiginal)

end Trees

end Baileyrs.ProtoRuntime
