import Baileyrs.ProtoConversion

/-!
# Visiting the own fields is visiting every field

The positions found from the own properties of an object are those of the
fields it holds, in ascending order. A field it does not hold changes nothing:
a plain object inherits no value under a field's name, and what an instance
inherits is empty or is not an own property. So both walks convert alike.
-/

namespace Baileyrs.ProtoRuntime

open JsString

/-- Inserting keeps the positions ascending, and adds that position only. -/
theorem insertPosition_spec {found : List ℕ} (h : found.Pairwise (· < ·)) (position : ℕ) :
    (insertPosition found position).Pairwise (· < ·) ∧
      ∀ q, q ∈ insertPosition found position ↔ q = position ∨ q ∈ found := by
  have hparts : found.rdropWhile (position < ·)++found.rtakeWhile (position < ·) = found :=
    List.rdropWhile_append_rtakeWhile
  have hupper : ∀ q ∈ found.rtakeWhile (position < ·), position < q := by
    intro q hq
    have hlater := List.mem_rtakeWhile_imp hq
    exact of_decide_eq_true hlater
  have hlast : ∀ hne : found.rdropWhile (position < ·) ≠ [],
      ¬decide (position < (found.rdropWhile (position < ·)).getLast hne) = true :=
    fun hne => List.rdropWhile_last_not _ _ hne
  unfold insertPosition
  dsimp only
  generalize found.rdropWhile (position < ·) = lower at *
  generalize found.rtakeWhile (position < ·) = upper at *
  subst hparts
  split
  · rename_i hsome
    have hin : position ∈ lower := List.mem_of_getLast? hsome
    refine ⟨h,fun q => ⟨.inr,?_⟩⟩
    rintro (rfl | hq)
    · exact List.mem_append_left _ hin
    · exact hq
  · rename_i hne
    obtain ⟨hlower,hsorted,hcross⟩ := List.pairwise_append.mp h
    have hbelow : ∀ q ∈ lower, q < position := by
      intro q hq
      have hlower_ne : lower ≠ [] := List.ne_nil_of_mem hq
      have hnot := hlast hlower_ne
      have hdiffer : lower.getLast hlower_ne ≠ position := by
        intro heq
        rw [List.getLast?_eq_getLast_of_ne_nil hlower_ne,heq] at hne
        exact hne rfl
      rw [decide_eq_true_eq] at hnot
      have hsplit := List.dropLast_append_getLast hlower_ne
      rw [←hsplit] at hq hlower
      have hcases := (List.pairwise_append.mp hlower).2.2
      rcases List.mem_append.mp hq with hq | hq
      · have hle := hcases q hq _ (List.mem_singleton.mpr rfl)
        omega
      · rw [List.mem_singleton.mp hq]
        omega
    refine ⟨List.pairwise_append.mpr ⟨hlower,List.pairwise_cons.mpr ⟨hupper,hsorted⟩,?_⟩,fun q => ?_⟩
    · intro q hq r hr
      rcases List.mem_cons.mp hr with rfl | hr
      · exact hbelow q hq
      · exact (hbelow q hq).trans (hupper r hr)
    · rw [List.mem_append,List.mem_cons,List.mem_append]
      tauto

/-- The found positions ascend, and are those some key names. -/
theorem foundPositions_spec (positions : List (JsString × ℕ)) (keys : List JsString) :
    let found := keys.foldl (fun found key =>
      match InsertionMap.find positions key with
      | some position => insertPosition found position
      | none => found) []
    found.Pairwise (· < ·) ∧ ∀ q, q ∈ found ↔ ∃ key ∈ keys, InsertionMap.find positions key = some q := by
  have hfold : ∀ (rest : List JsString) (found : List ℕ), found.Pairwise (· < ·) →
      let last := rest.foldl (fun found key =>
        match InsertionMap.find positions key with
        | some position => insertPosition found position
        | none => found) found
      last.Pairwise (· < ·) ∧
        ∀ q, q ∈ last ↔ q ∈ found ∨ ∃ key ∈ rest, InsertionMap.find positions key = some q := by
    intro rest
    induction rest with
    | nil => exact fun found h => ⟨h,fun q => by simp⟩
    | cons key rest ih =>
      intro found h
      rw [List.foldl_cons]
      cases hkey : InsertionMap.find positions key with
      | none =>
        obtain ⟨hsorted,hmem⟩ := ih found h
        refine ⟨hsorted,fun q => (hmem q).trans ?_⟩
        simp [hkey]
      | some position =>
        obtain ⟨hinsert,hin⟩ := insertPosition_spec h position
        obtain ⟨hsorted,hmem⟩ := ih _ hinsert
        refine ⟨hsorted,fun q => (hmem q).trans ?_⟩
        rw [hin]
        simp only [List.mem_cons,exists_eq_or_imp,hkey,Option.some.injEq]
        have hcomm : q = position ↔ position = q := ⟨Eq.symm,Eq.symm⟩
        rw [hcomm]
        tauto
  obtain ⟨hsorted,hmem⟩ := hfold keys [] List.Pairwise.nil
  exact ⟨hsorted,fun q => (hmem q).trans (by simp)⟩

/-- New keys are put last. -/
theorem foldl_put {β : Type} (before entries : List (JsString × β)) (h : ((before++entries).map Prod.fst).Nodup) :
    entries.foldl (fun found entry => InsertionMap.put found entry.1 entry.2) before = before++entries := by
  induction entries generalizing before with
  | nil => rw [List.foldl_nil,List.append_nil]
  | cons entry rest ih =>
    have hnew : entry.1 ∉ before.map Prod.fst := by
      rw [List.map_append,List.map_cons] at h
      exact fun hin => (List.nodup_append.mp h).2.2 _ hin _ List.mem_cons_self rfl
    have hput : ∀ list : List (JsString × β), entry.1 ∉ list.map Prod.fst →
        InsertionMap.put list entry.1 entry.2 = list++[entry] := by
      intro list
      induction list with
      | nil => exact fun _ => rfl
      | cons first list ihlist =>
        intro hno
        rw [List.map_cons,List.mem_cons,not_or] at hno
        have hne : first.1 ≠ entry.1 := fun heq => hno.1 heq.symm
        rw [InsertionMap.put,if_neg hne,ihlist hno.2]
        rfl
    have hrest := ih (before++[entry]) (by rw [List.append_assoc]; exact h)
    rw [List.foldl_cons,hput before hnew,hrest,List.append_assoc]
    rfl

section Schemas

variable {schemas : Schemas}

/-- A listed field belongs to a listed schema. -/
theorem mem_fieldsOf {schemaId : ℕ} {field : ProtoField} (h : field ∈ schemas.fieldsOf schemaId) :
    ∃ schema ∈ schemas.messages, schema.fields = schemas.fieldsOf schemaId ∧ field ∈ schema.fields := by
  unfold Schemas.fieldsOf at h ⊢
  cases hschema : schemas.messages[schemaId]? with
  | none =>
    rw [hschema] at h
    cases h
  | some schema =>
    rw [hschema] at h
    exact ⟨schema,List.mem_of_getElem? hschema,rfl,h⟩

theorem nodup_fieldsOf (schemas : Schemas) (schemaId : ℕ) :
    ((schemas.fieldsOf schemaId).map ProtoField.name).Nodup := by
  unfold Schemas.fieldsOf
  cases hschema : schemas.messages[schemaId]? with
  | none => exact List.nodup_nil
  | some schema => exact schemas.distinct schema (List.mem_of_getElem? hschema)

/-- The bridge name of an alias names no field. -/
theorem alias_notMem {schemaId : ℕ} {names : JsString × JsString} (h : schemas.aliasFor schemaId = some names) :
    names.2 ∉ (schemas.fieldsOf schemaId).map ProtoField.name := by
  unfold Schemas.aliasFor at h
  unfold Schemas.fieldsOf
  cases hschema : schemas.messages[schemaId]? with
  | none => exact List.not_mem_nil
  | some schema =>
    rw [hschema] at h
    exact schemas.bridged schema (List.mem_of_getElem? hschema) names h

/-- Names of a field. -/
def spellings (names : Option (JsString × JsString)) (field : ProtoField) : List JsString :=
  field.name::match names with
    | some names => if names.1 = field.name then [names.2] else []
    | none => []

theorem nodup_spellings {fields : List ProtoField} {names : Option (JsString × JsString)}
    (hnodup : (fields.map ProtoField.name).Nodup)
    (hbridge : ∀ pair, names = some pair → pair.2 ∉ fields.map ProtoField.name) :
    (fields.flatMap (spellings names)).Nodup := by
  cases names with
  | none =>
    have hsame : fields.flatMap (spellings none) = fields.map ProtoField.name := by
      induction fields with
      | nil => rfl
      | cons field rest ih =>
        rw [List.flatMap_cons,List.map_cons,ih (List.nodup_cons.mp hnodup).2 fun pair h => by cases h]
        rfl
    rw [hsame]
    exact hnodup
  | some pair =>
    have hpair := hbridge pair rfl
    clear hbridge
    induction fields with
    | nil => exact List.nodup_nil
    | cons field rest ih =>
      rw [List.map_cons,List.nodup_cons] at hnodup
      rw [List.map_cons,List.mem_cons,not_or] at hpair
      have hrest := ih hnodup.2 hpair.2
      have hmem : ∀ name ∈ rest.flatMap (spellings (some pair)),
          name ∈ rest.map ProtoField.name ∨ (name = pair.2 ∧ pair.1 ∈ rest.map ProtoField.name) := by
        intro name hname
        obtain ⟨other,hother,hspelling⟩ := List.mem_flatMap.mp hname
        unfold spellings at hspelling
        rcases List.mem_cons.mp hspelling with rfl | hspelling
        · exact .inl (List.mem_map_of_mem hother)
        · dsimp only at hspelling
          split at hspelling
          · rename_i heq
            exact .inr ⟨List.mem_singleton.mp hspelling,heq ▸ List.mem_map_of_mem hother⟩
          · cases hspelling
      have hfield : field.name ∉ rest.flatMap (spellings (some pair)) := by
        intro hin
        rcases hmem _ hin with hin | ⟨heq,_⟩
        · exact hnodup.1 hin
        · exact hpair.1 heq.symm
      rw [List.flatMap_cons]
      unfold spellings
      dsimp only
      split
      · rename_i heq
        have hother : pair.2 ∉ rest.flatMap (spellings (some pair)) := by
          intro hin
          rcases hmem _ hin with hin | ⟨_,hin⟩
          · exact hpair.2 hin
          · exact hnodup.1 (heq ▸ hin)
        have hne : field.name ∉ [pair.2] := fun hin => hpair.1 (List.mem_singleton.mp hin).symm
        have hall : field.name ∉ pair.2::rest.flatMap (spellings (some pair)) := by
          rw [List.mem_cons,not_or]
          exact ⟨fun heq => hpair.1 heq.symm,hfield⟩
        exact List.nodup_cons.mpr ⟨hall,List.nodup_cons.mpr ⟨hother,hrest⟩⟩
      · exact List.nodup_cons.mpr ⟨hfield,hrest⟩

/-- Names of fields with their positions. -/
def namedPositions (names : Option (JsString × JsString)) (fields : List ProtoField) :
    List (JsString × ℕ) :=
  fields.zipIdx.flatMap fun field => (spellings names field.1).map fun name => (name,field.2)

theorem map_fst_namedPositions (names : Option (JsString × JsString)) (fields : List ProtoField) :
    (namedPositions names fields).map Prod.fst = fields.flatMap (spellings names) := by
  have hinner : (fun field : ProtoField × ℕ =>
      ((spellings names field.1).map fun name => (name,field.2)).map Prod.fst) =
      fun field => spellings names field.1 := by
    funext field
    rw [List.map_map]
    exact List.map_id _
  have houter : fields.zipIdx.flatMap (fun field => spellings names field.1) =
      (fields.zipIdx.map Prod.fst).flatMap (spellings names) := (List.flatMap_map ..).symm
  rw [namedPositions,List.map_flatMap,hinner,houter,List.zipIdx_map_fst]

/-- A name leads to the position of its field. -/
theorem find_namedPositions {names : Option (JsString × JsString)} {fields : List ProtoField}
    (hnodup : (fields.flatMap (spellings names)).Nodup) (key : JsString) (position : ℕ) :
    InsertionMap.find (namedPositions names fields) key = some position ↔
      ∃ field, fields[position]? = some field ∧ key ∈ spellings names field := by
  rw [←map_fst_namedPositions] at hnodup
  rw [InsertionMap.find_eq_some_iff hnodup]
  unfold namedPositions
  rw [List.mem_flatMap]
  constructor
  · rintro ⟨field,hfield,hname⟩
    obtain ⟨name,hspelling,heq⟩ := List.mem_map.mp hname
    cases heq
    exact ⟨field.1,List.mk_mem_zipIdx_iff_getElem?.mp hfield,hspelling⟩
  · rintro ⟨field,hfield,hspelling⟩
    exact ⟨(field,position),List.mk_mem_zipIdx_iff_getElem?.mpr hfield,List.mem_map_of_mem hspelling⟩

/-- A key has the position of the field it names, in either spelling. -/
theorem find_fieldPositionsOf (schemas : Schemas) (schemaId : ℕ) (key : JsString) (position : ℕ) :
    InsertionMap.find (schemas.fieldPositionsOf schemaId) key = some position ↔
      ∃ field, (schemas.fieldsOf schemaId)[position]? = some field ∧
        key ∈ spellings (schemas.aliasFor schemaId) field := by
  have hnodup := nodup_spellings (nodup_fieldsOf schemas schemaId) fun pair h => alias_notMem h
  have hlist : schemas.fieldPositionsOf schemaId =
      namedPositions (schemas.aliasFor schemaId) (schemas.fieldsOf schemaId) := by
    have hput := foldl_put [] (namedPositions (schemas.aliasFor schemaId) (schemas.fieldsOf schemaId))
      (by rw [List.nil_append,map_fst_namedPositions]; exact hnodup)
    rw [List.nil_append] at hput
    rw [←hput,namedPositions,List.foldl_flatMap]
    unfold Schemas.fieldPositionsOf spellings
    congr 1
    funext positions field
    cases schemas.aliasFor schemaId with
    | none => rfl
    | some names =>
      dsimp only
      split
      · rfl
      · rfl
  rw [hlist,find_namedPositions hnodup]

/-- A key has the position of the message-typed field it names. -/
theorem find_messageFieldPositionsOf (schemas : Schemas) (schemaId : ℕ) (key : JsString) (position : ℕ) :
    InsertionMap.find (schemas.messageFieldPositionsOf schemaId) key = some position ↔
      ∃ field, (schemas.messageFields schemaId)[position]? = some field ∧ key = field.name := by
  have hnames : ((schemas.messageFields schemaId).map ProtoField.name).Nodup :=
    (nodup_fieldsOf schemas schemaId).sublist (List.filter_sublist.map _)
  have hnodup : ((schemas.messageFields schemaId).flatMap (spellings none)).Nodup :=
    nodup_spellings hnames fun pair h => by cases h
  have hlist : schemas.messageFieldPositionsOf schemaId =
      namedPositions none (schemas.messageFields schemaId) := by
    have hput := foldl_put [] (namedPositions none (schemas.messageFields schemaId))
      (by rw [List.nil_append,map_fst_namedPositions]; exact hnodup)
    rw [List.nil_append] at hput
    rw [←hput,namedPositions,List.foldl_flatMap]
    rfl
  rw [hlist,find_namedPositions hnodup]
  simp only [spellings,List.mem_singleton]

end Schemas

/-- Steps that change nothing can be left out. -/
theorem foldlM_filter {m : Type → Type} [Monad m] [LawfulMonad m] {α β : Type} {step : β → α → m β}
    {kept : α → Bool} {items : List α}
    (h : ∀ item ∈ items, kept item = false → ∀ state, step state item = pure state) (state : β) :
    (items.filter kept).foldlM step state = items.foldlM step state := by
  induction items generalizing state with
  | nil => rfl
  | cons item rest ih =>
    have hrest := fun other hother => h other (List.mem_cons_of_mem _ hother)
    cases hkept : kept item with
    | true =>
      rw [List.filter_cons_of_pos hkept,List.foldlM_cons,List.foldlM_cons]
      congr 1
      funext next
      exact ih hrest next
    | false =>
      rw [List.filter_cons_of_neg (by rw [hkept]; exact Bool.false_ne_true),ih hrest,List.foldlM_cons,
        h item List.mem_cons_self hkept,pure_bind]

/-- Ascending positions with the same members are the filtered range. -/
theorem eq_filter_range {found : List ℕ} {count : ℕ} {kept : ℕ → Bool} (h : found.Pairwise (· < ·))
    (hmem : ∀ q, q ∈ found ↔ q < count ∧ kept q = true) : found = (List.range count).filter kept := by
  have hrange : ((List.range count).filter kept).Pairwise (· < ·) :=
    List.pairwise_lt_range.filter _
  have hperm : found.Perm ((List.range count).filter kept) := by
    refine (List.perm_ext_iff_of_nodup (h.imp Nat.ne_of_lt) (hrange.imp Nat.ne_of_lt)).mpr fun q => ?_
    rw [hmem,List.mem_filter,List.mem_range]
  exact hperm.eq_of_pairwise (fun a b _ _ hab hba => absurd hab (Nat.lt_asymm hba)) h hrange

theorem hasOwn_iff {β : Type} {members : List (JsString × β)} {name : JsString} :
    hasOwn members name = true ↔ name ∈ members.map Prod.fst := by
  unfold hasOwn
  rw [Option.isSome_iff_ne_none,ne_eq,InsertionMap.find_eq_none_iff,not_not]

/-- A field is held under one of its spellings. -/
theorem hasOwnField_iff {members : Members} {field : ProtoField} {names : Option (JsString × JsString)} :
    hasOwnField members field names = true ↔ ∃ name ∈ members.map Prod.fst, name ∈ spellings names field := by
  unfold hasOwnField spellings
  rw [Bool.or_eq_true,hasOwn_iff]
  cases names with
  | none => simp
  | some names =>
    by_cases heq : names.1 = field.name
    · simp [heq,hasOwn_iff,and_comm]
    · simp [heq]

/-- The field at a position is held. -/
def ownAt (members : Members) (names : Option (JsString × JsString)) (fields : List ProtoField)
    (position : ℕ) : Bool :=
  fields[position]?.any fun field => hasOwnField members field names

/-- Either no positions are found, or those that some key names. -/
theorem ownFieldPositions_cases (prototype : Prototype) (keys : List JsString)
    (positions : List (JsString × ℕ)) (candidates : ℕ) (allowInstances : Bool) :
    ownFieldPositions prototype keys positions candidates allowInstances = none ∨
    ((∀ id, prototype = .message id → allowInstances = true) ∧
      ∃ found, ownFieldPositions prototype keys positions candidates allowInstances = some found ∧
        found.Pairwise (· < ·) ∧ ∀ q, q ∈ found ↔ ∃ key ∈ keys, InsertionMap.find positions key = some q) := by
  have hspec := foundPositions_spec positions keys
  unfold ownFieldPositions
  cases prototype with
  | plain =>
    dsimp only
    split
    · exact .inl rfl
    · exact .inr ⟨(fun id hid => by cases hid),_,rfl,hspec⟩
  | bare =>
    dsimp only
    split
    · exact .inl rfl
    · exact .inr ⟨(fun id hid => by cases hid),_,rfl,hspec⟩
  | message id =>
    dsimp only
    split
    · exact .inl rfl
    · rename_i hallowed
      refine .inr ⟨fun _ _ => ?_,_,rfl,hspec⟩
      cases allowInstances with
      | true => rfl
      | false => exact absurd rfl hallowed

/-- The positions a walk visits are all of them, or those of the held fields. -/
theorem over_cases (schemas : Schemas) (walk : Walk) (schemaId : ℕ) (prototype : Prototype)
    (members : Members) (allowInstances : Bool) :
    walk.over (.object prototype members) (schemas.fieldPositionsOf schemaId)
        (schemas.fieldsOf schemaId).length allowInstances = List.range (schemas.fieldsOf schemaId).length ∨
    ((∀ id, prototype = .message id → allowInstances = true) ∧
      walk.over (.object prototype members) (schemas.fieldPositionsOf schemaId)
        (schemas.fieldsOf schemaId).length allowInstances = (List.range (schemas.fieldsOf schemaId).length).filter
        (ownAt members (schemas.aliasFor schemaId) (schemas.fieldsOf schemaId))) := by
  unfold Walk.over
  dsimp only
  cases walk with
  | everyField => exact .inl rfl
  | ownFields =>
    rcases ownFieldPositions_cases prototype (members.map Prod.fst) (schemas.fieldPositionsOf schemaId)
      (schemas.fieldsOf schemaId).length allowInstances with hnone | ⟨hallowed,found,hsome,hsorted,hmem⟩
    · rw [hnone]
      exact .inl rfl
    · rw [hsome]
      refine .inr ⟨hallowed,eq_filter_range hsorted fun q => (hmem q).trans ?_⟩
      simp only [find_fieldPositionsOf]
      unfold ownAt
      constructor
      · rintro ⟨key,hkey,field,hfield,hspelling⟩
        have hlt := (List.getElem?_eq_some_iff.mp hfield).1
        refine ⟨hlt,?_⟩
        rw [hfield,Option.any_some]
        exact hasOwnField_iff.mpr ⟨key,hkey,hspelling⟩
      · rintro ⟨hlt,hown⟩
        obtain ⟨field,hfield⟩ : ∃ field, (schemas.fieldsOf schemaId)[q]? = some field :=
          ⟨_,List.getElem?_eq_getElem hlt⟩
        rw [hfield,Option.any_some] at hown
        obtain ⟨key,hkey,hspelling⟩ := hasOwnField_iff.mp hown
        exact ⟨key,hkey,field,hfield,hspelling⟩

/-- A property of an object is its own or inherited. -/
theorem valueHasOwn_object (prototype : Prototype) (members : Members) (name : JsString) :
    valueHasOwn (.object prototype members) name = hasOwn members name := Bool.or_false _

/-- A field that is not held is inherited under its name. -/
theorem fieldValue_absent {schemas : Schemas} {prototype : Prototype} {members : Members}
    {field : ProtoField} {names : Option (JsString × JsString)} (h : hasOwnField members field names = false) :
    fieldValue schemas (.object prototype members) field names =
      .ok (inherited schemas prototype members field.name) := by
  have hname : InsertionMap.find members field.name = none := by
    unfold hasOwnField at h
    rw [Bool.or_eq_false_iff] at h
    have hown := h.1
    unfold hasOwn at hown
    exact Option.isSome_eq_false_iff.mp hown |> Option.isNone_iff_eq_none.mp
  have hread : readProperty schemas (.object prototype members) field.name =
      .ok (inherited schemas prototype members field.name) := by
    rw [readProperty,hname]
    rfl
  unfold fieldValue
  cases names with
  | none => exact hread
  | some names =>
    dsimp only
    rw [if_neg,hread]
    rintro ⟨heq,_,hother⟩
    rw [valueHasOwn_object] at hother
    unfold hasOwnField at h
    rw [Bool.or_eq_false_iff] at h
    have hno := h.2
    rw [Option.any_some,heq,decide_eq_true rfl,Bool.true_and,hother] at hno
    cases hno

/-- No field is inherited from the prototype of plain objects. -/
theorem inherited_plain {schemas : Schemas} {schemaId : ℕ} {field : ProtoField} {prototype : Prototype}
    (hfield : field ∈ schemas.fieldsOf schemaId) (h : ∀ id, prototype ≠ .message id) (members : Members) :
    inherited schemas prototype members field.name = .undefined := by
  obtain ⟨schema,hschema,_,hmem⟩ := mem_fieldsOf hfield
  have hnot := (schemas.notInherited schema hschema field hmem).1
  have hbase : objectNames.contains field.name = false := by
    rw [Bool.eq_false_iff]
    exact fun hin => hnot (List.contains_iff_mem.mp hin)
  unfold inherited
  cases prototype with
  | plain =>
    dsimp only
    rw [hbase]
    rfl
  | bare => rfl
  | message id => exact absurd rfl (h id)

section Conversions

variable (schemas : Schemas) (host : Host)

/-- Both walks of `fromObject` convert every value alike. -/
theorem fromObject_walk (fuel schemaId : ℕ) (input : Value) : fromObject schemas host .ownFields fuel schemaId input =
      fromObject schemas host .everyField fuel schemaId input := by
  induction fuel generalizing schemaId input with
  | zero => rfl
  | succ fuel ih =>
    have hsame : fromObject schemas host .ownFields fuel = fromObject schemas host .everyField fuel := by
      funext schemaId input
      exact ih schemaId input
    rw [fromObject,fromObject,hsame]
    cases input with
    | object prototype members =>
      have hall : Walk.everyField.over (.object prototype members) (schemas.fieldPositionsOf schemaId)
          (schemas.fieldsOf schemaId).length false = List.range (schemas.fieldsOf schemaId).length := rfl
      dsimp only
      rw [hall]
      rcases over_cases schemas .ownFields schemaId prototype members false with heq | ⟨hno,heq⟩
      · rw [heq]
      · rw [heq,foldlM_filter]
        intro position hposition hown state
        have hprototype : ∀ id, prototype ≠ .message id := fun id hid => by cases hno id hid
        obtain ⟨field,hfield⟩ : ∃ field, (schemas.fieldsOf schemaId)[position]? = some field :=
          ⟨_,List.getElem?_eq_getElem (List.mem_range.mp hposition)⟩
        unfold ownAt at hown
        rw [hfield,Option.any_some] at hown
        rw [hfield]
        dsimp only
        rw [fieldValue_absent hown,
          inherited_plain (List.mem_of_getElem? hfield) hprototype members]
        rfl
    | _ => rfl

/-- A collection that is inherited is empty. -/
theorem inherited_collection {schemas : Schemas} {schemaId : ℕ} {field : ProtoField}
    (hfield : field ∈ schemas.fieldsOf schemaId) (h : field.isRepeated = true ∨ field.isMap = true)
    (prototype : Prototype) (members : Members) : hasItems (inherited schemas prototype members field.name) = false ∧
      (field.isMap = true → (entriesOf (inherited schemas prototype members field.name)).length = 0) := by
  cases prototype with
  | plain =>
    have hplain : ∀ id, Prototype.plain ≠ .message id := by
      intro id hid
      cases hid
    rw [inherited_plain hfield hplain members]
    exact ⟨rfl,fun _ => rfl⟩
  | bare => exact ⟨rfl,fun _ => rfl⟩
  | message id =>
    obtain ⟨schema,hschema,_,hmem⟩ := mem_fieldsOf hfield
    have hnames := schemas.notInherited schema hschema field hmem
    have hgroup : ((schemas.fieldsOf id).any fun member => oneofName member = some field.name) = false := by
      rw [Bool.eq_false_iff]
      intro hany
      obtain ⟨member,hmember,heq⟩ := List.any_eq_true.mp hany
      obtain ⟨other,hother,_,hin⟩ := mem_fieldsOf hmember
      exact schemas.ungrouped schema hschema field hmem h other hother member hin (of_decide_eq_true heq)
    have hbase : objectNames.contains field.name = false := by
      rw [Bool.eq_false_iff]
      exact fun hin => hnames.1 (List.contains_iff_mem.mp hin)
    unfold inherited
    dsimp only
    rw [hgroup,if_neg Bool.false_ne_true,if_neg hnames.2,hbase]
    cases hfind : (schemas.fieldsOf id).find? fun member => member.name = field.name with
    | none => exact ⟨rfl,fun _ => rfl⟩
    | some member =>
      have hfound := List.find?_some hfind
      have hname : member.name = field.name := of_decide_eq_true hfound
      obtain ⟨other,hother,_,hin⟩ := mem_fieldsOf (List.mem_of_find?_eq_some hfind)
      have hlong := fun hmap => schemas.unmapped schema hschema field hmem hmap other hother member hin
      dsimp only
      unfold prototypeDefault
      split
      · exact ⟨by decide,fun _ => rfl⟩
      split
      · exact ⟨rfl,fun _ => rfl⟩
      split
      · exact ⟨rfl,fun _ => rfl⟩
      rename_i hpresent
      rw [not_or,not_or] at hpresent
      have hnone : (oneofName member).isNone = true := by
        rw [Option.isNone_iff_eq_none,←Option.not_isSome_iff_eq_none]
        exact hpresent.1
      split
      · exact ⟨Bool.and_false _,fun _ => rfl⟩
      · exact ⟨rfl,fun _ => rfl⟩
      · exact ⟨rfl,fun _ => rfl⟩
      · rename_i hkind
        refine ⟨rfl,fun hmap => absurd hname (hlong hmap ?_)⟩
        unfold ProtoField.isLong
        rw [hkind,hnone]
        rfl
      · rename_i hkind
        refine ⟨rfl,fun hmap => absurd hname (hlong hmap ?_)⟩
        unfold ProtoField.isLong
        rw [hkind,hnone]
        rfl
      · exact ⟨rfl,fun _ => rfl⟩

/-- A field that is not held puts nothing into a plain object. -/
theorem toField_absent {schemas : Schemas} {schemaId : ℕ} {field : ProtoField}
    {convert : Value → Except ProtoError Value} {options : ConversionOptions} {prototype : Prototype}
    {members : Members} {names : Option (JsString × JsString)}
    (hfield : field ∈ schemas.fieldsOf schemaId) (h : hasOwnField members field names = false)
    (state : Members) : toField convert options (.object prototype members) names field
      (inherited schemas prototype members field.name) state = .ok state := by
  unfold toField
  split
  · rename_i hrepeated
    rw [(inherited_collection hfield (.inl hrepeated) prototype members).1]
    rfl
  split
  · rename_i hmap
    rw [if_neg]
    exact fun hboth => hboth.2 ((inherited_collection hfield (.inr hmap) prototype members).2 hmap)
  · have hown : valueHasOwnField (.object prototype members) field names = false := by
      unfold valueHasOwnField
      simp only [valueHasOwn_object]
      exact h
    rw [if_pos (.inr (by rw [hown]; exact Bool.false_ne_true))]

/-- A field that is held has the value of one of its spellings. -/
theorem fieldValue_held {schemas : Schemas} {prototype : Prototype} {members : Members}
    {field : ProtoField} {names : Option (JsString × JsString)} (h : hasOwnField members field names = true) :
    ∃ name ∈ spellings names field, ∃ value, InsertionMap.find members name = some value ∧
      fieldValue schemas (.object prototype members) field names = .ok value := by
  have hread : ∀ name value, InsertionMap.find members name = some value →
      readProperty schemas (.object prototype members) name = .ok value := by
    intro name value hvalue
    rw [readProperty,hvalue]
    rfl
  unfold fieldValue
  by_cases hname : hasOwn members field.name = true
  · obtain ⟨value,hvalue⟩ := Option.isSome_iff_exists.mp hname
    refine ⟨field.name,List.mem_cons_self,value,hvalue,?_⟩
    cases names with
    | none => exact hread _ _ hvalue
    | some names =>
      dsimp only
      rw [if_neg,hread _ _ hvalue]
      rintro ⟨_,hno,_⟩
      rw [valueHasOwn_object] at hno
      exact hno hname
  · unfold hasOwnField at h
    rw [Bool.or_eq_true] at h
    have hany := h.resolve_left hname
    cases names with
    | none => cases hany
    | some names =>
      rw [Option.any_some,Bool.and_eq_true,decide_eq_true_eq] at hany
      obtain ⟨value,hvalue⟩ := Option.isSome_iff_exists.mp hany.2
      refine ⟨names.2,?_,value,hvalue,?_⟩
      · unfold spellings
        dsimp only
        rw [if_pos hany.1]
        exact List.mem_cons_of_mem _ List.mem_cons_self
      · dsimp only
        rw [if_pos,hread _ _ hvalue]
        rw [valueHasOwn_object,valueHasOwn_object]
        exact ⟨hany.1,hname,hany.2⟩

end Conversions

/-- An object whose message-typed members are such objects, at any depth; its
prototype, its other members and its unknown members are arbitrary. -/
inductive MessageLike (schemas : Schemas) : ℕ → Value → Prop where
  | object (schemaId : ℕ) (prototype : Prototype) (members : Members)
    (hrepeated : ∀ field ∈ schemas.fieldsOf schemaId, field.kind = .message → field.isRepeated = true →
      ∀ name ∈ spellings (schemas.aliasFor schemaId) field, ∀ value,
        InsertionMap.find members name = some value →
          ∀ item ∈ itemsOf value, MessageLike schemas field.reference item)
    (hmap : ∀ field ∈ schemas.fieldsOf schemaId, field.kind = .message → field.isMap = true →
      ∀ name ∈ spellings (schemas.aliasFor schemaId) field, ∀ value,
        InsertionMap.find members name = some value →
          ∀ entry ∈ entriesOf value, MessageLike schemas field.reference entry.2)
    (hsingle : ∀ field ∈ schemas.fieldsOf schemaId, field.kind = .message → field.isRepeated = false →
      field.isMap = false → ∀ name ∈ spellings (schemas.aliasFor schemaId) field, ∀ value,
        InsertionMap.find members name = some value → value.isNullish = false →
          MessageLike schemas field.reference value) :
    MessageLike schemas schemaId (.object prototype members)

section Conversions

variable (schemas : Schemas) (host : Host)

/-- Conversions that agree on the values of a field put the same into an object. -/
theorem toField_congr {first second : Value → Except ProtoError Value} {options : ConversionOptions}
    {input value : Value} {names : Option (JsString × JsString)} {field : ProtoField} {state : Members}
    (hrepeated : field.isRepeated = true → ∀ item ∈ itemsOf value, first item = second item)
    (hmap : field.isMap = true → ∀ entry ∈ entriesOf value, first entry.2 = second entry.2)
    (hsingle : field.isRepeated = false → field.isMap = false → value.isNullish = false →
      first value = second value) : toField first options input names field value state =
      toField second options input names field value state := by
  have hmapM : ∀ {α : Type} {β : Type} {f g : α → Except ProtoError β} {items : List α},
      (∀ item ∈ items, f item = g item) → items.mapM f = items.mapM g := by
    intro α β f g items h
    induction items with
    | nil => rfl
    | cons item rest ih =>
      rw [List.mapM_cons,List.mapM_cons,h item List.mem_cons_self,
        ih fun other hother => h other (List.mem_cons_of_mem _ hother)]
  unfold toField
  split
  · rename_i hr
    rw [hmapM (hrepeated hr)]
  split
  · rename_i hm
    have hentries : convertEntries first (entriesOf value) = convertEntries second (entriesOf value) := by
      unfold convertEntries
      rw [hmapM]
      intro entry hentry
      rw [hmap hm entry hentry]
    rw [hentries]
  · rename_i hr hm
    split
    · rfl
    · rename_i hpresent
      rw [not_or] at hpresent
      rw [hsingle (Bool.eq_false_iff.mpr hr) (Bool.eq_false_iff.mpr hm)
        (Bool.eq_false_iff.mpr hpresent.1)]

/-- Conversions of the values of a field agree when those of messages do. -/
theorem toObjectField_congr {first second : ℕ → Value → Except ProtoError Value}
    (options : ConversionOptions) (field : ProtoField) (value : Value)
    (hrepeated : field.kind = .message → field.isRepeated = true →
      ∀ item ∈ itemsOf value, first field.reference item = second field.reference item)
    (hmap : field.kind = .message → field.isMap = true →
      ∀ entry ∈ entriesOf value, first field.reference entry.2 = second field.reference entry.2)
    (hsingle : field.kind = .message → field.isRepeated = false → field.isMap = false →
      value.isNullish = false → first field.reference value = second field.reference value) :
    (field.isRepeated = true → ∀ item ∈ itemsOf value, toObjectField schemas host first options field item =
        toObjectField schemas host second options field item) ∧
    (field.isMap = true → ∀ entry ∈ entriesOf value, toObjectField schemas host first options field entry.2 =
        toObjectField schemas host second options field entry.2) ∧
    (field.isRepeated = false → field.isMap = false → value.isNullish = false →
      toObjectField schemas host first options field value =
        toObjectField schemas host second options field value) := by
  by_cases hkind : field.kind = .message
  · simp only [toObjectField,hkind]
    exact ⟨hrepeated hkind,hmap hkind,hsingle hkind⟩
  · have hsame : ∀ item, toObjectField schemas host first options field item =
        toObjectField schemas host second options field item := by
      intro item
      unfold toObjectField
      cases hfield : field.kind with
      | message => exact absurd hfield hkind
      | _ => rfl
    exact ⟨fun _ item _ => hsame item,fun _ entry _ => hsame entry.2,fun _ _ _ => hsame value⟩

/-- One visit of `toObject`. -/
def visit (convert : ProtoField → Value → Except ProtoError Value) (options : ConversionOptions)
    (schemaId : ℕ) (input : Value) (members : Members) (position : ℕ) : Except ProtoError Members :=
  match (schemas.fieldsOf schemaId)[position]? with
  | none => .ok members
  | some field => do
    let value ← fieldValue schemas input field (schemas.aliasFor schemaId)
    toField (convert field) options input (schemas.aliasFor schemaId) field value members

/-- A visit of a field that is not held changes nothing. -/
theorem visit_absent (convert : ProtoField → Value → Except ProtoError Value) (options : ConversionOptions)
    {schemaId : ℕ} {prototype : Prototype} {members : Members} {position : ℕ}
    (h : ownAt members (schemas.aliasFor schemaId) (schemas.fieldsOf schemaId) position = false) (state : Members) :
    visit schemas convert options schemaId (.object prototype members) state position = .ok state := by
  unfold visit
  unfold ownAt at h
  cases hfield : (schemas.fieldsOf schemaId)[position]? with
  | none => rfl
  | some field =>
    rw [hfield,Option.any_some] at h
    dsimp only
    rw [fieldValue_absent h]
    exact toField_absent (List.mem_of_getElem? hfield) h state

/-- Visits with conversions that agree on the held values are the same. -/
theorem visit_congr {first second : ProtoField → Value → Except ProtoError Value}
    {options : ConversionOptions} {schemaId : ℕ} {prototype : Prototype} {members : Members}
    (h : ∀ field ∈ schemas.fieldsOf schemaId, ∀ name ∈ spellings (schemas.aliasFor schemaId) field,
      ∀ value, InsertionMap.find members name = some value →
        (field.isRepeated = true → ∀ item ∈ itemsOf value, first field item = second field item) ∧
        (field.isMap = true → ∀ entry ∈ entriesOf value, first field entry.2 = second field entry.2) ∧
        (field.isRepeated = false → field.isMap = false → value.isNullish = false →
          first field value = second field value)) (state : Members) (position : ℕ) :
    visit schemas first options schemaId (.object prototype members) state position =
      visit schemas second options schemaId (.object prototype members) state position := by
  cases hown : ownAt members (schemas.aliasFor schemaId) (schemas.fieldsOf schemaId) position with
  | false => rw [visit_absent schemas first options hown,visit_absent schemas second options hown]
  | true =>
    unfold ownAt at hown
    unfold visit
    cases hfield : (schemas.fieldsOf schemaId)[position]? with
    | none => rfl
    | some field =>
      rw [hfield,Option.any_some] at hown
      obtain ⟨name,hname,value,hvalue,hread⟩ := @fieldValue_held schemas prototype members field _ hown
      obtain ⟨hrepeated,hmap,hsingle⟩ := h field (List.mem_of_getElem? hfield) name hname value hvalue
      dsimp only
      rw [hread]
      exact toField_congr hrepeated hmap hsingle

/-- Both walks of `toObject` convert a message alike. -/
theorem toObject_walk (options : ConversionOptions) (fuel : ℕ) {schemaId : ℕ} {input : Value}
    (h : MessageLike schemas schemaId input) : toObject schemas host .ownFields options fuel schemaId input =
      toObject schemas host .everyField options fuel schemaId input := by
  induction fuel generalizing schemaId input with
  | zero => rfl
  | succ fuel ih =>
    cases h with
    | object _ prototype members hrepeated hmap hsingle =>
      have hconvert : ∀ field ∈ schemas.fieldsOf schemaId,
          ∀ name ∈ spellings (schemas.aliasFor schemaId) field, ∀ value,
            InsertionMap.find members name = some value → _ :=
        fun field hfield name hname value hvalue =>
          toObjectField_congr schemas host options field value
            (fun hkind hr item hitem => ih (hrepeated field hfield hkind hr name hname value hvalue item hitem))
            (fun hkind hm entry hentry => ih (hmap field hfield hkind hm name hname value hvalue entry hentry))
            (fun hkind hr hm hpresent => ih (hsingle field hfield hkind hr hm name hname value hvalue hpresent))
      have hunfold : ∀ walk : Walk, toObject schemas host walk options (fuel+1) schemaId
          (.object prototype members) =
          ((walk.over (.object prototype members) (schemas.fieldPositionsOf schemaId)
            (schemas.fieldsOf schemaId).length true).foldlM
            (visit schemas (toObjectField schemas host (toObject schemas host walk options fuel) options)
              options schemaId (.object prototype members))
            (if options.arrays || options.defaults || options.objects
              then defaultMembers schemas schemaId options else [])).bind
            fun members => .ok (.object .plain members) := by
        intro walk
        rw [toObject,if_neg (fun hboth => nomatch hboth.2)]
        rfl
      have hvisit : visit schemas (toObjectField schemas host (toObject schemas host .ownFields options fuel)
          options) options schemaId (.object prototype members) =
          visit schemas (toObjectField schemas host (toObject schemas host .everyField options fuel)
            options) options schemaId (.object prototype members) := by
        funext state position
        exact visit_congr schemas hconvert state position
      rw [hunfold,hunfold,hvisit]
      congr 1
      rcases over_cases schemas .ownFields schemaId prototype members true with heq | ⟨_,heq⟩
      · rw [heq]
        rfl
      · rw [heq,foldlM_filter fun position _ hown state => visit_absent schemas _ options hown state]
        rfl

end Conversions

end Baileyrs.ProtoRuntime
