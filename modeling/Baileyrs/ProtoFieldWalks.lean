import Baileyrs.ProtoHeap

/-!
# The conversions do not depend on the walk

Visiting only the fields an object holds gives the same result as visiting
every field of its schema: for the two conversions between messages and plain
objects, and for the projection before an encode, which works on the heap.
-/

namespace Baileyrs.ProtoRuntime

open JsString AtomicStore

section Projection

variable (schemas : Schemas) (codecs : Codecs)

/-- The names of the message-typed fields are their only spellings. -/
theorem overCell_cases (walk : Walk) (schemaId : ℕ) (cell : Cell) :
    walk.overCell cell (schemas.messageFieldPositionsOf schemaId) (schemas.messageFields schemaId).length =
        List.range (schemas.messageFields schemaId).length ∨
      walk.overCell cell (schemas.messageFieldPositionsOf schemaId) (schemas.messageFields schemaId).length =
        (List.range (schemas.messageFields schemaId).length).filter fun position =>
          (schemas.messageFields schemaId)[position]?.any fun field => (cell.own field.name).isSome := by
  cases cell with
  | object prototype members =>
    unfold Walk.overCell
    dsimp only
    cases walk with
    | everyField => exact .inl rfl
    | ownFields =>
      rcases ownFieldPositions_cases prototype (members.map Prod.fst)
        (schemas.messageFieldPositionsOf schemaId) (schemas.messageFields schemaId).length true
        with hnone | ⟨_,found,hsome,hsorted,hmem⟩
      · rw [hnone]
        exact .inl rfl
      · rw [hsome]
        refine .inr (eq_filter_range hsorted fun q => (hmem q).trans ?_)
        simp only [find_messageFieldPositionsOf]
        constructor
        · rintro ⟨_,hkey,field,hfield,rfl⟩
          have hlt := (List.getElem?_eq_some_iff.mp hfield).1
          have hown : hasOwn members field.name = true := hasOwn_iff.mpr hkey
          refine ⟨hlt,?_⟩
          rw [hfield,Option.any_some]
          exact hown
        · rintro ⟨hlt,hown⟩
          obtain ⟨field,hfield⟩ : ∃ field, (schemas.messageFields schemaId)[q]? = some field :=
            ⟨_,List.getElem?_eq_getElem hlt⟩
          rw [hfield,Option.any_some] at hown
          have hheld : hasOwn members field.name = true := hown
          exact ⟨_,hasOwn_iff.mp hheld,field,hfield,rfl⟩
  | _ => exact .inl rfl

/-- Both walks of the projection do the same on every heap. -/
theorem projectForEncode_walk (requireCodecs : Bool) (fuel schemaId : ℕ) (item : Item) :
    projectForEncode schemas codecs .ownFields requireCodecs fuel schemaId item =
      projectForEncode schemas codecs .everyField requireCodecs fuel schemaId item := by
  induction fuel generalizing schemaId item with
  | zero => rfl
  | succ fuel ih =>
    have hsame : projectForEncode schemas codecs .ownFields requireCodecs fuel =
        projectForEncode schemas codecs .everyField requireCodecs fuel := by
      funext schemaId item
      exact ih schemaId item
    cases item with
    | reference address =>
      have hall : ∀ cell, Walk.everyField.overCell cell (schemas.messageFieldPositionsOf schemaId)
          (schemas.messageFields schemaId).length =
          List.range (schemas.messageFields schemaId).length := by
        intro cell
        cases cell with
        | _ => rfl
      rw [projectForEncode,projectForEncode,hsame]
      congr 1
      funext cell
      dsimp only
      rw [hall]
      congr 1
      funext copied
      congr 1
      funext renamed
      congr 1
      rcases overCell_cases schemas .ownFields schemaId cell with heq | heq
      · rw [heq]
      · rw [heq,foldlM_filter]
        intro position _ hown output
        unfold stepAt
        cases hfield : (schemas.messageFields schemaId)[position]? with
        | none => rfl
        | some field =>
          rw [hfield,Option.any_some,Option.isSome_eq_false_iff,Option.isNone_iff_eq_none] at hown
          dsimp only
          rw [projectMember,hown]
    | _ => rfl

end Projection

/-- For every schema, visiting the own fields of an object or every field of the
schema converts it alike: from a plain object, to one, and before an encode. -/
theorem own_fields_agree (schemas : Schemas) (host : Host) (codecs : Codecs) (fuel schemaId : ℕ) :
    (∀ input, fromObject schemas host .ownFields fuel schemaId input =
      fromObject schemas host .everyField fuel schemaId input) ∧
    (∀ options input, MessageLike schemas schemaId input →
      toObject schemas host .ownFields options fuel schemaId input =
        toObject schemas host .everyField options fuel schemaId input) ∧
    ∀ requireCodecs item, projectForEncode schemas codecs .ownFields requireCodecs fuel schemaId item =
      projectForEncode schemas codecs .everyField requireCodecs fuel schemaId item :=
  ⟨fromObject_walk schemas host fuel schemaId,fun options _ h => toObject_walk schemas host options fuel h,
    fun requireCodecs item => projectForEncode_walk schemas codecs requireCodecs fuel schemaId item⟩

/-- A favicon with an unknown property. -/
def sampleFavicon : Value :=
  .object .plain [(ofString "unknown",.null),(ofString "thumbnailHeight",.number .zero)]

/-- A text message with the favicon, out of order. -/
def sampleLink : Value :=
  .object (.message 0) [(ofString "faviconMmsMetadata",sampleFavicon),(ofString "text",.string [])]

theorem messageLike_sampleLink : MessageLike linkSchemas 0 sampleLink := by
  have hleaf : MessageLike linkSchemas 1 sampleFavicon := by
    have hkind : ∀ field ∈ linkSchemas.fieldsOf 1, field.kind ≠ .message := by decide
    exact .object _ _ _ (fun field hfield h => absurd h (hkind field hfield))
      (fun field hfield h => absurd h (hkind field hfield))
      (fun field hfield h => absurd h (hkind field hfield))
  have hshape : ∀ field ∈ linkSchemas.fieldsOf 0, field.kind = .message →
      field.isRepeated = false ∧ field.isMap = false ∧ field.reference = 1 ∧
        spellings (linkSchemas.aliasFor 0) field =
          [ofString "faviconMMSMetadata",ofString "faviconMmsMetadata"] := by decide
  refine .object _ _ _ (fun field hfield hkind hr => ?_) (fun field hfield hkind hm => ?_)
    (fun field hfield hkind _ _ name hname value hvalue _ => ?_)
  · rw [(hshape field hfield hkind).1] at hr
    cases hr
  · rw [(hshape field hfield hkind).2.1] at hm
    cases hm
  · obtain ⟨_,_,hreference,hspellings⟩ := hshape field hfield hkind
    rw [hspellings] at hname
    rw [hreference]
    have hcases := List.mem_pair.mp hname
    rcases hcases with rfl | rfl
    · have hnone : InsertionMap.find [(ofString "faviconMmsMetadata",sampleFavicon),
          (ofString "text",Value.string [])] (ofString "faviconMMSMetadata") = none := by rfl
      rw [hnone] at hvalue
      cases hvalue
    · have hsome : InsertionMap.find [(ofString "faviconMmsMetadata",sampleFavicon),
          (ofString "text",Value.string [])] (ofString "faviconMmsMetadata") = some sampleFavicon := by rfl
      rw [hsome] at hvalue
      rw [←Option.some.inj hvalue]
      exact hleaf

/-- Integer of a decimal text. -/
def readDecimal : JsString → ℤ
  | 45::digits => -(ofDigits digits : ℤ)
  | digits => ofDigits digits

/-- A host that reads 64-bit integers from their texts. -/
def decimalHost : Host where
  stringOf _ := .error (.typeError "Cannot convert object to primitive value")
  numberOf _ := .error (.typeError "Cannot convert object to primitive value")
  bigintOf _ := .error (.typeError "Cannot convert object to primitive value")
  bytesOf _ := .error (.typeError "undefined is not a function")
  longFromValue value unsigned :=
    match value with
    | .string text => .ok (.ofInt (readDecimal text) unsigned)
    | .long value => .ok value
    | _ => .error (.typeError "undefined is not an object")

/-- Every schema of the part has a codec, and a message's prototype has no properties to visit. -/
def linkCodecs : Codecs := ⟨fun _ => true,fun _ => []⟩

theorem own_fields_agree_sampleLink :
    toObject linkSchemas decimalHost .ownFields jsonOptions 3 0 sampleLink =
      toObject linkSchemas decimalHost .everyField jsonOptions 3 0 sampleLink :=
  (own_fields_agree linkSchemas decimalHost linkCodecs 3 0).2.1 jsonOptions sampleLink messageLike_sampleLink

end Baileyrs.ProtoRuntime
