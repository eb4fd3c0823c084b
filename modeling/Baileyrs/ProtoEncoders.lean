import Baileyrs.ProtoRepair
import Baileyrs.ProtoFieldWalks

/-!
# What the two encoders hand to the codec

The facade projects a message and repairs the projection when the codec refuses
it; the send path rewrites the aliases, and when the codec refuses repairs the
caller's message and rewrites its aliases. Neither touches the caller's objects,
and both hand over the same fields, unless an instance is held under the public
name of an aliased field.
-/

namespace Baileyrs.ProtoRuntime

open JsString

/-- From a heap on, a run keeps the objects there are and returns an item that denotes a tree. -/
def Yields (run : Item → HeapM Item) (heap : Heap) (n : ℕ) (message : Item) (tree : Value) : Prop :=
  ∀ larger, heap <+: larger → ∃ item later, run message larger = .ok (item,later) ∧ larger <+: later ∧
    Denotes later (fun _ => True) n item tree

section Runs

variable {heap : Heap} {n : ℕ} {message : Item} {tree : Value}

/-- A pass yields the tree its walk over trees computes. -/
theorem Changes.yields {convert : Item → HeapM Item} {change : Value → Option Value}
    (h : Changes heap convert change n message tree) (hread : Denotes heap (fun _ => True) n message tree) :
    Yields convert heap n message ((change tree).getD tree) := by
  intro larger hlarger
  have hgrown : Denotes larger (fun _ => True) n message tree := hread.grow hlarger fun _ _ _ => trivial
  obtain ⟨item,later,hrun,hlater,hcase⟩ := h larger (fun _ => True) hlarger (fun _ _ => trivial) hgrown
  refine ⟨item,later,hrun,hlater,?_⟩
  rcases hcase with ⟨hnone,rfl,_⟩ | ⟨changed,hsome,_,hdenotes⟩
  · rw [hnone]
    exact hgrown.grow hlater fun _ _ _ => trivial
  · rw [hsome]
    exact hdenotes

/-- Two runs one after the other. -/
theorem Yields.andThen {first second : Item → HeapM Item} {middle result : Value}
    (hfirst : Yields first heap n message middle)
    (hsecond : ∀ item later, Denotes later (fun _ => True) n item middle → Yields second later n item result) :
    Yields (fun message => first message >>= second) heap n message result := by
  intro larger hlarger
  obtain ⟨item,later,hrun,hlater,hdenotes⟩ := hfirst larger hlarger
  obtain ⟨other,last,hnext,hlast,hresult⟩ := hsecond item later hdenotes later (List.prefix_refl later)
  refine ⟨other,last,?_,hlater.trans hlast,hresult⟩
  have hrest : (first message >>= second) larger = second item later := run_bind hrun
  exact hrest.trans hnext

/-- A run yields one tree. -/
theorem Yields.unique {run : Item → HeapM Item} {first second : Value} (hfirst : Yields run heap n message first)
    (hsecond : Yields run heap n message second) : first = second := by
  obtain ⟨item,later,hrun,_,hone⟩ := hfirst heap (List.prefix_refl heap)
  obtain ⟨other,last,hagain,_,htwo⟩ := hsecond heap (List.prefix_refl heap)
  rw [hrun] at hagain
  cases hagain
  exact hone.unique htwo

end Runs

section Encoders

variable {schemas : Schemas} {accepts : ProtoField → Value → Prop} {fuel n schemaId : ℕ} {heap : Heap}
  {message : Item} {tree : Value}

/-- The projection yields the projected tree, over either walk. -/
theorem projectForEncode_yields (codecs : Codecs) (walk : Walk) (requireCodecs : Bool) (hn : n ≤ fuel)
    (hread : Denotes heap (fun _ => True) n message tree) (htree : MessageTree schemas spellings accepts schemaId tree)
    (hsourced : requireCodecs = true → Sourced schemas codecs schemaId tree) :
    Yields (projectForEncode schemas codecs walk requireCodecs fuel schemaId) heap n message
      ((projectTree schemas fuel schemaId tree).getD tree) := by
  have hevery : Yields (projectForEncode schemas codecs .everyField requireCodecs fuel schemaId) heap n message
      ((projectTree schemas fuel schemaId tree).getD tree) :=
    (projectForEncode_changes schemas codecs requireCodecs fuel hn htree hsourced heap).yields hread
  cases walk with
  | everyField => exact hevery
  | ownFields =>
    intro larger hlarger
    rw [projectForEncode_walk]
    exact hevery larger hlarger

/-- The repair yields the repaired tree. -/
theorem repairMessage_yields (codecs : Codecs) (hn : n ≤ fuel) (hread : Denotes heap (fun _ => True) n message tree)
    (htree : MessageTree schemas spellings accepts schemaId tree) :
    Yields (repairMessage schemas codecs fuel [] schemaId) heap n message
      ((repairTree schemas fuel schemaId tree).getD tree) :=
  (repairMessage_changes schemas codecs fuel hn htree (by intro address hno; cases hno)).yields hread

/-- The rewriting of aliases yields the rewritten tree. -/
theorem projectAliases_yields (codecs : Codecs) (hn : n ≤ fuel) (hread : Denotes heap (fun _ => True) n message tree)
    (htree : MessageTree schemas spellings accepts schemaId tree) :
    Yields (projectAliases schemas codecs fuel schemaId) heap n message
      ((aliasTree schemas fuel schemaId tree).getD tree) :=
  (projectAliases_changes schemas codecs fuel hn htree heap).yields hread

/-- The projection of a message tree is one. -/
theorem projectTree_messageTree (hwithin : Within fuel tree)
    (htree : MessageTree schemas spellings accepts schemaId tree) :
    MessageTree schemas spellings accepts schemaId ((projectTree schemas fuel schemaId tree).getD tree) := by
  refine renames_messageTree (fun fuel schemaId prototype members _ => ?_) projectTree_present hwithin htree
  obtain ⟨other,last,hlast,hrenames,hpublic⟩ := projectTree_node schemas fuel schemaId prototype members
  refine ⟨other,last,hlast,hrenames,fun names hnames value hvalue => ?_⟩
  rw [hpublic names hnames] at hvalue
  obtain ⟨held,hheld,hfield⟩ := Option.bind_eq_some_iff.mp hvalue
  obtain ⟨field,hfind,hnew⟩ := Option.bind_eq_some_iff.mp hfield
  have hname := List.find?_some hfind
  exact ⟨field,List.mem_of_find?_eq_some hfind,of_decide_eq_true hname,held,hheld,hnew⟩

/-- A tree that a heap denotes is no deeper than the fuel. -/
theorem Denotes.within_fuel (hread : Denotes heap (fun _ => True) n message tree) (hn : n ≤ fuel) :
    Within fuel tree := (hread.deeper hn).within

/-- The projection and the repair on top of it. -/
theorem projectRepair_yields (codecs : Codecs) (walk : Walk) (requireCodecs : Bool) (hn : n ≤ fuel)
    (hread : Denotes heap (fun _ => True) n message tree) (htree : MessageTree schemas spellings accepts schemaId tree)
    (hsourced : requireCodecs = true → Sourced schemas codecs schemaId tree) :
    Yields (fun message => projectForEncode schemas codecs walk requireCodecs fuel schemaId message >>=
        repairMessage schemas codecs fuel [] schemaId) heap n message
      ((repairTree schemas fuel schemaId ((projectTree schemas fuel schemaId tree).getD tree)).getD
        ((projectTree schemas fuel schemaId tree).getD tree)) :=
  (projectForEncode_yields codecs walk requireCodecs hn hread htree hsourced).andThen fun _ _ hdenotes =>
    repairMessage_yields codecs hn hdenotes (projectTree_messageTree (hread.within_fuel hn) htree)

/-- The repair and the rewriting of aliases on top of it. -/
theorem repairAliases_yields (codecs : Codecs) (hn : n ≤ fuel) (hread : Denotes heap (fun _ => True) n message tree)
    (htree : MessageTree schemas spellings accepts schemaId tree) :
    Yields (fun message => repairMessage schemas codecs fuel [] schemaId message >>=
        projectAliases schemas codecs fuel schemaId) heap n message
      ((aliasTree schemas fuel schemaId ((repairTree schemas fuel schemaId tree).getD tree)).getD
        ((repairTree schemas fuel schemaId tree).getD tree)) :=
  (repairMessage_yields codecs hn hread htree).andThen fun _ _ hdenotes =>
    projectAliases_yields codecs hn hdenotes (repairTree_spelled (hread.within_fuel hn) htree)

end Encoders

/-- A codec that refuses what the repair knows, and nothing else. -/
def repairableCodec (schemas : Schemas) : BridgeCodec schemas where
  refuses := Repairable schemas
  zero field _ := by
    rintro ⟨text,hno,_⟩
    cases hno
  text field hkind text hwell := by
    rintro ⟨other,heq,⟨hlong,_⟩ | ⟨_,hbroken⟩ | ⟨henum,_⟩⟩
    · rw [hkind] at hlong
      rcases hlong with hno | hno
      · cases hno
      · cases hno
    · rw [Value.string.inj heq,hbroken] at hwell
      cases hwell
    · rw [hkind] at henum
      cases henum
  enum field _ name i _ := by
    rintro ⟨text,hno,_⟩
    cases hno

/-- A text message with an instance under the public name of its favicon. -/
def sampleInstance : Value :=
  .object .plain [(ofString "faviconMMSMetadata",.object (.message 1) [(ofString "thumbnailHeight",.number .zero)])]

/-- Its objects. -/
def sampleHeap : Heap :=
  [.object (.message 1) [(ofString "thumbnailHeight",.number .zero)],
    .object .plain [(ofString "faviconMMSMetadata",.reference 0)]]

theorem sampleHeap_denotes : Denotes sampleHeap (fun _ => True) 2 (.reference 1) sampleInstance :=
  ⟨trivial,_,rfl,rfl,.cons ⟨rfl,trivial,_,rfl,rfl,.cons ⟨rfl,(by intro address hno; cases hno),rfl⟩ .nil⟩ .nil⟩

/-- A single value has any shape. -/
theorem hasShape_single {field : ProtoField} (h : field.isRepeated = false ∧ field.isMap = false) (value : Value) :
    HasShape field value := by
  refine .inr ⟨fun hno => ?_,fun hno => ?_⟩
  · rw [h.1] at hno
    cases hno
  · rw [h.2] at hno
    cases hno

/-- What an object with one property holds. -/
theorem find_only {β : Type} {name key : JsString} {value held : β}
    (h : InsertionMap.find [(name,value)] key = some held) : name = key ∧ value = held := by
  rw [InsertionMap.find] at h
  split at h
  · exact ⟨‹_›,Option.some.inj h⟩
  · cases h

theorem sampleInstance_tree {accepts : ProtoField → Value → Prop} (h : ∀ field x, accepts field (.number x)) :
    MessageTree linkSchemas spellings accepts 0 sampleInstance := by
  have hsingle : ∀ id, id < 2 → ∀ field ∈ linkSchemas.fieldsOf id, field.isRepeated = false ∧ field.isMap = false := by
    decide
  have hfavicon : ∀ field ∈ linkSchemas.fieldsOf 0, ofString "faviconMMSMetadata" ∈
      spellings (linkSchemas.aliasFor 0) field → field.kind = .message ∧ field.reference = 1 := by decide
  have hleaf : ∀ field ∈ linkSchemas.fieldsOf 1, field.kind ≠ .message := by decide
  have hitems : ∀ {field : ProtoField} {value item : Value}, field.isRepeated = false ∧ field.isMap = false →
      value.isNullish = false → item ∈ fieldItems field value → item = value := by
    intro field value item hfield hpresent hitem
    rw [fieldItems_single hfield.1 hfield.2 hpresent] at hitem
    exact List.mem_singleton.mp hitem
  refine .object _ _ _ (by decide) (fun field hfield _ _ value _ => hasShape_single (hsingle 0 (by omega) field hfield) value)
    (fun field hfield hkind name hname value hvalue => ?_)
    fun field hfield hkind name hname value hvalue item hitem => ?_
  · obtain ⟨rfl,_⟩ := find_only hvalue
    exact absurd (hfavicon field hfield hname).1 hkind
  · obtain ⟨rfl,rfl⟩ := find_only hvalue
    rw [hitems (hsingle 0 (by omega) field hfield) rfl hitem,(hfavicon field hfield hname).2]
    refine .object _ _ _ (by decide)
      (fun field hfield _ _ value _ => hasShape_single (hsingle 1 (by omega) field hfield) value)
      (fun field hfield _ name _ value hvalue item hitem => ?_)
      fun field hfield hkind => absurd hkind (hleaf field hfield)
    obtain ⟨_,rfl⟩ := find_only hvalue
    rw [hitems (hsingle 1 (by omega) field hfield) rfl hitem]
    exact h field .zero

theorem sampleInstance_sourced : Sourced linkSchemas linkCodecs 0 sampleInstance := by
  have hmessage : ∀ field ∈ linkSchemas.messageFields 0, field.isRepeated = false ∧ field.isMap = false ∧
      field.reference = 1 := by decide
  have hleaf : linkSchemas.messageFields 1 = [] := by decide
  refine .object _ _ _ (fun _ _ _ _ _ => rfl) fun field hfield value hvalue item hitem => ?_
  obtain ⟨_,rfl⟩ := find_only hvalue
  obtain ⟨hrepeated,hmap,hreference⟩ := hmessage field hfield
  rw [fieldItems_single hrepeated hmap rfl] at hitem
  rw [List.mem_singleton.mp hitem,hreference]
  refine .object _ _ _ (fun _ _ _ _ _ => rfl) fun field hfield => ?_
  rw [hleaf] at hfield
  cases hfield

/-- The favicon is an instance under a public name. -/
theorem sampleInstance_alias : InstanceUnderAlias linkSchemas 0 sampleInstance := by
  obtain ⟨field,hfield,hkind,hname⟩ : ∃ field ∈ linkSchemas.fieldsOf 0, field.kind = .message ∧
      field.name = ofString "faviconMMSMetadata" := by decide
  exact .here _ _ _ (ofString "faviconMMSMetadata",ofString "faviconMmsMetadata") field (by decide) hfield hkind hname 1
    [(ofString "thumbnailHeight",.number .zero)] (by rfl)

/-- For every message whose only refused values the repair knows, the projection
and the repair leave every object as it is, and what they return holds no
refused value that the codec reads and no public alias, exactly when no instance
is held under one. -/
theorem encode_repair_complete_iff (schemas : Schemas) (codec : BridgeCodec schemas) (codecs : Codecs) (walk : Walk)
    (fuel n schemaId : ℕ) (heap : Heap) (message : Item) (tree : Value) (hn : n ≤ fuel)
    (hread : Denotes heap (fun _ => True) n message tree)
    (htree : MessageTree schemas spellings
      (fun field value => codec.refuses field value → Repairable schemas field value) schemaId tree)
    (hsourced : Sourced schemas codecs schemaId tree) :
    ∃ result, Yields (fun message => projectForEncode schemas codecs walk true fuel schemaId message >>=
        repairMessage schemas codecs fuel [] schemaId) heap n message result ∧
      (MessageTree schemas bridgeNames (fun field value => ¬codec.refuses field value) schemaId result ∧
          AliasFree schemas schemaId result ↔ ¬InstanceUnderAlias schemas schemaId tree) := by
  refine ⟨_,projectRepair_yields codecs walk true hn hread htree fun _ => hsourced,?_⟩
  have hwithin := hread.within_fuel hn
  have hprojected := projectTree_messageTree hwithin htree
  obtain ⟨_,_,_,_,hdenotes⟩ :=
    projectForEncode_yields codecs walk true hn hread htree (fun _ => hsourced) heap (List.prefix_refl heap)
  have hdeep := hdenotes.within_fuel hn
  constructor
  · rintro ⟨_,hfree⟩ hinstance
    exact not_projectTree_aliasFree hwithin htree hinstance ((repairTree_aliasFree hdeep hprojected).mp hfree)
  · intro hno
    have hfree := projectTree_aliasFree hwithin htree hno
    refine ⟨repairTree_accepted (fun field value hkind h => ?_) hdeep hprojected hfree,
      (repairTree_aliasFree hdeep hprojected).mpr hfree⟩
    exact repairedValue_accepted codec hkind h

/-- On the sample the codec reads a public alias away: it is there under both names. -/
theorem encode_repair_complete_iff_sampleInstance :
    ∃ result, Yields (fun message => projectForEncode linkSchemas linkCodecs .ownFields true 2 0 message >>=
        repairMessage linkSchemas linkCodecs 2 [] 0) sampleHeap 2 (.reference 1) result ∧
      (MessageTree linkSchemas bridgeNames (fun field value => ¬(repairableCodec linkSchemas).refuses field value) 0
          result ∧ AliasFree linkSchemas 0 result ↔ ¬InstanceUnderAlias linkSchemas 0 sampleInstance) :=
  encode_repair_complete_iff linkSchemas (repairableCodec linkSchemas) linkCodecs .ownFields 2 2 0 sampleHeap
    (.reference 1) sampleInstance le_rfl sampleHeap_denotes (sampleInstance_tree fun _ _ h => h) sampleInstance_sourced

/-- The public alias of the sample is back after the projection and the repair. -/
theorem encode_repair_incomplete :
    MessageTree linkSchemas spellings (fun field value => (repairableCodec linkSchemas).refuses field value →
        Repairable linkSchemas field value) 0 sampleInstance ∧
      ¬∃ result, Yields (fun message => projectForEncode linkSchemas linkCodecs .ownFields true 2 0 message >>=
        repairMessage linkSchemas linkCodecs 2 [] 0) sampleHeap 2 (.reference 1) result ∧
        AliasFree linkSchemas 0 result := by
  have htree : MessageTree linkSchemas spellings (fun _ _ => True) 0 sampleInstance :=
    sampleInstance_tree fun _ _ => trivial
  have hwithin := sampleHeap_denotes.within_fuel le_rfl
  refine ⟨sampleInstance_tree fun _ _ h => h,?_⟩
  rintro ⟨result,hyields,hfree⟩
  rw [hyields.unique (projectRepair_yields linkCodecs .ownFields true le_rfl sampleHeap_denotes htree
    fun _ => sampleInstance_sourced)] at hfree
  obtain ⟨_,_,_,_,hdenotes⟩ := projectForEncode_yields linkCodecs .ownFields true le_rfl sampleHeap_denotes htree
    (fun _ => sampleInstance_sourced) sampleHeap (List.prefix_refl sampleHeap)
  have hprojected := (repairTree_aliasFree (hdenotes.within_fuel le_rfl) (projectTree_messageTree hwithin htree)).mp hfree
  exact not_projectTree_aliasFree hwithin htree sampleInstance_alias hprojected

/-- A refused encode ends with the refusal, or with another encode. -/
def Retries (encoder : (Item → HeapM Bytes) → HeapM Bytes) (heap : Heap) (n : ℕ) (first retried : Value) : Prop :=
  ∀ encode error, (∀ item later, Denotes later (fun _ => True) n item first → encode item later = .error error) →
    encoder encode heap = .error error ∨
      ∃ item later, heap <+: later ∧ Denotes later (fun _ => True) n item retried ∧
        encoder encode heap = encode item later

/-- A handler runs from where the attempt started. -/
theorem run_tryCatch {α : Type} {attempt : HeapM α} {handler : ProtoError → HeapM α} {heap : Heap}
    {error : ProtoError} (h : attempt heap = .error error) : (tryCatch attempt handler) heap = handler error heap := by
  change tryCatchThe ProtoError (attempt heap) (fun error => handler error heap) = _
  rw [h]
  rfl

section Refused

variable {schemas : Schemas} {fuel n schemaId : ℕ} {heap : Heap} {message : Item} {first retried : Value}

/-- The send path repairs the caller's message and rewrites its aliases. -/
theorem encodeProtoCompat_retries {codecs : Codecs} {path : String} (hpath : schemaIdFor schemas path = some schemaId)
    (hfirst : Yields (projectProtoMessage schemas codecs fuel path) heap n message first)
    (hretried : Yields (fun message => repairMessage schemas codecs fuel [] schemaId message >>=
      projectAliases schemas codecs fuel schemaId) heap n message retried) :
    Retries (fun encode => encodeProtoCompat schemas codecs (fun _ => encode) fuel path message) heap n first
      retried := by
  intro encode error hrefused
  obtain ⟨projected,middle,hrun,hmiddle,hdenotes⟩ := hfirst heap (List.prefix_refl heap)
  obtain ⟨item,last,hagain,hlast,hresult⟩ := hretried middle hmiddle
  dsimp only [encodeProtoCompat]
  rw [run_bind hrun,run_tryCatch (hrefused projected middle hdenotes)]
  have hrepair : ∃ repaired later, repairProtoMessage schemas codecs fuel path message middle = .ok (repaired,later) ∧
      projectProtoMessage schemas codecs fuel path repaired later = .ok (item,last) := by
    unfold repairProtoMessage projectProtoMessage
    rw [hpath]
    dsimp only at hagain ⊢
    cases hrepaired : repairMessage schemas codecs fuel [] schemaId message middle with
    | error problem =>
      change (repairMessage schemas codecs fuel [] schemaId message middle).bind _ = _ at hagain
      rw [hrepaired] at hagain
      cases hagain
    | ok state => exact ⟨state.1,state.2,rfl,(run_bind hrepaired).symm.trans hagain⟩
  obtain ⟨repaired,later,hrepaired,hnext⟩ := hrepair
  rw [run_bind hrepaired]
  cases repaired.differs message with
  | false => exact .inl rfl
  | true =>
    rw [if_pos rfl,run_bind hnext]
    exact .inr ⟨item,last,hmiddle.trans hlast,hresult,rfl⟩

/-- The facade repairs the projected message. -/
theorem encodeMessage_retries {codecs : Codecs} {walk : Walk}
    (hfirst : Yields (projectForEncode schemas codecs walk true fuel schemaId) heap n message first)
    (hretried : Yields (fun message => projectForEncode schemas codecs walk true fuel schemaId message >>=
      repairMessage schemas codecs fuel [] schemaId) heap n message retried) :
    Retries (fun encode => encodeMessage schemas codecs walk encode fuel schemaId message) heap n first retried := by
  intro encode error hrefused
  obtain ⟨projected,middle,hrun,hmiddle,hdenotes⟩ := hfirst heap (List.prefix_refl heap)
  obtain ⟨item,last,hagain,hlast,hresult⟩ := hretried heap (List.prefix_refl heap)
  have hrepaired : repairMessage schemas codecs fuel [] schemaId projected middle = .ok (item,last) :=
    (run_bind hrun).symm.trans hagain
  dsimp only [encodeMessage]
  rw [run_bind hrun,run_tryCatch (hrefused projected middle hdenotes),run_bind hrepaired]
  cases item.differs projected with
  | false => exact .inl rfl
  | true =>
    rw [if_pos rfl]
    exact .inr ⟨item,last,hlast,hresult,rfl⟩

end Refused

/-- What two encoders hand to the codec is one message: the first time, and when
they encode again. -/
structure EncodersAgree (schemas : Schemas) (schemaId : ℕ) (tree sent projected resent reprojected : Value) : Prop where
  /-- The same fields under the bridge's names, as deep as the tree goes. -/
  fields : ∀ depth, treeForm schemas bridgeValue (fun _ value => value) depth schemaId sent =
    treeForm schemas bridgeValue (fun _ value => value) depth schemaId projected
  /-- The send path leaves no public alias. -/
  sentFree : AliasFree schemas schemaId sent
  /-- Nor does the facade. -/
  projectedFree : AliasFree schemas schemaId projected
  /-- The send path encodes the repaired fields again. -/
  resentFields : ∀ depth, treeForm schemas bridgeValue (fun _ value => value) depth schemaId resent =
    treeForm schemas heldValue (repairedValue schemas) depth schemaId tree
  /-- And so does the facade. -/
  reprojectedFields : ∀ depth, treeForm schemas bridgeValue (fun _ value => value) depth schemaId reprojected =
    treeForm schemas heldValue (repairedValue schemas) depth schemaId tree

/-- For every schema and every tree of plain objects and instances, the send path
and the facade keep the caller's objects and agree on what they hand to the
codec exactly when no instance is held under the public name of an aliased field. -/
theorem encoders_agree_iff (schemas : Schemas) (codecs : Codecs) (walk : Walk) (fuel n schemaId : ℕ) (path : String)
    (heap : Heap) (message : Item) (tree : Value) (hpath : schemaIdFor schemas path = some schemaId) (hn : n ≤ fuel)
    (hread : Denotes heap (fun _ => True) n message tree)
    (htree : MessageTree schemas spellings (fun _ _ => True) schemaId tree) :
    ∃ sent projected resent reprojected,
      Yields (projectProtoMessage schemas codecs fuel path) heap n message sent ∧
      Yields (projectForEncode schemas codecs walk false fuel schemaId) heap n message projected ∧
      Retries (fun encode => encodeProtoCompat schemas codecs (fun _ => encode) fuel path message) heap n sent resent ∧
      (Sourced schemas codecs schemaId tree →
        Retries (fun encode => encodeMessage schemas codecs walk encode fuel schemaId message) heap n projected
          reprojected) ∧
      (EncodersAgree schemas schemaId tree sent projected resent reprojected ↔
        ¬InstanceUnderAlias schemas schemaId tree) := by
  have hwithin := hread.within_fuel hn
  have hproject := projectForEncode_yields codecs walk false hn hread htree (by intro hno; cases hno)
  have hprojected := projectTree_messageTree hwithin htree
  have hrepaired := repairTree_spelled hwithin htree
  have halias : Yields (projectProtoMessage schemas codecs fuel path) heap n message
      ((aliasTree schemas fuel schemaId tree).getD tree) := by
    intro larger hlarger
    unfold projectProtoMessage
    rw [hpath]
    exact projectAliases_yields codecs hn hread htree larger hlarger
  have hdeep : Within fuel ((projectTree schemas fuel schemaId tree).getD tree) := by
    obtain ⟨_,_,_,_,hdenotes⟩ := hproject heap (List.prefix_refl heap)
    exact hdenotes.within_fuel hn
  have hfixed : Within fuel ((repairTree schemas fuel schemaId tree).getD tree) := by
    obtain ⟨_,_,_,_,hdenotes⟩ := repairMessage_yields codecs hn hread htree heap (List.prefix_refl heap)
    exact hdenotes.within_fuel hn
  have hsentNode : ∀ fuel schemaId prototype members, (members.map Prod.fst).Nodup → ∃ other last,
      (aliasTree schemas (fuel+1) schemaId (.object prototype members)).getD (.object prototype members) =
          .object other last ∧
        RenamesObject schemas schemaId (fun field => aliasTree schemas fuel field.reference) members last := by
    intro fuel schemaId prototype members hdistinct
    obtain ⟨other,last,hlast,hrenames,_⟩ := aliasTree_node schemas fuel schemaId prototype hdistinct
    exact ⟨other,last,hlast,hrenames⟩
  have hprojectNode : ∀ fuel schemaId prototype members, (members.map Prod.fst).Nodup → ∃ other last,
      (projectTree schemas (fuel+1) schemaId (.object prototype members)).getD (.object prototype members) =
          .object other last ∧
        RenamesObject schemas schemaId (fun field => projectTree schemas fuel field.reference) members last := by
    intro fuel schemaId prototype members _
    obtain ⟨other,last,hlast,hrenames,_⟩ := projectTree_node schemas fuel schemaId prototype members
    exact ⟨other,last,hlast,hrenames⟩
  refine ⟨_,_,_,_,halias,hproject,
    encodeProtoCompat_retries hpath halias (repairAliases_yields codecs hn hread htree),
    fun hsourced => encodeMessage_retries (projectForEncode_yields codecs walk true hn hread htree fun _ => hsourced)
      (projectRepair_yields codecs walk true hn hread htree fun _ => hsourced),?_⟩
  constructor
  · intro hagree hinstance
    exact not_projectTree_aliasFree hwithin htree hinstance hagree.projectedFree
  · intro hno
    have hfree := projectTree_aliasFree hwithin htree hno
    refine ⟨fun depth => ?_,aliasTree_aliasFree hwithin htree,hfree,fun depth => ?_,fun depth => ?_⟩
    · rw [treeForm_renames schemas _ hsentNode aliasTree_present depth hwithin htree,
        treeForm_renames schemas _ hprojectNode projectTree_present depth hwithin htree]
    · rw [treeForm_renames schemas _ hsentNode aliasTree_present depth hfixed hrepaired,
        treeForm_repair _ depth hwithin htree]
    · rw [treeForm_aliasFree schemas _ ((repairTree_aliasFree hdeep hprojected).mpr hfree),
        treeForm_repair _ depth hdeep hprojected,←treeForm_aliasFree schemas _ hfree,
        treeForm_renames schemas _ hprojectNode projectTree_present depth hwithin htree]

/-- On the sample the facade leaves a public alias. -/
theorem encoders_agree_iff_sampleInstance :
    ∃ sent projected resent reprojected,
      Yields (projectProtoMessage linkSchemas linkCodecs 2 "Message.ExtendedTextMessage") sampleHeap 2 (.reference 1)
        sent ∧
      Yields (projectForEncode linkSchemas linkCodecs .ownFields false 2 0) sampleHeap 2 (.reference 1) projected ∧
      Retries (fun encode => encodeProtoCompat linkSchemas linkCodecs (fun _ => encode) 2 "Message.ExtendedTextMessage"
        (.reference 1)) sampleHeap 2 sent resent ∧
      (Sourced linkSchemas linkCodecs 0 sampleInstance →
        Retries (fun encode => encodeMessage linkSchemas linkCodecs .ownFields encode 2 0 (.reference 1)) sampleHeap 2
          projected reprojected) ∧
      (EncodersAgree linkSchemas 0 sampleInstance sent projected resent reprojected ↔
        ¬InstanceUnderAlias linkSchemas 0 sampleInstance) :=
  encoders_agree_iff linkSchemas linkCodecs .ownFields 2 2 0 "Message.ExtendedTextMessage" sampleHeap (.reference 1)
    sampleInstance (by decide) le_rfl sampleHeap_denotes (sampleInstance_tree fun _ _ => trivial)

/-- An instance under a public name leaves the name in what the facade hands to the codec. -/
theorem encoders_disagree :
    MessageTree linkSchemas spellings (fun _ _ => True) 0 sampleInstance ∧
      ¬∃ projected, Yields (projectForEncode linkSchemas linkCodecs .ownFields false 2 0) sampleHeap 2 (.reference 1)
        projected ∧ AliasFree linkSchemas 0 projected := by
  have htree : MessageTree linkSchemas spellings (fun _ _ => True) 0 sampleInstance :=
    sampleInstance_tree fun _ _ => trivial
  have hwithin := sampleHeap_denotes.within_fuel le_rfl
  refine ⟨htree,?_⟩
  rintro ⟨projected,hyields,hfree⟩
  rw [hyields.unique (projectForEncode_yields linkCodecs .ownFields false le_rfl sampleHeap_denotes htree
    (by intro hno; cases hno))] at hfree
  exact not_projectTree_aliasFree hwithin htree sampleInstance_alias hfree

end Baileyrs.ProtoRuntime
