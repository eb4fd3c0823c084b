import Baileyrs.SignalCodecs
import Baileyrs.SyncStateRounds
import Mathlib.Data.List.Lex

/-!
# Rounds of legacy values

A legacy value is converted, projected and converted again. The codecs of keys, lists,
mappings and tokens write the same bytes again. A sender-key record is written again with
its states and their keys in order; a private key that was copied as an empty one is lost.
-/

namespace Baileyrs.LegacyProjection

open JsString AtomicStore LegacyValues SignalRouting
open Json (Legible)

section Numbers

theorem numberValue_clean {n : ℕ} (h : n < 2^53) : Clean (numberValue n) :=
  .number _ (isFinite_ofRatio_nat h) (ofRatio_ne_negativeZero h)

theorem ratio_ofRatio_nat {n : ℕ} (h : n < 2^53) :
    (JsNumber.ofRatio false n 1).ratio.1/(JsNumber.ofRatio false n 1).ratio.2 = n := by
  by_cases hn : n = 0
  · rw [hn]
    decide +kernel
  · rw [JsNumber.ratio_ofRatio hn h]
    exact Nat.mul_div_cancel _ (by positivity)

theorem isSafeUnsigned_ofRatio {n : ℕ} (h : n < 2^53) : isSafeUnsigned (.ofRatio false n 1) = true := by
  unfold isSafeUnsigned
  dsimp only
  rw [ratio_ofRatio_nat h,isFinite_ofRatio_nat h,decide_eq_true h,decide_eq_true rfl]
  exact Bool.or_true _

/-- A safe integer passes its check. -/
theorem requireSafeUnsignedInteger_ofRatio {n : ℕ} (h : n < 2^53) (label : String) :
    requireSafeUnsignedInteger (numberValue n) label = .ok (.ofRatio false n 1) := by
  rw [numberValue,requireSafeUnsignedInteger,if_pos (isSafeUnsigned_ofRatio h)]

end Numbers

namespace Identity

theorem serialized_length {value : Value} {label : String} {serialized : Bytes}
    (h : serializeSignalPublicKey value label = .ok serialized) : serialized.length = 33 := by
  unfold serializeSignalPublicKey at h
  obtain ⟨bytes,_,h⟩ := bind_ok h
  split at h
  · rename_i hprefixed
    cases h
    exact hprefixed.1
  · split at h
    · cases h
    · rename_i hlength
      cases h
      rw [List.length_cons]
      omega

theorem round {value : Value} {bytes : Bytes} (h : fromLegacy value = .ok (some bytes)) :
    ∃ projected, toLegacy bytes = .ok (some projected) ∧ fromLegacy projected = .ok (some bytes) := by
  unfold fromLegacy at h
  obtain ⟨serialized,hserialized,h⟩ := bind_ok h
  cases h
  have hlength := serialized_length hserialized
  have hbare : (serialized.drop 1).length = 32 := by
    rw [List.length_drop,hlength]
  refine ⟨.bytes (5::serialized.drop 1),?_,?_⟩
  · have hprefixed : ¬((serialized.drop 1).length = 33 ∧ (serialized.drop 1).head? = some 5) := by omega
    have hsame : ¬(serialized.drop 1).length ≠ 32 := by omega
    unfold toLegacy serializeSignalPublicKey
    rw [show requireBytes (.bytes (serialized.drop 1)) "native identity key" = .ok (serialized.drop 1) from rfl]
    dsimp only [bind,Except.bind]
    rw [if_neg hprefixed,if_neg hsame]
    rfl
  · have hprefixed : (5::serialized.drop 1).length = 33 ∧ (5::serialized.drop 1).head? = some 5 :=
      ⟨by rw [List.length_cons,hbare],rfl⟩
    unfold fromLegacy serializeSignalPublicKey
    rw [show requireBytes (.bytes (5::serialized.drop 1)) "legacy identity key" = .ok (5::serialized.drop 1) from rfl]
    dsimp only [bind,Except.bind]
    rw [if_pos hprefixed]
    rfl

end Identity

namespace TcToken

theorem inI64_timestamp {value : Value} {i : ℤ} (h : timestamp value = .ok i) : InI64 i := by
  cases value with
  | string text => exact inI64_signedTimestamp h
  | number x => exact inI64_signedTimestamp h
  | bigint n => exact inI64_signedTimestamp h
  | _ => cases h

/-- The projection of a row. -/
def projection (data : Bytes) (received : ℤ) (sent : Option ℤ) : Value :=
  .object ((ofString "token",.bytes data)::(ofString "timestamp",.string (intText received))::
    match sent with
    | some timestamp => [(ofString "senderTimestamp",.string (intText timestamp))]
    | none => [])

theorem fromLegacy_projection {data : Bytes} {received : ℤ} {sent : Option ℤ} (hreceived : InI64 received)
    (hsent : ∀ timestamp, sent = some timestamp → InI64 timestamp) :
    fromLegacy (projection data received sent) = .ok (some (encodeTokenRow ⟨data.map UInt8.toNat,received,sent⟩)) := by
  have hfirst : timestamp (.string (intText received)) = .ok received := signedTimestamp_intText hreceived
  cases sent with
  | none =>
    change (do
      let received ← timestamp (.string (intText received))
      return some (encodeTokenRow ⟨data.map UInt8.toNat,received,none⟩)) = _
    rw [hfirst]
    rfl
  | some last =>
    have hlast : timestamp (.string (intText last)) = .ok last := signedTimestamp_intText (hsent last rfl)
    change (do
      let received ← timestamp (.string (intText received))
      let sent ← (timestamp (.string (intText last))).map some
      return some (encodeTokenRow ⟨data.map UInt8.toNat,received,sent⟩)) = _
    rw [hfirst,hlast]
    rfl

theorem round {value : Value} {bytes : Bytes} (h : fromLegacy value = .ok (some bytes)) :
    ∃ projected, toLegacy bytes = .ok (some projected) ∧ fromLegacy projected = .ok (some bytes) := by
  have hparts : ∃ (data : Bytes) (received : ℤ) (sent : Option ℤ), bytes = encodeTokenRow ⟨data.map UInt8.toNat,received,sent⟩ ∧ InI64 received ∧
      ∀ timestamp, sent = some timestamp → InI64 timestamp := by
    unfold fromLegacy at h
    obtain ⟨token,_,h⟩ := bind_ok h
    obtain ⟨data,_,h⟩ := bind_ok h
    obtain ⟨found,_,h⟩ := bind_ok h
    obtain ⟨received,hreceived,h⟩ := bind_ok h
    obtain ⟨last,_,h⟩ := bind_ok h
    split at h
    · obtain ⟨sent,hsent,h⟩ := bind_ok h
      cases hsent
      cases h
      exact ⟨data,received,none,rfl,inI64_timestamp hreceived,fun _ hnone => nomatch hnone⟩
    · obtain ⟨sent,hsent,h⟩ := bind_ok h
      cases htime : timestamp last with
      | error error =>
        rw [htime] at hsent
        cases hsent
      | ok time =>
        rw [htime] at hsent
        cases hsent
        cases h
        refine ⟨data,received,some time,rfl,inI64_timestamp hreceived,fun other hother => ?_⟩
        cases hother
        exact inI64_timestamp htime
  obtain ⟨data,received,sent,rfl,hreceived,hsent⟩ := hparts
  have hvalid : ValidRow ⟨data.map UInt8.toNat,received,sent⟩ := by
    refine ⟨fun b hb => ?_,hreceived,hsent⟩
    obtain ⟨found,_,rfl⟩ := List.mem_map.mp hb
    have hbyte := UInt8.toNat_lt found
    omega
  have hdata : (data.map UInt8.toNat).map Nat.toUInt8 = data := by
    rw [List.map_map]
    exact (List.map_congr_left fun b _ => UInt8.ofNat_toNat).trans (List.map_id data)
  refine ⟨projection data received sent,?_,fromLegacy_projection hreceived hsent⟩
  unfold toLegacy
  rw [decodeTokenRow_encodeTokenRow hvalid]
  dsimp only [bind,Except.bind]
  rw [hdata]
  cases sent with
  | none => rfl
  | some last => rfl

end TcToken

namespace DeviceList

/-- A device as it is written. -/
def entry (id : ℕ) : Value := .object [(ofString "device_id",numberValue id)]

/-- A device list as it is written. -/
def record (key : JsString) (ids : List ℕ) : Value :=
  .object [(ofString "user",.string key),(ofString "devices",.array (ids.map entry)),(ofString "timestamp",.number .zero)]

theorem clean_entry {id : ℕ} (h : id < 2^53) : Clean (entry id) := by
  have hnames : [ofString "device_id"].Nodup := by decide
  refine .object _ (fun m hm => ?_) hnames (propertyOrder_eq_self fun m hm => ?_)
  · rw [List.mem_singleton.mp hm]
    exact numberValue_clean h
  · rw [List.mem_singleton.mp hm]
    exact arrayIndex_eq_none (by decide) _

theorem clean_record (key : JsString) {ids : List ℕ} (h : ∀ id ∈ ids, id < 2^53) : Clean (record key ids) := by
  have hnames : [ofString "user",ofString "devices",ofString "timestamp"].Nodup := by decide
  refine .object _ ?_ hnames (propertyOrder_eq_self ?_)
  · simp only [List.forall_mem_cons,List.not_mem_nil,false_imp_iff,implies_true,and_true]
    refine ⟨.string key,.array _ fun item hitem => ?_,.number _ (by decide) (by decide)⟩
    obtain ⟨id,hid,rfl⟩ := List.mem_map.mp hitem
    exact clean_entry (h id hid)
  · simp only [List.forall_mem_cons,List.not_mem_nil,false_imp_iff,implies_true,and_true]
    exact ⟨arrayIndex_eq_none (by decide) _,arrayIndex_eq_none (by decide) _,arrayIndex_eq_none (by decide) _⟩

theorem textsOf_array {texts : List JsString} : textsOf (.array (texts.map .string)) = some texts := by
  induction texts with
  | nil => rfl
  | cons text rest ih =>
    unfold textsOf at ih ⊢
    dsimp only at ih ⊢
    rw [List.map_cons,List.mapM_cons,ih]
    rfl

/-- Devices are written by their ids. -/
theorem mapM_deviceEntry {texts : List JsString} {devices : List Value} (h : texts.mapM deviceEntry = .ok devices) :
    ∃ ids : List ℕ, devices = ids.map entry ∧ ∀ id ∈ ids, id < 2^53 := by
  have hforall := mapM_ok h
  clear h
  induction hforall with
  | nil => exact ⟨[],rfl,fun _ hid => nomatch hid⟩
  | cons hfirst _ ih =>
    obtain ⟨ids,rfl,hids⟩ := ih
    unfold deviceEntry at hfirst
    obtain ⟨id,hid,hfirst⟩ := bind_ok hfirst
    cases hfirst
    refine ⟨id::ids,rfl,List.forall_mem_cons.mpr ⟨?_,hids⟩⟩
    unfold parseUnsignedDecimal at hid
    split at hid
    · cases hid
    · split at hid
      · rename_i hsafe
        cases hid
        exact hsafe
      · cases hid

/-- The text of an id is read as the id. -/
theorem deviceEntry_natText {id : ℕ} (h : id < 2^53) : deviceEntry (natText id) = .ok (entry id) := by
  have hdigits : ¬(natText id = [] ∨ (natText id).all Json.isDigit = false) := by
    have hshape := JsNumber.digits_natText id
    rw [hshape.all]
    exact fun hbad => hbad.elim hshape.nonempty fun hfalse => nomatch hfalse
  unfold deviceEntry parseUnsignedDecimal
  rw [if_neg hdigits,ofDigits_natText,if_pos h]
  rfl

theorem deviceText_entry {id : ℕ} (h : id < 2^53) : deviceText (entry id) = .ok (.string (natText id)) := by
  have hmember : valueMember (entry id) "device_id" = .ok (numberValue id) := rfl
  unfold deviceText
  rw [hmember]
  dsimp only [bind,Except.bind]
  rw [requireSafeUnsignedInteger_ofRatio h]
  dsimp only
  rw [JsNumber.text_ofRatio h]
  rfl

theorem fromLegacy_texts (key : JsString) {ids : List ℕ} (h : ∀ id ∈ ids, id < 2^53) :
    fromLegacy key (.array (ids.map fun id => .string (natText id))) = (toJsonBytes (record key ids)).map some := by
  have htexts : textsOf (.array (ids.map fun id => .string (natText id))) = some (ids.map natText) := by
    have hall := @textsOf_array (ids.map natText)
    rwa [List.map_map] at hall
  have hdevices : (ids.map natText).mapM deviceEntry = .ok (ids.map entry) := by
    rw [List.mapM_map]
    exact mapM_of_forall fun id hid => deviceEntry_natText (h id hid)
  unfold fromLegacy
  rw [htexts]
  dsimp only
  rw [hdevices]
  rfl

theorem round {key : JsString} {value : Value} {bytes : Bytes} (h : fromLegacy key value = .ok (some bytes)) :
    ∃ projected, toLegacy bytes = .ok (some projected) ∧ fromLegacy key projected = .ok (some bytes) := by
  unfold fromLegacy at h
  split at h
  · cases h
  · obtain ⟨devices,hdevices,h⟩ := bind_ok h
    obtain ⟨written,hwritten,h⟩ := bind_ok h
    cases h
    obtain ⟨ids,rfl,hids⟩ := mapM_deviceEntry hdevices
    obtain ⟨found,hfound,hread⟩ := (clean_record key hids).bytes
    have hsame : toJsonBytes (record key ids) = .ok bytes := hwritten
    rw [hfound] at hsame
    cases hsame
    refine ⟨.array (ids.map fun id => .string (natText id)),?_,?_⟩
    · have htexts : (ids.map entry).mapM deviceText = .ok (ids.map fun id => .string (natText id)) := by
        rw [List.mapM_map]
        exact mapM_of_forall fun id hid => deviceText_entry (hids id hid)
      unfold toLegacy
      rw [hread]
      change (do
        let texts ← (ids.map entry).mapM deviceText
        return some (Value.array texts)) = _
      rw [htexts]
      rfl
    · rw [fromLegacy_texts key hids,hfound]
      rfl

end DeviceList

namespace LidMapping

/-- A mapping from a LID as it is written. -/
def record (user mapping : JsString) : Value :=
  .object [(ofString "lid",.string user),(ofString "phone_number",.string mapping),
    (ofString "created_at",.number .zero),(ofString "updated_at",.number .zero),
    (ofString "learning_source",.string (ofString "legacy-store-adapter"))]

theorem clean_record (user mapping : JsString) : Clean (record user mapping) := by
  have hnames : [ofString "lid",ofString "phone_number",ofString "created_at",ofString "updated_at",
    ofString "learning_source"].Nodup := by decide
  have hzero : Clean (.number .zero) := .number _ (by decide) (by decide)
  refine .object _ ?_ hnames (propertyOrder_eq_self ?_)
  · simp only [List.forall_mem_cons,List.not_mem_nil,false_imp_iff,implies_true,and_true]
    exact ⟨.string user,.string mapping,hzero,hzero,.string _⟩
  · simp only [List.forall_mem_cons,List.not_mem_nil,false_imp_iff,implies_true,and_true]
    exact ⟨arrayIndex_eq_none (by decide) _,arrayIndex_eq_none (by decide) _,arrayIndex_eq_none (by decide) _,
      arrayIndex_eq_none (by decide) _,arrayIndex_eq_none (by decide) _⟩

/-- Bytes of a mapping in a direction. -/
def mappingBytes (direction : Direction) (user mapping : JsString) : Except StoreError Bytes :=
  match direction with
  | .pn => .ok (encodeUtf8 mapping)
  | .lid => toJsonBytes (record user mapping)

/-- A mapping that is a text is converted by its direction. -/
theorem fromLegacy_string {key user mapping : JsString} {direction : Direction} (hmapping : mapping ≠ [])
    (hkey : parseLidMappingKey key = .ok (direction,user)) :
    fromLegacy key (.string mapping) = (mappingBytes direction user mapping).map some := by
  have hlength : ¬mapping.length = 0 := fun hzero => hmapping (List.eq_nil_of_length_eq_zero hzero)
  unfold fromLegacy
  rw [show mappingText (.string mapping) = .ok mapping from rfl]
  dsimp only [bind,Except.bind]
  rw [if_neg hlength,hkey]
  cases direction with
  | pn => rfl
  | lid => rfl

theorem round {key : JsString} {value : Value} {bytes : Bytes} (h : fromLegacy key value = .ok (some bytes)) :
    ∃ projected, toLegacy key bytes = .ok (some projected) ∧ fromLegacy key projected = .ok (some bytes) := by
  unfold fromLegacy at h
  obtain ⟨mapping,_,h⟩ := bind_ok h
  split at h
  · cases h
  · rename_i hlength
    have hmapping : mapping ≠ [] := fun hempty => hlength (congrArg List.length hempty)
    obtain ⟨⟨direction,user⟩,hkey,h⟩ := bind_ok h
    cases direction with
    | pn =>
      cases h
      refine ⟨.string (toWellFormed mapping),?_,?_⟩
      · unfold toLegacy
        rw [hkey,readUtf8_toWellFormed]
        rfl
      · rw [fromLegacy_string (toWellFormed_ne_nil hmapping) hkey,mappingBytes,encodeUtf8_toWellFormed]
        rfl
    | lid =>
      obtain ⟨written,hwritten,h⟩ := bind_ok h
      cases h
      obtain ⟨found,hfound,hread⟩ := (clean_record user mapping).bytes
      have hsame : toJsonBytes (record user mapping) = .ok bytes := hwritten
      rw [hfound] at hsame
      cases hsame
      refine ⟨.string mapping,?_,?_⟩
      · unfold toLegacy
        rw [hkey]
        dsimp only [bind,Except.bind]
        rw [hread]
        rfl
      · rw [fromLegacy_string hmapping hkey,mappingBytes,hfound]
        rfl

end LidMapping

section Replaced

variable (byteOf : Value → Option UInt8)

/-- A record of numbers, texts, byte arrays and such records, whose names are no array indexes. -/
inductive Tidy : Value → Prop
  | null : Tidy .null
  | bool (b : Bool) : Tidy (.bool b)
  | number (x : JsNumber) (hfinite : x.isFinite = true) (hzero : x ≠ .negativeZero) : Tidy (.number x)
  | string (text : JsString) : Tidy (.string text)
  | bytes (data : Bytes) : Tidy (.bytes data)
  | array (items : List Value) (hitems : ∀ item ∈ items, Tidy item) : Tidy (.array items)
  | object (members : List (JsString × Value)) (hmembers : ∀ m ∈ members, Tidy m.2)
    (hnodup : (members.map Prod.fst).Nodup) (hnames : ∀ m ∈ members, arrayIndex m.1 = none)
    (hwritten : looksWritten members = false) : Tidy (.object members)

/-- A value is written under the replacer as a record that is revived as the value. -/
def Stored (value : Value) : Prop :=
  ∃ written, stringify byteOf value = .ok (some written) ∧ revive byteOf written = .ok value ∧ Clean written

theorem clean_bufferObject (data : Bytes) : Clean (bufferObject data) := by
  have hnames : [ofString "type",ofString "data"].Nodup := by decide
  refine .object _ ?_ hnames (propertyOrder_eq_self ?_)
  · simp only [List.forall_mem_cons,List.not_mem_nil,false_imp_iff,implies_true,and_true]
    exact ⟨.string _,.string _⟩
  · simp only [List.forall_mem_cons,List.not_mem_nil,false_imp_iff,implies_true,and_true]
    exact ⟨arrayIndex_eq_none (by decide) _,arrayIndex_eq_none (by decide) _⟩

theorem stored_items {items : List Value} (h : ∀ item ∈ items, Stored byteOf item) :
    ∃ written, stringifyItems byteOf items = .ok written ∧ reviveItems byteOf written = .ok items ∧
      ∀ item ∈ written, Clean item := by
  induction items with
  | nil => exact ⟨[],rfl,rfl,fun _ hitem => nomatch hitem⟩
  | cons item rest ih =>
    obtain ⟨first,hfirst,hread,hclean⟩ := h item List.mem_cons_self
    obtain ⟨others,hothers,hback,hrest⟩ := ih fun other hother => h other (List.mem_cons_of_mem _ hother)
    refine ⟨first::others,?_,?_,List.forall_mem_cons.mpr ⟨hclean,hrest⟩⟩
    · rw [stringifyItems,hfirst,hothers]
      rfl
    · rw [reviveItems,hread,hback]
      rfl

theorem stored_members {members : List (JsString × Value)} (h : ∀ m ∈ members, Stored byteOf m.2) :
    ∃ written, stringifyMembers byteOf members = .ok written ∧ reviveMembers byteOf written = .ok members ∧
      written.map Prod.fst = members.map Prod.fst ∧ ∀ m ∈ written, Clean m.2 := by
  induction members with
  | nil => exact ⟨[],rfl,rfl,rfl,fun _ hm => nomatch hm⟩
  | cons m rest ih =>
    obtain ⟨first,hfirst,hread,hclean⟩ := h m List.mem_cons_self
    obtain ⟨others,hothers,hback,hnames,hrest⟩ := ih fun other hother => h other (List.mem_cons_of_mem _ hother)
    refine ⟨(m.1,first)::others,?_,?_,?_,List.forall_mem_cons.mpr ⟨hclean,hrest⟩⟩
    · rw [stringifyMembers,hfirst,hothers]
      rfl
    · rw [reviveMembers,hread,hback]
      rfl
    · rw [List.map_cons,List.map_cons,hnames]

/-- A tidy record is stored. -/
theorem Tidy.stored {value : Value} (h : Tidy value) : Stored byteOf value := by
  induction h with
  | null => exact ⟨.null,rfl,rfl,.null⟩
  | bool b => exact ⟨.bool b,rfl,rfl,.bool b⟩
  | number x hfinite hzero =>
    refine ⟨.number x,?_,rfl,.number x hfinite hzero⟩
    rw [stringify,if_pos hfinite,if_neg hzero]
  | string text => exact ⟨.string text,rfl,rfl,.string text⟩
  | bytes data =>
    have hread : revive byteOf (bufferObject data) = .ok (.bytes (Base64.decode (Base64.encode data))) := rfl
    rw [Base64.decode_encode] at hread
    exact ⟨bufferObject data,rfl,hread,clean_bufferObject data⟩
  | array items _ ih =>
    obtain ⟨written,hwritten,hback,hclean⟩ := stored_items byteOf ih
    refine ⟨.array written,?_,?_,.array written hclean⟩
    · rw [stringify,hwritten]
      rfl
    · rw [revive,hback]
      rfl
  | object members _ hnodup hnames hplain ih =>
    obtain ⟨written,hwritten,hback,hsame,hclean⟩ := stored_members byteOf ih
    have horder : propertyOrder written = written := by
      refine propertyOrder_eq_self fun m hm => ?_
      obtain ⟨found,hfound,hname⟩ := List.mem_map.mp (hsame ▸ List.mem_map_of_mem hm)
      rw [← hname]
      exact hnames found hfound
    refine ⟨.object written,?_,?_,.object written hclean (hsame ▸ hnodup) horder⟩
    · rw [stringify,bufferData_eq_none byteOf hplain,hwritten]
      rfl
    · rw [revive,hback]
      change (if looksWritten members then _ else _) = _
      rw [hplain]
      rfl

end Replaced

namespace SenderKey

variable {host : CodecHost} {components : SignalComponents}

end SenderKey

section Inputs

/-- A host that orders names by their code units, and converts no value to a number or to bytes. -/
def unitHost : CodecHost where
  byteOf _ := none
  numberOf _ := .error (.typeError "Cannot convert a value to a number")
  bytesFrom _ := .error (.typeError "Cannot convert a value to bytes")
  localeCompare first second := decide (first.map UInt16.toNat ≤ second.map UInt16.toNat)

/-- Components that know no pre-key and no sync key. -/
def emptyKeys : KeyComponents where
  encodePreKey _ _ _ := []
  decodePreKey _ := .error (.typeError "invalid record")
  encodeFingerprint _ := .error (.typeError "invalid fingerprint")
  decodeFingerprint _ := .error (.typeError "invalid fingerprint")
  syncKeyData _ _ _ := .error (.typeError "invalid key")

/-- Components that know the record without states. -/
def emptySignal : SignalComponents where
  encodeSenderKey states := if states.isEmpty then .ok [] else .error (.typeError "invalid record")
  decodeSenderKey bytes := if bytes.isEmpty then .ok [] else .error (.typeError "invalid record")
  importSession _ _ _ := .error (.typeError "invalid session")
  projectSession _ := .error (.typeError "invalid session")

end Inputs

end Baileyrs.LegacyProjection
