import Baileyrs.RowIndexes
import Mathlib.Order.MinMax

/-!
# Token rows merge what was sent and received

A sent token touches the row of its jid, a received one may replace the token. After
any sequence of both, in any order, the row of a jid has the greatest time of its
touches and the last received token among those with the greatest timestamp.
-/

namespace Baileyrs.AtomicStore

open JsString SnapshotRows

/-- A call about the token of a jid; its timestamp is one of an i64. -/
structure TokenCall where
  /-- Whose token. -/
  jid : JsString
  /-- The received token; none when a token was sent. -/
  token : Option Bytes
  /-- The timestamp as a decimal. -/
  timestamp : JsString
  /-- The timestamp. -/
  value : ℤ
  /-- The decimal is that of the timestamp. -/
  reads : signedTimestamp timestamp = .ok value
  /-- A received token is not empty. -/
  nonempty : ∀ bytes, token = some bytes → bytes ≠ []

namespace TokenCall

/-- The call of the store. -/
def call (call : TokenCall) : AtomicCall :=
  match call.token with
  | none => .touchTcTokenSenderTimestamp call.jid call.timestamp
  | some bytes => .storeReceivedTcToken call.jid bytes call.timestamp

/-- Time of a touch. -/
def touch (call : TokenCall) : Option ℤ :=
  match call.token with
  | none => some call.value
  | some _ => none

/-- Token and timestamp that were received. -/
def receipt (call : TokenCall) : Option (Bytes × ℤ) := call.token.map fun bytes => (bytes,call.value)

end TokenCall

/-- Calls about a jid. -/
def ownCalls (calls : List TokenCall) (jid : JsString) : List TokenCall :=
  calls.filter fun call => call.jid = jid

/-- A row merges the calls about its jid. -/
structure MergedRow (own : List TokenCall) (row : TokenRow) : Prop where
  /-- The greatest touch, if there is one. -/
  sender : row.sender_timestamp = (own.filterMap TokenCall.touch).max?
  /-- No token before one is received. -/
  empty : own.filterMap TokenCall.receipt = [] → row.token = []
  /-- The last one received among those with the greatest timestamp. -/
  token : own.filterMap TokenCall.receipt ≠ [] → ∃ before bytes after,
    own.filterMap TokenCall.receipt = before++(bytes,row.token_timestamp)::after ∧
    row.token = bytes.map UInt8.toNat ∧ (∀ other ∈ before, other.2 ≤ row.token_timestamp) ∧
    ∀ other ∈ after, other.2 < row.token_timestamp

/-- The rows after some calls about tokens. -/
structure Merged (calls : List TokenCall) (get : AtomicNamespace → JsString → Option Bytes) : Prop where
  /-- A jid no call names has no row. -/
  unnamed : ∀ jid, ownCalls calls jid = [] → get tcToken jid = none
  /-- The row of a named jid merges its calls and no others. -/
  named : ∀ jid, ownCalls calls jid ≠ [] → ∃ row, get tcToken jid = some (encodeTokenRow row) ∧
    MergedRow (ownCalls calls jid) row
  /-- The index lists the named jids, each once. -/
  listed : ∃ jids, Lists (get metaRows (ofString "tc_token_jids")) jids ∧ jids.Nodup ∧
    ∀ jid, jid ∈ jids ↔ ∃ call ∈ calls, call.jid = jid

section Rows

/-- The greatest touch after one more. -/
theorem max_append (touches : List ℤ) (incoming : ℤ) :
    (touches++[incoming]).max? = some (match touches.max? with
      | none => incoming
      | some timestamp => if timestamp < incoming then incoming else timestamp) := by
  cases touches with
  | nil => rfl
  | cons first rest =>
    have hmax : ∀ a b : ℤ, max a b = if a < b then b else a := by
      intro a b
      omega
    rw [List.cons_append,List.max?_cons',List.max?_cons',List.foldl_append,List.foldl_cons,List.foldl_nil,hmax]

/-- Row a call starts from. -/
def startRow (row : Option TokenRow) (incoming : ℤ) : TokenRow := row.getD ⟨[],incoming,none⟩

/-- Row after a call. -/
def TokenCall.merge (call : TokenCall) (row : TokenRow) : TokenRow :=
  match call.token with
  | none => {row with sender_timestamp := some (match row.sender_timestamp with
      | none => call.value
      | some timestamp => if timestamp < call.value then call.value else timestamp)}
  | some bytes =>
    if row.token.length = 0 ∨ row.token_timestamp ≤ call.value then
      {row with token := bytes.map UInt8.toNat, token_timestamp := call.value}
    else row

/-- A call keeps a row valid. -/
theorem TokenCall.merge_valid (call : TokenCall) {row : TokenRow} (h : ValidRow row) : ValidRow (call.merge row) := by
  have hvalue : InI64 call.value := inI64_signedTimestamp call.reads
  unfold TokenCall.merge
  split
  · refine ⟨h.token,h.received,fun timestamp htimestamp => ?_⟩
    dsimp only at htimestamp
    cases hsent : row.sender_timestamp with
    | none =>
      rw [hsent] at htimestamp
      cases htimestamp
      exact hvalue
    | some sent =>
      rw [hsent] at htimestamp
      dsimp only at htimestamp
      split at htimestamp
      · cases htimestamp
        exact hvalue
      · cases htimestamp
        exact h.sent _ hsent
  · split
    · refine ⟨fun b hb => ?_,hvalue,h.sent⟩
      obtain ⟨u,_,rfl⟩ := List.mem_map.mp hb
      have hbound := UInt8.toNat_lt u
      omega
    · exact h

/-- Before its first call, a jid has an empty row. -/
theorem startRow_valid (call : TokenCall) {row : Option TokenRow} (h : ∀ found, row = some found → ValidRow found) :
    ValidRow (startRow row call.value) := by
  cases row with
  | none => exact ⟨List.forall_mem_nil _,inI64_signedTimestamp call.reads,fun timestamp h => by cases h⟩
  | some found => exact h found rfl

/-- The row of a jid after some calls; none before the first. -/
def RowAfter (own : List TokenCall) : Option TokenRow → Prop
  | none => own = []
  | some row => own ≠ [] ∧ MergedRow own row ∧ ValidRow row ∧
      (own.filterMap TokenCall.receipt ≠ [] → row.token ≠ [])

/-- The row merges one more call. -/
theorem RowAfter.merge {own : List TokenCall} {row : Option TokenRow} (h : RowAfter own row)
    (call : TokenCall) : RowAfter (own++[call]) (some (call.merge (startRow row call.value))) := by
  have hvalid : ValidRow (startRow row call.value) := startRow_valid call fun found hfound => by
    rw [hfound] at h
    exact h.2.2.1
  have hsender : (startRow row call.value).sender_timestamp = (own.filterMap TokenCall.touch).max? := by
    cases row with
    | none =>
      cases h
      rfl
    | some found => exact h.2.1.sender
  have hempty : own.filterMap TokenCall.receipt = [] → (startRow row call.value).token = [] := by
    intro hnone
    cases row with
    | none => rfl
    | some found => exact h.2.1.empty hnone
  have htoken : own.filterMap TokenCall.receipt ≠ [] → (startRow row call.value).token ≠ [] ∧
      ∃ before bytes after, own.filterMap TokenCall.receipt =
        before++(bytes,(startRow row call.value).token_timestamp)::after ∧
        (startRow row call.value).token = bytes.map UInt8.toNat ∧
        (∀ other ∈ before, other.2 ≤ (startRow row call.value).token_timestamp) ∧
        ∀ other ∈ after, other.2 < (startRow row call.value).token_timestamp := by
    intro hsome
    cases row with
    | none =>
      cases h
      exact absurd rfl hsome
    | some found => exact ⟨h.2.2.2 hsome,h.2.1.token hsome⟩
  generalize startRow row call.value = start at hvalid hsender hempty htoken
  have hafter := call.merge_valid hvalid
  have hne : own++[call] ≠ [] := List.append_ne_nil_of_right_ne_nil _ (List.cons_ne_nil _ _)
  refine ⟨hne,?_,hafter,?_⟩
  · cases hcall : call.token with
    | none =>
      have htouch : (own++[call]).filterMap TokenCall.touch = own.filterMap TokenCall.touch++[call.value] := by
        rw [List.filterMap_append,List.filterMap_cons,TokenCall.touch,hcall]
        rfl
      have hreceipt : (own++[call]).filterMap TokenCall.receipt = own.filterMap TokenCall.receipt := by
        rw [List.filterMap_append,List.filterMap_cons,TokenCall.receipt,hcall]
        exact List.append_nil _
      refine ⟨?_,fun hnone => ?_,fun hsome => ?_⟩
      · rw [htouch,max_append,← hsender,TokenCall.merge,hcall]
      · rw [hreceipt] at hnone
        rw [TokenCall.merge,hcall]
        exact hempty hnone
      · rw [hreceipt] at hsome ⊢
        rw [TokenCall.merge,hcall]
        exact (htoken hsome).2
    | some bytes =>
      have htouch : (own++[call]).filterMap TokenCall.touch = own.filterMap TokenCall.touch := by
        rw [List.filterMap_append,List.filterMap_cons,TokenCall.touch,hcall]
        exact List.append_nil _
      have hreceipt : (own++[call]).filterMap TokenCall.receipt =
          own.filterMap TokenCall.receipt++[(bytes,call.value)] := by
        rw [List.filterMap_append,List.filterMap_cons,TokenCall.receipt,hcall]
        rfl
      refine ⟨?_,fun hnone => ?_,fun _ => ?_⟩
      · rw [htouch,← hsender,TokenCall.merge,hcall]
        dsimp only
        split
        · rfl
        · rfl
      · rw [hreceipt] at hnone
        exact absurd hnone (List.append_ne_nil_of_right_ne_nil _ (List.cons_ne_nil _ _))
      · rw [hreceipt]
        unfold TokenCall.merge
        rw [hcall]
        dsimp only
        split
        · rename_i hreplaced
          refine ⟨own.filterMap TokenCall.receipt,bytes,[],rfl,rfl,fun other hother => ?_,List.forall_mem_nil _⟩
          obtain ⟨hne,before,last,after,heq,_,hbefore,hafter⟩ := htoken (List.ne_nil_of_mem hother)
          have hle : start.token_timestamp ≤ call.value :=
            hreplaced.resolve_left fun hlength => hne (List.length_eq_zero_iff.mp hlength)
          rw [heq] at hother
          rcases List.mem_append.mp hother with hother | hother
          · exact (hbefore other hother).trans hle
          · rcases List.mem_cons.mp hother with rfl | hother
            · exact hle
            · exact (hafter other hother).le.trans hle
        · rename_i hkept
          have hsome : own.filterMap TokenCall.receipt ≠ [] := by
            intro hnone
            exact hkept (.inl (by rw [hempty hnone]; rfl))
          obtain ⟨_,before,last,after,heq,hlast,hbefore,hafter⟩ := htoken hsome
          refine ⟨before,last,after++[(bytes,call.value)],?_,hlast,hbefore,fun other hother => ?_⟩
          · rw [heq,List.append_assoc,List.cons_append]
          · rcases List.mem_append.mp hother with hother | hother
            · exact hafter other hother
            · rw [List.mem_singleton.mp hother]
              exact lt_of_not_ge fun hle => hkept (.inr hle)
  · intro hsome
    unfold TokenCall.merge
    cases hcall : call.token with
    | none =>
      have hreceipt : (own++[call]).filterMap TokenCall.receipt = own.filterMap TokenCall.receipt := by
        rw [List.filterMap_append,List.filterMap_cons,TokenCall.receipt,hcall]
        exact List.append_nil _
      rw [hreceipt] at hsome
      exact (htoken hsome).1
    | some bytes =>
      dsimp only
      split
      · exact fun hnil => call.nonempty bytes hcall (List.map_eq_nil_iff.mp hnil)
      · rename_i hkept
        exact fun hnil => hkept (.inl (by rw [hnil]; rfl))

end Rows

section Programs

/-- Program of a call whose timestamp was checked. -/
def TokenCall.program (call : TokenCall) : RowProgram Unit :=
  match call.token with
  | none => touchTcTokenSenderTimestamp call.jid call.value
  | some bytes => storeReceivedTcToken call.jid bytes call.value

/-- The callback runs it. -/
theorem TokenCall.callback (call : TokenCall) (S : Type)
    (transaction : S → RowProgram Unit → Except StoreError Unit × S) (s : S) :
    atomicCallbacks transaction call.call s = transaction s call.program := by
  unfold TokenCall.call TokenCall.program
  cases call.token with
  | none => simp only [atomicCallbacks,call.reads]
  | some bytes => simp only [atomicCallbacks,call.reads]

/-- A valid row is read as it was written. -/
theorem resolves_tokenRow {rows : AtomicRows Bytes} {jid : JsString} {row : Option TokenRow} (incoming : ℤ)
    (h : rows.get (rowKey tcToken jid) = row.map encodeTokenRow) (hvalid : ∀ found, row = some found → ValidRow found) :
    Resolves (tokenRow jid incoming) rows (startRow row incoming) rows := by
  refine (resolves_getRow tcToken jid rows).bind ?_
  rw [h]
  cases row with
  | none => exact resolves_pure _ rows
  | some found =>
    dsimp only [Option.map]
    rw [decodeTokenRow_encodeTokenRow (hvalid found rfl)]
    exact resolves_pure found rows

/-- A row is written and its jid is listed. -/
theorem resolves_storeTokenRow (jid : JsString) (row : TokenRow) {rows : AtomicRows Bytes}
    {index : InsertionMap JsString Unit}
    (h : IndexRow (rows.get (rowKey metaRows (ofString "tc_token_jids"))) index) :
    Resolves (storeTokenRow jid row) rows () ((rows.set (rowKey tcToken jid) (encodeTokenRow row)).set
      (rowKey metaRows (ofString "tc_token_jids")) (encodeIndex (index.set jid ()))) := by
  have hindex : IndexRow ((rows.set (rowKey tcToken jid) (encodeTokenRow row)).get
      (rowKey metaRows (ofString "tc_token_jids"))) index := by
    rw [get_rowKey_ne _ _ (.inl namespaces_ne.2.2.2.2.2.2.1)]
    exact h
  refine (resolves_setRow tcToken jid _ rows).bind ?_
  exact (resolves_readIndex hindex).bind (resolves_setRow metaRows _ _ _)

/-- A call merges into the row of its jid. -/
theorem TokenCall.resolves (call : TokenCall) {rows : AtomicRows Bytes} {row : Option TokenRow}
    {index : InsertionMap JsString Unit} (h : rows.get (rowKey tcToken call.jid) = row.map encodeTokenRow)
    (hvalid : ∀ found, row = some found → ValidRow found)
    (hindex : IndexRow (rows.get (rowKey metaRows (ofString "tc_token_jids"))) index) :
    Resolves call.program rows () ((rows.set (rowKey tcToken call.jid)
      (encodeTokenRow (call.merge (startRow row call.value)))).set
        (rowKey metaRows (ofString "tc_token_jids")) (encodeIndex (index.set call.jid ()))) := by
  have hrow := resolves_tokenRow call.value h hvalid
  unfold TokenCall.program TokenCall.merge
  cases call.token with
  | none => exact hrow.bind (resolves_storeTokenRow call.jid _ hindex)
  | some bytes =>
    refine hrow.bind ?_
    dsimp only
    split
    · exact resolves_storeTokenRow call.jid _ hindex
    · exact resolves_storeTokenRow call.jid _ hindex

end Programs

section Runs

/-- The rows after some calls, with the index they hold. -/
structure TokenRows (calls : List TokenCall) (rows : AtomicRows Bytes) (index : InsertionMap JsString Unit) :
    Prop where
  /-- The index row. -/
  row : IndexRow (rows.get (rowKey metaRows (ofString "tc_token_jids"))) index
  /-- It lists the named jids. -/
  jids : ∀ jid, jid ∈ index.keys ↔ ∃ call ∈ calls, call.jid = jid
  /-- Every row merges the calls about its jid. -/
  merged : ∀ jid, ∃ row, rows.get (rowKey tcToken jid) = row.map encodeTokenRow ∧
    RowAfter (ownCalls calls jid) row

theorem TokenRows.merged_reads {calls : List TokenCall} {rows : AtomicRows Bytes}
    {index : InsertionMap JsString Unit} (h : TokenRows calls rows index) :
    Merged calls fun store key => rows.get (rowKey store key) := by
  refine ⟨fun jid hnone => ?_,fun jid hsome => ?_,index.keys,h.row.lists,index.nodup,h.jids⟩
  · obtain ⟨row,hrow,hafter⟩ := h.merged jid
    cases row with
    | none => exact hrow
    | some found => exact absurd hnone hafter.1
  · obtain ⟨row,hrow,hafter⟩ := h.merged jid
    cases row with
    | none => exact absurd hafter hsome
    | some found => exact ⟨found,hrow,hafter.2.1⟩

/-- Without calls there are no rows. -/
theorem tokenRows_empty : TokenRows [] InsertionMap.empty InsertionMap.empty := by
  refine ⟨.inr ⟨rfl,rfl⟩,fun jid => ?_,fun jid => ⟨none,rfl,rfl⟩⟩
  rw [InsertionMap.keys_empty]
  simp

/-- One more call. -/
theorem TokenRows.call {calls : List TokenCall} {rows : AtomicRows Bytes} {index : InsertionMap JsString Unit}
    (h : TokenRows calls rows index) (call : TokenCall) : ∃ lastRows,
      Resolves call.program rows () lastRows ∧ TokenRows (calls++[call]) lastRows (index.set call.jid ()) := by
  obtain ⟨row,hrow,hafter⟩ := h.merged call.jid
  have hvalid : ∀ found, row = some found → ValidRow found := by
    rintro found rfl
    exact hafter.2.2.1
  refine ⟨_,call.resolves hrow hvalid h.row,.inl (get_rowKey_self _ _ _ _),fun jid => ?_,fun jid => ?_⟩
  · rw [InsertionMap.mem_keys_set,h.jids]
    constructor
    · rintro (rfl | ⟨other,hother,rfl⟩)
      · exact ⟨call,List.mem_append_right _ List.mem_cons_self,rfl⟩
      · exact ⟨other,List.mem_append_left _ hother,rfl⟩
    · rintro ⟨other,hother,rfl⟩
      rcases List.mem_append.mp hother with hother | hother
      · exact .inr ⟨other,hother,rfl⟩
      · exact .inl (by rw [List.mem_singleton.mp hother])
  · rw [get_rowKey_ne _ _ (.inl namespaces_ne.2.2.2.2.2.2.2),ownCalls,List.filter_append]
    by_cases hjid : call.jid = jid
    · subst hjid
      have hown : [call].filter (fun other => other.jid = call.jid) = [call] := by simp
      rw [get_rowKey_self,hown]
      exact ⟨_,rfl,hafter.merge call⟩
    · obtain ⟨other,hother,hotherAfter⟩ := h.merged jid
      have hown : [call].filter (fun other => other.jid = jid) = [] := by simp [hjid]
      rw [get_rowKey_ne _ _ (.inr hjid),hown,List.append_nil]
      exact ⟨other,hother,hotherAfter⟩

/-- Calls are made one after the other on the memory store. -/
theorem TokenRows.run {calls : List TokenCall} {rows : AtomicRows Bytes} {index : InsertionMap JsString Unit}
    {stores : MemoryStores} (h : TokenRows calls rows index) (hagrees : Agrees stores rows)
    (more : List TokenCall) : ∃ lastRows lastIndex, TokenRows (calls++more) lastRows lastIndex ∧
      Agrees (runCalls memoryCall (more.map fun call => .atomic call.call) stores).2 lastRows ∧
      ∀ outcome ∈ (runCalls memoryCall (more.map fun call => .atomic call.call) stores).1,
        outcome = .ok .undefined := by
  have hstep : ∀ {done : List TokenCall} {rows : AtomicRows Bytes} {index : InsertionMap JsString Unit},
      TokenRows done rows index → ∀ call, ∃ last next,
        Resolves call.program rows () last ∧ TokenRows (done++[call]) last next := by
    intro done rows index hrows call
    obtain ⟨last,hresolves,hlast⟩ := hrows.call call
    exact ⟨last,_,hresolves,hlast⟩
  exact runCalls_resolve TokenCall.callback hstep h hagrees more

/-- Starting empty, any calls about tokens are accepted, and after them the row of every
jid merges its own calls and the index lists the named jids; the file store answers
the same as the memory store. -/
theorem tokens_merged (migrate : Bool) (folder : StoreFolder) (hsnapshot : folder.snapshot = none)
    (hfiles : ∀ file ∈ folder.files, isNativeAtomicRecordFile file.1 = false) (calls : List TokenCall) :
    let run := calls.map fun call => StoreCall.atomic call.call
    let memory := runCalls memoryCall run InsertionMap.empty
    let file := runCalls (fileCall migrate) run folder
    (∀ outcome ∈ memory.1, outcome = .ok .undefined) ∧ file.1 = memory.1 ∧
    (Merged calls fun store key => memoryGet memory.2 store key) ∧
    ∀ store key, fileGet migrate file.2 store key = .ok (memoryGet memory.2 store key) := by
  intro run memory file
  have hstart : Corresponds migrate InsertionMap.empty folder := corresponds_empty hsnapshot hfiles
  have hrun := runCalls_agree hstart run
  obtain ⟨lastRows,lastIndex,hlast,hagrees,houtcomes⟩ := tokenRows_empty.run agrees_empty calls
  refine ⟨houtcomes,hrun.1,?_,fun store key => (hrun.2.reads store).1 key⟩
  have hreads : (fun (store : AtomicNamespace) key => memoryGet memory.2 store key) =
      fun (store : AtomicNamespace) key => lastRows.get (rowKey store key) := by
    funext store key
    exact hagrees.get store key
  rw [hreads]
  exact hlast.merged_reads

/-- A touch, a newer token and an older one. -/
theorem tokens_merged_older :
    Merged [⟨[97],none,[53],5,by decide,fun bytes h => by cases h⟩,
      ⟨[97],some [1],[57],9,by decide,fun bytes h => by cases h; decide⟩,
      ⟨[97],some [2],[55],7,by decide,fun bytes h => by cases h; decide⟩]
      fun store key => memoryGet (runCalls memoryCall [.atomic (.touchTcTokenSenderTimestamp [97] [53]),
        .atomic (.storeReceivedTcToken [97] [1] [57]),.atomic (.storeReceivedTcToken [97] [2] [55])]
        InsertionMap.empty).2 store key :=
  (tokens_merged false ⟨"",none,[]⟩ rfl (List.forall_mem_nil _) _).2.2.1

end Runs

end Baileyrs.AtomicStore
