import Baileyrs.BridgeStoreDelete
import Baileyrs.BridgeStoreDrain
import Baileyrs.UriComponent

/-!
# Listing the keys of the bridge store

A key's file is named by its store, a hyphen, the percent-encoded key and an
extension. The lister splits a name at the first hyphen and decodes the rest,
so it finds a key exactly where the file of the key lies in the folder. That
needs a store name that is part of one path segment.
-/

namespace Baileyrs.BridgeStore

open JsString UriComponent LabelledRuns Function

/-- Extension of a record file. -/
def recordExtension : JsString := ofString ".bin"

/-- File name of a key. -/
def recordName (k : StoreKey) : JsString :=
  ofString k.store++unit '-'::((encode (ofString k.key)).getD []++recordExtension)

/-- Segments of a path. -/
def segments : JsString → List JsString
  | [] => [[]]
  | u::rest =>
    match segments rest with
    | [] => [[u]]
    | segment::others => if u = unit '/' then []::segment::others else (u::segment)::others

/-- Walk one segment down from a normalized path. -/
def joinSegment (path : List JsString) (segment : JsString) : List JsString :=
  if segment = [] ∨ segment = ofString "." then path
  else if segment = ofString ".." then path.dropLast
  else path++[segment]

/-- Path of a key's file below the folder. -/
def filePath (folder : List JsString) (k : StoreKey) : List JsString :=
  (segments (recordName k)).foldl joinSegment folder

/-- A store name that lies inside one path segment. -/
def PlainStore (k : StoreKey) : Prop := '/' ∉ k.store.toList

instance (k : StoreKey) : Decidable (PlainStore k) := inferInstanceAs (Decidable (_ ∉ _))

/-- Key in the name of a file, if the name belongs to the store. -/
def fileKey (store : String) (file : JsString) : Option JsString :=
  let filePrefix := ofString store++[unit '-']
  if filePrefix.isPrefixOf file && recordExtension.isSuffixOf file then
    decode ((file.take (file.length-recordExtension.length)).drop filePrefix.length)
  else none

/-- Whether a listing with this prefix shows the key. -/
def matchesPrefix (start : Option JsString) (key : JsString) : Bool :=
  (start.getD []).isPrefixOf key

/-- Add a key to those found. -/
def addFound (found : List JsString) (key : JsString) : List JsString :=
  if key ∈ found then found else found++[key]

/-- Key of the file or pending write, if it belongs to the store and matches. -/
def shownKey (start : Option JsString) (key : Option JsString) : Option JsString :=
  key.filter (matchesPrefix start)

/-- The keys a listing returns for the names read from the folder and the
writes still pending. -/
def listedKeys (store : String) (start : Option JsString) (names : List JsString)
    (pending : List StoreKey) : List JsString :=
  let found := (names.filterMap fun file => shownKey start (fileKey store file)).foldl addFound []
  (pending.filterMap fun k =>
    shownKey start (if k.store = store then some (ofString k.key) else none)).foldl addFound found

/-- A name in the folder that is no record: it lacks the extension. -/
def Foreign (name : JsString) : Prop := ¬recordExtension <:+ name

/-- Names that reading the folder reports: the files of keys that lie directly
in it, and foreign ones. -/
structure Reads (folder : List JsString) (s : State) (names : List JsString) : Prop where
  /-- No name is reported twice. -/
  nodup : names.Nodup
  /-- Every file in the folder is reported. -/
  complete : ∀ k, s.disk k ≠ none → ∀ name, filePath folder k = folder++[name] → name ∈ names
  /-- Every name is that of a file, or foreign. -/
  sound : ∀ name ∈ names, Foreign name ∨ ∃ k, s.disk k ≠ none ∧ filePath folder k = folder++[name]

theorem mem_foldl_addFound (keys found : List JsString) (key : JsString) :
    key ∈ keys.foldl addFound found ↔ key ∈ found ∨ key ∈ keys := by
  induction keys generalizing found with
  | nil => simp
  | cons first rest ih =>
    rw [List.foldl_cons,ih,List.mem_cons]
    unfold addFound
    split
    · rename_i hf
      constructor
      · rintro (h | h)
        · exact Or.inl h
        · exact Or.inr (Or.inr h)
      · rintro (h | rfl | h)
        · exact Or.inl h
        · exact Or.inl hf
        · exact Or.inr h
    · rw [List.mem_append,List.mem_singleton,or_assoc]

theorem nodup_foldl_addFound (keys found : List JsString) (h : found.Nodup) : (keys.foldl addFound found).Nodup := by
  induction keys generalizing found with
  | nil => exact h
  | cons first rest ih =>
    refine ih _ ?_
    unfold addFound
    split
    · exact h
    · rename_i hf
      rw [List.nodup_append]
      refine ⟨h,List.nodup_singleton _,?_⟩
      rintro a ha b hb rfl
      exact hf (List.mem_singleton.mp hb ▸ ha)

/-- No key is listed twice. -/
theorem listedKeys_nodup (store : String) (start : Option JsString) (names : List JsString)
    (pending : List StoreKey) : (listedKeys store start names pending).Nodup :=
  nodup_foldl_addFound _ _ (nodup_foldl_addFound _ _ List.nodup_nil)

/-- A listed key matches and is that of a file or of a pending write. -/
theorem mem_listedKeys (store : String) (start : Option JsString) (names : List JsString)
    (pending : List StoreKey) (key : JsString) :
    key ∈ listedKeys store start names pending ↔
      matchesPrefix start key = true ∧
        ((∃ file ∈ names, fileKey store file = some key) ∨
          ∃ k ∈ pending, k.store = store ∧ ofString k.key = key) := by
  have hshown : ∀ found : Option JsString, shownKey start found = some key ↔
      matchesPrefix start key = true ∧ found = some key := by
    intro found
    rw [shownKey,Option.filter_eq_some_iff,and_comm]
  simp only [listedKeys,mem_foldl_addFound,List.not_mem_nil,false_or,List.mem_filterMap,hshown]
  constructor
  · rintro (⟨file,hf,hm,hk⟩ | ⟨k,hk,hm,he⟩)
    · exact ⟨hm,Or.inl ⟨file,hf,hk⟩⟩
    · split at he
      · rename_i hs
        exact ⟨hm,Or.inr ⟨k,hk,hs,Option.some.inj he⟩⟩
      · cases he
  · rintro ⟨hm,⟨file,hf,hk⟩ | ⟨k,hk,hs,he⟩⟩
    · exact Or.inl ⟨file,hf,hm,hk⟩
    · exact Or.inr ⟨k,hk,hm,by rw [if_pos hs,he]⟩

/-- Two texts in front of the first separator are the same. -/
theorem prefix_separator {u : UInt16} {first second tail : JsString} (hfirst : u ∉ first)
    (hsecond : u ∉ second) : first++[u] <+: second++u::tail ↔ first = second := by
  induction first generalizing second with
  | nil =>
    cases second with
    | nil => simp
    | cons v rest =>
      have hne : u ≠ v := fun h => hsecond (h ▸ List.mem_cons_self)
      simp [hne]
  | cons w rest ih =>
    have hw : w ≠ u := fun h => hfirst (h ▸ List.mem_cons_self)
    cases second with
    | nil => simp [hw]
    | cons v others =>
      have hrest : u ∉ rest := fun h => hfirst (List.mem_cons_of_mem _ h)
      have hothers : u ∉ others := fun h => hsecond (List.mem_cons_of_mem _ h)
      rw [List.cons_append,List.cons_append,List.cons_prefix_cons,ih hrest hothers,List.cons.injEq]

/-- The written key of a file name. -/
theorem encode_key (k : StoreKey) : ∃ written, encode (ofString k.key) = some written ∧
      decode written = some (ofString k.key) ∧
      recordName k = ofString k.store++unit '-'::(written++recordExtension) := by
  have hpaired := paired_ofString k.key
  obtain ⟨written,hw⟩ := Option.isSome_iff_exists.mp (encode_isSome hpaired)
  refine ⟨written,hw,decode_encode hpaired hw,?_⟩
  rw [recordName,hw,Option.getD_some]

/-- The lister reads the key of a file back, in the store of the file only. -/
theorem fileKey_recordName {store : String} (hstore : '-' ∉ store.toList) (k : StoreKey) :
    fileKey store (recordName k) = if k.store = store then some (ofString k.key) else none := by
  obtain ⟨written,_,hd,hname⟩ := encode_key k
  have hfirst : unit '-' ∉ ofString store := fun h => hstore (unit_mem_ofString (by decide) h)
  have hsecond : unit '-' ∉ ofString k.store :=
    fun h => k.store_noHyphen (unit_mem_ofString (by decide) h)
  have hstart := @prefix_separator _ _ _ (written++recordExtension) hfirst hsecond
  have hsuffix : recordExtension <:+ recordName k := by
    rw [hname,← List.cons_append,← List.append_assoc]
    exact List.suffix_append _ _
  unfold fileKey
  dsimp only
  by_cases hs : k.store = store
  · have htake : (recordName k).take ((recordName k).length-recordExtension.length) =
        (ofString k.store++[unit '-'])++written := by
      have hwhole : recordName k = (ofString k.store++[unit '-'])++written++recordExtension := by
        rw [hname]
        simp
      rw [hwhole,List.length_append,Nat.add_sub_cancel]
      exact List.take_left
    have hmatch : ((ofString store++[unit '-']).isPrefixOf (recordName k) &&
        recordExtension.isSuffixOf (recordName k)) = true := by
      rw [Bool.and_eq_true, List.isPrefixOf_iff_prefix,List.isSuffixOf_iff_suffix,hname]
      exact ⟨hstart.mpr (congrArg ofString hs).symm,hname ▸ hsuffix⟩
    rw [if_pos hmatch,if_pos hs,htake,hs,List.drop_left,hd]
  · have hno : ¬((ofString store++[unit '-']).isPrefixOf (recordName k) &&
        recordExtension.isSuffixOf (recordName k)) = true := by
      rw [Bool.and_eq_true, List.isPrefixOf_iff_prefix,hname,hstart]
      rintro ⟨h,_⟩
      exact hs (ofString_injective h).symm
    rw [if_neg hno,if_neg hs]

/-- A key is its store and its name. -/
theorem storeKey_ext {k other : StoreKey} (hs : k.store = other.store) (hk : k.key = other.key) : k = other := by
  cases k
  cases other
  simp only [StoreKey.mk.injEq]
  exact ⟨hs,hk⟩

theorem segments_plain {name : JsString} (h : unit '/' ∉ name) : segments name = [name] := by
  induction name with
  | nil => rfl
  | cons u rest ih =>
    have hu : u ≠ unit '/' := fun he => h (he ▸ List.mem_cons_self)
    have hrest := ih fun hm => h (List.mem_cons_of_mem _ hm)
    simp only [segments,hrest,if_neg hu]

/-- The file of a key with a plain store lies in the folder itself. -/
theorem filePath_plain (folder : List JsString) {k : StoreKey} (hk : PlainStore k) :
    filePath folder k = folder++[recordName k] := by
  obtain ⟨written,hw,_,hname⟩ := encode_key k
  have hslash : unit '/' ∉ recordName k := by
    have hunits := encode_units (paired_ofString k.key) hw
    have hstore : unit '/' ∉ ofString k.store := fun h => hk (unit_mem_ofString (by decide) h)
    have hwritten : unit '/' ∉ written := by
      intro h
      rcases hunits _ h with hu | hu
      · exact absurd hu (by decide)
      · exact absurd hu (by decide)
    have hext : unit '/' ∉ recordExtension := by decide
    have hhyphen : unit '/' ≠ unit '-' := by decide
    rw [hname]
    simp [hstore,hwritten,hext,hhyphen]
  have hlong : 5 ≤ (recordName k).length := by
    have hext : recordExtension.length = 4 := by decide
    rw [hname]
    simp only [List.length_append,List.length_cons,hext]
    omega
  have hshort : recordName k ≠ [] ∧ recordName k ≠ ofString "." ∧ recordName k ≠ ofString ".." := by
    have hdot : (ofString ".").length = 1 := by decide
    have hdots : (ofString "..").length = 2 := by decide
    refine ⟨fun h => ?_,fun h => ?_,fun h => ?_⟩
    · rw [h,List.length_nil] at hlong
      omega
    · rw [h,hdot] at hlong
      omega
    · rw [h,hdots] at hlong
      omega
  simp [filePath,segments_plain hslash,joinSegment,hshort]

/-- In a folder that reports the files of plain keys, the lister finds exactly
the keys with a file. -/
theorem fileKey_reads {folder : List JsString} {s : State} {names : List JsString}
    (h : Reads folder s names) (hplain : ∀ k, s.disk k ≠ none → PlainStore k) {store : String}
    (hstore : '-' ∉ store.toList) (key : JsString) : (∃ file ∈ names, fileKey store file = some key) ↔
      ∃ k, k.store = store ∧ ofString k.key = key ∧ s.disk k ≠ none := by
  constructor
  · rintro ⟨file,hf,hk⟩
    rcases h.sound file hf with hforeign | ⟨k,hd,hpath⟩
    · have hno : ¬((ofString store++[unit '-']).isPrefixOf file &&
          recordExtension.isSuffixOf file) = true := by
        rw [Bool.and_eq_true,List.isSuffixOf_iff_suffix]
        rintro ⟨_,hs⟩
        exact hforeign hs
      rw [fileKey,if_neg hno] at hk
      cases hk
    · rw [filePath_plain folder (hplain k hd)] at hpath
      obtain rfl := List.singleton_injective (List.append_cancel_left hpath)
      rw [fileKey_recordName hstore] at hk
      split at hk
      · rename_i hs
        exact ⟨k,hs,Option.some.inj hk,hd⟩
      · cases hk
  · rintro ⟨k,hs,hk,hd⟩
    refine ⟨recordName k,h.complete k hd _ (filePath_plain folder (hplain k hd)),?_⟩
    rw [fileKey_recordName hstore,if_pos hs,hk]

/-- What the key shows: its pending bytes, or its file. -/
def content (s : State) (k : StoreKey) : Option Bytes :=
  match s.pendingWrites.get k with
  | some entry => some entry.value
  | none => s.disk k

/-- No mutation of the key is under way. -/
def NoMutation (s : State) (k : StoreKey) : Prop :=
  ∀ entry ∈ s.log, entry.key = k → s.results entry.id = none → entry.call.mutates = false

theorem NoMutation.jobs {s : State} {k : StoreKey} (h : NoMutation s k) (ho : OrderOk s) :
    ∀ job ∈ jobs s k, ∀ call, job.op = .call call → call.mutates = false := by
  intro job hj call hop
  exact h _ (ho.queued_log k job hj call hop) rfl (ho.jobs_unsettled k job hj)

/-- Bytes that are held are shown. -/
theorem Held.content {s : State} {k : StoreKey} {value : Bytes} (h : Held s k value) : content s k = some value := by
  unfold Held at h
  unfold BridgeStore.content
  cases hp : s.pendingWrites.get k with
  | some entry =>
    rw [hp] at h
    exact congrArg some h
  | none =>
    rw [hp] at h
    exact h.1

/-- A read or a flush that starts changes nothing a key shows. -/
theorem startJob_content {s : State} {k : StoreKey} {job : Job}
    (hjob : ∀ call, job.op = .call call → call.mutates = false) : content (startJob s k job) k = content s k := by
  cases hp : s.pendingWrites.get k with
  | some entry =>
    have hheld : Held s k entry.value := by
      unfold Held
      rw [hp]
    rw [(startJob_held hjob hheld).content,hheld.content]
  | none =>
    have hdisk := (startJob_file s k job).1
    have hpending : (startJob s k job).pendingWrites.get k = none := by
      unfold startJob
      split
      · rename_i ho
        cases hjob _ ho
      · unfold doGetLocked
        rw [hp]
        dsimp only
        split
        · exact hp
        · exact hp
      · rename_i ho
        cases hjob _ ho
      · unfold flushOne
        rw [hp]
        exact hp
    unfold content
    rw [hpending,hp,hdisk]

/-- A read or a flush that continues changes nothing a key shows. -/
theorem ioJob_content {s s' : State} {k : StoreKey} {job : Job} {awaiting : Awaiting}
    {outcome : IoOutcome} (hs : Suspended s k job awaiting) (hjob : ∀ call, job.op = .call call → call.mutates = false)
    (hio : ioJob s k job awaiting outcome = some s') : content s' k = content s k := by
  cases hp : s.pendingWrites.get k with
  | some entry =>
    have hheld : Held s k entry.value := by
      unfold Held
      rw [hp]
    rw [(ioJob_held hs hjob hheld hio).content,hheld.content]
  | none =>
    have hwrite : ∀ write, ¬WriteOk s k job write := by
      intro write hw
      unfold WriteOk at hw
      split at hw
      · cases hjob _ hw.1
      · rw [hp] at hw
        cases hw.2.2.2.1
    have hdelete : job.op ≠ .call .delete := by
      intro ho
      cases hjob _ ho
    cases awaiting with
    | writeTmp write attempt => exact absurd hs.2 (hwrite write)
    | publishTmp write => exact absurd hs.2 (hwrite write)
    | syncDir write => exact absurd hs.1 (hwrite write)
    | unlinkTmp write => exact absurd hs.1 (hwrite write)
    | unlink prev => exact absurd hs.2.op hdelete
    | syncAbsent prev => exact absurd hs.2.1.op hdelete
    | syncUnlinked => exact absurd hs.1 hdelete
    | readFile keyUncertain =>
      have hsame : s'.pendingWrites.get k = s.pendingWrites.get k ∧ s'.disk k = s.disk k := by
        cases outcome with
        | ok =>
          simp only [ioJob] at hio
          split at hio
          · cases hio
            split <;> exact ⟨rfl,rfl⟩
          · cases hio
            exact ⟨rfl,rfl⟩
        | enoent => cases hio; exact ⟨rfl,rfl⟩
        | eexist => cases hio; exact ⟨rfl,rfl⟩
        | failed => cases hio; exact ⟨rfl,rfl⟩
        | failedAfterEffect => cases hio; exact ⟨rfl,rfl⟩
      unfold content
      rw [hsame.1,hsame.2]

/-- Without a mutation under way, no step changes what a key shows. -/
theorem step_content {s s' : State} {a : Action} {k : StoreKey} (ho : OrderOk s)
    (hk : KeyOk s k) (hm : NoMutation s k) (h : step s a = some s') : content s' k = content s k := by
  by_cases hadvance : Advances a k
  · rcases hadvance with rfl | ⟨outcome,rfl⟩
    · obtain ⟨job,rest,hc,rfl⟩ := step_start h
      have hmem : job ∈ jobs s k := by
        unfold jobs
        rw [hc]
        exact List.mem_append_right _ List.mem_cons_self
      exact startJob_content (hm.jobs ho job hmem)
    · obtain ⟨job,awaiting,hr,hio⟩ := step_io h
      have hmem : job ∈ jobs s k := by simp [jobs,hr]
      have hsuspended := hk
      unfold KeyOk at hsuspended
      rw [hr] at hsuspended
      exact ioJob_content hsuspended (hm.jobs ho job hmem) hio
  · have hsame := step_sameAt h hadvance
    unfold content
    rw [hsame.pending,hsame.disk]

/-- While no mutation is under way, a read returns what the key shows. -/
theorem NoMutation.getResult {s : State} {k : StoreKey} (hm : NoMutation s k) (ho : OrderOk s)
    (hk : KeyOk s k) : getResult s k = content s k := by
  unfold BridgeStore.getResult content
  cases hp : s.pendingWrites.get k with
  | some entry => rfl
  | none =>
    have hknown : ∀ known, s.durable.get k = some known → s.disk k = some known := by
      intro known hd
      refine KeyOk.durable_disk hk hp (fun job awaiting hr => ?_) hd
      exact hm.jobs ho job (by simp [BridgeStore.jobs,hr])
    dsimp only
    split
    · rename_i known hd
      split at hd
      · cases hd
      · exact (hknown known hd).symm
    · rfl

/-- A call admits exactly its entries, in order. -/
theorem withKeyLocks_entries (s : State) (calls : List (StoreKey × KeyCall)) :
    ∃ extra, (withKeyLocks s calls).log = s.log++extra ∧
      extra.map (fun entry => (entry.key,entry.call)) = calls ∧ ∀ entry ∈ extra, s.fresh ≤ entry.id := by
  induction calls generalizing s with
  | nil => exact ⟨[],(List.append_nil _).symm,rfl,fun entry he => by cases he⟩
  | cons pair rest ih =>
    obtain ⟨extra,hlog,hcalls,hextra⟩ := ih (withKeyLock s pair.1 pair.2)
    refine ⟨⟨s.fresh,pair.1,pair.2⟩::extra,?_,?_,?_⟩
    · rw [List.append_cons]
      exact hlog
    · rw [List.map_cons,hcalls]
    · intro entry he
      rcases List.mem_cons.mp he with rfl | he
      · exact le_rfl
      · exact (Nat.le_succ _).trans (hextra entry he)

/-- Labels that admit no operation. -/
def NoInvoke (labels : List Action) : Prop := ∀ a ∈ labels, ∀ calls, a ≠ .invoke calls

/-- A step that admits nothing keeps the log. -/
theorem step_log_eq {s s' : State} {a : Action} (h : step s a = some s')
    (hinvoke : ∀ calls, a ≠ .invoke calls) : s'.log = s.log := by
  cases a with
  | invoke calls => exact absurd rfl (hinvoke calls)
  | start k =>
    obtain ⟨_,_,_,hp⟩ := step_start_progress h
    exact hp.log
  | io k outcome =>
    obtain ⟨_,_,_,hp⟩ := step_io_progress h
    exact hp.log
  | fire timer =>
    obtain ⟨_,_,rfl⟩ := step_fire h
    rfl
  | flush =>
    cases h
    exact (flushAll_frame s _).log
  | drain id =>
    cases h
    exact (flushAll_frame s _).log
  | resume f =>
    obtain ⟨call,_,hr⟩ := step_resume h
    exact (resumeFlush_frame hr).log

/-- Settled operations stay settled, so no mutation comes under way. -/
theorem NoMutation.step {s s' : State} {a : Action} {k : StoreKey} (hm : NoMutation s k)
    (ho : OrderOk s) (h : step s a = some s') (hlog : s'.log = s.log) : NoMutation s' k := by
  intro entry he hk hr
  rw [hlog] at he
  refine hm entry he hk ?_
  by_contra hne
  rw [step_settled ho h hne] at hr
  exact hne hr

/-- A run that admits nothing keeps the log, and what every key shows unless a
mutation of it was under way. -/
theorem run_content {s last : State} {labels : List Action} (hs : ReachableState s)
    (hr : run step s labels = some last) (hno : NoInvoke labels) :
    last.log = s.log ∧ ∀ k, NoMutation s k → NoMutation last k ∧ content last k = content s k := by
  induction labels generalizing s with
  | nil =>
    cases hr
    exact ⟨rfl,fun k hm => ⟨hm,rfl⟩⟩
  | cons a rest ih =>
    obtain ⟨next,hstep,hrest⟩ := run_cons_some hr
    have hlog := step_log_eq hstep (hno a List.mem_cons_self)
    have htail : NoInvoke rest := fun b hb => hno b (List.mem_cons_of_mem _ hb)
    obtain ⟨hlast,hkeys⟩ := ih (hs.next hstep) hrest htail
    refine ⟨hlast.trans hlog,fun k hm => ?_⟩
    have ho := reachable_orderOk hs
    obtain ⟨hm',hc⟩ := hkeys k (hm.step ho hstep hlog)
    exact ⟨hm',hc.trans (step_content ho (reachable_keyOk hs k) hm hstep)⟩

/-- An idle store has no mutation under way. -/
theorem idle_noMutation {s : State} (ho : OrderOk s) (h : s.admitted = []) (k : StoreKey) : NoMutation s k := by
  intro entry he _ hr
  have hmem := ho.log_admitted entry he hr
  rw [h] at hmem
  cases hmem

/-- A run that admits nothing leaves a quiet store quiet. -/
theorem run_quiet {s last : State} {labels : List Action} (hs : ReachableState s) (hq : Quiet s)
    (hr : run step s labels = some last) (hno : NoInvoke labels) : Quiet last := by
  induction labels generalizing s with
  | nil =>
    cases hr
    exact hq
  | cons a rest ih =>
    obtain ⟨next,hstep,hrest⟩ := run_cons_some hr
    have hnext := hq.step (reachable_orderOk hs) (reachable_keyOk hs) hstep
      (hno a List.mem_cons_self)
    exact ih (hs.next hstep) hnext.1 hrest fun b hb => hno b (List.mem_cons_of_mem _ hb)

/-- A flush with its own failure set that resolves while nothing is admitted
leaves the store quiet. -/
theorem run_flushed {s last : State} {labels : List Action} {f : ℕ} (hs : ReachableState s)
    (hbefore : ¬FlushResolved s (.own f) f) (hr : run step s labels = some last)
    (hno : NoInvoke labels) (hafter : FlushResolved last (.own f) f) : Quiet last := by
  induction labels generalizing s with
  | nil =>
    cases hr
    exact absurd hafter hbefore
  | cons a rest ih =>
    obtain ⟨next,hstep,hrest⟩ := run_cons_some hr
    have htail : NoInvoke rest := fun b hb => hno b (List.mem_cons_of_mem _ hb)
    by_cases hnow : FlushResolved next (.own f) f
    · have hquiescent :=
        step_quiescent (reachable_orderOk hs) (reachable_flushOk hs) hstep hbefore hnow
      refine run_quiet (hs.next hstep) ⟨hquiescent.admitted,fun k => ?_⟩ hrest htail
      cases hp : next.pendingWrites.get k with
      | none => rfl
      | some entry =>
        have hfailed := hquiescent.pending k entry hp
        rw [hquiescent.own rfl] at hfailed
        cases hfailed
    · exact ih (hs.next hstep) hnow hrest htail

/-- One listing of an idle store: its own flush resolves while nothing is
admitted, the folder is read, and the writes still pending are joined. -/
structure Listing (s mid last : State) (folder : List JsString) (names : List JsString) :
    Prop where
  /-- The store was opened on some folder and run. -/
  reachable : ReachableState s
  /-- No operation is in flight. -/
  idle : s.admitted = []
  /-- The flush resolves and the folder is read. -/
  flushed : ∃ labels, NoInvoke labels ∧ run step s (.flush::labels) = some mid ∧
    FlushResolved mid (.own s.fresh) s.fresh
  /-- What reading the folder reports. -/
  reads : Reads folder mid names
  /-- The read completes. -/
  joined : ∃ labels, NoInvoke labels ∧ run step mid labels = some last

/-- Keys of the writes still pending. -/
def pendingKeys (s : State) : List StoreKey := s.pendingWrites.entries.map Prod.fst

/-- A listing leaves the store quiet, and no key shows anything else. -/
theorem Listing.settled {s mid last : State} {folder : List JsString} {names : List JsString}
    (h : Listing s mid last folder names) : ReachableState last ∧ Quiet last ∧ mid.disk = last.disk ∧
      ∀ k, content last k = content s k := by
  obtain ⟨labels,hno,hr,hresolved⟩ := h.flushed
  obtain ⟨more,hmore,hjoin⟩ := h.joined
  have hfresh : ¬FlushResolved s (.own s.fresh) s.fresh := by
    rintro ⟨call,hf,_⟩
    exact absurd ((reachable_flushOk h.reachable).flushes_fresh _ call hf) (Nat.lt_irrefl _)
  have hflush : NoInvoke (.flush::labels) := by
    intro a ha calls
    rcases List.mem_cons.mp ha with rfl | ha
    · exact Action.noConfusion
    · exact hno a ha calls
  have hmid := h.reachable.run hr
  have hquiet := run_flushed h.reachable hfresh hr hflush hresolved
  have hlast := run_quiet hmid hquiet hjoin hmore
  have hidle := idle_noMutation (reachable_orderOk h.reachable) h.idle
  have hfirst := (run_content h.reachable hr hflush).2
  have hsecond := (run_content hmid hjoin hmore).2
  refine ⟨hmid.run hjoin,hlast,?_,fun k => ?_⟩
  · funext k
    have hsame := (hsecond k (hfirst k (hidle k)).1).2
    unfold content at hsame
    rw [hlast.pending k,hquiet.pending k] at hsame
    exact hsame.symm
  · exact (hsecond k (hfirst k (hidle k)).1).2.trans (hfirst k (hidle k)).2

/-- A delete that resolves leaves its key without a value. -/
theorem delete_resolves_gone {s s' : State} {a : Action} {entry : Admission}
    {answer : Option Bytes} (hs : ReachableState s) (h : step s a = some s')
    (he : entry ∈ s.log) (hcall : entry.call = .delete) (hopen : s.results entry.id = none)
    (hr : s'.results entry.id = some (.resolved answer)) : Gone s' entry.key entry.id := by
  have ho := reachable_orderOk hs
  have hk := reachable_keyOk hs entry.key
  have hsettled : s'.results entry.id ≠ none := by
    rw [hr]
    simp
  have hrunning : ∃ awaiting,
      (s.chains entry.key).running = some (⟨entry.id,.call .delete⟩,awaiting) := by
    rcases step_settles_front ho h he hopen hsettled with ⟨ha,rest,hc,hstart⟩ | ⟨front,_,_,hf,_⟩
    · subst ha
      rw [hcall] at hc
      have hdelete := start_deleteRunning hc rfl h
      obtain ⟨first,tail,hc',rfl⟩ := step_start h
      rw [hc] at hc'
      cases hc'
      simp [startJob,doDeleteOne,suspend,clearTimeout,hopen] at hr
    · rw [hcall] at hf
      exact ⟨front,hf⟩
  obtain ⟨awaiting,hrunning⟩ := hrunning
  exact resolved_gone ho hk rfl hrunning hopen h hr

/-- A delete that resolves within a run leaves its key without a value, unless
a set of it is admitted later. -/
theorem run_deleted {s last : State} {labels : List Action} {entry : Admission}
    (hs : ReachableState s) (he : entry ∈ s.log) (hcall : entry.call = .delete)
    (hopen : s.results entry.id = none) (hr : run step s labels = some last)
    {answer : Option Bytes} (hdone : last.results entry.id = some (.resolved answer))
    (hset : NoLaterSet last entry.key entry.id) : Gone last entry.key entry.id := by
  induction labels generalizing s with
  | nil =>
    cases hr
    rw [hopen] at hdone
    cases hdone
  | cons a rest ih =>
    obtain ⟨next,hstep,hrest⟩ := run_cons_some hr
    have ho := reachable_orderOk hs
    have hnext := hs.next hstep
    by_cases hnow : next.results entry.id = none
    · exact ih hnext ((step_log ho hstep).1 entry he) hnow hrest
    · have hkept : last.results entry.id = next.results entry.id := by
        have hall : last.results entry.id = next.results entry.id ∧ OrderOk last := by
          refine run_invariant (P := fun s => s.results entry.id = next.results entry.id ∧
            OrderOk s) ?_ hrest ⟨rfl,reachable_orderOk hnext⟩
          rintro mid b after ⟨hsame,hmid⟩ hb
          refine ⟨?_,step_orderOk hmid hb⟩
          rw [step_settled hmid hb (hsame ▸ hnow),hsame]
        exact hall.1
      have hgone := delete_resolves_gone hs hstep he hcall hopen (hkept ▸ hdone)
      exact run_gone (reachable_orderOk hnext) hgone hnow hrest hset

/-- Deletes of the listed keys: they are admitted together, nothing else is
admitted, and all of them resolve. -/
structure Deletion (s last : State) (targets : List StoreKey) : Prop where
  /-- The deletes run. -/
  ran : ∃ labels, NoInvoke labels ∧
    run step s (.invoke (targets.map fun k => (k,.delete))::labels) = some last
  /-- Every delete resolves. -/
  resolved : ∀ entry ∈ last.log, entry ∉ s.log →
    ∃ answer, last.results entry.id = some (.resolved answer)

/-- The deletes take the value of their keys and of no other. -/
theorem Deletion.getResult {s last : State} {targets : List StoreKey}
    (h : Deletion s last targets) (hs : ReachableState s) (hq : Quiet s) (k : StoreKey) :
    getResult last k = if k ∈ targets then none else content s k := by
  obtain ⟨labels,hno,hr⟩ := h.ran
  obtain ⟨next,hstep,hrest⟩ := run_cons_some hr
  have ho := reachable_orderOk hs
  have hnext := hs.next hstep
  have hlast := hnext.run hrest
  obtain ⟨hlog,hkeys⟩ := run_content hnext hrest hno
  have hadmitted : next = withKeyLocks s (targets.map fun k => (k,.delete)) :=
    (Option.some.inj hstep).symm
  obtain ⟨extra,hextra,hcalls,hids⟩ :=
    withKeyLocks_entries s (targets.map fun k => (k,KeyCall.delete))
  rw [← hadmitted] at hextra
  have hdeletes : ∀ entry ∈ extra, entry.key ∈ targets ∧ entry.call = .delete := by
    intro entry he
    have hmem : (entry.key,entry.call) ∈ extra.map fun entry => (entry.key,entry.call) :=
      List.mem_map_of_mem he
    rw [hcalls] at hmem
    obtain ⟨target,ht,hpair⟩ := List.mem_map.mp hmem
    obtain ⟨hkey,hcall⟩ := Prod.mk.inj hpair
    exact ⟨hkey ▸ ht,hcall.symm⟩
  split
  · rename_i hk
    have hmem : (k,KeyCall.delete) ∈ extra.map fun entry => (entry.key,entry.call) := by
      rw [hcalls]
      exact List.mem_map_of_mem hk
    obtain ⟨entry,he,hpair⟩ := List.mem_map.mp hmem
    obtain ⟨rfl,hcall⟩ := Prod.mk.inj hpair
    have hnew : entry ∉ s.log := fun hold =>
      absurd (ho.log_fresh entry hold) (Nat.not_lt.mpr (hids entry he))
    have hnextlog : entry ∈ next.log := hextra ▸ List.mem_append_right _ he
    obtain ⟨answer,hdone⟩ := h.resolved entry (hlog ▸ hnextlog) hnew
    have hopen : next.results entry.id = none := by
      by_contra hne
      exact hnew ((step_log ho hstep).2 entry hnextlog hne)
    have hset : NoLaterSet last entry.key entry.id := by
      intro other hother _ hlater value hvalue
      rw [hlog,hextra] at hother
      rcases List.mem_append.mp hother with hold | hnew
      · have hlt := ho.log_fresh other hold
        have hge := hids entry he
        omega
      · rw [(hdeletes other hnew).2] at hvalue
        cases hvalue
    exact (run_deleted hnext hnextlog hcall hopen hrest hdone hset).getResult
  · rename_i hk
    have hidle := idle_noMutation ho hq.admitted k
    have hm : NoMutation next k := by
      intro entry he hkey hopen
      rw [hextra] at he
      rcases List.mem_append.mp he with hold | hnew
      · refine hidle entry hold hkey ?_
        by_contra hne
        rw [step_settled ho hstep hne] at hopen
        exact hne hopen
      · exact absurd (hkey ▸ (hdeletes entry hnew).1) hk
    obtain ⟨hmLast,hcontent⟩ := hkeys k hm
    rw [hmLast.getResult (reachable_orderOk hlast) (reachable_keyOk hlast k),hcontent]
    exact step_content ho (reachable_keyOk hs k) hidle hstep

/-- From every reachable idle store whose files lie in the folder itself, a
listing returns every key of the store with the prefix that a read finds, each
once and nothing else, and changes nothing a read returns. Deleting what it
returned takes the value of these keys and of no other. -/
theorem listKeys_exact {s mid last : State} {folder names : List JsString}
    (h : Listing s mid last folder names) (hplain : ∀ k, s.disk k ≠ none → PlainStore k)
    (hpending : ∀ k, s.pendingWrites.get k ≠ none → PlainStore k) {store : String}
    (hstore : '-' ∉ store.toList) (start : Option JsString) :
    (listedKeys store start names (pendingKeys last)).Nodup ∧
      (∀ key ∈ listedKeys store start names (pendingKeys last),
        ∃ k : StoreKey, k.store = store ∧ ofString k.key = key) ∧
      (∀ k, k.store = store →
        (ofString k.key ∈ listedKeys store start names (pendingKeys last) ↔
          matchesPrefix start (ofString k.key) = true ∧ getResult last k ≠ none)) ∧
      (∀ k, getResult last k = getResult s k) ∧
      ∀ (targets : List StoreKey) (final : State), (∀ k ∈ targets, k.store = store) →
        targets.map (fun k => ofString k.key) = listedKeys store start names (pendingKeys last) →
          Deletion last final targets →
            ∀ k, getResult final k =
              if k.store = store ∧ matchesPrefix start (ofString k.key) = true then none
              else getResult s k := by
  obtain ⟨hlast,hquiet,hdisk,hcontent⟩ := h.settled
  have hread : ∀ k, getResult last k = content last k := fun k =>
    (idle_noMutation (reachable_orderOk hlast) hquiet.admitted k).getResult
      (reachable_orderOk hlast) (reachable_keyOk hlast k)
  have hfirst : ∀ k, getResult s k = content s k := fun k =>
    (idle_noMutation (reachable_orderOk h.reachable) h.idle k).getResult
      (reachable_orderOk h.reachable) (reachable_keyOk h.reachable k)
  have hfile : ∀ k, content last k = last.disk k := by
    intro k
    unfold content
    rw [hquiet.pending k]
  have hnone : pendingKeys last = [] := by
    have hentries : last.pendingWrites.entries = [] := by
      rw [List.eq_nil_iff_forall_not_mem]
      rintro ⟨k,entry⟩ hmem
      have hget := InsertionMap.get_eq_some_iff.mpr hmem
      rw [hquiet.pending k] at hget
      cases hget
    rw [pendingKeys,hentries,List.map_nil]
  have hplainMid : ∀ k, mid.disk k ≠ none → PlainStore k := by
    intro k hd
    have hshown : content s k ≠ none := by
      rw [← hcontent,hfile,← hdisk]
      exact hd
    unfold content at hshown
    cases hp : s.pendingWrites.get k with
    | some entry => exact hpending k (by simp [hp])
    | none =>
      rw [hp] at hshown
      exact hplain k hshown
  have hlisted : ∀ key, key ∈ listedKeys store start names (pendingKeys last) ↔
      matchesPrefix start key = true ∧
        ∃ k, k.store = store ∧ ofString k.key = key ∧ mid.disk k ≠ none := by
    intro key
    rw [hnone,mem_listedKeys,fileKey_reads h.reads hplainMid hstore]
    simp
  have hmember : ∀ k, k.store = store →
      (ofString k.key ∈ listedKeys store start names (pendingKeys last) ↔
        matchesPrefix start (ofString k.key) = true ∧ getResult last k ≠ none) := by
    intro k hk
    rw [hlisted,hread,hfile,← hdisk]
    refine and_congr_right fun _ => ⟨?_,fun hd => ⟨k,hk,rfl,hd⟩⟩
    rintro ⟨other,hs,hkey,hd⟩
    exact storeKey_ext (hs.trans hk.symm) (ofString_injective hkey) ▸ hd
  have hkept : ∀ k, getResult last k = getResult s k := fun k => by
    rw [hread,hcontent,hfirst]
  refine ⟨listedKeys_nodup _ _ _ _,?_,hmember,hkept,?_⟩
  · intro key hkey
    obtain ⟨_,k,hs,hk,_⟩ := (hlisted key).mp hkey
    exact ⟨k,hs,hk⟩
  · intro targets final hstores htargets hdeletion k
    have hmem : k ∈ targets ↔ k.store = store ∧
        ofString k.key ∈ listedKeys store start names (pendingKeys last) := by
      rw [← htargets]
      constructor
      · exact fun hk => ⟨hstores k hk,List.mem_map_of_mem hk⟩
      · rintro ⟨hs,hk⟩
        obtain ⟨other,hother,hkey⟩ := List.mem_map.mp hk
        exact storeKey_ext ((hstores other hother).trans hs.symm) (ofString_injective hkey) ▸ hother
    rw [hdeletion.getResult hlast hquiet k,← hread,hkept]
    by_cases hk : k.store = store ∧ matchesPrefix start (ofString k.key) = true
    · rw [if_pos hk]
      split
      · rfl
      · rename_i hout
        by_contra hne
        refine hout (hmem.mpr ⟨hk.1,(hmember k hk.1).mpr ⟨hk.2,?_⟩⟩)
        rw [hkept]
        exact hne
    · rw [if_neg hk,if_neg]
      intro hin
      obtain ⟨hs,hl⟩ := hmem.mp hin
      exact hk ⟨hs,((hmember k hs).mp hl).1⟩

/-- A folder that holds the file of one key. -/
def holding (k : StoreKey) : StoreKey → Option Bytes := fun other => if other = k then some [7] else none

/-- A store opened on the file of one key is listed without a change. -/
theorem listing_holding (k : StoreKey) {folder : List JsString} {name : JsString}
    (hpath : filePath folder k = folder++[name]) :
    Listing (opened (holding k)) (after step (opened (holding k)) [.flush])
      (after step (opened (holding k)) [.flush]) folder [name] := by
  have hdisk : (after step (opened (holding k)) [.flush]).disk = holding k := rfl
  have hnone : NoInvoke [] := fun a ha => by cases ha
  have hrun : run step (opened (holding k)) [.flush] =
      some (after step (opened (holding k)) [.flush]) := run_after rfl
  have hresolved : FlushResolved (after step (opened (holding k)) [.flush]) (.own 0) 0 :=
    ⟨_,rfl,rfl,rfl⟩
  refine ⟨⟨_,[],⟨_,rfl⟩,rfl⟩,rfl,⟨[],hnone,hrun,hresolved⟩,
    ⟨List.nodup_singleton name,?_,?_⟩,⟨[],hnone,rfl⟩⟩
  · intro other hd file hfile
    rw [hdisk] at hd
    by_cases ho : other = k
    · subst ho
      rw [hpath] at hfile
      have hname := List.singleton_injective (List.append_cancel_left hfile)
      exact List.mem_singleton.mpr hname.symm
    · exact absurd (if_neg ho) hd
  · intro file hfile
    rw [List.mem_singleton.mp hfile]
    refine Or.inr ⟨k,?_,hpath⟩
    rw [hdisk,holding,if_pos rfl]
    simp

/-- Labels that delete the token key. -/
def deleteTokenRun : List Action := [.start tokenKey,.io tokenKey .ok,.io tokenKey .ok]

theorem listKeys_exact_token :
    getResult (after step (after step (opened (holding tokenKey)) [.flush])
      (.invoke [(tokenKey,.delete)]::deleteTokenRun)) tokenKey = none := by
  have hpath := @filePath_plain [] tokenKey (by decide)
  have hlisting := listing_holding tokenKey hpath
  have hone : ∀ k, (holding tokenKey k ≠ none) → PlainStore k := by
    intro k hk
    by_cases h : k = tokenKey
    · subst h
      decide
    · exact absurd (if_neg h) hk
  have hexact := listKeys_exact hlisting hone (fun k hk => absurd rfl hk)
    (by decide : '-' ∉ ("tc_token" : String).toList) none
  have hlisted : listedKeys "tc_token" none [recordName tokenKey]
      (pendingKeys (after step (opened (holding tokenKey)) [.flush])) = [ofString "a"] := by
    decide
  have hno : NoInvoke deleteTokenRun := by
    intro a ha calls
    simp only [deleteTokenRun,List.mem_cons,List.not_mem_nil,or_false] at ha
    rcases ha with rfl | rfl | rfl <;> exact Action.noConfusion
  have hlog : (after step (after step (opened (holding tokenKey)) [.flush])
      (.invoke [(tokenKey,.delete)]::deleteTokenRun)).log = [⟨1,tokenKey,.delete⟩] := by decide
  have hdeletion : Deletion (after step (opened (holding tokenKey)) [.flush])
      (after step (after step (opened (holding tokenKey)) [.flush])
        (.invoke [(tokenKey,.delete)]::deleteTokenRun)) [tokenKey] := by
    refine ⟨⟨deleteTokenRun,hno,run_after (by decide)⟩,fun entry he _ => ⟨none,?_⟩⟩
    rw [hlog,List.mem_singleton] at he
    subst he
    decide
  have hdeleted := hexact.2.2.2.2 [tokenKey] _ (by decide) hlisted.symm hdeletion tokenKey
  rw [hdeleted,if_pos (by decide)]

/-- A key whose store name leaves and re-enters the folder. -/
def dottedKey : StoreKey := ⟨"./x","a",by decide,by decide⟩

/-- The file of a store name with a path separator carries the name of another
store: its key reads as present and is not listed. -/
theorem listKeys_misses_dotted :
    ¬∀ (s mid last : State) (folder names : List JsString) (store : String)
      (start : Option JsString), Listing s mid last folder names → '-' ∉ store.toList →
        ∀ k, k.store = store →
          (ofString k.key ∈ listedKeys store start names (pendingKeys last) ↔
            matchesPrefix start (ofString k.key) = true ∧ getResult last k ≠ none) := by
  intro h
  have hpath : filePath [] dottedKey = []++[ofString "x-a.bin"] := by decide
  have hall := h _ _ _ _ _ "./x" none (listing_holding dottedKey hpath) (by decide) dottedKey rfl
  exact absurd (hall.mpr (by decide)) (by decide)

end Baileyrs.BridgeStore
