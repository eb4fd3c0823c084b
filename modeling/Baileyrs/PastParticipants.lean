import Baileyrs.TextSearch
import Baileyrs.TokenRowText

/-!
# Merging past participants

History sets name the users who left a group. While they are buffered the entries of a
group are merged, and a user who is listed already is recognized by a signature. The
entry of a group without a JID goes under its JSON text.
-/

namespace Baileyrs.PastParticipants

open JsString AtomicStore

/-- Value of an optional property. -/
inductive Nullable (α : Type) where
  | undefined
  | null
  | value (found : α)

/-- The value, when there is one. -/
def Nullable.get? {α : Type} : Nullable α → Option α
  | .value found => some found
  | _ => none

/-- Seconds of a leave, in a number or in the halves of a `Long`. -/
inductive LeaveTime where
  | number (seconds : ℕ)
  | long (low high : ℤ)

/-- A user who left a group. -/
structure PastParticipant where
  /-- JID of the user. -/
  userJid : Nullable JsString
  /-- Number of the reason. -/
  leaveReason : Nullable ℕ
  /-- Time of the leave. -/
  leaveTs : Nullable LeaveTime

/-- Users who left one group. -/
structure GroupEntry where
  /-- JID of the group. -/
  groupJid : Nullable JsString
  /-- The users. -/
  pastParticipants : Nullable (List PastParticipant)

section Texts

/-- Text of a number; zero counts as nothing. -/
def numberText (n : ℕ) : JsString := if n = 0 then [] else natText n

/-- Value of an unsigned `Long`. -/
def longValue (low high : ℤ) : ℕ := ((high%4294967296)*4294967296+low%4294967296).toNat

/-- Text of a time, empty without one. -/
def timeText : Nullable LeaveTime → JsString
  | .value (.number seconds) => numberText seconds
  | .value (.long low high) => natText (longValue low high)
  | _ => []

/-- Text of a reason, empty without one. -/
def reasonText (reason : Nullable ℕ) : JsString := numberText (reason.get?.getD 0)

/-- JID of the user, empty without one. -/
def user (participant : PastParticipant) : JsString := participant.userJid.get?.getD []

/-- What a user is recognized by. -/
def signature (participant : PastParticipant) : JsString :=
  user participant++unit ':'::timeText participant.leaveTs++unit ':'::reasonText participant.leaveReason

/-- Member of an object; an undefined one is left out. -/
def member {α : Type} (name : String) (json : α → Json) : Nullable α → List (JsString × Json)
  | .undefined => []
  | .null => [(ofString name,.null)]
  | .value value => [(ofString name,json value)]

/-- A time in JSON. -/
def timeJson : LeaveTime → Json
  | .number seconds => .number (natText seconds)
  | .long low high => .object [(ofString "low",.number (intText low)),(ofString "high",.number (intText high)),
      (ofString "unsigned",.bool true)]

/-- A user in JSON. -/
def participantJson (participant : PastParticipant) : Json :=
  .object (member "userJid" .string participant.userJid++
    member "leaveReason" (fun reason => .number (natText reason)) participant.leaveReason++
    member "leaveTs" timeJson participant.leaveTs)

/-- The entry of a group in JSON. -/
def entryJson (entry : GroupEntry) : Json :=
  .object (member "groupJid" .string entry.groupJid++
    member "pastParticipants" (fun list => .array (list.map participantJson)) entry.pastParticipants)

/-- Key of an entry: its JID, or else its JSON text. -/
def entryKey (entry : GroupEntry) : JsString :=
  match entry.groupJid with
  | .value jid => jid
  | _ => Json.stringify (entryJson entry)

end Texts

section Merging

/-- Users of an entry. -/
def GroupEntry.users (entry : GroupEntry) : List PastParticipant := entry.pastParticipants.get?.getD []

/-- Append the users whose signature is not there yet. -/
def appendUnseen (existing incoming : List PastParticipant) : List PastParticipant :=
  incoming.foldl (fun list participant =>
    if signature participant ∈ list.map signature then list else list++[participant]) existing

/-- Take an entry in. -/
def ingest (merged : InsertionMap JsString GroupEntry) (entry : GroupEntry) : InsertionMap JsString GroupEntry :=
  let key := entryKey entry
  match merged.get key with
  | none => merged.set key {entry with pastParticipants := .value entry.users}
  | some existing =>
    merged.set key {existing with pastParticipants := .value (appendUnseen existing.users entry.users)}

/-- Merge entries into those there are. -/
def mergePastParticipants (existingEntries : Option (List GroupEntry)) (incomingEntries : List GroupEntry) :
    List GroupEntry :=
  ((existingEntries.getD []++incomingEntries).foldl ingest InsertionMap.empty).values

end Merging

section Preservation

/-- The users of an entry, each with the group. -/
def GroupEntry.pairs (entry : GroupEntry) : List (Option JsString × PastParticipant) :=
  entry.users.map fun participant => (entry.groupJid.get?,participant)

/-- A group and one of its users. -/
def member? (pair : Option JsString × PastParticipant) : Option JsString × JsString := (pair.1,user pair.2)

/-- No user is listed twice for one group. -/
def DistinctUsers (entries : List GroupEntry) : Prop := ((entries.flatMap GroupEntry.pairs).map member?).Nodup

/-- The JID of a group does not look like a JSON object. -/
def GroupEntry.Named (entry : GroupEntry) : Prop := 
  ∀ jid, entry.groupJid.get? = some jid → jid.head? ≠ some Json.openBrace

theorem colon_natText (n : ℕ) : unit ':' ∉ natText n := by
  intro h
  have hdigit := List.all_eq_true.mp (isDigit_natText n) _ h
  exact absurd hdigit (by decide)

theorem colon_numberText (n : ℕ) : unit ':' ∉ numberText n := by
  unfold numberText
  split
  · exact List.not_mem_nil
  · exact colon_natText n

theorem colon_timeText (time : Nullable LeaveTime) : unit ':' ∉ timeText time := by
  match time with
  | .undefined => exact List.not_mem_nil
  | .null => exact List.not_mem_nil
  | .value (.number seconds) => exact colon_numberText seconds
  | .value (.long low high) => exact colon_natText _

/-- A signature determines the user. -/
theorem user_of_signature {first second : PastParticipant} (h : signature first = signature second) :
    user first = user second := by
  have hreason := TextSearch.append_cons_inj (colon_numberText _) (colon_numberText _) h
  exact (TextSearch.append_cons_inj (colon_timeText _) (colon_timeText _) hreason.1).1

/-- Users with signatures of their own are all appended. -/
theorem appendUnseen_new {existing incoming : List PastParticipant}
    (h : ((existing++incoming).map signature).Nodup) : appendUnseen existing incoming = existing++incoming := by
  induction incoming generalizing existing with
  | nil => exact (List.append_nil existing).symm
  | cons participant rest ih =>
    have hsplit : existing++participant::rest = (existing++[participant])++rest := by
      rw [List.append_assoc,List.singleton_append]
    have hnew : signature participant ∉ existing.map signature := by
      intro hmem
      rw [List.map_append,List.map_cons] at h
      exact (List.nodup_append.mp h).2.2 _ hmem _ List.mem_cons_self rfl
    rw [appendUnseen,List.foldl_cons,if_neg hnew]
    rw [hsplit] at h ⊢
    exact ih h

/-- Key and group of a merged entry agree. -/
structure Filed (key : JsString) (entry : GroupEntry) : Prop where
  /-- A JID is its key. -/
  jid : ∀ jid, entry.groupJid.get? = some jid → key = jid
  /-- Without one the key is the text of an object. -/
  text : entry.groupJid.get? = none → key.head? = some Json.openBrace

theorem filed_entryKey (entry : GroupEntry) : Filed (entryKey entry) entry := by
  unfold entryKey
  constructor
  · intro jid h
    cases hjid : entry.groupJid with
    | value found =>
      rw [hjid] at h
      cases h
      rfl
    | undefined =>
      rw [hjid] at h
      cases h
    | null =>
      rw [hjid] at h
      cases h
  · intro h
    cases hjid : entry.groupJid with
    | value found =>
      rw [hjid] at h
      cases h
    | undefined => rfl
    | null => rfl

/-- Entries with one key are of one group. -/
theorem Filed.group {key : JsString} {first second : GroupEntry} (hfirst : Filed key first) (hsecond : Filed key second)
    (hnamed : first.Named) (hother : second.Named) : first.groupJid.get? = second.groupJid.get? := by
  cases hjid : first.groupJid.get? with
  | none =>
    cases hjid' : second.groupJid.get? with
    | none => rfl
    | some jid =>
      have htext := hfirst.text hjid
      rw [hsecond.jid jid hjid'] at htext
      exact absurd htext (hother jid hjid')
  | some jid =>
    have hkey := hfirst.jid jid hjid
    cases hjid' : second.groupJid.get? with
    | none =>
      have htext := hsecond.text hjid'
      rw [hkey] at htext
      exact absurd htext (hnamed jid hjid)
    | some other => rw [← hkey,hsecond.jid other hjid']

/-- What merging entries keeps. -/
structure Merged (merged : InsertionMap JsString GroupEntry) (done : List GroupEntry) : Prop where
  /-- Every user is kept once, under the group. -/
  pairs : (merged.values.flatMap GroupEntry.pairs).Perm (done.flatMap GroupEntry.pairs)
  /-- Keys are those of the groups. -/
  filed : ∀ key entry, merged.get key = some entry → Filed key entry ∧ entry.Named

/-- Users of a group that are distinct have signatures of their own. -/
theorem signatures_of_distinct {group : Option JsString} {users : List PastParticipant}
    (h : ((users.map fun participant => (group,participant)).map member?).Nodup) : (users.map signature).Nodup := by
  rw [List.map_map,List.Nodup,List.pairwise_map] at h
  rw [List.Nodup,List.pairwise_map]
  refine h.imp fun hne hsignature => hne ?_
  exact congrArg (Prod.mk group) (user_of_signature hsignature)

theorem Merged.ingest {merged : InsertionMap JsString GroupEntry} {done : List GroupEntry} {entry : GroupEntry}
    (h : Merged merged done) (hnamed : entry.Named) (hdistinct : DistinctUsers (done++[entry])) :
    Merged (ingest merged entry) (done++[entry]) := by
  have hentry := filed_entryKey entry
  have hdone : (done++[entry]).flatMap GroupEntry.pairs = done.flatMap GroupEntry.pairs++entry.pairs := by
    rw [List.flatMap_append,List.flatMap_cons,List.flatMap_nil,List.append_nil]
  unfold PastParticipants.ingest
  dsimp only
  cases hget : merged.get (entryKey entry) with
  | none =>
    refine ⟨?_,fun key found hfound => ?_⟩
    · rw [InsertionMap.values_set_of_absent _ hget,List.flatMap_append,hdone,List.flatMap_cons,List.flatMap_nil,List.append_nil]
      exact h.pairs.append_right entry.pairs
    · rw [InsertionMap.get_set] at hfound
      split at hfound
      · rename_i heq
        cases hfound
        subst heq
        exact ⟨⟨hentry.jid,hentry.text⟩,hnamed⟩
      · exact h.filed key found hfound
  | some existing =>
    obtain ⟨hfiled,hother⟩ := h.filed _ _ hget
    have hgroup := hfiled.group hentry hother hnamed
    obtain ⟨before,after,hvalues,hnext⟩ := InsertionMap.values_set_of_present hget
    have hpairs := h.pairs
    rw [hvalues,List.flatMap_append,List.flatMap_cons] at hpairs
    have hjoined : existing.pairs++entry.pairs =
        (existing.users++entry.users).map fun participant => (existing.groupJid.get?,participant) := by
      rw [List.map_append,GroupEntry.pairs,GroupEntry.pairs,hgroup]
    have hmoved : (before.flatMap GroupEntry.pairs++(existing.pairs++entry.pairs++after.flatMap GroupEntry.pairs)).Perm
        ((done++[entry]).flatMap GroupEntry.pairs) := by
      rw [hdone]
      refine List.Perm.trans ?_ (hpairs.append_right entry.pairs)
      rw [List.append_assoc,List.append_assoc,List.append_assoc]
      exact (List.perm_append_comm.append_left existing.pairs).append_left _
    have hnodup : ((existing.pairs++entry.pairs).map member?).Nodup := by
      have hall := (hmoved.map member?).nodup_iff.mpr hdistinct
      have hsub : (existing.pairs++entry.pairs).Sublist
          (before.flatMap GroupEntry.pairs++(existing.pairs++entry.pairs++after.flatMap GroupEntry.pairs)) :=
        (List.sublist_append_left _ _).trans (List.sublist_append_right _ _)
      exact hall.sublist (hsub.map member?)
    rw [hjoined] at hnodup hmoved
    have hunseen := appendUnseen_new (signatures_of_distinct hnodup)
    refine ⟨?_,fun key found hfound => ?_⟩
    · dsimp only
      rw [hnext,List.flatMap_append,List.flatMap_cons,hunseen]
      exact hmoved
    · dsimp only at hfound
      rw [InsertionMap.get_set] at hfound
      split at hfound
      · rename_i heq
        cases hfound
        subst heq
        exact ⟨⟨hfiled.jid,hfiled.text⟩,hother⟩
      · exact h.filed key found hfound

/-- All entries are taken in. -/
theorem Merged.fold {merged : InsertionMap JsString GroupEntry} {done rest : List GroupEntry} (h : Merged merged done)
    (hnamed : ∀ entry ∈ rest, entry.Named) (hdistinct : DistinctUsers (done++rest)) :
    Merged (rest.foldl PastParticipants.ingest merged) (done++rest) := by
  induction rest generalizing merged done with
  | nil => exact (List.append_nil done).symm ▸ h
  | cons entry rest ih =>
    have hsplit : done++entry::rest = (done++[entry])++rest := by
      rw [List.append_assoc,List.singleton_append]
    rw [hsplit] at hdistinct ⊢
    have hfirst : DistinctUsers (done++[entry]) := by
      have hsub : ((done++[entry]).flatMap GroupEntry.pairs).Sublist (((done++[entry])++rest).flatMap GroupEntry.pairs) := by
        rw [@List.flatMap_append _ _ (done++[entry]) rest GroupEntry.pairs]
        exact List.sublist_append_left _ _
      exact List.Nodup.sublist (hsub.map member?) hdistinct
    exact ih (h.ingest (hnamed entry List.mem_cons_self) hfirst)
      (fun other hother => hnamed other (List.mem_cons_of_mem _ hother)) hdistinct

/-- Merging keeps every user of every group once. -/
theorem mergePastParticipants_pairs {existing : Option (List GroupEntry)} {incoming : List GroupEntry}
    (hnamed : ∀ entry ∈ existing.getD []++incoming, entry.Named) (hdistinct : DistinctUsers (existing.getD []++incoming)) :
    ((mergePastParticipants existing incoming).flatMap GroupEntry.pairs).Perm
      ((existing.getD []++incoming).flatMap GroupEntry.pairs) ∧
    ∀ entry ∈ mergePastParticipants existing incoming, entry.Named := by
  have hempty : Merged InsertionMap.empty [] := ⟨List.Perm.nil,fun _ _ h => nomatch h⟩
  have hmerged := hempty.fold hnamed hdistinct
  refine ⟨hmerged.pairs,fun entry hentry => ?_⟩
  obtain ⟨key,hget⟩ := InsertionMap.mem_values_iff.mp hentry
  exact (hmerged.filed key entry hget).2

end Preservation

end Baileyrs.PastParticipants
