import Baileyrs.ExpiringLruMap
import Baileyrs.JsString
import Baileyrs.LabelledRuns
import Baileyrs.TextSearch

/-!
# Recent messages of the retry manager

The retry manager holds a recent message under its destination and its id, and an index
from the id to the key it was last held under. What the map disposes of is taken out of
the index by its id, whatever key the index holds. The index follows the map exactly as
long as no entry goes while another one with the same id is held.
-/

namespace Baileyrs.RetryMessages

open JsString TextSearch LabelledRuns

section Model

/-- A message id; it has no separator. -/
@[ext]
structure MessageId where
  /-- Its text. -/
  text : JsString
  /-- No separator. -/
  clean : (0 : UInt16) ∉ text
  deriving DecidableEq

/-- Between the destination and the id. -/
def messageKeySeparator : UInt16 := 0

/-- A message that may be sent again. -/
structure RecentMessage (M : Type*) where
  /-- The message. -/
  message : M
  /-- When it was held. -/
  timestamp : ℕ
  deriving DecidableEq

/-- What the manager counts of this. -/
structure RetryStatistics where
  /-- Retries. -/
  totalRetries : ℕ
  /-- Retries that worked. -/
  successfulRetries : ℕ
  /-- Retries that did not. -/
  failedRetries : ℕ
  /-- Requests to the phone. -/
  phoneRequests : ℕ
  deriving DecidableEq

/-- State of the manager. -/
structure RetryManager (M : Type*) where
  /-- Recent messages under their keys. -/
  recentMessagesMap : ExpiringLruMap JsString (RecentMessage M)
  /-- Keys under the ids. -/
  messageKeyIndex : InsertionMap JsString JsString
  /-- Retries of the messages. -/
  retryCounters : ExpiringLruMap JsString ℕ
  /-- Timers of the requests to the phone. -/
  pendingPhoneRequests : InsertionMap JsString ℕ
  /-- The next of these timers. -/
  nextTimer : ℕ
  /-- The statistics. -/
  statistics : RetryStatistics

variable {M : Type*}

/-- How recent messages are held. -/
def recentOptions : LruOptions := ⟨5*60*1000,some 512,false⟩

/-- How counters are held. -/
def counterOptions : LruOptions := ⟨15*60*1000,none,true⟩

/-- A new manager. -/
def newManager : RetryManager M := ⟨.empty recentOptions,.empty,.empty counterOptions,.empty,0,⟨0,0,0,0⟩⟩

/-- Key of a destination and an id. -/
def keyToString (dest id : JsString) : JsString := dest++messageKeySeparator::id

/-- What is taken out of the index for a key that is disposed of. -/
def disposeKey (index : InsertionMap JsString JsString) (key : JsString) : InsertionMap JsString JsString :=
  match lastIndexOf messageKeySeparator key with
  | some separatorIndex => index.delete (key.drop (separatorIndex+1))
  | none => index

/-- The recent messages after an operation that disposed of some. -/
def disposing (s : RetryManager M)
    (result : ExpiringLruMap JsString (RecentMessage M) × List (RecentMessage M × JsString)) : RetryManager M :=
  {s with recentMessagesMap := result.1, messageKeyIndex := (result.2.map Prod.snd).foldl disposeKey s.messageKeyIndex}

/-- Hold a message. -/
def addRecentMessage (s : RetryManager M) (dest id : JsString) (message : M) (now : ℕ) : RetryManager M :=
  let keyString := keyToString dest id
  let s := disposing s (s.recentMessagesMap.set keyString ⟨message,now⟩ now)
  {s with messageKeyIndex := s.messageKeyIndex.set id keyString}

/-- Find a message. -/
def getRecentMessage (s : RetryManager M) (dest id : JsString) (now : ℕ) : Option (RecentMessage M) × RetryManager M :=
  let (message,result) := s.recentMessagesMap.get (keyToString dest id) now
  (message,disposing s result)

/-- Take the message of an id out of the map and the index. -/
def removeRecentMessage (s : RetryManager M) (messageId : JsString) : RetryManager M :=
  match s.messageKeyIndex.get messageId with
  | none => s
  | some keyString =>
    if keyString = [] then s
    else
      let s := disposing s (s.recentMessagesMap.delete keyString)
      {s with messageKeyIndex := s.messageKeyIndex.delete messageId}

/-- Forget the request to the phone. -/
def cancelPendingPhoneRequest (s : RetryManager M) (messageId : JsString) : RetryManager M :=
  {s with pendingPhoneRequests := s.pendingPhoneRequests.delete messageId}

/-- What both endings of a retry do. -/
def endRetry (s : RetryManager M) (messageId : JsString) (statistics : RetryStatistics) : RetryManager M :=
  removeRecentMessage
    (cancelPendingPhoneRequest
      {s with statistics := statistics, retryCounters := (s.retryCounters.delete messageId).1} messageId) messageId

/-- A retry worked. -/
def markRetrySuccess (s : RetryManager M) (messageId : JsString) : RetryManager M :=
  endRetry s messageId {s.statistics with successfulRetries := s.statistics.successfulRetries+1}

/-- A retry did not work. -/
def markRetryFailed (s : RetryManager M) (messageId : JsString) : RetryManager M :=
  endRetry s messageId {s.statistics with failedRetries := s.statistics.failedRetries+1}

/-- Count a retry. -/
def incrementRetryCount (s : RetryManager M) (messageId : JsString) (now : ℕ) : RetryManager M :=
  let (count,counters,_) := s.retryCounters.get messageId now
  let counters := (counters.set messageId (count.getD 0+1) now).1
  {s with
    retryCounters := (counters.get messageId now).2.1,
    statistics := {s.statistics with totalRetries := s.statistics.totalRetries+1}}

/-- Ask the phone later. -/
def schedulePhoneRequest (s : RetryManager M) (messageId : JsString) : RetryManager M :=
  let s := cancelPendingPhoneRequest s messageId
  {s with pendingPhoneRequests := s.pendingPhoneRequests.set messageId s.nextTimer, nextTimer := s.nextTimer+1}

/-- The timer of a request to the phone fires. -/
def phoneRequestDue (s : RetryManager M) (messageId : JsString) (timer : ℕ) : RetryManager M :=
  if s.pendingPhoneRequests.get messageId = some timer then
    {s with
      pendingPhoneRequests := s.pendingPhoneRequests.delete messageId,
      statistics := {s.statistics with phoneRequests := s.statistics.phoneRequests+1}}
  else s

/-- Forget everything. -/
def clear (s : RetryManager M) : RetryManager M :=
  {disposing s s.recentMessagesMap.clear with
    messageKeyIndex := .empty, retryCounters := s.retryCounters.clear.1, pendingPhoneRequests := .empty,
    statistics := ⟨0,0,0,0⟩}

/-- What happens to a manager. -/
inductive Op (M : Type*) where
  /-- A message is held. -/
  | addRecentMessage (dest : JsString) (id : MessageId) (message : M) (now : ℕ)
  /-- A message is looked for. -/
  | getRecentMessage (dest : JsString) (id : MessageId) (now : ℕ)
  /-- A retry worked. -/
  | markRetrySuccess (id : MessageId)
  /-- A retry did not work. -/
  | markRetryFailed (id : MessageId)
  /-- A retry is counted. -/
  | incrementRetryCount (id : MessageId) (now : ℕ)
  /-- The phone is to be asked. -/
  | schedulePhoneRequest (id : MessageId)
  /-- The timer of a request to the phone fires. -/
  | phoneRequestDue (id : MessageId) (timer : ℕ)
  /-- The timer of a message fires. -/
  | messageExpires (key : JsString) (timer : ℕ)
  /-- The timer of a counter fires. -/
  | counterExpires (key : JsString) (timer : ℕ)
  /-- Everything is forgotten. -/
  | clear

/-- One step. -/
def step (s : RetryManager M) : Op M → Option (RetryManager M)
  | .addRecentMessage dest id message now => some (addRecentMessage s dest id.text message now)
  | .getRecentMessage dest id now => some (getRecentMessage s dest id.text now).2
  | .markRetrySuccess id => some (markRetrySuccess s id.text)
  | .markRetryFailed id => some (markRetryFailed s id.text)
  | .incrementRetryCount id now => some (incrementRetryCount s id.text now)
  | .schedulePhoneRequest id => some (schedulePhoneRequest s id.text)
  | .phoneRequestDue id timer => some (phoneRequestDue s id.text timer)
  | .messageExpires key timer => some (disposing s (s.recentMessagesMap.expire key timer))
  | .counterExpires key timer => some {s with retryCounters := (s.retryCounters.expire key timer).1}
  | .clear => some (clear s)

/-- The ending of a retry of a message. -/
def Op.Marks (a : Op M) (id : MessageId) : Prop := a = .markRetrySuccess id ∨ a = .markRetryFailed id

/-- A recent message is held. -/
def Live (s : RetryManager M) (key : JsString) : Prop := key ∈ s.recentMessagesMap.keys

/-- An index holds an id exactly when a key with it is live, and then such a key. -/
def IndexFollows (live : JsString → Prop) (index : JsString → Option JsString) : Prop :=
  ∀ id : MessageId,
    (∀ key, index id.text = some key → live key ∧ ∃ dest, key = keyToString dest id.text) ∧
      ((∃ dest, live (keyToString dest id.text)) → ∃ key, index id.text = some key)

/-- The index follows the recent messages. -/
def Follows (s : RetryManager M) : Prop := IndexFollows (Live s) s.messageKeyIndex.get

/-- The key of an entry that a step lets go, other than one that a newer one with its id replaces. -/
def letGo (s : RetryManager M) : Op M → Option JsString
  | .addRecentMessage dest id _ _ =>
    (s.recentMessagesMap.evicted (keyToString dest id.text)).filter fun key => !(messageKeySeparator::id.text).isSuffixOf key
  | .getRecentMessage dest id now =>
    if s.recentMessagesMap.isLate (keyToString dest id.text) now then some (keyToString dest id.text) else none
  | .markRetrySuccess id => s.messageKeyIndex.get id.text
  | .markRetryFailed id => s.messageKeyIndex.get id.text
  | .messageExpires key timer => if (s.recentMessagesMap.entries.get key).any (·.timer = timer) then some key else none
  | _ => none

/-- No entry goes while another one with its id is held. -/
def Conforms (s : RetryManager M) (a : Op M) : Prop :=
  ∀ dest : JsString, ∀ id : MessageId, letGo s a = some (keyToString dest id.text) →
    ∀ other, Live s (keyToString other id.text) → other = dest

end Model

section Keys

variable {dest other : JsString} {id i : MessageId}

/-- A key has one destination and one id. -/
theorem keyToString_inj (h : keyToString dest id.text = keyToString other i.text) : dest = other ∧ id = i := by
  obtain ⟨hto,hid⟩ := append_cons_inj id.clean i.clean h
  exact ⟨hto,MessageId.ext hid⟩

/-- What is disposed of is taken out of the index by its id. -/
theorem disposeKey_eq (index : InsertionMap JsString JsString) (dest : JsString) (id : MessageId) :
    disposeKey index (keyToString dest id.text) = index.delete id.text := by
  have hlast : lastIndexOf messageKeySeparator (keyToString dest id.text) = some dest.length := lastIndexOf_append dest id.clean
  have hdrop : (keyToString dest id.text).drop (dest.length+1) = id.text := drop_behind _ _ _
  rw [disposeKey,hlast]
  dsimp only
  rw [hdrop]

/-- A key ends with its id alone. -/
theorem isSuffixOf_key : (messageKeySeparator::i.text).isSuffixOf (keyToString dest id.text) = true ↔ id = i := by
  rw [List.isSuffixOf_iff_suffix]
  constructor
  · rintro ⟨front,hfront⟩
    exact (@keyToString_inj dest front id i hfront.symm).2
  · rintro rfl
    exact ⟨dest,rfl⟩

end Keys

section Following

variable {live : JsString → Prop} {index : JsString → Option JsString} {dest : JsString} {id : MessageId}

theorem IndexFollows.congr {live' : JsString → Prop} {index' : JsString → Option JsString}
    (hlive : ∀ key, live' key ↔ live key) (hindex : ∀ x, index' x = index x) :
    IndexFollows live' index' ↔ IndexFollows live index := by
  have hlive' : live' = live := funext fun key => propext (hlive key)
  have hindex' : index' = index := funext hindex
  rw [hlive',hindex']

/-- A new key of an id may replace the one in the index. -/
theorem IndexFollows.set (h : IndexFollows live index) (dest : JsString) (id : MessageId) :
    IndexFollows (fun key => key = keyToString dest id.text ∨ live key)
      (fun x => if x = id.text then some (keyToString dest id.text) else index x) := by
  intro i
  dsimp only
  by_cases hi : i.text = id.text
  · rw [if_pos hi]
    refine ⟨fun key hkey => ?_,fun _ => ⟨_,rfl⟩⟩
    cases hkey
    exact ⟨.inl rfl,dest,by rw [hi]⟩
  · rw [if_neg hi]
    refine ⟨fun key hkey => ?_,?_⟩
    · obtain ⟨hlive,hform⟩ := (h i).1 key hkey
      exact ⟨.inr hlive,hform⟩
    · rintro ⟨other,hother⟩
      cases hother with
      | inl hsame => exact absurd (congrArg MessageId.text (keyToString_inj hsame).2) hi
      | inr hheld => exact (h i).2 ⟨other,hheld⟩

/-- A key that goes with its id leaves an index that follows exactly when it was the only one of the id. -/
theorem IndexFollows.drop (h : IndexFollows live index) (dest : JsString) (id : MessageId) :
    IndexFollows (fun key => key ≠ keyToString dest id.text ∧ live key) (fun x => if x = id.text then none else index x) ↔
      ∀ other, live (keyToString other id.text) → other = dest := by
  constructor
  · intro hnext other hother
    by_contra hne
    have hkey : keyToString other id.text ≠ keyToString dest id.text := fun heq => hne (keyToString_inj heq).1
    obtain ⟨key,hindex⟩ := (hnext id).2 ⟨other,hkey,hother⟩
    dsimp only at hindex
    rw [if_pos rfl] at hindex
    cases hindex
  · intro honly i
    dsimp only
    by_cases hi : i.text = id.text
    · rw [if_pos hi]
      refine ⟨fun key hkey => (nomatch hkey),?_⟩
      rintro ⟨other,hne,hother⟩
      rw [hi] at hne hother
      exact absurd (by rw [honly other hother]) hne
    · rw [if_neg hi]
      refine ⟨fun key hkey => ?_,?_⟩
      · obtain ⟨hheld,other,rfl⟩ := (h i).1 key hkey
        exact ⟨⟨fun heq => hi (congrArg MessageId.text (keyToString_inj heq).2),hheld⟩,other,rfl⟩
      · rintro ⟨other,_,hother⟩
        exact (h i).2 ⟨other,hother⟩

/-- A key that the index does not hold may go. -/
theorem IndexFollows.drop_other {key : JsString} (h : IndexFollows live index) (hindex : index id.text = some key)
    (hne : key ≠ keyToString dest id.text) : IndexFollows (fun key => key ≠ keyToString dest id.text ∧ live key) index := by
  intro i
  refine ⟨fun found hfound => ?_,?_⟩
  · obtain ⟨hheld,hform⟩ := (h i).1 found hfound
    refine ⟨⟨fun heq => ?_,hheld⟩,hform⟩
    obtain ⟨other,hother⟩ := hform
    rw [heq] at hother
    obtain ⟨_,rfl⟩ := keyToString_inj hother
    rw [hindex] at hfound
    exact hne ((Option.some.inj hfound).trans heq)
  · rintro ⟨other,_,hother⟩
    exact (h i).2 ⟨other,hother⟩

end Following

section Steps

variable {M : Type*} {s next : RetryManager M} {dest : JsString} {id : MessageId} {key : JsString}

/-- Keys of destinations and ids, in the map and in the index. -/
structure WellFormed (s : RetryManager M) : Prop where
  /-- The map is the one of the manager. -/
  options : s.recentMessagesMap.options = recentOptions
  /-- It holds keys of messages. -/
  keys : ∀ key, Live s key → ∃ dest, ∃ id : MessageId, key = keyToString dest id.text
  /-- The index holds them under their ids. -/
  index : ∀ x key, s.messageKeyIndex.get x = some key → ∃ dest, ∃ id : MessageId, x = id.text ∧ key = keyToString dest id.text

theorem wellFormed_new : WellFormed (newManager : RetryManager M) :=
  ⟨rfl,fun _ hkey => absurd hkey List.not_mem_nil,fun _ _ hkey => nomatch hkey⟩

theorem follows_new : Follows (newManager : RetryManager M) := by
  intro id
  refine ⟨fun key hkey => (nomatch hkey),?_⟩
  rintro ⟨dest,hlive⟩
  exact absurd hlive List.not_mem_nil

/-- Disposing of keys only takes out of the index. -/
theorem disposeKeys_shrinks {keys : List JsString} {index : InsertionMap JsString JsString} {x : JsString}
    (h : (keys.foldl disposeKey index).get x = some key) : index.get x = some key := by
  induction keys generalizing index with
  | nil => exact h
  | cons first rest ih =>
    have hrest := ih h
    unfold disposeKey at hrest
    split at hrest
    · rw [InsertionMap.get_delete] at hrest
      split at hrest
      · cases hrest
      · exact hrest
    · exact hrest

/-- Keys that are left are of messages. -/
theorem WellFormed.shrink (hs : WellFormed s) (hoptions : next.recentMessagesMap.options = s.recentMessagesMap.options)
    (hlive : ∀ key, Live next key → Live s key)
    (hindex : ∀ x key, next.messageKeyIndex.get x = some key → s.messageKeyIndex.get x = some key) : WellFormed next :=
  ⟨hoptions.trans hs.options,fun key hkey => hs.keys key (hlive key hkey),fun x key hkey => hs.index x key (hindex x key hkey)⟩

/-- The map and the index hold the same. -/
structure Same (s next : RetryManager M) : Prop where
  /-- The same keys are live. -/
  live : ∀ key, Live next key ↔ Live s key
  /-- The index is the same. -/
  index : ∀ x, next.messageKeyIndex.get x = s.messageKeyIndex.get x

theorem Same.follows (h : Same s next) : Follows next ↔ Follows s := IndexFollows.congr h.live h.index

/-- A message has gone from the map, and its id from the index. -/
structure Removed (s next : RetryManager M) (dest : JsString) (id : MessageId) : Prop where
  /-- Its key has gone. -/
  live : ∀ key, Live next key ↔ key ≠ keyToString dest id.text ∧ Live s key
  /-- Its id has gone. -/
  index : ∀ x, next.messageKeyIndex.get x = if x = id.text then none else s.messageKeyIndex.get x

/-- The index follows on exactly when no other message with the id is held. -/
theorem Removed.follows (h : Removed s next dest id) (hs : Follows s) :
    Follows next ↔ ∀ other, Live s (keyToString other id.text) → other = dest :=
  (IndexFollows.congr h.live h.index).trans (IndexFollows.drop hs dest id)

/-- Removing a message from the map disposes of its id. -/
theorem removed_delete (s : RetryManager M) (h : Live s (keyToString dest id.text)) :
    Removed s (disposing s (s.recentMessagesMap.delete (keyToString dest id.text))) dest id := by
  refine ⟨fun key => ExpiringLruMap.mem_keys_delete,fun x => ?_⟩
  have hdisposed := ExpiringLruMap.delete_disposed s.recentMessagesMap (keyToString dest id.text)
  rw [ExpiringLruMap.held_mem h] at hdisposed
  unfold disposing
  dsimp only
  rw [hdisposed,List.foldl_cons,List.foldl_nil,disposeKey_eq,InsertionMap.get_delete]
  by_cases hx : id.text = x
  · rw [if_pos hx,if_pos hx.symm]
  · rw [if_neg hx,if_neg (Ne.symm hx)]

/-- The index follows on exactly when no other message with the id of what goes is held. -/
def Decides (s next : RetryManager M) (gone : Option JsString) : Prop :=
  Follows next ↔ ∀ dest : JsString, ∀ id : MessageId, gone = some (keyToString dest id.text) →
    ∀ other, Live s (keyToString other id.text) → other = dest

theorem Same.decides (h : Same s next) (hfollows : Follows s) : Decides s next none :=
  ⟨fun _ _ _ hgone => (nomatch hgone),fun _ => h.follows.mpr hfollows⟩

theorem Removed.decides (h : Removed s next dest id) (hfollows : Follows s) :
    Decides s next (some (keyToString dest id.text)) := by
  refine (h.follows hfollows).trans ⟨?_,fun honly => honly dest id rfl⟩
  intro honly dest' id' hgone other hother
  obtain ⟨rfl,rfl⟩ := keyToString_inj (Option.some.inj hgone)
  exact honly other hother

/-- Looking for a message lets it go when it is late. -/
theorem decides_get (hfollows : Follows s) (dest : JsString) (id : MessageId) (now : ℕ) :
    Decides s (getRecentMessage s dest id.text now).2
      (if s.recentMessagesMap.isLate (keyToString dest id.text) now then some (keyToString dest id.text) else none) := by
  have hcases := (s.recentMessagesMap.get_spec (keyToString dest id.text) now).2
  change Decides s (disposing s (s.recentMessagesMap.get (keyToString dest id.text) now).2) _
  cases hcases with
  | inl h =>
    obtain ⟨hlate,hremoved⟩ := h
    have hheld : Live s (keyToString dest id.text) := by
      unfold ExpiringLruMap.isLate at hlate
      rw [Option.any_eq_true_iff_get] at hlate
      obtain ⟨hsome,_⟩ := hlate
      obtain ⟨entry,hentry⟩ := Option.isSome_iff_exists.mp hsome
      exact InsertionMap.mem_keys_iff.mpr ⟨entry,hentry⟩
    rw [hlate,if_pos rfl,hremoved]
    exact (removed_delete s hheld).decides hfollows
  | inr h =>
    obtain ⟨hearly,hkeys,hnone⟩ := h
    rw [hearly,if_neg Bool.false_ne_true]
    refine Same.decides ⟨hkeys,fun x => ?_⟩ hfollows
    unfold disposing
    rw [hnone]
    rfl

/-- A timer lets its message go. -/
theorem decides_expire (hs : WellFormed s) (hfollows : Follows s) (key : JsString) (timer : ℕ) :
    Decides s (disposing s (s.recentMessagesMap.expire key timer))
      (if (s.recentMessagesMap.entries.get key).any (·.timer = timer) then some key else none) := by
  unfold ExpiringLruMap.expire
  split
  · rename_i hdue
    have hheld : Live s key := by
      rw [Option.any_eq_true_iff_get] at hdue
      obtain ⟨hsome,_⟩ := hdue
      obtain ⟨entry,hentry⟩ := Option.isSome_iff_exists.mp hsome
      exact InsertionMap.mem_keys_iff.mpr ⟨entry,hentry⟩
    obtain ⟨dest,id,rfl⟩ := hs.keys key hheld
    exact (removed_delete s hheld).decides hfollows
  · exact Same.decides ⟨fun _ => Iff.rfl,fun _ => rfl⟩ hfollows

/-- The ending of a retry lets the message go that the index holds. -/
theorem decides_remove (hfollows : Follows s) (id : MessageId) :
    Decides s (removeRecentMessage s id.text) (s.messageKeyIndex.get id.text) := by
  unfold removeRecentMessage
  cases hindex : s.messageKeyIndex.get id.text with
  | none => exact Same.decides ⟨fun _ => Iff.rfl,fun _ => rfl⟩ hfollows
  | some key =>
    obtain ⟨hlive,dest,rfl⟩ := (hfollows id).1 key hindex
    have hnonempty : keyToString dest id.text ≠ [] := List.append_ne_nil_of_right_ne_nil _ (List.cons_ne_nil _ _)
    have hremoved := removed_delete s hlive
    dsimp only
    rw [if_neg hnonempty]
    refine Removed.decides ⟨hremoved.live,fun x => ?_⟩ hfollows
    have hx := hremoved.index x
    rw [InsertionMap.get_delete,hx]
    by_cases heq : id.text = x
    · rw [if_pos heq,if_pos heq.symm]
    · rw [if_neg heq]

/-- What is held once a message is added. -/
theorem live_add (s : RetryManager M) (dest : JsString) (id : MessageId) (message : M) (now : ℕ) (key : JsString) :
    Live (addRecentMessage s dest id.text message now) key ↔
      (key = keyToString dest id.text ∨ Live s key) ∧ s.recentMessagesMap.evicted (keyToString dest id.text) ≠ some key :=
  ExpiringLruMap.mem_keys_set

/-- The index once a message is added: only what did not fit is lost. -/
theorem index_add (s : RetryManager M) (dest : JsString) (id : MessageId) (message : M) (now : ℕ) (x : JsString) :
    (addRecentMessage s dest id.text message now).messageKeyIndex.get x =
      if x = id.text then some (keyToString dest id.text)
      else (((s.recentMessagesMap.evicted (keyToString dest id.text)).toList).foldl disposeKey
        ((s.recentMessagesMap.held (keyToString dest id.text)).foldl disposeKey s.messageKeyIndex)).get x := by
  have hdisposed := s.recentMessagesMap.set_disposed (keyToString dest id.text) ⟨message,now⟩ now
  unfold addRecentMessage disposing
  dsimp only
  rw [hdisposed,List.foldl_append,InsertionMap.get_set]
  by_cases hx : id.text = x
  · rw [if_pos hx,if_pos hx.symm]
  · rw [if_neg hx,if_neg (Ne.symm hx)]

/-- A message that is replaced leaves the ids of the others. -/
theorem index_held (s : RetryManager M) (dest : JsString) (id : MessageId) {x : JsString} (hx : x ≠ id.text) :
    ((s.recentMessagesMap.held (keyToString dest id.text)).foldl disposeKey s.messageKeyIndex).get x =
      s.messageKeyIndex.get x := by
  unfold ExpiringLruMap.held
  split
  · rw [List.foldl_cons,List.foldl_nil,disposeKey_eq]
    exact InsertionMap.get_delete_ne _ hx.symm
  · rfl

/-- A message that fits lets nothing go. -/
theorem decides_add_fits (hfollows : Follows s) {dest : JsString} {id : MessageId} (message : M) (now : ℕ)
    (hevicted : s.recentMessagesMap.evicted (keyToString dest id.text) = none) :
    Decides s (addRecentMessage s dest id.text message now) none := by
  have hindex : ∀ x, (addRecentMessage s dest id.text message now).messageKeyIndex.get x =
      if x = id.text then some (keyToString dest id.text) else s.messageKeyIndex.get x := by
    intro x
    rw [index_add,hevicted]
    split
    · rfl
    · rename_i hx
      exact index_held s dest id hx
  have hlive : ∀ key, Live (addRecentMessage s dest id.text message now) key ↔
      key = keyToString dest id.text ∨ Live s key := by
    intro key
    rw [live_add,hevicted]
    exact ⟨fun h => h.1,fun h => ⟨h,fun hno => (by cases hno)⟩⟩
  have hset := IndexFollows.set hfollows dest id
  exact ⟨fun _ _ _ hgone => (by cases hgone),fun _ => (IndexFollows.congr hlive hindex).mpr hset⟩

/-- A message that does not fit lets the oldest one go, unless it has the same id. -/
theorem decides_add_evicts (hfollows : Follows s) {dest dest' : JsString} {id i : MessageId} (message : M) (now : ℕ)
    (hold : keyToString dest' i.text ≠ keyToString dest id.text)
    (hevicted : s.recentMessagesMap.evicted (keyToString dest id.text) = some (keyToString dest' i.text)) :
    Decides s (addRecentMessage s dest id.text message now)
      ((some (keyToString dest' i.text)).filter fun key => !(messageKeySeparator::id.text).isSuffixOf key) := by
  have hindex : ∀ x, (addRecentMessage s dest id.text message now).messageKeyIndex.get x =
      if x = id.text then some (keyToString dest id.text)
      else if x = i.text then none else s.messageKeyIndex.get x := by
    intro x
    rw [index_add,hevicted]
    split
    · rfl
    · rename_i hx
      rw [Option.toList_some,List.foldl_cons,List.foldl_nil,disposeKey_eq,InsertionMap.get_delete,index_held s dest id hx]
      by_cases hi : i.text = x
      · rw [if_pos hi,if_pos hi.symm]
      · rw [if_neg hi,if_neg (Ne.symm hi)]
  have hlive : ∀ key, Live (addRecentMessage s dest id.text message now) key ↔
      key ≠ keyToString dest' i.text ∧ (key = keyToString dest id.text ∨ Live s key) := by
    intro key
    rw [live_add,hevicted,and_comm,ne_eq,Option.some_inj,ne_eq,@eq_comm _ key (keyToString dest' i.text)]
  have hset := IndexFollows.set hfollows dest id
  by_cases hi : i = id
  · subst hi
    have hsame : ∀ x, (addRecentMessage s dest i.text message now).messageKeyIndex.get x =
        if x = i.text then some (keyToString dest i.text) else s.messageKeyIndex.get x := by
      intro x
      rw [hindex]
      by_cases hx : x = i.text
      · rw [if_pos hx,if_pos hx]
      · rw [if_neg hx,if_neg hx,if_neg hx]
    have hgone : (some (keyToString dest' i.text)).filter (fun key => !(messageKeySeparator::i.text).isSuffixOf key) = none := by
      rw [Option.filter_some,isSuffixOf_key.mpr rfl]
      rfl
    have hother := IndexFollows.drop_other hset (if_pos rfl) hold.symm
    rw [hgone]
    exact ⟨fun _ _ _ hno => (by cases hno),fun _ => (IndexFollows.congr hlive hsame).mpr hother⟩
  · have hsuffix : (messageKeySeparator::id.text).isSuffixOf (keyToString dest' i.text) = false := by
      rw [← Bool.not_eq_true,isSuffixOf_key]
      exact hi
    have hne : i.text ≠ id.text := fun heq => hi (MessageId.ext heq)
    have hsame : ∀ x, (addRecentMessage s dest id.text message now).messageKeyIndex.get x =
        if x = i.text then none else if x = id.text then some (keyToString dest id.text) else s.messageKeyIndex.get x := by
      intro x
      rw [hindex]
      by_cases hx : x = id.text
      · rw [if_pos hx,hx,if_neg hne.symm,if_pos rfl]
      · rw [if_neg hx,if_neg hx]
    have hdrop := (IndexFollows.congr hlive hsame).trans (IndexFollows.drop hset dest' i)
    rw [Option.filter_some,hsuffix]
    refine hdrop.trans ⟨fun honly dest2 i2 hgone other hother => ?_,fun honly other hother => ?_⟩
    · obtain ⟨rfl,rfl⟩ := keyToString_inj (Option.some.inj hgone)
      exact honly other (.inr hother)
    · cases hother with
      | inl hsameKey => exact absurd (keyToString_inj hsameKey).2 hi
      | inr hheld => exact honly dest' i rfl other hheld

/-- Holding a message lets go what does not fit, unless it has the same id. -/
theorem decides_add (hs : WellFormed s) (hfollows : Follows s) (dest : JsString) (id : MessageId) (message : M) (now : ℕ) :
    Decides s (addRecentMessage s dest id.text message now)
      ((s.recentMessagesMap.evicted (keyToString dest id.text)).filter
        fun key => !(messageKeySeparator::id.text).isSuffixOf key) := by
  cases hevicted : s.recentMessagesMap.evicted (keyToString dest id.text) with
  | none => exact decides_add_fits hfollows message now hevicted
  | some oldest =>
    have hroom : s.recentMessagesMap.options.max ≠ some 0 := by
      rw [hs.options]
      decide
    have hold : oldest ≠ keyToString dest id.text :=
      fun heq => ExpiringLruMap.evicted_ne hroom (heq ▸ hevicted)
    obtain ⟨dest',i,rfl⟩ := hs.keys oldest ((ExpiringLruMap.evicted_mem hevicted).resolve_left hold)
    exact decides_add_evicts hfollows message now hold hevicted

/-- Forgetting everything leaves nothing to follow. -/
theorem decides_clear (s : RetryManager M) : Decides s (clear s) none := by
  have hnone : ∀ key, ¬Live (clear s) key := by
    intro key hlive
    unfold Live clear disposing at hlive
    dsimp only at hlive
    rw [s.recentMessagesMap.keys_clear.1] at hlive
    exact absurd hlive List.not_mem_nil
  refine ⟨fun _ _ _ hgone => (nomatch hgone),fun _ id => ⟨fun key hkey => (nomatch hkey),?_⟩⟩
  rintro ⟨dest,hlive⟩
  exact absurd hlive (hnone _)

/-- Counters and requests to the phone do not matter for it. -/
theorem decides_endRetry (hfollows : Follows s) (id : MessageId) (statistics : RetryStatistics) :
    Decides s (endRetry s id.text statistics) (s.messageKeyIndex.get id.text) := by
  let ended := cancelPendingPhoneRequest
    {s with statistics := statistics, retryCounters := (s.retryCounters.delete id.text).1} id.text
  have hended : Follows ended := hfollows
  exact decides_remove hended id

/-- Every step lets go what it says. -/
theorem step_decides {a : Op M} (hs : WellFormed s) (hfollows : Follows s) (h : step s a = some next) :
    Decides s next (letGo s a) := by
  cases a with
  | addRecentMessage dest id message now =>
    cases h
    exact decides_add hs hfollows dest id message now
  | getRecentMessage dest id now =>
    cases h
    exact decides_get hfollows dest id now
  | markRetrySuccess id =>
    cases h
    exact decides_endRetry hfollows id _
  | markRetryFailed id =>
    cases h
    exact decides_endRetry hfollows id _
  | incrementRetryCount id now =>
    cases h
    exact Same.decides ⟨fun _ => Iff.rfl,fun _ => rfl⟩ hfollows
  | schedulePhoneRequest id =>
    cases h
    exact Same.decides ⟨fun _ => Iff.rfl,fun _ => rfl⟩ hfollows
  | phoneRequestDue id timer =>
    cases h
    unfold phoneRequestDue
    split
    · exact Same.decides ⟨fun _ => Iff.rfl,fun _ => rfl⟩ hfollows
    · exact Same.decides ⟨fun _ => Iff.rfl,fun _ => rfl⟩ hfollows
  | messageExpires key timer =>
    cases h
    exact decides_expire hs hfollows key timer
  | counterExpires key timer =>
    cases h
    exact Same.decides ⟨fun _ => Iff.rfl,fun _ => rfl⟩ hfollows
  | clear =>
    cases h
    exact decides_clear s

/-- A retry that ends takes its id out of the index. -/
theorem index_endRetry (s : RetryManager M) (id : JsString) (statistics : RetryStatistics)
    (hnonempty : s.messageKeyIndex.get id ≠ some []) : (endRetry s id statistics).messageKeyIndex.get id = none := by
  unfold endRetry removeRecentMessage
  change (match s.messageKeyIndex.get id with
    | none => _
    | some keyString => _ : RetryManager M).messageKeyIndex.get id = none
  cases hindex : s.messageKeyIndex.get id with
  | none => exact hindex
  | some keyString =>
    have hkey : keyString ≠ [] := fun heq => hnonempty (heq ▸ hindex)
    dsimp only
    rw [if_neg hkey]
    exact InsertionMap.get_delete_self _ _

/-- An id that is not in an index that follows has no message. -/
theorem Follows.absent (h : Follows s) (hindex : s.messageKeyIndex.get id.text = none) (dest : JsString) (now : ℕ) :
    (getRecentMessage s dest id.text now).1 = none := by
  refine ExpiringLruMap.get_absent (fun hlive => ?_) now
  obtain ⟨key,hkey⟩ := (h id).2 ⟨dest,hlive⟩
  rw [hindex] at hkey
  cases hkey

end Steps

section Runs

variable {M : Type*} {s next last : RetryManager M} {labels : List (Op M)}

/-- What is disposed of leaves keys of messages. -/
theorem wellFormed_disposing (hs : WellFormed s)
    {result : ExpiringLruMap JsString (RecentMessage M) × List (RecentMessage M × JsString)}
    (hoptions : result.1.options = s.recentMessagesMap.options) (hlive : ∀ key, key ∈ result.1.keys → Live s key) :
    WellFormed (disposing s result) :=
  hs.shrink hoptions hlive fun _ _ hkey => disposeKeys_shrinks hkey

theorem wellFormed_add (hs : WellFormed s) (dest : JsString) (id : MessageId) (message : M) (now : ℕ) :
    WellFormed (addRecentMessage s dest id.text message now) := by
  have hoptions := s.recentMessagesMap.set_options (keyToString dest id.text) ⟨message,now⟩ now
  refine ⟨hoptions.trans hs.options,fun key hkey => ?_,fun x key hkey => ?_⟩
  · cases (ExpiringLruMap.mem_keys_set.mp hkey).1 with
    | inl h => exact ⟨dest,id,h⟩
    | inr h => exact hs.keys key h
  · unfold addRecentMessage at hkey
    dsimp only at hkey
    rw [InsertionMap.get_set] at hkey
    split at hkey
    · rename_i hx
      cases hkey
      exact ⟨dest,id,hx.symm,rfl⟩
    · exact hs.index x key (disposeKeys_shrinks hkey)

theorem wellFormed_get (hs : WellFormed s) (dest : JsString) (id : MessageId) (now : ℕ) :
    WellFormed (getRecentMessage s dest id.text now).2 := by
  obtain ⟨hoptions,hcases⟩ := s.recentMessagesMap.get_spec (keyToString dest id.text) now
  change WellFormed (disposing s (s.recentMessagesMap.get (keyToString dest id.text) now).2)
  refine wellFormed_disposing hs hoptions fun key hkey => ?_
  cases hcases with
  | inl h =>
    rw [h.2] at hkey
    exact (ExpiringLruMap.mem_keys_delete.mp hkey).2
  | inr h => exact (h.2.1 key).mp hkey

theorem wellFormed_delete (hs : WellFormed s) (key : JsString) :
    WellFormed (disposing s (s.recentMessagesMap.delete key)) :=
  wellFormed_disposing hs (ExpiringLruMap.delete_options _ _) fun _ hkey => (ExpiringLruMap.mem_keys_delete.mp hkey).2

theorem wellFormed_remove (hs : WellFormed s) (id : JsString) : WellFormed (removeRecentMessage s id) := by
  unfold removeRecentMessage
  split
  · exact hs
  · split
    · exact hs
    · rename_i key _ _
      have hdeleted := wellFormed_delete hs key
      refine hdeleted.shrink rfl (fun _ h => h) fun x found hfound => ?_
      rw [InsertionMap.get_delete] at hfound
      split at hfound
      · cases hfound
      · exact hfound

theorem wellFormed_endRetry (hs : WellFormed s) (id : JsString) (statistics : RetryStatistics) :
    WellFormed (endRetry s id statistics) := by
  let ended := cancelPendingPhoneRequest
    {s with statistics := statistics, retryCounters := (s.retryCounters.delete id).1} id
  have hended : WellFormed ended := ⟨hs.options,hs.keys,hs.index⟩
  exact wellFormed_remove hended id

/-- Every step keeps the keys. -/
theorem step_wellFormed {a : Op M} (hs : WellFormed s) (h : step s a = some next) : WellFormed next := by
  have hsame : ∀ {other : RetryManager M}, other.recentMessagesMap = s.recentMessagesMap →
      other.messageKeyIndex = s.messageKeyIndex → WellFormed other := by
    intro other hmap hindex
    refine hs.shrink (by rw [hmap]) (fun key hkey => ?_) fun x key hkey => by rwa [← hindex]
    unfold Live at hkey ⊢
    rwa [← hmap]
  cases a with
  | addRecentMessage dest id message now =>
    cases h
    exact wellFormed_add hs dest id message now
  | getRecentMessage dest id now =>
    cases h
    exact wellFormed_get hs dest id now
  | markRetrySuccess id =>
    cases h
    exact wellFormed_endRetry hs id.text _
  | markRetryFailed id =>
    cases h
    exact wellFormed_endRetry hs id.text _
  | incrementRetryCount id now =>
    cases h
    exact hsame rfl rfl
  | schedulePhoneRequest id =>
    cases h
    exact hsame rfl rfl
  | phoneRequestDue id timer =>
    cases h
    unfold phoneRequestDue
    split
    · exact hsame rfl rfl
    · exact hs
  | messageExpires key timer =>
    cases h
    unfold ExpiringLruMap.expire
    split
    · exact wellFormed_delete hs key
    · exact hsame rfl rfl
  | counterExpires key timer =>
    cases h
    exact hsame rfl rfl
  | clear =>
    cases h
    obtain ⟨hkeys,hoptions⟩ := s.recentMessagesMap.keys_clear
    refine hs.shrink hoptions (fun key hkey => ?_) fun _ _ hkey => by cases hkey
    unfold Live clear disposing at hkey
    dsimp only at hkey
    rw [hkeys] at hkey
    exact absurd hkey List.not_mem_nil

/-- No operation is refused. -/
theorem run_total (s : RetryManager M) (labels : List (Op M)) : ∃ last, run step s labels = some last := by
  induction labels generalizing s with
  | nil => exact ⟨s,rfl⟩
  | cons a rest ih =>
    have hstep : ∃ next, step s a = some next := by
      cases a with
      | _ => exact ⟨_,rfl⟩
    obtain ⟨next,hnext⟩ := hstep
    obtain ⟨last,hlast⟩ := ih next
    refine ⟨last,?_⟩
    rw [run_cons,hnext]
    exact hlast

/-- After a run through which the index follows, the ending of a retry leaves no message of its id. -/
theorem marked_absent (h : Throughout step Follows newManager labels) {front : List (Op M)} {a : Op M} {id : MessageId}
    (hlabels : labels = front++[a]) (ha : a.Marks id) (hr : run step newManager labels = some last) (dest : JsString)
    (now : ℕ) : (getRecentMessage last dest id.text now).1 = none := by
  have hfollows := h.last hr
  rw [hlabels,run_append] at hr
  obtain ⟨mid,hmid,hlast⟩ := Option.bind_eq_some_iff.mp hr
  obtain ⟨next,hnext,hnil⟩ := run_cons_some hlast
  cases hnil
  have hs := run_invariant (fun s a next hs hn => step_wellFormed hs hn) hmid wellFormed_new
  have hnonempty : mid.messageKeyIndex.get id.text ≠ some [] := by
    intro hindex
    obtain ⟨dest',id',_,hkey⟩ := hs.index _ _ hindex
    exact absurd hkey.symm (List.append_ne_nil_of_right_ne_nil _ (List.cons_ne_nil _ _))
  have hindex : last.messageKeyIndex.get id.text = none := by
    cases ha with
    | inl hsuccess =>
      rw [hsuccess] at hnext
      cases hnext
      exact index_endRetry mid id.text _ hnonempty
    | inr hfailed =>
      rw [hfailed] at hnext
      cases hnext
      exact index_endRetry mid id.text _ hnonempty
  exact hfollows.absent hindex dest now

/-- The index follows the recent messages throughout a run exactly when no step lets an entry go
while another one with its id is held; then the ending of a retry leaves no message of its id. -/
theorem recent_index_iff (labels : List (Op M)) :
    (Throughout step Follows newManager labels ↔ Guarded step Conforms newManager labels) ∧
      (Guarded step Conforms newManager labels → ∀ front a id last, labels = front++[a] → a.Marks id →
        run step newManager labels = some last → ∀ dest now, (getRecentMessage last dest id.text now).1 = none) := by
  obtain ⟨last,hr⟩ := run_total newManager labels
  have hiff := throughout_iff_guarded (fun s a next hs hn => step_wellFormed hs hn)
    (fun s a next hs hfollows hn => step_decides hs hfollows hn) hr wellFormed_new follows_new
  refine ⟨hiff,fun hguarded front a id last hlabels ha hlast dest now => ?_⟩
  exact marked_absent (hiff.mpr hguarded) hlabels ha hlast dest now

end Runs

section PhoneRequests

variable {M : Type*} {s next : RetryManager M} {timer : ℕ}

/-- The request to the phone that a step makes. -/
def asked (s : RetryManager M) : Op M → List ℕ
  | .phoneRequestDue id timer => if s.pendingPhoneRequests.get id.text = some timer then [timer] else []
  | _ => []

/-- The request of a timer can still be made. -/
def Ahead (s : RetryManager M) (timer : ℕ) : Prop := timer ∈ s.pendingPhoneRequests.values ∨ s.nextTimer ≤ timer

/-- Every request that is waited for has a timer of its own. -/
structure Timed (s : RetryManager M) : Prop where
  /-- No other has it. -/
  unique : ∀ id other timer, s.pendingPhoneRequests.get id = some timer →
    s.pendingPhoneRequests.get other = some timer → id = other
  /-- It was given out. -/
  given : ∀ id timer, s.pendingPhoneRequests.get id = some timer → timer < s.nextTimer

theorem pending_endRetry (s : RetryManager M) (id : JsString) (statistics : RetryStatistics) :
    (endRetry s id statistics).pendingPhoneRequests = s.pendingPhoneRequests.delete id ∧
      (endRetry s id statistics).nextTimer = s.nextTimer := by
  unfold endRetry removeRecentMessage
  split
  · exact ⟨rfl,rfl⟩
  · split
    · exact ⟨rfl,rfl⟩
    · exact ⟨rfl,rfl⟩

/-- A step schedules a request, or leaves none that was not waited for and not the one it makes. -/
theorem step_pending {a : Op M} (hs : step s a = some next) :
    (∃ id, a = .schedulePhoneRequest id ∧ next = schedulePhoneRequest s id.text) ∨ next.nextTimer = s.nextTimer ∧
      (∀ id timer, next.pendingPhoneRequests.get id = some timer → s.pendingPhoneRequests.get id = some timer) ∧
        ∀ id timer, a = .phoneRequestDue id timer → next.pendingPhoneRequests.get id.text ≠ some timer := by
  have hended : ∀ (id : JsString) statistics other timer,
      (endRetry s id statistics).pendingPhoneRequests.get other = some timer → s.pendingPhoneRequests.get other = some timer := by
    intro id statistics other timer hget
    rw [(pending_endRetry s id statistics).1] at hget
    exact InsertionMap.get_of_delete hget
  cases a with
  | schedulePhoneRequest id =>
    cases hs
    exact .inl ⟨id,rfl,rfl⟩
  | markRetrySuccess id =>
    cases hs
    exact .inr ⟨(pending_endRetry s _ _).2,hended _ _,fun _ _ hno => by cases hno⟩
  | markRetryFailed id =>
    cases hs
    exact .inr ⟨(pending_endRetry s _ _).2,hended _ _,fun _ _ hno => by cases hno⟩
  | clear =>
    cases hs
    exact .inr ⟨rfl,fun _ _ hno => (by cases hno),fun _ _ hno => by cases hno⟩
  | phoneRequestDue id timer =>
    cases hs
    unfold phoneRequestDue
    split
    · refine .inr ⟨rfl,fun _ _ => InsertionMap.get_of_delete,fun other t heq => ?_⟩
      cases heq
      simp
    · rename_i hnot
      refine .inr ⟨rfl,fun _ _ h => h,fun other t heq => ?_⟩
      cases heq
      exact hnot
  | _ =>
    cases hs
    exact .inr ⟨rfl,fun _ _ h => h,fun _ _ hno => by cases hno⟩

/-- A scheduled request has a new timer. -/
theorem get_schedule {id other : JsString}
    (h : (schedulePhoneRequest s id).pendingPhoneRequests.get other = some timer) :
    id = other ∧ timer = s.nextTimer ∨ s.pendingPhoneRequests.get other = some timer := by
  change ((s.pendingPhoneRequests.delete id).set id s.nextTimer).get other = some timer at h
  rw [InsertionMap.get_set,InsertionMap.get_delete] at h
  split at h
  · exact .inl ⟨‹_›,(Option.some.inj h).symm⟩
  · exact .inr h

theorem mem_asked {a : Op M} (h : timer ∈ asked s a) :
    ∃ id : MessageId, a = .phoneRequestDue id timer ∧ s.pendingPhoneRequests.get id.text = some timer := by
  unfold asked at h
  split at h
  · split at h
    · cases List.mem_singleton.mp h
      exact ⟨_,rfl,‹_›⟩
    · cases h
  · cases h

/-- Every step keeps the timers, and what is ahead of the next state was ahead and is not asked for now. -/
theorem Timed.step {a : Op M} (h : Timed s) (hs : RetryMessages.step s a = some next) :
    Timed next ∧ ∀ timer, Ahead next timer → Ahead s timer ∧ timer ∉ asked s a := by
  have hunique := h.unique
  have hgiven := h.given
  have hvalues : ∀ (m : RetryManager M) timer, timer ∈ m.pendingPhoneRequests.values ↔
      ∃ id, m.pendingPhoneRequests.get id = some timer := fun _ _ => InsertionMap.mem_values_iff
  rcases step_pending hs with ⟨id,rfl,rfl⟩ | ⟨hnext,hkept,hgone⟩
  · have hget := fun other timer => @get_schedule M s timer id.text other
    have hlater : (schedulePhoneRequest s id.text).nextTimer = s.nextTimer+1 := rfl
    have hasked : asked s (.schedulePhoneRequest id) = [] := rfl
    refine ⟨⟨?_,?_⟩,?_⟩
    · grind
    · grind
    · grind [Ahead]
  · have hasked := fun timer => @mem_asked M s timer a
    refine ⟨⟨?_,?_⟩,?_⟩
    · grind
    · grind
    · grind [Ahead]

end PhoneRequests

section Cases

/-- An id of one letter. -/
def letterId : MessageId := ⟨ofString "m",by decide⟩

/-- A message that is held and marked is not found any more. -/
theorem recent_index_marked : ∀ last, run step newManager
    [Op.addRecentMessage (ofString "a") letterId (0 : ℕ) 0,.markRetrySuccess letterId] = some last →
      (getRecentMessage last (ofString "a") letterId.text 0).1 = none := by
  intro last hlast
  refine (recent_index_iff _).2 ?_ [Op.addRecentMessage (ofString "a") letterId (0 : ℕ) 0] _ letterId last rfl (.inl rfl)
    hlast (ofString "a") 0
  refine ⟨fun dest id hgone => (nomatch hgone),fun next hnext => ⟨?_,fun _ _ => trivial⟩⟩
  cases hnext
  intro dest id hgone other hother
  have hkey : keyToString dest id.text = keyToString (ofString "a") letterId.text := (Option.some.inj hgone).symm
  obtain ⟨rfl,rfl⟩ := keyToString_inj hkey
  have hkeys := List.mem_singleton.mp hother
  exact (keyToString_inj hkeys).1

/-- A message for two destinations is still found for the first one when its retry has worked. -/
theorem recent_index_loses : ∃ last, run step newManager
    [Op.addRecentMessage (ofString "a") letterId (0 : ℕ) 0,.addRecentMessage (ofString "b") letterId 1 0,
      .markRetrySuccess letterId] = some last ∧ ¬Follows last ∧
        (getRecentMessage last (ofString "a") letterId.text 0).1 = some ⟨0,0⟩ := by
  refine ⟨_,rfl,fun hfollows => ?_,by decide⟩
  obtain ⟨key,hkey⟩ := (hfollows letterId).2 ⟨ofString "a",List.mem_cons_self⟩
  have hnone : none = some key := hkey
  cases hnone

end Cases

end Baileyrs.RetryMessages
