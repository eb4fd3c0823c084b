import Baileyrs.SignalJids

/-!
# Parts of a JID

The parts of a JID are found by searches in the whole text, each below a limit. They are
the parts that splitting the text gives: what is before the first at sign is split at the
colons, and the first of these parts at the underscores. Comparing two users in place and
dropping what is between the user and the server agree with it.
-/

namespace Baileyrs.SignalRouting

open JsString AtomicStore TextSearch

section Model

/-- A number counts as true. -/
def isGiven (x : Option JsNumber) : Bool :=
  match x with
  | some x => !x.isNaN && (x ≠ .zero && x ≠ .negativeZero)
  | none => false

/-- A number behind a mark, unless it does not count. -/
def markedNumber (mark : UInt16) (x : Option JsNumber) : JsString :=
  match x with
  | some x => if isGiven (some x) then mark::x.text else []
  | none => []

/-- Write a JID. -/
def jidEncode (user server : JsString) (device agent : Option JsNumber) : JsString :=
  user++(markedNumber (unit '_') agent++(markedNumber (unit ':') device++unit '@'::server))

/-- Where the user of a JID ends that has an at sign somewhere. -/
def userEndBefore (jid : JsString) (sepIdx : ℕ) : ℕ :=
  let stop := (indexBefore jid (unit ':') 0 sepIdx).getD sepIdx
  (indexBefore jid (unit '_') 0 stop).getD stop

/-- Where the user of a JID ends; nowhere without an at sign. -/
def userEnd (jid : JsString) : Option ℕ := (indexOf (unit '@') jid).map (userEndBefore jid)

/-- Two JIDs have the same user. -/
def areJidsSameUser (jid1 jid2 : Option JsString) : Bool :=
  let stop := jid1.bind userEnd
  if stop ≠ jid2.bind userEnd then false
  else
    match stop with
    | none => true
    | some stop => (slice (jid2.getD []) 0 stop).isPrefixOf (jid1.getD [])

/-- The server that another one stands for. -/
def normalServer (server : JsString) : JsString :=
  if server = ofString "c.us" then ofString "s.whatsapp.net" else server

/-- A JID without its agent and its device. -/
def jidNormalizedUser (jid : Option JsString) : JsString :=
  match jid with
  | none => []
  | some jid =>
    match indexOf (unit '@') jid with
    | none => []
    | some sepIdx =>
      let stop := userEndBefore jid sepIdx
      if stop = sepIdx ∧ ¬(ofString "@c.us").isSuffixOf jid = true then jid
      else jidEncode (slice jid 0 stop) (normalServer (jid.drop (sepIdx+1))) none none

/-- A device JID for the device of another JID. -/
def transferDevice (fromJid toJid : JsString) : Except StoreError JsString :=
  let device := ((jidDecode fromJid).bind (·.device)).filter fun x => isGiven (some x)
  match jidDecode toJid with
  | some decoded => .ok (jidEncode decoded.user decoded.server (some (device.getD .zero)) none)
  | none => .error (.typeError "Cannot destructure property 'server' of 'jidDecode(...)' as it is undefined.")

/-- The parts of a JID by splitting. -/
def splitJid (jid : Option JsString) : Option FullJid := do
  let jid ← jid
  let sepIdx ← indexOf (unit '@') jid
  let halves := splitOn [unit ':'] (jid.take sepIdx)
  let userAgent ← halves[0]?
  let parts := splitOn [unit '_'] userAgent
  let user ← parts[0]?
  let server := jid.drop (sepIdx+1)
  return ⟨server,user,jidDomainType server parts[1]?,(halves[1]?.filter (· ≠ [])).map .ofText⟩

end Model

section Parts

variable {text : JsString} {u : UInt16} {stop : ℕ}

/-- A search below a limit is a search in the front of the text. -/
theorem indexBefore_eq (text : JsString) (u : UInt16) (start limit : ℕ) :
    indexBefore text u start limit = (indexOf u ((text.take limit).drop start)).map (start+·) := by
  unfold indexBefore
  rw [List.drop_take,indexOf_take]
  cases indexOf u (text.drop start) with
  | none => rfl
  | some i =>
    have hsame : decide (start+i < limit) = decide (i < limit-start) := by
      rw [decide_eq_decide]
      omega
    rw [Option.map_some,Option.filter_some,Option.filter_some,hsame]
    cases decide (i < limit-start) with
    | true => rfl
    | false => rfl

theorem indexBefore_front (text : JsString) (u : UInt16) (stop : ℕ) :
    indexBefore text u 0 stop = indexOf u (text.take stop) := by
  have hsame : (fun i => 0+i : ℕ → ℕ) = id := funext fun i => Nat.zero_add i
  rw [indexBefore_eq,List.drop_zero,hsame,Option.map_id,id]

/-- The part before the first mark below a limit. -/
theorem slice_first (h : stop ≤ text.length) :
    slice text 0 ((indexBefore text u 0 stop).getD stop) = firstPart u (text.take stop) := by
  have hlength : (text.take stop).length = stop := List.length_take_of_le h
  rw [indexBefore_front,slice,List.drop_zero,firstPart,hlength]
  cases hindex : indexOf u (text.take stop) with
  | none => rw [Option.getD_none,List.take_take,Nat.min_self]
  | some i =>
    have hlt := indexOf_lt hindex
    rw [hlength] at hlt
    rw [Option.getD_some,List.take_take,Nat.min_eq_left hlt.le]

/-- The part behind the first mark below a limit. -/
theorem slice_second (h : stop ≤ text.length) :
    ((indexBefore text u 0 stop).map fun i => slice text (i+1) (endBefore text u (i+1) stop)) =
      (splitOn [u] (text.take stop))[1]? := by
  rw [splitOn_second,indexBefore_front]
  congr 1
  funext i
  unfold endBefore slice firstPart
  rw [indexBefore_eq]
  have hlength : ((text.take stop).drop (i+1)).length = stop-(i+1) := by
    rw [List.length_drop,List.length_take_of_le h]
  cases hindex : indexOf u ((text.take stop).drop (i+1)) with
  | none => rw [Option.map_none,Option.getD_none,Option.getD_none,List.take_length]
  | some k =>
    have hlt := indexOf_lt hindex
    rw [hlength] at hlt
    rw [Option.map_some,Option.getD_some,Option.getD_some,List.drop_take,List.drop_take,List.take_take]
    congr 1
    omega

end Parts

section Decoding

/-- Where the first half of a JID ends. -/
theorem userAgentEnd_le {jid : JsString} {sepIdx : ℕ} : (indexBefore jid (unit ':') 0 sepIdx).getD sepIdx ≤ sepIdx := by
  cases hindex : indexBefore jid (unit ':') 0 sepIdx with
  | none => exact le_rfl
  | some i =>
    unfold indexBefore at hindex
    rw [Option.filter_eq_some_iff] at hindex
    exact (of_decide_eq_true hindex.2).le

/-- The part of a JID before its first colon. -/
theorem take_userAgentEnd {jid : JsString} {sepIdx : ℕ} (h : sepIdx ≤ jid.length) :
    jid.take ((indexBefore jid (unit ':') 0 sepIdx).getD sepIdx) = firstPart (unit ':') (jid.take sepIdx) := by
  have hslice := @slice_first jid (unit ':') sepIdx h
  rw [slice,List.drop_zero] at hslice
  exact hslice

/-- Decoding by searches is decoding by splitting. -/
theorem jidDecode_eq (jid : Option JsString) : jid.bind jidDecode = splitJid jid := by
  cases jid with
  | none => rfl
  | some jid =>
    change jidDecode jid = (indexOf (unit '@') jid).bind _
    unfold jidDecode
    cases hsep : indexOf (unit '@') jid with
    | none => rfl
    | some sepIdx =>
      have hle := (indexOf_lt hsep).le
      have hstop : (indexBefore jid (unit ':') 0 sepIdx).getD sepIdx ≤ jid.length := le_trans userAgentEnd_le hle
      have huser := @slice_first jid (unit '_') _ hstop
      have hagent := @slice_second jid (unit '_') _ hstop
      rw [take_userAgentEnd hle] at huser hagent
      dsimp only
      rw [slice_second hle,huser,hagent]
      change _ = (splitOn [unit ':'] (jid.take sepIdx))[0]?.bind _
      rw [splitOn_first]
      change _ = (splitOn [unit '_'] (firstPart (unit ':') (jid.take sepIdx)))[0]?.bind _
      rw [splitOn_first]
      rfl

/-- User of a JID whose at sign is found. -/
def userOf (jid : JsString) (sepIdx : ℕ) : JsString := firstPart (unit '_') (firstPart (unit ':') (jid.take sepIdx))

theorem splitJid_none {jid : JsString} (h : indexOf (unit '@') jid = none) : splitJid (some jid) = none := by
  change (indexOf (unit '@') jid).bind _ = none
  rw [h]
  rfl

/-- User and server of a JID by splitting. -/
theorem splitJid_some {jid : JsString} {sepIdx : ℕ} (h : indexOf (unit '@') jid = some sepIdx) :
    ∃ domainType device, splitJid (some jid) = some ⟨jid.drop (sepIdx+1),userOf jid sepIdx,domainType,device⟩ := by
  change ∃ domainType device, (indexOf (unit '@') jid).bind _ = _
  rw [h]
  change ∃ domainType device, (splitOn [unit ':'] (jid.take sepIdx))[0]?.bind _ = _
  rw [splitOn_first]
  change ∃ domainType device, (splitOn [unit '_'] (firstPart (unit ':') (jid.take sepIdx)))[0]?.bind _ = _
  rw [splitOn_first]
  exact ⟨_,_,rfl⟩

theorem userEndBefore_le (jid : JsString) (sepIdx : ℕ) : userEndBefore jid sepIdx ≤ sepIdx := by
  unfold userEndBefore
  dsimp only
  cases hindex : indexBefore jid (unit '_') 0 ((indexBefore jid (unit ':') 0 sepIdx).getD sepIdx) with
  | none => exact userAgentEnd_le
  | some i =>
    unfold indexBefore at hindex
    rw [Option.filter_eq_some_iff] at hindex
    exact (of_decide_eq_true hindex.2).le.trans userAgentEnd_le

/-- The user of a JID is what is before its end. -/
theorem slice_userEndBefore {jid : JsString} {sepIdx : ℕ} (h : sepIdx ≤ jid.length) :
    slice jid 0 (userEndBefore jid sepIdx) = userOf jid sepIdx := by
  have hstop : (indexBefore jid (unit ':') 0 sepIdx).getD sepIdx ≤ jid.length := le_trans userAgentEnd_le h
  have huser := @slice_first jid (unit '_') _ hstop
  rw [take_userAgentEnd h] at huser
  exact huser

/-- The end of a user is its length. -/
theorem length_userOf {jid : JsString} {sepIdx : ℕ} (h : sepIdx ≤ jid.length) :
    (userOf jid sepIdx).length = userEndBefore jid sepIdx := by
  rw [← slice_userEndBefore h,slice,List.drop_zero,List.length_take_of_le ((userEndBefore_le jid sepIdx).trans h)]

/-- Where a user ends, by splitting. -/
theorem userEnd_eq (jid : Option JsString) :
    jid.bind userEnd = (splitJid jid).map fun decoded => decoded.user.length := by
  cases jid with
  | none => rfl
  | some jid =>
    rw [Option.bind_some,userEnd]
    cases hsep : indexOf (unit '@') jid with
    | none => rw [splitJid_none hsep,Option.map_none,Option.map_none]
    | some sepIdx =>
      obtain ⟨domainType,device,hsplit⟩ := splitJid_some hsep
      rw [hsplit,Option.map_some,Option.map_some,length_userOf (indexOf_lt hsep).le]

/-- The user of a JID begins it. -/
theorem splitJid_take {jid : JsString} {decoded : FullJid} (h : splitJid (some jid) = some decoded) :
    jid.take decoded.user.length = decoded.user := by
  cases hsep : indexOf (unit '@') jid with
  | none =>
    rw [splitJid_none hsep] at h
    cases h
  | some sepIdx =>
    obtain ⟨domainType,device,hsplit⟩ := splitJid_some hsep
    rw [hsplit] at h
    cases h
    have hle := (indexOf_lt hsep).le
    dsimp only
    rw [length_userOf hle,← slice_userEndBefore hle,slice,List.drop_zero]

/-- Comparing users in place is comparing the users that splitting gives. -/
theorem areJidsSameUser_eq (jid1 jid2 : Option JsString) :
    areJidsSameUser jid1 jid2 = true ↔ (splitJid jid1).map (·.user) = (splitJid jid2).map (·.user) := by
  unfold areJidsSameUser
  dsimp only
  rw [userEnd_eq,userEnd_eq]
  cases hsplit1 : splitJid jid1 with
  | none =>
    cases hsplit2 : splitJid jid2 with
    | none => exact ⟨fun _ => rfl,fun _ => rfl⟩
    | some decoded2 => exact ⟨fun h => (by cases h),fun h => (by cases h)⟩
  | some decoded1 =>
    cases hsplit2 : splitJid jid2 with
    | none => exact ⟨fun h => (by cases h),fun h => (by cases h)⟩
    | some decoded2 =>
      cases jid1 with
      | none => cases hsplit1
      | some jid1 =>
        cases jid2 with
        | none => cases hsplit2
        | some jid2 =>
          have htake1 := splitJid_take hsplit1
          have htake2 := splitJid_take hsplit2
          rw [Option.map_some,Option.map_some,Option.map_some,Option.map_some]
          by_cases hlength : decoded1.user.length = decoded2.user.length
          · have hno : ¬some decoded1.user.length ≠ some decoded2.user.length := not_not.mpr (congrArg some hlength)
            rw [if_neg hno]
            dsimp only [Option.getD_some]
            rw [slice,List.drop_zero,hlength,htake2,List.isPrefixOf_iff_prefix,List.prefix_iff_eq_take,← hlength,htake1,
              Option.some.injEq]
            exact eq_comm
          · have hyes : some decoded1.user.length ≠ some decoded2.user.length := fun h => hlength (Option.some.inj h)
            rw [if_pos hyes]
            exact ⟨fun h => (by cases h),fun h => absurd (congrArg List.length (Option.some.inj h)) hlength⟩

/-- A part of a text is in the text. -/
theorem mem_of_mem_firstPart {text : JsString} {u v : UInt16} (h : v ∈ firstPart u text) : v ∈ text :=
  List.mem_of_mem_take h

/-- A user has no colon, no underscore and no at sign. -/
theorem notMem_userOf {jid : JsString} {sepIdx : ℕ} (h : indexOf (unit '@') jid = some sepIdx) :
    unit '@' ∉ userOf jid sepIdx ∧ unit ':' ∉ userOf jid sepIdx ∧ unit '_' ∉ userOf jid sepIdx := by
  have hat := (indexOf_eq_some h).2
  refine ⟨fun hmem => hat (mem_of_mem_firstPart (mem_of_mem_firstPart hmem)),fun hmem => ?_,
    notMem_firstPart (unit '_') _⟩
  exact notMem_firstPart (unit ':') _ (mem_of_mem_firstPart hmem)

/-- A JID is written from its user and its server. -/
theorem jidEncode_plain (user server : JsString) : jidEncode user server none none = user++unit '@'::server := rfl

/-- A server that a JID does not end with stays as it is. -/
theorem normalServer_kept {front server : JsString} (h : ¬(ofString "@c.us").isSuffixOf (front++unit '@'::server) = true) :
    normalServer server = server := by
  unfold normalServer
  refine if_neg fun hserver => h ?_
  rw [hserver,List.isSuffixOf_iff_suffix]
  exact ⟨front,rfl⟩

/-- Normalizing a JID is writing the user and the server that splitting gives. -/
theorem jidNormalizedUser_eq (jid : Option JsString) :
    jidNormalizedUser jid = match splitJid jid with
      | none => []
      | some decoded => jidEncode decoded.user (normalServer decoded.server) none none := by
  cases jid with
  | none => rfl
  | some jid =>
    unfold jidNormalizedUser
    dsimp only
    cases hsep : indexOf (unit '@') jid with
    | none => rw [splitJid_none hsep]
    | some sepIdx =>
      obtain ⟨domainType,device,hsplit⟩ := splitJid_some hsep
      have hle := (indexOf_lt hsep).le
      rw [hsplit]
      dsimp only
      rw [slice_userEndBefore hle]
      split
      · rename_i hfast
        have huser : userOf jid sepIdx = jid.take sepIdx := by
          rw [← slice_userEndBefore hle,hfast.1,slice,List.drop_zero]
        have hwhole := (indexOf_eq_some hsep).1
        have hends := hfast.2
        rw [hwhole] at hends
        rw [huser,normalServer_kept hends,jidEncode_plain]
        exact hwhole
      · rfl

/-- A user and a server are read as they are. -/
theorem splitJid_plain {user : JsString} (hat : unit '@' ∉ user) (hcolon : unit ':' ∉ user)
    (hscore : unit '_' ∉ user) (server : JsString) :
    ∃ domainType device, splitJid (some (user++unit '@'::server)) = some ⟨server,user,domainType,device⟩ := by
  obtain ⟨domainType,device,hsplit⟩ := splitJid_some (indexOf_append hat server)
  have huser : userOf (user++unit '@'::server) user.length = user := by
    rw [userOf,List.take_left,firstPart_notMem hcolon,firstPart_notMem hscore]
  have hserver : (user++unit '@'::server).drop (user.length+1) = server := drop_behind _ _ _
  rw [huser,hserver] at hsplit
  exact ⟨domainType,device,hsplit⟩

theorem normalServer_normalServer (server : JsString) : normalServer (normalServer server) = normalServer server := by
  by_cases hserver : server = ofString "c.us"
  · rw [normalServer,normalServer,if_pos hserver]
    decide
  · rw [normalServer,normalServer,if_neg hserver,if_neg hserver]

/-- A normal form is its own normal form. -/
theorem jidNormalizedUser_idem (jid : Option JsString) :
    jidNormalizedUser (some (jidNormalizedUser jid)) = jidNormalizedUser jid := by
  have hnormal := jidNormalizedUser_eq jid
  cases jid with
  | none => rfl
  | some jid =>
    cases hsep : indexOf (unit '@') jid with
    | none =>
      rw [splitJid_none hsep] at hnormal
      rw [hnormal]
      rfl
    | some sepIdx =>
      obtain ⟨domainType,device,hsplit⟩ := splitJid_some hsep
      obtain ⟨hat,hcolon,hscore⟩ := notMem_userOf hsep
      obtain ⟨domainType',device',hagain⟩ := splitJid_plain hat hcolon hscore (normalServer (jid.drop (sepIdx+1)))
      rw [hsplit] at hnormal
      dsimp only at hnormal
      rw [hnormal,jidEncode_plain,jidNormalizedUser_eq,hagain]
      dsimp only
      rw [jidEncode_plain,normalServer_normalServer]

/-- JIDs have one normal form exactly when they have one user and their servers stand for one. -/
theorem jidNormalizedUser_eq_iff (first second : Option JsString) :
    jidNormalizedUser first = jidNormalizedUser second ↔ areJidsSameUser first second = true ∧
      (splitJid first).map (normalServer ·.server) = (splitJid second).map (normalServer ·.server) := by
  have hclean : ∀ jid decoded, splitJid jid = some decoded → unit '@' ∉ decoded.user := by
    intro jid decoded h
    cases jid with
    | none => cases h
    | some jid =>
      cases hsep : indexOf (unit '@') jid with
      | none => cases (splitJid_none hsep).symm.trans h
      | some sepIdx =>
        obtain ⟨_,_,hsplit⟩ := splitJid_some hsep
        cases hsplit.symm.trans h
        exact (notMem_userOf hsep).1
  rw [areJidsSameUser_eq,jidNormalizedUser_eq,jidNormalizedUser_eq]
  cases hfirst : splitJid first with
  | none =>
    cases splitJid second with
    | none => simp
    | some decoded => simp [jidEncode_plain]
  | some one =>
    cases hsecond : splitJid second with
    | none => simp [jidEncode_plain]
    | some other =>
      simp only [jidEncode_plain,Option.map_some,Option.some.injEq]
      constructor
      · intro heq
        have hat := congrArg (indexOf (unit '@')) heq
        rw [indexOf_append (hclean first one hfirst),indexOf_append (hclean second other hsecond)] at hat
        obtain ⟨huser,hserver⟩ := List.append_inj heq (Option.some.inj hat)
        exact ⟨huser,List.cons.inj hserver |>.2⟩
      · rintro ⟨huser,hserver⟩
        rw [huser,hserver]

/-- The fast paths are the plain definitions: decoding a JID is splitting it, comparing users is
comparing the users that splitting gives, and normalizing is writing again the user and the server
that splitting gives, which changes nothing the second time. -/
theorem jid_fast_paths :
    (∀ jid : Option JsString, jid.bind jidDecode = splitJid jid) ∧
    (∀ jid1 jid2, areJidsSameUser jid1 jid2 = true ↔ (splitJid jid1).map (·.user) = (splitJid jid2).map (·.user)) ∧
    (∀ jid, jidNormalizedUser jid = match splitJid jid with
      | none => []
      | some decoded => jidEncode decoded.user (normalServer decoded.server) none none) ∧
    ∀ jid, jidNormalizedUser (some (jidNormalizedUser jid)) = jidNormalizedUser jid :=
  ⟨jidDecode_eq,areJidsSameUser_eq,jidNormalizedUser_eq,jidNormalizedUser_idem⟩

end Decoding

end Baileyrs.SignalRouting
