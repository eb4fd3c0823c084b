import Baileyrs.AtomicStore
import Baileyrs.SnapshotFolder

/-!
# Proof of a finished rollback

A finished rollback leaves a file that names the archived snapshot and its digest. The
file is trusted only if it has exactly this form, and what a rollback writes is read
back as written.
-/

namespace Baileyrs.RollbackProof

open JsString AtomicStore SnapshotFolder

/-- Name of the proof of a snapshot. -/
def rollbackProofName (snapshotName : JsString) : JsString :=
  unit '.'::(snapshotName++ofString ".rollback-proof.json")

/-- Start of the names of archived snapshots. -/
def archiveStart (snapshotName : JsString) : JsString := snapshotName++ofString ".rollback-"

/-- Name of an archived snapshot. -/
def archiveName (snapshotName : JsString) (uuid : Uuid) : JsString :=
  archiveStart snapshotName++uuid.1

/-- A unit that cannot occur in the name of a file. -/
def isPathUnit (u : UInt16) : Bool := u = Json.backslash || u = unit '/' || u = 0

/-- A digest is written with 64 hexadecimal digits. -/
def isDigest (text : JsString) : Bool := text.length = 64 && text.all isHexDigit

/-- Whether a number literal reads as one, the nearest double of its decimal value. -/
def readsAsOne (literal : JsString) : Bool :=
  let (sign,tail) := Json.readOptional [unit '-'] literal
  let (integer,tail) := tail.span Json.isDigit
  let (point,tail) := Json.readOptional [unit '.'] tail
  let (fraction,tail) := if point = [] then ([],tail) else tail.span Json.isDigit
  let (_,tail) := Json.readOptional [unit 'e',unit 'E'] tail
  let (exponentSign,exponent) := Json.readOptional [unit '+',unit '-'] tail
  let digits := ofDigits (integer++fraction)
  let scale := if exponentSign = [unit '-'] then fraction.length+ofDigits exponent
    else fraction.length-ofDigits exponent
  let digits := if exponentSign = [unit '-'] then digits
    else digits*10^(ofDigits exponent-fraction.length)
  sign.isEmpty && (2^54-1)*10^scale ≤ 2^54*digits && 2^53*digits ≤ (2^53+1)*10^scale

/-- Members of a proof. -/
def proofMembers (archive sha256 : JsString) : List (JsString × Json) :=
  [(ofString "version",.number (ofString "1")),(ofString "archive",.string archive),
    (ofString "sha256",.string sha256)]

/-- Contents of a proof. -/
def proofBytes (archive sha256 : JsString) : Bytes :=
  encodeUtf8 (Json.stringify (.object (proofMembers archive sha256)))

/-- Archive and digest of a valid proof. -/
def readProof (snapshotName : JsString) (file : Bytes) : Option (JsString × JsString) :=
  match Json.parse (readUtf8 none file) with
  | some (.object members) =>
    match member "version" members,member "archive" members,member "sha256" members with
    | some (.number version),some (.string archive),some (.string sha256) =>
      if readsAsOne version && !archive.any isPathUnit &&
        (archiveStart snapshotName).isPrefixOf archive && isDigest sha256
      then some (archive,sha256) else none
    | _,_,_ => none
  | _ => none

/-- A written string is read as the value it is. -/
theorem readValue_quote (n : ℕ) (text tail : JsString) :
    Json.readValue (n+1) (Json.quote text++tail) = some (.string text,tail) := by
  have hread := Json.readString_escapeAll text tail
  rw [Json.quote,List.cons_append,List.append_assoc,List.singleton_append,Json.readValue,
    Json.skipBlanks_head (.inl rfl)]
  dsimp only
  rw [if_pos rfl,hread]
  rfl

/-- The version is read as the number it is. -/
theorem readValue_one (n : ℕ) (tail : JsString) :
    Json.readValue (n+1) (ofString "1"++unit ','::tail) =
      some (.number (ofString "1"),unit ','::tail) := by
  rfl

/-- A member is read before what follows it. -/
theorem readMembers_member {n : ℕ} {members : List (JsString × Json)} {name written : JsString}
    {value : Json} {tail : JsString}
    (hvalue : Json.readValue n (written++tail) = some (value,tail)) :
    Json.readMembers (n+1) members (Json.quote name++unit ':'::(written++tail)) =
      match Json.readSeparator Json.closeBrace tail with
      | .comma rest => Json.readMembers n (Json.setMember members name value) rest
      | .closing rest => some (Json.setMember members name value,rest)
      | .none => none := by
  have hname := Json.readString_escapeAll name (unit ':'::(written++tail))
  have hcolon : Json.skipBlanks (unit ':'::(written++tail)) = unit ':'::(written++tail) := rfl
  rw [Json.quote,List.cons_append,List.append_assoc,List.singleton_append,Json.readMembers,
    Json.skipBlanks_head (.inl rfl)]
  dsimp only
  rw [if_pos rfl,hname]
  dsimp only
  rw [hcolon]
  dsimp only
  refine (if_pos rfl).trans ?_
  cases hseparator : Json.readSeparator Json.closeBrace tail <;> simp only [hvalue,hseparator]

/-- Text of a proof after its opening brace. -/
theorem stringify_proofMembers (archive sha256 : JsString) :
    Json.stringify (.object (proofMembers archive sha256)) = Json.openBrace::
      (Json.quote (ofString "version")++unit ':'::(ofString "1"++unit ','::
        (Json.quote (ofString "archive")++unit ':'::(Json.quote archive++unit ','::
          (Json.quote (ofString "sha256")++unit ':'::(Json.quote sha256++[Json.closeBrace])))))) := by
  simp [Json.stringify,Json.stringifyMembers,proofMembers]

/-- A written proof parses as its members. -/
theorem parse_proofMembers (archive sha256 : JsString) :
    Json.parse (Json.stringify (.object (proofMembers archive sha256))) =
      some (.object (proofMembers archive sha256)) := by
  have hsha : ∀ n members, Json.readMembers (n+2) members
      (Json.quote (ofString "sha256")++unit ':'::(Json.quote sha256++[Json.closeBrace])) =
      some (Json.setMember members (ofString "sha256") (.string sha256),[]) := by
    intro n members
    rw [readMembers_member (readValue_quote n sha256 [Json.closeBrace])]
    rfl
  have harchive : ∀ n members, Json.readMembers (n+3) members
      (Json.quote (ofString "archive")++unit ':'::(Json.quote archive++unit ','::
        (Json.quote (ofString "sha256")++unit ':'::(Json.quote sha256++[Json.closeBrace])))) =
      some (Json.setMember (Json.setMember members (ofString "archive") (.string archive))
        (ofString "sha256") (.string sha256),[]) := by
    intro n members
    rw [readMembers_member (readValue_quote (n+1) archive _),Json.readSeparator_comma]
    exact hsha n _
  have hversion : ∀ n, Json.readMembers (n+4) []
      (Json.quote (ofString "version")++unit ':'::(ofString "1"++unit ','::
        (Json.quote (ofString "archive")++unit ':'::(Json.quote archive++unit ','::
          (Json.quote (ofString "sha256")++unit ':'::(Json.quote sha256++[Json.closeBrace])))))) =
      some (proofMembers archive sha256,[]) := by
    intro n
    rw [readMembers_member (readValue_one (n+2) _),Json.readSeparator_comma]
    exact harchive n _
  have hlength : ∃ n, (Json.stringify (.object (proofMembers archive sha256))).length = n+4 := by
    rw [stringify_proofMembers]
    exact ⟨_,rfl⟩
  rcases hlength with ⟨n,hlength⟩
  have hread : Json.readValue (n+5) (Json.stringify (.object (proofMembers archive sha256))) =
      some (.object (proofMembers archive sha256),[]) := by
    rw [stringify_proofMembers]
    have hmembers := hversion n
    rw [Json.quote,List.cons_append] at hmembers
    rw [Json.quote,List.cons_append,Json.readValue]
    have hbrace : ∀ rest, Json.skipBlanks (Json.openBrace::rest) = Json.openBrace::rest :=
      fun _ => rfl
    rw [hbrace]
    dsimp only
    rw [if_neg (by decide),if_neg (by decide),if_pos rfl,Json.skipBlanks_head (.inl rfl)]
    dsimp only
    rw [if_neg (by decide),hmembers]
    rfl
  rw [Json.parse,hlength,hread]
  rfl

/-- A written proof is paired. -/
theorem paired_proofMembers (archive sha256 : JsString) :
    Paired (Json.stringify (.object (proofMembers archive sha256))) := by
  have hplain : ∀ text : JsString, text.all (fun u => !isSurrogate u) = true → Paired text := by
    intro text htext
    induction text with
    | nil => exact .nil
    | cons u rest ih =>
      simp only [List.all_cons,Bool.and_eq_true,Bool.not_eq_true'] at htext
      exact .single u rest htext.1 (ih (by simpa using htext.2))
  have hquote : ∀ text, Paired (Json.quote text) := by
    intro text
    refine .single Json.quotation _ (by decide) ?_
    exact (Json.paired_escapeAll text).append (hplain _ (by decide))
  have hunit : ∀ u text, isSurrogate u = false → Paired text → Paired (u::text) :=
    fun u text hu htext => .single u text hu htext
  rw [stringify_proofMembers]
  refine hunit _ _ (by decide) ((hquote _).append (hunit _ _ (by decide) ?_))
  refine (hplain (ofString "1") (by decide)).append (hunit _ _ (by decide) ?_)
  refine (hquote _).append (hunit _ _ (by decide) ?_)
  refine (hquote _).append (hunit _ _ (by decide) ?_)
  refine (hquote _).append (hunit _ _ (by decide) ?_)
  exact (hquote _).append (hplain _ (by decide))

/-- The name of an archive has no separator, if the name of the snapshot has none. -/
theorem any_archiveName {snapshotName : JsString} (hname : snapshotName.any isPathUnit = false)
    (uuid : Uuid) : (archiveName snapshotName uuid).any isPathUnit = false := by
  have huuid : uuid.1.any isPathUnit = false := by
    rw [List.any_eq_false]
    intro u hu hpath
    have hunit := List.all_eq_true.mp uuid.2 u hu
    simp only [isPathUnit,Bool.or_eq_true,decide_eq_true_eq] at hpath
    rcases hpath with (rfl | rfl) | rfl <;> revert hunit <;> decide
  rw [archiveName,archiveStart,List.any_append,List.any_append,hname,huuid]
  decide

/-- A proof is read back as it was written. -/
theorem readProof_proofBytes {snapshotName sha256 : JsString}
    (hname : snapshotName.any isPathUnit = false) (hsha : isDigest sha256 = true) (uuid : Uuid) :
    readProof snapshotName (proofBytes (archiveName snapshotName uuid) sha256) =
      some (archiveName snapshotName uuid,sha256) := by
  have hread := readUtf8_encodeUtf8
    (paired_proofMembers (archiveName snapshotName uuid) sha256) []
  rw [List.append_nil,readUtf8,List.append_nil] at hread
  have hstart : (archiveStart snapshotName).isPrefixOf (archiveName snapshotName uuid) = true :=
    List.isPrefixOf_iff_prefix.mpr (List.prefix_append _ _)
  have hone : readsAsOne (ofString "1") = true := by decide
  have hmembers : member "version" (proofMembers (archiveName snapshotName uuid) sha256) =
      some (.number (ofString "1")) ∧
      member "archive" (proofMembers (archiveName snapshotName uuid) sha256) =
        some (.string (archiveName snapshotName uuid)) ∧
      member "sha256" (proofMembers (archiveName snapshotName uuid) sha256) =
        some (.string sha256) := ⟨rfl,rfl,rfl⟩
  rw [readProof,proofBytes,hread,parse_proofMembers]
  dsimp only
  rw [hmembers.1,hmembers.2.1,hmembers.2.2]
  dsimp only
  rw [any_archiveName hname,hstart,hsha,hone]
  rfl

end Baileyrs.RollbackProof
