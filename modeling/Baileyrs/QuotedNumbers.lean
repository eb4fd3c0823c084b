import Baileyrs.AtomicStore
import Baileyrs.JsonText
import Mathlib.Data.List.TakeDrop
import Mathlib.Data.List.TakeWhile

/-!
# Quoting the numbers of a text

Before a token row is parsed a second time, the numbers outside its strings are
quoted. Whatever parses as a value, with any blanks, escapes and names, parses as
the same value with its numbers as strings once they are quoted: where the parser
reads a string or a number, the pattern matches exactly that string or number.
-/

namespace Baileyrs.AtomicStore

open JsString
open Json (isDigit_ne skipBlanks_plain)

section Strings

/-- Put a part in front of a matched token. -/
def putFront (part : JsString) (read : Option (JsString × JsString)) : Option (JsString × JsString) :=
  read.map fun read => (part++read.1,read.2)

theorem matchString_quotation (rest : JsString) :
    matchString (Json.quotation::rest) = some ([Json.quotation],rest) := by
  cases rest with
  | nil => exact if_pos rfl
  | cons v rest => exact if_pos rfl

/-- A code unit without a meaning of its own is matched as itself. -/
theorem matchString_plain {u : UInt16} (hquote : u ≠ Json.quotation) (hback : u ≠ Json.backslash)
    {rest : JsString} (hrest : rest ≠ []) : matchString (u::rest) = putFront [u] (matchString rest) := by
  cases rest with
  | nil => exact absurd rfl hrest
  | cons v rest =>
    rw [matchString,if_neg hquote,if_neg hback]
    rfl

/-- A backslash takes the next code unit with it. -/
theorem matchString_backslash {v : UInt16} (hv : v.toNat < 8232) (h10 : v ≠ 10) (h13 : v ≠ 13)
    (rest : JsString) : matchString (Json.backslash::v::rest) =
      putFront [Json.backslash,v] (matchString rest) := by
  have hquote : Json.backslash ≠ Json.quotation := by decide
  have hline : ¬(v = 10 ∨ v = 13 ∨ v = 8232 ∨ v = 8233) := by
    rintro (h | h | rfl | rfl)
    · exact h10 h
    · exact h13 h
    · revert hv
      decide
    · revert hv
      decide
  rw [matchString,if_neg hquote,if_pos rfl,if_neg hline]
  rfl

/-- A part of a text that is read and matched as a string, up to the quotation mark
it ends with. -/
structure StringPart (text result tail : JsString) (part : JsString) : Prop where
  /-- It comes first. -/
  starts : text = part++tail
  /-- It is matched whole. -/
  matched : matchString text = some (part,tail)
  /-- It is read alike before any rest. -/
  read : ∀ rest, Json.readString (part++rest) = some (result,rest)

/-- A code unit in front of a part. -/
theorem StringPart.plain {text result tail part : JsString} (h : StringPart text result tail part)
    {u : UInt16} (hquote : u ≠ Json.quotation) (hback : u ≠ Json.backslash) (hcontrol : ¬u.toNat < 32) :
    StringPart (u::text) (u::result) tail (u::part) := by
  have hne : text ≠ [] := by
    intro hnil
    have hread := h.matched
    rw [hnil] at hread
    cases hread
  refine ⟨by rw [h.starts,List.cons_append],?_,fun rest => ?_⟩
  · rw [matchString_plain hquote hback hne,h.matched]
    rfl
  · rw [List.cons_append,Json.readString.eq_def]
    dsimp only
    rw [if_neg hquote,if_neg hback,if_neg hcontrol,h.read rest]
    rfl

/-- An escaped code unit in front of a part. -/
theorem StringPart.escaped {text result tail part : JsString} (h : StringPart text result tail part)
    {e v : UInt16} (hunescape : Json.unescape e = some v) :
    StringPart (Json.backslash::e::text) (v::result) tail (Json.backslash::e::part) := by
  have hback : Json.backslash ≠ Json.quotation := by decide
  have he : e.toNat < 8232 ∧ e ≠ 10 ∧ e ≠ 13 ∧ e ≠ unit 'u' := by
    unfold Json.unescape at hunescape
    split_ifs at hunescape with h1 h2 h3 h4 h5 h6
    · rcases h1 with rfl | rfl | rfl
      · decide
      · decide
      · decide
    · exact h2 ▸ by decide
    · exact h3 ▸ by decide
    · exact h4 ▸ by decide
    · exact h5 ▸ by decide
    · exact h6 ▸ by decide
  refine ⟨by rw [h.starts,List.cons_append,List.cons_append],?_,fun rest => ?_⟩
  · rw [matchString_backslash he.1 he.2.1 he.2.2.1,h.matched]
    rfl
  · rw [List.cons_append,List.cons_append,Json.readString.eq_def]
    dsimp only
    rw [if_neg hback,if_pos rfl,if_neg he.2.2.2,hunescape,h.read rest]
    rfl

/-- A hexadecimal digit has no meaning of its own in a string. -/
theorem hexValue_plain {u : UInt16} {n : ℕ} (h : Json.hexValue u = some n) :
    u ≠ Json.quotation ∧ u ≠ Json.backslash := by
  constructor
  · rintro rfl
    revert h
    decide +revert
  · rintro rfl
    revert h
    decide +revert

/-- A hexadecimal escape in front of a part. -/
theorem StringPart.hex {text result tail part : JsString} (h : StringPart text result tail part)
    {a b c d v : UInt16} (hunit : Json.hexUnit a b c d = some v) :
    StringPart (Json.backslash::unit 'u'::a::b::c::d::text) (v::result) tail
      (Json.backslash::unit 'u'::a::b::c::d::part) := by
  have hback : Json.backslash ≠ Json.quotation := by decide
  have hne : text ≠ [] := by
    intro hnil
    have hread := h.matched
    rw [hnil] at hread
    cases hread
  have hdigits : (∃ n, Json.hexValue a = some n) ∧ (∃ n, Json.hexValue b = some n) ∧
      (∃ n, Json.hexValue c = some n) ∧ ∃ n, Json.hexValue d = some n := by
    unfold Json.hexUnit at hunit
    split at hunit
    · exact ⟨⟨_,‹_›⟩,⟨_,‹_›⟩,⟨_,‹_›⟩,⟨_,‹_›⟩⟩
    · cases hunit
  obtain ⟨⟨_,ha⟩,⟨_,hb⟩,⟨_,hc⟩,⟨_,hd⟩⟩ := hdigits
  refine ⟨by rw [h.starts]; rfl,?_,fun rest => ?_⟩
  · rw [matchString_backslash (v := unit 'u') (by decide) (by decide) (by decide),
      matchString_plain (hexValue_plain ha).1 (hexValue_plain ha).2 (List.cons_ne_nil _ _),
      matchString_plain (hexValue_plain hb).1 (hexValue_plain hb).2 (List.cons_ne_nil _ _),
      matchString_plain (hexValue_plain hc).1 (hexValue_plain hc).2 (List.cons_ne_nil _ _),
      matchString_plain (hexValue_plain hd).1 (hexValue_plain hd).2 hne,h.matched]
    rfl
  · simp only [List.cons_append]
    rw [Json.readString.eq_def]
    dsimp only
    rw [if_neg hback,if_pos rfl,if_pos rfl,hunit,h.read rest]
    rfl

theorem prepend_ok {u : UInt16} {read : Option (JsString × JsString)} {result tail : JsString}
    (h : Json.prepend u read = some (result,tail)) : ∃ more, result = u::more ∧ read = some (more,tail) := by
  cases read with
  | none => cases h
  | some read =>
    obtain ⟨more,rest⟩ := read
    cases h
    exact ⟨more,rfl,rfl⟩

/-- What is read as a string is matched as one. -/
theorem readString_part (n : ℕ) {text result tail : JsString} (hn : text.length < n)
    (h : Json.readString text = some (result,tail)) : ∃ part, StringPart text result tail part := by
  induction n generalizing text result with
  | zero => omega
  | succ n ih =>
    cases text with
    | nil => cases h
    | cons u rest =>
      rw [Json.readString.eq_def] at h
      dsimp only at h
      split at h
      · rename_i hquote
        cases h
        subst hquote
        exact ⟨[Json.quotation],rfl,matchString_quotation _,Json.readString_closing⟩
      · rename_i hquote
        split at h
        · rename_i hback
          subst hback
          split at h
          · cases h
          · rename_i e rest
            split at h
            · rename_i hu
              subst hu
              split at h
              · rename_i a b c d rest
                split at h
                · rename_i v hunit
                  obtain ⟨more,rfl,hread⟩ := prepend_ok h
                  obtain ⟨part,hpart⟩ := ih (by simp only [List.length_cons] at hn; omega) hread
                  exact ⟨_,hpart.hex hunit⟩
                · cases h
              · cases h
            · split at h
              · rename_i v hunescape
                obtain ⟨more,rfl,hread⟩ := prepend_ok h
                obtain ⟨part,hpart⟩ := ih (by simp only [List.length_cons] at hn; omega) hread
                exact ⟨_,hpart.escaped hunescape⟩
              · cases h
        · rename_i hback
          split at h
          · cases h
          · rename_i hcontrol
            obtain ⟨more,rfl,hread⟩ := prepend_ok h
            obtain ⟨part,hpart⟩ := ih (by simp only [List.length_cons] at hn; omega) hread
            exact ⟨_,hpart.plain hquote hback hcontrol⟩

end Strings

section Numbers

/-- Nothing that continues a number follows. -/
def Stops (tail : JsString) : Prop :=
  ∀ u, tail.head? = some u → Json.isDigit u = false ∧ u ≠ unit '.' ∧ u ≠ unit 'e' ∧ u ≠ unit 'E'

theorem readOptional_parts (accepted : List UInt16) (text : JsString) :
    text = (Json.readOptional accepted text).1++(Json.readOptional accepted text).2 ∧
      ∀ u, (Json.readOptional accepted text).1.head? = some u → u ∈ accepted := by
  cases text with
  | nil => exact ⟨rfl,fun u hu => by cases hu⟩
  | cons v rest =>
    rw [Json.readOptional]
    split
    · rename_i hin
      refine ⟨rfl,fun u hu => ?_⟩
      cases hu
      exact List.contains_iff_mem.mp hin
    · exact ⟨rfl,fun u hu => by cases hu⟩

theorem readDigits_parts {text digits tail : JsString} (h : Json.readDigits text = some (digits,tail)) :
    text = digits++tail ∧ digits ≠ [] := by
  unfold Json.readDigits at h
  rw [List.span_eq_takeWhile_dropWhile] at h
  split at h
  · cases h
  · rename_i found rest hne hspan
    cases h
    cases hspan
    exact ⟨List.takeWhile_append_dropWhile.symm,hne⟩

theorem readDigits_digits {text digits tail : JsString} (h : Json.readDigits text = some (digits,tail)) :
    ∀ u ∈ digits, Json.isDigit u = true := by
  unfold Json.readDigits at h
  rw [List.span_eq_takeWhile_dropWhile] at h
  split at h
  · cases h
  · rename_i found rest hne hspan
    cases h
    cases hspan
    exact fun u hu => List.mem_takeWhile_imp hu

/-- A part is empty or begins as it has to. -/
theorem readPart_parts {starts signs : List UInt16} {text part tail : JsString}
    (h : Json.readPart starts signs text = some (part,tail)) :
    text = part++tail ∧ (part = [] ∨ ∃ u ∈ starts, part.head? = some u) := by
  have hoptional := readOptional_parts starts text
  unfold Json.readPart at h
  split at h
  · rename_i rest hread
    cases h
    rw [hread] at hoptional
    exact ⟨hoptional.1,.inl rfl⟩
  · rename_i start rest hne hread
    rw [hread] at hoptional
    have hsign := readOptional_parts signs rest
    dsimp only at h
    obtain ⟨⟨digits,after⟩,hdigits,hresult⟩ := Option.bind_eq_some_iff.mp h
    have hrest := (readDigits_parts hdigits).1
    dsimp only at hresult
    cases hresult
    have htext : text = start++((Json.readOptional signs rest).1++(digits++tail)) := by
      rw [← hrest,← hsign.1]
      exact hoptional.1
    refine ⟨by rw [htext]; simp only [List.append_assoc],.inr ?_⟩
    cases start with
    | nil => exact absurd rfl hne
    | cons u more => exact ⟨u,hoptional.2 u rfl,rfl⟩

/-- What stops a number stops it after a part that does not begin with a digit. -/
theorem isDigit_head {part tail : JsString} {starts : List UInt16}
    (hpart : part = [] ∨ ∃ u ∈ starts, part.head? = some u) (hstarts : starts.any Json.isDigit = false)
    (htail : ∀ u, tail.head? = some u → Json.isDigit u = false) :
    ∀ u, (part++tail).head? = some u → Json.isDigit u = false := by
  intro u hu
  rcases hpart with rfl | ⟨v,hv,hhead⟩
  · exact htail u hu
  · rw [List.head?_append,hhead] at hu
    have hsame : v = u := Option.some.inj hu
    have hnone := List.any_eq_false.mp hstarts v hv
    exact hsame ▸ Bool.not_eq_true _ ▸ hnone

/-- A number that is read up to where it stops is matched whole. -/
theorem matchNumber_of_read {text literal tail : JsString} (h : Json.readNumber text = some (literal,tail))
    (hstops : Stops tail) : matchNumber text = some (literal,tail) ∧ text = literal++tail ∧
      ∃ u rest, literal = u::rest ∧ (u = unit '-' ∨ Json.isDigit u = true) := by
  have hsign := readOptional_parts [unit '-'] text
  unfold Json.readNumber at h
  unfold matchNumber
  generalize Json.readOptional [unit '-'] text = split at h hsign ⊢
  obtain ⟨sign,unsigned⟩ := split
  dsimp only at h hsign ⊢
  obtain ⟨⟨integer,afterInteger⟩,hinteger,h⟩ := Option.bind_eq_some_iff.mp h
  obtain ⟨⟨fraction,afterFraction⟩,hfraction,h⟩ := Option.bind_eq_some_iff.mp h
  obtain ⟨⟨exponent,afterExponent⟩,hexponent,h⟩ := Option.bind_eq_some_iff.mp h
  dsimp only at hfraction hexponent h
  rw [Option.some.injEq,Prod.mk.injEq] at h
  obtain ⟨rfl,rfl⟩ := h
  have hfractionParts := readPart_parts hfraction
  have hexponentParts := readPart_parts hexponent
  have hnoDigit : ∀ u, afterInteger.head? = some u → Json.isDigit u = false := by
    rw [hfractionParts.1,hexponentParts.1]
    exact isDigit_head hfractionParts.2 (by decide)
      (isDigit_head hexponentParts.2 (by decide) fun u hu => (hstops u hu).1)
  have hdigits : Json.readDigits unsigned = some (integer,afterInteger) := by
    cases unsigned with
    | nil => cases hinteger
    | cons u rest =>
      rw [Json.readInteger] at hinteger
      split at hinteger
      · rename_i hzero
        cases hinteger
        have htake : afterInteger.takeWhile Json.isDigit = [] ∧
            afterInteger.dropWhile Json.isDigit = afterInteger := by
          cases afterInteger with
          | nil => exact ⟨rfl,rfl⟩
          | cons v more =>
            have hv := hnoDigit v rfl
            exact ⟨by rw [List.takeWhile_cons,hv]; rfl,by rw [List.dropWhile_cons,hv]; rfl⟩
        have hdigit : Json.isDigit u = true := by
          rw [hzero]
          rfl
        unfold Json.readDigits
        rw [List.span_eq_takeWhile_dropWhile,List.takeWhile_cons,List.dropWhile_cons,hdigit,if_pos rfl,
          if_pos rfl,htake.1,htake.2]
      · exact hinteger
  have hwhole := readDigits_parts hdigits
  refine ⟨?_,?_,?_⟩
  · rw [hdigits]
    dsimp only [bind,Option.bind]
    rw [hfraction]
    dsimp only [Option.getD]
    rw [hexponent]
  · have htext : text = sign++(integer++(fraction++(exponent++afterExponent))) := by
      rw [← hexponentParts.1,← hfractionParts.1,← hwhole.1]
      exact hsign.1
    simp only [List.append_assoc]
    exact htext
  · cases sign with
    | cons u rest =>
      have hu := hsign.2 u rfl
      exact ⟨u,_,rfl,.inl (List.mem_singleton.mp hu)⟩
    | nil =>
      cases integer with
      | nil => exact absurd rfl hwhole.2
      | cons u rest => exact ⟨u,_,rfl,.inr (readDigits_digits hdigits u List.mem_cons_self)⟩

end Numbers

mutual

/-- A value with its numbers as strings. -/
def quoted : Json → Json
  | .number literal => .string literal
  | .array items => .array (quotedItems items)
  | .object members => .object (quotedMembers members)
  | value => value

/-- Items with their numbers as strings. -/
def quotedItems : List Json → List Json
  | [] => []
  | item::rest => quoted item::quotedItems rest

/-- Members with their numbers as strings. -/
def quotedMembers : List (JsString × Json) → List (JsString × Json)
  | [] => []
  | (name,value)::rest => (name,quoted value)::quotedMembers rest

end

theorem quotedItems_eq (items : List Json) : quotedItems items = items.map quoted := by
  induction items with
  | nil => rfl
  | cons item rest ih => rw [quotedItems,ih,List.map_cons]

theorem quotedMembers_eq (members : List (JsString × Json)) :
    quotedMembers members = members.map fun member => (member.1,quoted member.2) := by
  induction members with
  | nil => rfl
  | cons member rest ih => rw [quotedMembers,ih,List.map_cons]

/-- A member that is set holds the quoted value. -/
theorem quotedMembers_setMember (members : List (JsString × Json)) (name : JsString) (value : Json) :
    quotedMembers (Json.setMember members name value) = Json.setMember (quotedMembers members) name (quoted value) := by
  induction members with
  | nil => rfl
  | cons entry rest ih =>
    obtain ⟨other,old⟩ := entry
    rw [Json.setMember,quotedMembers,Json.setMember]
    split
    · rw [quotedMembers]
    · rw [quotedMembers,ih]

section Quoting

/-- Up to a tail, quoting the numbers of a text writes another text, no shorter. -/
structure Requotes (text tail last : JsString) : Prop where
  /-- What is written is no shorter. -/
  longer : text.length ≤ last.length+tail.length
  /-- The tail is quoted after it. -/
  written : ∀ n, text.length ≤ n → ∃ k, tail.length ≤ k ∧ quoteNumbers n text = last++quoteNumbers k tail

theorem Requotes.nil (text : JsString) : Requotes text text [] :=
  ⟨Nat.le_add_left _ _,fun n hn => ⟨n,hn,rfl⟩⟩

/-- One part after the other. -/
theorem Requotes.append {text middle tail first second : JsString} (h : Requotes text middle first)
    (hrest : Requotes middle tail second) : Requotes text tail (first++second) := by
  refine ⟨?_,fun n hn => ?_⟩
  · have hfirst := h.longer
    have hsecond := hrest.longer
    rw [List.length_append]
    omega
  · obtain ⟨k,hk,heq⟩ := h.written n hn
    obtain ⟨m,hm,hmore⟩ := hrest.written k hk
    exact ⟨m,hm,by rw [heq,hmore,List.append_assoc]⟩

/-- What is neither a quotation mark nor the start of a number is copied. -/
theorem Requotes.plain {u : UInt16} (hquote : u ≠ Json.quotation) (hminus : u ≠ unit '-')
    (hdigit : Json.isDigit u = false) (tail : JsString) : Requotes (u::tail) tail [u] := by
  have hnumber : matchNumber (u::tail) = none := by
    have hno : [unit '-'].contains u = false := by
      rw [Bool.eq_false_iff]
      exact fun hin => hminus (List.mem_singleton.mp (List.contains_iff_mem.mp hin))
    have hread : Json.readDigits (u::tail) = none := by
      unfold Json.readDigits
      rw [List.span_eq_takeWhile_dropWhile,List.takeWhile_cons,hdigit]
      rfl
    rw [matchNumber,Json.readOptional,hno]
    dsimp only [bind,Option.bind]
    rw [if_neg Bool.false_ne_true,hread]
  refine ⟨by rw [List.length_cons,List.length_singleton]; omega,fun n hn => ?_⟩
  cases n with
  | zero => exact absurd hn (Nat.not_succ_le_zero _)
  | succ n =>
    refine ⟨n,Nat.le_of_succ_le_succ hn,?_⟩
    rw [quoteNumbers,if_neg hquote,hnumber]
    rfl

/-- Code units that cannot start a token are copied. -/
theorem Requotes.plains {part : JsString} (h : ∀ u ∈ part, u ≠ Json.quotation ∧ u ≠ unit '-' ∧
    Json.isDigit u = false) (tail : JsString) : Requotes (part++tail) tail part := by
  induction part with
  | nil => exact .nil tail
  | cons u rest ih =>
    have hu := h u List.mem_cons_self
    have hrest := ih fun v hv => h v (List.mem_cons_of_mem _ hv)
    exact (Requotes.plain hu.1 hu.2.1 hu.2.2 (rest++tail)).append hrest

/-- A string is copied. -/
theorem Requotes.string {text result tail part : JsString} (h : StringPart text result tail part) :
    Requotes (Json.quotation::text) tail (Json.quotation::part) := by
  have hlength := congrArg List.length h.starts
  rw [List.length_append] at hlength
  refine ⟨by simp only [List.length_cons]; omega,fun n hn => ?_⟩
  cases n with
  | zero => exact absurd hn (Nat.not_succ_le_zero _)
  | succ n =>
    have hn := Nat.le_of_succ_le_succ hn
    refine ⟨n,by omega,?_⟩
    rw [quoteNumbers,if_pos rfl,h.matched]
    rfl

/-- A string is no shorter when it is written. -/
theorem length_quote (text : JsString) : text.length ≤ (Json.quote text).length := by
  have hescape : ∀ u : UInt16, 1 ≤ (Json.escape u).length := by
    intro u
    unfold Json.escape
    split_ifs <;> exact Nat.le_add_left _ _
  have hcontents : text.length ≤ (Json.escapeAll text).length := by
    induction text using Json.escapeAll.induct with
    | case1 => exact Nat.zero_le _
    | case2 u => exact hescape u
    | case3 u v tail hpair ih =>
      rw [Json.escapeAll,if_pos hpair]
      simp only [List.length_cons]
      omega
    | case4 u v tail hpair ih =>
      have hu := hescape u
      rw [Json.escapeAll,if_neg hpair,List.length_append]
      simp only [List.length_cons] at ih ⊢
      omega
  rw [Json.quote,List.length_cons,List.length_append]
  omega

/-- A number is quoted. -/
theorem Requotes.number {text literal tail : JsString} (h : Json.readNumber text = some (literal,tail))
    (hstops : Stops tail) : Requotes text tail (Json.quote literal) := by
  obtain ⟨hmatch,rfl,u,rest,rfl,hhead⟩ := matchNumber_of_read h hstops
  have hquote : u ≠ Json.quotation := by
    rcases hhead with rfl | hdigit
    · decide
    · exact isDigit_ne hdigit rfl
  refine ⟨?_,fun n hn => ?_⟩
  · rw [List.length_append]
    exact Nat.add_le_add_right (length_quote _) _
  · rw [List.cons_append] at hn hmatch ⊢
    cases n with
    | zero => exact absurd hn (Nat.not_succ_le_zero _)
    | succ n =>
      refine ⟨n,?_,?_⟩
      · simp only [List.length_cons,List.length_append] at hn
        omega
      · rw [quoteNumbers,if_neg hquote,hmatch]

/-- A blank cannot start a token. -/
theorem isBlank_plain {u : UInt16} (h : Json.isBlank u = true) :
    u ≠ Json.quotation ∧ u ≠ unit '-' ∧ Json.isDigit u = false := by
  unfold Json.isBlank at h
  simp only [Bool.or_eq_true,decide_eq_true_eq] at h
  rcases h with ((rfl | rfl) | rfl) | rfl
  · decide
  · decide
  · decide
  · decide

/-- Blanks are split off and skipped before any rest. -/
theorem skipBlanks_parts (text : JsString) : ∃ blanks, text = blanks++Json.skipBlanks text ∧
    (∀ u ∈ blanks, Json.isBlank u = true) ∧ ∀ rest, Json.skipBlanks (blanks++rest) = Json.skipBlanks rest := by
  induction text with
  | nil => exact ⟨[],rfl,List.forall_mem_nil _,fun rest => rfl⟩
  | cons v rest ih =>
    obtain ⟨blanks,heq,hblanks,hskip⟩ := ih
    by_cases hv : Json.isBlank v = true
    · refine ⟨v::blanks,?_,?_,fun rest => ?_⟩
      · rw [Json.skipBlanks,if_pos hv,List.cons_append,← heq]
      · intro u hu
        rcases List.mem_cons.mp hu with rfl | hu
        · exact hv
        · exact hblanks u hu
      · rw [List.cons_append,Json.skipBlanks,if_pos hv,hskip]
    · exact ⟨[],by rw [Json.skipBlanks,if_neg hv]; rfl,List.forall_mem_nil _,fun rest => rfl⟩

/-- Blanks are copied. -/
theorem Requotes.blanks (text : JsString) : ∃ blanks, Requotes text (Json.skipBlanks text) blanks ∧
    ∀ rest, Json.skipBlanks (blanks++rest) = Json.skipBlanks rest := by
  obtain ⟨blanks,heq,hblanks,hskip⟩ := skipBlanks_parts text
  have hcopied := Requotes.plains (fun u hu => isBlank_plain (hblanks u hu)) (Json.skipBlanks text)
  rw [← heq] at hcopied
  exact ⟨blanks,hcopied,hskip⟩

/-- What a word is read from starts with the word. -/
theorem readWord_parts {word : String} {value found : Json} {text tail : JsString}
    (h : Json.readWord word value text = some (found,tail)) : found = value ∧ text = ofString word++tail ∧
      ∀ rest, Json.readWord word value (ofString word++rest) = some (value,rest) := by
  have hall : ∀ rest, Json.readWord word value (ofString word++rest) = some (value,rest) := by
    intro rest
    have hprefix : (ofString word).isPrefixOf (ofString word++rest) = true :=
      List.isPrefixOf_iff_prefix.mpr (List.prefix_append _ _)
    rw [Json.readWord,if_pos hprefix,List.drop_left]
  rw [Json.readWord] at h
  split at h
  · rename_i hprefix
    cases h
    have hstart := List.prefix_iff_eq_append.mp (List.isPrefixOf_iff_prefix.mp hprefix)
    exact ⟨rfl,hstart.symm,hall⟩
  · cases h

theorem skipBlanks_skipBlanks (text : JsString) : Json.skipBlanks (Json.skipBlanks text) = Json.skipBlanks text := by
  induction text with
  | nil => rfl
  | cons u rest ih =>
    by_cases hu : Json.isBlank u = true
    · rw [Json.skipBlanks,if_pos hu,ih]
    · rw [Json.skipBlanks,if_neg hu,Json.skipBlanks,if_neg hu]

/-- A code unit that cannot start a token is copied with the blanks before it. -/
theorem Requotes.token {u : UInt16} (hquote : u ≠ Json.quotation) (hminus : u ≠ unit '-')
    (hdigit : Json.isDigit u = false) {text rest : JsString} (h : Json.skipBlanks text = u::rest) :
    ∃ last, Requotes text rest last ∧ ∀ after, Json.skipBlanks (last++after) = u::after := by
  obtain ⟨blanks,hcopied,hskip⟩ := Requotes.blanks text
  have hagain := skipBlanks_skipBlanks text
  have hblank : Json.isBlank u = false := by
    rw [Bool.eq_false_iff]
    intro hu
    rw [h,Json.skipBlanks,if_pos hu] at hagain
    obtain ⟨front,hfront,_⟩ := skipBlanks_parts rest
    have hlength := congrArg List.length hfront
    rw [hagain,List.length_append,List.length_cons] at hlength
    omega
  rw [h] at hcopied
  refine ⟨blanks++[u],hcopied.append (.plain hquote hminus hdigit rest),fun after => ?_⟩
  rw [List.append_assoc,hskip]
  exact skipBlanks_plain hblank after

/-- What stops a number after blanks stops it with them. -/
theorem stops_of_skipBlanks {text : JsString} (h : Stops (Json.skipBlanks text)) : Stops text := by
  cases text with
  | nil => exact h
  | cons v rest =>
    by_cases hv : Json.isBlank v = true
    · intro u hu
      cases hu
      unfold Json.isBlank at hv
      simp only [Bool.or_eq_true,decide_eq_true_eq] at hv
      rcases hv with ((rfl | rfl) | rfl) | rfl
      · decide
      · decide
      · decide
      · decide
    · rw [Json.skipBlanks,if_neg hv] at h
      exact h

/-- Blanks do not matter before an item. -/
theorem readItems_skipBlanks (n : ℕ) (text : JsString) :
    Json.readItems n (Json.skipBlanks text) = Json.readItems n text := by
  have hvalue : ∀ n, Json.readValue n (Json.skipBlanks text) = Json.readValue n text := by
    intro n
    cases n with
    | zero => rw [Json.readValue,Json.readValue]
    | succ n => rw [Json.readValue,Json.readValue,skipBlanks_skipBlanks]
  cases n with
  | zero => rw [Json.readItems,Json.readItems]
  | succ n => rw [Json.readItems,Json.readItems,hvalue]

/-- Nor before a member. -/
theorem readMembers_skipBlanks (n : ℕ) (members : List (JsString × Json)) (text : JsString) :
    Json.readMembers n members (Json.skipBlanks text) = Json.readMembers n members text := by
  cases n with
  | zero => rw [Json.readMembers,Json.readMembers]
  | succ n => rw [Json.readMembers,Json.readMembers,skipBlanks_skipBlanks]

/-- An array is read from its items. -/
theorem readValue_items {n : ℕ} {text rest tail : JsString} {items : List Json}
    (h : Json.skipBlanks text = unit '['::rest) (hitems : Json.readItems n rest = some (items,tail)) :
    Json.readValue (n+1) text = some (.array items,tail) := by
  have hhead : ∃ v more, Json.skipBlanks rest = v::more ∧ v ≠ unit ']' := by
    cases n with
    | zero => cases hitems
    | succ n =>
      cases n with
      | zero => cases hitems
      | succ n =>
        rw [Json.readItems,Json.readValue] at hitems
        cases hskip : Json.skipBlanks rest with
        | nil =>
          rw [hskip] at hitems
          cases hitems
        | cons v more =>
          refine ⟨v,more,rfl,?_⟩
          rintro rfl
          rw [hskip] at hitems
          cases hitems
  obtain ⟨v,more,hskip,hv⟩ := hhead
  have hread := readItems_skipBlanks n rest
  rw [hskip,hitems] at hread
  rw [Json.readValue,h]
  dsimp only
  rw [if_neg (by decide),if_pos rfl,hskip]
  dsimp only
  rw [if_neg hv,hread]
  rfl

/-- An object is read from its members. -/
theorem readValue_members {n : ℕ} {text rest tail : JsString} {members : List (JsString × Json)}
    (h : Json.skipBlanks text = Json.openBrace::rest) (hmembers : Json.readMembers n [] rest = some (members,tail)) :
    Json.readValue (n+1) text = some (.object members,tail) := by
  have hhead : ∃ v more, Json.skipBlanks rest = v::more ∧ v ≠ Json.closeBrace := by
    cases n with
    | zero => cases hmembers
    | succ n =>
      rw [Json.readMembers] at hmembers
      cases hskip : Json.skipBlanks rest with
      | nil =>
        rw [hskip] at hmembers
        cases hmembers
      | cons v more =>
        refine ⟨v,more,rfl,?_⟩
        rintro rfl
        rw [hskip] at hmembers
        cases hmembers
  obtain ⟨v,more,hskip,hv⟩ := hhead
  have hread := readMembers_skipBlanks n [] rest
  rw [hskip,hmembers] at hread
  rw [Json.readValue,h]
  dsimp only
  rw [if_neg (by decide),if_neg (by decide),if_pos rfl,hskip]
  dsimp only
  rw [if_neg hv,hread]
  rfl

/-- The separator after an item: where it leads, and that it stops a number. -/
theorem readSeparator_parts {closing : UInt16} (hclosing : closing = unit ']' ∨ closing = Json.closeBrace)
    {text : JsString} :
    (∀ rest, Json.readSeparator closing text = .comma rest → Stops text ∧ ∃ last, Requotes text rest last ∧
      ∀ after, Json.readSeparator closing (last++after) = .comma after) ∧
    ∀ rest, Json.readSeparator closing text = .closing rest → Stops text ∧ ∃ last, Requotes text rest last ∧
      ∀ after, Json.readSeparator closing (last++after) = .closing after := by
  have hread : ∀ {text} u more, Json.skipBlanks text = u::more → Json.readSeparator closing text =
      if u = unit ',' then .comma more else if u = closing then .closing more else .none := by
    intro text u more h
    rw [Json.readSeparator,h]
  have hclose : closing ≠ unit ',' ∧ closing ≠ Json.quotation ∧ closing ≠ unit '-' ∧
      Json.isDigit closing = false ∧ closing ≠ unit '.' ∧ closing ≠ unit 'e' ∧ closing ≠ unit 'E' := by
    rcases hclosing with rfl | rfl
    · decide
    · decide
  cases hskip : Json.skipBlanks text with
  | nil =>
    have hnone : Json.readSeparator closing text = .none := by rw [Json.readSeparator,hskip]
    rw [hnone]
    exact ⟨fun rest h => (by cases h),fun rest h => (by cases h)⟩
  | cons u more =>
    rw [hread u more hskip]
    refine ⟨fun rest h => ?_,fun rest h => ?_⟩
    · by_cases hcomma : u = unit ','
      · rw [if_pos hcomma] at h
        cases h
        subst hcomma
        obtain ⟨last,hcopied,hagain⟩ := Requotes.token (by decide) (by decide) rfl hskip
        refine ⟨stops_of_skipBlanks ?_,last,hcopied,fun after => ?_⟩
        · rw [hskip]
          intro v hv
          cases hv
          decide
        · rw [hread _ _ (hagain after),if_pos rfl]
      · rw [if_neg hcomma] at h
        split at h
        · cases h
        · cases h
    · by_cases hcomma : u = unit ','
      · rw [if_pos hcomma] at h
        cases h
      · rw [if_neg hcomma] at h
        by_cases hu : u = closing
        · rw [if_pos hu] at h
          cases h
          subst hu
          obtain ⟨last,hcopied,hagain⟩ := Requotes.token hclose.2.1 hclose.2.2.1 hclose.2.2.2.1 hskip
          refine ⟨stops_of_skipBlanks ?_,last,hcopied,fun after => ?_⟩
          · rw [hskip]
            intro v hv
            cases hv
            exact hclose.2.2.2
          · rw [hread _ _ (hagain after),if_neg hclose.1,if_pos rfl]
        · rw [if_neg hu] at h
          cases h

end Quoting

section Reading

/-- Once its numbers are quoted, a text is read as the value with its numbers as
strings. -/
def ReadQuoted {α : Type} (read : ℕ → JsString → Option (α × JsString)) (n : ℕ) (text tail : JsString)
    (result : α) : Prop :=
  ∃ last, Requotes text tail last ∧ ∀ m, n ≤ m → ∀ rest, read m (last++rest) = some (result,rest)

/-- A unit that begins nothing but a word. -/
def isLetter (u : UInt16) : Bool := u != Json.quotation && (u != unit '-' && (!Json.isDigit u && !Json.isBlank u))

theorem isLetter_spec {u : UInt16} (h : isLetter u = true) :
    u ≠ Json.quotation ∧ u ≠ unit '-' ∧ Json.isDigit u = false ∧ Json.isBlank u = false := by
  unfold isLetter at h
  rw [Bool.and_eq_true,Bool.and_eq_true,Bool.and_eq_true,bne_iff_ne,bne_iff_ne,Bool.not_eq_true',
    Bool.not_eq_true'] at h
  exact h

/-- A word is copied and read again. -/
theorem readQuoted_word {word : String} {value found : Json} {u : UInt16} {letters text more tail : JsString}
    (hskip : Json.skipBlanks text = u::more) (h : Json.readWord word value (u::more) = some (found,tail))
    (hword : ofString word = u::letters) (hletter : (u::letters).all isLetter = true)
    (hread : ∀ n text more, Json.skipBlanks text = u::more →
      Json.readValue (n+1) text = Json.readWord word value (u::more))
    (hquoted : quoted value = value) (n : ℕ) : ReadQuoted Json.readValue (n+1) text tail (quoted found) := by
  obtain ⟨rfl,hmore,hall⟩ := readWord_parts h
  obtain ⟨blanks,hcopied,hagain⟩ := Requotes.blanks text
  have hplain : ∀ v ∈ u::letters, v ≠ Json.quotation ∧ v ≠ unit '-' ∧ Json.isDigit v = false ∧
      Json.isBlank v = false := fun v hv => isLetter_spec (List.all_eq_true.mp hletter v hv)
  rw [hskip,hmore] at hcopied
  have hletters : ∀ v ∈ ofString word, v ≠ Json.quotation ∧ v ≠ unit '-' ∧ Json.isDigit v = false := by
    intro v hv
    rw [hword] at hv
    have hv := hplain v hv
    exact ⟨hv.1,hv.2.1,hv.2.2.1⟩
  refine ⟨blanks++ofString word,hcopied.append (.plains hletters tail),fun m hm rest => ?_⟩
  obtain ⟨m,rfl⟩ := Nat.exists_eq_add_of_le' (Nat.le_of_add_left_le hm)
  have hafter : Json.skipBlanks (blanks++ofString word++rest) = u::(letters++rest) := by
    rw [List.append_assoc,hagain,hword,List.cons_append]
    exact skipBlanks_plain (hplain u List.mem_cons_self).2.2.2 _
  have hfound := hall rest
  rw [hword,List.cons_append] at hfound
  rw [hread _ _ _ hafter,hfound,hquoted]

/-- Items are read one after the other. -/
theorem readItems_comma {n : ℕ} {text after rest tail : JsString} {item : Json} {items : List Json}
    (h : Json.readValue n text = some (item,after)) (hcomma : Json.readSeparator (unit ']') after = .comma rest)
    (hitems : Json.readItems n rest = some (items,tail)) : Json.readItems (n+1) text = some (item::items,tail) := by
  rw [Json.readItems,h]
  dsimp only
  rw [hcomma]
  dsimp only
  rw [hitems]
  rfl

/-- The last item ends the array. -/
theorem readItems_closing {n : ℕ} {text after tail : JsString} {item : Json}
    (h : Json.readValue n text = some (item,after)) (hclosing : Json.readSeparator (unit ']') after = .closing tail) :
    Json.readItems (n+1) text = some ([item],tail) := by
  rw [Json.readItems,h]
  dsimp only
  rw [hclosing]

/-- A member is read by its name, its value and the separator after it. -/
theorem readMembers_name {n : ℕ} {members : List (JsString × Json)} {text rest name tail more : JsString}
    {value : Json} {after : JsString} (hskip : Json.skipBlanks text = Json.quotation::rest)
    (hname : Json.readString rest = some (name,tail)) (hcolon : Json.skipBlanks tail = unit ':'::more)
    (hvalue : Json.readValue n more = some (value,after)) :
    Json.readMembers (n+1) members text =
      match Json.readSeparator Json.closeBrace after with
      | .comma rest => Json.readMembers n (Json.setMember members name value) rest
      | .closing rest => some (Json.setMember members name value,rest)
      | .none => none := by
  rw [Json.readMembers,hskip]
  dsimp only
  rw [if_pos rfl,hname]
  dsimp only
  rw [hcolon]
  dsimp only
  rw [if_pos rfl]
  generalize Json.readValue n more = read at hvalue
  subst hvalue
  rfl

/-- A value is read quoted. -/
theorem readValue_quoted {n : ℕ} (ihitems : ∀ text items tail, Json.readItems n text = some (items,tail) →
      ReadQuoted Json.readItems n text tail (quotedItems items))
    (ihmembers : ∀ members text result tail, Json.readMembers n members text = some (result,tail) →
      ReadQuoted (fun n => Json.readMembers n (quotedMembers members)) n text tail (quotedMembers result))
    {text tail : JsString} {value : Json} (h : Json.readValue (n+1) text = some (value,tail))
    (hstops : Stops tail) : ReadQuoted Json.readValue (n+1) text tail (quoted value) := by
  obtain ⟨blanks,hcopied,hagain⟩ := Requotes.blanks text
  rw [Json.readValue] at h
  cases hskip : Json.skipBlanks text with
  | nil =>
    rw [hskip] at h
    cases h
  | cons u rest =>
    rw [hskip] at h hcopied
    dsimp only at h
    by_cases hquotation : u = Json.quotation
    · rw [if_pos hquotation] at h
      subst hquotation
      obtain ⟨⟨contents,after⟩,hread,heq⟩ := Option.map_eq_some_iff.mp h
      cases heq
      obtain ⟨part,hpart⟩ := readString_part _ (Nat.lt_succ_self _) hread
      refine ⟨blanks++Json.quotation::part,hcopied.append (.string hpart),fun m hm rest => ?_⟩
      obtain ⟨m,rfl⟩ := Nat.exists_eq_add_of_le' (Nat.le_of_add_left_le hm)
      rw [Json.readValue,List.append_assoc,hagain,List.cons_append,skipBlanks_plain rfl]
      dsimp only
      rw [if_pos rfl,hpart.read]
      rfl
    rw [if_neg hquotation] at h
    by_cases hbracket : u = unit '['
    · rw [if_pos hbracket] at h
      subst hbracket
      obtain ⟨first,hfirst,hopen⟩ := Requotes.token (by decide) (by decide) rfl hskip
      cases hinner : Json.skipBlanks rest with
      | nil =>
        rw [hinner] at h
        cases h
      | cons v more =>
        rw [hinner] at h
        dsimp only at h
        by_cases hclose : v = unit ']'
        · rw [if_pos hclose] at h
          cases h
          subst hclose
          obtain ⟨second,hsecond,hend⟩ := Requotes.token (by decide) (by decide) rfl hinner
          refine ⟨first++second,hfirst.append hsecond,fun m hm rest => ?_⟩
          obtain ⟨m,rfl⟩ := Nat.exists_eq_add_of_le' (Nat.le_of_add_left_le hm)
          rw [Json.readValue,List.append_assoc,hopen]
          dsimp only
          rw [if_neg (by decide),if_pos rfl,hend]
          rfl
        · rw [if_neg hclose,← hinner,readItems_skipBlanks] at h
          obtain ⟨⟨items,after⟩,hitems,heq⟩ := Option.map_eq_some_iff.mp h
          cases heq
          obtain ⟨second,hsecond,hread⟩ := ihitems rest items after hitems
          refine ⟨first++second,hfirst.append hsecond,fun m hm rest => ?_⟩
          obtain ⟨m,rfl⟩ := Nat.exists_eq_add_of_le' (Nat.le_of_add_left_le hm)
          rw [quoted,List.append_assoc]
          exact readValue_items (hopen _) (hread m (by omega) rest)
    rw [if_neg hbracket] at h
    by_cases hbrace : u = Json.openBrace
    · rw [if_pos hbrace] at h
      subst hbrace
      obtain ⟨first,hfirst,hopen⟩ := Requotes.token (by decide) (by decide) rfl hskip
      cases hinner : Json.skipBlanks rest with
      | nil =>
        rw [hinner] at h
        cases h
      | cons v more =>
        rw [hinner] at h
        dsimp only at h
        by_cases hclose : v = Json.closeBrace
        · rw [if_pos hclose] at h
          cases h
          subst hclose
          obtain ⟨second,hsecond,hend⟩ := Requotes.token (by decide) (by decide) rfl hinner
          refine ⟨first++second,hfirst.append hsecond,fun m hm rest => ?_⟩
          obtain ⟨m,rfl⟩ := Nat.exists_eq_add_of_le' (Nat.le_of_add_left_le hm)
          rw [Json.readValue,List.append_assoc,hopen]
          dsimp only
          rw [if_neg (by decide),if_neg (by decide),if_pos rfl,hend]
          rfl
        · rw [if_neg hclose,← hinner,readMembers_skipBlanks] at h
          obtain ⟨⟨members,after⟩,hmembers,heq⟩ := Option.map_eq_some_iff.mp h
          cases heq
          obtain ⟨second,hsecond,hread⟩ := ihmembers [] rest members after hmembers
          refine ⟨first++second,hfirst.append hsecond,fun m hm rest => ?_⟩
          obtain ⟨m,rfl⟩ := Nat.exists_eq_add_of_le' (Nat.le_of_add_left_le hm)
          rw [quoted,List.append_assoc]
          exact readValue_members (hopen _) (hread m (by omega) rest)
    rw [if_neg hbrace] at h
    by_cases hn : u = unit 'n'
    · rw [if_pos hn] at h
      subst hn
      refine readQuoted_word hskip h rfl (by decide) (fun n text more hskip => ?_) rfl n
      rw [Json.readValue,hskip]
      rfl
    rw [if_neg hn] at h
    by_cases ht : u = unit 't'
    · rw [if_pos ht] at h
      subst ht
      refine readQuoted_word hskip h rfl (by decide) (fun n text more hskip => ?_) rfl n
      rw [Json.readValue,hskip]
      rfl
    rw [if_neg ht] at h
    by_cases hf : u = unit 'f'
    · rw [if_pos hf] at h
      subst hf
      refine readQuoted_word hskip h rfl (by decide) (fun n text more hskip => ?_) rfl n
      rw [Json.readValue,hskip]
      rfl
    rw [if_neg hf] at h
    obtain ⟨⟨literal,after⟩,hread,heq⟩ := Option.map_eq_some_iff.mp h
    cases heq
    refine ⟨blanks++Json.quote literal,hcopied.append (.number hread hstops),fun m hm rest => ?_⟩
    obtain ⟨m,rfl⟩ := Nat.exists_eq_add_of_le' (Nat.le_of_add_left_le hm)
    rw [Json.readValue,List.append_assoc,hagain,Json.quote,List.cons_append,skipBlanks_plain rfl]
    dsimp only
    rw [if_pos rfl,List.append_assoc,List.singleton_append,Json.readString_escapeAll]
    rfl

/-- Items are read quoted. -/
theorem readItems_quoted {n : ℕ} (ihvalue : ∀ text value tail, Json.readValue n text = some (value,tail) →
      Stops tail → ReadQuoted Json.readValue n text tail (quoted value))
    (ihitems : ∀ text items tail, Json.readItems n text = some (items,tail) →
      ReadQuoted Json.readItems n text tail (quotedItems items))
    {text tail : JsString} {items : List Json} (h : Json.readItems (n+1) text = some (items,tail)) :
    ReadQuoted Json.readItems (n+1) text tail (quotedItems items) := by
  rw [Json.readItems] at h
  cases hvalue : Json.readValue n text with
  | none =>
    rw [hvalue] at h
    cases h
  | some read =>
    obtain ⟨item,after⟩ := read
    rw [hvalue] at h
    dsimp only at h
    have hseparator := @readSeparator_parts (unit ']') (.inl rfl) after
    split at h
    · rename_i rest hcomma
      obtain ⟨hstops,middle,hmiddle,hagain⟩ := hseparator.1 rest hcomma
      obtain ⟨first,hfirst,hread⟩ := ihvalue text item after hvalue hstops
      obtain ⟨⟨items,last⟩,hitems,heq⟩ := Option.map_eq_some_iff.mp h
      cases heq
      obtain ⟨second,hsecond,hmore⟩ := ihitems rest items last hitems
      refine ⟨first++(middle++second),hfirst.append (hmiddle.append hsecond),fun m hm rest => ?_⟩
      obtain ⟨m,rfl⟩ := Nat.exists_eq_add_of_le' (Nat.le_of_add_left_le hm)
      rw [List.append_assoc,List.append_assoc,quotedItems]
      exact readItems_comma (hread m (by omega) _) (hagain _) (hmore m (by omega) rest)
    · rename_i rest hclosing
      obtain ⟨hstops,middle,hmiddle,hagain⟩ := hseparator.2 rest hclosing
      obtain ⟨first,hfirst,hread⟩ := ihvalue text item after hvalue hstops
      cases h
      refine ⟨first++middle,hfirst.append hmiddle,fun m hm rest => ?_⟩
      obtain ⟨m,rfl⟩ := Nat.exists_eq_add_of_le' (Nat.le_of_add_left_le hm)
      rw [List.append_assoc]
      exact readItems_closing (hread m (by omega) _) (hagain rest)
    · cases h

/-- Members are read quoted. -/
theorem readMembers_quoted {n : ℕ} (ihvalue : ∀ text value tail, Json.readValue n text = some (value,tail) →
      Stops tail → ReadQuoted Json.readValue n text tail (quoted value))
    (ihmembers : ∀ members text result tail, Json.readMembers n members text = some (result,tail) →
      ReadQuoted (fun n => Json.readMembers n (quotedMembers members)) n text tail (quotedMembers result))
    {members result : List (JsString × Json)} {text tail : JsString}
    (h : Json.readMembers (n+1) members text = some (result,tail)) :
    ReadQuoted (fun n => Json.readMembers n (quotedMembers members)) (n+1) text tail (quotedMembers result) := by
  obtain ⟨blanks,hcopied,hagain⟩ := Requotes.blanks text
  rw [Json.readMembers] at h
  cases hskip : Json.skipBlanks text with
  | nil =>
    rw [hskip] at h
    cases h
  | cons u rest =>
    rw [hskip] at h hcopied
    dsimp only at h
    by_cases hquotation : u = Json.quotation
    · rw [if_pos hquotation] at h
      subst hquotation
      cases hname : Json.readString rest with
      | none =>
        rw [hname] at h
        cases h
      | some read =>
        obtain ⟨name,afterName⟩ := read
        rw [hname] at h
        dsimp only at h
        obtain ⟨part,hpart⟩ := readString_part _ (Nat.lt_succ_self _) hname
        cases hcolon : Json.skipBlanks afterName with
        | nil =>
          rw [hcolon] at h
          cases h
        | cons v more =>
          rw [hcolon] at h
          dsimp only at h
          by_cases hv : v = unit ':'
          · rw [if_pos hv] at h
            subst hv
            obtain ⟨colon,hcolons,hmore⟩ := Requotes.token (by decide) (by decide) rfl hcolon
            cases hvalue : Json.readValue n more with
            | none =>
              rw [hvalue] at h
              cases h
            | some read =>
              obtain ⟨value,after⟩ := read
              rw [hvalue] at h
              dsimp only at h
              have hstart : ∀ rest, Json.skipBlanks (blanks++(Json.quotation::part++rest)) =
                  Json.quotation::(part++rest) := by
                intro rest
                rw [hagain,List.cons_append]
                exact skipBlanks_plain rfl _
              have hbefore := (hcopied.append (.string hpart)).append hcolons
              have hseparator := @readSeparator_parts Json.closeBrace (.inr rfl) after
              split at h
              · rename_i rest hcomma
                obtain ⟨hstops,middle,hmiddle,hseparated⟩ := hseparator.1 rest hcomma
                obtain ⟨first,hfirst,hread⟩ := ihvalue more value after hvalue hstops
                obtain ⟨second,hsecond,hrest⟩ := ihmembers _ rest result tail h
                refine ⟨_,hbefore.append (hfirst.append (hmiddle.append hsecond)),fun m hm rest => ?_⟩
                obtain ⟨m,rfl⟩ := Nat.exists_eq_add_of_le' (Nat.le_of_add_left_le hm)
                simp only [List.append_assoc]
                rw [readMembers_name (hstart _) (hpart.read _) (hmore _) (hread m (by omega) _),hseparated]
                dsimp only
                rw [← quotedMembers_setMember]
                exact hrest m (by omega) rest
              · rename_i rest hclosing
                obtain ⟨hstops,middle,hmiddle,hseparated⟩ := hseparator.2 rest hclosing
                obtain ⟨first,hfirst,hread⟩ := ihvalue more value after hvalue hstops
                cases h
                refine ⟨_,hbefore.append (hfirst.append hmiddle),fun m hm rest => ?_⟩
                obtain ⟨m,rfl⟩ := Nat.exists_eq_add_of_le' (Nat.le_of_add_left_le hm)
                simp only [List.append_assoc]
                rw [readMembers_name (hstart _) (hpart.read _) (hmore _) (hread m (by omega) _),hseparated]
                dsimp only
                rw [quotedMembers_setMember]
              · cases h
          · rw [if_neg hv] at h
            cases h
    · rw [if_neg hquotation] at h
      cases h

/-- What is read is read quoted, by induction on the fuel. -/
theorem readers_quoted (n : ℕ) : (∀ text value tail, Json.readValue n text = some (value,tail) → Stops tail →
      ReadQuoted Json.readValue n text tail (quoted value)) ∧
    (∀ text items tail, Json.readItems n text = some (items,tail) →
      ReadQuoted Json.readItems n text tail (quotedItems items)) ∧
    ∀ members text result tail, Json.readMembers n members text = some (result,tail) →
      ReadQuoted (fun n => Json.readMembers n (quotedMembers members)) n text tail (quotedMembers result) := by
  induction n with
  | zero =>
    refine ⟨fun text value tail h => ?_,fun text items tail h => ?_,fun members text result tail h => ?_⟩
    · cases h
    · cases h
    · cases h
  | succ n ih =>
    obtain ⟨ihvalue,ihitems,ihmembers⟩ := ih
    exact ⟨fun _ _ _ h hstops => readValue_quoted ihitems ihmembers h hstops,
      fun _ _ _ h => readItems_quoted ihvalue ihitems h,
      fun _ _ _ _ h => readMembers_quoted ihvalue ihmembers h⟩

/-- What a text parses as, it parses as with its numbers as strings once they are
quoted. -/
theorem parse_quoteNumbers {text : JsString} {value : Json} (h : Json.parse text = some value) :
    Json.parse (quoteNumbers text.length text) = some (quoted value) := by
  unfold Json.parse at h
  split at h
  · rename_i found tail hread
    split at h
    · rename_i hend
      cases h
      have hstops : Stops tail := by
        refine stops_of_skipBlanks ?_
        rw [hend]
        intro u hu
        cases hu
      obtain ⟨last,hlast,hagain⟩ := (readers_quoted _).1 text value tail hread hstops
      obtain ⟨blanks,hblanks,hskip⟩ := Requotes.blanks tail
      rw [hend] at hblanks
      have hwhole := hlast.append hblanks
      obtain ⟨k,_,heq⟩ := hwhole.written text.length (Nat.le_refl _)
      have hnil : quoteNumbers k [] = [] := by
        cases k with
        | zero => rfl
        | succ k => rfl
      have hempty := hskip []
      have hlonger : text.length+1 ≤ (last++blanks).length+1 := Nat.succ_le_succ hwhole.longer
      rw [List.append_nil] at hempty
      rw [heq,hnil,List.append_nil,Json.parse,hagain _ hlonger blanks]
      dsimp only
      rw [hempty]
      rfl
    · cases h
  · cases h

end Reading

end Baileyrs.AtomicStore
