import Baileyrs.JsNumberReading
import Baileyrs.TextSearch

/-!
# Text forms of addresses

An address of 32 bits is written as four decimal octets. An address of 128 bits is written
as eight groups of at most four hexadecimal digits in either case; one run of zero groups
may be left out, and the last two groups may be written as four octets. A zone may stand
behind it. Different forms denote one address where their groups are the same.
-/

namespace Baileyrs.AddressForms

open JsString AtomicStore TextSearch

section Forms

/-- One to four hexadecimal digits. -/
structure HexGroup where
  /-- The digits. -/
  text : JsString
  /-- At least one. -/
  nonempty : text ≠ []
  /-- At most four. -/
  short : text.length ≤ 4
  /-- All are digits. -/
  digits : ∀ u ∈ text, (Json.hexValue u).isSome = true

/-- Value of hexadecimal digits. -/
def hexNumber (digits : JsString) : ℕ := digits.foldl (fun n u => n*16+(Json.hexValue u).getD 0) 0

/-- Four octets. -/
structure Quad where
  /-- The first octet. -/
  a : UInt8
  /-- The second one. -/
  b : UInt8
  /-- The third one. -/
  c : UInt8
  /-- The last one. -/
  d : UInt8

/-- The octets of a quad. -/
def Quad.octets (q : Quad) : List ℕ := [q.a.toNat,q.b.toNat,q.c.toNat,q.d.toNat]

/-- Text of a quad. -/
def Quad.text (q : Quad) : JsString := joined (unit '.') (q.octets.map natText)

/-- The two groups of a quad. -/
def Quad.groups (q : Quad) : List ℕ := [q.a.toNat*256+q.b.toNat,q.c.toNat*256+q.d.toNat]

/-- The quad of two groups. -/
def quadOf (high low : ℕ) : Quad := ⟨(high/256).toUInt8,(high%256).toUInt8,(low/256).toUInt8,(low%256).toUInt8⟩

/-- What stands between colons. -/
inductive Piece where
  /-- A group. -/
  | hex (g : HexGroup)
  /-- Two groups as a quad. -/
  | quad (q : Quad)

/-- Text of a piece. -/
def Piece.text : Piece → JsString
  | .hex g => g.text
  | .quad q => q.text

/-- Groups of a piece. -/
def Piece.groups : Piece → List ℕ
  | .hex g => [hexNumber g.text]
  | .quad q => q.groups

/-- Groups with perhaps a quad behind them. -/
structure Part where
  /-- The groups. -/
  hexes : List HexGroup
  /-- The quad. -/
  quad : Option Quad

/-- Pieces of a part. -/
def Part.pieces (p : Part) : List Piece := p.hexes.map .hex++p.quad.toList.map .quad

/-- Text of a part. -/
def Part.text (p : Part) : JsString := joined (unit ':') (p.pieces.map Piece.text)

/-- Groups of a part. -/
def Part.groups (p : Part) : List ℕ := p.pieces.flatMap Piece.groups

/-- A form of an address of 128 bits. -/
inductive Form where
  /-- All eight groups. -/
  | full (part : Part) (eight : part.groups.length = 8)
  /-- At least one zero group is left out. -/
  | compressed (left : List HexGroup) (right : Part) (less : left.length+right.groups.length ≤ 7)

/-- The groups before those left out. -/
def leftPart (left : List HexGroup) : Part := ⟨left,none⟩

/-- Text of a form. -/
def Form.text : Form → JsString
  | .full part _ => part.text
  | .compressed left right _ => (leftPart left).text++unit ':'::unit ':'::right.text

/-- The address that a form denotes. -/
def Form.groups : Form → List ℕ
  | .full part _ => part.groups
  | .compressed left right _ =>
    (leftPart left).groups++List.replicate (8-(leftPart left).groups.length-right.groups.length) 0++right.groups

/-- A form with a zone behind it. -/
def Form.zoned (f : Form) (zone : JsString) : JsString := f.text++unit '%'::zone

/-- Text of an address of 32 bits. -/
def IPv4Text (text : JsString) : Prop := ∃ q : Quad, text = q.text

/-- Text of an address of 128 bits, perhaps with a zone. -/
def IPv6Text (text : JsString) : Prop := ∃ f : Form, text = f.text ∨ ∃ zone, zone ≠ [] ∧ text = f.zoned zone

/-- Lower case of a unit of ASCII. -/
def lowerUnit (u : UInt16) : UInt16 := if 65 ≤ u.toNat ∧ u.toNat ≤ 90 then u+32 else u

end Forms

section Groups

theorem hexValue_lt {u : UInt16} {n : ℕ} (h : Json.hexValue u = some n) : n < 16 := by
  unfold Json.hexValue at h
  split at h
  · cases h
    omega
  · split at h
    · cases h
      omega
    · split at h
      · cases h
        omega
      · cases h

/-- Hexadecimal digits are below a power of sixteen. -/
theorem hexNumber_lt {digits : JsString} (h : ∀ u ∈ digits, (Json.hexValue u).isSome = true) :
    hexNumber digits < 16^digits.length := by
  have hfold : ∀ digits : JsString, (∀ u ∈ digits, (Json.hexValue u).isSome = true) → ∀ n,
      digits.foldl (fun n u => n*16+(Json.hexValue u).getD 0) n < (n+1)*16^digits.length := by
    intro digits
    induction digits with
    | nil =>
      intro _ n
      rw [List.foldl_nil,List.length_nil,pow_zero]
      omega
    | cons u rest ih =>
      intro hall n
      obtain ⟨value,hvalue⟩ := Option.isSome_iff_exists.mp (hall u List.mem_cons_self)
      have hlt := hexValue_lt hvalue
      have hrest := ih (fun v hv => hall v (List.mem_cons_of_mem _ hv)) (n*16+value)
      have hle : (n*16+value+1)*16^rest.length ≤ (n+1)*16*16^rest.length := Nat.mul_le_mul_right _ (by omega)
      rw [List.foldl_cons,hvalue,Option.getD_some,List.length_cons,pow_succ,Nat.mul_comm (16^rest.length) 16,← Nat.mul_assoc]
      exact hrest.trans_le hle
  have hwhole := hfold digits h 0
  rwa [Nat.zero_add,Nat.one_mul] at hwhole

theorem groups_piece_lt (p : Piece) : ∀ g ∈ p.groups, g < 2^16 := by
  cases p with
  | hex g =>
    intro n hn
    rw [List.mem_singleton.mp hn]
    have hlt := hexNumber_lt g.digits
    have hle : 16^g.text.length ≤ 16^4 := Nat.pow_le_pow_right (by omega) g.short
    omega
  | quad q =>
    have ha := q.a.toNat_lt
    have hb := q.b.toNat_lt
    have hc := q.c.toNat_lt
    have hd := q.d.toNat_lt
    intro n hn
    rw [Piece.groups,Quad.groups,List.mem_cons,List.mem_singleton] at hn
    omega

theorem groups_part_lt (p : Part) : ∀ g ∈ p.groups, g < 2^16 := by
  intro g hg
  obtain ⟨piece,_,hmem⟩ := List.mem_flatMap.mp hg
  exact groups_piece_lt piece g hmem

theorem length_leftPart (left : List HexGroup) : (leftPart left).groups.length = left.length := by
  unfold Part.groups Part.pieces leftPart
  induction left with
  | nil => rfl
  | cons g rest ih =>
    have hone : (Piece.groups (.hex g)).length = 1 := rfl
    rw [List.map_cons,List.cons_append,List.flatMap_cons,List.length_append,ih,List.length_cons,hone]
    omega

/-- A form denotes eight groups of 16 bits. -/
theorem groups_form (f : Form) : f.groups.length = 8 ∧ ∀ g ∈ f.groups, g < 2^16 := by
  cases f with
  | full part eight => exact ⟨eight,groups_part_lt part⟩
  | compressed left right less =>
    refine ⟨?_,?_⟩
    · rw [Form.groups,List.length_append,List.length_append,List.length_replicate,length_leftPart]
      omega
    · intro g hg
      rw [Form.groups,List.mem_append,List.mem_append,List.mem_replicate] at hg
      cases hg with
      | inl hg =>
        cases hg with
        | inl hleft => exact groups_part_lt _ g hleft
        | inr hzero => omega
      | inr hright => exact groups_part_lt _ g hright

end Groups

section Units

/-- A unit of a form. -/
def isFormUnit (u : UInt16) : Bool := (Json.hexValue u).isSome || [unit ':',unit '.'].contains u

theorem hexValue_digit {u : UInt16} (h : Json.isDigit u = true) : (Json.hexValue u).isSome = true := by
  have hbounds : 48 ≤ u.toNat ∧ u.toNat ≤ 57 := by
    unfold Json.isDigit at h
    rwa [Bool.and_eq_true,decide_eq_true_eq,decide_eq_true_eq] at h
  rw [Json.hexValue,if_pos hbounds]
  rfl

/-- A quad is written with digits and points. -/
theorem units_quad (q : Quad) : ∀ u ∈ q.text, Json.isDigit u = true ∨ u = unit '.' := by
  intro u hu
  cases mem_joined hu with
  | inl hpoint => exact .inr hpoint
  | inr hpart =>
    obtain ⟨part,hmem,hin⟩ := hpart
    obtain ⟨n,_,rfl⟩ := List.mem_map.mp hmem
    exact .inl (List.all_eq_true.mp (isDigit_natText n) u hin)

theorem units_piece (p : Piece) : ∀ u ∈ p.text, (Json.hexValue u).isSome = true ∨ u = unit '.' := by
  cases p with
  | hex g => exact fun u hu => .inl (g.digits u hu)
  | quad q =>
    intro u hu
    cases units_quad q u hu with
    | inl hdigit => exact .inl (hexValue_digit hdigit)
    | inr hpoint => exact .inr hpoint

theorem units_part (p : Part) : ∀ u ∈ p.text, isFormUnit u = true := by
  intro u hu
  unfold isFormUnit
  rw [Bool.or_eq_true,List.contains_iff_mem,List.mem_cons,List.mem_singleton]
  cases mem_joined hu with
  | inl hcolon => exact .inr (.inl hcolon)
  | inr hpart =>
    obtain ⟨text,hmem,hin⟩ := hpart
    obtain ⟨piece,_,rfl⟩ := List.mem_map.mp hmem
    cases units_piece piece u hin with
    | inl hhex => exact .inl hhex
    | inr hpoint => exact .inr (.inr hpoint)

theorem units_form (f : Form) : ∀ u ∈ f.text, isFormUnit u = true := by
  cases f with
  | full part eight => exact units_part part
  | compressed left right less =>
    intro u hu
    rw [Form.text,List.mem_append,List.mem_cons,List.mem_cons] at hu
    rcases hu with hleft | rfl | rfl | hright
    · exact units_part _ u hleft
    · decide
    · decide
    · exact units_part _ u hright

/-- A form is ASCII. -/
theorem ascii_formUnit {u : UInt16} (h : isFormUnit u = true) : u.toNat < 128 := by
  unfold isFormUnit at h
  rw [Bool.or_eq_true,List.contains_iff_mem,List.mem_cons,List.mem_singleton] at h
  rcases h with hhex | rfl | rfl
  · obtain ⟨n,hn⟩ := Option.isSome_iff_exists.mp hhex
    unfold Json.hexValue at hn
    split at hn
    · omega
    · split at hn
      · omega
      · split at hn
        · omega
        · cases hn
  · decide
  · decide

/-- A quad has no colon. -/
theorem notMem_colon_quad (q : Quad) : unit ':' ∉ q.text := by
  intro hmem
  cases units_quad q _ hmem with
  | inl hdigit => exact absurd hdigit (by decide)
  | inr hpoint => exact absurd hpoint (by decide)

/-- Every form has a colon. -/
theorem mem_colon_form (f : Form) : unit ':' ∈ f.text := by
  cases f with
  | compressed left right less => exact List.mem_append_right _ List.mem_cons_self
  | full part eight =>
    have hshort : ∀ p : Piece, p.groups.length ≤ 2 := by
      intro p
      cases p with
      | hex g => exact Nat.le_succ 1
      | quad q => exact Nat.le_refl 2
    change unit ':' ∈ joined (unit ':') (part.pieces.map Piece.text)
    unfold Part.groups at eight
    cases hpieces : part.pieces with
    | nil =>
      rw [hpieces] at eight
      cases eight
    | cons first rest =>
      cases rest with
      | nil =>
        have hlength := hshort first
        rw [hpieces,List.flatMap_cons,List.flatMap_nil,List.append_nil] at eight
        omega
      | cons second rest => exact List.mem_append_right _ List.mem_cons_self

/-- No piece is empty, and none has a colon. -/
theorem piece_separate (p : Piece) : p.text ≠ [] ∧ unit ':' ∉ p.text := by
  refine ⟨?_,fun hmem => ?_⟩
  · cases p with
    | hex g => exact g.nonempty
    | quad q =>
      have hdigits : natText q.a.toNat ≠ [] := (JsNumber.digits_natText _).nonempty
      exact List.append_ne_nil_of_left_ne_nil hdigits _
  · cases units_piece p _ hmem with
    | inl hhex => exact absurd hhex (by decide)
    | inr hpoint => exact absurd hpoint (by decide)

end Units

section Cases

/-- Lower case keeps the value of a digit. -/
theorem hexValue_lowerUnit (u : UInt16) (h : (Json.hexValue u).isSome = true) : Json.hexValue (lowerUnit u) = Json.hexValue u := by
  unfold lowerUnit
  split
  · rename_i hupper
    obtain ⟨n,hn⟩ := Option.isSome_iff_exists.mp h
    have hsum : (u+32).toNat = u.toNat+32 := by
      have hthirty : UInt16.toNat 32 = 32 := rfl
      rw [UInt16.toNat_add,hthirty]
      omega
    unfold Json.hexValue at hn ⊢
    rw [hsum]
    split at hn
    · omega
    · split at hn
      · omega
      · split at hn
        · rename_i hletter
          rw [if_neg (by omega),if_pos (by omega)]
          rw [if_neg (by omega),if_neg (by omega),if_pos hletter]
          congr 1
        · cases hn
  · rfl

/-- A group in lower case. -/
def HexGroup.lower (g : HexGroup) : HexGroup where
  text := g.text.map lowerUnit
  nonempty := fun h => g.nonempty (List.map_eq_nil_iff.mp h)
  short := by
    rw [List.length_map]
    exact g.short
  digits := by
    intro u hu
    obtain ⟨v,hv,rfl⟩ := List.mem_map.mp hu
    rw [hexValue_lowerUnit v (g.digits v hv)]
    exact g.digits v hv

theorem HexGroup.lower_value (g : HexGroup) : hexNumber g.lower.text = hexNumber g.text := by
  have hfold : ∀ digits : JsString, (∀ u ∈ digits, (Json.hexValue u).isSome = true) → ∀ n,
      (digits.map lowerUnit).foldl (fun n u => n*16+(Json.hexValue u).getD 0) n =
        digits.foldl (fun n u => n*16+(Json.hexValue u).getD 0) n := by
    intro digits
    induction digits with
    | nil => exact fun _ _ => rfl
    | cons u rest ih =>
      intro hall n
      rw [List.map_cons,List.foldl_cons,List.foldl_cons,hexValue_lowerUnit u (hall u List.mem_cons_self)]
      exact ih (fun v hv => hall v (List.mem_cons_of_mem _ hv)) _
  exact hfold g.text g.digits 0

/-- A piece in lower case. -/
def Piece.lower : Piece → Piece
  | .hex g => .hex g.lower
  | .quad q => .quad q

theorem lowerUnit_digit {u : UInt16} (h : Json.isDigit u = true) : lowerUnit u = u := by
  unfold Json.isDigit at h
  rw [Bool.and_eq_true,decide_eq_true_eq,decide_eq_true_eq] at h
  exact if_neg (by omega)

theorem Piece.lower_text (p : Piece) : p.lower.text = p.text.map lowerUnit := by
  cases p with
  | hex g => rfl
  | quad q =>
    have hsame : q.text.map lowerUnit = q.text.map id := by
      refine List.map_congr_left fun u hu => ?_
      cases units_quad q u hu with
      | inl hdigit => exact lowerUnit_digit hdigit
      | inr hpoint =>
        rw [hpoint]
        decide
    rw [List.map_id] at hsame
    exact hsame.symm

/-- A part in lower case is joined from its pieces in lower case. -/
theorem Part.lower_text (p : Part) : p.text.map lowerUnit = joined (unit ':') (p.pieces.map fun piece => piece.lower.text) := by
  have hcolon : lowerUnit (unit ':') = unit ':' := by decide
  rw [Part.text,map_joined,hcolon,List.map_map]
  congr 1
  refine List.map_congr_left fun piece _ => ?_
  exact piece.lower_text.symm

end Cases

end Baileyrs.AddressForms
