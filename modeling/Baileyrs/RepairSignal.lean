import Baileyrs.RepairLoops

/-!
# The repair and what its result signals

Every object on the way of the repair is new to the ancestors, so the repair
ends; it writes to its own copies. A copy holds replaced values and repaired
messages, and an object without a copy had nothing to replace below its
ancestors. So the same reference means that nothing was found, unless a number
differs from itself, and a second repair finds nothing, unless an object that
contains itself hid something from the first.
-/

namespace Baileyrs.ProtoRuntime

open JsString AtomicStore

section Fields

variable (schemas : Schemas)

variable {schemas}

end Fields

section Repairs

variable (schemas : Schemas) (codecs : Codecs) (base last : Heap)

/-- What a repair returns for an item, to a depth: the item when there is nothing to change below
its ancestors, or a new object with replaced values and repaired messages. -/
def Repaired : ℕ → List ℕ → ℕ → Item → Item → Prop
  | 0,seen,schemaId,item,out => ¬Touches schemas codecs base seen schemaId item ∧ out = item
  | n+1,seen,schemaId,item,out =>
    (¬Touches schemas codecs base seen schemaId item ∧ out = item) ∨
      ∃ address copy, item = .reference address ∧ out = .reference copy ∧ address ∉ seen ∧ base.length ≤ copy ∧
        Touches schemas codecs base seen schemaId item ∧
        ∀ field current, Holds schemas last schemaId copy field current →
          ∃ original, Holds schemas base schemaId address field original ∧
            FieldResult codecs base field original (fun original _ item =>
              if field.kind = .message then Repaired n (address::seen) field.reference original item
              else item = repairedItem schemas field original) last current

variable {schemas codecs base last}

/-- A repair returns no number that differs from itself, unless it was given one. -/
theorem Repaired.number {n : ℕ} {seen : List ℕ} {schemaId : ℕ} {item out : Item}
    (h : Repaired schemas codecs base last n seen schemaId item out) (hnan : out.isNaN = true) : item.isNaN = true := by
  cases n with
  | zero => exact h.2 ▸ hnan
  | succ n =>
    rcases h with ⟨_,rfl⟩ | ⟨_,copy,_,rfl,_⟩
    · exact hnan
    · cases hnan

/-- Without a change the item is returned. -/
theorem Repaired.same {n : ℕ} {seen : List ℕ} {schemaId : ℕ} {item out : Item}
    (h : Repaired schemas codecs base last n seen schemaId item out)
    (hno : ¬Touches schemas codecs base seen schemaId item) : out = item := by
  cases n with
  | zero => exact h.2
  | succ n =>
    rcases h with ⟨_,hout⟩ | ⟨_,_,_,_,_,_,htouches,_⟩
    · exact hout
    · exact absurd htouches hno

theorem Repaired.refl {n : ℕ} {seen : List ℕ} {schemaId : ℕ} {item : Item}
    (hno : ¬Touches schemas codecs base seen schemaId item) :
    Repaired schemas codecs base last n seen schemaId item item := by
  cases n with
  | zero => exact ⟨hno,rfl⟩
  | succ n => exact .inl ⟨hno,rfl⟩

/-- The repaired message leads to nothing the repair would take for changed. -/
theorem Repaired.clean (hlinked : Linked codecs base) (hgrow : base <+: last) {n : ℕ} {seen : List ℕ} {schemaId : ℕ}
    {item out : Item} (h : Repaired schemas codecs base last n seen schemaId item out) (hinside : item.Inside base)
    (hnumbers : ¬MeetsNaN schemas codecs base seen schemaId item) (hhides : ¬Hides schemas codecs base seen schemaId item)
    (htouches : Touches schemas codecs base seen schemaId item) {above : List ℕ}
    (habove : ∀ address ∈ above, base.length ≤ address) : ¬Touches schemas codecs last above schemaId out := by
  induction n generalizing seen schemaId item out above with
  | zero => exact absurd htouches h.1
  | succ n ih =>
    rcases h with ⟨hno,_⟩ | ⟨address,copy,rfl,rfl,hnew,hfresh,_,hfields⟩
    · exact absurd htouches hno
    intro hagain
    obtain ⟨_,heq,_,field,current,hholds,hfound⟩ := meets_cases.mp hagain
    cases heq
    obtain ⟨original,horiginal,hresult⟩ := hfields field current hholds
    have hlt := hinside address rfl
    have hcurrent := horiginal.inside hlinked hlt
    have hnumber : ∀ value ∈ original::visitedItems codecs base field original, value.isNaN = false := by
      intro value hvalue
      refine Bool.eq_false_iff.mpr fun hnan => hnumbers ?_
      exact .here _ _ _ field original hnew horiginal ⟨value,hvalue,hnan⟩
    rcases hfound with (⟨value,hvalue,hknown⟩ | ⟨value,hvalue,hnan⟩) | ⟨hkind,value,hvalue,hnested⟩
    · obtain ⟨source,_,hrelated⟩ := hresult.values value hvalue
      split at hrelated
      · rename_i hkind
        rw [isRepairable_message hkind] at hknown
        cases hknown
      · rw [hrelated,isRepairable_repairedItem] at hknown
        cases hknown
    · rcases List.mem_cons.mp hvalue with rfl | hin
      · have hsource := hnumber original List.mem_cons_self
        rw [hresult.number hnan] at hsource
        cases hsource
      · obtain ⟨source,hsource,hrelated⟩ := hresult.values value hin
        have hplain := hnumber source (List.mem_cons_of_mem _ hsource)
        split at hrelated
        · rw [hrelated.number hnan] at hplain
          cases hplain
        · rw [isNaN_repairedItem (hrelated ▸ hnan)] at hplain
          cases hplain
    · obtain ⟨source,hsource,hrelated⟩ := hresult.values value hvalue
      rw [if_pos hkind] at hrelated
      have hin := visited_inside hlinked hcurrent hsource
      have hcopies : ∀ other ∈ copy::above, base.length ≤ other := by
        intro other hother
        rcases List.mem_cons.mp hother with rfl | hmem
        · exact hfresh
        · exact habove other hmem
      by_cases hbelow : Touches schemas codecs base (address::seen) field.reference source
      · exact ih hrelated hin (fun hno => hnumbers (.under _ _ _ field original source hnew horiginal hkind hsource hno))
          (fun hno => hhides (.under _ _ _ field original source hnew horiginal hkind hsource hno)) hbelow hcopies hnested
      · rw [hrelated.same hbelow] at hnested
        have hafresh : ¬Touches schemas codecs base [] field.reference source := fun hno =>
          hhides (.here _ _ _ field original source htouches hnew horiginal hkind hsource hbelow hno)
        refine hafresh (hnested.within hlinked hgrow (fun field current hinner hany => ?_) hin fun _ hno => absurd hno List.not_mem_nil)
        unfold HoldsRepairable HoldsNaN at hany ⊢
        rw [visitedItems_grow hgrow hinner] at hany
        exact hany

end Repairs

end Baileyrs.ProtoRuntime
