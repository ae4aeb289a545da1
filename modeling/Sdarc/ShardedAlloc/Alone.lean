import Sdarc.ShardedAlloc.Maintenance
import Sdarc.ShardedAlloc.GroupMaintenance
set_option autoImplicit false

/-!
The two models of the allocator compared. Where nothing comes between them, the steps of a
claim and of a maintenance compute what the functions of the group do.
-/

namespace Sdarc.FullShardAlloc
open ShardedAlloc

section Claiming

variable {n : Nat} {T : Type} {c k unit : Nat} {fresh : Bool}

/-- Where a call is when the loop of `allocate_without_initializing` is over. -/
def claimed (unit : Nat) (fresh : Bool) : Option ShardedDataPtr → CallPc
  | some ptr => .initializing ptr 0 fresh
  | none => .claiming unit SLOT_COUNT_PER_UNIT fresh

theorem claimFrom_alone (m : Nat) : ∀ (slot : Nat) (s : State) (h : Heap T),
    slot + m = SLOT_COUNT_PER_UNIT → h.usageFlags = s.usageFlags →
    s.calls c = some ⟨k,.claiming unit slot fresh⟩ →
    ∃ j s', Transition.run (step n) s (List.replicate j (.swapUsageFlag c)) = some s' ∧
      (h.claimFrom unit (List.range' slot m)).2.usageFlags = s'.usageFlags ∧
      s'.calls c = some ⟨k,claimed unit fresh (h.claimFrom unit (List.range' slot m)).1⟩ := by
  induction m with
  | zero =>
    intro slot s h hslot hflags hc
    obtain rfl : slot = SLOT_COUNT_PER_UNIT := hslot
    exact ⟨0,s,rfl,hflags,hc⟩
  | succ m ih =>
    intro slot s h hslot hflags hc
    have hlt : slot < SLOT_COUNT_PER_UNIT := by omega
    simp only [List.range'_succ,Heap.claimFrom,hflags]
    cases hused : s.usageFlags ⟨unit,slot⟩ with
    | true =>
      let s₁ := (s.setFlag ⟨unit,slot⟩ true).setCall c ⟨k,.claiming unit (slot + 1) fresh⟩
      have hstep : step n s (.swapUsageFlag c) = some s₁ := by
        simp [step,State.swapUsageFlag,hc,hlt,hused,s₁]
      obtain ⟨j,s',hrun,hflags',hc'⟩ := ih (slot + 1) s₁ (h.setFlag ⟨unit,slot⟩ true) (by omega)
        (by simp [s₁,State.setCall,State.setFlag,hflags]) (by simp [s₁,State.setCall])
      refine ⟨j + 1,s',?_,by simpa using hflags',by simpa using hc'⟩
      simp [List.replicate_succ,Transition.run,hstep,hrun]
    | false =>
      let s₁ := (s.setFlag ⟨unit,slot⟩ true).setCall c ⟨k,.initializing ⟨unit,slot⟩ 0 fresh⟩
      have hstep : step n s (.swapUsageFlag c) = some s₁ := by
        simp [step,State.swapUsageFlag,hc,hlt,hused,s₁]
      refine ⟨1,s₁,by simp [Transition.run,hstep],?_,?_⟩
      · simp [s₁,State.setCall,State.setFlag,hflags]
      · simp [s₁,State.setCall,claimed]

theorem allocateWithoutInitializing_alone {s : State} (h : Heap T)
    (hflags : h.usageFlags = s.usageFlags) (hc : s.calls c = some ⟨k,.claiming unit 0 fresh⟩) :
    ∃ j s', Transition.run (step n) s (List.replicate j (.swapUsageFlag c)) = some s' ∧
      (h.allocateWithoutInitializing unit).2.usageFlags = s'.usageFlags ∧
      s'.calls c = some ⟨k,claimed unit fresh (h.allocateWithoutInitializing unit).1⟩ := by
  rw [Heap.allocateWithoutInitializing,List.range_eq_range']
  exact claimFrom_alone SLOT_COUNT_PER_UNIT 0 s h (Nat.zero_add _) hflags hc

end Claiming

namespace FillingGroup

/-- The steps of `do_maintenance` from `x` to `y` while no flag changes, and the units they
release. -/
inductive Maintained (usageFlags : ShardedDataPtr → Bool) :
    FillingGroup → List Nat → FillingGroup → Prop where
  | refl (x : FillingGroup) : Maintained usageFlags x [] x
  | goesOn {x y z : FillingGroup} {units : List Nat} :
      x.doMaintenance usageFlags = some (.goesOn y) → Maintained usageFlags y units z →
      Maintained usageFlags x units z
  | releases {x y z : FillingGroup} {unit : Nat} {units : List Nat} :
      x.doMaintenance usageFlags = some (.releases unit y) → Maintained usageFlags y units z →
      Maintained usageFlags x (unit :: units) z

section Maintained

variable {T : Type} {h : Heap T} {kept rest indexes units : List Nat} {unit slot : Nat}
  {z : FillingGroup}

theorem Maintained.keep (m : Nat) : ∀ slot, slot + m = SLOT_COUNT_PER_UNIT →
    (∃ i, slot ≤ i ∧ i < SLOT_COUNT_PER_UNIT ∧ h.usageFlags ⟨unit,i⟩ = true) →
    Maintained h.usageFlags (.retaining (kept ++ [unit]) rest indexes 0) units z →
    Maintained h.usageFlags (.retaining kept (unit :: rest) indexes slot) units z := by
  induction m with
  | zero =>
    intro slot hslot hused _
    obtain ⟨i,hi,hlt,-⟩ := hused
    omega
  | succ m ih =>
    intro slot hslot hused hrest
    have hlt : slot < SLOT_COUNT_PER_UNIT := by omega
    cases hflag : h.usageFlags ⟨unit,slot⟩ with
    | true => exact .goesOn (by simp [doMaintenance,hlt,hflag]) hrest
    | false =>
      refine .goesOn (y := .retaining kept (unit :: rest) indexes (slot + 1))
        (by simp [doMaintenance,hlt,hflag]) (ih (slot + 1) (by omega) ?_ hrest)
      obtain ⟨i,hi,hilt,hused⟩ := hused
      have hne : i ≠ slot := by
        rintro rfl
        rw [hflag] at hused
        contradiction
      exact ⟨i,by omega,hilt,hused⟩

theorem Maintained.drop (hunused : ∀ i, i < SLOT_COUNT_PER_UNIT → h.usageFlags ⟨unit,i⟩ = false)
    (m : Nat) : ∀ slot, slot + m = SLOT_COUNT_PER_UNIT →
    Maintained h.usageFlags (.retaining kept rest indexes 0) units z →
    Maintained h.usageFlags (.dropping kept unit rest indexes slot) (unit :: units) z := by
  induction m with
  | zero =>
    intro slot hslot hrest
    have hend : ¬ slot < SLOT_COUNT_PER_UNIT := by omega
    exact .releases (by simp [doMaintenance,hend]) hrest
  | succ m ih =>
    intro slot hslot hrest
    have hlt : slot < SLOT_COUNT_PER_UNIT := by omega
    exact .goesOn (by simp [doMaintenance,hlt,hunused slot hlt]) (ih (slot + 1) (by omega) hrest)

theorem Maintained.release (hunused : ∀ i, i < SLOT_COUNT_PER_UNIT → h.usageFlags ⟨unit,i⟩ = false)
    (m : Nat) : ∀ slot, slot + m = SLOT_COUNT_PER_UNIT →
    Maintained h.usageFlags (.retaining kept rest indexes 0) units z →
    Maintained h.usageFlags (.retaining kept (unit :: rest) indexes slot) (unit :: units) z := by
  induction m with
  | zero =>
    intro slot hslot hrest
    have hend : ¬ slot < SLOT_COUNT_PER_UNIT := by omega
    exact .goesOn (by simp [doMaintenance,hend]) (.drop hunused _ 0 (Nat.zero_add _) hrest)
  | succ m ih =>
    intro slot hslot hrest
    have hlt : slot < SLOT_COUNT_PER_UNIT := by omega
    exact .goesOn (by simp [doMaintenance,hlt,hunused slot hlt]) (ih (slot + 1) (by omega) hrest)

theorem Maintained.retain (rest : List Nat) : ∀ kept,
    Maintained h.usageFlags (.listing (.start (kept ++ rest.filter h.isAnySlotUsed)) 0) [] z →
    Maintained h.usageFlags (.retaining kept rest indexes 0)
      (rest.filter (fun unit => !h.isAnySlotUsed unit)) z := by
  induction rest with
  | nil =>
    intro kept hlist
    rw [List.filter_nil,List.append_nil] at hlist
    exact .goesOn rfl hlist
  | cons unit rest ih =>
    intro kept hlist
    cases hused : h.isAnySlotUsed unit with
    | true =>
      obtain ⟨i,hi,hflag⟩ := isAnySlotUsed_iff.mp hused
      rw [List.filter_cons_of_pos hused,List.append_cons] at hlist
      rw [List.filter_cons_of_neg (by simp [hused])]
      exact .keep _ 0 (Nat.zero_add _) ⟨i,Nat.zero_le i,hi,hflag⟩ (ih _ hlist)
    | false =>
      have hunused : ∀ i, i < SLOT_COUNT_PER_UNIT → h.usageFlags ⟨unit,i⟩ = false := by
        simpa [Heap.isAnySlotUsed] using hused
      rw [List.filter_cons_of_neg (by simp [hused])] at hlist
      rw [List.filter_cons_of_pos (by simp [hused])]
      exact .release hunused _ 0 (Nat.zero_add _) (ih kept hlist)

theorem Maintained.push {l : Listing} (hnext : l.next < l.allUnits.length) (m : Nat) :
    ∀ slot, slot + m = SLOT_COUNT_PER_UNIT →
    (∃ i, slot ≤ i ∧ i < SLOT_COUNT_PER_UNIT ∧
      h.usageFlags ⟨l.allUnits.get ⟨l.next,hnext⟩,i⟩ = false) →
    Maintained h.usageFlags (.listing (l.push hnext) 0) units z →
    Maintained h.usageFlags (.listing l slot) units z := by
  induction m with
  | zero =>
    intro slot hslot hfree _
    obtain ⟨i,hi,hlt,-⟩ := hfree
    omega
  | succ m ih =>
    intro slot hslot hfree hrest
    have hlt : slot < SLOT_COUNT_PER_UNIT := by omega
    cases hflag : h.usageFlags ⟨l.allUnits.get ⟨l.next,hnext⟩,slot⟩ with
    | false =>
      refine .goesOn ?_ hrest
      simp only [doMaintenance,hnext,dif_pos,hlt,if_true,hflag,Bool.false_eq_true,if_false]
    | true =>
      refine .goesOn ?_ (ih (slot + 1) (by omega) ?_ hrest)
      · simp only [doMaintenance,hnext,dif_pos,hlt,if_true,hflag]
      · obtain ⟨i,hi,hilt,hfree⟩ := hfree
        have hne : i ≠ slot := by
          rintro rfl
          rw [hflag] at hfree
          contradiction
        exact ⟨i,by omega,hilt,hfree⟩

theorem Maintained.skip {l : Listing} (hnext : l.next < l.allUnits.length)
    (hfull : h.full (l.allUnits.get ⟨l.next,hnext⟩)) (m : Nat) :
    ∀ slot, slot + m = SLOT_COUNT_PER_UNIT →
    Maintained h.usageFlags (.listing (l.skip hnext) 0) units z →
    Maintained h.usageFlags (.listing l slot) units z := by
  induction m with
  | zero =>
    intro slot hslot hrest
    have hend : ¬ slot < SLOT_COUNT_PER_UNIT := by omega
    refine .goesOn ?_ hrest
    simp only [doMaintenance,hnext,dif_pos,hend,if_false]
  | succ m ih =>
    intro slot hslot hrest
    have hlt : slot < SLOT_COUNT_PER_UNIT := by omega
    refine .goesOn ?_ (ih (slot + 1) (by omega) hrest)
    simp only [doMaintenance,hnext,dif_pos,hlt,if_true,hfull slot hlt]

theorem Maintained.list (rest : List Nat) : ∀ (l : Listing) (before : List Nat),
    l.allUnits = before ++ rest → l.next = before.length →
    ∃ g : AllocUnitGroup, Maintained h.usageFlags (.listing l 0) [] (.whole g) ∧
      g.allUnits = l.allUnits ∧ g.indexesOfUnitsToCheckForAllocation = l.indexes ++
        ((rest.zipIdx l.next).filter (fun p => h.hasAnyFreeSlot p.1)).map Prod.snd := by
  induction rest with
  | nil =>
    intro l before hunits hnext
    have hend : ¬ l.next < l.allUnits.length := by simp [hunits,hnext]
    refine ⟨l.finish,.goesOn ?_ (.refl _),rfl,by simp [Listing.finish]⟩
    simp only [doMaintenance,hend,dif_neg,not_false_eq_true]
  | cons unit rest ih =>
    intro l before hunits hnext
    have hlt : l.next < l.allUnits.length := by simp [hunits,hnext]
    have hget : l.allUnits.get ⟨l.next,hlt⟩ = unit := by simp [hunits,hnext]
    have hlen : l.next + 1 = (before ++ [unit]).length := by simp [hnext]
    have hsplit : l.allUnits = (before ++ [unit]) ++ rest := by simp [hunits]
    cases hfree : h.hasAnyFreeSlot unit with
    | true =>
      obtain ⟨g,hrun,hall,hindexes⟩ := ih (l.push hlt) (before ++ [unit]) hsplit hlen
      refine ⟨g,.push hlt _ 0 (Nat.zero_add _) ?_ hrun,hall,?_⟩
      · rw [hget]
        simpa [Heap.hasAnyFreeSlot] using hfree
      · rw [hindexes]
        simp [Listing.push,hfree]
    | false =>
      obtain ⟨g,hrun,hall,hindexes⟩ := ih (l.skip hlt) (before ++ [unit]) hsplit hlen
      refine ⟨g,.skip hlt ?_ _ 0 (Nat.zero_add _) hrun,hall,?_⟩
      · rw [hget]
        by_contra hnot
        rw [hasAnyFreeSlot_iff.mpr hnot] at hfree
        contradiction
      · rw [hindexes]
        simp [Listing.skip,hfree]

end Maintained

end FillingGroup

theorem doMaintenance_alone {T : Type} (g : AllocUnitGroup) (h : Heap T) :
    ∃ g₀ h₀ released, g.doMaintenance h = (.done g₀,h₀) ∧
      h₀.released = h.released ++ released ∧
      FillingGroup.Maintained h.usageFlags (.startMaintenance g) released (.whole g₀) := by
  refine ⟨_,_,_,g.doMaintenance_done h,rfl,FillingGroup.Maintained.retain g.allUnits [] ?_⟩
  obtain ⟨g₀,hrun,hunits,hindexes⟩ := FillingGroup.Maintained.list (h := h)
    (g.allUnits.filter h.isAnySlotUsed) (.start _) [] rfl rfl
  have heq : g₀ = .relisted h (g.allUnits.filter h.isAnySlotUsed) :=
    AllocUnitGroup.ext hunits hindexes
  rwa [heq] at hrun

end Sdarc.FullShardAlloc
