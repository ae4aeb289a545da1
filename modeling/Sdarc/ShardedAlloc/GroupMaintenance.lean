import Sdarc.ShardedAlloc.Nested
set_option autoImplicit false

/-!
`do_maintenance` of one group, and the allocations from the group that follow it with no
slot given back. An `init_func` may do anything outside of the group.
-/

namespace Sdarc.ShardedAlloc

namespace Heap

variable {T : Type} (h : Heap T)

def hasAnyFreeSlot (unit : Nat) : Bool :=
  (List.range SLOT_COUNT_PER_UNIT).any (fun slot => !h.usageFlags ⟨unit,slot⟩)

/-- The `retain_mut` of `do_maintenance`. -/
def retainUsed (h : Heap T) : List Nat → Outcome (List Nat) × Heap T
  | [] => (.done [],h)
  | unit :: units =>
      if h.isAnySlotUsed unit then
        match h.retainUsed units with
        | (.done kept,h') => (.done (unit :: kept),h')
        | r => r
      else
        match h.dropUnit unit with
        | (.done (),h') => h'.retainUsed units
        | (.unwound,h') => (.unwound,h')
        | (.deadlocked,h') => (.deadlocked,h')
        | (.aborted site,h') => (.aborted site,h')

/-- The second loop of `do_maintenance`. -/
def indexesWithFreeSlot (units : List Nat) : List Nat :=
  (units.zipIdx.filter (fun p => h.hasAnyFreeSlot p.1)).map Prod.snd

theorem mem_indexesWithFreeSlot {units : List Nat} {i : Nat} :
    i ∈ h.indexesWithFreeSlot units ↔
      ∃ unit, units[i]? = some unit ∧ h.hasAnyFreeSlot unit = true := by
  simp only [indexesWithFreeSlot,List.mem_map,List.mem_filter,Prod.exists,
    List.mem_zipIdx_iff_getElem?,exists_eq_right]

theorem indexesWithFreeSlot_nodup (units : List Nat) :
    (h.indexesWithFreeSlot units).Nodup := by
  have hsub : (h.indexesWithFreeSlot units).Sublist (units.zipIdx.map Prod.snd) :=
    List.Sublist.map _ List.filter_sublist
  refine hsub.nodup ?_
  rw [List.zipIdx_map_snd]
  exact List.nodup_range'

end Heap

namespace AllocUnitGroup

variable {T : Type}

def relisted (h : Heap T) (units : List Nat) : AllocUnitGroup where
  allUnits := units
  indexesOfUnitsToCheckForAllocation := h.indexesWithFreeSlot units
  indexes_lt i hi := by
    obtain ⟨unit,hunit,-⟩ := h.mem_indexesWithFreeSlot.mp hi
    exact (List.getElem?_eq_some_iff.mp hunit).1
  indexes_nodup := h.indexesWithFreeSlot_nodup units

def doMaintenance (g : AllocUnitGroup) (h : Heap T) : Outcome AllocUnitGroup × Heap T :=
  match h.retainUsed g.allUnits with
  | (.done kept,h') => (.done (relisted h' kept),h')
  | (.unwound,h') => (.unwound,h')
  | (.deadlocked,h') => (.deadlocked,h')
  | (.aborted site,h') => (.aborted site,h')

end AllocUnitGroup

section Maintenance

variable {T : Type} {h h' : Heap T} {unit : Nat}

theorem isAnySlotUsed_iff : h.isAnySlotUsed unit = true ↔
    ∃ slot, slot < SLOT_COUNT_PER_UNIT ∧ h.usageFlags ⟨unit,slot⟩ = true := by
  simp [Heap.isAnySlotUsed]

theorem hasAnyFreeSlot_iff : h.hasAnyFreeSlot unit = true ↔ ¬ h.full unit := by
  simp [Heap.hasAnyFreeSlot,Heap.full]

theorem retainUsed_done (units : List Nat) : h.retainUsed units =
    (.done (units.filter h.isAnySlotUsed),
      { h with released := h.released ++ units.filter (fun unit => !h.isAnySlotUsed unit) }) := by
  induction units generalizing h with
  | nil => simp [Heap.retainUsed]
  | cons unit units ih =>
    cases hused : h.isAnySlotUsed unit with
    | true => simp [Heap.retainUsed,hused,ih]
    | false =>
      have hsame : ({ h with released := h.released ++ [unit] } : Heap T).isAnySlotUsed =
          h.isAnySlotUsed := rfl
      simp [Heap.retainUsed,hused,dropUnit_done hused,ih,hsame]

theorem AllocUnitGroup.doMaintenance_done (g : AllocUnitGroup) (h : Heap T) :
    g.doMaintenance h = (.done (.relisted h (g.allUnits.filter h.isAnySlotUsed)),
      { h with released :=
          h.released ++ g.allUnits.filter (fun unit => !h.isAnySlotUsed unit) }) := by
  simp only [AllocUnitGroup.doMaintenance,retainUsed_done]
  rfl

end Maintenance

/-- Between `h` and `h'` no slot of the units has been claimed or given back, and no value
in one has been dropped. -/
structure Elsewhere {T : Type} (units : List Nat) (h h' : Heap T) : Prop where
  nextUnit_le : h.nextUnit ≤ h'.nextUnit
  flags : ∀ p, p.unit ∈ units → h'.usageFlags p = h.usageFlags p
  cells : ∀ p k, p.unit ∈ units → (h.cells p k).isSome → (h'.cells p k).isSome

theorem Elsewhere.refl {T : Type} (units : List Nat) (h : Heap T) : Elsewhere units h h :=
  ⟨le_rfl,fun _ _ => rfl,fun _ _ _ hsome => hsome⟩

/-- The user's code leaves the units alone: a call of `init_func` returns, or panics for the
shards in `panics`, and a destructor returns. -/
structure InitFunc.Confined {T : Type} (init : InitFunc T) (panics : Nat → Prop)
    (units : List Nat) : Prop where
  call : ∀ k h, ((∃ v, (init.call k h).1 = .done v) ∧ ¬ panics k ∨
      (init.call k h).1 = .unwound ∧ panics k) ∧
    Elsewhere units h (init.call k h).2
  destructor : ∀ k h, (init.destructor k h).1 = .done () ∧
    Elsewhere units h (init.destructor k h).2

theorem pureInit_confined {T : Type} (f : Nat → Option T) (units : List Nat) :
    (pureInit f).Confined (fun k => f k = none) units where
  call k h := by
    simp only [pureInit_call]
    cases f k with
    | some v => exact ⟨.inl ⟨⟨v,rfl⟩,by simp⟩,.refl units h⟩
    | none => exact ⟨.inr ⟨rfl,rfl⟩,.refl units h⟩
  destructor k h := ⟨rfl,.refl units h⟩

section Confined

variable {T : Type} {n : Nat} {units : List Nat} {h h' : Heap T} {ptr : ShardedDataPtr}
  {init : InitFunc T} {panics : Nat → Prop}

theorem used_of_update {p : ShardedDataPtr}
    (hflags : h'.usageFlags p = Function.update h.usageFlags ptr true p)
    (hused : h.usageFlags p = true) : h'.usageFlags p = true := by
  rw [hflags]
  by_cases hp : p = ptr
  · rw [hp,Function.update_self]
  · rw [Function.update_of_ne hp]
    exact hused

theorem dropCells_confined (hc : init.Confined panics units) (hptr : ptr.unit ∈ units) (m : Nat) :
    ∀ j (h : Heap T), (∀ k, j ≤ k → k < j + m → (h.cells ptr k).isSome) →
      ∃ h', h.dropCells init.destructor ptr (List.range' j m) = (.done (),h') ∧
        h.nextUnit ≤ h'.nextUnit ∧ ∀ p, p.unit ∈ units → h'.usageFlags p = h.usageFlags p := by
  induction m with
  | zero => exact fun j h _ => ⟨h,rfl,le_rfl,fun _ _ => rfl⟩
  | succ m ih =>
    intro j h hcells
    obtain ⟨v,hv⟩ := Option.isSome_iff_exists.mp (hcells j le_rfl (by omega))
    obtain ⟨hdone,helse⟩ := hc.destructor j (h.dropInPlace ptr j v)
    rw [List.range'_succ]
    simp only [Heap.dropCells,hv]
    generalize init.destructor j (h.dropInPlace ptr j v) = r at hdone helse
    obtain ⟨o,h₁⟩ := r
    obtain rfl : o = .done () := hdone
    obtain ⟨h',hrest,hnext,hflags⟩ := ih (j+1) h₁ (fun k hk hkm =>
      helse.cells ptr k hptr (by
        have hkj : k ≠ j := by omega
        simpa [hkj] using hcells k (by omega) (by omega)))
    exact ⟨h',hrest,helse.nextUnit_le.trans hnext,
      fun p hp => (hflags p hp).trans (helse.flags p hp)⟩

theorem unwind_confined (hc : init.Confined panics units) (hptr : ptr.unit ∈ units) {j : Nat}
    (hused : h.usageFlags ptr = true) (hcells : ∀ k, k < j → (h.cells ptr k).isSome) :
    ∃ h', h.unwind init.destructor ptr j = (.done (),h') ∧ h.nextUnit ≤ h'.nextUnit ∧
      ∀ p, p.unit ∈ units → h'.usageFlags p = Function.update h.usageFlags ptr false p := by
  obtain ⟨d,hdrop,hnext,hflags⟩ := dropCells_confined hc hptr j 0 h
    (fun k _ hk => hcells k (by omega))
  rw [← List.range_eq_range'] at hdrop
  have hused' : d.usageFlags ptr = true := (hflags ptr hptr).trans hused
  refine ⟨d.setFlag ptr false,?_,hnext,fun p hp => ?_⟩
  · simp only [Heap.unwind,hdrop,Heap.deallocateWithoutDropping,hused',if_true]
  · by_cases hpp : p = ptr
    · simp [hpp]
    · simpa [hpp] using hflags p hp

theorem writeCells_confined (hc : init.Confined panics units) (hptr : ptr.unit ∈ units)
    (m : Nat) :
    ∀ j h, h.usageFlags ptr = true → (∀ k, k < j → (h.cells ptr k).isSome) →
      ∃ o h', Heap.writeCells init ptr (List.range' j m) h = (o,h') ∧
        h.nextUnit ≤ h'.nextUnit ∧
        (o = .done () ∧ (∀ k, j ≤ k → k < j + m → ¬ panics k) ∧
            (∀ p, p.unit ∈ units → h'.usageFlags p = h.usageFlags p) ∨
          o = .unwound ∧ (∃ k, j ≤ k ∧ k < j + m ∧ panics k) ∧ ∀ p, p.unit ∈ units →
            h'.usageFlags p = Function.update h.usageFlags ptr false p) := by
  induction m with
  | zero =>
    exact fun j h _ _ => ⟨.done (),h,rfl,le_rfl,.inl ⟨rfl,fun k _ _ => by omega,fun _ _ => rfl⟩⟩
  | succ m ih =>
    intro j h hused hcells
    obtain ⟨hends,helse⟩ := hc.call j h
    rw [List.range'_succ]
    simp only [Heap.writeCells]
    have hused' : (init.call j h).2.usageFlags ptr = true := (helse.flags ptr hptr).trans hused
    have hcells' : ∀ k, k < j → ((init.call j h).2.cells ptr k).isSome :=
      fun k hk => helse.cells ptr k hptr (hcells k hk)
    generalize init.call j h = r at hends helse hused' hcells'
    obtain ⟨o,h₁⟩ := r
    rcases hends with ⟨⟨v,rfl⟩,hfine⟩ | ⟨rfl,hpanics⟩
    · obtain ⟨o,h',hrest,hnext,hflags⟩ := ih (j+1) (h₁.setCell ptr j (some v)) hused' (by
        intro k hk
        by_cases hkj : k = j
        · simp [hkj]
        · simpa [hkj] using hcells' k (by omega))
      refine ⟨o,h',hrest,helse.nextUnit_le.trans hnext,?_⟩
      rcases hflags with ⟨rfl,hnone,hflags⟩ | ⟨rfl,⟨k,hk,hkm,hpanics⟩,hflags⟩
      · refine .inl ⟨rfl,fun k hk hkm => ?_,fun p hp => (hflags p hp).trans (helse.flags p hp)⟩
        by_cases hkj : k = j
        · exact hkj ▸ hfine
        · exact hnone k (by omega) (by omega)
      · refine .inr ⟨rfl,⟨k,by omega,by omega,hpanics⟩,fun p hp => ?_⟩
        rw [hflags p hp]
        by_cases hpp : p = ptr
        · simp [hpp]
        · simpa [hpp] using helse.flags p hp
    · obtain ⟨h₂,hunwind,hnext,hflags⟩ := unwind_confined hc hptr hused' hcells'
      refine ⟨.unwound,h₂,by simp only [hunwind],helse.nextUnit_le.trans hnext,
        .inr ⟨rfl,⟨j,le_rfl,by omega,hpanics⟩,fun p hp => ?_⟩⟩
      rw [hflags p hp]
      by_cases hpp : p = ptr
      · simp [hpp]
      · simpa [hpp] using helse.flags p hp

/-- A unit that is not full: its first free slot is claimed for good, or the unit is left as
it was because `init_func` panics. -/
theorem allocateAndInitialize_confined (hc : init.Confined panics units) {unit : Nat}
    (hunit : unit ∈ units) (hfree : ¬ h.full unit) :
    ∃ slot o h', slot < SLOT_COUNT_PER_UNIT ∧ h.usageFlags ⟨unit,slot⟩ = false ∧
      h.allocateAndInitialize n init unit = (o,h') ∧ h.nextUnit ≤ h'.nextUnit ∧
      (o = .done (some ⟨unit,slot⟩) ∧ (∀ k, k < n → ¬ panics k) ∧ (∀ p, p.unit ∈ units →
          h'.usageFlags p = Function.update h.usageFlags ⟨unit,slot⟩ true p) ∨
        o = .unwound ∧ (∃ k, k < n ∧ panics k) ∧
          ∀ p, p.unit ∈ units → h'.usageFlags p = h.usageFlags p) := by
  obtain ⟨slot,hslot,hflag,hclaim⟩ := allocateWithoutInitializing_of_not_full hfree
  have hptr : (⟨unit,slot⟩ : ShardedDataPtr).unit ∈ units := hunit
  obtain ⟨o,h',hwrite,hnext,hflags⟩ := writeCells_confined hc hptr n 0
    (h.setFlag ⟨unit,slot⟩ true) (by simp) (fun k hk => absurd hk (Nat.not_lt_zero k))
  rw [← List.range_eq_range'] at hwrite
  refine ⟨slot,?_⟩
  simp only [Heap.allocateAndInitialize,hclaim,hwrite]
  rcases hflags with ⟨rfl,hnone,hflags⟩ | ⟨rfl,⟨k,-,hk,hpanics⟩,hflags⟩
  · exact ⟨.done (some ⟨unit,slot⟩),h',hslot,hflag,rfl,hnext,
      .inl ⟨rfl,fun k hk => hnone k (Nat.zero_le k) (by omega),hflags⟩⟩
  · refine ⟨.unwound,h',hslot,hflag,rfl,hnext,.inr ⟨rfl,⟨k,by omega,hpanics⟩,fun p hp => ?_⟩⟩
    rw [hflags p hp]
    by_cases hpp : p = ⟨unit,slot⟩
    · simp [hpp,hflag]
    · simp [hpp]

end Confined

namespace AllocUnitGroup

structure Covered {T : Type} (g : AllocUnitGroup) (h : Heap T) : Prop where
  units_lt : ∀ unit, unit ∈ g.allUnits → unit < h.nextUnit
  listed : ∀ i unit, g.allUnits[i]? = some unit → ¬ h.full unit →
    i ∈ g.indexesOfUnitsToCheckForAllocation

/-- The slot that an allocation returns was a free one of the group; if there was none, it is
in a new unit, which is listed. -/
structure Returned {T : Type} (g : AllocUnitGroup) (h : Heap T) (ptr : ShardedDataPtr)
    (g' : AllocUnitGroup) : Prop where
  slot_lt : ptr.slot < SLOT_COUNT_PER_UNIT
  unit : ptr.unit ∈ g.allUnits ∧ h.usageFlags ptr = false ∧ g'.allUnits = g.allUnits ∨
    (∀ unit, unit ∈ g.allUnits → h.full unit) ∧ ptr.unit = h.nextUnit ∧
      g'.allUnits = g.allUnits ++ [h.nextUnit] ∧
      g.allUnits.length ∈ g'.indexesOfUnitsToCheckForAllocation

structure Allocated {T : Type} (n : Nat) (panics : Nat → Prop) (g : AllocUnitGroup) (h : Heap T)
    (r : Outcome ShardedDataPtr × AllocUnitGroup × Heap T) : Prop where
  covered : r.2.1.Covered r.2.2
  ends : (∃ ptr, r.1 = .done ptr ∧ Returned g h ptr r.2.1) ∧ (∀ k, k < n → ¬ panics k) ∨
    r.1 = .unwound ∧ r.2.1.allUnits = g.allUnits ∧ ∃ k, k < n ∧ panics k
  units : ∀ unit, unit ∈ g.allUnits → unit ∈ r.2.1.allUnits
  used : ∀ p, p.unit ∈ g.allUnits → h.usageFlags p = true → r.2.2.usageFlags p = true
  returned : ∀ ptr, r.1 = .done ptr → ptr.unit ∈ r.2.1.allUnits ∧ r.2.2.usageFlags ptr = true ∧
    ∀ p, p.unit ∈ g.allUnits → h.usageFlags p = true → p ≠ ptr
  grown : r.2.1.allUnits ≠ g.allUnits → ∀ unit, unit ∈ g.allUnits → h.full unit

section Allocate

variable {T : Type} {n : Nat} {g g' : AllocUnitGroup} {h h' : Heap T} {init : InitFunc T}
  {panics : Nat → Prop}

theorem Covered.congr (hcov : g.Covered h) (hnext : h.nextUnit ≤ h'.nextUnit)
    (hused : ∀ p, p.unit ∈ g.allUnits → h.usageFlags p = true → h'.usageFlags p = true) :
    g.Covered h' where
  units_lt unit hunit := (hcov.units_lt unit hunit).trans_le hnext
  listed i unit hget hfree := hcov.listed i unit hget (fun hfull => hfree (fun slot hslot =>
    hused ⟨unit,slot⟩ (List.mem_of_getElem? hget) (hfull slot hslot)))

theorem Covered.skipped (hcov : g.Covered h) (hskip : Skipped g g' h) : g'.Covered h := by
  obtain ⟨removed,hperm,hremoved⟩ := hskip.indexes
  refine ⟨hskip.allUnits ▸ hcov.units_lt,fun i unit hget hfree => ?_⟩
  rw [hskip.allUnits] at hget
  have hmem := hcov.listed i unit hget hfree
  rcases List.mem_append.mp (hperm.mem_iff.mp hmem) with hi | hi
  · obtain ⟨unit',hget',hfull⟩ := hremoved i hi
    obtain rfl := Option.some.inj (hget.symm.trans hget')
    exact absurd hfull hfree
  · exact hi

theorem Covered.full_of_nil (hcov : g.Covered h)
    (hnil : g.indexesOfUnitsToCheckForAllocation = []) {unit : Nat} (hunit : unit ∈ g.allUnits) :
    h.full unit := by
  obtain ⟨i,hget⟩ := List.mem_iff_getElem?.mp hunit
  by_contra hfree
  have hmem := hcov.listed i unit hget hfree
  rw [hnil] at hmem
  contradiction

theorem Covered.pushUnit (hcov : g.Covered h)
    (hnil : g.indexesOfUnitsToCheckForAllocation = []) (hlt : h.nextUnit < h'.nextUnit)
    (hold : ∀ p, p.unit ∈ g.allUnits → h.usageFlags p = true → h'.usageFlags p = true) :
    (g.pushUnit h.nextUnit).Covered h' where
  units_lt unit hunit := by
    rcases List.mem_append.mp hunit with hunit | hunit
    · exact (hcov.units_lt unit hunit).trans hlt
    · rwa [List.mem_singleton.mp hunit]
  listed i unit hget hfree := by
    rcases Nat.lt_or_ge i g.allUnits.length with hi | hi
    · have hget' : g.allUnits[i]? = some unit := by
        rwa [AllocUnitGroup.pushUnit,List.getElem?_append_left hi] at hget
      have hunit := List.mem_of_getElem? hget'
      refine absurd (fun slot hslot => ?_) hfree
      exact hold ⟨unit,slot⟩ hunit (hcov.full_of_nil hnil hunit slot hslot)
    · have hlen : i < (g.allUnits ++ [h.nextUnit]).length :=
        (List.getElem?_eq_some_iff.mp hget).1
      rw [List.length_append,List.length_singleton] at hlen
      obtain rfl : i = g.allUnits.length := by omega
      exact List.mem_append_right _ (List.mem_singleton_self _)

theorem allocateInNewUnit_allocated (hcov : g.Covered h)
    (hc : init.Confined panics (h.nextUnit :: g.allUnits))
    (hnil : g.indexesOfUnitsToCheckForAllocation = []) :
    Allocated n panics g h (g.allocateInNewUnit n init h) := by
  have hne : ∀ p : ShardedDataPtr, p.unit ∈ g.allUnits → p.unit ≠ h.nextUnit :=
    fun p hp => (hcov.units_lt p.unit hp).ne
  have hnew : ∀ p : ShardedDataPtr, p.unit ∈ g.allUnits → h.usageFlags p = true →
      h.newUnit.usageFlags p = true := by
    intro p hp hused
    simpa [hne p hp] using hused
  obtain ⟨slot,o,h',hslot,-,hcall,hnext,hflags⟩ :=
    allocateAndInitialize_confined (n := n) hc List.mem_cons_self (newUnit_not_full h)
  have hlt : h.nextUnit < h'.nextUnit := hnext
  simp only [allocateInNewUnit,hcall]
  rcases hflags with ⟨rfl,hnone,hflags⟩ | ⟨rfl,hpanics,hflags⟩
  · have hold : ∀ p, p.unit ∈ g.allUnits → h.usageFlags p = true → h'.usageFlags p = true :=
      fun p hp hused => used_of_update (hflags p (List.mem_cons_of_mem _ hp)) (hnew p hp hused)
    have hreturned : Returned g h ⟨h.nextUnit,slot⟩ (g.pushUnit h.nextUnit) :=
      ⟨hslot,.inr ⟨fun unit hunit => hcov.full_of_nil hnil hunit,rfl,rfl,
        List.mem_append_right _ (List.mem_singleton_self _)⟩⟩
    refine ⟨hcov.pushUnit hnil hlt hold,.inl ⟨⟨_,rfl,hreturned⟩,hnone⟩,
      fun unit hunit => List.mem_append_left _ hunit,hold,fun ptr hptr => ?_,
      fun _ unit hunit => hcov.full_of_nil hnil hunit⟩
    · obtain rfl := Outcome.done.inj hptr
      refine ⟨List.mem_append_right _ (List.mem_singleton_self _),?_,fun p hp _ heq => ?_⟩
      · rw [hflags _ List.mem_cons_self,Function.update_self]
      · exact hne p hp (by rw [heq])
  · have hold : ∀ p, p.unit ∈ g.allUnits → h.usageFlags p = true → h'.usageFlags p = true :=
      fun p hp hused => (hflags p (List.mem_cons_of_mem _ hp)).trans (hnew p hp hused)
    have hunused : h'.isAnySlotUsed h.nextUnit = false := by
      simp only [Heap.isAnySlotUsed,List.any_eq_false,List.mem_range,Bool.not_eq_true]
      intro i _
      rw [hflags _ List.mem_cons_self]
      simp
    simp only [dropUnit_done hunused]
    exact ⟨(hcov.congr hlt.le hold).congr le_rfl (fun _ _ hused => hused),.inr ⟨rfl,rfl,hpanics⟩,
      fun _ hunit => hunit,hold,by simp,by simp⟩

theorem Allocated.skipped {r : Outcome ShardedDataPtr × AllocUnitGroup × Heap T}
    (ha : Allocated n panics g' h r) (hskip : Skipped g g' h) : Allocated n panics g h r := by
  obtain ⟨hcovered,hends,hunits,hused,hreturned,hgrown⟩ := ha
  rw [hskip.allUnits] at hends hunits hused hreturned hgrown
  refine ⟨hcovered,hends.imp_left (fun hdone => ?_),hunits,hused,hreturned,hgrown⟩
  obtain ⟨⟨ptr,hptr,hslot,hunit⟩,hnone⟩ := hdone
  rw [hskip.allUnits] at hunit
  exact ⟨⟨ptr,hptr,hslot,hunit⟩,hnone⟩

theorem allocate_allocated (hcov : g.Covered h)
    (hc : init.Confined panics (h.nextUnit :: g.allUnits)) :
    Allocated n panics g h (g.allocate n init h) := by
  have hcases := allocateFrom_cases (n := n) (g := g) (h := h) init
    (P := fun _ r => Allocated n panics g h r) ?_ ?_
  · obtain ⟨-,hall⟩ := hcases
    exact hall
  · intro g' hskip hnil
    have hnew := allocateInNewUnit_allocated (n := n) (hcov.skipped hskip)
      (by rw [hskip.allUnits]; exact hc) hnil
    exact hnew.skipped hskip
  · intro g' unit hskip hunit hmem hfree remaining
    obtain ⟨slot,o,h',hslot,hflag,hcall,hnext,hflags⟩ :=
      allocateAndInitialize_confined (n := n) hc (List.mem_cons_of_mem _ hmem) hfree
    have hcov' := hcov.skipped hskip
    simp only [allocateFrom,hunit,hcall]
    rcases hflags with ⟨rfl,hnone,hflags⟩ | ⟨rfl,hpanics,hflags⟩
    · have hold : ∀ p, p.unit ∈ g.allUnits → h.usageFlags p = true →
          h'.usageFlags p = true :=
        fun p hp hused => used_of_update (hflags p (List.mem_cons_of_mem _ hp)) hused
      have hreturned : Returned g h ⟨unit,slot⟩ g' := ⟨hslot,.inl ⟨hmem,hflag,hskip.allUnits⟩⟩
      refine ⟨hcov'.congr hnext (hskip.allUnits ▸ hold),.inl ⟨⟨_,rfl,hreturned⟩,hnone⟩,
        fun u hu => hskip.allUnits ▸ hu,hold,fun ptr hptr => ?_,fun hgrown => ?_⟩
      · obtain rfl := Outcome.done.inj hptr
        refine ⟨hskip.allUnits ▸ hmem,?_,fun p _ hused heq => ?_⟩
        · rw [hflags _ (List.mem_cons_of_mem _ hmem),Function.update_self]
        · rw [heq,hflag] at hused
          contradiction
      · exact absurd hskip.allUnits hgrown
    · have hold : ∀ p, p.unit ∈ g.allUnits → h.usageFlags p = true →
          h'.usageFlags p = true :=
        fun p hp hused => (hflags p (List.mem_cons_of_mem _ hp)).trans hused
      exact ⟨hcov'.congr hnext (hskip.allUnits ▸ hold),.inr ⟨rfl,hskip.allUnits,hpanics⟩,
        fun u hu => hskip.allUnits ▸ hu,hold,by simp,
        fun hgrown => absurd hskip.allUnits hgrown⟩

theorem unitToCheck_of_nil (hnil : g.indexesOfUnitsToCheckForAllocation = []) :
    g.unitToCheck = none := by
  unfold unitToCheck
  split
  · rfl
  · rename_i i rest hcons
    rw [hnil] at hcons
    contradiction

theorem allocateFrom_of_le (init : InitFunc T) (m : Nat) : ∀ g h,
    g.indexesOfUnitsToCheckForAllocation.length ≤ m →
      allocateFrom n init m g h = g.allocate n init h := by
  induction m with
  | zero =>
    intro g h hle
    rw [allocate,Nat.le_zero.mp hle]
  | succ m ih =>
    intro g h hle
    cases hlist : g.indexesOfUnitsToCheckForAllocation with
    | nil =>
      have hnone := unitToCheck_of_nil hlist
      simp only [allocate,allocateFrom,hlist,List.length_nil,hnone]
    | cons i rest =>
      obtain ⟨unit,hunit,-⟩ := unitToCheck_eq hlist
      have hskip : g.skipFirst.indexesOfUnitsToCheckForAllocation.length = rest.length := by
        change (swapRemoveFirst g.indexesOfUnitsToCheckForAllocation).length = rest.length
        rw [hlist,(swapRemoveFirst_perm i rest).length_eq]
      have hrest : ∀ h', allocateFrom n init m g.skipFirst h' =
          allocateFrom n init rest.length g.skipFirst h' := by
        intro h'
        rw [ih g.skipFirst h' (by rw [hskip]; simpa [hlist] using hle),allocate,hskip]
      simp only [allocate,hlist,List.length_cons,allocateFrom,hunit,hrest]

end Allocate

/-- The group and the heap after some allocations from the group and what they returned, in
order. No slot of the group is given back; the rest of the process goes on between them. -/
inductive Allocations {T : Type} (n : Nat) (g : AllocUnitGroup) (h : Heap T) :
    AllocUnitGroup → Heap T → List ShardedDataPtr → Prop where
  | start : Allocations n g h g h []
  | elsewhere {g' : AllocUnitGroup} {h' h'' : Heap T} {ptrs : List ShardedDataPtr} :
      Allocations n g h g' h' ptrs → Elsewhere g'.allUnits h' h'' →
      Allocations n g h g' h'' ptrs
  | returned {g' g'' : AllocUnitGroup} {h' h'' : Heap T} {ptrs : List ShardedDataPtr}
      {init : InitFunc T} {panics : Nat → Prop} {ptr : ShardedDataPtr} :
      Allocations n g h g' h' ptrs → init.Confined panics (h'.nextUnit :: g'.allUnits) →
      g'.allocate n init h' = (.done ptr,g'',h'') → Allocations n g h g'' h'' (ptrs ++ [ptr])
  | panicked {g' g'' : AllocUnitGroup} {h' h'' : Heap T} {ptrs : List ShardedDataPtr}
      {init : InitFunc T} {panics : Nat → Prop} :
      Allocations n g h g' h' ptrs → init.Confined panics (h'.nextUnit :: g'.allUnits) →
      g'.allocate n init h' = (.unwound,g'',h'') → Allocations n g h g'' h'' ptrs

section Run

variable {T : Type} {n : Nat} {g g' : AllocUnitGroup} {h h' : Heap T}
  {ptrs : List ShardedDataPtr}

structure Holds (g : AllocUnitGroup) (h : Heap T) (ptrs : List ShardedDataPtr) : Prop where
  covered : g.Covered h
  used : ∀ ptr, ptr ∈ ptrs → ptr.unit ∈ g.allUnits ∧ h.usageFlags ptr = true
  nodup : ptrs.Nodup

theorem Holds.allocated {r : Outcome ShardedDataPtr × AllocUnitGroup × Heap T}
    {panics : Nat → Prop} (hh : Holds g h ptrs) (ha : Allocated n panics g h r) : Holds r.2.1 r.2.2 ptrs where
  covered := ha.covered
  used ptr hptr := by
    obtain ⟨hunit,hused⟩ := hh.used ptr hptr
    exact ⟨ha.units _ hunit,ha.used ptr hunit hused⟩
  nodup := hh.nodup

theorem Allocations.holds (hcov : g.Covered h) (ha : Allocations n g h g' h' ptrs) :
    Holds g' h' ptrs := by
  induction ha with
  | start => exact ⟨hcov,by simp,List.nodup_nil⟩
  | elsewhere _ helse ih =>
    have hused : ∀ p : ShardedDataPtr, p.unit ∈ _ → _ = true → _ = true :=
      fun p hp hused => (helse.flags p hp).trans hused
    refine ⟨ih.covered.congr helse.nextUnit_le hused,fun ptr hptr => ?_,ih.nodup⟩
    obtain ⟨hunit,hflag⟩ := ih.used ptr hptr
    exact ⟨hunit,hused ptr hunit hflag⟩
  | @returned _ _ _ _ ptrs _ _ ptr _ hc hcall ih =>
    have hall := allocate_allocated (n := n) ih.covered hc
    rw [hcall] at hall
    have hold := ih.allocated hall
    obtain ⟨hunit,hused,hnew⟩ := hall.returned ptr rfl
    refine ⟨hold.covered,fun p hp => ?_,?_⟩
    · rcases List.mem_append.mp hp with hp | hp
      · exact hold.used p hp
      · rw [List.mem_singleton.mp hp]
        exact ⟨hunit,hused⟩
    · refine List.nodup_append.mpr ⟨ih.nodup,List.nodup_singleton ptr,fun p hp q hq => ?_⟩
      obtain ⟨hpunit,hpused⟩ := ih.used p hp
      rw [List.mem_singleton.mp hq]
      exact hnew p hpunit hpused
  | panicked _ hc hcall ih =>
    have hall := allocate_allocated (n := n) ih.covered hc
    rw [hcall] at hall
    exact ih.allocated hall

theorem relisted_covered (h : Heap T) {units : List Nat}
    (hunits : ∀ unit, unit ∈ units → unit < h.nextUnit) : (relisted h units).Covered h :=
  ⟨hunits,fun _ unit hget hfree =>
    h.mem_indexesWithFreeSlot.mpr ⟨unit,hget,hasAnyFreeSlot_iff.mpr hfree⟩⟩

/-- After a maintenance a new unit is kept only when no slot of the group is free: the units
with a used slot are retained and those with a free slot listed; from then on no allocation
returns a slot twice, and every one ends: with a free slot of the group, or if there is none in
a new unit, unless `init_func` panics, when no unit is added. -/
theorem no_new_unit_while_free (g : AllocUnitGroup) (h : Heap T)
    (hunits : ∀ unit, unit ∈ g.allUnits → unit < h.nextUnit) :
    ∃ g₀ h₀, g.doMaintenance h = (.done g₀,h₀) ∧
      g₀.allUnits = g.allUnits.filter h.isAnySlotUsed ∧
      (∀ i, i ∈ g₀.indexesOfUnitsToCheckForAllocation ↔
        ∃ unit, g₀.allUnits[i]? = some unit ∧ ¬ h₀.full unit) ∧
      ∀ n g' h' ptrs, Allocations n g₀ h₀ g' h' ptrs → ptrs.Nodup ∧
        ∀ (init : InitFunc T) (panics : Nat → Prop),
          init.Confined panics (h'.nextUnit :: g'.allUnits) →
          (∀ m, g'.indexesOfUnitsToCheckForAllocation.length ≤ m →
            allocateFrom n init m g' h' = g'.allocate n init h') ∧
          ((∃ ptr, (g'.allocate n init h').1 = .done ptr ∧
              Returned g' h' ptr (g'.allocate n init h').2.1) ∧ (∀ k, k < n → ¬ panics k) ∨
            (g'.allocate n init h').1 = .unwound ∧
              (g'.allocate n init h').2.1.allUnits = g'.allUnits ∧ ∃ k, k < n ∧ panics k) ∧
          ((g'.allocate n init h').2.1.allUnits ≠ g'.allUnits →
            ∀ unit, unit ∈ g'.allUnits → h'.full unit) := by
  refine ⟨_,_,g.doMaintenance_done h,rfl,fun i => ?_,fun n g' h' ptrs ha => ?_⟩
  · refine h.mem_indexesWithFreeSlot.trans (exists_congr (fun unit => and_congr_right ?_))
    exact fun _ => hasAnyFreeSlot_iff
  · have hkept : ∀ unit, unit ∈ g.allUnits.filter h.isAnySlotUsed → unit < h.nextUnit :=
      fun unit hunit => hunits unit (List.mem_of_mem_filter hunit)
    have hholds : Holds g' h' ptrs := by
      refine Allocations.holds ?_ ha
      exact (relisted_covered h hkept).congr le_rfl (fun _ _ hused => hused)
    refine ⟨hholds.nodup,fun init panics hc => ?_⟩
    have hall := allocate_allocated (n := n) hholds.covered hc
    exact ⟨fun m hle => allocateFrom_of_le init m g' h' hle,hall.ends,hall.grown⟩

def threeUnits : Heap Nat where
  usageFlags ptr := ptr.unit = 1 || ptr.unit = 2 && ptr.slot = 0
  cells _ _ := none
  nextUnit := 3
  groups _ := .new
  dropped := []
  released := []
  boxes := []
  returned := []

theorem threeUnits_no_new_unit : ∃ g₀ h₀,
    (((new.pushUnit 0).pushUnit 1).pushUnit 2).doMaintenance threeUnits = (.done g₀,h₀) ∧
      g₀.allUnits = [1,2] ∧
      (g₀.allocate 4 (pureInit (fun k => some (10 + k))) h₀).2.1.allUnits = [1,2] := by
  obtain ⟨g₀,h₀,hrun,hkept,-,hall⟩ := no_new_unit_while_free
    (((new.pushUnit 0).pushUnit 1).pushUnit 2) threeUnits
    (by simp [pushUnit,new,threeUnits])
  have hunits : g₀.allUnits = [1,2] := hkept.trans (by decide)
  have hflags : h₀.usageFlags = threeUnits.usageFlags := by
    rw [doMaintenance_done] at hrun
    rw [← (Prod.mk.inj hrun).2]
  refine ⟨g₀,h₀,hrun,hunits,?_⟩
  by_contra hgrown
  obtain ⟨-,-,hfull⟩ := (hall 4 g₀ h₀ [] .start).2 (pureInit (fun k => some (10 + k))) _
    (pureInit_confined _ _)
  have hused := hfull (by rwa [hunits]) 2 (by simp [hunits]) 1 (by decide)
  rw [hflags] at hused
  exact absurd hused (by decide)

end Run

end AllocUnitGroup

end Sdarc.ShardedAlloc
