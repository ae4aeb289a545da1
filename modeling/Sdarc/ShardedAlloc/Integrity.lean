import Mathlib.Algebra.BigOperators.Ring.List
import Sdarc.ShardedAlloc.Preservation
set_option autoImplicit false

/-!
What the allocator's users may rely on in every reachable state: where units, slots and cells
are, when memory is released, and what the status report counts.
-/

namespace Sdarc.FullShardAlloc
open ShardedAlloc

inductive GroupId where
  | shard (k : Nat)
  | temp
  deriving DecidableEq, Repr

def GroupId.Valid (n : Nat) : GroupId → Prop
  | .shard k => k < n
  | .temp => True

/-- What may own a slot: a box, by its place among `boxes`, or an allocation in progress. -/
inductive SlotOwner where
  | box (i : Nat)
  | call (c : Nat)
  deriving DecidableEq, Repr

inductive Place where
  | usageFlag (ptr : ShardedDataPtr)
  | cell (ptr : ShardedDataPtr) (shard : Nat)
  deriving DecidableEq, Repr

def Place.ptr : Place → ShardedDataPtr
  | .usageFlag ptr => ptr
  | .cell ptr _ => ptr

namespace State

variable (n : Nat) (s : State)

def unitsOf : GroupId → List Nat
  | .shard k => (s.groups k).allUnits
  | .temp => s.tempFillingGroup.allUnits

def indexesOf : GroupId → List Nat
  | .shard k => (s.groups k).indexesOfUnitsToCheckForAllocation
  | .temp => s.tempFillingGroup.indexesOfUnitsToCheckForAllocation

def Owns : SlotOwner → ShardedDataPtr → Prop
  | .box i, ptr => s.boxes[i]? = some ptr
  | .call c, ptr => s.owned c = some ptr

def HasPlace (p : Place) : Prop :=
  s.Exists p.ptr.unit ∧ p.ptr.slot < SLOT_COUNT_PER_UNIT ∧
    match p with
    | .usageFlag _ => True
    | .cell _ shard => shard < n

def basePtr (ptr : ShardedDataPtr) : Nat := s.dataPtr ptr.unit + 8 * ptr.slot

def address : Place → Nat
  | .usageFlag ptr => s.basePtr ptr
  | .cell ptr shard => ptrAtShard (s.basePtr ptr) shard

end State

def FillingGroup.InRetainMut : FillingGroup → Prop
  | .retaining _ _ _ _ => True
  | .dropping _ _ _ _ _ => True
  | _ => False

structure Integrity (n : Nat) (s : State) : Prop where
  /-- No unit is lost, or in two groups. -/
  one_group : ∀ unit, s.Exists unit → (∀ c, s.newUnit c ≠ some unit) →
    ∃! g : GroupId, g.Valid n ∧ unit ∈ s.unitsOf g
  exists_of_mem : ∀ g unit, g.Valid n → unit ∈ s.unitsOf g →
    s.Exists unit ∧ ∀ c, s.newUnit c ≠ some unit
  units_nodup : ∀ g, g.Valid n → (s.unitsOf g).Nodup
  indexes : ∀ g, g.Valid n → (g = .temp → ¬ s.tempFillingGroup.InRetainMut) →
    (∀ i, i ∈ s.indexesOf g → i < (s.unitsOf g).length) ∧ (s.indexesOf g).Nodup
  used_iff : ∀ ptr, s.usageFlags ptr = true ↔ ∃! o, s.Owns o ptr
  unused : ∀ ptr, s.usageFlags ptr = false → ∀ o, ¬ s.Owns o ptr
  has_place : ∀ ptr, s.usageFlags ptr = true →
    s.HasPlace n (.usageFlag ptr) ∧ ∀ k, k < n → s.HasPlace n (.cell ptr k)
  /-- The bytes of a place are inside of its unit. -/
  inside : ∀ p, s.HasPlace n p → s.dataPtr p.ptr.unit ≤ s.address p ∧
    s.address p + 8 ≤ s.dataPtr p.ptr.unit + dataLenInBytes n
  disjoint : ∀ p q, s.HasPlace n p → s.HasPlace n q → p ≠ q →
    s.address p + 8 ≤ s.address q ∨ s.address q + 8 ≤ s.address p
  /-- A step that releases a unit finds its flags clear. -/
  released : ∀ a s' unit, step n s a = some s' → unit ∈ s'.released → unit ∉ s.released →
    ∀ slot, slot < SLOT_COUNT_PER_UNIT → s.usageFlags ⟨unit,slot⟩ = false
  report : (∀ c, s.calls c = none) → s.dropping = [] →
    (s.collector = .outside → (s.getStatusReport n).isSome) ∧
    ∀ r, s.getStatusReport n = some r → r.totalUsedSlotCount = s.boxes.length
  panicked : s.panicked = none

variable {n : Nat} {s s' : State}

section Groups

def GroupId.holder : GroupId → Holder
  | .shard k => .shard k
  | .temp => .temp

theorem heldBy_holder {g : GroupId} (hg : g.Valid n) : s.heldBy n g.holder = s.unitsOf g := by
  cases g with
  | shard k => simp [State.heldBy,GroupId.holder,State.unitsOf,show k < n from hg]
  | temp => rfl

theorem Invariant.one_group (h : Invariant n s) {unit : Nat} (hexists : s.Exists unit)
    (hnew : ∀ c, s.newUnit c ≠ some unit) :
    ∃! g : GroupId, g.Valid n ∧ unit ∈ s.unitsOf g := by
  obtain ⟨x,hx⟩ := (h.units.live_iff unit).mp hexists
  have hunique : ∀ g g' : GroupId, g.Valid n ∧ unit ∈ s.unitsOf g →
      g'.Valid n ∧ unit ∈ s.unitsOf g' → g = g' := by
    rintro g g' ⟨hg,hmem⟩ ⟨hg',hmem'⟩
    rw [← heldBy_holder hg] at hmem
    rw [← heldBy_holder hg'] at hmem'
    have := h.units.unique _ _ unit hmem hmem'
    cases g <;> cases g' <;> simp_all [GroupId.holder]
  obtain ⟨g,hg⟩ : ∃ g : GroupId, g.Valid n ∧ unit ∈ s.unitsOf g := by
    cases x with
    | shard k =>
      by_cases hk : k < n
      · exact ⟨.shard k,hk,by simpa [State.heldBy,State.unitsOf,hk] using hx⟩
      · simp [State.heldBy,hk] at hx
    | temp => exact ⟨.temp,trivial,hx⟩
    | call c => exact absurd (by simpa [State.heldBy] using hx) (hnew c)
  exact ⟨g,hg,fun g' hg' => hunique g' g hg' hg⟩

theorem Invariant.exists_of_mem (h : Invariant n s) {g : GroupId} (hg : g.Valid n) {unit : Nat}
    (hmem : unit ∈ s.unitsOf g) : s.Exists unit ∧ ∀ c, s.newUnit c ≠ some unit := by
  rw [← heldBy_holder hg] at hmem
  refine ⟨h.units.live_of_mem hmem,fun c hnew => ?_⟩
  have := h.units.unique _ (.call c) unit hmem (by simp [State.heldBy,hnew])
  cases g <;> simp [GroupId.holder] at this

theorem indexes_valid {g : GroupId}
    (htemp : g = .temp → ¬ s.tempFillingGroup.InRetainMut) :
    (∀ i, i ∈ s.indexesOf g → i < (s.unitsOf g).length) ∧ (s.indexesOf g).Nodup := by
  cases g with
  | shard k => exact ⟨(s.groups k).indexes_lt,(s.groups k).indexes_nodup⟩
  | temp =>
    have hretain := htemp rfl
    simp only [State.indexesOf,State.unitsOf]
    generalize s.tempFillingGroup = g at hretain
    cases g with
    | whole g => exact ⟨g.indexes_lt,g.indexes_nodup⟩
    | retaining kept rest indexes slot => exact absurd trivial hretain
    | dropping kept unit rest indexes slot => exact absurd trivial hretain
    | listing l slot =>
      exact ⟨fun i hi => (l.indexes_lt i hi).trans_le l.next_le,l.indexes_nodup⟩

end Groups

section Slots

theorem Invariant.owner_unique (h : Invariant n s) {o o' : SlotOwner} {ptr : ShardedDataPtr}
    (ho : s.Owns o ptr) (ho' : s.Owns o' ptr) : o = o' := by
  have hmem : ∀ c, s.owned c = some ptr → ptr ∈ s.ownedBy (.call c) := by
    intro c hc
    simp [State.ownedBy,hc]
  cases o with
  | box i =>
    have hi : ptr ∈ s.boxes := List.mem_of_getElem? ho
    cases o' with
    | box j =>
      have hnodup : s.boxes.Nodup := h.slots.nodup .boxes
      have hlt : i < s.boxes.length := (List.getElem?_eq_some_iff.mp ho).1
      exact congrArg SlotOwner.box ((List.getElem?_inj hlt hnodup).mp (ho.trans ho'.symm))
    | call c => exact absurd (h.slots.unique .boxes (.call c) ptr hi (hmem c ho')) (by simp)
  | call c =>
    cases o' with
    | box j =>
      exact absurd (h.slots.unique .boxes (.call c) ptr (List.mem_of_getElem? ho') (hmem c ho))
        (by simp)
    | call d => simpa using h.slots.unique (.call c) (.call d) ptr (hmem c ho) (hmem d ho')

theorem Invariant.used_iff_owns (h : Invariant n s) (ptr : ShardedDataPtr) :
    s.usageFlags ptr = true ↔ ∃ o, s.Owns o ptr := by
  rw [h.slots.live_iff]
  constructor
  · rintro ⟨o,ho⟩
    cases o with
    | boxes =>
      obtain ⟨i,hi⟩ := List.mem_iff_getElem?.mp ho
      exact ⟨.box i,hi⟩
    | call c => exact ⟨.call c,by simpa [State.ownedBy,State.Owns] using ho⟩
  · rintro ⟨o,ho⟩
    cases o with
    | box i => exact ⟨.boxes,List.mem_of_getElem? ho⟩
    | call c => exact ⟨.call c,by simpa [State.ownedBy,State.Owns] using ho⟩

theorem Invariant.used_iff (h : Invariant n s) (ptr : ShardedDataPtr) :
    s.usageFlags ptr = true ↔ ∃! o, s.Owns o ptr := by
  rw [h.used_iff_owns]
  constructor
  · rintro ⟨o,ho⟩
    exact ⟨o,ho,fun o' ho' => h.owner_unique ho' ho⟩
  · exact ExistsUnique.exists

theorem Invariant.unused (h : Invariant n s) {ptr : ShardedDataPtr}
    (hclear : s.usageFlags ptr = false) (o : SlotOwner) : ¬ s.Owns o ptr := by
  intro ho
  rw [(h.used_iff_owns ptr).mpr ⟨o,ho⟩] at hclear
  contradiction

end Slots

section Places

def Place.word : Place → Nat
  | .usageFlag ptr => ptr.slot
  | .cell ptr shard => ptr.slot + SLOT_COUNT_PER_UNIT * (shard + 1)

theorem address_eq (p : Place) : s.address p = s.dataPtr p.ptr.unit + 8 * p.word := by
  cases p with
  | usageFlag ptr => rfl
  | cell ptr shard =>
    simp only [State.address,State.basePtr,ptrAtShard,Place.ptr,Place.word]
    ring

theorem word_lt {p : Place} (hp : s.HasPlace n p) :
    p.word < SLOT_COUNT_PER_UNIT * (1 + n) := by
  obtain ⟨-,hslot,hshard⟩ := hp
  cases p with
  | usageFlag ptr =>
    simp only [Place.ptr,SLOT_COUNT_PER_UNIT] at hslot
    simp only [Place.word,SLOT_COUNT_PER_UNIT]
    omega
  | cell ptr shard =>
    simp only [Place.ptr,SLOT_COUNT_PER_UNIT] at hslot
    have hlt : shard < n := hshard
    simp only [Place.word,SLOT_COUNT_PER_UNIT]
    omega

theorem word_injective {p q : Place} (hp : p.ptr.slot < SLOT_COUNT_PER_UNIT)
    (hq : q.ptr.slot < SLOT_COUNT_PER_UNIT) (hunit : p.ptr.unit = q.ptr.unit)
    (hword : p.word = q.word) : p = q := by
  simp only [SLOT_COUNT_PER_UNIT] at hp hq
  cases p with
  | usageFlag ptr =>
    cases q with
    | usageFlag ptr' =>
      obtain ⟨unit,slot⟩ := ptr
      obtain ⟨unit',slot'⟩ := ptr'
      simp_all [Place.ptr,Place.word]
    | cell ptr' shard' =>
      simp only [Place.word,Place.ptr,SLOT_COUNT_PER_UNIT] at hword hp hq
      omega
  | cell ptr shard =>
    cases q with
    | usageFlag ptr' =>
      simp only [Place.word,Place.ptr,SLOT_COUNT_PER_UNIT] at hword hp hq
      omega
    | cell ptr' shard' =>
      obtain ⟨unit,slot⟩ := ptr
      obtain ⟨unit',slot'⟩ := ptr'
      simp only [Place.word,Place.ptr,SLOT_COUNT_PER_UNIT] at hword hp hq hunit
      obtain rfl : shard = shard' := by omega
      obtain rfl : slot = slot' := by omega
      obtain rfl : unit = unit' := hunit
      rfl

theorem place_inside {p : Place} (hp : s.HasPlace n p) :
    s.dataPtr p.ptr.unit ≤ s.address p ∧
      s.address p + 8 ≤ s.dataPtr p.ptr.unit + dataLenInBytes n := by
  have hlt := word_lt hp
  rw [address_eq,dataLenInBytes]
  omega

theorem Invariant.places_disjoint (h : Invariant n s) {p q : Place} (hp : s.HasPlace n p)
    (hq : s.HasPlace n q) (hpq : p ≠ q) :
    s.address p + 8 ≤ s.address q ∨ s.address q + 8 ≤ s.address p := by
  by_cases hunit : p.ptr.unit = q.ptr.unit
  · have hword : p.word ≠ q.word := fun hword =>
      hpq (word_injective hp.2.1 hq.2.1 hunit hword)
    rw [address_eq,address_eq,hunit]
    omega
  · have hinp := place_inside hp
    have hinq := place_inside hq
    have := h.apart _ _ hp.1 hq.1 hunit
    omega

theorem Invariant.has_place (h : Invariant n s) {ptr : ShardedDataPtr}
    (hused : s.usageFlags ptr = true) :
    s.HasPlace n (.usageFlag ptr) ∧ ∀ k, k < n → s.HasPlace n (.cell ptr k) := by
  have hexists := h.exists_of_used hused
  have hslot := (h.owner_unit hused).1
  exact ⟨⟨hexists,hslot,trivial⟩,fun k hk => ⟨hexists,hslot,hk⟩⟩

end Places

section Release

theorem Invariant.released_step (h : Invariant n s) {a : Action} (hs : FullShardAlloc.step n s a = some s') :
    s'.released = s.released ∨ ∃ unit, s'.released = unit :: s.released ∧
      ∀ slot, slot < SLOT_COUNT_PER_UNIT → s.usageFlags ⟨unit,slot⟩ = false := by
  cases a with
  | lock c shard =>
    simp only [FullShardAlloc.step,State.lock,Option.ite_none_right_eq_some,Option.some.injEq] at hs
    exact .inl (by rw [← hs.2]; rfl)
  | checkUnits c address =>
    simp only [FullShardAlloc.step,State.checkUnits] at hs
    split at hs
    · split at hs
      · exact .inl (by rw [← Option.some.inj hs]; rfl)
      · split_ifs at hs
        exact .inl (by rw [← Option.some.inj hs]; rfl)
    · contradiction
  | swapUsageFlag c =>
    simp only [FullShardAlloc.step,State.swapUsageFlag] at hs
    split at hs
    · split_ifs at hs <;> exact .inl (by rw [← Option.some.inj hs]; rfl)
    · contradiction
  | initFunc c panics =>
    simp only [FullShardAlloc.step,State.initFunc] at hs
    split at hs
    · split_ifs at hs <;> exact .inl (by rw [← Option.some.inj hs]; rfl)
    · contradiction
  | returnPtr c =>
    simp only [FullShardAlloc.step,State.returnPtr] at hs
    split at hs
    · split_ifs at hs <;> exact .inl (by rw [← Option.some.inj hs]; rfl)
    · contradiction
  | unwindGuard c =>
    simp only [FullShardAlloc.step,State.unwindGuard] at hs
    split at hs
    · split_ifs at hs <;> exact .inl (by rw [← Option.some.inj hs]; rfl)
    · contradiction
  | dropNewUnit c =>
    simp only [FullShardAlloc.step,State.dropNewUnit] at hs
    split at hs
    · rename_i k unit slot hc
      split_ifs at hs
      · exact .inl (by rw [← Option.some.inj hs]; rfl)
      · exact .inl (by rw [← Option.some.inj hs]; rfl)
      · exact .inr ⟨unit,by rw [← Option.some.inj hs],fun i _ =>
          h.newUnit_unused (newUnit_of_call hc) (owned_of_call hc) i⟩
    · contradiction
  | dropBox ptr =>
    simp only [FullShardAlloc.step,State.dropBox,Option.ite_none_right_eq_some,Option.some.injEq] at hs
    exact .inl (by rw [← hs.2])
  | deallocateWithoutDropping ptr =>
    simp only [FullShardAlloc.step,State.deallocateWithoutDropping] at hs
    split_ifs at hs <;> exact .inl (by rw [← Option.some.inj hs]; rfl)
  | doMaintenanceByCollector =>
    simp only [FullShardAlloc.step,State.doMaintenanceByCollector] at hs
    have hspec := FillingGroup.doMaintenance_spec h.scanned
    split at hs
    · exact .inl (by rw [← Option.some.inj hs])
    · split at hs
      · split_ifs at hs
        · exact .inl (by rw [← Option.some.inj hs]; rfl)
        · exact .inl (by rw [← Option.some.inj hs])
      · contradiction
    · split at hs
      · exact .inl (by rw [← Option.some.inj hs])
      · rename_i unit g hg
        rw [hg] at hspec
        exact .inr ⟨unit,by rw [← Option.some.inj hs],hspec.2.2⟩
      · exact .inl (by rw [← Option.some.inj hs]; rfl)
      · split at hs <;> exact .inl (by rw [← Option.some.inj hs])
    · split at hs
      · split_ifs at hs
        exact .inl (by rw [← Option.some.inj hs]; rfl)
      · contradiction

end Release

section Report

def State.allUnits (n : Nat) (s : State) : List Nat :=
  (List.range n).flatMap (fun k => (s.groups k).allUnits) ++ s.tempFillingGroup.allUnits

def State.usedSlots (s : State) (unit : Nat) : List ShardedDataPtr :=
  ((List.range SLOT_COUNT_PER_UNIT).filter (fun slot => s.usageFlags ⟨unit,slot⟩)).map
    (fun slot => ⟨unit,slot⟩)

theorem mem_usedSlots {unit : Nat} {ptr : ShardedDataPtr} : ptr ∈ s.usedSlots unit ↔
    ptr.unit = unit ∧ ptr.slot < SLOT_COUNT_PER_UNIT ∧ s.usageFlags ptr = true := by
  simp only [State.usedSlots,List.mem_map,List.mem_filter,List.mem_range]
  constructor
  · rintro ⟨slot,⟨hslot,hused⟩,rfl⟩
    exact ⟨rfl,hslot,hused⟩
  · rintro ⟨rfl,hslot,hused⟩
    exact ⟨ptr.slot,⟨hslot,hused⟩,rfl⟩

theorem usedSlots_nodup (unit : Nat) : (s.usedSlots unit).Nodup := by
  refine List.Nodup.map (fun i j hij => ?_) (List.nodup_range.filter _)
  exact congrArg ShardedDataPtr.slot hij

theorem usedSlots_length (unit : Nat) :
    s.getUnusedSlotCount unit + (s.usedSlots unit).length = SLOT_COUNT_PER_UNIT := by
  have hsplit := List.length_eq_countP_add_countP (fun slot => s.usageFlags ⟨unit,slot⟩)
    (l := List.range SLOT_COUNT_PER_UNIT)
  rw [List.length_range] at hsplit
  rw [State.usedSlots,List.length_map,← List.countP_eq_length_filter,State.getUnusedSlotCount]
  simp only [Bool.not_eq_true] at hsplit
  omega

theorem mem_allUnits {unit : Nat} : unit ∈ s.allUnits n ↔ s.Grouped n unit := by
  simp only [State.allUnits,List.mem_append,List.mem_flatMap,List.mem_range,State.Grouped]

theorem Invariant.allUnits_nodup (h : Invariant n s) : (s.allUnits n).Nodup := by
  have hshard : ∀ k, k < n → s.heldBy n (.shard k) = (s.groups k).allUnits := by
    intro k hk
    simp [State.heldBy,hk]
  refine List.nodup_append.mpr ⟨List.nodup_flatMap.mpr ⟨fun k hk => ?_,?_⟩,h.units.nodup .temp,
    fun u hu v hv huv => ?_⟩
  · rw [← hshard k (List.mem_range.mp hk)]
    exact h.units.nodup _
  · refine List.nodup_range.imp_of_mem (fun {k l} hk hl hkl => ?_)
    intro u hu hu'
    change u ∈ (s.groups k).allUnits at hu
    change u ∈ (s.groups l).allUnits at hu'
    rw [← hshard k (List.mem_range.mp hk)] at hu
    rw [← hshard l (List.mem_range.mp hl)] at hu'
    exact hkl (by simpa using h.units.unique _ _ u hu hu')
  · obtain ⟨k,hk,hmem⟩ := List.mem_flatMap.mp hu
    rw [← hshard k (List.mem_range.mp hk)] at hmem
    have := h.units.unique _ .temp u hmem (huv ▸ hv)
    contradiction

theorem Invariant.usedSlots_perm (h : Invariant n s) (hcalls : ∀ c, s.calls c = none) :
    ((s.allUnits n).flatMap s.usedSlots).Perm s.boxes := by
  have hnodup : ((s.allUnits n).flatMap s.usedSlots).Nodup := by
    refine List.nodup_flatMap.mpr ⟨fun u _ => usedSlots_nodup u,?_⟩
    refine h.allUnits_nodup.imp (fun {u v} huv ptr hu hv => huv ?_)
    rw [← (mem_usedSlots.mp hu).1,← (mem_usedSlots.mp hv).1]
  refine (List.perm_ext_iff_of_nodup hnodup (h.slots.nodup .boxes)).mpr (fun ptr => ?_)
  simp only [List.mem_flatMap,mem_usedSlots,mem_allUnits]
  constructor
  · rintro ⟨u,-,-,-,hused⟩
    obtain ⟨o,ho⟩ := (h.slots.live_iff ptr).mp hused
    cases o with
    | boxes => exact ho
    | call c => simp [State.ownedBy,State.owned,hcalls c] at ho
  · intro hbox
    obtain ⟨hslot,hgrouped⟩ := h.boxes ptr hbox
    exact ⟨ptr.unit,hgrouped,rfl,hslot,h.slots.live_of_mem (i := .boxes) hbox⟩

theorem sum_map_flatMap {α β : Type} (f : β → Nat) (g : α → List β) (l : List α) :
    ((l.flatMap g).map f).sum = (l.map (fun a => ((g a).map f).sum)).sum := by
  induction l with
  | nil => rfl
  | cons a l ih => simp [List.flatMap_cons,ih]

theorem unused_add_used (units : List Nat) :
    (units.map s.getUnusedSlotCount).sum + (units.flatMap s.usedSlots).length =
      units.length * SLOT_COUNT_PER_UNIT := by
  induction units with
  | nil => rfl
  | cons u units ih =>
    have hu := usedSlots_length (s := s) u
    simp only [List.map_cons,List.sum_cons,List.flatMap_cons,List.length_append,List.length_cons,
      Nat.add_mul,Nat.one_mul]
    omega

theorem Invariant.report (h : Invariant n s) (hcalls : ∀ c, s.calls c = none)
    {r : ShardedAllocStatusReport} (hr : s.getStatusReport n = some r) :
    r.totalUsedSlotCount = s.boxes.length := by
  have hslots := unused_add_used (s := s) (s.allUnits n)
  rw [(h.usedSlots_perm hcalls).length_eq] at hslots
  have hunused : ((s.allUnits n).map s.getUnusedSlotCount).sum =
      ((List.range n).map (fun k =>
        ((s.groups k).allUnits.map s.getUnusedSlotCount).sum)).sum +
      (s.tempFillingGroup.allUnits.map s.getUnusedSlotCount).sum := by
    rw [State.allUnits,List.map_append,List.sum_append,sum_map_flatMap]
  have hall : (s.allUnits n).length * SLOT_COUNT_PER_UNIT =
      ((List.range n).map (fun k =>
        (s.groups k).allUnits.length * SLOT_COUNT_PER_UNIT)).sum +
      s.tempFillingGroup.allUnits.length * SLOT_COUNT_PER_UNIT := by
    rw [State.allUnits,List.length_append,List.length_flatMap,Nat.add_mul,
      ← List.sum_map_mul_right]
  simp only [State.getStatusReport,Option.ite_none_right_eq_some,Option.some.injEq] at hr
  obtain ⟨-,rfl⟩ := hr
  simp only [State.countUnusedSlotCountAndAllSlotCount,List.map_map,Function.comp_def]
  omega

theorem Invariant.report_isSome (h : Invariant n s) (hcalls : ∀ c, s.calls c = none)
    (houtside : s.collector = .outside) : (s.getStatusReport n).isSome := by
  have hfree : ∀ k, k < n → s.mutexes k = none := by
    intro k _
    by_contra hlocked
    obtain ⟨c,hc⟩ := Option.ne_none_iff_exists'.mp hlocked
    obtain ⟨call,hcall,-⟩ := h.calls.mutexes k c hc
    rw [hcalls c] at hcall
    contradiction
  rw [State.getStatusReport,if_pos ⟨houtside,hfree⟩]
  rfl

end Report

/-- The allocator's integrity, for any number of shards and any order of the steps of
allocations, deallocations and maintenance. -/
theorem integrity (n : Nat) {s : State} (hr : Reachable n s) : Integrity n s := by
  have h := Invariant.of_reachable hr
  refine ⟨fun _ => h.one_group,fun _ _ hg => h.exists_of_mem hg,fun g hg => ?_,
    fun _ _ => indexes_valid,h.used_iff,fun _ => h.unused,fun _ => h.has_place,
    fun _ => place_inside,fun _ _ => h.places_disjoint,fun a s' unit hs hnow hbefore => ?_,
    fun hcalls _ => ⟨h.report_isSome hcalls,fun _ => h.report hcalls⟩,h.panicked⟩
  · rw [← heldBy_holder hg]
    exact h.units.nodup _
  · rcases h.released_step hs with hsame | ⟨u,hu,hunused⟩
    · exact absurd (hsame ▸ hnow) hbefore
    · rw [hu] at hnow
      obtain rfl : unit = u := (List.mem_cons.mp hnow).resolve_right hbefore
      exact hunused

section Runs

def allocateOne : List Action :=
  [.lock 0 0,.checkUnits 0 128,.swapUsageFlag 0,.initFunc 0 false,.returnPtr 0]

/-- The box is dropped and the collector has come to the end of `retain_mut`. -/
def dropAndRetain : List Action :=
  allocateOne ++ [.dropBox ⟨0,0⟩,.deallocateWithoutDropping ⟨0,0⟩] ++
    List.replicate 36 .doMaintenanceByCollector

theorem reachable_run {as : List Action}
    (h : (Transition.run (step n) .initialState as).isSome = true) :
    Reachable n ((Transition.run (step n) .initialState as).get h) :=
  Transition.reach_run (fun _ _ _ => trivial) h

theorem allocateOne_integrity : ∃ s, Reachable 1 s ∧ s.boxes = [⟨0,0⟩] ∧
    s.unitsOf .temp = [0] ∧ Integrity 1 s := by
  have hrun : (Transition.run (step 1) .initialState (allocateOne ++
      [.doMaintenanceByCollector,.doMaintenanceByCollector])).isSome = true := by decide
  exact ⟨_,reachable_run hrun,rfl,rfl,integrity 1 (reachable_run hrun)⟩

def newUnitState : State :=
  (Transition.run (step 1) .initialState [.lock 0 0,.checkUnits 0 128]).get (by decide)

theorem dropAndRetain_runs :
    (Transition.run (step 1) .initialState dropAndRetain).isSome = true := by decide +kernel

def staleState : State :=
  (Transition.run (step 1) .initialState dropAndRetain).get dropAndRetain_runs

/-- The new unit of a call is in no group yet, and until `clear` an index of the list to
check may be out of range. -/
theorem newUnit_ungrouped_and_index_stale :
    ¬ (∀ s, Reachable 1 s → ∀ unit, s.Exists unit →
      ∃! g : GroupId, g.Valid 1 ∧ unit ∈ s.unitsOf g) ∧
    ¬ (∀ s, Reachable 1 s → ∀ g : GroupId, g.Valid 1 → ∀ i, i ∈ s.indexesOf g →
      i < (s.unitsOf g).length) := by
  constructor
  · intro hgroup
    obtain ⟨g,⟨hg,hmem⟩,-⟩ := hgroup newUnitState (reachable_run (by decide)) 0 (by decide)
    cases g with
    | shard k =>
      obtain rfl : k = 0 := Nat.lt_one_iff.mp hg
      exact absurd hmem (by decide)
    | temp => exact absurd hmem (by decide)
  · intro hindex
    have hlt := hindex staleState (reachable_run dropAndRetain_runs) .temp trivial 0
      (by decide +kernel)
    exact absurd hlt (by decide +kernel)

end Runs

end Sdarc.FullShardAlloc
