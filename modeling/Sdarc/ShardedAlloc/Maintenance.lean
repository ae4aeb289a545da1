import Sdarc.ShardedAlloc.Group
import Sdarc.Transition
set_option autoImplicit false

/-!
Allocations, deallocations and the collector's maintenance, in any order of their steps. A
step swaps or reads one usage flag, or is what a thread does with a mutex in its hands. The
values in the cells are left out here, and so are the threads: `init_func` may allocate,
and that is another call.
-/

namespace Sdarc.FullShardAlloc
open ShardedAlloc

structure Listing where
  allUnits : List Nat
  indexes : List Nat
  next : Nat
  next_le : next ≤ allUnits.length
  indexes_lt : ∀ i, i ∈ indexes → i < next
  indexes_nodup : indexes.Nodup

namespace Listing

def start (allUnits : List Nat) : Listing :=
  ⟨allUnits,[],0,Nat.zero_le _,fun _ hi => absurd hi List.not_mem_nil,List.nodup_nil⟩

def skip (l : Listing) (h : l.next < l.allUnits.length) : Listing where
  allUnits := l.allUnits
  indexes := l.indexes
  next := l.next + 1
  next_le := h
  indexes_lt i hi := Nat.lt_succ_of_lt (l.indexes_lt i hi)
  indexes_nodup := l.indexes_nodup

def push (l : Listing) (h : l.next < l.allUnits.length) : Listing where
  allUnits := l.allUnits
  indexes := l.indexes ++ [l.next]
  next := l.next + 1
  next_le := h
  indexes_lt i hi := by
    rcases List.mem_append.mp hi with hi | hi
    · exact Nat.lt_succ_of_lt (l.indexes_lt i hi)
    · rw [List.mem_singleton.mp hi]
      exact Nat.lt_succ_self _
  indexes_nodup := by
    refine List.nodup_append.mpr ⟨l.indexes_nodup,by simp,fun i hi j hj => ?_⟩
    rw [List.mem_singleton.mp hj]
    exact (l.indexes_lt i hi).ne

def finish (l : Listing) : AllocUnitGroup :=
  ⟨l.allUnits,l.indexes,fun i hi => (l.indexes_lt i hi).trans_le l.next_le,l.indexes_nodup⟩

end Listing

/-- What the mutex `temp_filling_group` holds. `do_maintenance` has it except where it is
`whole`: in `retain_mut`, where `rest` is still to be looked at and the list to check is that
of the units there were, then in the `drop` of a unit that is not retained, which counts as
one of the group until it is released, then in the second loop. `slot` is the flag that is
read next. -/
inductive FillingGroup where
  | whole (g : AllocUnitGroup)
  | retaining (kept rest indexes : List Nat) (slot : Nat)
  | dropping (kept : List Nat) (unit : Nat) (rest indexes : List Nat) (slot : Nat)
  | listing (l : Listing) (slot : Nat)

namespace FillingGroup

def allUnits : FillingGroup → List Nat
  | .whole g => g.allUnits
  | .retaining kept rest _ _ => kept ++ rest
  | .dropping kept unit rest _ _ => kept ++ unit :: rest
  | .listing l _ => l.allUnits

def indexesOfUnitsToCheckForAllocation : FillingGroup → List Nat
  | .whole g => g.indexesOfUnitsToCheckForAllocation
  | .retaining _ _ indexes _ => indexes
  | .dropping _ _ _ indexes _ => indexes
  | .listing l _ => l.indexes

def startMaintenance (g : AllocUnitGroup) : FillingGroup :=
  .retaining [] g.allUnits g.indexesOfUnitsToCheckForAllocation 0

inductive Progress where
  | goesOn (g : FillingGroup)
  | releases (unit : Nat) (g : FillingGroup)
  | panics (site : AllocPanic)

def doMaintenance (usageFlags : ShardedDataPtr → Bool) : FillingGroup → Option Progress
  | .whole _ => none
  | .retaining kept [] _ _ => some (.goesOn (.listing (.start kept) 0))
  | .retaining kept (unit :: rest) indexes slot =>
      if slot < SLOT_COUNT_PER_UNIT then
        if usageFlags ⟨unit,slot⟩ then
          some (.goesOn (.retaining (kept ++ [unit]) rest indexes 0))
        else some (.goesOn (.retaining kept (unit :: rest) indexes (slot + 1)))
      else some (.goesOn (.dropping kept unit rest indexes 0))
  | .dropping kept unit rest indexes slot =>
      if slot < SLOT_COUNT_PER_UNIT then
        if usageFlags ⟨unit,slot⟩ then some (.panics .unitInUse)
        else some (.goesOn (.dropping kept unit rest indexes (slot + 1)))
      else some (.releases unit (.retaining kept rest indexes 0))
  | .listing l slot =>
      if h : l.next < l.allUnits.length then
        if slot < SLOT_COUNT_PER_UNIT then
          if usageFlags ⟨l.allUnits.get ⟨l.next,h⟩,slot⟩ then
            some (.goesOn (.listing l (slot + 1)))
          else some (.goesOn (.listing (l.push h) 0))
        else some (.goesOn (.listing (l.skip h) 0))
      else some (.goesOn (.whole l.finish))

end FillingGroup

/-- Where `do_maintenance_by_collector` is. Outside of it the mutex `temp_filling_group` is
free. `maintaining none` is the last call, on the temporary group itself. -/
inductive CollectorPc where
  | outside
  | swapping (shard : Nat)
  | maintaining (shard : Option Nat)
  | swappingBack (shard : Nat)
  deriving DecidableEq, Repr

/-- Where a call of `AllocUnitGroup::allocate` is. A `fresh` unit is its `new_unit`, and
`droppingUnit` the `drop` of one after a panic. -/
inductive CallPc where
  | looping
  | claiming (unit slot : Nat) (fresh : Bool)
  | initializing (ptr : ShardedDataPtr) (shard : Nat) (fresh : Bool)
  | unwinding (ptr : ShardedDataPtr) (fresh : Bool)
  | droppingUnit (unit slot : Nat)
  deriving DecidableEq, Repr

namespace CallPc

def unit : CallPc → Option Nat
  | .looping => none
  | .claiming unit _ _ => some unit
  | .initializing ptr _ _ => some ptr.unit
  | .unwinding ptr _ => some ptr.unit
  | .droppingUnit unit _ => some unit

def fresh : CallPc → Bool
  | .looping => false
  | .claiming _ _ fresh => fresh
  | .initializing _ _ fresh => fresh
  | .unwinding _ fresh => fresh
  | .droppingUnit _ _ => true

def newUnit (pc : CallPc) : Option Nat := if pc.fresh then pc.unit else none

def owned : CallPc → Option ShardedDataPtr
  | .initializing ptr _ _ => some ptr
  | .unwinding ptr _ => some ptr
  | _ => none

end CallPc

structure Call where
  shard : Nat
  pc : CallPc
  deriving DecidableEq, Repr

/-- `mutexes` are those of `groups`, with the call that has locked one. The collector swaps
at once, where the mutex is free. `boxes` are the `ShardedBox`es whose flag has not been
cleared, and `dropping` those of them whose `drop` has begun. -/
structure State where
  usageFlags : ShardedDataPtr → Bool
  dataPtr : Nat → Nat
  nextUnit : Nat
  released : List Nat
  groups : Nat → AllocUnitGroup
  mutexes : Nat → Option Nat
  tempFillingGroup : FillingGroup
  collector : CollectorPc
  calls : Nat → Option Call
  boxes : List ShardedDataPtr
  dropping : List ShardedDataPtr
  panicked : Option AllocPanic

namespace State

/-- `FullShardAlloc::initialize`. -/
def initialState : State where
  usageFlags _ := false
  dataPtr _ := 0
  nextUnit := 0
  released := []
  groups _ := .new
  mutexes _ := none
  tempFillingGroup := .whole .new
  collector := .outside
  calls _ := none
  boxes := []
  dropping := []
  panicked := none

variable (n : Nat) (s : State)

def Exists (unit : Nat) : Prop := unit < s.nextUnit ∧ unit ∉ s.released

instance : DecidablePred s.Exists := fun _ => inferInstanceAs (Decidable (_ ∧ _))

/-- `alloc` may return the address: memory of the layout of a unit that overlaps no unit. -/
def MayAlloc (address : Nat) : Prop :=
  address ≠ 0 ∧ 8 * 16 ∣ address ∧ ∀ unit, unit < s.nextUnit → unit ∉ s.released →
    address + dataLenInBytes n ≤ s.dataPtr unit ∨ s.dataPtr unit + dataLenInBytes n ≤ address

instance (address : Nat) : Decidable (s.MayAlloc n address) :=
  inferInstanceAs (Decidable (_ ∧ _ ∧ _))

def setCall (c : Nat) (call : Call) : State :=
  { s with calls := Function.update s.calls c (some call) }

def endCall (c shard : Nat) : State :=
  { s with
    calls := Function.update s.calls c none
    mutexes := Function.update s.mutexes shard none }

def setFlag (ptr : ShardedDataPtr) (used : Bool) : State :=
  { s with usageFlags := Function.update s.usageFlags ptr used }

def setGroup (shard : Nat) (g : AllocUnitGroup) : State :=
  { s with groups := Function.update s.groups shard g }

def panic (site : AllocPanic) : State := { s with panicked := some site }

/-- `allocate_and_init` with `shard` as the current shard, up to the lock. -/
def lock (c shard : Nat) : Option State :=
  if shard < n ∧ s.calls c = none ∧ s.mutexes shard = none then
    some { s.setCall c ⟨shard,.looping⟩ with
      mutexes := Function.update s.mutexes shard (some c) }
  else none

/-- The head of the loop of `allocate`. `AllocUnit::new` gets `address`. -/
def checkUnits (c address : Nat) : Option State :=
  match s.calls c with
  | some ⟨shard,.looping⟩ =>
      match (s.groups shard).unitToCheck with
      | some unit => some (s.setCall c ⟨shard,.claiming unit 0 false⟩)
      | none =>
          if s.MayAlloc n address then
            some { s.setCall c ⟨shard,.claiming s.nextUnit 0 true⟩ with
              usageFlags := fun ptr => if ptr.unit = s.nextUnit then false else s.usageFlags ptr
              dataPtr := Function.update s.dataPtr s.nextUnit address
              nextUnit := s.nextUnit + 1 }
          else none
  | _ => none

/-- An iteration of the loop of `allocate_without_initializing`, or its end. -/
def swapUsageFlag (c : Nat) : Option State :=
  match s.calls c with
  | some ⟨shard,.claiming unit slot fresh⟩ =>
      if slot < SLOT_COUNT_PER_UNIT then
        if s.usageFlags ⟨unit,slot⟩ then
          some ((s.setFlag ⟨unit,slot⟩ true).setCall c ⟨shard,.claiming unit (slot + 1) fresh⟩)
        else
          some ((s.setFlag ⟨unit,slot⟩ true).setCall c ⟨shard,.initializing ⟨unit,slot⟩ 0 fresh⟩)
      else if fresh then some (s.panic .newUnitFull)
      else some ((s.setGroup shard (s.groups shard).skipFirst).setCall c ⟨shard,.looping⟩)
  | _ => none

def initFunc (c : Nat) (panics : Bool) : Option State :=
  match s.calls c with
  | some ⟨shard,.initializing ptr k fresh⟩ =>
      if k < n then
        if panics then some (s.setCall c ⟨shard,.unwinding ptr fresh⟩)
        else some (s.setCall c ⟨shard,.initializing ptr (k + 1) fresh⟩)
      else none
  | _ => none

def returnPtr (c : Nat) : Option State :=
  match s.calls c with
  | some ⟨shard,.initializing ptr k fresh⟩ =>
      if k < n then none
      else
        let g := s.groups shard
        let s' := s.setGroup shard (if fresh then g.pushUnit ptr.unit else g)
        some { s'.endCall c shard with boxes := ptr :: s.boxes }
  | _ => none

def unwindGuard (c : Nat) : Option State :=
  match s.calls c with
  | some ⟨shard,.unwinding ptr fresh⟩ =>
      if s.usageFlags ptr then
        if fresh then some ((s.setFlag ptr false).setCall c ⟨shard,.droppingUnit ptr.unit 0⟩)
        else some ((s.setFlag ptr false).endCall c shard)
      else some ((s.setFlag ptr false).panic .usageFlagNotSet)
  | _ => none

/-- `AllocUnit::drop` of the new unit. -/
def dropNewUnit (c : Nat) : Option State :=
  match s.calls c with
  | some ⟨shard,.droppingUnit unit slot⟩ =>
      if slot < SLOT_COUNT_PER_UNIT then
        if s.usageFlags ⟨unit,slot⟩ then some (s.panic .unitInUse)
        else some (s.setCall c ⟨shard,.droppingUnit unit (slot + 1)⟩)
      else some { s.endCall c shard with released := unit :: s.released }
  | _ => none

def dropBox (ptr : ShardedDataPtr) : Option State :=
  if ptr ∈ s.boxes ∧ ptr ∉ s.dropping then some { s with dropping := ptr :: s.dropping }
  else none

def deallocateWithoutDropping (ptr : ShardedDataPtr) : Option State :=
  if ptr ∈ s.dropping then
    let s' := s.setFlag ptr false
    if s.usageFlags ptr then
      some { s' with boxes := s.boxes.erase ptr, dropping := s.dropping.erase ptr }
    else some (s'.panic .usageFlagNotSet)
  else none

def swapGroups (shard : Nat) (g : AllocUnitGroup) (temp : FillingGroup) (pc : CollectorPc) :
    State :=
  { s.setGroup shard g with tempFillingGroup := temp, collector := pc }

def doMaintenanceByCollector : Option State :=
  match s.collector with
  | .outside => some { s with collector := .swapping 0 }
  | .swapping shard =>
      match s.tempFillingGroup with
      | .whole g =>
          if shard < n then
            if s.mutexes shard = none then
              some (s.swapGroups shard g (.startMaintenance (s.groups shard))
                (.maintaining (some shard)))
            else none
          else
            some { s with
              tempFillingGroup := .startMaintenance g, collector := .maintaining none }
      | _ => none
  | .maintaining shard =>
      match s.tempFillingGroup.doMaintenance s.usageFlags with
      | some (.goesOn g) => some { s with tempFillingGroup := g }
      | some (.releases unit g) =>
          some { s with tempFillingGroup := g, released := unit :: s.released }
      | some (.panics site) => some (s.panic site)
      | none =>
          match shard with
          | some shard => some { s with collector := .swappingBack shard }
          | none => some { s with collector := .outside }
  | .swappingBack shard =>
      match s.tempFillingGroup with
      | .whole g =>
          if s.mutexes shard = none then
            some (s.swapGroups shard g (.whole (s.groups shard)) (.swapping (shard + 1)))
          else none
      | _ => none

end State

inductive Action where
  | lock (c shard : Nat)
  | checkUnits (c address : Nat)
  | swapUsageFlag (c : Nat)
  | initFunc (c : Nat) (panics : Bool)
  | returnPtr (c : Nat)
  | unwindGuard (c : Nat)
  | dropNewUnit (c : Nat)
  | dropBox (ptr : ShardedDataPtr)
  | deallocateWithoutDropping (ptr : ShardedDataPtr)
  | doMaintenanceByCollector
  deriving DecidableEq, Repr

def step (n : Nat) (s : State) : Action → Option State
  | .lock c shard => s.lock n c shard
  | .checkUnits c address => s.checkUnits n c address
  | .swapUsageFlag c => s.swapUsageFlag c
  | .initFunc c panics => s.initFunc n c panics
  | .returnPtr c => s.returnPtr n c
  | .unwindGuard c => s.unwindGuard c
  | .dropNewUnit c => s.dropNewUnit c
  | .dropBox ptr => s.dropBox ptr
  | .deallocateWithoutDropping ptr => s.deallocateWithoutDropping ptr
  | .doMaintenanceByCollector => s.doMaintenanceByCollector n

/-- The states that runs on `n` shards reach. -/
abbrev Reachable (n : Nat) (s : State) : Prop :=
  Transition.Reach (step n) (fun _ _ => True) State.initialState s

section StatusReport

structure PerGroupStatusReport where
  unusedSlotCount : Nat
  allSlotCount : Nat
  deriving DecidableEq, Repr

structure ShardedAllocStatusReport where
  perShard : List PerGroupStatusReport
  fillingGroup : PerGroupStatusReport
  totalUsedSlotCount : Nat
  deriving DecidableEq, Repr

variable (n : Nat) (s : State)

def State.getUnusedSlotCount (unit : Nat) : Nat :=
  (List.range SLOT_COUNT_PER_UNIT).countP (fun slot => s.usageFlags ⟨unit,slot⟩ = false)

def State.countUnusedSlotCountAndAllSlotCount (allUnits : List Nat) : PerGroupStatusReport where
  unusedSlotCount := (allUnits.map s.getUnusedSlotCount).sum
  allSlotCount := allUnits.length * SLOT_COUNT_PER_UNIT

/-- `none` while a mutex that it locks is taken. -/
def State.getStatusReport : Option ShardedAllocStatusReport :=
  if s.collector = .outside ∧ ∀ shard, shard < n → s.mutexes shard = none then
    let perShard := (List.range n).map (fun shard =>
      s.countUnusedSlotCountAndAllSlotCount (s.groups shard).allUnits)
    let fillingGroup := s.countUnusedSlotCountAndAllSlotCount s.tempFillingGroup.allUnits
    let totalUnused :=
      (perShard.map (fun report => report.unusedSlotCount)).sum + fillingGroup.unusedSlotCount
    let totalSlots :=
      (perShard.map (fun report => report.allSlotCount)).sum + fillingGroup.allSlotCount
    some ⟨perShard,fillingGroup,totalSlots - totalUnused⟩
  else none

end StatusReport

end Sdarc.FullShardAlloc
