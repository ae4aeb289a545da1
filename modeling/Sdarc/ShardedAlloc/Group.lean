import Sdarc.ShardIndex
set_option autoImplicit false

/-!
Allocation from the group of one shard. A unit is the number of its allocation. The user's
`init_func` and destructors may themselves change the heap; how they end is all that is known
of them.
-/

namespace Sdarc.ShardedAlloc

structure ShardedDataPtr where
  unit : Nat
  slot : Nat
  deriving DecidableEq, Repr

structure AllocUnitGroup where
  allUnits : List Nat
  indexesOfUnitsToCheckForAllocation : List Nat
  indexes_lt : ∀ i, i ∈ indexesOfUnitsToCheckForAllocation → i < allUnits.length
  indexes_nodup : indexesOfUnitsToCheckForAllocation.Nodup

/-- The memory of all units. `dropped` lists the values that `drop_in_place` has run on and
`released` the units that have been given back; `boxes` are the `ShardedBox`es there are,
and `returned` all that have ever been returned, latest first. -/
structure Heap (T : Type) where
  usageFlags : ShardedDataPtr → Bool
  cells : ShardedDataPtr → Nat → Option T
  nextUnit : Nat
  groups : Nat → AllocUnitGroup
  dropped : List (ShardedDataPtr × Nat × T)
  released : List Nat
  boxes : List ShardedDataPtr
  returned : List ShardedDataPtr

inductive AllocPanic where
  | emptyCell
  | usageFlagNotSet
  | newUnitFull
  | unitInUse
  | panicWhileUnwinding
  deriving DecidableEq, Repr

/-- How a call ends. `deadlocked` waits for a mutex that the thread itself holds, and `aborted`
is a failed assertion or a panic out of the unwind guard. -/
inductive Outcome (α : Type) where
  | done (a : α)
  | unwound
  | deadlocked
  | aborted (site : AllocPanic)
  deriving DecidableEq, Repr

/-- The destructor of the value of a shard. -/
abbrev Destructor (T : Type) : Type := Nat → Heap T → Outcome Unit × Heap T

def noDestructor {T : Type} : Destructor T := fun _ h => (.done (),h)

/-- What the user's code does in an allocation: a call of `init_func` for a shard, and the
destructor of the value that it has returned. -/
structure InitFunc (T : Type) where
  call : Nat → Heap T → Outcome T × Heap T
  destructor : Destructor T

def pureInit {T : Type} (f : Nat → Option T) : InitFunc T where
  call k h :=
    match f k with
    | some v => (.done v,h)
    | none => (.unwound,h)
  destructor := noDestructor

@[simp] theorem noDestructor_apply {T : Type} (k : Nat) (h : Heap T) :
    noDestructor k h = (.done (),h) := rfl

theorem pureInit_call {T : Type} (f : Nat → Option T) (k : Nat) (h : Heap T) :
    (pureInit f).call k h = match f k with
      | some v => (.done v,h)
      | none => (.unwound,h) := rfl

theorem pureInit_destructor {T : Type} (f : Nat → Option T) :
    (pureInit f).destructor = noDestructor := rfl

namespace Heap

variable {T : Type} (h : Heap T)

@[simp] def setFlag (ptr : ShardedDataPtr) (used : Bool) : Heap T :=
  { h with usageFlags := Function.update h.usageFlags ptr used }

@[simp] def setCell (ptr : ShardedDataPtr) (shard : Nat) (v : Option T) : Heap T :=
  { h with cells := Function.update h.cells ptr (Function.update (h.cells ptr) shard v) }

@[simp] def dropInPlace (ptr : ShardedDataPtr) (shard : Nat) (v : T) : Heap T :=
  { h.setCell ptr shard none with dropped := h.dropped ++ [(ptr,shard,v)] }

/-- The loop of `allocate_without_initializing`: every flag on the way is swapped. -/
def claimFrom (h : Heap T) (unit : Nat) : List Nat → Option ShardedDataPtr × Heap T
  | [] => (none,h)
  | slot :: slots =>
      let ptr := ⟨unit,slot⟩
      if h.usageFlags ptr then (h.setFlag ptr true).claimFrom unit slots
      else (some ptr,h.setFlag ptr true)

def allocateWithoutInitializing (unit : Nat) : Option ShardedDataPtr × Heap T :=
  h.claimFrom unit (List.range SLOT_COUNT_PER_UNIT)

def deallocateWithoutDropping (ptr : ShardedDataPtr) : Outcome Unit × Heap T :=
  let h' := h.setFlag ptr false
  if h.usageFlags ptr then (.done (),h') else (.aborted .usageFlagNotSet,h')

def dropCells (destructor : Destructor T) (h : Heap T) (ptr : ShardedDataPtr) :
    List Nat → Outcome Unit × Heap T
  | [] => (.done (),h)
  | shard :: shards =>
      match h.cells ptr shard with
      | none => (.aborted .emptyCell,h)
      | some v =>
          match destructor shard (h.dropInPlace ptr shard v) with
          | (.done (),h') => dropCells destructor h' ptr shards
          | r => r

/-- What the unwind guard does after `init_func` has panicked at `shard`. A panic out of it
aborts the process. -/
def unwind (destructor : Destructor T) (ptr : ShardedDataPtr) (shard : Nat) :
    Outcome Unit × Heap T :=
  match h.dropCells destructor ptr (List.range shard) with
  | (.done (),h') => h'.deallocateWithoutDropping ptr
  | (.unwound,h') => (.aborted .panicWhileUnwinding,h')
  | r => r

/-- The loop over the shards of `allocate_and_initialize`. -/
def writeCells (init : InitFunc T) (ptr : ShardedDataPtr) :
    List Nat → Heap T → Outcome Unit × Heap T
  | [], h => (.done (),h)
  | shard :: shards, h =>
      match init.call shard h with
      | (.done v,h') => writeCells init ptr shards (h'.setCell ptr shard (some v))
      | (.unwound,h') =>
          match h'.unwind init.destructor ptr shard with
          | (.done (),h'') => (.unwound,h'')
          | r => r
      | (.deadlocked,h') => (.deadlocked,h')
      | (.aborted site,h') => (.aborted site,h')

/-- `none` when the unit has no free slot. -/
def allocateAndInitialize (n : Nat) (init : InitFunc T) (unit : Nat) :
    Outcome (Option ShardedDataPtr) × Heap T :=
  match h.allocateWithoutInitializing unit with
  | (none,h') => (.done none,h')
  | (some ptr,h') =>
      match writeCells init ptr (List.range n) h' with
      | (.done (),h'') => (.done (some ptr),h'')
      | (.unwound,h'') => (.unwound,h'')
      | (.deadlocked,h'') => (.deadlocked,h'')
      | (.aborted site,h'') => (.aborted site,h'')

def isAnySlotUsed (unit : Nat) : Bool :=
  (List.range SLOT_COUNT_PER_UNIT).any (fun slot => h.usageFlags ⟨unit,slot⟩)

/-- `AllocUnit::new`. -/
@[simp] def newUnit : Heap T :=
  { h with
    usageFlags := fun ptr => if ptr.unit = h.nextUnit then false else h.usageFlags ptr
    nextUnit := h.nextUnit + 1 }

/-- `AllocUnit::drop`. -/
def dropUnit (unit : Nat) : Outcome Unit × Heap T :=
  if h.isAnySlotUsed unit then (.aborted .unitInUse,h)
  else (.done (),{ h with released := h.released ++ [unit] })

end Heap

/-- `Vec::swap_remove(0)`. -/
def swapRemoveFirst : List Nat → List Nat
  | [] => []
  | _ :: rest =>
      match rest.getLast? with
      | none => []
      | some last => last :: rest.dropLast

theorem swapRemoveFirst_perm (i : Nat) (rest : List Nat) :
    (swapRemoveFirst (i :: rest)).Perm rest := by
  cases hlast : rest.getLast? with
  | none => simp [swapRemoveFirst,List.getLast?_eq_none_iff.mp hlast]
  | some last =>
    obtain ⟨ys,rfl⟩ := List.getLast?_eq_some_iff.mp hlast
    simp only [swapRemoveFirst,hlast,List.dropLast_concat]
    exact (List.perm_append_singleton last ys).symm

namespace AllocUnitGroup

@[ext]
theorem ext {g g' : AllocUnitGroup} (hunits : g.allUnits = g'.allUnits)
    (hindexes : g.indexesOfUnitsToCheckForAllocation =
      g'.indexesOfUnitsToCheckForAllocation) : g = g' := by
  cases g
  cases g'
  congr

def new : AllocUnitGroup := ⟨[],[],by simp,by simp⟩

def skipFirst (g : AllocUnitGroup) : AllocUnitGroup where
  allUnits := g.allUnits
  indexesOfUnitsToCheckForAllocation := swapRemoveFirst g.indexesOfUnitsToCheckForAllocation
  indexes_lt i hi := by
    have hlt := g.indexes_lt i
    cases hg : g.indexesOfUnitsToCheckForAllocation with
    | nil => simp [hg,swapRemoveFirst] at hi
    | cons j rest =>
      rw [hg] at hi hlt
      exact hlt (List.mem_cons_of_mem _ ((swapRemoveFirst_perm j rest).mem_iff.mp hi))
  indexes_nodup := by
    have hnodup := g.indexes_nodup
    cases hg : g.indexesOfUnitsToCheckForAllocation with
    | nil => simp [swapRemoveFirst]
    | cons j rest =>
      rw [hg] at hnodup
      exact (swapRemoveFirst_perm j rest).nodup_iff.mpr (List.nodup_cons.mp hnodup).2

def pushUnit (g : AllocUnitGroup) (unit : Nat) : AllocUnitGroup where
  allUnits := g.allUnits ++ [unit]
  indexesOfUnitsToCheckForAllocation :=
    g.indexesOfUnitsToCheckForAllocation ++ [g.allUnits.length]
  indexes_lt i hi := by
    rw [List.length_append,List.length_singleton]
    rcases List.mem_append.mp hi with hi | hi
    · exact Nat.lt_succ_of_lt (g.indexes_lt i hi)
    · rw [List.mem_singleton.mp hi]
      exact Nat.lt_succ_self _
  indexes_nodup := by
    refine List.nodup_append.mpr ⟨g.indexes_nodup,by simp,fun i hi j hj => ?_⟩
    rw [List.mem_singleton.mp hj]
    exact (g.indexes_lt i hi).ne

def unitToCheck (g : AllocUnitGroup) : Option Nat :=
  match h : g.indexesOfUnitsToCheckForAllocation with
  | [] => none
  | i :: _ => some (g.allUnits.get ⟨i,g.indexes_lt i (by simp [h])⟩)

section Allocate

variable {T : Type}

/-- The branch of `allocate` for an empty list to check. The unit is dropped when
`init_func` panics. -/
def allocateInNewUnit (n : Nat) (init : InitFunc T) (g : AllocUnitGroup) (h : Heap T) :
    Outcome ShardedDataPtr × AllocUnitGroup × Heap T :=
  match h.newUnit.allocateAndInitialize n init h.nextUnit with
  | (.done (some ptr),h') => (.done ptr,g.pushUnit h.nextUnit,h')
  | (.done none,h') => (.aborted .newUnitFull,g,h')
  | (.unwound,h') =>
      match h'.dropUnit h.nextUnit with
      | (.done (),h'') => (.unwound,g,h'')
      | (.unwound,h'') => (.unwound,g,h'')
      | (.deadlocked,h'') => (.deadlocked,g,h'')
      | (.aborted site,h'') => (.aborted site,g,h'')
  | (.deadlocked,h') => (.deadlocked,g,h')
  | (.aborted site,h') => (.aborted site,g,h')

/-- The loop of `allocate`: each iteration that does not end it removes an entry of the
list to check, of which there are `remaining`. -/
def allocateFrom (n : Nat) (init : InitFunc T) :
    Nat → AllocUnitGroup → Heap T → Outcome ShardedDataPtr × AllocUnitGroup × Heap T
  | 0, g, h => g.allocateInNewUnit n init h
  | remaining + 1, g, h =>
      match g.unitToCheck with
      | none => g.allocateInNewUnit n init h
      | some unit =>
          match h.allocateAndInitialize n init unit with
          | (.done (some ptr),h') => (.done ptr,g,h')
          | (.done none,h') => allocateFrom n init remaining g.skipFirst h'
          | (.unwound,h') => (.unwound,g,h')
          | (.deadlocked,h') => (.deadlocked,g,h')
          | (.aborted site,h') => (.aborted site,g,h')

def allocate (n : Nat) (init : InitFunc T) (g : AllocUnitGroup) (h : Heap T) :
    Outcome ShardedDataPtr × AllocUnitGroup × Heap T :=
  allocateFrom n init g.indexesOfUnitsToCheckForAllocation.length g h

end Allocate

end AllocUnitGroup

section Claim

variable {T : Type} {h h' : Heap T} {unit : Nat}

theorem setFlag_self {ptr : ShardedDataPtr} {used : Bool} (hused : h.usageFlags ptr = used) :
    h.setFlag ptr used = h := by
  subst hused
  simp

theorem claimFrom_of_all_used {slots : List Nat}
    (hused : ∀ slot, slot ∈ slots → h.usageFlags ⟨unit,slot⟩ = true) :
    h.claimFrom unit slots = (none,h) := by
  induction slots with
  | nil => rfl
  | cons slot slots ih =>
    have hfirst := hused slot List.mem_cons_self
    simp only [Heap.claimFrom,hfirst,if_true]
    rw [setFlag_self hfirst]
    exact ih (fun slot' hmem => hused slot' (List.mem_cons_of_mem _ hmem))

theorem claimFrom_of_free {slots : List Nat}
    (hfree : ∃ slot, slot ∈ slots ∧ h.usageFlags ⟨unit,slot⟩ = false) :
    ∃ slot, slot ∈ slots ∧ h.usageFlags ⟨unit,slot⟩ = false ∧
      h.claimFrom unit slots = (some ⟨unit,slot⟩,h.setFlag ⟨unit,slot⟩ true) := by
  induction slots with
  | nil => simp at hfree
  | cons slot slots ih =>
    cases hfirst : h.usageFlags ⟨unit,slot⟩ with
    | false =>
      refine ⟨slot,List.mem_cons_self,hfirst,?_⟩
      simp only [Heap.claimFrom,hfirst,Bool.false_eq_true,if_false]
    | true =>
      obtain ⟨free,hmem,hfree⟩ := hfree
      have hrest : free ∈ slots := by
        rcases List.mem_cons.mp hmem with rfl | hrest
        · rw [hfirst] at hfree
          contradiction
        · exact hrest
      obtain ⟨found,hfound,hflag,hclaim⟩ := ih ⟨free,hrest,hfree⟩
      refine ⟨found,List.mem_cons_of_mem _ hfound,hflag,?_⟩
      simp only [Heap.claimFrom,hfirst,if_true]
      rw [setFlag_self hfirst]
      exact hclaim

def Heap.full (h : Heap T) (unit : Nat) : Prop :=
  ∀ slot, slot < SLOT_COUNT_PER_UNIT → h.usageFlags ⟨unit,slot⟩ = true

theorem dropUnit_done (hunused : h.isAnySlotUsed unit = false) :
    h.dropUnit unit = (.done (),{ h with released := h.released ++ [unit] }) := by
  simp only [Heap.dropUnit,hunused,Bool.false_eq_true,if_false]

theorem allocateWithoutInitializing_of_full (hfull : h.full unit) :
    h.allocateWithoutInitializing unit = (none,h) :=
  claimFrom_of_all_used (fun slot hmem => hfull slot (List.mem_range.mp hmem))

theorem allocateWithoutInitializing_of_not_full (hfree : ¬ h.full unit) :
    ∃ slot, slot < SLOT_COUNT_PER_UNIT ∧ h.usageFlags ⟨unit,slot⟩ = false ∧
      h.allocateWithoutInitializing unit = (some ⟨unit,slot⟩,h.setFlag ⟨unit,slot⟩ true) := by
  obtain ⟨slot,hslot,hflag⟩ : ∃ slot, slot < SLOT_COUNT_PER_UNIT ∧
      h.usageFlags ⟨unit,slot⟩ = false := by simpa [Heap.full] using hfree
  obtain ⟨found,hfound,hfree,hclaim⟩ := claimFrom_of_free
    ⟨slot,List.mem_range.mpr hslot,hflag⟩
  exact ⟨found,List.mem_range.mp hfound,hfree,hclaim⟩

end Claim

end Sdarc.ShardedAlloc
