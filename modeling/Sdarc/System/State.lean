import Mathlib.Algebra.Order.BigOperators.Group.Finset
import Sdarc.Transition
import Sdarc.UpdateState
set_option autoImplicit false

/-!
The state of a process: the `SdarcInner` allocations, the counter slots, the cells,
the threads, the hazard records and the collector. A pointer to an `SdarcInner` is
the number of its allocation; the program compares such pointers by address, and
addresses of freed allocations and of released counter slots are handed out again.
-/

namespace Sdarc.System

/-- The number of counter shards, of threads with the collector thread as thread 0, and
of cells. -/
structure Config where
  shards : Nat
  threads : Nat
  cells : Nat
  threads_pos : 0 < threads

def HZ_PTR_SLOT_COUNT : Nat := 15

def MAX_INNER_ITERATIONS : Nat := 100000

inductive OnceLock where
  | uninit
  | running (thread : Nat)
  | initialized (weakInner : Nat)
  deriving DecidableEq, Repr

/-- The data of a pointee. `borrows` lists the scopes that the type of user data
mentions; `origin` is the pointee that a `WeakSdarcInner` was made for. -/
inductive Data where
  | user (borrows : List Nat)
  | weakSdarcInner (origin : Nat) (backRef : Option Nat)
  deriving DecidableEq, Repr

inductive Stage where
  | unallocated | allocated | dropping | deallocated
  deriving DecidableEq, Repr

structure SdarcInner where
  ptr : Nat
  countersPtr : Nat
  weakInnerRef : OnceLock
  data : Data
  stage : Stage
  slotReleased : Bool
  deriving DecidableEq, Repr

/-- Where a pointer is loaded from: a cell, or the `back_ref` of a `WeakSdarcInner`. -/
inductive Source where
  | cell (c : Nat)
  | backRef (weakInner : Nat)
  deriving DecidableEq, Repr

/-- Where a thread stands in an operation. `after` is the handle that `sync_to` drops
when its load is done. -/
inductive ThreadPc where
  | idle
  | waiting
  | registerNew (p : Nat)
  | drop (p : Nat)
  | dropExchange (p shard : Nat) (value : Counter)
  | loadEnter (src : Source) (after : Option Nat)
  | loadPointer (src : Source) (after : Option Nat)
  | loadIncrement (src : Source) (after : Option Nat) (p : Nat)
  | loadLeave (src : Source) (after : Option Nat) (result : Option Nat)
  | borrowPublish (src : Source) (address : Nat)
  | borrowReload (src : Source) (slot address : Nat)
  | borrowRetract (src : Source) (slot : Nat)
  | incrementThenSet (thenSet : Nat) (original : Option Nat)
  | getOrInit (p : Nat)
  | newWeakInner (p : Nat)
  | registerWeakInner (p w : Nat)
  | setWeakInner (p w : Nat)
  | cloneWeakInner (p w : Nat)
  deriving DecidableEq, Repr

/-- The thread's own reference to a hazard record. `scanning` is the loop over the
`len` records that existed when it began. -/
inductive RecordRef where
  | none
  | scanning (len next : Nat)
  | held (r : Nat)
  deriving DecidableEq, Repr

structure Thread where
  pc : ThreadPc
  record : RecordRef
  /-- The hazard guards the thread holds, by slot. -/
  guards : Nat → Option Nat

/-- `PerThreadSharedHazardData`. -/
structure HazardData where
  slots : Nat → Option Nat
  isUsed : Bool
  flag : Bool

structure Entry where
  pointee : Nat
  countersPtr : Nat
  deriving DecidableEq, Repr

structure TrackedCounter where
  pointee : Nat
  state : TrackedCounterState
  deriving DecidableEq, Repr

structure Iter where
  deep : Bool
  round : Nat
  hazard : Finset Nat
  todo : List Nat
  toFree : List Nat
  newToReCheck : Std.TreeSet Nat

/-- The parts of `drop_sdarc_inner_impl`, in the order of the fields. -/
inductive DropPhase where
  | counters | weakInnerRef | data | memory
  deriving DecidableEq, Repr

inductive CollectorPanic where
  | replacedTracked
  | removedUntracked
  | notReadyToFree
  | countersPtrMismatch
  | updateState (site : UpdatePanic)
  deriving DecidableEq, Repr

inductive CollectorPc where
  | parked
  | taking (shard : Nat) (taken : List Entry)
  | traversing (it : Iter) (len record slot : Nat)
  | visiting (it : Iter)
  | checking (it : Iter) (key : Nat) (pc : UpdatePc)
  | unlinking (it : Iter) (key weakInner : Nat)
  | freeing (it : Iter)
  | dropping (it : Iter) (p : Nat) (phase : DropPhase)
  | panicked (site : CollectorPanic)

structure State where
  heap : Nat → SdarcInner
  nextPointee : Nat
  counters : Nat → Nat → Counter
  /-- The number of live `Sdarc` values for each pointee. A `WeakSdarc` is an `Sdarc`
  of its `WeakSdarcInner`. -/
  live : Nat → Nat
  cells : Nat → Option Nat
  threads : Nat → Thread
  records : Nat → HazardData
  recordCount : Nat
  pending : Nat → List Entry
  tracked : Std.TreeMap Nat TrackedCounter
  /-- The set in the collector's thread local. -/
  countersToReCheck : Std.TreeSet Nat
  collector : CollectorPc
  /-- The threads whose request has not been taken, and those being served. -/
  collectionWaiting : List Nat
  toNotify : List Nat
  /-- The pointees whose destructor has been started, latest first. -/
  destructors : List Nat
  /-- A thread failed an assertion: a nested critical section, a record released while
  in use, or a `WeakSdarcInner` dropped with its `back_ref` set. -/
  assertionFailed : Bool

def State.initial : State where
  heap _ := ⟨0,0,.uninit,.user [],.unallocated,true⟩
  nextPointee := 0
  counters _ _ := .new
  live _ := 0
  cells _ := none
  threads _ := ⟨.idle,.none,fun _ => none⟩
  records _ := ⟨fun _ => none,false,false⟩
  recordCount := 0
  pending _ := []
  tracked := ∅
  countersToReCheck := ∅
  collector := .parked
  collectionWaiting := []
  toNotify := []
  destructors := []
  assertionFailed := false

namespace ThreadPc

def owned (p : Nat) : ThreadPc → Nat
  | .registerNew q => if q = p then 1 else 0
  | .drop q => if q = p then 1 else 0
  | .dropExchange q _ _ => if q = p then 1 else 0
  | .loadEnter _ after => if after = some p then 1 else 0
  | .loadPointer _ after => if after = some p then 1 else 0
  | .loadIncrement _ after _ => if after = some p then 1 else 0
  | .loadLeave _ after result =>
      (if after = some p then 1 else 0) + (if result = some p then 1 else 0)
  | .incrementThenSet _ original => if original = some p then 1 else 0
  | .registerWeakInner _ w => if w = p then 1 else 0
  | .setWeakInner _ w => if w = p then 1 else 0
  | _ => 0

def pins (p : Nat) : ThreadPc → Prop
  | .loadEnter src _ => src = .backRef p
  | .loadPointer src _ => src = .backRef p
  | .loadIncrement src _ _ => src = .backRef p
  | .loadLeave src _ _ => src = .backRef p
  | .borrowPublish src _ => src = .backRef p
  | .borrowReload src _ _ => src = .backRef p
  | .borrowRetract src _ => src = .backRef p
  | .incrementThenSet thenSet _ => thenSet = p
  | .getOrInit q => q = p
  | .newWeakInner q => q = p
  | .registerWeakInner q _ => q = p
  | .setWeakInner q _ => q = p
  | .cloneWeakInner q _ => q = p
  | _ => False

instance (p : Nat) (pc : ThreadPc) : Decidable (pc.pins p) := by
  cases pc <;> simp only [pins] <;> infer_instance

def entering (p : Nat) : ThreadPc → Prop
  | .loadIncrement _ _ q => q = p
  | _ => False

instance (p : Nat) (pc : ThreadPc) : Decidable (pc.entering p) :=
  match pc with
  | .loadIncrement _ _ q => inferInstanceAs (Decidable (q = p))
  | .idle | .waiting | .registerNew _ | .drop _ | .dropExchange _ _ _ | .loadEnter _ _
  | .loadPointer _ _ | .loadLeave _ _ _ | .borrowPublish _ _ | .borrowReload _ _ _
  | .borrowRetract _ _ | .incrementThenSet _ _ | .getOrInit _ | .newWeakInner _
  | .registerWeakInner _ _ | .setWeakInner _ _ | .cloneWeakInner _ _ =>
      inferInstanceAs (Decidable False)

def inSection : ThreadPc → Prop
  | .loadPointer _ _ => True
  | .loadIncrement _ _ _ => True
  | .loadLeave _ _ _ => True
  | _ => False

def needsRecord : ThreadPc → Bool
  | .loadEnter _ _ => true
  | .borrowPublish _ _ => true
  | _ => false

/-- The pointee whose increment `compare_and_set` still owes. -/
def owes (p : Nat) : ThreadPc → Nat
  | .incrementThenSet thenSet _ => if thenSet = p then 1 else 0
  | _ => 0

end ThreadPc

theorem field_update {β : Type} (field : SdarcInner → β) {heap : Nat → SdarcInner} {p : Nat}
    {x : SdarcInner} (hx : field x = field (heap p)) (q : Nat) :
    field (Function.update heap p x q) = field (heap q) := by
  by_cases hq : q = p
  · rw [hq,Function.update_self,hx]
  · rw [Function.update_of_ne hq]

namespace State

variable (s : State)

@[simp] def setInner (p : Nat) (x : SdarcInner) : State :=
  { s with heap := Function.update s.heap p x }

@[simp] def setPc (t : Nat) (pc : ThreadPc) : State :=
  { s with threads := Function.update s.threads t { s.threads t with pc := pc } }

@[simp] def setRecordRef (t : Nat) (record : RecordRef) : State :=
  { s with threads := Function.update s.threads t { s.threads t with record := record } }

@[simp] def setGuard (t slot : Nat) (p : Option Nat) : State :=
  { s with
    threads := Function.update s.threads t
      { s.threads t with guards := Function.update (s.threads t).guards slot p } }

@[simp] def setRecord (r : Nat) (x : HazardData) : State :=
  { s with records := Function.update s.records r x }

@[simp] def setSlot (r slot : Nat) (address : Option Nat) : State :=
  s.setRecord r
    { s.records r with slots := Function.update (s.records r).slots slot address }

@[simp] def setFlag (r : Nat) (flag : Bool) : State := s.setRecord r { s.records r with flag := flag }

@[simp] def setLive (p m : Nat) : State := { s with live := Function.update s.live p m }

@[simp] def addLive (p : Nat) : State := s.setLive p (s.live p + 1)

@[simp] def takeLive (p : Nat) : State := s.setLive p (s.live p - 1)

@[simp] def addLiveOption (o : Option Nat) : State :=
  { s with
    live := match o with
      | none => s.live
      | some p => Function.update s.live p (s.live p + 1) }

@[simp] def takeLiveOption (o : Option Nat) : State :=
  { s with
    live := match o with
      | none => s.live
      | some p => Function.update s.live p (s.live p - 1) }

@[simp] def setCell (c : Nat) (p : Option Nat) : State :=
  { s with cells := Function.update s.cells c p }

@[simp] def setCounter (slot shard : Nat) (v : Counter) : State :=
  { s with
    counters := Function.update s.counters slot
      (Function.update (s.counters slot) shard v) }

def counter (p shard : Nat) : Counter := s.counters (s.heap p).countersPtr shard

@[simp] def increment (p shard : Nat) : State :=
  s.setCounter (s.heap p).countersPtr shard (s.counter p shard).increment

@[simp] def register (p shard : Nat) : State :=
  { s with
    pending := Function.update s.pending shard
      (s.pending shard ++ [⟨p,(s.heap p).countersPtr⟩]) }

def load : Source → Option Nat
  | .cell c => s.cells c
  | .backRef w =>
      match (s.heap w).data with
      | .weakSdarcInner _ backRef => backRef
      | .user _ => none

def isWeakSdarcInner (p : Nat) : Bool :=
  match (s.heap p).data with
  | .weakSdarcInner _ _ => true
  | .user _ => false

def inUserDestructor : Bool :=
  match s.collector with
  | .dropping _ p .data => !s.isWeakSdarcInner p
  | _ => false

def canStart (t : Nat) : Prop :=
  (s.threads t).pc = .idle ∧ (t = 0 → s.inUserDestructor = true)

instance (t : Nat) : Decidable (s.canStart t) := inferInstanceAs (Decidable (_ ∧ _))

/-- A handle to `p` can be moved: one is left for the operations that borrow one. -/
def canTake (cfg : Config) (p : Nat) : Prop :=
  0 < s.live p ∧
    (1 < s.live p ∨ ∀ t, t < cfg.threads → ¬ (s.threads t).pc.pins p)

instance (cfg : Config) (p : Nat) : Decidable (s.canTake cfg p) :=
  inferInstanceAs (Decidable (_ ∧ _))

def canTakeOption (cfg : Config) : Option Nat → Prop
  | none => True
  | some p => s.canTake cfg p

instance (cfg : Config) (o : Option Nat) : Decidable (s.canTakeOption cfg o) := by
  cases o <;> simp only [canTakeOption] <;> infer_instance

def canUse (cfg : Config) : Source → Prop
  | .cell c => c < cfg.cells
  | .backRef w => 0 < s.live w ∧ s.isWeakSdarcInner w = true

instance (cfg : Config) (src : Source) : Decidable (s.canUse cfg src) := by
  cases src <;> simp only [canUse] <;> infer_instance

def freed (p : Nat) : Prop := (s.heap p).stage = .dropping ∨ (s.heap p).stage = .deallocated

instance (p : Nat) : Decidable (s.freed p) := inferInstanceAs (Decidable (_ ∨ _))

end State

end Sdarc.System
