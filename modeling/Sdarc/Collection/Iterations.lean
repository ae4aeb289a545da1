import Sdarc.System.State
set_option autoImplicit false

/-!
The outer and inner iterations of the collector as functions of the state, over any memory.
Each access to memory that other threads and destructors share goes through `Environment`,
which says what the access yields and what memory is like after it: whatever may have
happened since the access before is part of that.
-/

open Sdarc.System

namespace Sdarc.Collection

/-- The memory as the collector meets it. The address of a pointee and its counters pointer
never change. -/
structure Environment (M : Type) where
  shards : Nat
  ptr : Nat → Nat
  countersPtr : Nat → Nat
  takePending : M → Nat → List Entry × M
  /-- `traverse_atomic_reader_signals`. -/
  traverse : M → Finset Nat × M
  loadRelaxed : M → Nat → Nat → Counter × M
  fetchAndClearTag : M → Nat → Nat → Counter × M
  loadAcquire : M → Nat → Nat → Counter × M
  /-- Whether another thread has initialized `weak_inner_ref` by now. -/
  downgraded : M → Nat → Bool × M
  /-- The destructor, which may panic, with the counters of the `Sdarc`s that are dropped
  on the collector thread. -/
  free : M → Nat → List Nat × M

/-- The `weak_inner_ref` of a pointee and the `back_ref` in it. -/
inductive WeakRef where
  | uninit | linked | cleared
  deriving DecidableEq, Repr

/-- `CollectorThreadState`, with the memory. -/
structure Collector (M : Type) where
  memory : M
  weakRefs : Nat → WeakRef
  tracked : Std.TreeMap Nat TrackedCounter

structure Found where
  newToReCheck : Std.TreeSet Nat
  toFree : List Nat

def Found.classify (f : Found) (key : Nat) : TrackedCounterState → Found
  | .defaultState => f
  | .requiresReChecking => { f with newToReCheck := f.newToReCheck.insert key }
  | .readyToFree => { f with toFree := f.toFree ++ [key] }

namespace Collector

variable {M : Type}

@[simp] def setTracked (c : Collector M) (key : Nat) (state : TrackedCounterState) : Collector M :=
  { c with tracked := c.tracked.modify key (fun e => { e with state := state }) }

@[simp] def setMemory (c : Collector M) (m : M) : Collector M := { c with memory := m }

end Collector

namespace Environment

variable {M : Type} (env : Environment M)

def readRefCountSum (read : M → Nat → Counter × M) : List Nat → M → Int × M
  | [], m => (0,m)
  | shard :: shards, m =>
      match read m shard with
      | (v,m₁) =>
          match readRefCountSum read shards m₁ with
          | (sum,m₂) => (v.refCount + sum,m₂)

def readRefCountSumRelaxed (key : Nat) (m : M) : Int × M :=
  readRefCountSum (fun m shard => env.loadRelaxed m key shard) (List.range env.shards) m

def clearTagsAndReadRefCountSum (key : Nat) (m : M) : Int × M :=
  readRefCountSum (fun m shard => env.fetchAndClearTag m key shard) (List.range env.shards) m

/-- The loop of `read_ref_count_sum_if_all_tags_unset_acquire`. -/
def readUntagged (key : Nat) : List Nat → M → Option Int × M
  | [], m => (some 0,m)
  | shard :: shards, m =>
      match env.loadAcquire m key shard with
      | (v,m₁) =>
          if v.tag then (none,m₁)
          else
            match readUntagged key shards m₁ with
            | (none,m₂) => (none,m₂)
            | (some sum,m₂) => (some (v.refCount + sum),m₂)

def readRefCountSumIfAllTagsUnset (key : Nat) (m : M) : Option Int × M :=
  env.readUntagged key (List.range env.shards) m

/-- `clear_weak_back_ref`. A `weak_inner_ref` that is set is never unset, and a `back_ref`
that is null stays null. -/
def clearWeakBackRef (p : Nat) (c : Collector M) : ClearWeakBackRefResult × Collector M :=
  match env.downgraded c.memory p with
  | (downgraded,m) =>
      match c.weakRefs p with
      | .cleared => (.weakBackRefWasAlreadyNull,c.setMemory m)
      | .linked =>
          (.weakBackRefCleared,
            { c with memory := m, weakRefs := Function.update c.weakRefs p .cleared })
      | .uninit =>
          if downgraded then
            (.weakBackRefCleared,
              { c with memory := m, weakRefs := Function.update c.weakRefs p .cleared })
          else (.weakRefNotInvolved,c.setMemory m)

def updateState (key : Nat) (e : TrackedCounter) (c : Collector M) :
    Except CollectorPanic (TrackedCounterState × Collector M) :=
  match e.state with
  | .defaultState =>
      match env.readRefCountSumRelaxed key c.memory with
      | (relaxedSum,m₁) =>
          if relaxedSum = 0 then
            match env.clearTagsAndReadRefCountSum key m₁ with
            | (sum,m₂) =>
                if sum = 0 then .ok (.requiresReChecking,c.setMemory m₂)
                else .ok (.defaultState,c.setMemory m₂)
          else .ok (.defaultState,c.setMemory m₁)
  | .requiresReChecking =>
      match env.readRefCountSumIfAllTagsUnset key c.memory with
      | (none,m) => .ok (.defaultState,c.setMemory m)
      | (some sum,m) =>
          if sum = 0 then
            match env.clearWeakBackRef e.pointee (c.setMemory m) with
            | (.weakBackRefCleared,c') => .ok (.requiresReChecking,c')
            | (_,c') => .ok (.readyToFree,c')
          else if 0 < sum then .ok (.defaultState,c.setMemory m)
          else .error (.updateState .negativeSumWithoutTag)
  | .readyToFree => .error (.updateState .calledInReadyToFree)

def visitKeys (hazard : Finset Nat) :
    List Nat → Collector M → Found → Except CollectorPanic (Collector M × Found)
  | [], c, f => .ok (c,f)
  | key :: keys, c, f =>
      match c.tracked[key]? with
      | none => visitKeys hazard keys c f
      | some e =>
          if env.ptr e.pointee ∈ hazard then
            visitKeys hazard keys (c.setTracked key .defaultState) f
          else
            match env.updateState key e c with
            | .error site => .error site
            | .ok (state,c') =>
                visitKeys hazard keys (c'.setTracked key state) (f.classify key state)

/-- `free_pointers`; `toReCheck` is the set in the collector's thread local. -/
def freePointers :
    List Nat → Collector M → List Nat → Except CollectorPanic (Collector M × List Nat)
  | [], c, toReCheck => .ok (c,toReCheck)
  | key :: keys, c, toReCheck =>
      match c.tracked[key]? with
      | none => .error .removedUntracked
      | some e =>
          if e.state ≠ .readyToFree then .error .notReadyToFree
          else if env.countersPtr e.pointee ≠ key then .error .countersPtrMismatch
          else
            match env.free c.memory e.pointee with
            | (dropped,m) =>
                freePointers keys
                  { c with memory := m, tracked := c.tracked.erase key } (toReCheck ++ dropped)

def innerIteration (todo : List Nat) (c : Collector M) :
    Except CollectorPanic (Std.TreeSet Nat × Collector M) :=
  match env.traverse c.memory with
  | (hazard,m) =>
      match env.visitKeys hazard todo (c.setMemory m) ⟨∅,[]⟩ with
      | .error site => .error site
      | .ok (c₁,found) =>
          match env.freePointers found.toFree c₁ [] with
          | .error site => .error site
          | .ok (c₂,toReCheck) => .ok (found.newToReCheck.insertMany toReCheck,c₂)

def updateAllTrackedCounters (c : Collector M) :
    Except CollectorPanic (Std.TreeSet Nat × Collector M) :=
  env.innerIteration c.tracked.keys c

def updateSpecificCounters (oldToReCheck : Std.TreeSet Nat) (c : Collector M) :
    Except CollectorPanic (Std.TreeSet Nat × Collector M) :=
  env.innerIteration oldToReCheck.toList c

structure LoopEnd where
  loopCounter : Nat
  toReCheck : Std.TreeSet Nat

/-- The loop of a deep collection, which `remaining` more iterations bring to its cap. -/
def reCheckLoop : Nat → Nat → Std.TreeSet Nat → Collector M →
    Except CollectorPanic (LoopEnd × Collector M)
  | 0, loopCounter, toReCheck, c => .ok (⟨loopCounter,toReCheck⟩,c)
  | remaining + 1, loopCounter, toReCheck, c =>
      if toReCheck.isEmpty then .ok (⟨loopCounter,toReCheck⟩,c)
      else
        match env.updateSpecificCounters toReCheck c with
        | .error site => .error site
        | .ok (toReCheck',c') => reCheckLoop remaining (loopCounter + 1) toReCheck' c'

/-- `cap` is `MAX_INNER_ITERATIONS` in the program. -/
def doCollectionInnerIterations (cap : Nat) (deep : Bool) (c : Collector M) :
    Except CollectorPanic (LoopEnd × Collector M) :=
  match env.updateAllTrackedCounters c with
  | .error site => .error site
  | .ok (toReCheck,c') =>
      if deep then env.reCheckLoop cap 0 toReCheck c' else .ok (⟨0,∅⟩,c')

def insertTaken : List Entry → Collector M → Except CollectorPanic (Collector M)
  | [], c => .ok c
  | e :: taken, c =>
      match c.tracked[e.countersPtr]? with
      | none =>
          insertTaken taken
            { c with tracked := c.tracked.insert e.countersPtr ⟨e.pointee,.defaultState⟩ }
      | some _ => .error .replacedTracked

def takeNewCountersToTrack : List Nat → Collector M → Except CollectorPanic (Collector M)
  | [], c => .ok c
  | shard :: shards, c =>
      match env.takePending c.memory shard with
      | (taken,m) =>
          match insertTaken taken (c.setMemory m) with
          | .error site => .error site
          | .ok c' => takeNewCountersToTrack shards c'

/-- `CollectorThreadState::update`, up to the maintenance of the allocator. -/
def update (cap : Nat) (deep : Bool) (c : Collector M) :
    Except CollectorPanic (LoopEnd × Collector M) :=
  match env.takeNewCountersToTrack (List.range env.shards) c with
  | .error site => .error site
  | .ok c' => env.doCollectionInnerIterations cap deep c'

end Environment

end Sdarc.Collection
