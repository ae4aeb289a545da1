import Sdarc.System.Operations
set_option autoImplicit false

/-!
The collector thread, cut at its accesses to shared memory. Given the state its next
step is determined, except for when it wakes up and for what a user destructor does.
-/

namespace Sdarc.System

/-- Where the state that `update_state` left in a tracked counter sends its key. -/
def Iter.classify (it : Iter) (key : Nat) : TrackedCounterState → Iter
  | .defaultState => it
  | .requiresReChecking =>
      if it.deep then { it with newToReCheck := it.newToReCheck.insert key } else it
  | .readyToFree => { it with toFree := it.toFree ++ [key] }

namespace State

@[simp] def setTracked (s : State) (key : Nat) (state : TrackedCounterState) : State :=
  { s with tracked := s.tracked.modify key (fun e => { e with state := state }) }

@[simp] def goto (s : State) (pc : CollectorPc) : State := { s with collector := pc }

/-- Going on with `update_state` for `key`, or leaving it. -/
def resume (s : State) (it : Iter) (key : Nat) : UpdateResult → State
  | .goto pc => s.goto (.checking it key pc)
  | .done state => (s.setTracked key state).goto (.visiting (it.classify key state))
  | .panic site => s.goto (.panicked (.updateState site))

@[simp] def takePending (s : State) (shard : Nat) : State :=
  { s with
    pending := Function.update s.pending shard []
    collector := .taking (shard+1) (s.pending shard) }

def track (s : State) (shard : Nat) (e : Entry) (rest : List Entry) : State :=
  match s.tracked[e.countersPtr]? with
  | none =>
      { s with
        tracked := s.tracked.insert e.countersPtr ⟨e.pointee,.defaultState⟩
        collector := .taking shard rest }
  | some _ => s.goto (.panicked .replacedTracked)

/-- `traverse_atomic_reader_signals` begins over the records that exist now. -/
@[simp] def startIteration (s : State) (deep : Bool) (round : Nat) (todo : List Nat) : State :=
  s.goto (.traversing ⟨deep,round,∅,todo,[],∅⟩ s.recordCount 0 0)

def traverse (s : State) (it : Iter) (len r j : Nat) : State :=
  if r < len then
    if j < HZ_PTR_SLOT_COUNT then
      match (s.records r).slots j with
      | none => s.goto (.traversing it len r (j+1))
      | some address =>
          s.goto (.traversing { it with hazard := insert address it.hazard } len r (j+1))
    else if (s.records r).flag then s
    else s.goto (.traversing it len (r+1) 0)
  else s.goto (.visiting it)

def visit (s : State) (it : Iter) : State :=
  match it.todo with
  | [] => s.goto (.freeing it)
  | key :: todo =>
      let it' := { it with todo := todo }
      match s.tracked[key]? with
      | none => s.goto (.visiting it')
      | some e =>
          if (s.heap e.pointee).ptr ∈ it.hazard then
            (s.setTracked key .defaultState).goto (.visiting it')
          else s.resume it' key (UpdatePc.start e.state)

/-- `clear_weak_back_ref` up to the check of the `OnceLock`. -/
def clearWeakBackRef (s : State) (it : Iter) (key : Nat) : State :=
  match s.tracked[key]? with
  | none => s.goto (.visiting it)
  | some e =>
      match (s.heap e.pointee).weakInnerRef with
      | .initialized w => s.goto (.unlinking it key w)
      | _ => s.resume it key (UpdatePc.afterClearWeak .weakRefNotInvolved)

/-- The swap of `back_ref` with null. -/
def swapBackRef (s : State) (it : Iter) (key w : Nat) : State :=
  match (s.heap w).data with
  | .weakSdarcInner origin (some _) =>
      (s.setInner w { s.heap w with data := .weakSdarcInner origin none }).resume it key
        (UpdatePc.afterClearWeak .weakBackRefCleared)
  | _ => s.resume it key (UpdatePc.afterClearWeak .weakBackRefWasAlreadyNull)

def check (cfg : Config) (s : State) (it : Iter) (key : Nat) (pc : UpdatePc) : State :=
  match pc.shard with
  | none => s.clearWeakBackRef it key
  | some k =>
      if k < cfg.shards then
        let v := s.counters key k
        let s' := if pc.clearsTag then s.setCounter key k v.clearTag else s
        s'.resume it key (pc.visit v)
      else s.resume it key pc.finish

@[simp] def endOuterIteration (s : State) : State :=
  { s with
    threads := fun t =>
      if t ∈ s.toNotify ∧ (s.threads t).pc = .waiting then { s.threads t with pc := .idle }
      else s.threads t
    toNotify := []
    collector := .parked }

/-- The end of an inner iteration. Only a deep collection goes on with what is to be
re-checked and with what destructors dropped on this thread. -/
def endIteration (s : State) (it : Iter) : State :=
  let s' := { s with countersToReCheck := ∅ }
  let toReCheck := it.newToReCheck ∪ s.countersToReCheck
  if it.deep ∧ toReCheck.isEmpty = false ∧ it.round < MAX_INNER_ITERATIONS then
    s'.startIteration true (it.round+1) toReCheck.toList
  else s'.endOuterIteration

/-- The loop of `free_pointers`; the destructor runs under `catch_unwind`. -/
def free (s : State) (it : Iter) : State :=
  match it.toFree with
  | [] => s.endIteration it
  | key :: toFree =>
      match s.tracked[key]? with
      | none => s.goto (.panicked .removedUntracked)
      | some e =>
          let s' := { s with tracked := s.tracked.erase key }
          if e.state ≠ .readyToFree then s'.goto (.panicked .notReadyToFree)
          else if (s.heap e.pointee).countersPtr ≠ key then
            s'.goto (.panicked .countersPtrMismatch)
          else
            { s'.setInner e.pointee { s.heap e.pointee with stage := .dropping } with
              destructors := e.pointee :: s.destructors
              collector := .dropping { it with toFree := toFree } e.pointee .counters }

/-- One part of `drop_sdarc_inner_impl`. The handle in `weak_inner_ref` is dropped by an
ordinary `Sdarc::drop` on this thread. -/
def dropInner (s : State) (it : Iter) (p : Nat) : DropPhase → Option State
  | .counters =>
      some ((s.setInner p { s.heap p with slotReleased := true }).goto
        (.dropping it p .weakInnerRef))
  | .weakInnerRef =>
      match (s.heap p).weakInnerRef with
      | .initialized w =>
          if (s.threads 0).pc = .idle then
            some (((s.setInner p { s.heap p with weakInnerRef := .uninit }).setPc 0
              (.drop w)).goto (.dropping it p .data))
          else none
      | _ => some (s.goto (.dropping it p .data))
  | .data =>
      match (s.heap p).data with
      | .user _ => none
      | .weakSdarcInner _ backRef =>
          if (s.threads 0).pc = .idle then
            some ({ s with
              assertionFailed := s.assertionFailed || backRef.isSome }.goto
                (.dropping it p .memory))
          else none
  | .memory =>
      some ((s.setInner p { s.heap p with stage := .deallocated }).goto (.freeing it))

/-- The destructor of user data returns, or panics into the `catch_unwind`. -/
def finishDestructor (s : State) (_panicked : Bool) : Option State :=
  match s.collector with
  | .dropping it p .data =>
      if s.isWeakSdarcInner p = false ∧ (s.threads 0).pc = .idle then
        some (s.goto (.dropping it p .memory))
      else none
  | _ => none

def collect (cfg : Config) (s : State) : Option State :=
  match s.collector with
  | .parked =>
      some { s with
        toNotify := s.collectionWaiting
        collectionWaiting := []
        collector := .taking 0 [] }
  | .taking shard (e :: rest) => some (s.track shard e rest)
  | .taking shard [] =>
      if shard < cfg.shards then some (s.takePending shard)
      else some (s.startIteration (!s.toNotify.isEmpty) 0 s.tracked.keys)
  | .traversing it len r j => some (s.traverse it len r j)
  | .visiting it => some (s.visit it)
  | .checking it key pc => some (s.check cfg it key pc)
  | .unlinking it key w => some (s.swapBackRef it key w)
  | .freeing it => some (s.free it)
  | .dropping it p phase => s.dropInner it p phase
  | .panicked _ => none

end State

inductive Action where
  | thread (t : Nat) (op : Op)
  | collector
  | finishDestructor (panicked : Bool)
  deriving DecidableEq, Repr

def step (cfg : Config) (s : State) : Action → Option State
  | .thread t op => if t < cfg.threads then op.run cfg s t else none
  | .collector => s.collect cfg
  | .finishDestructor panicked => s.finishDestructor panicked

end Sdarc.System
