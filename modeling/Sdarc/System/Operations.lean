import Sdarc.System.State
set_option autoImplicit false

/-!
What user threads do: every operation is cut at its accesses to shared memory.
`none` means that the step is not enabled.
-/

namespace Sdarc.System

namespace State

def canAllocate (s : State) (ptr countersPtr : Nat) : Prop :=
  ∀ q, q < s.nextPointee →
    ((s.heap q).slotReleased = true ∨ (s.heap q).countersPtr ≠ countersPtr) ∧
    ((s.heap q).stage = .deallocated ∨ (s.heap q).ptr ≠ ptr)

instance (s : State) (ptr countersPtr : Nat) : Decidable (s.canAllocate ptr countersPtr) :=
  inferInstanceAs (Decidable (∀ q, q < s.nextPointee → _ ∧ _))

/-- `SdarcInner::new` and the move to the heap: one shard starts at one. -/
@[simp] def allocate (s : State) (ptr countersPtr shard : Nat) (data : Data) : State :=
  { s with
    heap := Function.update s.heap s.nextPointee
      ⟨ptr,countersPtr,.uninit,data,.allocated,false⟩
    nextPointee := s.nextPointee + 1
    counters := Function.update s.counters countersPtr
      (Function.update (fun _ => .new) shard Counter.new.increment) }

/-- `Sdarc::new` up to the registration. -/
def sdarcNew (cfg : Config) (s : State) (t ptr countersPtr shard : Nat)
    (borrows : List Nat) : Option State :=
  if s.canStart t ∧ s.canAllocate ptr countersPtr ∧ shard < cfg.shards then
    some ((s.allocate ptr countersPtr shard (.user borrows)).setPc t
      (.registerNew s.nextPointee))
  else none

def onNewSdarcAllocated (cfg : Config) (s : State) (t shard : Nat) : Option State :=
  match (s.threads t).pc with
  | .registerNew p =>
      if shard < cfg.shards then some (((s.register p shard).addLive p).setPc t .idle)
      else none
  | _ => none

/-- `Sdarc::clone` and `WeakSdarc::clone`. -/
def clone (cfg : Config) (s : State) (t p shard : Nat) : Option State :=
  if s.canStart t ∧ 0 < s.live p ∧ shard < cfg.shards then
    some ((s.increment p shard).addLive p)
  else none

/-- Reading the pointee of a handle: `deref`, `estimate_strong_count` and the like. -/
def deref (s : State) (t p : Nat) : Option State :=
  if s.canStart t ∧ 0 < s.live p then some s else none

def derefGuard (s : State) (t j : Nat) : Option State :=
  if s.canStart t ∧ (s.threads t).guards j ≠ none then some s else none

def dropHandle (cfg : Config) (s : State) (t p : Nat) : Option State :=
  if s.canStart t ∧ s.canTake cfg p then some ((s.takeLive p).setPc t (.drop p)) else none

@[simp] def onSdarcDrop (s : State) (t p : Nat) : State :=
  { s with
    countersToReCheck :=
      if t = 0 then s.countersToReCheck.insert (s.heap p).countersPtr
      else s.countersToReCheck }

/-- `Sdarc::drop` up to the first load of the counter. -/
def dropLoad (cfg : Config) (s : State) (t shard : Nat) : Option State :=
  match (s.threads t).pc with
  | .drop p =>
      if shard < cfg.shards then
        some ((s.onSdarcDrop t p).setPc t (.dropExchange p shard (s.counter p shard)))
      else none
  | _ => none

/-- One `compare_exchange_weak` of `decrement_ref_count_and_set_tag_release`. -/
def dropExchange (s : State) (t : Nat) (spurious : Bool) : Option State :=
  match (s.threads t).pc with
  | .dropExchange p shard value =>
      if s.counter p shard = value ∧ spurious = false then
        some ((s.setCounter (s.heap p).countersPtr shard value.decrementAndSetTag).setPc t
          .idle)
      else some (s.setPc t (.dropExchange p shard (s.counter p shard)))
  | _ => none

/-- `swap`; with `discard` the replaced handle is dropped at once, as `store` does. -/
def swap (cfg : Config) (s : State) (t c : Nat) (new : Option Nat) (discard : Bool) :
    Option State :=
  if s.canStart t ∧ c < cfg.cells ∧ s.canTakeOption cfg new then
    let s' := (s.takeLiveOption new).setCell c new
    match s.cells c with
    | none => some s'
    | some old => some (if discard then s'.setPc t (.drop old) else s'.addLive old)
  else none

/-- `load_owned` of a cell, `upgrade` of a `WeakSdarc`. -/
def loadOwned (cfg : Config) (s : State) (t : Nat) (src : Source) : Option State :=
  if s.canStart t ∧ s.canUse cfg src then some (s.setPc t (.loadEnter src none)) else none

/-- The comparison of `sync_to`; the target is borrowed mutably until the end. -/
def syncTo (cfg : Config) (s : State) (t c : Nat) (target : Option Nat) : Option State :=
  if s.canStart t ∧ c < cfg.cells ∧ s.canTakeOption cfg target then
    if (s.cells c).map (fun p => (s.heap p).ptr) = target.map (fun p => (s.heap p).ptr) then
      some s
    else some ((s.takeLiveOption target).setPc t (.loadEnter (.cell c) target))
  else none

/-- The entry of `reader_critical_section`. -/
def enterSection (s : State) (t : Nat) : Option State :=
  match (s.threads t).pc,(s.threads t).record with
  | .loadEnter src after,.held r =>
      if (s.records r).flag then
        some ({ s.addLiveOption after with assertionFailed := true }.setPc t .idle)
      else some ((s.setFlag r true).setPc t (.loadPointer src after))
  | _,_ => none

def loadPointer (s : State) (t : Nat) : Option State :=
  match (s.threads t).pc with
  | .loadPointer src after =>
      match s.load src with
      | none => some (s.setPc t (.loadLeave src after none))
      | some p => some (s.setPc t (.loadIncrement src after p))
  | _ => none

def loadIncrement (cfg : Config) (s : State) (t shard : Nat) : Option State :=
  match (s.threads t).pc with
  | .loadIncrement src after p =>
      if shard < cfg.shards then
        some ((s.increment p shard).setPc t (.loadLeave src after (some p)))
      else none
  | _ => none

/-- The end of the critical section; `sync_to` then drops the old target. -/
def leaveSection (s : State) (t : Nat) : Option State :=
  match (s.threads t).pc,(s.threads t).record with
  | .loadLeave _ after result,.held r =>
      let s' := (s.setFlag r false).addLiveOption result
      match after with
      | none => some (s'.setPc t .idle)
      | some old => some (s'.setPc t (.drop old))
  | _,_ => none

/-- The pre-load of `try_borrow_from_atomic_ptr_using_hazard_pointer`. -/
def borrow (cfg : Config) (s : State) (t : Nat) (src : Source) : Option State :=
  if s.canStart t ∧ s.canUse cfg src then
    match s.load src with
    | none => some s
    | some p => some (s.setPc t (.borrowPublish src (s.heap p).ptr))
  else none

def freeSlot (x : HazardData) : Option Nat :=
  (List.range HZ_PTR_SLOT_COUNT).find? (fun j => (x.slots j).isNone)

/-- `try_publish_maybe_dangling_hazard_pointer`; with all slots full the borrow falls
back to `load_atomic_ptr_owned`. -/
def publish (s : State) (t : Nat) : Option State :=
  match (s.threads t).pc,(s.threads t).record with
  | .borrowPublish src address,.held r =>
      match freeSlot (s.records r) with
      | some j => some ((s.setSlot r j (some address)).setPc t (.borrowReload src j address))
      | none => some (s.setPc t (.loadEnter src none))
  | _,_ => none

def reload (s : State) (t : Nat) : Option State :=
  match (s.threads t).pc with
  | .borrowReload src j address =>
      match s.load src with
      | none => some (s.setPc t (.borrowRetract src j))
      | some p =>
          if (s.heap p).ptr = address then some ((s.setGuard t j (some p)).setPc t .idle)
          else some (s.setPc t (.borrowRetract src j))
  | _ => none

/-- The pointer has changed: the slot is emptied and the borrow falls back. -/
def retract (s : State) (t : Nat) : Option State :=
  match (s.threads t).pc,(s.threads t).record with
  | .borrowRetract src j,.held r =>
      some ((s.setSlot r j none).setPc t (.loadEnter src none))
  | _,_ => none

/-- `unpublish_hazard_pointer_on_borrow_finish`. -/
def dropGuard (s : State) (t j : Nat) : Option State :=
  match (s.threads t).guards j,(s.threads t).record with
  | some _,.held r =>
      if s.canStart t then some ((s.setSlot r j none).setGuard t j none) else none
  | _,_ => none

/-- The loop of `obtain_per_thread_shared_hazard_data` begins. -/
def obtain (s : State) (t : Nat) : Option State :=
  if (s.threads t).record = .none ∧ (s.threads t).pc.needsRecord = true then
    some (s.setRecordRef t (.scanning s.recordCount 0))
  else none

def obtainNext (s : State) (t : Nat) : Option State :=
  match (s.threads t).record with
  | .scanning len next =>
      if next < len then
        if (s.records next).isUsed then some (s.setRecordRef t (.scanning len (next+1)))
        else some ((s.setRecord next { s.records next with isUsed := true }).setRecordRef t
          (.held next))
      else
        some (({ s with recordCount := s.recordCount + 1 }.setRecord s.recordCount
          ⟨fun _ => none,true,false⟩).setRecordRef t (.held s.recordCount))
  | _ => none

/-- `release_hazard_data` at the end of a thread, which holds no guard then. -/
def release (s : State) (t : Nat) : Option State :=
  match (s.threads t).record with
  | .held r =>
      if s.canStart t ∧ ∀ j, j < HZ_PTR_SLOT_COUNT → (s.threads t).guards j = none then
        if (∀ j, j < HZ_PTR_SLOT_COUNT → (s.records r).slots j = none) ∧
            (s.records r).flag = false then
          some ((s.setRecord r { s.records r with isUsed := false }).setRecordRef t .none)
        else some { s with assertionFailed := true }
      else none
  | _ => none

def borrowable (s : State) : Option Nat → Prop
  | none => True
  | some p => 0 < s.live p

instance (s : State) (o : Option Nat) : Decidable (s.borrowable o) :=
  match o with
  | none => inferInstanceAs (Decidable True)
  | some p => inferInstanceAs (Decidable (0 < s.live p))

/-- The `compare_exchange` of `raw_compare_and_set`. -/
def compareAndSet (cfg : Config) (s : State) (t c : Nat) (ifMatches thenSet : Option Nat) :
    Option State :=
  if s.canStart t ∧ c < cfg.cells ∧ s.borrowable ifMatches ∧ s.borrowable thenSet then
    if (s.cells c).map (fun p => (s.heap p).ptr) =
        ifMatches.map (fun p => (s.heap p).ptr) then
      match thenSet with
      | none => some ((s.setCell c none).addLiveOption (s.cells c))
      | some p => some ((s.setCell c (some p)).setPc t (.incrementThenSet p (s.cells c)))
    else some s
  else none

/-- The increment that compensates for the borrowed `then_set`. -/
def incrementThenSet (cfg : Config) (s : State) (t shard : Nat) : Option State :=
  match (s.threads t).pc with
  | .incrementThenSet p original =>
      if shard < cfg.shards then
        some (((s.increment p shard).addLiveOption original).setPc t .idle)
      else none
  | _ => none

def downgrade (s : State) (t p : Nat) : Option State :=
  if s.canStart t ∧ 0 < s.live p ∧ s.isWeakSdarcInner p = false then
    some (s.setPc t (.getOrInit p))
  else none

/-- `OnceLock::get_or_init`: one thread runs the closure, the others wait for it. -/
def getOrInit (s : State) (t : Nat) : Option State :=
  match (s.threads t).pc with
  | .getOrInit p =>
      match (s.heap p).weakInnerRef with
      | .initialized w => some (s.setPc t (.cloneWeakInner p w))
      | .uninit =>
          some ((s.setInner p { s.heap p with weakInnerRef := .running t }).setPc t
            (.newWeakInner p))
      | .running _ => none
  | _ => none

def newWeakInner (cfg : Config) (s : State) (t ptr countersPtr shard : Nat) :
    Option State :=
  match (s.threads t).pc with
  | .newWeakInner p =>
      if s.canAllocate ptr countersPtr ∧ shard < cfg.shards then
        some ((s.allocate ptr countersPtr shard (.weakSdarcInner p (some p))).setPc t
          (.registerWeakInner p s.nextPointee))
      else none
  | _ => none

def registerWeakInner (cfg : Config) (s : State) (t shard : Nat) : Option State :=
  match (s.threads t).pc with
  | .registerWeakInner p w =>
      if shard < cfg.shards then some ((s.register w shard).setPc t (.setWeakInner p w))
      else none
  | _ => none

def setWeakInner (s : State) (t : Nat) : Option State :=
  match (s.threads t).pc with
  | .setWeakInner p w =>
      some ((s.setInner p { s.heap p with weakInnerRef := .initialized w }).setPc t
        (.cloneWeakInner p w))
  | _ => none

def cloneWeakInner (cfg : Config) (s : State) (t shard : Nat) : Option State :=
  match (s.threads t).pc with
  | .cloneWeakInner _ w =>
      if shard < cfg.shards then some (((s.increment w shard).addLive w).setPc t .idle)
      else none
  | _ => none

/-- `collector_update_now_and_wait` up to the wait for the notification. -/
def collectorUpdateNowAndWait (s : State) (t : Nat) : Option State :=
  if s.canStart t then
    some ({ s with collectionWaiting := s.collectionWaiting ++ [t] }.setPc t .waiting)
  else none

end State

inductive Op where
  | sdarcNew (ptr countersPtr shard : Nat) (borrows : List Nat)
  | onNewSdarcAllocated (shard : Nat)
  | clone (p shard : Nat)
  | deref (p : Nat)
  | derefGuard (slot : Nat)
  | dropHandle (p : Nat)
  | dropLoad (shard : Nat)
  | dropExchange (spurious : Bool)
  | swap (c : Nat) (new : Option Nat) (discard : Bool)
  | loadOwned (src : Source)
  | syncTo (c : Nat) (target : Option Nat)
  | enterSection
  | loadPointer
  | loadIncrement (shard : Nat)
  | leaveSection
  | borrow (src : Source)
  | publish
  | reload
  | retract
  | dropGuard (slot : Nat)
  | obtain
  | obtainNext
  | release
  | compareAndSet (c : Nat) (ifMatches thenSet : Option Nat)
  | incrementThenSet (shard : Nat)
  | downgrade (p : Nat)
  | getOrInit
  | newWeakInner (ptr countersPtr shard : Nat)
  | registerWeakInner (shard : Nat)
  | setWeakInner
  | cloneWeakInner (shard : Nat)
  | collectorUpdateNowAndWait
  deriving DecidableEq, Repr

def Op.run (cfg : Config) (s : State) (t : Nat) : Op → Option State
  | .sdarcNew ptr countersPtr shard borrows => s.sdarcNew cfg t ptr countersPtr shard borrows
  | .onNewSdarcAllocated shard => s.onNewSdarcAllocated cfg t shard
  | .clone p shard => s.clone cfg t p shard
  | .deref p => s.deref t p
  | .derefGuard slot => s.derefGuard t slot
  | .dropHandle p => s.dropHandle cfg t p
  | .dropLoad shard => s.dropLoad cfg t shard
  | .dropExchange spurious => s.dropExchange t spurious
  | .swap c new discard => s.swap cfg t c new discard
  | .loadOwned src => s.loadOwned cfg t src
  | .syncTo c target => s.syncTo cfg t c target
  | .enterSection => s.enterSection t
  | .loadPointer => s.loadPointer t
  | .loadIncrement shard => s.loadIncrement cfg t shard
  | .leaveSection => s.leaveSection t
  | .borrow src => s.borrow cfg t src
  | .publish => s.publish t
  | .reload => s.reload t
  | .retract => s.retract t
  | .dropGuard slot => s.dropGuard t slot
  | .obtain => s.obtain t
  | .obtainNext => s.obtainNext t
  | .release => s.release t
  | .compareAndSet c ifMatches thenSet => s.compareAndSet cfg t c ifMatches thenSet
  | .incrementThenSet shard => s.incrementThenSet cfg t shard
  | .downgrade p => s.downgrade t p
  | .getOrInit => s.getOrInit t
  | .newWeakInner ptr countersPtr shard => s.newWeakInner cfg t ptr countersPtr shard
  | .registerWeakInner shard => s.registerWeakInner cfg t shard
  | .setWeakInner => s.setWeakInner t
  | .cloneWeakInner shard => s.cloneWeakInner cfg t shard
  | .collectorUpdateNowAndWait => s.collectorUpdateNowAndWait t

end Sdarc.System
