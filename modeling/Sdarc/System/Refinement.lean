import Sdarc.System.Identity
import Sdarc.System.Specification
set_option autoImplicit false

/-!
The process refines its specification. What its users and the destructors see of a run is a
run of the specification, in which a pointee is destroyed only when nobody holds it.
-/

namespace Sdarc.System
open Transition

/-- A handle that is being dropped is gone already. -/
def ThreadPc.call : ThreadPc → Call
  | .idle | .waiting | .drop _ | .dropExchange _ _ _ => .idle
  | .registerNew p => .creating p
  | .loadEnter src after | .loadPointer src after => .reading src after
  | .loadIncrement src after p => .read src after (some p)
  | .loadLeave src after result => .read src after result
  | .borrowPublish src _ | .borrowReload src _ _ | .borrowRetract src _ => .reading src none
  | .incrementThenSet thenSet original => .exchanged thenSet original
  | .getOrInit p | .newWeakInner p => .downgrading p
  | .registerWeakInner p w | .setWeakInner p w | .cloneWeakInner p w => .downgraded p w

def Data.origin : Data → Option Nat
  | .weakSdarcInner origin _ => some origin
  | .user _ => none

def Data.backRef : Data → Option Nat
  | .weakSdarcInner _ backRef => backRef
  | .user _ => none

def State.spec (s : State) : Spec where
  born := s.nextPointee
  cells := s.cells
  origins w := (s.heap w).data.origin
  backRefs w := s.load (.backRef w)
  handles := s.live
  guards t := (s.threads t).guards
  calls t := (s.threads t).pc.call
  destroyed p := decide (s.freed p)

def State.sameAddress (s : State) (x y : Option Nat) : Bool :=
  decide (x.map (fun p => (s.heap p).ptr) = y.map (fun p => (s.heap p).ptr))

def Op.event (s : State) (t : Nat) : Op → Option Event
  | .sdarcNew _ _ _ _ => some (.sdarcNew t s.nextPointee)
  | .onNewSdarcAllocated _ =>
      match (s.threads t).pc with
      | .registerNew p => some (.created t p)
      | _ => none
  | .clone p _ => some (.clone p)
  | .deref p => some (.deref p)
  | .derefGuard j => ((s.threads t).guards j).map (.derefGuard t j)
  | .dropHandle p => some (.drop p)
  | .swap c new discard => some (.swap c new (s.cells c) discard)
  | .loadOwned src => some (.beginRead t src)
  | .syncTo c target => some (.syncTo t c target (s.sameAddress (s.cells c) target))
  | .loadPointer =>
      match (s.threads t).pc with
      | .loadPointer src _ => some (.load t (s.load src))
      | _ => none
  | .leaveSection =>
      match (s.threads t).pc with
      | .loadLeave _ _ result => some (.endRead t result)
      | _ => none
  | .borrow src =>
      match s.load src with
      | none => some (.borrowNone src)
      | some _ => some (.beginRead t src)
  | .reload =>
      match (s.threads t).pc with
      | .borrowReload src j address =>
          match s.load src with
          | none => none
          | some p => if (s.heap p).ptr = address then some (.borrowed t j p) else none
      | _ => none
  | .dropGuard j => some (.dropGuard t j)
  | .compareAndSet c ifMatches thenSet =>
      some (.compareAndSet t c ifMatches thenSet (s.sameAddress (s.cells c) ifMatches))
  | .incrementThenSet _ =>
      match (s.threads t).pc with
      | .incrementThenSet _ original => some (.endCompareAndSet t original)
      | _ => none
  | .downgrade p => some (.downgrade t p)
  | .getOrInit =>
      match (s.threads t).pc with
      | .getOrInit p =>
          match (s.heap p).weakInnerRef with
          | .initialized w => some (.foundWeakInner t p w)
          | _ => none
      | _ => none
  | .newWeakInner _ _ _ =>
      match (s.threads t).pc with
      | .newWeakInner p => some (.newWeakInner t p s.nextPointee)
      | _ => none
  | .cloneWeakInner _ =>
      match (s.threads t).pc with
      | .cloneWeakInner _ w => some (.endDowngrade t w)
      | _ => none
  | .dropLoad _ | .dropExchange _ | .enterSection | .loadIncrement _ | .publish | .retract
  | .obtain | .obtainNext | .release | .registerWeakInner _ | .setWeakInner
  | .collectorUpdateNowAndWait => none

def Op.isInternal : Op → Bool
  | .dropLoad _ | .dropExchange _ | .enterSection | .loadIncrement _ | .publish | .retract
  | .obtain | .obtainNext | .release | .registerWeakInner _ | .setWeakInner
  | .collectorUpdateNowAndWait => true
  | _ => false

def State.collectorEvent (s : State) : Option Event :=
  match s.collector with
  | .unlinking _ _ w => if (s.load (.backRef w)).isSome then some (.unlink w) else none
  | .freeing it =>
      match it.toFree with
      | [] => none
      | key :: _ => s.tracked[key]?.map (fun e => .destroy e.pointee)
  | _ => none

def State.event (s : State) : Action → Option Event
  | .thread t op => op.event s t
  | .collector => s.collectorEvent
  | .finishDestructor _ => none

section View

variable {cfg : Config} {s s' u : State} {t : Nat}

theorem spec_calls {pc : ThreadPc} (hpc : (s.threads t).pc = pc) : s.spec.calls t = pc.call :=
  congrArg ThreadPc.call hpc

theorem spec_load (src : Source) : s.spec.load src = s.load src := by
  cases src <;> rfl

theorem spec_hasHandle {o : Option Nat} : s.spec.hasHandle o ↔ s.borrowable o := by
  cases o <;> rfl

theorem origins_eq_some {w p : Nat} : s.spec.origins w = some p ↔ s.weakInnerOf w p := by
  change (s.heap w).data.origin = some p ↔ _
  rw [State.weakInnerOf]
  cases hdata : (s.heap w).data <;> simp [Data.origin]

theorem spec_setPc (pc : ThreadPc) : (s.setPc t pc).spec = s.spec.setCall t pc.call := by
  refine Spec.ext rfl rfl rfl rfl rfl (funext fun u => ?_) (funext fun u => ?_) rfl <;>
    by_cases hu : u = t <;> simp [State.spec,Spec.setCall,hu]

theorem spec_goto (pc : CollectorPc) : (s.goto pc).spec = s.spec := rfl

theorem spec_setRecordRef (record : RecordRef) : (s.setRecordRef t record).spec = s.spec := by
  refine Spec.ext rfl rfl rfl rfl rfl (funext fun u => ?_) (funext fun u => ?_) rfl <;>
    by_cases hu : u = t <;> simp [State.spec,hu]

theorem spec_setGuard (j : Nat) (o : Option Nat) :
    (s.setGuard t j o).spec = s.spec.setGuard t j o := by
  refine Spec.ext rfl rfl rfl rfl rfl (funext fun u => ?_) (funext fun u => ?_) rfl <;>
    by_cases hu : u = t <;> simp [State.spec,Spec.setGuard,hu]

theorem spec_addLiveOption (o : Option Nat) : (s.addLiveOption o).spec = s.spec.give o := by
  cases o <;> rfl

theorem spec_takeLiveOption (o : Option Nat) : (s.takeLiveOption o).spec = s.spec.take o := by
  cases o <;> rfl

theorem spec_allocate {ptr countersPtr shard : Nat} {data : Data} (hplaces : Places cfg s) :
    (s.allocate ptr countersPtr shard data).spec =
      { s.spec with
        born := s.nextPointee + 1
        origins := Function.update s.spec.origins s.nextPointee data.origin
        backRefs := Function.update s.spec.backRefs s.nextPointee data.backRef } := by
  have hstage := (hplaces.fresh s.nextPointee le_rfl).1
  refine Spec.ext rfl rfl (funext fun w => ?_) (funext fun w => ?_) rfl rfl rfl
    (funext fun w => ?_) <;> by_cases hw : w = s.nextPointee
  · subst hw
    simp [State.spec]
  · simp [State.spec,hw]
  · subst hw
    cases data <;> simp [State.spec,State.load,Data.backRef]
  · simp [State.spec,State.load,hw]
  · subst hw
    exact decide_eq_decide.mpr (by simp [State.freed,hstage])
  · exact decide_eq_decide.mpr (by simp [State.freed,hw])

theorem spec_setInner {p : Nat} {x : SdarcInner} (hdata : x.data = (s.heap p).data)
    (hstage : x.stage = .dropping ∨ x.stage = .deallocated ↔ s.freed p) :
    (s.setInner p x).spec = s.spec := by
  have hsame : ∀ w, ((s.setInner p x).heap w).data = (s.heap w).data :=
    field_update SdarcInner.data hdata
  refine Spec.ext rfl rfl (funext fun w => ?_) (funext fun w => ?_) rfl rfl rfl
    (funext fun w => ?_)
  · change ((s.setInner p x).heap w).data.origin = _
    rw [hsame]
    rfl
  · change (s.setInner p x).load (.backRef w) = s.load (.backRef w)
    rw [State.load,State.load,hsame]
  · refine decide_eq_decide.mpr ?_
    by_cases hw : w = p
    · subst hw
      simpa [State.freed] using hstage
    · simp [State.freed,hw]

theorem SameMemory.spec (h : SameMemory s s') : s'.spec = s.spec := by
  refine Spec.ext h.nextPointee h.cells (funext fun w => ?_) (funext fun w => ?_) h.live
    (funext fun t => ?_) (funext fun t => ?_) (funext fun p => decide_eq_decide.mpr ?_)
  · exact congrArg (fun heap => (heap w).data.origin) h.heap
  · change s'.load (.backRef w) = s.load (.backRef w)
    rw [State.load,State.load,h.heap]
  · exact congrArg (fun threads => (threads t).guards) h.threads
  · exact congrArg (fun threads => (threads t).pc.call) h.threads
  · rw [State.freed,State.freed,h.heap]

theorem spec_goOn {pc pc' : ThreadPc} (hu : u.spec = s.spec) (hpc : (s.threads t).pc = pc)
    (hcall : pc.call = pc'.call) : (u.setPc t pc').spec = s.spec := by
  rw [spec_setPc,hu,Spec.setCall_self ((spec_calls hpc).trans hcall)]

theorem Safe.not_destroyed (h : Safe cfg s) {p : Nat} (hun : ¬ s.Unreferenced p) :
    s.spec.destroyed p = false :=
  decide_eq_false (fun hf => hun (h.unreferenced hf))

theorem State.apart.sameAddress_iff (h : s.apart) {x y : Option Nat}
    (hx : ∀ p, x = some p → s.inUse p) (hy : ∀ p, y = some p → s.inUse p) :
    s.sameAddress x y = true ↔ x = y := by
  rw [State.sameAddress,decide_eq_true_iff]
  exact h.address_eq_iff hx hy

end View

section Threads

variable {cfg : Config} {s s' : State} {t : Nat}

theorem spec_sdarcNew {ptr countersPtr shard : Nat} {borrows : List Nat} (h : Safe cfg s)
    (hs : s.sdarcNew cfg t ptr countersPtr shard borrows = some s') :
    s.spec.step (.sdarcNew t s.nextPointee) = some s'.spec := by
  simp only [State.sdarcNew,Option.ite_none_right_eq_some,Option.some.injEq] at hs
  obtain ⟨⟨hstart,-,-⟩,rfl⟩ := hs
  have hfresh := (h.references.weak.fresh s.nextPointee le_rfl).2
  have horigins : Function.update s.spec.origins s.nextPointee none = s.spec.origins :=
    Function.update_eq_self_iff.mpr (congrArg Data.origin hfresh).symm
  have hbackRefs : Function.update s.spec.backRefs s.nextPointee none = s.spec.backRefs :=
    Function.update_eq_self_iff.mpr (by simp [State.spec,State.load,hfresh])
  rw [spec_setPc,spec_allocate h.tracking.places,Data.origin,Data.backRef,horigins,hbackRefs]
  exact if_pos ⟨spec_calls hstart.1,rfl⟩

theorem spec_swap {c : Nat} {new : Option Nat} {discard : Bool}
    (hs : s.swap cfg t c new discard = some s') :
    s.spec.step (.swap c new (s.cells c) discard) = some s'.spec := by
  simp only [State.swap,Option.ite_none_right_eq_some] at hs
  obtain ⟨⟨hstart,-,htake⟩,hs⟩ := hs
  have hnew : s.spec.hasHandle new := by
    cases new with
    | none => trivial
    | some p => exact htake.1
  refine (if_pos ⟨hnew,rfl⟩).trans ?_
  have hspec : ((s.takeLiveOption new).setCell c new).spec =
      (s.spec.take new).setCell c new := by
    rw [← spec_takeLiveOption]
    rfl
  split at hs
  · rename_i hc
    obtain rfl := Option.some.inj hs
    rw [hspec,hc,ite_self]
    rfl
  · rename_i old hc
    obtain rfl := Option.some.inj hs
    rw [hc]
    cases discard with
    | true =>
      have hidle : ((s.spec.take new).setCell c new).calls t = .idle := by
        rw [← hspec]
        exact spec_calls hstart.1
      rw [if_pos rfl,if_pos rfl,spec_setPc,hspec]
      exact congrArg some (Spec.setCall_self hidle).symm
    | false => exact congrArg some (congrArg (Spec.give · (some old)) hspec).symm

theorem spec_syncTo {c : Nat} {target : Option Nat} (h : Safe cfg s) (hapart : s.apart)
    (hs : s.syncTo cfg t c target = some s') :
    s.spec.step (.syncTo t c target (s.sameAddress (s.cells c) target)) = some s'.spec := by
  simp only [State.syncTo,Option.ite_none_right_eq_some] at hs
  obtain ⟨⟨hstart,-,htake⟩,hs⟩ := hs
  have htarget : s.spec.hasHandle target := by
    cases target with
    | none => trivial
    | some p => exact htake.1
  have hiff := hapart.sameAddress_iff (x := s.cells c) (y := target)
    (fun p hp => h.inUse_of_cell hp) (h.inUse_of_canTake htake)
  refine (if_pos ⟨spec_calls hstart.1,htarget,hiff⟩).trans ?_
  split at hs <;> obtain rfl := Option.some.inj hs <;> rename_i heq
  · rw [State.sameAddress,decide_eq_true heq]
    rfl
  · rw [State.sameAddress,decide_eq_false heq,spec_setPc,spec_takeLiveOption]
    rfl

theorem spec_loadPointer (hs : s.loadPointer t = some s') :
    Follows Spec.step (Op.loadPointer.event s t) s.spec s'.spec := by
  unfold State.loadPointer at hs
  split at hs
  · rename_i src after hpc
    have hevent : Op.loadPointer.event s t = some (.load t (s.load src)) := by
      simp only [Op.event,hpc]
    have hstep : s.spec.step (.load t (s.load src)) =
        some (s.spec.setCall t (.read src after (s.load src))) := by
      simp only [Spec.step,spec_calls hpc,ThreadPc.call,spec_load,if_true]
    rw [hevent]
    refine hstep.trans ?_
    split at hs <;> obtain rfl := Option.some.inj hs <;> rename_i hload <;>
      rw [hload,spec_setPc] <;> rfl
  · contradiction

theorem spec_leaveSection (hs : s.leaveSection t = some s') :
    Follows Spec.step (Op.leaveSection.event s t) s.spec s'.spec := by
  unfold State.leaveSection at hs
  split at hs
  · rename_i src after result r hpc _
    have hevent : Op.leaveSection.event s t = some (.endRead t result) := by
      simp only [Op.event,hpc]
    have hspec : ((s.setFlag r false).addLiveOption result).spec = s.spec.give result := by
      rw [← spec_addLiveOption]
      rfl
    rw [hevent]
    refine (if_pos ⟨src,after,spec_calls hpc⟩).trans ?_
    split at hs <;> obtain rfl := Option.some.inj hs <;> rw [spec_setPc,hspec] <;> rfl
  · contradiction

theorem spec_borrow {src : Source} (hs : s.borrow cfg t src = some s') :
    Follows Spec.step ((Op.borrow src).event s t) s.spec s'.spec := by
  simp only [State.borrow,Option.ite_none_right_eq_some] at hs
  obtain ⟨⟨hstart,huse⟩,hs⟩ := hs
  have huse : s.spec.canUse src := by
    cases src with
    | cell c => trivial
    | backRef w => exact huse.1
  split at hs <;> obtain rfl := Option.some.inj hs <;> rename_i hload
  · have hevent : (Op.borrow src).event s t = some (.borrowNone src) := by
      simp only [Op.event,hload]
    rw [hevent]
    exact if_pos ⟨huse,(spec_load src).trans hload⟩
  · have hevent : (Op.borrow src).event s t = some (.beginRead t src) := by
      simp only [Op.event,hload]
    rw [hevent,spec_setPc]
    exact if_pos ⟨spec_calls hstart.1,huse⟩

theorem spec_reload (hs : s.reload t = some s') :
    Follows Spec.step (Op.reload.event s t) s.spec s'.spec := by
  unfold State.reload at hs
  split at hs
  · rename_i src j address hpc
    split at hs
    · rename_i hload
      obtain rfl := Option.some.inj hs
      have hevent : Op.reload.event s t = none := by simp only [Op.event,hpc,hload]
      rw [hevent]
      exact spec_goOn rfl hpc rfl
    · rename_i p hload
      have hevent : Op.reload.event s t =
          if (s.heap p).ptr = address then some (.borrowed t j p) else none := by
        simp only [Op.event,hpc,hload]
      rw [hevent]
      split at hs <;> obtain rfl := Option.some.inj hs <;> rename_i haddress
      · rw [if_pos haddress,spec_setPc,spec_setGuard]
        exact if_pos ⟨src,spec_calls hpc,(spec_load src).trans hload⟩
      · rw [if_neg haddress]
        exact spec_goOn rfl hpc rfl
  · contradiction

theorem spec_compareAndSet {c : Nat} {ifMatches thenSet : Option Nat} (h : Safe cfg s)
    (hapart : s.apart) (hs : s.compareAndSet cfg t c ifMatches thenSet = some s') :
    s.spec.step (.compareAndSet t c ifMatches thenSet (s.sameAddress (s.cells c) ifMatches)) =
      some s'.spec := by
  simp only [State.compareAndSet,Option.ite_none_right_eq_some] at hs
  obtain ⟨⟨hstart,-,hmatches,hset⟩,hs⟩ := hs
  have hiff := hapart.sameAddress_iff (x := s.cells c) (y := ifMatches)
    (fun p hp => h.inUse_of_cell hp) (h.inUse_of_borrowable hmatches)
  refine (if_pos ⟨spec_calls hstart.1,spec_hasHandle.mpr hmatches,spec_hasHandle.mpr hset,
    hiff⟩).trans ?_
  split at hs
  · rename_i heq
    have hsame : s.sameAddress (s.cells c) ifMatches = true := decide_eq_true heq
    rw [hsame,if_pos rfl,← hiff.mp hsame]
    cases thenSet with
    | none =>
      obtain rfl := Option.some.inj hs
      exact congrArg some (spec_addLiveOption (s := s.setCell c none) (s.cells c)).symm
    | some p =>
      obtain rfl := Option.some.inj hs
      rw [spec_setPc]
      rfl
  · rename_i hne
    obtain rfl := Option.some.inj hs
    rw [State.sameAddress,decide_eq_false hne]
    rfl

theorem spec_getOrInit (h : Safe cfg s) (hs : s.getOrInit t = some s') :
    Follows Spec.step (Op.getOrInit.event s t) s.spec s'.spec := by
  unfold State.getOrInit at hs
  split at hs
  · rename_i p hpc
    split at hs
    · rename_i w hlock
      obtain rfl := Option.some.inj hs
      have hevent : Op.getOrInit.event s t = some (.foundWeakInner t p w) := by
        simp only [Op.event,hpc,hlock]
      rw [hevent,spec_setPc]
      exact if_pos ⟨spec_calls hpc,
        origins_eq_some.mpr (h.references.weak.initialized p w hlock)⟩
    · rename_i hlock
      obtain rfl := Option.some.inj hs
      have hevent : Op.getOrInit.event s t = none := by simp only [Op.event,hpc,hlock]
      rw [hevent]
      exact spec_goOn (spec_setInner rfl .rfl) hpc rfl
    · contradiction
  · contradiction

theorem spec_newWeakInner {ptr countersPtr shard : Nat} (h : Safe cfg s) (ho : Origins s)
    (hs : s.newWeakInner cfg t ptr countersPtr shard = some s') :
    Follows Spec.step ((Op.newWeakInner ptr countersPtr shard).event s t) s.spec s'.spec := by
  unfold State.newWeakInner at hs
  split at hs
  · rename_i p hpc
    simp only [Option.ite_none_right_eq_some,Option.some.injEq] at hs
    obtain ⟨-,rfl⟩ := hs
    have hevent : (Op.newWeakInner ptr countersPtr shard).event s t =
        some (.newWeakInner t p s.nextPointee) := by simp only [Op.event,hpc]
    rw [hevent,spec_setPc,spec_allocate h.tracking.places]
    exact if_pos ⟨spec_calls hpc,rfl,fun w hw =>
      ho.none_of_initializes h.references hpc (origins_eq_some.mp hw)⟩
  · contradiction

theorem ThreadStep.spec_internal {op : Op} (h : Safe cfg s) (hs : ThreadStep cfg s t op s')
    (hop : op.isInternal = true) : s'.spec = s.spec := by
  cases hs with
  | stay op _ hmay => cases op <;> contradiction
  | dropLoad shard p hpc => exact spec_goOn (u := s.onSdarcDrop t p) rfl hpc rfl
  | decrement p shard hpc =>
    exact spec_goOn (u := s.setCounter _ shard (s.counter p shard).decrementAndSetTag) rfl hpc rfl
  | decrementRetry spurious p shard value hpc => exact spec_goOn rfl hpc rfl
  | sectionNested src after r hpc hrecord hflag =>
    have hin := (h.references.records.holding hrecord).2.flag.mp hflag
    simp [hpc,ThreadPc.inSection] at hin
  | enterSection src after r hpc => exact spec_goOn (u := s.setFlag r true) rfl hpc rfl
  | loadIncrement src after p shard hpc => exact spec_goOn (u := s.increment p shard) rfl hpc rfl
  | publish src address r j hpc =>
    exact spec_goOn (u := s.setSlot r j (some address)) rfl hpc rfl
  | slotsFull src address hpc => exact spec_goOn rfl hpc rfl
  | retract src j r hpc => exact spec_goOn (u := s.setSlot r j none) rfl hpc rfl
  | obtain | recordUsed | claimRecord | pushRecord | release => exact spec_setRecordRef _
  | releaseFailed => rfl
  | registerWeakInner shard p w hpc => exact spec_goOn (u := s.register w shard) rfl hpc rfl
  | setWeakInner p w hpc => exact spec_goOn (spec_setInner rfl .rfl) hpc rfl
  | collectorUpdateNowAndWait hstart =>
    exact spec_goOn (u := { s with collectionWaiting := s.collectionWaiting ++ [t] }) rfl
      hstart.1 rfl
  | _ => contradiction

theorem spec_onNewSdarcAllocated {shard : Nat} (hs : s.onNewSdarcAllocated cfg t shard = some s') :
    Follows Spec.step ((Op.onNewSdarcAllocated shard).event s t) s.spec s'.spec := by
  unfold State.onNewSdarcAllocated at hs
  split at hs
  · rename_i p hpc
    simp only [Option.ite_none_right_eq_some,Option.some.injEq] at hs
    obtain ⟨-,rfl⟩ := hs
    have hevent : (Op.onNewSdarcAllocated shard).event s t = some (.created t p) := by
      simp only [Op.event,hpc]
    rw [hevent,spec_setPc]
    exact if_pos (spec_calls hpc)
  · contradiction

theorem spec_derefGuard {j : Nat} (h : Safe cfg s) (hs : s.derefGuard t j = some s') :
    Follows Spec.step ((Op.derefGuard j).event s t) s.spec s'.spec := by
  simp only [State.derefGuard,Option.ite_none_right_eq_some,Option.some.injEq] at hs
  obtain ⟨⟨-,hguard⟩,rfl⟩ := hs
  obtain ⟨p,hp⟩ := Option.ne_none_iff_exists'.mp hguard
  have hevent : (Op.derefGuard j).event s t = some (.derefGuard t j p) := by
    simp only [Op.event,hp,Option.map_some]
  rw [hevent]
  exact if_pos ⟨hp,h.not_destroyed (fun hun => hun.guards t j hp)⟩

theorem spec_dropHandle {p : Nat} (hs : s.dropHandle cfg t p = some s') :
    s.spec.step (.drop p) = some s'.spec := by
  simp only [State.dropHandle,Option.ite_none_right_eq_some,Option.some.injEq] at hs
  obtain ⟨⟨hstart,htake⟩,rfl⟩ := hs
  have hspec : (s.takeLive p).spec = s.spec.take (some p) := rfl
  refine (if_pos htake.1).trans (congrArg some ?_)
  rw [spec_setPc,hspec]
  exact (Spec.setCall_self (s := s.spec.take (some p)) (spec_calls hstart.1)).symm

theorem spec_dropGuard {j : Nat} (hs : s.dropGuard t j = some s') :
    s.spec.step (.dropGuard t j) = some s'.spec := by
  unfold State.dropGuard at hs
  split at hs
  · rename_i p r hguard hrecord
    simp only [Option.ite_none_right_eq_some,Option.some.injEq] at hs
    obtain ⟨-,rfl⟩ := hs
    have hguard : s.spec.guards t j ≠ none := by
      change (s.threads t).guards j ≠ none
      simp [hguard]
    exact (if_pos hguard).trans (congrArg some (spec_setGuard (s := s.setSlot r j none) j none).symm)
  · contradiction

theorem spec_incrementThenSet {shard : Nat} (hs : s.incrementThenSet cfg t shard = some s') :
    Follows Spec.step ((Op.incrementThenSet shard).event s t) s.spec s'.spec := by
  unfold State.incrementThenSet at hs
  split at hs
  · rename_i p original hpc
    simp only [Option.ite_none_right_eq_some,Option.some.injEq] at hs
    obtain ⟨-,rfl⟩ := hs
    have hevent : (Op.incrementThenSet shard).event s t =
        some (.endCompareAndSet t original) := by simp only [Op.event,hpc]
    have hspec : ((s.increment p shard).addLiveOption original).spec = s.spec.give original := by
      rw [spec_addLiveOption]
      rfl
    rw [hevent,spec_setPc,hspec]
    exact if_pos ⟨p,spec_calls hpc⟩
  · contradiction

theorem spec_downgrade {p : Nat} (hs : s.downgrade t p = some s') :
    s.spec.step (.downgrade t p) = some s'.spec := by
  simp only [State.downgrade,Option.ite_none_right_eq_some,Option.some.injEq] at hs
  obtain ⟨⟨hstart,hlive,huser⟩,rfl⟩ := hs
  have horigin : s.spec.origins p = none := by
    change (s.heap p).data.origin = none
    rw [State.isWeakSdarcInner] at huser
    cases hdata : (s.heap p).data with
    | user borrows => rfl
    | weakSdarcInner origin backRef => simp [hdata] at huser
  exact (if_pos ⟨spec_calls hstart.1,hlive,horigin⟩).trans
    (congrArg some (spec_setPc (.getOrInit p)).symm)

theorem spec_cloneWeakInner {shard : Nat} (hs : s.cloneWeakInner cfg t shard = some s') :
    Follows Spec.step ((Op.cloneWeakInner shard).event s t) s.spec s'.spec := by
  unfold State.cloneWeakInner at hs
  split at hs
  · rename_i p w hpc
    simp only [Option.ite_none_right_eq_some,Option.some.injEq] at hs
    obtain ⟨-,rfl⟩ := hs
    have hevent : (Op.cloneWeakInner shard).event s t = some (.endDowngrade t w) := by
      simp only [Op.event,hpc]
    rw [hevent,spec_setPc]
    exact if_pos ⟨p,spec_calls hpc⟩
  · contradiction

theorem Op.run_spec {op : Op} (h : Safe cfg s) (ho : Origins s) (hapart : s.apart)
    (hs : op.run cfg s t = some s') :
    Follows Spec.step (op.event s t) s.spec s'.spec := by
  cases op with
  | sdarcNew ptr countersPtr shard borrows => exact spec_sdarcNew h hs
  | onNewSdarcAllocated shard => exact spec_onNewSdarcAllocated hs
  | clone p shard =>
    simp only [Op.run,State.clone,Option.ite_none_right_eq_some,Option.some.injEq] at hs
    obtain ⟨⟨-,hlive,-⟩,rfl⟩ := hs
    exact if_pos hlive
  | deref p =>
    simp only [Op.run,State.deref,Option.ite_none_right_eq_some,Option.some.injEq] at hs
    obtain ⟨⟨-,hlive⟩,rfl⟩ := hs
    exact if_pos ⟨hlive,h.not_destroyed (fun hun => hlive.ne' hun.live)⟩
  | derefGuard j => exact spec_derefGuard h hs
  | dropHandle p => exact spec_dropHandle hs
  | swap c new discard => exact spec_swap hs
  | loadOwned src =>
    simp only [Op.run,State.loadOwned,Option.ite_none_right_eq_some,Option.some.injEq] at hs
    obtain ⟨⟨hstart,huse⟩,rfl⟩ := hs
    refine (if_pos ⟨spec_calls hstart.1,?_⟩).trans
      (congrArg some (spec_setPc (.loadEnter src none)).symm)
    cases src with
    | cell c => trivial
    | backRef w => exact huse.1
  | syncTo c target => exact spec_syncTo h hapart hs
  | loadPointer => exact spec_loadPointer hs
  | leaveSection => exact spec_leaveSection hs
  | borrow src => exact spec_borrow hs
  | reload => exact spec_reload hs
  | dropGuard j => exact spec_dropGuard hs
  | compareAndSet c ifMatches thenSet => exact spec_compareAndSet h hapart hs
  | incrementThenSet shard => exact spec_incrementThenSet hs
  | downgrade p => exact spec_downgrade hs
  | getOrInit => exact spec_getOrInit h hs
  | newWeakInner ptr countersPtr shard => exact spec_newWeakInner h ho hs
  | cloneWeakInner shard => exact spec_cloneWeakInner hs
  | dropLoad | dropExchange | enterSection | loadIncrement | publish | retract | obtain
  | obtainNext | release | registerWeakInner | setWeakInner | collectorUpdateNowAndWait =>
    exact (Op.run_step hs).spec_internal h rfl

end Threads

section Collector

variable {cfg : Config} {s s' : State} {p w : Nat}

def AllBorn (s : State) : Prop := ∀ p, p < s.nextPointee → (s.heap p).stage ≠ .unallocated

theorem CollectorStep.stage_born (hs : CollectorStep cfg s s')
    (hp : (s.heap p).stage ≠ .unallocated) : (s'.heap p).stage ≠ .unallocated := by
  cases hs with
  | free it key toFree e =>
    by_cases hq : p = e.pointee
    · simp [hq]
    · simpa [hq] using hp
  | dropMemory it q =>
    by_cases hq : p = q
    · simp [hq]
    · simpa [hq] using hp
  | dropCounters | dropWeakInnerRef =>
    exact (field_update SdarcInner.stage (by rfl) p).trans_ne hp
  | weakBackRefCleared =>
    rw [(SameMemory.resume _ _ _).heap]
    exact (field_update SdarcInner.stage (by rfl) p).trans_ne hp
  | startUpdate | readShard | finishPass | weakRefNotInvolved | weakBackRefWasAlreadyNull =>
    rw [(SameMemory.resume _ _ _).heap]
    exact hp
  | _ => exact hp

theorem AllBorn.step {a : Action} (h : AllBorn s) (hs : SystemStep cfg s a s') : AllBorn s' := by
  intro p hp
  cases hs with
  | thread t op _ _ hs =>
    by_cases hpn : p = s.nextPointee
    · rcases hs.next with hnext | ⟨hstage,-⟩
      · omega
      · subst hpn
        simp [hstage]
    · rw [(hs.frame (.inl hpn)).2.2]
      refine h p ?_
      rcases hs.next with hnext | ⟨-,hnext⟩ <;> omega
  | collector _ hs => exact hs.stage_born (h p (hs.nextPointee ▸ hp))
  | finishDestructor => exact h p hp

theorem ThreadPc.makes_pins {pc : ThreadPc} (h : pc.makes p w) : pc.pins p := by
  cases pc <;> simp_all [makes,pins]

theorem holds_of_call {pc : ThreadPc} (h : pc.call.holds p) :
    0 < pc.owned p ∨ pc.pins p ∨ pc.entering p ∨ ∃ q, pc = .cloneWeakInner q p := by
  cases pc <;> simp_all [ThreadPc.call,Call.holds,ThreadPc.owned,ThreadPc.pins,
    ThreadPc.entering]
  all_goals grind

/-- The collector destroys a pointee when nobody holds it, and a `WeakSdarcInner` not before
the pointee that it was made for. -/
theorem Safe.spec_unreferenced (h : Safe cfg s) (h' : Safe cfg s') (ho : Origins s)
    (hborn : AllBorn s) (hsame : SameLinks s s') (hf : s'.freed p) : s.spec.Unreferenced p := by
  have hun := h'.unreferenced hf
  have hweak := h.references.weak
  have hnot : ∀ q, (s.heap q).weakInnerRef ≠ .initialized p := fun q =>
    hsame.weakInnerRef q ▸ hun.weakInnerRef q
  have howned := hun.owned
  have hpins := hun.pins
  have hentering := hun.entering
  have hguards := hun.guards
  rw [hsame.threads] at howned hpins hentering hguards
  constructor
  · exact (congrFun hsame.live p).symm.trans hun.live
  · exact fun c hc => hun.cells c ((congrFun hsame.cells c).trans hc)
  · exact hguards
  · intro t hcall
    rcases holds_of_call hcall with hpos | hp | hp | ⟨q,hpc⟩
    · exact hpos.ne' (howned t)
    · exact hpins t hp
    · exact hentering t hp
    · exact hnot q (hweak.cloned t q p hpc)
  · intro w hload
    obtain ⟨o,ho⟩ := load_backRef.mp hload
    obtain ⟨-,-,hi | ⟨t,hm⟩⟩ := hweak.backRef w o p ho
    · exact (h'.references.dead p hf.not_allocated).source
        ((hsame.linked p).mpr ⟨w,hi,hload⟩)
    · exact hpins t (ThreadPc.makes_pins hm)
  · intro q hq
    have hof := origins_eq_some.mp hq
    refine decide_eq_true ?_
    by_contra hnotFreed
    have hstage : (s.heap q).stage = .allocated := by
      have hstage := hborn q (ho.born p q hof)
      rw [State.freed,not_or] at hnotFreed
      cases hq : (s.heap q).stage <;> simp_all
    rcases ho.set p q hof hstage with hi | ⟨t,hm⟩
    · exact hnot q hi
    · exact absurd (howned t) (by simp [ThreadPc.makes_owned hm])

theorem CollectorStep.run_spec (h : Safe cfg s) (h' : Safe cfg s') (ho : Origins s)
    (hborn : AllBorn s) (hs : CollectorStep cfg s s') :
    Follows Spec.step s.collectorEvent s.spec s'.spec := by
  cases hs with
  | weakBackRefCleared it key w origin p hc hdata =>
    have hload : s.load (.backRef w) = some p := load_backRef.mpr ⟨origin,hdata⟩
    have hevent : s.collectorEvent = some (.unlink w) := by
      simp only [State.collectorEvent,hc,hload,Option.isSome_some,if_true]
    have hlinked : s.spec.backRefs w ≠ none := by
      change s.load (.backRef w) ≠ none
      simp [hload]
    rw [hevent,(SameMemory.resume _ _ _).spec]
    refine (if_pos hlinked).trans (congrArg some ?_)
    refine Spec.ext rfl rfl (funext fun x => ?_) (funext fun x => ?_) rfl rfl rfl
      (funext fun x => ?_) <;> by_cases hx : x = w
    · subst hx
      simp [State.spec,hdata,Data.origin]
    · simp [State.spec,hx]
    · subst hx
      simp [State.spec,State.load]
    · simp [State.spec,State.load,hx]
    · subst hx
      exact decide_eq_decide.mpr (by simp [State.freed])
    · exact decide_eq_decide.mpr (by simp [State.freed,hx])
  | weakBackRefWasAlreadyNull it key w hc hnull =>
    have hload : s.load (.backRef w) = none := by
      by_contra hne
      obtain ⟨p,hp⟩ := Option.ne_none_iff_exists'.mp hne
      obtain ⟨o,hdata⟩ := load_backRef.mp hp
      exact hnull o p hdata
    have hevent : s.collectorEvent = none := by
      simp only [State.collectorEvent,hc,hload,Option.isSome_none,Bool.false_eq_true,if_false]
    rw [hevent]
    exact (SameMemory.resume _ _ _).spec
  | free it key toFree e hc hf he hready hptr =>
    have hstage := (h.tracking.places.trackedOk key e he).1
    have hevent : s.collectorEvent = some (.destroy e.pointee) := by
      simp only [State.collectorEvent,hc,hf,he,Option.map_some]
    have hun := h.spec_unreferenced h' ho hborn (.of_setInner rfl rfl rfl rfl rfl rfl rfl rfl)
      (p := e.pointee) (.inl (by simp))
    have hlt := h.tracking.places.lt_nextPointee (p := e.pointee) (by simp [hstage])
    have hnot : s.spec.destroyed e.pointee = false :=
      decide_eq_false (fun hf => hf.not_allocated hstage)
    rw [hevent]
    refine (if_pos ⟨hlt,hnot,hun⟩).trans (congrArg some ?_)
    refine Spec.ext rfl rfl (funext fun x => ?_) (funext fun x => ?_) rfl rfl rfl
      (funext fun x => ?_) <;> by_cases hx : x = e.pointee
    · simp [State.spec,hx]
    · simp [State.spec,hx]
    · simp [State.spec,State.load,hx]
    · simp [State.spec,State.load,hx]
    · subst hx
      simp [State.spec,State.freed]
    · simp only [hx,Function.update_of_ne,ne_eq,not_false_eq_true]
      exact decide_eq_decide.mpr (by simp [State.freed,hx])
  | notReadyToFree | countersPtrMismatch => exact absurd rfl (h'.notPanicked _)
  | dropCounters it p hc =>
    have hevent : s.collectorEvent = none := by simp only [State.collectorEvent,hc]
    rw [hevent]
    exact spec_setInner (s := s) rfl .rfl
  | dropWeakInnerRef it p w hc hw hidle =>
    have hevent : s.collectorEvent = none := by simp only [State.collectorEvent,hc]
    rw [hevent]
    exact (spec_goto _).trans (spec_goOn (spec_setInner rfl .rfl) hidle rfl)
  | dropMemory it p hc =>
    have hevent : s.collectorEvent = none := by simp only [State.collectorEvent,hc]
    have hstage := h.tracking.lists.dropping it p _ hc
    rw [hevent]
    exact spec_setInner (s := s) rfl (by simp [State.freed,hstage])
  | endOuterIteration it hc hf =>
    have hevent : s.collectorEvent = none := by simp only [State.collectorEvent,hc,hf]
    rw [hevent]
    refine Spec.ext rfl rfl rfl rfl rfl (funext fun t => ?_) (funext fun t => ?_) rfl <;>
      by_cases ht : t ∈ s.toNotify ∧ (s.threads t).pc = .waiting
    · simp [State.spec,ht]
    · simp [State.spec,ht]
    · simp [State.spec,ht,ThreadPc.call]
    · simp [State.spec,ht]
  | startUpdate | readShard | finishPass | weakRefNotInvolved =>
    have hevent : s.collectorEvent = none := by simp only [State.collectorEvent, *]
    rw [hevent]
    exact (SameMemory.resume _ _ _).spec
  | _ =>
    have hevent : s.collectorEvent = none := by
      simp only [State.collectorEvent,Option.map_none, *]
    rw [hevent]
    exact rfl

end Collector

section Runs

variable {cfg : Config}

structure Refinable (cfg : Config) (s : State) : Prop where
  reach : Reach (step cfg) (State.covered cfg) .initial s
  allBorn : AllBorn s

theorem refines_spec : Refines (guarded (step cfg) (State.covered cfg)) Spec.step State.event
    State.spec (Refinable cfg) where
  keeps s a s' h hs := by
    simp only [guarded,Option.ite_none_right_eq_some] at hs
    obtain ⟨hcov,hs⟩ := hs
    exact ⟨h.reach.tail ⟨a,hcov,hs⟩,h.allBorn.step (step_cases hs)⟩
  follows s a s' h hs := by
    simp only [guarded,Option.ite_none_right_eq_some] at hs
    obtain ⟨hcov,hs⟩ := hs
    obtain ⟨hsafe,ho⟩ := safe_origins h.reach
    have hsafe' := safe_of_reach (h.reach.tail ⟨a,hcov,hs⟩)
    cases a with
    | thread t op =>
      simp only [step,Option.ite_none_right_eq_some] at hs
      exact Op.run_spec hsafe ho (safe_apart h.reach).2 hs.2
    | collector => exact (State.collect_step hs).run_spec hsafe hsafe' ho h.allBorn
    | finishDestructor panicked =>
      cases step_cases hs
      exact rfl

/-- What is seen of a run is a run of the specification, which never destroys what anyone
holds. -/
theorem process_refines_spec (as : List Action) (s : State)
    (h : run (guarded (step cfg) (State.covered cfg)) .initial as = some s) :
    run Spec.step .initial
      (trace (guarded (step cfg) (State.covered cfg)) State.event .initial as) = some s.spec ∧
    s.spec.Sound := by
  have hstart : Refinable cfg .initial := ⟨.refl,fun p hp => by simp [State.initial] at hp⟩
  have hrun := (refines_spec.run hstart h).2
  have hspec : State.initial.spec = .initial := by
    simp [State.spec,State.initial,Spec.initial,State.load,Data.origin,ThreadPc.call,State.freed]
  rw [hspec] at hrun
  exact ⟨hrun,Spec.sound_of_reach (reach_of_run (fun _ _ _ => trivial) hrun)⟩

/-- A thread loads the cell, and before it has made its increment another one takes the
pointer out. The pointee is destroyed once the reader has dropped its handle too. -/
def readWhileReplaced : List Action :=
  [.thread 1 (.sdarcNew 10 100 0 []),.thread 1 (.onNewSdarcAllocated 0),
    .thread 1 (.swap 0 (some 0) false),.thread 2 (.loadOwned (.cell 0)),.thread 2 .obtain,
    .thread 2 .obtainNext,.thread 2 .enterSection,.thread 2 .loadPointer,
    .thread 1 (.swap 0 none true),.thread 1 (.dropLoad 0),.thread 2 (.loadIncrement 0),
    .thread 1 (.dropExchange false),.thread 1 (.dropExchange false),.thread 2 .leaveSection,
    .thread 2 (.deref 0),.thread 2 (.dropHandle 0),.thread 2 (.dropLoad 0),
    .thread 2 (.dropExchange false)] ++ List.replicate 54 .collector

theorem readWhileReplaced_seen : ∃ s,
    run (guarded (step ⟨1,3,1,by decide⟩) (State.covered ⟨1,3,1,by decide⟩)) .initial
      readWhileReplaced = some s ∧
    run Spec.step .initial
      [.sdarcNew 1 0,.created 1 0,.swap 0 (some 0) none false,.beginRead 2 (.cell 0),
        .load 2 (some 0),.swap 0 none (some 0) true,.endRead 2 (some 0),.deref 0,.drop 0,
        .destroy 0] = some s.spec := by
  have hsome : (run (guarded (step ⟨1,3,1,by decide⟩) (State.covered ⟨1,3,1,by decide⟩)) .initial
      readWhileReplaced).isSome = true := by decide +kernel
  have htrace : trace (guarded (step ⟨1,3,1,by decide⟩) (State.covered ⟨1,3,1,by decide⟩))
      State.event .initial readWhileReplaced =
      [.sdarcNew 1 0,.created 1 0,.swap 0 (some 0) none false,.beginRead 2 (.cell 0),
        .load 2 (some 0),.swap 0 none (some 0) true,.endRead 2 (some 0),.deref 0,.drop 0,
        .destroy 0] := by decide +kernel
  have hseen := (process_refines_spec _ _ (Option.some_get hsome).symm).1
  rw [htrace] at hseen
  exact ⟨_,(Option.some_get hsome).symm,hseen⟩

end Runs

end Sdarc.System
