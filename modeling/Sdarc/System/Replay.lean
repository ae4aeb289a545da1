import Sdarc.Collection.Remainder
import Sdarc.Collection.Termination
import Sdarc.System.Unlinked
import Sdarc.System.Upgrades
import Sdarc.System.Waiting
set_option autoImplicit false

/-!
An outer iteration of the collector, interleaved with everything else, is a call of `update`.
The memory that `update` runs on is a list of instants: each access finds what the process
holds there at the next one.
-/

namespace Sdarc.System
open Transition Collection

def CollectorPc.iter : CollectorPc → Option Iter
  | .visiting it => some it
  | .checking it _ _ => some it
  | .unlinking it _ _ => some it
  | .freeing it => some it
  | .dropping it _ _ => some it
  | _ => none

def CollectorPc.hazard : CollectorPc → Finset Nat
  | .traversing it _ _ _ => it.hazard
  | _ => ∅

def CollectorPc.frees : CollectorPc → Bool
  | .freeing _ => true
  | .dropping _ _ _ => true
  | .panicked _ => true
  | _ => false

def OnceLock.isInitialized : OnceLock → Bool
  | .initialized _ => true
  | _ => false

/-- The collector's own thread is busy in destructors only, and only these fill its thread
local. -/
structure Local (s : State) : Prop where
  busy : (s.threads 0).pc ≠ .idle → ∃ it p, s.collector = .dropping it p .data
  dropped : s.collector.frees = false → ∀ key, key ∉ s.countersToReCheck
  fresh : ∀ it len r j, s.collector = .traversing it len r j → it.newToReCheck = ∅

section Local

variable {cfg : Config} {s s' : State} {t : Nat}

theorem ThreadStep.starts {op : Op} (hs : ThreadStep cfg s t op s')
    (hbusy : (s'.threads t).pc ≠ .idle) : (s.threads t).pc ≠ .idle ∨ s.canStart t := by
  cases hs with
  | sdarcNew _ _ _ _ hstart | clone _ _ hstart | dropHandle _ hstart | swap _ _ _ hstart
  | store _ _ _ hstart | loadOwned _ hstart | syncTo _ _ hstart | borrow _ _ hstart
  | dropGuard _ _ _ hstart | release _ hstart | setNull _ _ hstart | compareAndSet _ _ _ hstart
  | downgrade _ hstart | collectorUpdateNowAndWait hstart => exact .inr hstart
  | stay | releaseFailed => exact .inl hbusy
  | obtain | recordUsed | claimRecord | pushRecord => exact .inl (by simpa using hbusy)
  | onNewSdarcAllocated shard p hpc | dropLoad shard p hpc | decrement p shard hpc
  | decrementRetry spurious p shard value hpc | sectionNested src after r hpc
  | enterSection src after r hpc | loadNull src after hpc | loadPointer src after p hpc
  | loadIncrement src after p shard hpc | leaveSection src result r hpc
  | leaveSectionDrop src old result r hpc | publish src address r j hpc | slotsFull src address hpc
  | reload src j p hpc | pointerChanged src j address hpc | retract src j r hpc
  | incrementThenSet p original shard hpc | getInitialized p w hpc | startInit p hpc
  | newWeakInner ptr countersPtr shard p hpc | registerWeakInner shard p w hpc
  | setWeakInner p w hpc | cloneWeakInner shard p w hpc => exact .inl (by simp [hpc])

theorem ThreadStep.countersToReCheck {op : Op} (hs : ThreadStep cfg s t op s') :
    s'.countersToReCheck = s.countersToReCheck ∨ (s.threads 0).pc ≠ .idle ∧
      ∀ key, key ∈ s.countersToReCheck → key ∈ s'.countersToReCheck := by
  cases hs with
  | dropLoad shard p hpc =>
    by_cases ht : t = 0
    · subst ht
      refine .inr ⟨by simp [hpc],fun key hkey => ?_⟩
      simp only [State.onSdarcDrop,if_true,State.setPc]
      exact Std.TreeSet.mem_insert.mpr (.inr hkey)
    · simp [ht]
  | _ => exact .inl rfl

theorem Local.thread {op : Op} (h : Local s) (hs : ThreadStep cfg s t op s') : Local s' where
  busy hbusy := by
    rw [hs.collector.1]
    by_cases ht : t = 0
    · subst ht
      rcases hs.starts hbusy with hold | hstart
      · exact h.busy hold
      · obtain ⟨it,p,hc,-⟩ := (State.inUserDestructor_iff s).mp (hstart.2 rfl)
        exact ⟨it,p,hc⟩
    · rw [hs.others (Ne.symm ht)] at hbusy
      exact h.busy hbusy
  dropped hfrees := by
    rw [hs.collector.1] at hfrees
    rcases hs.countersToReCheck with heq | ⟨hbusy,-⟩
    · rw [heq]
      exact h.dropped hfrees
    · obtain ⟨it,p,hc⟩ := h.busy hbusy
      simp [hc,CollectorPc.frees] at hfrees
  fresh it len r j hc := h.fresh it len r j (hs.collector.1 ▸ hc)

theorem resume_local (it : Iter) (key : Nat) (result : UpdateResult) :
    (s.resume it key result).countersToReCheck = s.countersToReCheck ∧
      (s.resume it key result).threads = s.threads ∧
      ∀ it' len r j, (s.resume it key result).collector ≠ .traversing it' len r j := by
  cases result <;> simp [State.resume]

/-- The collector steps only while its thread is idle, and makes it drop a handle at most
where the destructor of the data comes next. -/
theorem CollectorStep.local (h : Local s) (hs : CollectorStep cfg s s') :
    (s.threads 0).pc = .idle ∧
      ((s'.threads 0).pc ≠ .idle → ∃ it p, s'.collector = .dropping it p .data) := by
  have hidle : (s.threads 0).pc = .idle := by
    by_contra hbusy
    obtain ⟨it,p,hc⟩ := h.busy hbusy
    cases hs with
    | spin _ _ _ _ hc' => simp [hc] at hc'
    | _ => simp_all
  refine ⟨hidle,fun hbusy => ?_⟩
  cases hs with
  | dropWeakInnerRef it p => exact ⟨it,p,rfl⟩
  | endOuterIteration =>
    simp only [State.endOuterIteration] at hbusy
    split at hbusy
    · exact absurd rfl hbusy
    · exact absurd hidle hbusy
  | startUpdate | readShard | finishPass | weakRefNotInvolved | weakBackRefWasAlreadyNull =>
    rw [(resume_local _ _ _).2.1] at hbusy
    exact absurd hidle hbusy
  | weakBackRefCleared =>
    rw [(resume_local _ _ _).2.1] at hbusy
    exact absurd hidle hbusy
  | _ => exact absurd hidle hbusy

theorem CollectorStep.countersToReCheck (hs : CollectorStep cfg s s') :
    s'.countersToReCheck = ∅ ∨ s'.countersToReCheck = s.countersToReCheck ∧
      (s.collector.frees = true → s'.collector.frees = true) := by
  cases hs with
  | nextIteration | endOuterIteration => exact .inl rfl
  | startUpdate it key todo e hc | readShard it key k pc hc | finishPass it key k pc hc
  | weakRefNotInvolved it key e hc | weakBackRefWasAlreadyNull it key w hc =>
    exact .inr ⟨(resume_local _ _ _).1,by simp [hc,CollectorPc.frees]⟩
  | weakBackRefCleared it key w origin p hc =>
    exact .inr ⟨(resume_local _ _ _).1,by simp [hc,CollectorPc.frees]⟩
  | _ => right; constructor <;> simp_all [CollectorPc.frees]

theorem CollectorStep.fresh (h : Local s) (hs : CollectorStep cfg s s') {it : Iter}
    {len r j : Nat} (hc : s'.collector = .traversing it len r j) : it.newToReCheck = ∅ := by
  cases hs with
  | startIteration | nextIteration =>
    obtain ⟨rfl,-⟩ := CollectorPc.traversing.inj hc
    rfl
  | readEmptySlot it' len' r' j' hold | readSlot it' len' r' j' address hold
  | poll it' len' r' j' hold =>
    obtain ⟨rfl,-⟩ := CollectorPc.traversing.inj hc
    exact h.fresh it' len' r' j' hold
  | spin it' len' r' j' hold => exact h.fresh _ _ _ _ hc
  | startUpdate | readShard | finishPass | weakRefNotInvolved | weakBackRefWasAlreadyNull =>
    exact absurd hc ((resume_local _ _ _).2.2 _ _ _ _)
  | weakBackRefCleared => exact absurd hc ((resume_local _ _ _).2.2 _ _ _ _)
  | _ => contradiction

theorem SystemStep.local {a : Action} (h : Local s) (hs : SystemStep cfg s a s') : Local s' := by
  cases hs with
  | thread t op _ _ hs => exact h.thread hs
  | collector _ hs =>
    refine ⟨(hs.local h).2,fun hfrees => ?_,fun it len r j hc => hs.fresh h hc⟩
    rcases hs.countersToReCheck with hempty | ⟨heq,himp⟩
    · rw [hempty]
      exact fun key => Std.TreeSet.not_mem_emptyc
    · rw [heq]
      refine h.dropped (Bool.eq_false_iff.mpr (fun htrue => ?_))
      rw [himp htrue] at hfrees
      contradiction
  | finishDestructor _ it p hc _ hidle =>
    exact ⟨fun hbusy => absurd hidle hbusy,fun hfrees => by simp [CollectorPc.frees] at hfrees,
      by simp⟩

end Local

def State.weakRefs (s : State) (p : Nat) : WeakRef :=
  match (s.heap p).weakInnerRef with
  | .initialized w => if (s.load (.backRef w)).isSome then .linked else .cleared
  | _ => .uninit

/-- The `WeakRef` that `update` keeps for `p` is right. Where it says `uninit`, a thread may
have downgraded the pointee since. -/
def State.weakRefAgrees (s : State) (p : Nat) : WeakRef → Prop
  | .cleared => ∃ w, (s.heap p).weakInnerRef = .initialized w ∧ s.load (.backRef w) = none
  | .linked => ∃ w, (s.heap p).weakInnerRef = .initialized w ∧ s.load (.backRef w) = some p
  | .uninit => ∀ w, (s.heap p).weakInnerRef = .initialized w → s.load (.backRef w) = some p

section WeakRefs

variable {cfg : Config} {s s' : State} {p : Nat} {r : WeakRef}

theorem weakRefs_agree (hweak : Weak s) (p : Nat) : s.weakRefAgrees p (s.weakRefs p) := by
  unfold State.weakRefs
  cases hlock : (s.heap p).weakInnerRef with
  | uninit => exact fun w hw => by simp [hlock] at hw
  | running u => exact fun w hw => by simp [hlock] at hw
  | initialized w =>
    cases hload : s.load (.backRef w) with
    | none =>
      simp only [hload,Option.isSome_none,Bool.false_eq_true,if_false]
      exact ⟨w,hlock,hload⟩
    | some q =>
      obtain rfl := weakInnerOf_unique (hweak.initialized p w hlock) (hweak.load_origin hload)
      simp only [hload,Option.isSome_some,if_true]
      exact ⟨w,hlock,hload⟩

theorem State.weakRefAgrees.of_same (h : s.weakRefAgrees p r)
    (hlock : (s'.heap p).weakInnerRef = (s.heap p).weakInnerRef)
    (hload : ∀ w, (s.heap p).weakInnerRef = .initialized w →
      s'.load (.backRef w) = s.load (.backRef w)) : s'.weakRefAgrees p r := by
  cases r with
  | cleared | linked =>
    obtain ⟨w,hw,hnull⟩ := h
    exact ⟨w,hlock.trans hw,(hload w hw).trans hnull⟩
  | uninit =>
    intro w hw
    have hw₀ := hlock.symm.trans hw
    exact (hload w hw₀).trans (h w hw₀)

theorem ThreadStep.initialized_of {t w : Nat} {op : Op} (hs : ThreadStep cfg s t op s')
    (hw : (s'.heap p).weakInnerRef = .initialized w) :
    (s.heap p).weakInnerRef = .initialized w ∨ (s.threads t).pc.makes p w := by
  cases hs with
  | sdarcNew | newWeakInner =>
    by_cases hnew : p = s.nextPointee
    · simp [hnew] at hw
    · exact .inl (by simpa [hnew] using hw)
  | startInit q =>
    by_cases hq : p = q
    · simp [hq] at hw
    · exact .inl (by simpa [hq] using hw)
  | setWeakInner q x hpc =>
    by_cases hq : p = q
    · subst hq
      obtain rfl : x = w := by simpa using hw
      exact .inr (by rw [hpc]; exact ⟨rfl,rfl⟩)
    · exact .inl (by simpa [hq] using hw)
  | _ => exact .inl hw

theorem State.weakRefAgrees.thread {t : Nat} {op : Op} (h : s.weakRefAgrees p r)
    (hweak : Weak s) (hs : ThreadStep cfg s t op s') : s'.weakRefAgrees p r := by
  have hload : ∀ w, s.weakInnerOf w p → s'.load (.backRef w) = s.load (.backRef w) := by
    intro w hof
    simp only [State.load,hs.data (.inl (hweak.weakInner_born hof).ne)]
  cases r with
  | cleared | linked =>
    obtain ⟨w,hw,hnull⟩ := h
    exact ⟨w,hs.initialized_stays hweak hw,(hload w (hweak.initialized p w hw)).trans hnull⟩
  | uninit =>
    intro w hw
    rcases hs.initialized_of hw with hold | hmakes
    · exact (hload w (hweak.initialized p w hold)).trans (h w hold)
    · have hmade := hweak.made t p w hmakes
      exact (hload w ⟨_,hmade⟩).trans (load_backRef.mpr ⟨p,hmade⟩)

theorem CollectorStep.weakInnerRef_stays (htracking : Tracking cfg s) (hs : CollectorStep cfg s s')
    (hfreed : ¬ s.freed p) : (s'.heap p).weakInnerRef = (s.heap p).weakInnerRef := by
  cases hs with
  | dropWeakInnerRef it q w hc =>
    have hne : p ≠ q := by
      rintro rfl
      exact hfreed (.inl (htracking.lists.dropping it p _ hc))
    simp [hne]
  | free it key toFree e | dropCounters it q | dropMemory it q =>
    exact field_update SdarcInner.weakInnerRef (by rfl) p
  | weakBackRefCleared it key w =>
    rw [(SameMemory.resume _ _ _).heap]
    exact field_update SdarcInner.weakInnerRef (by rfl) p
  | startUpdate | readShard | finishPass | weakRefNotInvolved | weakBackRefWasAlreadyNull =>
    rw [(SameMemory.resume _ _ _).heap]
  | _ => rfl

theorem State.weakRefAgrees.collector (h : s.weakRefAgrees p r) (htracking : Tracking cfg s)
    (hs : CollectorStep cfg s s') (hfreed : ¬ s.freed p)
    (hc : ∀ it key w, s.collector = .unlinking it key w →
      (s.heap p).weakInnerRef = .initialized w → s'.load (.backRef w) = s.load (.backRef w)) :
    s'.weakRefAgrees p r := by
  refine h.of_same (hs.weakInnerRef_stays htracking hfreed) (fun w hw => ?_)
  rcases hs.load w with heq | ⟨it,key,hunlinking⟩
  · exact heq
  · exact hc it key w hunlinking hw

theorem SystemStep.freed_stays {a : Action} (htracking : Tracking cfg s)
    (hs : SystemStep cfg s a s') (hp : s.freed p) : s'.freed p := by
  have hborn : p < s.nextPointee :=
    htracking.places.lt_nextPointee (by rcases hp with hp | hp <;> simp [hp])
  cases hs with
  | thread t op _ _ hs =>
    rw [State.freed,(hs.frame (.inl hborn.ne)).2.2]
    exact hp
  | collector _ hs =>
    cases hs with
    | free it key toFree e =>
      by_cases hq : p = e.pointee
      · exact .inl (by simp [hq])
      · simpa [State.freed,hq] using hp
    | dropMemory it q =>
      by_cases hq : p = q
      · exact .inr (by simp [hq])
      · simpa [State.freed,hq] using hp
    | dropCounters it q =>
      by_cases hq : p = q
      · simpa [State.freed,hq] using hp
      · simpa [State.freed,hq] using hp
    | dropWeakInnerRef it q =>
      by_cases hq : p = q
      · simpa [State.freed,hq] using hp
      · simpa [State.freed,hq] using hp
    | weakBackRefCleared it key w =>
      rw [State.freed,(SameMemory.resume _ _ _).heap]
      by_cases hq : p = w
      · simpa [State.freed,hq] using hp
      · simpa [State.freed,hq] using hp
    | startUpdate | readShard | finishPass | weakRefNotInvolved | weakBackRefWasAlreadyNull =>
      rw [State.freed,(SameMemory.resume _ _ _).heap]
      exact hp
    | _ => exact hp
  | finishDestructor => exact hp

end WeakRefs

structure SameAddress (s s' : State) (p : Nat) : Prop where
  ptr : (s'.heap p).ptr = (s.heap p).ptr
  countersPtr : (s'.heap p).countersPtr = (s.heap p).countersPtr
  born : p < s'.nextPointee

section Addresses

variable {cfg : Config} {s s' : State} {p : Nat}

theorem CollectorStep.countersPtr (hs : CollectorStep cfg s s') :
    (s'.heap p).countersPtr = (s.heap p).countersPtr := by
  cases hs with
  | free it key toFree e | dropCounters it q | dropMemory it q | dropWeakInnerRef it q w =>
    exact field_update SdarcInner.countersPtr (by rfl) p
  | weakBackRefCleared it key w =>
    rw [(SameMemory.resume _ _ _).heap]
    exact field_update SdarcInner.countersPtr (by rfl) p
  | startUpdate | readShard | finishPass | weakRefNotInvolved | weakBackRefWasAlreadyNull =>
    rw [(SameMemory.resume _ _ _).heap]
  | _ => rfl

theorem SystemStep.sameAddress {a : Action} (htracking : Tracking cfg s)
    (hs : SystemStep cfg s a s') (hp : p < s.nextPointee) : SameAddress s s' p := by
  have hptr := (hs.identity htracking hp).ptr
  cases hs with
  | thread t op _ _ hs =>
    refine ⟨hptr,(hs.frame (.inl hp.ne)).2.1,?_⟩
    rcases hs.next with hnext | ⟨-,hnext⟩ <;> omega
  | collector _ hs => exact ⟨hptr,hs.countersPtr,by rwa [hs.nextPointee]⟩
  | finishDestructor => exact ⟨hptr,rfl,hp⟩

theorem sameAddress_later {N : Nat} {e : Execution (step cfg) N} {k b : Nat} (hkb : k ≤ b)
    (hb : b ≤ N) (htracking : ∀ j, j ≤ N → Tracking cfg (e.state j))
    (hp : p < (e.state k).nextPointee) : SameAddress (e.state k) (e.state b) p := by
  induction b, hkb using Nat.le_induction with
  | base => exact ⟨rfl,rfl,hp⟩
  | succ b hkb ih =>
    have hold := ih (by omega)
    have hnew := (step_cases (e.enabled b (by omega))).sameAddress (htracking b (by omega))
      hold.born
    exact ⟨hnew.ptr.trans hold.ptr,hnew.countersPtr.trans hold.countersPtr,hnew.born⟩

end Addresses

def readNext {β : Type} (beyond : β) (read : Nat → β) : List Nat → β × List Nat
  | [] => (beyond,[])
  | k :: ks => (read k,ks)

/-- The memory of a process during a stretch of its history that ends at step `b`: the list of
the instants at which `update` is still to access it. Beyond them all counters are tagged. -/
def processMemory {N : Nat} (cfg : Config) (e : Execution (step cfg) N) (b : Nat) :
    Environment (List Nat) where
  shards := cfg.shards
  ptr p := ((e.state b).heap p).ptr
  countersPtr p := ((e.state b).heap p).countersPtr
  takePending ks shard := readNext [] (fun k => (e.state k).pending shard) ks
  traverse := readNext ∅ (fun k => (e.state k).collector.hazard)
  loadRelaxed ks key shard := readNext ⟨0,true⟩ (fun k => (e.state k).counters key shard) ks
  fetchAndClearTag ks key shard := readNext ⟨0,true⟩ (fun k => (e.state k).counters key shard) ks
  loadAcquire ks key shard := readNext ⟨0,true⟩ (fun k => (e.state k).counters key shard) ks
  downgraded ks p := readNext false (fun k => ((e.state k).heap p).weakInnerRef.isInitialized) ks
  free ks _ := readNext [] (fun k => (e.state k).countersToReCheck.toList) ks

def State.pointeeAt (s : State) (key : Nat) : Nat :=
  match s.tracked[key]? with
  | some e => e.pointee
  | none => 0

def State.rest {M : Type} (s : State) (env : Environment M) (f : Found) (toReCheck : List Nat)
    (c : Collector M) : Except CollectorPanic (Environment.LoopEnd × Collector M) :=
  match s.collector with
  | .parked => .ok (⟨0,∅⟩,c)
  | .taking shard taken =>
      env.restOfTaking MAX_INNER_ITERATIONS (!s.toNotify.isEmpty) shard taken c
  | .traversing it _ _ _ => env.restOfIteration MAX_INNER_ITERATIONS it.deep it.round it.todo c
  | .visiting it =>
      env.restOfVisiting MAX_INNER_ITERATIONS it.deep it.round it.hazard it.todo f c
  | .checking it key pc =>
      env.restOfChecking MAX_INNER_ITERATIONS it.deep it.round it.hazard key it.todo f
        (env.restOfUpdate key (s.pointeeAt key) pc c)
  | .unlinking it key _ =>
      env.restOfChecking MAX_INNER_ITERATIONS it.deep it.round it.hazard key it.todo f
        (env.restOfUpdate key (s.pointeeAt key) .clearWeakBackRef c)
  | .freeing it => env.restOfFreeing MAX_INNER_ITERATIONS it.deep it.round f toReCheck c
  | .dropping it p _ =>
      env.restOfFreeing MAX_INNER_ITERATIONS it.deep it.round f
        (toReCheck ++ (env.free c.memory p).1) (c.setMemory (env.free c.memory p).2)
  | .panicked site => .error site

def State.asCollector (s : State) (ks : List Nat) (weakRefs : Nat → WeakRef) :
    Collector (List Nat) :=
  ⟨ks,weakRefs,s.tracked⟩

def State.reChecks (s : State) (toReCheck : List Nat) : Prop :=
  match s.collector with
  | .freeing _ => ∀ key, key ∈ toReCheck ↔ key ∈ s.countersToReCheck
  | .dropping _ _ _ => ∀ key, key ∈ toReCheck → key ∈ s.countersToReCheck
  | _ => toReCheck = []

structure Coupled (s : State) (weakRefs : Nat → WeakRef) (f : Found) (toReCheck : List Nat) :
    Prop where
  weakRefs : ∀ p, ¬ s.freed p → s.weakRefAgrees p (weakRefs p)
  found : ∀ it, s.collector.iter = some it →
    f.toFree = it.toFree ∧ (it.deep = true → f.newToReCheck = it.newToReCheck)
  reChecks : s.reChecks toReCheck

def foundAfter (f : Found) (key : Nat) : UpdateResult → Found
  | .done state => f.classify key state
  | _ => f

structure AccessedAt (cfg : Config) (env : Environment (List Nat)) (s : State) (k : Nat) :
    Prop where
  shards : env.shards = cfg.shards
  ptr : ∀ p, p < s.nextPointee → env.ptr p = (s.heap p).ptr
  countersPtr : ∀ p, p < s.nextPointee → env.countersPtr p = (s.heap p).countersPtr
  takePending : ∀ ks shard, env.takePending (k :: ks) shard = (s.pending shard,ks)
  traverse : ∀ ks, env.traverse (k :: ks) = (s.collector.hazard,ks)
  readShard : ∀ ks key j pc, pc.shard = some j →
    env.readShard (k :: ks) key j pc = (s.counters key j,ks)
  downgraded : ∀ ks p, env.downgraded (k :: ks) p =
    ((s.heap p).weakInnerRef.isInitialized,ks)
  free : ∀ ks p, env.free (k :: ks) p = (s.countersToReCheck.toList,ks)

/-- The step is one of `update`, or none: the same is left of the outer iteration. -/
def Replays (env : Environment (List Nat)) (k : Nat) (s s' : State) (weakRefs : Nat → WeakRef)
    (f : Found) (toReCheck : List Nat) : Prop :=
  ∃ accesses weakRefs' f' toReCheck', (accesses = [] ∨ accesses = [k]) ∧
    Coupled s' weakRefs' f' toReCheck' ∧
    ∀ ks, s.rest env f toReCheck (s.asCollector (accesses ++ ks) weakRefs) =
      s'.rest env f' toReCheck' (s'.asCollector ks weakRefs')

section Steps

variable {cfg : Config} {s s' : State} {env : Environment (List Nat)} {k : Nat}
  {weakRefs : Nat → WeakRef} {f : Found} {toReCheck : List Nat}

theorem Iter.classify_same (it : Iter) (key : Nat) (state : TrackedCounterState) :
    (it.classify key state).deep = it.deep ∧ (it.classify key state).round = it.round ∧
      (it.classify key state).hazard = it.hazard ∧ (it.classify key state).todo = it.todo := by
  cases state with
  | requiresReChecking =>
    simp only [Iter.classify]
    split <;> simp
  | _ => simp [Iter.classify]

theorem rest_resume (it : Iter) (key : Nat) (result : UpdateResult) (ks : List Nat) :
    env.restOfChecking MAX_INNER_ITERATIONS it.deep it.round it.hazard key it.todo f
        (env.restOfResult key (s.pointeeAt key) (s.asCollector ks weakRefs) result) =
      (s.resume it key result).rest env (foundAfter f key result) toReCheck
        ((s.resume it key result).asCollector ks weakRefs) := by
  cases result with
  | goto pc => rfl
  | panic site => rfl
  | done state =>
    obtain ⟨hdeep,hround,hhazard,htodo⟩ := it.classify_same key state
    simp only [State.resume,State.rest,State.goto,hdeep,hround,hhazard,htodo]
    rfl

theorem Coupled.resume {it : Iter} {key : Nat} {result : UpdateResult}
    (hfound : f.toFree = it.toFree ∧ (it.deep = true → f.newToReCheck = it.newToReCheck))
    (hweakRefs : ∀ p, ¬ (s.resume it key result).freed p →
      (s.resume it key result).weakRefAgrees p (weakRefs p)) :
    Coupled (s.resume it key result) weakRefs (foundAfter f key result) [] where
  weakRefs := hweakRefs
  found it' hit := by
    cases result with
    | goto pc =>
      obtain rfl := Option.some.inj hit
      exact hfound
    | panic site => contradiction
    | done state =>
      obtain rfl := Option.some.inj hit
      obtain ⟨htoFree,hnew⟩ := hfound
      cases state with
      | defaultState => exact ⟨htoFree,hnew⟩
      | readyToFree => exact ⟨by simp [foundAfter,Found.classify,Iter.classify,htoFree],hnew⟩
      | requiresReChecking =>
        cases hdeep : it.deep with
        | true =>
          simp only [foundAfter,Found.classify,Iter.classify,hdeep,if_true]
          exact ⟨htoFree,fun _ => by rw [hnew hdeep]⟩
        | false =>
          simp only [foundAfter,Found.classify,Iter.classify,hdeep,Bool.false_eq_true,if_false]
          exact ⟨htoFree,fun h => by simp at h⟩
  reChecks := by cases result <;> rfl

theorem Coupled.weakRefs_collector (h : Coupled s weakRefs f toReCheck)
    (htracking : Tracking cfg s) (hs : CollectorStep cfg s s')
    (hload : ∀ it key w, s.collector = .unlinking it key w →
      s'.load (.backRef w) = s.load (.backRef w)) (p : Nat) (hfreed : ¬ s'.freed p) :
    s'.weakRefAgrees p (weakRefs p) := by
  have hold : ¬ s.freed p := fun hp =>
    hfreed (SystemStep.freed_stays htracking (.collector _ hs) hp)
  exact (h.weakRefs p hold).collector htracking hs hold
    (fun it key w hc _ => hload it key w hc)

theorem rest_congr (hcollector : s'.collector = s.collector) (htracked : s'.tracked = s.tracked)
    (hnotify : s'.toNotify = s.toNotify) (ks : List Nat) :
    s'.rest env f toReCheck (s'.asCollector ks weakRefs) =
      s.rest env f toReCheck (s.asCollector ks weakRefs) := by
  simp only [State.rest,State.asCollector,State.pointeeAt,hcollector,htracked,hnotify]

theorem ThreadStep.replay {t : Nat} {op : Op} (ht : t < cfg.threads) (hsafe : Safe cfg s)
    (hlocal : Local s) (hs : ThreadStep cfg s t op s') (h : Coupled s weakRefs f toReCheck) :
    Replays env k s s' weakRefs f toReCheck := by
  refine ⟨[],weakRefs,f,toReCheck,.inl rfl,⟨fun p hp => ?_,fun it hit => ?_,?_⟩,fun ks =>
    (rest_congr hs.collector.1 hs.collector.2 hs.queues.2.1 ks).symm⟩
  · have hold : ¬ s.freed p := fun hfreed =>
      hp (SystemStep.freed_stays hsafe.tracking (.thread t op _ ht hs) hfreed)
    exact (h.weakRefs p hold).thread hsafe.references.weak hs
  · exact h.found it (hs.collector.1 ▸ hit)
  · have hr := h.reChecks
    unfold State.reChecks at hr ⊢
    rw [hs.collector.1]
    rcases hs.countersToReCheck with heq | ⟨hbusy,hmore⟩
    · rw [heq]
      exact hr
    · obtain ⟨it,p,hc⟩ := hlocal.busy hbusy
      rw [hc] at hr ⊢
      exact fun key hkey => hmore key (hr key hkey)

theorem Coupled.move (h : Coupled s weakRefs f toReCheck) {f' : Found} {toReCheck' : List Nat}
    (htracking : Tracking cfg s) (hs : CollectorStep cfg s s')
    (hc : ∀ it key w, s.collector ≠ .unlinking it key w)
    (hfound : ∀ it, s'.collector.iter = some it →
      f'.toFree = it.toFree ∧ (it.deep = true → f'.newToReCheck = it.newToReCheck))
    (hre : s'.reChecks toReCheck') : Coupled s' weakRefs f' toReCheck' :=
  ⟨h.weakRefs_collector htracking hs (fun it key w hunlinking => absurd hunlinking (hc it key w)),
    hfound,hre⟩

theorem State.pointeeAt_eq {key : Nat} {e : TrackedCounter} (he : s.tracked[key]? = some e) :
    s.pointeeAt key = e.pointee := by
  simp only [State.pointeeAt,he]

theorem Coupled.toReCheck_equiv {it : Iter} (h : Coupled s weakRefs f toReCheck)
    (hc : s.collector = .freeing it) (hdeep : it.deep = true) :
    (f.newToReCheck.insertMany toReCheck).Equiv (it.newToReCheck ∪ s.countersToReCheck) := by
  have hre := h.reChecks
  simp only [State.reChecks,hc] at hre
  refine .of_forall_mem_iff (fun key => ?_)
  rw [Std.TreeSet.mem_insertMany_list,List.contains_iff_mem,Std.TreeSet.mem_union_iff,hre key,
    (h.found it (by rw [hc]; rfl)).2 hdeep]

theorem State.collect_freed {it : Iter} (hc : s.collector = .freeing it) (hfree : it.toFree = [])
    (hs : s.collect cfg = some s') :
    if it.deep = true ∧ (it.newToReCheck ∪ s.countersToReCheck).isEmpty = false ∧
        it.round < MAX_INNER_ITERATIONS then
      s' = { s with countersToReCheck := ∅ }.startIteration true (it.round+1)
        (it.newToReCheck ∪ s.countersToReCheck).toList
    else s' = { s with countersToReCheck := ∅ }.endOuterIteration := by
  simp only [State.collect,hc,State.free,hfree,State.endIteration,Option.some.injEq] at hs
  subst hs
  split <;> rfl

theorem Safe.not_freed_of_tracked (h : Safe cfg s) {key : Nat} {e : TrackedCounter}
    (he : s.tracked[key]? = some e) : ¬ s.freed e.pointee := by
  simp [State.freed,(h.tracking.places.trackedOk key e he).1]

theorem Coupled.notInvolved (h : Coupled s weakRefs f toReCheck) {e : TrackedCounter}
    (haccess : AccessedAt cfg env s k) (hlive : ¬ s.freed e.pointee)
    (hnot : ∀ w, (s.heap e.pointee).weakInnerRef ≠ .initialized w) (ks : List Nat) :
    env.clearWeakBackRef e.pointee (s.asCollector (k :: ks) weakRefs) =
      (.weakRefNotInvolved,s.asCollector ks weakRefs) := by
  have hread : env.downgraded (k :: ks) e.pointee = (false,ks) := by
    rw [haccess.downgraded]
    cases hlock : (s.heap e.pointee).weakInnerRef with
    | initialized w => exact absurd hlock (hnot w)
    | _ => rfl
  refine Environment.clearWeakBackRef_notInvolved hread ?_
  have hagrees := h.weakRefs _ hlive
  cases hr : weakRefs e.pointee with
  | uninit => exact hr
  | cleared | linked =>
    rw [hr] at hagrees
    obtain ⟨w,hw,-⟩ := hagrees
    exact absurd hw (hnot w)

theorem Coupled.cleared (h : Coupled s weakRefs f toReCheck) {p w : Nat}
    (haccess : AccessedAt cfg env s k) (hlive : ¬ s.freed p)
    (hw : (s.heap p).weakInnerRef = .initialized w) (hload : s.load (.backRef w) ≠ none)
    (ks : List Nat) :
    env.clearWeakBackRef p (s.asCollector (k :: ks) weakRefs) =
      (.weakBackRefCleared,s.asCollector ks (Function.update weakRefs p .cleared)) := by
  refine Environment.clearWeakBackRef_cleared (m := ks) ((haccess.downgraded ks p).trans ?_)
    (fun hcleared => ?_)
  · rw [hw]
    rfl
  · have hagrees := h.weakRefs p hlive
    rw [show weakRefs p = .cleared from hcleared] at hagrees
    obtain ⟨x,hx,hnull⟩ := hagrees
    obtain rfl := OnceLock.initialized.inj (hw.symm.trans hx)
    exact hload hnull

theorem Coupled.alreadyNull (h : Coupled s weakRefs f toReCheck) {p w : Nat}
    (haccess : AccessedAt cfg env s k) (hlive : ¬ s.freed p)
    (hw : (s.heap p).weakInnerRef = .initialized w) (hload : s.load (.backRef w) = none)
    (ks : List Nat) :
    env.clearWeakBackRef p (s.asCollector (k :: ks) weakRefs) =
      (.weakBackRefWasAlreadyNull,s.asCollector ks weakRefs) := by
  refine Environment.clearWeakBackRef_alreadyNull (haccess.downgraded ks p) ?_
  have hagrees := h.weakRefs p hlive
  cases hr : weakRefs p with
  | cleared => exact hr
  | linked =>
    rw [hr] at hagrees
    obtain ⟨x,hx,hset⟩ := hagrees
    obtain rfl := OnceLock.initialized.inj (hw.symm.trans hx)
    rw [hload] at hset
    contradiction
  | uninit =>
    rw [hr] at hagrees
    have hset := hagrees w hw
    rw [hload] at hset
    contradiction

theorem Coupled.weakRefs_cleared (h : Coupled s weakRefs f toReCheck) {it : Iter} {key p w : Nat}
    (hsafe : Safe cfg s) (hs : CollectorStep cfg s s') (hc : s.collector = .unlinking it key w)
    (hw : (s.heap p).weakInnerRef = .initialized w) (hlive : ¬ s.freed p)
    (hnull : s'.load (.backRef w) = none) (q : Nat) (hfreed : ¬ s'.freed q) :
    s'.weakRefAgrees q (Function.update weakRefs p .cleared q) := by
  by_cases hq : q = p
  · subst hq
    rw [Function.update_self]
    exact ⟨w,(hs.weakInnerRef_stays hsafe.tracking hlive).trans hw,hnull⟩
  · have hold : ¬ s.freed q := fun hp =>
      hfreed (SystemStep.freed_stays hsafe.tracking (.collector _ hs) hp)
    rw [Function.update_of_ne hq]
    refine (h.weakRefs q hold).collector hsafe.tracking hs hold (fun it' key' x hc' hx => ?_)
    obtain ⟨-,-,rfl⟩ := CollectorPc.unlinking.inj (hc.symm.trans hc')
    have hweak := hsafe.references.weak
    exact absurd (weakInnerOf_unique (hweak.initialized p w hw) (hweak.initialized q w hx)) hq

theorem Coupled.replay_resume (h : Coupled s weakRefs f toReCheck) {it : Iter} (it' : Iter)
    {key : Nat} {result : UpdateResult} {accesses : List Nat} {weakRefs' : Nat → WeakRef}
    (hiter : s.collector.iter = some it') (htoFree : it.toFree = it'.toFree)
    (hdeep : it.deep = it'.deep) (hnew : it.newToReCheck = it'.newToReCheck)
    (haccesses : accesses = [] ∨ accesses = [k])
    (hweakRefs : ∀ p, ¬ (s.resume it key result).freed p →
      (s.resume it key result).weakRefAgrees p (weakRefs' p))
    (hrest : ∀ ks, s.rest env f toReCheck (s.asCollector (accesses ++ ks) weakRefs) =
      env.restOfChecking MAX_INNER_ITERATIONS it.deep it.round it.hazard key it.todo f
        (env.restOfResult key (s.pointeeAt key) (s.asCollector ks weakRefs') result)) :
    Replays env k s (s.resume it key result) weakRefs f toReCheck := by
  have hfound : f.toFree = it.toFree ∧ (it.deep = true → f.newToReCheck = it.newToReCheck) := by
    rw [htoFree,hdeep,hnew]
    exact h.found it' hiter
  exact ⟨accesses,weakRefs',foundAfter f key result,[],haccesses,.resume hfound hweakRefs,
    fun ks => (hrest ks).trans (rest_resume it key result ks)⟩

theorem Coupled.replay_taking (h : Coupled s weakRefs f toReCheck)
    (haccess : AccessedAt cfg env s k) (htracking : Tracking cfg s)
    (hpanic : ∀ site, s'.collector ≠ .panicked site) (hs : CollectorStep cfg s s') {j : Nat}
    {taken : List Entry} (hc : s.collector = .taking j taken) :
    Replays env k s s' weakRefs f toReCheck := by
  have hs' := hs
  have hre := h.reChecks
  simp only [State.reChecks,hc] at hre
  cases hs with
  | takePending shard hc hshard =>
    refine ⟨[k],weakRefs,f,toReCheck,.inr rfl,h.move htracking hs' (by simp [hc])
      (by simp [CollectorPc.iter]) hre,fun ks => ?_⟩
    simp only [State.rest,hc,State.takePending,State.asCollector,List.cons_append,List.nil_append]
    exact Environment.restOfTaking_take (haccess.shards ▸ hshard) (haccess.takePending ks shard)
  | track shard e rest hc hnone =>
    refine ⟨[],weakRefs,f,toReCheck,.inl rfl,h.move htracking hs' (by simp [hc])
      (by simp [CollectorPc.iter]) hre,fun ks => ?_⟩
    simp only [State.rest,hc,State.asCollector,List.nil_append]
    exact Environment.restOfTaking_insert hnone
  | startIteration shard hc hshard =>
    refine ⟨[],weakRefs,f,toReCheck,.inl rfl,h.move htracking hs' (by simp [hc])
      (by simp [CollectorPc.iter]) hre,fun ks => ?_⟩
    simp only [State.rest,hc,State.startIteration,State.goto,State.asCollector,List.nil_append]
    exact Environment.restOfTaking_done (haccess.shards ▸ hshard)
  | replaced => exact absurd rfl (hpanic _)
  | _ => cases hc.symm.trans ‹s.collector = _›

theorem Coupled.replay_traversing (h : Coupled s weakRefs f toReCheck)
    (haccess : AccessedAt cfg env s k) (htracking : Tracking cfg s) (hlocal : Local s)
    (hs : CollectorStep cfg s s') {it : Iter} {len r j : Nat}
    (hc : s.collector = .traversing it len r j) :
    Replays env k s s' weakRefs f toReCheck := by
  have hs' := hs
  have hre := h.reChecks
  simp only [State.reChecks,hc] at hre
  cases hs with
  | readEmptySlot it len r j hc | readSlot it len r j address hc | poll it len r j hc =>
    refine ⟨[],weakRefs,f,toReCheck,.inl rfl,h.move htracking hs' (by simp [hc])
      (by simp [CollectorPc.iter]) hre,fun ks => ?_⟩
    simp only [State.rest,hc,State.goto,State.asCollector,List.nil_append]
  | spin => exact ⟨[],weakRefs,f,toReCheck,.inl rfl,h,fun ks => rfl⟩
  | endTraversal it len r j hc =>
    refine ⟨[k],weakRefs,⟨∅,[]⟩,toReCheck,.inr rfl,h.move htracking hs' (by simp [hc])
      (fun it' hit => ?_) hre,fun ks => ?_⟩
    · obtain rfl := Option.some.inj hit
      exact ⟨(htracking.lists.traversing _ _ _ _ hc).symm,
        fun _ => (hlocal.fresh _ _ _ _ hc).symm⟩
    · simp only [State.rest,hc,State.goto,State.asCollector,List.cons_append,List.nil_append]
      refine Environment.restOfIteration_traverse ((haccess.traverse ks).trans ?_)
      simp only [hc,CollectorPc.hazard]
  | _ => cases hc.symm.trans ‹s.collector = _›

theorem Coupled.replay_visiting (h : Coupled s weakRefs f toReCheck)
    (haccess : AccessedAt cfg env s k) (htracking : Tracking cfg s) (hlocal : Local s)
    (hs : CollectorStep cfg s s') {i : Iter} (hc : s.collector = .visiting i) :
    Replays env k s s' weakRefs f toReCheck := by
  have hs' := hs
  have hre := h.reChecks
  simp only [State.reChecks,hc] at hre
  subst hre
  cases hs with
  | startFreeing it hc htodo =>
    refine ⟨[],weakRefs,f,[],.inl rfl,h.move htracking hs' (by simp [hc]) (fun it' hit => ?_)
      (fun key => ?_),fun ks => ?_⟩
    · exact h.found it' (by rw [hc]; exact hit)
    · have hempty := hlocal.dropped (by simp [hc,CollectorPc.frees]) key
      simp [hempty]
    · simp only [State.rest,hc,State.goto,State.asCollector,List.nil_append,htodo]
      exact Environment.restOfVisiting_nil
  | skip it key todo hc htodo hnone =>
    refine ⟨[],weakRefs,f,[],.inl rfl,h.move htracking hs' (by simp [hc])
      (fun it' hit => ?_) rfl,fun ks => ?_⟩
    · obtain rfl := Option.some.inj hit
      exact h.found it (by rw [hc]; rfl)
    · simp only [State.rest,hc,State.goto,State.asCollector,List.nil_append,htodo]
      exact Environment.restOfVisiting_skip hnone
  | hazard it key todo e hc htodo he hhazard =>
    have hborn := htracking.places.lt_nextPointee (p := e.pointee)
      (by simp [(htracking.places.trackedOk key e he).1])
    refine ⟨[],weakRefs,f,[],.inl rfl,h.move htracking hs' (by simp [hc])
      (fun it' hit => ?_) rfl,fun ks => ?_⟩
    · obtain rfl := Option.some.inj hit
      exact h.found it (by rw [hc]; rfl)
    · simp only [State.rest,hc,State.goto,State.asCollector,List.nil_append,htodo]
      exact Environment.restOfVisiting_hazard he (by rwa [haccess.ptr _ hborn])
  | startUpdate it key todo e hc htodo he hhazard =>
    have hborn := htracking.places.lt_nextPointee (p := e.pointee)
      (by simp [(htracking.places.trackedOk key e he).1])
    refine h.replay_resume it (by rw [hc]; rfl) rfl rfl rfl (.inl rfl)
      (h.weakRefs_collector htracking hs' (by simp [hc])) (fun ks => ?_)
    simp only [State.rest,hc,List.nil_append,htodo]
    rw [State.pointeeAt_eq he]
    exact Environment.restOfVisiting_update he (by rwa [haccess.ptr _ hborn])
  | _ => cases hc.symm.trans ‹s.collector = _›

theorem Coupled.replay_checking (h : Coupled s weakRefs f toReCheck)
    (haccess : AccessedAt cfg env s k) (hsafe : Safe cfg s) (hs : CollectorStep cfg s s')
    {i : Iter} {x : Nat} {pc : UpdatePc} (hc : s.collector = .checking i x pc) :
    Replays env k s s' weakRefs f toReCheck := by
  have hs' := hs
  have htracking := hsafe.tracking
  have hre := h.reChecks
  simp only [State.reChecks,hc] at hre
  subst hre
  cases hs with
  | readShard it key j pc hc hshard hlt hclears =>
    refine h.replay_resume it (by rw [hc]; rfl) rfl rfl rfl (.inr rfl)
      (h.weakRefs_collector htracking hs' (by simp [hc])) (fun ks => ?_)
    simp only [State.rest,hc,List.cons_append,List.nil_append]
    rw [Environment.restOfUpdate_visit hshard (haccess.shards ▸ hlt)
      (haccess.readShard ks key j pc hshard)]
    rfl
  | clearTag it key j sum hc hlt =>
    refine ⟨[k],weakRefs,f,[],.inr rfl,h.move htracking hs' (by simp [hc])
      (fun it' hit => ?_) rfl,fun ks => ?_⟩
    · obtain rfl := Option.some.inj hit
      exact h.found it (by rw [hc]; rfl)
    · simp only [State.rest,hc,List.cons_append,List.nil_append]
      rw [Environment.restOfUpdate_visit (k := j) rfl (haccess.shards ▸ hlt)
        (haccess.readShard ks key j _ rfl)]
      rfl
  | finishPass it key j pc hc hshard hge =>
    refine h.replay_resume it (by rw [hc]; rfl) rfl rfl rfl (.inl rfl)
      (h.weakRefs_collector htracking hs' (by simp [hc])) (fun ks => ?_)
    simp only [State.rest,hc,List.nil_append]
    rw [Environment.restOfUpdate_finish hshard (haccess.shards ▸ hge)]
  | untracked it key hc hnone =>
    obtain ⟨-,-,e,he,-⟩ := htracking.lists.currentOk key _ (by rw [hc]; rfl)
    rw [hnone] at he
    contradiction
  | foundWeakInner it key w e hc he hw =>
    refine ⟨[],weakRefs,f,[],.inl rfl,h.move htracking hs' (by simp [hc])
      (fun it' hit => ?_) rfl,fun ks => ?_⟩
    · exact h.found it' (by rw [hc]; exact hit)
    · simp only [State.rest,hc,State.goto,List.nil_append]
      rfl
  | weakRefNotInvolved it key e hc he hnot =>
    refine h.replay_resume it (by rw [hc]; rfl) rfl rfl rfl (.inr rfl)
      (h.weakRefs_collector htracking hs' (by simp [hc])) (fun ks => ?_)
    simp only [State.rest,hc,List.cons_append,List.nil_append]
    rw [State.pointeeAt_eq he,Environment.restOfUpdate_clearWeak
      (h.notInvolved haccess (hsafe.not_freed_of_tracked he) hnot ks)]
    rfl
  | _ => cases hc.symm.trans ‹s.collector = _›

theorem Coupled.replay_unlinking (h : Coupled s weakRefs f toReCheck)
    (haccess : AccessedAt cfg env s k) (hsafe : Safe cfg s) (hs : CollectorStep cfg s s')
    {i : Iter} {x y : Nat} (hc : s.collector = .unlinking i x y) :
    Replays env k s s' weakRefs f toReCheck := by
  have hs' := hs
  have hre := h.reChecks
  simp only [State.reChecks,hc] at hre
  subst hre
  cases hs with
  | weakBackRefCleared it key w origin p hc hdata =>
    obtain ⟨e,he,hw⟩ := hsafe.unlinking it key w hc
    have hlive := hsafe.not_freed_of_tracked he
    have hload : s.load (.backRef w) ≠ none := by
      rw [load_backRef.mpr ⟨origin,hdata⟩]
      simp
    refine ⟨[k],Function.update weakRefs e.pointee .cleared,
      foundAfter f key (.done .requiresReChecking),[],.inr rfl,
      .resume (h.found it (by rw [hc]; rfl))
        (h.weakRefs_cleared hsafe hs' hc hw hlive
          (by simp [State.load,(SameMemory.resume _ _ _).heap])),fun ks => ?_⟩
    rw [← rest_resume]
    simp only [State.rest,hc,List.cons_append,List.nil_append,State.pointeeAt_eq he]
    rw [Environment.restOfUpdate_clearWeak (h.cleared haccess hlive hw hload ks)]
    rfl
  | weakBackRefWasAlreadyNull it key w hc hnot =>
    obtain ⟨e,he,hw⟩ := hsafe.unlinking it key w hc
    have hload : s.load (.backRef w) = none := by
      cases hload : s.load (.backRef w) with
      | none => rfl
      | some p =>
        obtain ⟨origin,hdata⟩ := load_backRef.mp hload
        exact absurd hdata (hnot origin p)
    have hsame : ∀ it' key' x, s.collector = .unlinking it' key' x →
        (s.resume it key (.done .readyToFree)).load (.backRef x) = s.load (.backRef x) := by
      intro it' key' x _
      simp only [State.load,(SameMemory.resume _ _ _).heap]
    refine h.replay_resume it (by rw [hc]; rfl) rfl rfl rfl (.inr rfl)
      (h.weakRefs_collector hsafe.tracking hs' hsame) (fun ks => ?_)
    simp only [State.rest,hc,List.cons_append,List.nil_append]
    rw [State.pointeeAt_eq he,Environment.restOfUpdate_clearWeak
      (h.alreadyNull haccess (hsafe.not_freed_of_tracked he) hw hload ks)]
    rfl
  | _ => cases hc.symm.trans ‹s.collector = _›

theorem Coupled.replay_freeing (h : Coupled s weakRefs f toReCheck)
    (haccess : AccessedAt cfg env s k) (htracking : Tracking cfg s)
    (hpanic : ∀ site, s'.collector ≠ .panicked site) (hcollect : s.collect cfg = some s')
    (hparked' : s'.collector ≠ .parked) {i : Iter} (hc : s.collector = .freeing i) :
    Replays env k s s' weakRefs f toReCheck := by
  have hs' := State.collect_step hcollect
  have hre := h.reChecks
  simp only [State.reChecks,hc] at hre
  cases State.collect_step hcollect with
  | nextIteration it hc hfree hdeep hround =>
    have hgoes := State.collect_freed hc hfree hcollect
    split at hgoes
    · rename_i hcont
      have hequiv := h.toReCheck_equiv hc hdeep
      have hf : f = ⟨f.newToReCheck,[]⟩ := by
        rw [← hfree,← (h.found it (by rw [hc]; rfl)).1]
      refine ⟨[],weakRefs,f,[],.inl rfl,h.move htracking hs' (by simp [hc])
        (by simp [CollectorPc.iter]) rfl,fun ks => ?_⟩
      simp only [State.rest,hc,State.startIteration,State.goto,List.nil_append,hdeep]
      rw [hf,Environment.restOfFreeing_nil,Environment.restOfLoop_next
        (hequiv.isEmpty_eq.trans hcont.2.1) hround,hequiv.toList_eq]
      rfl
    · exact absurd (hgoes ▸ rfl) hparked'
  | endOuterIteration => exact absurd rfl hparked'
  | removedUntracked | notReadyToFree | countersPtrMismatch => exact absurd rfl (hpanic _)
  | free it key toFree e hc hfree he hready hptr =>
    have hborn := htracking.places.lt_nextPointee (p := e.pointee)
      (by simp [(htracking.places.trackedOk key e he).1])
    obtain ⟨htoFree,hnew⟩ := h.found it (by rw [hc]; rfl)
    refine ⟨[],weakRefs,⟨f.newToReCheck,toFree⟩,toReCheck,.inl rfl,h.move htracking hs'
      (by simp [hc]) (fun it' hit => ?_) (fun key hkey => (hre key).mp hkey),fun ks => ?_⟩
    · obtain rfl := Option.some.inj hit
      exact ⟨rfl,hnew⟩
    · have hf : f = ⟨f.newToReCheck,key :: toFree⟩ := by rw [← hfree,← htoFree]
      simp only [State.rest,hc,List.nil_append]
      rw [hf,Environment.restOfFreeing_free he hready
        ((haccess.countersPtr _ hborn).trans hptr) rfl]
      rfl
  | _ => cases hc.symm.trans ‹s.collector = _›

theorem Coupled.replay_dropping (h : Coupled s weakRefs f toReCheck)
    (haccess : AccessedAt cfg env s k) (htracking : Tracking cfg s)
    (hs : CollectorStep cfg s s') {i : Iter} {x : Nat} {phase : DropPhase}
    (hc : s.collector = .dropping i x phase) : Replays env k s s' weakRefs f toReCheck := by
  have hs' := hs
  have hre := h.reChecks
  simp only [State.reChecks,hc] at hre
  cases hs with
  | dropCounters it p hc | dropWeakInnerRef it p w hc | noWeakInnerRef it p hc
  | dropWeakSdarcInner it p origin backRef hc =>
    refine ⟨[],weakRefs,f,toReCheck,.inl rfl,h.move htracking hs' (by simp [hc])
      (fun it' hit => h.found it' (by rw [hc]; exact hit)) hre,fun ks => ?_⟩
    simp only [State.rest,hc,List.nil_append]
    rfl
  | dropMemory it p hc =>
    refine ⟨[k],weakRefs,f,toReCheck ++ s.countersToReCheck.toList,.inr rfl,
      h.move htracking hs' (by simp [hc]) (fun it' hit => h.found it' (by rw [hc]; exact hit))
      (fun key => ?_),fun ks => ?_⟩
    · simp only [List.mem_append,Std.TreeSet.mem_toList]
      exact ⟨fun hmem => hmem.elim (hre key) id,.inr⟩
    · have hfree := haccess.free ks p
      simp only [State.rest,hc,State.asCollector,State.goto,List.cons_append,List.nil_append,hfree]
      rfl
  | _ => cases hc.symm.trans ‹s.collector = _›

theorem CollectorStep.replay (haccess : AccessedAt cfg env s k) (hsafe : Safe cfg s)
    (hsafe' : Safe cfg s') (hlocal : Local s) (hcollect : s.collect cfg = some s')
    (hparked : s.collector ≠ .parked) (hparked' : s'.collector ≠ .parked)
    (h : Coupled s weakRefs f toReCheck) : Replays env k s s' weakRefs f toReCheck := by
  have hs := State.collect_step hcollect
  have hpanic := hsafe'.notPanicked
  cases hc : s.collector with
  | parked => exact absurd hc hparked
  | taking shard taken => exact h.replay_taking haccess hsafe.tracking hpanic hs hc
  | traversing it len r j => exact h.replay_traversing haccess hsafe.tracking hlocal hs hc
  | visiting it => exact h.replay_visiting haccess hsafe.tracking hlocal hs hc
  | checking it key pc => exact h.replay_checking haccess hsafe hs hc
  | unlinking it key w => exact h.replay_unlinking haccess hsafe hs hc
  | freeing it => exact h.replay_freeing haccess hsafe.tracking hpanic hcollect hparked' hc
  | dropping it p phase => exact h.replay_dropping haccess hsafe.tracking hs hc
  | panicked site => exact absurd hc (hsafe.notPanicked site)

end Steps

end Sdarc.System
