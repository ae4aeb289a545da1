import Sdarc.System.Progress
set_option autoImplicit false

/-!
Deadlocks. A thread in an operation waits at most for a thread that can move, or for the
collector. The collector waits for its own destructors only; one that itself waits for the
collector is never over.
-/

namespace Sdarc.System
open Transition

def State.attended (s : State) : Prop :=
  ∀ p u, (s.heap p).weakInnerRef = .running u → (s.threads u).pc.initializes p

structure Queued (s : State) : Prop where
  parked : s.collector = .parked → s.toNotify = []
  waiting : ∀ t, (s.threads t).pc = .waiting → t ∈ s.collectionWaiting ∨ t ∈ s.toNotify

def State.canMove (cfg : Config) (s : State) (t : Nat) : Prop :=
  ∃ op s', step cfg s (.thread t op) = some s'

/-- Thread `t` waits for another one to initialize the `OnceLock` of a pointee, and that one
can take a step. -/
def State.waitsForInit (cfg : Config) (s : State) (t : Nat) : Prop :=
  ∃ p u, (s.threads t).pc = .getOrInit p ∧ (s.heap p).weakInnerRef = .running u ∧ u ≠ t ∧
    s.canMove cfg u

section Steps

variable {cfg : Config} {s s' : State} {t : Nat} {op : Op}

theorem ThreadStep.initializes (hs : ThreadStep cfg s t op s') {p : Nat}
    (hp : (s.threads t).pc.initializes p) :
    (s'.threads t).pc.initializes p ∨ ∃ w, (s'.heap p).weakInnerRef = .initialized w := by
  have hidle : (s.threads t).pc ≠ .idle :=
    fun hidle => by simp [hidle,ThreadPc.initializes] at hp
  cases hs with
  | newWeakInner ptr countersPtr shard q hpc =>
    exact .inl (by simpa [hpc,ThreadPc.initializes] using hp)
  | registerWeakInner shard q x hpc =>
    exact .inl (by simpa [hpc,ThreadPc.initializes] using hp)
  | setWeakInner q x hpc =>
    obtain rfl : q = p := by simpa [hpc,ThreadPc.initializes] using hp
    exact .inr ⟨x,by simp⟩
  | stay | releaseFailed => exact .inl hp
  | obtain | recordUsed | claimRecord | pushRecord => exact .inl (by simpa using hp)
  | sdarcNew _ _ _ _ hstart | clone _ _ hstart | dropHandle _ hstart | swap _ _ _ hstart
  | store _ _ _ hstart | loadOwned _ hstart | syncTo _ _ hstart | borrow _ _ hstart
  | dropGuard _ _ _ hstart | release _ hstart | setNull _ _ hstart | compareAndSet _ _ _ hstart
  | downgrade _ hstart | collectorUpdateNowAndWait hstart => exact absurd hstart.1 hidle
  | _ => simp_all [ThreadPc.initializes]

theorem ThreadStep.running (hs : ThreadStep cfg s t op s') {p u : Nat}
    (hp : (s'.heap p).weakInnerRef = .running u) :
    (s.heap p).weakInnerRef = .running u ∨ u = t ∧ (s'.threads t).pc.initializes p := by
  cases hs with
  | sdarcNew | newWeakInner =>
    by_cases hnew : p = s.nextPointee
    · simp [hnew] at hp
    · exact .inl (by simpa [hnew] using hp)
  | startInit q hpc =>
    by_cases hq : p = q
    · subst hq
      exact .inr ⟨by simpa [eq_comm] using hp,by simp [ThreadPc.initializes]⟩
    · exact .inl (by simpa [hq] using hp)
  | setWeakInner q w hpc =>
    by_cases hq : p = q
    · subst hq
      simp at hp
    · exact .inl (by simpa [hq] using hp)
  | _ => exact .inl hp

theorem State.attended.thread (h : s.attended) (hs : ThreadStep cfg s t op s') :
    s'.attended := by
  intro p u hp
  rcases hs.running hp with hold | ⟨rfl,hinit⟩
  · by_cases hu : u = t
    · subst hu
      refine (hs.initializes (h p u hold)).resolve_right (fun ⟨w,hw⟩ => ?_)
      rw [hp] at hw
      contradiction
    · rw [hs.others hu]
      exact h p u hold
  · exact hinit

theorem CollectorStep.running (hs : CollectorStep cfg s s') {p u : Nat}
    (hp : (s'.heap p).weakInnerRef = .running u) : (s.heap p).weakInnerRef = .running u := by
  cases hs with
  | dropWeakInnerRef it q w =>
    by_cases hq : p = q
    · subst hq
      simp at hp
    · simpa [hq] using hp
  | free it key toFree e | dropCounters it q | dropMemory it q =>
    exact (field_update SdarcInner.weakInnerRef (by rfl) p).symm.trans hp
  | weakBackRefCleared it key w =>
    rw [(SameMemory.resume _ _ _).heap] at hp
    exact (field_update SdarcInner.weakInnerRef (by rfl) p).symm.trans hp
  | startUpdate | readShard | finishPass | weakRefNotInvolved | weakBackRefWasAlreadyNull =>
    rwa [(SameMemory.resume _ _ _).heap] at hp
  | _ => exact hp

theorem State.attended.collector (h : s.attended) (hs : CollectorStep cfg s s') :
    s'.attended := by
  intro p u hp
  have hold := h p u (hs.running hp)
  rcases (hs.thread u).2 with heq | ⟨hpc,-⟩ | ⟨hpc,-⟩
  · rw [heq]
    exact hold
  · simp [hpc,ThreadPc.initializes] at hold
  · simp [hpc,ThreadPc.initializes] at hold

theorem SystemStep.attended {a : Action} (h : s.attended) (hs : SystemStep cfg s a s') :
    s'.attended := by
  cases hs with
  | thread t op _ _ hs => exact h.thread hs
  | collector _ hs => exact h.collector hs
  | finishDestructor => exact h

theorem ThreadStep.waiting (hs : ThreadStep cfg s t op s')
    (hwait : (s'.threads t).pc = .waiting) :
    (s.threads t).pc = .waiting ∨ s.canStart t ∧ t ∈ s'.collectionWaiting := by
  cases hs with
  | collectorUpdateNowAndWait hstart => exact .inr ⟨hstart,by simp⟩
  | stay | releaseFailed | clone | swap | setNull => exact .inl hwait
  | obtain | recordUsed | claimRecord | pushRecord | dropGuard | release =>
    exact .inl (by simpa using hwait)
  | _ => simp at hwait

theorem ThreadStep.waiting_stays (hs : ThreadStep cfg s t op s')
    (hwait : (s.threads t).pc = .waiting) : (s'.threads t).pc = .waiting := by
  have hidle : (s.threads t).pc ≠ .idle := by simp [hwait]
  cases hs with
  | stay | releaseFailed => exact hwait
  | obtain | recordUsed | claimRecord | pushRecord => simpa using hwait
  | sdarcNew _ _ _ _ hstart | clone _ _ hstart | dropHandle _ hstart | swap _ _ _ hstart
  | store _ _ _ hstart | loadOwned _ hstart | syncTo _ _ hstart | borrow _ _ hstart
  | dropGuard _ _ _ hstart | release _ hstart | setNull _ _ hstart | compareAndSet _ _ _ hstart
  | downgrade _ hstart | collectorUpdateNowAndWait hstart => exact absurd hstart.1 hidle
  | _ => simp_all

theorem ThreadStep.queues (hs : ThreadStep cfg s t op s') :
    s.collectionWaiting ⊆ s'.collectionWaiting ∧ s'.toNotify = s.toNotify ∧
      s'.destructors = s.destructors := by
  cases hs <;> simp

theorem Queued.thread (h : Queued s) (hs : ThreadStep cfg s t op s') : Queued s' where
  parked hc := by
    rw [hs.queues.2.1]
    exact h.parked (hs.collector.1 ▸ hc)
  waiting u hu := by
    have hold : (s.threads u).pc = .waiting ∨ u ∈ s'.collectionWaiting := by
      by_cases hut : u = t
      · subst hut
        exact (hs.waiting hu).imp id And.right
      · rw [hs.others hut] at hu
        exact .inl hu
    rcases hold with hold | hnew
    · rw [hs.queues.2.1]
      exact (h.waiting u hold).imp (fun hmem => hs.queues.1 hmem) id
    · exact .inl hnew

theorem resume_queues (it : Iter) (key : Nat) (result : UpdateResult) :
    (s.resume it key result).collector ≠ .parked ∧
      (s.resume it key result).collectionWaiting = s.collectionWaiting ∧
      (s.resume it key result).toNotify = s.toNotify := by
  cases result <;> simp [State.resume]

theorem CollectorStep.waiting (hs : CollectorStep cfg s s') (hwait : (s'.threads t).pc = .waiting) :
    (s.threads t).pc = .waiting := by
  rcases (hs.thread t).2 with heq | ⟨hpc,-⟩ | ⟨-,w,hdrop⟩
  · rwa [← heq]
  · exact hpc
  · rw [hdrop] at hwait
    contradiction

theorem Queued.collector (h : Queued s) (hs : CollectorStep cfg s s') : Queued s' := by
  have hold : ∀ u, (s'.threads u).pc = .waiting → (s.threads u).pc = .waiting :=
    fun _ => hs.waiting
  have hwaiting : ∀ u, (s'.threads u).pc = .waiting → u ∈ s.collectionWaiting ∨ u ∈ s.toNotify :=
    fun u hu => h.waiting u (hold u hu)
  cases hs with
  | wake hc =>
    refine ⟨by simp,fun u hu => .inr ?_⟩
    simpa [h.parked hc] using hwaiting u hu
  | endOuterIteration it hc =>
    refine ⟨by simp,fun u hu => ?_⟩
    rcases hwaiting u hu with hmem | hmem
    · exact .inl hmem
    · simp [hmem,hold u hu] at hu
  | weakBackRefCleared it key w origin p hc hdata =>
    obtain ⟨hc',hcollection,hnotify⟩ := resume_queues (s := s.setInner w
      { s.heap w with data := .weakSdarcInner origin none }) it key (.done .requiresReChecking)
    refine ⟨fun hparked => absurd hparked hc',fun u hu => ?_⟩
    rw [hcollection,hnotify]
    exact hwaiting u hu
  | startUpdate | readShard | finishPass | weakRefNotInvolved | weakBackRefWasAlreadyNull =>
    refine ⟨fun hparked => absurd hparked (resume_queues _ _ _).1,fun u hu => ?_⟩
    rw [(resume_queues _ _ _).2.1,(resume_queues _ _ _).2.2]
    exact hwaiting u hu
  | spin it len r j hc =>
    exact ⟨fun hparked => by simp [hc] at hparked,hwaiting⟩
  | _ => exact ⟨fun hparked => by simp at hparked,hwaiting⟩

theorem SystemStep.queued {a : Action} (h : Queued s) (hs : SystemStep cfg s a s') :
    Queued s' := by
  cases hs with
  | thread t op _ _ hs => exact h.thread hs
  | collector _ hs => exact h.collector hs
  | finishDestructor => exact ⟨fun hparked => by simp at hparked,h.waiting⟩

end Steps

section Enabled

variable {cfg : Config} {s : State} {t : Nat}

theorem canAllocate_exists (s : State) : ∃ ptr countersPtr, s.canAllocate ptr countersPtr := by
  refine ⟨∑ q ∈ Finset.range s.nextPointee, (s.heap q).ptr + 1,
    ∑ q ∈ Finset.range s.nextPointee, (s.heap q).countersPtr + 1,fun q hq => ⟨.inr ?_,.inr ?_⟩⟩
  · have := le_sum_range (fun q => (s.heap q).countersPtr) hq
    omega
  · have := le_sum_range (fun q => (s.heap q).ptr) hq
    omega

theorem canMove_of_run (op : Op) (ht : t < cfg.threads) (h : (op.run cfg s t).isSome = true) :
    s.canMove cfg t := by
  obtain ⟨s',hs⟩ := Option.isSome_iff_exists.mp h
  exact ⟨op,s',by simp only [step,if_pos ht,hs]⟩

theorem initializes_canMove {p : Nat} (ht : t < cfg.threads) (hshards : 0 < cfg.shards)
    (hp : (s.threads t).pc.initializes p) : s.canMove cfg t := by
  obtain ⟨ptr,countersPtr,hfresh⟩ := canAllocate_exists s
  cases hpc : (s.threads t).pc with
  | newWeakInner q =>
    exact canMove_of_run (.newWeakInner ptr countersPtr 0) ht
      (by simp [Op.run,State.newWeakInner,hpc,hfresh,hshards])
  | registerWeakInner q w =>
    exact canMove_of_run (.registerWeakInner 0) ht
      (by simp [Op.run,State.registerWeakInner,hpc,hshards])
  | setWeakInner q w =>
    exact canMove_of_run .setWeakInner ht (by simp [Op.run,State.setWeakInner,hpc])
  | _ => simp [hpc,ThreadPc.initializes] at hp

theorem Safe.canMove (h : Safe cfg s) (hattended : s.attended) (hshards : 0 < cfg.shards)
    (hidle : (s.threads t).pc ≠ .idle) (hwait : (s.threads t).pc ≠ .waiting) :
    s.canMove cfg t ∨ s.waitsForInit cfg t := by
  have ht := h.references.handles.thread_lt hidle
  cases hreads : (s.threads t).pc.reads with
  | true =>
    obtain ⟨op,s',hop⟩ := h.references.records.read_enabled hshards hreads
    exact .inl (canMove_of_run op ht (by rw [hop]; rfl))
  | false =>
    cases hpc : (s.threads t).pc with
    | idle => exact absurd hpc hidle
    | waiting => exact absurd hpc hwait
    | registerNew p =>
      exact .inl (canMove_of_run (.onNewSdarcAllocated 0) ht
        (by simp [Op.run,State.onNewSdarcAllocated,hpc,hshards]))
    | drop p =>
      exact .inl (canMove_of_run (.dropLoad 0) ht (by simp [Op.run,State.dropLoad,hpc,hshards]))
    | dropExchange p shard value =>
      refine .inl (canMove_of_run (.dropExchange false) ht ?_)
      simp only [Op.run,State.dropExchange,hpc]
      split <;> rfl
    | incrementThenSet p original =>
      exact .inl (canMove_of_run (.incrementThenSet 0) ht
        (by simp [Op.run,State.incrementThenSet,hpc,hshards]))
    | getOrInit p =>
      cases hweak : (s.heap p).weakInnerRef with
      | uninit =>
        exact .inl (canMove_of_run .getOrInit ht (by simp [Op.run,State.getOrInit,hpc,hweak]))
      | initialized w =>
        exact .inl (canMove_of_run .getOrInit ht (by simp [Op.run,State.getOrInit,hpc,hweak]))
      | running u =>
        have hinit := hattended p u hweak
        refine .inr ⟨p,u,hpc,hweak,?_,initializes_canMove ?_ hshards hinit⟩
        · rintro rfl
          simp [hpc,ThreadPc.initializes] at hinit
        · refine h.references.handles.thread_lt (fun hu => ?_)
          simp [hu,ThreadPc.initializes] at hinit
    | newWeakInner p | registerWeakInner p w | setWeakInner p w =>
      exact .inl (initializes_canMove ht hshards (p := p) (by simp [hpc,ThreadPc.initializes]))
    | cloneWeakInner p w =>
      exact .inl (canMove_of_run (.cloneWeakInner 0) ht
        (by simp [Op.run,State.cloneWeakInner,hpc,hshards]))
    | _ => simp [hpc,ThreadPc.reads] at hreads

theorem collector_canMove (hidle : (s.threads 0).pc = .idle)
    (hpanic : ∀ site, s.collector ≠ .panicked site) :
    (step cfg s .collector).isSome = true ∨
      (step cfg s (.finishDestructor false)).isSome = true := by
  cases hc : s.collector with
  | panicked site => exact absurd hc (hpanic site)
  | taking shard taken =>
    left
    cases taken with
    | nil =>
      simp only [step,State.collect,hc]
      split <;> rfl
    | cons e rest => simp [step,State.collect,hc]
  | dropping it p phase =>
    cases phase with
    | counters | memory => simp [step,State.collect,hc,State.dropInner]
    | weakInnerRef =>
      left
      cases hweak : (s.heap p).weakInnerRef <;>
        simp [step,State.collect,hc,State.dropInner,hweak,hidle]
    | data =>
      cases hdata : (s.heap p).data with
      | user borrows =>
        right
        simp [step,State.finishDestructor,hc,State.isWeakSdarcInner,hdata,hidle]
      | weakSdarcInner origin backRef =>
        left
        simp [step,State.collect,hc,State.dropInner,hdata,hidle]
  | _ => simp [step,State.collect,hc]

end Enabled

section Deadlock

variable {cfg : Config} {s s' : State} {t : Nat} {a : Action}

/-- A destructor waits for the collector that runs it. -/
def State.deadlocked (s : State) : Prop :=
  (s.threads 0).pc = .waiting ∧ s.inUserDestructor = true

theorem State.inUserDestructor_iff (s : State) : s.inUserDestructor = true ↔
    ∃ it p, s.collector = .dropping it p .data ∧ s.isWeakSdarcInner p = false := by
  unfold State.inUserDestructor
  split
  · rename_i it p hc
    simp [hc]
  · rename_i hc
    simp only [Bool.false_eq_true,false_iff,not_exists,not_and]
    exact fun it p heq => absurd heq (hc it p)

structure SameCollector (s s' : State) : Prop where
  collector : s'.collector = s.collector
  tracked : s'.tracked = s.tracked
  destructors : s'.destructors = s.destructors
  waiting : ∀ t, (s.threads t).pc = .waiting → (s'.threads t).pc = .waiting

theorem SameCollector.refl (s : State) : SameCollector s s :=
  ⟨rfl,rfl,rfl,fun _ ht => ht⟩

theorem SameCollector.trans {s'' : State} (h : SameCollector s s') (h' : SameCollector s' s'') :
    SameCollector s s'' :=
  ⟨h'.collector.trans h.collector,h'.tracked.trans h.tracked,h'.destructors.trans h.destructors,
    fun t ht => h'.waiting t (h.waiting t ht)⟩

theorem ThreadStep.sameCollector {op : Op} (hs : ThreadStep cfg s t op s') :
    SameCollector s s' where
  collector := hs.collector.1
  tracked := hs.collector.2
  destructors := hs.queues.2.2
  waiting u hu := by
    by_cases hut : u = t
    · subst hut
      exact hs.waiting_stays hu
    · rwa [hs.others hut]

theorem ThreadStep.inUserDestructor {op : Op} (htracking : Tracking cfg s)
    (hs : ThreadStep cfg s t op s') (h : s.inUserDestructor = true) :
    s'.inUserDestructor = true := by
  obtain ⟨it,p,hc,huser⟩ := (State.inUserDestructor_iff s).mp h
  refine (State.inUserDestructor_iff s').mpr ⟨it,p,hs.collector.1.trans hc,?_⟩
  have hborn : p < s.nextPointee :=
    htracking.places.lt_nextPointee (by simp [htracking.lists.dropping it p _ hc])
  unfold State.isWeakSdarcInner at huser ⊢
  rw [hs.data (.inl hborn.ne)]
  exact huser

def Thread.scansFor (th : Thread) : Prop :=
  ∀ len next, th.record = .scanning len next → th.pc.needsRecord = true

theorem ThreadStep.scansFor {op : Op} (hs : ThreadStep cfg s t op s')
    (h : (s.threads t).scansFor) : (s'.threads t).scansFor := by
  intro len next hrec
  by_cases hstart : s.canStart t
  · have hnone : ∀ len next, (s.threads t).record ≠ .scanning len next := by
      intro len next hscan
      have hneeds := h len next hscan
      rw [hstart.1] at hneeds
      contradiction
    have hidle := hstart.1
    cases hs with
    | obtain _ hneeds =>
      rw [hidle] at hneeds
      contradiction
    | _ => simp_all
  · cases hs with
    | obtain _ hneeds => simpa using hneeds
    | _ => simp_all [Thread.scansFor,ThreadPc.needsRecord]

theorem SystemStep.scansFor (h : ∀ u, (s.threads u).scansFor) (hs : SystemStep cfg s a s')
    (u : Nat) : (s'.threads u).scansFor := by
  cases hs with
  | thread t op _ _ hs =>
    by_cases hut : u = t
    · exact hut ▸ hs.scansFor (h t)
    · rw [hs.others hut]
      exact h u
  | collector _ hs =>
    intro len next hrec
    rw [hs.sameRecord.record] at hrec
    have hneeds := h u len next hrec
    rcases (hs.thread u).2 with heq | ⟨hpc,-⟩ | ⟨hpc,-⟩
    · rwa [heq]
    · rw [hpc] at hneeds
      contradiction
    · rw [hpc] at hneeds
      contradiction
  | finishDestructor => exact h u

theorem ThreadStep.not_waiting {op : Op} (hs : ThreadStep cfg s t op s')
    (h : (s.threads t).scansFor) : (s.threads t).pc ≠ .waiting := by
  intro hwait
  have hidle : ¬ s.canStart t := fun hstart => by simp [hstart.1] at hwait
  cases hs with
  | obtain _ hneeds =>
    rw [hwait] at hneeds
    contradiction
  | _ => simp_all [Thread.scansFor,ThreadPc.needsRecord]

structure Waits (cfg : Config) (s : State) : Prop where
  tracking : Tracking cfg s
  scans : ∀ t, (s.threads t).scansFor
  /-- Only a destructor can make the collector's thread wait. -/
  destructor : (s.threads 0).pc = .waiting → s.inUserDestructor = true

theorem waits_initial (cfg : Config) : Waits cfg .initial where
  tracking := tracking_initial cfg
  scans _ _ _ hrec := by simp [State.initial] at hrec
  destructor hwait := by simp [State.initial] at hwait

theorem SystemStep.deadlocked (hw : Waits cfg s) (h : s.deadlocked)
    (hs : SystemStep cfg s a s') :
    (∃ t op, t ≠ 0 ∧ a = .thread t op) ∧ s'.deadlocked ∧ SameCollector s s' := by
  obtain ⟨hwait,hin⟩ := h
  obtain ⟨it,p,hc,huser⟩ := (State.inUserDestructor_iff s).mp hin
  cases hs with
  | thread t op _ _ hs =>
    have ht : t ≠ 0 := by
      rintro rfl
      exact hs.not_waiting (hw.scans 0) hwait
    exact ⟨⟨t,op,ht,rfl⟩,
      ⟨hs.sameCollector.waiting 0 hwait,hs.inUserDestructor hw.tracking hin⟩,hs.sameCollector⟩
  | collector _ hs =>
    cases hs with
    | dropWeakSdarcInner it' p' origin backRef hc' hdata hidle =>
      rw [hwait] at hidle
      contradiction
    | spin _ _ _ _ hc' => simp [hc] at hc'
    | _ => simp_all
  | finishDestructor _ _ _ _ _ hidle =>
    rw [hwait] at hidle
    contradiction

theorem SystemStep.destructor_waits (hw : Waits cfg s) (hs : SystemStep cfg s a s')
    (hwait : (s'.threads 0).pc = .waiting) : s'.inUserDestructor = true := by
  by_cases hold : (s.threads 0).pc = .waiting
  · exact (hs.deadlocked hw ⟨hold,hw.destructor hold⟩).2.1.2
  · cases hs with
    | thread t op _ _ hs =>
      by_cases ht : t = 0
      · subst ht
        obtain ⟨hstart,-⟩ := (hs.waiting hwait).resolve_left hold
        exact hs.inUserDestructor hw.tracking (hstart.2 rfl)
      · rw [hs.others (Ne.symm ht)] at hwait
        exact absurd hwait hold
    | collector _ hs => exact absurd (hs.waiting hwait) hold
    | finishDestructor => exact absurd hwait hold

theorem SystemStep.waits (hw : Waits cfg s) (hs : SystemStep cfg s a s') : Waits cfg s' :=
  ⟨hw.tracking.step hs,hs.scansFor hw.scans,hs.destructor_waits hw⟩

theorem destructor_waits_of_reach {ok : State → Action → Prop}
    (h : Reach (step cfg) ok .initial s) (hwait : (s.threads 0).pc = .waiting) :
    s.deadlocked := by
  have hw : Waits cfg s := h.invariant (Waits cfg) (waits_initial cfg)
    (fun _ _ _ hprev _ hs => (step_cases hs).waits hprev)
  exact ⟨hwait,hw.destructor hwait⟩

/-- Nobody is stuck. A thread in an operation can move, or waits for one that initializes a
`OnceLock` and can move, or has a request that is queued or being served. The collector can
move, or its thread can, or that one waits for a thread that can; or a destructor waits for
the collector. -/
theorem nobody_stuck (h : Reach (step cfg) (State.covered cfg) .initial s)
    (hshards : 0 < cfg.shards) :
    (∀ t, (s.threads t).pc ≠ .idle → s.canMove cfg t ∨ s.waitsForInit cfg t ∨
      (s.threads t).pc = .waiting ∧ (t ∈ s.collectionWaiting ∨ t ∈ s.toNotify)) ∧
    ((step cfg s .collector).isSome = true ∨
      (step cfg s (.finishDestructor false)).isSome = true ∨ s.canMove cfg 0 ∨
      s.waitsForInit cfg 0 ∨ s.deadlocked) := by
  have hsafe := safe_of_reach h
  obtain ⟨hattended,hqueued⟩ := h.invariant (fun s => s.attended ∧ Queued s)
    ⟨fun p u hp => by simp [State.initial] at hp,⟨fun _ => rfl,fun t ht => by
      simp [State.initial] at ht⟩⟩
    (fun _ _ _ hprev _ hs => ⟨(step_cases hs).attended hprev.1,(step_cases hs).queued hprev.2⟩)
  have hmove : ∀ t, (s.threads t).pc ≠ .idle → (s.threads t).pc ≠ .waiting →
      s.canMove cfg t ∨ s.waitsForInit cfg t :=
    fun t => hsafe.canMove hattended hshards
  refine ⟨fun t hidle => ?_,?_⟩
  · by_cases hwait : (s.threads t).pc = .waiting
    · exact .inr (.inr ⟨hwait,hqueued.waiting t hwait⟩)
    · exact (hmove t hidle hwait).imp id .inl
  · by_cases hidle : (s.threads 0).pc = .idle
    · exact (collector_canMove hidle hsafe.notPanicked).imp id .inl
    · by_cases hwait : (s.threads 0).pc = .waiting
      · exact .inr (.inr (.inr (.inr (destructor_waits_of_reach h hwait))))
      · exact .inr (.inr ((hmove 0 hidle hwait).imp id .inl))

/-- Thread 1 initializes the `OnceLock`, thread 2 waits for it, and thread 3 for the collector. -/
def initAndWait : List Action :=
  [.thread 1 (.sdarcNew 10 100 0 []),.thread 1 (.onNewSdarcAllocated 0),.thread 1 (.downgrade 0),
    .thread 1 .getOrInit,.thread 2 (.downgrade 0),.thread 3 .collectorUpdateNowAndWait]

theorem initAndWait_notStuck : ∃ s : State, s.collectionWaiting = [3] ∧
    (s.threads 2).pc = .getOrInit 0 ∧ (s.heap 0).weakInnerRef = .running 1 ∧
    (s.canMove ⟨1,4,1,by decide⟩ 2 ∨ s.waitsForInit ⟨1,4,1,by decide⟩ 2) := by
  have hsome : (run (guarded (step ⟨1,4,1,by decide⟩) (State.covered ⟨1,4,1,by decide⟩)) .initial
      initAndWait).isSome = true := by rfl
  refine ⟨Option.get _ hsome,by rfl,by rfl,by rfl,?_⟩
  rcases (nobody_stuck (reach_guarded hsome) (by decide)).1 2 nofun with
    hmove | hinit | ⟨hwait,-⟩
  · exact .inl hmove
  · exact .inr hinit
  · contradiction

/-- A destructor that calls `collector_update_now_and_wait` never returns: from then on the
collector and the destructor take no step, nothing is tracked or freed any more, and whoever
waits for a collection waits forever. -/
theorem destructor_waits_forever {N : Nat} {e : Execution (step cfg) N}
    (h₀ : e.state 0 = .initial) {a k : Nat} (hak : a ≤ k) (hk : k ≤ N)
    (hwait : ((e.state a).threads 0).pc = .waiting) :
    (e.state k).deadlocked ∧ SameCollector (e.state a) (e.state k) ∧
      ∀ j, a ≤ j → j < k → ∃ t op, t ≠ 0 ∧ e.action j = .thread t op := by
  have hinv : ∀ j, j ≤ N → Waits cfg (e.state j) := fun j hj =>
    e.invariant (fun j => Waits cfg (e.state j)) (h₀ ▸ waits_initial cfg)
      (fun _ _ hprev hs => (step_cases hs).waits hprev) hj
  induction k, hak using Nat.le_induction with
  | base => exact ⟨⟨hwait,(hinv a hk).destructor hwait⟩,.refl _,fun j haj hja => by omega⟩
  | succ k hak ih =>
    obtain ⟨hdead,hsame,hactions⟩ := ih (by omega)
    obtain ⟨haction,hdead',hstep⟩ :=
      (step_cases (e.enabled k (by omega))).deadlocked (hinv k (by omega)) hdead
    refine ⟨hdead',hsame.trans hstep,fun j haj hjk => ?_⟩
    rcases Nat.lt_succ_iff_lt_or_eq.mp hjk with hlt | rfl
    · exact hactions j haj hlt
    · exact haction

/-- The destructor of the one pointee calls `collector_update_now_and_wait`, then thread 1
does. -/
def waitInDestructor : List Action :=
  [.thread 1 (.sdarcNew 10 100 0 []),.thread 1 (.onNewSdarcAllocated 0),
    .thread 1 (.dropHandle 0),.thread 1 (.dropLoad 0),.thread 1 (.dropExchange false)] ++
  List.replicate 24 .collector ++
  [.thread 0 .collectorUpdateNowAndWait,.thread 1 .collectorUpdateNowAndWait]

theorem waitInDestructor_deadlocked :
    ∃ e : Execution (step ⟨1,2,1,by decide⟩) 31, ((e.state 31).threads 1).pc = .waiting ∧
      (e.state 31).deadlocked ∧ SameCollector (e.state 30) (e.state 31) := by
  refine ⟨.ofRun (step ⟨1,2,1,by decide⟩) .initial waitInDestructor (by rfl),by rfl,?_⟩
  obtain ⟨hdead,hsame,-⟩ := destructor_waits_forever (a := 30) (k := 31) (e := .ofRun
    (step ⟨1,2,1,by decide⟩) .initial waitInDestructor (by rfl)) rfl (by decide) (by decide)
    (by rfl)
  exact ⟨hdead,hsame⟩

end Deadlock

end Sdarc.System
