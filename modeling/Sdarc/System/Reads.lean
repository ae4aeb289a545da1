import Sdarc.System.Records
set_option autoImplicit false

/-!
The reads of an atomic pointer. Each step of the reading thread brings the read nearer to its
end, where it returns a guard or a handle; the thread can always take the next one.
-/

namespace Sdarc.System

namespace ThreadPc

/-- The thread is inside `load_atomic_ptr_owned` or `borrow_from_atomic_ptr`. -/
def reads : ThreadPc → Bool
  | .loadEnter _ _ => true
  | .loadPointer _ _ => true
  | .loadIncrement _ _ _ => true
  | .loadLeave _ _ _ => true
  | .borrowPublish _ _ => true
  | .borrowReload _ _ _ => true
  | .borrowRetract _ _ => true
  | _ => false

/-- The steps that a read may still take, a change of the pointer and full slots included. -/
def remaining : ThreadPc → Nat
  | .borrowPublish _ _ => 7
  | .borrowReload _ _ _ => 6
  | .borrowRetract _ _ => 5
  | .loadEnter _ _ => 4
  | .loadPointer _ _ => 3
  | .loadIncrement _ _ _ => 2
  | .loadLeave _ _ _ => 1
  | _ => 0

end ThreadPc

/-- The steps until the thread has a hazard record, if `records` exist when it begins. -/
def RecordRef.remaining (records : Nat) : RecordRef → Nat
  | .none => records + 2
  | .scanning len next => len - next + 1
  | .held _ => 0

def Thread.remaining (records : Nat) (th : Thread) : Nat :=
  th.pc.remaining + th.record.remaining records

def Op.starts : Op → Bool
  | .sdarcNew _ _ _ _ | .clone _ _ | .deref _ | .derefGuard _ | .dropHandle _ | .swap _ _ _
  | .loadOwned _ | .syncTo _ _ | .borrow _ | .dropGuard _ | .release | .compareAndSet _ _ _
  | .downgrade _ | .collectorUpdateNowAndWait => true
  | _ => false

section Reads

variable {cfg : Config} {s s' : State} {t : Nat} {op : Op}

theorem Op.run_canStart (h : op.run cfg s t = some s') (hop : op.starts = true) :
    s.canStart t := by
  cases op with
  | sdarcNew ptr countersPtr shard borrows =>
    exact (Option.ite_none_right_eq_some.mp h).1.1
  | clone p shard => exact (Option.ite_none_right_eq_some.mp h).1.1
  | deref p => exact (Option.ite_none_right_eq_some.mp h).1.1
  | derefGuard slot => exact (Option.ite_none_right_eq_some.mp h).1.1
  | dropHandle p => exact (Option.ite_none_right_eq_some.mp h).1.1
  | swap c new discard => exact (Option.ite_none_right_eq_some.mp h).1.1
  | loadOwned src => exact (Option.ite_none_right_eq_some.mp h).1.1
  | syncTo c target => exact (Option.ite_none_right_eq_some.mp h).1.1
  | borrow src => exact (Option.ite_none_right_eq_some.mp h).1.1
  | dropGuard slot =>
    simp only [Op.run,State.dropGuard] at h
    split at h
    · exact (Option.ite_none_right_eq_some.mp h).1
    · contradiction
  | release =>
    simp only [Op.run,State.release] at h
    split at h
    · exact (Option.ite_none_right_eq_some.mp h).1.1
    · contradiction
  | compareAndSet c ifMatches thenSet => exact (Option.ite_none_right_eq_some.mp h).1.1
  | downgrade p => exact (Option.ite_none_right_eq_some.mp h).1.1
  | collectorUpdateNowAndWait => exact (Option.ite_none_right_eq_some.mp h).1
  | _ => contradiction

theorem Op.run_remaining {records : Nat} (h : op.run cfg s t = some s')
    (hreads : (s.threads t).pc.reads = true) (hrecords : s.recordCount ≤ records) :
    (s'.threads t).remaining records < (s.threads t).remaining records := by
  have hidle : (s.threads t).pc ≠ .idle := fun heq => by simp [heq,ThreadPc.reads] at hreads
  cases op with
  | enterSection =>
    simp only [Op.run,State.enterSection] at h
    split at h
    · split at h <;> obtain rfl := Option.some.inj h <;>
        simp_all [Thread.remaining,ThreadPc.remaining]
    · contradiction
  | loadPointer =>
    simp only [Op.run,State.loadPointer] at h
    split at h
    · split at h <;> obtain rfl := Option.some.inj h <;>
        simp_all [Thread.remaining,ThreadPc.remaining]
    · contradiction
  | loadIncrement shard =>
    simp only [Op.run,State.loadIncrement] at h
    split at h
    · obtain ⟨-,hs⟩ := Option.ite_none_right_eq_some.mp h
      obtain rfl := Option.some.inj hs
      simp_all [Thread.remaining,ThreadPc.remaining]
    · contradiction
  | leaveSection =>
    simp only [Op.run,State.leaveSection] at h
    split at h
    · split at h <;> obtain rfl := Option.some.inj h <;>
        simp_all [Thread.remaining,ThreadPc.remaining]
    · contradiction
  | publish =>
    simp only [Op.run,State.publish] at h
    split at h
    · split at h <;> obtain rfl := Option.some.inj h <;>
        simp_all [Thread.remaining,ThreadPc.remaining]
    · contradiction
  | reload =>
    simp only [Op.run,State.reload] at h
    split at h
    · split at h
      · obtain rfl := Option.some.inj h
        simp_all [Thread.remaining,ThreadPc.remaining]
      · split at h <;> obtain rfl := Option.some.inj h <;>
          simp_all [Thread.remaining,ThreadPc.remaining]
    · contradiction
  | retract =>
    simp only [Op.run,State.retract] at h
    split at h
    · obtain rfl := Option.some.inj h
      simp_all [Thread.remaining,ThreadPc.remaining]
    · contradiction
  | obtain =>
    simp only [Op.run,State.obtain,Option.ite_none_right_eq_some,Option.some.injEq] at h
    obtain ⟨⟨hnone,-⟩,rfl⟩ := h
    simp only [State.setRecordRef,Function.update_self,Thread.remaining,hnone,
      RecordRef.remaining]
    omega
  | obtainNext =>
    simp only [Op.run,State.obtainNext] at h
    split at h
    · rename_i len next hscan
      split at h
      · split at h <;> obtain rfl := Option.some.inj h <;>
          simp only [State.setRecord,State.setRecordRef,Function.update_self,Thread.remaining,
            hscan,RecordRef.remaining] <;> omega
      · obtain rfl := Option.some.inj h
        simp only [State.setRecord,State.setRecordRef,Function.update_self,Thread.remaining,
          hscan,RecordRef.remaining]
        omega
    · contradiction
  | onNewSdarcAllocated =>
    simp only [Op.run,State.onNewSdarcAllocated] at h
    split at h <;> simp_all [ThreadPc.reads]
  | dropLoad =>
    simp only [Op.run,State.dropLoad] at h
    split at h <;> simp_all [ThreadPc.reads]
  | dropExchange =>
    simp only [Op.run,State.dropExchange] at h
    split at h <;> simp_all [ThreadPc.reads]
  | incrementThenSet =>
    simp only [Op.run,State.incrementThenSet] at h
    split at h <;> simp_all [ThreadPc.reads]
  | getOrInit =>
    simp only [Op.run,State.getOrInit] at h
    split at h <;> simp_all [ThreadPc.reads]
  | newWeakInner =>
    simp only [Op.run,State.newWeakInner] at h
    split at h <;> simp_all [ThreadPc.reads]
  | registerWeakInner =>
    simp only [Op.run,State.registerWeakInner] at h
    split at h <;> simp_all [ThreadPc.reads]
  | setWeakInner =>
    simp only [Op.run,State.setWeakInner] at h
    split at h <;> simp_all [ThreadPc.reads]
  | cloneWeakInner =>
    simp only [Op.run,State.cloneWeakInner] at h
    split at h <;> simp_all [ThreadPc.reads]
  | _ => exact absurd (Op.run_canStart h rfl).1 hidle

theorem Records.read_enabled (h : Records s) (hshards : 0 < cfg.shards)
    (hreads : (s.threads t).pc.reads = true) :
    ∃ (op : Op) (s' : State), op.run cfg s t = some s' := by
  have hrecord : (s.threads t).pc.needsRecord = true →
      (∃ r, (s.threads t).record = .held r) ∨
        ∃ (op : Op) (s' : State), op.run cfg s t = some s' := by
    intro hneeds
    cases hrec : (s.threads t).record with
    | held r => exact .inl ⟨r,rfl⟩
    | none => exact .inr ⟨.obtain,_,if_pos ⟨hrec,hneeds⟩⟩
    | scanning len next =>
      refine .inr ⟨.obtainNext,?_⟩
      simp only [Op.run,State.obtainNext,hrec]
      split
      · split <;> exact ⟨_,rfl⟩
      · exact ⟨_,rfl⟩
  cases hpc : (s.threads t).pc with
  | loadEnter src after =>
    rcases hrecord (by rw [hpc]; rfl) with ⟨r,hrec⟩ | henabled
    · refine ⟨.enterSection,?_⟩
      simp only [Op.run,State.enterSection,hpc,hrec]
      split <;> exact ⟨_,rfl⟩
    · exact henabled
  | loadPointer src after =>
    refine ⟨.loadPointer,?_⟩
    simp only [Op.run,State.loadPointer,hpc]
    split <;> exact ⟨_,rfl⟩
  | loadIncrement src after p =>
    refine ⟨.loadIncrement 0,?_⟩
    simp only [Op.run,State.loadIncrement,hpc]
    exact ⟨_,if_pos hshards⟩
  | loadLeave src after result =>
    obtain ⟨r,hrec⟩ := h.held (t := t) (.inl (by rw [hpc]; trivial))
    refine ⟨.leaveSection,?_⟩
    simp only [Op.run,State.leaveSection,hpc,hrec]
    split <;> exact ⟨_,rfl⟩
  | borrowPublish src address =>
    rcases hrecord (by rw [hpc]; rfl) with ⟨r,hrec⟩ | henabled
    · refine ⟨.publish,?_⟩
      simp only [Op.run,State.publish,hpc,hrec]
      split <;> exact ⟨_,rfl⟩
    · exact henabled
  | borrowReload src slot address =>
    refine ⟨.reload,?_⟩
    simp only [Op.run,State.reload,hpc]
    split
    · exact ⟨_,rfl⟩
    · split <;> exact ⟨_,rfl⟩
  | borrowRetract src slot =>
    obtain ⟨r,hrec⟩ := h.held (t := t) (.inr (.inl (by rw [hpc]; simp [ThreadPc.slot])))
    refine ⟨.retract,?_⟩
    simp only [Op.run,State.retract,hpc,hrec]
    exact ⟨_,rfl⟩
  | _ => simp [hpc,ThreadPc.reads] at hreads

end Reads

/-- The thread is inside a read of `src` by `load_owned`, `upgrade` or `borrow`. -/
def ThreadPc.readsFrom (src : Source) : ThreadPc → Prop
  | .loadEnter src' after => src' = src ∧ after = none
  | .loadPointer src' after => src' = src ∧ after = none
  | .loadIncrement src' after _ => src' = src ∧ after = none
  | .loadLeave src' after _ => src' = src ∧ after = none
  | .borrowPublish src' _ => src' = src
  | .borrowReload src' _ _ => src' = src
  | .borrowRetract src' _ => src' = src
  | _ => False

instance (src : Source) : (pc : ThreadPc) → Decidable (pc.readsFrom src)
  | .loadEnter src' after => inferInstanceAs (Decidable (src' = src ∧ after = none))
  | .loadPointer src' after => inferInstanceAs (Decidable (src' = src ∧ after = none))
  | .loadIncrement src' after _ => inferInstanceAs (Decidable (src' = src ∧ after = none))
  | .loadLeave src' after _ => inferInstanceAs (Decidable (src' = src ∧ after = none))
  | .borrowPublish src' _ => inferInstanceAs (Decidable (src' = src))
  | .borrowReload src' _ _ => inferInstanceAs (Decidable (src' = src))
  | .borrowRetract src' _ => inferInstanceAs (Decidable (src' = src))
  | .idle | .waiting | .registerNew _ | .drop _ | .dropExchange _ _ _ | .incrementThenSet _ _
  | .getOrInit _ | .newWeakInner _ | .registerWeakInner _ _ | .setWeakInner _ _
  | .cloneWeakInner _ _ => inferInstanceAs (Decidable False)

theorem ThreadPc.readsFrom.reads {src : Source} {pc : ThreadPc} (h : pc.readsFrom src) :
    pc.reads = true := by
  cases pc <;> simp_all [readsFrom,ThreadPc.reads]

/-- The last step of a read of `src`: a guard for what the pointer still holds, or the handle,
if any, that the critical section has got. -/
inductive ReadEnds (s : State) (t : Nat) (src : Source) : Op → State → Prop where
  | guard (j p : Nat) :
      (s.threads t).pc = .borrowReload src j (s.heap p).ptr → s.load src = some p →
      ReadEnds s t src .reload ((s.setGuard t j (some p)).setPc t .idle)
  | owned (r : Nat) (result : Option Nat) :
      (s.threads t).pc = .loadLeave src none result → (s.threads t).record = .held r →
      ReadEnds s t src .leaveSection (((s.setFlag r false).addLiveOption result).setPc t .idle)

theorem ReadEnds.idle {s s' : State} {t : Nat} {src : Source} {op : Op}
    (h : ReadEnds s t src op s') : (s'.threads t).pc = .idle := by
  cases h <;> simp

section Ends

variable {cfg : Config} {s s' : State} {t : Nat} {op : Op} {src : Source}

theorem ThreadStep.readsFrom (hs : ThreadStep cfg s t op s') (h : Records s)
    (hreads : (s.threads t).pc.readsFrom src) :
    (s'.threads t).pc.readsFrom src ∨ ReadEnds s t src op s' := by
  have hbusy : (s.threads t).pc ≠ .idle := by
    intro heq
    rw [heq] at hreads
    exact hreads
  cases hs with
  | stay _ hstart => exact absurd hstart.1 hbusy
  | publish src' address r j hpc | slotsFull src' address hpc | retract src' j r hpc
  | pointerChanged src' j address hpc =>
    rw [hpc] at hreads
    obtain rfl := hreads
    exact .inl (by simp [ThreadPc.readsFrom])
  | reload src' j p hpc hload =>
    rw [hpc] at hreads
    obtain rfl := hreads
    exact .inr (.guard j p hpc hload)
  | enterSection src' after r hpc =>
    rw [hpc] at hreads
    exact .inl (by simpa [ThreadPc.readsFrom] using hreads)
  | sectionNested src' after r hpc hrec hflag =>
    have hin := ((h.holding hrec).2.flag).mp hflag
    rw [hpc] at hin
    exact hin.elim
  | loadNull src' after hpc | loadPointer src' after p hpc | loadIncrement src' after p shard hpc =>
    rw [hpc] at hreads
    exact .inl (by simpa [ThreadPc.readsFrom] using hreads)
  | leaveSection src' result r hpc hrec =>
    rw [hpc] at hreads
    obtain ⟨rfl,-⟩ := hreads
    exact .inr (.owned r result hpc hrec)
  | leaveSectionDrop src' old result r hpc =>
    rw [hpc] at hreads
    exact absurd hreads.2 (by simp)
  | obtain | recordUsed | claimRecord | pushRecord => exact .inl (by simpa using hreads)
  | releaseFailed r hstart => exact absurd hstart.1 hbusy
  | _ => simp_all [State.canStart,ThreadPc.readsFrom]

/-- The read of `src` goes on: its thread has a next step, and each one brings the read nearer
to its end or ends it. -/
structure ReadProceeds (cfg : Config) (s : State) (t : Nat) (src : Source) : Prop where
  enabled : ∃ op s', step cfg s (.thread t op) = some s'
  next : ∀ op s', step cfg s (.thread t op) = some s' →
    (s'.threads t).remaining s.recordCount < (s.threads t).remaining s.recordCount ∧
      ((s'.threads t).pc.readsFrom src ∨ ReadEnds s t src op s')

theorem Records.readProceeds (h : Records s) (ht : t < cfg.threads) (hshards : 0 < cfg.shards)
    (hreads : (s.threads t).pc.readsFrom src) : ReadProceeds cfg s t src where
  enabled := by
    obtain ⟨op,s',hop⟩ := h.read_enabled hshards hreads.reads
    exact ⟨op,s',by simp only [step,if_pos ht,hop]⟩
  next op s' hs := by
    simp only [step,if_pos ht] at hs
    exact ⟨Op.run_remaining hs hreads.reads le_rfl,(Op.run_step hs).readsFrom h hreads⟩

end Ends

end Sdarc.System
