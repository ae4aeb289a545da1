import Sdarc.Amortization
import Sdarc.System.RecordCount
set_option autoImplicit false

/-!
Who waits for whom. A read of an atomic pointer is over after a bounded number of its own
steps, whatever the other threads and the collector do; a decrement only retries after
somebody else has changed the counter.
-/

namespace Sdarc.System
open Transition

def Action.isBy (t : Nat) : Action → Bool
  | .thread u _ => u = t
  | _ => false

section WaitFree

variable {cfg : Config} {s s' : State} {t : Nat} {a : Action}

theorem SystemStep.recordCount_le (hs : SystemStep cfg s a s') :
    s.recordCount ≤ s'.recordCount := by
  cases hs with
  | thread u op _ _ hs => cases hs <;> simp
  | collector _ hs => exact hs.records.2.ge
  | finishDestructor => exact le_rfl

theorem SystemStep.others_remaining (records : Nat) (hs : SystemStep cfg s a s')
    (ha : a.isBy t = false) (hreads : (s.threads t).pc.reads = true) :
    (s'.threads t).remaining records = (s.threads t).remaining records := by
  cases hs with
  | thread u op _ _ hs =>
    rw [hs.others (by simpa [Action.isBy,eq_comm] using ha)]
  | collector _ hs =>
    unfold Thread.remaining
    rw [hs.sameRecord.record]
    rcases (hs.thread t).2 with heq | ⟨hpc,-⟩ | ⟨hpc,-⟩
    · rw [heq]
    · simp [hpc,ThreadPc.reads] at hreads
    · simp [hpc,ThreadPc.reads] at hreads
  | finishDestructor => rfl

theorem read_step {records : Nat} (hs : step cfg s a = some s')
    (hreads : (s.threads t).pc.reads = true) (hrecords : s.recordCount ≤ records) :
    (if a.isBy t = true then 1 else 0) + (s'.threads t).remaining records ≤
      (s.threads t).remaining records := by
  by_cases ha : a.isBy t = true
  · cases a with
    | thread u op =>
      obtain rfl : u = t := by simpa [Action.isBy] using ha
      simp only [step,Option.ite_none_right_eq_some] at hs
      have hlt := Op.run_remaining hs.2 hreads hrecords
      rw [if_pos ha]
      omega
    | collector => contradiction
    | finishDestructor panicked => contradiction
  · have hsame := (step_cases hs).others_remaining records
      (Bool.of_not_eq_true ha) hreads
    rw [if_neg ha,hsame]
    omega

variable {N : Nat} {e : Execution (step cfg) N}

theorem recordCount_mono {k m : Nat} (hkm : k ≤ m) (hm : m ≤ N) :
    (e.state k).recordCount ≤ (e.state m).recordCount := by
  induction m, hkm using Nat.le_induction with
  | base => exact le_rfl
  | succ m hkm ih =>
    exact (ih (by omega)).trans (step_cases (e.enabled m (by omega))).recordCount_le

/-- Reading an atomic pointer is wait-free. However the other threads and the collector run,
`load_owned`, `upgrade`, the load of `sync_to` and both ways to borrow take at most 7 steps of
their own thread, and the first read of a thread two more than there are hazard records;
and the thread is never held up. -/
theorem reads_wait_free (h₀ : e.state 0 = .initial) (hshards : 0 < cfg.shards) {a b : Nat}
    (ht : t < cfg.threads) (hab : a ≤ b) (hb : b ≤ N)
    (hreads : ∀ k, a ≤ k → k < b → ((e.state k).threads t).pc.reads = true) :
    stepsIn (fun k => (e.action k).isBy t = true) a b ≤
        ((e.state a).threads t).pc.remaining +
          ((e.state a).threads t).record.remaining (e.state b).recordCount ∧
    ((e.state a).threads t).pc.remaining ≤ 7 ∧
    ∀ k, a ≤ k → k < b → ∃ op s', step cfg (e.state k) (.thread t op) = some s' := by
  have hcount := stepsIn_le_potential (p := fun k => (e.action k).isBy t = true)
    (fun k => ((e.state k).threads t).remaining (e.state b).recordCount) hab
    (fun k hak hkb => read_step (e.enabled k (by omega)) (hreads k hak hkb)
      (recordCount_mono (by omega) hb))
  refine ⟨by unfold Thread.remaining at hcount; omega,?_,fun k hak hkb => ?_⟩
  · cases ((e.state a).threads t).pc <;> simp [ThreadPc.remaining]
  · have hhazards : Hazards cfg (e.state k) :=
      e.invariant (fun k => Hazards cfg (e.state k)) (h₀ ▸ hazards_initial cfg)
        (fun _ _ hprev hs => hprev.step (step_cases hs)) (by omega)
    obtain ⟨op,s',hop⟩ := hhazards.records.read_enabled hshards (hreads k hak hkb)
    exact ⟨op,s',by simp only [step,if_pos ht,hop]⟩

def contendedBorrow : List Action :=
  [.thread 1 (.sdarcNew 10 100 0 []),.thread 1 (.onNewSdarcAllocated 0),
    .thread 1 (.swap 0 (some 0) false),.thread 1 (.sdarcNew 11 101 0 []),
    .thread 1 (.onNewSdarcAllocated 0),.thread 2 (.borrow (.cell 0)),.thread 2 .obtain,
    .thread 2 .obtainNext,.thread 1 (.swap 0 (some 1) false),.thread 2 .publish,
    .thread 2 .reload,.thread 2 .retract,.thread 2 .enterSection,
    .thread 1 (.swap 0 (some 0) false),.thread 2 .loadPointer,.thread 2 (.loadIncrement 0),
    .thread 2 .leaveSection]

theorem contendedBorrow_bounded :
    ∃ e : Execution (step ⟨1,3,1,by decide⟩) 17,
      stepsIn (fun k => (e.action k).isBy 2 = true) 6 17 ≤ 10 ∧
        ((e.state 17).threads 2).pc = .idle := by
  refine ⟨.ofRun (step ⟨1,3,1,by decide⟩) .initial contendedBorrow (by rfl),?_,by rfl⟩
  refine (reads_wait_free rfl (by decide) (by decide) (by decide) le_rfl
    fun k hak hkb => ?_).1
  revert k
  decide +kernel

end WaitFree

/-- The exchange of a decrement is bound to fail: the counter has changed since it was loaded. -/
def State.stale (s : State) (t : Nat) : Nat :=
  match (s.threads t).pc with
  | .dropExchange p shard value => if s.counter p shard = value then 0 else 1
  | _ => 0

section LockFree

variable {cfg : Config} {s s' : State} {t p shard : Nat} {value value' : Counter}

theorem State.stale_eq (hpc : (s.threads t).pc = .dropExchange p shard value) :
    s.stale t = if s.counter p shard = value then 0 else 1 := by
  rw [stale,hpc]

/-- A thread that goes on to retry its decrement has changed no counter, and has loaded the
counter again if it has done anything. -/
theorem ThreadStep.retry {op : Op} (hs : ThreadStep cfg s t op s')
    (hpc : (s.threads t).pc = .dropExchange p shard value)
    (hpc' : (s'.threads t).pc = .dropExchange p shard value') :
    s'.counter p shard = s.counter p shard ∧
      (value' = value ∨ value' = s.counter p shard) := by
  have hidle : (s.threads t).pc ≠ .idle := by simp [hpc]
  cases hs with
  | stay | releaseFailed =>
    exact ⟨rfl,.inl (by simpa using (hpc.symm.trans hpc').symm)⟩
  | decrementRetry spurious q k old hpc₀ =>
    obtain ⟨rfl,rfl,rfl⟩ := ThreadPc.dropExchange.inj (hpc.symm.trans hpc₀)
    exact ⟨rfl,.inr (by simpa [eq_comm] using hpc')⟩
  | obtain | recordUsed | claimRecord | pushRecord =>
    exact ⟨rfl,.inl (by simpa [hpc,eq_comm] using hpc')⟩
  | sdarcNew _ _ _ _ hstart | clone _ _ hstart | dropHandle _ hstart | swap _ _ _ hstart
  | store _ _ _ hstart | loadOwned _ hstart | syncTo _ _ hstart | borrow _ _ hstart
  | dropGuard _ _ _ hstart | release _ hstart | setNull _ _ hstart
  | compareAndSet _ _ _ hstart | downgrade _ hstart | collectorUpdateNowAndWait hstart =>
    exact absurd hstart.1 hidle
  | _ => simp_all

theorem dropExchange_failed (hs : s.dropExchange t false = some s')
    (hpc : (s.threads t).pc = .dropExchange p shard value)
    (hpc' : (s'.threads t).pc = .dropExchange p shard value') :
    s.counter p shard ≠ value ∧ value' = s.counter p shard := by
  simp only [State.dropExchange,hpc,and_true] at hs
  split at hs <;> obtain rfl := Option.some.inj hs
  · simp at hpc'
  · exact ⟨‹_›,by simpa [eq_comm] using hpc'⟩

theorem retry_step {a : Action} (hs : step cfg s a = some s')
    (hpc : (s.threads t).pc = .dropExchange p shard value)
    (hpc' : (s'.threads t).pc = .dropExchange p shard value') :
    (if a = .thread t (.dropExchange false) then 1 else 0) + s'.stale t ≤
      s.stale t + if a.isBy t = false ∧ s'.counter p shard ≠ s.counter p shard then 1
        else 0 := by
  rw [State.stale_eq hpc,State.stale_eq hpc']
  by_cases ha : a.isBy t = true
  · cases a with
    | thread u op =>
      obtain rfl : u = t := by simpa [Action.isBy] using ha
      simp only [step,Option.ite_none_right_eq_some] at hs
      obtain ⟨hsame,hvalue⟩ := (Op.run_step hs.2).retry hpc hpc'
      rw [hsame]
      by_cases hfail : op = .dropExchange false
      · subst hfail
        obtain ⟨hne,rfl⟩ := dropExchange_failed hs.2 hpc hpc'
        simp [hne]
      · rcases hvalue with rfl | rfl <;> simp [hfail]
    | collector => contradiction
    | finishDestructor panicked => contradiction
  · have hother : (s'.threads t).pc = (s.threads t).pc := by
      cases step_cases hs with
      | thread u op _ _ hs => rw [hs.others (by simpa [Action.isBy,eq_comm] using ha)]
      | collector _ hs =>
        rcases (hs.thread t).2 with heq | ⟨hpc₀,-⟩ | ⟨hpc₀,-⟩
        · exact heq
        · simp [hpc] at hpc₀
        · simp [hpc] at hpc₀
      | finishDestructor => rfl
    obtain rfl : value' = value := by
      rw [hpc,hpc'] at hother
      exact (ThreadPc.dropExchange.inj hother).2.2
    have hnot : a ≠ .thread t (.dropExchange false) := by
      rintro rfl
      simp [Action.isBy] at ha
    by_cases hchanged : s'.counter p shard = s.counter p shard
    · simp [hnot,hchanged]
    · rw [if_neg hnot,if_pos (⟨Bool.of_not_eq_true ha,hchanged⟩ : a.isBy t = false ∧ _)]
      split <;> split <;> omega

/-- The decrement is lock-free: its loop repeats an exchange that has not failed spuriously
only as often as somebody else has changed the counter since the loop began. -/
theorem decrement_lock_free {N : Nat} {e : Execution (step cfg) N} {a b : Nat} (hab : a ≤ b)
    (hb : b ≤ N)
    (hbegin : ((e.state a).threads t).pc =
      .dropExchange p shard ((e.state a).counter p shard))
    (hloop : ∀ k, a ≤ k → k ≤ b →
      ∃ value, ((e.state k).threads t).pc = .dropExchange p shard value) :
    stepsIn (fun k => e.action k = .thread t (.dropExchange false)) a b ≤
      stepsIn (fun k => (e.action k).isBy t = false ∧
        (e.state (k+1)).counter p shard ≠ (e.state k).counter p shard) a b := by
  have hcount := stepsIn_le (p := fun k => e.action k = .thread t (.dropExchange false))
    (q := fun k => (e.action k).isBy t = false ∧
      (e.state (k+1)).counter p shard ≠ (e.state k).counter p shard)
    (fun k => (e.state k).stale t) hab (fun k hak hkb => by
      obtain ⟨value,hpc⟩ := hloop k hak (by omega)
      obtain ⟨value',hpc'⟩ := hloop (k+1) (by omega) (by omega)
      exact retry_step (e.enabled k (by omega)) hpc hpc')
  have hfresh : (e.state a).stale t = 0 := by rw [State.stale_eq hbegin,if_pos rfl]
  omega

def racingDrop : List Action :=
  [.thread 1 (.sdarcNew 10 100 0 []),.thread 1 (.onNewSdarcAllocated 0),.thread 1 (.clone 0 0),
    .thread 1 (.dropHandle 0),.thread 1 (.dropLoad 0),.thread 2 (.clone 0 0),
    .thread 1 (.dropExchange false),.thread 1 (.dropExchange true)]

theorem racingDrop_retries :
    ∃ e : Execution (step ⟨1,3,1,by decide⟩) 8,
      stepsIn (fun k => e.action k = .thread 1 (.dropExchange false)) 5 8 ≤
        stepsIn (fun k => (e.action k).isBy 1 = false ∧
          (e.state (k+1)).counter 0 0 ≠ (e.state k).counter 0 0) 5 8 := by
  refine ⟨.ofRun (step ⟨1,3,1,by decide⟩) .initial racingDrop (by rfl),?_⟩
  refine decrement_lock_free (by decide) le_rfl (by rfl) fun k hak hkb => ?_
  obtain rfl | rfl | rfl | rfl : k = 5 ∨ k = 6 ∨ k = 7 ∨ k = 8 := by omega
  all_goals exact ⟨_,by rfl⟩

end LockFree

end Sdarc.System
