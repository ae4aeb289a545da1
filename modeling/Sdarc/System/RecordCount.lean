import Mathlib.Data.Finset.Max
import Sdarc.Ladder
import Sdarc.System.HazardRecords
set_option autoImplicit false

/-!
How many hazard records there are: `obtain_per_thread_shared_hazard_data` climbs past the
records that are in use. A new record is pushed at the end, past those that have been pushed
since the iteration began and that it has not visited.
-/

namespace Sdarc.System
open Transition

def RecordRef.rung : RecordRef → Option Nat
  | .none => Option.none
  | .scanning _ next => some next
  | .held r => some r

namespace State

def rungs (s : State) (t : Nat) : Option Nat := (s.threads t).record.rung

/-- The threads that hold a record or are inside `obtain_per_thread_shared_hazard_data`. -/
def registryUsers (cfg : Config) (s : State) : Nat :=
  ((Finset.range cfg.threads).filter (fun t => (s.threads t).record ≠ .none)).card

end State

/-- No record is pushed while one that the iteration leaves out is unused. -/
def pushesInNeed (s : State) : Action → Prop
  | .thread t .obtainNext =>
      match (s.threads t).record with
      | .scanning len next => len ≤ next →
          ∀ r, r < s.recordCount → len ≤ r → (s.records r).isUsed = true
      | _ => True
  | _ => True

instance (s : State) (a : Action) : Decidable (pushesInNeed s a) := by
  unfold pushesInNeed
  split
  · split <;> infer_instance
  · infer_instance

section Steps

variable {cfg : Config} {s s' : State} {t bound : Nat}

theorem registryUsers_eq (cfg : Config) (s : State) :
    s.registryUsers cfg = (Ladder.above (Finset.range cfg.threads) s.rungs 0).card := by
  unfold State.registryUsers
  congr 1
  ext t
  rw [Finset.mem_filter,Ladder.mem_above,State.rungs]
  cases (s.threads t).record <;> simp [RecordRef.rung]

/-- What a step of a thread does to its reference to a record. -/
inductive RecordStep (s s' : State) (t : Nat) (op : Op) : Prop where
  | same : (s'.threads t).record = (s.threads t).record → s'.recordCount = s.recordCount →
      RecordStep s s' t op
  | obtain : (s'.threads t).record = .scanning s.recordCount 0 →
      s'.recordCount = s.recordCount → RecordStep s s' t op
  | visit (len next : Nat) : (s.threads t).record = .scanning len next → next < len →
      (s.records next).isUsed = true → (s'.threads t).record = .scanning len (next+1) →
      s'.recordCount = s.recordCount → RecordStep s s' t op
  | claim (len next : Nat) : (s.threads t).record = .scanning len next →
      (s'.threads t).record = .held next → s'.recordCount = s.recordCount →
      RecordStep s s' t op
  | push (len next : Nat) : op = .obtainNext → (s.threads t).record = .scanning len next →
      len ≤ next → (s'.threads t).record = .held s.recordCount →
      s'.recordCount = s.recordCount + 1 → RecordStep s s' t op
  | release : (s'.threads t).record = .none → s'.recordCount = s.recordCount →
      RecordStep s s' t op

theorem recordStep {op : Op} (h : op.run cfg s t = some s') : RecordStep s s' t op := by
  by_cases hop : op = .obtainNext
  · subst hop
    simp only [Op.run,State.obtainNext] at h
    cases hscan : (s.threads t).record with
    | none | held r => simp [hscan] at h
    | scanning len next =>
      simp only [hscan] at h
      split at h
      · rename_i hlt
        split at h
        · rename_i hused
          obtain rfl := Option.some.inj h
          exact .visit len next hscan hlt hused (by simp) rfl
        · obtain rfl := Option.some.inj h
          exact .claim len next hscan (by simp) rfl
      · obtain rfl := Option.some.inj h
        exact .push len next rfl hscan (by omega) (by simp) rfl
  · cases Op.run_step h with
    | obtain => exact .obtain (by simp) rfl
    | recordUsed | claimRecord | pushRecord => exact absurd rfl hop
    | release => exact .release (by simp) rfl
    | stay | clone | swap | setNull | releaseFailed => exact .same rfl rfl
    | _ => exact .same (by simp) rfl

/-- The records stay within `bound`, which the users of the registry have not exceeded. -/
structure Bounded (cfg : Config) (bound : Nat) (s : State) : Prop where
  hazards : Hazards cfg s
  next_le : ∀ t len next, (s.threads t).record = .scanning len next → next ≤ len
  thread_lt : ∀ t, (s.threads t).record ≠ .none → t < cfg.threads
  fits : Ladder.Fits (Finset.range cfg.threads) s.rungs bound
  count_le : s.recordCount ≤ bound

theorem Bounded.taken (h : Bounded cfg bound s) {len next r : Nat}
    (hscan : (s.threads t).record = .scanning len next) (hused : (s.records r).isUsed = true) :
    ∃ u, u ∈ Finset.range cfg.threads ∧ u ≠ t ∧ s.rungs u = some r := by
  obtain ⟨u,hu⟩ := h.hazards.owned.owner r hused
  refine ⟨u,Finset.mem_range.mpr (h.thread_lt u (by simp [hu])),?_,
    by simp [State.rungs,hu,RecordRef.rung]⟩
  rintro rfl
  rw [hscan] at hu
  contradiction

theorem eq_update_rungs (hothers : ∀ u, u ≠ t → (s'.threads u).record = (s.threads u).record) :
    s'.rungs = Function.update s.rungs t (s'.threads t).record.rung := by
  funext u
  by_cases hu : u = t
  · simp [hu,State.rungs]
  · simp [hu,State.rungs,hothers u hu]

theorem Bounded.of_thread (h : Bounded cfg bound s) (hhazards : Hazards cfg s')
    (ht : t < cfg.threads)
    (hothers : ∀ u, u ≠ t → (s'.threads u).record = (s.threads u).record)
    (hnext : ∀ len next, (s'.threads t).record = .scanning len next → next ≤ len)
    (hfits : Ladder.Fits (Finset.range cfg.threads)
      (Function.update s.rungs t (s'.threads t).record.rung) bound)
    (hcount : s'.recordCount ≤ bound) : Bounded cfg bound s' where
  hazards := hhazards
  next_le u len next hscan := by
    by_cases hu : u = t
    · exact hnext len next (hu ▸ hscan)
    · rw [hothers u hu] at hscan
      exact h.next_le u len next hscan
  thread_lt u hne := by
    by_cases hu : u = t
    · exact hu ▸ ht
    · rw [hothers u hu] at hne
      exact h.thread_lt u hne
  fits := by rwa [eq_update_rungs hothers]
  count_le := hcount

theorem Bounded.thread {op : Op} (h : Bounded cfg bound s) (ht : t < cfg.threads)
    (hrun : op.run cfg s t = some s') (hok : pushesInNeed s (.thread t op))
    (husers : s'.registryUsers cfg ≤ bound) : Bounded cfg bound s' := by
  have hs := Op.run_step hrun
  have hmem : t ∈ Finset.range cfg.threads := Finset.mem_range.mpr ht
  have hothers : ∀ u, u ≠ t → (s'.threads u).record = (s.threads u).record :=
    fun u hu => congrArg Thread.record (hs.others hu)
  have hstays : ∀ x : RecordRef, x.rung = s.rungs t → Ladder.Fits (Finset.range cfg.threads)
      (Function.update s.rungs t x.rung) bound := by
    intro x hx
    rw [hx,Function.update_eq_self]
    exact h.fits
  have hof := h.of_thread (h.hazards.step (.thread t op s' ht hs)) ht hothers
  cases recordStep hrun with
  | same hrec hcount =>
    refine hof (fun len next hscan => h.next_le t len next (hrec ▸ hscan)) ?_
      (hcount.trans_le h.count_le)
    exact hrec ▸ hstays _ rfl
  | obtain hrec hcount =>
    rw [registryUsers_eq,eq_update_rungs hothers] at husers
    rw [hrec] at hof husers
    refine hof (fun len next hscan => ?_) (h.fits.enter hmem husers) (hcount.trans_le h.count_le)
    obtain ⟨-,rfl⟩ := RecordRef.scanning.inj hscan
    exact Nat.zero_le len
  | visit len next hscan hlt hused hrec hcount =>
    rw [hrec] at hof
    refine hof (fun len' next' hscan' => ?_) ?_ (hcount.trans_le h.count_le)
    · obtain ⟨rfl,rfl⟩ := RecordRef.scanning.inj hscan'
      exact hlt
    · refine h.fits.climb hmem (by rw [State.rungs,hscan]; rfl) (Nat.le_succ next)
        (fun r h₁ h₂ => ?_)
      obtain rfl : r = next := by omega
      exact h.taken hscan hused
  | claim len next hscan hrec hcount =>
    rw [hrec] at hof
    refine hof (fun len' next' hscan' => ?_) (hstays (.held next) ?_) (hcount.trans_le h.count_le)
    · contradiction
    · rw [State.rungs,hscan]
      rfl
  | push len next hop hscan hle hrec hcount =>
    subst hop
    have hend : next = len := le_antisymm (h.next_le t len next hscan) hle
    have hlen : len ≤ s.recordCount := by
      have hthread := h.hazards.records.thread t
      rw [ThreadRecord,hscan] at hthread
      exact hthread.1
    have hneed : ∀ r, r < s.recordCount → len ≤ r → (s.records r).isUsed = true := by
      simp only [pushesInNeed,hscan] at hok
      exact hok hle
    have hfits : Ladder.Fits (Finset.range cfg.threads)
        (Function.update s.rungs t (some s.recordCount)) bound :=
      h.fits.climb hmem (by rw [State.rungs,hscan]; rfl) (hend ▸ hlen)
        (fun r h₁ h₂ => h.taken hscan (hneed r h₂ (hend ▸ h₁)))
    rw [hrec] at hof
    refine hof (fun len' next' hscan' => ?_) hfits ?_
    · contradiction
    · rw [hcount]
      exact hfits.lt hmem (Function.update_self t _ _)
  | release hrec hcount =>
    rw [hrec] at hof
    refine hof (fun len next hscan => ?_) (h.fits.leave t) (hcount.trans_le h.count_le)
    contradiction

theorem Bounded.congr (h : Bounded cfg bound s) (hhazards : Hazards cfg s')
    (hrecord : ∀ t, (s'.threads t).record = (s.threads t).record)
    (hcount : s'.recordCount = s.recordCount) : Bounded cfg bound s' where
  hazards := hhazards
  next_le t len next hscan := h.next_le t len next ((hrecord t).symm.trans hscan)
  thread_lt t hne := h.thread_lt t (by rwa [hrecord t] at hne)
  fits := by
    have hrungs : s'.rungs = s.rungs := funext (fun t => congrArg RecordRef.rung (hrecord t))
    exact hrungs ▸ h.fits
  count_le := hcount.trans_le h.count_le

theorem Bounded.step {a : Action} (h : Bounded cfg bound s) (hok : pushesInNeed s a)
    (husers : s'.registryUsers cfg ≤ bound) (hs : step cfg s a = some s') :
    Bounded cfg bound s' := by
  have hhazards := h.hazards.step (step_cases hs)
  cases a with
  | thread t op =>
    simp only [System.step,Option.ite_none_right_eq_some] at hs
    exact h.thread hs.1 hs.2 hok husers
  | collector =>
    have hcollector := State.collect_step hs
    exact h.congr hhazards (fun t => hcollector.sameRecord.record) hcollector.records.2
  | finishDestructor panicked =>
    cases step_cases hs
    exact h.congr hhazards (fun _ => rfl) rfl

theorem bounded_initial (cfg : Config) (bound : Nat) : Bounded cfg bound .initial where
  hazards := hazards_initial cfg
  next_le t len next hscan := by simp [State.initial] at hscan
  thread_lt t hne := by simp [State.initial] at hne
  fits t r _ hr := by simp [State.rungs,State.initial,RecordRef.rung] at hr
  count_le := Nat.zero_le bound

end Steps

section Run

variable {cfg : Config} {N : Nat}

/-- While no record is pushed that is not needed, there are at no moment more records than
threads have been using the registry at some moment up to then. -/
theorem registry_within_peak (e : Execution (step cfg) N) (h₀ : e.state 0 = .initial) {k : Nat}
    (hk : k ≤ N) (hok : ∀ j, j < k → pushesInNeed (e.state j) (e.action j)) :
    ∃ j, j ≤ k ∧ (e.state k).recordCount ≤ (e.state j).registryUsers cfg := by
  obtain ⟨j,hj,hmax⟩ := Finset.exists_max_image (Finset.range (k+1))
    (fun i => (e.state i).registryUsers cfg) ⟨0,by simp⟩
  have hle : ∀ i, i ≤ k → (e.state i).registryUsers cfg ≤ (e.state j).registryUsers cfg :=
    fun i hi => hmax i (Finset.mem_range.mpr (Nat.lt_succ_of_le hi))
  refine ⟨j,Nat.lt_succ_iff.mp (Finset.mem_range.mp hj),?_⟩
  have hbounded := e.invariant
    (fun i => i ≤ k → Bounded cfg ((e.state j).registryUsers cfg) (e.state i))
    (fun _ => h₀ ▸ bounded_initial cfg _)
    (fun i _ hi hs hik => (hi (by omega)).step (hok i hik) (hle (i+1) hik) hs) hk
  exact (hbounded le_rfl).count_le

instance : Inhabited Action := ⟨.collector⟩

def beginLoad (t : Nat) : List Action :=
  [.thread t (.loadOwned (.cell 0)),.thread t .obtain]

def endThread (t : Nat) : List Action :=
  [.thread t .enterSection,.thread t .loadPointer,.thread t .leaveSection,.thread t .release]

def twoPushes : List Action :=
  beginLoad 1 ++ beginLoad 2 ++ [.thread 1 .obtainNext,.thread 2 .obtainNext]

theorem twoPushes_within_peak :
    ∃ e : Execution (step ⟨1,3,1,by decide⟩) 6, (e.state 6).recordCount = 2 ∧
      ∃ j, j ≤ 6 ∧ (e.state 6).recordCount ≤ (e.state j).registryUsers ⟨1,3,1,by decide⟩ := by
  refine ⟨.ofRun (step ⟨1,3,1,by decide⟩) .initial twoPushes (by rfl),by rfl,?_⟩
  exact registry_within_peak _ rfl le_rfl (by decide +kernel)

/-- Threads 1 and 2 find no record. Thread 1 pushes one and ends. Thread 3 finds the one
record there is. Thread 2 pushes another, although the first is unused, and ends. Thread 4
takes the first record before thread 3 tries it, and thread 3 pushes a third. -/
def staleIterations : List Action :=
  beginLoad 1 ++ beginLoad 2 ++ .thread 1 .obtainNext :: endThread 1 ++ beginLoad 3 ++
    .thread 2 .obtainNext :: endThread 2 ++ beginLoad 4 ++
    [.thread 4 .obtainNext,.thread 3 .obtainNext,.thread 3 .obtainNext]

theorem staleIterations_exceed_peak :
    ¬ ∀ (cfg : Config) (N : Nat) (e : Execution (step cfg) N), e.state 0 = .initial →
      ∃ j, j ≤ N ∧ (e.state N).recordCount ≤ (e.state j).registryUsers cfg := by
  intro hclaim
  obtain ⟨j,hj,hle⟩ := hclaim ⟨1,5,1,by decide⟩ 21
    (.ofRun (step ⟨1,5,1,by decide⟩) .initial staleIterations (by rfl)) rfl
  revert j
  decide +kernel

end Run

end Sdarc.System
