import Sdarc.System.Guards
set_option autoImplicit false

/-!
What the counters add up to when no operation is under way: the handles, the cells and the
`weak_inner_ref`s, and for a `WeakSdarcInner` one more than the `WeakSdarc`s.
-/

namespace Sdarc.System
open Transition

def State.freesNothing (s : State) : Action → Prop
  | .collector => ∀ it, s.collector = .freeing it → it.toFree = []
  | _ => True

/-- No operation is in progress; threads may wait for a collection. -/
def State.resting (s : State) : Prop :=
  ∀ t, (s.threads t).pc = .idle ∨ (s.threads t).pc = .waiting

section Resting

variable {cfg : Config} {s : State}

theorem State.resting.owned (h : s.resting) (p : Nat) :
    ownedIn s.threads cfg.threads p = 0 := by
  refine Finset.sum_eq_zero (fun t _ => ?_)
  rcases h t with ht | ht <;> simp [ht,ThreadPc.owned]

theorem State.resting.debtless (h : s.resting) : s.debtless := by
  intro t p original
  rcases h t with ht | ht <;> simp [ht]

theorem State.resting.owners (h : s.resting) (p : Nat) :
    s.owners cfg p = s.live p + cellsIn s.cells cfg.cells p + weakIn s.heap s.nextPointee p := by
  rw [State.owners,h.owned p,Nat.add_zero]

end Resting

structure Conserved (cfg : Config) (s : State) : Prop where
  tracking : Tracking cfg s
  referenced : Referenced Counted cfg s
  unlinking : s.unlinksTracked
  allocated : ∀ p, p < s.nextPointee → (s.heap p).stage = .allocated
  notDropping : ∀ it p phase, s.collector ≠ .dropping it p phase

section Conserved

variable {cfg : Config} {s s' : State}

theorem Conserved.thread {t : Nat} {op : Op} (h : Conserved cfg s) (ht : t < cfg.threads)
    (hs : ThreadStep cfg s t op s') : Conserved cfg s' := by
  have hplaces := h.tracking.places
  refine ⟨h.tracking.thread ht hs,Referenced.thread h.referenced hplaces ht hs (fun q hq => ?_),
    hs.unlinking h.referenced hplaces h.unlinking,fun p hp => ?_,?_⟩
  · exact h.referenced.counted_thread hplaces ht hs
      (fun q ha hq hptr => ha.counted h.referenced hplaces ht hq hptr (h.referenced.counted q hq))
      (fun _ _ _ => And.left) hq
  · rcases hs.next with hnext | ⟨hstage,hnext⟩
    · rw [(hs.frame (.inr hnext)).2.2]
      exact h.allocated p (hnext ▸ hp)
    · by_cases hpn : p = s.nextPointee
      · exact hpn ▸ hstage
      · rw [(hs.frame (.inl hpn)).2.2]
        exact h.allocated p (by omega)
  · rw [hs.collector.1]
    exact h.notDropping

theorem CollectorStep.nextPointee (hs : CollectorStep cfg s s') :
    s'.nextPointee = s.nextPointee := by
  cases hs with
  | weakBackRefCleared => exact (SameMemory.resume _ _ _).nextPointee
  | startUpdate | readShard | finishPass | weakRefNotInvolved | weakBackRefWasAlreadyNull =>
    exact (SameMemory.resume _ _ _).nextPointee
  | _ => rfl

theorem resume_ne_dropping {it it' : Iter} {key p : Nat} {phase : DropPhase} (s : State)
    (result : UpdateResult) : (s.resume it key result).collector ≠ .dropping it' p phase := by
  cases result <;> simp [State.resume]

theorem Conserved.collector (h : Conserved cfg s) (hs : CollectorStep cfg s s')
    (hfree : ∀ it, s.collector = .freeing it → it.toFree = []) : Conserved cfg s' := by
  have hnone : ∀ it (key : Nat) toFree, s.collector = .freeing it → it.toFree ≠ key :: toFree := by
    intro it key toFree hc hf
    rw [hfree it hc] at hf
    contradiction
  refine ⟨h.tracking.step (.collector _ hs),Referenced.collector h.referenced hs h.unlinking
    (fun it p phase hc => absurd hc (h.notDropping it p phase))
    (fun it key toFree e hc hf => absurd hf (hnone it key toFree hc)),
    fun it key w hc => hs.unlinking hc,fun p hp => ?_,fun it p phase hc => ?_⟩
  · have hold := h.allocated p (hs.nextPointee ▸ hp)
    cases hs with
    | free it key toFree e hc hf => exact absurd hf (hnone it key toFree hc)
    | dropCounters it q hc => exact absurd hc (h.notDropping it q _)
    | dropWeakInnerRef it q w hc => exact absurd hc (h.notDropping it q _)
    | dropMemory it q hc => exact absurd hc (h.notDropping it q _)
    | weakBackRefCleared it key w origin q =>
      rw [(SameMemory.resume _ _ _).heap]
      by_cases hpw : p = w
      · subst hpw
        simpa using hold
      · simpa [hpw] using hold
    | startUpdate | readShard | finishPass | weakRefNotInvolved | weakBackRefWasAlreadyNull =>
      rw [(SameMemory.resume _ _ _).heap]
      exact hold
    | _ => exact hold
  · cases hs with
    | free it' key toFree e hc' hf => exact hnone it' key toFree hc' hf
    | dropCounters it' q hc' => exact h.notDropping it' q _ hc'
    | dropWeakInnerRef it' q w hc' => exact h.notDropping it' q _ hc'
    | noWeakInnerRef it' q hc' => exact h.notDropping it' q _ hc'
    | dropWeakSdarcInner it' q _ _ hc' => exact h.notDropping it' q _ hc'
    | dropMemory it' q hc' => exact h.notDropping it' q _ hc'
    | weakBackRefCleared => exact resume_ne_dropping _ _ hc
    | startUpdate | readShard | finishPass | weakRefNotInvolved | weakBackRefWasAlreadyNull =>
      exact resume_ne_dropping _ _ hc
    | spin => exact h.notDropping it p phase hc
    | _ => contradiction

theorem Conserved.step {a : Action} (h : Conserved cfg s) (hok : s.freesNothing a)
    (hs : SystemStep cfg s a s') : Conserved cfg s' := by
  cases hs with
  | thread t op _ ht hs => exact h.thread ht hs
  | collector _ hs => exact h.collector hs hok
  | finishDestructor panicked it p hc => exact absurd hc (h.notDropping it p _)

theorem conserved_initial (cfg : Config) : Conserved cfg .initial := by
  obtain ⟨htracking,⟨h₁,h₂,h₃,h₄,-,h₅,h₆⟩,-,-,hunlinking,-⟩ := safe_initial cfg
  exact ⟨htracking,⟨h₁,h₂,h₃,h₄,by simp [State.initial],h₅,h₆⟩,hunlinking,
    by simp [State.initial],by simp [State.initial]⟩

theorem conserved_of_reach (h : Reach (step cfg) State.freesNothing .initial s) :
    Conserved cfg s :=
  h.invariant (Conserved cfg) (conserved_initial cfg)
    (fun _ _ _ hc hok hs => hc.step hok (step_cases hs))

theorem resting_of_idle (h : Handles cfg s)
    (hidle : ∀ t, t < cfg.threads → (s.threads t).pc = .idle) : s.resting := by
  intro t
  by_cases ht : t < cfg.threads
  · exact .inl (hidle t ht)
  · exact .inl (h.threads t (by omega))

/-- While nothing is freed, the counters of a pointee add up to its handles, the cells that
hold it and the `weak_inner_ref` that holds it, whenever no operation is in progress. -/
theorem reference_counts_conserved (h : Reach (step cfg) State.freesNothing .initial s)
    (hrest : s.resting) {p : Nat} (hp : p < s.nextPointee) :
    s.sum cfg p =
      (s.live p + cellsIn s.cells cfg.cells p + weakIn s.heap s.nextPointee p : Nat) := by
  have hc := conserved_of_reach h
  have hsum : s.sum cfg p = (s.owners cfg p : Int) - s.debt cfg p :=
    hc.referenced.counted p (hc.allocated p hp)
  rw [hsum,hrest.debtless.debt_eq_zero,hrest.owners]
  simp

/-- Handles move between two threads, a cell and a `WeakSdarc`, one of them through a
`compare_and_set`. -/
def handlesMoved : List Action :=
  [.thread 1 (.sdarcNew 10 100 0 []),.thread 1 (.onNewSdarcAllocated 1),
    .thread 1 (.compareAndSet 0 none (some 0)),.thread 2 (.swap 0 none true),
    .thread 2 (.dropLoad 1),.thread 2 (.dropExchange false),.thread 1 (.incrementThenSet 0),
    .thread 1 (.downgrade 0),.thread 1 .getOrInit,.thread 1 (.newWeakInner 11 101 1),
    .thread 1 (.registerWeakInner 0),.thread 1 .setWeakInner,.thread 1 (.cloneWeakInner 0)]

theorem handlesMoved_conserved :
    ∃ s, run (step ⟨2,3,1,Nat.succ_pos 2⟩) .initial handlesMoved = some s ∧ s.live 0 = 1 ∧
      s.sum ⟨2,3,1,Nat.succ_pos 2⟩ 0 =
        (s.live 0 + cellsIn s.cells 1 0 + weakIn s.heap s.nextPointee 0 : Nat) := by
  obtain ⟨s,hs⟩ := Option.isSome_iff_exists.mp (by decide +kernel :
    (run (step ⟨2,3,1,Nat.succ_pos 2⟩) .initial handlesMoved).isSome = true)
  have hseen : (run (step ⟨2,3,1,Nat.succ_pos 2⟩) .initial handlesMoved).map
      (fun s => ((List.range 3).all (fun t => (s.threads t).pc = .idle),s.live 0,s.nextPointee)) =
      some (true,1,2) := by decide +kernel
  simp only [hs,Option.map_some,Option.some.injEq,Prod.mk.injEq,List.all_eq_true,List.mem_range,
    decide_eq_true_eq] at hseen
  obtain ⟨hidle,hlive,hnext⟩ := hseen
  have hreach : Reach (step ⟨2,3,1,Nat.succ_pos 2⟩) State.freesNothing .initial s := by
    refine reach_of_run (fun t a ha => ?_) hs
    have hthread : a ≠ .collector := (by decide : ∀ a ∈ handlesMoved, a ≠ .collector) a ha
    cases a with
    | collector => contradiction
    | _ => trivial
  have hrest := resting_of_idle (conserved_of_reach hreach).referenced.handles hidle
  exact ⟨s,hs,hlive,reference_counts_conserved hreach hrest (by omega)⟩

end Conserved

/-- A `WeakSdarcInner` is the one in the `weak_inner_ref` of its pointee, or is about to be
put there. -/
structure Origins (s : State) : Prop where
  born : ∀ w p, s.weakInnerOf w p → p < s.nextPointee
  set : ∀ w p, s.weakInnerOf w p → (s.heap p).stage = .allocated →
    (s.heap p).weakInnerRef = .initialized w ∨ ∃ t, (s.threads t).pc.makes p w

section Origins

variable {cfg : Config} {s s' : State}

theorem ThreadStep.made {t : Nat} {op : Op} (hs : ThreadStep cfg s t op s') {p w : Nat}
    (hm : (s.threads t).pc.makes p w) :
    (s'.threads t).pc.makes p w ∨ (s'.heap p).weakInnerRef = .initialized w := by
  have hidle : (s.threads t).pc ≠ .idle := fun hidle => by simp [hidle,ThreadPc.makes] at hm
  cases hs with
  | registerWeakInner shard q x hpc =>
    left
    simpa [hpc,ThreadPc.makes] using hm
  | setWeakInner q x hpc =>
    obtain ⟨rfl,rfl⟩ : q = p ∧ x = w := by simpa [hpc,ThreadPc.makes] using hm
    exact .inr (by simp)
  | stay | releaseFailed => exact .inl hm
  | obtain | recordUsed | claimRecord | pushRecord => exact .inl (by simpa using hm)
  | sdarcNew _ _ _ _ hstart | clone _ _ hstart | dropHandle _ hstart | swap _ _ _ hstart
  | store _ _ _ hstart | loadOwned _ hstart | syncTo _ _ hstart | borrow _ _ hstart
  | dropGuard _ _ _ hstart | release _ hstart | setNull _ _ hstart | compareAndSet _ _ _ hstart
  | downgrade _ hstart | collectorUpdateNowAndWait hstart => exact absurd hstart.1 hidle
  | _ => simp_all [ThreadPc.makes]

theorem ThreadStep.initialized_stays {t : Nat} {op : Op} (hweak : Weak s)
    (hs : ThreadStep cfg s t op s') {p w : Nat}
    (hw : (s.heap p).weakInnerRef = .initialized w) :
    (s'.heap p).weakInnerRef = .initialized w := by
  have hpn : p ≠ s.nextPointee := (hweak.born (by rw [hw]; simp)).ne
  cases hs with
  | sdarcNew => simpa [hpn] using hw
  | newWeakInner => simpa [hpn] using hw
  | startInit q hpc huninit =>
    have hne : p ≠ q := by
      rintro rfl
      rw [hw] at huninit
      contradiction
    simpa [hne] using hw
  | setWeakInner q x hpc =>
    have hrun := hweak.running t q (by simp [hpc,ThreadPc.initializes])
    have hne : p ≠ q := by
      rintro rfl
      rw [hw] at hrun
      contradiction
    simpa [hne] using hw
  | _ => exact hw

theorem Origins.thread {t : Nat} {op : Op} (h : Origins s) (hweak : Weak s)
    (hs : ThreadStep cfg s t op s') : Origins s' := by
  have hold : ∀ w p, (w ≠ s.nextPointee ∨ s'.nextPointee = s.nextPointee) →
      s'.weakInnerOf w p → s.weakInnerOf w p := by
    intro w p hw hof
    rwa [State.weakInnerOf,hs.data hw] at hof
  -- a `WeakSdarcInner` is born in the hands of the thread that makes it
  have hnew : ∀ p, s'.nextPointee ≠ s.nextPointee → s'.weakInnerOf s.nextPointee p →
      (s'.threads t).pc.makes p s.nextPointee ∧ p < s.nextPointee := by
    intro p hnext hof
    cases hs with
    | sdarcNew => simp [State.weakInnerOf] at hof
    | newWeakInner ptr countersPtr shard q hpc =>
      obtain rfl : q = p := by simpa [State.weakInnerOf] using hof
      have hrun := hweak.running t q (by simp [hpc,ThreadPc.initializes])
      exact ⟨by simp [ThreadPc.makes],hweak.born (by rw [hrun]; simp)⟩
    | _ => exact absurd rfl hnext
  have hle : s.nextPointee ≤ s'.nextPointee := by
    rcases hs.next with hnext | ⟨-,hnext⟩ <;> omega
  constructor
  · intro w p hof
    by_cases hw : w ≠ s.nextPointee ∨ s'.nextPointee = s.nextPointee
    · exact (h.born w p (hold w p hw hof)).trans_le hle
    · obtain ⟨rfl,hnext⟩ : w = s.nextPointee ∧ _ := by simpa using hw
      exact (hnew p hnext hof).2.trans_le hle
  · intro w p hof hstage
    by_cases hw : w ≠ s.nextPointee ∨ s'.nextPointee = s.nextPointee
    · have hof₀ := hold w p hw hof
      have hp := h.born w p hof₀
      rw [(hs.frame (.inl hp.ne)).2.2] at hstage
      rcases h.set w p hof₀ hstage with hi | ⟨u,hm⟩
      · exact .inl (hs.initialized_stays hweak hi)
      · by_cases hut : u = t
        · subst hut
          exact (hs.made hm).symm.imp id (fun hm' => ⟨u,hm'⟩)
        · exact .inr ⟨u,by rwa [hs.others hut]⟩
    · obtain ⟨rfl,hnext⟩ : w = s.nextPointee ∧ _ := by simpa using hw
      exact .inr ⟨t,(hnew p hnext hof).1⟩

theorem Origins.collector (h : Origins s) (htracking : Tracking cfg s)
    (hs : CollectorStep cfg s s') : Origins s' := by
  have hold : ∀ w p, s'.weakInnerOf w p → s.weakInnerOf w p :=
    fun w p => ((hs.identity htracking w).weakInnerOf p).mpr
  refine ⟨fun w p hof => hs.nextPointee ▸ h.born w p (hold w p hof),fun w p hof hstage => ?_⟩
  have hstage₀ := (hs.identity htracking p).allocated hstage
  rcases h.set w p (hold w p hof) hstage₀ with hi | ⟨t,hm⟩
  · left
    cases hs with
    | dropWeakInnerRef it q x hc =>
      have hne : p ≠ q := by
        rintro rfl
        rw [htracking.lists.dropping it p _ hc] at hstage₀
        contradiction
      simpa [hne] using hi
    | free it key toFree e => by_cases hpe : p = e.pointee <;> simp_all
    | dropCounters it q => by_cases hpq : p = q <;> simp_all
    | dropMemory it q => by_cases hpq : p = q <;> simp_all
    | weakBackRefCleared it key x =>
      rw [(SameMemory.resume _ _ _).heap]
      by_cases hpx : p = x <;> simp_all
    | startUpdate | readShard | finishPass | weakRefNotInvolved | weakBackRefWasAlreadyNull =>
      rwa [(SameMemory.resume _ _ _).heap]
    | _ => exact hi
  · right
    refine ⟨t,?_⟩
    rcases (hs.thread t).2 with heq | ⟨hpc,-⟩ | ⟨hpc,-⟩
    · rwa [heq]
    · simp [hpc,ThreadPc.makes] at hm
    · simp [hpc,ThreadPc.makes] at hm

theorem safe_origins (h : Reach (step cfg) (State.covered cfg) .initial s) :
    Safe cfg s ∧ Origins s := by
  refine h.invariant (fun s => Safe cfg s ∧ Origins s)
    ⟨safe_initial cfg,by constructor <;> simp [State.weakInnerOf,State.initial]⟩ ?_
  rintro s a s' ⟨hsafe,ho⟩ hcov hs
  refine ⟨hsafe.step hcov (step_cases hs),?_⟩
  cases step_cases hs with
  | thread t op _ _ hs => exact ho.thread hsafe.references.weak hs
  | collector _ hs => exact ho.collector hsafe.tracking hs
  | finishDestructor panicked it p hc => exact ⟨ho.born,ho.set⟩

end Origins

section WeakCount

variable {cfg : Config} {s s' : State}

def Action.writesCell : Action → Bool
  | .thread _ (.swap _ _ _) => true
  | .thread _ (.compareAndSet _ _ _) => true
  | _ => false

def State.estimateStrongCount (cfg : Config) (s : State) (p : Nat) : Int :=
  ∑ i ∈ Finset.range cfg.shards, (s.counter p i).refCount

def State.estimateWeakCount (cfg : Config) (s : State) (p : Nat) : Int :=
  match (s.heap p).weakInnerRef with
  | .initialized w => s.estimateStrongCount cfg w
  | _ => 0

/-- The number of `WeakSdarc`s to `p`: the handles to its `WeakSdarcInner`s. -/
def State.weakHandles (s : State) (p : Nat) : Nat :=
  ∑ w ∈ Finset.range s.nextPointee,
    match (s.heap w).data with
    | .weakSdarcInner origin _ => if origin = p then s.live w else 0
    | .user _ => 0

theorem weakHandles_eq {p w : Nat} (hw : w < s.nextPointee) (hof : s.weakInnerOf w p)
    (honly : ∀ x, s.weakInnerOf x p → x = w) : s.weakHandles p = s.live w := by
  unfold State.weakHandles
  rw [Finset.sum_eq_single_of_mem w (Finset.mem_range.mpr hw)]
  · obtain ⟨b,hb⟩ := hof
    simp [hb]
  · intro x _ hx
    split
    · rename_i o b hd
      split
      · rename_i ho
        subst ho
        exact absurd (honly x ⟨b,hd⟩) hx
      · rfl
    · rfl

theorem weakHandles_eq_zero {p : Nat} (hnone : ∀ x, ¬ s.weakInnerOf x p) :
    s.weakHandles p = 0 := by
  refine Finset.sum_eq_zero (fun x _ => ?_)
  split
  · rename_i o b hd
    split
    · rename_i ho
      subst ho
      exact absurd ⟨b,hd⟩ (hnone x)
    · rfl
  · rfl

theorem Weak.weakIn_eq_one {p w : Nat} (h : Weak s)
    (hw : (s.heap p).weakInnerRef = .initialized w) :
    weakIn s.heap s.nextPointee w = 1 := by
  unfold weakIn
  rw [Finset.sum_eq_single_of_mem p (Finset.mem_range.mpr (h.born (by rw [hw]; simp)))]
  · simp [hw]
  · intro q _ hq
    refine if_neg (fun hqw => hq ?_)
    exact weakInnerOf_unique (h.initialized p w hw) (h.initialized q w hqw)

theorem cells_null (h : Reach (step cfg) (fun _ a => a.writesCell = false) .initial s) :
    ∀ c, s.cells c = none := by
  refine h.invariant (fun s => ∀ c, s.cells c = none) (fun _ => rfl) ?_
  intro s a s' hnull ha hs
  cases step_cases hs with
  | thread t op _ _ hs =>
    cases hs with
    | swap | store | setNull | compareAndSet => simp [Action.writesCell] at ha
    | stay => exact hnull
    | _ => exact hnull
  | collector _ hs =>
    cases hs with
    | weakBackRefCleared =>
      rw [(SameMemory.resume _ _ _).cells]
      exact hnull
    | startUpdate | readShard | finishPass | weakRefNotInvolved | weakBackRefWasAlreadyNull =>
      rw [(SameMemory.resume _ _ _).cells]
      exact hnull
    | _ => exact hnull
  | finishDestructor => exact hnull

/-- What `estimate_weak_count` returns when no operation is in progress: the number of
`WeakSdarc`s, and one more from the first downgrade on. -/
theorem estimateWeakCount_eq
    (h : Reach (step cfg) (fun _ a => a.writesCell = false) .initial s) (hrest : s.resting)
    {p : Nat} (hlive : 0 < s.live p) :
    s.estimateWeakCount cfg p = s.weakHandles p +
      match (s.heap p).weakInnerRef with
      | .initialized _ => 1
      | _ => 0 := by
  have hcas : Reach (step cfg) (fun _ a => a.isCompareAndSet = false) .initial s := by
    refine Reach.mono (fun _ a ha => ?_) h
    unfold Action.isCompareAndSet
    split
    · simp [Action.writesCell] at ha
    · rfl
  obtain ⟨hsafe,horigins⟩ := safe_origins (reach_covered hcas)
  have hweak := hsafe.references.weak
  have hstage := hsafe.references.allocated_of_live hlive
  have hset : ∀ x, s.weakInnerOf x p → (s.heap p).weakInnerRef = .initialized x := by
    intro x hx
    rcases horigins.set x p hx hstage with hi | ⟨t,hm⟩
    · exact hi
    · rcases hrest t with ht | ht <;> simp [ht,ThreadPc.makes] at hm
  unfold State.estimateWeakCount
  cases hw : (s.heap p).weakInnerRef with
  | initialized w =>
    have hof := hweak.initialized p w hw
    have hborn := hweak.weakInner_born hof
    have hhandles := weakHandles_eq hborn hof
      (fun x hx => OnceLock.initialized.inj ((hset x hx).symm.trans hw))
    have hone := hweak.weakIn_eq_one hw
    have hcells : cellsIn s.cells cfg.cells w = 0 :=
      Finset.sum_eq_zero (fun c _ => by simp [cells_null h c])
    have hown : 0 < s.owners cfg w := weakInner_owned (hweak.born (by rw [hw]; simp)) hw
    have hsum : s.sum cfg w = (s.owners cfg w : Int) - s.debt cfg w :=
      (hsafe.references.counted w (hsafe.references.allocated_of_owned hown)).1
    rw [hrest.debtless.debt_eq_zero,hrest.owners,hcells,hone] at hsum
    rw [hhandles]
    simp only [State.estimateStrongCount]
    unfold State.sum at hsum
    rw [hsum]
    simp
  | uninit =>
    rw [weakHandles_eq_zero (fun x hx => by simp [hw] at hset; exact hset x hx)]
    rfl
  | running t =>
    rw [weakHandles_eq_zero (fun x hx => by simp [hw] at hset; exact hset x hx)]
    rfl

/-- It is the number of `WeakSdarc`s exactly until the first downgrade. -/
theorem estimateWeakCount_eq_weakHandles_iff
    (h : Reach (step cfg) (fun _ a => a.writesCell = false) .initial s) (hrest : s.resting)
    {p : Nat} (hlive : 0 < s.live p) :
    s.estimateWeakCount cfg p = s.weakHandles p ↔
      ∀ w, (s.heap p).weakInnerRef ≠ .initialized w := by
  rw [estimateWeakCount_eq h hrest hlive]
  cases hw : (s.heap p).weakInnerRef <;> simp

def downgradedOnce : List Action :=
  [.thread 1 (.sdarcNew 10 100 0 []),.thread 1 (.onNewSdarcAllocated 0),
    .thread 1 (.downgrade 0),.thread 1 .getOrInit,.thread 1 (.newWeakInner 11 101 1),
    .thread 1 (.registerWeakInner 0),.thread 1 .setWeakInner,.thread 1 (.cloneWeakInner 0)]

theorem downgradedOnce_reach : ∃ s,
    Reach (step ⟨2,2,1,Nat.succ_pos 1⟩) (fun _ a => a.writesCell = false) .initial s ∧
    s.resting ∧ 0 < s.live 0 ∧ s.estimateWeakCount ⟨2,2,1,Nat.succ_pos 1⟩ 0 = 2 ∧
    s.weakHandles 0 = 1 := by
  obtain ⟨s,hs⟩ := Option.isSome_iff_exists.mp (by decide +kernel :
    (run (step ⟨2,2,1,Nat.succ_pos 1⟩) .initial downgradedOnce).isSome = true)
  have hseen : (run (step ⟨2,2,1,Nat.succ_pos 1⟩) .initial downgradedOnce).map
      (fun s => ((List.range 2).all (fun t => (s.threads t).pc = .idle),s.live 0,
        s.estimateWeakCount ⟨2,2,1,Nat.succ_pos 1⟩ 0,s.weakHandles 0)) = some (true,1,2,1) := by
    decide +kernel
  simp only [hs,Option.map_some,Option.some.injEq,Prod.mk.injEq,List.all_eq_true,List.mem_range,
    decide_eq_true_eq] at hseen
  obtain ⟨hidle,hlive,hestimate,hhandles⟩ := hseen
  have hreach : Reach (step ⟨2,2,1,Nat.succ_pos 1⟩) (fun _ a => a.writesCell = false) .initial s :=
    reach_of_run (fun _ => by decide) hs
  have hcovered : Reach (step ⟨2,2,1,Nat.succ_pos 1⟩) (fun _ a => a.isCompareAndSet = false)
      .initial s := reach_of_run (fun _ => by decide) hs
  have hsafe := safe_of_reach (reach_covered hcovered)
  exact ⟨s,hreach,resting_of_idle hsafe.references.handles hidle,by omega,hestimate,hhandles⟩

/-- After one downgrade it is two. -/
theorem estimateWeakCount_counts_one_more : ¬ ∀ cfg s,
    Reach (step cfg) (fun _ a => a.writesCell = false) .initial s → s.resting →
    ∀ p, 0 < s.live p → s.estimateWeakCount cfg p = s.weakHandles p := by
  intro hall
  obtain ⟨s,hreach,hrest,hlive,hestimate,hhandles⟩ := downgradedOnce_reach
  have heq := hall _ s hreach hrest 0 hlive
  rw [hestimate,hhandles] at heq
  contradiction

theorem downgradedOnce_miscounted : ∃ s : State,
    (∃ w, (s.heap 0).weakInnerRef = .initialized w) ∧
    s.estimateWeakCount ⟨2,2,1,Nat.succ_pos 1⟩ 0 ≠ s.weakHandles 0 := by
  obtain ⟨s,hreach,hrest,hlive,hestimate,hhandles⟩ := downgradedOnce_reach
  have hne : s.estimateWeakCount ⟨2,2,1,Nat.succ_pos 1⟩ 0 ≠ s.weakHandles 0 := by
    rw [hestimate,hhandles]
    decide
  have hiff := estimateWeakCount_eq_weakHandles_iff hreach hrest hlive
  exact ⟨s,by simpa using mt hiff.mpr hne,hne⟩

end WeakCount

end Sdarc.System
