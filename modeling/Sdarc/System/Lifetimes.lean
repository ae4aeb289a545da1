import Sdarc.System.Safety
set_option autoImplicit false

/-!
No step uses a pointee after its destructor has been started. This holds of every run
without `compare_and_set`, and of every run in which no decrement undercuts the increment
that a `compare_and_set` still owes.
-/

namespace Sdarc.System
open Transition

def Action.isCompareAndSet : Action → Bool
  | .thread _ (.compareAndSet _ _ _) => true
  | _ => false

def State.debtless (s : State) : Prop :=
  ∀ t p original, (s.threads t).pc ≠ .incrementThenSet p original

section Debtless

variable {cfg : Config} {s s' : State}

theorem State.debtless.debt_eq_zero (h : s.debtless) (p : Nat) : s.debt cfg p = 0 := by
  unfold State.debt owedIn
  refine Finset.sum_eq_zero (fun t _ => ?_)
  have ht := h t
  cases hpc : (s.threads t).pc <;> simp_all [ThreadPc.owes]

theorem State.debtless.covered (h : s.debtless) (a : Action) : s.covered cfg a := by
  unfold State.covered
  split
  · trivial
  · rename_i p _
    intro hdebt
    rw [h.debt_eq_zero p] at hdebt
    contradiction

theorem ThreadStep.debtless {t : Nat} {op : Op} (hs : ThreadStep cfg s t op s')
    (h : s.debtless) (hop : (Action.thread t op).isCompareAndSet = false) : s'.debtless := by
  intro t' p original
  by_cases ht : t' = t
  · subst ht
    have hold := h t' p original
    cases hs with
    | compareAndSet => simp [Action.isCompareAndSet] at hop
    | stay | clone | swap | setNull | releaseFailed => exact hold
    | dropGuard | obtain | recordUsed | claimRecord | pushRecord | release =>
      simpa using hold
    | _ => simp
  · rw [hs.others ht]
    exact h t' p original

/-- The collector wakes threads up, starts an operation of its own thread at most by
dropping a handle, and leaves guards alone. -/
theorem CollectorStep.thread (hs : CollectorStep cfg s s') (t : Nat) :
    (s'.threads t).guards = (s.threads t).guards ∧
      ((s'.threads t).pc = (s.threads t).pc ∨
        (s.threads t).pc = .waiting ∧ (s'.threads t).pc = .idle ∨
        (s.threads t).pc = .idle ∧ ∃ w, (s'.threads t).pc = .drop w) := by
  cases hs with
  | dropWeakInnerRef it p w _ _ hidle =>
    by_cases ht : t = 0
    · subst ht
      exact ⟨by simp,.inr (.inr ⟨hidle,w,by simp⟩)⟩
    · exact ⟨by simp [ht],.inl (by simp [ht])⟩
  | endOuterIteration =>
    simp only [State.endOuterIteration]
    split
    · rename_i hwaiting
      exact ⟨rfl,.inr (.inl ⟨hwaiting.2,rfl⟩)⟩
    · exact ⟨rfl,.inl rfl⟩
  | weakBackRefCleared =>
    rw [(SameMemory.resume _ _ _).threads]
    exact ⟨rfl,.inl rfl⟩
  | startUpdate | readShard | finishPass | weakRefNotInvolved | weakBackRefWasAlreadyNull =>
    rw [(SameMemory.resume _ _ _).threads]
    exact ⟨rfl,.inl rfl⟩
  | _ => exact ⟨rfl,.inl rfl⟩

theorem SystemStep.debtless {a : Action} (hs : SystemStep cfg s a s') (h : s.debtless)
    (ha : a.isCompareAndSet = false) : s'.debtless := by
  cases hs with
  | thread t op _ _ hs => exact hs.debtless h ha
  | collector _ hs =>
    intro t p original
    rcases (hs.thread t).2 with heq | ⟨-,heq⟩ | ⟨-,w,heq⟩ <;> rw [heq]
    · exact h t p original
    · simp
    · simp
  | finishDestructor => exact h

theorem reach_covered (h : Reach (step cfg) (fun _ a => a.isCompareAndSet = false) .initial s) :
    Reach (step cfg) (State.covered cfg) .initial s := by
  have hboth := h.invariant
    (fun s => Reach (step cfg) (State.covered cfg) .initial s ∧ s.debtless)
    ⟨.refl,fun _ _ _ => by simp [State.initial]⟩
    (fun s a s' ⟨hr,hd⟩ ha hs =>
      ⟨hr.tail ⟨a,hd.covered a,hs⟩,(step_cases hs).debtless hd ha⟩)
  exact hboth.1

end Debtless

structure State.Unreferenced (s : State) (p : Nat) : Prop where
  live : s.live p = 0
  cells : ∀ c, s.cells c ≠ some p
  owned : ∀ t, (s.threads t).pc.owned p = 0
  pins : ∀ t, ¬ (s.threads t).pc.pins p
  entering : ∀ t, ¬ (s.threads t).pc.entering p
  guards : ∀ t j, (s.threads t).guards j ≠ some p
  weakInnerRef : ∀ q, (s.heap q).weakInnerRef ≠ .initialized p

/-- The step reads or writes the counters or the data of `p`. -/
def State.accesses (s : State) (p : Nat) : Action → Prop
  | .thread _ (.clone q _) => q = p
  | .thread _ (.deref q) => q = p
  | .thread t (.derefGuard j) => (s.threads t).guards j = some p
  | .thread t (.dropLoad _) => (s.threads t).pc = .drop p
  | .thread t (.dropExchange _) =>
      ∃ shard value, (s.threads t).pc = .dropExchange p shard value
  | .thread t .loadPointer => ∃ after, (s.threads t).pc = .loadPointer (.backRef p) after
  | .thread t (.loadIncrement _) => (s.threads t).pc.entering p
  | .thread _ (.borrow src) => src = .backRef p
  | .thread t .reload =>
      ∃ j address, (s.threads t).pc = .borrowReload (.backRef p) j address
  | .thread t (.incrementThenSet _) =>
      ∃ original, (s.threads t).pc = .incrementThenSet p original
  | .thread t .getOrInit => (s.threads t).pc = .getOrInit p
  | .thread t .setWeakInner => ∃ w, (s.threads t).pc = .setWeakInner p w
  | .thread t (.cloneWeakInner _) => ∃ q, (s.threads t).pc = .cloneWeakInner q p
  | .collector =>
      (∃ it key pc e, s.collector = .checking it key pc ∧ s.tracked[key]? = some e ∧
        e.pointee = p) ∨
      ∃ it key, s.collector = .unlinking it key p
  | _ => False

section Safe

variable {cfg : Config} {s s' : State} {p : Nat}

theorem State.freed.not_allocated (h : s.freed p) : (s.heap p).stage ≠ .allocated := by
  intro ha
  rcases h with h | h <;> simp [ha] at h

theorem Safe.unreferenced (h : Safe cfg s) (hp : s.freed p) : s.Unreferenced p := by
  have hr := h.references
  have hnot := hp.not_allocated
  refine ⟨?_,?_,?_,?_,?_,?_,?_⟩
  · by_contra hne
    exact hnot (hr.allocated_of_live (Nat.pos_of_ne_zero hne))
  · exact fun c hc => hnot (hr.allocated_of_owned (hr.handles.cell_owned hc))
  · intro t
    by_contra hne
    have hlt := hr.handles.thread_lt (t := t)
      (fun hidle => hne (by simp [hidle,ThreadPc.owned]))
    exact hnot (hr.allocated_of_owned_pc hlt (Nat.pos_of_ne_zero hne))
  · exact fun t ht => hnot (hr.allocated_of_pinned ht)
  · exact fun t ht => hnot (hr.allocated_of_entering ht)
  · exact fun t j hg => hnot (hr.allocated_of_guard hg)
  · intro q hq
    have hborn := hr.weak.born (p := q) (by rw [hq]; simp)
    exact hnot (hr.allocated_of_owned (weakInner_owned hborn hq))

theorem Safe.checking_allocated (h : Safe cfg s) {it : Iter} {key : Nat} {pc : UpdatePc}
    (hc : s.collector = .checking it key pc) :
    ∃ e, s.tracked[key]? = some e ∧ (s.heap e.pointee).countersPtr = key ∧
      ¬ s.freed e.pointee := by
  obtain ⟨e,he,-⟩ := h.checking_known hc
  obtain ⟨hstage,hkey⟩ := h.tracking.places.trackedOk key e he
  exact ⟨e,he,hkey,fun hf => hf.not_allocated hstage⟩

theorem not_accessed_of_freed (h : Safe cfg s) (hp : s.freed p) {a : Action}
    (hs : step cfg s a = some s') : ¬ s.accesses p a := by
  have hun := h.unreferenced hp
  intro ha
  cases a with
  | finishDestructor => exact ha
  | collector =>
    rcases ha with ⟨it,key,pc,e,hc,he,rfl⟩ | ⟨it,key,hc⟩
    · obtain ⟨e',he',-,hnot⟩ := h.checking_allocated hc
      obtain rfl : e = e' := Option.some.inj (he.symm.trans he')
      exact hnot hp
    · obtain ⟨e,-,hw⟩ := h.unlinking it key p hc
      exact hun.weakInnerRef _ hw
  | thread t op =>
    have hrun := step_cases hs
    simp only [step,Option.ite_none_right_eq_some] at hs
    obtain ⟨-,hs⟩ := hs
    have hlive := hun.live
    have howned := hun.owned t
    have hpins := hun.pins t
    cases op with
    | clone q shard =>
      obtain rfl : q = p := ha
      simp only [Op.run,State.clone,Option.ite_none_right_eq_some] at hs
      omega
    | deref q =>
      obtain rfl : q = p := ha
      simp only [Op.run,State.deref,Option.ite_none_right_eq_some] at hs
      omega
    | borrow src =>
      obtain rfl : src = .backRef p := ha
      simp only [Op.run,State.borrow,Option.ite_none_right_eq_some] at hs
      exact absurd hs.1.2.1 (by omega)
    | derefGuard j => exact hun.guards t j ha
    | loadIncrement shard => exact hun.entering t ha
    | dropLoad shard =>
      simp [show (s.threads t).pc = .drop p from ha,ThreadPc.owned] at howned
    | dropExchange spurious =>
      obtain ⟨shard,value,hpc⟩ := ha
      simp [hpc,ThreadPc.owned] at howned
    | loadPointer =>
      obtain ⟨after,hpc⟩ := ha
      simp [hpc,ThreadPc.pins] at hpins
    | reload =>
      obtain ⟨j,address,hpc⟩ := ha
      simp [hpc,ThreadPc.pins] at hpins
    | incrementThenSet shard =>
      obtain ⟨original,hpc⟩ := ha
      simp [hpc,ThreadPc.pins] at hpins
    | getOrInit => simp [show (s.threads t).pc = .getOrInit p from ha,ThreadPc.pins] at hpins
    | setWeakInner =>
      obtain ⟨w,hpc⟩ := ha
      simp [hpc,ThreadPc.pins] at hpins
    | cloneWeakInner shard =>
      obtain ⟨q,hpc⟩ := ha
      exact hun.weakInnerRef q (h.references.weak.cloned t q p hpc)
    | _ => exact ha

end Safe

section Run

variable {cfg : Config} {s : State}

/-- Without `compare_and_set`, a pointee whose destructor has been started is not owned,
and no step uses it. A reader that has loaded a pointee keeps it until its increment. -/
theorem no_use_after_free
    (h : Reach (step cfg) (fun _ a => a.isCompareAndSet = false) .initial s) :
    (∀ p, s.freed p → s.Unreferenced p ∧
      ∀ a s', step cfg s a = some s' → ¬ s.accesses p a) ∧
    (∀ t src after p, (s.threads t).pc = .loadIncrement src after p → ¬ s.freed p) ∧
    ∀ it key pc, s.collector = .checking it key pc → ∃ e, s.tracked[key]? = some e ∧
      (s.heap e.pointee).countersPtr = key ∧ ¬ s.freed e.pointee := by
  have hsafe := safe_of_reach (reach_covered h)
  refine ⟨fun p hp => ⟨hsafe.unreferenced hp,fun a s' hs => not_accessed_of_freed hsafe hp hs⟩,
    fun t src after p hpc hp => ?_,fun it key pc hc => hsafe.checking_allocated hc⟩
  exact (hsafe.unreferenced hp).entering t (by simp [hpc,ThreadPc.entering])

/-- A reader is paused between its load and its increment while the cell is emptied and the
old handle dropped; the collector waits for it, and later frees the pointee. -/
def pausedReader : List Action :=
  [.thread 1 (.sdarcNew 10 100 0 []),.thread 1 (.onNewSdarcAllocated 0),
    .thread 1 (.swap 0 (some 0) false),.thread 2 (.loadOwned (.cell 0)),
    .thread 2 .obtain,.thread 2 .obtainNext,.thread 2 .enterSection,.thread 2 .loadPointer,
    .thread 1 (.swap 0 none true),.thread 1 (.dropLoad 0),.thread 1 (.dropExchange false)] ++
  List.replicate 30 .collector ++
  [.thread 2 (.loadIncrement 0),.thread 2 .leaveSection,.thread 2 (.dropHandle 0),
    .thread 2 (.dropLoad 0),.thread 2 (.dropExchange false)] ++
  List.replicate 35 .collector

theorem pausedReader_unreferenced :
    ((run (step ⟨1,3,1,by decide⟩) .initial pausedReader).get (by rfl)).Unreferenced 0 :=
  ((no_use_after_free (reach_run (fun _ => by decide) (by rfl))).1 0 (by decide)).1

/-- As long as no decrement undercuts an increment that is owed, the pointee that a
`compare_and_set` has stored stays until its increment, and so does all that is owned. -/
theorem no_use_after_free_of_covered (h : Reach (step cfg) (State.covered cfg) .initial s) :
    (∀ p, s.freed p → s.Unreferenced p ∧
      ∀ a s', step cfg s a = some s' → ¬ s.accesses p a) ∧
    ∀ t p original, (s.threads t).pc = .incrementThenSet p original → ¬ s.freed p := by
  have hsafe := safe_of_reach h
  refine ⟨fun p hp => ⟨hsafe.unreferenced hp,fun a s' hs => not_accessed_of_freed hsafe hp hs⟩,
    fun t p original hpc hp => ?_⟩
  exact (hsafe.unreferenced hp).pins t (by simp [hpc,ThreadPc.pins])

/-- The pointee given to `compare_and_set` is stored, and taken out and dropped by another
thread before its increment; with the count of the other handle it survives. -/
def coveredStore : List Action :=
  [.thread 1 (.sdarcNew 10 100 0 []),.thread 1 (.onNewSdarcAllocated 0),.thread 1 (.clone 0 0),
    .thread 1 (.compareAndSet 0 none (some 0)),.thread 2 (.swap 0 none true),
    .thread 2 (.dropLoad 0),.thread 2 (.dropExchange false)] ++
  List.replicate 24 .collector

theorem coveredStore_not_freed :
    ¬ ((run (guarded (step ⟨1,3,1,by decide⟩) (State.covered ⟨1,3,1,by decide⟩)) .initial
      coveredStore).get (by rfl)).freed 0 :=
  (no_use_after_free_of_covered (reach_guarded (by rfl))).2 1 0 none (by rfl)

def undercutStore : List Action :=
  [.thread 1 (.sdarcNew 10 100 0 []),.thread 1 (.onNewSdarcAllocated 0),
    .thread 1 (.compareAndSet 0 none (some 0)),.thread 2 (.swap 0 none true),
    .thread 2 (.dropLoad 0),.thread 2 (.dropExchange false)] ++
  List.replicate 22 .collector

theorem undercutStore_freed :
    ∃ s, Reach (step ⟨1,3,1,by decide⟩) (fun _ _ => True) .initial s ∧ s.freed 0 ∧
      s.live 0 = 1 ∧ (s.threads 1).pc = .incrementThenSet 0 none ∧
      ∃ s', step ⟨1,3,1,by decide⟩ s (.thread 1 (.incrementThenSet 0)) = some s' ∧
        s.accesses 0 (.thread 1 (.incrementThenSet 0)) :=
  ⟨(run (step ⟨1,3,1,by decide⟩) .initial undercutStore).get (by rfl),
    reach_run (fun _ _ _ => trivial) (by rfl),by decide,by decide,by rfl,_,by rfl,none,by rfl⟩

end Run

end Sdarc.System
