import Sdarc.System.HazardRecords
set_option autoImplicit false

/-!
An `AtomicSdarc` is an `AtomicNullableSdarc` that is never null: its methods unwrap what those
inside return, and what they are given is never null.
-/

namespace Sdarc.System
open Transition

/-- On the cell `c` only the methods of `AtomicSdarc` are called. -/
def Action.ofAtomicSdarc (c : Nat) : Action → Prop
  | .thread _ (.swap d new _) => d = c → new ≠ none
  | .thread _ (.syncTo d target) => d = c → target ≠ none
  | .thread _ (.compareAndSet d ifMatches thenSet) =>
      d = c → ifMatches ≠ none ∧ thenSet ≠ none
  | _ => True

/-- The step returns null to a method of `AtomicSdarc` on the cell `c`: `load_owned` and
`sync_to` at the end of the critical section, `borrow` there or at its first load. -/
def State.unwrapsNull (s : State) (c : Nat) : Action → Prop
  | .thread t .leaveSection => ∃ after, (s.threads t).pc = .loadLeave (.cell c) after none
  | .thread _ (.borrow src) => src = .cell c ∧ s.cells c = none
  | .thread _ (.swap d _ _) => d = c ∧ s.cells c = none
  | .thread _ (.compareAndSet d _ _) => d = c ∧ s.cells c = none
  | _ => False

structure NonNull (c : Nat) (s : State) : Prop where
  cell : s.cells c ≠ none
  reads : ∀ t after, (s.threads t).pc ≠ .loadLeave (.cell c) after none

section NonNull

variable {cfg : Config} {s s' : State} {c t : Nat}

theorem setCell_ne_none {d : Nat} {o : Option Nat} (h : s.cells c ≠ none) (ho : d = c → o ≠ none) :
    Function.update s.cells d o c ≠ none := by
  by_cases hd : c = d
  · subst hd
    simpa using ho rfl
  · simpa [hd] using h

theorem ThreadStep.nonNull_cell {op : Op} (h : NonNull c s) (hs : ThreadStep cfg s t op s')
    (hop : (Action.thread t op).ofAtomicSdarc c) : s'.cells c ≠ none := by
  cases hs with
  | swap d new discard => exact setCell_ne_none h.cell hop
  | store d new old => exact setCell_ne_none h.cell hop
  | setNull d ifMatches => exact setCell_ne_none h.cell (fun hd => (hop hd).2)
  | compareAndSet d ifMatches p => exact setCell_ne_none h.cell (fun hd => (hop hd).2)
  | _ => exact h.cell

theorem ThreadStep.nonNull_read {op : Op} (h : NonNull c s) (hs : ThreadStep cfg s t op s')
    (after : Option Nat) : (s'.threads t).pc ≠ .loadLeave (.cell c) after none := by
  have hold := h.reads t after
  cases hs with
  | loadNull src after' hpc hload =>
    intro heq
    obtain ⟨rfl,-⟩ : src = .cell c ∧ after' = after := by simpa using heq
    exact h.cell hload
  | stay | clone | swap | releaseFailed | setNull => exact hold
  | obtain | recordUsed | claimRecord | pushRecord | dropGuard | release => simpa using hold
  | _ => simp

theorem NonNull.step {a : Action} (h : NonNull c s) (ha : a.ofAtomicSdarc c)
    (hs : SystemStep cfg s a s') : NonNull c s' := by
  cases hs with
  | thread t op _ _ hs =>
    refine ⟨hs.nonNull_cell h ha,fun u after => ?_⟩
    by_cases hu : u = t
    · subst hu
      exact hs.nonNull_read h after
    · rw [hs.others hu]
      exact h.reads u after
  | collector _ hs =>
    refine ⟨hs.handles.2 ▸ h.cell,fun t after => ?_⟩
    rcases (hs.thread t).2 with heq | ⟨-,heq⟩ | ⟨-,w,heq⟩ <;> rw [heq]
    · exact h.reads t after
    · simp
    · simp
  | finishDestructor => exact ⟨h.cell,h.reads⟩

/-- No `unwrap` of an `AtomicSdarc` ever meets null, whatever happens to other cells. -/
theorem atomicSdarc_never_null {s₀ : State} (h₀ : NonNull c s₀)
    (h : Reach (step cfg) (fun _ a => a.ofAtomicSdarc c) s₀ s) (a : Action) :
    ¬ s.unwrapsNull c a := by
  have hnonNull : NonNull c s :=
    h.invariant (NonNull c) h₀ (fun _ _ _ hn ha hs => hn.step ha (step_cases hs))
  unfold State.unwrapsNull
  split
  · exact fun ⟨after,hpc⟩ => hnonNull.reads _ after hpc
  · exact fun hnull => hnonNull.cell hnull.2
  · exact fun hnull => hnonNull.cell hnull.2
  · exact fun hnull => hnonNull.cell hnull.2
  · exact id

def cellFilled : List Action :=
  [.thread 1 (.sdarcNew 10 100 0 []),.thread 1 (.onNewSdarcAllocated 0),
    .thread 1 (.swap 0 (some 0) false)]

def storedWhileLoaded : List Action :=
  [.thread 2 (.loadOwned (.cell 0)),.thread 2 .obtain,.thread 2 .obtainNext,
    .thread 2 .enterSection,.thread 1 (.sdarcNew 11 101 0 []),.thread 1 (.onNewSdarcAllocated 0),
    .thread 1 (.swap 0 (some 1) true),.thread 2 .loadPointer,.thread 2 (.loadIncrement 0)]

theorem storedWhileLoaded_not_null : ∃ s₀ s,
    run (step ⟨1,3,1,by decide⟩) .initial cellFilled = some s₀ ∧
    run (step ⟨1,3,1,by decide⟩) s₀ storedWhileLoaded = some s ∧
    ∀ a, ¬ s.unwrapsNull 0 a := by
  have hsome : (run (step ⟨1,3,1,by decide⟩) .initial cellFilled).isSome = true := by
    decide +kernel
  have hsome' : (run (step ⟨1,3,1,by decide⟩)
      ((run (step ⟨1,3,1,by decide⟩) .initial cellFilled).get hsome) storedWhileLoaded).isSome =
      true := by rfl
  have hcell : ((run (step ⟨1,3,1,by decide⟩) .initial cellFilled).get hsome).cells 0 = some 0 := by
    rfl
  have hidle : ∀ t, t < 3 → (((run (step ⟨1,3,1,by decide⟩) .initial cellFilled).get
      hsome).threads t).pc = .idle := by
    intro t ht
    obtain rfl | rfl | rfl : t = 0 ∨ t = 1 ∨ t = 2 := by omega
    all_goals rfl
  have hsafe := safe_of_reach (reach_covered
    (reach_run (fun _ => by decide) hsome))
  refine ⟨_,_,(Option.some_get hsome).symm,(Option.some_get hsome').symm,
    atomicSdarc_never_null (c := 0) ⟨by simp [hcell],fun t after => ?_⟩
      (reach_run (fun _ a ha => ?_) hsome')⟩
  · rcases Nat.lt_or_ge t 3 with ht | ht
    · simp [hidle t ht]
    · simp [hsafe.references.handles.threads t ht]
  · revert a
    simp [storedWhileLoaded,Action.ofAtomicSdarc]

end NonNull

end Sdarc.System
