import Sdarc.System.Conservation
set_option autoImplicit false

/-!
The program compares pointers by address, and addresses are handed out again. Of pointees
that are kept alive by a handle or by a cell the address tells them apart: a comparison
never takes a later pointee for an earlier one at the same address.
-/

namespace Sdarc.System
open Transition

def OneWeakInner (s : State) : Prop :=
  ∀ w w' p, s.weakInnerOf w p → s.weakInnerOf w' p → w = w'

section WeakInner

variable {cfg : Config} {s s' : State}

theorem OneWeakInner.of_data (h : OneWeakInner s)
    (hold : ∀ w p, s'.weakInnerOf w p → s.weakInnerOf w p) : OneWeakInner s' :=
  fun w w' p hw hw' => h w w' p (hold w p hw) (hold w' p hw')

theorem Origins.none_of_initializes (h : Origins s) (hr : References cfg s) {t p w : Nat}
    (hpc : (s.threads t).pc = .newWeakInner p) : ¬ s.weakInnerOf w p := by
  intro hof
  have hrun := hr.weak.running t p (by simp [hpc,ThreadPc.initializes])
  have hstage := hr.allocated_of_pinned (t := t) (p := p) (by simp [hpc,ThreadPc.pins])
  rcases h.set w p hof hstage with hi | ⟨u,hm⟩
  · rw [hrun] at hi
    contradiction
  · have hrun' := hr.weak.running u p (ThreadPc.makes_initializes hm)
    obtain rfl : t = u := OnceLock.running.inj (hrun.symm.trans hrun')
    simp [hpc,ThreadPc.makes] at hm

theorem OneWeakInner.thread {t : Nat} {op : Op} (h : OneWeakInner s) (ho : Origins s)
    (hr : References cfg s) (hs : ThreadStep cfg s t op s') : OneWeakInner s' := by
  have hold : ∀ w p, (w ≠ s.nextPointee ∨ s'.nextPointee = s.nextPointee) →
      s'.weakInnerOf w p → s.weakInnerOf w p := by
    intro w p hw hof
    rwa [State.weakInnerOf,hs.data hw] at hof
  by_cases hnext : s'.nextPointee = s.nextPointee
  · exact h.of_data (fun w p => hold w p (.inr hnext))
  · -- the newborn is the only `WeakSdarcInner` of its pointee
    have hnew : ∀ w p, s'.weakInnerOf s.nextPointee p → s'.weakInnerOf w p →
        w = s.nextPointee := by
      intro w p hof hof'
      by_contra hne
      have hof₀ := hold w p (.inl hne) hof'
      cases hs with
      | sdarcNew => simp [State.weakInnerOf] at hof
      | newWeakInner ptr countersPtr shard q hpc =>
        obtain rfl : q = p := by simpa [State.weakInnerOf] using hof
        exact ho.none_of_initializes hr hpc hof₀
      | _ => exact hnext rfl
    intro w w' p hw hw'
    by_cases hwn : w = s.nextPointee
    · subst hwn
      exact (hnew w' p hw hw').symm
    · by_cases hwn' : w' = s.nextPointee
      · subst hwn'
        exact hnew w p hw' hw
      · exact h w w' p (hold w p (.inl hwn) hw) (hold w' p (.inl hwn') hw')

theorem oneWeakInner_of_reach (h : Reach (step cfg) (State.covered cfg) .initial s) :
    (Safe cfg s ∧ Origins s) ∧ OneWeakInner s := by
  refine h.invariant (fun s => (Reach (step cfg) (State.covered cfg) .initial s) ∧
    OneWeakInner s) ⟨.refl,fun w w' p hw => by simp [State.weakInnerOf,State.initial] at hw⟩ ?_
    |>.imp (fun hr => safe_origins hr) id
  rintro s a s' ⟨hr,hone⟩ hcov hs
  obtain ⟨hsafe,ho⟩ := safe_origins hr
  refine ⟨hr.tail ⟨a,hcov,hs⟩,?_⟩
  cases step_cases hs with
  | thread t op _ _ hs => exact hone.thread ho hsafe.references hs
  | collector _ hs =>
    exact hone.of_data (fun w p => ((hs.identity hsafe.tracking w).weakInnerOf p).mpr)
  | finishDestructor => exact hone

end WeakInner

section Comparisons

variable {cfg : Config} {s s' : State}

theorem State.apart.address_eq_iff (h : s.apart) {x y : Option Nat}
    (hx : ∀ p, x = some p → s.inUse p) (hy : ∀ p, y = some p → s.inUse p) :
    x.map (fun p => (s.heap p).ptr) = y.map (fun p => (s.heap p).ptr) ↔ x = y := by
  cases x with
  | none => cases y <;> simp
  | some p =>
    cases y with
    | none => simp
    | some q =>
      simp only [Option.map_some,Option.some.injEq]
      exact ⟨h p q (hx p rfl) (hy q rfl),fun heq => by rw [heq]⟩

theorem Safe.inUse_of_live (h : Safe cfg s) {p : Nat} (hl : 0 < s.live p) : s.inUse p :=
  .inl (h.references.allocated_of_live hl)

theorem Safe.inUse_of_cell (h : Safe cfg s) {c p : Nat} (hc : s.cells c = some p) :
    s.inUse p :=
  .inl (h.references.allocated_of_owned (h.references.handles.cell_owned hc))

theorem Safe.inUse_of_borrowable (h : Safe cfg s) {o : Option Nat} (hb : s.borrowable o) :
    ∀ p, o = some p → s.inUse p := by
  rintro p rfl
  exact h.inUse_of_live hb

theorem Safe.inUse_of_canTake (h : Safe cfg s) {o : Option Nat} (hb : s.canTakeOption cfg o) :
    ∀ p, o = some p → s.inUse p := by
  rintro p rfl
  exact h.inUse_of_live hb.1

/-- The replaced handle is handed back, or will be once the increment for `then_set` has been
made. -/
def State.HandsBack (s s' : State) (t : Nat) (original : Option Nat) : Option Nat → Prop
  | none => s'.live = (s.addLiveOption original).live
  | some p => (s'.threads t).pc = .incrementThenSet p original

theorem compareAndSet_identity (hsafe : Safe cfg s) (hapart : s.apart) {t c : Nat}
    {ifMatches thenSet : Option Nat}
    (hs : s.compareAndSet cfg t c ifMatches thenSet = some s') :
    if s.cells c = ifMatches then
      s'.cells = Function.update s.cells c thenSet ∧ s.HandsBack s' t ifMatches thenSet
    else s' = s := by
  unfold State.compareAndSet at hs
  rw [Option.ite_none_right_eq_some] at hs
  obtain ⟨⟨-,-,hmatches,-⟩,hs⟩ := hs
  have hiff := hapart.address_eq_iff (x := s.cells c) (y := ifMatches)
    (fun p hp => hsafe.inUse_of_cell hp) (hsafe.inUse_of_borrowable hmatches)
  by_cases heq : s.cells c = ifMatches
  · rw [if_pos (hiff.mpr heq)] at hs
    rw [if_pos heq]
    cases thenSet with
    | none =>
      obtain rfl := Option.some.inj hs
      exact ⟨by simp,by subst heq; rfl⟩
    | some p =>
      obtain rfl := Option.some.inj hs
      exact ⟨by simp,by simp [State.HandsBack,heq]⟩
  · rw [if_neg (mt hiff.mp heq)] at hs
    rw [if_neg heq]
    exact (Option.some.inj hs).symm

theorem syncTo_identity (hsafe : Safe cfg s) (hapart : s.apart) {t c : Nat}
    {target : Option Nat} (hs : s.syncTo cfg t c target = some s') :
    if s.cells c = target then s' = s
    else (s'.threads t).pc = .loadEnter (.cell c) target := by
  unfold State.syncTo at hs
  rw [Option.ite_none_right_eq_some] at hs
  obtain ⟨⟨-,-,htake⟩,hs⟩ := hs
  have hiff := hapart.address_eq_iff (x := s.cells c) (y := target)
    (fun p hp => hsafe.inUse_of_cell hp) (hsafe.inUse_of_canTake htake)
  by_cases heq : s.cells c = target
  · rw [if_pos (hiff.mpr heq)] at hs
    rw [if_pos heq]
    exact (Option.some.inj hs).symm
  · rw [if_neg (mt hiff.mp heq)] at hs
    rw [if_neg heq]
    obtain rfl := Option.some.inj hs
    simp

/-- Every comparison of addresses decides whether two pointers are to the same pointee:
`compare_and_set` and `sync_to` on a cell, `Sdarc::ptr_eq`, and `WeakSdarc::ptr_eq`, also
when the pointees of the two `WeakSdarc`s have long been freed. -/
theorem comparisons_decide_identity
    (h : Reach (step cfg) (State.covered cfg) .initial s) :
    (∀ t c ifMatches thenSet s',
      step cfg s (.thread t (.compareAndSet c ifMatches thenSet)) = some s' →
      if s.cells c = ifMatches then
        s'.cells = Function.update s.cells c thenSet ∧ s.HandsBack s' t ifMatches thenSet
      else s' = s) ∧
    (∀ t c target s', step cfg s (.thread t (.syncTo c target)) = some s' →
      if s.cells c = target then s' = s
      else (s'.threads t).pc = .loadEnter (.cell c) target) ∧
    (∀ p q, 0 < s.live p → 0 < s.live q → ((s.heap p).ptr = (s.heap q).ptr ↔ p = q)) ∧
    ∀ w w' p p', 0 < s.live w → 0 < s.live w' → s.weakInnerOf w p → s.weakInnerOf w' p' →
      ((s.heap w).ptr = (s.heap w').ptr ↔ p = p') := by
  obtain ⟨⟨hsafe,-⟩,hone⟩ := oneWeakInner_of_reach h
  have hapart := (safe_apart h).2
  have hhandles : ∀ p q, 0 < s.live p → 0 < s.live q →
      ((s.heap p).ptr = (s.heap q).ptr ↔ p = q) := fun p q hp hq =>
    ⟨hapart p q (hsafe.inUse_of_live hp) (hsafe.inUse_of_live hq),fun heq => by rw [heq]⟩
  refine ⟨fun t c ifMatches thenSet s' hs => ?_,fun t c target s' hs => ?_,hhandles,
    fun w w' p p' hw hw' hof hof' => ?_⟩
  · simp only [step,Option.ite_none_right_eq_some] at hs
    exact compareAndSet_identity hsafe hapart hs.2
  · simp only [step,Option.ite_none_right_eq_some] at hs
    exact syncTo_identity hsafe hapart hs.2
  · rw [hhandles w w' hw hw']
    constructor
    · rintro rfl
      exact weakInnerOf_unique hof' hof
    · rintro rfl
      exact hone w w' p hof hof'

def addressReused : List Action :=
  [.thread 1 (.sdarcNew 10 100 0 []),.thread 1 (.onNewSdarcAllocated 0),
    .thread 1 (.dropHandle 0),.thread 1 (.dropLoad 0),.thread 1 (.dropExchange false)] ++
  List.replicate 24 .collector ++
  [.finishDestructor false,.collector,.thread 1 (.sdarcNew 10 100 0 []),
    .thread 1 (.onNewSdarcAllocated 0),.thread 1 (.clone 1 0),.thread 1 (.swap 0 (some 1) false)]

theorem addressReused_compared : ∃ s s',
    run (guarded (step ⟨1,2,1,by decide⟩) (State.covered ⟨1,2,1,by decide⟩)) .initial
      addressReused = some s ∧ s.freed 0 ∧ (s.heap 0).ptr = (s.heap 1).ptr ∧
    step ⟨1,2,1,by decide⟩ s (.thread 1 (.compareAndSet 0 (some 1) none)) = some s' ∧
    s'.cells 0 = none := by
  have hsome : (run (guarded (step ⟨1,2,1,by decide⟩) (State.covered ⟨1,2,1,by decide⟩)) .initial
      addressReused).isSome = true := by rfl
  have hstep : (step ⟨1,2,1,by decide⟩ ((run (guarded (step ⟨1,2,1,by decide⟩)
      (State.covered ⟨1,2,1,by decide⟩)) .initial addressReused).get hsome)
      (.thread 1 (.compareAndSet 0 (some 1) none))).isSome = true := by rfl
  refine ⟨_,_,(Option.some_get hsome).symm,.inr (by rfl),by rfl,
    (Option.some_get hstep).symm,?_⟩
  have hset := (comparisons_decide_identity (reach_guarded hsome)).1 1 0 (some 1) none _
    (Option.some_get hstep).symm
  rw [if_pos (by rfl)] at hset
  rw [hset.1,Function.update_self]

end Comparisons

end Sdarc.System
