import Sdarc.Collection.Deep
import Sdarc.System.Conservation
set_option autoImplicit false

/-!
Where no operation is under way and the collector is parked, a state of the process is one
that the collector's iterations start from: its counters count the owners.
-/

namespace Sdarc.System
open Transition

/-- A `weak_inner_ref` that is set belongs to a pointee that is there, or has not been
dropped yet. -/
def State.weakRefsInUse (s : State) : Prop :=
  ∀ q w, (s.heap q).weakInnerRef = .initialized w → (s.heap q).stage = .allocated ∨
    ∃ it, s.collector = .dropping it q .counters ∨ s.collector = .dropping it q .weakInnerRef

section InUse

variable {cfg : Config} {s s' : State}

theorem ThreadStep.weakRefsInUse {rule : Int → Nat → Nat → Prop} {t : Nat} {op : Op}
    (hr : Referenced rule cfg s) (hs : ThreadStep cfg s t op s') (h : s.weakRefsInUse) :
    s'.weakRefsInUse := by
  intro q w hq
  rw [hs.collector.1]
  cases hs with
  | sdarcNew | newWeakInner =>
    by_cases hqn : q = s.nextPointee
    · simp [hqn] at hq
    · simpa [hqn] using h q w (by simpa [hqn] using hq)
  | startInit p hpc hw =>
    by_cases hqp : q = p
    · simp [hqp] at hq
    · simpa [hqp] using h q w (by simpa [hqp] using hq)
  | setWeakInner p v hpc =>
    by_cases hqp : q = p
    · subst hqp
      exact .inl (by simpa using hr.allocated_of_pinned (t := t) (by simp [hpc,ThreadPc.pins]))
    · simpa [hqp] using h q w (by simpa [hqp] using hq)
  | _ => exact h q w hq

theorem State.weakRefsInUse.allocated (h : s.weakRefsInUse) {q w : Nat}
    (hq : (s.heap q).weakInnerRef = .initialized w)
    (hc : ∀ it p phase, s.collector ≠ .dropping it p phase) : (s.heap q).stage = .allocated := by
  rcases h q w hq with hstage | ⟨it,hit | hit⟩
  · exact hstage
  · exact absurd hit (hc _ _ _)
  · exact absurd hit (hc _ _ _)

theorem CollectorStep.weakRefsInUse (htracking : Tracking cfg s) (hs : CollectorStep cfg s s')
    (h : s.weakRefsInUse) : s'.weakRefsInUse := by
  intro q w hq
  cases hs with
  | free it key toFree e hc hf he hready hok =>
    by_cases hqe : q = e.pointee
    · exact .inr ⟨_,.inl (by rw [hqe])⟩
    · have hold := h.allocated (by simpa [hqe] using hq) (by simp [hc])
      exact .inl (by simpa [hqe] using hold)
  | dropCounters it p hc =>
    by_cases hqp : q = p
    · exact .inr ⟨it,.inr (by rw [hqp]; rfl)⟩
    · rcases h q w (by simpa [hqp] using hq) with hstage | ⟨it',hit | hit⟩
      · exact .inl (by simpa [hqp] using hstage)
      · simp only [hc,CollectorPc.dropping.injEq] at hit
        exact absurd hit.2.1.symm hqp
      · simp [hc] at hit
  | dropWeakInnerRef it p v hc hv hidle =>
    by_cases hqp : q = p
    · simp [hqp] at hq
    · rcases h q w (by simpa [hqp] using hq) with hstage | ⟨it',hit | hit⟩
      · exact .inl (by simpa [hqp] using hstage)
      · simp [hc] at hit
      · simp only [hc,CollectorPc.dropping.injEq] at hit
        exact absurd hit.2.1.symm hqp
  | noWeakInnerRef it p hc hnone =>
    have hqp : q ≠ p := fun hqp => hnone w (hqp ▸ hq)
    rcases h q w hq with hstage | ⟨it',hit | hit⟩
    · exact .inl hstage
    · simp [hc] at hit
    · simp only [hc,CollectorPc.dropping.injEq] at hit
      exact absurd hit.2.1.symm hqp
  | dropWeakSdarcInner it p origin backRef hc =>
    rcases h q w hq with hstage | ⟨it',hit | hit⟩
    · exact .inl hstage
    · simp [hc] at hit
    · simp [hc] at hit
  | dropMemory it p hc =>
    have hdropping := htracking.lists.dropping it p .memory hc
    by_cases hqp : q = p
    · subst hqp
      have hold := h q w (by simpa using hq)
      simp [hdropping,hc] at hold
    · rcases h q w (by simpa [hqp] using hq) with hstage | ⟨it',hit | hit⟩
      · exact .inl (by simpa [hqp] using hstage)
      · simp [hc] at hit
      · simp [hc] at hit
  | weakBackRefCleared it key v origin p hc hdata =>
    rw [(SameMemory.resume _ _ _).heap] at hq ⊢
    have hold : (s.heap q).weakInnerRef = .initialized w := by
      by_cases hqv : q = v
      · subst hqv
        simpa using hq
      · simpa [hqv] using hq
    have hstage := h.allocated hold (by simp [hc])
    refine .inl ?_
    by_cases hqv : q = v
    · subst hqv
      simpa using hstage
    · simpa [hqv] using hstage
  | startUpdate | readShard | finishPass | weakRefNotInvolved | weakBackRefWasAlreadyNull =>
    rw [(SameMemory.resume _ _ _).heap] at hq ⊢
    exact .inl (h.allocated hq (by simp [*]))
  | spin => exact h q w hq
  | _ => exact .inl (h.allocated hq (by simp [*]))

theorem SystemStep.weakRefsInUse {rule : Int → Nat → Nat → Prop} {a : Action}
    (htracking : Tracking cfg s) (hr : Referenced rule cfg s) (hs : SystemStep cfg s a s')
    (h : s.weakRefsInUse) : s'.weakRefsInUse := by
  cases hs with
  | thread t op _ _ hs => exact hs.weakRefsInUse hr h
  | collector _ hs => exact hs.weakRefsInUse htracking h
  | finishDestructor panicked it p hc _ _ =>
    intro q w hq
    rcases h q w hq with hstage | ⟨it',hit | hit⟩
    · exact .inl hstage
    · simp [hc] at hit
    · simp [hc] at hit

theorem safe_weakRefsInUse (h : Reach (step cfg) (State.covered cfg) .initial s) :
    Safe cfg s ∧ s.weakRefsInUse := by
  refine h.invariant (fun s => Safe cfg s ∧ s.weakRefsInUse)
    ⟨safe_initial cfg,fun q w hq => by simp [State.initial] at hq⟩ ?_
  rintro s a s' ⟨hsafe,hused⟩ hcov hs
  exact ⟨hsafe.step hcov (step_cases hs),
    (step_cases hs).weakRefsInUse hsafe.tracking hsafe.references hused⟩

end InUse

end Sdarc.System

open Sdarc.System Transition

namespace Sdarc.Collection

def allocatedPointees (s : State) : Finset Nat :=
  (Finset.range s.nextPointee).filter (fun p => (s.heap p).stage = .allocated)

def weakFields (s : State) (p : Nat) : List Nat :=
  match (s.heap p).weakInnerRef with
  | .initialized w => [w]
  | _ => []

/-- Which of the handles and cells there are belong to the data of a pointee; the others are
`external`. -/
structure Ownership (cfg : Config) (s : State) where
  fields : Nat → List Nat
  external : Nat → Nat
  split : ∀ p, external p + ∑ q ∈ allocatedPointees s, (fields q).count p =
    s.live p + cellsIn s.cells cfg.cells p

def collectorOf (s : State) : Collector Memory where
  memory :=
    { counters := s.counters
      pending := s.pending
      usageFlags := fun key => decide (∃ p ∈ allocatedPointees s, (s.heap p).countersPtr = key)
      freed := []
      drops := [] }
  weakRefs p :=
    match (s.heap p).weakInnerRef with
    | .initialized w => if (s.load (.backRef w)).isSome then .linked else .cleared
    | _ => .uninit
  tracked := s.tracked

section Resting

variable {cfg : Config} {s : State}

theorem mem_allocatedPointees {p : Nat} (hplaces : Places cfg s) :
    p ∈ allocatedPointees s ↔ (s.heap p).stage = .allocated := by
  rw [allocatedPointees,Finset.mem_filter,Finset.mem_range]
  exact ⟨And.right,fun hp => ⟨hplaces.lt_nextPointee (by simp [hp]),hp⟩⟩

theorem fields_allocated (h : Safe cfg s) (o : Ownership cfg s) {p q : Nat}
    (hp : p ∈ allocatedPointees s) (hq : q ∈ weakFields s p ++ o.fields p) :
    q ∈ allocatedPointees s := by
  rw [mem_allocatedPointees h.tracking.places]
  refine h.references.allocated_of_owned ?_
  rcases List.mem_append.mp hq with hq | hq
  · cases hw : (s.heap p).weakInnerRef with
    | initialized w =>
      obtain rfl : q = w := by simpa [weakFields,hw] using hq
      exact weakInner_owned (Finset.mem_range.mp (Finset.mem_filter.mp hp).1) hw
    | uninit => simp [weakFields,hw] at hq
    | running t => simp [weakFields,hw] at hq
  · have hle := Finset.single_le_sum (f := fun r => (o.fields r).count q)
      (fun _ _ => Nat.zero_le _) hp
    have hpos := List.count_pos_iff.mpr hq
    have hsplit := o.split q
    simp only [State.owners]
    omega

def Ownership.graph (o : Ownership cfg s) (h : Safe cfg s) (currShard : Nat → Nat)
    (hlt : ∀ i, currShard i < cfg.shards) : Graph where
  nodes := allocatedPointees s
  fields p := weakFields s p ++ o.fields p
  external := o.external
  shards := cfg.shards
  ptr p := (s.heap p).ptr
  countersPtr p := (s.heap p).countersPtr
  currShard := currShard
  currShard_lt := hlt
  fields_mem _ _ := fields_allocated h o
  countersPtr_inj p q hp hq := by
    have hplaces := h.tracking.places
    rw [mem_allocatedPointees hplaces] at hp hq
    exact hplaces.distinct p q (hplaces.slot p hp) (hplaces.slot q hq)

theorem sum_weakFields (hused : s.weakRefsInUse) (hparked : s.collector = .parked) (p : Nat) :
    ∑ q ∈ allocatedPointees s, (weakFields s q).count p = weakIn s.heap s.nextPointee p := by
  rw [allocatedPointees,Finset.sum_filter,weakIn]
  refine Finset.sum_congr rfl (fun q _ => ?_)
  cases hw : (s.heap q).weakInnerRef with
  | initialized w =>
    have hstage := hused.allocated hw (by simp [hparked])
    by_cases hwp : w = p
    · simp [weakFields,hw,hstage,hwp]
    · simp [weakFields,hw,hstage,hwp]
  | uninit => simp [weakFields,hw]
  | running t => simp [weakFields,hw]

theorem resting_debt (hrest : s.resting) (p : Nat) : s.debt cfg p = 0 :=
  hrest.debtless.debt_eq_zero p

theorem resting_once (h : Safe cfg s) (hrest : s.resting) (hparked : s.collector = .parked)
    {p : Nat} (hp : (s.heap p).stage = .allocated) :
    pendingCount cfg s p + trackedCount s p = 1 := by
  have honce := h.tracking.places.once p
  rw [if_pos hp] at honce
  have hregistering : registeringCount cfg s p = 0 := by
    unfold registeringCount registeringIn
    refine Finset.sum_eq_zero (fun t _ => ?_)
    rcases hrest t with ht | ht <;> simp [ht,ThreadPc.registers]
  have htaken : takenCount s p = 0 := by simp [takenCount,hparked,CollectorPc.taken]
  omega

theorem count_waiting (s : State) (p : Nat) :
    (((List.range cfg.shards).flatMap s.pending).map Entry.pointee).count p =
      pendingCount cfg s p := by
  rw [List.count,List.countP_map,List.countP_flatMap,pendingCount]
  induction cfg.shards with
  | zero => rfl
  | succ n ih =>
    rw [List.range_succ,List.map_append,List.sum_append,ih,Finset.sum_range_succ]
    simp [Function.comp_def,beq_eq_decide]

theorem untracked_of_waiting (h : Safe cfg s) {x : Entry}
    (hx : x ∈ (List.range cfg.shards).flatMap s.pending) : s.tracked[x.countersPtr]? = none := by
  have hplaces := h.tracking.places
  obtain ⟨j,hj,hmem⟩ := List.mem_flatMap.mp hx
  obtain ⟨hstage,hkey⟩ := hplaces.pendingOk j x hmem
  cases he : s.tracked[x.countersPtr]? with
  | none => rfl
  | some e =>
    obtain ⟨hstage',hkey'⟩ := hplaces.trackedOk _ e he
    have hsame : e.pointee = x.pointee := hplaces.distinct _ _ (hplaces.slot _ hstage')
      (hplaces.slot _ hstage) (hkey'.trans hkey.symm)
    have htracked : trackedCount s x.pointee = 1 := by simp [trackedCount,hkey,he,hsame]
    have hpending : 0 < pendingCount cfg s x.pointee := by
      rw [← count_waiting]
      exact List.count_pos_iff.mpr (List.mem_map_of_mem hx)
    have honce := hplaces.once x.pointee
    rw [if_pos hstage] at honce
    omega

/-- The collector's iterations find every state at rest in place, whatever states and tags
earlier iterations and races have left in it. -/
theorem resting_inPlace (h : Safe cfg s) (hused : s.weakRefsInUse) (hrest : s.resting)
    (hparked : s.collector = .parked) (o : Ownership cfg s) (currShard : Nat → Nat)
    (hlt : ∀ i, currShard i < cfg.shards) :
    InPlace (o.graph h currShard hlt) (collectorOf s)
      ((o.graph h currShard hlt).waiting (collectorOf s).memory) := by
  have hplaces := h.tracking.places
  have halive : ∀ p, p ∈ (o.graph h currShard hlt).alive (collectorOf s).memory ↔
      (s.heap p).stage = .allocated := by
    intro p
    rw [mem_alive,← mem_allocatedPointees hplaces]
    simp [Ownership.graph,collectorOf]
  have hnodes : (o.graph h currShard hlt).alive (collectorOf s).memory = allocatedPointees s := by
    ext p
    rw [halive,mem_allocatedPointees hplaces]
  refine ⟨⟨fun p hp => ?_,?_,?_,?_,?_,List.nodup_nil⟩,fun key e he => ?_,fun key e he => ?_,
    fun x hx => ?_,?_,fun p hp => ?_⟩
  · have hcount := (h.references.counted p ((halive p).mp hp)).1
    have hsplit := o.split p
    have hweak := sum_weakFields hused hparked p
    have howners : (o.graph h currShard hlt).owners (collectorOf s).memory p =
        ∑ q ∈ allocatedPointees s, (weakFields s q).count p +
          ∑ q ∈ allocatedPointees s, (o.fields q).count p := by
      rw [Graph.owners,hnodes,← Finset.sum_add_distrib]
      exact Finset.sum_congr rfl (fun q _ => List.count_append)
    have hsum : (o.graph h currShard hlt).sum (collectorOf s).memory
        ((o.graph h currShard hlt).countersPtr p) = s.sum cfg p := rfl
    have hexternal : (o.graph h currShard hlt).external p = o.external p := rfl
    have htotal : s.live p + cellsIn s.cells cfg.cells p + weakIn s.heap s.nextPointee p =
        o.external p + (∑ q ∈ allocatedPointees s, (weakFields s q).count p +
          ∑ q ∈ allocatedPointees s, (o.fields q).count p) := by omega
    rw [hsum,howners,hexternal,hcount,resting_debt hrest,hrest.owners,htotal,Nat.cast_add,
      Nat.cast_zero,Int.sub_zero]
  · simp [collectorOf]
  · simp [collectorOf]
  · simp [collectorOf]
  · simp [collectorOf]
  · obtain ⟨hstage,hkey⟩ := hplaces.trackedOk key e he
    exact ⟨(halive _).mpr hstage,hkey⟩
  · intro hready
    have hmem := (h.tracking.lists.ready (by rw [hparked]; rfl) key).mpr ⟨e,he,hready⟩
    rw [hparked] at hmem
    simp [CollectorPc.toFree] at hmem
  · obtain ⟨j,-,hmem⟩ := List.mem_flatMap.mp hx
    obtain ⟨hstage,hkey⟩ := hplaces.pendingOk j x hmem
    exact ⟨(halive _).mpr hstage,hkey.symm,untracked_of_waiting h hx⟩
  · refine List.nodup_iff_count_le_one.mpr (fun p => ?_)
    have hcount : (((o.graph h currShard hlt).waiting (collectorOf s).memory).map
        Entry.pointee).count p = pendingCount cfg s p := count_waiting s p
    have honce := hplaces.once p
    rw [hcount]
    split_ifs at honce <;> omega
  · have hstage := (halive p).mp hp
    have honce := resting_once h hrest hparked hstage
    cases he : s.tracked[(s.heap p).countersPtr]? with
    | some e => exact .inl ⟨e,he⟩
    | none =>
      have huntracked : trackedCount s p = 0 := by simp [trackedCount,he]
      have hpos : 0 < (((List.range cfg.shards).flatMap s.pending).map Entry.pointee).count p := by
        rw [count_waiting]
        omega
      obtain ⟨x,hx,hxp⟩ := List.mem_map.mp (List.count_pos_iff.mp hpos)
      exact .inr ⟨x,hx,hxp⟩

theorem reached_inPlace (hr : Reach (step cfg) (State.covered cfg) .initial s)
    (hrest : s.resting) (hparked : s.collector = .parked) (o : Ownership cfg s)
    (currShard : Nat → Nat) (hlt : ∀ i, currShard i < cfg.shards) :
    ∃ h : Safe cfg s, InPlace (o.graph h currShard hlt) (collectorOf s)
      ((o.graph h currShard hlt).waiting (collectorOf s).memory) := by
  obtain ⟨h,hused⟩ := safe_weakRefsInUse hr
  exact ⟨h,resting_inPlace h hused hrest hparked o currShard hlt⟩

end Resting

section Runs

def Ownership.allExternal (cfg : Config) (s : State) : Ownership cfg s where
  fields _ := []
  external p := s.live p + cellsIn s.cells cfg.cells p
  split p := by simp

/-- An outer iteration finds a pointee without handles. Then a `WeakSdarc` of it is upgraded
and the handle dropped, which leaves a tag. -/
def upgradedOnce : List Action :=
  [.thread 1 (.sdarcNew 10 100 0 []),.thread 1 (.onNewSdarcAllocated 0),.thread 1 (.downgrade 0),
    .thread 1 .getOrInit,.thread 1 (.newWeakInner 11 101 0),.thread 1 (.registerWeakInner 0),
    .thread 1 .setWeakInner,.thread 1 (.cloneWeakInner 0),.thread 1 (.dropHandle 0),
    .thread 1 (.dropLoad 0),.thread 1 (.dropExchange false)] ++
  List.replicate 16 .collector ++
  [.thread 1 (.loadOwned (.backRef 1)),.thread 1 .obtain,.thread 1 .obtainNext,
    .thread 1 .enterSection,.thread 1 .loadPointer,.thread 1 (.loadIncrement 0),
    .thread 1 .leaveSection,.thread 1 (.dropHandle 0),.thread 1 (.dropLoad 0),
    .thread 1 (.dropExchange false)]

theorem upgradedOnce_runs : (run (guarded (step ⟨1,2,0,by decide⟩)
    (State.covered ⟨1,2,0,by decide⟩)) .initial upgradedOnce).isSome = true := by rfl

def upgradedOnceState : State := (run (guarded (step ⟨1,2,0,by decide⟩)
  (State.covered ⟨1,2,0,by decide⟩)) .initial upgradedOnce).get upgradedOnce_runs

theorem upgradedOnce_reach : Reach (step ⟨1,2,0,by decide⟩) (State.covered ⟨1,2,0,by decide⟩)
    .initial upgradedOnceState := reach_guarded upgradedOnce_runs

theorem upgradedOnce_stale : upgradedOnceState.resting ∧ upgradedOnceState.collector = .parked ∧
    ∃ h : Safe ⟨1,2,0,by decide⟩ upgradedOnceState,
      ((Ownership.allExternal _ _).graph h (fun _ => 0) (fun _ => Nat.one_pos)).Stale
        (collectorOf upgradedOnceState) 0 := by
  have hsafe := safe_of_reach upgradedOnce_reach
  refine ⟨resting_of_idle hsafe.references.handles (by decide),rfl,hsafe,
    ⟨⟨0,.requiresReChecking⟩,?_,rfl⟩,?_,?_⟩
  · rfl
  · rfl
  · rfl

theorem upgradedOnce_survives : ∃ s, run (step ⟨1,2,0,by decide⟩) upgradedOnceState
      (.thread 1 .collectorUpdateNowAndWait :: List.replicate 27 .collector) = some s ∧
    (s.threads 1).pc = .idle ∧ (s.heap 0).stage = .allocated ∧
    s.owners ⟨1,2,0,by decide⟩ 0 = 0 :=
  ⟨_,rfl,rfl,rfl,rfl⟩

end Runs

end Sdarc.Collection
