import Sdarc.System.Lifetimes
set_option autoImplicit false

/-!
What a run leaves as it is: the address of a pointee, the pointee that a
`WeakSdarcInner` was made for, and a guard until it is dropped.
-/

namespace Sdarc.System
open Transition

def State.inUse (s : State) (p : Nat) : Prop :=
  (s.heap p).stage = .allocated ∨ (s.heap p).stage = .dropping

def State.apart (s : State) : Prop :=
  ∀ p q, s.inUse p → s.inUse q → (s.heap p).ptr = (s.heap q).ptr → p = q

section Identity

variable {cfg : Config} {s s' : State} {q : Nat}

theorem ThreadStep.data {t : Nat} {op : Op} (hs : ThreadStep cfg s t op s')
    (hq : q ≠ s.nextPointee ∨ s'.nextPointee = s.nextPointee) :
    (s'.heap q).data = (s.heap q).data := by
  cases hs with
  | sdarcNew => simp [hq.resolve_right (by simp)]
  | newWeakInner => simp [hq.resolve_right (by simp)]
  | startInit p | setWeakInner p w => exact field_update SdarcInner.data (by rfl) q
  | _ => rfl

structure SameIdentity (s s' : State) (q : Nat) : Prop where
  ptr : (s'.heap q).ptr = (s.heap q).ptr
  inUse : s'.inUse q → s.inUse q
  allocated : (s'.heap q).stage = .allocated → (s.heap q).stage = .allocated
  weakInnerOf : ∀ p, s.weakInnerOf q p ↔ s'.weakInnerOf q p

theorem SameIdentity.of_heap (h : s'.heap = s.heap) : SameIdentity s s' q where
  ptr := by rw [h]
  inUse := by
    rw [State.inUse,h]
    exact id
  allocated := by
    rw [h]
    exact id
  weakInnerOf p := by simp only [State.weakInnerOf,h]

theorem ThreadStep.identity {t : Nat} {op : Op} (hs : ThreadStep cfg s t op s')
    (hq : q ≠ s.nextPointee ∨ s'.nextPointee = s.nextPointee) : SameIdentity s s' q where
  ptr := (hs.frame hq).1
  inUse := by
    rw [State.inUse,(hs.frame hq).2.2]
    exact id
  allocated := by
    rw [(hs.frame hq).2.2]
    exact id
  weakInnerOf p := by rw [State.weakInnerOf,State.weakInnerOf,hs.data hq]

theorem SameIdentity.of_setInner {p : Nat} {x : SdarcInner}
    (hheap : s'.heap = Function.update s.heap p x) (hptr : x.ptr = (s.heap p).ptr)
    (hin : x.stage = .allocated ∨ x.stage = .dropping → s.inUse p)
    (hallocated : x.stage = .allocated → (s.heap p).stage = .allocated)
    (hdata : ∀ o, (∃ b, (s.heap p).data = .weakSdarcInner o b) ↔
      ∃ b, x.data = .weakSdarcInner o b) : SameIdentity s s' q := by
  by_cases hq : q = p
  · subst hq
    constructor
    · rw [hheap,Function.update_self]
      exact hptr
    · rw [State.inUse,hheap,Function.update_self]
      exact hin
    · rw [hheap,Function.update_self]
      exact hallocated
    · intro o
      rw [State.weakInnerOf,State.weakInnerOf,hheap,Function.update_self]
      exact hdata o
  · constructor
    · rw [hheap,Function.update_of_ne hq]
    · rw [State.inUse,hheap,Function.update_of_ne hq]
      exact id
    · rw [hheap,Function.update_of_ne hq]
      exact id
    · intro o
      rw [State.weakInnerOf,State.weakInnerOf,hheap,Function.update_of_ne hq]

theorem CollectorStep.identity (h : Tracking cfg s) (hs : CollectorStep cfg s s') (q : Nat) :
    SameIdentity s s' q := by
  cases hs with
  | weakBackRefCleared it key w origin p hc hdata =>
    refine .of_setInner (SameMemory.resume _ _ _).heap rfl id id (fun o => ?_)
    rw [hdata]
    simp
  | free it key toFree e hc hf he =>
    have hstage := (h.places.trackedOk key e he).1
    exact .of_setInner rfl rfl (fun _ => .inl hstage) (fun _ => hstage) (fun _ => .rfl)
  | dropCounters it p hc => exact .of_setInner rfl rfl id id (fun _ => .rfl)
  | dropWeakInnerRef it p w hc => exact .of_setInner rfl rfl id id (fun _ => .rfl)
  | dropMemory it p hc => exact .of_setInner rfl rfl (by simp) (by simp) (fun _ => .rfl)
  | startUpdate | readShard | finishPass | weakRefNotInvolved | weakBackRefWasAlreadyNull =>
    exact .of_heap (SameMemory.resume _ _ _).heap
  | _ => exact .of_heap rfl

theorem SystemStep.identity {a : Action} (h : Tracking cfg s) (hs : SystemStep cfg s a s')
    (hq : q < s.nextPointee) : SameIdentity s s' q := by
  cases hs with
  | thread t op _ _ hs => exact hs.identity (.inl hq.ne)
  | collector _ hs => exact hs.identity h q
  | finishDestructor => exact .of_heap rfl

theorem State.inUse.lt_nextPointee (h : Places cfg s) (hq : s.inUse q) :
    q < s.nextPointee :=
  h.lt_nextPointee (by rcases hq with hq | hq <;> simp [hq])

theorem State.apart.of_same (h : s.apart) (hs : ∀ q, SameIdentity s s' q) : s'.apart := by
  intro p q hp hq heq
  rw [(hs p).ptr,(hs q).ptr] at heq
  exact h p q ((hs p).inUse hp) ((hs q).inUse hq) heq

theorem State.apart.allocate {ptr countersPtr shard : Nat} {data : Data} {t : Nat}
    {pc : ThreadPc} (h : s.apart) (hplaces : Places cfg s)
    (hfree : s.canAllocate ptr countersPtr) :
    ((s.allocate ptr countersPtr shard data).setPc t pc).apart := by
  have hother : ∀ q, q ≠ s.nextPointee →
      ((s.allocate ptr countersPtr shard data).setPc t pc).inUse q →
      s.inUse q ∧ (s.heap q).ptr ≠ ptr := by
    intro q hq hin
    have hin : s.inUse q := by simpa [State.inUse,hq] using hin
    refine ⟨hin,?_⟩
    rcases (hfree q (hin.lt_nextPointee hplaces)).2 with hdead | hne
    · rcases hin with hin | hin <;> simp [hdead] at hin
    · exact hne
  intro p q hp hq heq
  by_cases hpn : p = s.nextPointee
  · by_cases hqn : q = s.nextPointee
    · rw [hpn,hqn]
    · subst hpn
      exact absurd (by simpa [hqn] using heq.symm) (hother q hqn hq).2
  · by_cases hqn : q = s.nextPointee
    · subst hqn
      exact absurd (by simpa [hpn] using heq) (hother p hpn hp).2
    · exact h p q (hother p hpn hp).1 (hother q hqn hq).1 (by simpa [hpn,hqn] using heq)

theorem SystemStep.apart {a : Action} (h : Tracking cfg s) (hs : SystemStep cfg s a s')
    (hapart : s.apart) : s'.apart := by
  cases hs with
  | collector _ hs => exact hapart.of_same (hs.identity h)
  | finishDestructor => exact hapart.of_same (fun _ => .of_heap rfl)
  | thread t op _ _ hs =>
    rcases hs.next with hnext | ⟨-,hnext⟩
    · exact hapart.of_same (fun q => hs.identity (.inr hnext))
    · cases hs with
      | sdarcNew ptr countersPtr shard borrows _ hfree => exact hapart.allocate h.places hfree
      | newWeakInner ptr countersPtr shard p _ hfree => exact hapart.allocate h.places hfree
      | _ => simp at hnext

end Identity

section Guard

variable {cfg : Config} {s s' : State} {t j p : Nat}

theorem ThreadStep.guard_stays {u : Nat} {op : Op} (hr : Records s)
    (hs : ThreadStep cfg s u op s') (hg : (s.threads t).guards j = some p)
    (hop : Action.thread u op ≠ .thread t (.dropGuard j)) :
    (s'.threads t).guards j = some p := by
  by_cases htu : t = u
  · subst htu
    cases hs with
    | reload src i q hpc =>
      obtain ⟨r,hrec⟩ := hr.held (t := t) (.inr (.inl (by simp [hpc,ThreadPc.slot])))
      have hfree := ((hr.holding hrec).2.published i (by simp [hpc,ThreadPc.slot])).2
      have hji : j ≠ i := by
        rintro rfl
        rw [hg] at hfree
        contradiction
      simpa [hji] using hg
    | dropGuard i q r =>
      have hji : j ≠ i := by
        rintro rfl
        exact hop rfl
      simpa [hji] using hg
    | _ => simpa using hg
  · rw [hs.others htu]
    exact hg

theorem SystemStep.guard_stays {a : Action} (hr : Records s) (hs : SystemStep cfg s a s')
    (hg : (s.threads t).guards j = some p) (ha : a ≠ .thread t (.dropGuard j)) :
    (s'.threads t).guards j = some p := by
  cases hs with
  | thread u op _ _ hs => exact hs.guard_stays hr hg ha
  | collector _ hs =>
    rw [(hs.thread t).1]
    exact hg
  | finishDestructor => exact hg

/-- What is true of the pointee of a guard as long as it is not dropped. -/
structure State.Protects (s : State) (t j p address : Nat) : Prop where
  guard : (s.threads t).guards j = some p
  notFreed : ¬ s.freed p
  ptr : (s.heap p).ptr = address
  only : ∀ q, s.inUse q → (s.heap q).ptr = address → q = p

theorem Safe.protects {address : Nat} (h : Safe cfg s) (hapart : s.apart)
    (hg : (s.threads t).guards j = some p) (hptr : (s.heap p).ptr = address) :
    s.Protects t j p address := by
  have hstage := h.references.allocated_of_guard hg
  refine ⟨hg,fun hf => hf.not_allocated hstage,hptr,fun q hq heq => ?_⟩
  exact hapart q p hq (.inl hstage) (heq.trans hptr.symm)

theorem safe_apart (h : Reach (step cfg) (State.covered cfg) .initial s) :
    Safe cfg s ∧ s.apart :=
  h.invariant (fun s => Safe cfg s ∧ s.apart)
    ⟨safe_initial cfg,fun p q hp => by simp [State.inUse,State.initial] at hp⟩
    (fun _ _ _ ⟨hsafe,hapart⟩ hcov hs =>
      ⟨hsafe.step hcov (step_cases hs),(step_cases hs).apart hsafe.tracking hapart⟩)

/-- The pointee that a borrow finds behind its pointer when it loads it again is not freed
and keeps its address to itself until the guard is dropped. -/
theorem borrowed_until_guard_dropped {src : Source} {address : Nat} {s₁ s₂ : State}
    (h : Reach (step cfg) (fun _ a => a.isCompareAndSet = false) .initial s)
    (hpc : (s.threads t).pc = .borrowReload src j address) (hload : s.load src = some p)
    (hptr : (s.heap p).ptr = address) (hreload : step cfg s (.thread t .reload) = some s₁)
    (hrun : Reach (step cfg)
      (fun _ a => a.isCompareAndSet = false ∧ a ≠ .thread t (.dropGuard j)) s₁ s₂) :
    s₂.Protects t j p address := by
  have hfirst : Reach (step cfg) (fun _ a => a.isCompareAndSet = false) .initial s₁ :=
    h.tail ⟨_,rfl,hreload⟩
  have hguard : (s₁.threads t).guards j = some p ∧ (s₁.heap p).ptr = address := by
    simp only [step,Op.run,State.reload,hpc,hload,hptr,if_true,Option.ite_none_right_eq_some,
      Option.some.injEq] at hreload
    obtain ⟨-,rfl⟩ := hreload
    exact ⟨by simp,by simpa using hptr⟩
  have hkept := hrun.invariant
    (fun s => Reach (step cfg) (fun _ a => a.isCompareAndSet = false) .initial s ∧
      (s.threads t).guards j = some p ∧ (s.heap p).ptr = address) ⟨hfirst,hguard⟩
    (by
      rintro u a u' ⟨hr,hg,hp⟩ ⟨hcas,hdrop⟩ hs
      have hsafe := safe_of_reach (reach_covered hr)
      have hborn := hsafe.tracking.places.lt_nextPointee (p := p)
        (by rw [hsafe.references.allocated_of_guard hg]; decide)
      refine ⟨hr.tail ⟨a,hcas,hs⟩,(step_cases hs).guard_stays hsafe.references.records hg hdrop,
        ?_⟩
      rw [((step_cases hs).identity hsafe.tracking hborn).ptr]
      exact hp)
  obtain ⟨hsafe,hapart⟩ := safe_apart (reach_covered hkept.1)
  exact hsafe.protects hapart hkept.2.1 hkept.2.2

/-- A borrow loads a pointer, whose pointee is freed before the borrow goes on; the pointer
is published only when a new pointee has got the same address. -/
def danglingPublish : List Action :=
  [.thread 1 (.sdarcNew 10 100 0 []),.thread 1 (.onNewSdarcAllocated 0),
    .thread 1 (.swap 0 (some 0) false),.thread 2 (.borrow (.cell 0)),
    .thread 1 (.swap 0 none true),.thread 1 (.dropLoad 0),.thread 1 (.dropExchange false)] ++
  List.replicate 24 .collector ++
  [.finishDestructor false,.collector,.thread 1 (.sdarcNew 10 100 0 []),
    .thread 1 (.onNewSdarcAllocated 0),.thread 1 (.swap 0 (some 1) false),
    .thread 2 .obtain,.thread 2 .obtainNext,.thread 2 .publish]

def lastHandleDropped : List Action :=
  [.thread 1 (.swap 0 none true),.thread 1 (.dropLoad 0),.thread 1 (.dropExchange false)] ++
  List.replicate 70 .collector

theorem danglingPublish_protected :
    ∃ s, run (step ⟨1,3,1,Nat.succ_pos 2⟩) .initial
        (danglingPublish ++ .thread 2 .reload :: lastHandleDropped) = some s ∧
      s.Protects 2 0 1 10 := by
  obtain ⟨s₂,h₂⟩ := Option.isSome_iff_exists.mp (by decide +kernel :
    (run (step ⟨1,3,1,Nat.succ_pos 2⟩) .initial
      (danglingPublish ++ .thread 2 .reload :: lastHandleDropped)).isSome = true)
  have hsplit := h₂
  rw [run_append,Option.bind_eq_some_iff] at hsplit
  obtain ⟨s,hs,hrest⟩ := hsplit
  obtain ⟨s₁,hreload,hlast⟩ := Option.bind_eq_some_iff.mp hrest
  have hseen : (run (step ⟨1,3,1,Nat.succ_pos 2⟩) .initial danglingPublish).map
      (fun s => ((s.threads 2).pc,s.load (.cell 0),(s.heap 1).ptr)) =
      some (.borrowReload (.cell 0) 0 10,some 1,10) := by decide +kernel
  simp only [hs,Option.map_some,Option.some.injEq,Prod.mk.injEq] at hseen
  obtain ⟨hpc,hload,hptr⟩ := hseen
  exact ⟨s₂,h₂,borrowed_until_guard_dropped (reach_of_run (fun _ => by decide) hs) hpc hload
    hptr hreload (reach_of_run (fun _ => by decide) hlast)⟩

end Guard

section Upgrade

variable {cfg : Config} {s s' : State} {w p : Nat}

/-- The step returns a handle to `p` or a guard for it, got through the `WeakSdarc` `w`. -/
def State.yields (s : State) (w p : Nat) : Action → Prop
  | .thread t .leaveSection =>
      ∃ after, (s.threads t).pc = .loadLeave (.backRef w) after (some p)
  | .thread t .reload => s.load (.backRef w) = some p ∧
      ∃ j, (s.threads t).pc = .borrowReload (.backRef w) j (s.heap p).ptr
  | _ => False

theorem weakInnerOf_unique {q : Nat} (h : s.weakInnerOf w p) (h' : s.weakInnerOf w q) :
    q = p := by
  obtain ⟨b,hb⟩ := h
  obtain ⟨b',hb'⟩ := h'
  exact (Data.weakSdarcInner.inj (hb'.symm.trans hb)).1

theorem Weak.yields_origin {q : Nat} {a : Action} (h : Weak s) (hw : s.weakInnerOf w p)
    (ha : s.yields w q a) : q = p := by
  unfold State.yields at ha
  split at ha
  · obtain ⟨after,hpc⟩ := ha
    exact weakInnerOf_unique hw (h.origin _ w q (by rw [hpc]; exact ⟨rfl,rfl⟩))
  · exact weakInnerOf_unique hw (h.load_origin ha.1)
  · exact ha.elim

theorem Safe.backRef_null_of_freed (h : Safe cfg s) (hf : s.freed w) :
    s.load (.backRef w) = none := by
  cases hload : s.load (.backRef w) with
  | none => rfl
  | some p =>
    obtain ⟨o,ho⟩ := load_backRef.mp hload
    obtain ⟨-,-,hi | ⟨t,hm⟩⟩ := h.references.weak.backRef w o p ho
    · exact absurd hi ((h.unreferenced hf).weakInnerRef p)
    · have hone := ThreadPc.makes_owned hm
      have hzero := (h.unreferenced hf).owned t
      omega

/-- Weak references are safe: a pointee is kept as long as an upgraded handle, a guard or an
upgrade under way needs it, a `WeakSdarc` only ever yields the pointee that it was
downgraded from, and no `WeakSdarcInner` is dropped with its `back_ref` set. -/
theorem weak_references_safe
    (h : Reach (step cfg) (fun _ a => a.isCompareAndSet = false) .initial s) :
    (∀ p, s.freed p → s.Unreferenced p) ∧
    (∀ t p w, (s.threads t).pc = .cloneWeakInner p w → ∀ s',
      Reach (step cfg) (fun _ a => a.isCompareAndSet = false) s s' →
      ∀ q a, s'.yields w q a → q = p) ∧
    (∀ w, s.freed w → s.load (.backRef w) = none) ∧ s.assertionFailed = false := by
  have hsafe := safe_of_reach (reach_covered h)
  refine ⟨fun p hp => hsafe.unreferenced hp,fun t p w hpc s' hrun q a ha => ?_,
    fun w hw => hsafe.backRef_null_of_freed hw,hsafe.references.asserts⟩
  have hweak := hsafe.references.weak
  have hw : s.weakInnerOf w p := hweak.initialized p w (hweak.cloned t p w hpc)
  have hkept := hrun.invariant
    (fun s => Reach (step cfg) (fun _ a => a.isCompareAndSet = false) .initial s ∧
      s.weakInnerOf w p) ⟨h,hw⟩
    (fun u a u' ⟨hr,hu⟩ hcas hs => by
      have hsafe := safe_of_reach (reach_covered hr)
      have hborn := hsafe.references.weak.weakInner_born hu
      exact ⟨hr.tail ⟨a,hcas,hs⟩,
        (((step_cases hs).identity hsafe.tracking hborn).weakInnerOf p).mp hu⟩)
  exact (safe_of_reach (reach_covered hkept.1)).references.weak.yields_origin hkept.2 ha

def weakDowngraded : List Action :=
  [.thread 1 (.sdarcNew 10 100 0 []),.thread 1 (.onNewSdarcAllocated 0),
    .thread 1 (.downgrade 0),.thread 1 .getOrInit,.thread 1 (.newWeakInner 11 101 0),
    .thread 1 (.registerWeakInner 0),.thread 1 .setWeakInner]

def weakUpgraded : List Action :=
  [.thread 1 (.cloneWeakInner 0),.thread 2 (.loadOwned (.backRef 1)),.thread 2 .obtain,
    .thread 2 .obtainNext,.thread 2 .enterSection,.thread 2 .loadPointer,
    .thread 1 (.dropHandle 0),.thread 1 (.dropLoad 0),.thread 1 (.dropExchange false),
    .thread 2 (.loadIncrement 0)]

theorem weakRoundTrip_safe :
    ∃ s s', run (step ⟨1,3,1,Nat.succ_pos 2⟩) .initial weakDowngraded = some s ∧
      run (step ⟨1,3,1,Nat.succ_pos 2⟩) s weakUpgraded = some s' ∧
      s'.yields 1 0 (.thread 2 .leaveSection) ∧
      ∀ q, s'.yields 1 q (.thread 2 .leaveSection) → q = 0 := by
  obtain ⟨s',h'⟩ := Option.isSome_iff_exists.mp (by decide +kernel :
    (run (step ⟨1,3,1,Nat.succ_pos 2⟩) .initial (weakDowngraded ++ weakUpgraded)).isSome = true)
  have hend : (run (step ⟨1,3,1,Nat.succ_pos 2⟩) .initial (weakDowngraded ++ weakUpgraded)).map
      (fun s => (s.threads 2).pc) = some (.loadLeave (.backRef 1) none (some 0)) := by
    decide +kernel
  have hsplit := h'
  rw [run_append,Option.bind_eq_some_iff] at hsplit
  obtain ⟨s,hs,hrest⟩ := hsplit
  have hpc : (run (step ⟨1,3,1,Nat.succ_pos 2⟩) .initial weakDowngraded).map
      (fun s => (s.threads 1).pc) = some (.cloneWeakInner 0 1) := by decide +kernel
  simp only [hs,Option.map_some,Option.some.injEq] at hpc
  simp only [h',Option.map_some,Option.some.injEq] at hend
  have hsafe := weak_references_safe (reach_of_run (fun _ => by decide) hs)
  exact ⟨s,s',hs,hrest,⟨none,hend⟩,fun q =>
    hsafe.2.1 1 0 1 hpc s' (reach_of_run (fun _ => by decide) hrest) q _⟩

end Upgrade

end Sdarc.System
