import Sdarc.System.Places
set_option autoImplicit false

/-!
No pointee is lost or tracked twice: from its registration until its destructor is
started, each pointee is in exactly one of the pending shards, the vector just taken
from one, and the tracked counters. Nothing here depends on how handles are used.
-/

namespace Sdarc.System
open Transition

section Collector

variable {cfg : Config} {s s' : State}

theorem Lists.goto {pc : CollectorPc} (h : Lists s)
    (hpanic : s.collector.isPanicked = false) (hcollector : s'.collector = pc)
    (htracked : s'.tracked = s.tracked) (htodo : pc.todo.Sublist s.collector.todo)
    (hfree : pc.toFree = s.collector.toFree)
    (hcurrent : ∀ key state, pc.current = some (key,state) →
      key ∉ pc.todo ∧ key ∉ pc.toFree ∧ ∃ e, s.tracked[key]? = some e ∧ e.state = state)
    (hdropping : ∀ it p phase, pc = .dropping it p phase → (s'.heap p).stage = .dropping)
    (hpanic' : pc.isPanicked = false)
    (htraversing : ∀ it len r j, pc = .traversing it len r j → it.toFree = []) :
    Lists s' where
  todoNodup := by
    rw [hcollector]
    exact h.todoNodup.sublist htodo
  toFreeNodup := by
    rw [hcollector,hfree]
    exact h.toFreeNodup
  disjoint key hkey := by
    rw [hcollector] at hkey ⊢
    rw [hfree]
    exact h.disjoint key (htodo.mem hkey)
  ready _ := by
    rw [hcollector,hfree,htracked]
    exact h.ready hpanic
  currentOk := by
    rw [hcollector,htracked]
    exact hcurrent
  traversing := by
    rw [hcollector]
    exact htraversing
  dropping := by
    rw [hcollector]
    exact hdropping
  panic site hsite := by
    rw [← hcollector,hsite] at hpanic'
    contradiction

theorem Lists.traverse {it it' : Iter} {len r j r' j' : Nat} (h : Lists s)
    (hc : s.collector = .traversing it len r j)
    (hcollector : s'.collector = .traversing it' len r' j') (htracked : s'.tracked = s.tracked)
    (htodo : it'.todo = it.todo) (hfree : it'.toFree = it.toFree) : Lists s' := by
  refine h.goto (by simp [hc,CollectorPc.isPanicked]) hcollector htracked
    (by simp [hc,CollectorPc.todo,htodo]) (by simp [hc,CollectorPc.toFree,hfree])
    (by simp [CollectorPc.current]) (by simp) rfl (fun it₀ _ _ _ hpc => ?_)
  obtain ⟨rfl,-,-,-⟩ := CollectorPc.traversing.inj hpc
  exact hfree.trans (h.traversing it len r j hc)

theorem Lists.nextPhase {it : Iter} {p : Nat} {phase phase' : DropPhase} (h : Lists s)
    (hc : s.collector = .dropping it p phase) (hcollector : s'.collector = .dropping it p phase')
    (htracked : s'.tracked = s.tracked) (hstage : (s'.heap p).stage = (s.heap p).stage) :
    Lists s' := by
  refine h.goto (by simp [hc,CollectorPc.isPanicked]) hcollector htracked
    (by simp [CollectorPc.todo]) (by simp [hc,CollectorPc.toFree])
    (by simp [CollectorPc.current]) (fun it' p' phase'' hpc => ?_) rfl (by simp)
  obtain ⟨-,rfl,-⟩ := CollectorPc.dropping.inj hpc
  exact hstage.trans (h.dropping it p phase hc)

theorem Lists.start {it : Iter} {len r j : Nat} (h : Lists s)
    (hpanic : s.collector.isPanicked = false) (hfree : s.collector.toFree = [])
    (hcollector : s'.collector = .traversing it len r j) (htracked : s'.tracked = s.tracked)
    (htodo : it.todo.Nodup) (hit : it.toFree = []) : Lists s' where
  todoNodup := by
    rw [hcollector]
    exact htodo
  toFreeNodup := by simp [hcollector,CollectorPc.toFree,hit]
  disjoint key _ := by simp [hcollector,CollectorPc.toFree,hit]
  ready _ := by
    have hready := h.ready hpanic
    rw [hfree] at hready
    simpa [hcollector,CollectorPc.toFree,hit,htracked] using hready
  currentOk := by simp [hcollector,CollectorPc.current]
  traversing it' len' r' j' hpc := by
    rw [hcollector] at hpc
    obtain ⟨rfl,-,-,-⟩ := CollectorPc.traversing.inj hpc
    exact hit
  dropping := by simp [hcollector]
  panic := by simp [hcollector]

structure AtHand (s : State) (it : Iter) (key : Nat) : Prop where
  todoNodup : it.todo.Nodup
  toFreeNodup : it.toFree.Nodup
  disjoint : ∀ k, k ∈ it.todo → k ∉ it.toFree
  ready : ∀ k, k ∈ it.toFree ↔ ∃ e, s.tracked[k]? = some e ∧ e.state = .readyToFree
  notTodo : key ∉ it.todo
  notToFree : key ∉ it.toFree
  tracked : ∃ e, s.tracked[key]? = some e

theorem Iter.classify_todo (it : Iter) (key : Nat) (state : TrackedCounterState) :
    (it.classify key state).todo = it.todo := by
  cases state <;> simp only [Iter.classify]
  split <;> rfl

theorem Iter.classify_toFree (it : Iter) (key : Nat) (state : TrackedCounterState) :
    (it.classify key state).toFree =
      if state = .readyToFree then it.toFree ++ [key] else it.toFree := by
  cases state <;> simp only [Iter.classify,reduceCtorEq,if_false,if_true]
  split <;> rfl

theorem AtHand.settle {it : Iter} {key : Nat} (h : AtHand s it key)
    (state : TrackedCounterState) (htracked : s'.tracked = s.tracked) :
    Lists ((s'.setTracked key state).goto (.visiting (it.classify key state))) := by
  obtain ⟨e₀,he₀⟩ := h.tracked
  have hother : ∀ k, k ≠ key →
      (s'.setTracked key state).tracked[k]? = s.tracked[k]? := by
    intro k hk
    rw [tracked_setTracked,if_neg (Ne.symm hk),htracked]
  have hkey : (s'.setTracked key state).tracked[key]? = some { e₀ with state := state } := by
    rw [tracked_setTracked,if_pos rfl,htracked,he₀]
    rfl
  constructor
  · change (it.classify key state).todo.Nodup
    rw [it.classify_todo]
    exact h.todoNodup
  · change (it.classify key state).toFree.Nodup
    rw [it.classify_toFree]
    split
    · exact List.nodup_append.mpr ⟨h.toFreeNodup,by simp,
        fun k hk k' hk' heq => h.notToFree (List.mem_singleton.mp hk' ▸ heq ▸ hk)⟩
    · exact h.toFreeNodup
  · intro k hk
    change k ∈ (it.classify key state).todo at hk
    change k ∉ (it.classify key state).toFree
    rw [it.classify_todo] at hk
    rw [it.classify_toFree]
    split
    · rw [List.mem_append,List.mem_singleton]
      rintro (hf | rfl)
      · exact h.disjoint k hk hf
      · exact h.notTodo hk
    · exact h.disjoint k hk
  · intro _ k
    change k ∈ (it.classify key state).toFree ↔
      ∃ e, (s'.setTracked key state).tracked[k]? = some e ∧ e.state = .readyToFree
    rw [it.classify_toFree]
    by_cases hk : k = key
    · subst hk
      rw [hkey]
      split <;> simp_all [h.notToFree]
    · rw [hother k hk,← h.ready k]
      split <;> simp [hk]
  · intro k state' hk
    simp [CollectorPc.current] at hk
  · intro it' len r j hpc
    simp at hpc
  · intro it' p phase hpc
    simp at hpc
  · intro site hpc
    simp at hpc

theorem AtHand.goto {it : Iter} {key : Nat} {pc : UpdatePc} {e : TrackedCounter}
    (h : AtHand s it key) (htracked : s'.tracked = s.tracked)
    (he : s.tracked[key]? = some e) (hstate : e.state = pc.expects) :
    Lists (s'.goto (.checking it key pc)) where
  todoNodup := h.todoNodup
  toFreeNodup := h.toFreeNodup
  disjoint := h.disjoint
  ready _ := by
    change ∀ k, k ∈ it.toFree ↔ ∃ e, s'.tracked[k]? = some e ∧ _
    rw [htracked]
    exact h.ready
  currentOk k state hk := by
    obtain ⟨rfl,rfl⟩ : key = k ∧ pc.expects = state := by
      simpa [CollectorPc.current] using hk
    refine ⟨h.notTodo,h.notToFree,e,?_,hstate⟩
    change s'.tracked[key]? = some e
    rwa [htracked]
  traversing := by simp
  dropping := by simp
  panic := by simp

theorem AtHand.resume {it : Iter} {key : Nat} {result : UpdateResult} {e : TrackedCounter}
    (h : AtHand s it key) (htracked : s'.tracked = s.tracked)
    (he : s.tracked[key]? = some e)
    (hgoto : ∀ pc, result = .goto pc → e.state = pc.expects)
    (hpanic : ∀ site, result = .panic site → site = .negativeSumWithoutTag) :
    Lists (s'.resume it key result) := by
  cases result with
  | goto pc => exact h.goto htracked he (hgoto pc rfl)
  | done state => exact h.settle state htracked
  | panic site =>
    obtain rfl := hpanic site rfl
    exact ⟨by simp [CollectorPc.todo,State.resume],by simp [CollectorPc.toFree,State.resume],
      by simp [CollectorPc.todo,State.resume],by simp [CollectorPc.isPanicked,State.resume],
      by simp [CollectorPc.current,State.resume],by simp [State.resume],
      by simp [State.resume],by simp [State.resume]⟩

theorem Lists.atHand {it : Iter} {key : Nat} {state : TrackedCounterState} (h : Lists s)
    (hpanic : s.collector.isPanicked = false) (htodo : s.collector.todo = it.todo)
    (hfree : s.collector.toFree = it.toFree)
    (hcurrent : s.collector.current = some (key,state)) :
    AtHand s it key ∧ ∃ e, s.tracked[key]? = some e ∧ e.state = state := by
  obtain ⟨h₁,h₂,e,he,hstate⟩ := h.currentOk key state hcurrent
  refine ⟨⟨htodo ▸ h.todoNodup,hfree ▸ h.toFreeNodup,?_,?_,htodo ▸ h₁,hfree ▸ h₂,e,he⟩,e,he,
    hstate⟩
  · rw [← htodo,← hfree]
    exact h.disjoint
  · rw [← hfree]
    exact h.ready hpanic

theorem Lists.checking {it : Iter} {key : Nat} {pc : UpdatePc} (h : Lists s)
    (hc : s.collector = .checking it key pc) :
    AtHand s it key ∧ ∃ e, s.tracked[key]? = some e ∧ e.state = pc.expects :=
  h.atHand (by simp [hc,CollectorPc.isPanicked]) (by simp [hc,CollectorPc.todo])
    (by simp [hc,CollectorPc.toFree]) (by simp [hc,CollectorPc.current])

theorem Lists.unlinking {it : Iter} {key w : Nat} (h : Lists s)
    (hc : s.collector = .unlinking it key w) :
    AtHand s it key ∧ ∃ e, s.tracked[key]? = some e ∧ e.state = .requiresReChecking :=
  h.atHand (by simp [hc,CollectorPc.isPanicked]) (by simp [hc,CollectorPc.todo])
    (by simp [hc,CollectorPc.toFree]) (by simp [hc,CollectorPc.current])

theorem Lists.visiting {it : Iter} {key : Nat} {todo : List Nat} {e : TrackedCounter}
    (h : Lists s) (hc : s.collector = .visiting it) (htodo : it.todo = key :: todo)
    (he : s.tracked[key]? = some e) :
    AtHand s { it with todo := todo } key ∧ e.state ≠ .readyToFree := by
  have hnodup : (key :: todo).Nodup := by
    have := h.todoNodup
    rwa [hc,CollectorPc.todo,htodo] at this
  have hdisjoint : ∀ k, k ∈ key :: todo → k ∉ it.toFree := by
    have := h.disjoint
    rwa [hc,CollectorPc.todo,CollectorPc.toFree,htodo] at this
  have hready : ∀ k, k ∈ it.toFree ↔ ∃ e, s.tracked[k]? = some e ∧ e.state = .readyToFree := by
    have := h.ready (by simp [hc,CollectorPc.isPanicked])
    rwa [hc] at this
  have hnodup' := List.nodup_cons.mp hnodup
  have hkey := hdisjoint key List.mem_cons_self
  have hfree : it.toFree.Nodup := by
    have := h.toFreeNodup
    rwa [hc] at this
  refine ⟨⟨hnodup'.2,hfree,fun k hk => hdisjoint k (List.mem_cons_of_mem _ hk),hready,
    hnodup'.1,hkey,e,he⟩,?_⟩
  intro hst
  exact hkey ((hready key).mpr ⟨e,he,hst⟩)

theorem Lists.free {it : Iter} {key : Nat} {toFree : List Nat} {e : TrackedCounter}
    (h : Lists s) (hc : s.collector = .freeing it) (hf : it.toFree = key :: toFree) :
    Lists
      { { s with tracked := s.tracked.erase key }.setInner e.pointee
          { s.heap e.pointee with stage := .dropping } with
        destructors := e.pointee :: s.destructors
        collector := .dropping { it with toFree := toFree } e.pointee .counters } := by
  have hnodup : (key :: toFree).Nodup := by
    have := h.toFreeNodup
    rwa [hc,CollectorPc.toFree,hf] at this
  have hready := h.ready (by simp [hc,CollectorPc.isPanicked])
  simp only [hc,CollectorPc.toFree,hf] at hready
  have hnodup' := List.nodup_cons.mp hnodup
  refine ⟨by simp [CollectorPc.todo],hnodup'.2,by simp [CollectorPc.todo],fun _ k => ?_,
    by simp [CollectorPc.current],by simp,?_,by simp⟩
  · change k ∈ toFree ↔ ∃ e, (s.tracked.erase key)[k]? = some e ∧ _
    rw [Std.TreeMap.getElem?_erase]
    by_cases hk : key = k
    · subst hk
      simp [hnodup'.1]
    · have := hready k
      simpa [Nat.compare_eq_eq,hk,Ne.symm hk] using this
  · rintro it' p' phase hpc
    obtain ⟨-,rfl,-⟩ := CollectorPc.dropping.inj hpc
    simp

theorem Lists.collector (h : Tracking cfg s) (hs : CollectorStep cfg s s') : Lists s' := by
  have hl := h.lists
  cases hs with
  | wake hc =>
    exact hl.goto (by simp [hc,CollectorPc.isPanicked]) rfl rfl
      (by simp [CollectorPc.todo]) (by simp [hc,CollectorPc.toFree])
      (by simp [CollectorPc.current]) (by simp) rfl (by simp)
  | takePending shard hc _ =>
    exact hl.goto (by simp [hc,CollectorPc.isPanicked]) rfl rfl
      (by simp [CollectorPc.todo]) (by simp [hc,CollectorPc.toFree])
      (by simp [CollectorPc.current]) (by simp) rfl (by simp)
  | track shard e rest hc hnone =>
    have hready := hl.ready (by simp [hc,CollectorPc.isPanicked])
    refine ⟨by simp [CollectorPc.todo],by simp [CollectorPc.toFree],
      by simp [CollectorPc.todo],fun _ k => ?_,by simp [CollectorPc.current],by simp,
      by simp,by simp⟩
    have hk := hready k
    simp only [hc,CollectorPc.toFree,List.not_mem_nil,false_iff] at hk ⊢
    rw [Std.TreeMap.getElem?_insert]
    split
    · simp
    · exact hk
  | replaced shard e rest x hc hx =>
    rw [h.places.untracked_of_taken hc] at hx
    contradiction
  | startIteration shard hc _ =>
    exact hl.start (by simp [hc,CollectorPc.isPanicked]) (by simp [hc,CollectorPc.toFree]) rfl
      rfl Std.TreeMap.nodup_keys rfl
  | readEmptySlot it len r j hc _ _ _ => exact hl.traverse hc rfl rfl rfl rfl
  | readSlot it len r j address hc _ _ _ => exact hl.traverse hc rfl rfl rfl rfl
  | spin it len r j hc _ => exact hl
  | poll it len r j hc _ _ _ => exact hl.traverse hc rfl rfl rfl rfl
  | endTraversal it len r j hc _ =>
    exact hl.goto (by simp [hc,CollectorPc.isPanicked]) rfl rfl
      (by simp [hc,CollectorPc.todo]) (by simp [hc,CollectorPc.toFree])
      (by simp [CollectorPc.current]) (by simp) rfl (by simp)
  | startFreeing it hc _ =>
    exact hl.goto (by simp [hc,CollectorPc.isPanicked]) rfl rfl
      (by simp [CollectorPc.todo]) (by simp [hc,CollectorPc.toFree])
      (by simp [CollectorPc.current]) (by simp) rfl (by simp)
  | skip it key todo hc htodo _ =>
    exact hl.goto (by simp [hc,CollectorPc.isPanicked]) rfl rfl
      (by simp [hc,CollectorPc.todo,htodo]) (by simp [hc,CollectorPc.toFree])
      (by simp [CollectorPc.current]) (by simp) rfl (by simp)
  | hazard it key todo e hc htodo he _ =>
    exact (hl.visiting hc htodo he).1.settle .defaultState rfl
  | startUpdate it key todo e hc htodo he _ =>
    obtain ⟨hat,hne⟩ := hl.visiting hc htodo he
    exact hat.resume rfl he (fun pc hpc => (UpdatePc.start_goto hpc).symm)
      (fun site hsite => absurd (UpdatePc.start_panic hsite) hne)
  | readShard it key k pc hc _ _ _ =>
    obtain ⟨hat,e,he,hst⟩ := hl.checking hc
    exact hat.resume rfl he (fun pc' hpc => hst.trans (UpdatePc.visit_goto hpc).symm)
      (fun site hsite => absurd hsite (UpdatePc.visit_ne_panic _ _ site))
  | clearTag it key k sum hc _ =>
    obtain ⟨hat,e,he,hst⟩ := hl.checking hc
    exact hat.goto rfl he hst
  | finishPass it key k pc hc _ _ =>
    obtain ⟨hat,e,he,hst⟩ := hl.checking hc
    exact hat.resume rfl he (fun pc' hpc => hst.trans (UpdatePc.finish_goto hpc).symm)
      (fun site hsite => UpdatePc.finish_panic hsite)
  | untracked it key hc hnone =>
    obtain ⟨-,e,he,-⟩ := hl.checking hc
    rw [hnone] at he
    contradiction
  | weakRefNotInvolved it key e hc _ _ =>
    obtain ⟨hat,-⟩ := hl.checking hc
    exact hat.settle .readyToFree rfl
  | foundWeakInner it key w e hc _ _ =>
    obtain ⟨hat,e',he',hst'⟩ := hl.checking hc
    refine hl.goto (by simp [hc,CollectorPc.isPanicked]) rfl rfl
      (by simp [hc,CollectorPc.todo]) (by simp [hc,CollectorPc.toFree]) ?_ (by simp) rfl
      (by simp)
    intro key' state hk
    obtain ⟨rfl,rfl⟩ : key = key' ∧ .requiresReChecking = state := by
      simpa [CollectorPc.current] using hk
    exact ⟨hat.notTodo,hat.notToFree,e',he',hst'⟩
  | weakBackRefCleared it key w origin p hc _ =>
    obtain ⟨hat,-⟩ := hl.unlinking hc
    exact hat.settle .requiresReChecking rfl
  | weakBackRefWasAlreadyNull it key w hc _ =>
    obtain ⟨hat,-⟩ := hl.unlinking hc
    exact hat.settle .readyToFree rfl
  | nextIteration it hc hf _ _ =>
    exact hl.start (by simp [hc,CollectorPc.isPanicked]) (by simp [hc,CollectorPc.toFree,hf])
      rfl rfl (Std.TreeSet.distinct_toList.imp fun hne heq => hne (by simp [heq])) rfl
  | endOuterIteration it hc hf _ =>
    exact hl.goto (by simp [hc,CollectorPc.isPanicked]) rfl rfl
      (by simp [CollectorPc.todo]) (by simp [hc,CollectorPc.toFree,hf])
      (by simp [CollectorPc.current]) (by simp) rfl (by simp)
  | removedUntracked it key toFree hc hf hnone =>
    have hmem := (hl.ready (by simp [hc,CollectorPc.isPanicked]) key).mp
      (by simp [hc,CollectorPc.toFree,hf])
    simp [hnone] at hmem
  | notReadyToFree it key toFree e hc hf he hne =>
    obtain ⟨e',he',hready⟩ := (hl.ready (by simp [hc,CollectorPc.isPanicked]) key).mp
      (by simp [hc,CollectorPc.toFree,hf])
    obtain rfl : e = e' := Option.some.inj (he.symm.trans he')
    exact absurd hready hne
  | countersPtrMismatch it key toFree e hc _ he hne =>
    exact absurd (h.places.trackedOk key e he).2 hne
  | free it key toFree e hc hf he _ _ => exact hl.free hc hf
  | dropCounters it p hc => exact hl.nextPhase hc rfl rfl (by simp)
  | dropWeakInnerRef it p w hc _ _ => exact hl.nextPhase hc rfl rfl (by simp)
  | noWeakInnerRef it p hc _ => exact hl.nextPhase hc rfl rfl rfl
  | dropWeakSdarcInner it p origin backRef hc _ _ => exact hl.nextPhase hc rfl rfl rfl
  | dropMemory it p hc =>
    exact hl.goto (by simp [hc,CollectorPc.isPanicked]) rfl rfl
      (by simp [CollectorPc.todo]) (by simp [hc,CollectorPc.toFree])
      (by simp [CollectorPc.current]) (by simp) rfl (by simp)

end Collector

section Run

variable {cfg : Config} {s s' : State}

theorem tracking_initial (cfg : Config) : Tracking cfg .initial where
  places := by
    constructor <;> simp [State.initial,CollectorPc.taken,takenCount,pendingCount,trackedCount,
      registeringCount,registeringIn,ThreadPc.registers]
  lists := by
    constructor <;> simp [State.initial,CollectorPc.todo,CollectorPc.toFree,
      CollectorPc.current]

theorem Tracking.step {a : Action} (h : Tracking cfg s) (hs : SystemStep cfg s a s') :
    Tracking cfg s' := by
  cases hs with
  | thread t op _ ht hs => exact h.thread ht hs
  | collector _ hs => exact ⟨Places.collector h hs,Lists.collector h hs⟩
  | finishDestructor panicked it p hc _ _ =>
    refine ⟨h.places.of_same (.of_goto (by simp [hc,CollectorPc.taken])),?_⟩
    refine h.lists.goto (by simp [hc,CollectorPc.isPanicked]) rfl rfl
      (by simp [CollectorPc.todo]) (by simp [hc,CollectorPc.toFree])
      (by simp [CollectorPc.current]) (fun it' p' phase hpc => ?_) rfl (by simp)
    obtain ⟨-,rfl,-⟩ := CollectorPc.dropping.inj hpc
    exact h.lists.dropping it p _ hc

end Run

section Entries

variable {cfg : Config} {s : State}

def State.entries (cfg : Config) (s : State) : List Entry :=
  (List.range cfg.shards).flatMap s.pending ++ s.collector.taken ++
    s.tracked.toList.map (fun x => ⟨x.2.pointee,x.1⟩)

/-- What the registration promises of a state. -/
structure State.Registered (cfg : Config) (s : State) : Prop where
  inOnePlace : ∀ p, (s.heap p).stage = .allocated → registeringCount cfg s p = 0 →
    (s.entries cfg).countP (fun e => e.pointee = p) = 1
  countersPtrs : ((s.entries cfg).map Entry.countersPtr).Nodup
  asserts : ∀ site, s.collector = .panicked site →
    site = .updateState .negativeSumWithoutTag
  noneLeft : ∀ key e, s.tracked[key]? = some e → e.state = .readyToFree →
    s.collector.isPanicked = false →
    key ∈ s.collector.toFree ∧ s.collector ≠ .parked ∧
      (∀ shard taken, s.collector ≠ .taking shard taken) ∧
      ∀ it len r j, s.collector ≠ .traversing it len r j
  neverUpdated : ∀ it key todo e, s.collector = .visiting it → it.todo = key :: todo →
    s.tracked[key]? = some e → e.state ≠ .readyToFree
  destroyedOnce : s.destructors.Nodup

end Entries

end Sdarc.System
