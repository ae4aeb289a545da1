import Sdarc.System.ThreadStep
set_option autoImplicit false

/-! What one step of the collector can do. -/

namespace Sdarc.System

variable {cfg : Config} {s : State}

inductive CollectorStep (cfg : Config) (s : State) : State → Prop where
  | wake :
      s.collector = .parked →
      CollectorStep cfg s { s with
        toNotify := s.collectionWaiting
        collectionWaiting := []
        collector := .taking 0 [] }
  | takePending (shard : Nat) :
      s.collector = .taking shard [] → shard < cfg.shards →
      CollectorStep cfg s (s.takePending shard)
  | track (shard : Nat) (e : Entry) (rest : List Entry) :
      s.collector = .taking shard (e :: rest) → s.tracked[e.countersPtr]? = none →
      CollectorStep cfg s { s with
        tracked := s.tracked.insert e.countersPtr ⟨e.pointee,.defaultState⟩
        collector := .taking shard rest }
  | replaced (shard : Nat) (e : Entry) (rest : List Entry) (x : TrackedCounter) :
      s.collector = .taking shard (e :: rest) → s.tracked[e.countersPtr]? = some x →
      CollectorStep cfg s (s.goto (.panicked .replacedTracked))
  | startIteration (shard : Nat) :
      s.collector = .taking shard [] → cfg.shards ≤ shard →
      CollectorStep cfg s (s.startIteration (!s.toNotify.isEmpty) 0 s.tracked.keys)
  | readEmptySlot (it : Iter) (len r j : Nat) :
      s.collector = .traversing it len r j → r < len → j < HZ_PTR_SLOT_COUNT →
      (s.records r).slots j = none →
      CollectorStep cfg s (s.goto (.traversing it len r (j+1)))
  | readSlot (it : Iter) (len r j address : Nat) :
      s.collector = .traversing it len r j → r < len → j < HZ_PTR_SLOT_COUNT →
      (s.records r).slots j = some address →
      CollectorStep cfg s
        (s.goto (.traversing { it with hazard := insert address it.hazard } len r (j+1)))
  | spin (it : Iter) (len r j : Nat) :
      s.collector = .traversing it len r j → (s.records r).flag = true →
      CollectorStep cfg s s
  | poll (it : Iter) (len r j : Nat) :
      s.collector = .traversing it len r j → r < len → HZ_PTR_SLOT_COUNT ≤ j →
      (s.records r).flag = false →
      CollectorStep cfg s (s.goto (.traversing it len (r+1) 0))
  | endTraversal (it : Iter) (len r j : Nat) :
      s.collector = .traversing it len r j → len ≤ r →
      CollectorStep cfg s (s.goto (.visiting it))
  | startFreeing (it : Iter) :
      s.collector = .visiting it → it.todo = [] →
      CollectorStep cfg s (s.goto (.freeing it))
  | skip (it : Iter) (key : Nat) (todo : List Nat) :
      s.collector = .visiting it → it.todo = key :: todo → s.tracked[key]? = none →
      CollectorStep cfg s (s.goto (.visiting { it with todo := todo }))
  | hazard (it : Iter) (key : Nat) (todo : List Nat) (e : TrackedCounter) :
      s.collector = .visiting it → it.todo = key :: todo → s.tracked[key]? = some e →
      (s.heap e.pointee).ptr ∈ it.hazard →
      CollectorStep cfg s
        ((s.setTracked key .defaultState).goto (.visiting { it with todo := todo }))
  | startUpdate (it : Iter) (key : Nat) (todo : List Nat) (e : TrackedCounter) :
      s.collector = .visiting it → it.todo = key :: todo → s.tracked[key]? = some e →
      (s.heap e.pointee).ptr ∉ it.hazard →
      CollectorStep cfg s
        (s.resume { it with todo := todo } key (UpdatePc.start e.state))
  | readShard (it : Iter) (key k : Nat) (pc : UpdatePc) :
      s.collector = .checking it key pc → pc.shard = some k → k < cfg.shards →
      pc.clearsTag = false →
      CollectorStep cfg s (s.resume it key (pc.visit (s.counters key k)))
  | clearTag (it : Iter) (key k : Nat) (sum : Int) :
      s.collector = .checking it key (.clearTags k sum) → k < cfg.shards →
      CollectorStep cfg s
        ((s.setCounter key k (s.counters key k).clearTag).goto
          (.checking it key (.clearTags (k+1) (sum + (s.counters key k).refCount))))
  | finishPass (it : Iter) (key k : Nat) (pc : UpdatePc) :
      s.collector = .checking it key pc → pc.shard = some k → cfg.shards ≤ k →
      CollectorStep cfg s (s.resume it key pc.finish)
  | untracked (it : Iter) (key : Nat) :
      s.collector = .checking it key .clearWeakBackRef → s.tracked[key]? = none →
      CollectorStep cfg s (s.goto (.visiting it))
  | weakRefNotInvolved (it : Iter) (key : Nat) (e : TrackedCounter) :
      s.collector = .checking it key .clearWeakBackRef → s.tracked[key]? = some e →
      (∀ w, (s.heap e.pointee).weakInnerRef ≠ .initialized w) →
      CollectorStep cfg s (s.resume it key (.done .readyToFree))
  | foundWeakInner (it : Iter) (key w : Nat) (e : TrackedCounter) :
      s.collector = .checking it key .clearWeakBackRef → s.tracked[key]? = some e →
      (s.heap e.pointee).weakInnerRef = .initialized w →
      CollectorStep cfg s (s.goto (.unlinking it key w))
  | weakBackRefCleared (it : Iter) (key w origin p : Nat) :
      s.collector = .unlinking it key w →
      (s.heap w).data = .weakSdarcInner origin (some p) →
      CollectorStep cfg s
        ((s.setInner w { s.heap w with data := .weakSdarcInner origin none }).resume it key
          (.done .requiresReChecking))
  | weakBackRefWasAlreadyNull (it : Iter) (key w : Nat) :
      s.collector = .unlinking it key w →
      (∀ origin p, (s.heap w).data ≠ .weakSdarcInner origin (some p)) →
      CollectorStep cfg s (s.resume it key (.done .readyToFree))
  | nextIteration (it : Iter) :
      s.collector = .freeing it → it.toFree = [] → it.deep = true →
      it.round < MAX_INNER_ITERATIONS →
      CollectorStep cfg s
        ({ s with countersToReCheck := ∅ }.startIteration true (it.round+1)
          (it.newToReCheck ∪ s.countersToReCheck).toList)
  | endOuterIteration (it : Iter) :
      s.collector = .freeing it → it.toFree = [] →
      ¬ (it.deep = true ∧ (it.newToReCheck ∪ s.countersToReCheck).isEmpty = false ∧
        it.round < MAX_INNER_ITERATIONS) →
      CollectorStep cfg s ({ s with countersToReCheck := ∅ }.endOuterIteration)
  | removedUntracked (it : Iter) (key : Nat) (toFree : List Nat) :
      s.collector = .freeing it → it.toFree = key :: toFree → s.tracked[key]? = none →
      CollectorStep cfg s (s.goto (.panicked .removedUntracked))
  | notReadyToFree (it : Iter) (key : Nat) (toFree : List Nat) (e : TrackedCounter) :
      s.collector = .freeing it → it.toFree = key :: toFree → s.tracked[key]? = some e →
      e.state ≠ .readyToFree →
      CollectorStep cfg s
        ({ s with tracked := s.tracked.erase key }.goto (.panicked .notReadyToFree))
  | countersPtrMismatch (it : Iter) (key : Nat) (toFree : List Nat) (e : TrackedCounter) :
      s.collector = .freeing it → it.toFree = key :: toFree → s.tracked[key]? = some e →
      (s.heap e.pointee).countersPtr ≠ key →
      CollectorStep cfg s
        ({ s with tracked := s.tracked.erase key }.goto (.panicked .countersPtrMismatch))
  | free (it : Iter) (key : Nat) (toFree : List Nat) (e : TrackedCounter) :
      s.collector = .freeing it → it.toFree = key :: toFree → s.tracked[key]? = some e →
      e.state = .readyToFree → (s.heap e.pointee).countersPtr = key →
      CollectorStep cfg s
        { { s with tracked := s.tracked.erase key }.setInner e.pointee
            { s.heap e.pointee with stage := .dropping } with
          destructors := e.pointee :: s.destructors
          collector := .dropping { it with toFree := toFree } e.pointee .counters }
  | dropCounters (it : Iter) (p : Nat) :
      s.collector = .dropping it p .counters →
      CollectorStep cfg s ((s.setInner p { s.heap p with slotReleased := true }).goto
        (.dropping it p .weakInnerRef))
  | dropWeakInnerRef (it : Iter) (p w : Nat) :
      s.collector = .dropping it p .weakInnerRef →
      (s.heap p).weakInnerRef = .initialized w → (s.threads 0).pc = .idle →
      CollectorStep cfg s
        (((s.setInner p { s.heap p with weakInnerRef := .uninit }).setPc 0
          (.drop w)).goto (.dropping it p .data))
  | noWeakInnerRef (it : Iter) (p : Nat) :
      s.collector = .dropping it p .weakInnerRef →
      (∀ w, (s.heap p).weakInnerRef ≠ .initialized w) →
      CollectorStep cfg s (s.goto (.dropping it p .data))
  | dropWeakSdarcInner (it : Iter) (p origin : Nat) (backRef : Option Nat) :
      s.collector = .dropping it p .data →
      (s.heap p).data = .weakSdarcInner origin backRef → (s.threads 0).pc = .idle →
      CollectorStep cfg s
        ({ s with assertionFailed := s.assertionFailed || backRef.isSome }.goto
          (.dropping it p .memory))
  | dropMemory (it : Iter) (p : Nat) :
      s.collector = .dropping it p .memory →
      CollectorStep cfg s ((s.setInner p { s.heap p with stage := .deallocated }).goto
        (.freeing it))

theorem State.track_step {shard : Nat} {e : Entry} {rest : List Entry}
    (h : s.collector = .taking shard (e :: rest)) :
    CollectorStep cfg s (s.track shard e rest) := by
  unfold State.track
  split
  · exact .track _ _ _ h ‹_›
  · exact .replaced _ _ _ _ h ‹_›

theorem State.traverse_step {it : Iter} {len r j : Nat}
    (h : s.collector = .traversing it len r j) :
    CollectorStep cfg s (s.traverse it len r j) := by
  unfold State.traverse
  split
  · split
    · split
      · exact .readEmptySlot _ _ _ _ h ‹_› ‹_› ‹_›
      · exact .readSlot _ _ _ _ _ h ‹_› ‹_› ‹_›
    · split
      · exact .spin _ _ _ _ h ‹_›
      · exact .poll _ _ _ _ h ‹_› (by omega) (Bool.of_not_eq_true ‹_›)
  · exact .endTraversal _ _ _ _ h (by omega)

theorem State.visit_step {it : Iter} (h : s.collector = .visiting it) :
    CollectorStep cfg s (s.visit it) := by
  unfold State.visit
  split
  · exact .startFreeing _ h ‹_›
  · dsimp only
    split
    · exact .skip _ _ _ h ‹_› ‹_›
    · split
      · exact .hazard _ _ _ _ h ‹_› ‹_› ‹_›
      · exact .startUpdate _ _ _ _ h ‹_› ‹_› ‹_›

theorem State.check_step {it : Iter} {key : Nat} {pc : UpdatePc}
    (h : s.collector = .checking it key pc) :
    CollectorStep cfg s (s.check cfg it key pc) := by
  unfold State.check
  split
  · rename_i hshard
    obtain rfl : pc = .clearWeakBackRef := by
      cases pc <;> simp_all [UpdatePc.shard]
    unfold State.clearWeakBackRef
    split
    · exact .untracked _ _ h ‹_›
    · split
      · exact .foundWeakInner _ _ _ _ h ‹_› ‹_›
      · exact .weakRefNotInvolved _ _ _ h ‹_› ‹_›
  · rename_i k hshard
    split
    · cases hc : pc.clearsTag with
      | false => exact .readShard _ _ _ _ h hshard ‹_› hc
      | true =>
        cases pc with
        | clearTags j sum =>
          obtain rfl : j = k := by simpa [UpdatePc.shard] using hshard
          exact .clearTag _ _ _ _ h ‹_›
        | _ => simp [UpdatePc.clearsTag] at hc
    · exact .finishPass _ _ _ _ h hshard (by omega)

theorem State.swapBackRef_step {it : Iter} {key w : Nat}
    (h : s.collector = .unlinking it key w) :
    CollectorStep cfg s (s.swapBackRef it key w) := by
  unfold State.swapBackRef
  split
  · exact .weakBackRefCleared _ _ _ _ _ h ‹_›
  · exact .weakBackRefWasAlreadyNull _ _ _ h ‹_›

theorem State.free_step {it : Iter} (h : s.collector = .freeing it) :
    CollectorStep cfg s (s.free it) := by
  unfold State.free
  split
  · unfold State.endIteration
    dsimp only
    split
    · rename_i hcont
      exact .nextIteration _ h ‹_› hcont.1 hcont.2.2
    · exact .endOuterIteration _ h ‹_› ‹_›
  · split
    · exact .removedUntracked _ _ _ h ‹_› ‹_›
    · dsimp only
      split
      · exact .notReadyToFree _ _ _ _ h ‹_› ‹_› ‹_›
      · split
        · exact .countersPtrMismatch _ _ _ _ h ‹_› ‹_› ‹_›
        · exact .free _ _ _ _ h ‹_› ‹_› (by simpa using ‹¬ _ ≠ _›) (by simpa using ‹¬ _ ≠ _›)

theorem State.dropInner_step {it : Iter} {p : Nat} {phase : DropPhase} {s' : State}
    (h : s.collector = .dropping it p phase) (hs : s.dropInner it p phase = some s') :
    CollectorStep cfg s s' := by
  cases phase with
  | counters =>
    obtain rfl := Option.some.inj hs
    exact .dropCounters _ _ h
  | weakInnerRef =>
    simp only [State.dropInner] at hs
    split at hs
    · simp only [Option.ite_none_right_eq_some,Option.some.injEq] at hs
      obtain ⟨hidle,rfl⟩ := hs
      exact .dropWeakInnerRef _ _ _ h ‹_› hidle
    · obtain rfl := Option.some.inj hs
      exact .noWeakInnerRef _ _ h ‹_›
  | data =>
    simp only [State.dropInner] at hs
    split at hs
    · contradiction
    · simp only [Option.ite_none_right_eq_some,Option.some.injEq] at hs
      obtain ⟨hidle,rfl⟩ := hs
      exact .dropWeakSdarcInner _ _ _ _ h ‹_› hidle
  | memory =>
    obtain rfl := Option.some.inj hs
    exact .dropMemory _ _ h

theorem State.collect_step {s' : State} (hs : s.collect cfg = some s') :
    CollectorStep cfg s s' := by
  unfold State.collect at hs
  split at hs
  · obtain rfl := Option.some.inj hs
    exact .wake ‹_›
  · obtain rfl := Option.some.inj hs
    exact State.track_step ‹_›
  · split at hs <;> obtain rfl := Option.some.inj hs
    · exact .takePending _ ‹_› ‹_›
    · exact .startIteration _ ‹_› (by omega)
  · obtain rfl := Option.some.inj hs
    exact State.traverse_step ‹_›
  · obtain rfl := Option.some.inj hs
    exact State.visit_step ‹_›
  · obtain rfl := Option.some.inj hs
    exact State.check_step ‹_›
  · obtain rfl := Option.some.inj hs
    exact State.swapBackRef_step ‹_›
  · obtain rfl := Option.some.inj hs
    exact State.free_step ‹_›
  · exact State.dropInner_step ‹_› hs
  · contradiction

inductive SystemStep (cfg : Config) (s : State) : Action → State → Prop where
  | thread (t : Nat) (op : Op) (s' : State) :
      t < cfg.threads → ThreadStep cfg s t op s' → SystemStep cfg s (.thread t op) s'
  | collector (s' : State) : CollectorStep cfg s s' → SystemStep cfg s .collector s'
  | finishDestructor (panicked : Bool) (it : Iter) (p : Nat) :
      s.collector = .dropping it p .data → s.isWeakSdarcInner p = false →
      (s.threads 0).pc = .idle →
      SystemStep cfg s (.finishDestructor panicked) (s.goto (.dropping it p .memory))

theorem step_cases {a : Action} {s' : State} (h : step cfg s a = some s') :
    SystemStep cfg s a s' := by
  cases a with
  | thread t op =>
    simp only [step,Option.ite_none_right_eq_some] at h
    exact .thread _ _ _ h.1 (Op.run_step h.2)
  | collector => exact .collector _ (State.collect_step h)
  | finishDestructor panicked =>
    simp only [step,State.finishDestructor] at h
    split at h
    · simp only [Option.ite_none_right_eq_some,Option.some.injEq] at h
      obtain ⟨⟨h₁,h₂⟩,rfl⟩ := h
      exact .finishDestructor _ _ _ ‹_› h₁ h₂
    · contradiction

end Sdarc.System
