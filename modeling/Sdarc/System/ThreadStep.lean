import Sdarc.System.Collector
set_option autoImplicit false

/-!
What one step of a thread can do, once for all proofs: a case for each outcome of each
operation, with the guards under which it is taken.
-/

namespace Sdarc.System

variable {cfg : Config} {s : State} {t : Nat}

def Op.mayStay : Op → Bool
  | .deref _ | .derefGuard _ | .syncTo _ _ | .borrow _ | .compareAndSet _ _ _ => true
  | _ => false

inductive ThreadStep (cfg : Config) (s : State) (t : Nat) : Op → State → Prop where
  | stay (op : Op) :
      s.canStart t → op.mayStay = true → ThreadStep cfg s t op s
  | sdarcNew (ptr countersPtr shard : Nat) (borrows : List Nat) :
      s.canStart t → s.canAllocate ptr countersPtr → shard < cfg.shards →
      ThreadStep cfg s t (.sdarcNew ptr countersPtr shard borrows)
        ((s.allocate ptr countersPtr shard (.user borrows)).setPc t
          (.registerNew s.nextPointee))
  | onNewSdarcAllocated (shard p : Nat) :
      (s.threads t).pc = .registerNew p → shard < cfg.shards →
      ThreadStep cfg s t (.onNewSdarcAllocated shard)
        (((s.register p shard).addLive p).setPc t .idle)
  | clone (p shard : Nat) :
      s.canStart t → 0 < s.live p → shard < cfg.shards →
      ThreadStep cfg s t (.clone p shard) ((s.increment p shard).addLive p)
  | dropHandle (p : Nat) :
      s.canStart t → s.canTake cfg p →
      ThreadStep cfg s t (.dropHandle p) ((s.takeLive p).setPc t (.drop p))
  | dropLoad (shard p : Nat) :
      (s.threads t).pc = .drop p → shard < cfg.shards →
      ThreadStep cfg s t (.dropLoad shard)
        ((s.onSdarcDrop t p).setPc t (.dropExchange p shard (s.counter p shard)))
  | decrement (p shard : Nat) :
      (s.threads t).pc = .dropExchange p shard (s.counter p shard) →
      ThreadStep cfg s t (.dropExchange false)
        ((s.setCounter (s.heap p).countersPtr shard
          (s.counter p shard).decrementAndSetTag).setPc t .idle)
  | decrementRetry (spurious : Bool) (p shard : Nat) (value : Counter) :
      (s.threads t).pc = .dropExchange p shard value →
      ThreadStep cfg s t (.dropExchange spurious)
        (s.setPc t (.dropExchange p shard (s.counter p shard)))
  | swap (c : Nat) (new : Option Nat) (discard : Bool) :
      s.canStart t → c < cfg.cells → s.canTakeOption cfg new →
      ThreadStep cfg s t (.swap c new discard)
        (((s.takeLiveOption new).setCell c new).addLiveOption (s.cells c))
  | store (c : Nat) (new : Option Nat) (old : Nat) :
      s.canStart t → c < cfg.cells → s.canTakeOption cfg new → s.cells c = some old →
      ThreadStep cfg s t (.swap c new true)
        (((s.takeLiveOption new).setCell c new).setPc t (.drop old))
  | loadOwned (src : Source) :
      s.canStart t → s.canUse cfg src →
      ThreadStep cfg s t (.loadOwned src) (s.setPc t (.loadEnter src none))
  | syncTo (c : Nat) (target : Option Nat) :
      s.canStart t → c < cfg.cells → s.canTakeOption cfg target →
      ThreadStep cfg s t (.syncTo c target)
        ((s.takeLiveOption target).setPc t (.loadEnter (.cell c) target))
  | sectionNested (src : Source) (after : Option Nat) (r : Nat) :
      (s.threads t).pc = .loadEnter src after → (s.threads t).record = .held r →
      (s.records r).flag = true →
      ThreadStep cfg s t .enterSection
        ({ s.addLiveOption after with assertionFailed := true }.setPc t .idle)
  | enterSection (src : Source) (after : Option Nat) (r : Nat) :
      (s.threads t).pc = .loadEnter src after → (s.threads t).record = .held r →
      (s.records r).flag = false →
      ThreadStep cfg s t .enterSection
        ((s.setFlag r true).setPc t (.loadPointer src after))
  | loadNull (src : Source) (after : Option Nat) :
      (s.threads t).pc = .loadPointer src after → s.load src = none →
      ThreadStep cfg s t .loadPointer (s.setPc t (.loadLeave src after none))
  | loadPointer (src : Source) (after : Option Nat) (p : Nat) :
      (s.threads t).pc = .loadPointer src after → s.load src = some p →
      ThreadStep cfg s t .loadPointer (s.setPc t (.loadIncrement src after p))
  | loadIncrement (src : Source) (after : Option Nat) (p shard : Nat) :
      (s.threads t).pc = .loadIncrement src after p → shard < cfg.shards →
      ThreadStep cfg s t (.loadIncrement shard)
        ((s.increment p shard).setPc t (.loadLeave src after (some p)))
  | leaveSection (src : Source) (result : Option Nat) (r : Nat) :
      (s.threads t).pc = .loadLeave src none result → (s.threads t).record = .held r →
      ThreadStep cfg s t .leaveSection
        (((s.setFlag r false).addLiveOption result).setPc t .idle)
  | leaveSectionDrop (src : Source) (old : Nat) (result : Option Nat) (r : Nat) :
      (s.threads t).pc = .loadLeave src (some old) result →
      (s.threads t).record = .held r →
      ThreadStep cfg s t .leaveSection
        (((s.setFlag r false).addLiveOption result).setPc t (.drop old))
  | borrow (src : Source) (address : Nat) :
      s.canStart t → s.canUse cfg src →
      ThreadStep cfg s t (.borrow src) (s.setPc t (.borrowPublish src address))
  | publish (src : Source) (address r j : Nat) :
      (s.threads t).pc = .borrowPublish src address → (s.threads t).record = .held r →
      j < HZ_PTR_SLOT_COUNT → (s.records r).slots j = none →
      ThreadStep cfg s t .publish
        ((s.setSlot r j (some address)).setPc t (.borrowReload src j address))
  | slotsFull (src : Source) (address : Nat) :
      (s.threads t).pc = .borrowPublish src address →
      ThreadStep cfg s t .publish (s.setPc t (.loadEnter src none))
  | reload (src : Source) (j p : Nat) :
      (s.threads t).pc = .borrowReload src j (s.heap p).ptr → s.load src = some p →
      ThreadStep cfg s t .reload ((s.setGuard t j (some p)).setPc t .idle)
  | pointerChanged (src : Source) (j address : Nat) :
      (s.threads t).pc = .borrowReload src j address →
      ThreadStep cfg s t .reload (s.setPc t (.borrowRetract src j))
  | retract (src : Source) (j r : Nat) :
      (s.threads t).pc = .borrowRetract src j → (s.threads t).record = .held r →
      ThreadStep cfg s t .retract ((s.setSlot r j none).setPc t (.loadEnter src none))
  | dropGuard (j p r : Nat) :
      s.canStart t → (s.threads t).guards j = some p → (s.threads t).record = .held r →
      ThreadStep cfg s t (.dropGuard j) ((s.setSlot r j none).setGuard t j none)
  | obtain :
      (s.threads t).record = .none → (s.threads t).pc.needsRecord = true →
      ThreadStep cfg s t .obtain (s.setRecordRef t (.scanning s.recordCount 0))
  | recordUsed (len next : Nat) :
      (s.threads t).record = .scanning len next → next < len →
      ThreadStep cfg s t .obtainNext (s.setRecordRef t (.scanning len (next+1)))
  | claimRecord (len next : Nat) :
      (s.threads t).record = .scanning len next → next < len →
      (s.records next).isUsed = false →
      ThreadStep cfg s t .obtainNext
        ((s.setRecord next { s.records next with isUsed := true }).setRecordRef t
          (.held next))
  | pushRecord (len next : Nat) :
      (s.threads t).record = .scanning len next →
      ThreadStep cfg s t .obtainNext
        (({ s with recordCount := s.recordCount + 1 }.setRecord s.recordCount
          ⟨fun _ => none,true,false⟩).setRecordRef t (.held s.recordCount))
  | release (r : Nat) :
      s.canStart t → (s.threads t).record = .held r →
      (∀ j, j < HZ_PTR_SLOT_COUNT → (s.threads t).guards j = none) →
      (s.records r).flag = false →
      ThreadStep cfg s t .release
        ((s.setRecord r { s.records r with isUsed := false }).setRecordRef t .none)
  | releaseFailed (r : Nat) :
      s.canStart t → (s.threads t).record = .held r →
      (∀ j, j < HZ_PTR_SLOT_COUNT → (s.threads t).guards j = none) →
      ¬ ((∀ j, j < HZ_PTR_SLOT_COUNT → (s.records r).slots j = none) ∧
        (s.records r).flag = false) →
      ThreadStep cfg s t .release { s with assertionFailed := true }
  | setNull (c : Nat) (ifMatches : Option Nat) :
      s.canStart t → c < cfg.cells →
      ThreadStep cfg s t (.compareAndSet c ifMatches none)
        ((s.setCell c none).addLiveOption (s.cells c))
  | compareAndSet (c : Nat) (ifMatches : Option Nat) (p : Nat) :
      s.canStart t → c < cfg.cells → 0 < s.live p →
      ThreadStep cfg s t (.compareAndSet c ifMatches (some p))
        ((s.setCell c (some p)).setPc t (.incrementThenSet p (s.cells c)))
  | incrementThenSet (p : Nat) (original : Option Nat) (shard : Nat) :
      (s.threads t).pc = .incrementThenSet p original → shard < cfg.shards →
      ThreadStep cfg s t (.incrementThenSet shard)
        (((s.increment p shard).addLiveOption original).setPc t .idle)
  | downgrade (p : Nat) :
      s.canStart t → 0 < s.live p → s.isWeakSdarcInner p = false →
      ThreadStep cfg s t (.downgrade p) (s.setPc t (.getOrInit p))
  | getInitialized (p w : Nat) :
      (s.threads t).pc = .getOrInit p → (s.heap p).weakInnerRef = .initialized w →
      ThreadStep cfg s t .getOrInit (s.setPc t (.cloneWeakInner p w))
  | startInit (p : Nat) :
      (s.threads t).pc = .getOrInit p → (s.heap p).weakInnerRef = .uninit →
      ThreadStep cfg s t .getOrInit
        ((s.setInner p { s.heap p with weakInnerRef := .running t }).setPc t
          (.newWeakInner p))
  | newWeakInner (ptr countersPtr shard p : Nat) :
      (s.threads t).pc = .newWeakInner p → s.canAllocate ptr countersPtr →
      shard < cfg.shards →
      ThreadStep cfg s t (.newWeakInner ptr countersPtr shard)
        ((s.allocate ptr countersPtr shard (.weakSdarcInner p (some p))).setPc t
          (.registerWeakInner p s.nextPointee))
  | registerWeakInner (shard p w : Nat) :
      (s.threads t).pc = .registerWeakInner p w → shard < cfg.shards →
      ThreadStep cfg s t (.registerWeakInner shard)
        ((s.register w shard).setPc t (.setWeakInner p w))
  | setWeakInner (p w : Nat) :
      (s.threads t).pc = .setWeakInner p w →
      ThreadStep cfg s t .setWeakInner
        ((s.setInner p { s.heap p with weakInnerRef := .initialized w }).setPc t
          (.cloneWeakInner p w))
  | cloneWeakInner (shard p w : Nat) :
      (s.threads t).pc = .cloneWeakInner p w → shard < cfg.shards →
      ThreadStep cfg s t (.cloneWeakInner shard)
        (((s.increment w shard).addLive w).setPc t .idle)
  | collectorUpdateNowAndWait :
      s.canStart t →
      ThreadStep cfg s t .collectorUpdateNowAndWait
        ({ s with collectionWaiting := s.collectionWaiting ++ [t] }.setPc t .waiting)

theorem freeSlot_spec {x : HazardData} {j : Nat} (h : State.freeSlot x = some j) :
    j < HZ_PTR_SLOT_COUNT ∧ x.slots j = none := by
  have hmem := List.mem_of_find?_eq_some h
  have hnone := List.find?_some h
  exact ⟨List.mem_range.mp hmem,by simpa using hnone⟩

theorem State.dropExchange_step {spurious : Bool} {s' : State}
    (h : s.dropExchange t spurious = some s') :
    ThreadStep cfg s t (.dropExchange spurious) s' := by
  simp only [State.dropExchange] at h
  split at h
  · rename_i p shard value hpc
    split at h <;> obtain rfl := Option.some.inj h
    · rename_i hok
      obtain ⟨rfl,rfl⟩ := hok
      exact .decrement _ _ hpc
    · exact .decrementRetry _ _ _ _ hpc
  · contradiction

theorem State.swap_step {c : Nat} {new : Option Nat} {discard : Bool} {s' : State}
    (h : s.swap cfg t c new discard = some s') :
    ThreadStep cfg s t (.swap c new discard) s' := by
  simp only [State.swap,Option.ite_none_right_eq_some] at h
  obtain ⟨⟨h₁,h₂,h₃⟩,h⟩ := h
  split at h
  · rename_i hc
    obtain rfl := Option.some.inj h
    have hstep : ThreadStep cfg s t _ _ := .swap c new discard h₁ h₂ h₃
    rwa [hc] at hstep
  · rename_i old hc
    cases discard with
    | true =>
      obtain rfl := Option.some.inj h
      exact .store _ _ _ h₁ h₂ h₃ hc
    | false =>
      obtain rfl := Option.some.inj h
      have hstep : ThreadStep cfg s t _ _ := .swap c new false h₁ h₂ h₃
      rwa [hc] at hstep

theorem State.enterSection_step {s' : State} (h : s.enterSection t = some s') :
    ThreadStep cfg s t .enterSection s' := by
  simp only [State.enterSection] at h
  split at h
  · split at h <;> obtain rfl := Option.some.inj h
    · exact .sectionNested _ _ _ ‹_› ‹_› ‹_›
    · exact .enterSection _ _ _ ‹_› ‹_› (Bool.of_not_eq_true ‹_›)
  · contradiction

theorem State.leaveSection_step {s' : State} (h : s.leaveSection t = some s') :
    ThreadStep cfg s t .leaveSection s' := by
  simp only [State.leaveSection] at h
  split at h
  · split at h <;> obtain rfl := Option.some.inj h
    · exact .leaveSection _ _ _ ‹_› ‹_›
    · exact .leaveSectionDrop _ _ _ _ ‹_› ‹_›
  · contradiction

theorem State.publish_step {s' : State} (h : s.publish t = some s') :
    ThreadStep cfg s t .publish s' := by
  simp only [State.publish] at h
  split at h
  · split at h <;> obtain rfl := Option.some.inj h
    · rename_i hslot
      obtain ⟨hj,hnone⟩ := freeSlot_spec hslot
      exact .publish _ _ _ _ ‹_› ‹_› hj hnone
    · exact .slotsFull _ _ ‹_›
  · contradiction

theorem State.reload_step {s' : State} (h : s.reload t = some s') :
    ThreadStep cfg s t .reload s' := by
  simp only [State.reload] at h
  split at h
  · rename_i hpc
    split at h
    · obtain rfl := Option.some.inj h
      exact .pointerChanged _ _ _ hpc
    · split at h <;> obtain rfl := Option.some.inj h
      · rename_i hload haddr
        exact .reload _ _ _ (haddr ▸ hpc) hload
      · exact .pointerChanged _ _ _ hpc
  · contradiction

theorem State.obtainNext_step {s' : State} (h : s.obtainNext t = some s') :
    ThreadStep cfg s t .obtainNext s' := by
  simp only [State.obtainNext] at h
  split at h
  · split at h
    · split at h <;> obtain rfl := Option.some.inj h
      · exact .recordUsed _ _ ‹_› ‹_›
      · exact .claimRecord _ _ ‹_› ‹_› (Bool.of_not_eq_true ‹_›)
    · obtain rfl := Option.some.inj h
      exact .pushRecord _ _ ‹_›
  · contradiction

theorem State.release_step {s' : State} (h : s.release t = some s') :
    ThreadStep cfg s t .release s' := by
  simp only [State.release] at h
  split at h
  · simp only [Option.ite_none_right_eq_some] at h
    obtain ⟨⟨h₁,h₂⟩,h⟩ := h
    split at h <;> obtain rfl := Option.some.inj h
    · rename_i hok
      exact .release _ h₁ ‹_› h₂ hok.2
    · exact .releaseFailed _ h₁ ‹_› h₂ ‹_›
  · contradiction

theorem State.compareAndSet_step {c : Nat} {ifMatches thenSet : Option Nat} {s' : State}
    (h : s.compareAndSet cfg t c ifMatches thenSet = some s') :
    ThreadStep cfg s t (.compareAndSet c ifMatches thenSet) s' := by
  simp only [State.compareAndSet,Option.ite_none_right_eq_some] at h
  obtain ⟨⟨h₁,h₂,h₃,h₄⟩,h⟩ := h
  split at h
  · split at h <;> obtain rfl := Option.some.inj h
    · exact .setNull _ _ h₁ h₂
    · exact .compareAndSet _ _ _ h₁ h₂ h₄
  · obtain rfl := Option.some.inj h
    exact .stay _ h₁ rfl

theorem State.getOrInit_step {s' : State} (h : s.getOrInit t = some s') :
    ThreadStep cfg s t .getOrInit s' := by
  simp only [State.getOrInit] at h
  split at h
  · split at h
    · obtain rfl := Option.some.inj h
      exact .getInitialized _ _ ‹_› ‹_›
    · obtain rfl := Option.some.inj h
      exact .startInit _ ‹_› ‹_›
    · contradiction
  · contradiction

theorem Op.run_step {op : Op} {s' : State} (h : op.run cfg s t = some s') :
    ThreadStep cfg s t op s' := by
  cases op with
  | sdarcNew ptr countersPtr shard borrows =>
    simp only [Op.run,State.sdarcNew,Option.ite_none_right_eq_some,Option.some.injEq] at h
    obtain ⟨⟨h₁,h₂,h₃⟩,rfl⟩ := h
    exact .sdarcNew _ _ _ _ h₁ h₂ h₃
  | onNewSdarcAllocated shard =>
    simp only [Op.run,State.onNewSdarcAllocated] at h
    split at h
    · simp only [Option.ite_none_right_eq_some,Option.some.injEq] at h
      obtain ⟨hi,rfl⟩ := h
      exact .onNewSdarcAllocated _ _ ‹_› hi
    · contradiction
  | clone p shard =>
    simp only [Op.run,State.clone,Option.ite_none_right_eq_some,Option.some.injEq] at h
    obtain ⟨⟨h₁,h₂,h₃⟩,rfl⟩ := h
    exact .clone _ _ h₁ h₂ h₃
  | deref p =>
    simp only [Op.run,State.deref,Option.ite_none_right_eq_some,Option.some.injEq] at h
    obtain ⟨⟨h₁,-⟩,rfl⟩ := h
    exact .stay _ h₁ rfl
  | derefGuard slot =>
    simp only [Op.run,State.derefGuard,Option.ite_none_right_eq_some,Option.some.injEq] at h
    obtain ⟨⟨h₁,-⟩,rfl⟩ := h
    exact .stay _ h₁ rfl
  | dropHandle p =>
    simp only [Op.run,State.dropHandle,Option.ite_none_right_eq_some,Option.some.injEq] at h
    obtain ⟨⟨h₁,h₂⟩,rfl⟩ := h
    exact .dropHandle _ h₁ h₂
  | dropLoad shard =>
    simp only [Op.run,State.dropLoad] at h
    split at h
    · simp only [Option.ite_none_right_eq_some,Option.some.injEq] at h
      obtain ⟨hi,rfl⟩ := h
      exact .dropLoad _ _ ‹_› hi
    · contradiction
  | dropExchange spurious => exact State.dropExchange_step h
  | swap c new discard => exact State.swap_step h
  | loadOwned src =>
    simp only [Op.run,State.loadOwned,Option.ite_none_right_eq_some,Option.some.injEq] at h
    obtain ⟨⟨h₁,h₂⟩,rfl⟩ := h
    exact .loadOwned _ h₁ h₂
  | syncTo c target =>
    simp only [Op.run,State.syncTo,Option.ite_none_right_eq_some] at h
    obtain ⟨⟨h₁,h₂,h₃⟩,h⟩ := h
    split at h <;> obtain rfl := Option.some.inj h
    · exact .stay _ h₁ rfl
    · exact .syncTo _ _ h₁ h₂ h₃
  | enterSection => exact State.enterSection_step h
  | loadPointer =>
    simp only [Op.run,State.loadPointer] at h
    split at h
    · split at h <;> obtain rfl := Option.some.inj h
      · exact .loadNull _ _ ‹_› ‹_›
      · exact .loadPointer _ _ _ ‹_› ‹_›
    · contradiction
  | loadIncrement shard =>
    simp only [Op.run,State.loadIncrement] at h
    split at h
    · simp only [Option.ite_none_right_eq_some,Option.some.injEq] at h
      obtain ⟨hi,rfl⟩ := h
      exact .loadIncrement _ _ _ _ ‹_› hi
    · contradiction
  | leaveSection => exact State.leaveSection_step h
  | borrow src =>
    simp only [Op.run,State.borrow,Option.ite_none_right_eq_some] at h
    obtain ⟨⟨h₁,h₂⟩,h⟩ := h
    split at h <;> obtain rfl := Option.some.inj h
    · exact .stay _ h₁ rfl
    · exact .borrow _ _ h₁ h₂
  | publish => exact State.publish_step h
  | reload => exact State.reload_step h
  | retract =>
    simp only [Op.run,State.retract] at h
    split at h
    · obtain rfl := Option.some.inj h
      exact .retract _ _ _ ‹_› ‹_›
    · contradiction
  | dropGuard slot =>
    simp only [Op.run,State.dropGuard] at h
    split at h
    · simp only [Option.ite_none_right_eq_some,Option.some.injEq] at h
      obtain ⟨h₁,rfl⟩ := h
      exact .dropGuard _ _ _ h₁ ‹_› ‹_›
    · contradiction
  | obtain =>
    simp only [Op.run,State.obtain,Option.ite_none_right_eq_some,Option.some.injEq] at h
    obtain ⟨⟨h₁,h₂⟩,rfl⟩ := h
    exact .obtain h₁ h₂
  | obtainNext => exact State.obtainNext_step h
  | release => exact State.release_step h
  | compareAndSet c ifMatches thenSet => exact State.compareAndSet_step h
  | incrementThenSet shard =>
    simp only [Op.run,State.incrementThenSet] at h
    split at h
    · simp only [Option.ite_none_right_eq_some,Option.some.injEq] at h
      obtain ⟨hi,rfl⟩ := h
      exact .incrementThenSet _ _ _ ‹_› hi
    · contradiction
  | downgrade p =>
    simp only [Op.run,State.downgrade,Option.ite_none_right_eq_some,Option.some.injEq] at h
    obtain ⟨⟨h₁,h₂,h₃⟩,rfl⟩ := h
    exact .downgrade _ h₁ h₂ h₃
  | getOrInit => exact State.getOrInit_step h
  | newWeakInner ptr countersPtr shard =>
    simp only [Op.run,State.newWeakInner] at h
    split at h
    · simp only [Option.ite_none_right_eq_some,Option.some.injEq] at h
      obtain ⟨⟨h₁,h₂⟩,rfl⟩ := h
      exact .newWeakInner _ _ _ _ ‹_› h₁ h₂
    · contradiction
  | registerWeakInner shard =>
    simp only [Op.run,State.registerWeakInner] at h
    split at h
    · simp only [Option.ite_none_right_eq_some,Option.some.injEq] at h
      obtain ⟨hi,rfl⟩ := h
      exact .registerWeakInner _ _ _ ‹_› hi
    · contradiction
  | setWeakInner =>
    simp only [Op.run,State.setWeakInner] at h
    split at h
    · obtain rfl := Option.some.inj h
      exact .setWeakInner _ _ ‹_›
    · contradiction
  | cloneWeakInner shard =>
    simp only [Op.run,State.cloneWeakInner] at h
    split at h
    · simp only [Option.ite_none_right_eq_some,Option.some.injEq] at h
      obtain ⟨hi,rfl⟩ := h
      exact .cloneWeakInner _ _ _ ‹_› hi
    · contradiction
  | collectorUpdateNowAndWait =>
    simp only [Op.run,State.collectorUpdateNowAndWait,Option.ite_none_right_eq_some,
      Option.some.injEq] at h
    obtain ⟨h₁,rfl⟩ := h
    exact .collectorUpdateNowAndWait h₁

end Sdarc.System
