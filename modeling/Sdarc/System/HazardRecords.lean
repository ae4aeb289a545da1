import Sdarc.System.Conservation
import Sdarc.System.Reads
set_option autoImplicit false

/-!
Who owns which hazard record and what is in its slots, in every run: this depends neither
on the counters nor on what the collector frees.
-/

namespace Sdarc.System
open Transition

def ThreadPc.names (p : Nat) : ThreadPc → Prop
  | .registerNew q => q = p
  | .drop q => q = p
  | .dropExchange q _ _ => q = p
  | .loadEnter _ after => after = some p
  | .loadPointer _ after => after = some p
  | .loadIncrement _ after q => after = some p ∨ q = p
  | .loadLeave _ after result => after = some p ∨ result = some p
  | .incrementThenSet q original => q = p ∨ original = some p
  | .getOrInit q => q = p
  | .newWeakInner q => q = p
  | .registerWeakInner q w => q = p ∨ w = p
  | .setWeakInner q w => q = p ∨ w = p
  | .cloneWeakInner q w => q = p ∨ w = p
  | _ => False

structure Born (s : State) : Prop where
  live : ∀ p, 0 < s.live p → p < s.nextPointee
  cells : ∀ c p, s.cells c = some p → p < s.nextPointee
  backRef : ∀ w p, s.load (.backRef w) = some p → p < s.nextPointee
  weakInnerRef : ∀ q w, (s.heap q).weakInnerRef = .initialized w → w < s.nextPointee
  threads : ∀ t p, (s.threads t).pc.names p → p < s.nextPointee

section Born

variable {cfg : Config} {s s' : State} {t p : Nat}

theorem Born.load (h : Born s) {src : Source} (hload : s.load src = some p) :
    p < s.nextPointee := by
  cases src with
  | cell c => exact h.cells c p hload
  | backRef w => exact h.backRef w p hload

theorem ThreadStep.live_of {op : Op} (hs : ThreadStep cfg s t op s') (hp : 0 < s'.live p) :
    0 < s.live p ∨ (∃ c, s.cells c = some p) ∨ (s.threads t).pc.names p := by
  have htake : ∀ o, 0 < (s.takeLiveOption o).live p → 0 < s.live p := by
    intro o ho
    rw [takeLiveOption_live] at ho
    split at ho <;> omega
  have hadd : ∀ o, 0 < (s.addLiveOption o).live p → 0 < s.live p ∨ o = some p := by
    intro o ho
    rw [addLiveOption_live] at ho
    split at ho
    · exact .inr ‹_›
    · exact .inl ho
  cases hs with
  | onNewSdarcAllocated shard q hpc =>
    by_cases hpq : p = q
    · exact .inr (.inr (by simp [hpc,ThreadPc.names,hpq]))
    · exact .inl (by simpa [hpq] using hp)
  | clone q shard hstart hlive =>
    by_cases hpq : p = q
    · exact .inl (hpq ▸ hlive)
    · exact .inl (by simpa [hpq] using hp)
  | cloneWeakInner shard q w hpc =>
    by_cases hpw : p = w
    · exact .inr (.inr (by simp [hpc,ThreadPc.names,hpw]))
    · exact .inl (by simpa [hpw] using hp)
  | dropHandle q hstart htaken =>
    by_cases hpq : p = q
    · exact .inl (hpq ▸ htaken.1)
    · exact .inl (by simpa [hpq] using hp)
  | swap c new discard =>
    rw [addLiveOption_live] at hp
    split at hp
    · exact .inr (.inl ⟨c,‹_›⟩)
    · exact .inl (htake new hp)
  | store c new old => exact .inl (htake new hp)
  | syncTo c target => exact .inl (htake target hp)
  | setNull c ifMatches => exact (hadd (s.cells c) hp).imp id (fun hc => .inl ⟨c,hc⟩)
  | sectionNested src after r hpc =>
    exact (hadd after hp).imp id (fun hafter => .inr (by simp [hpc,ThreadPc.names,hafter]))
  | leaveSection src result r hpc =>
    exact (hadd result hp).imp id (fun hres => .inr (by simp [hpc,ThreadPc.names,hres]))
  | leaveSectionDrop src old result r hpc =>
    exact (hadd result hp).imp id (fun hres => .inr (by simp [hpc,ThreadPc.names,hres]))
  | incrementThenSet q original shard hpc =>
    exact (hadd original hp).imp id (fun ho => .inr (by simp [hpc,ThreadPc.names,ho]))
  | _ => exact .inl hp

theorem ThreadStep.cells_of {op : Op} {c : Nat} (hs : ThreadStep cfg s t op s')
    (hc : s'.cells c = some p) : s.cells c = some p ∨ 0 < s.live p := by
  have hset : ∀ c' o, (s.setCell c' o).cells c = some p → (∀ q, o = some q → 0 < s.live q) →
      s.cells c = some p ∨ 0 < s.live p := by
    intro c' o hc' ho
    by_cases hcc : c = c'
    · subst hcc
      exact .inr (ho p (by simpa using hc'))
    · exact .inl (by simpa [hcc] using hc')
  cases hs with
  | swap c' new discard hstart hlt htake =>
    exact hset c' new hc (by rintro q rfl; exact htake.1)
  | store c' new old hstart hlt htake =>
    exact hset c' new hc (by rintro q rfl; exact htake.1)
  | setNull c' ifMatches => exact hset c' none hc (by simp)
  | compareAndSet c' ifMatches q hstart hlt hlive =>
    exact hset c' (some q) hc (by rintro r hr; exact Option.some.inj hr ▸ hlive)
  | _ => exact .inl hc

theorem ThreadStep.names_of {op : Op} (hs : ThreadStep cfg s t op s')
    (hp : (s'.threads t).pc.names p) :
    (s.threads t).pc.names p ∨ 0 < s.live p ∨ (∃ src, s.load src = some p) ∨
      (∃ q, (s.heap q).weakInnerRef = .initialized p) ∨
      p = s.nextPointee ∧ s'.nextPointee = s.nextPointee + 1 := by
  cases hs with
  | sdarcNew =>
    obtain rfl : s.nextPointee = p := by simpa [ThreadPc.names] using hp
    exact .inr (.inr (.inr (.inr ⟨rfl,rfl⟩)))
  | newWeakInner ptr countersPtr shard q hpc =>
    rcases (by simpa [ThreadPc.names] using hp : q = p ∨ s.nextPointee = p) with rfl | rfl
    · exact .inl (by simp [hpc,ThreadPc.names])
    · exact .inr (.inr (.inr (.inr ⟨rfl,rfl⟩)))
  | dropHandle q hstart htake =>
    obtain rfl : q = p := by simpa [ThreadPc.names] using hp
    exact .inr (.inl htake.1)
  | store c new old hstart hlt htake hcell =>
    obtain rfl : old = p := by simpa [ThreadPc.names] using hp
    exact .inr (.inr (.inl ⟨.cell c,hcell⟩))
  | syncTo c target hstart hlt htake =>
    exact .inr (.inl (live_pos_of_canTakeOption htake (by simpa [ThreadPc.names] using hp)))
  | loadPointer src after q hpc hload =>
    rcases (by simpa [ThreadPc.names] using hp : after = some p ∨ q = p) with hafter | rfl
    · exact .inl (by simp [hpc,ThreadPc.names,hafter])
    · exact .inr (.inr (.inl ⟨src,hload⟩))
  | compareAndSet c ifMatches q hstart hlt hlive =>
    rcases (by simpa [ThreadPc.names] using hp : q = p ∨ s.cells c = some p) with rfl | hcell
    · exact .inr (.inl hlive)
    · exact .inr (.inr (.inl ⟨.cell c,hcell⟩))
  | downgrade q hstart hlive =>
    obtain rfl : q = p := by simpa [ThreadPc.names] using hp
    exact .inr (.inl hlive)
  | getInitialized q w hpc hw =>
    rcases (by simpa [ThreadPc.names] using hp : q = p ∨ w = p) with rfl | rfl
    · exact .inl (by simp [hpc,ThreadPc.names])
    · exact .inr (.inr (.inr (.inl ⟨q,hw⟩)))
  | _ => left; simp_all [ThreadPc.names]

theorem Born.thread {op : Op} (h : Born s) (hs : ThreadStep cfg s t op s') : Born s' := by
  have hle : s.nextPointee ≤ s'.nextPointee := by
    rcases hs.next with hnext | ⟨-,hnext⟩ <;> omega
  constructor
  · intro p hp
    rcases hs.live_of hp with hl | ⟨c,hc⟩ | hn
    · exact (h.live p hl).trans_le hle
    · exact (h.cells c p hc).trans_le hle
    · exact (h.threads t p hn).trans_le hle
  · intro c p hc
    rcases hs.cells_of hc with hc | hl
    · exact (h.cells c p hc).trans_le hle
    · exact (h.live p hl).trans_le hle
  · intro w p hp
    by_cases hw : w ≠ s.nextPointee ∨ s'.nextPointee = s.nextPointee
    · simp only [State.load,hs.data hw] at hp
      exact (h.backRef w p hp).trans_le hle
    · obtain ⟨rfl,hnext⟩ : w = s.nextPointee ∧ _ := by simpa using hw
      cases hs with
      | sdarcNew => simp [State.load] at hp
      | newWeakInner ptr countersPtr shard q hpc =>
        obtain rfl : q = p := by simpa [State.load] using hp
        exact (h.threads t q (by simp [hpc,ThreadPc.names])).trans_le hle
      | _ => exact absurd rfl hnext
  · intro q w hw
    by_cases hq : (s.heap q).weakInnerRef = .initialized w
    · exact (h.weakInnerRef q w hq).trans_le hle
    · cases hs with
      | sdarcNew => by_cases hqn : q = s.nextPointee <;> simp_all
      | newWeakInner => by_cases hqn : q = s.nextPointee <;> simp_all
      | startInit p => by_cases hqp : q = p <;> simp_all
      | setWeakInner p x hpc =>
        by_cases hqp : q = p
        · subst hqp
          obtain rfl : x = w := by simpa using hw
          exact h.threads t x (by simp [hpc,ThreadPc.names])
        · simp_all
      | _ => exact absurd hw hq
  · intro u p hp
    by_cases hut : u = t
    · subst hut
      rcases hs.names_of hp with hn | hl | ⟨src,hload⟩ | ⟨q,hq⟩ | ⟨rfl,hnext⟩
      · exact (h.threads u p hn).trans_le hle
      · exact (h.live p hl).trans_le hle
      · exact (h.load hload).trans_le hle
      · exact (h.weakInnerRef q p hq).trans_le hle
      · omega
    · rw [hs.others hut] at hp
      exact (h.threads u p hp).trans_le hle

theorem CollectorStep.names_of (hs : CollectorStep cfg s s') (hp : (s'.threads t).pc.names p) :
    (s.threads t).pc.names p ∨ ∃ q, (s.heap q).weakInnerRef = .initialized p := by
  cases hs with
  | dropWeakInnerRef it q w hc hw hidle =>
    by_cases ht : t = 0
    · subst ht
      obtain rfl : w = p := by simpa [ThreadPc.names] using hp
      exact .inr ⟨q,hw⟩
    · exact .inl (by simpa [ht] using hp)
  | endOuterIteration =>
    simp only [State.endOuterIteration] at hp
    split at hp
    · exact hp.elim
    · exact .inl hp
  | weakBackRefCleared =>
    rw [(SameMemory.resume _ _ _).threads] at hp
    exact .inl hp
  | startUpdate | readShard | finishPass | weakRefNotInvolved | weakBackRefWasAlreadyNull =>
    rw [(SameMemory.resume _ _ _).threads] at hp
    exact .inl hp
  | _ => exact .inl hp

theorem CollectorStep.weakInnerRef_of {q w : Nat} (hs : CollectorStep cfg s s')
    (hw : (s'.heap q).weakInnerRef = .initialized w) :
    (s.heap q).weakInnerRef = .initialized w := by
  cases hs with
  | weakBackRefCleared it key x =>
    rw [(SameMemory.resume _ _ _).heap] at hw
    by_cases hqx : q = x <;> simp_all
  | free it key toFree e => by_cases hqe : q = e.pointee <;> simp_all
  | dropCounters it p => by_cases hqp : q = p <;> simp_all
  | dropWeakInnerRef it p => by_cases hqp : q = p <;> simp_all
  | dropMemory it p => by_cases hqp : q = p <;> simp_all
  | startUpdate | readShard | finishPass | weakRefNotInvolved | weakBackRefWasAlreadyNull =>
    rwa [(SameMemory.resume _ _ _).heap] at hw
  | _ => exact hw

theorem CollectorStep.load_of {w : Nat} (hs : CollectorStep cfg s s')
    (hp : s'.load (.backRef w) = some p) : s.load (.backRef w) = some p := by
  cases hs with
  | weakBackRefCleared it key x =>
    simp only [State.load,(SameMemory.resume _ _ _).heap] at hp ⊢
    by_cases hwx : w = x <;> simp_all
  | free it key toFree e =>
    by_cases hwe : w = e.pointee <;> simp_all [State.load]
  | dropCounters it q => by_cases hwq : w = q <;> simp_all [State.load]
  | dropWeakInnerRef it q => by_cases hwq : w = q <;> simp_all [State.load]
  | dropMemory it q => by_cases hwq : w = q <;> simp_all [State.load]
  | startUpdate | readShard | finishPass | weakRefNotInvolved | weakBackRefWasAlreadyNull =>
    simpa only [State.load,(SameMemory.resume _ _ _).heap] using hp
  | _ => exact hp

theorem CollectorStep.handles (hs : CollectorStep cfg s s') :
    s'.live = s.live ∧ s'.cells = s.cells := by
  cases hs with
  | weakBackRefCleared =>
    exact ⟨(SameMemory.resume _ _ _).live,(SameMemory.resume _ _ _).cells⟩
  | startUpdate | readShard | finishPass | weakRefNotInvolved | weakBackRefWasAlreadyNull =>
    exact ⟨(SameMemory.resume _ _ _).live,(SameMemory.resume _ _ _).cells⟩
  | _ => exact ⟨rfl,rfl⟩

theorem Born.collector (h : Born s) (hs : CollectorStep cfg s s') : Born s' := by
  obtain ⟨hlive,hcells⟩ := hs.handles
  have hnext := hs.nextPointee
  refine ⟨fun p hp => ?_,fun c p hc => ?_,fun w p hp => ?_,fun q w hw => ?_,fun t p hp => ?_⟩ <;>
    rw [hnext]
  · exact h.live p (hlive ▸ hp)
  · exact h.cells c p (hcells ▸ hc)
  · exact h.backRef w p (hs.load_of hp)
  · exact h.weakInnerRef q w (hs.weakInnerRef_of hw)
  · rcases hs.names_of hp with hn | ⟨q,hq⟩
    · exact h.threads t p hn
    · exact h.weakInnerRef q p hq

end Born

/-- Every record in use has an owner, and a slot stays published until the borrow ends. -/
structure Owned (s : State) : Prop where
  owner : ∀ r, (s.records r).isUsed = true → ∃ t, (s.threads t).record = .held r
  published : ∀ t r j, (s.threads t).record = .held r → (s.threads t).pc.slot = some j →
    (s.records r).slots j ≠ none

section Owned

variable {cfg : Config} {s s' : State} {t : Nat}

theorem ThreadStep.others_record {op : Op} {u r : Nat} (hr : Records s)
    (hs : ThreadStep cfg s t op s') (hu : u ≠ t) (hheld : (s.threads u).record = .held r) :
    s'.records r = s.records r := by
  have hmine : ∀ r', (s.threads t).record = .held r' → r ≠ r' := by
    rintro r' ht rfl
    exact hu (hr.exclusive u t r hheld ht)
  cases hs with
  | enterSection src after r' hpc ht => simp [hmine r' ht]
  | leaveSection src result r' hpc ht => simp [hmine r' ht]
  | leaveSectionDrop src old result r' hpc ht => simp [hmine r' ht]
  | publish src address r' j hpc ht => simp [hmine r' ht]
  | retract src j r' hpc ht => simp [hmine r' ht]
  | dropGuard j p r' hstart hg ht => simp [hmine r' ht]
  | release r' hstart ht => simp [hmine r' ht]
  | claimRecord len next hscan hlt hunused =>
    have hne : r ≠ next := by
      rintro rfl
      rw [(hr.holding hheld).2.isUsed] at hunused
      contradiction
    simp [hne]
  | pushRecord len next hscan => simp [(hr.holding hheld).1.ne]
  | _ => rfl

theorem Owned.thread {op : Op} (h : Owned s) (hr : Records s) (hs : ThreadStep cfg s t op s') :
    Owned s' := by
  constructor
  · intro r hused
    -- the owner of a record that was in use, if it is not this thread
    have hold : (s.records r).isUsed = true →
        ((s.threads t).record = .held r → (s'.threads t).record = .held r) →
        ∃ u, (s'.threads u).record = .held r := by
      intro hold hkeep
      obtain ⟨u,hu⟩ := h.owner r hold
      by_cases hut : u = t
      · exact ⟨t,hkeep (hut ▸ hu)⟩
      · exact ⟨u,by rwa [hs.others hut]⟩
    cases hs with
    | claimRecord len next hscan =>
      by_cases hrn : r = next
      · exact ⟨t,by simp [hrn]⟩
      · exact hold (by simpa [hrn] using hused) (by simp [hscan])
    | pushRecord len next hscan =>
      by_cases hrn : r = s.recordCount
      · exact ⟨t,by simp [hrn]⟩
      · exact hold (by simpa [hrn] using hused) (by simp [hscan])
    | release r' hstart ht =>
      by_cases hrr : r = r'
      · simp [hrr] at hused
      · exact hold (by simpa [hrr] using hused) (by simp [ht,Ne.symm hrr])
    | obtain hnone => exact hold hused (by simp [hnone])
    | recordUsed len next hscan => exact hold hused (by simp [hscan])
    | enterSection src after r' => exact hold (by by_cases hrr : r = r' <;> simp_all) (by simp)
    | leaveSection src result r' => exact hold (by by_cases hrr : r = r' <;> simp_all) (by simp)
    | leaveSectionDrop src old result r' =>
      exact hold (by by_cases hrr : r = r' <;> simp_all) (by simp)
    | publish src address r' => exact hold (by by_cases hrr : r = r' <;> simp_all) (by simp)
    | retract src j r' => exact hold (by by_cases hrr : r = r' <;> simp_all) (by simp)
    | dropGuard j p r' => exact hold (by by_cases hrr : r = r' <;> simp_all) (by simp)
    | stay | clone | swap | setNull | releaseFailed => exact hold hused id
    | _ => exact hold hused (by simp)
  · intro u r j hheld hslot
    by_cases hut : u = t
    · subst hut
      cases hs with
      | publish src address r' i =>
        obtain rfl : i = j := by simpa [ThreadPc.slot] using hslot
        obtain rfl : r' = r := by simp_all
        simp
      | pointerChanged src i address hpc =>
        exact h.published u r j (by simpa using hheld) (by simpa [hpc,ThreadPc.slot] using hslot)
      | dropGuard i p r' hstart => simp [hstart.1,ThreadPc.slot] at hslot
      | release r' hstart => simp [hstart.1,ThreadPc.slot] at hslot
      | claimRecord len next hscan =>
        have hless := (hr.recordless (t := u) (by simp [hscan])).slot
        simp [hless] at hslot
      | pushRecord len next hscan =>
        have hless := (hr.recordless (t := u) (by simp [hscan])).slot
        simp [hless] at hslot
      | obtain | recordUsed => simp at hheld
      | stay | clone | swap | setNull | releaseFailed => exact h.published u r j hheld hslot
      | _ => simp [ThreadPc.slot] at hslot
    · rw [hs.others hut] at hheld hslot
      rw [hs.others_record hr hut hheld]
      exact h.published u r j hheld hslot

end Owned

section Collector

variable {cfg : Config} {s s' : State} {t : Nat}

theorem CollectorStep.sameRecord (hs : CollectorStep cfg s s') :
    SameRecord (s.threads t) (s'.threads t) := by
  cases hs with
  | dropWeakInnerRef it q w hc hw hidle =>
    by_cases ht : t = 0
    · subst ht
      constructor <;> simp [hidle,ThreadPc.inSection,ThreadPc.slot]
    · simp [ht,SameRecord.refl]
  | endOuterIteration =>
    simp only [State.endOuterIteration]
    split
    · rename_i hwaiting
      constructor <;> simp [hwaiting.2,ThreadPc.inSection,ThreadPc.slot]
    · exact .refl _
  | weakBackRefCleared =>
    rw [(SameMemory.resume _ _ _).threads]
    exact .refl _
  | startUpdate | readShard | finishPass | weakRefNotInvolved | weakBackRefWasAlreadyNull =>
    rw [(SameMemory.resume _ _ _).threads]
    exact .refl _
  | _ => exact .refl _

theorem CollectorStep.records (hs : CollectorStep cfg s s') :
    s'.records = s.records ∧ s'.recordCount = s.recordCount := by
  cases hs with
  | weakBackRefCleared =>
    exact ⟨(SameMemory.resume _ _ _).records,(SameMemory.resume _ _ _).recordCount⟩
  | startUpdate | readShard | finishPass | weakRefNotInvolved | weakBackRefWasAlreadyNull =>
    exact ⟨(SameMemory.resume _ _ _).records,(SameMemory.resume _ _ _).recordCount⟩
  | _ => exact ⟨rfl,rfl⟩

end Collector

structure Hazards (cfg : Config) (s : State) : Prop where
  tracking : Tracking cfg s
  born : Born s
  records : Records s
  owned : Owned s

section Run

variable {cfg : Config} {s s' : State} {t r : Nat}

theorem Hazards.step {a : Action} (h : Hazards cfg s) (hs : SystemStep cfg s a s') :
    Hazards cfg s' := by
  have htracking := h.tracking.step hs
  cases hs with
  | thread t op _ ht hs =>
    exact ⟨htracking,h.born.thread hs,hs.records h.records (fun _ _ => h.born.load),
      h.owned.thread h.records hs⟩
  | collector _ hs =>
    obtain ⟨hrecords,hcount⟩ := hs.records
    refine ⟨htracking,h.born.collector hs,?_,?_⟩
    · exact h.records.of_same (fun _ => hs.sameRecord) hrecords hcount
        (fun p _ => (hs.identity h.tracking p).ptr) hs.nextPointee.ge
    · refine ⟨fun r hused => ?_,fun t r j hheld hslot => ?_⟩
      · obtain ⟨t,ht⟩ := h.owned.owner r (hrecords ▸ hused)
        exact ⟨t,hs.sameRecord.record.trans ht⟩
      · rw [hrecords]
        exact h.owned.published t r j (hs.sameRecord.record.symm.trans hheld)
          (hs.sameRecord.slot.symm.trans hslot)
  | finishDestructor =>
    exact ⟨htracking,⟨h.born.live,h.born.cells,h.born.backRef,h.born.weakInnerRef,
      h.born.threads⟩,h.records.of_same (fun _ => .refl _) rfl rfl (fun _ _ => rfl) le_rfl,
      ⟨h.owned.owner,h.owned.published⟩⟩

theorem hazards_initial (cfg : Config) : Hazards cfg .initial := by
  refine ⟨tracking_initial cfg,?_,(safe_initial cfg).references.records,?_⟩ <;>
    constructor <;> simp [State.initial,State.load,ThreadPc.names]

theorem hazards_of_reach (h : Reach (step cfg) (fun _ _ => True) .initial s) : Hazards cfg s :=
  h.invariant (Hazards cfg) (hazards_initial cfg)
    (fun _ _ _ hhaz _ hs => hhaz.step (step_cases hs))

/-- The slots of record `r` are those of the guards of `t` and of the borrow it is in. -/
structure State.SlotsMatch (s : State) (t r : Nat) : Prop where
  guards : ∀ j p, (s.threads t).guards j = some p →
    j < HZ_PTR_SLOT_COUNT ∧ (s.records r).slots j = some (s.heap p).ptr
  slots : ∀ j, (s.records r).slots j ≠ none ↔
    (s.threads t).guards j ≠ none ∨ (s.threads t).pc.slot = some j
  borrow : ∀ j, (s.threads t).pc.slot = some j → (s.threads t).guards j = none

theorem Hazards.slotsMatch (h : Hazards cfg s) (hheld : (s.threads t).record = .held r) :
    s.SlotsMatch t r := by
  have hholding := (h.records.holding hheld).2
  refine ⟨fun j p hg => ?_,fun j => ⟨hholding.slots j,?_⟩,fun j hj => (hholding.published j hj).2⟩
  · obtain ⟨hj,-,hslot⟩ := hholding.guards j p hg
    exact ⟨hj,hslot⟩
  · rintro (hg | hslot)
    · obtain ⟨p,hp⟩ := Option.ne_none_iff_exists'.mp hg
      rw [(hholding.guards j p hp).2.2]
      simp
    · exact h.owned.published t r j hheld hslot

theorem Hazards.unowned (h : Hazards cfg s) (hfree : ∀ t, (s.threads t).record ≠ .held r) :
    (∀ j, (s.records r).slots j = none) ∧ (s.records r).flag = false := by
  have hunused : (s.records r).isUsed = false := by
    by_contra hused
    obtain ⟨t,ht⟩ := h.owned.owner r (by simpa using hused)
    exact hfree t ht
  exact (h.records.unused r hunused).symm

def ThreadPc.loadsOwned (src : Source) : ThreadPc → Prop
  | .loadEnter src' after => src' = src ∧ after = none
  | .loadPointer src' after => src' = src ∧ after = none
  | .loadIncrement src' after _ => src' = src ∧ after = none
  | .loadLeave src' after _ => src' = src ∧ after = none
  | _ => False

/-- What a borrow from `src` that found `slots` and `guards` has made of them. -/
def State.Borrows (s : State) (t r : Nat) (src : Source) (slots guards : Nat → Option Nat) :
    Prop :=
  (s.threads t).record = .held r ∧
  match (s.threads t).pc with
  | .borrowPublish src' _ =>
      src' = src ∧ (s.records r).slots = slots ∧ (s.threads t).guards = guards
  | .borrowReload src' j address =>
      src' = src ∧ j < HZ_PTR_SLOT_COUNT ∧ slots j = none ∧
        (s.records r).slots = Function.update slots j (some address) ∧
        (s.threads t).guards = guards
  | .borrowRetract src' j =>
      src' = src ∧ j < HZ_PTR_SLOT_COUNT ∧ slots j = none ∧
        (∃ address, (s.records r).slots = Function.update slots j (some address)) ∧
        (s.threads t).guards = guards
  | .idle =>
      (s.records r).slots = slots ∧ (s.threads t).guards = guards ∨
      ∃ j p, j < HZ_PTR_SLOT_COUNT ∧ slots j = none ∧
        (s.records r).slots = Function.update slots j (some (s.heap p).ptr) ∧
        (s.threads t).guards = Function.update guards j (some p)
  | pc => pc.loadsOwned src ∧ (s.records r).slots = slots ∧ (s.threads t).guards = guards

theorem ThreadStep.borrows {op : Op} {src : Source} {slots guards : Nat → Option Nat}
    (hs : ThreadStep cfg s t op s') (h : s.Borrows t r src slots guards)
    (hbusy : (s.threads t).pc ≠ .idle) : s'.Borrows t r src slots guards := by
  obtain ⟨hheld,hstage⟩ := h
  cases hs with
  | publish src' address r' j hpc hr' hj hfree =>
    obtain rfl : r = r' := RecordRef.held.inj (hheld.symm.trans hr')
    rw [hpc] at hstage
    obtain ⟨rfl,rfl,rfl⟩ := hstage
    exact ⟨by simpa using hheld,by simp [hj,hfree]⟩
  | slotsFull src' address hpc =>
    rw [hpc] at hstage
    obtain ⟨rfl,rfl,rfl⟩ := hstage
    exact ⟨by simpa using hheld,by simp [ThreadPc.loadsOwned]⟩
  | reload src' j p hpc hload =>
    rw [hpc] at hstage
    obtain ⟨rfl,hj,hfree,hslots,rfl⟩ := hstage
    refine ⟨by simpa using hheld,?_⟩
    simp only [State.setPc,State.setGuard,Function.update_self]
    exact .inr ⟨j,p,hj,hfree,hslots,rfl⟩
  | pointerChanged src' j address hpc =>
    rw [hpc] at hstage
    obtain ⟨rfl,hj,hfree,hslots,rfl⟩ := hstage
    refine ⟨by simpa using hheld,?_⟩
    simp only [State.setPc,Function.update_self]
    exact ⟨trivial,hj,hfree,⟨address,hslots⟩,trivial⟩
  | retract src' j r' hpc hr' =>
    obtain rfl : r = r' := RecordRef.held.inj (hheld.symm.trans hr')
    rw [hpc] at hstage
    obtain ⟨rfl,hj,hfree,⟨address,hslots⟩,rfl⟩ := hstage
    refine ⟨by simpa using hheld,?_⟩
    have hback : Function.update slots j none = slots := by
      rw [← hfree]
      exact Function.update_eq_self j slots
    simp [ThreadPc.loadsOwned,hslots,hback]
  | enterSection src' after r' hpc hr' =>
    obtain rfl : r = r' := RecordRef.held.inj (hheld.symm.trans hr')
    rw [hpc] at hstage
    obtain ⟨hload,rfl,rfl⟩ := hstage
    exact ⟨by simpa using hheld,by simpa [ThreadPc.loadsOwned] using hload⟩
  | sectionNested src' after r' hpc =>
    rw [hpc] at hstage
    obtain ⟨hload,rfl,rfl⟩ := hstage
    exact ⟨by simpa using hheld,by simp⟩
  | loadNull src' after hpc =>
    rw [hpc] at hstage
    obtain ⟨hload,rfl,rfl⟩ := hstage
    exact ⟨by simpa using hheld,by simpa [ThreadPc.loadsOwned] using hload⟩
  | loadPointer src' after p hpc =>
    rw [hpc] at hstage
    obtain ⟨hload,rfl,rfl⟩ := hstage
    exact ⟨by simpa using hheld,by simpa [ThreadPc.loadsOwned] using hload⟩
  | loadIncrement src' after p shard hpc =>
    rw [hpc] at hstage
    obtain ⟨hload,rfl,rfl⟩ := hstage
    exact ⟨by simpa using hheld,by simpa [ThreadPc.loadsOwned] using hload⟩
  | leaveSection src' result r' hpc hr' =>
    obtain rfl : r = r' := RecordRef.held.inj (hheld.symm.trans hr')
    rw [hpc] at hstage
    obtain ⟨hload,rfl,rfl⟩ := hstage
    exact ⟨by simpa using hheld,by simp⟩
  | leaveSectionDrop src' old result r' hpc =>
    rw [hpc] at hstage
    simp [ThreadPc.loadsOwned] at hstage
  | stay => exact ⟨hheld,hstage⟩
  | releaseFailed r' hstart => exact absurd hstart.1 hbusy
  | obtain hnone => simp [hheld] at hnone
  | recordUsed len next hscan => simp [hheld] at hscan
  | claimRecord len next hscan => simp [hheld] at hscan
  | pushRecord len next hscan => simp [hheld] at hscan
  | _ => simp_all [State.canStart,ThreadPc.loadsOwned]

theorem SystemStep.borrows {a : Action} {src : Source} {slots guards : Nat → Option Nat}
    (hr : Records s) (hs : SystemStep cfg s a s') (h : s.Borrows t r src slots guards)
    (hbusy : (s.threads t).pc ≠ .idle) : s'.Borrows t r src slots guards := by
  have hkept : s'.threads t = s.threads t → s'.records r = s.records r →
      s'.Borrows t r src slots guards := by
    intro hthread hrecord
    unfold State.Borrows at h ⊢
    rw [hthread,hrecord]
    refine ⟨h.1,?_⟩
    have hstage := h.2
    cases hpc : (s.threads t).pc <;> simp_all
  cases hs with
  | thread u op _ _ hs =>
    by_cases hut : t = u
    · subst hut
      exact hs.borrows h hbusy
    · exact hkept (hs.others hut) (hs.others_record hr hut h.1)
  | collector _ hs =>
    have hsame := hs.sameRecord (t := t)
    rcases (hs.thread t).2 with hpc | ⟨hpc,-⟩ | ⟨hpc,-⟩
    · refine hkept ?_ (by rw [hs.records.1])
      calc s'.threads t
        _ = ⟨(s'.threads t).pc,(s'.threads t).record,(s'.threads t).guards⟩ := rfl
        _ = s.threads t := by rw [hpc,hsame.record,hsame.guards]
    · have hstage := h.2
      rw [hpc] at hstage
      exact hstage.1.elim
    · exact absurd hpc hbusy
  | finishDestructor => exact hkept rfl rfl

theorem State.Borrows.failed {src : Source} {slots guards : Nat → Option Nat}
    (h : s.Borrows t r src slots guards) (hload : (s.threads t).pc.loadsOwned src) :
    (s.records r).slots = slots ∧ (s.threads t).guards = guards := by
  have hstage := h.2
  cases hpc : (s.threads t).pc <;> simp_all [ThreadPc.loadsOwned]

theorem State.Borrows.full {src : Source} {slots guards : Nat → Option Nat}
    (h : s.Borrows t r src slots guards) (hfull : ∀ j, j < HZ_PTR_SLOT_COUNT → slots j ≠ none) :
    ((s.records r).slots = slots ∧ (s.threads t).guards = guards) ∧
      ((∃ address, (s.threads t).pc = .borrowPublish src address) ∨
        (s.threads t).pc.loadsOwned src ∨ (s.threads t).pc = .idle) := by
  have hstage := h.2
  cases hpc : (s.threads t).pc with
  | borrowPublish src' address =>
    rw [hpc] at hstage
    obtain ⟨rfl,hslots,hguards⟩ := hstage
    exact ⟨⟨hslots,hguards⟩,.inl ⟨address,rfl⟩⟩
  | borrowReload src' j address =>
    rw [hpc] at hstage
    exact absurd hstage.2.2.1 (hfull j hstage.2.1)
  | borrowRetract src' j =>
    rw [hpc] at hstage
    exact absurd hstage.2.2.1 (hfull j hstage.2.1)
  | idle =>
    rw [hpc] at hstage
    rcases hstage with hsame | ⟨j,p,hj,hfree,-⟩
    · exact ⟨hsame,.inr (.inr rfl)⟩
    · exact absurd hfree (hfull j hj)
  | _ =>
    rw [hpc] at hstage
    exact ⟨hstage.2,.inr (.inl hstage.1)⟩

theorem State.Borrows.readsFrom {src : Source} {slots guards : Nat → Option Nat}
    (h : s.Borrows t r src slots guards) (hbusy : (s.threads t).pc ≠ .idle) :
    (s.threads t).pc.readsFrom src := by
  have hstage := h.2
  cases hpc : (s.threads t).pc with
  | borrowPublish | borrowReload | borrowRetract =>
    rw [hpc] at hstage
    exact hstage.1
  | idle => exact absurd hpc hbusy
  | _ =>
    rw [hpc] at hstage
    exact hstage.1

theorem State.Borrows.retracts {src : Source} {slots guards : Nat → Option Nat} {j : Nat}
    (h : s.Borrows t r src slots guards) (ht : t < cfg.threads)
    (hpc : (s.threads t).pc = .borrowRetract src j) :
    ∃ s', step cfg s (.thread t .retract) = some s' ∧
      (s'.threads t).pc = .loadEnter src none ∧ (s'.records r).slots = slots ∧
      (s'.threads t).guards = guards := by
  obtain ⟨hheld,hstage⟩ := h
  rw [hpc] at hstage
  obtain ⟨-,-,hfree,⟨address,hslots⟩,hguards⟩ := hstage
  refine ⟨(s.setSlot r j none).setPc t (.loadEnter src none),?_,?_,?_,?_⟩
  · simp [step,ht,Op.run,State.retract,hpc,hheld]
  · simp
  · have hback : Function.update slots j none = slots := by
      rw [← hfree]
      exact Function.update_eq_self j slots
    simp [hslots,hback]
  · simpa using hguards

theorem State.Borrows.ends_owned {s' : State} {op : Op} {src : Source}
    {slots guards : Nat → Option Nat} (h : s.Borrows t r src slots guards)
    (hfull : ∀ j, j < HZ_PTR_SLOT_COUNT → slots j ≠ none) (hends : ReadEnds s t src op s') :
    ∃ result, op = .leaveSection ∧ (s.threads t).pc = .loadLeave src none result ∧
      s'.live = (s.addLiveOption result).live := by
  cases hends with
  | guard j p hpc =>
    have hstage := h.2
    rw [hpc] at hstage
    exact absurd hstage.2.2.1 (hfull j hstage.2.1)
  | owned r' result hpc =>
    refine ⟨result,rfl,hpc,?_⟩
    cases result <;> simp

/-- Each record has at most one owner, its slots are those of the owner's guards and of the
borrow that the owner is in, and a record without owner is clean. A borrow goes on until it
returns; one that fails gives back its slot and leaves the slots as they were, and if all
slots are occupied it returns an owned handle. -/
theorem hazard_records_exclusive (h : Reach (step cfg) (fun _ _ => True) .initial s) :
    (∀ t t' r, (s.threads t).record = .held r → (s.threads t').record = .held r → t = t') ∧
    (∀ t r, (s.threads t).record = .held r → s.SlotsMatch t r) ∧
    (∀ r, (∀ t, (s.threads t).record ≠ .held r) →
      (∀ j, (s.records r).slots j = none) ∧ (s.records r).flag = false) ∧
    ∀ t r src address s', t < cfg.threads → (s.threads t).record = .held r →
      (s.threads t).pc = .borrowPublish src address →
      Reach (step cfg) (fun u _ => (u.threads t).pc ≠ .idle) s s' →
      s'.Borrows t r src (s.records r).slots (s.threads t).guards ∧
      ((s'.threads t).pc ≠ .idle → 0 < cfg.shards → ReadProceeds cfg s' t src) ∧
      ((s'.threads t).pc.loadsOwned src →
        (s'.records r).slots = (s.records r).slots ∧
        (s'.threads t).guards = (s.threads t).guards) ∧
      (∀ j, (s'.threads t).pc = .borrowRetract src j →
        ∃ s'', step cfg s' (.thread t .retract) = some s'' ∧
          (s''.threads t).pc = .loadEnter src none ∧
          (s''.records r).slots = (s.records r).slots ∧
          (s''.threads t).guards = (s.threads t).guards) ∧
      ((∀ j, j < HZ_PTR_SLOT_COUNT → (s.records r).slots j ≠ none) →
        ((s'.records r).slots = (s.records r).slots ∧
          (s'.threads t).guards = (s.threads t).guards) ∧
        ((∃ address, (s'.threads t).pc = .borrowPublish src address) ∨
          (s'.threads t).pc.loadsOwned src ∨ (s'.threads t).pc = .idle) ∧
        ∀ op s'', ReadEnds s' t src op s'' → ∃ result, op = .leaveSection ∧
          (s'.threads t).pc = .loadLeave src none result ∧
          s''.live = (s'.addLiveOption result).live) := by
  have hhaz := hazards_of_reach h
  refine ⟨hhaz.records.exclusive,fun t r hheld => hhaz.slotsMatch hheld,
    fun r hfree => hhaz.unowned hfree,fun t r src address s' ht hheld hpc hrun => ?_⟩
  have hkept := hrun.invariant
    (fun u => Hazards cfg u ∧ u.Borrows t r src (s.records r).slots (s.threads t).guards)
    ⟨hhaz,hheld,by rw [hpc]; exact ⟨rfl,rfl,rfl⟩⟩
    (fun u a u' ⟨hu,hb⟩ hbusy hs =>
      ⟨hu.step (step_cases hs),(step_cases hs).borrows hu.records hb hbusy⟩)
  obtain ⟨hhaz',hborrows⟩ := hkept
  refine ⟨hborrows,fun hbusy hshards => hhaz'.records.readProceeds ht hshards
    (hborrows.readsFrom hbusy),hborrows.failed,fun j hretract => hborrows.retracts ht hretract,
    fun hfull => ?_⟩
  obtain ⟨hsame,hwhere⟩ := hborrows.full hfull
  exact ⟨hsame,hwhere,fun op s'' hends => hborrows.ends_owned hfull hends⟩

/-- A thread occupies all its slots with guards, and begins one more borrow. -/
def allSlotsTaken : List Action :=
  [.thread 1 (.sdarcNew 10 100 0 []),.thread 1 (.onNewSdarcAllocated 0),
    .thread 1 (.swap 0 (some 0) false),.thread 1 (.borrow (.cell 0)),.thread 1 .obtain,
    .thread 1 .obtainNext,.thread 1 .publish,.thread 1 .reload] ++
  (List.replicate 14
    [.thread 1 (.borrow (.cell 0)),.thread 1 .publish,.thread 1 .reload]).flatten ++
  [.thread 1 (.borrow (.cell 0))]

def ownedBorrow : List Action :=
  [.thread 1 .publish,.thread 1 .enterSection,.thread 1 .loadPointer,
    .thread 1 (.loadIncrement 0),.thread 1 .leaveSection]

theorem allSlotsTaken_owned : ∃ s s',
    run (step ⟨1,2,1,Nat.succ_pos 1⟩) .initial allSlotsTaken = some s ∧
    run (guarded (step ⟨1,2,1,Nat.succ_pos 1⟩) (fun u _ => (u.threads 1).pc ≠ .idle)) s
      ownedBorrow = some s' ∧
    s'.live 0 = 1 ∧ s.SlotsMatch 1 0 ∧ (s'.records 0).slots = (s.records 0).slots ∧
    (s'.threads 1).guards = (s.threads 1).guards := by
  obtain ⟨s',hs'⟩ := Option.isSome_iff_exists.mp (by decide +kernel :
    ((run (step ⟨1,2,1,Nat.succ_pos 1⟩) .initial allSlotsTaken).bind
      (fun s => run (guarded (step ⟨1,2,1,Nat.succ_pos 1⟩) (fun u _ => (u.threads 1).pc ≠ .idle)) s
        ownedBorrow)).isSome = true)
  have hend : ((run (step ⟨1,2,1,Nat.succ_pos 1⟩) .initial allSlotsTaken).bind
      (fun s => run (guarded (step ⟨1,2,1,Nat.succ_pos 1⟩) (fun u _ => (u.threads 1).pc ≠ .idle)) s
        ownedBorrow)).map (fun s => s.live 0) = some 1 := by decide +kernel
  have hseen : (run (step ⟨1,2,1,Nat.succ_pos 1⟩) .initial allSlotsTaken).map
      (fun s => ((s.threads 1).record,(s.threads 1).pc,
        (List.range HZ_PTR_SLOT_COUNT).all (fun j => ((s.records 0).slots j).isSome))) =
      some (.held 0,.borrowPublish (.cell 0) 10,true) := by decide +kernel
  rw [hs'] at hend
  obtain ⟨s,hs,hrest⟩ := Option.bind_eq_some_iff.mp hs'
  simp only [hs,Option.map_some,Option.some.injEq,Prod.mk.injEq,List.all_eq_true,List.mem_range,
    Option.isSome_iff_ne_none] at hseen hend
  obtain ⟨hheld,hpc,hfull⟩ := hseen
  obtain ⟨-,hmatch,-,hborrow⟩ :=
    hazard_records_exclusive (reach_of_run (fun _ _ _ => trivial) hs)
  have hreach : Reach (step ⟨1,2,1,Nat.succ_pos 1⟩) (fun u _ => (u.threads 1).pc ≠ .idle) s s' := by
    have hget : Reach (step ⟨1,2,1,Nat.succ_pos 1⟩) (fun u _ => (u.threads 1).pc ≠ .idle) s _ :=
      reach_guarded (Option.isSome_iff_exists.mpr ⟨s',hrest⟩)
    simpa only [hrest,Option.get_some] using hget
  obtain ⟨hslots,hguards⟩ := ((hborrow 1 0 _ _ s' (by decide) hheld hpc hreach).2.2.2.2 hfull).1
  exact ⟨s,s',hs,hrest,hend,hmatch 1 0 hheld,hslots,hguards⟩

end Run

end Sdarc.System
