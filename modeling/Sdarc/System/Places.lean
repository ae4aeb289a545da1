import Sdarc.System.Registry
set_option autoImplicit false

/-!
Where the pointees are registered, and that every step keeps each of them in one place.
-/

namespace Sdarc.System
open Transition

namespace CollectorPc

def taken : CollectorPc → List Entry
  | .taking _ taken => taken
  | _ => []

def todo : CollectorPc → List Nat
  | .traversing it _ _ _ => it.todo
  | .visiting it => it.todo
  | .checking it _ _ => it.todo
  | .unlinking it _ _ => it.todo
  | _ => []

def toFree : CollectorPc → List Nat
  | .traversing it _ _ _ => it.toFree
  | .visiting it => it.toFree
  | .checking it _ _ => it.toFree
  | .unlinking it _ _ => it.toFree
  | .freeing it => it.toFree
  | .dropping it _ _ => it.toFree
  | _ => []

/-- The key that `update_state` is running on, with the state it was entered in. -/
def current : CollectorPc → Option (Nat × TrackedCounterState)
  | .checking _ key pc => some (key,pc.expects)
  | .unlinking _ key _ => some (key,.requiresReChecking)
  | _ => none

def isPanicked : CollectorPc → Bool
  | .panicked _ => true
  | _ => false

end CollectorPc

def pendingCount (cfg : Config) (s : State) (p : Nat) : Nat :=
  ∑ j ∈ Finset.range cfg.shards, (s.pending j).countP (fun e => e.pointee = p)

def takenCount (s : State) (p : Nat) : Nat :=
  s.collector.taken.countP (fun e => e.pointee = p)

def trackedCount (s : State) (p : Nat) : Nat :=
  match s.tracked[(s.heap p).countersPtr]? with
  | some e => if e.pointee = p then 1 else 0
  | none => 0

def EntryOk (s : State) (p countersPtr : Nat) : Prop :=
  (s.heap p).stage = .allocated ∧ (s.heap p).countersPtr = countersPtr

structure Places (cfg : Config) (s : State) : Prop where
  fresh : ∀ p, s.nextPointee ≤ p →
    (s.heap p).stage = .unallocated ∧ (s.heap p).slotReleased = true
  slot : ∀ p, (s.heap p).stage = .allocated → (s.heap p).slotReleased = false
  distinct : ∀ p q, (s.heap p).slotReleased = false → (s.heap q).slotReleased = false →
    (s.heap p).countersPtr = (s.heap q).countersPtr → p = q
  pendingShards : ∀ j, cfg.shards ≤ j → s.pending j = []
  pendingOk : ∀ j e, e ∈ s.pending j → EntryOk s e.pointee e.countersPtr
  takenOk : ∀ e, e ∈ s.collector.taken → EntryOk s e.pointee e.countersPtr
  trackedOk : ∀ key e, s.tracked[key]? = some e → EntryOk s e.pointee key
  once : ∀ p, registeringCount cfg s p + pendingCount cfg s p + takenCount s p +
    trackedCount s p = if (s.heap p).stage = .allocated then 1 else 0
  started : ∀ p, p ∈ s.destructors →
    (s.heap p).stage = .dropping ∨ (s.heap p).stage = .deallocated
  startedOnce : s.destructors.Nodup

structure Lists (s : State) : Prop where
  todoNodup : s.collector.todo.Nodup
  toFreeNodup : s.collector.toFree.Nodup
  disjoint : ∀ key, key ∈ s.collector.todo → key ∉ s.collector.toFree
  ready : s.collector.isPanicked = false → ∀ key, key ∈ s.collector.toFree ↔
    ∃ e, s.tracked[key]? = some e ∧ e.state = .readyToFree
  currentOk : ∀ key state, s.collector.current = some (key,state) →
    key ∉ s.collector.todo ∧ key ∉ s.collector.toFree ∧
    ∃ e, s.tracked[key]? = some e ∧ e.state = state
  traversing : ∀ it len r j, s.collector = .traversing it len r j → it.toFree = []
  dropping : ∀ it p phase, s.collector = .dropping it p phase →
    (s.heap p).stage = .dropping
  panic : ∀ site, s.collector = .panicked site →
    site = .updateState .negativeSumWithoutTag

structure Tracking (cfg : Config) (s : State) : Prop where
  places : Places cfg s
  lists : Lists s

section Thread

variable {cfg : Config} {s s' : State}

structure SamePlaces (cfg : Config) (s s' : State) : Prop where
  nextPointee : s'.nextPointee = s.nextPointee
  stage : ∀ p, (s'.heap p).stage = (s.heap p).stage
  countersPtr : ∀ p, (s'.heap p).countersPtr = (s.heap p).countersPtr
  slotReleased : ∀ p, (s'.heap p).slotReleased = (s.heap p).slotReleased
  pending : s'.pending = s.pending
  tracked : ∀ key : Nat, (s'.tracked[key]?).map TrackedCounter.pointee =
    (s.tracked[key]?).map TrackedCounter.pointee
  taken : s'.collector.taken = s.collector.taken
  destructors : s'.destructors = s.destructors
  registering : ∀ p, registeringCount cfg s' p = registeringCount cfg s p

theorem SameRegistry.places (h : SameRegistry cfg s s') : SamePlaces cfg s s' where
  nextPointee := h.nextPointee
  stage := h.stage
  countersPtr := h.countersPtr
  slotReleased := h.slotReleased
  pending := h.pending
  tracked key := by rw [h.tracked]
  taken := by rw [h.collector]
  destructors := h.destructors
  registering := h.registering

theorem SamePlaces.entryOk (hs : SamePlaces cfg s s') {p key : Nat} (h : EntryOk s p key) :
    EntryOk s' p key :=
  ⟨(hs.stage p).trans h.1,(hs.countersPtr p).trans h.2⟩

theorem trackedCount_eq (s : State) (p : Nat) :
    trackedCount s p =
      if (s.tracked[(s.heap p).countersPtr]?).map TrackedCounter.pointee = some p then 1
      else 0 := by
  unfold trackedCount
  cases s.tracked[(s.heap p).countersPtr]? <;> simp

theorem Places.of_same (h : Places cfg s) (hs : SamePlaces cfg s s') : Places cfg s' where
  fresh p hp := by
    rw [hs.stage,hs.slotReleased]
    exact h.fresh p (hs.nextPointee ▸ hp)
  slot p hp := by
    rw [hs.slotReleased]
    exact h.slot p ((hs.stage p).symm.trans hp)
  distinct p q hp hq heq := by
    rw [hs.slotReleased] at hp hq
    rw [hs.countersPtr,hs.countersPtr] at heq
    exact h.distinct p q hp hq heq
  pendingShards := hs.pending ▸ h.pendingShards
  pendingOk j e he := hs.entryOk (h.pendingOk j e (hs.pending ▸ he))
  takenOk e he := hs.entryOk (h.takenOk e (hs.taken ▸ he))
  trackedOk key e he := by
    have hmap := hs.tracked key
    rw [he] at hmap
    cases he₀ : s.tracked[key]? with
    | none => simp [he₀] at hmap
    | some e₀ =>
      have hp : e.pointee = e₀.pointee := by simpa [he₀] using hmap
      exact hp ▸ hs.entryOk (h.trackedOk key e₀ he₀)
  once p := by
    have honce := h.once p
    rw [trackedCount_eq] at honce ⊢
    unfold pendingCount takenCount at honce ⊢
    rw [hs.registering,hs.pending,hs.taken,hs.tracked,hs.countersPtr,hs.stage]
    exact honce
  started p hp := by
    rw [hs.stage]
    exact h.started p (hs.destructors ▸ hp)
  startedOnce := hs.destructors ▸ h.startedOnce

theorem Places.nowhere (h : Places cfg s) {p : Nat} (hp : (s.heap p).stage ≠ .allocated) :
    registeringCount cfg s p = 0 ∧ pendingCount cfg s p = 0 ∧ takenCount s p = 0 := by
  have honce := h.once p
  rw [if_neg hp] at honce
  omega

theorem Places.lt_nextPointee (h : Places cfg s) {p : Nat}
    (hp : (s.heap p).stage ≠ .unallocated) : p < s.nextPointee := by
  by_contra hge
  exact hp (h.fresh p (by omega)).1

theorem Places.pendingCount_pos (h : Places cfg s) {j : Nat} {e : Entry}
    (he : e ∈ s.pending j) : 0 < pendingCount cfg s e.pointee := by
  have hj : j < cfg.shards := by
    by_contra hge
    rw [h.pendingShards j (by omega)] at he
    contradiction
  have hcount : 0 < (s.pending j).countP (fun x => x.pointee = e.pointee) :=
    List.countP_pos_iff.mpr ⟨e,he,by simp⟩
  exact hcount.trans_le (Finset.single_le_sum
    (f := fun j => (s.pending j).countP (fun x => x.pointee = e.pointee))
    (fun _ _ => Nat.zero_le _) (Finset.mem_range.mpr hj))

theorem Places.untracked_of_free (h : Places cfg s) {key : Nat}
    (hfree : ∀ q, q < s.nextPointee →
      (s.heap q).slotReleased = true ∨ (s.heap q).countersPtr ≠ key) :
    s.tracked[key]? = none := by
  cases he : s.tracked[key]? with
  | none => rfl
  | some e =>
    obtain ⟨hstage,hkey⟩ := h.trackedOk key e he
    have hslot := h.slot _ hstage
    rcases hfree _ (h.lt_nextPointee (by rw [hstage]; decide)) with hr | hne
    · rw [hr] at hslot
      contradiction
    · exact absurd hkey hne

theorem Places.of_allocates (h : Places cfg s) (ha : Allocates cfg s s') :
    Places cfg s' := by
  have hfresh := h.fresh s.nextPointee le_rfl
  have hne : ∀ q, (s.heap q).stage ≠ .unallocated → q ≠ s.nextPointee :=
    fun q hq heq => hq (heq ▸ hfresh.1)
  have hentry : ∀ p key, EntryOk s p key → EntryOk s' p key := by
    intro p key hok
    have hp := hne p (by rw [hok.1]; decide)
    unfold EntryOk
    rwa [ha.others p hp]
  constructor
  · intro p hp
    rw [ha.nextPointee] at hp
    rw [ha.others p (by omega)]
    exact h.fresh p (by omega)
  · intro p hp
    by_cases hpn : p = s.nextPointee
    · subst hpn
      exact ha.slotReleased
    · rw [ha.others p hpn] at hp ⊢
      exact h.slot p hp
  · intro p q hp hq heq
    have hclash : ∀ q, q ≠ s.nextPointee → (s'.heap q).slotReleased = false →
        (s'.heap q).countersPtr ≠ (s'.heap s.nextPointee).countersPtr := by
      intro q hqn hq
      rw [ha.others q hqn] at hq ⊢
      have hlt : q < s.nextPointee := by
        by_contra hge
        rw [(h.fresh q (by omega)).2] at hq
        contradiction
      rcases ha.free q hlt with hr | hne
      · rw [hr] at hq
        contradiction
      · exact hne
    by_cases hpn : p = s.nextPointee
    · subst hpn
      by_contra hpq
      exact hclash q (Ne.symm hpq) hq heq.symm
    · by_cases hqn : q = s.nextPointee
      · subst hqn
        exact absurd heq (hclash p hpn hp)
      · rw [ha.others p hpn] at hp heq
        rw [ha.others q hqn] at hq heq
        exact h.distinct p q hp hq heq
  · exact ha.pending ▸ h.pendingShards
  · intro j e he
    rw [ha.pending] at he
    exact hentry _ _ (h.pendingOk j e he)
  · intro e he
    rw [ha.collector] at he
    exact hentry _ _ (h.takenOk e he)
  · intro key e he
    rw [ha.tracked] at he
    exact hentry _ _ (h.trackedOk key e he)
  · intro p
    have honce := h.once p
    unfold pendingCount takenCount trackedCount at honce ⊢
    rw [ha.registering,ha.pending,ha.collector,ha.tracked]
    by_cases hpn : p = s.nextPointee
    · subst hpn
      have huntracked := h.untracked_of_free ha.free
      obtain ⟨h₁,h₂,h₃⟩ := h.nowhere (p := s.nextPointee) (by rw [hfresh.1]; decide)
      unfold pendingCount at h₂
      unfold takenCount at h₃
      rw [huntracked,ha.stage,h₁,h₂,h₃]
      simp
    · rw [ha.others p hpn,if_neg (Ne.symm hpn)]
      exact honce
  · intro p hp
    rw [ha.destructors] at hp
    have hstage := h.started p hp
    rwa [ha.others p (hne p (by rcases hstage with h | h <;> rw [h] <;> decide))]
  · exact ha.destructors ▸ h.startedOnce

theorem Places.of_registers {p shard : Nat} (h : Places cfg s)
    (hr : Registers cfg s s' p shard) : Places cfg s' := by
  have hpos : 0 < registeringCount cfg s p := by
    have := hr.registering p
    rw [if_pos rfl] at this
    omega
  have hstage : (s.heap p).stage = .allocated := by
    by_contra hne
    have := (h.nowhere hne).1
    omega
  constructor
  · rw [hr.nextPointee,hr.heap]
    exact h.fresh
  · rw [hr.heap]
    exact h.slot
  · rw [hr.heap]
    exact h.distinct
  · intro j hj
    have hlt := hr.shard_lt
    rw [hr.pending,Function.update_of_ne (by omega)]
    exact h.pendingShards j hj
  · intro j e he
    unfold EntryOk
    rw [hr.heap]
    rw [hr.pending] at he
    by_cases hj : j = shard
    · subst hj
      rw [Function.update_self,List.mem_append,List.mem_singleton] at he
      rcases he with he | rfl
      · exact h.pendingOk j e he
      · exact ⟨hstage,rfl⟩
    · rw [Function.update_of_ne hj] at he
      exact h.pendingOk j e he
  · unfold EntryOk
    rw [hr.collector,hr.heap]
    exact h.takenOk
  · unfold EntryOk
    rw [hr.tracked,hr.heap]
    exact h.trackedOk
  · intro q
    have honce := h.once q
    have hreg := hr.registering q
    have hsum := sum_update (fun _ (l : List Entry) => l.countP (fun e => e.pointee = q))
      s.pending hr.shard_lt (s.pending shard ++ [⟨p,(s.heap p).countersPtr⟩])
    simp only [List.countP_append,List.countP_singleton,decide_eq_true_eq] at hsum
    unfold pendingCount takenCount trackedCount at honce ⊢
    rw [hr.pending,hr.collector,hr.tracked,hr.heap]
    omega
  · rw [hr.destructors,hr.heap]
    exact h.started
  · exact hr.destructors ▸ h.startedOnce

theorem Lists.of_thread (h : Lists s) (hcollector : s'.collector = s.collector)
    (htracked : s'.tracked = s.tracked)
    (hstage : ∀ p, (s.heap p).stage = .dropping → (s'.heap p).stage = .dropping) :
    Lists s' where
  todoNodup := hcollector ▸ h.todoNodup
  toFreeNodup := hcollector ▸ h.toFreeNodup
  disjoint := hcollector ▸ h.disjoint
  ready := by
    rw [hcollector,htracked]
    exact h.ready
  currentOk := by
    rw [hcollector,htracked]
    exact h.currentOk
  traversing := hcollector ▸ h.traversing
  dropping it p phase hc := hstage p (h.dropping it p phase (hcollector ▸ hc))
  panic := hcollector ▸ h.panic

theorem Tracking.thread {t : Nat} {op : Op} (h : Tracking cfg s) (ht : t < cfg.threads)
    (hs : ThreadStep cfg s t op s') : Tracking cfg s' := by
  rcases hs.registry ht with hsame | hal | ⟨p,shard,hreg⟩
  · refine ⟨h.places.of_same hsame.places,h.lists.of_thread hsame.collector hsame.tracked ?_⟩
    intro p hp
    rwa [hsame.stage]
  · refine ⟨h.places.of_allocates hal,h.lists.of_thread hal.collector hal.tracked ?_⟩
    intro p hp
    have hlt := h.places.lt_nextPointee (p := p) (by rw [hp]; decide)
    rwa [hal.others p (by omega)]
  · refine ⟨h.places.of_registers hreg,h.lists.of_thread hreg.collector hreg.tracked ?_⟩
    rw [hreg.heap]
    exact fun p hp => hp

end Thread

section Collector

variable {cfg : Config} {s s' : State}

theorem SamePlaces.of_goto {pc : CollectorPc} (htaken : pc.taken = s.collector.taken) :
    SamePlaces cfg s (s.goto pc) where
  nextPointee := rfl
  stage _ := rfl
  countersPtr _ := rfl
  slotReleased _ := rfl
  pending := rfl
  tracked _ := rfl
  taken := htaken
  destructors := rfl
  registering _ := rfl

theorem tracked_setTracked (s : State) (key : Nat) (state : TrackedCounterState)
    (key' : Nat) :
    (s.setTracked key state).tracked[key']? =
      if key = key' then (s.tracked[key']?).map (fun e => { e with state := state })
      else s.tracked[key']? := by
  simp only [State.setTracked,Std.TreeMap.getElem?_modify,Nat.compare_eq_eq]
  split
  · rename_i h
    rw [h]
  · rfl

theorem SamePlaces.of_setTracked {key : Nat} {state : TrackedCounterState}
    {pc : CollectorPc} (htaken : pc.taken = s.collector.taken) :
    SamePlaces cfg s ((s.setTracked key state).goto pc) where
  nextPointee := rfl
  stage _ := rfl
  countersPtr _ := rfl
  slotReleased _ := rfl
  pending := rfl
  tracked key' := by
    change ((s.setTracked key state).tracked[key']?).map _ = _
    rw [tracked_setTracked]
    split
    · rw [Option.map_map]
      rfl
    · rfl
  taken := htaken
  destructors := rfl
  registering _ := rfl

theorem SamePlaces.of_resume {it : Iter} {key : Nat} {result : UpdateResult}
    (htaken : s.collector.taken = []) : SamePlaces cfg s (s.resume it key result) := by
  cases result with
  | goto pc => exact .of_goto htaken.symm
  | done state => exact .of_setTracked htaken.symm
  | panic site => exact .of_goto htaken.symm

theorem SamePlaces.trans {s₁ s₂ s₃ : State} (h : SamePlaces cfg s₁ s₂)
    (h' : SamePlaces cfg s₂ s₃) : SamePlaces cfg s₁ s₃ where
  nextPointee := h'.nextPointee.trans h.nextPointee
  stage p := (h'.stage p).trans (h.stage p)
  countersPtr p := (h'.countersPtr p).trans (h.countersPtr p)
  slotReleased p := (h'.slotReleased p).trans (h.slotReleased p)
  pending := h'.pending.trans h.pending
  tracked key := (h'.tracked key).trans (h.tracked key)
  taken := h'.taken.trans h.taken
  destructors := h'.destructors.trans h.destructors
  registering p := (h'.registering p).trans (h.registering p)

theorem Places.takePending {shard : Nat} (h : Places cfg s)
    (hc : s.collector = .taking shard []) (hshard : shard < cfg.shards) :
    Places cfg (s.takePending shard) where
  fresh := h.fresh
  slot := h.slot
  distinct := h.distinct
  pendingShards j hj := by
    by_cases hjs : j = shard
    · simp [hjs]
    · simpa [hjs] using h.pendingShards j hj
  pendingOk j e he := by
    by_cases hj : j = shard
    · simp [hj] at he
    · exact h.pendingOk j e (by simpa [hj] using he)
  takenOk e he := h.pendingOk shard e he
  trackedOk := h.trackedOk
  once p := by
    have honce := h.once p
    have hsum := sum_update (fun _ (l : List Entry) => l.countP (fun e => e.pointee = p))
      s.pending hshard []
    unfold pendingCount takenCount at honce ⊢
    simp only [hc,CollectorPc.taken,List.countP_nil,State.takePending] at honce hsum ⊢
    change registeringCount cfg s p + _ + _ + trackedCount s p =
      if (s.heap p).stage = .allocated then 1 else 0
    omega
  started := h.started
  startedOnce := h.startedOnce

theorem Places.untracked_of_taken {shard : Nat} {e : Entry} {rest : List Entry}
    (h : Places cfg s) (hc : s.collector = .taking shard (e :: rest)) :
    s.tracked[e.countersPtr]? = none := by
  cases hx : s.tracked[e.countersPtr]? with
  | none => rfl
  | some x =>
    obtain ⟨hstage,hkey⟩ := h.takenOk e (by simp [hc,CollectorPc.taken])
    obtain ⟨hstage',hkey'⟩ := h.trackedOk _ x hx
    have hsame : x.pointee = e.pointee :=
      h.distinct _ _ (h.slot _ hstage') (h.slot _ hstage) (hkey'.trans hkey.symm)
    have honce := h.once e.pointee
    rw [if_pos hstage] at honce
    unfold takenCount trackedCount at honce
    simp [hc,CollectorPc.taken,hkey,hx,hsame] at honce

theorem Places.track {shard : Nat} {e : Entry} {rest : List Entry} (h : Places cfg s)
    (hc : s.collector = .taking shard (e :: rest)) :
    Places cfg { s with
      tracked := s.tracked.insert e.countersPtr ⟨e.pointee,.defaultState⟩
      collector := .taking shard rest } where
  fresh := h.fresh
  slot := h.slot
  distinct := h.distinct
  pendingShards := h.pendingShards
  pendingOk := h.pendingOk
  takenOk e' he' := h.takenOk e' (by
    rw [hc]
    exact List.mem_cons_of_mem e he')
  trackedOk key x hx := by
    simp only [Std.TreeMap.getElem?_insert,Nat.compare_eq_eq] at hx
    split at hx
    · rename_i hkey
      obtain rfl := Option.some.inj hx
      exact hkey ▸ h.takenOk e (by simp [hc,CollectorPc.taken])
    · exact h.trackedOk key x hx
  once p := by
    have honce := h.once p
    have hnone := h.untracked_of_taken hc
    have hkey := (h.takenOk e (by simp [hc,CollectorPc.taken])).2
    unfold takenCount trackedCount at honce ⊢
    simp only [hc,CollectorPc.taken,List.countP_cons,decide_eq_true_eq,
      Std.TreeMap.getElem?_insert,Nat.compare_eq_eq] at honce ⊢
    change registeringCount cfg s p + pendingCount cfg s p + _ + _ = _
    by_cases hp : e.pointee = p
    · subst hp
      simp only [hkey,hnone,if_true] at honce ⊢
      omega
    · by_cases hk : e.countersPtr = (s.heap p).countersPtr
      · simp only [← hk,hnone,if_true,hp,if_false] at honce ⊢
        omega
      · simp only [hk,if_false,hp] at honce ⊢
        omega
  started := h.started
  startedOnce := h.startedOnce

theorem Places.free {it : Iter} {key : Nat} {toFree : List Nat} {e : TrackedCounter}
    (h : Places cfg s) (hc : s.collector = .freeing it) (he : s.tracked[key]? = some e) :
    Places cfg
      { { s with tracked := s.tracked.erase key }.setInner e.pointee
          { s.heap e.pointee with stage := .dropping } with
        destructors := e.pointee :: s.destructors
        collector := .dropping { it with toFree := toFree } e.pointee .counters } := by
  obtain ⟨hstage,hkey⟩ := h.trackedOk key e he
  have hother : ∀ p k, p ≠ e.pointee → EntryOk s p k → EntryOk
      { { s with tracked := s.tracked.erase key }.setInner e.pointee
          { s.heap e.pointee with stage := .dropping } with
        destructors := e.pointee :: s.destructors
        collector := .dropping { it with toFree := toFree } e.pointee .counters } p k := by
    intro p k hp hok
    simpa [EntryOk,hp] using hok
  have honce := h.once e.pointee
  rw [if_pos hstage] at honce
  have htracked : trackedCount s e.pointee = 1 := by simp [trackedCount,hkey,he]
  constructor
  · intro p hp
    have hpne : p ≠ e.pointee := by
      rintro rfl
      have := (h.fresh _ hp).1
      rw [hstage] at this
      contradiction
    simpa [hpne] using h.fresh p hp
  · intro p hp
    by_cases hpe : p = e.pointee
    · simp [hpe] at hp
    · simpa [hpe] using h.slot p (by simpa [hpe] using hp)
  · intro p q hp hq heq
    refine h.distinct p q ?_ ?_ ?_
    · by_cases hpe : p = e.pointee <;> simp_all
    · by_cases hqe : q = e.pointee <;> simp_all
    · by_cases hpe : p = e.pointee <;> by_cases hqe : q = e.pointee <;> simp_all
  · exact h.pendingShards
  · intro j x hx
    refine hother _ _ (fun hxe => ?_) (h.pendingOk j x hx)
    have := h.pendingCount_pos hx
    rw [hxe] at this
    omega
  · intro x hx
    simp [CollectorPc.taken] at hx
  · intro k x hx
    simp only [State.setInner,Std.TreeMap.getElem?_erase,Nat.compare_eq_eq] at hx
    split at hx
    · contradiction
    · rename_i hk
      have hok := h.trackedOk k x hx
      refine hother _ _ ?_ hok
      intro hxe
      exact hk (hkey.symm.trans (hxe ▸ hok.2))
  · intro p
    have hp := h.once p
    unfold takenCount trackedCount at hp ⊢
    simp only [hc,CollectorPc.taken,List.countP_nil,State.setInner,
      Std.TreeMap.getElem?_erase,Nat.compare_eq_eq] at hp ⊢
    change registeringCount cfg s p + pendingCount cfg s p + _ + _ = _
    by_cases hpe : p = e.pointee
    · subst hpe
      simp only [Function.update_self,hkey,if_true]
      simp
      omega
    · simp only [Function.update_of_ne hpe] at hp ⊢
      by_cases hk : key = (s.heap p).countersPtr
      · simp only [← hk,he,Ne.symm hpe,if_true,if_false] at hp ⊢
        omega
      · simp only [hk,if_false]
        exact hp
  · intro p hp
    by_cases hpe : p = e.pointee
    · simp [hpe]
    · simpa [hpe] using h.started p (by simpa [hpe] using hp)
  · refine List.nodup_cons.mpr ⟨fun hmem => ?_,h.startedOnce⟩
    rcases h.started _ hmem with hs | hs <;> rw [hstage] at hs <;> contradiction

theorem Places.dropInner {it : Iter} {p : Nat} {phase : DropPhase} {x : SdarcInner}
    {pc : CollectorPc} (h : Places cfg s) (hc : s.collector = .dropping it p phase)
    (hstage : (s.heap p).stage = .dropping)
    (hx : x.stage = .dropping ∨ x.stage = .deallocated)
    (hkey : x.countersPtr = (s.heap p).countersPtr)
    (hslot : x.slotReleased = false → (s.heap p).slotReleased = false)
    (htaken : pc.taken = []) : Places cfg ((s.setInner p x).goto pc) := by
  have hxs : x.stage ≠ .allocated := by
    rcases hx with hx | hx <;> simp [hx]
  have hother : ∀ q k, EntryOk s q k → EntryOk ((s.setInner p x).goto pc) q k := by
    intro q k hok
    have hq : q ≠ p := by
      rintro rfl
      rw [hok.1] at hstage
      contradiction
    simpa [EntryOk,hq] using hok
  have hlt := h.lt_nextPointee (p := p) (by rw [hstage]; decide)
  have hkeys : ∀ q, (((s.setInner p x).goto pc).heap q).countersPtr =
      (s.heap q).countersPtr := by
    intro q
    by_cases hq : q = p <;> simp [hq,hkey]
  constructor
  · intro q hq
    have hqp : q ≠ p := by
      rintro rfl
      exact absurd hq (by simpa using hlt)
    simpa [hqp] using h.fresh q hq
  · intro q hq
    by_cases hqp : q = p
    · simp [hqp,hxs] at hq
    · simpa [hqp] using h.slot q (by simpa [hqp] using hq)
  · intro q r hq hr heq
    rw [hkeys,hkeys] at heq
    refine h.distinct q r ?_ ?_ heq
    · by_cases hqp : q = p
      · subst hqp
        exact hslot (by simpa using hq)
      · simpa [hqp] using hq
    · by_cases hrp : r = p
      · subst hrp
        exact hslot (by simpa using hr)
      · simpa [hrp] using hr
  · exact h.pendingShards
  · exact fun j e he => hother _ _ (h.pendingOk j e he)
  · intro e he
    simp [htaken] at he
  · exact fun key e he => hother _ _ (h.trackedOk key e he)
  · intro q
    have honce := h.once q
    unfold takenCount trackedCount at honce ⊢
    rw [hkeys]
    simp only [hc,CollectorPc.taken,List.countP_nil] at honce
    simp only [State.setInner,State.goto,htaken,List.countP_nil]
    change registeringCount cfg s q + pendingCount cfg s q + _ + _ = _
    rw [honce]
    by_cases hqp : q = p
    · subst hqp
      simp [hxs,hstage]
    · simp [hqp]
  · intro q hq
    by_cases hqp : q = p
    · subst hqp
      rcases hx with hx | hx <;> simp [hx]
    · simpa [hqp] using h.started q hq
  · exact h.startedOnce

theorem SamePlaces.of_dropWeakInnerRef {it : Iter} {p w : Nat} {pc : CollectorPc}
    (hc : s.collector = .dropping it p .weakInnerRef) (hidle : (s.threads 0).pc = .idle)
    (htaken : pc.taken = []) :
    SamePlaces cfg s (((s.setInner p { s.heap p with weakInnerRef := .uninit }).setPc 0
      (.drop w)).goto pc) where
  nextPointee := rfl
  stage := field_update SdarcInner.stage rfl
  countersPtr := field_update SdarcInner.countersPtr rfl
  slotReleased := field_update SdarcInner.slotReleased rfl
  pending := rfl
  tracked _ := rfl
  taken := by
    rw [hc]
    exact htaken
  destructors := rfl
  registering q := by
    unfold registeringCount registeringIn
    refine Finset.sum_congr rfl (fun t _ => ?_)
    by_cases ht : t = 0 <;> simp [ht,hidle,ThreadPc.registers]

theorem SamePlaces.of_endOuterIteration {it : Iter} (hc : s.collector = .freeing it) :
    SamePlaces cfg s ({ s with countersToReCheck := ∅ }.endOuterIteration) where
  nextPointee := rfl
  stage _ := rfl
  countersPtr _ := rfl
  slotReleased _ := rfl
  pending := rfl
  tracked _ := rfl
  taken := by simp [hc,CollectorPc.taken]
  destructors := rfl
  registering q := by
    unfold registeringCount registeringIn
    refine Finset.sum_congr rfl (fun t _ => ?_)
    by_cases ht : t ∈ s.toNotify ∧ (s.threads t).pc = .waiting
    · simp [ht,ThreadPc.registers]
    · simp [ht]

theorem Places.collector (h : Tracking cfg s) (hs : CollectorStep cfg s s') :
    Places cfg s' := by
  have hp := h.places
  cases hs with
  | wake hc => exact hp.of_same ⟨rfl,fun _ => rfl,fun _ => rfl,fun _ => rfl,rfl,fun _ => rfl,
      by simp [hc,CollectorPc.taken],rfl,fun _ => rfl⟩
  | takePending shard hc hshard => exact hp.takePending hc hshard
  | track shard e rest hc _ => exact hp.track hc
  | replaced shard e rest x hc hx =>
    rw [hp.untracked_of_taken hc] at hx
    contradiction
  | startIteration shard hc _ => exact hp.of_same (.of_goto (by simp [hc,CollectorPc.taken]))
  | readEmptySlot it len r j hc _ _ _ =>
    exact hp.of_same (.of_goto (by simp [hc,CollectorPc.taken]))
  | readSlot it len r j address hc _ _ _ =>
    exact hp.of_same (.of_goto (by simp [hc,CollectorPc.taken]))
  | spin it len r j hc _ => exact hp
  | poll it len r j hc _ _ _ => exact hp.of_same (.of_goto (by simp [hc,CollectorPc.taken]))
  | endTraversal it len r j hc _ =>
    exact hp.of_same (.of_goto (by simp [hc,CollectorPc.taken]))
  | startFreeing it hc _ => exact hp.of_same (.of_goto (by simp [hc,CollectorPc.taken]))
  | skip it key todo hc _ _ => exact hp.of_same (.of_goto (by simp [hc,CollectorPc.taken]))
  | hazard it key todo e hc _ _ _ =>
    exact hp.of_same (.of_setTracked (by simp [hc,CollectorPc.taken]))
  | startUpdate it key todo e hc _ _ _ =>
    exact hp.of_same (.of_resume (by simp [hc,CollectorPc.taken]))
  | readShard it key k pc hc _ _ _ =>
    exact hp.of_same (.of_resume (by simp [hc,CollectorPc.taken]))
  | clearTag it key k sum hc _ =>
    exact hp.of_same ⟨rfl,fun _ => rfl,fun _ => rfl,fun _ => rfl,rfl,fun _ => rfl,
      by simp [hc,CollectorPc.taken],rfl,fun _ => rfl⟩
  | finishPass it key k pc hc _ _ =>
    exact hp.of_same (.of_resume (by simp [hc,CollectorPc.taken]))
  | untracked it key hc _ => exact hp.of_same (.of_goto (by simp [hc,CollectorPc.taken]))
  | weakRefNotInvolved it key e hc _ _ =>
    exact hp.of_same (.of_resume (by simp [hc,CollectorPc.taken]))
  | foundWeakInner it key w e hc _ _ =>
    exact hp.of_same (.of_goto (by simp [hc,CollectorPc.taken]))
  | weakBackRefCleared it key w origin p hc _ =>
    have hset : SamePlaces cfg s
        (s.setInner w { s.heap w with data := .weakSdarcInner origin none }) :=
      ⟨rfl,field_update SdarcInner.stage rfl,field_update SdarcInner.countersPtr rfl,
        field_update SdarcInner.slotReleased rfl,rfl,fun _ => rfl,rfl,rfl,fun _ => rfl⟩
    exact hp.of_same (hset.trans (.of_resume (by simp [hc,CollectorPc.taken])))
  | weakBackRefWasAlreadyNull it key w hc _ =>
    exact hp.of_same (.of_resume (by simp [hc,CollectorPc.taken]))
  | nextIteration it hc _ _ _ =>
    exact hp.of_same ⟨rfl,fun _ => rfl,fun _ => rfl,fun _ => rfl,rfl,fun _ => rfl,
      by simp [hc,CollectorPc.taken],rfl,fun _ => rfl⟩
  | endOuterIteration it hc _ _ => exact hp.of_same (.of_endOuterIteration hc)
  | removedUntracked it key toFree hc hf hnone =>
    have hmem := (h.lists.ready (by simp [hc,CollectorPc.isPanicked]) key).mp
      (by simp [hc,CollectorPc.toFree,hf])
    simp [hnone] at hmem
  | notReadyToFree it key toFree e hc hf he hne =>
    obtain ⟨e',he',hready⟩ := (h.lists.ready (by simp [hc,CollectorPc.isPanicked]) key).mp
      (by simp [hc,CollectorPc.toFree,hf])
    obtain rfl : e = e' := Option.some.inj (he.symm.trans he')
    exact absurd hready hne
  | countersPtrMismatch it key toFree e hc _ he hne =>
    exact absurd (hp.trackedOk key e he).2 hne
  | free it key toFree e hc _ he _ _ => exact hp.free hc he
  | dropCounters it p hc =>
    exact hp.dropInner hc (h.lists.dropping it p _ hc)
      (.inl (h.lists.dropping it p _ hc)) rfl (by simp) rfl
  | dropWeakInnerRef it p w hc _ hidle =>
    exact hp.of_same (.of_dropWeakInnerRef hc hidle rfl)
  | noWeakInnerRef it p hc _ => exact hp.of_same (.of_goto (by simp [hc,CollectorPc.taken]))
  | dropWeakSdarcInner it p origin backRef hc _ _ =>
    exact hp.of_same ⟨rfl,fun _ => rfl,fun _ => rfl,fun _ => rfl,rfl,fun _ => rfl,
      by simp [hc,CollectorPc.taken],rfl,fun _ => rfl⟩
  | dropMemory it p hc =>
    exact hp.dropInner hc (h.lists.dropping it p _ hc) (.inr rfl) rfl (fun h => h) rfl

end Collector

end Sdarc.System
