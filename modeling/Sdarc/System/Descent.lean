import Sdarc.System.Conservation
import Sdarc.System.Progress
import Sdarc.System.Weak
set_option autoImplicit false

/-!
How far an unused pointee is from its destructor. Each time `update_state` runs on it, it
comes closer, and no step of a thread takes it away again.
-/

namespace Sdarc.System
open Transition

/-- Nobody uses `p`: it has no owner, no reader has just loaded it, and no hazard pointer
has its address. -/
structure State.Unused (cfg : Config) (s : State) (p : Nat) : Prop where
  owners : s.owners cfg p = 0
  entering : ∀ t, t < cfg.threads → ¬ (s.threads t).pc.entering p
  slots : ∀ r, r < s.recordCount → ∀ j, j < HZ_PTR_SLOT_COUNT →
    (s.records r).slots j ≠ some (s.heap p).ptr

instance (cfg : Config) (s : State) (p : Nat) : Decidable (s.Unused cfg p) :=
  decidable_of_iff (s.owners cfg p = 0 ∧ (∀ t, t < cfg.threads → ¬ (s.threads t).pc.entering p) ∧
      ∀ r, r < s.recordCount → ∀ j, j < HZ_PTR_SLOT_COUNT →
        (s.records r).slots j ≠ some (s.heap p).ptr)
    ⟨fun ⟨howners,hentering,hslots⟩ => ⟨howners,hentering,hslots⟩,
      fun h => ⟨h.owners,h.entering,h.slots⟩⟩

/-- At most `n` runs of `update_state` find an unused pointee ready to be freed. A tag makes
the re-check start over, and a `back_ref` is cleared before it is believed that the count is
zero. -/
def Level (n : Nat) (tagged linked : Prop) : TrackedCounterState → Prop
  | .readyToFree => True
  | .defaultState => 3 ≤ n
  | .requiresReChecking => 1 ≤ n ∧ (linked → 2 ≤ n) ∧ (tagged → 4 ≤ n)

theorem Level.mono {n m : Nat} {tagged tagged' linked linked' : Prop}
    {state : TrackedCounterState} (h : Level n tagged linked state) (hnm : n ≤ m)
    (htagged : tagged' → tagged) (hlinked : linked' → linked) :
    Level m tagged' linked' state := by
  cases state with
  | readyToFree => trivial
  | defaultState => exact h.trans hnm
  | requiresReChecking =>
    obtain ⟨hone,htwo,hfour⟩ := h
    exact ⟨hone.trans hnm,fun hl => (htwo (hlinked hl)).trans hnm,
      fun ht => (hfour (htagged ht)).trans hnm⟩

section Passes

variable {n : Nat} {c c' : Nat → Counter} {pc : UpdatePc}

/-- What the run of `update_state` has gathered so far, the counters being at rest. -/
def Gathered (n : Nat) (c : Nat → Counter) : UpdatePc → Prop
  | .readRelaxed k sum => sum = ∑ i ∈ Finset.range k, (c i).refCount
  | .clearTags k sum | .readIfUntagged k sum =>
      sum = ∑ i ∈ Finset.range k, (c i).refCount ∧ ∀ i, i < k → (c i).tag = false
  | .clearWeakBackRef => ∀ i, i < n → (c i).tag = false

theorem Gathered.mono (h : Gathered n c pc) (hcount : ∀ i, (c' i).refCount = (c i).refCount)
    (htag : ∀ i, (c i).tag = false → (c' i).tag = false) : Gathered n c' pc := by
  have hsum : ∀ k, ∑ i ∈ Finset.range k, (c' i).refCount = ∑ i ∈ Finset.range k, (c i).refCount :=
    fun k => Finset.sum_congr rfl (fun i _ => hcount i)
  cases pc with
  | readRelaxed k sum => exact h.trans (hsum k).symm
  | clearTags k sum | readIfUntagged k sum =>
    exact ⟨h.1.trans (hsum k).symm,fun i hi => htag i (h.2 i hi)⟩
  | clearWeakBackRef => exact fun i hi => htag i (h i hi)

/-- Where `update_state` goes from `pc`: it finishes only with a state that is at the level
`m`. -/
def Nears (n : Nat) (c : Nat → Counter) (m : Nat) (linked : Prop) :
    UpdateResult → Prop
  | .goto pc => Gathered n c pc
  | .done state => Level m (∃ i, i < n ∧ (c i).tag = true) linked state
  | .panic _ => False

variable {m : Nat} {linked : Prop}

theorem Gathered.start {state : TrackedCounterState} (h : state ≠ .readyToFree) :
    Nears n c m linked (UpdatePc.start state) := by
  cases state with
  | defaultState => simp [UpdatePc.start,Nears,Gathered]
  | requiresReChecking => simp [UpdatePc.start,Nears,Gathered]
  | readyToFree => contradiction

theorem Gathered.visit {k : Nat} (h : Gathered n c pc) (hk : pc.shard = some k) (hkn : k < n)
    (hclear : pc.clearsTag = false)
    (hlevel : Level (m+1) (∃ i, i < n ∧ (c i).tag = true) linked pc.expects) :
    Nears n c m linked (pc.visit (c k)) := by
  cases pc with
  | readRelaxed j sum =>
    obtain rfl := Option.some.inj hk
    change sum + (c j).refCount = _
    rw [Finset.sum_range_succ,h]
  | clearTags => contradiction
  | readIfUntagged j sum =>
    obtain rfl := Option.some.inj hk
    obtain ⟨rfl,htags⟩ := h
    cases htag : (c j).tag with
    | true =>
      have hfour := hlevel.2.2 ⟨j,hkn,htag⟩
      simp only [UpdatePc.visit,htag,if_true,Nears,Level]
      omega
    | false =>
      simp only [UpdatePc.visit,htag,Bool.false_eq_true,if_false,Nears,Gathered,
        Finset.sum_range_succ,true_and]
      intro i hi
      rcases Nat.lt_succ_iff_lt_or_eq.mp hi with hlt | rfl
      · exact htags i hlt
      · exact htag
  | clearWeakBackRef => contradiction

theorem Gathered.finish (h : Gathered n c pc) (hk : pc.shard = some n)
    (hsum : ∑ i ∈ Finset.range n, (c i).refCount = 0)
    (hlevel : Level (m+1) (∃ i, i < n ∧ (c i).tag = true) linked pc.expects) :
    Nears n c m linked pc.finish := by
  cases pc with
  | readRelaxed j sum =>
    obtain rfl := Option.some.inj hk
    obtain rfl : sum = 0 := h.trans hsum
    simp [UpdatePc.finish,Nears,Gathered]
  | clearTags j sum =>
    obtain rfl := Option.some.inj hk
    obtain ⟨hzero,htags⟩ := h
    obtain rfl : sum = 0 := hzero.trans hsum
    have hthree : 3 ≤ m + 1 := hlevel
    simp only [UpdatePc.finish,if_true,Nears,Level]
    refine ⟨by omega,fun _ => by omega,?_⟩
    rintro ⟨i,hi,htag⟩
    simp [htags i hi] at htag
  | readIfUntagged j sum =>
    obtain rfl := Option.some.inj hk
    obtain ⟨hzero,htags⟩ := h
    obtain rfl : sum = 0 := hzero.trans hsum
    simpa [UpdatePc.finish,Nears,Gathered] using htags
  | clearWeakBackRef => contradiction

end Passes

section Places

/-- Where the collector stands with `p`, while an outer iteration is under way. -/
def State.Placed (s : State) (p : Nat) : Prop :=
  match s.collector with
  | .parked => True
  | .taking shard taken =>
      (∃ j e, shard ≤ j ∧ e ∈ s.pending j ∧ e.pointee = p) ∨ (∃ e, e ∈ taken ∧ e.pointee = p) ∨
        (s.tracked[(s.heap p).countersPtr]?).isSome
  | _ => (s.tracked[(s.heap p).countersPtr]?).isSome

def State.toVisit (s : State) (p : Nat) : Prop :=
  match s.collector with
  | .taking _ _ => True
  | .traversing it _ _ _ | .visiting it => (s.heap p).countersPtr ∈ it.todo
  | .checking it key _ | .unlinking it key _ =>
      key = (s.heap p).countersPtr ∨ (s.heap p).countersPtr ∈ it.todo
  | _ => False

def State.Unseen (s : State) (p : Nat) : Prop :=
  match s.collector with
  | .traversing it len _ _ => len ≤ s.recordCount ∧ (s.heap p).ptr ∉ it.hazard
  | .visiting it | .checking it _ _ | .unlinking it _ _ => (s.heap p).ptr ∉ it.hazard
  | _ => True

def State.Gathering (cfg : Config) (s : State) (p : Nat) : Prop :=
  match s.collector with
  | .checking _ key pc => key = (s.heap p).countersPtr → Gathered cfg.shards (s.counter p) pc
  | .unlinking _ key _ => key = (s.heap p).countersPtr →
      ∀ i, i < cfg.shards → (s.counter p i).tag = false
  | _ => True

def State.stateOf (s : State) (p : Nat) : TrackedCounterState :=
  match s.tracked[(s.heap p).countersPtr]? with
  | some e => e.state
  | none => .defaultState

def State.AtLevel (cfg : Config) (s : State) (p n : Nat) : Prop :=
  Level n (∃ i, i < cfg.shards ∧ (s.counter p i).tag = true) (s.linked p) (s.stateOf p)

structure Lowers (cfg : Config) (p n : Nat) (s : State) : Prop where
  placed : s.Placed p
  unseen : s.Unseen p
  gathering : s.Gathering cfg p
  level : s.toVisit p ∧ s.AtLevel cfg p (n+1) ∨ s.AtLevel cfg p n

structure AtRest (s s' : State) (p : Nat) : Prop where
  ptr : (s'.heap p).ptr = (s.heap p).ptr
  countersPtr : (s'.heap p).countersPtr = (s.heap p).countersPtr
  count : ∀ i, (s'.counter p i).refCount = (s.counter p i).refCount
  tag : ∀ i, (s.counter p i).tag = false → (s'.counter p i).tag = false
  linked : s'.linked p → s.linked p

end Places

section Steps

variable {cfg : Config} {s s' : State} {p n : Nat}

theorem AtRest.level (h : AtRest s s' p) (hstate : s'.stateOf p = s.stateOf p)
    (hlevel : s.AtLevel cfg p n) : s'.AtLevel cfg p n := by
  rw [State.AtLevel,hstate]
  refine hlevel.mono le_rfl ?_ h.linked
  rintro ⟨i,hi,htag⟩
  refine ⟨i,hi,?_⟩
  by_contra hne
  rw [h.tag i (by simpa using hne)] at htag
  contradiction

theorem stateOf_of_some {e : TrackedCounter} (he : s.tracked[(s.heap p).countersPtr]? = some e) :
    s.stateOf p = e.state := by
  rw [State.stateOf,he]

theorem stateOf_congr
    (h : s'.tracked[(s'.heap p).countersPtr]? = s.tracked[(s.heap p).countersPtr]?) :
    s'.stateOf p = s.stateOf p := by
  rw [State.stateOf,State.stateOf,h]

theorem AtRest.stateOf (h : AtRest s s' p)
    (htracked : s'.tracked[(s.heap p).countersPtr]? = s.tracked[(s.heap p).countersPtr]?) :
    s'.stateOf p = s.stateOf p :=
  stateOf_congr (by rw [h.countersPtr,htracked])

theorem Lowers.keep (h : Lowers cfg p n s) (hrest : AtRest s s' p)
    (htracked : s'.tracked[(s.heap p).countersPtr]? = s.tracked[(s.heap p).countersPtr]?)
    (hplaced : s'.Placed p) (hunseen : s'.Unseen p)
    (hgathering : s'.Gathering cfg p) (hvisit : s.toVisit p → s'.toVisit p) : Lowers cfg p n s' where
  placed := hplaced
  unseen := hunseen
  gathering := hgathering
  level := by
    have hstate := hrest.stateOf htracked
    rcases h.level with ⟨hv,hl⟩ | hl
    · exact .inl ⟨hvisit hv,hrest.level hstate hl⟩
    · exact .inr (hrest.level hstate hl)

theorem Safe.pointee_of_tracked (h : Safe cfg s) (hp : (s.heap p).stage = .allocated)
    {e : TrackedCounter} (he : s.tracked[(s.heap p).countersPtr]? = some e) : e.pointee = p := by
  have hplaces := h.tracking.places
  obtain ⟨hstage,hkey⟩ := hplaces.trackedOk _ e he
  exact hplaces.distinct _ _ (hplaces.slot _ hstage) (hplaces.slot _ hp) hkey

theorem Safe.sum_of_unused (h : Safe cfg s) (hp : (s.heap p).stage = .allocated)
    (hun : s.Unused cfg p) : ∑ i ∈ Finset.range cfg.shards, (s.counter p i).refCount = 0 := by
  obtain ⟨hsum,hdebt⟩ := h.references.counted p hp
  rw [hun.owners] at hsum hdebt
  have hzero : s.debt cfg p = 0 := by omega
  rw [hzero] at hsum
  exact hsum

theorem ThreadStep.pending {t : Nat} {op : Op} (hs : ThreadStep cfg s t op s') {j : Nat}
    {e : Entry} (he : e ∈ s.pending j) : e ∈ s'.pending j := by
  cases hs with
  | onNewSdarcAllocated shard | registerWeakInner shard =>
    by_cases hj : j = shard
    · subst hj
      simp [he]
    · simpa [hj] using he
  | _ => exact he

theorem AccountStep.counters_of_unused {t : Nat} {op : Op} (ha : AccountStep cfg s t op s')
    (h : Safe cfg s) (ht : t < cfg.threads) (hp : (s.heap p).stage = .allocated)
    (hun : s.Unused cfg p) :
    s'.counters (s.heap p).countersPtr = s.counters (s.heap p).countersPtr := by
  have hplaces := h.tracking.places
  have hr := h.references
  have hset : ∀ (q shard : Nat) (v : Counter), q ≠ p → (s.heap q).stage = .allocated →
      (s.setCounter (s.heap q).countersPtr shard v).counters (s.heap p).countersPtr =
        s.counters (s.heap p).countersPtr := by
    intro q shard v hqp hq
    have hne : (s.heap p).countersPtr ≠ (s.heap q).countersPtr := fun heq =>
      hqp (hplaces.distinct q p (hplaces.slot q hq) (hplaces.slot p hp) heq.symm)
    simp [hne]
  have howned : ∀ q, 0 < s.owners cfg q → q ≠ p := by
    rintro q hpos rfl
    exact hpos.ne' hun.owners
  cases ha with
  | same _ hcounters | borrow _ _ _ hcounters => rw [hcounters]
  | allocate ptr countersPtr shard data _ hfree _ hcounters =>
    rcases (hfree p (hplaces.lt_nextPointee (by simp [hp]))).1 with hreleased | hne
    · rw [hplaces.slot p hp] at hreleased
      contradiction
    · rw [hcounters]
      simp [hne]
  | increment q shard _ hwhy _ hcounters =>
    rw [hcounters]
    rcases hwhy with hl | he | ⟨x,hc⟩
    · exact hset q shard _ (howned q (hl.trans_le (live_le_owners q))) (hr.allocated_of_live hl)
    · refine hset q shard _ ?_ (hr.allocated_of_entering he)
      rintro rfl
      exact hun.entering t ht he
    · have hw := hr.weak.cloned t x q hc
      have hpos : 0 < s.owners cfg q := weakInner_owned (hr.weak.born (by rw [hw]; simp)) hw
      exact hset q shard _ (howned q hpos) (hr.allocated_of_owned hpos)
  | decrement q shard _ hpc _ hcounters =>
    rw [hcounters]
    have hown := owned_le_owners (s := s) (p := q) ht
    simp only [hpc,ThreadPc.owned,if_true] at hown
    exact hset q shard _ (howned q hown) (hr.allocated_of_owned hown)
  | repay q shard _ howes _ hcounters =>
    rw [hcounters]
    have hpin : (s.threads t).pc.pins q := by
      cases hpc : (s.threads t).pc <;> simp_all [ThreadPc.owes,ThreadPc.pins]
    have hl := hr.handles.pins t q hpin
    exact hset q shard _ (howned q (hl.trans_le (live_le_owners q))) (hr.allocated_of_live hl)

theorem ThreadStep.counter_of_unused {t : Nat} {op : Op} (hsafe : Safe cfg s)
    (ht : t < cfg.threads) (hp : (s.heap p).stage = .allocated) (hun : s.Unused cfg p)
    (hs : ThreadStep cfg s t op s') :
    (s'.heap p).countersPtr = (s.heap p).countersPtr ∧ s'.counter p = s.counter p := by
  have hborn := hsafe.tracking.places.lt_nextPointee (p := p) (by simp [hp])
  obtain ⟨-,hkey,-⟩ := hs.frame (.inl hborn.ne)
  have hcounters := (hsafe.references.accountStep ht hs).counters_of_unused hsafe ht hp hun
  refine ⟨hkey,?_⟩
  funext i
  rw [State.counter,State.counter,hkey,hcounters]

theorem ThreadStep.atRest {t : Nat} {op : Op} (hsafe : Safe cfg s) (ht : t < cfg.threads)
    (hp : (s.heap p).stage = .allocated) (hun : s.Unused cfg p)
    (hs : ThreadStep cfg s t op s') : AtRest s s' p := by
  have hborn := hsafe.tracking.places.lt_nextPointee (p := p) (by simp [hp])
  obtain ⟨hkey,hcounter⟩ := hs.counter_of_unused hsafe ht hp hun
  refine ⟨(hs.frame (.inl hborn.ne)).1,hkey,fun i => by rw [hcounter],
    fun i => by rw [hcounter]; exact id,fun hl => ?_⟩
  rcases hs.linked hsafe.references (.inl hborn.ne) hl with hl | hpos
  · exact hl
  · exact absurd hun.owners hpos.ne'

theorem ThreadStep.lowers {t : Nat} {op : Op} (h : Lowers cfg p n s) (hsafe : Safe cfg s)
    (ht : t < cfg.threads) (hp : (s.heap p).stage = .allocated) (hun : s.Unused cfg p)
    (hs : ThreadStep cfg s t op s') : Lowers cfg p n s' := by
  obtain ⟨hcollector,htracked⟩ := hs.collector
  obtain ⟨hkey,hcounter⟩ := hs.counter_of_unused hsafe ht hp hun
  refine h.keep (hs.atRest hsafe ht hp hun) (by rw [htracked]) ?_ ?_ ?_
    (fun hv => ?_)
  · have hplaced := h.placed
    unfold State.Placed at hplaced ⊢
    rw [hcollector,htracked,hkey]
    split at hplaced
    · trivial
    · rcases hplaced with ⟨j,e,hj,he,hep⟩ | hrest
      · exact .inl ⟨j,e,hj,hs.pending he,hep⟩
      · exact .inr hrest
    · exact hplaced
  · have hunseen := h.unseen
    have hborn := hsafe.tracking.places.lt_nextPointee (p := p) (by simp [hp])
    have hrecords := (SystemStep.thread t op s' ht hs).recordCount_le
    unfold State.Unseen at hunseen ⊢
    rw [hcollector,(hs.frame (.inl hborn.ne)).1]
    split at hunseen
    · exact ⟨hunseen.1.trans hrecords,hunseen.2⟩
    · exact hunseen
    · exact hunseen
    · exact hunseen
    · trivial
  · have hgathering := h.gathering
    unfold State.Gathering at hgathering ⊢
    rwa [hcollector,hkey,hcounter]
  · unfold State.toVisit at hv ⊢
    rwa [hcollector,hkey]

theorem AtRest.refl : AtRest s s p := ⟨rfl,rfl,fun _ => rfl,fun _ => id,id⟩

theorem AtRest.goto (pc : CollectorPc) : AtRest s (s.goto pc) p :=
  ⟨rfl,rfl,fun _ => rfl,fun _ => id,id⟩

theorem AtRest.of_setInner {q : Nat} {x : SdarcInner} (hpq : p ≠ q)
    (hheap : s'.heap = Function.update s.heap q x) (hcounters : s'.counters = s.counters)
    (hdata : x.data = (s.heap q).data) : AtRest s s' p := by
  have hp : s'.heap p = s.heap p := by rw [hheap,Function.update_of_ne hpq]
  have hcounter : ∀ i, s'.counter p i = s.counter p i := fun i => by
    rw [State.counter,State.counter,hp,hcounters]
  refine ⟨by rw [hp],by rw [hp],fun i => by rw [hcounter],fun i => by rw [hcounter]; exact id,?_⟩
  rintro ⟨w,hw,hload⟩
  refine ⟨w,by rw [← hp]; exact hw,?_⟩
  rw [load_backRef,hheap,field_update SdarcInner.data hdata] at hload
  exact load_backRef.mpr hload

theorem AtRest.clearTag (key k : Nat) (pc : CollectorPc) :
    AtRest s ((s.setCounter key k (s.counters key k).clearTag).goto pc) p := by
  have hcounter : ∀ i, (s.setCounter key k (s.counters key k).clearTag).counter p i =
      if (s.heap p).countersPtr = key ∧ i = k then (s.counters key k).clearTag
      else s.counter p i := fun i => counters_setCounter s key k _ _ i
  refine ⟨rfl,rfl,fun i => ?_,fun i htag => ?_,id⟩
  · change ((s.setCounter key k (s.counters key k).clearTag).counter p i).refCount = _
    rw [hcounter]
    split
    · rename_i heq
      rw [State.counter,heq.1,heq.2]
      rfl
    · rfl
  · change ((s.setCounter key k (s.counters key k).clearTag).counter p i).tag = false
    rw [hcounter]
    split
    · rfl
    · exact htag

theorem AtRest.clear (cfg : Config) {w origin : Nat} {backRef : Option Nat}
    (hdata : (s.heap w).data = .weakSdarcInner origin backRef) :
    AtRest s (s.setInner w { s.heap w with data := .weakSdarcInner origin none }) p := by
  have hkey : ((s.setInner w { s.heap w with data := .weakSdarcInner origin none }).heap
      p).countersPtr = (s.heap p).countersPtr := field_update SdarcInner.countersPtr (by rfl) p
  have hmore : NoMore cfg s _ := .clear hdata
  refine ⟨field_update SdarcInner.ptr (by rfl) p,hkey,fun i => ?_,fun i htag => ?_,hmore.linked p⟩
  · rw [State.counter,State.counter,hkey]
    rfl
  · rw [State.counter,hkey]
    exact htag

end Steps

end Sdarc.System
