import Sdarc.Custody
import Sdarc.ShardedAlloc.Maintenance
set_option autoImplicit false

/-!
In every reachable state each unit has one holder and each used slot one owner.
-/

namespace Sdarc.FullShardAlloc
open ShardedAlloc

/-- Who a unit may belong to: the group of a shard, the temporary group, or a call whose
`new_unit` it is. -/
inductive Holder where
  | shard (k : Nat)
  | temp
  | call (c : Nat)
  deriving DecidableEq, Repr

inductive Owner where
  | boxes
  | call (c : Nat)
  deriving DecidableEq, Repr

namespace State

def newUnit (s : State) (c : Nat) : Option Nat := (s.calls c).bind (fun call => call.pc.newUnit)

def owned (s : State) (c : Nat) : Option ShardedDataPtr :=
  (s.calls c).bind (fun call => call.pc.owned)

def heldBy (n : Nat) (s : State) : Holder → List Nat
  | .shard k => if k < n then (s.groups k).allUnits else []
  | .temp => s.tempFillingGroup.allUnits
  | .call c => (s.newUnit c).toList

def ownedBy (s : State) : Owner → List ShardedDataPtr
  | .boxes => s.boxes
  | .call c => (s.owned c).toList

def Grouped (n : Nat) (s : State) (unit : Nat) : Prop :=
  (∃ k, k < n ∧ unit ∈ (s.groups k).allUnits) ∨ unit ∈ s.tempFillingGroup.allUnits

end State

def CollectorPc.shard : CollectorPc → Option Nat
  | .maintaining shard => shard
  | .swappingBack shard => some shard
  | _ => none

def FillingGroup.Scanned (usageFlags : ShardedDataPtr → Bool) : FillingGroup → Prop
  | .retaining _ (unit :: _) _ slot => ∀ i, i < slot → usageFlags ⟨unit,i⟩ = false
  | .dropping _ unit _ _ _ => ∀ i, i < SLOT_COUNT_PER_UNIT → usageFlags ⟨unit,i⟩ = false
  | _ => True

structure Calls (n : Nat) (s : State) : Prop where
  shard_lt : ∀ c call, s.calls c = some call → call.shard < n
  locked : ∀ c call, s.calls c = some call → s.mutexes call.shard = some c
  mutexes : ∀ k c, s.mutexes k = some c → ∃ call, s.calls c = some call ∧ call.shard = k
  inGroup : ∀ c call unit, s.calls c = some call → call.pc.fresh = false →
    call.pc.unit = some unit → unit ∈ (s.groups call.shard).allUnits
  first : ∀ c k unit i, s.calls c = some ⟨k,.claiming unit i true⟩ → i = 0
  slot_lt : ∀ c call ptr, s.calls c = some call → call.pc.owned = some ptr →
    ptr.slot < SLOT_COUNT_PER_UNIT

def Apart (n : Nat) (s : State) : Prop :=
  ∀ u v, s.Exists u → s.Exists v → u ≠ v →
    s.dataPtr u + dataLenInBytes n ≤ s.dataPtr v ∨ s.dataPtr v + dataLenInBytes n ≤ s.dataPtr u

structure Invariant (n : Nat) (s : State) : Prop where
  units : Custody s.Exists (s.heldBy n)
  slots : Custody (fun ptr => s.usageFlags ptr = true) s.ownedBy
  calls : Calls n s
  boxes : ∀ ptr, ptr ∈ s.boxes → ptr.slot < SLOT_COUNT_PER_UNIT ∧ s.Grouped n ptr.unit
  dropping_nodup : s.dropping.Nodup
  dropping : ∀ ptr, ptr ∈ s.dropping → ptr ∈ s.boxes
  scanned : s.tempFillingGroup.Scanned s.usageFlags
  collector : ∀ k, s.collector.shard = some k → k < n
  released_lt : ∀ unit, unit ∈ s.released → unit < s.nextUnit
  apart : Apart n s
  panicked : s.panicked = none

section Facts

variable {n : Nat} {s s' : State} {c : Nat} {call : Call}

theorem CallPc.newUnit_of_owned {pc : CallPc} {ptr : ShardedDataPtr} (h : pc.owned = some ptr) :
    pc.unit = some ptr.unit := by
  cases pc <;> simp_all [CallPc.owned,CallPc.unit]

theorem newUnit_of_call (hc : s.calls c = some call) : s.newUnit c = call.pc.newUnit := by
  rw [State.newUnit,hc,Option.bind_some]

theorem owned_of_call (hc : s.calls c = some call) : s.owned c = call.pc.owned := by
  rw [State.owned,hc,Option.bind_some]

theorem mem_heldBy_of_grouped {unit : Nat} (h : s.Grouped n unit) :
    ∃ g, unit ∈ s.heldBy n g ∧ ∀ c, g ≠ .call c := by
  rcases h with ⟨k,hk,hmem⟩ | hmem
  · exact ⟨.shard k,by simpa [State.heldBy,hk] using hmem,by simp⟩
  · exact ⟨.temp,hmem,by simp⟩

theorem Calls.grouped (h : Calls n s) (hc : s.calls c = some call) {unit : Nat}
    (hfresh : call.pc.fresh = false) (hunit : call.pc.unit = some unit) :
    s.Grouped n unit :=
  .inl ⟨call.shard,h.shard_lt c call hc,h.inGroup c call unit hc hfresh hunit⟩

theorem Invariant.not_grouped (h : Invariant n s) {unit : Nat} (hnew : s.newUnit c = some unit) :
    ¬ s.Grouped n unit := by
  intro hgrouped
  obtain ⟨g,hg,hne⟩ := mem_heldBy_of_grouped hgrouped
  exact hne c (h.units.unique g (.call c) unit hg (by simp [State.heldBy,hnew]))

theorem Invariant.newUnit_unique (h : Invariant n s) {unit c' : Nat}
    (hnew : s.newUnit c = some unit) (hnew' : s.newUnit c' = some unit) : c = c' := by
  have := h.units.unique (.call c) (.call c') unit (by simp [State.heldBy,hnew])
    (by simp [State.heldBy,hnew'])
  simpa using this

theorem Invariant.owner_unit (h : Invariant n s) {ptr : ShardedDataPtr}
    (hused : s.usageFlags ptr = true) :
    ptr.slot < SLOT_COUNT_PER_UNIT ∧
      (s.Grouped n ptr.unit ∨ ∃ c, s.newUnit c = some ptr.unit ∧ s.owned c = some ptr) := by
  obtain ⟨o,ho⟩ := (h.slots.live_iff ptr).mp hused
  cases o with
  | boxes =>
    obtain ⟨hslot,hgrouped⟩ := h.boxes ptr ho
    exact ⟨hslot,.inl hgrouped⟩
  | call c =>
    have howned : s.owned c = some ptr := by simpa [State.ownedBy] using ho
    obtain ⟨call,hc,hptr⟩ := Option.bind_eq_some_iff.mp howned
    have hunit := CallPc.newUnit_of_owned hptr
    refine ⟨h.calls.slot_lt c call ptr hc hptr,?_⟩
    cases hfresh : call.pc.fresh with
    | false => exact .inl (h.calls.grouped hc hfresh hunit)
    | true =>
      refine .inr ⟨c,?_,howned⟩
      simp [State.newUnit,hc,CallPc.newUnit,hfresh,hunit]

theorem Invariant.newUnit_unused (h : Invariant n s) {unit : Nat}
    (hnew : s.newUnit c = some unit) (howned : s.owned c = none) (slot : Nat) :
    s.usageFlags ⟨unit,slot⟩ = false := by
  by_contra hused
  rw [Bool.not_eq_false] at hused
  rcases (h.owner_unit hused).2 with hgrouped | ⟨c',hnew',howned'⟩
  · exact h.not_grouped hnew hgrouped
  · rw [h.newUnit_unique hnew hnew'] at howned
    rw [howned] at howned'
    contradiction

theorem Invariant.unit_notMem_temp (h : Invariant n s) (hc : s.calls c = some call) {unit : Nat}
    (hunit : call.pc.unit = some unit) : unit ∉ s.tempFillingGroup.allUnits := by
  intro hmem
  cases hfresh : call.pc.fresh with
  | true =>
    have hnew : s.newUnit c = some unit := by
      simp [State.newUnit,hc,CallPc.newUnit,hfresh,hunit]
    exact h.not_grouped hnew (.inr hmem)
  | false =>
    have hk := h.calls.shard_lt c call hc
    have hin := h.calls.inGroup c call unit hc hfresh hunit
    have := h.units.unique (.shard call.shard) .temp unit (by simpa [State.heldBy,hk] using hin)
      hmem
    contradiction

theorem Invariant.exists_of_grouped (h : Invariant n s) {unit : Nat}
    (hgrouped : s.Grouped n unit) : s.Exists unit := by
  obtain ⟨g,hg,-⟩ := mem_heldBy_of_grouped hgrouped
  exact h.units.live_of_mem hg

theorem Invariant.exists_of_used (h : Invariant n s) {ptr : ShardedDataPtr}
    (hused : s.usageFlags ptr = true) : s.Exists ptr.unit := by
  rcases (h.owner_unit hused).2 with hgrouped | ⟨c,hnew,-⟩
  · exact h.exists_of_grouped hgrouped
  · exact h.units.live_of_mem (i := .call c) (by simp [State.heldBy,hnew])

end Facts

section Transfer

variable {n : Nat} {s s' : State} {c : Nat} {call call' : Call}

theorem FillingGroup.Scanned.mono {g : FillingGroup} {flags flags' : ShardedDataPtr → Bool}
    (h : g.Scanned flags)
    (hflags : ∀ ptr, ptr.unit ∈ g.allUnits → flags' ptr = true → flags ptr = true) :
    g.Scanned flags' := by
  have hclear : ∀ unit i, unit ∈ g.allUnits → flags ⟨unit,i⟩ = false →
      flags' ⟨unit,i⟩ = false := by
    intro unit i hmem hfalse
    by_contra hne
    have := hflags ⟨unit,i⟩ hmem (by simpa using hne)
    rw [hfalse] at this
    contradiction
  cases g with
  | whole g => trivial
  | listing l slot => trivial
  | retaining kept rest indexes slot =>
    cases rest with
    | nil => trivial
    | cons unit rest =>
      exact fun i hi => hclear unit i (by simp [FillingGroup.allUnits]) (h i hi)
  | dropping kept unit rest indexes slot =>
    exact fun i hi => hclear unit i (by simp [FillingGroup.allUnits]) (h i hi)

theorem Calls.setCall (h : Calls n s) (hc : s.calls c = some call)
    (hcalls : s'.calls = Function.update s.calls c (some call')) (hshard : call'.shard = call.shard)
    (hmutexes : s'.mutexes = s.mutexes)
    (hgroups : ∀ k unit, unit ∈ (s.groups k).allUnits → unit ∈ (s'.groups k).allUnits)
    (hin : call'.pc.fresh = false → ∀ unit, call'.pc.unit = some unit →
      unit ∈ (s.groups call.shard).allUnits)
    (hfirst : ∀ unit i, call'.pc = .claiming unit i true → i = 0)
    (hslot : ∀ ptr, call'.pc.owned = some ptr → ptr.slot < SLOT_COUNT_PER_UNIT) :
    Calls n s' where
  shard_lt d x hd := by
    rw [hcalls] at hd
    by_cases hdc : d = c
    · subst hdc
      obtain rfl : call' = x := by simpa using hd
      exact hshard ▸ h.shard_lt d call hc
    · exact h.shard_lt d x (by simpa [hdc] using hd)
  locked d x hd := by
    rw [hcalls] at hd
    rw [hmutexes]
    by_cases hdc : d = c
    · subst hdc
      obtain rfl : call' = x := by simpa using hd
      exact hshard ▸ h.locked d call hc
    · exact h.locked d x (by simpa [hdc] using hd)
  mutexes k d hk := by
    rw [hmutexes] at hk
    obtain ⟨x,hx,hxk⟩ := h.mutexes k d hk
    by_cases hdc : d = c
    · subst hdc
      obtain rfl : call = x := by simpa [hc] using hx
      exact ⟨call',by simp [hcalls],hshard.trans hxk⟩
    · exact ⟨x,by simpa [hcalls,hdc] using hx,hxk⟩
  inGroup d x unit hd hfresh hunit := by
    rw [hcalls] at hd
    by_cases hdc : d = c
    · subst hdc
      obtain rfl : call' = x := by simpa using hd
      exact hgroups _ _ (hshard ▸ hin hfresh unit hunit)
    · exact hgroups _ _ (h.inGroup d x unit (by simpa [hdc] using hd) hfresh hunit)
  first d k unit i hd := by
    rw [hcalls] at hd
    by_cases hdc : d = c
    · subst hdc
      obtain rfl : call' = ⟨k,.claiming unit i true⟩ := by simpa using hd
      exact hfirst unit i rfl
    · exact h.first d k unit i (by simpa [hdc] using hd)
  slot_lt d x ptr hd hptr := by
    rw [hcalls] at hd
    by_cases hdc : d = c
    · subst hdc
      obtain rfl : call' = x := by simpa using hd
      exact hslot ptr hptr
    · exact h.slot_lt d x ptr (by simpa [hdc] using hd) hptr

theorem Calls.endCall (h : Calls n s) (hc : s.calls c = some call)
    (hcalls : s'.calls = Function.update s.calls c none)
    (hmutexes : s'.mutexes = Function.update s.mutexes call.shard none)
    (hgroups : ∀ k unit, unit ∈ (s.groups k).allUnits → unit ∈ (s'.groups k).allUnits) :
    Calls n s' := by
  have hold : ∀ d x, s'.calls d = some x → s.calls d = some x ∧ x.shard ≠ call.shard := by
    intro d x hd
    rw [hcalls] at hd
    by_cases hdc : d = c
    · subst hdc
      simp at hd
    · have hd' : s.calls d = some x := by simpa [hdc] using hd
      refine ⟨hd',fun hshard => hdc ?_⟩
      have := h.locked d x hd'
      rw [hshard,h.locked c call hc] at this
      exact (Option.some.inj this).symm
  refine ⟨fun d x hd => ?_,fun d x hd => ?_,fun k d hk => ?_,fun d x unit hd hfresh hunit => ?_,
    fun d k unit i hd => ?_,fun d x ptr hd hptr => ?_⟩
  · exact h.shard_lt d x (hold d x hd).1
  · obtain ⟨hd',hne⟩ := hold d x hd
    rw [hmutexes,Function.update_of_ne hne]
    exact h.locked d x hd'
  · rw [hmutexes] at hk
    by_cases hkc : k = call.shard
    · subst hkc
      simp at hk
    · rw [Function.update_of_ne hkc] at hk
      obtain ⟨x,hx,hxk⟩ := h.mutexes k d hk
      have hdc : d ≠ c := by
        rintro rfl
        rw [hc] at hx
        exact hkc (hxk ▸ (congrArg Call.shard (Option.some.inj hx)).symm)
      exact ⟨x,by rw [hcalls,Function.update_of_ne hdc,hx],hxk⟩
  · exact hgroups _ _ (h.inGroup d x unit (hold d x hd).1 hfresh hunit)
  · exact h.first d k unit i (hold d _ hd).1
  · exact h.slot_lt d x ptr (hold d x hd).1 hptr

theorem Calls.lock (h : Calls n s) {k : Nat} (hk : k < n) (hc : s.calls c = none)
    (hfree : s.mutexes k = none)
    (hcalls : s'.calls = Function.update s.calls c (some ⟨k,.looping⟩))
    (hmutexes : s'.mutexes = Function.update s.mutexes k (some c)) (hgroups : s'.groups = s.groups) :
    Calls n s' := by
  have hcases : ∀ d x, s'.calls d = some x → (d = c ∧ x = ⟨k,.looping⟩) ∨ s.calls d = some x := by
    intro d x hd
    rw [hcalls] at hd
    by_cases hdc : d = c
    · subst hdc
      exact .inl ⟨rfl,by simpa using hd.symm⟩
    · exact .inr (by simpa [hdc] using hd)
  refine ⟨fun d x hd => ?_,fun d x hd => ?_,fun l d hl => ?_,fun d x unit hd hfresh hunit => ?_,
    fun d l unit i hd => ?_,fun d x ptr hd hptr => ?_⟩
  · rcases hcases d x hd with ⟨rfl,rfl⟩ | hd
    · exact hk
    · exact h.shard_lt d x hd
  · rcases hcases d x hd with ⟨rfl,rfl⟩ | hd
    · simp [hmutexes]
    · have hlocked := h.locked d x hd
      have hne : x.shard ≠ k := by
        rintro rfl
        rw [hfree] at hlocked
        contradiction
      rw [hmutexes,Function.update_of_ne hne,hlocked]
  · rw [hmutexes] at hl
    by_cases hlk : l = k
    · subst hlk
      obtain rfl : c = d := by simpa using hl
      exact ⟨⟨l,.looping⟩,by simp [hcalls],rfl⟩
    · rw [Function.update_of_ne hlk] at hl
      obtain ⟨x,hx,hxl⟩ := h.mutexes l d hl
      have hdc : d ≠ c := by
        rintro rfl
        rw [hc] at hx
        contradiction
      exact ⟨x,by rw [hcalls,Function.update_of_ne hdc,hx],hxl⟩
  · rcases hcases d x hd with ⟨rfl,rfl⟩ | hd
    · simp [CallPc.unit] at hunit
    · exact hgroups ▸ h.inGroup d x unit hd hfresh hunit
  · rcases hcases d _ hd with ⟨-,hx⟩ | hd
    · simp at hx
    · exact h.first d l unit i hd
  · rcases hcases d x hd with ⟨rfl,rfl⟩ | hd
    · simp [CallPc.owned] at hptr
    · exact h.slot_lt d x ptr hd hptr

theorem Calls.congr (h : Calls n s) (hcalls : s'.calls = s.calls) (hmutexes : s'.mutexes = s.mutexes)
    (hgroups : ∀ k, s.mutexes k ≠ none → s'.groups k = s.groups k) : Calls n s' := by
  refine ⟨?_,?_,?_,fun d x unit hd hfresh hunit => ?_,?_,?_⟩
  · exact hcalls ▸ h.shard_lt
  · exact hcalls ▸ hmutexes ▸ h.locked
  · exact hcalls ▸ hmutexes ▸ h.mutexes
  · rw [hcalls] at hd
    rw [hgroups x.shard (by simp [h.locked d x hd])]
    exact h.inGroup d x unit hd hfresh hunit
  · exact hcalls ▸ h.first
  · exact hcalls ▸ h.slot_lt

end Transfer

end Sdarc.FullShardAlloc
