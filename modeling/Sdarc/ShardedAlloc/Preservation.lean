import Sdarc.ShardedAlloc.Holders
set_option autoImplicit false

/-!
Each step leaves the holders of the units and the owners of the slots in order.
-/

namespace Sdarc.FullShardAlloc
open ShardedAlloc

variable {n : Nat} {s s' : State} {c : Nat} {call call' : Call}

section Calls

theorem newUnit_update {x : Option Call} (hcalls : s'.calls = Function.update s.calls c x)
    (d : Nat) : s'.newUnit d =
      if d = c then x.bind (fun call => call.pc.newUnit) else s.newUnit d := by
  simp only [State.newUnit,hcalls]
  by_cases hd : d = c
  · simp [hd]
  · simp [hd]

theorem owned_update {x : Option Call} (hcalls : s'.calls = Function.update s.calls c x)
    (d : Nat) : s'.owned d =
      if d = c then x.bind (fun call => call.pc.owned) else s.owned d := by
  simp only [State.owned,hcalls]
  by_cases hd : d = c
  · simp [hd]
  · simp [hd]

theorem heldBy_congr (hgroups : ∀ k, (s'.groups k).allUnits = (s.groups k).allUnits)
    (htemp : s'.tempFillingGroup.allUnits = s.tempFillingGroup.allUnits)
    (hnew : ∀ d, s'.newUnit d = s.newUnit d) (g : Holder) : s'.heldBy n g = s.heldBy n g := by
  cases g with
  | shard k => simp [State.heldBy,hgroups]
  | temp => exact htemp
  | call d => simp [State.heldBy,hnew]

theorem ownedBy_congr (hboxes : s'.boxes = s.boxes) (howned : ∀ d, s'.owned d = s.owned d)
    (o : Owner) : s'.ownedBy o = s.ownedBy o := by
  cases o with
  | boxes => exact hboxes
  | call d => simp [State.ownedBy,howned]

theorem Invariant.callStep (h : Invariant n s) {flags : ShardedDataPtr → Bool}
    {calls : Nat → Option Call} {mutexes : Nat → Option Nat}
    (hs : s' = { s with usageFlags := flags, calls := calls, mutexes := mutexes })
    (hnew : ∀ d, s'.newUnit d = s.newUnit d)
    (hslots : Custody (fun ptr => s'.usageFlags ptr = true) s'.ownedBy) (hcalls : Calls n s')
    (hscanned : s.tempFillingGroup.Scanned flags) : Invariant n s' := by
  have hgroups : ∀ k, (s'.groups k).allUnits = (s.groups k).allUnits := by
    rw [hs]
    exact fun _ => rfl
  have htemp : s'.tempFillingGroup = s.tempFillingGroup := by rw [hs]
  have hexists : ∀ u, s'.Exists u ↔ s.Exists u := by
    rw [hs]
    exact fun _ => Iff.rfl
  refine ⟨h.units.congr (heldBy_congr hgroups (by rw [htemp]) hnew) hexists,hslots,hcalls,
    ?_,?_,?_,?_,?_,?_,?_,?_⟩ <;> subst hs
  · exact h.boxes
  · exact h.dropping_nodup
  · exact h.dropping
  · exact hscanned
  · exact h.collector
  · exact h.released_lt
  · exact h.apart
  · exact h.panicked

theorem Invariant.sameSlots (h : Invariant n s) (hflags : s'.usageFlags = s.usageFlags)
    (hboxes : s'.boxes = s.boxes) (howned : ∀ d, s'.owned d = s.owned d) :
    Custody (fun ptr => s'.usageFlags ptr = true) s'.ownedBy :=
  h.slots.congr (ownedBy_congr hboxes howned) (fun ptr => by rw [hflags])

theorem Invariant.setCall (h : Invariant n s) (hc : s.calls c = some call)
    (hshard : call'.shard = call.shard) (hnew : call'.pc.newUnit = call.pc.newUnit)
    (howned : call'.pc.owned = call.pc.owned)
    (hin : call'.pc.fresh = false → ∀ unit, call'.pc.unit = some unit →
      unit ∈ (s.groups call.shard).allUnits)
    (hfirst : ∀ unit i, call'.pc = .claiming unit i true → i = 0) :
    Invariant n (s.setCall c call') := by
  refine h.callStep rfl (fun d => ?_) (h.sameSlots rfl rfl (fun d => ?_))
    (h.calls.setCall hc rfl hshard rfl (fun _ _ => id) hin hfirst
      (fun ptr hptr => h.calls.slot_lt c call ptr hc (howned ▸ hptr))) h.scanned
  · rw [newUnit_update (s := s) rfl]
    split_ifs with hd
    · rw [hd,newUnit_of_call hc]
      exact hnew
    · rfl
  · rw [owned_update (s := s) rfl]
    split_ifs with hd
    · rw [hd,owned_of_call hc]
      exact howned
    · rfl

theorem Invariant.setGroup (h : Invariant n s) {k : Nat} {g : AllocUnitGroup}
    (hg : g.allUnits = (s.groups k).allUnits) : Invariant n (s.setGroup k g) := by
  have hgroups : ∀ l, ((s.setGroup k g).groups l).allUnits = (s.groups l).allUnits := by
    intro l
    by_cases hl : l = k
    · simp [State.setGroup,hl,hg]
    · simp [State.setGroup,hl]
  refine ⟨h.units.congr (heldBy_congr hgroups rfl (fun _ => rfl)) (fun _ => Iff.rfl),
    h.slots.congr (fun o => by cases o <;> rfl) (fun _ => Iff.rfl),?_,?_,h.dropping_nodup,
    h.dropping,h.scanned,h.collector,h.released_lt,h.apart,h.panicked⟩
  · refine ⟨h.calls.shard_lt,h.calls.locked,h.calls.mutexes,fun d x unit hd hfresh hunit => ?_,
      h.calls.first,h.calls.slot_lt⟩
    rw [hgroups]
    exact h.calls.inGroup d x unit hd hfresh hunit
  · intro ptr hptr
    obtain ⟨hslot,hgrouped⟩ := h.boxes ptr hptr
    refine ⟨hslot,hgrouped.imp (fun ⟨l,hl,hmem⟩ => ⟨l,hl,?_⟩) id⟩
    rw [hgroups]
    exact hmem

end Calls

section Allocate

theorem Invariant.lock (h : Invariant n s) {k : Nat} (hs : s.lock n c k = some s') :
    Invariant n s' := by
  simp only [State.lock,Option.ite_none_right_eq_some,Option.some.injEq] at hs
  obtain ⟨⟨hk,hc,hfree⟩,rfl⟩ := hs
  refine h.callStep rfl (fun d => ?_) (h.sameSlots rfl rfl (fun d => ?_))
    (h.calls.lock hk hc hfree rfl rfl rfl) h.scanned
  · rw [newUnit_update (s := s) (c := c) rfl]
    split_ifs with hd
    · rw [hd,State.newUnit,hc]
      rfl
    · rfl
  · rw [owned_update (s := s) (c := c) rfl]
    split_ifs with hd
    · rw [hd,State.owned,hc]
      rfl
    · rfl

theorem mem_allUnits_of_unitToCheck {g : AllocUnitGroup} {unit : Nat}
    (h : g.unitToCheck = some unit) : unit ∈ g.allUnits := by
  unfold AllocUnitGroup.unitToCheck at h
  split at h
  · contradiction
  · rw [← Option.some.inj h]
    exact List.get_mem _ _

theorem Invariant.nextUnit_unused (h : Invariant n s) {ptr : ShardedDataPtr}
    (hptr : ptr.unit = s.nextUnit) : s.usageFlags ptr = false := by
  by_contra hused
  have := (h.exists_of_used (by simpa using hused)).1
  omega

theorem Invariant.newUnit (h : Invariant n s) {k address : Nat}
    (hc : s.calls c = some ⟨k,.looping⟩) (haddress : s.MayAlloc n address)
    (hs : s' = { s.setCall c ⟨k,.claiming s.nextUnit 0 true⟩ with
      usageFlags := fun ptr => if ptr.unit = s.nextUnit then false else s.usageFlags ptr
      dataPtr := Function.update s.dataPtr s.nextUnit address
      nextUnit := s.nextUnit + 1 }) : Invariant n s' := by
  have hcalls : s'.calls = Function.update s.calls c (some ⟨k,.claiming s.nextUnit 0 true⟩) := by
    rw [hs]
    rfl
  have hflags : ∀ ptr, s'.usageFlags ptr = s.usageFlags ptr := by
    intro ptr
    by_cases hptr : ptr.unit = s.nextUnit
    · simp [hs,hptr,h.nextUnit_unused hptr]
    · simp [hs,hptr,State.setCall]
  have hexists : ∀ u, s'.Exists u ↔ u = s.nextUnit ∨ s.Exists u := by
    intro u
    simp only [State.Exists,hs,State.setCall]
    constructor
    · rintro ⟨hlt,hnot⟩
      rcases Nat.lt_succ_iff_lt_or_eq.mp hlt with hlt | rfl
      · exact .inr ⟨hlt,hnot⟩
      · exact .inl rfl
    · rintro (rfl | ⟨hlt,hnot⟩)
      · exact ⟨Nat.lt_succ_self _,fun hmem => Nat.lt_irrefl _ (h.released_lt _ hmem)⟩
      · exact ⟨Nat.lt_succ_of_lt hlt,hnot⟩
  have hnew : ∀ d, s'.newUnit d = if d = c then some s.nextUnit else s.newUnit d := by
    intro d
    rw [newUnit_update hcalls]
    rfl
  have hnone : s.newUnit c = none := newUnit_of_call hc
  have howned : ∀ d, s'.owned d = s.owned d := by
    intro d
    rw [owned_update hcalls]
    split_ifs with hd
    · rw [hd,owned_of_call hc]
      rfl
    · rfl
  have hdataPtr : ∀ u, u ≠ s.nextUnit → s'.dataPtr u = s.dataPtr u := by
    intro u hu
    simp [hs,hu]
  refine ⟨?_,?_,?_,?_,?_,?_,?_,?_,?_,?_,?_⟩
  · refine h.units.add (i := .call c) (x := s.nextUnit) (fun hex => Nat.lt_irrefl _ hex.1) ?_
      (fun g hg => ?_) hexists
    · simp [State.heldBy,hnew,hnone]
    · cases g with
      | shard l => simp [State.heldBy,hs,State.setCall]
      | temp => simp [State.heldBy,hs,State.setCall]
      | call d =>
        have hd : d ≠ c := fun hd => hg (hd ▸ rfl)
        simp [State.heldBy,hnew,hd]
  · refine h.slots.congr (ownedBy_congr (by rw [hs]; rfl) howned) (fun ptr => ?_)
    rw [hflags]
  · refine h.calls.setCall hc hcalls rfl (by rw [hs]; rfl) (by rw [hs]; exact fun _ _ => id)
      (by simp [CallPc.fresh]) (fun unit i hpc => ?_) (by simp [CallPc.owned])
    simp only [CallPc.claiming.injEq] at hpc
    exact hpc.2.1.symm
  · rw [hs]
    exact h.boxes
  · rw [hs]
    exact h.dropping_nodup
  · rw [hs]
    exact h.dropping
  · have htemp : s'.tempFillingGroup = s.tempFillingGroup := by
      rw [hs]
      rfl
    rw [htemp]
    exact h.scanned.mono (fun ptr _ => by rw [hflags]; exact id)
  · rw [hs]
    exact h.collector
  · rw [hs]
    exact fun unit hmem => Nat.lt_succ_of_lt (h.released_lt unit hmem)
  · have hself : s'.dataPtr s.nextUnit = address := by simp [hs]
    intro u v hu hv huv
    rcases (hexists u).mp hu with rfl | hu <;> rcases (hexists v).mp hv with rfl | hv
    · exact absurd rfl huv
    · rw [hself,hdataPtr v hv.1.ne]
      exact haddress.2.2 v hv.1 hv.2
    · rw [hself,hdataPtr u hu.1.ne]
      exact (haddress.2.2 u hu.1 hu.2).symm
    · rw [hdataPtr u hu.1.ne,hdataPtr v hv.1.ne]
      exact h.apart u v hu hv huv
  · rw [hs]
    exact h.panicked

theorem Invariant.checkUnits (h : Invariant n s) {address : Nat}
    (hs : s.checkUnits n c address = some s') : Invariant n s' := by
  unfold State.checkUnits at hs
  split at hs
  · rename_i k hc
    split at hs
    · rename_i unit hunit
      obtain rfl := Option.some.inj hs
      refine h.setCall hc rfl rfl rfl (fun _ u hu => ?_) (by simp)
      obtain rfl : unit = u := by simpa [CallPc.unit] using hu
      exact mem_allUnits_of_unitToCheck hunit
    · split_ifs at hs with haddress
      exact h.newUnit hc haddress (Option.some.inj hs).symm
  · contradiction

theorem Invariant.claim (h : Invariant n s) {k unit slot : Nat} {fresh : Bool}
    (hc : s.calls c = some ⟨k,.claiming unit slot fresh⟩) (hslot : slot < SLOT_COUNT_PER_UNIT)
    (hfree : s.usageFlags ⟨unit,slot⟩ = false)
    (hs : s' = (s.setFlag ⟨unit,slot⟩ true).setCall c ⟨k,.initializing ⟨unit,slot⟩ 0 fresh⟩) :
    Invariant n s' := by
  have hcalls : s'.calls =
      Function.update s.calls c (some ⟨k,.initializing ⟨unit,slot⟩ 0 fresh⟩) := by
    rw [hs]
    rfl
  have hflags : ∀ ptr, Function.update s.usageFlags ⟨unit,slot⟩ true ptr = true ↔
      ptr = ⟨unit,slot⟩ ∨ s.usageFlags ptr = true := by
    intro ptr
    by_cases hptr : ptr = ⟨unit,slot⟩
    · simp [hptr]
    · simp [hptr]
  have howned : ∀ d, s'.owned d = if d = c then some ⟨unit,slot⟩ else s.owned d := by
    intro d
    rw [owned_update hcalls]
    rfl
  have hnone : s.owned c = none := owned_of_call hc
  have hnotTemp : unit ∉ s.tempFillingGroup.allUnits := h.unit_notMem_temp hc rfl
  refine h.callStep hs (fun d => ?_) ?_ ?_ ?_
  · rw [newUnit_update hcalls]
    split_ifs with hd
    · rw [hd,newUnit_of_call hc]
      rfl
    · rfl
  · refine h.slots.add (i := .call c) (x := ⟨unit,slot⟩) (by simp [hfree]) ?_ (fun o ho => ?_)
      (by rw [hs]; exact hflags)
    · simp [State.ownedBy,howned,hnone]
    · cases o with
      | boxes =>
        rw [hs]
        rfl
      | call d =>
        have hd : d ≠ c := fun hd => ho (hd ▸ rfl)
        simp [State.ownedBy,howned,hd]
  · refine h.calls.setCall hc hcalls rfl (by rw [hs]; rfl) (by rw [hs]; exact fun _ _ => id)
      (fun hfresh u hu => h.calls.inGroup c _ u hc hfresh hu) (by simp) (fun ptr hptr => ?_)
    obtain rfl : ⟨unit,slot⟩ = ptr := by simpa [CallPc.owned] using hptr
    exact hslot
  · refine h.scanned.mono (fun ptr hmem hused => ((hflags ptr).mp hused).resolve_left ?_)
    rintro rfl
    exact hnotTemp hmem

theorem Invariant.swapUsageFlag (h : Invariant n s) (hs : s.swapUsageFlag c = some s') :
    Invariant n s' := by
  unfold State.swapUsageFlag at hs
  split at hs
  · rename_i k unit slot fresh hc
    have hunused : fresh = true → s.usageFlags ⟨unit,slot⟩ = false := by
      rintro rfl
      exact h.newUnit_unused (newUnit_of_call hc) (owned_of_call hc) slot
    split_ifs at hs with hslot hused hfresh
    · -- A used flag is set again: the slot stays with its owner.
      obtain rfl := Option.some.inj hs
      have hsame : s.setFlag ⟨unit,slot⟩ true = s := by
        rw [State.setFlag,← hused,Function.update_eq_self]
      rw [hsame]
      refine h.setCall hc rfl rfl rfl (fun hf u hu => h.calls.inGroup c _ u hc hf hu) ?_
      rintro u i hpc
      simp only [CallPc.claiming.injEq] at hpc
      rw [hunused hpc.2.2] at hused
      contradiction
    · exact h.claim hc hslot (by simpa using hused) (Option.some.inj hs).symm
    · -- A new unit has a free slot, the first.
      subst hfresh
      rw [h.calls.first c k unit slot hc] at hslot
      exact absurd (by decide) hslot
    · obtain rfl := Option.some.inj hs
      simp only [Bool.not_eq_true] at hfresh
      subst hfresh
      have hskip := h.setGroup (k := k) (g := (s.groups k).skipFirst) rfl
      exact hskip.setCall hc rfl rfl rfl (fun _ u hu => by simp [CallPc.unit] at hu) (by simp)
  · contradiction

theorem Invariant.initFunc (h : Invariant n s) {panics : Bool}
    (hs : s.initFunc n c panics = some s') : Invariant n s' := by
  unfold State.initFunc at hs
  split at hs
  · rename_i k ptr j fresh hc
    split_ifs at hs with hj hpanics
    all_goals
      obtain rfl := Option.some.inj hs
      exact h.setCall hc rfl rfl rfl (fun hf u hu => h.calls.inGroup c _ u hc hf hu) (by simp)
  · contradiction

theorem Grouped.mono {unit : Nat} (h : s.Grouped n unit)
    (hgroups : ∀ k u, u ∈ (s.groups k).allUnits → u ∈ (s'.groups k).allUnits)
    (htemp : s'.tempFillingGroup.allUnits = s.tempFillingGroup.allUnits) :
    s'.Grouped n unit :=
  h.imp (fun ⟨k,hk,hmem⟩ => ⟨k,hk,hgroups k unit hmem⟩) (fun hmem => htemp ▸ hmem)

theorem Invariant.returnPtr (h : Invariant n s) (hs : s.returnPtr n c = some s') :
    Invariant n s' := by
  unfold State.returnPtr at hs
  split at hs
  · rename_i k ptr j fresh hc
    have hj : ¬ j < n := fun hj => by simp [hj] at hs
    rw [if_neg hj] at hs
    replace hs := (Option.some.inj hs).symm
    have hk := h.calls.shard_lt c _ hc
    have hcalls : s'.calls = Function.update s.calls c none := by
      rw [hs]
      rfl
    have hgroup : ∀ l, (s'.groups l).allUnits =
        if l = k ∧ fresh = true then (s.groups l).allUnits ++ [ptr.unit]
        else (s.groups l).allUnits := by
      intro l
      by_cases hl : l = k
      · subst hl
        cases fresh <;> simp [hs,State.endCall,State.setGroup,AllocUnitGroup.pushUnit]
      · simp [hs,State.endCall,State.setGroup,hl]
    have hgrow : ∀ l u, u ∈ (s.groups l).allUnits → u ∈ (s'.groups l).allUnits := by
      intro l u hmem
      rw [hgroup]
      split_ifs
      · exact List.mem_append_left _ hmem
      · exact hmem
    have hnew : ∀ d, s'.newUnit d = if d = c then none else s.newUnit d := by
      intro d
      rw [newUnit_update hcalls]
      rfl
    have howned : ∀ d, s'.owned d = if d = c then none else s.owned d := by
      intro d
      rw [owned_update hcalls]
      rfl
    have hownedc : s.owned c = some ptr := owned_of_call hc
    have htemp : s'.tempFillingGroup = s.tempFillingGroup := by
      rw [hs]
      rfl
    have hin : ptr.unit ∈ (s'.groups k).allUnits := by
      cases hfresh : fresh with
      | true => simp [hgroup,hfresh]
      | false => exact hgrow k _ (h.calls.inGroup c _ ptr.unit hc hfresh rfl)
    refine ⟨?_,?_,?_,?_,by rw [hs]; exact h.dropping_nodup,?_,by rw [hs]; exact h.scanned,
      by rw [hs]; exact h.collector,by rw [hs]; exact h.released_lt,by rw [hs]; exact h.apart,
      by rw [hs]; exact h.panicked⟩
    · have hexists : ∀ u, s'.Exists u ↔ s.Exists u := by
        rw [hs]
        exact fun _ => Iff.rfl
      cases hfresh : fresh with
      | true =>
        have hnewc : s.newUnit c = some ptr.unit := by
          rw [newUnit_of_call hc,hfresh]
          rfl
        refine h.units.move (i := .call c) (j := .shard k) (x := ptr.unit) (by simp) ?_ ?_
          (fun g hgc hgk => ?_) hexists
        · simp [State.heldBy,hnew,hnewc]
        · simp [State.heldBy,hgroup,hfresh,show k < n from hk]
        · cases g with
          | shard l =>
            have hl : l ≠ k := fun hl => hgk (hl ▸ rfl)
            simp [State.heldBy,hgroup,hl]
          | temp => simp [State.heldBy,htemp]
          | call d =>
            have hd : d ≠ c := fun hd => hgc (hd ▸ rfl)
            simp [State.heldBy,hnew,hd]
      | false =>
        refine h.units.congr (heldBy_congr (by simp [hgroup,hfresh]) (by rw [htemp]) (fun d => ?_))
          hexists
        rw [hnew]
        split_ifs with hd
        · rw [hd,newUnit_of_call hc,hfresh]
          rfl
        · rfl
    · refine h.slots.move (i := .call c) (j := .boxes) (x := ptr) (by simp) ?_ ?_
        (fun o hoc hob => ?_) (by rw [hs]; exact fun _ => Iff.rfl)
      · simp [State.ownedBy,howned,hownedc]
      · rw [hs]
        rfl
      · cases o with
        | boxes => exact absurd rfl hob
        | call d =>
          have hd : d ≠ c := fun hd => hoc (hd ▸ rfl)
          simp [State.ownedBy,howned,hd]
    · exact h.calls.endCall hc hcalls (by rw [hs]; rfl) hgrow
    · intro p hp
      rw [hs] at hp
      rcases List.mem_cons.mp hp with rfl | hp
      · exact ⟨h.calls.slot_lt c _ p hc rfl,.inl ⟨k,hk,hin⟩⟩
      · obtain ⟨hslot,hgrouped⟩ := h.boxes p hp
        exact ⟨hslot,Grouped.mono hgrouped hgrow (by rw [htemp])⟩
    · rw [hs]
      exact fun p hp => List.mem_cons_of_mem _ (h.dropping p hp)
  · contradiction

end Allocate

section GiveBack

theorem clear_iff {flags : ShardedDataPtr → Bool} {ptr : ShardedDataPtr} (p : ShardedDataPtr) :
    Function.update flags ptr false p = true ↔ flags p = true ∧ p ≠ ptr := by
  by_cases hp : p = ptr
  · simp [hp]
  · simp [hp]

theorem Invariant.giveBack (h : Invariant n s) (hc : s.calls c = some call)
    {ptr : ShardedDataPtr} {x : Option Call} {mutexes : Nat → Option Nat}
    (howned : call.pc.owned = some ptr)
    (hnew : x.bind (fun call => call.pc.newUnit) = call.pc.newUnit)
    (hnone : x.bind (fun call => call.pc.owned) = none)
    (hs : s' = { s.setFlag ptr false with
      calls := Function.update s.calls c x, mutexes := mutexes })
    (hcalls : Calls n s') : Invariant n s' := by
  have hupdate : s'.calls = Function.update s.calls c x := by rw [hs]
  have howned' : ∀ d, s'.owned d = if d = c then none else s.owned d := by
    intro d
    rw [owned_update hupdate,hnone]
  refine h.callStep hs (fun d => ?_) ?_ hcalls
    (h.scanned.mono (fun p _ hp => ((clear_iff p).mp hp).1))
  · rw [newUnit_update hupdate]
    split_ifs with hd
    · rw [hd,newUnit_of_call hc,hnew]
    · rfl
  · refine h.slots.remove (i := .call c) (x := ptr) ?_ (fun o ho => ?_)
      (by rw [hs]; exact clear_iff)
    · simp [State.ownedBy,howned',owned_of_call hc,howned]
    · cases o with
      | boxes =>
        rw [hs]
        rfl
      | call d =>
        have hd : d ≠ c := fun hd => ho (hd ▸ rfl)
        simp [State.ownedBy,howned',hd]

theorem Invariant.unwindGuard (h : Invariant n s) (hs : s.unwindGuard c = some s') :
    Invariant n s' := by
  unfold State.unwindGuard at hs
  split at hs
  · rename_i k ptr fresh hc
    have hused : s.usageFlags ptr = true :=
      h.slots.live_of_mem (i := .call c) (by simp [State.ownedBy,owned_of_call hc,CallPc.owned])
    rw [if_pos hused] at hs
    cases fresh with
    | true =>
      obtain rfl := Option.some.inj hs
      exact h.giveBack hc rfl rfl rfl rfl
        (h.calls.setCall hc rfl rfl rfl (fun _ _ => id) (by simp [CallPc.fresh]) (by simp)
          (by simp [CallPc.owned]))
    | false =>
      obtain rfl := Option.some.inj hs
      exact h.giveBack hc rfl rfl rfl rfl (h.calls.endCall hc rfl rfl (fun _ _ => id))
  · contradiction

theorem Invariant.dropNewUnit (h : Invariant n s) (hs : s.dropNewUnit c = some s') :
    Invariant n s' := by
  unfold State.dropNewUnit at hs
  split at hs
  · rename_i k unit slot hc
    have hnew : s.newUnit c = some unit := newUnit_of_call hc
    have howned : s.owned c = none := owned_of_call hc
    have hunused := h.newUnit_unused hnew howned slot
    split_ifs at hs with hslot hused
    · rw [hunused] at hused
      contradiction
    · obtain rfl := Option.some.inj hs
      exact h.setCall hc rfl rfl rfl (fun hf u hu => h.calls.inGroup c _ u hc hf hu) (by simp)
    · obtain rfl := Option.some.inj hs
      have hexists : s.Exists unit :=
        h.units.live_of_mem (i := .call c) (by simp [State.heldBy,hnew])
      refine ⟨h.units.remove (i := .call c) (x := unit) ?_ (fun g hg => ?_) (fun u => ?_),
        h.slots.congr (ownedBy_congr rfl (fun d => ?_)) (fun _ => Iff.rfl),
        h.calls.endCall hc rfl rfl (fun _ _ => id),h.boxes,h.dropping_nodup,h.dropping,h.scanned,
        h.collector,?_,?_,h.panicked⟩
      · have hafter : (s.endCall c k).newUnit c = none := by
          simp [State.newUnit,State.endCall]
        change (s.newUnit c).toList.Perm (unit :: ((s.endCall c k).newUnit c).toList)
        rw [hnew,hafter]
        exact List.Perm.refl _
      · cases g with
        | shard l => rfl
        | temp => rfl
        | call d =>
          have hd : d ≠ c := fun hd => hg (hd ▸ rfl)
          simp [State.heldBy,State.newUnit,State.endCall,hd]
      · simp only [State.Exists,State.endCall,List.mem_cons,not_or]
        tauto
      · rw [owned_update (s := s) rfl]
        split_ifs with hd
        · rw [hd,howned]
          rfl
        · rfl
      · intro u hu
        rcases List.mem_cons.mp hu with rfl | hu
        · exact hexists.1
        · exact h.released_lt u hu
      · exact fun u v hu hv => h.apart u v ⟨hu.1,fun hmem => hu.2 (List.mem_cons_of_mem _ hmem)⟩
          ⟨hv.1,fun hmem => hv.2 (List.mem_cons_of_mem _ hmem)⟩
  · contradiction

theorem Invariant.dropBox (h : Invariant n s) {ptr : ShardedDataPtr}
    (hs : s.dropBox ptr = some s') : Invariant n s' := by
  simp only [State.dropBox,Option.ite_none_right_eq_some,Option.some.injEq] at hs
  obtain ⟨⟨hbox,hnot⟩,rfl⟩ := hs
  refine ⟨h.units.congr (heldBy_congr (fun _ => rfl) rfl (fun _ => rfl)) (fun _ => Iff.rfl),
    h.slots.congr (ownedBy_congr rfl (fun _ => rfl)) (fun _ => Iff.rfl),
    h.calls.congr rfl rfl (fun _ _ => rfl),h.boxes,List.nodup_cons.mpr ⟨hnot,h.dropping_nodup⟩,
    fun p hp => ?_,h.scanned,h.collector,h.released_lt,h.apart,h.panicked⟩
  rcases List.mem_cons.mp hp with rfl | hp
  · exact hbox
  · exact h.dropping p hp

theorem Invariant.deallocateWithoutDropping (h : Invariant n s) {ptr : ShardedDataPtr}
    (hs : s.deallocateWithoutDropping ptr = some s') : Invariant n s' := by
  simp only [State.deallocateWithoutDropping] at hs
  split_ifs at hs with hdropping hused
  · obtain rfl := Option.some.inj hs
    have hbox := h.dropping ptr hdropping
    have hnodup : s.boxes.Nodup := h.slots.nodup .boxes
    refine ⟨h.units.congr (heldBy_congr (fun _ => rfl) rfl (fun _ => rfl)) (fun _ => Iff.rfl),
      h.slots.remove (i := .boxes) (x := ptr) (List.perm_cons_erase hbox) (fun o ho => ?_) clear_iff,
      h.calls.congr rfl rfl (fun _ _ => rfl),fun p hp => h.boxes p (List.mem_of_mem_erase hp),
      h.dropping_nodup.erase ptr,fun p hp => ?_,
      h.scanned.mono (fun p _ hp => ((clear_iff p).mp hp).1),h.collector,h.released_lt,h.apart,
      h.panicked⟩
    · cases o with
      | boxes => exact absurd rfl ho
      | call d => rfl
    · obtain ⟨hne,hp⟩ := (h.dropping_nodup.mem_erase_iff).mp hp
      exact (hnodup.mem_erase_iff).mpr ⟨hne,h.dropping p hp⟩
  · have := h.slots.live_of_mem (i := .boxes) (h.dropping ptr hdropping)
    exact absurd this hused

end GiveBack

section Maintenance

theorem FillingGroup.doMaintenance_spec {flags : ShardedDataPtr → Bool} {g : FillingGroup}
    (h : g.Scanned flags) :
    match g.doMaintenance flags with
    | some (.goesOn g') => g'.allUnits = g.allUnits ∧ g'.Scanned flags
    | some (.releases unit g') => g.allUnits.Perm (unit :: g'.allUnits) ∧ g'.Scanned flags ∧
        ∀ i, i < SLOT_COUNT_PER_UNIT → flags ⟨unit,i⟩ = false
    | some (.panics _) => False
    | none => ∃ w, g = .whole w := by
  have hstart : ∀ kept rest indexes, (FillingGroup.retaining kept rest indexes 0).Scanned flags := by
    intro kept rest indexes
    cases rest with
    | nil => trivial
    | cons unit rest => exact fun i hi => absurd hi (Nat.not_lt_zero i)
  cases g with
  | whole g => exact ⟨g,rfl⟩
  | retaining kept rest indexes slot =>
    cases rest with
    | nil => simp [doMaintenance,allUnits,Listing.start,Scanned]
    | cons unit rest =>
      by_cases hslot : slot < SLOT_COUNT_PER_UNIT
      · by_cases hused : flags ⟨unit,slot⟩ = true
        · simp only [doMaintenance,hslot,hused,if_true]
          exact ⟨by simp [allUnits],hstart _ _ _⟩
        · simp only [doMaintenance,hslot,hused,if_true,if_false,Bool.false_eq_true]
          refine ⟨rfl,fun i hi => ?_⟩
          rcases Nat.lt_succ_iff_lt_or_eq.mp hi with hi | rfl
          · exact h i hi
          · simpa using hused
      · simp only [doMaintenance,hslot,if_false]
        exact ⟨rfl,fun i hi => h i (hi.trans_le (Nat.le_of_not_lt hslot))⟩
  | dropping kept unit rest indexes slot =>
    by_cases hslot : slot < SLOT_COUNT_PER_UNIT
    · simp only [doMaintenance,hslot,if_true,h slot hslot,Bool.false_eq_true,if_false]
      exact ⟨rfl,h⟩
    · simp only [doMaintenance,hslot,if_false]
      exact ⟨List.perm_middle,hstart _ _ _,h⟩
  | listing l slot =>
    by_cases hnext : l.next < l.allUnits.length
    · by_cases hslot : slot < SLOT_COUNT_PER_UNIT
      · by_cases hused : flags ⟨l.allUnits.get ⟨l.next,hnext⟩,slot⟩ = true
        · simp only [doMaintenance,hnext,dif_pos,hslot,if_true,hused]
          exact ⟨rfl,trivial⟩
        · simp only [doMaintenance,hnext,dif_pos,hslot,if_true,hused,if_false,Bool.false_eq_true]
          exact ⟨rfl,trivial⟩
      · simp only [doMaintenance,hnext,dif_pos,hslot,if_false]
        exact ⟨rfl,trivial⟩
    · simp only [doMaintenance,hnext,dif_neg,not_false_iff]
      exact ⟨rfl,trivial⟩

theorem startMaintenance_scanned (g : AllocUnitGroup) (flags : ShardedDataPtr → Bool) :
    (FillingGroup.startMaintenance g).Scanned flags := by
  unfold FillingGroup.startMaintenance
  cases g.allUnits with
  | nil => trivial
  | cons unit rest => exact fun i hi => absurd hi (Nat.not_lt_zero i)

theorem Invariant.collectorMoves (h : Invariant n s) {g : FillingGroup} {pc : CollectorPc}
    (hg : g.allUnits = s.tempFillingGroup.allUnits) (hscanned : g.Scanned s.usageFlags)
    (hpc : ∀ k, pc.shard = some k → k < n) :
    Invariant n { s with tempFillingGroup := g, collector := pc } where
  units := h.units.congr (heldBy_congr (fun _ => rfl) hg (fun _ => rfl)) (fun _ => Iff.rfl)
  slots := h.slots.congr (ownedBy_congr rfl (fun _ => rfl)) (fun _ => Iff.rfl)
  calls := h.calls.congr rfl rfl (fun _ _ => rfl)
  boxes ptr hptr := by
    obtain ⟨hslot,hgrouped⟩ := h.boxes ptr hptr
    exact ⟨hslot,hgrouped.imp id (fun hmem => hg.symm ▸ hmem)⟩
  dropping_nodup := h.dropping_nodup
  dropping := h.dropping
  scanned := hscanned
  collector := hpc
  released_lt := h.released_lt
  apart := h.apart
  panicked := h.panicked

theorem Invariant.swapGroups (h : Invariant n s) {k : Nat} {g : AllocUnitGroup}
    {temp : FillingGroup} {pc : CollectorPc} (hk : k < n) (hfree : s.mutexes k = none)
    (hg : s.tempFillingGroup.allUnits = g.allUnits)
    (htemp : temp.allUnits = (s.groups k).allUnits) (hscanned : temp.Scanned s.usageFlags)
    (hpc : ∀ l, pc.shard = some l → l < n) : Invariant n (s.swapGroups k g temp pc) where
  units := by
    refine h.units.swap (i := .shard k) (j := .temp) ?_ ?_ (fun x hx hxt => ?_) (fun _ => Iff.rfl)
    · simp [State.heldBy,State.swapGroups,State.setGroup,hk,hg]
    · simp [State.heldBy,State.swapGroups,hk,htemp]
    · cases x with
      | shard l =>
        have hl : l ≠ k := fun hl => hx (hl ▸ rfl)
        simp [State.heldBy,State.swapGroups,State.setGroup,hl]
      | temp => exact absurd rfl hxt
      | call d => rfl
  slots := h.slots.congr (ownedBy_congr rfl (fun _ => rfl)) (fun _ => Iff.rfl)
  calls := by
    refine h.calls.congr rfl rfl (fun l hl => ?_)
    have hne : l ≠ k := fun hlk => hl (hlk ▸ hfree)
    simp [State.swapGroups,State.setGroup,hne]
  boxes ptr hptr := by
    obtain ⟨hslot,hgrouped⟩ := h.boxes ptr hptr
    refine ⟨hslot,?_⟩
    rcases hgrouped with ⟨l,hl,hmem⟩ | hmem
    · by_cases hlk : l = k
      · exact .inr (htemp.symm ▸ hlk ▸ hmem)
      · exact .inl ⟨l,hl,by simpa [State.swapGroups,State.setGroup,hlk] using hmem⟩
    · exact .inl ⟨k,hk,by simpa [State.swapGroups,State.setGroup] using hg ▸ hmem⟩
  dropping_nodup := h.dropping_nodup
  dropping := h.dropping
  scanned := hscanned
  collector := hpc
  released_lt := h.released_lt
  apart := h.apart
  panicked := h.panicked

theorem Invariant.release (h : Invariant n s) {unit : Nat} {g : FillingGroup}
    (hperm : s.tempFillingGroup.allUnits.Perm (unit :: g.allUnits))
    (hscanned : g.Scanned s.usageFlags)
    (hunused : ∀ i, i < SLOT_COUNT_PER_UNIT → s.usageFlags ⟨unit,i⟩ = false) :
    Invariant n { s with tempFillingGroup := g, released := unit :: s.released } where
  units := by
    refine h.units.remove (i := .temp) (x := unit) hperm (fun x hx => ?_) (fun u => ?_)
    · cases x with
      | shard l => rfl
      | temp => exact absurd rfl hx
      | call d => rfl
    · simp only [State.Exists,List.mem_cons,not_or]
      tauto
  slots := h.slots.congr (ownedBy_congr rfl (fun _ => rfl)) (fun _ => Iff.rfl)
  calls := h.calls.congr rfl rfl (fun _ _ => rfl)
  boxes ptr hptr := by
    obtain ⟨hslot,hgrouped⟩ := h.boxes ptr hptr
    refine ⟨hslot,hgrouped.imp id (fun hmem => ?_)⟩
    rcases List.mem_cons.mp (hperm.mem_iff.mp hmem) with hunit | hmem
    · have hused := h.slots.live_of_mem (i := .boxes) hptr
      have hclear := hunused ptr.slot hslot
      rw [← hunit] at hclear
      rw [hclear] at hused
      contradiction
    · exact hmem
  dropping_nodup := h.dropping_nodup
  dropping := h.dropping
  scanned := hscanned
  collector := h.collector
  released_lt u hu := by
    rcases List.mem_cons.mp hu with rfl | hu
    · exact (h.units.live_of_mem (i := .temp) (hperm.mem_iff.mpr List.mem_cons_self)).1
    · exact h.released_lt u hu
  apart u v hu hv := h.apart u v ⟨hu.1,fun hmem => hu.2 (List.mem_cons_of_mem _ hmem)⟩
    ⟨hv.1,fun hmem => hv.2 (List.mem_cons_of_mem _ hmem)⟩
  panicked := h.panicked

theorem Invariant.doMaintenanceByCollector (h : Invariant n s)
    (hs : s.doMaintenanceByCollector n = some s') : Invariant n s' := by
  unfold State.doMaintenanceByCollector at hs
  split at hs
  · obtain rfl := Option.some.inj hs
    exact h.collectorMoves rfl h.scanned (by simp [CollectorPc.shard])
  · rename_i k hpc
    split at hs
    · rename_i g hg
      have htemp : s.tempFillingGroup.allUnits = g.allUnits := by
        rw [hg]
        rfl
      split_ifs at hs with hk hfree
      · obtain rfl := Option.some.inj hs
        exact h.swapGroups hk hfree htemp rfl (startMaintenance_scanned _ _)
          (fun l hl => by simpa [CollectorPc.shard] using (Option.some.inj hl) ▸ hk)
      · obtain rfl := Option.some.inj hs
        exact h.collectorMoves htemp.symm (startMaintenance_scanned _ _) (by simp [CollectorPc.shard])
    · contradiction
  · rename_i shard hpc
    have hspec := FillingGroup.doMaintenance_spec h.scanned
    split at hs
    · rename_i g hg
      rw [hg] at hspec
      obtain rfl := Option.some.inj hs
      exact h.collectorMoves hspec.1 hspec.2 h.collector
    · rename_i unit g hg
      rw [hg] at hspec
      obtain rfl := Option.some.inj hs
      exact h.release hspec.1 hspec.2.1 hspec.2.2
    · rename_i site hg
      rw [hg] at hspec
      exact hspec.elim
    · have hshard := h.collector
      rw [hpc] at hshard
      split at hs
      · obtain rfl := Option.some.inj hs
        exact h.collectorMoves rfl h.scanned hshard
      · obtain rfl := Option.some.inj hs
        exact h.collectorMoves rfl h.scanned (by simp [CollectorPc.shard])
  · rename_i k hpc
    split at hs
    · rename_i g hg
      split_ifs at hs with hfree
      obtain rfl := Option.some.inj hs
      exact h.swapGroups (h.collector k (by rw [hpc]; rfl)) hfree (by rw [hg]; rfl) rfl trivial
        (by simp [CollectorPc.shard])
    · contradiction

end Maintenance

theorem Invariant.initialState (n : Nat) : Invariant n .initialState where
  units := by
    refine ⟨fun u => ?_,fun x y u hx hy => ?_,fun x => ?_⟩
    · simp only [State.Exists,State.initialState,Nat.not_lt_zero,false_and,false_iff,not_exists]
      intro x
      cases x <;> simp [State.heldBy,State.newUnit,AllocUnitGroup.new,FillingGroup.allUnits]
    · cases x <;> simp [State.heldBy,State.newUnit,State.initialState,AllocUnitGroup.new,
        FillingGroup.allUnits] at hx
    · cases x <;> simp [State.heldBy,State.newUnit,State.initialState,AllocUnitGroup.new,
        FillingGroup.allUnits]
  slots := by
    refine ⟨fun ptr => ?_,fun x y ptr hx hy => ?_,fun x => ?_⟩
    · simp only [State.initialState,Bool.false_eq_true,false_iff,not_exists]
      intro x
      cases x <;> simp [State.ownedBy,State.owned]
    · cases x <;> simp [State.ownedBy,State.owned,State.initialState] at hx
    · cases x <;> simp [State.ownedBy,State.owned,State.initialState]
  calls := by constructor <;> simp [State.initialState]
  boxes := by simp [State.initialState]
  dropping_nodup := List.nodup_nil
  dropping := by simp [State.initialState]
  scanned := trivial
  collector := by simp [State.initialState,CollectorPc.shard]
  released_lt := by simp [State.initialState]
  apart u v hu := absurd hu.1 (Nat.not_lt_zero u)
  panicked := rfl

theorem Invariant.step (h : Invariant n s) (a : Action) (hs : step n s a = some s') :
    Invariant n s' := by
  cases a with
  | lock c shard => exact h.lock hs
  | checkUnits c address => exact h.checkUnits hs
  | swapUsageFlag c => exact h.swapUsageFlag hs
  | initFunc c panics => exact h.initFunc hs
  | returnPtr c => exact h.returnPtr hs
  | unwindGuard c => exact h.unwindGuard hs
  | dropNewUnit c => exact h.dropNewUnit hs
  | dropBox ptr => exact h.dropBox hs
  | deallocateWithoutDropping ptr => exact h.deallocateWithoutDropping hs
  | doMaintenanceByCollector => exact h.doMaintenanceByCollector hs

theorem Invariant.of_reachable (hr : Reachable n s) : Invariant n s :=
  hr.invariant (Invariant n) (Invariant.initialState n) (fun _ a _ h _ hs => h.step a hs)

end Sdarc.FullShardAlloc
