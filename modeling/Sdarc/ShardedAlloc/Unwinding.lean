import Sdarc.ShardedAlloc.Group
set_option autoImplicit false

/-!
An allocation whose `init_func` panics: the values written so far are dropped, the slot is
given back, and the group is left as it was except for entries of full units.
-/

namespace Sdarc.ShardedAlloc

section Cells

variable {T : Type} {h : Heap T} {ptr : ShardedDataPtr} {f : Nat → Option T}

theorem dropCells_done {shards : List Nat} (hnodup : shards.Nodup)
    (hsome : ∀ k, k ∈ shards → (h.cells ptr k).isSome) :
    h.dropCells noDestructor ptr shards = (.done (),{ h with
      cells := Function.update h.cells ptr
        (fun k => if k ∈ shards then none else h.cells ptr k)
      dropped := h.dropped ++ shards.filterMap (fun k => (h.cells ptr k).map (ptr,k,·)) }) := by
  induction shards generalizing h with
  | nil => simp [Heap.dropCells]
  | cons shard shards ih =>
    obtain ⟨hnot,hnodup⟩ := List.nodup_cons.mp hnodup
    obtain ⟨v,hv⟩ := Option.isSome_iff_exists.mp (hsome shard List.mem_cons_self)
    have hother : ∀ k, k ∈ shards → k ≠ shard := fun k hk heq => hnot (heq ▸ hk)
    have hrest := ih (h := h.dropInPlace ptr shard v) hnodup (fun k hk => by
      simpa [hother k hk] using hsome k (List.mem_cons_of_mem _ hk))
    simp only [Heap.dropCells,hv,noDestructor_apply]
    rw [hrest]
    have hcells : (fun k => if k ∈ shards then none
        else (h.dropInPlace ptr shard v).cells ptr k) =
        fun k => if k ∈ shard :: shards then none else h.cells ptr k := by
      funext k
      by_cases hk : k = shard
      · simp [hk]
      · simp [hk]
    have hvalues : shards.filterMap (fun k =>
        ((h.dropInPlace ptr shard v).cells ptr k).map (ptr,k,·)) =
        shards.filterMap (fun k => (h.cells ptr k).map (ptr,k,·)) :=
      List.filterMap_congr (fun k hk => by simp [hother k hk])
    rw [hcells,hvalues]
    simp [hv]

theorem writeCells_done {shards : List Nat} (hsome : ∀ k, k ∈ shards → (f k).isSome) :
    Heap.writeCells (pureInit f) ptr shards h = (.done (),{ h with
      cells := Function.update h.cells ptr
        (fun k => if k ∈ shards then f k else h.cells ptr k) }) := by
  induction shards generalizing h with
  | nil => simp [Heap.writeCells]
  | cons shard shards ih =>
    obtain ⟨v,hv⟩ := Option.isSome_iff_exists.mp (hsome shard List.mem_cons_self)
    simp only [Heap.writeCells,pureInit_call,hv]
    rw [ih (fun k hk => hsome k (List.mem_cons_of_mem _ hk))]
    have hcells : (fun k => if k ∈ shards then f k
        else (h.setCell ptr shard (some v)).cells ptr k) =
        fun k => if k ∈ shard :: shards then f k else h.cells ptr k := by
      funext k
      by_cases hk : k = shard
      · simp [hk,hv]
      · simp [hk]
    rw [hcells]
    simp

theorem writeCells_append (init : InitFunc T) (shards shards' : List Nat) :
    Heap.writeCells init ptr (shards ++ shards') h =
      match Heap.writeCells init ptr shards h with
      | (.done (),h') => Heap.writeCells init ptr shards' h'
      | r => r := by
  induction shards generalizing h with
  | nil => rfl
  | cons shard shards ih =>
    simp only [List.cons_append,Heap.writeCells]
    cases hinit : init.call shard h with
    | mk o h' =>
      cases o with
      | done v => exact ih
      | unwound =>
        cases hunwind : h'.unwind init.destructor ptr shard with
        | mk o' h'' => cases o' <;> simp [hunwind]
      | deadlocked => rfl
      | aborted site => rfl

/-- What a panic of `init_func` at `shard` leaves of a slot claimed for it. -/
def Heap.afterPanic (h : Heap T) (f : Nat → Option T) (ptr : ShardedDataPtr) (shard : Nat) :
    Heap T :=
  { h with
    cells := Function.update h.cells ptr
      (fun k => if k < shard then none else h.cells ptr k)
    dropped := h.dropped ++ (List.range shard).filterMap (fun k => (f k).map (ptr,k,·)) }

theorem writeCells_unwound {n shard : Nat} (hshard : shard < n)
    (hsome : ∀ k, k < shard → (f k).isSome) (hpanic : f shard = none)
    (hfree : h.usageFlags ptr = false) :
    Heap.writeCells (pureInit f) ptr (List.range n) (h.setFlag ptr true) =
      (.unwound,h.afterPanic f ptr shard) := by
  have hsplit : List.range n =
      List.range shard ++ shard :: (List.range (n - shard - 1)).map (shard + · + 1) := by
    have hn : n = shard + (n - shard - 1 + 1) := by omega
    conv_lhs => rw [hn,List.range_add,List.range_succ_eq_map]
    simp [Function.comp_def,Nat.add_assoc]
  rw [hsplit,writeCells_append,writeCells_done (fun k hk => hsome k (List.mem_range.mp hk))]
  simp only [Heap.writeCells,pureInit_call,hpanic,Heap.unwind,pureInit_destructor]
  rw [dropCells_done List.nodup_range (fun k hk => by
    simpa [List.mem_range.mp hk] using hsome k (List.mem_range.mp hk))]
  have hvalues : (List.range shard).filterMap (fun k => (if k < shard then f k
      else h.cells ptr k).map (ptr,k,·)) =
      (List.range shard).filterMap (fun k => (f k).map (ptr,k,·)) :=
    List.filterMap_congr (fun k hk => by simp [List.mem_range.mp hk])
  have hcells : (fun k => if k < shard then none else if k < shard then f k
      else h.cells ptr k) = fun k => if k < shard then none else h.cells ptr k := by
    funext k
    split <;> rfl
  have hflags : Function.update (Function.update h.usageFlags ptr true) ptr false =
      h.usageFlags := by
    rw [Function.update_idem,← hfree,Function.update_eq_self]
  simp [Heap.deallocateWithoutDropping,Heap.afterPanic,hvalues,hcells,hflags]

end Cells

section Group

variable {T : Type} {h : Heap T} {f : Nat → Option T} {n shard unit : Nat}

theorem allocateAndInitialize_of_full (init : InitFunc T) (hfull : h.full unit) :
    h.allocateAndInitialize n init unit = (.done none,h) := by
  simp only [Heap.allocateAndInitialize,allocateWithoutInitializing_of_full hfull]

theorem allocateAndInitialize_unwound (hshard : shard < n)
    (hsome : ∀ k, k < shard → (f k).isSome) (hpanic : f shard = none) (hfree : ¬ h.full unit) :
    ∃ slot, slot < SLOT_COUNT_PER_UNIT ∧ h.usageFlags ⟨unit,slot⟩ = false ∧
      h.allocateAndInitialize n (pureInit f) unit =
        (.unwound,h.afterPanic f ⟨unit,slot⟩ shard) := by
  obtain ⟨slot,hslot,hflag,hclaim⟩ := allocateWithoutInitializing_of_not_full hfree
  refine ⟨slot,hslot,hflag,?_⟩
  simp only [Heap.allocateAndInitialize,hclaim,
    writeCells_unwound hshard hsome hpanic hflag]

theorem allocateAndInitialize_done (hsome : ∀ k, k < n → (f k).isSome) (hfree : ¬ h.full unit) :
    ∃ ptr h', h.allocateAndInitialize n (pureInit f) unit = (.done (some ptr),h') := by
  obtain ⟨slot,-,-,hclaim⟩ := allocateWithoutInitializing_of_not_full hfree
  refine ⟨⟨unit,slot⟩,?_⟩
  simp only [Heap.allocateAndInitialize,hclaim,
    writeCells_done (fun k hk => hsome k (List.mem_range.mp hk))]
  exact ⟨_,rfl⟩

theorem newUnit_not_full (h : Heap T) : ¬ h.newUnit.full h.nextUnit :=
  fun hfull => by simpa using hfull 0 (by decide)

namespace AllocUnitGroup

variable {g : AllocUnitGroup}

theorem unitToCheck_eq {i : Nat} {rest : List Nat}
    (hlist : g.indexesOfUnitsToCheckForAllocation = i :: rest) :
    ∃ unit, g.unitToCheck = some unit ∧ g.allUnits[i]? = some unit := by
  have hlt : i < g.allUnits.length := g.indexes_lt i (by simp [hlist])
  refine ⟨g.allUnits[i],?_,List.getElem?_eq_getElem hlt⟩
  unfold unitToCheck
  split
  · rename_i hnil
    rw [hlist] at hnil
    contradiction
  · rename_i j rest' hcons
    rw [hlist] at hcons
    obtain ⟨rfl,-⟩ := List.cons.inj hcons
    rfl

/-- The list to check of `g'` is that of `g` less some entries of units that were full. -/
structure Skipped (g g' : AllocUnitGroup) (h : Heap T) : Prop where
  allUnits : g'.allUnits = g.allUnits
  indexes : ∃ removed, g.indexesOfUnitsToCheckForAllocation.Perm
      (removed ++ g'.indexesOfUnitsToCheckForAllocation) ∧
    ∀ i, i ∈ removed → ∃ unit, g.allUnits[i]? = some unit ∧ h.full unit

theorem Skipped.refl (g : AllocUnitGroup) (h : Heap T) : Skipped g g h :=
  ⟨rfl,[],by simp,by simp⟩

theorem Skipped.skipFirst {g' : AllocUnitGroup} {i : Nat} {rest : List Nat}
    (hlist : g.indexesOfUnitsToCheckForAllocation = i :: rest)
    (hunit : g.allUnits[i]? = some unit) (hfull : h.full unit)
    (hs : Skipped g.skipFirst g' h) : Skipped g g' h := by
  obtain ⟨removed,hperm,hremoved⟩ := hs.indexes
  refine ⟨hs.allUnits,i :: removed,?_,fun j hj => ?_⟩
  · rw [hlist]
    refine List.Perm.cons i ((swapRemoveFirst_perm i rest).symm.trans ?_)
    rw [← hlist]
    exact hperm
  · rcases List.mem_cons.mp hj with rfl | hj
    · exact ⟨unit,hunit,hfull⟩
    · exact hremoved j hj

theorem allocateFrom_cases (init : InitFunc T)
    {P : AllocUnitGroup → Outcome ShardedDataPtr × AllocUnitGroup × Heap T → Prop}
    (hnew : ∀ g', Skipped g g' h → g'.indexesOfUnitsToCheckForAllocation = [] →
      P g' (g'.allocateInNewUnit n init h))
    (hold : ∀ g' unit, Skipped g g' h → g'.unitToCheck = some unit → unit ∈ g.allUnits →
      ¬ h.full unit → ∀ remaining, P g' (allocateFrom n init (remaining+1) g' h)) :
    ∃ g', P g' (g.allocate n init h) := by
  have hloop : ∀ remaining g', g'.indexesOfUnitsToCheckForAllocation.length = remaining →
      (∀ g'', Skipped g' g'' h → Skipped g g'' h) →
      ∃ g'', P g'' (allocateFrom n init remaining g' h) := by
    intro remaining
    induction remaining with
    | zero =>
      intro g' hlength hskip
      exact ⟨g',hnew g' (hskip g' (.refl g' h)) (List.length_eq_zero_iff.mp hlength)⟩
    | succ remaining ih =>
      intro g' hlength hskip
      obtain ⟨i,rest,hlist⟩ := List.exists_cons_of_length_eq_add_one hlength
      obtain ⟨unit,hunit,hget⟩ := unitToCheck_eq hlist
      have hmem : unit ∈ g.allUnits := by
        rw [← (hskip g' (.refl g' h)).allUnits]
        exact List.mem_of_getElem? hget
      by_cases hfull : h.full unit
      · obtain ⟨g'',hg''⟩ := ih g'.skipFirst
          (by
            change (swapRemoveFirst g'.indexesOfUnitsToCheckForAllocation).length = remaining
            rw [hlist,(swapRemoveFirst_perm i rest).length_eq]
            simpa [hlist] using hlength)
          (fun g'' hs => hskip g'' (hs.skipFirst hlist hget hfull))
        refine ⟨g'',?_⟩
        simp only [allocateFrom,hunit,allocateAndInitialize_of_full init hfull]
        exact hg''
      · exact ⟨g',hold g' unit (hskip g' (.refl g' h)) hunit hmem hfull remaining⟩
  exact hloop _ g rfl (fun _ hs => hs)

structure RolledBack (g g' : AllocUnitGroup) (h h' : Heap T) (f : Nat → Option T)
    (shard : Nat) (ptr : ShardedDataPtr) : Prop where
  slot_lt : ptr.slot < SLOT_COUNT_PER_UNIT
  dropped : h'.dropped = h.dropped ++ (List.range shard).filterMap (fun k => (f k).map (ptr,k,·))
  cells : ∀ p k, p ≠ ptr ∨ shard ≤ k → h'.cells p k = h.cells p k
  emptied : ∀ k, k < shard → h'.cells ptr k = none
  unused : h'.usageFlags ptr = false
  flags : ∀ p, p.unit ≠ h.nextUnit → h'.usageFlags p = h.usageFlags p
  skipped : Skipped g g' h
  unit : ptr.unit ∈ g.allUnits ∧ h'.released = h.released ∨
    ptr.unit = h.nextUnit ∧ h'.released = h.released ++ [h.nextUnit]

theorem allocateInNewUnit_unwound (hshard : shard < n) (hsome : ∀ k, k < shard → (f k).isSome)
    (hpanic : f shard = none) {g' : AllocUnitGroup} (hskip : Skipped g g' h) :
    ∃ ptr h', g'.allocateInNewUnit n (pureInit f) h = (.unwound,g',h') ∧
      RolledBack g g' h h' f shard ptr := by
  obtain ⟨slot,hslot,-,hinit⟩ :=
    allocateAndInitialize_unwound hshard hsome hpanic (newUnit_not_full h)
  have hdrop : (h.newUnit.afterPanic f ⟨h.nextUnit,slot⟩ shard).dropUnit h.nextUnit =
      (.done (),{ h.newUnit.afterPanic f ⟨h.nextUnit,slot⟩ shard with
        released := h.released ++ [h.nextUnit] }) := by
    exact dropUnit_done (by simp [Heap.isAnySlotUsed,Heap.afterPanic])
  refine ⟨⟨h.nextUnit,slot⟩,{ h.newUnit.afterPanic f ⟨h.nextUnit,slot⟩ shard with
    released := h.released ++ [h.nextUnit] },?_,hslot,rfl,fun p k hp => ?_,fun k hk => ?_,?_,
    fun p hp => ?_,hskip,.inr ⟨rfl,rfl⟩⟩
  · simp only [allocateInNewUnit,hinit,hdrop]
  · by_cases hptr : p = ⟨h.nextUnit,slot⟩
    · subst hptr
      have hk : ¬ k < shard := by
        rcases hp with hp | hp
        · exact absurd rfl hp
        · omega
      simp [Heap.afterPanic,hk]
    · simp [Heap.afterPanic,hptr]
  · simp [Heap.afterPanic,hk]
  · simp [Heap.afterPanic]
  · simp [Heap.afterPanic,hp]

theorem allocate_rolled_back (g : AllocUnitGroup) (h : Heap T) (hshard : shard < n)
    (hsome : ∀ k, k < shard → (f k).isSome) (hpanic : f shard = none) :
    ∃ ptr g' h', g.allocate n (pureInit f) h = (.unwound,g',h') ∧
      RolledBack g g' h h' f shard ptr := by
  have hcases := allocateFrom_cases (n := n) (g := g) (h := h) (pureInit f)
    (P := fun g' r => ∃ ptr h', r = (.unwound,g',h') ∧ RolledBack g g' h h' f shard ptr)
    (fun g' hskip _ => allocateInNewUnit_unwound hshard hsome hpanic hskip) ?_
  · obtain ⟨g',ptr,h',hr⟩ := hcases
    exact ⟨ptr,g',h',hr⟩
  · intro g' unit hskip hunit hmem hfree remaining
    obtain ⟨slot,hslot,hflag,hinit⟩ := allocateAndInitialize_unwound hshard hsome hpanic hfree
    refine ⟨⟨unit,slot⟩,h.afterPanic f ⟨unit,slot⟩ shard,?_,hslot,rfl,fun p k hp => ?_,
      fun k hk => ?_,hflag,fun _ _ => rfl,hskip,.inl ⟨hmem,rfl⟩⟩
    · simp only [allocateFrom,hunit,hinit]
    · by_cases hptr : p = ⟨unit,slot⟩
      · subst hptr
        have hk : ¬ k < shard := by
          rcases hp with hp | hp
          · exact absurd rfl hp
          · omega
        simp [Heap.afterPanic,hk]
      · simp [Heap.afterPanic,hptr]
    · simp [Heap.afterPanic,hk]

theorem allocate_done (g : AllocUnitGroup) (h : Heap T) (hsome : ∀ k, k < n → (f k).isSome) :
    ∃ ptr g' h', g.allocate n (pureInit f) h = (.done ptr,g',h') := by
  have hcases := allocateFrom_cases (n := n) (g := g) (h := h) (pureInit f)
    (P := fun _ r => ∃ ptr g' h', r = (.done ptr,g',h')) ?_ ?_
  · obtain ⟨-,hr⟩ := hcases
    exact hr
  · intro g' _ _
    obtain ⟨ptr,h',hinit⟩ := allocateAndInitialize_done hsome (newUnit_not_full h)
    refine ⟨ptr,g'.pushUnit h.nextUnit,h',?_⟩
    simp only [allocateInNewUnit,hinit]
  · intro g' unit _ hunit _ hfree remaining
    obtain ⟨ptr,h',hinit⟩ := allocateAndInitialize_done hsome hfree
    refine ⟨ptr,g',h',?_⟩
    simp only [allocateFrom,hunit,hinit]

/-- A panicking `init_func` leaves the group as it was: the values written are dropped, the
slot is unused, only full units have left the list to check, and a new allocation succeeds. -/
theorem panicking_init_rolled_back (g : AllocUnitGroup) (h : Heap T) {n shard : Nat}
    {f : Nat → Option T} (hshard : shard < n) (hsome : ∀ k, k < shard → (f k).isSome)
    (hpanic : f shard = none) :
    ∃ ptr g' h', g.allocate n (pureInit f) h = (.unwound,g',h') ∧
      RolledBack g g' h h' f shard ptr ∧
      ∀ f', (∀ k, k < n → (f' k).isSome) →
        ∃ ptr' g'' h'', g'.allocate n (pureInit f') h' = (.done ptr',g'',h'') := by
  obtain ⟨ptr,g',h',hr,hback⟩ := allocate_rolled_back g h hshard hsome hpanic
  exact ⟨ptr,g',h',hr,hback,fun f' hsome' => allocate_done g' h' hsome'⟩

def secondUnitFree : Heap Nat where
  usageFlags ptr := ptr.unit = 0 || ptr.unit = 1 && ptr.slot ≠ 5
  cells _ _ := none
  nextUnit := 2
  groups _ := .new
  dropped := []
  released := []
  boxes := []
  returned := []

theorem secondUnitFree_rolled_back :
    ∃ ptr g' h', ((AllocUnitGroup.new.pushUnit 0).pushUnit 1).allocate 4
        (pureInit (fun k => if k = 2 then none else some (10 + k))) secondUnitFree =
        (.unwound,g',h') ∧
      RolledBack ((AllocUnitGroup.new.pushUnit 0).pushUnit 1) g' secondUnitFree h'
        (fun k => if k = 2 then none else some (10 + k)) 2 ptr := by
  have hvalues : ∀ k, k < 2 →
      ((fun k => if k = 2 then none else some (10 + k) : Nat → Option Nat) k).isSome := by
    decide
  obtain ⟨ptr,g',h',hr,hback,-⟩ := panicking_init_rolled_back
    ((AllocUnitGroup.new.pushUnit 0).pushUnit 1) secondUnitFree (by decide : 2 < 4) hvalues rfl
  exact ⟨ptr,g',h',hr,hback⟩

end AllocUnitGroup

end Group

end Sdarc.ShardedAlloc
