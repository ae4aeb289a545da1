import Sdarc.ShardedAlloc.GroupMaintenance
set_option autoImplicit false

/-!
Dropping a `ShardedBox` when destructors of its values may panic.
-/

namespace Sdarc.ShardedAlloc

namespace Heap

variable {T : Type}

/-- The loop of `ShardedBox::drop`. A panic leaves it, and the destructor that panics has
run. -/
def dropShards (panics : Nat → Bool) (ptr : ShardedDataPtr) (h : Heap T) :
    List Nat → Outcome Unit × Heap T
  | [] => (.done (),h)
  | shard :: shards =>
      match h.cells ptr shard with
      | none => (.aborted .emptyCell,h)
      | some v =>
          let h' := h.dropInPlace ptr shard v
          if panics shard then (.unwound,h') else h'.dropShards panics ptr shards

def unboxed (ptr : ShardedDataPtr) (h : Heap T) : Heap T :=
  { h with boxes := h.boxes.erase ptr }

/-- `ShardedBox::drop` where the destructors of the shards in `panics` panic. -/
def dropBoxPanicking (n : Nat) (panics : Nat → Bool) (ptr : ShardedDataPtr) (h : Heap T) :
    Outcome Unit × Heap T :=
  match (h.unboxed ptr).dropShards panics ptr (List.range n) with
  | (.done (),h') => h'.deallocateWithoutDropping ptr
  | r => r

end Heap

/-- A box there is: its slot is in use and all its values have been written. -/
structure LiveBox {T : Type} (n : Nat) (ptr : ShardedDataPtr) (h : Heap T) : Prop where
  slot_lt : ptr.slot < SLOT_COUNT_PER_UNIT
  used : h.usageFlags ptr = true
  values : ∀ k, k < n → (h.cells ptr k).isSome

/-- Every destructor of the box has run once, and its slot is unused, so that it can be
allocated again, and its unit released by a maintenance if it has no other slot in use. -/
structure GivenBack {T : Type} (n : Nat) (ptr : ShardedDataPtr) (h h' : Heap T) : Prop where
  dropped : h'.dropped =
    h.dropped ++ (List.range n).filterMap (fun k => (h.cells ptr k).map (ptr,k,·))
  unused : h'.usageFlags ptr = false
  reusable : ¬ h'.full ptr.unit
  releasable : (∀ slot, slot < SLOT_COUNT_PER_UNIT → slot ≠ ptr.slot →
      h'.usageFlags ⟨ptr.unit,slot⟩ = false) →
    ∀ (g g' : AllocUnitGroup) (h'' : Heap T), g.doMaintenance h' = (.done g',h'') →
      ptr.unit ∉ g'.allUnits

section Dropping

variable {T : Type} {n : Nat} {ptr : ShardedDataPtr} {h h' : Heap T} {panics : Nat → Bool}

theorem dropShards_usageFlags (panics : Nat → Bool) (ptr : ShardedDataPtr) (shards : List Nat)
    (h : Heap T) : (h.dropShards panics ptr shards).2.usageFlags = h.usageFlags := by
  induction shards generalizing h with
  | nil => rfl
  | cons shard shards ih =>
    simp only [Heap.dropShards]
    cases h.cells ptr shard with
    | none => rfl
    | some v =>
      simp only
      split
      · rfl
      · exact ih _

theorem dropShards_of_no_panic {shards : List Nat} (hnone : ∀ k, k ∈ shards → panics k = false) :
    h.dropShards panics ptr shards = h.dropCells noDestructor ptr shards := by
  induction shards generalizing h with
  | nil => rfl
  | cons shard shards ih =>
    have hrest : ∀ k, k ∈ shards → panics k = false :=
      fun k hk => hnone k (List.mem_cons_of_mem _ hk)
    have hfirst := hnone shard List.mem_cons_self
    cases hv : h.cells ptr shard with
    | none => simp only [Heap.dropShards,Heap.dropCells,hv]
    | some v =>
      simp only [Heap.dropShards,Heap.dropCells,hv,hfirst,Bool.false_eq_true,if_false,ih hrest,
        noDestructor_apply]

theorem dropShards_unwound {shards : List Nat} (hnodup : shards.Nodup)
    (hvalues : ∀ k, k ∈ shards → (h.cells ptr k).isSome)
    (hpanic : ∃ k, k ∈ shards ∧ panics k = true) :
    (h.dropShards panics ptr shards).1 = .unwound := by
  induction shards generalizing h with
  | nil => simp at hpanic
  | cons shard shards ih =>
    obtain ⟨hnot,hnodup⟩ := List.nodup_cons.mp hnodup
    obtain ⟨v,hv⟩ := Option.isSome_iff_exists.mp (hvalues shard List.mem_cons_self)
    simp only [Heap.dropShards,hv]
    split
    · rfl
    · rename_i hfirst
      refine ih hnodup (fun k hk => ?_) ?_
      · have hne : k ≠ shard := fun heq => hnot (heq ▸ hk)
        simpa [hne] using hvalues k (List.mem_cons_of_mem _ hk)
      · obtain ⟨k,hk,hpanics⟩ := hpanic
        rcases List.mem_cons.mp hk with rfl | hk
        · exact absurd hpanics hfirst
        · exact ⟨k,hk,hpanics⟩

theorem LiveBox.unboxed_values (hbox : LiveBox n ptr h) {k : Nat} (hk : k ∈ List.range n) :
    ((h.unboxed ptr).cells ptr k).isSome := hbox.values k (List.mem_range.mp hk)

theorem dropBoxPanicking_leaks (hbox : LiveBox n ptr h) (hpanic : ∃ k, k < n ∧ panics k = true) :
    (h.dropBoxPanicking n panics ptr).1 = .unwound ∧
      (h.dropBoxPanicking n panics ptr).2.usageFlags ptr = true := by
  obtain ⟨k,hk,hpanics⟩ := hpanic
  have hloop := dropShards_unwound List.nodup_range (fun _ hk => hbox.unboxed_values hk)
    ⟨k,List.mem_range.mpr hk,hpanics⟩
  have hflags := dropShards_usageFlags panics ptr (List.range n) (h.unboxed ptr)
  unfold Heap.dropBoxPanicking
  generalize (h.unboxed ptr).dropShards panics ptr (List.range n) = r at hloop hflags
  obtain ⟨o,h'⟩ := r
  obtain rfl : o = .unwound := hloop
  exact ⟨rfl,(congrFun hflags ptr).trans hbox.used⟩

theorem leaked_unit_retained (hslot : ptr.slot < SLOT_COUNT_PER_UNIT)
    (hused : h.usageFlags ptr = true) {g g' : AllocUnitGroup} (hunit : ptr.unit ∈ g.allUnits)
    (hrun : g.doMaintenance h = (.done g',h')) : ptr.unit ∈ g'.allUnits := by
  rw [AllocUnitGroup.doMaintenance_done] at hrun
  obtain rfl := Outcome.done.inj (Prod.mk.inj hrun).1
  exact List.mem_filter.mpr ⟨hunit,isAnySlotUsed_iff.mpr ⟨ptr.slot,hslot,hused⟩⟩

theorem dropBoxPanicking_of_no_panic (hnone : ∀ k, k < n → panics k = false) :
    h.dropBoxPanicking n panics ptr = h.dropBox n noDestructor ptr := by
  have hloop : (h.unboxed ptr).dropShards panics ptr (List.range n) =
      (h.unboxed ptr).dropCells noDestructor ptr (List.range n) :=
    dropShards_of_no_panic (fun k hk => hnone k (List.mem_range.mp hk))
  rw [Heap.dropBoxPanicking,hloop]
  rfl

theorem givenBack_of_no_panic (hbox : LiveBox n ptr h) (hnone : ∀ k, k < n → panics k = false) :
    GivenBack n ptr h (h.dropBoxPanicking n panics ptr).2 := by
  have hdone := dropCells_done List.nodup_range (fun _ hk => hbox.unboxed_values hk)
  have hrun : (h.dropBox n noDestructor ptr).2.dropped =
        h.dropped ++ (List.range n).filterMap (fun k => (h.cells ptr k).map (ptr,k,·)) ∧
      (h.dropBox n noDestructor ptr).2.usageFlags = Function.update h.usageFlags ptr false := by
    unfold Heap.unboxed at hdone
    simp only [Heap.dropBox,hdone,Heap.deallocateWithoutDropping,hbox.used,if_true]
    exact ⟨rfl,rfl⟩
  rw [dropBoxPanicking_of_no_panic hnone]
  generalize (h.dropBox n noDestructor ptr).2 = h' at hrun
  obtain ⟨hdropped,hflags⟩ := hrun
  have hunused : h'.usageFlags ptr = false := by rw [hflags,Function.update_self]
  refine ⟨hdropped,hunused,fun hfull => ?_,fun hothers g g' h'' hrun hmem => ?_⟩
  · rw [hfull ptr.slot hbox.slot_lt] at hunused
    contradiction
  · rw [AllocUnitGroup.doMaintenance_done] at hrun
    obtain rfl := Outcome.done.inj (Prod.mk.inj hrun).1
    obtain ⟨slot,hslot,hused⟩ := isAnySlotUsed_iff.mp (List.mem_filter.mp hmem).2
    by_cases heq : slot = ptr.slot
    · rw [heq,hunused] at hused
      contradiction
    · rw [hothers slot hslot heq] at hused
      contradiction

/-- Dropping a box gives its slot back exactly when no destructor of its values panics. -/
theorem drop_gives_back_iff (hbox : LiveBox n ptr h) (panics : Nat → Bool) :
    GivenBack n ptr h (h.dropBoxPanicking n panics ptr).2 ↔ ∀ k, k < n → panics k = false := by
  refine ⟨fun hgiven => ?_,givenBack_of_no_panic hbox⟩
  by_contra hpanic
  obtain ⟨k,hk,hpanics⟩ : ∃ k, k < n ∧ panics k = true := by simpa using hpanic
  have hused := (dropBoxPanicking_leaks hbox ⟨k,hk,hpanics⟩).2
  rw [hgiven.unused] at hused
  contradiction

def oneBox : Heap Nat where
  usageFlags ptr := ptr = ⟨0,3⟩
  cells _ k := some (10 + k)
  nextUnit := 1
  groups _ := .new
  dropped := []
  released := []
  boxes := [⟨0,3⟩]
  returned := []

theorem oneBox_live : LiveBox 2 ⟨0,3⟩ oneBox := ⟨by decide,rfl,fun _ _ => rfl⟩

theorem oneBox_given_back :
    GivenBack 2 ⟨0,3⟩ oneBox (oneBox.dropBoxPanicking 2 (fun _ => false) ⟨0,3⟩).2 :=
  (drop_gives_back_iff oneBox_live (fun _ => false)).mpr (fun _ _ => rfl)

theorem first_destructor_panics_leaks :
    ¬ ∀ (T : Type) (n : Nat) (ptr : ShardedDataPtr) (h : Heap T) (panics : Nat → Bool),
      LiveBox n ptr h → GivenBack n ptr h (h.dropBoxPanicking n panics ptr).2 := by
  intro hclaim
  have hgiven := hclaim Nat 2 ⟨0,3⟩ oneBox (fun k => k = 0) oneBox_live
  exact absurd hgiven.unused (by decide)

end Dropping

end Sdarc.ShardedAlloc
