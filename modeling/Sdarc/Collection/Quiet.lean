import Mathlib.Algebra.BigOperators.Group.List.Basic
import Mathlib.Algebra.Order.BigOperators.Group.Finset
import Sdarc.Collection.Termination
set_option autoImplicit false

/-!
The memory while only the collector runs: no hazard guard is held, no thread reads, and
destructors only drop the fields of their pointees.
-/

open Sdarc.System

namespace Sdarc.Collection

/-- Which pointee owns which handles. `fields` lists the `Sdarc`s in a pointee, those in its
cells and its `weak_inner_ref`, in the order in which they are dropped, and `external` counts
the handles and cells that belong to no pointee. `currShard` is what `curr_shard_index`
yields at each drop on the collector thread. -/
structure Graph where
  nodes : Finset Nat
  fields : Nat → List Nat
  external : Nat → Nat
  shards : Nat
  ptr : Nat → Nat
  countersPtr : Nat → Nat
  currShard : Nat → Nat
  currShard_lt : ∀ i, currShard i < shards
  fields_mem : ∀ p q, p ∈ nodes → q ∈ fields p → q ∈ nodes
  countersPtr_inj : ∀ p q, p ∈ nodes → q ∈ nodes → countersPtr p = countersPtr q → p = q

/-- `freed` lists the pointees that have been destroyed and `drops` the handles dropped in
destructors, with the shards, both latest first. -/
structure Memory where
  counters : Nat → Nat → Counter
  pending : Nat → List Entry
  usageFlags : Nat → Bool
  freed : List Nat
  drops : List (Nat × Nat)

namespace Memory

@[simp] def setCounters (m : Memory) (key : Nat) (v : Nat → Counter) : Memory :=
  { m with counters := Function.update m.counters key v }

def clearTags (m : Memory) (key : Nat) (shards : List Nat) : Memory :=
  m.setCounters key (fun k => if k ∈ shards then (m.counters key k).clearTag else m.counters key k)

end Memory

namespace Graph

variable (G : Graph)

/-- `Sdarc::drop`. -/
def dropSdarc (m : Memory) (p : Nat) : Memory :=
  let shard := G.currShard m.drops.length
  { m with
    counters := Function.update m.counters (G.countersPtr p)
      (Function.update (m.counters (G.countersPtr p)) shard
        (m.counters (G.countersPtr p) shard).decrementAndSetTag)
    drops := (p,shard) :: m.drops }

def dropFields : List Nat → Memory → Memory
  | [], m => m
  | p :: ps, m => dropFields ps (G.dropSdarc m p)

/-- `drop_sdarc_inner_impl`: the counters are given back, then the fields are dropped. -/
def free (m : Memory) (p : Nat) : Memory :=
  G.dropFields (G.fields p) { m with
    freed := p :: m.freed
    usageFlags := Function.update m.usageFlags (G.countersPtr p) false }

def quiet : Environment Memory where
  shards := G.shards
  ptr := G.ptr
  countersPtr := G.countersPtr
  takePending m shard :=
    (m.pending shard,{ m with pending := Function.update m.pending shard [] })
  traverse m := (∅,m)
  loadRelaxed m key shard := (m.counters key shard,m)
  fetchAndClearTag m key shard := (m.counters key shard,m.clearTags key [shard])
  loadAcquire m key shard := (m.counters key shard,m)
  downgraded m _ := (false,m)
  free m p := ((G.fields p).map G.countersPtr,G.free m p)

def sum (m : Memory) (key : Nat) : Int :=
  ∑ k ∈ Finset.range G.shards, (m.counters key k).refCount

def tagged (m : Memory) (key : Nat) : Bool :=
  (List.range G.shards).any (fun k => (m.counters key k).tag)

def next (c : Collector Memory) (key : Nat) (e : TrackedCounter) : TrackedCounterState :=
  match e.state with
  | .defaultState =>
      if G.sum c.memory key = 0 then .requiresReChecking else .defaultState
  | .requiresReChecking =>
      if G.tagged c.memory key = true then .defaultState
      else if G.sum c.memory key = 0 then
        if c.weakRefs e.pointee = .linked then .requiresReChecking else .readyToFree
      else .defaultState
  | .readyToFree => .readyToFree

def updated (c : Collector Memory) (key : Nat) (e : TrackedCounter) : Collector Memory :=
  match e.state with
  | .defaultState =>
      if G.sum c.memory key = 0 then
        c.setMemory (c.memory.clearTags key (List.range G.shards))
      else c
  | .requiresReChecking =>
      if G.next c key e = .requiresReChecking then
        { c with weakRefs := Function.update c.weakRefs e.pointee .cleared }
      else c
  | .readyToFree => c

end Graph

section Reads

variable {G : Graph} {m : Memory} {c : Collector Memory} {key : Nat} {e : TrackedCounter}

theorem readRefCountSum_load (key : Nat) (shards : List Nat) :
    Environment.readRefCountSum (fun m k => G.quiet.loadRelaxed m key k) shards m =
      ((shards.map (fun k => (m.counters key k).refCount)).sum,m) := by
  induction shards with
  | nil => rfl
  | cons shard shards ih =>
    simp only [Environment.readRefCountSum,Graph.quiet] at ih ⊢
    rw [ih]
    simp

theorem clearTags_refCount (m : Memory) (key : Nat) (shards : List Nat) (key' k : Nat) :
    ((m.clearTags key shards).counters key' k).refCount = (m.counters key' k).refCount := by
  by_cases hkey : key' = key
  · subst hkey
    simp only [Memory.clearTags,Memory.setCounters,Function.update_self]
    split <;> rfl
  · simp [Memory.clearTags,hkey]

theorem clearTags_cons (m : Memory) (key shard : Nat) (shards : List Nat) :
    (m.clearTags key [shard]).clearTags key shards = m.clearTags key (shard :: shards) := by
  simp only [Memory.clearTags,Memory.setCounters,Function.update_self,Function.update_idem,
    List.mem_cons]
  congr 2
  funext k
  by_cases hk : k = shard <;> by_cases hks : k ∈ shards <;> simp [hk,hks,Counter.clearTag]

theorem readRefCountSum_clear (key : Nat) (shards : List Nat) :
    ∀ m : Memory, Environment.readRefCountSum (fun m k => G.quiet.fetchAndClearTag m key k)
      shards m = ((shards.map (fun k => (m.counters key k).refCount)).sum,
        m.clearTags key shards) := by
  induction shards with
  | nil =>
    intro m
    simp [Environment.readRefCountSum,Memory.clearTags]
  | cons shard shards ih =>
    intro m
    simp only [Environment.readRefCountSum,Graph.quiet] at ih ⊢
    rw [ih]
    simp only [clearTags_refCount,clearTags_cons,List.map_cons,List.sum_cons]

theorem readUntagged_quiet (key : Nat) (shards : List Nat) :
    G.quiet.readUntagged key shards m =
      (if shards.any (fun k => (m.counters key k).tag) = true then none
        else some (shards.map (fun k => (m.counters key k).refCount)).sum,m) := by
  induction shards with
  | nil => rfl
  | cons shard shards ih =>
    have hread : G.quiet.loadAcquire m key shard = (m.counters key shard,m) := rfl
    simp only [Environment.readUntagged,hread]
    cases htag : (m.counters key shard).tag with
    | true => simp [htag]
    | false =>
      cases hany : shards.any (fun k => (m.counters key k).tag) with
      | true => simp [ih,htag,hany]
      | false => simp [ih,htag,hany]

theorem updateState_quiet (hready : e.state ≠ .readyToFree) (hsum : 0 ≤ G.sum c.memory key) :
    G.quiet.updateState key e c = .ok (G.next c key e,G.updated c key e) := by
  have hrelaxed : G.quiet.readRefCountSumRelaxed key c.memory =
      (G.sum c.memory key,c.memory) := readRefCountSum_load _ _
  have hclear : G.quiet.clearTagsAndReadRefCountSum key c.memory =
      (G.sum c.memory key,c.memory.clearTags key (List.range G.shards)) :=
    readRefCountSum_clear _ _ _
  have huntagged : G.quiet.readRefCountSumIfAllTagsUnset key c.memory =
      (if G.tagged c.memory key = true then none else some (G.sum c.memory key),c.memory) :=
    readUntagged_quiet _ _
  cases hs : e.state with
  | defaultState =>
    simp only [Environment.updateState,hs,hrelaxed,hclear,Graph.next,Graph.updated]
    split <;> rfl
  | requiresReChecking =>
    simp only [Environment.updateState,hs,huntagged,Graph.updated,Graph.next]
    cases htag : G.tagged c.memory key with
    | true => simp
    | false =>
      simp only [Bool.false_eq_true,if_false]
      by_cases hzero : G.sum c.memory key = 0
      · have hdown : G.quiet.downgraded c.memory e.pointee = (false,c.memory) := rfl
        simp only [hzero,if_true,Environment.clearWeakBackRef,Collector.setMemory,hdown]
        cases hweak : c.weakRefs e.pointee <;> simp
      · have hpos : 0 < G.sum c.memory key := by omega
        simp [hzero,hpos]
  | readyToFree => exact absurd hs hready

theorem next_congr {c c' : Collector Memory}
    (hcounters : c'.memory.counters key = c.memory.counters key)
    (hweak : c'.weakRefs e.pointee = c.weakRefs e.pointee) :
    G.next c' key e = G.next c key e := by
  have hsum : G.sum c'.memory key = G.sum c.memory key := by simp only [Graph.sum,hcounters]
  have htagged : G.tagged c'.memory key = G.tagged c.memory key := by
    simp only [Graph.tagged,hcounters]
  simp only [Graph.next,hsum,htagged,hweak]

end Reads

def Graph.Clears (G : Graph) (c : Collector Memory) (key : Nat) : Prop :=
  ∃ e, c.tracked[key]? = some e ∧ e.state = .defaultState ∧ G.sum c.memory key = 0

structure Scanned (G : Graph) (c₀ : Collector Memory) (done : List Nat) (c : Collector Memory)
    (f : Found) : Prop where
  memory : c.memory = { c₀.memory with counters := c.memory.counters }
  cleared : ∀ key, key ∈ done → G.Clears c₀ key → ∀ k, c.memory.counters key k =
    if k ∈ List.range G.shards then (c₀.memory.counters key k).clearTag
    else c₀.memory.counters key k
  kept : ∀ key, ¬ (key ∈ done ∧ G.Clears c₀ key) →
    c.memory.counters key = c₀.memory.counters key
  tracked : ∀ key : Nat, c.tracked[key]? = if key ∈ done then
    (c₀.tracked[key]?).map (fun e => { e with state := G.next c₀ key e }) else c₀.tracked[key]?
  weakRefs : ∀ (key : Nat) e, c₀.tracked[key]? = some e → c.weakRefs e.pointee =
    if key ∈ done ∧ e.state = .requiresReChecking ∧ G.next c₀ key e = .requiresReChecking then
      .cleared
    else c₀.weakRefs e.pointee
  toFreeNodup : f.toFree.Nodup
  toFree : ∀ key : Nat, key ∈ f.toFree ↔ key ∈ done ∧ ∃ e, c₀.tracked[key]? = some e ∧
    G.next c₀ key e = .readyToFree
  reCheck : ∀ key : Nat, key ∈ f.newToReCheck ↔ key ∈ done ∧ ∃ e, c₀.tracked[key]? = some e ∧
    G.next c₀ key e = .requiresReChecking

section Scan

variable {G : Graph} {c₀ c : Collector Memory} {done : List Nat} {f : Found} {key : Nat}

theorem Scanned.start (G : Graph) (c : Collector Memory) : Scanned G c [] c ⟨∅,[]⟩ where
  memory := rfl
  cleared _ hkey := absurd hkey List.not_mem_nil
  kept _ _ := rfl
  tracked _ := rfl
  weakRefs _ _ _ := by simp
  toFreeNodup := List.nodup_nil
  toFree _ := by simp
  reCheck _ := by simp

theorem Scanned.untracked (h : Scanned G c₀ done c f) (hkey : key ∉ done)
    (hnone : c.tracked[key]? = none) : Scanned G c₀ (key :: done) c f := by
  have hnone₀ : c₀.tracked[key]? = none := by
    rw [← hnone,h.tracked key,if_neg hkey]
  have hmem : ∀ (k : Nat) e, c₀.tracked[k]? = some e → (k ∈ key :: done ↔ k ∈ done) := by
    intro k e hk
    have hne : k ≠ key := fun heq => by simp [heq,hnone₀] at hk
    simp [hne]
  have hclears : ∀ k, k ∈ key :: done → G.Clears c₀ k → k ∈ done := by
    rintro k hk ⟨e,he,-⟩
    exact (hmem k e he).mp hk
  refine ⟨h.memory,fun k hk hc => h.cleared k (hclears k hk hc) hc,fun k hk => ?_,fun k => ?_,
    fun k e hk => ?_,h.toFreeNodup,fun k => ?_,fun k => ?_⟩
  · exact h.kept k (fun hc => hk ⟨List.mem_cons_of_mem _ hc.1,hc.2⟩)
  · rw [h.tracked k]
    by_cases hk : k = key
    · simp [hk,hkey,hnone₀]
    · simp [hk]
  · rw [h.weakRefs k e hk]
    simp only [hmem k e hk]
  · rw [h.toFree k]
    refine ⟨fun hk => ⟨List.mem_cons_of_mem _ hk.1,hk.2⟩,?_⟩
    rintro ⟨hk,e,he,hn⟩
    exact ⟨(hmem k e he).mp hk,e,he,hn⟩
  · rw [h.reCheck k]
    refine ⟨fun hk => ⟨List.mem_cons_of_mem _ hk.1,hk.2⟩,?_⟩
    rintro ⟨hk,e,he,hn⟩
    exact ⟨(hmem k e he).mp hk,e,he,hn⟩

theorem updated_counters {e : TrackedCounter} (he : c.tracked[key]? = some e) :
    (G.updated c key e).memory = { c.memory with
      counters := (G.updated c key e).memory.counters } ∧
    (G.Clears c key → ∀ k, (G.updated c key e).memory.counters key k =
      if k ∈ List.range G.shards then (c.memory.counters key k).clearTag
      else c.memory.counters key k) ∧
    (¬ G.Clears c key → (G.updated c key e).memory = c.memory) ∧
    (∀ k, k ≠ key → (G.updated c key e).memory.counters k = c.memory.counters k) ∧
    (G.updated c key e).tracked = c.tracked := by
  have hclears : G.Clears c key ↔ e.state = .defaultState ∧ G.sum c.memory key = 0 := by
    constructor
    · rintro ⟨e',he',hc⟩
      rw [he] at he'
      exact Option.some.inj he' ▸ hc
    · exact fun hc => ⟨e,he,hc⟩
  rw [hclears]
  cases hs : e.state with
  | defaultState =>
    by_cases hsum : G.sum c.memory key = 0
    · have hupdated : G.updated c key e =
          c.setMemory (c.memory.clearTags key (List.range G.shards)) := by
        simp [Graph.updated,hs,hsum]
      rw [hupdated]
      refine ⟨rfl,fun _ k => ?_,fun hnot => absurd ⟨rfl,hsum⟩ hnot,
        fun k hk => Function.update_of_ne hk _ _,rfl⟩
      simp [Memory.clearTags]
    · simp [Graph.updated,hs,hsum]
  | requiresReChecking =>
    simp only [Graph.updated,hs]
    split <;> simp
  | readyToFree => simp [Graph.updated,hs]

theorem updated_weakRefs (c : Collector Memory) (key : Nat) (e : TrackedCounter) :
    (G.updated c key e).weakRefs e.pointee =
      (if e.state = .requiresReChecking ∧ G.next c key e = .requiresReChecking then .cleared
      else c.weakRefs e.pointee) ∧
    ∀ q, q ≠ e.pointee → (G.updated c key e).weakRefs q = c.weakRefs q := by
  cases hs : e.state with
  | defaultState =>
    simp only [Graph.updated,hs]
    split <;> simp
  | requiresReChecking =>
    simp only [Graph.updated,hs]
    split
    · rename_i hnext
      simp only [hnext,and_self,if_true,Function.update_self,true_and]
      exact fun q hq => Function.update_of_ne hq _ _
    · rename_i hnext
      simp [hnext]
  | readyToFree => simp [Graph.updated,hs]

theorem Scanned.visit {e : TrackedCounter} (h : Scanned G c₀ done c f) (hkey : key ∉ done)
    (hkeyed : G.quiet.Keyed c₀) (he : c.tracked[key]? = some e) :
    Scanned G c₀ (key :: done)
      ((G.updated c key e).setTracked key (G.next c key e)) (f.classify key (G.next c key e)) := by
  have he₀ : c₀.tracked[key]? = some e := by
    rw [← he,h.tracked key,if_neg hkey]
  have hcounters : c.memory.counters key = c₀.memory.counters key :=
    h.kept key (fun hc => hkey hc.1)
  have hnext : G.next c key e = G.next c₀ key e := by
    refine next_congr hcounters ?_
    rw [h.weakRefs key e he₀,if_neg (fun hc => hkey hc.1)]
  have hclears : G.Clears c key ↔ G.Clears c₀ key := by
    simp only [Graph.Clears,he,he₀,Graph.sum,hcounters]
  have hother : ∀ k, k ≠ key → (k ∈ key :: done ↔ k ∈ done) := fun k hk => by simp [hk]
  obtain ⟨hmem,hclear,hkeep,hcounters',htracked⟩ := updated_counters (G := G) he
  obtain ⟨hweak,hweak'⟩ := updated_weakRefs (G := G) c key e
  rw [hnext] at hweak ⊢
  refine ⟨?_,fun k hk hc j => ?_,fun k hk => ?_,fun k => ?_,fun k e' hk => ?_,?_,fun k => ?_,
    fun k => ?_⟩
  · change (G.updated c key e).memory = _
    rw [hmem,h.memory]
    rfl
  · change (G.updated c key e).memory.counters k j = _
    by_cases hkk : k = key
    · subst hkk
      rw [hclear (hclears.mpr hc) j,hcounters]
    · rw [hcounters' k hkk]
      exact h.cleared k ((hother k hkk).mp hk) hc j
  · change (G.updated c key e).memory.counters k = _
    by_cases hkk : k = key
    · subst hkk
      have hnot : ¬ G.Clears c k := fun hc => hk ⟨List.mem_cons_self,hclears.mp hc⟩
      rw [hkeep hnot,hcounters]
    · rw [hcounters' k hkk]
      exact h.kept k (fun hc => hk ⟨List.mem_cons_of_mem _ hc.1,hc.2⟩)
  · rw [getElem?_setTracked,htracked]
    by_cases hkk : k = key
    · subst hkk
      simp [he,he₀]
    · rw [if_neg (Ne.symm hkk),h.tracked k]
      simp [hkk]
  · change (G.updated c key e).weakRefs e'.pointee = _
    by_cases hkk : k = key
    · subst hkk
      rw [he₀] at hk
      obtain rfl := Option.some.inj hk
      rw [hweak,h.weakRefs k e he₀]
      simp [hkey]
    · have hne : e'.pointee ≠ e.pointee := by
        intro heq
        have h₁ := hkeyed k e' hk
        rw [heq,hkeyed key e he₀] at h₁
        exact hkk h₁.symm
      rw [hweak' _ hne,h.weakRefs k e' hk]
      simp [hkk]
  · cases hn : G.next c₀ key e with
    | readyToFree =>
      refine List.nodup_append.mpr ⟨h.toFreeNodup,by simp,fun k hk k' hk' heq => ?_⟩
      rw [heq,List.mem_singleton.mp hk'] at hk
      exact hkey ((h.toFree key).mp hk).1
    | _ => exact h.toFreeNodup
  · by_cases hkk : k = key
    · subst hkk
      have hnot : k ∉ f.toFree := fun hk => hkey ((h.toFree k).mp hk).1
      cases hn : G.next c₀ k e <;> simp [Found.classify,hnot,he₀,hn]
    · cases hn : G.next c₀ key e <;> simp [Found.classify,hkk,h.toFree k]
  · by_cases hkk : k = key
    · subst hkk
      have hnot : k ∉ f.newToReCheck := fun hk => hkey ((h.reCheck k).mp hk).1
      cases hn : G.next c₀ k e <;> simp [Found.classify,hnot,he₀,hn]
    · cases hn : G.next c₀ key e <;>
        simp [Found.classify,hkk,h.reCheck k,Std.TreeSet.mem_insert,Ne.symm hkk]

theorem visitKeys_quiet (todo : List Nat) (hkeyed : G.quiet.Keyed c₀)
    (hready : ∀ (key : Nat) e, c₀.tracked[key]? = some e → e.state ≠ .readyToFree)
    (hsum : ∀ (key : Nat) e, c₀.tracked[key]? = some e → 0 ≤ G.sum c₀.memory key) :
    ∀ (done : List Nat) {c : Collector Memory} {f : Found}, (todo ++ done).Nodup →
      Scanned G c₀ done c f →
      ∃ c' f', G.quiet.visitKeys ∅ todo c f = .ok (c',f') ∧
        Scanned G c₀ (todo.reverse ++ done) c' f' := by
  induction todo with
  | nil => exact fun _ _ _ _ h => ⟨_,_,rfl,h⟩
  | cons key todo ih =>
    intro done c f hnodup h
    obtain ⟨hnot,hrest⟩ := List.nodup_cons.mp hnodup
    have hkey : key ∉ done := fun hmem => hnot (List.mem_append_right _ hmem)
    have hrest' : (todo ++ key :: done).Nodup :=
      List.perm_middle.nodup_iff.mpr hnodup
    have hdone : (key :: todo).reverse ++ done = todo.reverse ++ (key :: done) := by simp
    simp only [Environment.visitKeys,hdone]
    cases he : c.tracked[key]? with
    | none => exact ih _ hrest' (h.untracked hkey he)
    | some e =>
      have he₀ : c₀.tracked[key]? = some e := by
        rw [← he,h.tracked key,if_neg hkey]
      have hcounters : c.memory.counters key = c₀.memory.counters key :=
        h.kept key (fun hc => hkey hc.1)
      have hnn : 0 ≤ G.sum c.memory key := by
        have := hsum key e he₀
        simpa only [Graph.sum,hcounters] using this
      simp only [Finset.notMem_empty,if_false,updateState_quiet (hready key e he₀) hnn]
      exact ih _ hrest' (h.visit hkey hkeyed he)

end Scan

end Sdarc.Collection
