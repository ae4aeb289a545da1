import Sdarc.Collection.Iterations
set_option autoImplicit false

/-!
What is left of an outer iteration at any point of it. Where the collector stands within a
pass over the shards, a loop over keys or a loop over pointees to free is data here, and one
step of it leaves the same remainder.
-/

open Sdarc.System

namespace Sdarc.Collection.Environment

variable {M : Type} (env : Environment M)

def shardsFrom (k : Nat) : List Nat := List.range' k (env.shards - k)

@[simp] theorem shardsFrom_zero : env.shardsFrom 0 = List.range env.shards := by
  simp [shardsFrom,List.range_eq_range']

theorem shardsFrom_lt {k : Nat} (h : k < env.shards) :
    env.shardsFrom k = k :: env.shardsFrom (k+1) := by
  have hlen : env.shards - k = env.shards - (k+1) + 1 := by omega
  rw [shardsFrom,hlen,List.range'_succ,shardsFrom]

theorem shardsFrom_ge {k : Nat} (h : env.shards ≤ k) : env.shardsFrom k = [] := by
  rw [shardsFrom,Nat.sub_eq_zero_of_le h]
  rfl

def readShard (m : M) (key k : Nat) : UpdatePc → Counter × M
  | .readRelaxed _ _ => env.loadRelaxed m key k
  | .clearTags _ _ => env.fetchAndClearTag m key k
  | .readIfUntagged _ _ => env.loadAcquire m key k
  | .clearWeakBackRef => (⟨0,false⟩,m)

def restOfUpdate (key p : Nat) :
    UpdatePc → Collector M → Except CollectorPanic (TrackedCounterState × Collector M)
  | .readRelaxed k sum, c =>
      match readRefCountSum (fun m shard => env.loadRelaxed m key shard) (env.shardsFrom k)
          c.memory with
      | (rest,m₁) =>
          if sum + rest = 0 then
            match env.clearTagsAndReadRefCountSum key m₁ with
            | (sum',m₂) =>
                if sum' = 0 then .ok (.requiresReChecking,c.setMemory m₂)
                else .ok (.defaultState,c.setMemory m₂)
          else .ok (.defaultState,c.setMemory m₁)
  | .clearTags k sum, c =>
      match readRefCountSum (fun m shard => env.fetchAndClearTag m key shard)
          (env.shardsFrom k) c.memory with
      | (rest,m) =>
          if sum + rest = 0 then .ok (.requiresReChecking,c.setMemory m)
          else .ok (.defaultState,c.setMemory m)
  | .readIfUntagged k sum, c =>
      match env.readUntagged key (env.shardsFrom k) c.memory with
      | (none,m) => .ok (.defaultState,c.setMemory m)
      | (some rest,m) =>
          if sum + rest = 0 then
            match env.clearWeakBackRef p (c.setMemory m) with
            | (.weakBackRefCleared,c') => .ok (.requiresReChecking,c')
            | (_,c') => .ok (.readyToFree,c')
          else if 0 < sum + rest then .ok (.defaultState,c.setMemory m)
          else .error (.updateState .negativeSumWithoutTag)
  | .clearWeakBackRef, c =>
      match env.clearWeakBackRef p c with
      | (.weakBackRefCleared,c') => .ok (.requiresReChecking,c')
      | (_,c') => .ok (.readyToFree,c')

def restOfResult (key p : Nat) (c : Collector M) :
    UpdateResult → Except CollectorPanic (TrackedCounterState × Collector M)
  | .goto pc => env.restOfUpdate key p pc c
  | .done state => .ok (state,c)
  | .panic site => .error (.updateState site)

section Update

variable {env : Environment M} {key p k : Nat} {pc : UpdatePc} {c : Collector M}

theorem updateState_eq (e : TrackedCounter) :
    env.updateState key e c = env.restOfResult key e.pointee c (UpdatePc.start e.state) := by
  cases hs : e.state with
  | defaultState =>
    simp only [updateState,hs,restOfResult,UpdatePc.start,restOfUpdate,readRefCountSumRelaxed,
      shardsFrom_zero,zero_add]
    rfl
  | requiresReChecking =>
    simp only [restOfResult,UpdatePc.start,restOfUpdate,shardsFrom_zero,updateState,hs,
      readRefCountSumIfAllTagsUnset]
    rcases env.readUntagged key (List.range env.shards) c.memory with ⟨_ | sum,m⟩
    · simp only
    · by_cases hzero : sum = 0
      · rcases hclear : env.clearWeakBackRef e.pointee (c.setMemory m) with ⟨_ | _ | _,c'⟩ <;>
          simp only [hzero,zero_add,if_true,hclear]
      · by_cases hpos : 0 < sum
        · simp only [zero_add,hzero,hpos,if_true,if_false]
        · simp only [zero_add,hzero,hpos,if_false]
  | readyToFree => simp [updateState,hs,restOfResult,UpdatePc.start]

theorem restOfUpdate_visit {v : Counter} {m : M} (hk : pc.shard = some k) (hlt : k < env.shards)
    (hread : env.readShard c.memory key k pc = (v,m)) :
    env.restOfUpdate key p pc c = env.restOfResult key p (c.setMemory m) (pc.visit v) := by
  cases pc with
  | readRelaxed j sum =>
    obtain rfl : j = k := by simpa [UpdatePc.shard] using hk
    simp only [readShard] at hread
    simp only [restOfUpdate,env.shardsFrom_lt hlt,readRefCountSum,hread,UpdatePc.visit,restOfResult,
      Collector.setMemory,add_assoc]
    rfl
  | clearTags j sum =>
    obtain rfl : j = k := by simpa [UpdatePc.shard] using hk
    simp only [readShard] at hread
    simp only [restOfUpdate,env.shardsFrom_lt hlt,readRefCountSum,hread,UpdatePc.visit,restOfResult,
      Collector.setMemory,add_assoc]
  | readIfUntagged j sum =>
    obtain rfl : j = k := by simpa [UpdatePc.shard] using hk
    simp only [readShard] at hread
    simp only [restOfUpdate,env.shardsFrom_lt hlt,readUntagged,hread,UpdatePc.visit]
    cases v.tag with
    | true => rfl
    | false =>
      simp only [Bool.false_eq_true,if_false,restOfResult,restOfUpdate,Collector.setMemory]
      cases env.readUntagged key (env.shardsFrom (j+1)) m with
      | mk sum' m' =>
        cases sum' with
        | none => rfl
        | some rest =>
          simp only [add_assoc]
  | clearWeakBackRef => simp [UpdatePc.shard] at hk

theorem restOfUpdate_finish (hk : pc.shard = some k) (hge : env.shards ≤ k) :
    env.restOfUpdate key p pc c = env.restOfResult key p c pc.finish := by
  cases pc with
  | readRelaxed j sum =>
    obtain rfl : j = k := by simpa [UpdatePc.shard] using hk
    simp only [restOfUpdate,env.shardsFrom_ge hge,readRefCountSum,UpdatePc.finish,add_zero]
    by_cases hsum : sum = 0
    · simp only [hsum,if_true,restOfResult,restOfUpdate,shardsFrom_zero,
        clearTagsAndReadRefCountSum,zero_add]
      rfl
    · simp only [hsum,if_false]
      rfl
  | clearTags j sum =>
    obtain rfl : j = k := by simpa [UpdatePc.shard] using hk
    simp only [restOfUpdate,env.shardsFrom_ge hge,readRefCountSum,UpdatePc.finish,add_zero]
    by_cases hsum : sum = 0 <;> simp only [hsum,if_true,if_false] <;> rfl
  | readIfUntagged j sum =>
    obtain rfl : j = k := by simpa [UpdatePc.shard] using hk
    simp only [restOfUpdate,env.shardsFrom_ge hge,readUntagged,UpdatePc.finish,add_zero]
    by_cases hsum : sum = 0
    · simp only [hsum,if_true]
      rfl
    · by_cases hpos : 0 < sum <;> simp only [hsum,hpos,if_true,if_false] <;> rfl
  | clearWeakBackRef => simp [UpdatePc.shard] at hk

theorem restOfUpdate_clearWeak {r : ClearWeakBackRefResult} {c' : Collector M}
    (h : env.clearWeakBackRef p c = (r,c')) :
    env.restOfUpdate key p .clearWeakBackRef c =
      env.restOfResult key p c' (UpdatePc.afterClearWeak r) := by
  simp only [restOfUpdate,h]
  cases r <;> rfl

theorem clearWeakBackRef_notInvolved {m : M} (hread : env.downgraded c.memory p = (false,m))
    (huninit : c.weakRefs p = .uninit) :
    env.clearWeakBackRef p c = (.weakRefNotInvolved,c.setMemory m) := by
  simp only [clearWeakBackRef,hread,huninit,Bool.false_eq_true,if_false]

theorem clearWeakBackRef_cleared {m : M} (hread : env.downgraded c.memory p = (true,m))
    (hset : c.weakRefs p ≠ .cleared) : env.clearWeakBackRef p c =
      (.weakBackRefCleared,
        { c with memory := m, weakRefs := Function.update c.weakRefs p .cleared }) := by
  simp only [clearWeakBackRef,hread]
  cases hweak : c.weakRefs p with
  | cleared => exact absurd hweak hset
  | linked => rfl
  | uninit => rfl

theorem clearWeakBackRef_alreadyNull {downgraded : Bool} {m : M}
    (hread : env.downgraded c.memory p = (downgraded,m)) (hnull : c.weakRefs p = .cleared) :
    env.clearWeakBackRef p c = (.weakBackRefWasAlreadyNull,c.setMemory m) := by
  simp only [clearWeakBackRef,hread,hnull]

end Update

def restOfLoop (cap : Nat) (deep : Bool) (round : Nat) (toReCheck : Std.TreeSet Nat)
    (c : Collector M) : Except CollectorPanic (LoopEnd × Collector M) :=
  if deep then env.reCheckLoop (cap - round) round toReCheck c else .ok (⟨0,∅⟩,c)

def restOfFreeing (cap : Nat) (deep : Bool) (round : Nat) (f : Found) (toReCheck : List Nat)
    (c : Collector M) : Except CollectorPanic (LoopEnd × Collector M) :=
  match env.freePointers f.toFree c toReCheck with
  | .error site => .error site
  | .ok (c',toReCheck') =>
      env.restOfLoop cap deep round (f.newToReCheck.insertMany toReCheck') c'

def restOfVisiting (cap : Nat) (deep : Bool) (round : Nat) (hazard : Finset Nat)
    (todo : List Nat) (f : Found) (c : Collector M) :
    Except CollectorPanic (LoopEnd × Collector M) :=
  match env.visitKeys hazard todo c f with
  | .error site => .error site
  | .ok (c',f') => env.restOfFreeing cap deep round f' [] c'

def restOfChecking (cap : Nat) (deep : Bool) (round : Nat) (hazard : Finset Nat) (key : Nat)
    (todo : List Nat) (f : Found) :
    Except CollectorPanic (TrackedCounterState × Collector M) →
      Except CollectorPanic (LoopEnd × Collector M)
  | .error site => .error site
  | .ok (state,c) =>
      env.restOfVisiting cap deep round hazard todo (f.classify key state)
        (c.setTracked key state)

def restOfIteration (cap : Nat) (deep : Bool) (round : Nat) (todo : List Nat)
    (c : Collector M) : Except CollectorPanic (LoopEnd × Collector M) :=
  match env.traverse c.memory with
  | (hazard,m) => env.restOfVisiting cap deep round hazard todo ⟨∅,[]⟩ (c.setMemory m)

/-- What is left with the entries `taken` and the shards from `shard` on still to be tracked. -/
def restOfTaking (cap : Nat) (deep : Bool) (shard : Nat) (taken : List Entry)
    (c : Collector M) : Except CollectorPanic (LoopEnd × Collector M) :=
  match insertTaken taken c with
  | .error site => .error site
  | .ok c₁ =>
      match env.takeNewCountersToTrack (env.shardsFrom shard) c₁ with
      | .error site => .error site
      | .ok c₂ => env.restOfIteration cap deep 0 c₂.tracked.keys c₂

section Iteration

variable {env : Environment M} {cap round : Nat} {deep : Bool} {c : Collector M}

theorem innerIteration_rest (todo : List Nat) :
    env.restOfIteration cap deep round todo c =
      match env.innerIteration todo c with
      | .error site => .error site
      | .ok (toReCheck,c') => env.restOfLoop cap deep round toReCheck c' := by
  unfold restOfIteration innerIteration restOfVisiting restOfFreeing
  cases env.traverse c.memory with
  | mk hazard m =>
    dsimp only
    cases env.visitKeys hazard todo (c.setMemory m) ⟨∅,[]⟩ with
    | error site => rfl
    | ok x =>
      dsimp only
      cases env.freePointers x.2.toFree x.1 [] with
      | error site => rfl
      | ok y => rfl

theorem restOfIteration_first : env.restOfIteration cap deep 0 c.tracked.keys c =
    env.doCollectionInnerIterations cap deep c := by
  simp only [doCollectionInnerIterations,updateAllTrackedCounters,innerIteration_rest]
  cases env.innerIteration c.tracked.keys c with
  | error site => rfl
  | ok x => rfl

theorem update_eq : env.update cap deep c = env.restOfTaking cap deep 0 [] c := by
  simp only [restOfTaking,insertTaken,shardsFrom_zero,update]
  cases env.takeNewCountersToTrack (List.range env.shards) c with
  | error site => simp only
  | ok c' => simp only [restOfIteration_first]

theorem restOfTaking_insert {shard : Nat} {e : Entry} {taken : List Entry}
    (h : c.tracked[e.countersPtr]? = none) :
    env.restOfTaking cap deep shard (e :: taken) c =
      env.restOfTaking cap deep shard taken
        { c with tracked := c.tracked.insert e.countersPtr ⟨e.pointee,.defaultState⟩ } := by
  simp only [restOfTaking,insertTaken,h]

theorem restOfTaking_take {shard : Nat} {taken : List Entry} {m : M} (h : shard < env.shards)
    (hread : env.takePending c.memory shard = (taken,m)) :
    env.restOfTaking cap deep shard [] c =
      env.restOfTaking cap deep (shard+1) taken (c.setMemory m) := by
  simp only [restOfTaking,insertTaken,env.shardsFrom_lt h,takeNewCountersToTrack,hread]
  cases insertTaken taken (c.setMemory m) with
  | error site => rfl
  | ok c' => rfl

theorem restOfTaking_done {shard : Nat} (h : env.shards ≤ shard) :
    env.restOfTaking cap deep shard [] c =
      env.restOfIteration cap deep 0 c.tracked.keys c := by
  simp only [restOfTaking,insertTaken,env.shardsFrom_ge h,takeNewCountersToTrack]

theorem restOfIteration_traverse {todo : List Nat} {hazard : Finset Nat} {m : M}
    (hread : env.traverse c.memory = (hazard,m)) :
    env.restOfIteration cap deep round todo c =
      env.restOfVisiting cap deep round hazard todo ⟨∅,[]⟩ (c.setMemory m) := by
  simp only [restOfIteration,hread]

variable {hazard : Finset Nat} {key : Nat} {todo toReCheck : List Nat} {f : Found}
  {e : TrackedCounter}

theorem restOfVisiting_nil : env.restOfVisiting cap deep round hazard [] f c =
    env.restOfFreeing cap deep round f [] c := rfl

theorem restOfVisiting_skip (h : c.tracked[key]? = none) :
    env.restOfVisiting cap deep round hazard (key :: todo) f c =
      env.restOfVisiting cap deep round hazard todo f c := by
  simp only [restOfVisiting,visitKeys,h]

theorem restOfVisiting_hazard (h : c.tracked[key]? = some e)
    (hhazard : env.ptr e.pointee ∈ hazard) :
    env.restOfVisiting cap deep round hazard (key :: todo) f c =
      env.restOfVisiting cap deep round hazard todo f (c.setTracked key .defaultState) := by
  simp only [restOfVisiting,visitKeys,h,if_pos hhazard]

theorem restOfVisiting_update (h : c.tracked[key]? = some e)
    (hhazard : env.ptr e.pointee ∉ hazard) :
    env.restOfVisiting cap deep round hazard (key :: todo) f c =
      env.restOfChecking cap deep round hazard key todo f
        (env.restOfResult key e.pointee c (UpdatePc.start e.state)) := by
  simp only [restOfVisiting,visitKeys,h,if_neg hhazard,updateState_eq]
  cases env.restOfResult key e.pointee c (UpdatePc.start e.state) with
  | error site => rfl
  | ok x => rfl

theorem restOfFreeing_nil {S : Std.TreeSet Nat} :
    env.restOfFreeing cap deep round ⟨S,[]⟩ toReCheck c =
      env.restOfLoop cap deep round (S.insertMany toReCheck) c := rfl

theorem restOfFreeing_free {toFree dropped : List Nat} {S : Std.TreeSet Nat} {m : M}
    (h : c.tracked[key]? = some e) (hready : e.state = .readyToFree)
    (hptr : env.countersPtr e.pointee = key)
    (hread : env.free c.memory e.pointee = (dropped,m)) :
    env.restOfFreeing cap deep round ⟨S,key :: toFree⟩ toReCheck c =
      env.restOfFreeing cap deep round ⟨S,toFree⟩ (toReCheck ++ dropped)
        { c with memory := m, tracked := c.tracked.erase key } := by
  simp only [restOfFreeing,freePointers,h,hready,hptr,ne_eq,not_true_eq_false,if_false,hread]

theorem restOfLoop_next {S : Std.TreeSet Nat} (hsome : S.isEmpty = false) (hround : round < cap) :
    env.restOfLoop cap true round S c = env.restOfIteration cap true (round+1) S.toList c := by
  have hcap : cap - round = cap - (round+1) + 1 := by omega
  cases hinner : env.innerIteration S.toList c with
  | error site =>
    simp only [innerIteration_rest,restOfLoop,if_true,hcap,reCheckLoop,hsome,Bool.false_eq_true,
      if_false,updateSpecificCounters,hinner]
  | ok x =>
    simp only [innerIteration_rest,restOfLoop,if_true,hcap,reCheckLoop,hsome,Bool.false_eq_true,
      if_false,updateSpecificCounters,hinner]

theorem restOfLoop_end {S : Std.TreeSet Nat}
    (h : ¬ (deep = true ∧ S.isEmpty = false ∧ round < cap)) :
    env.restOfLoop cap deep round S c = .ok (if deep then ⟨round,S⟩ else ⟨0,∅⟩,c) := by
  cases deep with
  | false => rfl
  | true =>
    simp only [restOfLoop,if_true]
    cases hsome : S.isEmpty with
    | true => cases cap - round <;> simp [reCheckLoop,hsome]
    | false =>
      have hcap : cap - round = 0 := by
        by_contra hne
        exact h ⟨rfl,hsome,by omega⟩
      rw [hcap]
      rfl

end Iteration

end Sdarc.Collection.Environment
