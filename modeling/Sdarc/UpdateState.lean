import Sdarc.TaggedCounter
set_option autoImplicit false

/-!
`TrackedCounter::update_state` cut at its accesses to shared memory. The three
passes over the shards differ in what they do at a shard and in what they do
with the sum; everything between two accesses is local to the collector.
-/

namespace Sdarc

inductive TrackedCounterState where
  | defaultState | requiresReChecking | readyToFree
  deriving DecidableEq, Repr

inductive ClearWeakBackRefResult where
  | weakRefNotInvolved | weakBackRefCleared | weakBackRefWasAlreadyNull
  deriving DecidableEq, Repr

/-- Where a call of `update_state` stands. `k` is the shard the pass visits
next, `sum` the sum over the shards before it. -/
inductive UpdatePc where
  | readRelaxed (k : Nat) (sum : Int)
  | clearTags (k : Nat) (sum : Int)
  | readIfUntagged (k : Nat) (sum : Int)
  | clearWeakBackRef
  deriving DecidableEq, Repr

inductive UpdatePanic where
  | calledInReadyToFree
  | negativeSumWithoutTag
  deriving DecidableEq, Repr

inductive UpdateResult where
  | goto (pc : UpdatePc)
  | done (state : TrackedCounterState)
  | panic (site : UpdatePanic)
  deriving DecidableEq, Repr

namespace UpdatePc

def start : TrackedCounterState → UpdateResult
  | .defaultState => .goto (.readRelaxed 0 0)
  | .requiresReChecking => .goto (.readIfUntagged 0 0)
  | .readyToFree => .panic .calledInReadyToFree

def shard : UpdatePc → Option Nat
  | .readRelaxed k _ => some k
  | .clearTags k _ => some k
  | .readIfUntagged k _ => some k
  | .clearWeakBackRef => none

def clearsTag : UpdatePc → Bool
  | .clearTags _ _ => true
  | _ => false

def visit (v : Counter) : UpdatePc → UpdateResult
  | .readRelaxed k sum => .goto (.readRelaxed (k+1) (sum + v.refCount))
  | .clearTags k sum => .goto (.clearTags (k+1) (sum + v.refCount))
  | .readIfUntagged k sum =>
      if v.tag then .done .defaultState
      else .goto (.readIfUntagged (k+1) (sum + v.refCount))
  | .clearWeakBackRef => .goto .clearWeakBackRef

def sum : UpdatePc → Int
  | .readRelaxed _ sum => sum
  | .clearTags _ sum => sum
  | .readIfUntagged _ sum => sum
  | .clearWeakBackRef => 0

/-- The sum is an `i64`: in a release build it wraps around, in a debug build the addition
panics. -/
def wrapSum : UpdatePc → UpdatePc
  | .readRelaxed k sum => .readRelaxed k (sum.bmod UInt64.size)
  | .clearTags k sum => .clearTags k (sum.bmod UInt64.size)
  | .readIfUntagged k sum => .readIfUntagged k (sum.bmod UInt64.size)
  | .clearWeakBackRef => .clearWeakBackRef

end UpdatePc

def UpdateResult.wrapSum : UpdateResult → UpdateResult
  | .goto pc => .goto pc.wrapSum
  | .done state => .done state
  | .panic site => .panic site

namespace UpdatePc

theorem bmod_of_fits {x : Int} (hlo : -2^63 ≤ x) (hhi : x < 2^63) :
    x.bmod UInt64.size = x := by
  have hsize : (UInt64.size : Int) = 2 * 2^63 := rfl
  exact Int.bmod_eq_of_le_mul_two (by omega) (by omega)

theorem visit_wrapSum {v : Counter} {pc : UpdatePc} (hlo : -2^63 ≤ pc.sum + v.refCount)
    (hhi : pc.sum + v.refCount < 2^63) : (pc.visit v).wrapSum = pc.visit v := by
  have hfits := bmod_of_fits hlo hhi
  cases pc with
  | readRelaxed k sum => exact congrArg (fun x => UpdateResult.goto (.readRelaxed (k+1) x)) hfits
  | clearTags k sum => exact congrArg (fun x => UpdateResult.goto (.clearTags (k+1) x)) hfits
  | readIfUntagged k sum =>
    simp only [visit]
    split
    · rfl
    · exact congrArg (fun x => UpdateResult.goto (.readIfUntagged (k+1) x)) hfits
  | clearWeakBackRef => rfl

def finish : UpdatePc → UpdateResult
  | .readRelaxed _ sum => if sum = 0 then .goto (.clearTags 0 0) else .done .defaultState
  | .clearTags _ sum => if sum = 0 then .done .requiresReChecking else .done .defaultState
  | .readIfUntagged _ sum =>
      if sum = 0 then .goto .clearWeakBackRef
      else if 0 < sum then .done .defaultState
      else .panic .negativeSumWithoutTag
  | .clearWeakBackRef => .goto .clearWeakBackRef

def afterClearWeak : ClearWeakBackRefResult → UpdateResult
  | .weakRefNotInvolved => .done .readyToFree
  | .weakBackRefWasAlreadyNull => .done .readyToFree
  | .weakBackRefCleared => .done .requiresReChecking

def expects : UpdatePc → TrackedCounterState
  | .readRelaxed _ _ => .defaultState
  | .clearTags _ _ => .defaultState
  | .readIfUntagged _ _ => .requiresReChecking
  | .clearWeakBackRef => .requiresReChecking

theorem start_goto {state : TrackedCounterState} {pc : UpdatePc}
    (h : start state = .goto pc) : pc.expects = state := by
  cases state <;> simp only [start,UpdateResult.goto.injEq,reduceCtorEq] at h <;>
    subst h <;> rfl

theorem start_panic {state : TrackedCounterState} {site : UpdatePanic}
    (h : start state = .panic site) : state = .readyToFree := by
  cases state <;> simp [start] at h ⊢

theorem visit_goto {v : Counter} {pc pc' : UpdatePc} (h : pc.visit v = .goto pc') :
    pc'.expects = pc.expects := by
  cases pc with
  | readIfUntagged k sum =>
    simp only [visit] at h
    split at h
    · contradiction
    · obtain rfl := UpdateResult.goto.inj h
      rfl
  | _ =>
    obtain rfl := UpdateResult.goto.inj h
    rfl

theorem visit_ne_panic (v : Counter) (pc : UpdatePc) (site : UpdatePanic) :
    pc.visit v ≠ .panic site := by
  cases pc with
  | readIfUntagged k sum =>
    simp only [visit]
    split <;> simp
  | _ => simp [visit]

theorem finish_goto {pc pc' : UpdatePc} (h : pc.finish = .goto pc') :
    pc'.expects = pc.expects := by
  cases pc with
  | clearWeakBackRef =>
    obtain rfl := UpdateResult.goto.inj h
    rfl
  | _ =>
    simp only [finish] at h
    split at h
    · first
        | (obtain rfl := UpdateResult.goto.inj h; rfl)
        | contradiction
    · first
        | contradiction
        | (split at h <;> contradiction)

theorem start_shard {state : TrackedCounterState} {pc : UpdatePc} {k : Nat}
    (h : start state = .goto pc) (hk : pc.shard = some k) : k = 0 := by
  cases state <;> simp only [start,UpdateResult.goto.injEq,reduceCtorEq] at h <;>
    subst h <;> simpa [shard,eq_comm] using hk

theorem visit_shard {c : Counter} {pc pc' : UpdatePc} {k k' : Nat}
    (h : pc.visit c = .goto pc') (hk : pc.shard = some k) (hk' : pc'.shard = some k') :
    k' = k + 1 := by
  cases pc with
  | readIfUntagged j sum =>
    simp only [visit] at h
    split at h
    · contradiction
    · obtain rfl := UpdateResult.goto.inj h
      simp_all [shard]
  | _ =>
    obtain rfl := UpdateResult.goto.inj h
    simp_all [shard]

theorem finish_shard {pc pc' : UpdatePc} {k : Nat} (h : pc.finish = .goto pc')
    (hk : pc'.shard = some k) : k = 0 := by
  cases pc with
  | readRelaxed j sum =>
    simp only [finish] at h
    split at h
    · obtain rfl := UpdateResult.goto.inj h
      simpa [shard,eq_comm] using hk
    · contradiction
  | clearTags j sum =>
    simp only [finish] at h
    split at h <;> contradiction
  | readIfUntagged j sum =>
    simp only [finish] at h
    split at h
    · obtain rfl := UpdateResult.goto.inj h
      simp [shard] at hk
    · split at h <;> contradiction
  | clearWeakBackRef =>
    obtain rfl := UpdateResult.goto.inj h
    simp [shard] at hk

theorem finish_panic {pc : UpdatePc} {site : UpdatePanic} (h : pc.finish = .panic site) :
    site = .negativeSumWithoutTag := by
  cases pc with
  | clearWeakBackRef => simp [finish] at h
  | readIfUntagged k sum =>
    simp only [finish] at h
    split at h
    · contradiction
    · split at h
      · contradiction
      · exact (UpdateResult.panic.inj h).symm
  | _ => simp only [finish] at h; split at h <;> contradiction

end UpdatePc

end Sdarc
