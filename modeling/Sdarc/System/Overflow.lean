import Sdarc.Overflow
import Sdarc.System.Replay
set_option autoImplicit false

/-!
Counts and sums are integers in the process; in the code they are 63 bits of a word and an
`i64`. The number of steps bounds them, so a run would have to take `2^62` steps to tell.
-/

namespace Sdarc.System
open Transition Collection

def State.counts (s : State) (key shard : Nat) : Int := (s.counters key shard).refCount

section Steps

variable {cfg : Config} {s s' : State} {t : Nat}

theorem growsByOne_set {key slot shard : Nat} {v : Counter}
    (hv : v.refCount.natAbs ≤ (s.counters slot shard).refCount.natAbs + 1)
    (h : s'.counters = (s.setCounter slot shard v).counters) :
    GrowsByOne (s.counts key) (s'.counts key) := by
  by_cases hk : key = slot
  · subst hk
    have hcounts : s'.counts key = Function.update (s.counts key) shard v.refCount := by
      funext i
      rw [State.counts,h,counters_setCounter]
      by_cases hi : i = shard <;> simp [hi,State.counts]
    rw [hcounts]
    exact .update hv
  · refine .of_eq (funext fun i => ?_)
    rw [State.counts,h,counters_setCounter,if_neg (fun hki => hk hki.1),State.counts]

theorem growsByOne_increment {key : Nat} (p shard : Nat)
    (h : s'.counters = (s.increment p shard).counters) :
    GrowsByOne (s.counts key) (s'.counts key) :=
  growsByOne_set (Int.natAbs_add_le _ 1) h

theorem growsByOne_allocate {key countersPtr shard : Nat}
    (h : s'.counters = Function.update s.counters countersPtr
      (Function.update (fun _ => .new) shard Counter.new.increment)) :
    GrowsByOne (s.counts key) (s'.counts key) := by
  by_cases hk : key = countersPtr
  · subst hk
    refine ⟨shard,fun i hi => ?_,?_⟩
    · simp [State.counts,h,hi,Counter.new]
    · simp [State.counts,h,Counter.new,Counter.increment]
  · exact .of_eq (funext fun i => by simp [State.counts,h,hk])

theorem ThreadStep.growsByOne {op : Op} {key : Nat} (hs : ThreadStep cfg s t op s') :
    GrowsByOne (s.counts key) (s'.counts key) := by
  cases hs with
  | sdarcNew | newWeakInner => exact growsByOne_allocate rfl
  | clone p shard | loadIncrement _ _ p shard | cloneWeakInner shard _ p
  | incrementThenSet p _ shard => exact growsByOne_increment p shard rfl
  | decrement p shard => exact growsByOne_set (Int.natAbs_sub_le _ 1) rfl
  | _ => exact .of_eq rfl

theorem CollectorStep.growsByOne {key : Nat} (hs : CollectorStep cfg s s') :
    GrowsByOne (s.counts key) (s'.counts key) := by
  cases hs with
  | clearTag it k j =>
    exact growsByOne_set (v := (s.counters k j).clearTag) (Nat.le_succ _) rfl
  | weakBackRefCleared | startUpdate | readShard | finishPass | weakRefNotInvolved
  | weakBackRefWasAlreadyNull =>
    refine .of_eq (funext fun i => ?_)
    rw [State.counts,(SameMemory.resume _ _ _).counters]
    rfl
  | _ => exact .of_eq rfl

structure Small (cfg : Config) (k : Nat) (s : State) : Prop where
  counts : ∀ key, magnitude cfg.shards 0 (s.counts key) ≤ k
  sum : ∀ it key pc, s.collector = .checking it key pc → pc.Small cfg.shards k (s.counts key)

theorem small_initial (cfg : Config) : Small cfg 0 .initial where
  counts key := by simp [magnitude,State.counts,State.initial,Counter.new]
  sum _ _ _ hc := by simp [State.initial] at hc

theorem resume_checks {it it' : Iter} {key key' : Nat} {result : UpdateResult} {pc : UpdatePc}
    (h : (s.resume it key result).collector = .checking it' key' pc) :
    key' = key ∧ result = .goto pc := by
  cases result with
  | goto pc' =>
    obtain ⟨-,rfl,rfl⟩ := CollectorPc.checking.inj h
    exact ⟨rfl,rfl⟩
  | done state | panic site => contradiction

theorem CollectorStep.small {k key : Nat} (h : Small cfg k s) (hs : CollectorStep cfg s s')
    {it : Iter} {pc : UpdatePc} (hpc : s'.collector = .checking it key pc) :
    pc.Small cfg.shards k (s.counts key) := by
  cases hs with
  | startUpdate it' key' todo e =>
    obtain ⟨rfl,hgoto⟩ := resume_checks hpc
    exact UpdatePc.small_start hgoto (h.counts key)
  | readShard it' key' j pc' hc hj hlt =>
    obtain ⟨rfl,hgoto⟩ := resume_checks hpc
    exact (h.sum it' key pc' hc).visit rfl hj hlt hgoto
  | clearTag it' key' j sum hc hlt =>
    obtain ⟨-,rfl,rfl⟩ := CollectorPc.checking.inj hpc
    exact (h.sum it' key' _ hc).visit rfl rfl hlt rfl
  | finishPass it' key' j pc' hc =>
    obtain ⟨rfl,hgoto⟩ := resume_checks hpc
    exact UpdatePc.small_finish hgoto (h.counts key)
  | weakBackRefCleared | weakRefNotInvolved | weakBackRefWasAlreadyNull =>
    cases (resume_checks hpc).2
  | spin _ _ _ _ hc =>
    rw [hc] at hpc
    contradiction
  | _ => contradiction

theorem SystemStep.small {a : Action} {k : Nat} (h : Small cfg k s)
    (hs : SystemStep cfg s a s') : Small cfg (k+1) s' := by
  have hgrows : ∀ key, GrowsByOne (s.counts key) (s'.counts key) := by
    intro key
    cases hs with
    | thread t op _ _ hs => exact hs.growsByOne
    | collector _ hs => exact hs.growsByOne
    | finishDestructor => exact .of_eq rfl
  refine ⟨fun key => (hgrows key).magnitude_le.trans (Nat.succ_le_succ (h.counts key)),
    fun it key pc hpc => ?_⟩
  have hold : pc.Small cfg.shards k (s.counts key) := by
    cases hs with
    | thread t op _ _ hs => exact h.sum it key pc (hs.collector.1 ▸ hpc)
    | collector _ hs => exact hs.small h hpc
    | finishDestructor => contradiction
  exact hold.grows (hgrows key)

end Steps

section Runs

variable {cfg : Config} {N : Nat} {e : Execution (step cfg) N}

theorem small_of_initial (h₀ : e.state 0 = .initial) {k : Nat} (hk : k ≤ N) :
    Small cfg k (e.state k) :=
  e.invariant (fun k => Small cfg k (e.state k)) (h₀ ▸ small_initial cfg)
    (fun _ _ h hs => (step_cases hs).small h) hk

theorem natAbs_count_le (h₀ : e.state 0 = .initial) {k : Nat} (hk : k ≤ N) {shard : Nat}
    (hshard : shard < cfg.shards) (key : Nat) :
    ((e.state k).counters key shard).refCount.natAbs ≤ k :=
  (natAbs_le_magnitude ((e.state k).counts key) (Nat.zero_le shard) hshard).trans
    ((small_of_initial h₀ hk).counts key)

theorem counts_fit (h₀ : e.state 0 = .initial) {k : Nat} (hk : k ≤ N) (hlt : k < 2^62 - 1)
    {shard : Nat} (hshard : shard < cfg.shards) (key : Nat) :
    ∃ c : TaggedCounter, c.value = (e.state k).counters key shard ∧
      c.increment.value = ((e.state k).counters key shard).increment ∧
      c.decrementAndSetTag.value = ((e.state k).counters key shard).decrementAndSetTag ∧
      c.clearTag.value = ((e.state k).counters key shard).clearTag := by
  have hle := natAbs_count_le h₀ hk hshard key
  obtain ⟨c,hc⟩ := TaggedCounter.exists_value (v := (e.state k).counters key shard)
    (by omega) (by omega)
  have hcount : c.refCount = ((e.state k).counters key shard).refCount :=
    congrArg Counter.refCount hc
  exact ⟨c,hc,hc ▸ c.value_increment (by omega),hc ▸ c.value_decrementAndSetTag (by omega),
    hc ▸ c.value_clearTag⟩

theorem sums_fit (h₀ : e.state 0 = .initial) {k : Nat} (hk : k ≤ N) (hlt : k < 2^62) {it : Iter}
    {key shard : Nat} {pc : UpdatePc} (hc : (e.state k).collector = .checking it key pc)
    (hpc : pc.shard = some shard) (hshard : shard < cfg.shards) :
    (pc.visit ((e.state k).counters key shard)).wrapSum =
      pc.visit ((e.state k).counters key shard) := by
  have hle := ((small_of_initial h₀ hk).sum it key pc hc).next_le hpc hshard
  rw [State.counts] at hle
  exact UpdatePc.visit_wrapSum (by omega) (by omega)

end Runs

end Sdarc.System

namespace Sdarc.Collection.Environment
open Sdarc.System Transition

variable {M : Type}

theorem readRefCountSum_natAbs_le {read : M → Nat → Counter × M} {ok : M → Prop} {b : Nat}
    {shards : List Nat}
    (hread : ∀ m shard, shard ∈ shards → ok m →
      (read m shard).1.refCount.natAbs ≤ b ∧ ok (read m shard).2) {m : M} (hm : ok m) :
    (readRefCountSum read shards m).1.natAbs ≤ b * shards.length := by
  induction shards generalizing m with
  | nil => simp [readRefCountSum]
  | cons shard shards ih =>
    obtain ⟨hfirst,hm'⟩ := hread m shard List.mem_cons_self hm
    have hrest := ih (fun m i hi => hread m i (List.mem_cons_of_mem _ hi)) hm'
    simp only [readRefCountSum,List.length_cons,Nat.mul_succ]
    omega

theorem readUntagged_natAbs_le {env : Environment M} {key : Nat} {ok : M → Prop} {b : Nat}
    {shards : List Nat}
    (hread : ∀ m shard, shard ∈ shards → ok m →
      (env.loadAcquire m key shard).1.refCount.natAbs ≤ b ∧ ok (env.loadAcquire m key shard).2)
    {m : M} (hm : ok m) {sum : Int} (hsum : (env.readUntagged key shards m).1 = some sum) :
    sum.natAbs ≤ b * shards.length := by
  induction shards generalizing m sum with
  | nil =>
    obtain rfl : 0 = sum := by simpa [readUntagged] using hsum
    simp
  | cons shard shards ih =>
    obtain ⟨hfirst,hm'⟩ := hread m shard List.mem_cons_self hm
    rcases hv : env.loadAcquire m key shard with ⟨v,m₁⟩
    rw [hv] at hfirst hm'
    change v.refCount.natAbs ≤ b at hfirst
    simp only [readUntagged,hv] at hsum
    split at hsum
    · contradiction
    · rcases hrest : env.readUntagged key shards m₁ with ⟨_ | rest,m₂⟩ <;>
        simp only [hrest,reduceCtorEq,Option.some.injEq] at hsum
      · have hle := ih (fun m i hi => hread m i (List.mem_cons_of_mem _ hi)) hm'
          (congrArg Prod.fst hrest)
        subst hsum
        simp only [List.length_cons,Nat.mul_succ]
        omega

theorem processMemory_natAbs_le {cfg : Config} {N b : Nat} {e : Execution (step cfg) N}
    (h₀ : e.state 0 = .initial) {key shard : Nat} (hshard : shard < cfg.shards) {ks : List Nat}
    (hks : ∀ k, k ∈ ks → k ≤ N) :
    ((processMemory cfg e b).loadRelaxed ks key shard).1.refCount.natAbs ≤ N ∧
      ∀ k, k ∈ ((processMemory cfg e b).loadRelaxed ks key shard).2 → k ≤ N := by
  cases ks with
  | nil => exact ⟨Nat.zero_le N,hks⟩
  | cons k ks =>
    have hk := hks k List.mem_cons_self
    exact ⟨(natAbs_count_le h₀ hk hshard key).trans hk,
      fun i hi => hks i (List.mem_cons_of_mem _ hi)⟩

theorem processMemory_sums_le {cfg : Config} {N b : Nat} {e : Execution (step cfg) N}
    (h₀ : e.state 0 = .initial) (key : Nat) {ks : List Nat} (hks : ∀ k, k ∈ ks → k ≤ N) :
    ((processMemory cfg e b).readRefCountSumRelaxed key ks).1.natAbs ≤ N * cfg.shards ∧
    ((processMemory cfg e b).clearTagsAndReadRefCountSum key ks).1.natAbs ≤ N * cfg.shards ∧
    ∀ sum, ((processMemory cfg e b).readRefCountSumIfAllTagsUnset key ks).1 = some sum →
      sum.natAbs ≤ N * cfg.shards := by
  have hread : ∀ ks shard, shard ∈ List.range cfg.shards → (∀ k, k ∈ ks → k ≤ N) →
      ((processMemory cfg e b).loadRelaxed ks key shard).1.refCount.natAbs ≤ N ∧
        ∀ k, k ∈ ((processMemory cfg e b).loadRelaxed ks key shard).2 → k ≤ N :=
    fun ks shard hshard => processMemory_natAbs_le h₀ (List.mem_range.mp hshard)
  have hlength : N * cfg.shards = N * (List.range cfg.shards).length := by
    rw [List.length_range]
  rw [hlength]
  exact ⟨readRefCountSum_natAbs_le hread hks,readRefCountSum_natAbs_le hread hks,
    fun sum hsum => readUntagged_natAbs_le hread hks hsum⟩

end Sdarc.Collection.Environment
