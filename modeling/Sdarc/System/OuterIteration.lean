import Sdarc.System.Replay
set_option autoImplicit false

/-!
Whatever threads and destructors do in between, the collector does in an outer iteration what
one call of `update` does, and a deep one comes to its end for want of keys to re-check.
-/

namespace Sdarc.System
open Transition Collection

instance (pc : CollectorPc) : Decidable (pc = .parked) :=
  match pc with
  | .parked => .isTrue rfl
  | .taking _ _ | .traversing _ _ _ _ | .visiting _ | .checking _ _ _ | .unlinking _ _ _
  | .freeing _ | .dropping _ _ _ | .panicked _ => .isFalse nofun

/-- An outer iteration begins at `a` and has not ended before state `b`. -/
structure Underway {N : Nat} {cfg : Config} (e : Execution (step cfg) N) (a b : Nat) :
    Prop where
  lt : a < b
  bound : b ≤ N
  parked : (e.state a).collector = .parked
  wakes : e.action a = .collector
  within : ∀ j, a < j → j < b → (e.state j).collector ≠ .parked

structure OuterIteration {N : Nat} {cfg : Config} (e : Execution (step cfg) N) (a b : Nat) :
    Prop extends Underway e a b where
  ended : (e.state b).collector = .parked

section Steps

variable {cfg : Config} {N : Nat} {e : Execution (step cfg) N} {b k : Nat}

theorem processMemory_accessed (hkb : k ≤ b) (hb : b ≤ N)
    (htracking : ∀ j, j ≤ N → Tracking cfg (e.state j)) :
    AccessedAt cfg (processMemory cfg e b) (e.state k) k where
  shards := rfl
  ptr _ hp := (sameAddress_later hkb hb htracking hp).ptr
  countersPtr _ hp := (sameAddress_later hkb hb htracking hp).countersPtr
  takePending _ _ := rfl
  traverse _ := rfl
  readShard ks key j pc hpc := by
    cases pc with
    | clearWeakBackRef => contradiction
    | _ =>
      obtain rfl := Option.some.inj hpc
      rfl
  downgraded _ _ := rfl
  free _ _ := rfl

variable {s s' : State} {env : Environment (List Nat)} {weakRefs : Nat → WeakRef} {f : Found}
  {toReCheck : List Nat}

theorem SystemStep.replay {a : Action} (haccess : AccessedAt cfg env s k) (hsafe : Safe cfg s)
    (hsafe' : Safe cfg s') (hlocal : Local s) (hstep : step cfg s a = some s')
    (hparked : s.collector ≠ .parked) (hparked' : s'.collector ≠ .parked)
    (h : Coupled s weakRefs f toReCheck) : Replays env k s s' weakRefs f toReCheck := by
  cases step_cases hstep with
  | thread t op _ ht hs => exact hs.replay ht hsafe hlocal h
  | collector _ hs =>
    exact CollectorStep.replay haccess hsafe hsafe' hlocal hstep hparked hparked' h
  | finishDestructor panicked it p hc =>
    have hre := h.reChecks
    simp only [State.reChecks,hc] at hre
    refine ⟨[],weakRefs,f,toReCheck,.inl rfl,⟨h.weakRefs,fun it' hit => ?_,hre⟩,fun ks => ?_⟩
    · exact h.found it' (by rw [hc]; exact hit)
    · simp only [State.rest,hc,List.nil_append]
      rfl

theorem SystemStep.parks {a : Action} (hs : SystemStep cfg s a s')
    (hparked : s.collector ≠ .parked) (hparked' : s'.collector = .parked) :
    a = .collector ∧ ∃ it, s.collector = .freeing it ∧ it.toFree = [] := by
  cases hs with
  | thread t op _ _ hs => exact absurd (hs.collector.1 ▸ hparked') hparked
  | collector _ hs =>
    cases hs with
    | endOuterIteration it hc hfree => exact ⟨rfl,it,hc,hfree⟩
    | startUpdate | readShard | finishPass | weakRefNotInvolved | weakBackRefWasAlreadyNull =>
      exact absurd hparked' (resume_queues _ _ _).1
    | weakBackRefCleared => exact absurd hparked' (resume_queues _ _ _).1
    | spin it len r j hc => exact absurd hparked' hparked
    | _ => contradiction
  | finishDestructor => contradiction

def CollectorPc.iteration : CollectorPc → Option Iter
  | .traversing it _ _ _ => some it
  | pc => pc.iter

def Iter.continuedBy (it it' : Iter) : Prop :=
  it'.deep = it.deep ∧ (it'.round = it.round ∨ it.deep = true)

def State.roundOf (s : State) (it it' : Iter) : Prop :=
  it'.round = it.round ∨ ∃ len r j, s.collector = .traversing it' len r j

theorem State.resume_iteration (it : Iter) (key : Nat) (result : UpdateResult) :
    (∃ it', (s.resume it key result).collector.iteration = some it' ∧ it.continuedBy it' ∧
      (s.resume it key result).roundOf it it') ∨
      (s.resume it key result).collector.isPanicked = true := by
  cases result with
  | panic site => exact .inr rfl
  | goto pc => exact .inl ⟨it,rfl,⟨rfl,.inl rfl⟩,.inl rfl⟩
  | done state =>
    obtain ⟨hdeep,hround,-⟩ := it.classify_same key state
    exact .inl ⟨_,rfl,⟨hdeep,.inl hround⟩,.inl hround⟩

theorem SystemStep.iteration {a : Action} {it : Iter} (hs : SystemStep cfg s a s')
    (hit : s.collector.iteration = some it) :
    (∃ it', s'.collector.iteration = some it' ∧ it.continuedBy it' ∧ s'.roundOf it it') ∨
      s'.collector.isPanicked = true ∨ s'.collector = .parked := by
  have hsame : it.continuedBy it ∧ s'.roundOf it it := ⟨⟨rfl,.inl rfl⟩,.inl rfl⟩
  cases hs with
  | thread t op _ _ hs => exact .inl ⟨it,hs.collector.1 ▸ hit,hsame⟩
  | collector _ hs =>
    cases hs with
    | startUpdate it₀ key todo e hc | readShard it₀ key j pc hc | finishPass it₀ key j pc hc
    | weakRefNotInvolved it₀ key e hc | weakBackRefWasAlreadyNull it₀ key w hc =>
      obtain rfl : it₀ = it := by simpa [hc,CollectorPc.iteration,CollectorPc.iter] using hit
      exact (State.resume_iteration _ _ _).imp_right .inl
    | weakBackRefCleared it₀ key w origin p hc =>
      obtain rfl : it₀ = it := by simpa [hc,CollectorPc.iteration,CollectorPc.iter] using hit
      exact (State.resume_iteration _ _ _).imp_right .inl
    | nextIteration it₀ hc hfree hdeep =>
      obtain rfl : it₀ = it := by simpa [hc,CollectorPc.iteration,CollectorPc.iter] using hit
      exact .inl ⟨_,rfl,⟨hdeep.symm,.inr hdeep⟩,.inr ⟨_,_,_,rfl⟩⟩
    | endOuterIteration => exact .inr (.inr rfl)
    | replaced | removedUntracked | notReadyToFree | countersPtrMismatch => exact .inr (.inl rfl)
    | spin => exact .inl ⟨it,hit,hsame⟩
    | wake hc | takePending shard hc | track shard e rest hc | startIteration shard hc =>
      simp [hc,CollectorPc.iteration,CollectorPc.iter] at hit
    | readEmptySlot it₀ len r j hc | readSlot it₀ len r j address hc | poll it₀ len r j hc
    | endTraversal it₀ len r j hc | startFreeing it₀ hc | skip it₀ key todo hc
    | untracked it₀ key hc | hazard it₀ key todo e hc | clearTag it₀ key j sum hc
    | foundWeakInner it₀ key w e hc | free it₀ key toFree e hc | dropCounters it₀ p hc
    | dropWeakInnerRef it₀ p w hc | noWeakInnerRef it₀ p hc
    | dropWeakSdarcInner it₀ p origin backRef hc | dropMemory it₀ p hc =>
      obtain rfl : it₀ = it := by simpa [hc,CollectorPc.iteration,CollectorPc.iter] using hit
      exact .inl ⟨_,rfl,⟨rfl,.inl rfl⟩,.inl rfl⟩
  | finishDestructor panicked it₀ p hc =>
    exact .inl ⟨it,by simpa [hc,CollectorPc.iteration,CollectorPc.iter] using hit,hsame⟩

theorem SystemStep.firstRound {a : Action} {it : Iter} (hs : SystemStep cfg s a s')
    (hnone : s.collector.iteration = none) (hit : s'.collector.iteration = some it) :
    it.round = 0 := by
  cases hs with
  | thread t op _ _ hs =>
    rw [hs.collector.1,hnone] at hit
    contradiction
  | collector _ hs =>
    cases hs with
    | startIteration =>
      obtain rfl := Option.some.inj hit
      rfl
    | spin =>
      rw [hnone] at hit
      contradiction
    | wake | takePending | track | replaced | endOuterIteration | removedUntracked
    | notReadyToFree | countersPtrMismatch => contradiction
    | _ => simp_all [CollectorPc.iteration,CollectorPc.iter]
  | finishDestructor panicked it₀ p hc =>
    simp [hc,CollectorPc.iteration,CollectorPc.iter] at hnone

/-- Only a deep collection has more than the first inner iteration, which visits every
tracked key. -/
structure Rounds (s : State) : Prop where
  shallow : ∀ it, s.collector.iteration = some it → it.deep = false → it.round = 0
  first : ∀ it len r j, s.collector = .traversing it len r j → it.round = 0 →
    it.todo = s.tracked.keys

theorem CollectorStep.first (h : Rounds s) (hs : CollectorStep cfg s s') {it : Iter}
    {len r j : Nat} (hc : s'.collector = .traversing it len r j) (hround : it.round = 0) :
    it.todo = s'.tracked.keys := by
  cases hs with
  | startIteration =>
    obtain ⟨rfl,-⟩ := CollectorPc.traversing.inj hc
    rfl
  | nextIteration =>
    obtain ⟨rfl,-⟩ := CollectorPc.traversing.inj hc
    contradiction
  | readEmptySlot it' len' r' j' hold | readSlot it' len' r' j' address hold
  | poll it' len' r' j' hold =>
    obtain ⟨rfl,-⟩ := CollectorPc.traversing.inj hc
    exact h.first it' len' r' j' hold hround
  | spin => exact h.first _ _ _ _ hc hround
  | startUpdate | readShard | finishPass | weakRefNotInvolved | weakBackRefWasAlreadyNull =>
    exact absurd hc ((resume_local _ _ _).2.2 _ _ _ _)
  | weakBackRefCleared => exact absurd hc ((resume_local _ _ _).2.2 _ _ _ _)
  | _ => contradiction

theorem SystemStep.rounds {a : Action} (h : Rounds s) (hs : SystemStep cfg s a s') :
    Rounds s' where
  shallow it' hit hdeep := by
    cases hold : s.collector.iteration with
    | none => exact hs.firstRound hold hit
    | some it =>
      rcases hs.iteration hold with ⟨it₁,hit₁,⟨hsame,hround⟩,-⟩ | hpanicked | hparked
      · obtain rfl := Option.some.inj (hit.symm.trans hit₁)
        rcases hround with hround | hdeep'
        · exact hround.trans (h.shallow it hold (hsame ▸ hdeep))
        · rw [hdeep,hdeep'] at hsame
          contradiction
      · cases hc : s'.collector <;>
          simp_all [CollectorPc.isPanicked,CollectorPc.iteration,CollectorPc.iter]
      · simp [hparked,CollectorPc.iteration,CollectorPc.iter] at hit
  first it len r j hc hround := by
    cases hs with
    | thread t op _ _ hs =>
      rw [hs.collector.2]
      exact h.first it len r j (hs.collector.1 ▸ hc) hround
    | collector _ hs => exact hs.first h hc hround
    | finishDestructor => contradiction

end Steps

section Run

variable {cfg : Config} {N : Nat} {e : Execution (step cfg) N} {a b i k : Nat}
  {weakRefs : Nat → WeakRef} {f : Found} {toReCheck : List Nat}

theorem local_of_run (h₀ : e.state 0 = .initial) (hk : k ≤ N) :
    Local (e.state k) ∧ Rounds (e.state k) := by
  refine e.invariant (fun k => Local (e.state k) ∧ Rounds (e.state k)) ?_
    (fun k _ h hs => ⟨(step_cases hs).local h.1,(step_cases hs).rounds h.2⟩) hk
  rw [h₀]
  exact ⟨⟨fun hbusy => absurd rfl hbusy,fun _ key => Std.TreeSet.not_mem_emptyc,nofun⟩,
    nofun,nofun⟩

/-- The steps from `i` on, up to state `k`, are steps of `update`: the same is left. -/
def ReplaysRun (e : Execution (step cfg) N) (b i k : Nat) (weakRefs : Nat → WeakRef) (f : Found)
    (toReCheck : List Nat) : Prop :=
  ∃ times weakRefs' f' toReCheck', times.Pairwise (· < ·) ∧ (∀ j, j ∈ times → i ≤ j ∧ j < k) ∧
    Coupled (e.state k) weakRefs' f' toReCheck' ∧
    ∀ ks, (e.state i).rest (processMemory cfg e b) f toReCheck
        ((e.state i).asCollector (times ++ ks) weakRefs) =
      (e.state k).rest (processMemory cfg e b) f' toReCheck'
        ((e.state k).asCollector ks weakRefs')

theorem replays_run (h₀ : e.state 0 = .initial)
    (hcov : ∀ k, k < N → (e.state k).covered cfg (e.action k)) (hik : i ≤ k) (hkb : k ≤ b)
    (hb : b ≤ N) (hwithin : ∀ j, i ≤ j → j ≤ k → (e.state j).collector ≠ .parked)
    (h : Coupled (e.state i) weakRefs f toReCheck) :
    ReplaysRun e b i k weakRefs f toReCheck := by
  have hsafe : ∀ j, j ≤ N → Safe cfg (e.state j) := fun j hj =>
    safe_of_reach (reach_state h₀ hcov hj)
  induction k, hik using Nat.le_induction with
  | base => exact ⟨[],weakRefs,f,toReCheck,.nil,by simp,h,fun _ => rfl⟩
  | succ k hik ih =>
    obtain ⟨times,weakRefs₁,f₁,toReCheck₁,hsorted,hrange,h₁,hrest⟩ :=
      ih (by omega) (fun j hij hjk => hwithin j hij (by omega))
    obtain ⟨accesses,weakRefs₂,f₂,toReCheck₂,haccesses,h₂,hnext⟩ :=
      SystemStep.replay (processMemory_accessed (by omega) hb (fun j hj => (hsafe j hj).tracking))
        (hsafe k (by omega)) (hsafe (k+1) (by omega)) (local_of_run h₀ (by omega)).1
        (e.enabled k (by omega)) (hwithin k hik (by omega)) (hwithin (k+1) (by omega) le_rfl) h₁
    refine ⟨times ++ accesses,weakRefs₂,f₂,toReCheck₂,?_,fun j hj => ?_,h₂,fun ks => ?_⟩
    · rcases haccesses with rfl | rfl
      · simpa using hsorted
      · rw [List.pairwise_append]
        exact ⟨hsorted,List.pairwise_singleton _ _,fun j hj j' hj' => by
          rw [List.mem_singleton.mp hj']
          exact (hrange j hj).2⟩
    · rcases List.mem_append.mp hj with hj | hj
      · have := hrange j hj
        omega
      · rcases haccesses with rfl | rfl
        · simp at hj
        · rw [List.mem_singleton.mp hj]
          omega
    · rw [List.append_assoc,hrest,hnext]

theorem replays_end (env : Environment (List Nat)) (h₀ : e.state 0 = .initial)
    (hcov : ∀ k, k < N → (e.state k).covered cfg (e.action k)) (hk : k < N)
    (hparked : (e.state k).collector ≠ .parked) (hended : (e.state (k+1)).collector = .parked)
    (h : Coupled (e.state k) weakRefs f toReCheck) :
    (∀ p, ¬ (e.state (k+1)).freed p → (e.state (k+1)).weakRefAgrees p (weakRefs p)) ∧
    ∃ it last, (e.state k).collector = .freeing it ∧
      (it.deep = true → last.toReCheck.isEmpty =
        (it.newToReCheck ∪ (e.state k).countersToReCheck).isEmpty) ∧
      ∀ ks, (e.state k).rest env f toReCheck ((e.state k).asCollector ks weakRefs) =
        .ok (last,⟨ks,weakRefs,(e.state (k+1)).tracked⟩) := by
  have hsafe := safe_of_reach (reach_state h₀ hcov hk.le)
  obtain ⟨haction,it,hc,hfree⟩ := (step_cases (e.enabled k hk)).parks hparked hended
  have hcollect : (e.state k).collect cfg = some (e.state (k+1)) := by
    simpa only [haction,step] using e.enabled k hk
  have hgoes := State.collect_freed hc hfree hcollect
  split at hgoes
  · rw [hgoes] at hended
    contradiction
  · rename_i hstop
    have hf : f = ⟨f.newToReCheck,[]⟩ := by
      rw [← hfree,← (h.found it (by rw [hc]; rfl)).1]
    have hstop' : ¬ (it.deep = true ∧ (f.newToReCheck.insertMany toReCheck).isEmpty = false ∧
        it.round < MAX_INNER_ITERATIONS) := fun hcont =>
      hstop ⟨hcont.1,(h.toReCheck_equiv hc hcont.1).isEmpty_eq ▸ hcont.2.1,hcont.2.2⟩
    refine ⟨h.weakRefs_collector hsafe.tracking (State.collect_step hcollect) (by simp [hc]),
      it,if it.deep then ⟨it.round,f.newToReCheck.insertMany toReCheck⟩ else ⟨0,∅⟩,hc,
      fun hdeep => ?_,fun ks => ?_⟩
    · rw [if_pos hdeep]
      exact (h.toReCheck_equiv hc hdeep).isEmpty_eq
    · simp only [State.rest,hc]
      rw [hf,Environment.restOfFreeing_nil,Environment.restOfLoop_end hstop',hgoes]
      rfl

theorem Underway.woken (h : Underway e a b) :
    e.state (a+1) = { e.state a with
      toNotify := (e.state a).collectionWaiting
      collectionWaiting := []
      collector := .taking 0 [] } := by
  have hstep := e.enabled a (h.lt.trans_le h.bound)
  simp only [h.wakes,step,State.collect,h.parked,Option.some.injEq] at hstep
  exact hstep.symm

theorem Underway.coupled (h : Underway e a b) (h₀ : e.state 0 = .initial)
    (hcov : ∀ k, k < N → (e.state k).covered cfg (e.action k)) :
    Coupled (e.state (a+1)) (e.state a).weakRefs ⟨∅,[]⟩ [] ∧
    ∀ env ks, (e.state (a+1)).rest env ⟨∅,[]⟩ [] ((e.state (a+1)).asCollector ks
        (e.state a).weakRefs) =
      env.update MAX_INNER_ITERATIONS (!(e.state a).collectionWaiting.isEmpty)
        ⟨ks,(e.state a).weakRefs,(e.state a).tracked⟩ := by
  have hweak := (safe_of_reach (reach_state h₀ hcov (h.lt.le.trans h.bound))).references.weak
  rw [h.woken]
  refine ⟨⟨fun p _ => weakRefs_agree hweak p,nofun,rfl⟩,fun env ks => ?_⟩
  rw [Environment.update_eq]
  rfl

theorem OuterIteration.last (h : OuterIteration e a b) :
    ∃ k, b = k+1 ∧ a < k ∧ ∀ j, a < j → j ≤ k → (e.state j).collector ≠ .parked := by
  obtain ⟨k,rfl⟩ : ∃ k, b = k+1 := ⟨b-1,by have := h.lt; omega⟩
  refine ⟨k,rfl,?_,fun j haj hjk => h.within j haj (by omega)⟩
  by_contra hka
  obtain rfl : a = k := by have := h.lt; omega
  have hended := h.ended
  rw [h.woken] at hended
  contradiction

/-- Whatever threads and destructors do in between, an outer iteration is one call of
`update`, with each access to memory at an instant of the iteration, one after the other: it
returns, with the tracked counters that the collector is left with. -/
theorem outerIteration_is_update (h₀ : e.state 0 = .initial)
    (hcov : ∀ k, k < N → (e.state k).covered cfg (e.action k)) (h : OuterIteration e a b) :
    ∃ times last weakRefs', times.Pairwise (· < ·) ∧ (∀ k, k ∈ times → a < k ∧ k < b) ∧
      (∀ ks, (processMemory cfg e b).update MAX_INNER_ITERATIONS
          (!(e.state a).collectionWaiting.isEmpty)
          ⟨times ++ ks,(e.state a).weakRefs,(e.state a).tracked⟩ =
        .ok (last,⟨ks,weakRefs',(e.state b).tracked⟩)) ∧
      ∀ p, ¬ (e.state b).freed p → (e.state b).weakRefAgrees p (weakRefs' p) := by
  obtain ⟨hcoupled,hupdate⟩ := h.coupled h₀ hcov
  have hb := h.bound
  obtain ⟨k,rfl,hak,hwithin⟩ := h.last
  obtain ⟨times,weakRefs₁,f,toReCheck,hsorted,hrange,h₁,hrest⟩ :=
    replays_run h₀ hcov hak (Nat.le_succ k) hb (fun j haj hjk => hwithin j haj hjk) hcoupled
  obtain ⟨hagrees,it,last,-,-,hend⟩ := replays_end (processMemory cfg e (k+1)) h₀ hcov hb
    (hwithin k hak le_rfl) h.ended h₁
  refine ⟨times,last,weakRefs₁,hsorted,fun j hj => ?_,fun ks => ?_,hagrees⟩
  · have := hrange j hj
    omega
  · rw [← hupdate,hrest,hend]

/-- A thread waits for a deep collection, which frees the pointee it has dropped. During the
traversal another one is allocated. -/
def updateNow : List Action :=
  [.thread 1 (.sdarcNew 10 100 0 []),.thread 1 (.onNewSdarcAllocated 0),
    .thread 1 (.dropHandle 0),.thread 1 (.dropLoad 0),.thread 1 (.dropExchange false),
    .thread 1 .collectorUpdateNowAndWait] ++
  List.replicate 7 .collector ++
  [.thread 2 (.sdarcNew 11 101 0 []),.thread 2 (.onNewSdarcAllocated 0)] ++
  List.replicate 14 .collector ++ [.finishDestructor false,.collector,.collector]

theorem updateNow_run : ∃ e : Execution (step ⟨1,3,1,by decide⟩) 32, e.state 0 = .initial ∧
    (∀ k, k < 32 → (e.state k).covered ⟨1,3,1,by decide⟩ (e.action k)) ∧
    OuterIteration e 6 32 ∧
    (e.state 6).collectionWaiting = [1] ∧ (e.state 32).freed 0 ∧
    (e.state 10).tracked.size = 1 ∧ ∃ it, (e.state 10).collector = .traversing it 0 0 0 ∧
      it.round = 0 ∧ it.deep = true := by
  refine ⟨.ofRun (step ⟨1,3,1,by decide⟩) .initial updateNow (by decide +kernel),rfl,
    by decide +kernel,⟨⟨by decide,by decide,by decide +kernel,rfl,fun j hj hj' => ?_⟩,
      by decide +kernel⟩,by decide +kernel,.inr (by decide +kernel),by decide +kernel,
    _,rfl,rfl,rfl⟩
  have hall : ∀ j, j < 32 → 6 < j → ((Execution.ofRun (step ⟨1,3,1,by decide⟩) .initial updateNow
      (by decide +kernel)).state j).collector ≠ .parked := by
    decide +kernel
  exact hall j hj' hj

theorem updateNow_is_update : ∃ e : Execution (step ⟨1,3,1,by decide⟩) 32,
    (e.state 32).freed 0 ∧ ∃ times last weakRefs', times.Pairwise (· < ·) ∧
      (∀ k, k ∈ times → 6 < k ∧ k < 32) ∧
      ∀ ks, (processMemory _ e 32).update MAX_INNER_ITERATIONS true
          ⟨times ++ ks,(e.state 6).weakRefs,(e.state 6).tracked⟩ =
        .ok (last,⟨ks,weakRefs',(e.state 32).tracked⟩) := by
  obtain ⟨e,h₀,hcov,houter,hwaiting,hfreed,-⟩ := updateNow_run
  obtain ⟨times,last,weakRefs',hsorted,hrange,hupdate,-⟩ :=
    outerIteration_is_update h₀ hcov houter
  rw [hwaiting] at hupdate
  exact ⟨e,hfreed,times,last,weakRefs',hsorted,hrange,hupdate⟩

theorem OuterIteration.returns (h : OuterIteration e a b) (h₀ : e.state 0 = .initial)
    (hcov : ∀ k, k < N → (e.state k).covered cfg (e.action k)) (hak : a < k) (hkb : k < b)
    (hcoupled : Coupled (e.state k) weakRefs f toReCheck) :
    ∃ times last c' it, (e.state k).rest (processMemory cfg e b) f toReCheck
        ((e.state k).asCollector times weakRefs) = .ok (last,c') ∧
      (e.state (b-1)).collector = .freeing it ∧
      (it.deep = true → last.toReCheck.isEmpty =
        (it.newToReCheck ∪ (e.state (b-1)).countersToReCheck).isEmpty) := by
  have hb := h.bound
  obtain ⟨l,rfl,hal,hwithin⟩ := h.last
  obtain ⟨times,weakRefs₁,f₁,toReCheck₁,-,-,h₁,hrest⟩ :=
    replays_run h₀ hcov (k := l) (by omega) (Nat.le_succ l) hb
      (fun j hkj hjl => hwithin j (by omega) hjl) hcoupled
  obtain ⟨-,it,last,hlast,hempty,hend⟩ := replays_end (processMemory cfg e (l+1)) h₀ hcov hb
    (hwithin l hal le_rfl) h.ended h₁
  exact ⟨times ++ [],last,_,it,(hrest []).trans (hend []),hlast,hempty⟩

end Run

end Sdarc.System
