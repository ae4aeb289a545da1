import Mathlib.Algebra.BigOperators.Intervals
import Mathlib.Algebra.Order.BigOperators.Group.Finset
import Mathlib.Logic.Function.Basic
import Sdarc.UpdateState
set_option autoImplicit false

/-!
The counts of the shards and the sums over them do not outgrow the number of steps that have
changed them: a run that is too short to count up to a limit does not exceed it.
-/

namespace Sdarc

def magnitude (n j : Nat) (counts : Nat → Int) : Nat :=
  ∑ i ∈ Finset.Ico j n, (counts i).natAbs

def GrowsByOne (counts counts' : Nat → Int) : Prop :=
  ∃ k, (∀ i, i ≠ k → (counts' i).natAbs ≤ (counts i).natAbs) ∧
    (counts' k).natAbs ≤ (counts k).natAbs + 1

section Magnitude

variable {n i j : Nat} {counts counts' : Nat → Int}

theorem natAbs_le_magnitude (counts : Nat → Int) (hj : j ≤ i) (hi : i < n) :
    (counts i).natAbs ≤ magnitude n j counts :=
  Finset.single_le_sum (f := fun i => (counts i).natAbs) (fun _ _ => Nat.zero_le _)
    (Finset.mem_Ico.mpr ⟨hj,hi⟩)

theorem magnitude_succ (hj : j < n) :
    magnitude n j counts = (counts j).natAbs + magnitude n (j+1) counts := by
  rw [magnitude,Finset.sum_eq_sum_Ico_succ_bot hj,magnitude]

theorem GrowsByOne.of_eq (h : counts' = counts) : GrowsByOne counts counts' :=
  ⟨0,fun _ _ => by rw [h],by rw [h]; exact Nat.le_succ _⟩

theorem GrowsByOne.update {k : Nat} {x : Int} (hx : x.natAbs ≤ (counts k).natAbs + 1) :
    GrowsByOne counts (Function.update counts k x) :=
  ⟨k,fun i hi => by rw [Function.update_of_ne hi],by rwa [Function.update_self]⟩

theorem GrowsByOne.magnitude_le (h : GrowsByOne counts counts') :
    magnitude n j counts' ≤ magnitude n j counts + 1 := by
  obtain ⟨k,hother,hk⟩ := h
  calc magnitude n j counts'
    _ ≤ ∑ i ∈ Finset.Ico j n, ((counts i).natAbs + if i = k then 1 else 0) := by
        refine Finset.sum_le_sum (fun i _ => ?_)
        by_cases hi : i = k
        · rw [hi,if_pos rfl]
          exact hk
        · rw [if_neg hi]
          exact hother i hi
    _ = magnitude n j counts + ∑ i ∈ Finset.Ico j n, if i = k then 1 else 0 :=
        Finset.sum_add_distrib
    _ ≤ magnitude n j counts + 1 := by
        rw [Finset.sum_ite_eq']
        split <;> omega

end Magnitude

/-- The sum of the pass and the counts that it has not taken yet are at most `m`. -/
def UpdatePc.Small (n m : Nat) (counts : Nat → Int) (pc : UpdatePc) : Prop :=
  ∀ j, pc.shard = some j → j ≤ n ∧ pc.sum.natAbs + magnitude n j counts ≤ m

namespace UpdatePc

variable {n m j : Nat} {counts counts' : Nat → Int} {pc pc' : UpdatePc}

theorem Small.grows (h : pc.Small n m counts) (hcounts : GrowsByOne counts counts') :
    pc.Small n (m+1) counts' := by
  intro j hj
  obtain ⟨hjn,hsum⟩ := h j hj
  have hle := hcounts.magnitude_le (n := n) (j := j)
  exact ⟨hjn,by omega⟩

theorem small_start {state : TrackedCounterState} (h : start state = .goto pc)
    (hcounts : magnitude n 0 counts ≤ m) : pc.Small n m counts := by
  intro j hj
  obtain rfl := start_shard h hj
  have hzero : pc.sum = 0 := by
    cases state <;> simp only [start,UpdateResult.goto.injEq,reduceCtorEq] at h <;> subst h <;> rfl
  exact ⟨Nat.zero_le n,by rw [hzero]; simpa using hcounts⟩

theorem small_finish (h : pc.finish = .goto pc') (hcounts : magnitude n 0 counts ≤ m) :
    pc'.Small n m counts := by
  intro j hj
  obtain rfl := finish_shard h hj
  have hzero : pc'.sum = 0 := by
    cases pc with
    | clearWeakBackRef =>
      obtain rfl := UpdateResult.goto.inj h
      rfl
    | readRelaxed k sum =>
      simp only [finish] at h
      split at h
      · obtain rfl := UpdateResult.goto.inj h
        rfl
      · contradiction
    | clearTags k sum =>
      simp only [finish] at h
      split at h <;> contradiction
    | readIfUntagged k sum =>
      simp only [finish] at h
      split at h
      · obtain rfl := UpdateResult.goto.inj h
        rfl
      · split at h <;> contradiction
  exact ⟨Nat.zero_le n,by rw [hzero]; simpa using hcounts⟩

theorem visit_sum {v : Counter} (h : pc.visit v = .goto pc') (hj : pc.shard = some j) :
    pc'.sum = pc.sum + v.refCount := by
  cases pc with
  | clearWeakBackRef => contradiction
  | readIfUntagged k sum =>
    simp only [visit] at h
    split at h
    · contradiction
    · obtain rfl := UpdateResult.goto.inj h
      rfl
  | _ =>
    obtain rfl := UpdateResult.goto.inj h
    rfl

theorem Small.visit {v : Counter} (h : pc.Small n m counts) (hv : v.refCount = counts j)
    (hj : pc.shard = some j) (hjn : j < n) (hgoto : pc.visit v = .goto pc') :
    pc'.Small n m counts := by
  intro j' hj'
  obtain rfl := visit_shard hgoto hj hj'
  obtain ⟨-,hsum⟩ := h j hj
  rw [magnitude_succ hjn] at hsum
  refine ⟨hjn,?_⟩
  rw [visit_sum hgoto hj,hv]
  omega

theorem Small.next_le (h : pc.Small n m counts) (hj : pc.shard = some j) (hjn : j < n) :
    (pc.sum + counts j).natAbs ≤ m := by
  obtain ⟨-,hsum⟩ := h j hj
  have hle := natAbs_le_magnitude counts le_rfl hjn
  omega

end UpdatePc

end Sdarc
