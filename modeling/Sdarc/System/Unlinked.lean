import Sdarc.System.Identity
import Sdarc.System.RecordCount
set_option autoImplicit false

/-!
A `back_ref` that has been cleared stays cleared, and every `WeakSdarc` to the pointee leads
to it. So an upgrade that has failed fails for good, also if the pointee is kept alive after
all by an upgrade that had loaded the pointer before.
-/

namespace Sdarc.System
open Transition

section Steps

variable {cfg : Config} {s s' : State} {w p : Nat}

theorem SystemStep.null_stays {a : Action} (hweak : Weak s) (hof : s.weakInnerOf w p)
    (hnull : s.load (.backRef w) = none) (hs : SystemStep cfg s a s') :
    s'.load (.backRef w) = none := by
  cases hs with
  | thread t op _ _ hs =>
    have hborn := hweak.weakInner_born hof
    simpa only [State.load,hs.data (.inl hborn.ne)] using hnull
  | collector _ hs =>
    cases hs with
    | weakBackRefCleared it key x origin q hc hdata =>
      by_cases hw : w = x
      · simp [State.load,(SameMemory.resume _ _ _).heap,hw]
      · simpa [State.load,(SameMemory.resume _ _ _).heap,hw] using hnull
    | free it key toFree e => by_cases hw : w = e.pointee <;> simp_all [State.load]
    | dropCounters it q => by_cases hw : w = q <;> simp_all [State.load]
    | dropWeakInnerRef it q => by_cases hw : w = q <;> simp_all [State.load]
    | dropMemory it q => by_cases hw : w = q <;> simp_all [State.load]
    | startUpdate | readShard | finishPass | weakRefNotInvolved | weakBackRefWasAlreadyNull =>
      simpa only [State.load,(SameMemory.resume _ _ _).heap] using hnull
    | _ => exact hnull
  | finishDestructor => exact hnull

theorem SystemStep.upgrades_of_null {a : Action} {t : Nat}
    (hnull : s.load (.backRef w) = none) (hs : SystemStep cfg s a s')
    (hup : (s'.threads t).pc.upgrades w p) : (s.threads t).pc.upgrades w p := by
  cases hs with
  | thread u op _ _ hs =>
    by_cases hu : t = u
    · subst hu
      cases hs with
      | loadPointer src after q hpc hload =>
        obtain ⟨rfl,rfl⟩ : src = .backRef w ∧ q = p := by simpa [ThreadPc.upgrades] using hup
        rw [hnull] at hload
        contradiction
      | loadIncrement src after q shard hpc =>
        simpa [hpc,ThreadPc.upgrades] using hup
      | stay | releaseFailed | clone | swap | setNull => exact hup
      | obtain | recordUsed | claimRecord | pushRecord | dropGuard | release =>
        simpa using hup
      | _ => simp [ThreadPc.upgrades] at hup
    · rwa [hs.others hu] at hup
  | collector _ hs =>
    rcases (hs.thread t).2 with heq | ⟨-,hpc⟩ | ⟨-,x,hpc⟩
    · rwa [heq] at hup
    · simp [hpc,ThreadPc.upgrades] at hup
    · simp [hpc,ThreadPc.upgrades] at hup
  | finishDestructor => exact hup

end Steps

section Run

variable {cfg : Config} {N : Nat} {e : Execution (step cfg) N} {a k w p : Nat}

theorem reach_state (h₀ : e.state 0 = .initial)
    (hcov : ∀ k, k < N → (e.state k).covered cfg (e.action k)) (hk : k ≤ N) :
    Reach (step cfg) (State.covered cfg) .initial (e.state k) :=
  e.invariant (fun k => k ≤ N → Reach (step cfg) (State.covered cfg) .initial (e.state k))
    (fun _ => h₀ ▸ .refl)
    (fun j hj hprev hs _ => (hprev hj.le).tail ⟨e.action j,hcov j hj,hs⟩) hk hk

/-- A failed upgrade has failed for good. Once the `back_ref` of a pointee is null it stays
null; every `WeakSdarc` to the pointee shares it, those of a later downgrade included; and
whoever still gets a handle has been in that same upgrade, past its load, ever since. -/
theorem failed_upgrade_final (h₀ : e.state 0 = .initial)
    (hcov : ∀ k, k < N → (e.state k).covered cfg (e.action k)) (hak : a ≤ k) (hk : k ≤ N)
    (hof : (e.state a).weakInnerOf w p) (hnull : (e.state a).load (.backRef w) = none) :
    (e.state k).load (.backRef w) = none ∧
    (∀ w', (e.state k).weakInnerOf w' p → w' = w) ∧
    ∀ act q, (e.state k).yields w q act → ∃ t, act = .thread t .leaveSection ∧ q = p ∧
      ∀ j, a ≤ j → j ≤ k → ((e.state j).threads t).pc.upgrades w p := by
  have hkept : ∀ j, a ≤ j → j ≤ N →
      (e.state j).weakInnerOf w p ∧ (e.state j).load (.backRef w) = none := by
    intro j haj
    induction j, haj using Nat.le_induction with
    | base => exact fun _ => ⟨hof,hnull⟩
    | succ j haj ih =>
      intro hj
      obtain ⟨hof,hnull⟩ := ih (by omega)
      have hsafe := safe_of_reach (reach_state h₀ hcov (k := j) (by omega))
      have hs := step_cases (e.enabled j (by omega))
      have hweak := hsafe.references.weak
      exact ⟨((hs.identity hsafe.tracking (hweak.weakInner_born hof)).weakInnerOf p).mp hof,
        hs.null_stays hweak hof hnull⟩
  have hsince : ∀ j, j ≤ k → a ≤ k - j → ∀ t, ((e.state k).threads t).pc.upgrades w p →
      ((e.state (k-j)).threads t).pc.upgrades w p := by
    intro j
    induction j with
    | zero => exact fun _ _ t hup => hup
    | succ j ih =>
      intro hj haj t hup
      have hnext := ih (by omega) (by omega) t hup
      have hsucc : k - j = k - (j+1) + 1 := by omega
      rw [hsucc] at hnext
      exact (step_cases (e.enabled (k-(j+1)) (by omega))).upgrades_of_null
        (hkept (k-(j+1)) haj (by omega)).2 hnext
  obtain ⟨⟨hsafe,-⟩,hone⟩ := oneWeakInner_of_reach (reach_state h₀ hcov hk)
  obtain ⟨hof',hnull'⟩ := hkept k hak hk
  refine ⟨hnull',fun w' hw' => hone w' w p hw' hof',fun act q hyields => ?_⟩
  obtain rfl := hsafe.references.weak.yields_origin hof' hyields
  unfold State.yields at hyields
  split at hyields
  · rename_i t
    obtain ⟨after,hpc⟩ := hyields
    refine ⟨t,rfl,rfl,fun j haj hjk => ?_⟩
    have hup := hsince (k-j) (by omega) (by omega) t (by rw [hpc]; exact ⟨rfl,rfl⟩)
    rwa [show k - (k-j) = j by omega] at hup
  · rw [hnull'] at hyields
    exact absurd hyields.1 (by simp)
  · exact hyields.elim

/-- The last handle is dropped. After the collector's traversal thread 2 loads the `back_ref`,
which the collector then clears. Thread 2 still gets its handle and downgrades it anew, while
an upgrade of thread 1 finds null. -/
def lateUpgrade : List Action :=
  [.thread 1 (.sdarcNew 10 100 0 []),.thread 1 (.onNewSdarcAllocated 0),
    .thread 1 (.downgrade 0),.thread 1 .getOrInit,.thread 1 (.newWeakInner 11 101 0),
    .thread 1 (.registerWeakInner 0),.thread 1 .setWeakInner,.thread 1 (.cloneWeakInner 0),
    .thread 2 (.loadOwned (.backRef 1)),.thread 2 .obtain,.thread 2 .obtainNext,
    .thread 1 (.dropHandle 0),.thread 1 (.dropLoad 0),.thread 1 (.dropExchange false)] ++
  List.replicate 52 .collector ++ [.thread 2 .enterSection,.thread 2 .loadPointer] ++
  List.replicate 5 .collector ++
  [.thread 2 (.loadIncrement 0),.thread 2 .leaveSection,.thread 2 (.downgrade 0),
    .thread 2 .getOrInit,.thread 1 (.loadOwned (.backRef 1)),.thread 1 .obtain,
    .thread 1 .obtainNext,.thread 1 .obtainNext,.thread 1 .enterSection,.thread 1 .loadPointer]

theorem lateUpgrade_resurrected : ∃ e : Execution (step ⟨1,3,1,by decide⟩) 83,
    (e.state 74).yields 1 0 (.thread 2 .leaveSection) ∧ (e.state 83).live 0 = 1 ∧
    ((e.state 83).threads 2).pc = .cloneWeakInner 0 1 ∧
    ∀ q, ¬ (e.state 83).yields 1 q (.thread 1 .leaveSection) := by
  refine ⟨.ofRun (step ⟨1,3,1,by decide⟩) .initial lateUpgrade (by decide +kernel),
    ⟨none,by decide +kernel⟩,by decide +kernel,by decide +kernel,fun q hact => ?_⟩
  obtain ⟨-,-,hyields⟩ := failed_upgrade_final (a := 73) (k := 83) (w := 1) (p := 0)
    (e := .ofRun (step ⟨1,3,1,by decide⟩) .initial lateUpgrade (by decide +kernel)) rfl
    (by decide +kernel) (by decide) (by decide) ⟨none,by decide +kernel⟩ (by decide +kernel)
  obtain ⟨t,heq,-,hsince⟩ := hyields _ q hact
  obtain ⟨rfl,-⟩ := Action.thread.inj heq
  have hnull : ((Execution.ofRun (step ⟨1,3,1,by decide⟩) .initial lateUpgrade
      (by decide +kernel)).state 83 |>.threads 1).pc = .loadLeave (.backRef 1) none none := by
    decide +kernel
  have hup := hsince 83 (by decide) (by decide)
  rw [hnull] at hup
  simp [ThreadPc.upgrades] at hup

end Run

end Sdarc.System
