import Sdarc.System.CollectorStep
set_option autoImplicit false

/-!
What a step of a thread can do to the registration of pointees: it allocates one, it
registers one that it has allocated, or it leaves the registration alone.
-/

namespace Sdarc.System
open Transition

def ThreadPc.registers (p : Nat) : ThreadPc → Nat
  | .registerNew q => if q = p then 1 else 0
  | .registerWeakInner _ w => if w = p then 1 else 0
  | _ => 0

def registeringIn (threads : Nat → Thread) (T p : Nat) : Nat :=
  ∑ t ∈ Finset.range T, (threads t).pc.registers p

def registeringCount (cfg : Config) (s : State) (p : Nat) : Nat :=
  registeringIn s.threads cfg.threads p

theorem registeringIn_update (threads : Nat → Thread) {T t : Nat} (ht : t < T) (x : Thread)
    (p : Nat) :
    registeringIn (Function.update threads t x) T p + (threads t).pc.registers p =
      registeringIn threads T p + x.pc.registers p :=
  sum_update (fun _ th => th.pc.registers p) threads ht x

structure SameRegistry (cfg : Config) (s s' : State) : Prop where
  nextPointee : s'.nextPointee = s.nextPointee
  stage : ∀ p, (s'.heap p).stage = (s.heap p).stage
  countersPtr : ∀ p, (s'.heap p).countersPtr = (s.heap p).countersPtr
  slotReleased : ∀ p, (s'.heap p).slotReleased = (s.heap p).slotReleased
  pending : s'.pending = s.pending
  tracked : s'.tracked = s.tracked
  collector : s'.collector = s.collector
  destructors : s'.destructors = s.destructors
  registering : ∀ p, registeringCount cfg s' p = registeringCount cfg s p

structure Allocates (cfg : Config) (s s' : State) : Prop where
  nextPointee : s'.nextPointee = s.nextPointee + 1
  free : ∀ q, q < s.nextPointee → (s.heap q).slotReleased = true ∨
    (s.heap q).countersPtr ≠ (s'.heap s.nextPointee).countersPtr
  stage : (s'.heap s.nextPointee).stage = .allocated
  slotReleased : (s'.heap s.nextPointee).slotReleased = false
  others : ∀ q, q ≠ s.nextPointee → s'.heap q = s.heap q
  pending : s'.pending = s.pending
  tracked : s'.tracked = s.tracked
  collector : s'.collector = s.collector
  destructors : s'.destructors = s.destructors
  registering : ∀ q,
    registeringCount cfg s' q = registeringCount cfg s q + if s.nextPointee = q then 1 else 0

structure Registers (cfg : Config) (s s' : State) (p shard : Nat) : Prop where
  shard_lt : shard < cfg.shards
  nextPointee : s'.nextPointee = s.nextPointee
  heap : s'.heap = s.heap
  pending : s'.pending = Function.update s.pending shard
    (s.pending shard ++ [⟨p,(s.heap p).countersPtr⟩])
  tracked : s'.tracked = s.tracked
  collector : s'.collector = s.collector
  destructors : s'.destructors = s.destructors
  registering : ∀ q,
    registeringCount cfg s' q + (if p = q then 1 else 0) = registeringCount cfg s q

theorem SameRegistry.of_threads {cfg : Config} {s s' : State}
    (hpc : ∀ t p, (s'.threads t).pc.registers p = (s.threads t).pc.registers p)
    (hheap : s'.heap = s.heap) (hnext : s'.nextPointee = s.nextPointee)
    (hpending : s'.pending = s.pending) (htracked : s'.tracked = s.tracked)
    (hcollector : s'.collector = s.collector)
    (hdestructors : s'.destructors = s.destructors) : SameRegistry cfg s s' where
  nextPointee := hnext
  stage p := by rw [hheap]
  countersPtr p := by rw [hheap]
  slotReleased p := by rw [hheap]
  pending := hpending
  tracked := htracked
  collector := hcollector
  destructors := hdestructors
  registering p := by
    unfold registeringCount registeringIn
    exact Finset.sum_congr rfl (fun t _ => hpc t p)

theorem SameRegistry.refl (cfg : Config) (s : State) : SameRegistry cfg s s := by
  constructor <;> simp

section Steps

variable {cfg : Config} {s s' : State} {t : Nat}

theorem registeringCount_of_thread {x : Thread} (ht : t < cfg.threads)
    (hthreads : s'.threads = Function.update s.threads t x) (q : Nat) :
    registeringCount cfg s' q + (s.threads t).pc.registers q =
      registeringCount cfg s q + x.pc.registers q := by
  rw [registeringCount,hthreads]
  exact registeringIn_update s.threads ht x q

theorem SameRegistry.of_weakInnerRef {p : Nat} {lock : OnceLock} {pc : ThreadPc}
    (ht : t < cfg.threads) (hpc : ∀ q, pc.registers q = (s.threads t).pc.registers q) :
    SameRegistry cfg s
      ((s.setInner p { s.heap p with weakInnerRef := lock }).setPc t pc) where
  nextPointee := rfl
  stage := field_update SdarcInner.stage rfl
  countersPtr := field_update SdarcInner.countersPtr rfl
  slotReleased := field_update SdarcInner.slotReleased rfl
  pending := rfl
  tracked := rfl
  collector := rfl
  destructors := rfl
  registering q := by
    refine Nat.add_right_cancel (m := (s.threads t).pc.registers q) ?_
    rw [registeringCount_of_thread ht rfl q,hpc q]

theorem Allocates.of_allocate {ptr countersPtr shard : Nat} {data : Data} {pc : ThreadPc}
    (ht : t < cfg.threads) (hfree : s.canAllocate ptr countersPtr)
    (hold : ∀ q, (s.threads t).pc.registers q = 0)
    (hnew : ∀ q, pc.registers q = if s.nextPointee = q then 1 else 0) :
    Allocates cfg s ((s.allocate ptr countersPtr shard data).setPc t pc) where
  nextPointee := rfl
  free q hq := by
    simpa [State.setPc,State.allocate] using (hfree q hq).1
  stage := by simp [State.setPc,State.allocate]
  slotReleased := by simp [State.setPc,State.allocate]
  others q hq := by simp [State.setPc,State.allocate,hq]
  pending := rfl
  tracked := rfl
  collector := rfl
  destructors := rfl
  registering q := by
    have h : registeringCount cfg ((s.allocate ptr countersPtr shard data).setPc t pc) q +
        (s.threads t).pc.registers q = registeringCount cfg s q + pc.registers q :=
      registeringCount_of_thread (x := { s.threads t with pc := pc }) ht rfl q
    rwa [hold q,hnew q] at h

theorem Registers.of_register {p shard : Nat} (ht : t < cfg.threads)
    (hshard : shard < cfg.shards) (x : Thread)
    (hold : ∀ q, (s.threads t).pc.registers q = if p = q then 1 else 0)
    (hnew : ∀ q, x.pc.registers q = 0)
    (hthreads : s'.threads = Function.update s.threads t x)
    (hnext : s'.nextPointee = s.nextPointee) (hheap : s'.heap = s.heap)
    (hpending : s'.pending = (s.register p shard).pending)
    (htracked : s'.tracked = s.tracked) (hcollector : s'.collector = s.collector)
    (hdestructors : s'.destructors = s.destructors) : Registers cfg s s' p shard where
  shard_lt := hshard
  nextPointee := hnext
  heap := hheap
  pending := hpending
  tracked := htracked
  collector := hcollector
  destructors := hdestructors
  registering q := by
    have h := registeringCount_of_thread ht hthreads q
    rwa [hold q,hnew q] at h

theorem ThreadStep.registry {op : Op} (h : ThreadStep cfg s t op s') (ht : t < cfg.threads) :
    SameRegistry cfg s s' ∨ Allocates cfg s s' ∨ ∃ p shard, Registers cfg s s' p shard := by
  cases h with
  | stay => exact .inl (.refl cfg s)
  | sdarcNew ptr countersPtr shard borrows hstart hfree _ =>
    exact .inr (.inl (.of_allocate ht hfree (by simp [hstart.1,ThreadPc.registers])
      (fun q => rfl)))
  | newWeakInner ptr countersPtr shard p hpc hfree _ =>
    exact .inr (.inl (.of_allocate ht hfree (by simp [hpc,ThreadPc.registers])
      (fun q => rfl)))
  | onNewSdarcAllocated shard p hpc hshard =>
    exact .inr (.inr ⟨p,shard,.of_register ht hshard { s.threads t with pc := .idle }
      (by simp [hpc,ThreadPc.registers]) (fun q => rfl) rfl rfl rfl rfl rfl rfl rfl⟩)
  | registerWeakInner shard p w hpc hshard =>
    exact .inr (.inr ⟨w,shard,.of_register ht hshard
      { s.threads t with pc := .setWeakInner p w }
      (by simp [hpc,ThreadPc.registers]) (fun q => rfl) rfl rfl rfl rfl rfl rfl rfl⟩)
  | startInit p hpc _ =>
    exact .inl (.of_weakInnerRef ht (by simp [hpc,ThreadPc.registers]))
  | setWeakInner p w hpc =>
    exact .inl (.of_weakInnerRef ht (by simp [hpc,ThreadPc.registers]))
  | _ =>
    refine .inl (.of_threads (fun t' p => ?_) rfl rfl rfl rfl rfl rfl)
    by_cases ht' : t' = t <;> simp_all [ThreadPc.registers,State.canStart]

end Steps

end Sdarc.System
