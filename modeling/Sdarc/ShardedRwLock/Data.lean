import Sdarc.ShardedRwLock
import Sdarc.Simulation
set_option autoImplicit false

/-!
The data of a `ShardedRwLock`. Seen through the guards it is a value under one readers-writer
lock: the locks of the shards cannot be told from it.
-/

namespace Sdarc.ShardedRwLock
open Transition

variable {T : Type}

structure Locked (T : Type) where
  lock : State
  data : T
  /-- The threads that are in the middle of changing the data. -/
  storing : Nat → Bool

def Locked.initial (x : T) : Locked T := ⟨.initial,x,fun _ => false⟩

/-- The methods of `ShardedRwLock` and of its guards. What is done with a `&mut T` takes
time: it begins with `derefMut` and is complete with `assign`. -/
inductive DataOp (T : Type) where
  | lock (op : Op)
  | derefRead (shard : Nat)
  | derefWrite
  | derefMut
  | assign (x : T)

structure DataAction (T : Type) where
  thread : Nat
  op : DataOp T

def Locked.canAccess (s : Locked T) (t : Nat) : Prop :=
  (s.lock.threads t).pc = .idle ∧ s.storing t = false

instance (s : Locked T) (t : Nat) : Decidable (s.canAccess t) :=
  inferInstanceAs (Decidable (_ ∧ _))

def DataOp.run (cfg : Config) (s : Locked T) (t : Nat) : DataOp T → Option (Locked T)
  | .lock op =>
      if s.storing t = false then
        (op.run cfg s.lock t).map (fun lock => { s with lock := lock })
      else none
  | .derefRead i =>
      if s.canAccess t ∧ 0 < (s.lock.threads t).readGuards i then some s else none
  | .derefWrite =>
      if s.canAccess t ∧ 0 < (s.lock.threads t).writeGuards then some s else none
  | .derefMut =>
      if s.canAccess t ∧ 0 < (s.lock.threads t).writeGuards then
        some { s with storing := Function.update s.storing t true }
      else none
  | .assign x =>
      if s.storing t = true then
        some { s with data := x, storing := Function.update s.storing t false }
      else none

def dataStep (cfg : Config) (s : Locked T) (a : DataAction T) : Option (Locked T) :=
  if a.thread < cfg.threads then a.op.run cfg s a.thread else none

def Locked.observe (cfg : Config) (s : Locked T) : Option T :=
  if ∀ u, u < cfg.threads → s.storing u = false then some s.data else none

/-- What the users of a lock see: their guards come and go, and they read and write. -/
inductive Event (T : Type) where
  | read (t : Nat)
  | dropRead (t : Nat)
  | write (t : Nat)
  | dropWrite (t : Nat)
  | sendWrite (t u : Nat)
  | load (t : Nat) (x : Option T)
  | store (t : Nat) (x : T)
  deriving DecidableEq, Repr

def Op.event (cfg : Config) (s : State) (t : Nat) : Op → Option (Event T)
  | .read _ | .write | .unlockWrite => none
  | .acquireRead => some (.read t)
  | .tryRead i refused => if (s.locks i).writer ∨ refused then none else some (.read t)
  | .dropRead _ => some (.dropRead t)
  | .acquireWrite =>
      match (s.threads t).pc with
      | .writing k => if k < cfg.shards then none else some (.write t)
      | _ => none
  | .sendWrite u => some (.sendWrite t u)
  | .dropWrite => some (.dropWrite t)

def event (cfg : Config) (s : Locked T) (a : DataAction T) : Option (Event T) :=
  match a.op with
  | .lock op => op.event cfg s.lock a.thread
  | .derefRead _ | .derefWrite => some (.load a.thread (s.observe cfg))
  | .derefMut => none
  | .assign x => some (.store a.thread x)

structure OneLock (T : Type) where
  value : T
  readGuards : Nat → Nat
  writeGuards : Nat → Nat

def OneLock.initial (x : T) : OneLock T := ⟨x,fun _ => 0,fun _ => 0⟩

def OneLock.step [DecidableEq T] (threads : Nat) (s : OneLock T) : Event T → Option (OneLock T)
  | .read t =>
      if ∀ u, u < threads → s.writeGuards u = 0 then
        some { s with readGuards := Function.update s.readGuards t (s.readGuards t + 1) }
      else none
  | .dropRead t =>
      if 0 < s.readGuards t then
        some { s with readGuards := Function.update s.readGuards t (s.readGuards t - 1) }
      else none
  | .write t =>
      if ∀ u, u < threads → s.readGuards u = 0 ∧ s.writeGuards u = 0 then
        some { s with writeGuards := Function.update s.writeGuards t 1 }
      else none
  | .dropWrite t =>
      if 0 < s.writeGuards t then
        some { s with writeGuards := Function.update s.writeGuards t 0 }
      else none
  | .sendWrite t u =>
      if 0 < s.writeGuards t ∧ t ≠ u then
        some { s with
          writeGuards := Function.update (Function.update s.writeGuards t 0) u 1 }
      else none
  | .load t x =>
      if (0 < s.readGuards t ∨ 0 < s.writeGuards t) ∧ x = some s.value then some s else none
  | .store t x => if 0 < s.writeGuards t then some { s with value := x } else none

/-- The guards of each thread, whichever shards they remember. -/
def State.view (cfg : Config) (s : State) (x : T) : OneLock T where
  value := x
  readGuards t := ∑ i ∈ Finset.range cfg.shards, (s.threads t).readGuards i
  writeGuards t := (s.threads t).writeGuards

def Locked.view (cfg : Config) (s : Locked T) : OneLock T := s.lock.view cfg s.data

/-- The locks are in order, and only the holder of the write guard changes the data. -/
structure Locked.Ok (cfg : Config) (s : Locked T) : Prop where
  lock : Consistent cfg s.lock
  storing : ∀ t, s.storing t = true → t < cfg.threads ∧ 0 < (s.lock.threads t).writeGuards

section Refinement

variable {cfg : Config} {s s' : State} {t u i : Nat}

theorem Consistent.noWriteGuards (h : Consistent cfg s) (hi : i < cfg.shards)
    (hfree : (s.locks i).writer = false) (hu : u < cfg.threads) :
    (s.threads u).writeGuards = 0 := by
  have hle := h.holds_le hu hi
  rw [hfree,Bool.toNat_false,Thread.holdsExclusive] at hle
  omega

theorem Consistent.alone (h : Consistent cfg s) (ht : t < cfg.threads)
    (hall : ∀ i, i < cfg.shards → 0 < (s.threads t).holdsExclusive i) (hu : u < cfg.threads) :
    (∀ i, i < cfg.shards → (s.threads u).readGuards i = 0) ∧
      (t ≠ u → (s.threads u).writeGuards = 0) := by
  refine ⟨fun i hi => ?_,fun htu => ?_⟩
  · have hle := h.holds_le ht hi
    have hheld := hall i hi
    have hw : (s.locks i).writer = true := by
      by_contra hne
      rw [Bool.not_eq_true] at hne
      rw [hne,Bool.toNat_false] at hle
      omega
    have hsum := h.readers i
    rw [h.exclusive i hw] at hsum
    exact Finset.sum_eq_zero_iff.mp hsum.symm u (Finset.mem_range.mpr hu)
  · have hzero := h.holder_unique ht hu cfg.shards_pos htu (hall 0 cfg.shards_pos)
    rw [Thread.holdsExclusive] at hzero
    omega

theorem Op.run_others {op : Op} (hs : op.run cfg s t = some s') (hu : u ≠ t) :
    (s.threads u).writeGuards ≤ (s'.threads u).writeGuards := by
  cases op with
  | read i | dropRead i | write | dropWrite =>
    simp only [Op.run,State.read,State.dropRead,State.write,State.dropWrite,
      Option.ite_none_right_eq_some,Option.some.injEq] at hs
    obtain ⟨-,rfl⟩ := hs
    simp [hu]
  | acquireRead =>
    simp only [Op.run,State.acquireRead] at hs
    split at hs
    · simp only [Option.ite_none_left_eq_some,Option.some.injEq] at hs
      obtain ⟨-,rfl⟩ := hs
      simp [hu]
    · contradiction
  | tryRead i refused =>
    simp only [Op.run,State.tryRead,Option.ite_none_right_eq_some] at hs
    obtain ⟨-,hs⟩ := hs
    split at hs <;> obtain rfl := Option.some.inj hs
    · exact le_rfl
    · simp [hu]
  | acquireWrite =>
    simp only [Op.run,State.acquireWrite] at hs
    split at hs
    · split at hs
      · simp only [Option.ite_none_left_eq_some,Option.some.injEq] at hs
        obtain ⟨-,rfl⟩ := hs
        simp [hu]
      · obtain rfl := Option.some.inj hs
        simp [hu]
    · contradiction
  | sendWrite v =>
    simp only [Op.run,State.sendWrite,Option.ite_none_right_eq_some,Option.some.injEq] at hs
    obtain ⟨-,-,rfl⟩ := hs
    by_cases huv : u = v
    · simp [huv]
    · simp [huv,hu]
  | unlockWrite =>
    simp only [Op.run,State.unlockWrite] at hs
    split at hs
    · split at hs <;> obtain rfl := Option.some.inj hs <;> simp [hu]
    · contradiction

theorem Locked.Ok.step {s s' : Locked T} {a : DataAction T} (h : s.Ok cfg)
    (hs : dataStep cfg s a = some s') : s'.Ok cfg := by
  obtain ⟨t,op⟩ := a
  simp only [dataStep,Option.ite_none_right_eq_some] at hs
  obtain ⟨ht,hs⟩ := hs
  cases op with
  | lock op =>
    simp only [DataOp.run,Option.ite_none_right_eq_some,Option.map_eq_some_iff] at hs
    obtain ⟨hnot,lock,hlock,rfl⟩ := hs
    refine ⟨h.lock.step (a := ⟨t,op⟩) (by rw [ShardedRwLock.step,if_pos ht]; exact hlock),
      fun u hu => ?_⟩
    obtain ⟨hlt,hpos⟩ := h.storing u hu
    have hne : u ≠ t := by
      rintro rfl
      rw [hnot] at hu
      contradiction
    exact ⟨hlt,hpos.trans_le (Op.run_others hlock hne)⟩
  | derefRead i | derefWrite =>
    simp only [DataOp.run,Option.ite_none_right_eq_some,Option.some.injEq] at hs
    obtain ⟨-,rfl⟩ := hs
    exact h
  | derefMut =>
    simp only [DataOp.run,Option.ite_none_right_eq_some,Option.some.injEq] at hs
    obtain ⟨⟨-,hpos⟩,rfl⟩ := hs
    refine ⟨h.lock,fun u hu => ?_⟩
    by_cases hut : u = t
    · subst hut
      exact ⟨ht,hpos⟩
    · exact h.storing u (by simpa [hut] using hu)
  | assign x =>
    simp only [DataOp.run,Option.ite_none_right_eq_some,Option.some.injEq] at hs
    obtain ⟨-,rfl⟩ := hs
    refine ⟨h.lock,fun u hu => ?_⟩
    by_cases hut : u = t
    · simp [hut] at hu
    · exact h.storing u (by simpa [hut] using hu)

variable {x : T}

theorem view_same (hthreads : ∀ u, (s'.threads u).readGuards = (s.threads u).readGuards ∧
    (s'.threads u).writeGuards = (s.threads u).writeGuards) : s'.view cfg x = s.view cfg x := by
  simp only [State.view,hthreads]

theorem view_thread (th : Thread) (hthreads : s'.threads = Function.update s.threads t th) :
    s'.view cfg x = ⟨x,Function.update (s.view cfg x).readGuards t
        (∑ i ∈ Finset.range cfg.shards, th.readGuards i),
      Function.update (s.view cfg x).writeGuards t th.writeGuards⟩ := by
  simp only [State.view,hthreads,OneLock.mk.injEq,true_and]
  refine ⟨funext fun u => ?_,funext fun u => ?_⟩ <;> by_cases hu : u = t <;> simp [hu]

theorem sum_readGuards (hi : i < cfg.shards) (guards : Nat → Nat) (n : Nat) :
    ∑ j ∈ Finset.range cfg.shards, Function.update guards i n j + guards i =
      ∑ j ∈ Finset.range cfg.shards, guards j + n :=
  sum_update (fun _ (n : Nat) => n) guards hi n

theorem view_lockShared (hi : i < cfg.shards) : (s.lockShared t i).view cfg x =
    { s.view cfg x with
      readGuards := Function.update (s.view cfg x).readGuards t
        ((s.view cfg x).readGuards t + 1) } := by
  have hsum := sum_readGuards hi (s.threads t).readGuards ((s.threads t).readGuards i + 1)
  rw [view_thread _ rfl]
  simp only [State.view,OneLock.mk.injEq,true_and]
  refine ⟨?_,Function.update_eq_self t _⟩
  congr 1
  omega

theorem Op.run_view [DecidableEq T] {op : Op} (h : Consistent cfg s) (ht : t < cfg.threads)
    (hs : op.run cfg s t = some s') :
    Follows (OneLock.step cfg.threads) (op.event cfg s t) (s.view cfg x) (s'.view cfg x) := by
  cases op with
  | read i | write =>
    simp only [Op.run,State.read,State.write,Option.ite_none_right_eq_some,
      Option.some.injEq] at hs
    obtain ⟨-,rfl⟩ := hs
    refine view_same (fun u => ?_)
    by_cases hu : u = t <;> simp [hu]
  | unlockWrite =>
    simp only [Op.run,State.unlockWrite] at hs
    refine view_same (fun u => ?_)
    split at hs
    · split at hs <;> obtain rfl := Option.some.inj hs <;> by_cases hu : u = t <;> simp [hu]
    · contradiction
  | acquireRead =>
    simp only [Op.run,State.acquireRead] at hs
    split at hs
    · rename_i i hpc
      simp only [Option.ite_none_left_eq_some,Option.some.injEq,Bool.not_eq_true] at hs
      obtain ⟨hfree,rfl⟩ := hs
      have hi := h.reading t i hpc
      rw [view_lockShared hi]
      exact if_pos (fun u hu => h.noWriteGuards hi hfree hu)
    · contradiction
  | tryRead i refused =>
    simp only [Op.run,State.tryRead,Option.ite_none_right_eq_some] at hs
    obtain ⟨⟨-,hi⟩,hs⟩ := hs
    simp only [Op.event]
    split at hs <;> obtain rfl := Option.some.inj hs
    · rename_i hfail
      rw [if_pos hfail]
      exact rfl
    · rename_i hfree
      rw [if_neg hfree]
      rw [view_lockShared hi]
      exact if_pos (fun u hu => h.noWriteGuards hi (by simpa using fun hw => hfree (.inl hw)) hu)
  | dropRead i =>
    simp only [Op.run,State.dropRead,Option.ite_none_right_eq_some,Option.some.injEq] at hs
    obtain ⟨⟨-,hpos⟩,rfl⟩ := hs
    have hi := h.readGuards t i hpos
    have hsum := sum_readGuards hi (s.threads t).readGuards ((s.threads t).readGuards i - 1)
    have hle : (s.threads t).readGuards i ≤ (s.view cfg x).readGuards t :=
      Finset.single_le_sum (f := (s.threads t).readGuards) (fun _ _ => Nat.zero_le _)
        (Finset.mem_range.mpr hi)
    refine Eq.trans ?_ (congrArg some (view_thread _ rfl).symm)
    rw [OneLock.step,if_pos (by omega)]
    simp only [State.view,Option.some.injEq,OneLock.mk.injEq,true_and] at hle ⊢
    refine ⟨?_,(Function.update_eq_self t _).symm⟩
    congr 1
    omega
  | acquireWrite =>
    simp only [Op.run,State.acquireWrite] at hs
    split at hs
    · rename_i k hpc
      have hevent : (Op.acquireWrite.event cfg s t : Option (Event T)) =
          if k < cfg.shards then none else some (.write t) := by
        simp only [Op.event,hpc]
      rw [hevent]
      split at hs
      · rename_i hk
        rw [if_pos hk]
        simp only [Option.ite_none_left_eq_some,Option.some.injEq] at hs
        obtain ⟨-,rfl⟩ := hs
        refine view_same (fun u => ?_)
        by_cases hu : u = t <;> simp [hu]
      · rename_i hk
        rw [if_neg hk]
        obtain rfl := Option.some.inj hs
        have hall : ∀ i, i < cfg.shards → 0 < (s.threads t).holdsExclusive i := fun i hi => by
          simp [Thread.holdsExclusive,Pc.holds,hpc,show i < k by omega]
        have hnone : (s.threads t).writeGuards = 0 := by
          have hle := h.holds_le ht cfg.shards_pos
          have hone := Bool.toNat_le (s.locks 0).writer
          simp only [Thread.holdsExclusive,Pc.holds,hpc,
            if_pos (show 0 < k by have := cfg.shards_pos; omega)] at hle
          omega
        refine Eq.trans ?_ (congrArg some (view_thread _ rfl).symm)
        rw [OneLock.step,if_pos]
        · simp only [State.view,hnone,Option.some.injEq,OneLock.mk.injEq,true_and,and_true]
          exact (Function.update_eq_self t _).symm
        · intro u hu
          obtain ⟨hread,hwrite⟩ := h.alone ht hall hu
          refine ⟨Finset.sum_eq_zero (fun i hi => hread i (Finset.mem_range.mp hi)),?_⟩
          by_cases htu : t = u
          · exact htu ▸ hnone
          · exact hwrite htu
    · contradiction
  | sendWrite u =>
    simp only [Op.run,State.sendWrite,Option.ite_none_right_eq_some,Option.some.injEq] at hs
    obtain ⟨hu,⟨-,-,hpos,htu⟩,rfl⟩ := hs
    have hex := h.excludes
    obtain ⟨hone,hother⟩ := hex.oneWriter t u ht hu hpos
    refine (if_pos ⟨hpos,htu⟩).trans ?_
    simp only [State.view,Option.some.injEq,OneLock.mk.injEq,true_and]
    refine ⟨funext fun v => ?_,funext fun v => ?_⟩
    · by_cases hvu : v = u
      · simp [hvu]
      · by_cases hvt : v = t
        · subst hvt
          simp [hvu]
        · simp [hvu,hvt]
    · by_cases hvu : v = u
      · simp [hvu,hother htu]
      · by_cases hvt : v = t
        · subst hvt
          simp [hvu,hone]
        · simp [hvu,hvt]
  | dropWrite =>
    simp only [Op.run,State.dropWrite,Option.ite_none_right_eq_some,Option.some.injEq] at hs
    obtain ⟨⟨-,hpos⟩,rfl⟩ := hs
    have hone := (h.excludes.oneWriter t t ht ht hpos).1
    refine Eq.trans ?_ (congrArg some (view_thread _ rfl).symm)
    rw [OneLock.step,if_pos (show 0 < (s.view cfg x).writeGuards t from hpos)]
    simp only [State.view,hone,Option.some.injEq,OneLock.mk.injEq,true_and,and_true]
    exact (Function.update_eq_self t _).symm

theorem Locked.Ok.observe {s : Locked T} (h : s.Ok cfg) (ht : t < cfg.threads)
    (hnot : s.storing t = false)
    (hguard : 0 < (s.lock.threads t).readGuards i ∨ 0 < (s.lock.threads t).writeGuards) :
    s.observe cfg = some s.data := by
  refine if_pos (fun u hu => ?_)
  by_contra hstoring
  obtain ⟨-,hpos⟩ := h.storing u (by simpa using hstoring)
  have hex := h.lock.excludes
  rcases hguard with hread | hwrite
  · have hzero := hex.noReader u t i hu ht hpos
    omega
  · have hne : u ≠ t := by
      rintro rfl
      rw [hnot] at hstoring
      exact hstoring rfl
    have hzero := (hex.oneWriter u t hu ht hpos).2 hne
    omega

theorem refines_oneLock [DecidableEq T] :
    Refines (dataStep cfg) (OneLock.step cfg.threads) (event cfg) (Locked.view (T := T) cfg)
      (Locked.Ok cfg) where
  keeps s a s' h hs := h.step hs
  follows s a s' h hs := by
    obtain ⟨t,op⟩ := a
    simp only [dataStep,Option.ite_none_right_eq_some] at hs
    obtain ⟨ht,hs⟩ := hs
    cases op with
    | lock op =>
      simp only [DataOp.run,Option.ite_none_right_eq_some,Option.map_eq_some_iff] at hs
      obtain ⟨-,lock,hlock,rfl⟩ := hs
      exact Op.run_view h.lock ht hlock
    | derefRead i =>
      simp only [DataOp.run,Option.ite_none_right_eq_some,Option.some.injEq] at hs
      obtain ⟨⟨⟨-,hnot⟩,hpos⟩,rfl⟩ := hs
      have hi := h.lock.readGuards t i hpos
      have hsome : 0 < (s.view cfg).readGuards t := hpos.trans_le
        (Finset.single_le_sum (f := (s.lock.threads t).readGuards) (fun _ _ => Nat.zero_le _)
          (Finset.mem_range.mpr hi))
      exact if_pos ⟨.inl hsome,h.observe ht hnot (.inl hpos)⟩
    | derefWrite =>
      simp only [DataOp.run,Option.ite_none_right_eq_some,Option.some.injEq] at hs
      obtain ⟨⟨⟨-,hnot⟩,hpos⟩,rfl⟩ := hs
      exact if_pos ⟨.inr hpos,h.observe (i := 0) ht hnot (.inr hpos)⟩
    | derefMut =>
      simp only [DataOp.run,Option.ite_none_right_eq_some,Option.some.injEq] at hs
      obtain ⟨-,rfl⟩ := hs
      exact rfl
    | assign y =>
      simp only [DataOp.run,Option.ite_none_right_eq_some,Option.some.injEq] at hs
      obtain ⟨hstoring,rfl⟩ := hs
      exact if_pos (h.storing t hstoring).2

end Refinement

section Values

variable {cfg : Config} {x : T}

def lastStored (x : T) : List (Event T) → T
  | [] => x
  | .store _ y :: events => lastStored y events
  | _ :: events => lastStored x events

theorem OneLock.load_lastStored [DecidableEq T] {threads t : Nat} {o : Option T}
    {before after : List (Event T)} {s s' : OneLock T}
    (h : run (OneLock.step threads) s (before ++ .load t o :: after) = some s') :
    o = some (lastStored s.value before) := by
  induction before generalizing s with
  | nil =>
    simp only [List.nil_append,run,Option.bind_eq_some_iff] at h
    obtain ⟨s₁,hs,-⟩ := h
    simp only [OneLock.step,Option.ite_none_right_eq_some] at hs
    exact hs.1.2
  | cons b before ih =>
    simp only [List.cons_append,run,Option.bind_eq_some_iff] at h
    obtain ⟨s₁,hs,hrest⟩ := h
    rw [ih hrest]
    cases b <;> simp only [OneLock.step,Option.ite_none_right_eq_some,Option.some.injEq] at hs <;>
      obtain ⟨-,rfl⟩ := hs <;> rfl

/-- The users of a `ShardedRwLock` see one readers-writer lock around its data, however
their threads are spread over the shards, and every load sees the value stored last. -/
theorem sharded_lock_is_one_lock [DecidableEq T] (cfg : Config) (x : T)
    (as : List (DataAction T)) (s : Locked T)
    (h : run (dataStep cfg) (.initial x) as = some s) :
    run (OneLock.step cfg.threads) (.initial x) (trace (dataStep cfg) (event cfg) (.initial x) as) =
      some (s.view cfg) ∧
    ∀ before t o after,
      trace (dataStep cfg) (event cfg) (.initial x) as = before ++ .load t o :: after →
      o = some (lastStored x before) := by
  have hok : (Locked.initial x).Ok cfg :=
    ⟨by constructor <;> simp [Locked.initial,State.initial,Thread.holdsExclusive,Pc.holds],
      fun t ht => by simp [Locked.initial] at ht⟩
  have hrun := (refines_oneLock.run hok h).2
  have hview : (Locked.initial x).view cfg = .initial x := by
    simp [Locked.view,State.view,Locked.initial,State.initial,OneLock.initial]
  rw [hview] at hrun
  refine ⟨hrun,fun before t o after htrace => ?_⟩
  rw [htrace] at hrun
  exact OneLock.load_lastStored hrun

def writeThenRead : List (DataAction Nat) :=
  [⟨0,.lock .write⟩,⟨0,.lock .acquireWrite⟩,⟨0,.lock .acquireWrite⟩,⟨0,.lock .acquireWrite⟩,
    ⟨1,.lock (.read 1)⟩,⟨0,.derefMut⟩,⟨0,.assign 7⟩,⟨0,.lock .dropWrite⟩,⟨0,.lock .unlockWrite⟩,
    ⟨0,.lock .unlockWrite⟩,⟨1,.lock .acquireRead⟩,⟨0,.lock .unlockWrite⟩,⟨1,.derefRead 1⟩]

theorem writeThenRead_sees : ∃ s,
    run (dataStep ⟨2,2,by decide⟩) (.initial 3) writeThenRead = some s ∧
    run (OneLock.step 2) (.initial 3)
      [.write 0,.store 0 7,.dropWrite 0,.read 1,.load 1 (some 7)] =
      some (s.view ⟨2,2,by decide⟩) := by
  have hsome : (run (dataStep ⟨2,2,by decide⟩) (.initial 3) writeThenRead).isSome = true := by rfl
  exact ⟨_,(Option.some_get hsome).symm,
    (sharded_lock_is_one_lock ⟨2,2,by decide⟩ 3 writeThenRead _ (Option.some_get hsome).symm).1⟩

end Values

end Sdarc.ShardedRwLock
