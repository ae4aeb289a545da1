import Mathlib.Algebra.Order.BigOperators.Group.Finset
import Mathlib.Data.Set.Basic
import Sdarc.Transition
set_option autoImplicit false

/-!
`ShardedRwLock`: a reader takes the lock of one shard, a writer those of all shards in
order. A shard's lock is a readers-writer lock that may keep new readers waiting for as
long as it likes.
-/

namespace Sdarc.ShardedRwLock
open Transition

structure Config where
  shards : Nat
  threads : Nat
  shards_pos : 0 < shards

/-- The `parking_lot` lock of one shard. -/
structure RwLock where
  readers : Nat
  writer : Bool
  deriving DecidableEq, Repr

/-- Where a thread stands in a call. `writing` and `unlocking` are the loops over the
shards, with the next shard. -/
inductive Pc where
  | idle
  | reading (shard : Nat)
  | writing (next : Nat)
  | unlocking (next : Nat)
  deriving DecidableEq, Repr

structure Thread where
  pc : Pc
  /-- The read guards of the thread, by the shard they remember. -/
  readGuards : Nat → Nat
  writeGuards : Nat

structure State where
  locks : Nat → RwLock
  threads : Nat → Thread

def State.initial : State where
  locks _ := ⟨0,false⟩
  threads _ := ⟨.idle,fun _ => 0,0⟩

namespace State

variable (s : State)

@[simp] def setThread (t : Nat) (x : Thread) : State :=
  { s with threads := Function.update s.threads t x }

@[simp] def setPc (t : Nat) (pc : Pc) : State :=
  s.setThread t { s.threads t with pc := pc }

@[simp] def setLock (i : Nat) (x : RwLock) : State :=
  { s with locks := Function.update s.locks i x }

@[simp] def lockShared (t i : Nat) : State :=
  (s.setLock i { s.locks i with readers := (s.locks i).readers + 1 }).setThread t
    { s.threads t with
      pc := .idle
      readGuards := Function.update (s.threads t).readGuards i
        ((s.threads t).readGuards i + 1) }

def read (cfg : Config) (t i : Nat) : Option State :=
  if (s.threads t).pc = .idle ∧ i < cfg.shards then some (s.setPc t (.reading i)) else none

def acquireRead (t : Nat) : Option State :=
  match (s.threads t).pc with
  | .reading i => if (s.locks i).writer then none else some (s.lockShared t i)
  | _ => none

def tryRead (cfg : Config) (t i : Nat) (refused : Bool) : Option State :=
  if (s.threads t).pc = .idle ∧ i < cfg.shards then
    if (s.locks i).writer ∨ refused then some s else some (s.lockShared t i)
  else none

def dropRead (t i : Nat) : Option State :=
  if (s.threads t).pc = .idle ∧ 0 < (s.threads t).readGuards i then
    some ((s.setLock i { s.locks i with readers := (s.locks i).readers - 1 }).setThread t
      { s.threads t with
        readGuards := Function.update (s.threads t).readGuards i
          ((s.threads t).readGuards i - 1) })
  else none

def write (t : Nat) : Option State :=
  if (s.threads t).pc = .idle then some (s.setPc t (.writing 0)) else none

/-- One round of the loop of `write`; the shard's guard is forgotten. After the last one
the guard of the whole lock is made. -/
def acquireWrite (cfg : Config) (t : Nat) : Option State :=
  match (s.threads t).pc with
  | .writing k =>
      if k < cfg.shards then
        if (s.locks k).writer ∨ 0 < (s.locks k).readers then none
        else some ((s.setLock k { s.locks k with writer := true }).setPc t (.writing (k+1)))
      else some (s.setThread t
        { s.threads t with pc := .idle, writeGuards := (s.threads t).writeGuards + 1 })
  | _ => none

def sendWrite (t u : Nat) : Option State :=
  if (s.threads t).pc = .idle ∧ (s.threads u).pc = .idle ∧ 0 < (s.threads t).writeGuards ∧
      t ≠ u then
    some ((s.setThread t
      { s.threads t with writeGuards := (s.threads t).writeGuards - 1 }).setThread u
      { s.threads u with writeGuards := (s.threads u).writeGuards + 1 })
  else none

def dropWrite (t : Nat) : Option State :=
  if (s.threads t).pc = .idle ∧ 0 < (s.threads t).writeGuards then
    some (s.setThread t
      { s.threads t with pc := .unlocking 0, writeGuards := (s.threads t).writeGuards - 1 })
  else none

/-- One round of the loop of `drop`: the shard's guard is recovered and dropped. -/
def unlockWrite (cfg : Config) (t : Nat) : Option State :=
  match (s.threads t).pc with
  | .unlocking k =>
      if k < cfg.shards then
        some ((s.setLock k { s.locks k with writer := false }).setPc t (.unlocking (k+1)))
      else some (s.setPc t .idle)
  | _ => none

end State

inductive Op where
  | read (shard : Nat)
  | acquireRead
  | tryRead (shard : Nat) (refused : Bool)
  | dropRead (shard : Nat)
  | write
  | acquireWrite
  | sendWrite (u : Nat)
  | dropWrite
  | unlockWrite
  deriving DecidableEq, Repr

structure Action where
  thread : Nat
  op : Op
  deriving DecidableEq, Repr

def Op.run (cfg : Config) (s : State) (t : Nat) : Op → Option State
  | .read i => s.read cfg t i
  | .acquireRead => s.acquireRead t
  | .tryRead i refused => s.tryRead cfg t i refused
  | .dropRead i => s.dropRead t i
  | .write => s.write t
  | .acquireWrite => s.acquireWrite cfg t
  | .sendWrite u => if u < cfg.threads then s.sendWrite t u else none
  | .dropWrite => s.dropWrite t
  | .unlockWrite => s.unlockWrite cfg t

def step (cfg : Config) (s : State) (a : Action) : Option State :=
  if a.thread < cfg.threads then a.op.run cfg s a.thread else none

/-- How often the call under way holds the lock of shard `i` exclusively. -/
def Pc.holds (i : Nat) : Pc → Nat
  | .writing k => if i < k then 1 else 0
  | .unlocking k => if k ≤ i then 1 else 0
  | _ => 0

def Thread.holdsExclusive (th : Thread) (i : Nat) : Nat := th.writeGuards + th.pc.holds i

def Thread.holds (th : Thread) (i : Nat) : Prop :=
  0 < th.readGuards i ∨ 0 < th.holdsExclusive i

def Thread.hasGuard (th : Thread) : Prop :=
  0 < th.writeGuards ∨ ∃ i, 0 < th.readGuards i

def Pc.wants (cfg : Config) : Pc → Option Nat
  | .reading i => some i
  | .writing k => if k < cfg.shards then some k else none
  | _ => none

structure Consistent (cfg : Config) (s : State) : Prop where
  readers : ∀ i, (s.locks i).readers = ∑ t ∈ Finset.range cfg.threads, (s.threads t).readGuards i
  writer : ∀ i, i < cfg.shards →
    ∑ t ∈ Finset.range cfg.threads, (s.threads t).holdsExclusive i =
      (s.locks i).writer.toNat
  exclusive : ∀ i, (s.locks i).writer = true → (s.locks i).readers = 0
  readGuards : ∀ t i, 0 < (s.threads t).readGuards i → i < cfg.shards
  reading : ∀ t i, (s.threads t).pc = .reading i → i < cfg.shards
  unlocking : ∀ t k, (s.threads t).pc = .unlocking k → (s.threads t).writeGuards = 0

section Invariant

variable {cfg : Config} {s s' : State} {t : Nat}

theorem Consistent.holds_le (h : Consistent cfg s) (ht : t < cfg.threads) {i : Nat}
    (hi : i < cfg.shards) : (s.threads t).holdsExclusive i ≤ (s.locks i).writer.toNat := by
  rw [← h.writer i hi]
  exact Finset.single_le_sum (f := fun t => (s.threads t).holdsExclusive i)
    (fun _ _ => Nat.zero_le _) (Finset.mem_range.mpr ht)

theorem Consistent.holder_unique (h : Consistent cfg s) {u i : Nat} (ht : t < cfg.threads)
    (hu : u < cfg.threads) (hi : i < cfg.shards) (htu : t ≠ u)
    (hheld : 0 < (s.threads t).holdsExclusive i) : (s.threads u).holdsExclusive i = 0 := by
  have hle : (s.threads t).holdsExclusive i + (s.threads u).holdsExclusive i ≤
      (s.locks i).writer.toNat := by
    rw [← h.writer i hi,← Finset.sum_pair (f := fun t => (s.threads t).holdsExclusive i) htu]
    refine Finset.sum_le_sum_of_subset (fun v hv => ?_)
    rcases Finset.mem_insert.mp hv with rfl | hv
    · exact Finset.mem_range.mpr ht
    · exact Finset.mem_singleton.mp hv ▸ Finset.mem_range.mpr hu
  have := Bool.toNat_le (s.locks i).writer
  omega

theorem Consistent.of_thread (h : Consistent cfg s) (ht : t < cfg.threads) (x : Thread)
    (hthreads : s'.threads = Function.update s.threads t x)
    (hreaders : ∀ i, (s'.locks i).readers + (s.threads t).readGuards i =
      (s.locks i).readers + x.readGuards i)
    (hwriter : ∀ i, i < cfg.shards →
      (s'.locks i).writer.toNat + (s.threads t).holdsExclusive i =
        (s.locks i).writer.toNat + x.holdsExclusive i)
    (hexclusive : ∀ i, (s'.locks i).writer = true → (s'.locks i).readers = 0)
    (hguards : ∀ i, 0 < x.readGuards i → i < cfg.shards)
    (hreading : ∀ i, x.pc = .reading i → i < cfg.shards)
    (hunlocking : ∀ k, x.pc = .unlocking k → x.writeGuards = 0) : Consistent cfg s' where
  readers i := by
    have hsum := sum_update (fun _ (th : Thread) => th.readGuards i) s.threads
      (Finset.mem_range.mp (Finset.mem_range.mpr ht)) x
    have hold := h.readers i
    have hnew := hreaders i
    rw [hthreads]
    omega
  writer i hi := by
    have hsum := sum_update (fun _ (th : Thread) => th.holdsExclusive i) s.threads ht x
    have hold := h.writer i hi
    have hnew := hwriter i hi
    rw [hthreads]
    omega
  exclusive := hexclusive
  readGuards u i := by
    rw [hthreads]
    by_cases hu : u = t
    · simpa [hu] using hguards i
    · simpa [hu] using h.readGuards u i
  reading u i := by
    rw [hthreads]
    by_cases hu : u = t
    · simpa [hu] using hreading i
    · simpa [hu] using h.reading u i
  unlocking u k := by
    rw [hthreads]
    by_cases hu : u = t
    · simpa [hu] using hunlocking k
    · simpa [hu] using h.unlocking u k

theorem Consistent.of_pc (h : Consistent cfg s) (ht : t < cfg.threads) (x : Thread)
    (hthreads : s'.threads = Function.update s.threads t x) (hlocks : s'.locks = s.locks)
    (hguards : x.readGuards = (s.threads t).readGuards)
    (hholds : ∀ i, i < cfg.shards → x.holdsExclusive i = (s.threads t).holdsExclusive i)
    (hreading : ∀ i, x.pc = .reading i → i < cfg.shards)
    (hunlocking : ∀ k, x.pc = .unlocking k → x.writeGuards = 0) : Consistent cfg s' := by
  refine h.of_thread ht x hthreads ?_ ?_ ?_ ?_ hreading hunlocking
  · intro i
    rw [hlocks,hguards]
  · intro i hi
    rw [hlocks,hholds i hi]
  · rw [hlocks]
    exact h.exclusive
  · rw [hguards]
    exact h.readGuards t

theorem Consistent.lockShared (h : Consistent cfg s) (ht : t < cfg.threads) {i : Nat}
    (hi : i < cfg.shards) (hfree : (s.locks i).writer = false)
    (hpc : ∀ j, j < cfg.shards → (s.threads t).pc.holds j = 0) :
    Consistent cfg (s.lockShared t i) := by
  refine h.of_thread ht { s.threads t with
      pc := .idle
      readGuards := Function.update (s.threads t).readGuards i
        ((s.threads t).readGuards i + 1) } rfl ?_ ?_ ?_ ?_ (by simp) (by simp)
  · intro j
    by_cases hj : j = i
    · subst hj
      simp
      omega
    · simp [hj]
  · intro j hj
    have hzero := hpc j hj
    by_cases hji : j = i <;> simp_all [Thread.holdsExclusive,Pc.holds]
  · intro j hj
    by_cases hji : j = i
    · simp [hji,hfree] at hj
    · simp only [State.lockShared,State.setThread,State.setLock,
        Function.update_of_ne hji] at hj ⊢
      exact h.exclusive j hj
  · intro j hj
    by_cases hji : j = i
    · exact hji ▸ hi
    · exact h.readGuards t j (by simpa [hji] using hj)

theorem Consistent.read {i : Nat} (h : Consistent cfg s) (ht : t < cfg.threads)
    (hs : s.read cfg t i = some s') : Consistent cfg s' := by
  simp only [State.read,Option.ite_none_right_eq_some,Option.some.injEq] at hs
  obtain ⟨⟨hidle,hi⟩,rfl⟩ := hs
  refine h.of_pc ht { s.threads t with pc := .reading i } rfl rfl rfl ?_ ?_ ?_
  all_goals simp [Thread.holdsExclusive,Pc.holds,hidle]
  exact hi

theorem Consistent.acquireRead (h : Consistent cfg s) (ht : t < cfg.threads)
    (hs : s.acquireRead t = some s') : Consistent cfg s' := by
  simp only [State.acquireRead] at hs
  split at hs
  · rename_i i hpc
    simp only [Option.ite_none_left_eq_some,Option.some.injEq] at hs
    obtain ⟨hfree,rfl⟩ := hs
    exact h.lockShared ht (h.reading t i hpc) (Bool.of_not_eq_true hfree)
      (by simp [hpc,Pc.holds])
  · contradiction

theorem Consistent.tryRead {i : Nat} {refused : Bool} (h : Consistent cfg s) (ht : t < cfg.threads)
    (hs : s.tryRead cfg t i refused = some s') : Consistent cfg s' := by
  simp only [State.tryRead,Option.ite_none_right_eq_some] at hs
  obtain ⟨⟨hidle,hi⟩,hs⟩ := hs
  split at hs <;> obtain rfl := Option.some.inj hs
  · exact h
  · rename_i hfree
    exact h.lockShared ht hi (by simpa using fun hw => hfree (.inl hw))
      (by simp [hidle,Pc.holds])

theorem Consistent.dropRead {i : Nat} (h : Consistent cfg s) (ht : t < cfg.threads)
    (hs : s.dropRead t i = some s') : Consistent cfg s' := by
  simp only [State.dropRead,Option.ite_none_right_eq_some,Option.some.injEq] at hs
  obtain ⟨⟨hidle,hpos⟩,rfl⟩ := hs
  have hle : (s.threads t).readGuards i ≤ (s.locks i).readers := by
    rw [h.readers i]
    exact Finset.single_le_sum (f := fun t => (s.threads t).readGuards i)
      (fun _ _ => Nat.zero_le _) (Finset.mem_range.mpr ht)
  refine h.of_thread ht { s.threads t with
      readGuards := Function.update (s.threads t).readGuards i
        ((s.threads t).readGuards i - 1) } rfl ?_ ?_ ?_ ?_ (h.reading t) (h.unlocking t)
  · intro j
    by_cases hj : j = i
    · subst hj
      simp
      omega
    · simp [hj]
  · intro j _
    by_cases hj : j = i <;> simp [hj,Thread.holdsExclusive]
  · intro j hj
    have hold := h.exclusive j
    by_cases hji : j = i
    · subst hji
      simp at hj ⊢
      have := hold hj
      omega
    · simpa [hji] using hold (by simpa [hji] using hj)
  · intro j hj
    by_cases hji : j = i
    · exact hji ▸ h.readGuards t i hpos
    · exact h.readGuards t j (by simpa [hji] using hj)

theorem Consistent.write (h : Consistent cfg s) (ht : t < cfg.threads)
    (hs : s.write t = some s') : Consistent cfg s' := by
  simp only [State.write,Option.ite_none_right_eq_some,Option.some.injEq] at hs
  obtain ⟨hidle,rfl⟩ := hs
  refine h.of_pc ht { s.threads t with pc := .writing 0 } rfl rfl rfl ?_ ?_ ?_
  all_goals simp [Thread.holdsExclusive,Pc.holds,hidle]

theorem Consistent.acquireWrite (h : Consistent cfg s) (ht : t < cfg.threads)
    (hs : s.acquireWrite cfg t = some s') : Consistent cfg s' := by
  simp only [State.acquireWrite] at hs
  split at hs
  · rename_i k hpc
    split at hs
    · rename_i hk
      simp only [Option.ite_none_left_eq_some,Option.some.injEq,not_or,not_lt,
        Bool.not_eq_true] at hs
      obtain ⟨⟨hw,hr⟩,rfl⟩ := hs
      refine h.of_thread ht { s.threads t with pc := .writing (k+1) } rfl ?_ ?_ ?_
        (h.readGuards t) (by simp) (by simp)
      · intro j
        by_cases hj : j = k <;> simp [hj]
      · intro j _
        by_cases hj : j = k
        · subst hj
          simp [Thread.holdsExclusive,Pc.holds,hpc,hw]
          omega
        · have : j < k + 1 ↔ j < k := by omega
          simp [Thread.holdsExclusive,Pc.holds,hpc,hj,this]
      · intro j hj
        by_cases hjk : j = k
        · subst hjk
          simpa using hr
        · simpa [hjk] using h.exclusive j (by simpa [hjk] using hj)
    · rename_i hk
      obtain rfl := Option.some.inj hs
      refine h.of_pc ht { s.threads t with
        pc := .idle, writeGuards := (s.threads t).writeGuards + 1 } rfl rfl rfl ?_ (by simp)
        (by simp)
      intro i hi
      have : i < k := by omega
      simp [Thread.holdsExclusive,Pc.holds,hpc,this]
  · contradiction

theorem Consistent.sendWrite {u : Nat} (h : Consistent cfg s) (ht : t < cfg.threads) (hu : u < cfg.threads)
    (hs : s.sendWrite t u = some s') : Consistent cfg s' := by
  simp only [State.sendWrite,Option.ite_none_right_eq_some,Option.some.injEq] at hs
  obtain ⟨⟨hidle,hidle',hpos,htu⟩,rfl⟩ := hs
  -- the guard passes through the hands of nobody
  have hsum : ∀ i, ∑ v ∈ Finset.range cfg.threads, (Function.update
      (Function.update s.threads t
        { s.threads t with writeGuards := (s.threads t).writeGuards - 1 }) u
        { s.threads u with writeGuards := (s.threads u).writeGuards + 1 } v).holdsExclusive i =
      ∑ v ∈ Finset.range cfg.threads, (s.threads v).holdsExclusive i := by
    intro i
    have h₁ := sum_update (fun _ (th : Thread) => th.holdsExclusive i) s.threads ht
      { s.threads t with writeGuards := (s.threads t).writeGuards - 1 }
    have h₂ := sum_update (fun _ (th : Thread) => th.holdsExclusive i)
      (Function.update s.threads t
        { s.threads t with writeGuards := (s.threads t).writeGuards - 1 }) hu
      { s.threads u with writeGuards := (s.threads u).writeGuards + 1 }
    simp only [Function.update_of_ne htu.symm,Thread.holdsExclusive] at h₁ h₂ ⊢
    omega
  have hother : ∀ v, (Function.update (Function.update s.threads t
        { s.threads t with writeGuards := (s.threads t).writeGuards - 1 }) u
        { s.threads u with writeGuards := (s.threads u).writeGuards + 1 } v).readGuards =
        (s.threads v).readGuards ∧
      (Function.update (Function.update s.threads t
        { s.threads t with writeGuards := (s.threads t).writeGuards - 1 }) u
        { s.threads u with writeGuards := (s.threads u).writeGuards + 1 } v).pc =
        (s.threads v).pc := by
    intro v
    by_cases hvu : v = u
    · simp [hvu]
    · by_cases hvt : v = t
      · subst hvt
        simp [hvu]
      · simp [hvu,hvt]
  refine ⟨fun i => ?_,fun i hi => ?_,h.exclusive,fun v i hv => ?_,fun v i hv => ?_,
    fun v k hv => ?_⟩
  · simp only [State.setThread,hother]
    exact h.readers i
  · simp only [State.setThread]
    rw [hsum i]
    exact h.writer i hi
  · simp only [State.setThread,hother] at hv
    exact h.readGuards v i hv
  · simp only [State.setThread,hother] at hv
    exact h.reading v i hv
  · simp only [State.setThread,hother] at hv
    have hvt : v ≠ t := by
      rintro rfl
      rw [hidle] at hv
      contradiction
    have hvu : v ≠ u := by
      rintro rfl
      rw [hidle'] at hv
      contradiction
    simpa [hvt,hvu] using h.unlocking v k hv

theorem Consistent.dropWrite (h : Consistent cfg s) (ht : t < cfg.threads)
    (hs : s.dropWrite t = some s') : Consistent cfg s' := by
  simp only [State.dropWrite,Option.ite_none_right_eq_some,Option.some.injEq] at hs
  obtain ⟨⟨hidle,hpos⟩,rfl⟩ := hs
  have hle := h.holds_le ht cfg.shards_pos
  have hone := Bool.toNat_le (s.locks 0).writer
  refine h.of_pc ht { s.threads t with
    pc := .unlocking 0, writeGuards := (s.threads t).writeGuards - 1 } rfl rfl rfl ?_ (by simp) ?_
  · intro i _
    simp only [Thread.holdsExclusive,Pc.holds,hidle,Nat.zero_le,if_true]
    omega
  · intro k _
    simp only [Thread.holdsExclusive,Pc.holds,hidle] at hle ⊢
    omega

theorem Consistent.unlockWrite (h : Consistent cfg s) (ht : t < cfg.threads)
    (hs : s.unlockWrite cfg t = some s') : Consistent cfg s' := by
  simp only [State.unlockWrite] at hs
  split at hs
  · rename_i k hpc
    have hnone := h.unlocking t k hpc
    split at hs <;> obtain rfl := Option.some.inj hs
    · rename_i hk
      have hle := h.holds_le ht hk
      simp only [Thread.holdsExclusive,hpc,Pc.holds,le_refl,if_true] at hle
      refine h.of_thread ht { s.threads t with pc := .unlocking (k+1) } rfl ?_ ?_ ?_
        (h.readGuards t) (by simp) (fun _ _ => hnone)
      · intro j
        by_cases hj : j = k <;> simp [hj]
      · intro j _
        by_cases hj : j = k
        · subst hj
          have := Bool.toNat_le (s.locks j).writer
          simp [Thread.holdsExclusive,Pc.holds,hpc]
          omega
        · have : k + 1 ≤ j ↔ k ≤ j := by omega
          simp [Thread.holdsExclusive,Pc.holds,hpc,hj,this]
      · intro j hj
        by_cases hjk : j = k
        · simp [hjk] at hj
        · simpa [hjk] using h.exclusive j (by simpa [hjk] using hj)
    · rename_i hk
      refine h.of_pc ht { s.threads t with pc := .idle } rfl rfl rfl ?_ (by simp) (by simp)
      intro i hi
      have : ¬ k ≤ i := by omega
      simp [Thread.holdsExclusive,Pc.holds,hpc,this]
  · contradiction

theorem Consistent.step {a : Action} (h : Consistent cfg s) (hs : step cfg s a = some s') :
    Consistent cfg s' := by
  obtain ⟨t,op⟩ := a
  simp only [ShardedRwLock.step,Option.ite_none_right_eq_some] at hs
  obtain ⟨ht,hs⟩ := hs
  cases op with
  | read i => exact h.read ht hs
  | acquireRead => exact h.acquireRead ht hs
  | tryRead i refused => exact h.tryRead ht hs
  | dropRead i => exact h.dropRead ht hs
  | write => exact h.write ht hs
  | acquireWrite => exact h.acquireWrite ht hs
  | sendWrite u =>
    simp only [Op.run,Option.ite_none_right_eq_some] at hs
    exact h.sendWrite ht hs.1 hs.2
  | dropWrite => exact h.dropWrite ht hs
  | unlockWrite => exact h.unlockWrite ht hs

theorem consistent_of_reach {ok : State → Action → Prop}
    (h : Reach (step cfg) ok .initial s) : Consistent cfg s :=
  h.invariant (Consistent cfg)
    (by constructor <;> simp [State.initial,Thread.holdsExclusive,Pc.holds])
    (fun _ _ _ hc _ hs => hc.step hs)

structure State.Excludes (cfg : Config) (s : State) : Prop where
  oneWriter : ∀ t u, t < cfg.threads → u < cfg.threads → 0 < (s.threads t).writeGuards →
    (s.threads t).writeGuards = 1 ∧ (t ≠ u → (s.threads u).writeGuards = 0)
  noReader : ∀ t u i, t < cfg.threads → u < cfg.threads → 0 < (s.threads t).writeGuards →
    (s.threads u).readGuards i = 0
  held : ∀ i, i < cfg.shards → (s.locks i).writer = true →
    ∃ t, t < cfg.threads ∧ 0 < (s.threads t).holdsExclusive i
  shared : ∀ i, 0 < (s.locks i).readers → ∃ t, t < cfg.threads ∧ 0 < (s.threads t).readGuards i
  dropping : ∀ t k, t < cfg.threads → (s.threads t).pc = .unlocking k → ∀ i, i < cfg.shards →
    (k ≤ i → s.locks i = ⟨0,true⟩) ∧ (i < k → (s.threads t).holdsExclusive i = 0)

theorem Consistent.excludes (h : Consistent cfg s) : s.Excludes cfg := by
  have hlock : ∀ t i, t < cfg.threads → i < cfg.shards → 0 < (s.threads t).holdsExclusive i →
      s.locks i = ⟨0,true⟩ := by
    intro t i ht hi hpos
    have hle := h.holds_le ht hi
    have hw : (s.locks i).writer = true := by
      by_contra hne
      rw [Bool.not_eq_true] at hne
      rw [hne,Bool.toNat_false] at hle
      omega
    exact (RwLock.mk.injEq _ _ _ _).mpr ⟨h.exclusive i hw,hw⟩
  refine ⟨fun t u ht hu hpos => ?_,fun t u i ht hu hpos => ?_,fun i hi hw => ?_,fun i hr => ?_,
    fun t k ht hpc i hi => ⟨fun hki => ?_,fun hik => ?_⟩⟩
  · have hle := h.holds_le ht cfg.shards_pos
    have hone := Bool.toNat_le (s.locks 0).writer
    have hheld : 0 < (s.threads t).holdsExclusive 0 := Nat.add_pos_left hpos _
    refine ⟨?_,fun htu => ?_⟩
    · unfold Thread.holdsExclusive at hle
      omega
    · have hzero := h.holder_unique ht hu cfg.shards_pos htu hheld
      unfold Thread.holdsExclusive at hzero
      omega
  · by_contra hne
    have hi := h.readGuards u i (Nat.pos_of_ne_zero hne)
    have hfree := hlock t i ht hi (Nat.add_pos_left hpos _)
    have hle := Finset.single_le_sum (f := fun t => (s.threads t).readGuards i)
      (fun _ _ => Nat.zero_le _) (Finset.mem_range.mpr hu)
    rw [← h.readers i,hfree] at hle
    exact hne (Nat.le_zero.mp hle)
  · have hsum := h.writer i hi
    rw [hw] at hsum
    obtain ⟨t,ht,hpos⟩ := Finset.exists_ne_zero_of_sum_ne_zero (by rw [hsum]; decide)
    exact ⟨t,Finset.mem_range.mp ht,Nat.pos_of_ne_zero hpos⟩
  · rw [h.readers i] at hr
    obtain ⟨t,ht,hpos⟩ := Finset.exists_ne_zero_of_sum_ne_zero hr.ne'
    exact ⟨t,Finset.mem_range.mp ht,Nat.pos_of_ne_zero hpos⟩
  · refine hlock t i ht hi ?_
    simp [Thread.holdsExclusive,hpc,Pc.holds,hki]
  · have hki : ¬ k ≤ i := by omega
    simp [Thread.holdsExclusive,hpc,Pc.holds,h.unlocking t k hpc,hki]

/-- The drop of a write guard that has come to shard `k`: nobody but its thread moves it, and
its next step can be taken; it frees the lock of the shard, or ends the drop after the last
one, when the thread holds no lock any more. -/
structure State.Releases (cfg : Config) (s : State) (t k : Nat) : Prop where
  enabled : ∃ s', step cfg s ⟨t,.unlockWrite⟩ = some s'
  others : ∀ a s', step cfg s a = some s' → a ≠ ⟨t,.unlockWrite⟩ →
    (s'.threads t).pc = .unlocking k
  frees : ∀ s', step cfg s ⟨t,.unlockWrite⟩ = some s' → k < cfg.shards →
    s'.locks = Function.update s.locks k ⟨0,false⟩ ∧ (s'.threads t).pc = .unlocking (k+1)
  ends : ∀ s', step cfg s ⟨t,.unlockWrite⟩ = some s' → cfg.shards ≤ k →
    s'.locks = s.locks ∧ (s'.threads t).pc = .idle ∧
      ∀ i, i < cfg.shards → (s'.threads t).holdsExclusive i = 0

theorem step_others {k : Nat} {a : Action} (hpc : (s.threads t).pc = .unlocking k)
    (hs : step cfg s a = some s') (ha : a ≠ ⟨t,.unlockWrite⟩) :
    (s'.threads t).pc = .unlocking k := by
  obtain ⟨u,op⟩ := a
  simp only [step,Option.ite_none_right_eq_some] at hs
  obtain ⟨-,hs⟩ := hs
  have hof : ∀ x : Thread, u ≠ t → (Function.update s.threads u x t).pc = .unlocking k :=
    fun x hut => by rw [Function.update_of_ne (Ne.symm hut)]; exact hpc
  have hidle : ∀ v, (s.threads v).pc = .idle → v ≠ t := by
    rintro v hv rfl
    rw [hpc] at hv
    contradiction
  cases op with
  | read i =>
    simp only [Op.run,State.read,Option.ite_none_right_eq_some,Option.some.injEq] at hs
    obtain ⟨⟨hstart,-⟩,rfl⟩ := hs
    exact hof _ (hidle u hstart)
  | acquireRead =>
    simp only [Op.run,State.acquireRead] at hs
    split at hs
    · rename_i i hreading
      simp only [Option.ite_none_left_eq_some,Option.some.injEq] at hs
      obtain ⟨-,rfl⟩ := hs
      exact hof _ (by rintro rfl; rw [hpc] at hreading; contradiction)
    · contradiction
  | tryRead i refused =>
    simp only [Op.run,State.tryRead,Option.ite_none_right_eq_some] at hs
    obtain ⟨⟨hstart,-⟩,hs⟩ := hs
    split at hs <;> obtain rfl := Option.some.inj hs
    · exact hpc
    · exact hof _ (hidle u hstart)
  | dropRead i =>
    simp only [Op.run,State.dropRead,Option.ite_none_right_eq_some,Option.some.injEq] at hs
    obtain ⟨⟨hstart,-⟩,rfl⟩ := hs
    exact hof _ (hidle u hstart)
  | write =>
    simp only [Op.run,State.write,Option.ite_none_right_eq_some,Option.some.injEq] at hs
    obtain ⟨hstart,rfl⟩ := hs
    exact hof _ (hidle u hstart)
  | acquireWrite =>
    simp only [Op.run,State.acquireWrite] at hs
    split at hs
    · rename_i j hwriting
      have hut : u ≠ t := by
        rintro rfl
        rw [hpc] at hwriting
        contradiction
      split at hs
      · simp only [Option.ite_none_left_eq_some,Option.some.injEq] at hs
        obtain ⟨-,rfl⟩ := hs
        exact hof _ hut
      · obtain rfl := Option.some.inj hs
        exact hof _ hut
    · contradiction
  | sendWrite v =>
    simp only [Op.run,State.sendWrite,Option.ite_none_right_eq_some,Option.some.injEq] at hs
    obtain ⟨-,⟨hu,hv,-,-⟩,rfl⟩ := hs
    simp only [State.setThread]
    rw [Function.update_of_ne (Ne.symm (hidle v hv))]
    exact hof _ (hidle u hu)
  | dropWrite =>
    simp only [Op.run,State.dropWrite,Option.ite_none_right_eq_some,Option.some.injEq] at hs
    obtain ⟨⟨hstart,-⟩,rfl⟩ := hs
    exact hof _ (hidle u hstart)
  | unlockWrite =>
    simp only [Op.run,State.unlockWrite] at hs
    have hut : u ≠ t := by
      rintro rfl
      exact ha rfl
    split at hs
    · split at hs <;> obtain rfl := Option.some.inj hs <;> exact hof _ hut
    · contradiction

theorem unlockWrite_eq {k : Nat} (ht : t < cfg.threads) (hpc : (s.threads t).pc = .unlocking k) :
    step cfg s ⟨t,.unlockWrite⟩ = some (if k < cfg.shards then
      (s.setLock k { s.locks k with writer := false }).setPc t (.unlocking (k+1))
      else s.setPc t .idle) := by
  simp only [step,Op.run,State.unlockWrite,ht,if_true,hpc]
  split <;> rfl

theorem Consistent.releases (h : Consistent cfg s) (ht : t < cfg.threads) {k : Nat}
    (hpc : (s.threads t).pc = .unlocking k) : s.Releases cfg t k := by
  have hstep := unlockWrite_eq ht hpc
  refine ⟨⟨_,hstep⟩,fun a s' hs ha => step_others hpc hs ha,fun s' hs hk => ?_,
    fun s' hs hk => ?_⟩
  · rw [hstep,if_pos hk] at hs
    obtain rfl := Option.some.inj hs
    have hfree := ((h.excludes.dropping t k ht hpc k hk).1 le_rfl)
    exact ⟨by simp [hfree],by simp⟩
  · rw [hstep,if_neg (by omega)] at hs
    obtain rfl := Option.some.inj hs
    have hnone := h.unlocking t k hpc
    exact ⟨rfl,by simp,fun i _ => by simp [Thread.holdsExclusive,Pc.holds,hnone]⟩

theorem unlocks (h : Consistent cfg s) (ht : t < cfg.threads) {k m : Nat}
    (hpc : (s.threads t).pc = .unlocking k) (hm : k + m = cfg.shards) :
    ∃ s', run (step cfg) s (List.replicate (m+1) ⟨t,.unlockWrite⟩) = some s' ∧
      (s'.threads t).pc = .idle ∧
      ∀ i, (k ≤ i ∧ i < cfg.shards → s'.locks i = ⟨0,false⟩) ∧
        (i < k → s'.locks i = s.locks i) := by
  induction m generalizing s k with
  | zero =>
    obtain ⟨s',hs⟩ := (h.releases ht hpc).enabled
    obtain ⟨hlocks,hidle,-⟩ := (h.releases ht hpc).ends s' hs (by omega)
    refine ⟨s',by simp [run,hs],hidle,fun i => ⟨fun hi => by omega,fun _ => by rw [hlocks]⟩⟩
  | succ m ih =>
    have hk : k < cfg.shards := by omega
    obtain ⟨s₁,hs⟩ := (h.releases ht hpc).enabled
    obtain ⟨hlocks,hpc₁⟩ := (h.releases ht hpc).frees s₁ hs hk
    obtain ⟨s',hrun,hidle,hfree⟩ := ih (h.step hs) hpc₁ (by omega)
    refine ⟨s',by rw [List.replicate_succ]; simp [run,hs,hrun],hidle,fun i => ⟨fun hi => ?_,
      fun hi => ?_⟩⟩
    · rcases Nat.eq_or_lt_of_le hi.1 with rfl | hlt
      · rw [(hfree k).2 (Nat.lt_succ_self k),hlocks,Function.update_self]
      · exact (hfree i).1 ⟨hlt,hi.2⟩
    · rw [(hfree i).2 (by omega),hlocks,Function.update_of_ne hi.ne]

theorem dropWrite_frees (h : Consistent cfg s) (ht : t < cfg.threads)
    (hidle : (s.threads t).pc = .idle) (hguard : 0 < (s.threads t).writeGuards) :
    ∃ s', run (step cfg) s (⟨t,.dropWrite⟩ ::
        List.replicate (cfg.shards+1) ⟨t,.unlockWrite⟩) = some s' ∧
      (s'.threads t).pc = .idle ∧ ∀ i, i < cfg.shards → s'.locks i = ⟨0,false⟩ := by
  have hdrop : step cfg s ⟨t,.dropWrite⟩ = some (s.setThread t
      { s.threads t with pc := .unlocking 0, writeGuards := (s.threads t).writeGuards - 1 }) := by
    simp only [ShardedRwLock.step,Op.run,State.dropWrite,ht,hidle,hguard,if_true,and_self]
  obtain ⟨s',hrun,hpc,hfree⟩ := unlocks (h.step hdrop) ht (k := 0)
    (by simp) (Nat.zero_add cfg.shards)
  exact ⟨s',by rw [run,hdrop]; exact hrun,hpc,fun i hi => (hfree i).1 ⟨Nat.zero_le i,hi⟩⟩

end Invariant

/-- A thread does not call `read` or `write` while it holds a guard. -/
def State.notNested (s : State) (a : Action) : Prop :=
  match a.op with
  | .read _ | .write => ¬ (s.threads a.thread).hasGuard
  | _ => True

/-- A set of threads that each wait for a lock held only by threads of the set. -/
def State.Deadlocked (cfg : Config) (s : State) : Prop :=
  ∃ blocked : Set Nat, blocked.Nonempty ∧ ∀ t ∈ blocked, t < cfg.threads ∧
    ∃ i, (s.threads t).pc.wants cfg = some i ∧
      (∃ u, u < cfg.threads ∧ (s.threads u).holds i) ∧
      ∀ u, u < cfg.threads → (s.threads u).holds i → u ∈ blocked

section Deadlock

variable {cfg : Config} {s s' : State}

theorem step_waits {a : Action} (hok : s.notNested a) (hs : step cfg s a = some s')
    (h : ∀ t i, (s.threads t).pc.wants cfg = some i → ¬ (s.threads t).hasGuard) :
    ∀ t i, (s'.threads t).pc.wants cfg = some i → ¬ (s'.threads t).hasGuard := by
  intro u i hu
  obtain ⟨t,op⟩ := a
  simp only [step,Option.ite_none_right_eq_some] at hs
  obtain ⟨ht,hs⟩ := hs
  have hold := h u
  cases op with
  | read j =>
    simp only [Op.run,State.read,Option.ite_none_right_eq_some,Option.some.injEq] at hs
    obtain ⟨-,rfl⟩ := hs
    by_cases hut : u = t
    · subst hut
      simpa [State.notNested,Thread.hasGuard] using hok
    · simp_all
  | write =>
    simp only [Op.run,State.write,Option.ite_none_right_eq_some,Option.some.injEq] at hs
    obtain ⟨-,rfl⟩ := hs
    by_cases hut : u = t
    · subst hut
      simpa [State.notNested,Thread.hasGuard] using hok
    · simp_all
  | acquireRead =>
    simp only [Op.run,State.acquireRead] at hs
    split at hs
    · simp only [Option.ite_none_left_eq_some,Option.some.injEq] at hs
      obtain ⟨-,rfl⟩ := hs
      by_cases hut : u = t
      · simp [hut,Pc.wants] at hu
      · simp_all
    · contradiction
  | tryRead j refused =>
    simp only [Op.run,State.tryRead,Option.ite_none_right_eq_some] at hs
    obtain ⟨-,hs⟩ := hs
    split at hs <;> obtain rfl := Option.some.inj hs
    · exact hold i hu
    · by_cases hut : u = t
      · simp [hut,Pc.wants] at hu
      · simp_all
  | dropRead j =>
    simp only [Op.run,State.dropRead,Option.ite_none_right_eq_some,Option.some.injEq] at hs
    obtain ⟨⟨hidle,-⟩,rfl⟩ := hs
    by_cases hut : u = t
    · simp [hut,hidle,Pc.wants] at hu
    · simp_all
  | acquireWrite =>
    simp only [Op.run,State.acquireWrite] at hs
    split at hs
    · rename_i k hpc
      split at hs
      · rename_i hk
        simp only [Option.ite_none_left_eq_some,Option.some.injEq] at hs
        obtain ⟨-,rfl⟩ := hs
        by_cases hut : u = t
        · subst hut
          simpa [Thread.hasGuard] using hold k (by simp [hpc,Pc.wants,hk])
        · simp_all
      · obtain rfl := Option.some.inj hs
        by_cases hut : u = t
        · simp [hut,Pc.wants] at hu
        · simp_all
    · contradiction
  | sendWrite v =>
    simp only [Op.run,State.sendWrite,Option.ite_none_right_eq_some,Option.some.injEq] at hs
    obtain ⟨-,⟨hidle,hidle',-,-⟩,rfl⟩ := hs
    by_cases huv : u = v
    · simp [huv,hidle',Pc.wants] at hu
    · by_cases hut : u = t
      · subst hut
        simp [huv,hidle,Pc.wants] at hu
      · simp_all
  | dropWrite =>
    simp only [Op.run,State.dropWrite,Option.ite_none_right_eq_some,Option.some.injEq] at hs
    obtain ⟨-,rfl⟩ := hs
    by_cases hut : u = t
    · simp [hut,Pc.wants] at hu
    · simp_all
  | unlockWrite =>
    simp only [Op.run,State.unlockWrite] at hs
    split at hs
    · split at hs <;> obtain rfl := Option.some.inj hs
      all_goals
        by_cases hut : u = t
        · simp [hut,Pc.wants] at hu
        · simp_all
    · contradiction

theorem Thread.holds_lt_wants {th : Thread} {i k : Nat} (hguard : ¬ th.hasGuard)
    (hheld : th.holds i) (hwants : th.pc.wants cfg = some k) : i < k := by
  have hzero : ¬ 0 < th.writeGuards ∧ ∀ j, ¬ 0 < th.readGuards j := by
    simpa [hasGuard] using hguard
  rcases hheld with hr | hw
  · exact absurd hr (hzero.2 i)
  · cases hpc : th.pc with
    | writing next =>
      simp only [hpc,Pc.wants,Option.ite_none_right_eq_some,Option.some.injEq] at hwants
      simp only [holdsExclusive,hpc,Pc.holds] at hw
      split at hw <;> omega
    | _ => simp_all [holdsExclusive,Pc.holds,Pc.wants]

theorem wants_lt (h : Consistent cfg s) {t i : Nat}
    (hwants : (s.threads t).pc.wants cfg = some i) : i < cfg.shards := by
  cases hpc : (s.threads t).pc with
  | reading j =>
    obtain rfl : j = i := by simpa [hpc,Pc.wants] using hwants
    exact h.reading t j hpc
  | writing k =>
    simp only [hpc,Pc.wants,Option.ite_none_right_eq_some,Option.some.injEq] at hwants
    omega
  | _ => simp [hpc,Pc.wants] at hwants

theorem not_deadlocked (h : Consistent cfg s)
    (hfree : ∀ t i, (s.threads t).pc.wants cfg = some i → ¬ (s.threads t).hasGuard) :
    ¬ s.Deadlocked cfg := by
  rintro ⟨blocked,⟨t₀,ht₀⟩,hb⟩
  have hnone : ∀ d t i, t ∈ blocked → (s.threads t).pc.wants cfg = some i →
      cfg.shards - i ≠ d := by
    intro d
    induction d using Nat.strong_induction_on with
    | _ d ih =>
      rintro t i hmem hwants rfl
      obtain ⟨-,j,hj,⟨u,hu,hheld⟩,hall⟩ := hb t hmem
      obtain rfl : i = j := Option.some.inj (hwants.symm.trans hj)
      have humem := hall u hu hheld
      obtain ⟨-,k,hk,-⟩ := hb u humem
      have hlt := Thread.holds_lt_wants (hfree u k hk) hheld hk
      have hkn := wants_lt h hk
      exact ih (cfg.shards - k) (by omega) u k humem hk rfl
  obtain ⟨-,i,hi,-⟩ := hb t₀ ht₀
  exact hnone _ t₀ i ht₀ hi rfl

/-- The guards of the lock exclude each other in every run, dropping a write guard goes on
until it has freed the locks of all shards, and threads that call the lock only without
holding a guard do not deadlock on it. -/
theorem excludes_and_not_deadlocked (cfg : Config) :
    (∀ s, Reach (step cfg) (fun _ _ => True) .initial s → s.Excludes cfg ∧
      (∀ t k, t < cfg.threads → (s.threads t).pc = .unlocking k → s.Releases cfg t k) ∧
      ∀ t, t < cfg.threads → (s.threads t).pc = .idle → 0 < (s.threads t).writeGuards →
        ∃ s', run (step cfg) s (⟨t,.dropWrite⟩ ::
            List.replicate (cfg.shards+1) ⟨t,.unlockWrite⟩) = some s' ∧
          (s'.threads t).pc = .idle ∧ ∀ i, i < cfg.shards → s'.locks i = ⟨0,false⟩) ∧
    ∀ s, Reach (step cfg) State.notNested .initial s → ¬ s.Deadlocked cfg := by
  refine ⟨fun s h => ?_,fun s h => ?_⟩
  · have hconsistent := consistent_of_reach h
    exact ⟨hconsistent.excludes,fun t k ht hpc => hconsistent.releases ht hpc,
      fun t ht hidle hguard => dropWrite_frees hconsistent ht hidle hguard⟩
  have hfree := h.invariant
    (fun s => ∀ t i, (s.threads t).pc.wants cfg = some i → ¬ (s.threads t).hasGuard)
    (by simp [State.initial,Pc.wants]) (fun _ _ _ hw hok hs => step_waits hok hs hw)
  exact not_deadlocked (consistent_of_reach h) hfree

theorem halfWayWriter_excludes :
    (∃ s, run (step ⟨2,2,Nat.succ_pos 1⟩) .initial [⟨0,.write⟩,⟨0,.acquireWrite⟩,⟨1,.write⟩] =
      some s ∧ s.Excludes ⟨2,2,Nat.succ_pos 1⟩ ∧ ¬ s.Deadlocked ⟨2,2,Nat.succ_pos 1⟩) ∧
    ∃ s s', run (step ⟨2,2,Nat.succ_pos 1⟩) .initial
        (⟨0,.write⟩ :: List.replicate 3 ⟨0,.acquireWrite⟩) = some s ∧
      run (step ⟨2,2,Nat.succ_pos 1⟩) s (⟨0,.dropWrite⟩ :: List.replicate 3 ⟨0,.unlockWrite⟩) =
        some s' ∧ s.locks 1 = ⟨0,true⟩ ∧ s'.locks 1 = ⟨0,false⟩ := by
  have hnew : ∀ t, ¬ (State.initial.threads t).hasGuard := by
    simp [State.initial,Thread.hasGuard]
  have hsafe := excludes_and_not_deadlocked ⟨2,2,Nat.succ_pos 1⟩
  have hfirst : Reach (step ⟨2,2,Nat.succ_pos 1⟩) State.notNested .initial _ :=
    .tail (.tail .refl ⟨⟨0,.write⟩,hnew 0,rfl⟩) ⟨⟨0,.acquireWrite⟩,trivial,rfl⟩
  have hlast := hfirst.tail ⟨⟨1,.write⟩,by simpa [State.notNested] using hnew 1,rfl⟩
  refine ⟨⟨_,rfl,(hsafe.1 _ (Reach.mono (fun _ _ _ => trivial) hlast)).1,hsafe.2 _ hlast⟩,?_⟩
  have hwriter : (run (step ⟨2,2,Nat.succ_pos 1⟩) .initial
      (⟨0,.write⟩ :: List.replicate 3 ⟨0,.acquireWrite⟩)).isSome = true := by rfl
  have hreach : Reach (step ⟨2,2,Nat.succ_pos 1⟩) (fun _ _ => True) .initial _ :=
    reach_run (fun _ _ _ => trivial) hwriter
  obtain ⟨s',hrun,-,hfree⟩ :=
    (hsafe.1 _ hreach).2.2 0 (by decide) (by rfl) Nat.one_pos
  exact ⟨_,s',(Option.some_get hwriter).symm,hrun,by rfl,hfree 1 (by decide)⟩

end Deadlock

end Sdarc.ShardedRwLock
