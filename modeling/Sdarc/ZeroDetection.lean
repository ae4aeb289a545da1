import Mathlib.Algebra.Order.BigOperators.Group.Finset
import Mathlib.Algebra.Order.Ring.Int
import Sdarc.Overflow
import Sdarc.Transition
set_option autoImplicit false

/-!
One pointee whose counter shards are hit by arbitrary increments and
decrements while the collector calls `update_state` on it. Memory holds the
64-bit words themselves, and the sum of a pass is an `i64`.
-/

namespace Sdarc.ZeroDetection
open Transition

structure State where
  counters : Nat → TaggedCounter
  /-- For each thread inside a decrement, the shard and the value its next
  `compare_exchange_weak` expects there. -/
  expected : Nat → Option (Nat × TaggedCounter)
  state : TrackedCounterState
  /-- `none` between two calls of `update_state`. -/
  pc : Option UpdatePc
  panicked : Option UpdatePanic

def initial : State :=
  ⟨fun _ => .new,fun _ => none,.defaultState,none,none⟩

inductive Action where
  | increment (shard : Nat)
  | load (thread shard : Nat)
  | compareExchange (thread : Nat) (spurious : Bool)
  | updateState
  | collect (weak : ClearWeakBackRefResult)
  | resetByHazardPointer
  deriving DecidableEq, Repr, Inhabited

def State.setCounter (s : State) (i : Nat) (c : TaggedCounter) : State :=
  { s with counters := Function.update s.counters i c }

def State.setExpected (s : State) (t : Nat) (x : Option (Nat × TaggedCounter)) : State :=
  { s with expected := Function.update s.expected t x }

def State.resume (s : State) : UpdateResult → State
  | .goto pc => { s with pc := some pc }
  | .done state => { s with state := state,pc := none }
  | .panic site => { s with panicked := some site,pc := none }

def collect (n : Nat) (s : State) (weak : ClearWeakBackRefResult) (pc : UpdatePc) : State :=
  match pc.shard with
  | none => s.resume (UpdatePc.afterClearWeak weak)
  | some k =>
      if k < n then
        let s' := if pc.clearsTag then s.setCounter k (s.counters k).clearTag else s
        s'.resume (pc.visit (s.counters k).value).wrapSum
      else s.resume pc.finish

def collectExact (n : Nat) (s : State) (weak : ClearWeakBackRefResult) (pc : UpdatePc) : State :=
  match pc.shard with
  | none => s.resume (UpdatePc.afterClearWeak weak)
  | some k =>
      if k < n then
        let s' := if pc.clearsTag then s.setCounter k (s.counters k).clearTag else s
        s'.resume (pc.visit (s.counters k).value)
      else s.resume pc.finish

def step (n : Nat) (s : State) : Action → Option State
  | .increment i => if i < n then some (s.setCounter i (s.counters i).increment) else none
  | .load t i =>
      if i < n ∧ s.expected t = none then some (s.setExpected t (some (i,s.counters i)))
      else none
  | .compareExchange t spurious =>
      match s.expected t with
      | none => none
      | some (i,value) =>
          if s.counters i = value ∧ spurious = false then
            some ((s.setCounter i value.decrementAndSetTag).setExpected t none)
          else some (s.setExpected t (some (i,s.counters i)))
  | .updateState =>
      if s.pc = none ∧ s.panicked = none then some (s.resume (UpdatePc.start s.state)) else none
  | .collect weak =>
      match s.pc with
      | none => none
      | some pc => some (collect n s weak pc)
  | .resetByHazardPointer =>
      if s.pc = none then some { s with state := .defaultState } else none

/-- The action is an increment of shard `i`, or the attempt that completes a
decrement of shard `i`. -/
def Hits (s : State) (a : Action) (i : Nat) : Prop :=
  match a with
  | .increment j => j = i
  | .compareExchange t spurious => s.expected t = some (i,s.counters i) ∧ spurious = false
  | _ => False

def Clears (n : Nat) (s : State) (a : Action) (i : Nat) : Prop :=
  i < n ∧ (∃ weak, a = .collect weak) ∧ ∃ sum, s.pc = some (.clearTags i sum)

/-- The count that the action would write still fits its 63 bits, and the sum that it would
compute its 64. -/
def InRange (n : Nat) (s : State) (a : Action) : Prop :=
  match a with
  | .increment i => (s.counters i).refCount < 2^62 - 1
  | .compareExchange t spurious => ∀ i, s.expected t = some (i,s.counters i) →
      spurious = false → -2^62 < (s.counters i).refCount
  | .collect _ => ∀ pc k, s.pc = some pc → pc.shard = some k → k < n →
      -2^63 ≤ pc.sum + (s.counters k).refCount ∧ pc.sum + (s.counters k).refCount < 2^63
  | _ => True

def trueSum (n : Nat) (s : State) : Int := ∑ i ∈ Finset.range n, (s.counters i).refCount

@[simp] theorem setCounter_counters (s : State) (i : Nat) (c : TaggedCounter) :
    (s.setCounter i c).counters = Function.update s.counters i c := rfl

@[simp] theorem setExpected_counters (s : State) (t : Nat)
    (x : Option (Nat × TaggedCounter)) : (s.setExpected t x).counters = s.counters := rfl

@[simp] theorem resume_counters (s : State) (r : UpdateResult) :
    (s.resume r).counters = s.counters := by cases r <;> rfl

inductive ShardStep (n : Nat) (s s' : State) (a : Action) (i : Nat) : Prop where
  | same : ¬ Hits s a i → ¬ Clears n s a i → s'.counters i = s.counters i →
      ShardStep n s s' a i
  | increment : Hits s a i →
      (s'.counters i).value = (s.counters i).value.increment → ShardStep n s s' a i
  | decrement : Hits s a i →
      (s'.counters i).value = (s.counters i).value.decrementAndSetTag → ShardStep n s s' a i
  | clear : Clears n s a i →
      (s'.counters i).value = (s.counters i).value.clearTag → ShardStep n s s' a i

theorem collect_shard {n : Nat} {s : State} {weak : ClearWeakBackRefResult} {pc : UpdatePc}
    (hpc : s.pc = some pc) (i : Nat) :
    ShardStep n s (collect n s weak pc) (.collect weak) i := by
  have hhit : ¬ Hits s (.collect weak) i := by simp [Hits]
  cases pc with
  | clearTags k sum =>
    by_cases hk : k < n
    · by_cases hi : i = k
      · subst hi
        refine .clear ⟨hk,⟨weak,rfl⟩,sum,hpc⟩ ?_
        simp [collect,UpdatePc.shard,UpdatePc.clearsTag,hk,TaggedCounter.value_clearTag]
      · refine .same hhit ?_ ?_
        · rintro ⟨-,-,sum',h⟩
          simp_all
        · simp [collect,UpdatePc.shard,UpdatePc.clearsTag,hk,hi]
    · refine .same hhit ?_ ?_
      · rintro ⟨hi,-,sum',h⟩
        simp_all
        omega
      · simp [collect,UpdatePc.shard,hk]
  | readRelaxed k sum =>
    refine .same hhit (by simp [Clears,hpc]) ?_
    by_cases hk : k < n <;> simp [collect,UpdatePc.shard,UpdatePc.clearsTag,hk]
  | readIfUntagged k sum =>
    refine .same hhit (by simp [Clears,hpc]) ?_
    by_cases hk : k < n <;> simp [collect,UpdatePc.shard,UpdatePc.clearsTag,hk]
  | clearWeakBackRef =>
    refine .same hhit (by simp [Clears,hpc]) ?_
    simp [collect,UpdatePc.shard]

theorem step_shard {n : Nat} {s s' : State} {a : Action}
    (h : step n s a = some s') (hr : InRange n s a) (i : Nat) : ShardStep n s s' a i := by
  cases a with
  | increment j =>
    simp only [step,Option.ite_none_right_eq_some,Option.some.injEq] at h
    obtain ⟨-,rfl⟩ := h
    by_cases hi : i = j
    · subst hi
      refine .increment rfl ?_
      simpa using TaggedCounter.value_increment _ hr
    · exact .same (by simpa [Hits] using Ne.symm hi) (by simp [Clears]) (by simp [hi])
  | load t j =>
    simp only [step,Option.ite_none_right_eq_some,Option.some.injEq] at h
    obtain ⟨-,rfl⟩ := h
    exact .same (by simp [Hits]) (by simp [Clears]) (by simp)
  | compareExchange t spurious =>
    cases he : s.expected t with
    | none => simp [step,he] at h
    | some x =>
      obtain ⟨j,value⟩ := x
      simp only [step,he] at h
      split at h
      · rename_i hok
        obtain ⟨hvalue,hspurious⟩ := hok
        obtain rfl := Option.some.inj h
        by_cases hi : i = j
        · subst hi
          subst hvalue
          refine .decrement ⟨he,hspurious⟩ ?_
          simpa using TaggedCounter.value_decrementAndSetTag _ (hr i he hspurious)
        · refine .same ?_ (by simp [Clears]) (by simp [hi])
          simp only [Hits,he,Option.some.injEq,Prod.mk.injEq]
          rintro ⟨⟨rfl,-⟩,-⟩
          exact hi rfl
      · rename_i hfail
        obtain rfl := Option.some.inj h
        refine .same ?_ (by simp [Clears]) (by simp)
        simp only [Hits,he,Option.some.injEq,Prod.mk.injEq]
        rintro ⟨⟨rfl,rfl⟩,hspurious⟩
        exact hfail ⟨rfl,hspurious⟩
  | updateState =>
    simp only [step,Option.ite_none_right_eq_some,Option.some.injEq] at h
    obtain ⟨-,rfl⟩ := h
    exact .same (by simp [Hits]) (by simp [Clears]) (by simp)
  | collect weak =>
    cases hpc : s.pc with
    | none => simp [step,hpc] at h
    | some pc =>
      simp only [step,hpc,Option.some.injEq] at h
      subst h
      exact collect_shard hpc i
  | resetByHazardPointer =>
    simp only [step,Option.ite_none_right_eq_some,Option.some.injEq] at h
    obtain ⟨-,rfl⟩ := h
    exact .same (by simp [Hits]) (by simp [Clears]) rfl

theorem collect_eq_exact {n : Nat} {s : State} {weak : ClearWeakBackRefResult} {pc : UpdatePc}
    (hr : InRange n s (.collect weak)) (hpc : s.pc = some pc) :
    collect n s weak pc = collectExact n s weak pc := by
  unfold collect collectExact
  cases hk : pc.shard with
  | none => rfl
  | some k =>
    by_cases hkn : k < n
    · obtain ⟨hlo,hhi⟩ := hr pc k hpc hk hkn
      have hvisit : (pc.visit (s.counters k).value).wrapSum = pc.visit (s.counters k).value :=
        UpdatePc.visit_wrapSum hlo hhi
      simp only [hkn,if_true,hvisit]
    · simp only [hkn,if_false]

theorem step_collector {n : Nat} {s s' : State} {a : Action} (h : step n s a = some s')
    (hr : InRange n s a) :
    ((∀ weak, a ≠ .collect weak) ∧ s'.pc = s.pc ∧ s'.state = s.state ∧
      s'.panicked = s.panicked) ∨
    (s.pc = none ∧ s' = s.resume (UpdatePc.start s.state)) ∨
    (∃ weak pc, a = .collect weak ∧ s.pc = some pc ∧ s' = collectExact n s weak pc) ∨
    (s.pc = none ∧ s' = { s with state := .defaultState }) := by
  cases a with
  | increment i =>
    simp only [step,Option.ite_none_right_eq_some,Option.some.injEq] at h
    exact .inl (by simp [← h.2,State.setCounter])
  | load t i =>
    simp only [step,Option.ite_none_right_eq_some,Option.some.injEq] at h
    exact .inl (by simp [← h.2,State.setExpected])
  | compareExchange t spurious =>
    simp only [step] at h
    split at h
    · simp at h
    · split at h <;> obtain h := Option.some.inj h <;>
        exact .inl (by simp [← h,State.setExpected,State.setCounter])
  | updateState =>
    simp only [step,Option.ite_none_right_eq_some,Option.some.injEq] at h
    exact .inr (.inl ⟨h.1.1,h.2.symm⟩)
  | collect weak =>
    cases hpc : s.pc with
    | none => simp [step,hpc] at h
    | some pc =>
      simp only [step,hpc,Option.some.injEq] at h
      exact .inr (.inr (.inl ⟨weak,pc,rfl,rfl,h.symm.trans (collect_eq_exact hr hpc)⟩))
  | resetByHazardPointer =>
    simp only [step,Option.ite_none_right_eq_some,Option.some.injEq] at h
    exact .inr (.inr (.inr ⟨h.1,h.2.symm⟩))

variable {n N : Nat}

/-- Between two instants with no tag-clearing read of shard `i` in between, an
unset tag at the later one shows that no decrement hit the shard; its count can
only have grown, and it has not grown only if nothing hit the shard at all. -/
theorem count_le_of_untagged (e : Execution (step n) N)
    (hr : ∀ k, k < N → InRange n (e.state k) (e.action k)) {i a b : Nat} (hab : a ≤ b)
    (hb : b ≤ N) (hclear : ∀ m, a ≤ m → m < b → ¬ Clears n (e.state m) (e.action m) i)
    (htag : ((e.state b).counters i).tag = false) :
    ((e.state a).counters i).refCount ≤ ((e.state b).counters i).refCount ∧
    (((e.state a).counters i).refCount = ((e.state b).counters i).refCount →
      ∀ m, a ≤ m → m < b → ¬ Hits (e.state m) (e.action m) i) := by
  induction b, hab using Nat.le_induction with
  | base => exact ⟨le_rfl,fun _ m h₁ h₂ => absurd h₁ (by omega)⟩
  | succ b hab ih =>
    have hstep := step_shard (e.enabled b (by omega)) (hr b (by omega)) i
    have hprev := ih (by omega) (fun m h₁ h₂ => hclear m h₁ (by omega))
    cases hstep with
    | same hhit _ heq =>
      rw [heq] at htag ⊢
      obtain ⟨hle,hnone⟩ := hprev htag
      refine ⟨hle,fun he m h₁ h₂ => ?_⟩
      rcases Nat.lt_succ_iff_lt_or_eq.mp h₂ with hlt | rfl
      · exact hnone he m h₁ hlt
      · exact hhit
    | increment _ heq =>
      simp only [TaggedCounter.value,Counter.increment,Counter.mk.injEq] at heq
      obtain ⟨hle,-⟩ := hprev (heq.2 ▸ htag)
      exact ⟨by omega,fun he => absurd he (by omega)⟩
    | decrement _ heq =>
      simp only [TaggedCounter.value,Counter.decrementAndSetTag,Counter.mk.injEq] at heq
      rw [heq.2] at htag
      contradiction
    | clear hc _ => exact absurd hc (hclear b hab (by omega))

def InClearingPass (s : State) : Prop := ∃ i sum, s.pc = some (.clearTags i sum)

def InReCheckingPass (s : State) : Prop := ∃ i sum, s.pc = some (.readIfUntagged i sum)

/-- The action is a re-checking read of shard `i` that finds its tag unset. -/
def ReadsUntagged (s : State) (a : Action) (i : Nat) : Prop :=
  (∃ weak, a = .collect weak) ∧ (∃ sum, s.pc = some (.readIfUntagged i sum)) ∧
    (s.counters i).tag = false

/-- The first `j` shards of the clearing pass under way at step `k`, with shard `i`
read at step `cl i`. -/
def ClearingScan (e : Execution (step n) N) (k j : Nat) (sum : Int) (cl : Nat → Nat) :
    Prop :=
  Scan (fun m i => Clears n (e.state m) (e.action m) i) (fun m => InClearingPass (e.state m))
    (fun m i => ((e.state m).counters i).refCount) k j sum cl

def ReCheckingScan (e : Execution (step n) N) (k j : Nat) (sum : Int) (rd : Nat → Nat) :
    Prop :=
  Scan (fun m i => ReadsUntagged (e.state m) (e.action m) i)
    (fun m => InReCheckingPass (e.state m))
    (fun m i => ((e.state m).counters i).refCount) k j sum rd

/-- `RequiresReChecking` was entered at step `d`, at the end of the clearing pass
`cl` whose sum was zero, and has not been left before step `k`. -/
structure Entered (e : Execution (step n) N) (k : Nat) (cl : Nat → Nat) (d : Nat) :
    Prop where
  pass : ClearingScan e d n 0 cl
  before : d < k
  decides : (e.state d).pc = some (.clearTags n 0)
  kept : ∀ m, d < m → m ≤ k → (e.state m).state = .requiresReChecking

structure History (e : Execution (step n) N) (k : Nat) : Prop where
  relaxed : ∀ j sum, (e.state k).pc = some (.readRelaxed j sum) →
    (e.state k).state = .defaultState
  clearing : ∀ j sum, (e.state k).pc = some (.clearTags j sum) →
    (e.state k).state = .defaultState ∧ j ≤ n ∧ ∃ cl, ClearingScan e k j sum cl
  rechecking : ∀ j sum, (e.state k).pc = some (.readIfUntagged j sum) →
    j ≤ n ∧ ∃ cl d rd, Entered e k cl d ∧ (∀ i, i < j → d < rd i) ∧
      ReCheckingScan e k j sum rd
  entered : (e.state k).state = .requiresReChecking → ∃ cl d, Entered e k cl d
  weak : (e.state k).pc = some .clearWeakBackRef →
    (e.state k).state = .requiresReChecking

theorem Entered.later {e : Execution (step n) N} {k d : Nat} {cl : Nat → Nat}
    (h : Entered e k cl d) (hst : (e.state (k+1)).state = .requiresReChecking) :
    Entered e (k+1) cl d where
  pass := h.pass
  before := Nat.lt_succ_of_lt h.before
  decides := h.decides
  kept m h₁ h₂ := by
    rcases Nat.le_succ_iff.mp h₂ with hle | rfl
    · exact h.kept m h₁ hle
    · exact hst

theorem History.later {e : Execution (step n) N} {k : Nat} (h : History e k)
    (hpc : (e.state (k+1)).pc = (e.state k).pc)
    (hst : (e.state (k+1)).state = (e.state k).state) : History e (k+1) where
  relaxed j sum hj := by
    rw [hst]
    exact h.relaxed j sum (hpc ▸ hj)
  clearing j sum hj := by
    rw [hpc] at hj
    obtain ⟨hd,hjn,cl,hcl⟩ := h.clearing j sum hj
    exact ⟨hst.trans hd,hjn,cl,hcl.later (fun _ => ⟨j,sum,hj⟩)⟩
  rechecking j sum hj := by
    rw [hpc] at hj
    obtain ⟨hjn,cl,d,rd,he,hafter,hrd⟩ := h.rechecking j sum hj
    have hrrc := he.kept k he.before le_rfl
    exact ⟨hjn,cl,d,rd,he.later (hst.trans hrrc),hafter,hrd.later (fun _ => ⟨j,sum,hj⟩)⟩
  entered hrrc := by
    obtain ⟨cl,d,he⟩ := h.entered (hst ▸ hrrc)
    exact ⟨cl,d,he.later hrrc⟩
  weak hw := hst.trans (h.weak (hpc ▸ hw))

theorem History.idle {e : Execution (step n) N} {k : Nat} (hpc : (e.state k).pc = none)
    (hrrc : (e.state k).state = .requiresReChecking → ∃ cl d, Entered e k cl d) :
    History e k where
  relaxed j sum hj := by simp [hpc] at hj
  clearing j sum hj := by simp [hpc] at hj
  rechecking j sum hj := by simp [hpc] at hj
  entered := hrrc
  weak hw := by simp [hpc] at hw

theorem History.startUpdate {e : Execution (step n) N} {k : Nat} (h : History e k)
    (hs : e.state (k+1) = (e.state k).resume (UpdatePc.start (e.state k).state)) :
    History e (k+1) := by
  cases hst : (e.state k).state with
  | defaultState =>
    simp only [hst,UpdatePc.start,State.resume] at hs
    constructor <;> simp [hs]
  | requiresReChecking =>
    simp only [hst,UpdatePc.start,State.resume] at hs
    obtain ⟨cl,d,he⟩ := h.entered hst
    have he' : Entered e (k+1) cl d := he.later (by simp [hs])
    constructor
    · simp [hs]
    · simp [hs]
    · intro j sum hj
      obtain ⟨rfl,rfl⟩ : 0 = j ∧ 0 = sum := by simpa [hs] using hj
      exact ⟨Nat.zero_le n,cl,d,cl,he',by simp,Scan.empty⟩
    · exact fun _ => ⟨cl,d,he'⟩
    · simp [hs]
  | readyToFree =>
    simp only [hst,UpdatePc.start,State.resume] at hs
    exact .idle (by simp [hs]) (by simp [hs])

theorem History.relaxedStep {e : Execution (step n) N} {k j : Nat} {sum : Int}
    {weak : ClearWeakBackRefResult} (h : History e k)
    (hpc : (e.state k).pc = some (.readRelaxed j sum))
    (hs : e.state (k+1) = collectExact n (e.state k) weak (.readRelaxed j sum)) :
    History e (k+1) := by
  have hst := h.relaxed j sum hpc
  by_cases hj : j < n
  · simp only [collectExact,UpdatePc.shard,hj,if_true,UpdatePc.clearsTag,UpdatePc.visit,
      State.resume] at hs
    constructor <;> simp [hs,hst]
  · by_cases hsum : sum = 0
    · simp only [collectExact,UpdatePc.shard,hj,if_false,UpdatePc.finish,hsum,if_true,
        State.resume] at hs
      constructor
      · simp [hs]
      · intro j' sum' hj'
        obtain ⟨rfl,rfl⟩ : 0 = j' ∧ 0 = sum' := by simpa [hs] using hj'
        exact ⟨by simp [hs,hst],Nat.zero_le n,fun _ => 0,Scan.empty⟩
      · simp [hs]
      · simp [hs,hst]
      · simp [hs]
    · simp only [collectExact,UpdatePc.shard,hj,if_false,UpdatePc.finish,hsum,
        State.resume] at hs
      exact .idle (by simp [hs]) (by simp [hs])

theorem History.clearingStep {e : Execution (step n) N} {k j : Nat} {sum : Int}
    {weak : ClearWeakBackRefResult} (h : History e k)
    (hpc : (e.state k).pc = some (.clearTags j sum)) (ha : e.action k = .collect weak)
    (hs : e.state (k+1) = collectExact n (e.state k) weak (.clearTags j sum)) :
    History e (k+1) := by
  obtain ⟨hst,hjn,cl,hcl⟩ := h.clearing j sum hpc
  by_cases hj : j < n
  · simp only [collectExact,UpdatePc.shard,hj,if_true,UpdatePc.clearsTag,UpdatePc.visit,
      State.resume,TaggedCounter.value] at hs
    have hvisit : Clears n (e.state k) (e.action k) j := ⟨hj,⟨weak,ha⟩,sum,hpc⟩
    have hcl' := hcl.extend hvisit ⟨j,sum,hpc⟩
    constructor
    · simp [hs]
    · intro j' sum' hj'
      obtain ⟨rfl,rfl⟩ : j + 1 = j' ∧ sum + ((e.state k).counters j).refCount = sum' := by
        simpa [hs] using hj'
      exact ⟨by simpa [hs,State.setCounter] using hst,hj,_,hcl'⟩
    · simp [hs]
    · simp [hs,State.setCounter,hst]
    · simp [hs]
  · obtain rfl : j = n := by omega
    by_cases hsum : sum = 0
    · subst hsum
      simp only [collectExact,UpdatePc.shard,hj,if_false,UpdatePc.finish,if_true,
        State.resume] at hs
      refine .idle (by simp [hs]) (fun hrrc => ⟨cl,k,hcl,Nat.lt_succ_self k,hpc,?_⟩)
      intro m h₁ h₂
      obtain rfl : m = k + 1 := by omega
      exact hrrc
    · simp only [collectExact,UpdatePc.shard,hj,if_false,UpdatePc.finish,hsum,
        State.resume] at hs
      exact .idle (by simp [hs]) (by simp [hs])

theorem History.reCheckingStep {e : Execution (step n) N} {k j : Nat} {sum : Int}
    {weak : ClearWeakBackRefResult} (h : History e k)
    (hpc : (e.state k).pc = some (.readIfUntagged j sum)) (ha : e.action k = .collect weak)
    (hs : e.state (k+1) = collectExact n (e.state k) weak (.readIfUntagged j sum)) :
    History e (k+1) := by
  obtain ⟨hjn,cl,d,rd,he,hafter,hrd⟩ := h.rechecking j sum hpc
  have hst : (e.state k).state = .requiresReChecking := he.kept k he.before le_rfl
  by_cases hj : j < n
  · cases htag : ((e.state k).counters j).tag with
    | true =>
      simp only [collectExact,UpdatePc.shard,hj,if_true,UpdatePc.clearsTag,UpdatePc.visit,
        TaggedCounter.value,htag,State.resume] at hs
      exact .idle (by simp [hs]) (by simp [hs])
    | false =>
      simp only [collectExact,UpdatePc.shard,hj,if_true,UpdatePc.clearsTag,UpdatePc.visit,
        TaggedCounter.value,htag,State.resume] at hs
      have hst' : (e.state (k+1)).state = .requiresReChecking := by simpa [hs] using hst
      have hrd' := hrd.extend ⟨⟨weak,ha⟩,⟨sum,hpc⟩,htag⟩ ⟨j,sum,hpc⟩
      constructor
      · simp [hs]
      · simp [hs]
      · intro j' sum' hj'
        obtain ⟨rfl,rfl⟩ : j + 1 = j' ∧ sum + ((e.state k).counters j).refCount = sum' := by
          simpa [hs] using hj'
        refine ⟨hj,cl,d,_,he.later hst',fun i hi => ?_,hrd'⟩
        rcases Nat.lt_succ_iff_lt_or_eq.mp hi with hlt | rfl
        · rw [Function.update_of_ne (by omega)]
          exact hafter i hlt
        · rw [Function.update_self]
          exact he.before
      · exact fun _ => ⟨cl,d,he.later hst'⟩
      · simp [hs]
  · by_cases hsum : sum = 0
    · simp only [collectExact,UpdatePc.shard,hj,if_false,UpdatePc.finish,hsum,if_true,
        State.resume] at hs
      have hst' : (e.state (k+1)).state = .requiresReChecking := by simpa [hs] using hst
      constructor
      · simp [hs]
      · simp [hs]
      · simp [hs]
      · exact fun _ => ⟨cl,d,he.later hst'⟩
      · exact fun _ => hst'
    · by_cases hpos : 0 < sum
      · simp only [collectExact,UpdatePc.shard,hj,if_false,UpdatePc.finish,hsum,hpos,if_true,
          State.resume] at hs
        exact .idle (by simp [hs]) (by simp [hs])
      · simp only [collectExact,UpdatePc.shard,hj,if_false,UpdatePc.finish,hsum,hpos,
          State.resume] at hs
        exact .idle (by simp [hs]) (fun _ => ⟨cl,d,he.later (by simpa [hs] using hst)⟩)

theorem History.weakStep {e : Execution (step n) N} {k : Nat}
    {weak : ClearWeakBackRefResult} (h : History e k)
    (hpc : (e.state k).pc = some .clearWeakBackRef)
    (hs : e.state (k+1) = collectExact n (e.state k) weak .clearWeakBackRef) :
    History e (k+1) := by
  obtain ⟨cl,d,he⟩ := h.entered (h.weak hpc)
  cases weak <;> simp only [collectExact,UpdatePc.shard,UpdatePc.afterClearWeak,
    State.resume] at hs
  · exact .idle (by simp [hs]) (by simp [hs])
  · exact .idle (by simp [hs]) (fun hrrc => ⟨cl,d,he.later hrrc⟩)
  · exact .idle (by simp [hs]) (by simp [hs])

theorem History.next {e : Execution (step n) N} {k : Nat} (h : History e k)
    (hr : InRange n (e.state k) (e.action k))
    (hs : step n (e.state k) (e.action k) = some (e.state (k+1))) : History e (k+1) := by
  rcases step_collector hs hr with ⟨-,hpc,hst,-⟩ | ⟨-,hs⟩ | ⟨weak,pc,ha,hpc,hs⟩ | ⟨hpc,hs⟩
  · exact h.later hpc hst
  · exact h.startUpdate hs
  · cases pc with
    | readRelaxed j sum => exact h.relaxedStep hpc hs
    | clearTags j sum => exact h.clearingStep hpc ha hs
    | readIfUntagged j sum => exact h.reCheckingStep hpc ha hs
    | clearWeakBackRef => exact h.weakStep hpc hs
  · exact .idle (by simp [hs,hpc]) (by simp [hs])

theorem history (e : Execution (step n) N) (h₀ : e.state 0 = initial)
    (hr : ∀ k, k < N → InRange n (e.state k) (e.action k)) {k : Nat} (hk : k ≤ N) :
    History e k :=
  e.invariant (History e) (.idle (by simp [h₀,initial]) (by simp [h₀,initial]))
    (fun k hk h hs => h.next (hr k hk) hs) hk

theorem clearTags_forward {s s' : State} {a : Action} {j j' : Nat} {sum sum' : Int}
    (h : step n s a = some s') (hr : InRange n s a) (hpc : s.pc = some (.clearTags j sum))
    (hpc' : s'.pc = some (.clearTags j' sum')) :
    j ≤ j' ∧ ∀ i, Clears n s a i → i < j' := by
  rcases step_collector h hr with ⟨ha,heq,-,-⟩ | ⟨hnone,-⟩ | ⟨weak,pc,-,hpc₁,hs⟩ | ⟨hnone,-⟩
  · obtain ⟨rfl,-⟩ : j' = j ∧ sum' = sum := by simpa [heq,hpc,eq_comm] using hpc'
    refine ⟨le_rfl,?_⟩
    rintro i ⟨-,⟨weak,hcollect⟩,-⟩
    exact absurd hcollect (ha weak)
  · simp [hpc] at hnone
  · obtain rfl : UpdatePc.clearTags j sum = pc := by simpa [hpc] using hpc₁
    by_cases hj : j < n
    · obtain ⟨rfl,-⟩ : j + 1 = j' ∧ _ := by
        simpa [hs,collectExact,UpdatePc.shard,hj,UpdatePc.clearsTag,UpdatePc.visit,
          State.resume] using hpc'
      refine ⟨by omega,?_⟩
      rintro i ⟨-,-,_,hi⟩
      obtain ⟨rfl,-⟩ : j = i ∧ _ := by simpa [hpc] using hi
      omega
    · exfalso
      simp only [hs,collectExact,UpdatePc.shard,hj,if_false,UpdatePc.finish] at hpc'
      split at hpc' <;> simp [State.resume] at hpc'
  · simp [hpc] at hnone

theorem ClearingScan.cleared_once {e : Execution (step n) N}
    (hr : ∀ k, k < N → InRange n (e.state k) (e.action k)) {k d : Nat}
    {cl : Nat → Nat} (he : Entered e k cl d) (hk : k ≤ N) {i : Nat} (hi : i < n) {m : Nat}
    (h₁ : cl i < m) (h₂ : m ≤ d) : ¬ Clears n (e.state m) (e.action m) i := by
  have hd := he.before
  have hinside : ∀ m, cl i ≤ m → m ≤ d → InClearingPass (e.state m) := by
    intro m h₁ h₂
    rcases Nat.lt_or_ge m d with hlt | hge
    · exact he.pass.contiguous m (by omega) ((he.pass.stamp_le hi).trans h₁) hlt
    · obtain rfl : m = d := by omega
      exact ⟨n,0,he.decides⟩
  have hpos : ∃ j sum, i < j ∧ (e.state m).pc = some (.clearTags j sum) := by
    induction m, h₁ using Nat.le_induction with
    | base =>
      obtain ⟨j',sum',hj'⟩ := hinside (cl i + 1) (by omega) h₂
      have hvisit : Clears n _ _ i := he.pass.visits i hi
      obtain ⟨sum,hj⟩ := hvisit.2.2
      have hf := clearTags_forward (e.enabled (cl i) (by omega)) (hr (cl i) (by omega)) hj hj'
      exact ⟨j',sum',hf.2 i hvisit,hj'⟩
    | succ m hm ih =>
      obtain ⟨j,sum,hij,hj⟩ := ih (by omega)
      obtain ⟨j',sum',hj'⟩ := hinside (m+1) (by omega) h₂
      have hf := clearTags_forward (e.enabled m (by omega)) (hr m (by omega)) hj hj'
      exact ⟨j',sum',by omega,hj'⟩
  obtain ⟨j,sum,hij,hj⟩ := hpos
  rintro ⟨-,-,_,hi'⟩
  obtain ⟨rfl,-⟩ : j = i ∧ _ := by simpa [hj] using hi'
  omega

theorem Entered.not_clears {e : Execution (step n) N} (h₀ : e.state 0 = initial)
    (hr : ∀ k, k < N → InRange n (e.state k) (e.action k)) {k d : Nat} {cl : Nat → Nat} (he : Entered e k cl d) (hk : k ≤ N) {i m : Nat}
    (h₁ : d < m) (h₂ : m ≤ k) : ¬ Clears n (e.state m) (e.action m) i := by
  rintro ⟨-,-,sum,hpc⟩
  have hd := ((history e h₀ hr (h₂.trans hk)).clearing i sum hpc).1
  rw [he.kept m h₁ h₂] at hd
  contradiction

theorem counter_eq_of_untouched (e : Execution (step n) N)
    (hr : ∀ k, k < N → InRange n (e.state k) (e.action k)) {i a b : Nat} (hab : a ≤ b)
    (hb : b ≤ N) (hclear : ∀ m, a ≤ m → m < b → ¬ Clears n (e.state m) (e.action m) i)
    (hhit : ∀ m, a ≤ m → m < b → ¬ Hits (e.state m) (e.action m) i) :
    (e.state b).counters i = (e.state a).counters i := by
  induction b, hab using Nat.le_induction with
  | base => rfl
  | succ b hab ih =>
    have hprev := ih (by omega) (fun m h₁ h₂ => hclear m h₁ (by omega))
      (fun m h₁ h₂ => hhit m h₁ (by omega))
    cases step_shard (e.enabled b (by omega)) (hr b (by omega)) i with
    | same _ _ heq => exact heq.trans hprev
    | increment hh _ => exact absurd hh (hhit b hab (by omega))
    | decrement hh _ => exact absurd hh (hhit b hab (by omega))
    | clear hc _ => exact absurd hc (hclear b hab (by omega))

theorem refCount_after_clear (e : Execution (step n) N)
    (hr : ∀ k, k < N → InRange n (e.state k) (e.action k)) {i m : Nat} (hm : m < N)
    (hc : Clears n (e.state m) (e.action m) i) :
    ((e.state (m+1)).counters i).refCount = ((e.state m).counters i).refCount := by
  have hno : ¬ Hits (e.state m) (e.action m) i := by
    obtain ⟨-,⟨weak,ha⟩,-⟩ := hc
    simp [ha,Hits]
  cases step_shard (e.enabled m hm) (hr m hm) i with
  | same _ hn _ => exact absurd hc hn
  | increment hh _ => exact absurd hh hno
  | decrement hh _ => exact absurd hh hno
  | clear _ heq =>
    simp only [TaggedCounter.value,Counter.clearTag,Counter.mk.injEq] at heq
    exact heq.1

/-- A re-checking pass over all shards that has found every tag unset, with the
pass that entered `RequiresReChecking` before it. -/
structure Confirmed (e : Execution (step n) N) (k : Nat) (sum : Int) (cl rd : Nat → Nat)
    (d : Nat) : Prop where
  entered : Entered e k cl d
  after : ∀ i, i < n → d < rd i
  reads : ReCheckingScan e k n sum rd

namespace Confirmed

variable {e : Execution (step n) N} {k d : Nat} {sum : Int} {cl rd : Nat → Nat}

theorem not_clears (h : Confirmed e k sum cl rd d) (h₀ : e.state 0 = initial)
    (hr : ∀ k, k < N → InRange n (e.state k) (e.action k)) (hk : k ≤ N) {i : Nat} (hi : i < n) {m : Nat} (h₁ : cl i < m) (h₂ : m ≤ rd i) :
    ¬ Clears n (e.state m) (e.action m) i := by
  rcases Nat.lt_or_ge d m with hlt | hge
  · have hrd := h.reads.before i hi
    exact h.entered.not_clears h₀ hr hk hlt (by omega)
  · exact ClearingScan.cleared_once hr h.entered hk hi h₁ hge

theorem refCount_le (h : Confirmed e k sum cl rd d) (h₀ : e.state 0 = initial)
    (hr : ∀ k, k < N → InRange n (e.state k) (e.action k)) (hk : k ≤ N) {i : Nat}
    (hi : i < n) :
    ((e.state (cl i)).counters i).refCount ≤ ((e.state (rd i)).counters i).refCount ∧
    (((e.state (cl i)).counters i).refCount = ((e.state (rd i)).counters i).refCount →
      ∀ m, cl i ≤ m → m ≤ rd i → ¬ Hits (e.state m) (e.action m) i) := by
  have hcd := h.entered.pass.before i hi
  have hd := h.after i hi
  have hrd := h.reads.before i hi
  have hvisit := h.reads.visits i hi
  have hcount := refCount_after_clear e hr (by omega) (h.entered.pass.visits i hi)
  have hle := count_le_of_untagged e hr (a := cl i + 1) (b := rd i) (by omega) (by omega)
    (fun m h₁ h₂ => h.not_clears h₀ hr hk hi (by omega) h₂.le) hvisit.2.2
  rw [hcount] at hle
  refine ⟨hle.1,fun heq m h₁ h₂ => ?_⟩
  rcases Nat.lt_or_ge (cl i) m with hlt | hge
  · rcases Nat.lt_or_ge m (rd i) with hlt' | hge'
    · exact hle.2 heq m hlt hlt'
    · obtain rfl : m = rd i := by omega
      obtain ⟨weak,ha⟩ := hvisit.1
      simp [ha,Hits]
  · obtain rfl : m = cl i := by omega
    obtain ⟨-,⟨weak,ha⟩,-⟩ := h.entered.pass.visits i hi
    simp [ha,Hits]

theorem sum_nonneg (h : Confirmed e k sum cl rd d) (h₀ : e.state 0 = initial)
    (hr : ∀ k, k < N → InRange n (e.state k) (e.action k)) (hk : k ≤ N) : 0 ≤ sum := by
  calc (0 : Int) = ∑ i ∈ Finset.range n, ((e.state (cl i)).counters i).refCount :=
        h.entered.pass.sum_eq
    _ ≤ ∑ i ∈ Finset.range n, ((e.state (rd i)).counters i).refCount :=
        Finset.sum_le_sum
          (fun i hi => (h.refCount_le h₀ hr hk (Finset.mem_range.mp hi)).1)
    _ = sum := h.reads.sum_eq.symm

theorem not_hits (h : Confirmed e k 0 cl rd d) (h₀ : e.state 0 = initial)
    (hr : ∀ k, k < N → InRange n (e.state k) (e.action k)) (hk : k ≤ N) {i : Nat}
    (hi : i < n) {m : Nat} (h₁ : cl i ≤ m) (h₂ : m ≤ rd i) :
    ¬ Hits (e.state m) (e.action m) i := by
  have hsums : ∑ i ∈ Finset.range n, ((e.state (cl i)).counters i).refCount =
      ∑ i ∈ Finset.range n, ((e.state (rd i)).counters i).refCount :=
    h.entered.pass.sum_eq.symm.trans h.reads.sum_eq
  have heq := (Finset.sum_eq_sum_iff_of_le
    (fun i hi => (h.refCount_le h₀ hr hk (Finset.mem_range.mp hi)).1)).mp hsums i
      (Finset.mem_range.mpr hi)
  exact (h.refCount_le h₀ hr hk hi).2 heq m h₁ h₂

/-- At an instant after all clearing reads and before all re-checking reads every
shard holds what its clearing read found. -/
theorem trueSum_eq_zero (h : Confirmed e k 0 cl rd d) (h₀ : e.state 0 = initial)
    (hr : ∀ k, k < N → InRange n (e.state k) (e.action k)) (hk : k ≤ N) {m : Nat}
    (h₁ : ∀ i, i < n → cl i < m) (h₂ : ∀ i, i < n → m ≤ rd i) :
    trueSum n (e.state m) = 0 := by
  rw [h.entered.pass.sum_eq]
  refine Finset.sum_congr rfl (fun i hi => ?_)
  have hi := Finset.mem_range.mp hi
  have hm := h₁ i hi
  have hm' := h₂ i hi
  have hrd := h.reads.before i hi
  have hsame := counter_eq_of_untouched e hr (a := cl i + 1) (b := m) (by omega) (by omega)
    (fun m' h h' => by exact Confirmed.not_clears ‹_› h₀ hr hk hi (by omega) (by omega))
    (fun m' h h' => by exact Confirmed.not_hits ‹_› h₀ hr hk hi (by omega) (by omega))
  rw [hsame]
  exact refCount_after_clear e hr (by omega) (h.entered.pass.visits i hi)

end Confirmed

theorem confirmed_of_pc (e : Execution (step n) N) (h₀ : e.state 0 = initial)
    (hr : ∀ k, k < N → InRange n (e.state k) (e.action k)) {k : Nat} (hk : k ≤ N) {sum : Int} (hpc : (e.state k).pc = some (.readIfUntagged n sum)) :
    ∃ cl d rd, Confirmed e k sum cl rd d := by
  obtain ⟨-,cl,d,rd,he,hafter,hrd⟩ := (history e h₀ hr hk).rechecking n sum hpc
  exact ⟨cl,d,rd,he,hafter,hrd⟩

theorem collect_panicked {s : State} {weak : ClearWeakBackRefResult} {pc : UpdatePc}
    (h : (collectExact n s weak pc).panicked = some .negativeSumWithoutTag) :
    s.panicked = some .negativeSumWithoutTag ∨
    ∃ j sum, pc = .readIfUntagged j sum ∧ ¬ j < n ∧ sum < 0 := by
  cases pc with
  | readRelaxed j sum =>
    simp only [collectExact,UpdatePc.shard,UpdatePc.clearsTag,UpdatePc.visit,UpdatePc.finish] at h
    split at h
    · exact .inl (by simpa [State.resume] using h)
    · split at h <;> exact .inl (by simpa [State.resume] using h)
  | clearTags j sum =>
    simp only [collectExact,UpdatePc.shard,UpdatePc.clearsTag,UpdatePc.visit,UpdatePc.finish] at h
    split at h
    · exact .inl (by simpa [State.resume,State.setCounter] using h)
    · split at h <;> exact .inl (by simpa [State.resume] using h)
  | readIfUntagged j sum =>
    simp only [collectExact,UpdatePc.shard,UpdatePc.clearsTag,UpdatePc.visit,UpdatePc.finish] at h
    split at h
    · cases htag : (s.counters j).value.tag <;>
        exact .inl (by simpa [htag,State.resume] using h)
    · rename_i hj
      split at h
      · exact .inl (by simpa [State.resume] using h)
      · split at h
        · exact .inl (by simpa [State.resume] using h)
        · exact .inr ⟨j,sum,rfl,hj,by omega⟩
  | clearWeakBackRef =>
    cases weak <;> exact .inl (by simpa [collectExact,UpdatePc.shard,UpdatePc.afterClearWeak,
      State.resume] using h)

theorem not_negativeSumWithoutTag (e : Execution (step n) N) (h₀ : e.state 0 = initial)
    (hr : ∀ k, k < N → InRange n (e.state k) (e.action k)) {k : Nat} (hk : k ≤ N) :
    (e.state k).panicked ≠ some .negativeSumWithoutTag := by
  induction k with
  | zero => simp [h₀,initial]
  | succ k ih =>
    have hprev := ih (by omega)
    intro hpanic
    rcases step_collector (e.enabled k (by omega)) (hr k (by omega)) with
      ⟨-,-,-,heq⟩ | ⟨-,hs⟩ | ⟨weak,pc,-,hpc,hs⟩ | ⟨-,hs⟩
    · exact hprev (heq ▸ hpanic)
    · cases hst : (e.state k).state <;>
        simp_all [UpdatePc.start,State.resume]
    · rcases collect_panicked (hs ▸ hpanic) with hbefore | ⟨j,sum,rfl,hj,hneg⟩
      · exact hprev hbefore
      · have hjn := ((history e h₀ hr (by omega)).rechecking j sum hpc).1
        obtain rfl : j = n := by omega
        obtain ⟨cl,d,rd,hconf⟩ := confirmed_of_pc e h₀ hr (by omega) hpc
        have hnonneg := hconf.sum_nonneg h₀ hr (by omega)
        omega
    · exact hprev (by simpa [hs] using hpanic)

/-- Soundness of the two-stage zero detection: whenever a re-checking pass has
found every tag unset, its sum is not negative, and if it is zero then nothing hit
a shard between its clearing read and its re-checking read, so the true sum was zero
from the last clearing read to the first re-checking read. -/
theorem zero_detection_sound (hn : 0 < n) (e : Execution (step n) N)
    (h₀ : e.state 0 = initial)
    (hr : ∀ k, k < N → InRange n (e.state k) (e.action k)) :
    (∀ k, k ≤ N → (e.state k).panicked ≠ some .negativeSumWithoutTag) ∧
    ∀ k sum, k ≤ N → (e.state k).pc = some (.readIfUntagged n sum) →
      0 ≤ sum ∧
      (sum = 0 → ∃ cl d rd, Entered e k cl d ∧ ReCheckingScan e k n 0 rd ∧ d < rd 0 ∧
        (∀ i, i < n → ∀ m, cl i ≤ m → m ≤ rd i → ¬ Hits (e.state m) (e.action m) i) ∧
        ∀ m, cl (n-1) < m → m ≤ rd 0 → trueSum n (e.state m) = 0) := by
  refine ⟨fun k hk => not_negativeSumWithoutTag e h₀ hr hk,fun k sum hk hpc => ?_⟩
  obtain ⟨cl,d,rd,h⟩ := confirmed_of_pc e h₀ hr hk hpc
  refine ⟨h.sum_nonneg h₀ hr hk,?_⟩
  rintro rfl
  refine ⟨cl,d,rd,h.entered,h.reads,h.after 0 hn,?_,?_⟩
  · intro i hi m h₁ h₂
    exact h.not_hits h₀ hr hk hi h₁ h₂
  · intro m h₁ h₂
    refine h.trueSum_eq_zero h₀ hr hk (fun i hi => ?_) (fun i hi => ?_)
    · have := h.entered.pass.stamp_mono (show i ≤ n - 1 by omega) (by omega)
      omega
    · exact h₂.trans (h.reads.stamp_le hi)

section Short

variable {s s' : State} {a : Action}

def State.counts (s : State) (i : Nat) : Int := (s.counters i).refCount

structure Small (n k : Nat) (s : State) : Prop where
  counts : magnitude n 0 s.counts ≤ k
  sum : ∀ pc, s.pc = some pc → pc.Small n k s.counts
  expected : ∀ t i value, s.expected t = some (i,value) → i < n

theorem hits_unique {i j : Nat} (hi : Hits s a i) (hj : Hits s a j) : i = j := by
  cases a with
  | increment k => exact Eq.trans (Eq.symm hi) hj
  | compareExchange t spurious => exact (Prod.mk.inj (Option.some.inj (hi.1.symm.trans hj.1))).1
  | _ => exact hi.elim

theorem step_growsByOne (h : step n s a = some s') (hr : InRange n s a) :
    GrowsByOne s.counts s'.counts := by
  have hsame : ∀ i, ¬ Hits s a i → s'.counts i = s.counts i := by
    intro i hi
    cases step_shard h hr i with
    | same _ _ heq => rw [State.counts,heq,State.counts]
    | increment hh _ | decrement hh _ => exact absurd hh hi
    | clear _ heq => exact congrArg Counter.refCount heq
  by_cases hhit : ∃ k, Hits s a k
  · obtain ⟨k,hk⟩ := hhit
    refine ⟨k,fun i hi => by rw [hsame i (fun hh => hi (hits_unique hh hk))],?_⟩
    cases step_shard h hr k with
    | same hh _ _ => exact absurd hk hh
    | increment _ heq =>
      have hcount : s'.counts k = s.counts k + 1 := congrArg Counter.refCount heq
      omega
    | decrement _ heq =>
      have hcount : s'.counts k = s.counts k - 1 := congrArg Counter.refCount heq
      omega
    | clear hc _ =>
      rw [hsame k]
      · exact Nat.le_succ _
      · obtain ⟨-,⟨weak,rfl⟩,-⟩ := hc
        exact hk.elim
  · refine .of_eq (funext fun i => hsame i (fun hh => hhit ⟨i,hh⟩))

theorem Small.inRange {k : Nat} (h : Small n k s) (hk : k < 2^62 - 1) (hs : step n s a = some s') :
    InRange n s a := by
  have hcount : ∀ i, i < n → (s.counters i).refCount.natAbs ≤ k := fun i hi =>
    (natAbs_le_magnitude s.counts (Nat.zero_le i) hi).trans h.counts
  cases a with
  | increment i =>
    simp only [step,Option.ite_none_right_eq_some] at hs
    have hle := hcount i hs.1
    change (s.counters i).refCount < 2^62 - 1
    omega
  | compareExchange t spurious =>
    intro i he _
    have hle := hcount i (h.expected t i _ he)
    omega
  | collect weak =>
    intro pc j hpc hj hjn
    have hle := (h.sum pc hpc).next_le hj hjn
    rw [State.counts] at hle
    omega
  | _ => trivial

theorem collect_expected (s : State) (weak : ClearWeakBackRefResult) (pc : UpdatePc) :
    (collect n s weak pc).expected = s.expected := by
  have hresume : ∀ (u : State) (result : UpdateResult), (u.resume result).expected = u.expected :=
    fun u result => by cases result <;> rfl
  unfold collect
  split
  · exact hresume _ _
  · split
    · rw [hresume]
      split <;> rfl
    · exact hresume _ _

theorem step_expected (h : step n s a = some s')
    (hold : ∀ t i value, s.expected t = some (i,value) → i < n) :
    ∀ t i value, s'.expected t = some (i,value) → i < n := by
  intro u i value hu
  cases a with
  | increment j =>
    simp only [step,Option.ite_none_right_eq_some,Option.some.injEq] at h
    obtain ⟨-,rfl⟩ := h
    exact hold u i value hu
  | load t j =>
    simp only [step,Option.ite_none_right_eq_some,Option.some.injEq] at h
    obtain ⟨⟨hj,-⟩,rfl⟩ := h
    by_cases hut : u = t
    · subst hut
      obtain ⟨rfl,-⟩ : j = i ∧ _ := by simpa [State.setExpected] using hu
      exact hj
    · exact hold u i value (by simpa [State.setExpected,hut] using hu)
  | compareExchange t spurious =>
    simp only [step] at h
    split at h
    · contradiction
    · rename_i j old he
      split at h <;> obtain rfl := Option.some.inj h
      · by_cases hut : u = t
        · simp [State.setExpected,hut] at hu
        · exact hold u i value (by simpa [State.setExpected,State.setCounter,hut] using hu)
      · by_cases hut : u = t
        · obtain ⟨rfl,-⟩ : j = i ∧ _ := by simpa [State.setExpected,hut] using hu
          exact hold t j old he
        · exact hold u i value (by simpa [State.setExpected,hut] using hu)
  | updateState =>
    simp only [step,Option.ite_none_right_eq_some,Option.some.injEq] at h
    obtain ⟨-,rfl⟩ := h
    exact hold u i value (by cases hr : UpdatePc.start s.state <;> simpa [State.resume,hr] using hu)
  | collect weak =>
    cases hpc : s.pc with
    | none => simp [step,hpc] at h
    | some pc =>
      simp only [step,hpc,Option.some.injEq] at h
      subst h
      exact hold u i value ((collect_expected s weak pc) ▸ hu)
  | resetByHazardPointer =>
    simp only [step,Option.ite_none_right_eq_some,Option.some.injEq] at h
    obtain ⟨-,rfl⟩ := h
    exact hold u i value hu

theorem pc_resume {result : UpdateResult} {pc : UpdatePc} (h : (s.resume result).pc = some pc) :
    result = .goto pc := by
  cases result with
  | goto pc' => exact congrArg UpdateResult.goto (Option.some.inj h)
  | done state => contradiction
  | panic site => contradiction

theorem Small.step {k : Nat} (h : Small n k s) (hr : InRange n s a)
    (hs : step n s a = some s') : Small n (k+1) s' := by
  have hgrows := step_growsByOne hs hr
  have hcounts : magnitude n 0 s'.counts ≤ k + 1 :=
    hgrows.magnitude_le.trans (Nat.succ_le_succ h.counts)
  refine ⟨hcounts,fun pc hpc => ?_,step_expected hs h.expected⟩
  rcases step_collector hs hr with ⟨-,heq,-⟩ | ⟨-,rfl⟩ | ⟨weak,pc₀,-,hpc₀,rfl⟩ | ⟨hnone,rfl⟩
  · exact (h.sum pc (heq ▸ hpc)).grows hgrows
  · exact UpdatePc.small_start (pc_resume hpc) hcounts
  · cases hk : pc₀.shard with
    | none =>
      simp only [collectExact,hk] at hpc
      cases weak <;> cases pc_resume hpc
    | some j =>
      by_cases hj : j < n
      · simp only [collectExact,hk,hj,if_true] at hpc
        exact ((h.sum pc₀ hpc₀).visit rfl hk hj (pc_resume hpc)).grows hgrows
      · simp only [collectExact,hk,hj,if_false] at hpc
        exact UpdatePc.small_finish (pc_resume hpc) hcounts
  · rw [hnone] at hpc
    contradiction

theorem inRange_of_short (e : Execution (step n) N) (h₀ : e.state 0 = initial) (hN : N < 2^62) :
    ∀ k, k < N → InRange n (e.state k) (e.action k) := by
  have hzero : TaggedCounter.new.refCount = 0 := congrArg Counter.refCount TaggedCounter.value_new
  have hinit : Small n 0 initial :=
    ⟨by simp [magnitude,State.counts,initial,hzero],by simp [initial],by simp [initial]⟩
  have hsmall : ∀ k, k ≤ N → Small n k (e.state k) := fun k hk =>
    e.invariant (fun k => Small n k (e.state k)) (h₀ ▸ hinit)
      (fun k hk h hs => h.step (h.inRange (by omega) hs) hs) hk
  exact fun k hk => (hsmall k hk.le).inRange (by omega) (e.enabled k hk)

end Short

def busyRun : Execution (step 2) 17 :=
  Execution.ofRun (step 2) initial
    [.increment 0,.updateState,.collect .weakRefNotInvolved,.load 0 1,.compareExchange 0 false,
      .collect .weakRefNotInvolved,.collect .weakRefNotInvolved,.collect .weakRefNotInvolved,
      .increment 1,.load 0 1,.compareExchange 0 false,.collect .weakRefNotInvolved,
      .collect .weakRefNotInvolved,.updateState,.collect .weakRefNotInvolved,.increment 0,
      .collect .weakRefNotInvolved] rfl

theorem busyRun_zero_detection_sound :
    (busyRun.state 17).panicked ≠ some .negativeSumWithoutTag ∧
    (busyRun.state 17).pc = some (.readIfUntagged 2 0) ∧
    ∃ (cl : Nat → Nat) (d : Nat) (rd : Nat → Nat), Entered busyRun 17 cl d ∧ d < rd 0 ∧
      ∀ m, cl 1 < m → m ≤ rd 0 → trueSum 2 (busyRun.state m) = 0 := by
  have h := zero_detection_sound (by decide) busyRun rfl
    (inRange_of_short busyRun rfl (by decide))
  obtain ⟨cl,d,rd,he,-,hd,-,hsum⟩ := (h.2 17 0 le_rfl (by decide +kernel)).2 rfl
  exact ⟨h.1 17 le_rfl,by decide +kernel,cl,d,rd,he,hd,hsum⟩

end Sdarc.ZeroDetection
