import Sdarc.TaggedCounter
import Sdarc.Transition
set_option autoImplicit false

/-!
One word shared by any number of threads that increment it, decrement it in a
compare-exchange loop and clear its tag. Counts are read off the history of a run.
-/

namespace Sdarc.AtomicTaggedCounter
open Transition

structure State where
  word : TaggedCounter
  /-- For each thread inside a decrement, the value that its next
  `compare_exchange_weak` expects. -/
  expected : Nat → Option TaggedCounter
  /-- What `fetch_and_clear_tag_acquire` has returned, latest first. -/
  fetched : List TaggedCounter

def new : State := ⟨.new,fun _ => none,[]⟩

inductive Action where
  | incrementRefCount
  | load (thread : Nat)
  | compareExchangeWeak (thread : Nat) (spurious : Bool)
  | fetchAndClearTag
  deriving DecidableEq, Repr, Inhabited

def State.setExpected (s : State) (t : Nat) (value : Option TaggedCounter) : State :=
  { s with expected := Function.update s.expected t value }

def step (s : State) : Action → Option State
  | .incrementRefCount => some { s with word := s.word.increment }
  | .load t => if s.expected t = none then some (s.setExpected t (some s.word)) else none
  | .compareExchangeWeak t spurious =>
      match s.expected t with
      | none => none
      | some value =>
          if s.word = value ∧ spurious = false then
            some ({ s with word := value.decrementAndSetTag }.setExpected t none)
          else some (s.setExpected t (some s.word))
  | .fetchAndClearTag => some { s with word := s.word.clearTag,fetched := s.word :: s.fetched }

def completesDecrement (s : State) : Action → Bool
  | .compareExchangeWeak t spurious => s.expected t = some s.word && !spurious
  | _ => false

inductive WordStep (s s' : State) (a : Action) : Prop where
  | increment : a = .incrementRefCount → s'.word = s.word.increment → WordStep s s' a
  | decrement : completesDecrement s a = true → s'.word = s.word.decrementAndSetTag →
      WordStep s s' a
  | clear : a = .fetchAndClearTag → s'.word = s.word.clearTag → WordStep s s' a
  | stay : a ≠ .incrementRefCount → a ≠ .fetchAndClearTag → completesDecrement s a = false →
      s'.word = s.word → WordStep s s' a

theorem wordStep {s s' : State} {a : Action} (hs : step s a = some s') : WordStep s s' a := by
  cases a with
  | incrementRefCount =>
    obtain rfl := Option.some.inj hs
    exact .increment rfl rfl
  | load t =>
    simp only [step,Option.ite_none_right_eq_some,Option.some.injEq] at hs
    obtain ⟨-,rfl⟩ := hs
    exact .stay (by simp) (by simp) rfl rfl
  | compareExchangeWeak t spurious =>
    cases hexp : s.expected t with
    | none => simp [step,hexp] at hs
    | some value =>
      simp only [step,hexp] at hs
      split at hs <;> rename_i hmatch <;> obtain rfl := Option.some.inj hs
      · obtain ⟨rfl,rfl⟩ := hmatch
        exact .decrement (by simp [completesDecrement,hexp]) rfl
      · refine .stay (by simp) (by simp) ?_ rfl
        cases spurious with
        | true => simp [completesDecrement]
        | false =>
          have hne : value ≠ s.word := fun heq => hmatch ⟨heq.symm,rfl⟩
          simp [completesDecrement,hexp,hne]
  | fetchAndClearTag =>
    obtain rfl := Option.some.inj hs
    exact .clear rfl rfl

theorem expected_step {s s' : State} {a : Action} (hs : step s a = some s') {t : Nat}
    {value : TaggedCounter} (hv : s'.expected t = some value) :
    s.expected t = some value ∨ value = s.word := by
  have hset : ∀ u v, (s.setExpected u v).expected t = some value →
      (v = none ∨ v = some s.word) → s.expected t = some value ∨ value = s.word := by
    intro u v hset hor
    by_cases htu : t = u
    · subst htu
      rcases hor with rfl | rfl
      · simp [State.setExpected] at hset
      · exact .inr (by simpa [State.setExpected,eq_comm] using hset)
    · exact .inl (by simpa [State.setExpected,htu] using hset)
  cases a with
  | incrementRefCount | fetchAndClearTag =>
    obtain rfl := Option.some.inj hs
    exact .inl hv
  | load u =>
    simp only [step,Option.ite_none_right_eq_some,Option.some.injEq] at hs
    obtain ⟨-,rfl⟩ := hs
    exact hset u _ hv (.inr rfl)
  | compareExchangeWeak u spurious =>
    cases hexp : s.expected u with
    | none => simp [step,hexp] at hs
    | some loaded =>
      simp only [step,hexp] at hs
      split at hs <;> obtain rfl := Option.some.inj hs
      · exact hset u none hv (.inl rfl)
      · exact hset u _ hv (.inr rfl)

section History

variable {N : Nat} (e : Execution step N)

/-- The increments less the completed decrements of the first `k` steps. -/
def net (k : Nat) : Int :=
  (List.range k).countP (fun j => e.action j = .incrementRefCount) -
    (List.range k).countP (fun j => completesDecrement (e.state j) (e.action j))

/-- A decrement was completed after the last clear of the first `k` steps. -/
def DecrementedSinceClear (k : Nat) : Prop :=
  ∃ j, j < k ∧ completesDecrement (e.state j) (e.action j) = true ∧
    ∀ i, j < i → i < k → e.action i ≠ .fetchAndClearTag

theorem net_succ (k : Nat) : net e (k+1) = net e k +
    (if e.action k = .incrementRefCount then 1 else 0) -
    (if completesDecrement (e.state k) (e.action k) then 1 else 0) := by
  simp only [net,List.range_succ,List.countP_append,List.countP_singleton,decide_eq_true_eq]
  split <;> split <;> omega

theorem decrementedSinceClear_succ (k : Nat) : DecrementedSinceClear e (k+1) ↔
    completesDecrement (e.state k) (e.action k) = true ∨
      DecrementedSinceClear e k ∧ e.action k ≠ .fetchAndClearTag := by
  constructor
  · rintro ⟨j,hj,hdone,hafter⟩
    rcases Nat.lt_succ_iff_lt_or_eq.mp hj with hlt | rfl
    · exact .inr ⟨⟨j,hlt,hdone,fun i h₁ h₂ => hafter i h₁ (by omega)⟩,
        hafter k hlt (Nat.lt_succ_self k)⟩
    · exact .inl hdone
  · rintro (hdone | ⟨⟨j,hj,hdone,hafter⟩,hnot⟩)
    · exact ⟨k,Nat.lt_succ_self k,hdone,fun i h₁ h₂ => by omega⟩
    · refine ⟨j,by omega,hdone,fun i h₁ h₂ => ?_⟩
      rcases Nat.lt_succ_iff_lt_or_eq.mp h₂ with hlt | rfl
      · exact hafter i h₁ hlt
      · exact hnot

end History

section Exact

variable {N : Nat} {e : Execution step N}

/-- What the word stands for before step `k`; the values that threads have loaded, however
stale, can be decremented. -/
structure Exact (e : Execution step N) (k : Nat) : Prop where
  refCount : (e.state k).word.refCount = net e k
  tag : (e.state k).word.tag = true ↔ DecrementedSinceClear e k
  expected : ∀ t value, (e.state k).expected t = some value → -2^62 < value.refCount

theorem Exact.next {k : Nat} (h : Exact e k) (hlow : -2^62 + 1 ≤ net e k)
    (hlow' : -2^62 + 1 ≤ net e (k+1)) (hhigh' : net e (k+1) ≤ 2^62 - 1)
    (hs : step (e.state k) (e.action k) = some (e.state (k+1))) : Exact e (k+1) := by
  have hcount := h.refCount
  have hnet := net_succ e k
  have htag := decrementedSinceClear_succ e k
  have hexpected : ∀ t value, (e.state (k+1)).expected t = some value →
      -2^62 < value.refCount := by
    intro t value hv
    rcases expected_step hs hv with hold | rfl
    · exact h.expected t value hold
    · omega
  cases wordStep hs with
  | increment ha hword =>
    have hvalue := (e.state k).word.value_increment
      (by simp [ha,completesDecrement] at hnet; omega)
    simp only [TaggedCounter.value,Counter.increment,Counter.mk.injEq] at hvalue
    refine ⟨?_,?_,hexpected⟩
    · rw [hword,hvalue.1,hnet]
      simp [ha,completesDecrement,hcount]
    · rw [hword,hvalue.2,h.tag,htag]
      simp [ha,completesDecrement]
  | decrement hdone hword =>
    have ha : e.action k ≠ .incrementRefCount := by
      intro ha
      simp [ha,completesDecrement] at hdone
    have hvalue := (e.state k).word.value_decrementAndSetTag (by omega)
    simp only [TaggedCounter.value,Counter.decrementAndSetTag,Counter.mk.injEq] at hvalue
    refine ⟨?_,?_,hexpected⟩
    · rw [hword,hvalue.1,hnet]
      simp [ha,hdone,hcount]
    · rw [hword,hvalue.2,htag]
      simp [hdone]
  | clear ha hword =>
    have hvalue := (e.state k).word.value_clearTag
    simp only [TaggedCounter.value,Counter.clearTag,Counter.mk.injEq] at hvalue
    refine ⟨?_,?_,hexpected⟩
    · rw [hword,hvalue.1,hnet]
      simp [ha,completesDecrement,hcount]
    · rw [hword,hvalue.2,htag]
      simp [ha,completesDecrement]
  | stay ha ha' hdone hword =>
    refine ⟨?_,?_,hexpected⟩
    · rw [hword,hnet]
      simp [ha,hdone,hcount]
    · rw [hword,h.tag,htag]
      simp [ha',hdone]

theorem exact_of_inRange (h₀ : e.state 0 = new)
    (hrange : ∀ k, k ≤ N → -2^62 + 1 ≤ net e k ∧ net e k ≤ 2^62 - 1) {k : Nat} (hk : k ≤ N) :
    Exact e k := by
  suffices hall : k ≤ N → Exact e k from hall hk
  refine e.invariant (fun k => k ≤ N → Exact e k) (fun _ => ?_) (fun k hlt h hs hle => ?_) hk
  · have hnew := congrArg Counter.refCount TaggedCounter.value_new
    have htag := congrArg Counter.tag TaggedCounter.value_new
    simp only [TaggedCounter.value,Counter.new] at hnew htag
    refine ⟨?_,?_,fun t value hv => ?_⟩
    · simp [h₀,new,hnew,net]
    · simp [h₀,new,htag,DecrementedSinceClear]
    · simp [h₀,new] at hv
  · exact (h hlt.le).next (hrange k hlt.le).1 (hrange (k+1) hle).1 (hrange (k+1) hle).2 hs

/-- The word is exact in every run whose net count stays in range: it holds the net count
and whether a decrement came after the last clear, a clear returns both as they were, and
no value that a thread is about to decrement overflows. -/
theorem word_exact (e : Execution step N) (h₀ : e.state 0 = new)
    (hrange : ∀ k, k ≤ N → -2^62 + 1 ≤ net e k ∧ net e k ≤ 2^62 - 1) {k : Nat} (hk : k ≤ N) :
    (e.state k).word.refCount = net e k ∧
    ((e.state k).word.tag = true ↔ DecrementedSinceClear e k) ∧
    (k < N → e.action k = .fetchAndClearTag → ∃ fetched : TaggedCounter,
      (e.state (k+1)).fetched = fetched :: (e.state k).fetched ∧
      fetched.refCount = net e k ∧ (fetched.tag = true ↔ DecrementedSinceClear e k)) ∧
    ∀ t value, (e.state k).expected t = some value →
      (value.word ||| 1#64).ssubOverflow 2#64 = false := by
  have h := exact_of_inRange h₀ hrange hk
  refine ⟨h.refCount,h.tag,fun hlt ha => ?_,fun t value hv =>
    value.not_ssubOverflow (h.expected t value hv)⟩
  have hs := e.enabled k hlt
  simp only [step,ha,Option.some.injEq] at hs
  exact ⟨_,by rw [← hs],h.refCount,h.tag⟩

def racingDecrements : List Action :=
  [.incrementRefCount,.load 0,.load 1,.compareExchangeWeak 0 false,.compareExchangeWeak 1 false,
    .compareExchangeWeak 1 false,.fetchAndClearTag]

def racingExecution : Execution step 7 := .ofRun step new racingDecrements (by rfl)

theorem racingExecution_exact :
    (racingExecution.state 7).word.refCount = net racingExecution 7 ∧
    ∃ fetched : TaggedCounter, (racingExecution.state 7).fetched = [fetched] ∧
      fetched.refCount = -1 ∧ fetched.tag = true := by
  have hrange : ∀ k, k ≤ 7 →
      -2^62 + 1 ≤ net racingExecution k ∧ net racingExecution k ≤ 2^62 - 1 := by decide
  obtain ⟨-,-,hclear,-⟩ := word_exact racingExecution rfl hrange (k := 6) (by decide)
  obtain ⟨fetched,hfetched,hcount,htag⟩ := hclear (by decide) rfl
  exact ⟨(word_exact racingExecution rfl hrange le_rfl).1,fetched,hfetched,hcount,
    htag.mpr ⟨5,by decide,rfl,fun i h₁ h₂ => by omega⟩⟩

end Exact

end Sdarc.AtomicTaggedCounter
