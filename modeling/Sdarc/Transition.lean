import Mathlib.Algebra.BigOperators.Group.Finset.Basic
import Mathlib.Logic.Relation
import Mathlib.Tactic.Abel
set_option autoImplicit false

/-!
Runs of a machine given by a partial step function. `none` means that the
action is not enabled; what an enabled action may do is part of the action.
-/

namespace Transition

variable {σ α : Type}

/-- One step of the machine whose action meets `ok` in the state it is taken in. -/
def Allowed (step : σ → α → Option σ) (ok : σ → α → Prop) (s s' : σ) : Prop :=
  ∃ a, ok s a ∧ step s a = some s'

/-- The states that runs from `s₀` reach when every step taken meets `ok`. -/
def Reach (step : σ → α → Option σ) (ok : σ → α → Prop) (s₀ s : σ) : Prop :=
  Relation.ReflTransGen (Allowed step ok) s₀ s

theorem Reach.mono {step : σ → α → Option σ} {ok ok' : σ → α → Prop} {s₀ s : σ}
    (h : ∀ t a, ok t a → ok' t a) (hr : Reach step ok s₀ s) : Reach step ok' s₀ s := by
  have hle : Allowed step ok ≤ Allowed step ok' :=
    fun t _ ⟨a,hok,hs⟩ => ⟨a,h t a hok,hs⟩
  exact Relation.ReflTransGen.mono hle _ _ hr

/-- The invariant rule: what holds at the start and survives every step that
meets `ok` holds in every state reached. -/
theorem Reach.invariant {step : σ → α → Option σ} {ok : σ → α → Prop} {s₀ s : σ}
    (P : σ → Prop) (h₀ : P s₀)
    (hstep : ∀ t a t', P t → ok t a → step t a = some t' → P t')
    (hr : Reach step ok s₀ s) : P s := by
  induction hr with
  | refl => exact h₀
  | tail _ hlast ih =>
    obtain ⟨a,hok,hs⟩ := hlast
    exact hstep _ a _ ih hok hs

def run (step : σ → α → Option σ) : σ → List α → Option σ
  | s, [] => some s
  | s, a :: as => (step s a).bind (fun s' => run step s' as)

theorem reach_of_run {step : σ → α → Option σ} {ok : σ → α → Prop} {s s' : σ}
    {as : List α} (hok : ∀ t a, a ∈ as → ok t a) (h : run step s as = some s') :
    Reach step ok s s' := by
  induction as generalizing s with
  | nil =>
    simp only [run,Option.some.injEq] at h
    exact h ▸ Relation.ReflTransGen.refl
  | cons a as ih =>
    simp only [run,Option.bind_eq_some_iff] at h
    obtain ⟨t,ht,hrest⟩ := h
    have hfirst : Allowed step ok s t := ⟨a,hok s a (by simp),ht⟩
    exact Relation.ReflTransGen.head hfirst (ih (fun u b hb => hok u b (by simp [hb])) hrest)

theorem reach_run {step : σ → α → Option σ} {ok : σ → α → Prop} {s : σ} {as : List α}
    (hok : ∀ t a, a ∈ as → ok t a) (h : (run step s as).isSome = true) :
    Reach step ok s ((run step s as).get h) :=
  reach_of_run hok (Option.some_get h).symm

def guarded (step : σ → α → Option σ) (ok : σ → α → Prop) [∀ s a, Decidable (ok s a)]
    (s : σ) (a : α) : Option σ :=
  if ok s a then step s a else none

theorem reach_guarded {step : σ → α → Option σ} {ok : σ → α → Prop}
    [∀ s a, Decidable (ok s a)] {s : σ} {as : List α}
    (h : (run (guarded step ok) s as).isSome = true) :
    Reach step ok s ((run (guarded step ok) s as).get h) := by
  have hr : Reach (guarded step ok) (fun _ _ => True) s _ :=
    reach_run (fun _ _ _ => trivial) h
  have hle : Allowed (guarded step ok) (fun _ _ => True) ≤ Allowed step ok := by
    rintro t t' ⟨a,-,hs⟩
    simp only [guarded,Option.ite_none_right_eq_some] at hs
    exact ⟨a,hs⟩
  exact Relation.ReflTransGen.mono hle _ _ hr

/-- A run of `N` steps with its whole history: `state k` is the state before
step `k`, and `action k` the action that step takes. -/
structure Execution (step : σ → α → Option σ) (N : Nat) where
  state : Nat → σ
  action : Nat → α
  enabled : ∀ k, k < N → step (state k) (action k) = some (state (k+1))

theorem run_append (step : σ → α → Option σ) (s : σ) (as bs : List α) :
    run step s (as ++ bs) = (run step s as).bind (fun t => run step t bs) := by
  induction as generalizing s with
  | nil => rfl
  | cons a as ih =>
    cases h : step s a with
    | none => simp [run,h]
    | some t => simp [run,h,ih]

def Execution.ofRun [Inhabited α] (step : σ → α → Option σ) (s₀ : σ) (as : List α)
    (h : (run step s₀ as).isSome = true) : Execution step as.length where
  state k := (run step s₀ (as.take k)).getD s₀
  action k := as.getD k default
  enabled k hk := by
    have hsplit : as.take (k+1) = as.take k ++ [as.getD k default] := by
      simp [List.getD_eq_getElem?_getD,hk]
    have hsome : (run step s₀ (as.take (k+1))).isSome = true := by
      rw [← List.take_append_drop (k+1) as,run_append] at h
      cases hp : run step s₀ (as.take (k+1)) with
      | none => simp [hp] at h
      | some t => rfl
    rw [hsplit,run_append] at hsome ⊢
    cases hp : run step s₀ (as.take k) with
    | none => simp [hp] at hsome
    | some t =>
      generalize as.getD k default = a at hsome ⊢
      cases hq : step t a with
      | none => simp [hp,run,hq] at hsome
      | some u => simp [run,hq]

theorem Execution.invariant {step : σ → α → Option σ} {N : Nat} (e : Execution step N)
    (P : Nat → Prop) (h₀ : P 0)
    (hstep : ∀ k, k < N → P k → step (e.state k) (e.action k) = some (e.state (k+1)) →
      P (k+1)) {k : Nat} (hk : k ≤ N) : P k := by
  induction k with
  | zero => exact h₀
  | succ k ih => exact hstep k (by omega) (ih (by omega)) (e.enabled k (by omega))

/-- A loop over `0, 1, …` whose iterations are spread over a history: iteration
`i` was made at step `at i`, the first `j` of them before step `k`, and `sum`
adds up what `value` gives at these steps. All steps from the first iteration to
`k` satisfy `inside`. -/
structure Scan (visit : Nat → Nat → Prop) (inside : Nat → Prop) (value : Nat → Nat → Int)
    (k j : Nat) (sum : Int) (stamp : Nat → Nat) : Prop where
  before : ∀ i, i < j → stamp i < k
  ordered : ∀ i, i + 1 < j → stamp i < stamp (i+1)
  visits : ∀ i, i < j → visit (stamp i) i
  sum_eq : sum = ∑ i ∈ Finset.range j, value (stamp i) i
  contiguous : ∀ m, 0 < j → stamp 0 ≤ m → m < k → inside m

theorem Scan.empty {visit : Nat → Nat → Prop} {inside : Nat → Prop}
    {value : Nat → Nat → Int} {k : Nat} {stamp : Nat → Nat} :
    Scan visit inside value k 0 0 stamp :=
  ⟨by simp,by simp,by simp,by simp,by simp⟩

theorem Scan.later {visit : Nat → Nat → Prop} {inside : Nat → Prop}
    {value : Nat → Nat → Int} {k j : Nat} {sum : Int} {stamp : Nat → Nat}
    (h : Scan visit inside value k j sum stamp) (hin : 0 < j → inside k) :
    Scan visit inside value (k+1) j sum stamp where
  before i hi := Nat.lt_succ_of_lt (h.before i hi)
  ordered := h.ordered
  visits := h.visits
  sum_eq := h.sum_eq
  contiguous m hj h₁ h₂ := by
    rcases Nat.lt_succ_iff_lt_or_eq.mp h₂ with hlt | rfl
    · exact h.contiguous m hj h₁ hlt
    · exact hin hj

theorem Scan.extend {visit : Nat → Nat → Prop} {inside : Nat → Prop}
    {value : Nat → Nat → Int} {k j : Nat} {sum : Int} {stamp : Nat → Nat}
    (h : Scan visit inside value k j sum stamp) (hv : visit k j) (hin : inside k) :
    Scan visit inside value (k+1) (j+1) (sum + value k j) (Function.update stamp j k) := by
  have hold : ∀ i, i < j → Function.update stamp j k i = stamp i :=
    fun i hi => Function.update_of_ne (by omega) k stamp
  have hnew : Function.update stamp j k j = k := Function.update_self j k stamp
  constructor
  · intro i hi
    rcases Nat.lt_succ_iff_lt_or_eq.mp hi with hlt | rfl
    · rw [hold i hlt]
      exact Nat.lt_succ_of_lt (h.before i hlt)
    · omega
  · intro i hi
    rcases Nat.lt_succ_iff_lt_or_eq.mp hi with hlt | heq
    · rw [hold i (by omega),hold (i+1) hlt]
      exact h.ordered i hlt
    · rw [hold i (by omega),heq,hnew]
      exact h.before i (by omega)
  · intro i hi
    rcases Nat.lt_succ_iff_lt_or_eq.mp hi with hlt | rfl
    · rw [hold i hlt]
      exact h.visits i hlt
    · rwa [hnew]
  · rw [Finset.sum_range_succ,hnew,h.sum_eq]
    congr 1
    exact Finset.sum_congr rfl (fun i hi => by rw [hold i (Finset.mem_range.mp hi)])
  · intro m _ h₁ h₂
    rcases Nat.lt_succ_iff_lt_or_eq.mp h₂ with hlt | rfl
    · rcases Nat.eq_zero_or_pos j with rfl | hj
      · omega
      · rw [hold 0 hj] at h₁
        exact h.contiguous m hj h₁ hlt
    · exact hin

theorem Scan.stamp_mono {visit : Nat → Nat → Prop} {inside : Nat → Prop}
    {value : Nat → Nat → Int} {k j : Nat} {sum : Int} {stamp : Nat → Nat}
    (h : Scan visit inside value k j sum stamp) {i i' : Nat} (hle : i ≤ i') (hi : i' < j) :
    stamp i ≤ stamp i' := by
  induction i', hle using Nat.le_induction with
  | base => exact le_rfl
  | succ i' _ ih => exact (ih (by omega)).trans (h.ordered i' hi).le

theorem Scan.stamp_le {visit : Nat → Nat → Prop} {inside : Nat → Prop}
    {value : Nat → Nat → Int} {k j : Nat} {sum : Int} {stamp : Nat → Nat}
    (h : Scan visit inside value k j sum stamp) {i : Nat} (hi : i < j) :
    stamp 0 ≤ stamp i := h.stamp_mono (Nat.zero_le i) hi

theorem sum_update {β M : Type} [AddCommMonoid M] (f : Nat → β → M) (g : Nat → β)
    {m k : Nat} (hk : k < m) (x : β) :
    ∑ i ∈ Finset.range m, f i (Function.update g k x i) + f k (g k) =
      ∑ i ∈ Finset.range m, f i (g i) + f k x := by
  have hmem : k ∈ Finset.range m := Finset.mem_range.mpr hk
  have hrest : ∑ i ∈ (Finset.range m).erase k, f i (Function.update g k x i) =
      ∑ i ∈ (Finset.range m).erase k, f i (g i) :=
    Finset.sum_congr rfl
      (fun i hi => by rw [Function.update_of_ne (Finset.ne_of_mem_erase hi)])
  rw [← Finset.add_sum_erase _ _ hmem,← Finset.add_sum_erase _ (fun i => f i (g i)) hmem,
    hrest,Function.update_self]
  abel

end Transition
