import Sdarc.System.Tracking
set_option autoImplicit false

/-!
The books of the reference counts. A pointee is owned by its live handles, by the cells
and the operations under way that hold it, and by a `weak_inner_ref`; it is in debt for
each increment that a `compare_and_set` has still to make.
-/

namespace Sdarc.System
open Transition

def cellsIn (cells : Nat → Option Nat) (n p : Nat) : Nat :=
  ∑ c ∈ Finset.range n, if cells c = some p then 1 else 0

def ownedIn (threads : Nat → Thread) (n p : Nat) : Nat :=
  ∑ t ∈ Finset.range n, (threads t).pc.owned p

def owedIn (threads : Nat → Thread) (n p : Nat) : Nat :=
  ∑ t ∈ Finset.range n, (threads t).pc.owes p

def weakIn (heap : Nat → SdarcInner) (n p : Nat) : Nat :=
  ∑ q ∈ Finset.range n, if (heap q).weakInnerRef = .initialized p then 1 else 0

namespace State

def owners (cfg : Config) (s : State) (p : Nat) : Nat :=
  s.live p + cellsIn s.cells cfg.cells p + ownedIn s.threads cfg.threads p +
    weakIn s.heap s.nextPointee p

def debt (cfg : Config) (s : State) (p : Nat) : Nat := owedIn s.threads cfg.threads p

def sum (cfg : Config) (s : State) (p : Nat) : Int :=
  ∑ i ∈ Finset.range cfg.shards, (s.counter p i).refCount

end State

section Sums

variable {cfg : Config} {s s' : State} {t p q : Nat}

theorem le_sum_range {n k : Nat} (f : Nat → Nat) (hk : k < n) :
    f k ≤ ∑ i ∈ Finset.range n, f i :=
  Finset.single_le_sum (f := f) (fun _ _ => Nat.zero_le _) (Finset.mem_range.mpr hk)

theorem owned_le_owners (ht : t < cfg.threads) :
    (s.threads t).pc.owned p ≤ s.owners cfg p := by
  have h := le_sum_range (fun t => (s.threads t).pc.owned p) ht
  simp only [State.owners,ownedIn]
  omega

theorem cell_owned {c : Nat} (hc : c < cfg.cells) (h : s.cells c = some p) :
    0 < s.owners cfg p := by
  have hle := le_sum_range (fun c => if s.cells c = some p then 1 else 0) hc
  simp only [h,if_true] at hle
  simp only [State.owners,cellsIn]
  omega

theorem weakInner_owned (hq : q < s.nextPointee)
    (h : (s.heap q).weakInnerRef = .initialized p) : 0 < s.owners cfg p := by
  have hle := le_sum_range
    (fun q => if (s.heap q).weakInnerRef = .initialized p then 1 else 0) hq
  simp only [h,if_true] at hle
  simp only [State.owners,weakIn]
  omega

theorem owes_le_debt (ht : t < cfg.threads) : (s.threads t).pc.owes p ≤ s.debt cfg p :=
  le_sum_range (fun t => (s.threads t).pc.owes p) ht

theorem eq_update_of_others {threads threads' : Nat → Thread}
    (h : ∀ t', t' ≠ t → threads' t' = threads t') :
    threads' = Function.update threads t (threads' t) := by
  funext t'
  by_cases ht : t' = t
  · subst ht
    simp
  · simp [ht,h t' ht]

theorem ownedIn_change (s s' : State) (ht : t < cfg.threads)
    (h : ∀ t', t' ≠ t → s'.threads t' = s.threads t') :
    ownedIn s'.threads cfg.threads q + (s.threads t).pc.owned q =
      ownedIn s.threads cfg.threads q + (s'.threads t).pc.owned q := by
  rw [eq_update_of_others h,Function.update_self]
  exact sum_update (fun _ (th : Thread) => th.pc.owned q) s.threads ht (s'.threads t)

theorem owedIn_change (s s' : State) (ht : t < cfg.threads)
    (h : ∀ t', t' ≠ t → s'.threads t' = s.threads t') :
    s'.debt cfg q + (s.threads t).pc.owes q = s.debt cfg q + (s'.threads t).pc.owes q := by
  unfold State.debt
  rw [eq_update_of_others h,Function.update_self]
  exact sum_update (fun _ (th : Thread) => th.pc.owes q) s.threads ht (s'.threads t)

theorem cellsIn_update {c n : Nat} (cells : Nat → Option Nat) (hc : c < n) (o : Option Nat)
    (q : Nat) :
    cellsIn (Function.update cells c o) n q + (if cells c = some q then 1 else 0) =
      cellsIn cells n q + if o = some q then 1 else 0 :=
  sum_update (fun _ (o : Option Nat) => if o = some q then 1 else 0) cells hc o

theorem weakIn_update {n : Nat} (heap : Nat → SdarcInner) (hp : p < n) (x : SdarcInner)
    (q : Nat) :
    weakIn (Function.update heap p x) n q +
        (if (heap p).weakInnerRef = .initialized q then 1 else 0) =
      weakIn heap n q + if x.weakInnerRef = .initialized q then 1 else 0 :=
  sum_update (fun _ (x : SdarcInner) => if x.weakInnerRef = .initialized q then 1 else 0)
    heap hp x

theorem weakIn_congr {heap heap' : Nat → SdarcInner} {n : Nat}
    (h : ∀ p, p < n → ∀ w, (heap' p).weakInnerRef = .initialized w ↔
      (heap p).weakInnerRef = .initialized w) (q : Nat) :
    weakIn heap' n q = weakIn heap n q := by
  refine Finset.sum_congr rfl (fun p hp => ?_)
  simp only [h p (Finset.mem_range.mp hp) q]

theorem weakIn_same (heap : Nat → SdarcInner) (w n : Nat) (x : SdarcInner)
    (hx : x.weakInnerRef = (heap w).weakInnerRef) (q : Nat) :
    weakIn (Function.update heap w x) n q = weakIn heap n q := by
  refine weakIn_congr (fun y _ v => ?_) q
  rw [field_update SdarcInner.weakInnerRef hx y]

theorem weakIn_allocate {heap : Nat → SdarcInner} {n : Nat} {x : SdarcInner}
    (hx : x.weakInnerRef = .uninit) (q : Nat) :
    weakIn (Function.update heap n x) (n+1) q = weakIn heap n q := by
  have hlast : (Function.update heap n x n).weakInnerRef ≠ .initialized q := by simp [hx]
  rw [weakIn,Finset.sum_range_succ,if_neg hlast,Nat.add_zero]
  refine weakIn_congr (fun p hp w => ?_) q
  rw [Function.update_of_ne (by omega)]

end Sums

/-- Between `s` and `s'` the owners of `p` grow by `gain` and its debt by `owed`; the
books of all other pointees stay the same. -/
structure Books (cfg : Config) (s s' : State) (p : Nat) (gain owed : Int) : Prop where
  owners : ∀ q, (s'.owners cfg q : Int) = s.owners cfg q + if q = p then gain else 0
  debt : ∀ q, (s'.debt cfg q : Int) = s.debt cfg q + if q = p then owed else 0

/-- What a step of thread `t` can do to the books and to the counters. -/
inductive AccountStep (cfg : Config) (s : State) (t : Nat) (op : Op) (s' : State) : Prop where
  | same :
      Books cfg s s' 0 0 0 → s'.counters = s.counters →
      s'.nextPointee = s.nextPointee → AccountStep cfg s t op s'
  | allocate (ptr countersPtr shard : Nat) (data : Data) :
      shard < cfg.shards → s.canAllocate ptr countersPtr →
      Books cfg s s' s.nextPointee 1 0 →
      s'.counters = (s.allocate ptr countersPtr shard data).counters →
      s'.heap = (s.allocate ptr countersPtr shard data).heap →
      s'.nextPointee = s.nextPointee + 1 → AccountStep cfg s t op s'
  | increment (p shard : Nat) :
      shard < cfg.shards →
      (0 < s.live p ∨ (s.threads t).pc.entering p ∨
        ∃ q, (s.threads t).pc = .cloneWeakInner q p) →
      Books cfg s s' p 1 0 → s'.counters = (s.increment p shard).counters →
      s'.nextPointee = s.nextPointee → AccountStep cfg s t op s'
  | decrement (p shard : Nat) :
      op = .dropExchange false →
      (s.threads t).pc = .dropExchange p shard (s.counter p shard) →
      Books cfg s s' p (-1) 0 →
      s'.counters = (s.setCounter (s.heap p).countersPtr shard
        (s.counter p shard).decrementAndSetTag).counters →
      s'.nextPointee = s.nextPointee → AccountStep cfg s t op s'
  | borrow (p : Nat) :
      0 < s.live p → Books cfg s s' p 1 1 → s'.counters = s.counters →
      s'.nextPointee = s.nextPointee → AccountStep cfg s t op s'
  | repay (p shard : Nat) :
      shard < cfg.shards → (s.threads t).pc.owes p = 1 →
      Books cfg s s' p 0 (-1) → s'.counters = (s.increment p shard).counters →
      s'.nextPointee = s.nextPointee → AccountStep cfg s t op s'

section Steps

variable {cfg : Config} {s s' : State} {t : Nat}

theorem Books.of_thread {p : Nat} {gain owed : Int} (ht : t < cfg.threads)
    (hothers : ∀ t', t' ≠ t → s'.threads t' = s.threads t')
    (hcells : s'.cells = s.cells)
    (hweak : ∀ q, weakIn s'.heap s'.nextPointee q = weakIn s.heap s.nextPointee q)
    (howners : ∀ q, (s'.live q : Int) + (s'.threads t).pc.owned q =
      s.live q + (s.threads t).pc.owned q + if q = p then gain else 0)
    (hdebt : ∀ q, ((s'.threads t).pc.owes q : Int) =
      (s.threads t).pc.owes q + if q = p then owed else 0) : Books cfg s s' p gain owed where
  owners q := by
    have h₁ := ownedIn_change s s' (q := q) ht hothers
    have h₂ := howners q
    simp only [State.owners,hcells,hweak]
    omega
  debt q := by
    have h₁ := owedIn_change s s' (q := q) ht hothers
    have h₂ := hdebt q
    omega

theorem Books.of_cell {p c : Nat} {gain owed : Int} {new : Option Nat} (ht : t < cfg.threads)
    (hc : c < cfg.cells) (hothers : ∀ t', t' ≠ t → s'.threads t' = s.threads t')
    (hcells : s'.cells = Function.update s.cells c new)
    (hheap : s'.heap = s.heap) (hnext : s'.nextPointee = s.nextPointee)
    (howners : ∀ q, (s'.live q : Int) + (s'.threads t).pc.owned q +
        (if new = some q then 1 else 0) =
      s.live q + (s.threads t).pc.owned q + (if s.cells c = some q then 1 else 0) +
        if q = p then gain else 0)
    (hdebt : ∀ q, ((s'.threads t).pc.owes q : Int) =
      (s.threads t).pc.owes q + if q = p then owed else 0) : Books cfg s s' p gain owed where
  owners q := by
    have h₁ := ownedIn_change s s' (q := q) ht hothers
    have h₂ := howners q
    have h₃ := cellsIn_update s.cells hc new q
    simp only [State.owners,hcells,hheap,hnext]
    split_ifs at h₂ h₃ ⊢ <;> omega
  debt q := by
    have h₁ := owedIn_change s s' (q := q) ht hothers
    have h₂ := hdebt q
    omega

theorem takeLiveOption_live (s : State) (o : Option Nat) (q : Nat) :
    (s.takeLiveOption o).live q = s.live q - if o = some q then 1 else 0 := by
  cases o with
  | none => simp
  | some p => by_cases hq : q = p <;> simp [hq,eq_comm]

theorem addLiveOption_live (s : State) (o : Option Nat) (q : Nat) :
    (s.addLiveOption o).live q = s.live q + if o = some q then 1 else 0 := by
  cases o with
  | none => simp
  | some p => by_cases hq : q = p <;> simp [hq,eq_comm]

theorem live_pos_of_canTakeOption {o : Option Nat} {q : Nat} (h : s.canTakeOption cfg o)
    (ho : o = some q) : 0 < s.live q := by
  subst ho
  exact h.1

theorem AccountStep.of_same {op : Op} (ht : t < cfg.threads)
    (hothers : ∀ t', t' ≠ t → s'.threads t' = s.threads t')
    (hcells : s'.cells = s.cells) (hheap : s'.heap = s.heap)
    (hnext : s'.nextPointee = s.nextPointee) (hcounters : s'.counters = s.counters)
    (howners : ∀ q, s'.live q + (s'.threads t).pc.owned q =
      s.live q + (s.threads t).pc.owned q)
    (hdebt : ∀ q, (s'.threads t).pc.owes q = (s.threads t).pc.owes q) :
    AccountStep cfg s t op s' := by
  refine .same (.of_thread ht hothers hcells (by rw [hheap,hnext]; exact fun _ => rfl)
    (fun q => ?_) (fun q => ?_)) hcounters hnext
  · have := howners q
    split <;> omega
  · have := hdebt q
    split <;> omega

theorem AccountStep.of_allocate {op : Op} {ptr countersPtr shard : Nat} {data : Data}
    {pc : ThreadPc} (ht : t < cfg.threads) (hfree : s.canAllocate ptr countersPtr)
    (hshard : shard < cfg.shards)
    (howners : ∀ q, pc.owned q =
      (s.threads t).pc.owned q + if q = s.nextPointee then 1 else 0)
    (hdebt : ∀ q, pc.owes q = (s.threads t).pc.owes q) :
    AccountStep cfg s t op ((s.allocate ptr countersPtr shard data).setPc t pc) := by
  refine .allocate ptr countersPtr shard data hshard hfree
    (.of_thread ht (fun t' h => by simp [h]) rfl (weakIn_allocate rfl) (fun q => ?_)
      (fun q => ?_)) rfl rfl rfl
  · simp only [howners,State.setPc,State.allocate,Function.update_self]
    split_ifs <;> omega
  · simp [hdebt]

theorem AccountStep.of_increment {op : Op} {p shard : Nat} (ht : t < cfg.threads)
    (hshard : shard < cfg.shards)
    (hsource : 0 < s.live p ∨ (s.threads t).pc.entering p ∨
      ∃ q, (s.threads t).pc = .cloneWeakInner q p)
    (hothers : ∀ t', t' ≠ t → s'.threads t' = s.threads t')
    (hcells : s'.cells = s.cells) (hheap : s'.heap = s.heap)
    (hnext : s'.nextPointee = s.nextPointee)
    (hcounters : s'.counters = (s.increment p shard).counters)
    (howners : ∀ q, s'.live q + (s'.threads t).pc.owned q =
      s.live q + (s.threads t).pc.owned q + if q = p then 1 else 0)
    (hdebt : ∀ q, (s'.threads t).pc.owes q = (s.threads t).pc.owes q) :
    AccountStep cfg s t op s' := by
  refine .increment p shard hshard hsource
    (.of_thread ht hothers hcells (by rw [hheap,hnext]; exact fun _ => rfl) (fun q => ?_)
      (fun q => ?_)) hcounters hnext
  · have hq := howners q
    split_ifs at hq ⊢ <;> omega
  · simp [hdebt]

theorem incrementThenSet_accounts {op : Op} {p shard : Nat} {original : Option Nat}
    (ht : t < cfg.threads) (hpc : (s.threads t).pc = .incrementThenSet p original)
    (hshard : shard < cfg.shards) :
    AccountStep cfg s t op (((s.increment p shard).addLiveOption original).setPc t .idle) := by
  refine .repay p shard hshard (by simp [hpc,ThreadPc.owes])
    (.of_thread ht (fun t' h => by simp [h]) rfl (fun _ => rfl) (fun q => ?_)
      (fun q => ?_)) rfl rfl
  · have hlive := addLiveOption_live s original q
    simp only [State.addLiveOption] at hlive
    simp only [hpc,ThreadPc.owned,State.setPc,State.addLiveOption,State.increment,
      State.setCounter,Function.update_self,hlive]
    split_ifs <;> omega
  · by_cases hq : q = p
    · simp [hq,hpc,ThreadPc.owes]
    · simp [hq,Ne.symm hq,hpc,ThreadPc.owes]

theorem compareAndSet_accounts {op : Op} {c p : Nat} (ht : t < cfg.threads)
    (hstart : s.canStart t) (hc : c < cfg.cells) (hlive : 0 < s.live p) :
    AccountStep cfg s t op
      ((s.setCell c (some p)).setPc t (.incrementThenSet p (s.cells c))) := by
  refine .borrow p hlive
    (.of_cell ht hc (fun t' h => by simp [h]) rfl rfl rfl (fun q => ?_) (fun q => ?_)) rfl rfl
  · simp only [hstart.1,ThreadPc.owned,State.setPc,State.setCell,Function.update_self,
      Option.some.injEq]
    split_ifs <;> omega
  · by_cases hq : q = p
    · simp [hq,hstart.1,ThreadPc.owes]
    · simp [hq,Ne.symm hq,hstart.1,ThreadPc.owes]

theorem setNull_accounts {op : Op} {c : Nat} (ht : t < cfg.threads) (hc : c < cfg.cells) :
    AccountStep cfg s t op ((s.setCell c none).addLiveOption (s.cells c)) := by
  refine .same (.of_cell ht hc (fun _ _ => rfl) rfl rfl rfl (fun q => ?_) (fun q => ?_)) rfl rfl
  · have h₂ := addLiveOption_live (s.setCell c none) (s.cells c) q
    change _ + ((s.threads t).pc.owned q : Int) + _ = _
    rw [h₂]
    change ((((s.live q + _ : Nat) : Int))) + _ + _ = _
    split_ifs <;> simp_all
    all_goals omega
  · split_ifs <;> simp

theorem swap_accounts {op : Op} {c : Nat} {new : Option Nat} (ht : t < cfg.threads)
    (hc : c < cfg.cells) (htake : s.canTakeOption cfg new) :
    AccountStep cfg s t op
      (((s.takeLiveOption new).setCell c new).addLiveOption (s.cells c)) := by
  refine .same (.of_cell ht hc (fun _ _ => rfl) rfl rfl rfl (fun q => ?_) (fun q => ?_)) rfl rfl
  · have h₁ := takeLiveOption_live s new q
    have h₂ := addLiveOption_live ((s.takeLiveOption new).setCell c new) (s.cells c) q
    have h₃ := live_pos_of_canTakeOption (q := q) htake
    change _ + ((s.threads t).pc.owned q : Int) + _ = _
    rw [h₂]
    change ((((s.takeLiveOption new).live q + _ : Nat) : Int)) + _ + _ = _
    rw [h₁]
    split_ifs <;> simp_all
    all_goals omega
  · split_ifs <;> simp

theorem store_accounts {op : Op} {c old : Nat} {new : Option Nat} (ht : t < cfg.threads)
    (hstart : s.canStart t) (hc : c < cfg.cells) (htake : s.canTakeOption cfg new)
    (hold : s.cells c = some old) :
    AccountStep cfg s t op (((s.takeLiveOption new).setCell c new).setPc t (.drop old)) := by
  refine .same (.of_cell ht hc (fun t' h => by simp [h]) rfl rfl rfl (fun q => ?_)
    (fun q => ?_)) rfl rfl
  · have h₁ := takeLiveOption_live s new q
    have h₃ := live_pos_of_canTakeOption (q := q) htake
    change (((s.takeLiveOption new).live q : Nat) : Int) + _ + _ = _
    rw [h₁]
    simp only [hstart.1,hold,ThreadPc.owned,State.setPc,Function.update_self,
      Option.some.injEq]
    split_ifs <;> simp_all
  · simp [hstart.1,ThreadPc.owes]

theorem startInit_accounts {op : Op} {p : Nat} (ht : t < cfg.threads)
    (hpc : (s.threads t).pc = .getOrInit p) (huninit : (s.heap p).weakInnerRef = .uninit) :
    AccountStep cfg s t op
      ((s.setInner p { s.heap p with weakInnerRef := .running t }).setPc t (.newWeakInner p)) := by
  refine .same (.of_thread ht (fun t' h => by simp [h]) rfl (weakIn_congr ?_) (fun q => ?_)
    (fun q => ?_)) rfl rfl
  · intro q _ w
    by_cases hq : q = p <;> simp [hq,huninit]
  · simp [hpc,ThreadPc.owned]
  · simp [hpc,ThreadPc.owes]

theorem setWeakInner_accounts {op : Op} {p w : Nat} (ht : t < cfg.threads)
    (hpc : (s.threads t).pc = .setWeakInner p w) (hlt : p < s.nextPointee)
    (hnot : ∀ w', (s.heap p).weakInnerRef ≠ .initialized w') :
    AccountStep cfg s t op
      ((s.setInner p { s.heap p with weakInnerRef := .initialized w }).setPc t
        (.cloneWeakInner p w)) := by
  have hweak := weakIn_update s.heap hlt { s.heap p with weakInnerRef := .initialized w }
  refine .same ⟨fun q => ?_,fun q => ?_⟩ rfl rfl
  · have h₁ := ownedIn_change s (s.setPc t (.cloneWeakInner p w)) (q := q) ht
      (fun t' h => by simp [h])
    have h₂ := hweak q
    simp only [hpc,ThreadPc.owned,State.setPc,Function.update_self,hnot q,if_false,
      OnceLock.initialized.injEq] at h₁ h₂
    simp only [State.owners,State.setPc,State.setInner]
    split_ifs at h₁ h₂ ⊢ <;> omega
  · have h₁ := owedIn_change s (s.setPc t (.cloneWeakInner p w)) (q := q) ht
      (fun t' h => by simp [h])
    simp only [hpc,ThreadPc.owes,State.setPc,Function.update_self] at h₁
    simp only [State.debt,State.setPc,State.setInner] at h₁ ⊢
    split_ifs <;> omega

theorem ThreadStep.accounts {op : Op} (h : ThreadStep cfg s t op s') (ht : t < cfg.threads)
    (hmaking : ∀ p w, (s.threads t).pc = .setWeakInner p w → p < s.nextPointee ∧
      ∀ w', (s.heap p).weakInnerRef ≠ .initialized w') : AccountStep cfg s t op s' := by
  cases h with
  | sdarcNew ptr countersPtr shard borrows hstart hfree hshard =>
    exact .of_allocate ht hfree hshard (fun q => by simp [hstart.1,ThreadPc.owned,eq_comm])
      (fun q => by simp [hstart.1,ThreadPc.owes])
  | newWeakInner ptr countersPtr shard p hpc hfree hshard =>
    exact .of_allocate ht hfree hshard (fun q => by simp [hpc,ThreadPc.owned,eq_comm])
      (fun q => by simp [hpc,ThreadPc.owes])
  | clone p shard hstart hlive hshard =>
    refine .of_increment ht hshard (.inl hlive) (fun _ _ => rfl) rfl rfl rfl rfl (fun q => ?_)
      (fun q => by simp)
    by_cases hq : q = p
    · simp only [hq,State.addLive,State.setLive,State.increment,State.setCounter,
        Function.update_self,if_true]
      omega
    · simp [hq]
  | loadIncrement src after p shard hpc hshard =>
    refine .of_increment ht hshard (.inr (.inl (by simp [hpc,ThreadPc.entering])))
      (fun t' h => by simp [h]) rfl rfl rfl rfl (fun q => ?_)
      (fun q => by simp [hpc,ThreadPc.owes])
    simp only [hpc,ThreadPc.owned,State.setPc,State.increment,State.setCounter,
      Function.update_self,Option.some.injEq]
    split_ifs <;> omega
  | cloneWeakInner shard p w hpc hshard =>
    refine .of_increment ht hshard (.inr (.inr ⟨p,hpc⟩)) (fun t' h => by simp [h]) rfl rfl rfl
      rfl (fun q => ?_) (fun q => by simp [hpc,ThreadPc.owes])
    by_cases hq : q = w <;> simp [hq,hpc,ThreadPc.owned]
  | decrement p shard hpc =>
    refine .decrement p shard rfl hpc
      (.of_thread ht (fun t' h => by simp [h]) rfl (fun _ => rfl) (fun q => ?_)
        (fun q => ?_)) rfl rfl
    · by_cases hq : q = p
      · simp [hq,hpc,ThreadPc.owned]
      · simp [hq,Ne.symm hq,hpc,ThreadPc.owned]
    · simp [hpc,ThreadPc.owes]
  | incrementThenSet p original shard hpc hshard => exact incrementThenSet_accounts ht hpc hshard
  | compareAndSet c ifMatches p hstart hc hlive =>
    exact compareAndSet_accounts ht hstart hc hlive
  | setNull c ifMatches hstart hc => exact setNull_accounts ht hc
  | swap c new discard hstart hc htake => exact swap_accounts ht hc htake
  | store c new old hstart hc htake hold => exact store_accounts ht hstart hc htake hold
  | startInit p hpc huninit => exact startInit_accounts ht hpc huninit
  | setWeakInner p w hpc =>
    obtain ⟨hlt,hnot⟩ := hmaking p w hpc
    exact setWeakInner_accounts ht hpc hlt hnot
  | onNewSdarcAllocated shard p hpc hshard =>
    refine .of_same ht (fun t' h => by simp [h]) rfl rfl rfl rfl (fun q => ?_) (fun q => ?_)
    · by_cases hq : q = p
      · simp [hq,hpc,ThreadPc.owned]
      · simp [hq,Ne.symm hq,hpc,ThreadPc.owned]
    · simp [hpc,ThreadPc.owes]
  | dropHandle p hstart htake =>
    refine .of_same ht (fun t' h => by simp [h]) rfl rfl rfl rfl (fun q => ?_) (fun q => ?_)
    · have hpos := htake.1
      by_cases hq : q = p
      · simp only [hq,hstart.1,ThreadPc.owned,State.setPc,State.takeLive,State.setLive,
          Function.update_self,if_true]
        omega
      · simp [hq,Ne.symm hq,hstart.1,ThreadPc.owned]
    · simp [hstart.1,ThreadPc.owes]
  | syncTo c target hstart hc htake =>
    refine .of_same ht (fun t' h => by simp [h]) rfl rfl rfl rfl (fun q => ?_) (fun q => ?_)
    · have h₁ := takeLiveOption_live s target q
      have h₂ := live_pos_of_canTakeOption (q := q) htake
      change (s.takeLiveOption target).live q + _ = _
      rw [h₁]
      simp only [hstart.1,ThreadPc.owned,State.setPc,Function.update_self]
      split_ifs <;> simp_all
      all_goals omega
    · simp [hstart.1,ThreadPc.owes]
  | sectionNested src after r hpc _ _ =>
    refine .of_same ht (fun t' h => by simp [h]) rfl rfl rfl rfl (fun q => ?_) (fun q => ?_)
    · have h₁ := addLiveOption_live s after q
      change (s.addLiveOption after).live q + _ = _
      rw [h₁]
      simp [hpc,ThreadPc.owned]
    · simp [hpc,ThreadPc.owes]
  | leaveSection src result r hpc _ =>
    refine .of_same ht (fun t' h => by simp [h]) rfl rfl rfl rfl (fun q => ?_) (fun q => ?_)
    · have h₁ := addLiveOption_live s result q
      change (s.addLiveOption result).live q + _ = _
      rw [h₁]
      simp [hpc,ThreadPc.owned]
    · simp [hpc,ThreadPc.owes]
  | leaveSectionDrop src old result r hpc _ =>
    refine .of_same ht (fun t' h => by simp [h]) rfl rfl rfl rfl (fun q => ?_) (fun q => ?_)
    · have h₁ := addLiveOption_live s result q
      change (s.addLiveOption result).live q + _ = _
      rw [h₁]
      simp only [hpc,ThreadPc.owned,State.setPc,Function.update_self,Option.some.injEq]
      omega
    · simp [hpc,ThreadPc.owes]
  | _ =>
    refine .of_same ht (fun t' h => by simp [h]) rfl rfl rfl rfl (fun q => ?_)
      (fun q => ?_) <;> simp_all [ThreadPc.owned,ThreadPc.owes,State.canStart]

end Steps

section Handles

variable {cfg : Config} {s s' : State} {t : Nat}

structure Handles (cfg : Config) (s : State) : Prop where
  cells : ∀ c, cfg.cells ≤ c → s.cells c = none
  threads : ∀ t, cfg.threads ≤ t → (s.threads t).pc = .idle
  pins : ∀ t p, (s.threads t).pc.pins p → 0 < s.live p
  shards : ∀ t p shard value, (s.threads t).pc = .dropExchange p shard value →
    shard < cfg.shards

theorem Handles.thread_lt (h : Handles cfg s) (hbusy : (s.threads t).pc ≠ .idle) :
    t < cfg.threads := by
  by_contra hge
  exact hbusy (h.threads t (by omega))

theorem Handles.pinned_lt {p : Nat} (h : Handles cfg s) (hpin : (s.threads t).pc.pins p) :
    t < cfg.threads := by
  refine h.thread_lt (fun hidle => ?_)
  rw [hidle] at hpin
  exact hpin

theorem Handles.cell_owned {c p : Nat} (h : Handles cfg s) (hc : s.cells c = some p) :
    0 < s.owners cfg p := by
  refine Sdarc.System.cell_owned (c := c) ?_ hc
  by_contra hge
  rw [h.cells c (by omega)] at hc
  contradiction

theorem live_le_owners (p : Nat) : s.live p ≤ s.owners cfg p := by
  unfold State.owners
  omega

theorem ThreadStep.live {op : Op} (h : ThreadStep cfg s t op s') {u p : Nat}
    (hu : u < cfg.threads) (hpin : (s.threads u).pc.pins p) (hlive : 0 < s.live p) :
    0 < s'.live p := by
  have htake : ∀ q, s.canTake cfg q → p = q → 1 < s.live p := by
    rintro q ⟨-,h₁ | h₂⟩ rfl
    · exact h₁
    · exact absurd hpin (h₂ u hu)
  have htakeOption : ∀ o, s.canTakeOption cfg o → 0 < (s.takeLiveOption o).live p := by
    intro o ho
    rw [takeLiveOption_live]
    split_ifs with hop
    · subst hop
      have := htake p ho rfl
      omega
    · omega
  cases h with
  | dropHandle q hstart hq =>
    by_cases hpq : p = q
    · have := htake q hq hpq
      subst hpq
      simp only [State.setPc,State.takeLive,State.setLive,Function.update_self]
      omega
    · simpa [hpq] using hlive
  | swap c new discard hstart hc hnew =>
    have h₁ := htakeOption new hnew
    have h₂ := addLiveOption_live ((s.takeLiveOption new).setCell c new) (s.cells c) p
    rw [h₂]
    exact Nat.add_pos_left h₁ _
  | store c new old hstart hc hnew _ => exact htakeOption new hnew
  | syncTo c target hstart hc htarget => exact htakeOption target htarget
  | onNewSdarcAllocated shard q _ _ =>
    by_cases hpq : p = q <;> simp [hpq]
    exact hlive
  | clone q shard _ _ _ =>
    by_cases hpq : p = q <;> simp [hpq]
    exact hlive
  | cloneWeakInner shard q w _ _ =>
    by_cases hpq : p = w <;> simp [hpq]
    exact hlive
  | sectionNested src after r _ _ _ =>
    have h₁ := addLiveOption_live s after p
    change 0 < (s.addLiveOption after).live p
    omega
  | leaveSection src result r _ _ =>
    have h₁ := addLiveOption_live s result p
    change 0 < (s.addLiveOption result).live p
    omega
  | leaveSectionDrop src old result r _ _ =>
    have h₁ := addLiveOption_live s result p
    change 0 < (s.addLiveOption result).live p
    omega
  | setNull c ifMatches _ _ =>
    have h₁ := addLiveOption_live s (s.cells c) p
    change 0 < (s.addLiveOption (s.cells c)).live p
    omega
  | incrementThenSet q original shard _ _ =>
    have h₁ := addLiveOption_live s original p
    change 0 < (s.addLiveOption original).live p
    omega
  | _ => exact hlive

theorem ThreadStep.pins {op : Op} (h : ThreadStep cfg s t op s') {p : Nat}
    (hpin : (s'.threads t).pc.pins p) :
    (s.threads t).pc.pins p ∨ 0 < s'.live p := by
  cases h with
  | loadOwned src hstart huse =>
    cases src with
    | cell c => simp [ThreadPc.pins] at hpin
    | backRef w =>
      obtain rfl : w = p := by simpa [ThreadPc.pins] using hpin
      exact .inr huse.1
  | borrow src address hstart huse =>
    cases src with
    | cell c => simp [ThreadPc.pins] at hpin
    | backRef w =>
      obtain rfl : w = p := by simpa [ThreadPc.pins] using hpin
      exact .inr huse.1
  | compareAndSet c ifMatches q hstart hc hlive =>
    obtain rfl : q = p := by simpa [ThreadPc.pins] using hpin
    exact .inr hlive
  | downgrade q hstart hlive _ =>
    obtain rfl : q = p := by simpa [ThreadPc.pins] using hpin
    exact .inr hlive
  | _ => left; simp_all [ThreadPc.pins]

theorem ThreadStep.others {op : Op} (h : ThreadStep cfg s t op s') {t' : Nat}
    (ht : t' ≠ t) : s'.threads t' = s.threads t' := by
  cases h <;> simp [ht]

theorem Handles.thread {op : Op} (h : Handles cfg s) (ht : t < cfg.threads)
    (hs : ThreadStep cfg s t op s') : Handles cfg s' where
  cells c hc := by
    have hold := h.cells c hc
    cases hs with
    | swap c' new discard hstart hc' htake =>
      simpa [show c ≠ c' by omega] using hold
    | store c' new old hstart hc' htake hold' =>
      simpa [show c ≠ c' by omega] using hold
    | setNull c' ifMatches hstart hc' =>
      simpa [show c ≠ c' by omega] using hold
    | compareAndSet c' ifMatches p hstart hc' hlive =>
      simpa [show c ≠ c' by omega] using hold
    | _ => exact hold
  threads t' ht' := by
    rw [hs.others (by omega)]
    exact h.threads t' ht'
  pins t' p hpin := by
    by_cases htt : t' = t
    · subst htt
      rcases hs.pins hpin with hold | hlive
      · exact hs.live ht hold (h.pins t' p hold)
      · exact hlive
    · rw [hs.others htt] at hpin
      exact hs.live (h.pinned_lt hpin) hpin (h.pins t' p hpin)
  shards t' p shard value hpc := by
    by_cases htt : t' = t
    · subst htt
      have hold := h.shards t'
      cases hs with
      | dropLoad i q hq hi =>
        obtain ⟨-,rfl,-⟩ : q = p ∧ i = shard ∧ _ := by simpa using hpc
        exact hi
      | decrementRetry spurious q i v hq =>
        obtain ⟨-,rfl,-⟩ : q = p ∧ i = shard ∧ _ := by simpa using hpc
        exact hold q i v hq
      | _ => simp_all [State.canStart]
    · rw [hs.others htt] at hpc
      exact h.shards t' p shard value hpc

end Handles

end Sdarc.System
