import Sdarc.Reclamation
import Sdarc.System.Records
import Sdarc.System.Weak
set_option autoImplicit false

/-!
The references to a pointee as the reclamation protocol sees them, and that what threads
do stays within the bounds that the protocol relies on.
-/

namespace Sdarc.System
open Transition Reclamation

def State.view (cfg : Config) (s : State) (p : Nat) : View where
  count i := (s.counter p i).refCount
  tag i := (s.counter p i).tag
  owners := s.owners cfg p
  debt := s.debt cfg p
  source := s.linked p
  entering r := ∃ t, (s.threads t).record = .held r ∧ (s.threads t).pc.entering p
  guard r j := ∃ t, (s.threads t).record = .held r ∧ (s.threads t).guards j = some p

/-- What holds of the references in every state: while a pointee is allocated, its counts,
its owners and what is owed to it are as `rule` says, and a pointee that is not allocated
has no references. -/
structure Referenced (rule : Int → Nat → Nat → Prop) (cfg : Config) (s : State) : Prop where
  records : Records s
  handles : Handles cfg s
  weak : Weak s
  alone : ∀ t p w, (s.threads t).pc.makes p w →
    s.owners cfg w = 1 ∧ ∀ t', ¬ (s.threads t').pc.entering w
  counted : ∀ p, (s.heap p).stage = .allocated →
    rule (s.sum cfg p) (s.owners cfg p) (s.debt cfg p)
  dead : ∀ p, (s.heap p).stage ≠ .allocated → (s.view cfg p).Dead
  asserts : s.assertionFailed = false

def Counted (sum : Int) (owners debt : Nat) : Prop := sum = (owners : Int) - debt

def Covered (sum : Int) (owners debt : Nat) : Prop :=
  sum = (owners : Int) - debt ∧ (debt < owners ∨ debt = 0 ∧ owners = 0)

/-- The references while no owed increment is undercut. -/
abbrev References : Config → State → Prop := Referenced Covered

theorem ThreadPc.entering_inSection {p : Nat} {pc : ThreadPc} (h : pc.entering p) :
    pc.inSection := by
  cases pc <;> simp_all [entering,inSection]

theorem alive_of_owned {cfg : Config} {s : State} {p : Nat} (h : 0 < s.owners cfg p) :
    (s.view cfg p).Alive :=
  .inl (Int.natCast_pos.mpr h)

namespace Referenced

variable {rule : Int → Nat → Nat → Prop} {cfg : Config} {s : State} {t p : Nat}

theorem allocated_of_owned (h : Referenced rule cfg s) (ho : 0 < s.owners cfg p) :
    (s.heap p).stage = .allocated := by
  by_contra hne
  have hzero : (s.owners cfg p : Int) = 0 := (h.dead p hne).owners
  omega

theorem allocated_of_alive (h : Referenced rule cfg s) (ha : (s.view cfg p).Alive) :
    (s.heap p).stage = .allocated := by
  by_contra hne
  exact (h.dead p hne).not_alive ha

theorem entering_held (h : Referenced rule cfg s) (he : (s.threads t).pc.entering p) :
    ∃ r, (s.threads t).record = .held r :=
  h.records.held (.inl (ThreadPc.entering_inSection he))

theorem entering_view (h : Referenced rule cfg s) (he : (s.threads t).pc.entering p) :
    ∃ r, (s.view cfg p).entering r := by
  obtain ⟨r,hr⟩ := h.entering_held he
  exact ⟨r,t,hr,he⟩

theorem allocated_of_entering (h : Referenced rule cfg s) (he : (s.threads t).pc.entering p) :
    (s.heap p).stage = .allocated := by
  by_contra hne
  obtain ⟨r,hr⟩ := h.entering_view he
  exact (h.dead p hne).entering r hr

theorem allocated_of_guard (h : Referenced rule cfg s) {j : Nat}
    (hg : (s.threads t).guards j = some p) : (s.heap p).stage = .allocated := by
  by_contra hne
  obtain ⟨r,hr⟩ := h.records.held (t := t) (.inr (.inr ⟨j,by simp [hg]⟩))
  exact (h.dead p hne).guard r j ⟨t,hr,hg⟩

theorem allocated_of_live (h : Referenced rule cfg s) (hl : 0 < s.live p) :
    (s.heap p).stage = .allocated :=
  h.allocated_of_owned (hl.trans_le (live_le_owners p))

theorem allocated_of_pinned (h : Referenced rule cfg s) (hp : (s.threads t).pc.pins p) :
    (s.heap p).stage = .allocated :=
  h.allocated_of_live (h.handles.pins t p hp)

theorem no_handle_of_makes (h : Referenced rule cfg s) {w : Nat}
    (hm : (s.threads t).pc.makes p w) : s.live w = 0 := by
  have hlt := h.handles.thread_lt (t := t) (fun hidle => by simp [hidle,ThreadPc.makes] at hm)
  have hone := (h.alone t p w hm).1
  have hle := le_sum_range (fun t => (s.threads t).pc.owned w) hlt
  simp only [ThreadPc.makes_owned hm] at hle
  simp only [State.owners,ownedIn] at hone
  omega

theorem not_initialized_of_makes (h : Referenced rule cfg s) {q w : Nat}
    (hm : (s.threads t).pc.makes p w) (hq : (s.heap q).weakInnerRef = .initialized w) :
    False := by
  have hlt := h.handles.thread_lt (t := t) (fun hidle => by simp [hidle,ThreadPc.makes] at hm)
  have hone := (h.alone t p w hm).1
  have h₁ := le_sum_range (fun t => (s.threads t).pc.owned w) hlt
  have h₂ := le_sum_range
    (fun q => if (s.heap q).weakInnerRef = .initialized w then 1 else 0)
    (h.weak.born (p := q) (by rw [hq]; simp))
  simp only [ThreadPc.makes_owned hm] at h₁
  simp only [hq,if_true] at h₂
  simp only [State.owners,ownedIn,weakIn] at hone
  omega

theorem alive_of_load (h : Referenced rule cfg s) {src : Source}
    (huse : ∀ w, src = .backRef w → 0 < s.live w) (hload : s.load src = some p) :
    (s.view cfg p).Alive := by
  cases src with
  | cell c => exact alive_of_owned (h.handles.cell_owned hload)
  | backRef w =>
    obtain ⟨o,ho⟩ := load_backRef.mp hload
    obtain ⟨-,-,hi | ⟨t',hm⟩⟩ := h.weak.backRef w o p ho
    · exact .inr ⟨w,hi,hload⟩
    · have hzero := h.no_handle_of_makes hm
      have hpos := huse w rfl
      omega

theorem born_of_alive (h : Referenced rule cfg s) (hplaces : Places cfg s)
    (ha : (s.view cfg p).Alive) : p < s.nextPointee :=
  hplaces.lt_nextPointee (by rw [h.allocated_of_alive ha]; decide)

theorem born_of_pinned (h : Referenced rule cfg s) (hplaces : Places cfg s)
    (hp : (s.threads t).pc.pins p) : p < s.nextPointee :=
  hplaces.lt_nextPointee (by rw [h.allocated_of_pinned hp]; decide)

theorem load_born (h : Referenced rule cfg s) (hplaces : Places cfg s) {src : Source}
    (hload : s.load src = some p) : p < s.nextPointee := by
  cases src with
  | cell c =>
    exact h.born_of_alive hplaces (alive_of_owned (h.handles.cell_owned hload))
  | backRef w =>
    obtain ⟨o,ho⟩ := load_backRef.mp hload
    refine h.weak.born (p := p) ?_
    obtain ⟨-,-,hi | ⟨t',hm⟩⟩ := h.weak.backRef w o p ho
    · rw [hi]
      simp
    · rw [h.weak.running t' p (ThreadPc.makes_initializes hm)]
      simp

theorem debt_eq_zero (h : Referenced rule cfg s) (hp : (s.heap p).stage ≠ .allocated) :
    s.debt cfg p = 0 := by
  unfold State.debt owedIn
  refine Finset.sum_eq_zero (fun t _ => ?_)
  by_contra hne
  refine hp (h.allocated_of_pinned (t := t) ?_)
  cases hpc : (s.threads t).pc <;> simp_all [ThreadPc.owes,ThreadPc.pins]

end Referenced

section Rely

variable {rule : Int → Nat → Nat → Prop} {cfg : Config} {s s' : State} {t : Nat}

theorem Recordless.entering {th : Thread} (h : Recordless th) (p : Nat) :
    ¬ th.pc.entering p :=
  fun he => h.inSection (ThreadPc.entering_inSection he)

theorem ThreadStep.entering {op : Op} (hr : Records s) (hs : ThreadStep cfg s t op s')
    {q : Nat} (he : (s'.threads t).pc.entering q) :
    (s'.threads t).record = (s.threads t).record ∧
    ((s.threads t).pc.entering q ∨
      ∃ src after, (s.threads t).pc = .loadPointer src after ∧ s.load src = some q) := by
  cases hs with
  | loadPointer src after p hpc hp =>
    obtain rfl : p = q := by simpa [ThreadPc.entering] using he
    exact ⟨by simp,.inr ⟨src,after,hpc,hp⟩⟩
  | stay | clone | swap | setNull | releaseFailed => exact ⟨rfl,.inl he⟩
  | dropGuard => exact ⟨by simp,.inl (by simpa using he)⟩
  | release r hstart => simp [hstart.1,ThreadPc.entering] at he
  | obtain hnone =>
    have hless := hr.recordless (t := t) (by simp [hnone])
    exact absurd (by simpa using he) (hless.entering q)
  | recordUsed len next hscan =>
    have hless := hr.recordless (t := t) (by simp [hscan])
    exact absurd (by simpa using he) (hless.entering q)
  | claimRecord len next hscan =>
    have hless := hr.recordless (t := t) (by simp [hscan])
    exact absurd (by simpa using he) (hless.entering q)
  | pushRecord len next hscan =>
    have hless := hr.recordless (t := t) (by simp [hscan])
    exact absurd (by simpa using he) (hless.entering q)
  | _ => simp [ThreadPc.entering] at he

theorem ThreadStep.guard {op : Op} (hr : Records s) (hs : ThreadStep cfg s t op s')
    {j q : Nat} (hg : (s'.threads t).guards j = some q) :
    (s'.threads t).record = (s.threads t).record ∧
    ((s.threads t).guards j = some q ∨
      ∃ src address, (s.threads t).pc = .borrowReload src j address ∧
        s.load src = some q) := by
  cases hs with
  | reload src i p hpc hp =>
    refine ⟨by simp,?_⟩
    by_cases hji : j = i
    · subst hji
      obtain rfl : p = q := by simpa using hg
      exact .inr ⟨src,_,hpc,hp⟩
    · exact .inl (by simpa [hji] using hg)
  | dropGuard i p r hstart hgi hrec =>
    refine ⟨by simp,.inl ?_⟩
    by_cases hji : j = i
    · simp [hji] at hg
    · simpa [hji] using hg
  | release r hstart hrec hguards =>
    have hlt := (hr.holding hrec).2.guards j q (by simpa using hg)
    have := hguards j hlt.1
    simp [this] at hg
  | obtain hnone =>
    have hless := hr.recordless (t := t) (by simp [hnone])
    simp [hless.guards j] at hg
  | recordUsed len next hscan =>
    have hless := hr.recordless (t := t) (by simp [hscan])
    simp [hless.guards j] at hg
  | claimRecord len next hscan =>
    have hless := hr.recordless (t := t) (by simp [hscan])
    simp [hless.guards j] at hg
  | pushRecord len next hscan =>
    have hless := hr.recordless (t := t) (by simp [hscan])
    simp [hless.guards j] at hg
  | _ => exact ⟨by simp,.inl (by simpa using hg)⟩

theorem ThreadStep.linked {op : Op} (h : Referenced rule cfg s) (hs : ThreadStep cfg s t op s')
    {q : Nat} (hq : q ≠ s.nextPointee ∨ s'.nextPointee = s.nextPointee)
    (hl : s'.linked q) : s.linked q ∨ 0 < s.owners cfg q := by
  have hallocate : ∀ ptr countersPtr shard data pc,
      s' = (s.allocate ptr countersPtr shard data).setPc t pc → s.linked q := by
    rintro ptr countersPtr shard data pc rfl
    have hqn : q ≠ s.nextPointee := hq.resolve_right (by simp)
    obtain ⟨w,hw,hload⟩ := hl
    have hw₀ : (s.heap q).weakInnerRef = .initialized w := by simpa [hqn] using hw
    have hwn := h.weak.weakInner_born (h.weak.initialized q w hw₀)
    refine ⟨w,hw₀,?_⟩
    rw [load_backRef] at hload ⊢
    simpa [hwn.ne] using hload
  cases hs with
  | sdarcNew ptr countersPtr shard borrows => exact .inl (hallocate _ _ _ _ _ rfl)
  | newWeakInner ptr countersPtr shard p => exact .inl (hallocate _ _ _ _ _ rfl)
  | startInit p hpc huninit =>
    obtain ⟨w,hw,hload⟩ := hl
    left
    by_cases hqp : q = p
    · simp [hqp] at hw
    · refine ⟨w,by simpa [hqp] using hw,?_⟩
      rw [load_backRef] at hload ⊢
      by_cases hwp : w = p <;> simpa [hwp] using hload
  | setWeakInner p w hpc =>
    by_cases hqp : q = p
    · subst hqp
      exact .inr ((h.handles.pins t q (by simp [hpc,ThreadPc.pins])).trans_le
        (live_le_owners q))
    · obtain ⟨w',hw,hload⟩ := hl
      refine .inl ⟨w',by simpa [hqp] using hw,?_⟩
      rw [load_backRef] at hload ⊢
      by_cases hwp : w' = p <;> simpa [hwp] using hload
  | _ => exact .inl hl

theorem ThreadStep.linked_stays {op : Op} (h : Referenced rule cfg s)
    (hs : ThreadStep cfg s t op s') {q : Nat} (hl : s.linked q) : s'.linked q := by
  obtain ⟨w,hw,hload⟩ := hl
  have hqn : q ≠ s.nextPointee := (h.weak.born (by rw [hw]; simp)).ne
  have hwn : w ≠ s.nextPointee :=
    (h.weak.weakInner_born (h.weak.initialized q w hw)).ne
  cases hs with
  | sdarcNew ptr countersPtr shard borrows =>
    refine ⟨w,by simpa [hqn] using hw,?_⟩
    rw [load_backRef] at hload ⊢
    simpa [hwn] using hload
  | newWeakInner ptr countersPtr shard p =>
    refine ⟨w,by simpa [hqn] using hw,?_⟩
    rw [load_backRef] at hload ⊢
    simpa [hwn] using hload
  | startInit p hpc huninit =>
    have hqp : q ≠ p := by
      rintro rfl
      rw [hw] at huninit
      contradiction
    refine ⟨w,by simpa [hqp] using hw,?_⟩
    rw [load_backRef] at hload ⊢
    by_cases hwp : w = p <;> simpa [hwp] using hload
  | setWeakInner p w' hpc =>
    have hrun := h.weak.running t p (by simp [hpc,ThreadPc.initializes])
    have hqp : q ≠ p := by
      rintro rfl
      rw [hw] at hrun
      contradiction
    refine ⟨w,by simpa [hqp] using hw,?_⟩
    rw [load_backRef] at hload ⊢
    by_cases hwp : w = p <;> simpa [hwp] using hload
  | _ => exact ⟨w,hw,hload⟩

theorem Referenced.source_live (h : Referenced rule cfg s) {src : Source}
    (hpins : ∀ w, src = .backRef w → (s.threads t).pc.pins w) :
    ∀ w, src = .backRef w → 0 < s.live w :=
  fun w hw => h.handles.pins t w (hpins w hw)

theorem Referenced.accountStep {op : Op} (h : Referenced rule cfg s)
    (ht : t < cfg.threads) (hs : ThreadStep cfg s t op s') : AccountStep cfg s t op s' := by
  refine hs.accounts ht (fun p w hpc => ?_)
  have hrun := h.weak.running t p (by simp [hpc,ThreadPc.initializes])
  exact ⟨h.weak.born (by rw [hrun]; simp),by simp [hrun]⟩

theorem AccountStep.owners_le {op : Op} {q : Nat} (ha : AccountStep cfg s t op s') (h : Referenced rule cfg s)
    (hq : q ≠ s.nextPointee ∨ s'.nextPointee = s.nextPointee)
    (hgrow : s.owners cfg q < s'.owners cfg q) :
    0 < s.live q ∨ (s.threads t).pc.entering q ∨
      ∃ p, (s.heap p).weakInnerRef = .initialized q := by
  have hgain : ∀ {p : Nat} {gain owed : Int}, Books cfg s s' p gain owed →
      q = p ∧ 0 < gain := by
    intro p gain owed hb
    have hbq := hb.owners q
    split_ifs at hbq with hqp
    · exact ⟨hqp,by omega⟩
    · omega
  cases ha with
  | same hb _ _ => simpa using (hgain hb).2
  | allocate ptr countersPtr shard data _ _ hb _ _ hnext =>
    rcases hq with hq | hq
    · exact absurd (hgain hb).1 hq
    · omega
  | increment p shard _ hwhy hb _ _ =>
    obtain ⟨rfl,-⟩ := hgain hb
    rcases hwhy with hl | he | ⟨p,hp⟩
    · exact .inl hl
    · exact .inr (.inl he)
    · exact .inr (.inr ⟨p,h.weak.cloned t p q hp⟩)
  | decrement p shard _ _ hb _ _ => simpa using (hgain hb).2
  | borrow p hl hb _ _ =>
    obtain ⟨rfl,-⟩ := hgain hb
    exact .inl hl
  | repay p shard _ _ hb _ _ => simpa using (hgain hb).2

theorem ThreadStep.rely {op : Op} (h : Referenced rule cfg s)
    (ht : t < cfg.threads) (hs : ThreadStep cfg s t op s') {q : Nat}
    (hq : q ≠ s.nextPointee ∨ s'.nextPointee = s.nextPointee) :
    Rely (s.view cfg q) (s'.view cfg q) where
  nonneg := Int.natCast_nonneg _
  owners hpos := by
    have ha := h.accountStep ht hs
    have hpos : 0 < s'.owners cfg q := Int.natCast_pos.mp hpos
    by_cases hgrow : s.owners cfg q < s'.owners cfg q
    · rcases ha.owners_le h hq hgrow with hl | he | ⟨p,hp⟩
      · exact .inl (alive_of_owned (hl.trans_le (live_le_owners q)))
      · exact .inr (h.entering_view he)
      · exact .inl (alive_of_owned (weakInner_owned (h.weak.born (by rw [hp]; simp)) hp))
    · exact .inl (alive_of_owned (by omega))
  entering r := by
    rintro ⟨t',hr,he⟩
    by_cases htt : t' = t
    · subst htt
      obtain ⟨hrec,hold | ⟨src,after,hpc,hload⟩⟩ := hs.entering h.records he
      · exact .inl ⟨t',hrec ▸ hr,hold⟩
      · refine .inr (h.alive_of_load (h.source_live (t := t') (fun w hw => ?_)) hload)
        simp [hpc,hw,ThreadPc.pins]
    · rw [hs.others htt] at hr he
      exact .inl ⟨t',hr,he⟩
  guard r j := by
    rintro ⟨t',hr,hg⟩
    by_cases htt : t' = t
    · subst htt
      obtain ⟨hrec,hold | ⟨src,address,hpc,hload⟩⟩ := hs.guard h.records hg
      · exact .inl ⟨t',hrec ▸ hr,hold⟩
      · refine .inr (h.alive_of_load (h.source_live (t := t') (fun w hw => ?_)) hload)
        simp [hpc,hw,ThreadPc.pins]
    · rw [hs.others htt] at hr hg
      exact .inl ⟨t',hr,hg⟩
  source hl := (hs.linked h hq hl).imp id Int.natCast_pos.mpr
  source_stays := hs.linked_stays h

theorem counters_setCounter (s : State) (slot shard : Nat) (v : Counter) (key i : Nat) :
    (s.setCounter slot shard v).counters key i =
      if key = slot ∧ i = shard then v else s.counters key i := by
  by_cases hk : key = slot
  · subst hk
    by_cases hi : i = shard <;> simp [hi]
  · simp [hk]

theorem ThreadStep.frame {op : Op} (hs : ThreadStep cfg s t op s') {q : Nat}
    (hq : q ≠ s.nextPointee ∨ s'.nextPointee = s.nextPointee) :
    (s'.heap q).ptr = (s.heap q).ptr ∧ (s'.heap q).countersPtr = (s.heap q).countersPtr ∧
      (s'.heap q).stage = (s.heap q).stage := by
  cases hs with
  | sdarcNew => simp [hq.resolve_right (by simp)]
  | newWeakInner => simp [hq.resolve_right (by simp)]
  | startInit p | setWeakInner p w =>
    exact ⟨field_update SdarcInner.ptr (by rfl) q,field_update SdarcInner.countersPtr (by rfl) q,
      field_update SdarcInner.stage (by rfl) q⟩
  | _ => exact ⟨rfl,rfl,rfl⟩

theorem ThreadStep.next {op : Op} (hs : ThreadStep cfg s t op s') :
    s'.nextPointee = s.nextPointee ∨
      (s'.heap s.nextPointee).stage = .allocated ∧ s'.nextPointee = s.nextPointee + 1 := by
  cases hs with
  | sdarcNew => exact .inr ⟨by simp,rfl⟩
  | newWeakInner => exact .inr ⟨by simp,rfl⟩
  | _ => exact .inl rfl

theorem AccountStep.relyCounts {op : Op} {q : Nat} (ha : AccountStep cfg s t op s')
    (hplaces : Places cfg s) (hq : (s.heap q).stage = .allocated)
    (hptr : (s'.heap q).countersPtr = (s.heap q).countersPtr) :
    RelyCounts (s.view cfg q) (s'.view cfg q) := by
  have hsame : s'.counters (s.heap q).countersPtr = s.counters (s.heap q).countersPtr →
      RelyCounts (s.view cfg q) (s'.view cfg q) := by
    intro h
    constructor <;> intro i hi <;> simp_all [State.view,State.counter]
  have hset : ∀ (p shard : Nat) (v : Counter),
      s'.counters = (s.setCounter (s.heap p).countersPtr shard v).counters →
      ((s.counter p shard).tag = true → v.tag = true) →
      (v.tag = false → (s.counter p shard).refCount ≤ v.refCount) →
      RelyCounts (s.view cfg q) (s'.view cfg q) := by
    intro p shard v hcounters htag hcount
    have hcounter : ∀ i, s'.counter q i =
        if (s.heap q).countersPtr = (s.heap p).countersPtr ∧ i = shard then v
        else s.counter q i := by
      intro i
      unfold State.counter
      rw [hcounters,hptr,counters_setCounter]
    have hold : ∀ i, (s.heap q).countersPtr = (s.heap p).countersPtr ∧ i = shard →
        s.counter q i = s.counter p shard := by
      rintro i ⟨hk,rfl⟩
      unfold State.counter
      rw [hk]
    constructor
    · intro i hi
      change (s'.counter q i).tag = true
      rw [hcounter]
      split
      · rename_i hc
        exact htag (hold i hc ▸ hi)
      · exact hi
    · intro i hi
      change (s'.counter q i).tag = false at hi
      change (s.counter q i).refCount ≤ (s'.counter q i).refCount
      rw [hcounter] at hi ⊢
      split at hi
      · rename_i hc
        rw [if_pos hc,hold i hc]
        exact hcount hi
      · rename_i hc
        rw [if_neg hc]
  cases ha with
  | same _ hcounters _ => exact hsame (by rw [hcounters])
  | borrow p _ _ hcounters _ => exact hsame (by rw [hcounters])
  | allocate ptr countersPtr shard data _ hfree _ hcounters _ _ =>
    refine hsame ?_
    have hlt := hplaces.lt_nextPointee (p := q) (by rw [hq]; decide)
    have hslot := hplaces.slot q hq
    rcases (hfree q hlt).1 with hr | hne
    · rw [hr] at hslot
      contradiction
    · rw [hcounters]
      simp [hne]
  | increment p shard _ _ _ hcounters _ =>
    refine hset p shard _ hcounters (fun h => h) (fun _ => ?_)
    simp [Counter.increment]
  | decrement p shard _ _ _ hcounters _ =>
    exact hset p shard _ hcounters (fun _ => rfl) (by simp [Counter.decrementAndSetTag])
  | repay p shard _ _ _ hcounters _ =>
    refine hset p shard _ hcounters (fun h => h) (fun _ => ?_)
    simp [Counter.increment]

theorem sum_setCounter {p q shard : Nat} {v : Counter} (hshard : shard < cfg.shards)
    (hcounters : s'.counters = (s.setCounter (s.heap p).countersPtr shard v).counters)
    (hptr : (s'.heap q).countersPtr = (s.heap q).countersPtr)
    (hdistinct : (s.heap q).countersPtr = (s.heap p).countersPtr → q = p) :
    s'.sum cfg q = s.sum cfg q +
      if q = p then v.refCount - (s.counter p shard).refCount else 0 := by
  unfold State.sum State.counter
  rw [hptr,hcounters]
  by_cases hqp : q = p
  · subst hqp
    have h := sum_update (fun _ (c : Counter) => c.refCount)
      (s.counters (s.heap q).countersPtr) hshard v
    simp only [State.setCounter,Function.update_self,if_true]
    omega
  · have hne : (s.heap q).countersPtr ≠ (s.heap p).countersPtr :=
      fun heq => hqp (hdistinct heq)
    simp [hqp,hne]

theorem accounted_iff {p : Nat} :
    (s.view cfg p).Accounted cfg.shards ↔
      s.sum cfg p = (s.owners cfg p : Int) - s.debt cfg p ∧
      (s.debt cfg p < s.owners cfg p ∨ s.debt cfg p = 0 ∧ s.owners cfg p = 0) := by
  constructor
  · rintro ⟨hsum,-,hcov⟩
    refine ⟨hsum,?_⟩
    rcases hcov with h | ⟨h₁,h₂⟩
    · exact .inl (Int.ofNat_lt.mp h)
    · exact .inr ⟨Int.natCast_eq_zero.mp h₁,Int.natCast_eq_zero.mp h₂⟩
  · rintro ⟨hsum,hcov⟩
    refine ⟨hsum,Int.natCast_nonneg _,?_⟩
    rcases hcov with h | ⟨h₁,h₂⟩
    · exact .inl (Int.ofNat_lt.mpr h)
    · exact .inr ⟨Int.natCast_eq_zero.mpr h₁,Int.natCast_eq_zero.mpr h₂⟩

theorem References.accounted (h : References cfg s) (p : Nat)
    (hp : (s.heap p).stage = .allocated) : (s.view cfg p).Accounted cfg.shards :=
  accounted_iff.mpr (h.counted p hp)

def State.decremented (s : State) : Action → Option Nat
  | .thread t (.dropExchange false) =>
      match (s.threads t).pc with
      | .dropExchange p shard value => if s.counter p shard = value then some p else none
      | _ => none
  | _ => none

/-- The step does not bring to zero the counts of a pointee for which a
`compare_and_set` has still to make its increment. -/
def State.covered (cfg : Config) (s : State) (a : Action) : Prop :=
  match s.decremented a with
  | none => True
  | some p => 0 < s.debt cfg p → 1 < s.sum cfg p

instance (cfg : Config) (s : State) (a : Action) : Decidable (s.covered cfg a) :=
  match h : s.decremented a with
  | none => isTrue (by simp [State.covered,h])
  | some p => decidable_of_iff (0 < s.debt cfg p → 1 < s.sum cfg p) (by simp [State.covered,h])

theorem State.covered_decrement {p shard : Nat} (h : s.covered cfg (.thread t (.dropExchange false)))
    (hpc : (s.threads t).pc = .dropExchange p shard (s.counter p shard))
    (hdebt : 0 < s.debt cfg p) : 1 < s.sum cfg p := by
  simp only [State.covered,State.decremented,hpc,if_true] at h
  exact h hdebt

theorem Referenced.allocated_of_owned_pc (h : Referenced rule cfg s) (ht : t < cfg.threads) {p : Nat}
    (ho : 0 < (s.threads t).pc.owned p) : (s.heap p).stage = .allocated :=
  h.allocated_of_owned (ho.trans_le (owned_le_owners ht))

theorem AccountStep.counted {op : Op} {q : Nat} (ha : AccountStep cfg s t op s')
    (h : Referenced rule cfg s) (hplaces : Places cfg s) (ht : t < cfg.threads)
    (hq : (s.heap q).stage = .allocated)
    (hptr : (s'.heap q).countersPtr = (s.heap q).countersPtr)
    (hsum : Counted (s.sum cfg q) (s.owners cfg q) (s.debt cfg q)) :
    Counted (s'.sum cfg q) (s'.owners cfg q) (s'.debt cfg q) := by
  unfold Counted at hsum ⊢
  have hdistinct : ∀ p, (s.heap p).stage = .allocated →
      (s.heap q).countersPtr = (s.heap p).countersPtr → q = p :=
    fun p hp => hplaces.distinct q p (hplaces.slot q hq) (hplaces.slot p hp)
  have hsame : s'.counters (s.heap q).countersPtr = s.counters (s.heap q).countersPtr →
      s'.sum cfg q = s.sum cfg q := by
    intro heq
    unfold State.sum State.counter
    rw [hptr,heq]
  cases ha with
  | same hb hcounters _ =>
    have h₁ := hb.owners q
    have h₂ := hb.debt q
    have h₃ := hsame (by rw [hcounters])
    split_ifs at h₁ h₂ <;> omega
  | allocate ptr countersPtr shard data _ hfree hb hcounters _ _ =>
    have h₁ := hb.owners q
    have h₂ := hb.debt q
    have hlt := hplaces.lt_nextPointee (p := q) (by rw [hq]; decide)
    have hslot := hplaces.slot q hq
    have h₃ := hsame (by
      rcases (hfree q hlt).1 with hr | hne
      · rw [hr] at hslot
        contradiction
      · rw [hcounters]
        simp [hne])
    rw [if_neg hlt.ne] at h₁ h₂
    omega
  | increment p shard hshard hwhy hb hcounters _ =>
    have hp : (s.heap p).stage = .allocated := by
      rcases hwhy with hl | he | ⟨q',hc⟩
      · exact h.allocated_of_live hl
      · exact h.allocated_of_entering he
      · have hw := h.weak.cloned t q' p hc
        exact h.allocated_of_owned (weakInner_owned (h.weak.born (by rw [hw]; simp)) hw)
    have h₁ := hb.owners q
    have h₂ := hb.debt q
    have h₃ := sum_setCounter hshard hcounters hptr (hdistinct p hp)
    simp only [Counter.increment] at h₃
    split_ifs at h₁ h₂ h₃ <;> omega
  | decrement p shard hop hpc hb hcounters _ =>
    have hshard := h.handles.shards t p shard _ hpc
    have hown := owned_le_owners (s := s) (p := p) ht
    simp only [hpc,ThreadPc.owned,if_true] at hown
    have h₁ := hb.owners q
    have h₂ := hb.debt q
    have h₃ := sum_setCounter hshard hcounters hptr (hdistinct p (h.allocated_of_owned hown))
    simp only [Counter.decrementAndSetTag] at h₃
    split_ifs at h₁ h₂ h₃ <;> omega
  | borrow p hl hb hcounters _ =>
    have h₁ := hb.owners q
    have h₂ := hb.debt q
    have h₃ := hsame (by rw [hcounters])
    split_ifs at h₁ h₂ <;> omega
  | repay p shard hshard howes hb hcounters _ =>
    have hpin : (s.threads t).pc.pins p := by
      cases hpc : (s.threads t).pc <;> simp_all [ThreadPc.owes,ThreadPc.pins]
    have h₁ := hb.owners q
    have h₂ := hb.debt q
    have h₃ := sum_setCounter hshard hcounters hptr (hdistinct p (h.allocated_of_pinned hpin))
    simp only [Counter.increment] at h₃
    split_ifs at h₁ h₂ h₃ <;> omega

theorem AccountStep.accounted {op : Op} {q : Nat} (ha : AccountStep cfg s t op s')
    (h : References cfg s) (hplaces : Places cfg s) (ht : t < cfg.threads)
    (hcov : s.covered cfg (.thread t op)) (hq : (s.heap q).stage = .allocated)
    (hptr : (s'.heap q).countersPtr = (s.heap q).countersPtr) :
    Covered (s'.sum cfg q) (s'.owners cfg q) (s'.debt cfg q) := by
  obtain ⟨hsum,hold⟩ := h.counted q hq
  refine ⟨ha.counted h hplaces ht hq hptr hsum,?_⟩
  cases ha with
  | same hb _ _ =>
    have h₁ := hb.owners q
    have h₂ := hb.debt q
    split_ifs at h₁ h₂ <;> omega
  | allocate ptr countersPtr shard data _ _ hb _ _ _ =>
    have h₁ := hb.owners q
    have h₂ := hb.debt q
    have hlt := hplaces.lt_nextPointee (p := q) (by rw [hq]; decide)
    rw [if_neg hlt.ne] at h₁ h₂
    omega
  | increment p shard _ _ hb _ _ =>
    have h₁ := hb.owners q
    have h₂ := hb.debt q
    split_ifs at h₁ h₂ <;> omega
  | decrement p shard hop hpc hb _ _ =>
    have hown := owned_le_owners (s := s) (p := p) ht
    simp only [hpc,ThreadPc.owned,if_true] at hown
    have h₁ := hb.owners q
    have h₂ := hb.debt q
    by_cases hqp : q = p
    · subst hqp
      subst hop
      have hc := State.covered_decrement hcov hpc
      simp only [if_true] at h₁ h₂
      omega
    · simp only [hqp,if_false] at h₁ h₂
      omega
  | borrow p hl hb _ _ =>
    have h₁ := hb.owners q
    have h₂ := hb.debt q
    by_cases hqp : q = p
    · subst hqp
      have hpos : 0 < s.owners cfg q := hl.trans_le (live_le_owners q)
      simp only [if_true] at h₁ h₂
      omega
    · simp only [hqp,if_false] at h₁ h₂
      omega
  | repay p shard _ howes hb _ _ =>
    have hle := owes_le_debt (s := s) (p := p) ht
    have h₁ := hb.owners q
    have h₂ := hb.debt q
    by_cases hqp : q = p
    · subst hqp
      simp only [if_true] at h₁ h₂
      omega
    · simp only [hqp,if_false] at h₁ h₂
      omega

theorem AccountStep.accounted_newborn {op : Op} (ha : AccountStep cfg s t op s')
    (h : Referenced rule cfg s) (hplaces : Places cfg s)
    (hnext : s'.nextPointee = s.nextPointee + 1) :
    Covered (s'.sum cfg s.nextPointee) (s'.owners cfg s.nextPointee)
      (s'.debt cfg s.nextPointee) := by
  have hun : (s.heap s.nextPointee).stage ≠ .allocated := by
    rw [(hplaces.fresh _ le_rfl).1]
    decide
  have howners : (s.owners cfg s.nextPointee : Int) = 0 := (h.dead _ hun).owners
  have hdebt := h.debt_eq_zero hun
  unfold Covered
  cases ha with
  | allocate ptr countersPtr shard data hshard _ hb hcounters hheap _ =>
    have h₁ := hb.owners s.nextPointee
    have h₂ := hb.debt s.nextPointee
    rw [if_pos rfl] at h₁ h₂
    have hsum : s'.sum cfg s.nextPointee = 1 := by
      unfold State.sum State.counter
      rw [hcounters,hheap]
      have h := sum_update (fun _ (c : Counter) => c.refCount)
        (fun _ => Counter.new) hshard Counter.new.increment
      simp only [Counter.new,Counter.increment,Finset.sum_const_zero] at h
      simpa [State.allocate,Counter.new,Counter.increment] using h
    omega
  | _ => omega

theorem Referenced.alone_stays {op : Op} {u p w : Nat} (h : Referenced rule cfg s)
    (ht : t < cfg.threads) (hs : ThreadStep cfg s t op s')
    (hm : (s.threads u).pc.makes p w) (hm' : (s'.threads u).pc.makes p w)
    (hu : u < cfg.threads) :
    s'.owners cfg w = 1 ∧ ∀ t', ¬ (s'.threads t').pc.entering w := by
  obtain ⟨hone,hnone⟩ := h.alone u p w hm
  have hmade := h.weak.made u p w hm
  have hborn := h.weak.weakInner_born ⟨_,hmade⟩
  have hlive := h.no_handle_of_makes hm
  have hown := le_sum_range (fun t => (s.threads t).pc.owned w) hu
  simp only [ThreadPc.makes_owned hm] at hown
  have hown' := owned_le_owners (s := s') (p := w) hu
  rw [ThreadPc.makes_owned hm'] at hown'
  have hparts : s.live w + cellsIn s.cells cfg.cells w + ownedIn s.threads cfg.threads w +
      weakIn s.heap s.nextPointee w = 1 := hone
  constructor
  · by_contra hne
    have hgrow : s.owners cfg w < s'.owners cfg w := by omega
    rcases (h.accountStep ht hs).owners_le h (.inl hborn.ne) hgrow with hl | he | ⟨q,hq⟩
    · omega
    · exact hnone t he
    · exact h.not_initialized_of_makes hm hq
  · intro t' he
    by_cases htt : t' = t
    · subst htt
      obtain ⟨-,hold | ⟨src,after,-,hload⟩⟩ := hs.entering h.records he
      · exact hnone t' hold
      · cases src with
        | cell c =>
          have hc : c < cfg.cells := by
            by_contra hge
            simp only [State.load,h.handles.cells c (by omega)] at hload
            contradiction
          have hcell : s.cells c = some w := hload
          have hle := le_sum_range (fun c => if s.cells c = some w then 1 else 0) hc
          simp only [hcell,if_true] at hle
          unfold ownedIn cellsIn at hparts
          omega
        | backRef x =>
          obtain ⟨o,ho⟩ := load_backRef.mp hload
          have hnot := (h.weak.backRef x o w ho).2.1
          simp [State.isWeakSdarcInner,hmade] at hnot
    · rw [hs.others htt] at he
      exact hnone t' he

theorem ThreadStep.makes {op : Op} {p w : Nat} (hs : ThreadStep cfg s t op s')
    (hm : (s'.threads t).pc.makes p w) :
    (s.threads t).pc.makes p w ∨
      w = s.nextPointee ∧ s'.nextPointee = s.nextPointee + 1 := by
  cases hs with
  | newWeakInner ptr countersPtr shard q hpc =>
    obtain ⟨-,rfl⟩ : q = p ∧ s.nextPointee = w := by simpa [ThreadPc.makes] using hm
    exact .inr ⟨rfl,rfl⟩
  | registerWeakInner shard q x hpc =>
    left
    simpa [hpc,ThreadPc.makes] using hm
  | stay | clone | swap | setNull | releaseFailed => exact .inl hm
  | dropGuard | obtain | recordUsed | claimRecord | pushRecord | release =>
    exact .inl (by simpa using hm)
  | _ => simp [ThreadPc.makes] at hm

theorem ThreadStep.asserts {op : Op} (h : Referenced rule cfg s) (hs : ThreadStep cfg s t op s') :
    s'.assertionFailed = false := by
  have hold := h.asserts
  cases hs with
  | sectionNested src after r hpc hr hflag =>
    have hin := (h.records.holding hr).2.flag.mp hflag
    simp [hpc,ThreadPc.inSection] at hin
  | releaseFailed r hstart hr hguards hnot =>
    have hh := (h.records.holding hr).2
    refine absurd ⟨fun j hj => ?_,?_⟩ hnot
    · by_contra hne
      exact h.records.slot_of_idle hr hstart.1 hne (hguards j hj)
    · have hin := hh.flag
      rw [hstart.1] at hin
      simpa [ThreadPc.inSection] using hin
  | _ => exact hold

theorem Referenced.thread {op : Op} (h : Referenced rule cfg s) (hplaces : Places cfg s)
    (ht : t < cfg.threads) (hs : ThreadStep cfg s t op s')
    (hcounted : ∀ q, (s'.heap q).stage = .allocated →
      rule (s'.sum cfg q) (s'.owners cfg q) (s'.debt cfg q)) : Referenced rule cfg s' := by
  have ha := h.accountStep ht hs
  have hun : (s.heap s.nextPointee).stage ≠ .allocated := by
    rw [(hplaces.fresh _ le_rfl).1]
    decide
  refine ⟨hs.records h.records (fun src p => h.load_born hplaces),h.handles.thread ht hs,
    hs.weak h.weak (fun t p => h.born_of_pinned hplaces),?_,hcounted,?_,hs.asserts h⟩
  · intro u p w hm
    have hu : u < cfg.threads :=
      (h.handles.thread ht hs).thread_lt (t := u)
        (fun hidle => by simp [hidle,ThreadPc.makes] at hm)
    by_cases hut : u = t
    · subst hut
      rcases hs.makes hm with hold | ⟨rfl,hnext⟩
      · exact h.alone_stays ht hs hold hm hu
      · have hzero : (s.owners cfg s.nextPointee : Int) = 0 := (h.dead _ hun).owners
        constructor
        · cases ha with
          | allocate ptr countersPtr shard data _ _ hb _ _ _ =>
            have := hb.owners s.nextPointee
            rw [if_pos rfl] at this
            omega
          | _ => omega
        · intro t' he
          by_cases htu : t' = u
          · subst htu
            cases hpc : (s'.threads t').pc <;> simp_all [ThreadPc.makes,ThreadPc.entering]
          · rw [hs.others htu] at he
            exact hun (h.allocated_of_entering he)
    · exact h.alone_stays ht hs (by rwa [hs.others hut] at hm) hm hu
  · intro q hq
    have hqn : q ≠ s.nextPointee ∨ s'.nextPointee = s.nextPointee := by
      rcases hs.next with hnext | ⟨hstage,-⟩
      · exact .inr hnext
      · exact .inl (fun heq => hq (heq ▸ hstage))
    exact (h.dead q ((hs.frame hqn).2.2 ▸ hq)).stable (hs.rely h ht hqn)

theorem Referenced.counted_thread {op : Op} (h : Referenced rule cfg s) (hplaces : Places cfg s)
    (ht : t < cfg.threads) (hs : ThreadStep cfg s t op s')
    (hstep : ∀ q, AccountStep cfg s t op s' → (s.heap q).stage = .allocated →
      (s'.heap q).countersPtr = (s.heap q).countersPtr →
      rule (s'.sum cfg q) (s'.owners cfg q) (s'.debt cfg q))
    (hborn : ∀ sum owners debt, Covered sum owners debt → rule sum owners debt) {q : Nat}
    (hq : (s'.heap q).stage = .allocated) :
    rule (s'.sum cfg q) (s'.owners cfg q) (s'.debt cfg q) := by
  have ha := h.accountStep ht hs
  by_cases hqn : q = s.nextPointee
  · subst hqn
    rcases hs.next with hnext | ⟨-,hnext⟩
    · rw [(hs.frame (.inr hnext)).2.2,(hplaces.fresh _ le_rfl).1] at hq
      contradiction
    · exact hborn _ _ _ (ha.accounted_newborn h hplaces hnext)
  · obtain ⟨-,hptr,hstage⟩ := hs.frame (.inl hqn)
    exact hstep q ha (hstage ▸ hq) hptr

theorem References.thread {op : Op} (h : References cfg s) (hplaces : Places cfg s)
    (ht : t < cfg.threads) (hcov : s.covered cfg (.thread t op))
    (hs : ThreadStep cfg s t op s') : References cfg s' :=
  Referenced.thread h hplaces ht hs (fun _ => h.counted_thread hplaces ht hs
    (fun _ ha hq hptr => ha.accounted h hplaces ht hcov hq hptr) (fun _ _ _ => id))

end Rely

end Sdarc.System
