import Sdarc.System.ThreadStep
set_option autoImplicit false

/-!
The hazard records: which thread holds which, and what its slots and its flag say of
the operation that the thread is in.
-/

namespace Sdarc.System

def ThreadPc.slot : ThreadPc → Option Nat
  | .borrowReload _ j _ => some j
  | .borrowRetract _ j => some j
  | _ => none

structure Holding (s : State) (th : Thread) (x : HazardData) : Prop where
  isUsed : x.isUsed = true
  flag : x.flag = true ↔ th.pc.inSection
  guards : ∀ j p, th.guards j = some p →
    j < HZ_PTR_SLOT_COUNT ∧ p < s.nextPointee ∧ x.slots j = some (s.heap p).ptr
  slots : ∀ j, x.slots j ≠ none → th.guards j ≠ none ∨ th.pc.slot = some j
  published : ∀ j, th.pc.slot = some j → j < HZ_PTR_SLOT_COUNT ∧ th.guards j = none
  reload : ∀ src j address, th.pc = .borrowReload src j address → x.slots j = some address

structure Recordless (th : Thread) : Prop where
  inSection : ¬ th.pc.inSection
  slot : th.pc.slot = none
  guards : ∀ j, th.guards j = none

def ThreadRecord (s : State) (th : Thread) : Prop :=
  match th.record with
  | .none => Recordless th
  | .scanning len _ => len ≤ s.recordCount ∧ Recordless th
  | .held r => r < s.recordCount ∧ Holding s th (s.records r)

structure Records (s : State) : Prop where
  thread : ∀ t, ThreadRecord s (s.threads t)
  exclusive : ∀ t t' r, (s.threads t).record = .held r → (s.threads t').record = .held r →
    t = t'
  unused : ∀ r, (s.records r).isUsed = false →
    (s.records r).flag = false ∧ ∀ j, (s.records r).slots j = none

section Reading

variable {s : State} {t r : Nat}

theorem Records.holding (h : Records s) (hr : (s.threads t).record = .held r) :
    r < s.recordCount ∧ Holding s (s.threads t) (s.records r) := by
  have := h.thread t
  rwa [ThreadRecord,hr] at this

theorem Records.recordless (h : Records s) (hr : ∀ r, (s.threads t).record ≠ .held r) :
    Recordless (s.threads t) := by
  have hthread := h.thread t
  unfold ThreadRecord at hthread
  cases hrec : (s.threads t).record with
  | none =>
    rw [hrec] at hthread
    exact hthread
  | scanning len next =>
    rw [hrec] at hthread
    exact hthread.2
  | held r => exact absurd hrec (hr r)

theorem Records.held (h : Records s)
    (hneeds : (s.threads t).pc.inSection ∨ (s.threads t).pc.slot ≠ none ∨
      ∃ j, (s.threads t).guards j ≠ none) : ∃ r, (s.threads t).record = .held r := by
  by_contra hnone
  obtain ⟨h₁,h₂,h₃⟩ := h.recordless (fun r hr => hnone ⟨r,hr⟩)
  rcases hneeds with hin | hslot | ⟨j,hj⟩
  · exact h₁ hin
  · exact hslot h₂
  · exact hj (h₃ j)

theorem Records.slot_of_idle (h : Records s) (hr : (s.threads t).record = .held r)
    (hidle : (s.threads t).pc = .idle) {j : Nat} (hj : (s.records r).slots j ≠ none) :
    (s.threads t).guards j ≠ none := by
  have hslot := (h.holding hr).2.slots j hj
  simpa [hidle,ThreadPc.slot] using hslot

end Reading

section Steps

variable {s s' : State} {t : Nat}

theorem Holding.congr {th : Thread} {x : HazardData} (h : Holding s th x)
    (hptr : ∀ p, p < s.nextPointee → (s'.heap p).ptr = (s.heap p).ptr)
    (hnext : s.nextPointee ≤ s'.nextPointee) : Holding s' th x where
  isUsed := h.isUsed
  flag := h.flag
  guards j p hg := by
    obtain ⟨h₁,h₂,h₃⟩ := h.guards j p hg
    exact ⟨h₁,by omega,by rw [hptr p h₂]; exact h₃⟩
  slots := h.slots
  published := h.published
  reload := h.reload

theorem ThreadRecord.congr {th : Thread} (h : ThreadRecord s th)
    (hcount : s.recordCount ≤ s'.recordCount)
    (hrecords : ∀ r, th.record = .held r → s'.records r = s.records r)
    (hptr : ∀ p, p < s.nextPointee → (s'.heap p).ptr = (s.heap p).ptr)
    (hnext : s.nextPointee ≤ s'.nextPointee) : ThreadRecord s' th := by
  unfold ThreadRecord at h ⊢
  cases hr : th.record with
  | none => simpa [hr] using h
  | scanning len next =>
    simp only [hr] at h ⊢
    exact ⟨h.1.trans hcount,h.2⟩
  | held r =>
    simp only [hr] at h ⊢
    rw [hrecords r hr]
    exact ⟨h.1.trans_le hcount,h.2.congr hptr hnext⟩

theorem Records.of_thread (h : Records s)
    (hothers : ∀ t', t' ≠ t → s'.threads t' = s.threads t')
    (hrecords : ∀ t' r, t' ≠ t → (s.threads t').record = .held r →
      s'.records r = s.records r)
    (hcount : s.recordCount ≤ s'.recordCount)
    (hptr : ∀ p, p < s.nextPointee → (s'.heap p).ptr = (s.heap p).ptr)
    (hnext : s.nextPointee ≤ s'.nextPointee)
    (hthread : ThreadRecord s' (s'.threads t))
    (hexclusive : ∀ t' r, t' ≠ t → (s'.threads t).record = .held r →
      (s.threads t').record ≠ .held r)
    (hunused : ∀ r, (s'.records r).isUsed = false →
      (s'.records r).flag = false ∧ ∀ j, (s'.records r).slots j = none) : Records s' where
  thread t' := by
    by_cases ht : t' = t
    · subst ht
      exact hthread
    · rw [hothers t' ht]
      exact (h.thread t').congr hcount (hrecords t' · ht) hptr hnext
  exclusive t₁ t₂ r h₁ h₂ := by
    by_cases ht₁ : t₁ = t
    · by_cases ht₂ : t₂ = t
      · rw [ht₁,ht₂]
      · subst ht₁
        rw [hothers t₂ ht₂] at h₂
        exact absurd h₂ (hexclusive t₂ r ht₂ h₁)
    · by_cases ht₂ : t₂ = t
      · subst ht₂
        rw [hothers t₁ ht₁] at h₁
        exact absurd h₁ (hexclusive t₁ r ht₁ h₂)
      · rw [hothers t₁ ht₁] at h₁
        rw [hothers t₂ ht₂] at h₂
        exact h.exclusive t₁ t₂ r h₁ h₂
  unused := hunused

structure SameRecord (th th' : Thread) : Prop where
  record : th'.record = th.record
  guards : th'.guards = th.guards
  inSection : th'.pc.inSection ↔ th.pc.inSection
  slot : th'.pc.slot = th.pc.slot
  reload : ∀ src j address, th'.pc = .borrowReload src j address →
    th.pc = .borrowReload src j address

theorem SameRecord.refl (th : Thread) : SameRecord th th :=
  ⟨rfl,rfl,Iff.rfl,rfl,fun _ _ _ h => h⟩

theorem SameRecord.recordless {th th' : Thread} (h : SameRecord th th')
    (hless : Recordless th) : Recordless th' :=
  ⟨fun hs => hless.inSection (h.inSection.mp hs),h.slot.trans hless.slot,
    h.guards ▸ hless.guards⟩

theorem SameRecord.holding {th th' : Thread} {x : HazardData} (h : SameRecord th th')
    (hh : Holding s th x) : Holding s th' x where
  isUsed := hh.isUsed
  flag := hh.flag.trans h.inSection.symm
  guards := h.guards ▸ hh.guards
  slots := by
    rw [h.guards,h.slot]
    exact hh.slots
  published := by
    rw [h.guards,h.slot]
    exact hh.published
  reload src j address hpc := hh.reload src j address (h.reload src j address hpc)

theorem Records.of_same (h : Records s) (hthreads : ∀ t, SameRecord (s.threads t) (s'.threads t))
    (hrecords : s'.records = s.records) (hcount : s'.recordCount = s.recordCount)
    (hptr : ∀ p, p < s.nextPointee → (s'.heap p).ptr = (s.heap p).ptr)
    (hnext : s.nextPointee ≤ s'.nextPointee) : Records s' where
  thread t := by
    have hold : ThreadRecord s' (s.threads t) :=
      (h.thread t).congr hcount.ge (fun _ _ => by rw [hrecords]) hptr hnext
    have hsame := hthreads t
    unfold ThreadRecord at hold ⊢
    rw [hsame.record]
    cases hr : (s.threads t).record with
    | none =>
      rw [hr] at hold
      exact hsame.recordless hold
    | scanning len next =>
      rw [hr] at hold
      exact ⟨hold.1,hsame.recordless hold.2⟩
    | held r =>
      rw [hr] at hold
      exact ⟨hold.1,hsame.holding hold.2⟩
  exclusive t t' r hr hr' := by
    rw [(hthreads t).record] at hr
    rw [(hthreads t').record] at hr'
    exact h.exclusive t t' r hr hr'
  unused := hrecords ▸ h.unused

theorem Records.of_holder {r : Nat} {x : HazardData} (h : Records s)
    (hothers : ∀ t', t' ≠ t → s'.threads t' = s.threads t')
    (hr : (s.threads t).record = .held r) (hr' : (s'.threads t).record = .held r)
    (hrecords : s'.records = Function.update s.records r x)
    (hcount : s'.recordCount = s.recordCount) (hheap : s'.heap = s.heap)
    (hnext : s'.nextPointee = s.nextPointee)
    (hholding : Holding s (s.threads t) (s.records r) → Holding s (s'.threads t) x) :
    Records s' := by
  have hold := h.holding hr
  have hnew := hholding hold.2
  refine h.of_thread hothers ?_ hcount.ge (fun _ _ => by rw [hheap]) hnext.ge ?_ ?_ ?_
  · intro t' r' ht hr''
    rw [hrecords]
    refine Function.update_of_ne (fun heq => ?_) _ _
    exact ht (h.exclusive t' t r' hr'' (heq ▸ hr))
  · rw [ThreadRecord,hr',hcount]
    simp only [hrecords,Function.update_self]
    exact ⟨hold.1,hnew.congr (fun _ _ => by rw [hheap]) hnext.ge⟩
  · intro t' r' ht h₁ h₂
    obtain rfl : r = r' := RecordRef.held.inj (hr'.symm.trans h₁)
    exact ht (h.exclusive t' t r h₂ hr)
  · intro r' hunused
    rw [hrecords] at hunused ⊢
    by_cases heq : r' = r
    · subst heq
      rw [Function.update_self,hnew.isUsed] at hunused
      contradiction
    · rw [Function.update_of_ne heq] at hunused ⊢
      exact h.unused r' hunused

theorem ThreadPc.ne_reload {pc : ThreadPc} (h : pc.slot = none) (src : Source)
    (j address : Nat) : pc ≠ .borrowReload src j address := by
  rintro rfl
  simp [ThreadPc.slot] at h

theorem Holding.setFlag {th th' : Thread} {x : HazardData} {flag : Bool} (h : Holding s th x)
    (hflag : flag = true ↔ th'.pc.inSection) (hguards : th'.guards = th.guards)
    (hslot : th.pc.slot = none) (hslot' : th'.pc.slot = none) :
    Holding s th' { x with flag := flag } where
  isUsed := h.isUsed
  flag := hflag
  guards := hguards ▸ h.guards
  slots j hj := by
    have := h.slots j hj
    rw [hslot,← hguards] at this
    exact .inl (by simpa using this)
  published j hj := by
    rw [hslot'] at hj
    contradiction
  reload src j address hpc := absurd hpc (ThreadPc.ne_reload hslot' src j address)

theorem Holding.publish {th : Thread} {x : HazardData} {src : Source} {j address : Nat}
    (h : Holding s th x) (hpc : th.pc = .borrowPublish src address)
    (hj : j < HZ_PTR_SLOT_COUNT) (hfree : x.slots j = none) :
    Holding s { th with pc := .borrowReload src j address }
      { x with slots := Function.update x.slots j (some address) } where
  isUsed := h.isUsed
  flag := by
    have := h.flag
    simpa [hpc,ThreadPc.inSection] using this
  guards i p hg := by
    obtain ⟨h₁,h₂,h₃⟩ := h.guards i p hg
    have hne : i ≠ j := by
      rintro rfl
      rw [hfree] at h₃
      contradiction
    exact ⟨h₁,h₂,by simpa [hne] using h₃⟩
  slots i hi := by
    by_cases hij : i = j
    · subst hij
      exact .inr rfl
    · have := h.slots i (by simpa [hij] using hi)
      exact .inl (by simpa [hpc,ThreadPc.slot] using this)
  published i hi := by
    obtain rfl : j = i := by simpa [ThreadPc.slot] using hi
    refine ⟨hj,?_⟩
    cases hg : th.guards j with
    | none => rfl
    | some p =>
      have := (h.guards j p hg).2.2
      rw [hfree] at this
      contradiction
  reload src' i address' hpc' := by
    obtain ⟨-,rfl,rfl⟩ := ThreadPc.borrowReload.inj hpc'
    simp

theorem Holding.guard {th : Thread} {x : HazardData} {src : Source} {j p : Nat}
    (h : Holding s th x) (hpc : th.pc = .borrowReload src j (s.heap p).ptr)
    (hp : p < s.nextPointee) :
    Holding s ⟨.idle,th.record,Function.update th.guards j (some p)⟩ x where
  isUsed := h.isUsed
  flag := by
    have := h.flag
    simpa [hpc,ThreadPc.inSection] using this
  guards i q hg := by
    by_cases hij : i = j
    · subst hij
      obtain rfl : p = q := by simpa using hg
      exact ⟨(h.published i (by simp [hpc,ThreadPc.slot])).1,hp,h.reload src i _ hpc⟩
    · exact h.guards i q (by simpa [hij] using hg)
  slots i hi := by
    by_cases hij : i = j
    · simp [hij]
    · have := h.slots i hi
      simpa [hpc,ThreadPc.slot,hij,Ne.symm hij] using this
  published i hi := by simp [ThreadPc.slot] at hi
  reload _ _ _ hpc' := by simp at hpc'

theorem Holding.unpublish {th th' : Thread} {x : HazardData} {j : Nat} (h : Holding s th x)
    (hin : th.pc.inSection ↔ th'.pc.inSection) (hslot : th'.pc.slot = none)
    (hslot' : th.pc.slot = none ∨ th.pc.slot = some j)
    (hguards : th'.guards = Function.update th.guards j none) :
    Holding s th' { x with slots := Function.update x.slots j none } where
  isUsed := h.isUsed
  flag := h.flag.trans hin
  guards i p hg := by
    rw [hguards] at hg
    by_cases hij : i = j
    · simp [hij] at hg
    · obtain ⟨h₁,h₂,h₃⟩ := h.guards i p (by simpa [hij] using hg)
      exact ⟨h₁,h₂,by simpa [hij] using h₃⟩
  slots i hi := by
    by_cases hij : i = j
    · simp [hij] at hi
    · rw [hguards]
      have := h.slots i (by simpa [hij] using hi)
      rcases hslot' with hs | hs <;> simpa [hs,hslot,hij,Ne.symm hij] using this
  published i hi := by
    rw [hslot] at hi
    contradiction
  reload src i address hpc := absurd hpc (ThreadPc.ne_reload hslot src i address)

theorem Recordless.holding {th : Thread} {x : HazardData} (h : Recordless th)
    (hflag : x.flag = false) (hslots : ∀ j, x.slots j = none) (record : RecordRef) :
    Holding s { th with record := record } { x with isUsed := true } where
  isUsed := rfl
  flag := by simp [hflag,h.inSection]
  guards j p hg := by
    rw [h.guards j] at hg
    contradiction
  slots j hj := absurd (hslots j) hj
  published j hj := by
    rw [h.slot] at hj
    contradiction
  reload src j address hpc := absurd hpc (ThreadPc.ne_reload h.slot src j address)

/-- The thread takes record `r`, which is nobody's: one that is not used or a new one. -/
theorem Records.taken (h : Records s) {len next r count : Nat} {x : HazardData}
    (hr : (s.threads t).record = .scanning len next)
    (hfree : ∀ t', (s.threads t').record ≠ .held r) (hflag : x.flag = false)
    (hslots : ∀ j, x.slots j = none) (hcount : s.recordCount ≤ count) (hlt : r < count) :
    Records (({ s with recordCount := count }.setRecord r { x with isUsed := true }).setRecordRef
      t (.held r)) := by
  have hless := h.thread t
  rw [ThreadRecord,hr] at hless
  refine h.of_thread (t := t) (fun t' ht => by simp [ht]) (fun t' r' _ hr' => ?_) hcount
    (fun _ _ => rfl) le_rfl ?_ (fun t' r' _ hr' => ?_) (fun r' hr' => ?_)
  · have hne : r' ≠ r := fun heq => hfree t' (heq ▸ hr')
    simp [hne]
  · simp only [State.setRecordRef,State.setRecord,Function.update_self,ThreadRecord]
    exact ⟨hlt,(hless.2.holding hflag hslots _).congr (fun _ _ => rfl) le_rfl⟩
  · obtain rfl : r = r' := by simpa using hr'
    exact hfree t'
  · by_cases hrr : r' = r
    · simp [hrr] at hr'
    · simpa [hrr] using h.unused r' (by simpa [hrr] using hr')

/-- An idle thread without a guard gives its record back: no slot of it is set. -/
theorem Records.released (h : Records s) {r : Nat} (hidle : (s.threads t).pc = .idle)
    (hr : (s.threads t).record = .held r)
    (hguards : ∀ j, j < HZ_PTR_SLOT_COUNT → (s.threads t).guards j = none)
    (hflag : (s.records r).flag = false) :
    Records ((s.setRecord r { s.records r with isUsed := false }).setRecordRef t .none) := by
  obtain ⟨hlt,hh⟩ := h.holding hr
  have hnone : ∀ j, (s.threads t).guards j = none := by
    intro j
    cases hg : (s.threads t).guards j with
    | none => rfl
    | some p =>
      have := hguards j (hh.guards j p hg).1
      rw [hg] at this
      contradiction
  have hempty : ∀ j, (s.records r).slots j = none := by
    intro j
    by_contra hj
    exact h.slot_of_idle hr hidle hj (hnone j)
  refine h.of_thread (t := t) (fun t' ht => by simp [ht]) (fun t' r' ht hr' => ?_) le_rfl
    (fun _ _ => rfl) le_rfl ?_ (by simp) (fun r' hr' => ?_)
  · have hne : r' ≠ r := fun heq => ht (h.exclusive t' t r (heq ▸ hr') hr)
    simp [hne]
  · simp only [State.setRecordRef,State.setRecord,Function.update_self,ThreadRecord]
    exact ⟨by simp [hidle,ThreadPc.inSection],by simp [hidle,ThreadPc.slot],hnone⟩
  · by_cases hrr : r' = r
    · subst hrr
      simpa using ⟨hflag,hempty⟩
    · simpa [hrr] using h.unused r' (by simpa [hrr] using hr')

theorem ThreadStep.records {cfg : Config} {op : Op} (h : Records s)
    (hs : ThreadStep cfg s t op s')
    (hload : ∀ src p, s.load src = some p → p < s.nextPointee) : Records s' := by
  cases hs with
  | stay => exact h
  | sdarcNew ptr countersPtr shard borrows hstart _ _ =>
    refine h.of_same (fun t' => ?_) rfl rfl (fun p hp => ?_) (Nat.le_succ _)
    · by_cases ht : t' = t
      · subst ht
        constructor <;> simp [hstart.1,ThreadPc.inSection,ThreadPc.slot]
      · simp [ht,SameRecord.refl]
    · simp [hp.ne]
  | newWeakInner ptr countersPtr shard p hpc _ _ =>
    refine h.of_same (fun t' => ?_) rfl rfl (fun p hp => ?_) (Nat.le_succ _)
    · by_cases ht : t' = t
      · subst ht
        constructor <;> simp [hpc,ThreadPc.inSection,ThreadPc.slot]
      · simp [ht,SameRecord.refl]
    · simp [hp.ne]
  | startInit p hpc _ =>
    refine h.of_same (fun t' => ?_) rfl rfl
      (fun q _ => field_update SdarcInner.ptr (by rfl) q) le_rfl
    by_cases ht : t' = t
    · subst ht
      constructor <;> simp [hpc,ThreadPc.inSection,ThreadPc.slot]
    · simp [ht,SameRecord.refl]
  | setWeakInner p w hpc =>
    refine h.of_same (fun t' => ?_) rfl rfl
      (fun q _ => field_update SdarcInner.ptr (by rfl) q) le_rfl
    by_cases ht : t' = t
    · subst ht
      constructor <;> simp [hpc,ThreadPc.inSection,ThreadPc.slot]
    · simp [ht,SameRecord.refl]
  | enterSection src after r hpc hr hflag =>
    refine h.of_holder (t := t) (fun t' ht => by simp [ht]) hr (by simp [hr]) rfl rfl rfl rfl
      (fun hh => ?_)
    exact hh.setFlag (by simp [ThreadPc.inSection]) (by simp) (by simp [hpc,ThreadPc.slot])
      (by simp [ThreadPc.slot])
  | leaveSection src result r hpc hr =>
    refine h.of_holder (t := t) (fun t' ht => by simp [ht]) hr (by simp [hr]) rfl rfl rfl rfl
      (fun hh => ?_)
    exact hh.setFlag (by simp [ThreadPc.inSection]) (by simp) (by simp [hpc,ThreadPc.slot])
      (by simp [ThreadPc.slot])
  | leaveSectionDrop src old result r hpc hr =>
    refine h.of_holder (t := t) (fun t' ht => by simp [ht]) hr (by simp [hr]) rfl rfl rfl rfl
      (fun hh => ?_)
    exact hh.setFlag (by simp [ThreadPc.inSection]) (by simp) (by simp [hpc,ThreadPc.slot])
      (by simp [ThreadPc.slot])
  | publish src address r j hpc hr hj hfree =>
    refine h.of_holder (t := t) (fun t' ht => by simp [ht]) hr (by simp [hr]) rfl rfl rfl rfl
      (fun hh => ?_)
    simpa using hh.publish hpc hj hfree
  | reload src j p hpc hp =>
    obtain ⟨r,hr⟩ := h.held (t := t) (.inr (.inl (by simp [hpc,ThreadPc.slot])))
    refine h.of_holder (t := t) (fun t' ht => by simp [ht]) hr (by simp [hr])
      (Function.update_eq_self r s.records).symm rfl rfl rfl (fun hh => ?_)
    simpa using hh.guard hpc (hload src p hp)
  | pointerChanged src j address hpc =>
    refine h.of_same (fun t' => ?_) rfl rfl (fun _ _ => rfl) le_rfl
    by_cases ht : t' = t
    · subst ht
      constructor <;> simp [hpc,ThreadPc.inSection,ThreadPc.slot]
    · simp [ht,SameRecord.refl]
  | retract src j r hpc hr =>
    refine h.of_holder (t := t) (fun t' ht => by simp [ht]) hr (by simp [hr]) rfl rfl rfl rfl
      (fun hh => ?_)
    refine hh.unpublish (by simp [hpc,ThreadPc.inSection]) (by simp [ThreadPc.slot])
      (.inr (by simp [hpc,ThreadPc.slot])) ?_
    have hnone := (hh.published j (by simp [hpc,ThreadPc.slot])).2
    simp [← hnone]
  | dropGuard j p r hstart hg hr =>
    refine h.of_holder (t := t) (fun t' ht => by simp [ht]) hr (by simp [hr]) rfl rfl rfl rfl
      (fun hh => ?_)
    exact hh.unpublish (by simp) (by simp [hstart.1,ThreadPc.slot])
      (.inl (by simp [hstart.1,ThreadPc.slot])) (by simp)
  | obtain hr hneeds =>
    have hless := h.thread t
    rw [ThreadRecord,hr] at hless
    refine h.of_thread (t := t) (fun t' ht => by simp [ht]) (fun _ _ _ _ => rfl) le_rfl
      (fun _ _ => rfl) le_rfl ?_ (by simp) h.unused
    simp only [State.setRecordRef,Function.update_self,ThreadRecord]
    exact ⟨le_rfl,hless.inSection,hless.slot,hless.guards⟩
  | recordUsed len next hr hlt =>
    have hless := h.thread t
    rw [ThreadRecord,hr] at hless
    refine h.of_thread (t := t) (fun t' ht => by simp [ht]) (fun _ _ _ _ => rfl) le_rfl
      (fun _ _ => rfl) le_rfl ?_ (by simp) h.unused
    simp only [State.setRecordRef,Function.update_self,ThreadRecord]
    exact ⟨hless.1,hless.2.inSection,hless.2.slot,hless.2.guards⟩
  | claimRecord len next hr hlt hunused =>
    have hold := h.unused next hunused
    have hless := h.thread t
    rw [ThreadRecord,hr] at hless
    refine h.taken hr (fun t' ht' => ?_) hold.1 hold.2 le_rfl (hlt.trans_le hless.1)
    rw [(h.holding ht').2.isUsed] at hunused
    contradiction
  | pushRecord len next hr =>
    exact h.taken (x := ⟨fun _ => none,true,false⟩) hr
      (fun t' ht' => (h.holding ht').1.ne rfl) rfl (fun _ => rfl) (Nat.le_succ _)
      (Nat.lt_succ_self _)
  | release r hstart hr hguards hflag => exact h.released hstart.1 hr hguards hflag
  | _ =>
    refine h.of_same (fun t' => ?_) rfl rfl (fun _ _ => rfl) le_rfl
    by_cases ht : t' = t
    · subst ht
      constructor <;> simp_all [ThreadPc.inSection,ThreadPc.slot,State.canStart]
    · simp_all [SameRecord.refl]

end Steps

end Sdarc.System
