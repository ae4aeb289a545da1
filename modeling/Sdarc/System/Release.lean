import Sdarc.System.View
set_option autoImplicit false

/-!
What the collector does to the references: it clears tags, cuts pointees off from their
`WeakSdarcInner`, and takes apart pointees that have no references left.
-/

namespace Sdarc.System
open Transition Reclamation

section Same

variable {rule : Int → Nat → Nat → Prop} {cfg : Config} {s s' : State}

/-- `s'` has as many owners of each pointee as `s` and no reference that `s` has not. -/
structure NoMore (cfg : Config) (s s' : State) : Prop where
  owners : ∀ p, s'.owners cfg p = s.owners cfg p
  debt : ∀ p, s'.debt cfg p = s.debt cfg p
  linked : ∀ p, s'.linked p → s.linked p
  record : ∀ t, (s'.threads t).record = (s.threads t).record
  guards : ∀ t, (s'.threads t).guards = (s.threads t).guards
  entering : ∀ t p, (s'.threads t).pc.entering p → (s.threads t).pc.entering p
  makes : ∀ t p w, (s'.threads t).pc.makes p w → (s.threads t).pc.makes p w

theorem NoMore.rely (h : NoMore cfg s s') {p : Nat} (hstays : s.linked p → s'.linked p) :
    Rely (s.view cfg p) (s'.view cfg p) where
  nonneg := Int.natCast_nonneg _
  owners hpos := .inl (.inl (by
    change (0 : Int) < s.owners cfg p
    rw [← h.owners]
    exact hpos))
  entering r := by
    rintro ⟨t,hr,he⟩
    exact .inl ⟨t,h.record t ▸ hr,h.entering t p he⟩
  guard r j := by
    rintro ⟨t,hr,hg⟩
    exact .inl ⟨t,h.record t ▸ hr,h.guards t ▸ hg⟩
  source hl := .inl (h.linked p hl)
  source_stays := hstays

theorem NoMore.dead (h : NoMore cfg s s') {p : Nat} (hd : (s.view cfg p).Dead) :
    (s'.view cfg p).Dead :=
  hd.stable (h.rely (fun hl => absurd hl hd.source))

theorem Referenced.of_counts (h : Referenced rule cfg s) (hmore : NoMore cfg s s')
    (hrecords : Records s') (hhandles : Handles cfg s') (hweak : Weak s')
    (hasserts : s'.assertionFailed = false)
    (hsum : ∀ p, s'.sum cfg p = s.sum cfg p)
    (hstage : ∀ p, (s'.heap p).stage = .allocated → (s.heap p).stage = .allocated)
    (hfreed : ∀ p, (s'.heap p).stage ≠ .allocated → (s.view cfg p).Dead) :
    Referenced rule cfg s' where
  records := hrecords
  handles := hhandles
  weak := hweak
  alone t p w hm := by
    obtain ⟨h₁,h₂⟩ := h.alone t p w (hmore.makes t p w hm)
    exact ⟨(hmore.owners w).trans h₁,fun t' he => h₂ t' (hmore.entering t' w he)⟩
  counted p hp := by
    rw [hsum p,hmore.owners,hmore.debt]
    exact h.counted p (hstage p hp)
  dead p hp := hmore.dead (hfreed p hp)
  asserts := hasserts

structure SameMemory (s s' : State) : Prop where
  heap : s'.heap = s.heap
  nextPointee : s'.nextPointee = s.nextPointee
  counters : s'.counters = s.counters
  live : s'.live = s.live
  cells : s'.cells = s.cells
  threads : s'.threads = s.threads
  records : s'.records = s.records
  recordCount : s'.recordCount = s.recordCount
  assertionFailed : s'.assertionFailed = s.assertionFailed

theorem SameMemory.view (h : SameMemory s s') (p : Nat) : s'.view cfg p = s.view cfg p := by
  simp only [State.view,State.counter,State.owners,State.debt,State.linked,State.load,h.heap,
    h.nextPointee,h.counters,h.live,h.cells,h.threads]

theorem SameMemory.resume (it : Iter) (key : Nat) (result : UpdateResult) :
    SameMemory s (s.resume it key result) := by
  cases result <;> constructor <;> rfl

theorem Handles.of_pcs (h : Handles cfg s) (hcells : s'.cells = s.cells)
    (hlive : s'.live = s.live)
    (hpc : ∀ t, (s'.threads t).pc = (s.threads t).pc ∨ (s'.threads t).pc = .idle) :
    Handles cfg s' where
  cells := hcells ▸ h.cells
  threads t ht := (hpc t).elim (fun heq => heq.trans (h.threads t ht)) id
  pins t p hp := by
    rw [hlive]
    rcases hpc t with heq | heq
    · exact h.pins t p (heq ▸ hp)
    · rw [heq] at hp
      exact hp.elim
  shards t p shard value hp := by
    rcases hpc t with heq | heq
    · exact h.shards t p shard value (heq ▸ hp)
    · rw [heq] at hp
      contradiction

structure SameLinks (s s' : State) : Prop where
  threads : s'.threads = s.threads
  cells : s'.cells = s.cells
  live : s'.live = s.live
  nextPointee : s'.nextPointee = s.nextPointee
  ptr : ∀ p, (s'.heap p).ptr = (s.heap p).ptr
  weakInnerRef : ∀ p, (s'.heap p).weakInnerRef = (s.heap p).weakInnerRef
  data : ∀ p, (s'.heap p).data = (s.heap p).data

theorem SameLinks.of_setInner {p : Nat} {x : SdarcInner} (hthreads : s'.threads = s.threads)
    (hcells : s'.cells = s.cells) (hlive : s'.live = s.live)
    (hnext : s'.nextPointee = s.nextPointee) (hheap : s'.heap = Function.update s.heap p x)
    (hptr : x.ptr = (s.heap p).ptr) (hlock : x.weakInnerRef = (s.heap p).weakInnerRef)
    (hdata : x.data = (s.heap p).data) : SameLinks s s' where
  threads := hthreads
  cells := hcells
  live := hlive
  nextPointee := hnext
  ptr q := by rw [hheap,field_update SdarcInner.ptr hptr q]
  weakInnerRef q := by rw [hheap,field_update SdarcInner.weakInnerRef hlock q]
  data q := by rw [hheap,field_update SdarcInner.data hdata q]

theorem SameLinks.linked (h : SameLinks s s') (p : Nat) : s'.linked p ↔ s.linked p := by
  simp only [State.linked,State.load,h.weakInnerRef,h.data]

theorem SameLinks.noMore (h : SameLinks s s') : NoMore cfg s s' where
  owners p := by
    have hweak : weakIn s'.heap s.nextPointee p = weakIn s.heap s.nextPointee p :=
      weakIn_congr (fun q _ w => by rw [h.weakInnerRef]) p
    simp only [State.owners,h.cells,h.live,h.threads,h.nextPointee,hweak]
  debt p := by simp only [State.debt,h.threads]
  linked p := (h.linked p).mp
  record t := by rw [h.threads]
  guards t := by rw [h.threads]
  entering t p := by
    rw [h.threads]
    exact id
  makes t p w := by
    rw [h.threads]
    exact id

theorem Referenced.of_links (h : Referenced rule cfg s) (hs : SameLinks s s')
    (hrecords : s'.records = s.records) (hcount : s'.recordCount = s.recordCount)
    (hasserts : s'.assertionFailed = s.assertionFailed)
    (hsum : ∀ p, s'.sum cfg p = s.sum cfg p)
    (hstage : ∀ p, (s'.heap p).stage = .allocated → (s.heap p).stage = .allocated)
    (hfreed : ∀ p, (s'.heap p).stage ≠ .allocated → (s.view cfg p).Dead) :
    Referenced rule cfg s' := by
  refine h.of_counts hs.noMore (h.records.of_same (fun t => ?_) hrecords hcount
    (fun p _ => hs.ptr p) hs.nextPointee.ge)
    (h.handles.of_pcs hs.cells hs.live (fun t => .inl (by rw [hs.threads])))
    (h.weak.of_same_pc hs.weakInnerRef hs.data hs.nextPointee (fun t => by rw [hs.threads]))
    (hasserts.trans h.asserts) hsum hstage hfreed
  rw [hs.threads]
  exact .refl _

theorem SameMemory.links (h : SameMemory s s') : SameLinks s s' :=
  ⟨h.threads,h.cells,h.live,h.nextPointee,fun p => by rw [h.heap],fun p => by rw [h.heap],
    fun p => by rw [h.heap]⟩

theorem SameMemory.references (h : Referenced rule cfg s) (hs : SameMemory s s') :
    Referenced rule cfg s' := by
  refine h.of_links hs.links hs.records hs.recordCount hs.assertionFailed (fun p => ?_)
    (fun p => by rw [hs.heap]; exact id) (fun p hp => h.dead p (by rwa [hs.heap] at hp))
  simp only [State.sum,State.counter,hs.heap,hs.counters]

end Same

section Collector

variable {rule : Int → Nat → Nat → Prop} {cfg : Config} {s s' : State}

theorem sum_clearTag (key k p : Nat) :
    (s.setCounter key k (s.counters key k).clearTag).sum cfg p = s.sum cfg p := by
  refine Finset.sum_congr rfl (fun i _ => ?_)
  change ((s.setCounter key k _).counters (s.heap p).countersPtr i).refCount = _
  rw [counters_setCounter]
  split
  · rename_i h
    obtain ⟨hk,rfl⟩ := h
    simp [Counter.clearTag,State.counter,hk]
  · rfl

theorem Weak.clear {w origin p q : Nat} (h : Weak s)
    (hw : (s.heap q).weakInnerRef = .initialized w)
    (hdata : (s.heap w).data = .weakSdarcInner origin (some p))
    (halone : ∀ t, ¬ (s.threads t).pc.makes p w) :
    Weak (s.setInner w { s.heap w with data := .weakSdarcInner origin none }) := by
  have hlock : ∀ x, ((s.setInner w { s.heap w with
      data := .weakSdarcInner origin none }).heap x).weakInnerRef =
        (s.heap x).weakInnerRef := field_update SdarcInner.weakInnerRef rfl
  have hof : ∀ x y, (s.setInner w { s.heap w with
      data := .weakSdarcInner origin none }).weakInnerOf x y ↔ s.weakInnerOf x y := by
    intro x y
    by_cases hx : x = w
    · subst hx
      simp [State.weakInnerOf,hdata]
    · simp [State.weakInnerOf,hx]
  have hweak : ∀ x, (s.setInner w { s.heap w with
      data := .weakSdarcInner origin none }).isWeakSdarcInner x = s.isWeakSdarcInner x := by
    intro x
    by_cases hx : x = w
    · subst hx
      simp [State.isWeakSdarcInner,hdata]
    · simp [State.isWeakSdarcInner,hx]
  have hborn := h.weakInner_born (h.initialized q w hw)
  constructor
  · intro x hx
    change s.nextPointee ≤ x at hx
    have hxw : x ≠ w := by omega
    simpa [hxw] using h.fresh x hx
  · intro x w' hx
    rw [hlock] at hx
    exact (hof w' x).mpr (h.initialized x w' hx)
  · intro x o y hx
    have hxw : x ≠ w := by
      rintro rfl
      simp at hx
    rw [hlock,hweak]
    exact h.backRef x o y (by simpa [hxw] using hx)
  · intro x hx
    rw [hlock]
    exact h.leaf x (hweak x ▸ hx)
  · intro t x hx
    rw [hlock]
    exact h.running t x hx
  · intro t x w' hx
    have hne : w' ≠ w := by
      rintro rfl
      have hmade := h.made t x w' hx
      rw [hdata] at hmade
      obtain ⟨-,rfl⟩ : origin = x ∧ p = x := by simpa using hmade
      exact halone t hx
    simpa [hne] using h.made t x w' hx
  · intro t x w' hx
    rw [hlock]
    exact h.cloned t x w' hx
  · intro t x hx
    rw [hweak]
    exact h.downgraded t x hx
  · intro t w' x hx
    exact (hof w' x).mpr (h.origin t w' x hx)

theorem NoMore.clear {w origin : Nat} {backRef : Option Nat}
    (hdata : (s.heap w).data = .weakSdarcInner origin backRef) :
    NoMore cfg s (s.setInner w { s.heap w with data := .weakSdarcInner origin none }) where
  owners x := by
    have hweak := weakIn_same s.heap w s.nextPointee
      { s.heap w with data := .weakSdarcInner origin none } rfl x
    simp only [State.owners,State.setInner,hweak]
  debt _ := rfl
  linked x := by
    rintro ⟨v,hv,hload⟩
    rw [load_backRef] at hload
    refine ⟨v,?_,?_⟩
    · by_cases hx : x = w
      · subst hx
        simpa using hv
      · simpa [hx] using hv
    · rw [load_backRef]
      by_cases hvw : v = w
      · subst hvw
        simp at hload
      · simpa [hvw] using hload
  record _ := rfl
  guards _ := rfl
  entering _ _ := id
  makes _ _ _ := id

theorem Referenced.clear {w origin p q : Nat} (h : Referenced rule cfg s)
    (hw : (s.heap q).weakInnerRef = .initialized w)
    (hdata : (s.heap w).data = .weakSdarcInner origin (some p)) :
    Referenced rule cfg (s.setInner w { s.heap w with data := .weakSdarcInner origin none }) := by
  have hstage : ∀ x, ((s.setInner w { s.heap w with
      data := .weakSdarcInner origin none }).heap x).stage = (s.heap x).stage :=
    field_update SdarcInner.stage rfl
  refine h.of_counts (.clear hdata)
    (h.records.of_same (fun t => .refl _) rfl rfl (fun x _ => ?_) le_rfl)
    (h.handles.of_pcs rfl rfl (fun _ => .inl rfl))
    (h.weak.clear hw hdata (fun t hm => h.not_initialized_of_makes hm hw)) h.asserts
    (fun x => ?_) (fun x hx => hstage x ▸ hx) (fun x hx => h.dead x (hstage x ▸ hx))
  · exact field_update SdarcInner.ptr (by rfl) x
  · have hptr : ((s.setInner w { s.heap w with
        data := .weakSdarcInner origin none }).heap x).countersPtr =
          (s.heap x).countersPtr := field_update SdarcInner.countersPtr (by rfl) x
    simp only [State.sum,State.counter,hptr]
    rfl

theorem Weak.unset {p w : Nat} {lock : OnceLock} (h : Weak s)
    (hset : (s.heap p).weakInnerRef = .initialized w) (hlock : lock = .uninit)
    (hlinked : ¬ s.linked p) (hpins : ∀ t, ¬ (s.threads t).pc.pins p)
    (hheap : s'.heap = Function.update s.heap p { s.heap p with weakInnerRef := lock })
    (hnext : s'.nextPointee = s.nextPointee)
    (hothers : ∀ t, t ≠ 0 → s'.threads t = s.threads t)
    (hidle : (s.threads 0).pc = .idle) (hpc : (s'.threads 0).pc = .drop w) : Weak s' := by
  have hp := h.born (p := p) (by rw [hset]; simp)
  have hdata := data_of_lock hheap
  have hweak := isWeakSdarcInner_of_data hdata
  have hof := weakInnerOf_of_data hdata
  have hat : (s'.heap p).weakInnerRef = .uninit := by simp [hheap,hlock]
  have hother : ∀ q, q ≠ p → (s'.heap q).weakInnerRef = (s.heap q).weakInnerRef :=
    fun q hq => by simp [hheap,hq]
  have hpcs : ∀ t, (s'.threads t).pc = (s.threads t).pc ∨ (s'.threads t).pc = .drop w := by
    intro t
    by_cases ht : t = 0
    · exact .inr (ht ▸ hpc)
    · exact .inl (by rw [hothers t ht])
  have hpinned : ∀ t q, (s.threads t).pc.initializes q → q ≠ p := by
    rintro t q hq rfl
    refine hpins t ?_
    cases hpc : (s.threads t).pc <;> simp_all [ThreadPc.initializes,ThreadPc.pins]
  constructor
  · intro q hq
    rw [hdata,hother q (by omega)]
    exact h.fresh q (by omega)
  · intro q v hq
    have hqp : q ≠ p := by
      rintro rfl
      rw [hat] at hq
      contradiction
    exact (hof v q).mpr (h.initialized q v (hother q hqp ▸ hq))
  · intro v o q hv
    rw [hdata] at hv
    obtain ⟨h₁,h₂,h₃⟩ := h.backRef v o q hv
    refine ⟨h₁,by rw [hweak]; exact h₂,?_⟩
    rcases h₃ with hi | ⟨t,ht⟩
    · have hqp : q ≠ p := by
        rintro rfl
        exact hlinked ⟨v,hi,load_backRef.mpr ⟨o,hv⟩⟩
      exact .inl (by rw [hother q hqp]; exact hi)
    · refine .inr ⟨t,?_⟩
      have ht0 : t ≠ 0 := by
        rintro rfl
        simp [hidle,ThreadPc.makes] at ht
      rwa [hothers t ht0]
  · intro v hv
    by_cases hvp : v = p
    · exact hvp ▸ hat
    · rw [hother v hvp]
      exact h.leaf v (hweak v ▸ hv)
  · intro t q hq
    rcases hpcs t with heq | heq <;> rw [heq] at hq
    · rw [hother q (hpinned t q hq)]
      exact h.running t q hq
    · exact hq.elim
  · intro t q v hq
    rw [hdata]
    rcases hpcs t with heq | heq <;> rw [heq] at hq
    · exact h.made t q v hq
    · exact hq.elim
  · intro t q v hq
    rcases hpcs t with heq | heq <;> rw [heq] at hq
    · have hqp : q ≠ p := by
        rintro rfl
        exact hpins t (by simp [hq,ThreadPc.pins])
      rw [hother q hqp]
      exact h.cloned t q v hq
    · contradiction
  · intro t q hq
    rw [hweak]
    rcases hpcs t with heq | heq <;> rw [heq] at hq
    · exact h.downgraded t q hq
    · exact hq.elim
  · intro t v q hq
    rw [hof]
    rcases hpcs t with heq | heq <;> rw [heq] at hq
    · exact h.origin t v q hq
    · exact hq.elim

theorem NoMore.unset {p w : Nat} (hp : p < s.nextPointee)
    (hset : (s.heap p).weakInnerRef = .initialized w) (hidle : (s.threads 0).pc = .idle) :
    NoMore cfg s
      ((s.setInner p { s.heap p with weakInnerRef := .uninit }).setPc 0 (.drop w)) where
  owners x := by
    have h₁ := ownedIn_change (q := x) s (s.setPc 0 (.drop w)) cfg.threads_pos
      (fun t ht => by simp [ht])
    have h₂ := weakIn_update s.heap hp { s.heap p with weakInnerRef := .uninit } x
    simp only [hidle,hset,ThreadPc.owned,State.setPc,Function.update_self,
      OnceLock.initialized.injEq,reduceCtorEq,if_false] at h₁ h₂
    simp only [State.owners,State.setPc,State.setInner]
    omega
  debt x := by
    have h₁ := owedIn_change (q := x) s (s.setPc 0 (.drop w)) cfg.threads_pos
      (fun t ht => by simp [ht])
    simpa [hidle,ThreadPc.owes,State.debt] using h₁
  linked x := by
    rintro ⟨v,hv,hload⟩
    have hxp : x ≠ p := by
      rintro rfl
      simp at hv
    refine ⟨v,by simpa [hxp] using hv,?_⟩
    rw [load_backRef] at hload ⊢
    by_cases hvp : v = p <;> simpa [hvp] using hload
  record t := by by_cases ht : t = 0 <;> simp [ht]
  guards t := by by_cases ht : t = 0 <;> simp [ht]
  entering t x := by by_cases ht : t = 0 <;> simp [ht,ThreadPc.entering]
  makes t x y := by by_cases ht : t = 0 <;> simp [ht,ThreadPc.makes]

theorem Referenced.unset {p w : Nat} (h : Referenced rule cfg s)
    (hset : (s.heap p).weakInnerRef = .initialized w) (hdead : (s.heap p).stage ≠ .allocated)
    (hidle : (s.threads 0).pc = .idle) :
    Referenced rule cfg
      ((s.setInner p { s.heap p with weakInnerRef := .uninit }).setPc 0 (.drop w)) := by
  have hpins : ∀ t, ¬ (s.threads t).pc.pins p :=
    fun t ht => hdead (h.allocated_of_pinned ht)
  have hstage : ∀ x, (((s.setInner p { s.heap p with
      weakInnerRef := .uninit }).setPc 0 (.drop w)).heap x).stage = (s.heap x).stage :=
    field_update SdarcInner.stage rfl
  refine h.of_counts (.unset (h.weak.born (by rw [hset]; simp)) hset hidle)
    (h.records.of_same (fun t => ?_) rfl rfl (fun x _ => ?_) le_rfl) ?_
    (h.weak.unset hset rfl (h.dead p hdead).source hpins rfl rfl (fun t ht => by simp [ht])
      hidle (by simp)) h.asserts (fun x => ?_)
    (fun x hx => hstage x ▸ hx) (fun x hx => h.dead x (hstage x ▸ hx))
  · by_cases ht : t = 0
    · subst ht
      constructor <;> simp [hidle,ThreadPc.inSection,ThreadPc.slot]
    · simp [ht,SameRecord.refl]
  · exact field_update SdarcInner.ptr (by rfl) x
  · constructor
    · exact h.handles.cells
    · intro t ht
      have hpos := cfg.threads_pos
      simpa [show t ≠ 0 by omega] using h.handles.threads t ht
    · intro t x hx
      by_cases ht : t = 0
      · simp [ht,ThreadPc.pins] at hx
      · exact h.handles.pins t x (by simpa [ht] using hx)
    · intro t x shard value hx
      by_cases ht : t = 0
      · simp [ht] at hx
      · exact h.handles.shards t x shard value (by simpa [ht] using hx)
  · have hptr : (((s.setInner p { s.heap p with
        weakInnerRef := .uninit }).setPc 0 (.drop w)).heap x).countersPtr =
          (s.heap x).countersPtr := field_update SdarcInner.countersPtr (by rfl) x
    simp only [State.sum,State.counter,hptr]
    rfl

theorem waiting_woken (s : State) (t : Nat) :
    (s.endOuterIteration.threads t).record = (s.threads t).record ∧
      (s.endOuterIteration.threads t).guards = (s.threads t).guards ∧
      ((s.endOuterIteration.threads t).pc = (s.threads t).pc ∨
        (s.threads t).pc = .waiting ∧ (s.endOuterIteration.threads t).pc = .idle) := by
  simp only [State.endOuterIteration]
  split
  · rename_i h
    exact ⟨rfl,rfl,.inr ⟨h.2,rfl⟩⟩
  · exact ⟨rfl,rfl,.inl rfl⟩

theorem NoMore.endOuterIteration (s : State) : NoMore cfg s s.endOuterIteration where
  owners p := by
    have howned : ownedIn s.endOuterIteration.threads cfg.threads p =
        ownedIn s.threads cfg.threads p := by
      refine Finset.sum_congr rfl (fun t _ => ?_)
      obtain ⟨-,-,heq | ⟨h₁,h₂⟩⟩ := waiting_woken s t
      · rw [heq]
      · rw [h₁,h₂]
        rfl
    change s.live p + cellsIn s.cells cfg.cells p + _ + weakIn s.heap s.nextPointee p = _
    rw [howned]
    rfl
  debt p := by
    unfold State.debt owedIn
    refine Finset.sum_congr rfl (fun t _ => ?_)
    obtain ⟨-,-,heq | ⟨h₁,h₂⟩⟩ := waiting_woken s t
    · rw [heq]
    · rw [h₁,h₂]
      rfl
  linked _ := id
  record t := (waiting_woken s t).1
  guards t := (waiting_woken s t).2.1
  entering t p he := by
    obtain ⟨-,-,heq | ⟨h₁,h₂⟩⟩ := waiting_woken s t
    · exact heq ▸ he
    · rw [h₂] at he
      exact he.elim
  makes t p w hm := by
    obtain ⟨-,-,heq | ⟨h₁,h₂⟩⟩ := waiting_woken s t
    · exact heq ▸ hm
    · rw [h₂] at hm
      exact hm.elim

theorem Referenced.endOuterIteration (h : Referenced rule cfg s) :
    Referenced rule cfg s.endOuterIteration := by
  have hpc : ∀ t, (s.endOuterIteration.threads t).pc = (s.threads t).pc ∨
      (s.endOuterIteration.threads t).pc = .idle :=
    fun t => (waiting_woken s t).2.2.imp id And.right
  refine h.of_counts (.endOuterIteration s)
    (h.records.of_same (fun t => ?_) rfl rfl (fun _ _ => rfl) le_rfl)
    (h.handles.of_pcs rfl rfl hpc)
    (h.weak.of_threads (fun _ => rfl) (fun _ => rfl) rfl (fun t p => ?_) (fun t p w => ?_)
      (fun t p w => ?_) (fun t p => ?_) (fun t w p => ?_))
    h.asserts (fun _ => rfl) (fun _ => id) h.dead
  · obtain ⟨h₁,h₂,heq | ⟨h₃,h₄⟩⟩ := waiting_woken s t
    · exact ⟨h₁,h₂,by rw [heq],by rw [heq],fun src j a hp => heq ▸ hp⟩
    · refine ⟨h₁,h₂,?_,?_,fun src j address hp => ?_⟩
      · rw [h₃,h₄]
        exact Iff.rfl
      · rw [h₃,h₄]
        rfl
      · rw [h₄] at hp
        contradiction
  · obtain ⟨-,-,heq | ⟨-,h₄⟩⟩ := waiting_woken s t
    · rw [heq]
      exact id
    · rw [h₄]
      exact False.elim
  · obtain ⟨-,-,heq | ⟨h₃,h₄⟩⟩ := waiting_woken s t
    · rw [heq]
    · rw [h₃,h₄]
      rfl
  · obtain ⟨-,-,heq | ⟨-,h₄⟩⟩ := waiting_woken s t
    · rw [heq]
      exact h.weak.cloned t p w
    · rw [h₄]
      simp
  · obtain ⟨-,-,heq | ⟨-,h₄⟩⟩ := waiting_woken s t
    · rw [heq]
      exact h.weak.downgraded t p
    · rw [h₄]
      exact False.elim
  · obtain ⟨-,-,heq | ⟨-,h₄⟩⟩ := waiting_woken s t
    · rw [heq]
      exact h.weak.origin t w p
    · rw [h₄]
      exact False.elim

end Collector

end Sdarc.System
