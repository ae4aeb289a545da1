import Sdarc.System.Accounting
set_option autoImplicit false

/-!
A pointee and its `WeakSdarcInner`: who may set the `OnceLock` and what the two point at.
-/

namespace Sdarc.System
open Transition

namespace ThreadPc

def initializes (p : Nat) : ThreadPc → Prop
  | .newWeakInner q => q = p
  | .registerWeakInner q _ => q = p
  | .setWeakInner q _ => q = p
  | _ => False

/-- The thread has allocated `w` as the `WeakSdarcInner` of `p` and not yet set it. -/
def makes (p w : Nat) : ThreadPc → Prop
  | .registerWeakInner q x => q = p ∧ x = w
  | .setWeakInner q x => q = p ∧ x = w
  | _ => False

def downgrades (p : Nat) : ThreadPc → Prop
  | .getOrInit q => q = p
  | .newWeakInner q => q = p
  | _ => False

def upgrades (w p : Nat) : ThreadPc → Prop
  | .loadIncrement src _ q => src = .backRef w ∧ q = p
  | .loadLeave src _ result => src = .backRef w ∧ result = some p
  | _ => False

theorem makes_initializes {p w : Nat} {pc : ThreadPc} (h : pc.makes p w) :
    pc.initializes p := by
  cases pc <;> simp_all [makes,initializes]

theorem makes_owned {p w : Nat} {pc : ThreadPc} (h : pc.makes p w) : pc.owned w = 1 := by
  cases pc <;> simp_all [makes,owned]

end ThreadPc

def State.weakInnerOf (s : State) (w p : Nat) : Prop :=
  ∃ backRef, (s.heap w).data = .weakSdarcInner p backRef

def State.linked (s : State) (p : Nat) : Prop :=
  ∃ w, (s.heap p).weakInnerRef = .initialized w ∧ s.load (.backRef w) = some p

structure Weak (s : State) : Prop where
  fresh : ∀ p, s.nextPointee ≤ p →
    (s.heap p).weakInnerRef = .uninit ∧ (s.heap p).data = .user []
  initialized : ∀ p w, (s.heap p).weakInnerRef = .initialized w → s.weakInnerOf w p
  backRef : ∀ w o p, (s.heap w).data = .weakSdarcInner o (some p) →
    o = p ∧ s.isWeakSdarcInner p = false ∧
    ((s.heap p).weakInnerRef = .initialized w ∨ ∃ t, (s.threads t).pc.makes p w)
  leaf : ∀ w, s.isWeakSdarcInner w = true → (s.heap w).weakInnerRef = .uninit
  running : ∀ t p, (s.threads t).pc.initializes p → (s.heap p).weakInnerRef = .running t
  made : ∀ t p w, (s.threads t).pc.makes p w →
    (s.heap w).data = .weakSdarcInner p (some p)
  cloned : ∀ t p w, (s.threads t).pc = .cloneWeakInner p w →
    (s.heap p).weakInnerRef = .initialized w
  downgraded : ∀ t p, (s.threads t).pc.downgrades p → s.isWeakSdarcInner p = false
  origin : ∀ t w p, (s.threads t).pc.upgrades w p → s.weakInnerOf w p

section Reading

variable {cfg : Config} {s : State} {t : Nat}

theorem load_backRef {w p : Nat} :
    s.load (.backRef w) = some p ↔ ∃ o, (s.heap w).data = .weakSdarcInner o (some p) := by
  simp only [State.load]
  cases hd : (s.heap w).data <;> simp

theorem Weak.load_origin {w p : Nat} (h : Weak s) (hload : s.load (.backRef w) = some p) :
    s.weakInnerOf w p := by
  obtain ⟨o,ho⟩ := load_backRef.mp hload
  obtain ⟨rfl,-⟩ := h.backRef w o p ho
  exact ⟨some o,ho⟩

theorem Weak.born {p : Nat} (h : Weak s) (hp : (s.heap p).weakInnerRef ≠ .uninit) :
    p < s.nextPointee := by
  by_contra hge
  exact hp (h.fresh p (by omega)).1

theorem Weak.weakInner_born {w p : Nat} (h : Weak s) (hw : s.weakInnerOf w p) :
    w < s.nextPointee := by
  by_contra hge
  obtain ⟨b,hb⟩ := hw
  rw [(h.fresh w (by omega)).2] at hb
  contradiction

end Reading

section Steps

variable {cfg : Config} {s s' : State} {t : Nat}

theorem isWeakSdarcInner_of_data (hdata : ∀ p, (s'.heap p).data = (s.heap p).data) (p : Nat) :
    s'.isWeakSdarcInner p = s.isWeakSdarcInner p := by
  rw [State.isWeakSdarcInner,State.isWeakSdarcInner,hdata]

theorem weakInnerOf_of_data (hdata : ∀ p, (s'.heap p).data = (s.heap p).data) (w p : Nat) :
    s'.weakInnerOf w p ↔ s.weakInnerOf w p := by
  rw [State.weakInnerOf,State.weakInnerOf,hdata]

theorem data_of_lock {p : Nat} {lock : OnceLock}
    (hheap : s'.heap = Function.update s.heap p { s.heap p with weakInnerRef := lock }) (q : Nat) :
    (s'.heap q).data = (s.heap q).data := by
  rw [hheap]
  exact field_update SdarcInner.data (by rfl) q

theorem Weak.of_threads (h : Weak s)
    (hlock : ∀ p, (s'.heap p).weakInnerRef = (s.heap p).weakInnerRef)
    (hdata : ∀ p, (s'.heap p).data = (s.heap p).data)
    (hnext : s'.nextPointee = s.nextPointee)
    (hinit : ∀ t p, (s'.threads t).pc.initializes p → (s.threads t).pc.initializes p)
    (hmakes : ∀ t p w, (s'.threads t).pc.makes p w ↔ (s.threads t).pc.makes p w)
    (hcloned : ∀ t p w, (s'.threads t).pc = .cloneWeakInner p w →
      (s.heap p).weakInnerRef = .initialized w)
    (hdowngraded : ∀ t p, (s'.threads t).pc.downgrades p → s.isWeakSdarcInner p = false)
    (horigin : ∀ t w p, (s'.threads t).pc.upgrades w p → s.weakInnerOf w p) : Weak s' := by
  have hweak := isWeakSdarcInner_of_data hdata
  have hof := weakInnerOf_of_data hdata
  constructor
  · intro p hp
    rw [hlock,hdata]
    exact h.fresh p (hnext ▸ hp)
  · intro p w hp
    rw [hlock] at hp
    exact (hof w p).mpr (h.initialized p w hp)
  · intro w o p hw
    rw [hdata] at hw
    rw [hlock]
    simpa only [hweak,hmakes] using h.backRef w o p hw
  · intro w hw
    rw [hlock]
    exact h.leaf w (hweak w ▸ hw)
  · intro t p hp
    rw [hlock]
    exact h.running t p (hinit t p hp)
  · intro t p w hp
    rw [hdata]
    exact h.made t p w ((hmakes t p w).mp hp)
  · intro t p w hp
    rw [hlock]
    exact hcloned t p w hp
  · intro t p hp
    rw [hweak]
    exact hdowngraded t p hp
  · intro t w p hp
    exact (hof w p).mpr (horigin t w p hp)

theorem Weak.of_pc (h : Weak s) (hheap : s'.heap = s.heap)
    (hnext : s'.nextPointee = s.nextPointee)
    (hothers : ∀ t', t' ≠ t → s'.threads t' = s.threads t')
    (hinit : ∀ p, (s'.threads t).pc.initializes p → (s.threads t).pc.initializes p)
    (hmakes : ∀ p w, (s'.threads t).pc.makes p w ↔ (s.threads t).pc.makes p w)
    (hcloned : ∀ p w, (s'.threads t).pc = .cloneWeakInner p w →
      (s.heap p).weakInnerRef = .initialized w)
    (hdowngraded : ∀ p, (s'.threads t).pc.downgrades p → s.isWeakSdarcInner p = false)
    (horigin : ∀ w p, (s'.threads t).pc.upgrades w p → s.weakInnerOf w p) : Weak s' := by
  refine h.of_threads (fun _ => by rw [hheap]) (fun _ => by rw [hheap]) hnext (fun t' => ?_)
    (fun t' => ?_) (fun t' => ?_) (fun t' => ?_) (fun t' => ?_) <;> by_cases ht : t' = t
  · exact ht ▸ hinit
  · exact hothers t' ht ▸ fun _ hp => hp
  · exact ht ▸ hmakes
  · exact hothers t' ht ▸ fun _ _ => Iff.rfl
  · exact ht ▸ hcloned
  · exact hothers t' ht ▸ h.cloned t'
  · exact ht ▸ hdowngraded
  · exact hothers t' ht ▸ h.downgraded t'
  · exact ht ▸ horigin
  · exact hothers t' ht ▸ h.origin t'

theorem Weak.of_same_pc (h : Weak s)
    (hlock : ∀ p, (s'.heap p).weakInnerRef = (s.heap p).weakInnerRef)
    (hdata : ∀ p, (s'.heap p).data = (s.heap p).data)
    (hnext : s'.nextPointee = s.nextPointee)
    (hpc : ∀ t, (s'.threads t).pc = (s.threads t).pc) : Weak s' := by
  refine h.of_threads hlock hdata hnext (fun t => ?_) (fun t => ?_) (fun t => ?_) (fun t => ?_)
    (fun t => ?_) <;> rw [hpc t]
  · exact fun _ hp => hp
  · exact fun _ _ => Iff.rfl
  · exact h.cloned t
  · exact h.downgraded t
  · exact h.origin t

theorem Weak.of_newborn {x : SdarcInner} (h : Weak s)
    (hheap : s'.heap = Function.update s.heap s.nextPointee x)
    (hnext : s'.nextPointee = s.nextPointee + 1) (hx : x.weakInnerRef = .uninit)
    (hothers : ∀ t', t' ≠ t → s'.threads t' = s.threads t')
    (hdata : ∀ o p, x.data = .weakSdarcInner o (some p) → o = p ∧ p < s.nextPointee ∧
      s.isWeakSdarcInner p = false ∧ (s'.threads t).pc.makes p s.nextPointee)
    (hinit : ∀ p, (s'.threads t).pc.initializes p → (s.threads t).pc.initializes p)
    (hmakes : ∀ p w, (s'.threads t).pc.makes p w →
      w = s.nextPointee ∧ x.data = .weakSdarcInner p (some p))
    (hold : ∀ p w, ¬ (s.threads t).pc.makes p w)
    (hcloned : ∀ p w, (s'.threads t).pc ≠ .cloneWeakInner p w)
    (hdowngraded : ∀ p, ¬ (s'.threads t).pc.downgrades p)
    (hupgrades : ∀ w p, ¬ (s'.threads t).pc.upgrades w p)
    (hborn : ∀ t p, (s.threads t).pc.downgrades p → p < s.nextPointee) : Weak s' := by
  have hother : ∀ p, p < s.nextPointee → s'.heap p = s.heap p := by
    intro p hp
    rw [hheap,Function.update_of_ne hp.ne]
  have hnew : s'.heap s.nextPointee = x := by rw [hheap,Function.update_self]
  have hset : ∀ p, (s'.heap p).weakInnerRef ≠ .uninit → p < s.nextPointee ∧
      s'.heap p = s.heap p := by
    intro p hp
    by_cases hpn : p = s.nextPointee
    · subst hpn
      rw [hnew] at hp
      contradiction
    · have heq : s'.heap p = s.heap p := by rw [hheap,Function.update_of_ne hpn]
      rw [heq] at hp
      exact ⟨h.born hp,heq⟩
  have hof : ∀ w p, s.weakInnerOf w p → s'.weakInnerOf w p := by
    intro w p hw
    unfold State.weakInnerOf
    rw [hother w (h.weakInner_born hw)]
    exact hw
  have hnot : ∀ p, p < s.nextPointee → s'.isWeakSdarcInner p = s.isWeakSdarcInner p := by
    intro p hp
    unfold State.isWeakSdarcInner
    rw [hother p hp]
  constructor
  · intro p hp
    rw [hheap,Function.update_of_ne (by omega)]
    exact h.fresh p (by omega)
  · intro p w hp
    obtain ⟨hlt,heq⟩ := hset p (by rw [hp]; simp)
    rw [heq] at hp
    exact hof w p (h.initialized p w hp)
  · intro w o p hw
    by_cases hwn : w = s.nextPointee
    · subst hwn
      rw [hnew] at hw
      obtain ⟨h₁,h₂,h₃,h₄⟩ := hdata o p hw
      exact ⟨h₁,by rw [hnot p h₂]; exact h₃,.inr ⟨t,h₄⟩⟩
    · rw [hheap,Function.update_of_ne hwn] at hw
      obtain ⟨h₁,h₂,h₃⟩ := h.backRef w o p hw
      have hp : p < s.nextPointee := by
        rcases h₃ with hi | ⟨t',ht'⟩
        · exact h.born (by rw [hi]; simp)
        · refine h.born ?_
          rw [h.running t' p (ThreadPc.makes_initializes ht')]
          simp
      refine ⟨h₁,by rw [hnot p hp]; exact h₂,?_⟩
      rcases h₃ with hi | ⟨t',ht'⟩
      · exact .inl (by rw [hother p hp]; exact hi)
      · refine .inr ⟨t',?_⟩
        by_cases htt : t' = t
        · subst htt
          exact absurd ht' (hold p w)
        · rwa [hothers t' htt]
  · intro w hw
    by_cases hwn : w = s.nextPointee
    · rw [hwn,hnew]
      exact hx
    · have heq : s'.heap w = s.heap w := by rw [hheap,Function.update_of_ne hwn]
      rw [heq]
      refine h.leaf w ?_
      unfold State.isWeakSdarcInner at hw ⊢
      rwa [heq] at hw
  · intro t' p hp
    have hold : (s.threads t').pc.initializes p := by
      by_cases htt : t' = t
      · subst htt
        exact hinit p hp
      · rwa [hothers t' htt] at hp
    have hrun := h.running t' p hold
    rw [hother p (h.born (by rw [hrun]; simp))]
    exact hrun
  · intro t' p w hp
    by_cases htt : t' = t
    · subst htt
      obtain ⟨rfl,hxd⟩ := hmakes p w hp
      rw [hnew]
      exact hxd
    · rw [hothers t' htt] at hp
      have hmade := h.made t' p w hp
      rw [hother w (h.weakInner_born ⟨_,hmade⟩)]
      exact hmade
  · intro t' p w hp
    by_cases htt : t' = t
    · subst htt
      exact absurd hp (hcloned p w)
    · rw [hothers t' htt] at hp
      have hc := h.cloned t' p w hp
      rw [hother p (h.born (by rw [hc]; simp))]
      exact hc
  · intro t' p hp
    by_cases htt : t' = t
    · subst htt
      exact absurd hp (hdowngraded p)
    · rw [hothers t' htt] at hp
      rw [hnot p (hborn t' p hp)]
      exact h.downgraded t' p hp
  · intro t' w p hp
    by_cases htt : t' = t
    · subst htt
      exact absurd hp (hupgrades w p)
    · rw [hothers t' htt] at hp
      exact hof w p (h.origin t' w p hp)

theorem Weak.of_lock {p : Nat} (h : Weak s) (lock : OnceLock) (hp : p < s.nextPointee)
    (huser : s.isWeakSdarcInner p = false)
    (hnot : ∀ w, (s.heap p).weakInnerRef ≠ .initialized w)
    (hheap : s'.heap = Function.update s.heap p { s.heap p with weakInnerRef := lock })
    (hnext : s'.nextPointee = s.nextPointee)
    (hothers : ∀ t', t' ≠ t → s'.threads t' = s.threads t')
    (hlock : ∀ w, lock = .initialized w → s.weakInnerOf w p)
    (hfree : ∀ t', t' ≠ t → ¬ (s.threads t').pc.initializes p)
    (hinit : ∀ q, (s'.threads t).pc.initializes q → q = p ∧ lock = .running t)
    (hold : ∀ q w, (s.threads t).pc.makes q w → q = p ∧ lock = .initialized w)
    (hmakes : ∀ q w, ¬ (s'.threads t).pc.makes q w)
    (hcloned : ∀ q w, (s'.threads t).pc = .cloneWeakInner q w →
      q = p ∧ lock = .initialized w)
    (hdowngraded : ∀ q, (s'.threads t).pc.downgrades q → q = p)
    (hupgrades : ∀ w q, ¬ (s'.threads t).pc.upgrades w q) : Weak s' := by
  have hdata := data_of_lock hheap
  have hweak := isWeakSdarcInner_of_data hdata
  have hof := weakInnerOf_of_data hdata
  have hat : (s'.heap p).weakInnerRef = lock := by simp [hheap]
  have hother : ∀ q, q ≠ p → (s'.heap q).weakInnerRef = (s.heap q).weakInnerRef :=
    fun q hq => by simp [hheap,hq]
  constructor
  · intro q hq
    rw [hdata,hother q (by omega)]
    exact h.fresh q (by omega)
  · intro q w hq
    rw [hof]
    by_cases hqp : q = p
    · subst hqp
      exact hlock w (hat ▸ hq)
    · exact h.initialized q w (hother q hqp ▸ hq)
  · intro w o q hw
    rw [hdata] at hw
    obtain ⟨h₁,h₂,h₃⟩ := h.backRef w o q hw
    refine ⟨h₁,by rw [hweak]; exact h₂,?_⟩
    rcases h₃ with hi | ⟨t',ht'⟩
    · by_cases hqp : q = p
      · subst hqp
        exact absurd hi (hnot w)
      · exact .inl (by rw [hother q hqp]; exact hi)
    · by_cases htt : t' = t
      · subst htt
        obtain ⟨rfl,hl⟩ := hold q w ht'
        exact .inl (by rw [hat]; exact hl)
      · exact .inr ⟨t',by rwa [hothers t' htt]⟩
  · intro w hw
    rw [hweak] at hw
    by_cases hwp : w = p
    · subst hwp
      rw [huser] at hw
      contradiction
    · rw [hother w hwp]
      exact h.leaf w hw
  · intro t' q hq
    by_cases htt : t' = t
    · subst htt
      obtain ⟨rfl,hl⟩ := hinit q hq
      rw [hat,hl]
    · rw [hothers t' htt] at hq
      have hqp : q ≠ p := fun heq => hfree t' htt (heq ▸ hq)
      rw [hother q hqp]
      exact h.running t' q hq
  · intro t' q w hq
    rw [hdata]
    by_cases htt : t' = t
    · subst htt
      exact absurd hq (hmakes q w)
    · rw [hothers t' htt] at hq
      exact h.made t' q w hq
  · intro t' q w hq
    by_cases htt : t' = t
    · subst htt
      obtain ⟨rfl,hl⟩ := hcloned q w hq
      rw [hat,hl]
    · rw [hothers t' htt] at hq
      have hc := h.cloned t' q w hq
      have hqp : q ≠ p := by
        rintro rfl
        exact hnot w hc
      rw [hother q hqp]
      exact hc
  · intro t' q hq
    rw [hweak]
    by_cases htt : t' = t
    · subst htt
      rw [hdowngraded q hq]
      exact huser
    · rw [hothers t' htt] at hq
      exact h.downgraded t' q hq
  · intro t' w q hq
    rw [hof]
    by_cases htt : t' = t
    · subst htt
      exact absurd hq (hupgrades w q)
    · rw [hothers t' htt] at hq
      exact h.origin t' w q hq

theorem ThreadStep.weak {op : Op} (h : Weak s) (hs : ThreadStep cfg s t op s')
    (hborn : ∀ t p, (s.threads t).pc.pins p → p < s.nextPointee) : Weak s' := by
  have hdown : ∀ t p, (s.threads t).pc.downgrades p → p < s.nextPointee := by
    intro t p hp
    refine hborn t p ?_
    cases hpc : (s.threads t).pc <;> simp_all [ThreadPc.downgrades,ThreadPc.pins]
  cases hs with
  | stay => exact h
  | sdarcNew ptr countersPtr shard borrows hstart _ _ =>
    refine h.of_newborn (t := t) rfl rfl rfl (fun t' ht => by simp [ht]) (by simp) ?_ ?_ ?_ ?_
      ?_ ?_ hdown <;>
    simp [hstart.1,ThreadPc.initializes,ThreadPc.makes,ThreadPc.downgrades,ThreadPc.upgrades]
  | newWeakInner ptr countersPtr shard p hpc _ _ =>
    have hrun := h.running t p (by simp [hpc,ThreadPc.initializes])
    have huser := h.downgraded t p (by simp [hpc,ThreadPc.downgrades])
    have hlt := h.born (p := p) (by rw [hrun]; simp)
    refine h.of_newborn (t := t) rfl rfl rfl (fun t' ht => by simp [ht]) ?_ ?_ ?_ ?_
      ?_ ?_ ?_ hdown
    · intro o q hq
      obtain ⟨rfl,rfl⟩ : p = o ∧ p = q := by simpa using hq
      exact ⟨rfl,hlt,huser,by simp [ThreadPc.makes]⟩
    all_goals simp [hpc,ThreadPc.initializes,ThreadPc.makes,ThreadPc.downgrades,
      ThreadPc.upgrades]
  | startInit p hpc huninit =>
    refine h.of_lock (t := t) (p := p) (.running t)
      (hdown t p (by simp [hpc,ThreadPc.downgrades]))
      (h.downgraded t p (by simp [hpc,ThreadPc.downgrades])) (by simp [huninit]) rfl rfl
      (fun t' ht => by simp [ht]) (by simp) ?_ ?_ ?_ ?_ ?_ ?_ ?_
    · intro t' _ ht'
      rw [h.running t' p ht'] at huninit
      contradiction
    all_goals simp [hpc,ThreadPc.initializes,ThreadPc.makes,ThreadPc.downgrades,
      ThreadPc.upgrades]
  | setWeakInner p w hpc =>
    have hrun := h.running t p (by simp [hpc,ThreadPc.initializes])
    have hmade := h.made t p w (by simp [hpc,ThreadPc.makes])
    refine h.of_lock (t := t) (p := p) (.initialized w)
      (h.born (by rw [hrun]; simp)) (h.backRef w p p hmade).2.1 (by simp [hrun]) rfl rfl
      (fun t' ht => by simp [ht]) ?_ ?_ ?_ ?_ ?_ ?_ ?_ ?_
    · intro w' hw'
      obtain rfl : w = w' := by simpa using hw'
      exact ⟨_,hmade⟩
    · intro t' ht ht'
      have := h.running t' p ht'
      rw [hrun] at this
      exact ht (by simpa using this.symm)
    all_goals simp [hpc,ThreadPc.initializes,ThreadPc.makes,ThreadPc.downgrades,
      ThreadPc.upgrades]
  | loadPointer src after p hpc hp =>
    refine h.of_pc (t := t) rfl rfl (fun t' ht => by simp [ht]) ?_ ?_ ?_ ?_ ?_
    · simp [ThreadPc.initializes]
    · simp [hpc,ThreadPc.makes]
    · simp
    · simp [ThreadPc.downgrades]
    · intro w q hq
      obtain ⟨rfl,rfl⟩ : src = .backRef w ∧ p = q := by simpa [ThreadPc.upgrades] using hq
      exact h.load_origin hp
  | loadIncrement src after p shard hpc _ =>
    refine h.of_pc (t := t) rfl rfl (fun t' ht => by simp [ht]) ?_ ?_ ?_ ?_ ?_
    · simp [ThreadPc.initializes]
    · simp [hpc,ThreadPc.makes]
    · simp
    · simp [ThreadPc.downgrades]
    · intro w q hq
      refine h.origin t w q ?_
      simpa [hpc,ThreadPc.upgrades] using hq
  | registerWeakInner shard p w hpc _ =>
    refine h.of_pc (t := t) rfl rfl (fun t' ht => by simp [ht]) ?_ ?_ ?_ ?_ ?_
    · simp [hpc,ThreadPc.initializes]
    · simp [hpc,ThreadPc.makes]
    · simp
    · simp [ThreadPc.downgrades]
    · simp [ThreadPc.upgrades]
  | getInitialized p w hpc hw =>
    refine h.of_pc (t := t) rfl rfl (fun t' ht => by simp [ht]) ?_ ?_ ?_ ?_ ?_
    · simp [ThreadPc.initializes]
    · simp [hpc,ThreadPc.makes]
    · intro q w' hq
      obtain ⟨rfl,rfl⟩ : p = q ∧ w = w' := by simpa using hq
      exact hw
    · simp [ThreadPc.downgrades]
    · simp [ThreadPc.upgrades]
  | downgrade p hstart _ huser =>
    refine h.of_pc (t := t) rfl rfl (fun t' ht => by simp [ht]) ?_ ?_ ?_ ?_ ?_
    · simp [ThreadPc.initializes]
    · simp [hstart.1,ThreadPc.makes]
    · simp
    · intro q hq
      obtain rfl : p = q := by simpa [ThreadPc.downgrades] using hq
      exact huser
    · simp [ThreadPc.upgrades]
  | clone | swap | setNull | dropGuard | obtain | recordUsed | claimRecord | pushRecord
  | release | releaseFailed =>
    refine h.of_same_pc (fun _ => rfl) (fun _ => rfl) rfl (fun t' => ?_)
    by_cases ht : t' = t <;> simp [ht]
  | _ =>
    refine h.of_pc (t := t) rfl rfl (fun t' ht => by simp [ht]) ?_ ?_ ?_ ?_ ?_
    · simp [ThreadPc.initializes]
    · simp_all [State.canStart,ThreadPc.makes]
    · simp
    · simp [ThreadPc.downgrades]
    · simp [ThreadPc.upgrades]

end Steps

end Sdarc.System
