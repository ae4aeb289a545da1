import Mathlib
import Sdarc.System.Safety
set_option autoImplicit false

/-!
Data that borrows from a scope. `Sdarc::new` takes every `T: Send + Sync`, and the scopes of a
type only outlive the handles of that type; the data is destroyed later, by the collector.
-/

namespace Sdarc.System
open Transition

def Data.borrows : Data → List Nat
  | .user borrows => borrows
  | .weakSdarcInner _ _ => []

namespace State

variable (cfg : Config) (s : State)

/-- The type of a handle to the pointee mentions the scope; that of a `WeakSdarc` mentions
what the type of its origin does. -/
def mentions (x p : Nat) : Prop :=
  match (s.heap p).data with
  | .user borrows => x ∈ borrows
  | .weakSdarcInner origin _ => x ∈ (s.heap origin).data.borrows

instance (x p : Nat) : Decidable (s.mentions x p) := by
  unfold mentions
  split <;> infer_instance

def unhandled (p : Nat) : Prop :=
  s.live p = 0 ∧ (∀ c, c < cfg.cells → s.cells c ≠ some p) ∧
    ∀ t, t < cfg.threads → (s.threads t).pc.owned p = 0 ∧ ¬ (s.threads t).pc.pins p ∧
      ¬ (s.threads t).pc.entering p ∧
      ∀ j, j < HZ_PTR_SLOT_COUNT → (s.threads t).guards j ≠ some p

instance (p : Nat) : Decidable (s.unhandled cfg p) :=
  inferInstanceAs (Decidable (_ ∧ _ ∧ _))

/-- The compiler lets the scope end: the last handle whose type mentions it is gone. -/
def mayEnd (x : Nat) : Prop :=
  ∀ p, p < s.nextPointee → s.mentions x p → s.unhandled cfg p

instance (x : Nat) : Decidable (s.mayEnd cfg x) :=
  inferInstanceAs (Decidable (∀ p, p < s.nextPointee → _))

def destroys (p : Nat) : Prop :=
  match s.collector with
  | .dropping _ q .data => q = p
  | _ => False

def dataPending (p : Nat) : Prop :=
  (s.heap p).stage = .allocated ∨
    match s.collector with
    | .dropping _ q phase => q = p ∧ phase ≠ .memory
    | _ => False

instance (p : Nat) : Decidable (s.dataPending p) := by
  unfold dataPending
  split <;> infer_instance

end State

structure Scoped where
  process : State
  ended : List Nat

def Scoped.initial : Scoped := ⟨.initial,[]⟩

inductive ScopedAction where
  | process (a : Action)
  | endScope (x : Nat)
  deriving DecidableEq, Repr

def Action.borrows : Action → List Nat
  | .thread _ (.sdarcNew _ _ _ borrows) => borrows
  | _ => []

def scopedStep (cfg : Config) (s : Scoped) : ScopedAction → Option Scoped
  | .process a =>
      if ∀ x, x ∈ a.borrows → x ∉ s.ended then
        (step cfg s.process a).map (fun process => { s with process := process })
      else none
  | .endScope x => some { s with ended := x :: s.ended }

/-- Every scope that the data borrows from is open while its destructor runs. -/
def Scoped.outlives (s : Scoped) : Prop :=
  ∀ p, s.process.destroys p → ∀ x, x ∈ (s.process.heap p).data.borrows → x ∉ s.ended

def lawful (cfg : Config) (s : Scoped) : ScopedAction → Prop
  | .process _ => True
  | .endScope x => s.process.mayEnd cfg x

instance (cfg : Config) (s : Scoped) (a : ScopedAction) : Decidable (lawful cfg s a) := by
  cases a <;> simp only [lawful] <;> infer_instance

/-- What the user does: `Sdarc::new` is given `allowed` data only, and the `lasting` scopes
(such as `'static`) do not end. -/
def ScopedAction.within (allowed : List Nat → Prop) (lasting : Nat → Prop) :
    ScopedAction → Prop
  | .process (.thread _ (.sdarcNew _ _ _ borrows)) => allowed borrows
  | .process _ => True
  | .endScope x => ¬ lasting x

section Pending

variable {cfg : Config} {s s' : State} {p : Nat} {borrows : List Nat}

theorem State.dataPending.lt_nextPointee (hp : s.dataPending p) (h : Tracking cfg s) :
    p < s.nextPointee := by
  rcases hp with hstage | hc
  · exact h.places.lt_nextPointee (by simp [hstage])
  · split at hc
    · rename_i it q phase hcollector
      obtain ⟨rfl,-⟩ := hc
      have hstage := h.lists.dropping it q phase hcollector
      exact h.places.lt_nextPointee (by simp [hstage])
    · exact hc.elim

theorem State.destroys.dataPending (hp : s.destroys p) : s.dataPending p := by
  unfold State.destroys at hp
  split at hp
  · rename_i hcollector
    refine .inr ?_
    rw [hcollector]
    exact ⟨hp,by simp⟩
  · exact hp.elim

theorem ThreadStep.userData {t : Nat} {op : Op} (hs : ThreadStep cfg s t op s')
    (hdata : (s'.heap p).data = .user borrows) :
    (s.heap p).data = .user borrows ∧ (s'.heap p).stage = (s.heap p).stage ∨
      (Action.thread t op).borrows = borrows := by
  cases hs with
  | sdarcNew ptr countersPtr shard new _ _ _ =>
    by_cases hp : p = s.nextPointee
    · subst hp
      exact .inr (by simpa [Action.borrows] using hdata)
    · exact .inl ⟨by simpa [hp] using hdata,by simp [hp]⟩
  | newWeakInner ptr countersPtr shard q _ _ _ =>
    by_cases hp : p = s.nextPointee
    · subst hp
      simp at hdata
    · exact .inl ⟨by simpa [hp] using hdata,by simp [hp]⟩
  | startInit q _ _ =>
    by_cases hp : p = q
    · subst hp
      exact .inl ⟨by simpa using hdata,by simp⟩
    · exact .inl ⟨by simpa [hp] using hdata,by simp [hp]⟩
  | setWeakInner q w _ =>
    by_cases hp : p = q
    · subst hp
      exact .inl ⟨by simpa using hdata,by simp⟩
    · exact .inl ⟨by simpa [hp] using hdata,by simp [hp]⟩
  | _ => exact .inl ⟨hdata,rfl⟩

theorem State.dataPending.allocated (hp : s.dataPending p)
    (hc : ∀ it q phase, s.collector = .dropping it q phase → phase = .memory) :
    (s.heap p).stage = .allocated := by
  rcases hp with hstage | hdropping
  · exact hstage
  · split at hdropping
    · rename_i it q phase hcollector
      exact absurd (hc it q phase hcollector) hdropping.2
    · exact hdropping.elim

theorem resume_not_dropping (it : Iter) (key : Nat) (result : UpdateResult) (it' : Iter) (q : Nat)
    (phase : DropPhase) : (s.resume it key result).collector ≠ .dropping it' q phase := by
  cases result <;> simp [State.resume]

theorem CollectorStep.userData (h : Tracking cfg s) (hs : CollectorStep cfg s s')
    (hp : s'.dataPending p) (hdata : (s'.heap p).data = .user borrows) :
    s.dataPending p ∧ (s.heap p).data = .user borrows := by
  cases hs with
  | free it key toFree e hc hf he hready hok =>
    by_cases hpe : p = e.pointee
    · subst hpe
      exact ⟨.inl (h.places.trackedOk key e he).1,by simpa using hdata⟩
    · rcases hp with hstage | hdropping
      · exact ⟨.inl (by simpa [hpe] using hstage),by simpa [hpe] using hdata⟩
      · exact absurd hdropping.1.symm hpe
  | dropCounters it q hc =>
    refine ⟨hp.imp (field_update SdarcInner.stage (by rfl) p).symm.trans (fun hdropping => ?_),
      (field_update SdarcInner.data (by rfl) p).symm.trans hdata⟩
    rw [hc]
    exact ⟨hdropping.1,by simp⟩
  | dropWeakInnerRef it q w hc _ _ =>
    refine ⟨hp.imp (field_update SdarcInner.stage (by rfl) p).symm.trans (fun hdropping => ?_),
      (field_update SdarcInner.data (by rfl) p).symm.trans hdata⟩
    rw [hc]
    exact ⟨hdropping.1,by simp⟩
  | noWeakInnerRef it q hc _ =>
    refine ⟨hp.imp id (fun hdropping => ?_),hdata⟩
    rw [hc]
    exact ⟨hdropping.1,by simp⟩
  | dropWeakSdarcInner it q origin backRef hc _ _ =>
    exact ⟨.inl (hp.allocated (by simp)),hdata⟩
  | dropMemory it q hc =>
    have hstage := hp.allocated (by simp)
    by_cases hpq : p = q
    · simp [hpq] at hstage
    · exact ⟨.inl (by simpa [hpq] using hstage),by simpa [hpq] using hdata⟩
  | weakBackRefCleared it key w origin q hc hw =>
    have hstage := hp.allocated (fun it' q' phase hc' => absurd hc' (resume_not_dropping _ _ _ _ _ _))
    rw [(SameMemory.resume _ _ _).heap] at hstage hdata
    by_cases hpw : p = w
    · simp [hpw] at hdata
    · exact ⟨.inl (by simpa [hpw] using hstage),by simpa [hpw] using hdata⟩
  | startUpdate | readShard | finishPass | weakRefNotInvolved | weakBackRefWasAlreadyNull =>
    have hstage := hp.allocated (fun it' q' phase hc' => absurd hc' (resume_not_dropping _ _ _ _ _ _))
    rw [(SameMemory.resume _ _ _).heap] at hstage hdata
    exact ⟨.inl hstage,hdata⟩
  | spin => exact ⟨hp,hdata⟩
  | _ => exact ⟨.inl (hp.allocated (by simp)),hdata⟩

theorem SystemStep.userData {a : Action} (h : Tracking cfg s) (hs : SystemStep cfg s a s')
    (hp : s'.dataPending p) (hdata : (s'.heap p).data = .user borrows) :
    (s.dataPending p ∧ (s.heap p).data = .user borrows) ∨ a.borrows = borrows := by
  cases hs with
  | thread t op _ _ hs =>
    rcases hs.userData hdata with ⟨hsame,hstage⟩ | hnew
    · refine .inl ⟨hp.imp (fun hs' => hstage.symm.trans hs') (fun hdropping => ?_),hsame⟩
      rwa [hs.collector.1] at hdropping
    · exact .inr hnew
  | collector _ hs => exact .inl (hs.userData h hp hdata)
  | finishDestructor panicked it q hc _ _ =>
    exact .inl ⟨.inl (hp.allocated (by simp)),hdata⟩

end Pending

section Runs

variable {cfg : Config} {s s' : Scoped} {allowed : List Nat → Prop} {lasting : Nat → Prop}

def Scoped.pendingLasts (lasting : Nat → Prop) (s : Scoped) : Prop :=
  (∀ x, x ∈ s.ended → ¬ lasting x) ∧
    ∀ p borrows, s.process.dataPending p → (s.process.heap p).data = .user borrows →
      ∀ x, x ∈ borrows → lasting x

theorem Scoped.pendingLasts.outlives (h : s.pendingLasts lasting) : s.outlives := by
  intro p hp x hx hended
  cases hdata : (s.process.heap p).data with
  | user borrows =>
    rw [hdata] at hx
    exact h.1 x hended (h.2 p borrows hp.dataPending hdata x hx)
  | weakSdarcInner origin backRef => simp [hdata,Data.borrows] at hx

theorem scopedStep_process {a : Action} (hs : scopedStep cfg s (.process a) = some s') :
    step cfg s.process a = some s'.process ∧ s'.ended = s.ended := by
  simp only [scopedStep,Option.ite_none_right_eq_some,Option.map_eq_some_iff] at hs
  obtain ⟨-,process,hstep,rfl⟩ := hs
  exact ⟨hstep,rfl⟩

theorem within_borrows {a : Action} (h : (ScopedAction.process a).within allowed lasting)
    (hdata : ∀ borrows, allowed borrows → ∀ x, x ∈ borrows → lasting x) :
    ∀ x, x ∈ a.borrows → lasting x := by
  intro x hx
  cases a with
  | thread t op =>
    cases op with
    | sdarcNew ptr countersPtr shard borrows => exact hdata borrows h x hx
    | _ => simp [Action.borrows] at hx
  | _ => simp [Action.borrows] at hx

theorem pendingLasts_step {a : ScopedAction}
    (hdata : ∀ borrows, allowed borrows → ∀ x, x ∈ borrows → lasting x)
    (htracking : Tracking cfg s.process) (h : s.pendingLasts lasting)
    (hok : a.within allowed lasting) (hs : scopedStep cfg s a = some s') :
    Tracking cfg s'.process ∧ s'.pendingLasts lasting := by
  cases a with
  | process a =>
    obtain ⟨hstep,hended⟩ := scopedStep_process hs
    refine ⟨htracking.step (step_cases hstep),hended ▸ h.1,fun p borrows hp hborrows => ?_⟩
    rcases (step_cases hstep).userData htracking hp hborrows with ⟨hold,hdata'⟩ | hnew
    · exact h.2 p borrows hold hdata'
    · exact hnew ▸ within_borrows hok hdata
  | endScope x =>
    obtain rfl := Option.some.inj hs
    refine ⟨htracking,fun y hy => ?_,h.2⟩
    rcases List.mem_cons.mp hy with rfl | hended
    · exact hok
    · exact h.1 y hended

theorem outlives_of_lasting {ok : Scoped → ScopedAction → Prop}
    (hdata : ∀ borrows, allowed borrows → ∀ x, x ∈ borrows → lasting x)
    (hok : ∀ s a, ok s a → a.within allowed lasting)
    (h : Reach (scopedStep cfg) ok .initial s) : s.outlives := by
  have hinv := h.invariant (fun s => Tracking cfg s.process ∧ s.pendingLasts lasting)
    ⟨tracking_initial cfg,by simp [Scoped.initial],fun p borrows _ hborrows x hx => by
      have hnone : borrows = [] := by
        simpa [Scoped.initial,State.initial,eq_comm] using hborrows
      simp [hnone] at hx⟩
    (fun s a s' hinv hok' hs => pendingLasts_step hdata hinv.1 hinv.2 (hok s a hok') hs)
  exact hinv.2.outlives

theorem State.destroys.not_outlives {process : State} {p x : Nat} {borrows : List Nat}
    (hp : process.destroys p) (hdata : (process.heap p).data = .user borrows)
    (hx : x ∈ borrows) : ¬ (Scoped.mk process [x]).outlives := by
  intro h
  have hborrows : x ∈ (process.heap p).data.borrows := by rwa [hdata]
  exact h p hp x hborrows List.mem_cons_self

theorem reach_process {actions : List Action} {process : State}
    (hopen : ∀ a, a ∈ actions → ∀ x, x ∈ a.borrows → x ∉ s.ended)
    (hok : ∀ a, a ∈ actions → (ScopedAction.process a).within allowed lasting)
    (h : run (step cfg) s.process actions = some process) :
    Reach (scopedStep cfg) (fun s a => lawful cfg s a ∧ a.within allowed lasting) s
      ⟨process,s.ended⟩ := by
  induction actions generalizing s with
  | nil =>
    obtain rfl := Option.some.inj h
    exact .refl
  | cons a actions ih =>
    obtain ⟨next,hstep,hrest⟩ := Option.bind_eq_some_iff.mp h
    have hfirst : scopedStep cfg s (.process a) = some ⟨next,s.ended⟩ := by
      rw [scopedStep,if_pos (hopen a List.mem_cons_self),hstep]
      rfl
    refine .head ⟨.process a,⟨trivial,hok a List.mem_cons_self⟩,hfirst⟩
      (ih (s := ⟨next,s.ended⟩) ?_ ?_ hrest)
    · exact fun b hb => hopen b (List.mem_cons_of_mem a hb)
    · exact fun b hb => hok b (List.mem_cons_of_mem a hb)

def borrowAndDrop (borrows : List Nat) : List Action :=
  [.thread 1 (.sdarcNew 10 100 0 borrows),.thread 1 (.onNewSdarcAllocated 0),
    .thread 1 (.dropHandle 0),.thread 1 (.dropLoad 0),.thread 1 (.dropExchange false)]

def oneShard : Config := ⟨1,2,0,Nat.two_pos⟩

theorem borrowAndDrop_enabled (borrows : List Nat) :
    (run (step oneShard) .initial (borrowAndDrop borrows)).isSome = true := by cbv

def handlesGone (borrows : List Nat) : State :=
  (run (step oneShard) .initial (borrowAndDrop borrows)).get (borrowAndDrop_enabled borrows)

theorem handlesGone_mayEnd (borrows : List Nat) (x : Nat) :
    (handlesGone borrows).mayEnd oneShard x := by
  intro p hp _
  have hfirst : (handlesGone borrows).nextPointee = 1 := by cbv
  obtain rfl : p = 0 := by omega
  exact of_decide_eq_true (by rfl)

theorem handlesGone_collected (borrows : List Nat) :
    (run (step oneShard) (handlesGone borrows) (List.replicate 24 .collector)).isSome = true := by
  cbv

theorem handlesGone_destroyed (borrows : List Nat) :
    ∃ process, run (step oneShard) (handlesGone borrows) (List.replicate 24 .collector) =
      some process ∧ process.destroys 0 ∧ (process.heap 0).data = .user borrows := by
  refine ⟨_,(Option.some_get (handlesGone_collected borrows)).symm,?_,?_⟩
  · cbv
  · cbv

theorem endTooEarly {borrows : List Nat} {x : Nat} (hallowed : allowed borrows)
    (hx : x ∈ borrows) (hlasting : ¬ lasting x) :
    ∃ s, Reach (scopedStep oneShard)
      (fun s a => lawful oneShard s a ∧ a.within allowed lasting) .initial s ∧
      ¬ s.outlives := by
  obtain ⟨process,hcollected,hdestroys,hdata⟩ := handlesGone_destroyed borrows
  have hmade : Reach (scopedStep oneShard)
      (fun s a => lawful oneShard s a ∧ a.within allowed lasting) .initial
      ⟨handlesGone borrows,[]⟩ :=
    reach_process (s := .initial) (by simp [Scoped.initial])
      (by simp [borrowAndDrop,ScopedAction.within,hallowed])
      (Option.some_get (borrowAndDrop_enabled borrows)).symm
  have hended : scopedStep oneShard ⟨handlesGone borrows,[]⟩ (.endScope x) =
      some ⟨handlesGone borrows,[x]⟩ := rfl
  have hcollector : Reach (scopedStep oneShard)
      (fun s a => lawful oneShard s a ∧ a.within allowed lasting) ⟨handlesGone borrows,[x]⟩
      ⟨process,[x]⟩ :=
    reach_process (s := ⟨handlesGone borrows,[x]⟩)
      (fun a ha => by simp [List.eq_of_mem_replicate ha,Action.borrows])
      (fun a ha => by rw [List.eq_of_mem_replicate ha]; trivial) hcollected
  exact ⟨_,(hmade.tail ⟨.endScope x,⟨handlesGone_mayEnd borrows x,hlasting⟩,hended⟩).trans
    hcollector,hdestroys.not_outlives hdata hx⟩

/-- Whatever data may be given to `Sdarc::new` and whichever scopes outlast the process: every
scope that data borrows from is open in its destructor, in all runs whose scopes end where the
compiler lets them, if and only if all that data borrows from lasting scopes only. -/
theorem destructors_see_open_scopes_iff (allowed : List Nat → Prop) (lasting : Nat → Prop) :
    (∀ cfg s, Reach (scopedStep cfg) (fun s a => lawful cfg s a ∧ a.within allowed lasting)
        .initial s → s.outlives) ↔
      ∀ borrows, allowed borrows → ∀ x, x ∈ borrows → lasting x := by
  constructor
  · intro hclaim borrows hallowed x hx
    by_contra hlasting
    obtain ⟨s,hrun,hlate⟩ := endTooEarly hallowed hx hlasting
    exact hlate (hclaim _ _ hrun)
  · exact fun hdata cfg s h => outlives_of_lasting hdata (fun _ _ hok => hok.2) h

theorem borrowAndDrop_too_late :
    ¬ ∀ cfg s, Reach (scopedStep cfg) (lawful cfg) .initial s → s.outlives := by
  intro hclaim
  obtain ⟨s,hrun,hlate⟩ := @endTooEarly (fun borrows => borrows = [5]) (fun _ => False) [5] 5
    rfl (List.mem_singleton_self 5) (fun h => h)
  exact hlate (hclaim _ _ (hrun.mono (fun _ _ hok => hok.1)))

end Runs

end Sdarc.System
