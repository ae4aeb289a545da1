import Sdarc.Simulation
import Sdarc.System.State
set_option autoImplicit false

/-!
What the process is for: pointers that keep their pointees, and cells that hold pointers.
There are no counters, no hazard records and no collector here, only who holds what, and a
pointee may be destroyed when nobody does.
-/

namespace Sdarc.System
open Transition

/-- The call that a thread is in. `target` is the handle that `sync_to` replaces, `result`
what a read has found. -/
inductive Call where
  | idle
  | creating (p : Nat)
  | reading (src : Source) (target : Option Nat)
  | read (src : Source) (target result : Option Nat)
  | exchanged (thenSet : Nat) (original : Option Nat)
  | downgrading (p : Nat)
  | downgraded (p w : Nat)
  deriving DecidableEq, Repr

def Call.holds (p : Nat) : Call → Prop
  | .idle => False
  | .creating q => q = p
  | .reading src target => src = .backRef p ∨ target = some p
  | .read src target result => src = .backRef p ∨ target = some p ∨ result = some p
  | .exchanged thenSet original => thenSet = p ∨ original = some p
  | .downgrading q => q = p
  | .downgraded q w => q = p ∨ w = p

@[ext] structure Spec where
  /-- The number of pointees that there have been. -/
  born : Nat
  cells : Nat → Option Nat
  /-- The pointee that a `WeakSdarcInner` was made for. -/
  origins : Nat → Option Nat
  backRefs : Nat → Option Nat
  handles : Nat → Nat
  guards : Nat → Nat → Option Nat
  calls : Nat → Call
  destroyed : Nat → Bool

/-- What there is to see of a step. A read takes effect at its `load`, a borrow when its
guard is handed out, `compare_and_set` at once. -/
inductive Event where
  | sdarcNew (t p : Nat)
  | created (t p : Nat)
  | clone (p : Nat)
  | deref (p : Nat)
  | derefGuard (t j p : Nat)
  | drop (p : Nat)
  | swap (c : Nat) (new old : Option Nat) (discard : Bool)
  | beginRead (t : Nat) (src : Source)
  | syncTo (t c : Nat) (target : Option Nat) (upToDate : Bool)
  | load (t : Nat) (result : Option Nat)
  | endRead (t : Nat) (result : Option Nat)
  | borrowNone (src : Source)
  | borrowed (t j p : Nat)
  | dropGuard (t j : Nat)
  | compareAndSet (t c : Nat) (ifMatches thenSet : Option Nat) (matched : Bool)
  | endCompareAndSet (t : Nat) (original : Option Nat)
  | downgrade (t p : Nat)
  | newWeakInner (t p w : Nat)
  | foundWeakInner (t p w : Nat)
  | endDowngrade (t w : Nat)
  | unlink (w : Nat)
  | destroy (p : Nat)
  deriving DecidableEq, Repr

namespace Spec

def initial : Spec :=
  ⟨0,fun _ => none,fun _ => none,fun _ => none,fun _ => 0,fun _ _ => none,fun _ => .idle,
    fun _ => false⟩

variable (s : Spec)

def load : Source → Option Nat
  | .cell c => s.cells c
  | .backRef w => s.backRefs w

def setCall (t : Nat) (call : Call) : Spec := { s with calls := Function.update s.calls t call }

def setCell (c : Nat) (o : Option Nat) : Spec := { s with cells := Function.update s.cells c o }

def setGuard (t j : Nat) (o : Option Nat) : Spec :=
  { s with guards := Function.update s.guards t (Function.update (s.guards t) j o) }

def give : Option Nat → Spec
  | none => s
  | some p => { s with handles := Function.update s.handles p (s.handles p + 1) }

def take : Option Nat → Spec
  | none => s
  | some p => { s with handles := Function.update s.handles p (s.handles p - 1) }

def hasHandle : Option Nat → Prop
  | none => True
  | some p => 0 < s.handles p

def canUse : Source → Prop
  | .cell _ => True
  | .backRef w => 0 < s.handles w

/-- Nobody holds `p`, and no `WeakSdarc` leads to it. A `WeakSdarcInner` is also held by the
pointee that it was made for. -/
structure Unreferenced (p : Nat) : Prop where
  handles : s.handles p = 0
  cells : ∀ c, s.cells c ≠ some p
  guards : ∀ t j, s.guards t j ≠ some p
  calls : ∀ t, ¬ (s.calls t).holds p
  backRefs : ∀ w, s.backRefs w ≠ some p
  origins : ∀ q, s.origins p = some q → s.destroyed q = true

def link (p w : Nat) : Spec :=
  { s with
    born := w + 1
    origins := Function.update s.origins w (some p)
    backRefs := Function.update s.backRefs w (some p) }

open Classical in
noncomputable def step : Event → Option Spec
  | .sdarcNew t p =>
      if s.calls t = .idle ∧ p = s.born then
        some ({ s with born := p + 1 }.setCall t (.creating p))
      else none
  | .created t p =>
      if s.calls t = .creating p then some ((s.give (some p)).setCall t .idle) else none
  | .clone p => if 0 < s.handles p then some (s.give (some p)) else none
  | .deref p => if 0 < s.handles p ∧ s.destroyed p = false then some s else none
  | .derefGuard t j p =>
      if s.guards t j = some p ∧ s.destroyed p = false then some s else none
  | .drop p => if 0 < s.handles p then some (s.take (some p)) else none
  | .swap c new old discard =>
      if s.hasHandle new ∧ s.cells c = old then
        some (((s.take new).setCell c new).give (if discard then none else old))
      else none
  | .beginRead t src =>
      if s.calls t = .idle ∧ s.canUse src then some (s.setCall t (.reading src none)) else none
  | .syncTo t c target upToDate =>
      if s.calls t = .idle ∧ s.hasHandle target ∧ (upToDate = true ↔ s.cells c = target) then
        some (if upToDate then s else (s.take target).setCall t (.reading (.cell c) target))
      else none
  | .load t result =>
      match s.calls t with
      | .reading src target =>
          if s.load src = result then some (s.setCall t (.read src target result)) else none
      | _ => none
  | .endRead t result =>
      if ∃ src target, s.calls t = .read src target result then
        some ((s.give result).setCall t .idle)
      else none
  | .borrowNone src => if s.canUse src ∧ s.load src = none then some s else none
  | .borrowed t j p =>
      if ∃ src, s.calls t = .reading src none ∧ s.load src = some p then
        some ((s.setGuard t j (some p)).setCall t .idle)
      else none
  | .dropGuard t j => if s.guards t j ≠ none then some (s.setGuard t j none) else none
  | .compareAndSet t c ifMatches thenSet matched =>
      if s.calls t = .idle ∧ s.hasHandle ifMatches ∧ s.hasHandle thenSet ∧
          (matched = true ↔ s.cells c = ifMatches) then
        some (if matched then
          match thenSet with
          | none => (s.setCell c none).give ifMatches
          | some p => (s.setCell c (some p)).setCall t (.exchanged p ifMatches)
        else s)
      else none
  | .endCompareAndSet t original =>
      if ∃ thenSet, s.calls t = .exchanged thenSet original then
        some ((s.give original).setCall t .idle)
      else none
  | .downgrade t p =>
      if s.calls t = .idle ∧ 0 < s.handles p ∧ s.origins p = none then
        some (s.setCall t (.downgrading p))
      else none
  | .newWeakInner t p w =>
      if s.calls t = .downgrading p ∧ w = s.born ∧ ∀ w', s.origins w' ≠ some p then
        some ((s.link p w).setCall t (.downgraded p w))
      else none
  | .foundWeakInner t p w =>
      if s.calls t = .downgrading p ∧ s.origins w = some p then
        some (s.setCall t (.downgraded p w))
      else none
  | .endDowngrade t w =>
      if ∃ p, s.calls t = .downgraded p w then some ((s.give (some w)).setCall t .idle)
      else none
  | .unlink w =>
      if s.backRefs w ≠ none then
        some { s with backRefs := Function.update s.backRefs w none }
      else none
  | .destroy p =>
      if p < s.born ∧ s.destroyed p = false ∧ s.Unreferenced p then
        some { s with destroyed := Function.update s.destroyed p true }
      else none

def Sound : Prop := ∀ p, s.destroyed p = true → p < s.born ∧ s.Unreferenced p

end Spec

section Sound

namespace Spec

variable {s s' : Spec} {p : Nat}

theorem Unreferenced.setCall (h : s.Unreferenced p) {t : Nat} {call : Call}
    (hcall : ¬ call.holds p) : (s.setCall t call).Unreferenced p :=
  { h with
    calls := by
      intro u
      by_cases hu : u = t
      · subst hu
        simpa [Spec.setCall] using hcall
      · simpa [Spec.setCall,hu] using h.calls u }

theorem Unreferenced.setCell (h : s.Unreferenced p) {c : Nat} {o : Option Nat}
    (ho : o ≠ some p) : (s.setCell c o).Unreferenced p :=
  { h with
    cells := by
      intro d
      by_cases hd : d = c
      · subst hd
        simpa [Spec.setCell] using ho
      · simpa [Spec.setCell,hd] using h.cells d }

theorem Unreferenced.setGuard (h : s.Unreferenced p) {t j : Nat} {o : Option Nat}
    (ho : o ≠ some p) : (s.setGuard t j o).Unreferenced p :=
  { h with
    guards := by
      intro u i
      by_cases hu : u = t
      · subst hu
        by_cases hi : i = j
        · subst hi
          simpa [Spec.setGuard] using ho
        · simpa [Spec.setGuard,hi] using h.guards u i
      · simpa [Spec.setGuard,hu] using h.guards u i }

theorem Unreferenced.give (h : s.Unreferenced p) {o : Option Nat} (ho : o ≠ some p) :
    (s.give o).Unreferenced p := by
  cases o with
  | none => exact h
  | some q =>
    have hqp : p ≠ q := by
      rintro rfl
      exact ho rfl
    exact { h with handles := by simpa [Spec.give,hqp] using h.handles }

theorem Unreferenced.take (h : s.Unreferenced p) {o : Option Nat} :
    (s.take o).Unreferenced p := by
  cases o with
  | none => exact h
  | some q =>
    refine { h with handles := ?_ }
    by_cases hqp : p = q
    · subst hqp
      simp [Spec.take,h.handles]
    · simpa [Spec.take,hqp] using h.handles

theorem Unreferenced.ne_of_hasHandle (h : s.Unreferenced p) {o : Option Nat}
    (ho : s.hasHandle o) : o ≠ some p := by
  rintro rfl
  rw [hasHandle,h.handles] at ho
  omega

theorem Unreferenced.ne_of_canUse (h : s.Unreferenced p) {src : Source} (hu : s.canUse src) :
    src ≠ .backRef p := by
  rintro rfl
  rw [canUse,h.handles] at hu
  omega

theorem Unreferenced.load (h : s.Unreferenced p) (src : Source) : s.load src ≠ some p := by
  cases src with
  | cell c => exact h.cells c
  | backRef w => exact h.backRefs w

@[simp] theorem give_born (o : Option Nat) : (s.give o).born = s.born := by
  cases o <;> rfl

@[simp] theorem give_destroyed (o : Option Nat) : (s.give o).destroyed = s.destroyed := by
  cases o <;> rfl

@[simp] theorem take_born (o : Option Nat) : (s.take o).born = s.born := by
  cases o <;> rfl

@[simp] theorem take_destroyed (o : Option Nat) : (s.take o).destroyed = s.destroyed := by
  cases o <;> rfl

@[simp] theorem take_cells (o : Option Nat) : (s.take o).cells = s.cells := by
  cases o <;> rfl

theorem setCall_self {t : Nat} {call : Call} (h : s.calls t = call) : s.setCall t call = s := by
  rw [setCall,← h,Function.update_eq_self]

theorem Sound.keep (h : s.Sound) (hborn : s.born ≤ s'.born)
    (hdestroyed : s'.destroyed = s.destroyed)
    (hkeep : ∀ p, p < s.born → s.Unreferenced p → s'.Unreferenced p) : s'.Sound := by
  intro p hp
  rw [hdestroyed] at hp
  obtain ⟨hlt,hun⟩ := h p hp
  exact ⟨hlt.trans_le hborn,hkeep p hlt hun⟩

theorem Unreferenced.link {q w : Nat} (h : s.Unreferenced p) (hpw : p ≠ w) (hpq : p ≠ q) :
    (s.link q w).Unreferenced p :=
  { h with
    backRefs := by
      intro x
      by_cases hx : x = w
      · subst hx
        simpa [Spec.link] using hpq.symm
      · simpa [Spec.link,hx] using h.backRefs x
    origins := by simpa [Spec.link,hpw] using h.origins }

theorem Unreferenced.not_holds (h : s.Unreferenced p) {t : Nat} {call : Call}
    (hcall : s.calls t = call) : ¬ call.holds p := by
  rw [← hcall]
  exact h.calls t

theorem Unreferenced.endCall (h : s.Unreferenced p) {t : Nat} {call : Call} {o : Option Nat}
    (hcall : s.calls t = call) (ho : o = some p → call.holds p) :
    ((s.give o).setCall t .idle).Unreferenced p :=
  (h.give (fun heq => h.not_holds hcall (ho heq))).setCall id

theorem Sound.clearCell (h : s.Sound) {c : Nat} {ifMatches : Option Nat}
    (hmatches : s.hasHandle ifMatches) : ((s.setCell c none).give ifMatches).Sound := by
  refine h.keep (by simp [Spec.setCell]) (by simp [Spec.setCell]) (fun q _ hun => ?_)
  exact (hun.setCell (by simp)).give (hun.ne_of_hasHandle hmatches)

theorem Sound.exchange (h : s.Sound) {t c q : Nat} {ifMatches : Option Nat}
    (hmatches : s.hasHandle ifMatches) (hset : s.hasHandle (some q)) :
    ((s.setCell c (some q)).setCall t (.exchanged q ifMatches)).Sound := by
  refine h.keep le_rfl rfl (fun x _ hun => ?_)
  have hne := hun.ne_of_hasHandle hset
  refine (hun.setCell hne).setCall ?_
  rintro (rfl | heq)
  · exact hne rfl
  · exact hun.ne_of_hasHandle hmatches heq

theorem Sound.newWeakInner (h : s.Sound) {t q : Nat} (hcall : s.calls t = .downgrading q) :
    ((s.link q s.born).setCall t (.downgraded q s.born)).Sound := by
  refine h.keep (Nat.le_succ _) rfl (fun x hx hun => ?_)
  have hnot : ¬ q = x := hun.not_holds hcall
  refine (hun.link hx.ne (fun heq => hnot heq.symm)).setCall ?_
  rintro (heq | heq)
  · exact hnot heq
  · exact hx.ne' heq

theorem Sound.foundWeakInner (h : s.Sound) {t q w : Nat} (hcall : s.calls t = .downgrading q)
    (horigin : s.origins w = some q) : (s.setCall t (.downgraded q w)).Sound := by
  refine h.keep le_rfl rfl (fun x _ hun => hun.setCall ?_)
  rintro (heq | rfl)
  · exact hun.not_holds hcall heq
  · -- a destroyed `WeakSdarcInner` has a destroyed origin, which nobody downgrades
    obtain ⟨-,hgone⟩ := h q (hun.origins q horigin)
    exact hgone.not_holds hcall rfl

theorem Sound.destroy (h : s.Sound) (hlt : p < s.born) (hun : s.Unreferenced p) :
    Sound { s with destroyed := Function.update s.destroyed p true } := by
  intro q hq
  have horigins : ∀ x, s.destroyed x = true →
      Function.update s.destroyed p true x = true := by
    intro x hx
    by_cases hxp : x = p
    · simp [hxp]
    · simpa [hxp] using hx
  by_cases hqp : q = p
  · subst hqp
    exact ⟨hlt,{ hun with origins := fun x hx => horigins x (hun.origins x hx) }⟩
  · obtain ⟨hlt',hun'⟩ := h q (by simpa [hqp] using hq)
    exact ⟨hlt',{ hun' with origins := fun x hx => horigins x (hun'.origins x hx) }⟩

theorem Sound.step {e : Event} (h : s.Sound) (hs : s.step e = some s') : s'.Sound := by
  cases e with
  | sdarcNew t p =>
    simp only [Spec.step,Option.ite_none_right_eq_some,Option.some.injEq] at hs
    obtain ⟨⟨-,rfl⟩,rfl⟩ := hs
    refine h.keep (Nat.le_succ _) rfl (fun q hq hun => ?_)
    exact Unreferenced.setCall (s := { s with born := s.born + 1 }) { hun with } hq.ne'
  | created t p =>
    simp only [Spec.step,Option.ite_none_right_eq_some,Option.some.injEq] at hs
    obtain ⟨hcall,rfl⟩ := hs
    exact h.keep le_rfl rfl (fun q _ hun => hun.endCall hcall Option.some.inj)
  | clone p =>
    simp only [Spec.step,Option.ite_none_right_eq_some,Option.some.injEq] at hs
    obtain ⟨hpos,rfl⟩ := hs
    exact h.keep le_rfl rfl (fun q _ hun => hun.give (hun.ne_of_hasHandle (o := some p) hpos))
  | deref p | derefGuard t j p | borrowNone src =>
    simp only [Spec.step,Option.ite_none_right_eq_some,Option.some.injEq] at hs
    obtain ⟨-,rfl⟩ := hs
    exact h
  | drop p =>
    simp only [Spec.step,Option.ite_none_right_eq_some,Option.some.injEq] at hs
    obtain ⟨-,rfl⟩ := hs
    exact h.keep le_rfl rfl (fun q _ hun => hun.take)
  | swap c new old discard =>
    simp only [Spec.step,Option.ite_none_right_eq_some,Option.some.injEq] at hs
    obtain ⟨⟨hnew,rfl⟩,rfl⟩ := hs
    refine h.keep (by simp [setCell]) (by simp [setCell]) (fun q _ hun => ?_)
    refine (hun.take.setCell (hun.ne_of_hasHandle hnew)).give ?_
    split
    · simp
    · exact hun.cells c
  | beginRead t src =>
    simp only [Spec.step,Option.ite_none_right_eq_some,Option.some.injEq] at hs
    obtain ⟨⟨-,huse⟩,rfl⟩ := hs
    refine h.keep le_rfl rfl (fun q _ hun => hun.setCall ?_)
    simpa [Call.holds] using hun.ne_of_canUse huse
  | syncTo t c target upToDate =>
    simp only [Spec.step,Option.ite_none_right_eq_some,Option.some.injEq] at hs
    obtain ⟨⟨-,htarget,-⟩,rfl⟩ := hs
    cases upToDate with
    | true => exact h
    | false =>
      refine h.keep (by simp [Spec.setCall]) (by simp [Spec.setCall]) (fun q _ hun => ?_)
      exact hun.take.setCall (by simpa [Call.holds] using hun.ne_of_hasHandle htarget)
  | load t result =>
    simp only [Spec.step] at hs
    split at hs
    · rename_i src target hcall
      simp only [Option.ite_none_right_eq_some,Option.some.injEq] at hs
      obtain ⟨rfl,rfl⟩ := hs
      refine h.keep le_rfl rfl (fun q _ hun => hun.setCall ?_)
      rintro (hsrc | htarget | hload)
      · exact hun.not_holds hcall (.inl hsrc)
      · exact hun.not_holds hcall (.inr htarget)
      · exact hun.load src hload
    · contradiction
  | endRead t result =>
    simp only [Spec.step,Option.ite_none_right_eq_some,Option.some.injEq] at hs
    obtain ⟨⟨src,target,hcall⟩,rfl⟩ := hs
    refine h.keep (by simp [Spec.setCall]) (by simp [Spec.setCall]) (fun q _ hun => ?_)
    exact hun.endCall hcall (fun heq => .inr (.inr heq))
  | borrowed t j p =>
    simp only [Spec.step,Option.ite_none_right_eq_some,Option.some.injEq] at hs
    obtain ⟨⟨src,-,hload⟩,rfl⟩ := hs
    exact h.keep le_rfl rfl
      (fun q _ hun => (hun.setGuard (hload ▸ hun.load src)).setCall id)
  | dropGuard t j =>
    simp only [Spec.step,Option.ite_none_right_eq_some,Option.some.injEq] at hs
    obtain ⟨-,rfl⟩ := hs
    exact h.keep le_rfl rfl (fun q _ hun => hun.setGuard (by simp))
  | compareAndSet t c ifMatches thenSet matched =>
    simp only [Spec.step,Option.ite_none_right_eq_some,Option.some.injEq] at hs
    obtain ⟨⟨-,hmatches,hset,-⟩,rfl⟩ := hs
    cases matched with
    | false => exact h
    | true =>
      cases thenSet with
      | none => exact h.clearCell hmatches
      | some q => exact h.exchange hmatches hset
  | endCompareAndSet t original =>
    simp only [Spec.step,Option.ite_none_right_eq_some,Option.some.injEq] at hs
    obtain ⟨⟨thenSet,hcall⟩,rfl⟩ := hs
    exact h.keep (by simp [Spec.setCall]) (by simp [Spec.setCall])
      (fun q _ hun => hun.endCall hcall .inr)
  | downgrade t p =>
    simp only [Spec.step,Option.ite_none_right_eq_some,Option.some.injEq] at hs
    obtain ⟨⟨-,hpos,-⟩,rfl⟩ := hs
    refine h.keep le_rfl rfl (fun q _ hun => hun.setCall ?_)
    rintro rfl
    exact hun.ne_of_hasHandle (o := some p) hpos rfl
  | newWeakInner t p w =>
    simp only [Spec.step,Option.ite_none_right_eq_some,Option.some.injEq] at hs
    obtain ⟨⟨hcall,rfl,-⟩,rfl⟩ := hs
    exact h.newWeakInner hcall
  | foundWeakInner t p w =>
    simp only [Spec.step,Option.ite_none_right_eq_some,Option.some.injEq] at hs
    obtain ⟨⟨hcall,horigin⟩,rfl⟩ := hs
    exact h.foundWeakInner hcall horigin
  | endDowngrade t w =>
    simp only [Spec.step,Option.ite_none_right_eq_some,Option.some.injEq] at hs
    obtain ⟨⟨p,hcall⟩,rfl⟩ := hs
    exact h.keep le_rfl rfl
      (fun q _ hun => hun.endCall hcall (fun heq => .inr (Option.some.inj heq)))
  | unlink w =>
    simp only [Spec.step,Option.ite_none_right_eq_some,Option.some.injEq] at hs
    obtain ⟨-,rfl⟩ := hs
    refine h.keep le_rfl rfl (fun q _ hun => { hun with backRefs := fun x => ?_ })
    by_cases hx : x = w
    · simp [hx]
    · simpa [hx] using hun.backRefs x
  | destroy p =>
    simp only [Spec.step,Option.ite_none_right_eq_some,Option.some.injEq] at hs
    obtain ⟨⟨hlt,-,hun⟩,rfl⟩ := hs
    exact h.destroy hlt hun

theorem sound_of_reach (h : Reach step (fun _ _ => True) initial s) : s.Sound :=
  h.invariant Sound (by simp [Sound,initial]) (fun _ _ _ hsound _ hs => hsound.step hs)

end Spec

end Sound

end Sdarc.System
