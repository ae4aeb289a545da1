import Sdarc.System.Progress
set_option autoImplicit false

/-!
The collector never acts on a false zero: as long as a pointee has an owner its `back_ref`
is not cleared, so an upgrade or a borrow of a `WeakSdarc` finds it.
-/

namespace Sdarc

/-- `update_state` is not about to clear the `back_ref` of a pointee that is owned. -/
def UpdatePc.Spares (n : Nat) (v : Reclamation.View) : UpdatePc → Prop
  | .readIfUntagged k sum => Reclamation.Doubted n v k sum
  | .clearWeakBackRef => False
  | _ => True

section UpdateState
open Reclamation

variable {n : Nat} {v v' : View} {pc pc' : UpdatePc}

theorem UpdatePc.Spares.stable (h : pc.Spares n v) (hc : RelyCounts v v') : pc.Spares n v' := by
  cases pc with
  | readIfUntagged k sum => exact Doubted.stable h hc
  | _ => exact h

theorem UpdatePc.start_spares {state : TrackedCounterState} {phase : Phase}
    (h : Holds n v state.stage phase) (ha : v.Accounted n) (ho : 0 < v.owners)
    (hpc : UpdatePc.start state = .goto pc) : pc.Spares n v := by
  cases state with
  | defaultState =>
    obtain rfl := UpdateResult.goto.inj hpc
    trivial
  | requiresReChecking =>
    obtain rfl := UpdateResult.goto.inj hpc
    exact Doubted.start h ha ho
  | readyToFree => contradiction

theorem UpdatePc.visit_spares {k : Nat} {c : Counter} (h : pc.Spares n v)
    (hk : pc.shard = some k) (hkn : k < n) (hcount : v.count k = c.refCount)
    (htag : v.tag k = c.tag) (hpc : pc.visit c = .goto pc') : pc'.Spares n v := by
  cases pc with
  | readIfUntagged j sum =>
    obtain rfl : j = k := by simpa [shard] using hk
    simp only [visit] at hpc
    split at hpc
    · contradiction
    · rename_i hc
      obtain rfl := UpdateResult.goto.inj hpc
      rw [← hcount]
      exact Doubted.reCheck h hkn (htag.trans (Bool.of_not_eq_true hc))
  | clearWeakBackRef => exact h.elim
  | readRelaxed j sum =>
    obtain rfl := UpdateResult.goto.inj hpc
    trivial
  | clearTags j sum =>
    obtain rfl := UpdateResult.goto.inj hpc
    trivial

theorem UpdatePc.finish_spares (h : pc.Spares n v) (hk : pc.shard = some n)
    (hpc : pc.finish = .goto pc') : pc'.Spares n v := by
  cases pc with
  | readIfUntagged j sum =>
    obtain rfl : j = n := by simpa [shard] using hk
    have hpos : 0 < sum := Doubted.pos h
    simp only [finish] at hpc
    rw [if_neg (by omega),if_pos hpos] at hpc
    contradiction
  | clearWeakBackRef => exact h.elim
  | readRelaxed j sum =>
    simp only [finish] at hpc
    split at hpc
    · obtain rfl := UpdateResult.goto.inj hpc
      trivial
    · contradiction
  | clearTags j sum =>
    simp only [finish] at hpc
    split at hpc <;> contradiction

end UpdateState

end Sdarc

namespace Sdarc.System
open Transition Reclamation

/-- Once it is born, `p` has an owner: a handle, a cell, or a handle in the hands of an
operation. -/
def State.keptAlive (cfg : Config) (s : State) (p : Nat) : Prop :=
  p < s.nextPointee → 0 < s.owners cfg p

instance (cfg : Config) (s : State) (p : Nat) : Decidable (s.keptAlive cfg p) :=
  inferInstanceAs (Decidable (_ → _))

/-- Thread `t` gets a handle to `p` or a guard for it. -/
def Hands (s s' : State) (t p : Nat) : Prop :=
  s'.live p = s.live p + 1 ∨
    ∃ j, (s.threads t).guards j = none ∧ (s'.threads t).guards j = some p

structure Spared (cfg : Config) (p : Nat) (s : State) : Prop where
  checking : ∀ it key pc e, s.collector = .checking it key pc → s.tracked[key]? = some e →
    e.pointee = p → pc.Spares cfg.shards (s.view cfg p)
  unlinking : ∀ it (key : Nat) w e, s.collector = .unlinking it key w →
    s.tracked[key]? = some e → e.pointee ≠ p
  backRef : ∀ w, s.weakInnerOf w p → s.load (.backRef w) = some p
  result : ∀ t w after, s.weakInnerOf w p →
    (s.threads t).pc ≠ .loadLeave (.backRef w) after none

section Steps

variable {cfg : Config} {s s' : State} {p : Nat}

theorem ThreadStep.weakInner_newborn {t w : Nat} {op : Op} (hs : ThreadStep cfg s t op s')
    (hnext : s'.nextPointee ≠ s.nextPointee) (hof : s'.weakInnerOf s.nextPointee p)
    (hw : w = s.nextPointee) : s'.load (.backRef w) = some p := by
  subst hw
  cases hs with
  | sdarcNew => simp [State.weakInnerOf] at hof
  | newWeakInner ptr countersPtr shard q hpc =>
    obtain rfl : q = p := by simpa [State.weakInnerOf] using hof
    simp [State.load]
  | _ => exact absurd rfl hnext

theorem Spared.thread {t : Nat} {op : Op} (h : Spared cfg p s) (hsafe : Safe cfg s)
    (ht : t < cfg.threads) (hs : ThreadStep cfg s t op s') : Spared cfg p s' := by
  have hplaces := hsafe.tracking.places
  obtain ⟨hcollector,htracked⟩ := hs.collector
  refine ⟨?_,?_,?_,?_⟩
  · rw [hcollector,htracked]
    rintro it key pc e hc he rfl
    obtain ⟨hstage,-⟩ := hplaces.trackedOk key e he
    have hborn := hplaces.lt_nextPointee (p := e.pointee) (by rw [hstage]; decide)
    have hcounts := (hsafe.references.accountStep ht hs).relyCounts hplaces hstage
      (hs.frame (.inl hborn.ne)).2.1
    exact (h.checking it key pc e hc he rfl).stable hcounts
  · rw [hcollector,htracked]
    exact h.unlinking
  · intro w hof
    by_cases hw : w ≠ s.nextPointee ∨ s'.nextPointee = s.nextPointee
    · have hdata := hs.data hw
      rw [State.weakInnerOf,hdata] at hof
      have hold := h.backRef w hof
      simp only [State.load] at hold ⊢
      rwa [hdata]
    · obtain ⟨hnew,hnext⟩ : w = s.nextPointee ∧ _ := by simpa using hw
      exact hs.weakInner_newborn hnext (hnew ▸ hof) hnew
  · intro u w after hof hpc
    have hold : ∀ u, (s.threads u).pc.pins w → s.weakInnerOf w p := by
      intro u hpin
      have hborn := hsafe.references.born_of_pinned hplaces hpin
      rwa [State.weakInnerOf,hs.data (.inl hborn.ne)] at hof
    by_cases hut : u = t
    · subst hut
      cases hs with
      | loadNull src after' hload hnull =>
        obtain ⟨rfl,rfl⟩ : src = .backRef w ∧ after' = after := by simpa using hpc
        have := h.backRef w (hold u (by simp [hload,ThreadPc.pins]))
        rw [hnull] at this
        contradiction
      | stay | clone | swap | setNull | releaseFailed =>
        exact h.result u w after (hold u (by rw [show (s.threads u).pc = _ from hpc]; rfl)) hpc
      | dropGuard | obtain | recordUsed | claimRecord | pushRecord | release =>
        have hpc₀ : (s.threads u).pc = .loadLeave (.backRef w) after none := by
          simpa using hpc
        exact h.result u w after (hold u (by rw [hpc₀]; rfl)) hpc₀
      | _ => simp at hpc
    · rw [hs.others hut] at hpc
      exact h.result u w after (hold u (by rw [hpc]; rfl)) hpc

theorem CollectorStep.load (hs : CollectorStep cfg s s') (w : Nat) :
    s'.load (.backRef w) = s.load (.backRef w) ∨
      ∃ it key, s.collector = .unlinking it key w := by
  cases hs with
  | weakBackRefCleared it key x origin q hc hdata =>
    by_cases hw : w = x
    · subst hw
      exact .inr ⟨it,key,hc⟩
    · left
      simp [State.load,(SameMemory.resume _ _ _).heap,hw]
  | free it key toFree e => by_cases hw : w = e.pointee <;> simp [State.load,hw]
  | dropCounters it q => by_cases hw : w = q <;> simp [State.load,hw]
  | dropWeakInnerRef it q => by_cases hw : w = q <;> simp [State.load,hw]
  | dropMemory it q => by_cases hw : w = q <;> simp [State.load,hw]
  | startUpdate | readShard | finishPass | weakRefNotInvolved | weakBackRefWasAlreadyNull =>
    left
    simp only [State.load,(SameMemory.resume _ _ _).heap]
  | _ => exact .inl rfl

theorem Spared.checking_collector (h : Spared cfg p s) (hsafe : Safe cfg s)
    (ho : s.keptAlive cfg p) (hs : CollectorStep cfg s s') {it : Iter} {key : Nat}
    {pc : UpdatePc} {e : TrackedCounter} (hc : s'.collector = .checking it key pc)
    (he : s'.tracked[key]? = some e) (hp : e.pointee = p) :
    pc.Spares cfg.shards (s'.view cfg p) := by
  have hplaces := hsafe.tracking.places
  -- the steps that end with `update_state` going on at `pc`
  have hresume : ∀ (it₀ : Iter) (key₀ : Nat) (result : UpdateResult),
      s' = s.resume it₀ key₀ result →
      (∀ e₀, s.tracked[key₀]? = some e₀ → e₀.pointee = p → result = .goto pc →
        pc.Spares cfg.shards (s.view cfg p)) → pc.Spares cfg.shards (s'.view cfg p) := by
    rintro it₀ key₀ result rfl hgoto
    obtain rfl := resume_checking hc
    obtain ⟨-,rfl,-⟩ := CollectorPc.checking.inj hc
    rw [(SameMemory.resume _ _ _).view]
    exact hgoto e he hp rfl
  cases hs with
  | startUpdate it₀ key₀ todo e₀ hv htodo he₀ hno =>
    refine hresume _ _ _ rfl (fun e₁ he₁ hp₁ hpc => ?_)
    obtain rfl : e₀ = e₁ := Option.some.inj (he₀.symm.trans he₁)
    have hstage := (hplaces.trackedOk key₀ e₀ he₀).1
    have hborn := hplaces.lt_nextPointee (p := e₀.pointee) (by rw [hstage]; decide)
    rw [← hp₁] at ho ⊢
    exact UpdatePc.start_spares (hsafe.known key₀ e₀ he₀)
      (hsafe.references.accounted _ hstage) (Int.natCast_pos.mpr (ho hborn)) hpc
  | readShard it₀ key₀ k pc₀ hc₀ hk hlt hclear =>
    refine hresume _ _ _ rfl (fun e₁ he₁ hp₁ hpc => ?_)
    have hkey := (hplaces.trackedOk key₀ e₁ he₁).2
    refine UpdatePc.visit_spares (h.checking it₀ key₀ pc₀ e₁ hc₀ he₁ hp₁) hk hlt ?_ ?_ hpc <;>
      simp only [State.view,State.counter,← hp₁,hkey]
  | clearTag it₀ key₀ k sum hc₀ hk =>
    obtain ⟨-,-,rfl⟩ := CollectorPc.checking.inj hc
    trivial
  | finishPass it₀ key₀ k pc₀ hc₀ hk hge =>
    refine hresume _ _ _ rfl (fun e₁ he₁ hp₁ hpc => ?_)
    have hle := hsafe.position it₀ key₀ pc₀ k hc₀ hk
    exact UpdatePc.finish_spares (h.checking it₀ key₀ pc₀ e₁ hc₀ he₁ hp₁)
      (hk.trans (by rw [show k = cfg.shards by omega])) hpc
  | spin => exact h.checking it key pc e hc he hp
  | _ => contradiction

theorem Spared.unlinking_collector (h : Spared cfg p s) (hs : CollectorStep cfg s s')
    {it : Iter} {key w : Nat} {e : TrackedCounter} (hc : s'.collector = .unlinking it key w)
    (he : s'.tracked[key]? = some e) : e.pointee ≠ p := by
  have hresume : ∀ (s₁ : State) (it' : Iter) (key' : Nat) (result : UpdateResult),
      (s₁.resume it' key' result).collector ≠ .unlinking it key w := by
    intro s₁ it' key' result
    cases result <;> simp [State.resume]
  cases hs with
  | foundWeakInner it₀ key₀ w₀ e₀ hc₀ he₀ hw =>
    obtain ⟨-,rfl,-⟩ := CollectorPc.unlinking.inj hc
    exact fun hp => h.checking it₀ key₀ _ e hc₀ he hp
  | startUpdate => exact absurd hc (hresume _ _ _ _)
  | readShard => exact absurd hc (hresume _ _ _ _)
  | finishPass => exact absurd hc (hresume _ _ _ _)
  | spin => exact h.unlinking it key w e hc he
  | _ => contradiction

theorem Spared.collector (h : Spared cfg p s) (hsafe : Safe cfg s) (ho : s.keptAlive cfg p)
    (hs : CollectorStep cfg s s') : Spared cfg p s' := by
  have hof : ∀ w, s'.weakInnerOf w p → s.weakInnerOf w p :=
    fun w => ((hs.identity hsafe.tracking w).weakInnerOf p).mpr
  refine ⟨fun it key pc e hc he hp => h.checking_collector hsafe ho hs hc he hp,
    fun it key w e hc he => h.unlinking_collector hs hc he,fun w hw => ?_,
    fun t w after hw hpc => ?_⟩
  · rcases hs.load w with hload | ⟨it,key,hc⟩
    · rw [hload]
      exact h.backRef w (hof w hw)
    · -- the pointee whose `back_ref` is swapped is not `p`
      obtain ⟨e,he,hlock⟩ := hsafe.unlinking it key w hc
      have hsame := weakInnerOf_unique (hof w hw)
        (hsafe.references.weak.initialized e.pointee w hlock)
      exact absurd hsame (h.unlinking it key w e hc he)
  · rcases (hs.thread t).2 with heq | ⟨-,heq⟩ | ⟨-,x,heq⟩
    · exact h.result t w after (hof w hw) (heq.symm.trans hpc)
    · rw [heq] at hpc
      contradiction
    · rw [heq] at hpc
      contradiction

theorem Spared.step {a : Action} (h : Spared cfg p s) (hsafe : Safe cfg s)
    (ho : s.keptAlive cfg p) (hs : SystemStep cfg s a s') : Spared cfg p s' := by
  cases hs with
  | thread t op _ ht hs => exact h.thread hsafe ht hs
  | collector _ hs => exact h.collector hsafe ho hs
  | finishDestructor => exact ⟨by simp,by simp,h.backRef,h.result⟩

theorem spared_initial (cfg : Config) (p : Nat) : Spared cfg p .initial := by
  constructor <;> simp [State.initial,State.weakInnerOf]

end Steps

section Run

variable {cfg : Config} {s s' : State} {p t w : Nat} {op : Op}

theorem Spared.hands (h : Spared cfg p s) (hsafe : Safe cfg s) (hw : s.weakInnerOf w p)
    (hends : ReadEnds s t (.backRef w) op s') : Hands s s' t p := by
  cases hends with
  | guard j q hpc hload =>
    obtain rfl : p = q := Option.some.inj ((h.backRef w hw).symm.trans hload)
    obtain ⟨r,hheld⟩ := hsafe.references.records.held (t := t)
      (.inr (.inl (by rw [hpc]; simp [ThreadPc.slot])))
    have hfree := ((hsafe.references.records.holding hheld).2.published j
      (by rw [hpc]; rfl)).2
    exact .inr ⟨j,hfree,by simp⟩
  | owned r result hpc =>
    cases result with
    | none => exact absurd hpc (h.result t w none hw)
    | some q =>
      have horigin := hsafe.references.weak.yields_origin hw
        (a := .thread t .leaveSection) ⟨none,hpc⟩
      exact .inl (by simp [horigin])

theorem readsFrom_of_call (h : Spared cfg p s) (hw : s.weakInnerOf w p)
    (hop : op = .loadOwned (.backRef w) ∨ op = .borrow (.backRef w))
    (hs : step cfg s (.thread t op) = some s') : (s'.threads t).pc.readsFrom (.backRef w) := by
  simp only [step,Option.ite_none_right_eq_some] at hs
  obtain ⟨-,hs⟩ := hs
  rcases hop with rfl | rfl
  · simp only [Op.run,State.loadOwned,Option.ite_none_right_eq_some,Option.some.injEq] at hs
    obtain ⟨-,rfl⟩ := hs
    simp [ThreadPc.readsFrom]
  · simp only [Op.run,State.borrow,Option.ite_none_right_eq_some,h.backRef w hw,
      Option.some.injEq] at hs
    obtain ⟨-,rfl⟩ := hs
    simp [ThreadPc.readsFrom]

theorem SystemStep.readsFrom {a : Action} {src : Source} (hs : SystemStep cfg s a s')
    (h : Records s) (hreads : (s.threads t).pc.readsFrom src) :
    (s'.threads t).pc.readsFrom src ∨ ∃ op, a = .thread t op ∧ ReadEnds s t src op s' := by
  cases hs with
  | thread u op _ _ hs =>
    by_cases hut : t = u
    · subst hut
      exact (hs.readsFrom h hreads).imp_right (fun hends => ⟨op,rfl,hends⟩)
    · rw [hs.others hut]
      exact .inl hreads
  | collector _ hs =>
    rcases (hs.thread t).2 with heq | ⟨hpc,-⟩ | ⟨hpc,-⟩
    · exact .inl (heq ▸ hreads)
    · rw [hpc] at hreads
      exact hreads.elim
    · rw [hpc] at hreads
      exact hreads.elim
  | finishDestructor => exact .inl hreads

variable {N : Nat} {e : Execution (step cfg) N}

/-- As long as a pointee has an owner from its creation on, each `WeakSdarc` to it leads to
it: however the others run, an upgrade or a borrow returns after a bounded number of its own
steps, with a handle to that pointee or a guard for it. -/
theorem upgrade_never_fails (h₀ : e.state 0 = .initial) (hshards : 0 < cfg.shards)
    (hkept : ∀ k, k < N → (e.action k).isCompareAndSet = false ∧
      (e.state k).keptAlive cfg p) :
    (∀ k w, k ≤ N → (e.state k).weakInnerOf w p → (e.state k).load (.backRef w) = some p) ∧
    ∀ a t w op, a < N → e.action a = .thread t op →
      op = .loadOwned (.backRef w) ∨ op = .borrow (.backRef w) →
      (e.state a).weakInnerOf w p → ∀ b, a < b → b ≤ N →
      (∀ k, a < k → k < b → ((e.state k).threads t).pc.readsFrom (.backRef w)) →
      stepsIn (fun k => (e.action k).isBy t = true) (a+1) b ≤
        7 + ((e.state (a+1)).threads t).record.remaining (e.state b).recordCount ∧
      (((e.state b).threads t).pc.readsFrom (.backRef w) ∧
          ReadProceeds cfg (e.state b) t (.backRef w) ∨
        a+1 < b ∧ (e.action (b-1)).isBy t = true ∧ ((e.state b).threads t).pc = .idle ∧
          Hands (e.state (b-1)) (e.state b) t p) := by
  have hreach : ∀ k, k ≤ N →
      Reach (step cfg) (fun _ a => a.isCompareAndSet = false) .initial (e.state k) := fun k hk =>
    e.invariant (fun k => k ≤ N → Reach (step cfg) (fun _ a => a.isCompareAndSet = false)
        .initial (e.state k)) (fun _ => h₀ ▸ .refl)
      (fun j hj hprev hs _ => (hprev hj.le).tail ⟨e.action j,(hkept j hj).1,hs⟩) hk hk
  have hsafe : ∀ k, k ≤ N → Safe cfg (e.state k) := fun k hk =>
    safe_of_reach (reach_covered (hreach k hk))
  have hspared : ∀ k, k ≤ N → Spared cfg p (e.state k) := fun k hk =>
    e.invariant (fun k => Spared cfg p (e.state k)) (h₀ ▸ spared_initial cfg p)
      (fun j hj h hs => h.step (hsafe j hj.le) (hkept j hj).2 (step_cases hs)) hk
  have hweak : ∀ {j k w : Nat}, j ≤ k → k ≤ N → (e.state j).weakInnerOf w p →
      (e.state k).weakInnerOf w p := by
    intro j k w hjk hk hw
    induction k, hjk using Nat.le_induction with
    | base => exact hw
    | succ k hjk ih =>
      have hprev := ih (by omega)
      have hborn := (hsafe k (by omega)).references.weak.weakInner_born hprev
      exact ((step_cases (e.enabled k hk)).identity (hsafe k (by omega)).tracking hborn
        |>.weakInnerOf p).mp hprev
  refine ⟨fun k w hk hw => (hspared k hk).backRef w hw,
    fun a t w op ha haction hop hw b hab hb hreads => ?_⟩
  have hstart : step cfg (e.state a) (.thread t op) = some (e.state (a+1)) :=
    haction ▸ e.enabled a ha
  have ht : t < cfg.threads := (Option.ite_none_right_eq_some.mp hstart).1
  have hbegins := readsFrom_of_call (hspared a ha.le) hw hop hstart
  constructor
  · have hstarted : a+1 ≤ b := hab
    obtain ⟨hsteps,hseven,-⟩ := reads_wait_free h₀ hshards ht hstarted hb
      (fun k hak hkb => (hreads k hak hkb).reads)
    omega
  · have hproceeds : ((e.state b).threads t).pc.readsFrom (.backRef w) →
        ReadProceeds cfg (e.state b) t (.backRef w) := fun hread =>
      (hsafe b hb).references.records.readProceeds ht hshards hread
    rcases Nat.eq_or_lt_of_le hab with rfl | hlt
    · exact .inl ⟨hbegins,hproceeds hbegins⟩
    · obtain ⟨k,rfl⟩ : ∃ k, b = k+1 := ⟨b-1,by omega⟩
      rcases (step_cases (e.enabled k hb)).readsFrom (hsafe k (by omega)).references.records
        (hreads k (by omega) (by omega)) with hread | ⟨op',hk,hends⟩
      · exact .inl ⟨hread,hproceeds hread⟩
      · exact .inr ⟨hlt,by simp [hk,Action.isBy],hends.idle,(hspared k (by omega)).hands
          (hsafe k (by omega)) (hweak (by omega) (by omega) hw) hends⟩

def hop (shard old : Nat) : List Action :=
  [.thread 1 (.clone 0 shard),.thread 1 (.dropHandle 0),.thread 1 (.dropLoad old),
    .thread 1 (.dropExchange false)]

/-- The handle keeps away from the shard that the collector reads, which finds zero twice;
the tags give it away to the second pass, and then the pointee is upgraded. -/
def falseZeros : List Action :=
  [.thread 1 (.sdarcNew 10 100 0 []),.thread 1 (.onNewSdarcAllocated 0),
    .thread 1 (.downgrade 0),.thread 1 .getOrInit,.thread 1 (.newWeakInner 11 101 0),
    .thread 1 (.registerWeakInner 0),.thread 1 .setWeakInner,.thread 1 (.cloneWeakInner 0)] ++
  hop 1 0 ++ List.replicate 9 .collector ++ hop 0 1 ++ List.replicate 2 .collector ++
  hop 1 0 ++ [.collector] ++ hop 0 1 ++ List.replicate 18 .collector ++
  [.thread 2 (.loadOwned (.backRef 1)),.thread 2 .obtain,.thread 2 .obtainNext,
    .thread 2 .enterSection,.thread 2 .loadPointer,.thread 2 (.loadIncrement 0),
    .thread 2 .leaveSection]

theorem falseZeros_enabled :
    (run (step ⟨2,3,1,Nat.succ_pos 2⟩) .initial falseZeros).isSome = true := by
  decide +kernel

theorem falseZeros_upgraded : ∃ e : Execution (step ⟨2,3,1,Nat.succ_pos 2⟩) 61,
    e.action 54 = .thread 2 (.loadOwned (.backRef 1)) ∧
      stepsIn (fun k => (e.action k).isBy 2 = true) 55 61 ≤ 10 ∧
      Hands (e.state 60) (e.state 61) 2 0 := by
  refine ⟨.ofRun _ _ _ falseZeros_enabled,rfl,?_⟩
  have hreads : ∀ k, k < 61 → 54 < k →
      (((Execution.ofRun _ _ _ falseZeros_enabled).state k).threads 2).pc.readsFrom
        (.backRef 1) := by
    decide +kernel
  obtain ⟨hsteps,hend⟩ := (upgrade_never_fails (e := .ofRun _ _ _ falseZeros_enabled) (p := 0)
    rfl (by decide) (by decide +kernel)).2 54 2 1 _ (by decide) rfl (.inl rfl)
      ⟨some 0,by decide +kernel⟩ 61 (by decide) le_rfl (fun k hk hk' => hreads k hk' hk)
  refine ⟨hsteps.trans (by decide +kernel),?_⟩
  rcases hend with ⟨hread,-⟩ | ⟨-,-,-,hhands⟩
  · exact absurd hread (by decide +kernel)
  · exact hhands

end Run

end Sdarc.System
