import Sdarc.System.Descent
import Sdarc.System.OuterIteration
import Sdarc.System.Refinement
set_option autoImplicit false

/-!
What nobody uses is freed: each outer iteration runs `update_state` on every registered
pointee, and brings those that are unused closer to their destructors.
-/

namespace Sdarc.System
open Transition

section Steps

variable {cfg : Config} {s s' : State} {p n : Nat}

theorem lowers_resume {u : State} {it : Iter} {key : Nat} {result : UpdateResult}
    (hrest : AtRest s u p) (htracked : u.tracked = s.tracked)
    (hin : (s.tracked[(s.heap p).countersPtr]?).isSome)
    (hunseen : (s.heap p).ptr ∉ it.hazard)
    (hpanic : ∀ site, (u.resume it key result).collector ≠ .panicked site)
    (hother : key ≠ (s.heap p).countersPtr →
      (s.heap p).countersPtr ∈ it.todo ∧ s.AtLevel cfg p (n+1) ∨ s.AtLevel cfg p n)
    (hown : key = (s.heap p).countersPtr → s.AtLevel cfg p (n+1) ∧
      Nears cfg.shards (u.counter p) n (u.linked p) result) :
    Lowers cfg p n (u.resume it key result) := by
  have hin' : (u.tracked[(u.heap p).countersPtr]?).isSome := by
    rw [hrest.countersPtr,htracked]
    exact hin
  have hstate : u.stateOf p = s.stateOf p := hrest.stateOf (by rw [htracked])
  have hunseen' : (u.heap p).ptr ∉ it.hazard := hrest.ptr.symm ▸ hunseen
  cases result with
  | goto pc =>
    refine ⟨hin',hunseen',fun hkey => (hown (hkey.trans hrest.countersPtr)).2,?_⟩
    by_cases hkey : key = (s.heap p).countersPtr
    · exact .inl ⟨.inl (hkey.trans hrest.countersPtr.symm),hrest.level hstate (hown hkey).1⟩
    · rcases hother hkey with ⟨htodo,hl⟩ | hl
      · exact .inl ⟨.inr (hrest.countersPtr ▸ htodo),hrest.level hstate hl⟩
      · exact .inr (hrest.level hstate hl)
  | done state =>
    have hentry := tracked_setTracked u key state (u.heap p).countersPtr
    have hsome : ((u.setTracked key state).tracked[(u.heap p).countersPtr]?).isSome := by
      rw [hentry]
      split <;> simpa using hin'
    refine ⟨hsome,?_,trivial,?_⟩
    · change (u.heap p).ptr ∉ (it.classify key state).hazard
      rw [Iter.classify_hazard]
      exact hunseen'
    · by_cases hkey : key = (s.heap p).countersPtr
      · right
        have hdone : (u.resume it key (.done state)).stateOf p = state := by
          obtain ⟨e,he⟩ := Option.isSome_iff_exists.mp hin'
          rw [if_pos (hkey.trans hrest.countersPtr.symm),he] at hentry
          exact stateOf_of_some (s := (u.setTracked key state).goto _) hentry
        rw [State.AtLevel,hdone]
        exact (hown hkey).2
      · have hsame : (u.resume it key (.done state)).stateOf p = u.stateOf p := by
          rw [if_neg (fun heq => hkey (heq.trans hrest.countersPtr))] at hentry
          exact stateOf_congr hentry
        have hkept : ∀ m, s.AtLevel cfg p m → (u.resume it key (.done state)).AtLevel cfg p m := by
          intro m hl
          rw [State.AtLevel,hsame]
          exact hrest.level hstate hl
        rcases hother hkey with ⟨htodo,hl⟩ | hl
        · refine .inl ⟨?_,hkept _ hl⟩
          change (u.heap p).countersPtr ∈ (it.classify key state).todo
          rw [hrest.countersPtr,Iter.classify_todo]
          exact htodo
        · exact .inr (hkept _ hl)
  | panic site => exact absurd rfl (hpanic _)

theorem Safe.expects (h : Safe cfg s) {key : Nat} {state : TrackedCounterState}
    (hcurrent : s.collector.current = some (key,state)) (hkey : key = (s.heap p).countersPtr) :
    s.stateOf p = state := by
  obtain ⟨-,-,e,he,hst⟩ := h.tracking.lists.currentOk key state hcurrent
  exact (stateOf_of_some (hkey ▸ he)).trans hst

theorem Lowers.above (h : Lowers cfg p n s) : s.AtLevel cfg p (n+1) :=
  h.level.elim And.right (fun hl => hl.mono (Nat.le_succ n) id id)

theorem Lowers.level_or (h : Lowers cfg p n s) {P : Prop} (hP : s.toVisit p → P) :
    P ∧ s.AtLevel cfg p (n+1) ∨ s.AtLevel cfg p n :=
  h.level.imp_left (And.imp_left hP)

theorem Lowers.taking (h : Lowers cfg p n s) (hsafe : Safe cfg s) (hsafe' : Safe cfg s')
    (hp : (s.heap p).stage = .allocated) (hs : CollectorStep cfg s s') {i : Nat}
    {taken : List Entry} (hc : s.collector = .taking i taken) : Lowers cfg p n s' := by
  have hplaced := h.placed
  have hplaces := hsafe.tracking.places
  cases hs with
  | takePending shard hc hlt =>
    refine h.keep ⟨rfl,rfl,fun _ => rfl,fun _ => id,id⟩ rfl ?_ trivial
      trivial (fun _ => trivial)
    rw [State.Placed,hc] at hplaced
    rcases hplaced with ⟨j,e,hj,he,hep⟩ | ⟨e,he,-⟩ | htracked
    · rcases Nat.eq_or_lt_of_le hj with rfl | hjlt
      · exact .inr (.inl ⟨e,he,hep⟩)
      · exact .inl ⟨j,e,hjlt,by simpa [hjlt.ne'] using he,hep⟩
    · simp at he
    · exact .inr (.inr htracked)
  | track shard e rest hc hnone =>
    obtain ⟨hstage,hkey⟩ := hplaces.takenOk e (by simp [hc,CollectorPc.taken])
    by_cases hep : e.pointee = p
    · -- until now it was not tracked
      rw [hep] at hkey
      have hrest : AtRest s { s with
          tracked := s.tracked.insert e.countersPtr ⟨e.pointee,.defaultState⟩
          collector := .taking shard rest } p := ⟨rfl,rfl,fun _ => rfl,fun _ => id,id⟩
      have hentry : (s.tracked.insert e.countersPtr ⟨e.pointee,.defaultState⟩)[
          (s.heap p).countersPtr]? = some ⟨e.pointee,.defaultState⟩ := by simp [hkey]
      have hstate := stateOf_of_some (s := { s with
          tracked := s.tracked.insert e.countersPtr ⟨e.pointee,.defaultState⟩
          collector := .taking shard rest }) hentry
      have hsame : s.stateOf p = .defaultState := by rw [State.stateOf,hkey,hnone]
      refine ⟨.inr (.inr (by rw [hentry]; rfl)),trivial,trivial,?_⟩
      exact h.level.imp (fun hl => ⟨trivial,hrest.level (hstate.trans hsame.symm) hl.2⟩)
        (hrest.level (hstate.trans hsame.symm))
    · have hne : e.countersPtr ≠ (s.heap p).countersPtr := fun heq =>
        hep (hplaces.distinct _ _ (hplaces.slot _ hstage) (hplaces.slot _ hp) (hkey.trans heq))
      have hentry : (s.tracked.insert e.countersPtr ⟨e.pointee,.defaultState⟩)[
          (s.heap p).countersPtr]? = s.tracked[(s.heap p).countersPtr]? := by
        simp [Std.TreeMap.getElem?_insert,hne]
      refine h.keep ⟨rfl,rfl,fun _ => rfl,fun _ => id,id⟩ hentry ?_ trivial
        trivial (fun _ => trivial)
      rw [State.Placed,hc] at hplaced
      rcases hplaced with hpending | ⟨x,hx,hxp⟩ | htracked
      · exact .inl hpending
      · rcases List.mem_cons.mp hx with rfl | hx
        · exact absurd hxp hep
        · exact .inr (.inl ⟨x,hx,hxp⟩)
      · exact .inr (.inr (hentry ▸ htracked))
  | startIteration shard hc hge =>
    rw [State.Placed,hc] at hplaced
    have htracked : (s.tracked[(s.heap p).countersPtr]?).isSome := by
      rcases hplaced with ⟨j,e,hj,he,-⟩ | ⟨e,he,-⟩ | htracked
      · rw [hplaces.pendingShards j (hge.trans hj)] at he
        simp at he
      · simp at he
      · exact htracked
    refine h.keep (.goto _) rfl htracked ⟨le_rfl,Finset.notMem_empty _⟩ trivial (fun _ => ?_)
    change (s.heap p).countersPtr ∈ s.tracked.keys
    exact Std.TreeMap.mem_keys.mpr (Std.TreeMap.mem_iff_isSome_getElem?.mpr htracked)
  | replaced => exact absurd rfl (hsafe'.notPanicked _)
  | _ => cases hc.symm.trans ‹s.collector = _›

theorem Lowers.traversing (h : Lowers cfg p n s) (hun : s.Unused cfg p)
    (hs : CollectorStep cfg s s') {i : Iter} {l x y : Nat}
    (hc : s.collector = .traversing i l x y) : Lowers cfg p n s' := by
  have hplaced := h.placed
  have hunseen := h.unseen
  cases hs with
  | readEmptySlot it len r j hc | poll it len r j hc =>
    rw [State.Placed,hc] at hplaced
    rw [State.Unseen,hc] at hunseen
    refine h.keep (.goto _) rfl hplaced hunseen trivial (fun hv => ?_)
    rw [State.toVisit,hc] at hv
    exact hv
  | endTraversal it len r j hc =>
    rw [State.Placed,hc] at hplaced
    rw [State.Unseen,hc] at hunseen
    refine h.keep (.goto _) rfl hplaced hunseen.2 trivial (fun hv => ?_)
    rw [State.toVisit,hc] at hv
    exact hv
  | readSlot it len r j address hc hr hj hslot =>
    rw [State.Placed,hc] at hplaced
    rw [State.Unseen,hc] at hunseen
    obtain ⟨hlen,hnot⟩ := hunseen
    refine h.keep (.goto _) rfl hplaced ⟨hlen,?_⟩ trivial (fun hv => ?_)
    · change (s.heap p).ptr ∉ insert address it.hazard
      rw [Finset.mem_insert,not_or]
      refine ⟨?_,hnot⟩
      rintro rfl
      exact hun.slots r (hr.trans_le hlen) j hj hslot
    · rw [State.toVisit,hc] at hv
      exact hv
  | spin => exact h
  | _ => cases hc.symm.trans ‹s.collector = _›

theorem Lowers.visiting (h : Lowers cfg p n s) (hsafe : Safe cfg s) (hsafe' : Safe cfg s')
    (hp : (s.heap p).stage = .allocated) (hs : CollectorStep cfg s s') {i : Iter}
    (hc : s.collector = .visiting i) : Lowers cfg p n s' := by
  have hplaced := h.placed
  have hunseen := h.unseen
  cases hs with
  | startFreeing it hc htodo =>
    rw [State.Placed,hc] at hplaced
    refine h.keep (.goto _) rfl hplaced trivial trivial (fun hv => ?_)
    rw [State.toVisit,hc] at hv
    simp [htodo] at hv
  | skip it key todo hc htodo hnone =>
    rw [State.Placed,hc] at hplaced
    rw [State.Unseen,hc] at hunseen
    refine h.keep (.goto _) rfl hplaced hunseen trivial (fun hv => ?_)
    rw [State.toVisit,hc] at hv
    simp only [htodo,List.mem_cons] at hv
    rcases hv with heq | hv
    · simp [heq,hnone] at hplaced
    · exact hv
  | hazard it key todo e hc htodo he hmem =>
    rw [State.Placed,hc] at hplaced
    rw [State.Unseen,hc] at hunseen
    have hne : key ≠ (s.heap p).countersPtr := by
      rintro rfl
      rw [hsafe.pointee_of_tracked hp he] at hmem
      exact hunseen hmem
    have hentry := tracked_setTracked s key .defaultState (s.heap p).countersPtr
    rw [if_neg hne] at hentry
    refine h.keep ⟨rfl,rfl,fun _ => rfl,fun _ => id,id⟩ hentry ?_ hunseen trivial (fun hv => ?_)
    · change ((s.setTracked key .defaultState).tracked[(s.heap p).countersPtr]?).isSome
      rw [hentry]
      exact hplaced
    · rw [State.toVisit,hc] at hv
      simp only [htodo,List.mem_cons] at hv
      exact hv.resolve_left hne.symm
  | startUpdate it key todo e hc htodo he hno =>
    rw [State.Placed,hc] at hplaced
    rw [State.Unseen,hc] at hunseen
    refine lowers_resume .refl rfl hplaced hunseen hsafe'.notPanicked
      (fun hne => h.level_or (fun hv => ?_)) (fun _ => ⟨h.above,Gathered.start ?_⟩)
    · rw [State.toVisit,hc] at hv
      simp only [htodo,List.mem_cons] at hv
      exact hv.resolve_left hne.symm
    · intro hready
      rw [hready] at hsafe'
      exact hsafe'.notPanicked _ rfl
  | _ => cases hc.symm.trans ‹s.collector = _›

theorem Lowers.checking (h : Lowers cfg p n s) (hsafe : Safe cfg s) (hsafe' : Safe cfg s')
    (hp : (s.heap p).stage = .allocated) (hun : s.Unused cfg p)
    (hs : CollectorStep cfg s s') {i : Iter} {x : Nat} {pc : UpdatePc}
    (hc : s.collector = .checking i x pc) : Lowers cfg p n s' := by
  have hplaced := h.placed
  have hunseen := h.unseen
  have hgathering := h.gathering
  cases hs with
  | readShard it key k pc hc hk hlt hclear =>
    rw [State.Placed,hc] at hplaced
    rw [State.Unseen,hc] at hunseen
    rw [State.Gathering,hc] at hgathering
    refine lowers_resume .refl rfl hplaced hunseen hsafe'.notPanicked
      (fun hne => h.level_or (fun hv => ?_)) (fun hkey => ⟨h.above,?_⟩)
    · rw [State.toVisit,hc] at hv
      exact hv.resolve_left hne
    · have hstate : s.stateOf p = pc.expects :=
        hsafe.expects (by simp [hc,CollectorPc.current]) hkey
      have hl := h.above
      rw [State.AtLevel,hstate] at hl
      subst hkey
      exact (hgathering rfl).visit hk hlt hclear hl
  | clearTag it key k sum hc hlt =>
    rw [State.Placed,hc] at hplaced
    rw [State.Unseen,hc] at hunseen
    rw [State.Gathering,hc] at hgathering
    have hrest := AtRest.clearTag (s := s) (p := p) key k
      (.checking it key (.clearTags (k+1) (sum + (s.counters key k).refCount)))
    refine h.keep hrest rfl hplaced hunseen (fun hkey => ?_) (fun hv => ?_)
    · obtain ⟨hsum,htags⟩ := (hgathering hkey).mono hrest.count hrest.tag
      have hcleared :
          ((s.setCounter key k (s.counters key k).clearTag).counter p k).tag = false := by
        rw [State.counter,counters_setCounter,if_pos ⟨hkey.symm,rfl⟩]
        rfl
      refine ⟨?_,fun i hi => ?_⟩
      · rw [Finset.sum_range_succ,← hsum,hrest.count k,hkey]
        rfl
      · rcases Nat.lt_succ_iff_lt_or_eq.mp hi with hlt | rfl
        · exact htags i hlt
        · exact hcleared
    · rw [State.toVisit,hc] at hv
      exact hv
  | finishPass it key k pc hc hk hge =>
    rw [State.Placed,hc] at hplaced
    rw [State.Unseen,hc] at hunseen
    rw [State.Gathering,hc] at hgathering
    refine lowers_resume .refl rfl hplaced hunseen hsafe'.notPanicked
      (fun hne => h.level_or (fun hv => ?_)) (fun hkey => ⟨h.above,?_⟩)
    · rw [State.toVisit,hc] at hv
      exact hv.resolve_left hne
    · have hstate : s.stateOf p = pc.expects :=
        hsafe.expects (by simp [hc,CollectorPc.current]) hkey
      have hl := h.above
      rw [State.AtLevel,hstate] at hl
      obtain rfl : k = cfg.shards := le_antisymm (hsafe.position it key pc k hc hk) hge
      exact (hgathering hkey).finish hk (hsafe.sum_of_unused hp hun) hl
  | untracked it key hc hnone =>
    rw [State.Placed,hc] at hplaced
    rw [State.Unseen,hc] at hunseen
    refine h.keep (.goto _) rfl hplaced hunseen trivial (fun hv => ?_)
    rw [State.toVisit,hc] at hv
    refine hv.resolve_left ?_
    rintro rfl
    simp [hnone] at hplaced
  | weakRefNotInvolved it key e hc =>
    rw [State.Placed,hc] at hplaced
    rw [State.Unseen,hc] at hunseen
    refine lowers_resume .refl rfl hplaced hunseen hsafe'.notPanicked
      (fun hne => h.level_or (fun hv => ?_)) (fun _ => ⟨h.above,trivial⟩)
    rw [State.toVisit,hc] at hv
    exact hv.resolve_left hne
  | foundWeakInner it key w e hc =>
    rw [State.Placed,hc] at hplaced
    rw [State.Unseen,hc] at hunseen
    rw [State.Gathering,hc] at hgathering
    refine h.keep (.goto _) rfl hplaced hunseen hgathering (fun hv => ?_)
    rw [State.toVisit,hc] at hv
    exact hv
  | _ => cases hc.symm.trans ‹s.collector = _›

theorem Lowers.unlinking (h : Lowers cfg p n s) (hsafe : Safe cfg s) (hsafe' : Safe cfg s')
    (hp : (s.heap p).stage = .allocated) (hs : CollectorStep cfg s s') {i : Iter} {x y : Nat}
    (hc : s.collector = .unlinking i x y) : Lowers cfg p n s' := by
  have hplaced := h.placed
  have hunseen := h.unseen
  have hgathering := h.gathering
  cases hs with
  | weakBackRefWasAlreadyNull it key w hc =>
    rw [State.Placed,hc] at hplaced
    rw [State.Unseen,hc] at hunseen
    refine lowers_resume .refl rfl hplaced hunseen hsafe'.notPanicked
      (fun hne => h.level_or (fun hv => ?_)) (fun _ => ⟨h.above,trivial⟩)
    rw [State.toVisit,hc] at hv
    exact hv.resolve_left hne
  | weakBackRefCleared it key w origin q hc hdata =>
    rw [State.Placed,hc] at hplaced
    rw [State.Unseen,hc] at hunseen
    rw [State.Gathering,hc] at hgathering
    have hrest := AtRest.clear cfg (p := p) hdata
    refine lowers_resume hrest rfl hplaced hunseen hsafe'.notPanicked
      (fun hne => h.level_or (fun hv => ?_)) (fun hkey => ⟨h.above,?_⟩)
    · rw [State.toVisit,hc] at hv
      exact hv.resolve_left hne
    · obtain ⟨e,he,hw⟩ := hsafe.unlinking it key w hc
      rw [hsafe.pointee_of_tracked hp (hkey ▸ he)] at hw
      have hstate : s.stateOf p = .requiresReChecking :=
        hsafe.expects (by simp [hc,CollectorPc.current]) hkey
      have hl := h.above
      rw [State.AtLevel,hstate] at hl
      have hload : s.load (.backRef w) = some q := load_backRef.mpr ⟨origin,hdata⟩
      obtain rfl : q = p := weakInnerOf_unique (hsafe.references.weak.initialized p w hw)
        (hsafe.references.weak.load_origin hload)
      have htwo := hl.2.1 ⟨w,hw,hload⟩
      refine ⟨by omega,?_,?_⟩
      · rintro ⟨x,hx,hload'⟩
        rw [State.setInner,field_update SdarcInner.weakInnerRef (by rfl)] at hx
        obtain rfl : w = x := OnceLock.initialized.inj (hw.symm.trans hx)
        simp [State.load] at hload'
      · rintro ⟨i,hi,htag⟩
        exact absurd htag (by rw [hrest.tag i (hgathering hkey i hi)]; exact Bool.false_ne_true)
  | _ => cases hc.symm.trans ‹s.collector = _›

theorem Lowers.freeing (h : Lowers cfg p n s) (hsafe : Safe cfg s) (hsafe' : Safe cfg s')
    (hp : (s.heap p).stage = .allocated) (hp' : ¬ s'.freed p)
    (hs : CollectorStep cfg s s') {i : Iter}
    (hc : s.collector = .freeing i) : Lowers cfg p n s' := by
  have hplaced := h.placed
  cases hs with
  | nextIteration it hc =>
    rw [State.Placed,hc] at hplaced
    refine h.keep ⟨rfl,rfl,fun _ => rfl,fun _ => id,id⟩ rfl hplaced ⟨le_rfl,Finset.notMem_empty _⟩
      trivial (fun hv => ?_)
    rw [State.toVisit,hc] at hv
    exact hv.elim
  | endOuterIteration it hc =>
    refine h.keep ⟨rfl,rfl,fun _ => rfl,fun _ => id,id⟩ rfl trivial trivial
      trivial (fun hv => ?_)
    rw [State.toVisit,hc] at hv
    exact hv.elim
  | free it key toFree e hc hf he hready hptr =>
    rw [State.Placed,hc] at hplaced
    have hne : key ≠ (s.heap p).countersPtr := by
      rintro rfl
      have hep := hsafe.pointee_of_tracked hp he
      exact hp' (.inl (by simp [hep]))
    have hpq : p ≠ e.pointee := by
      rintro rfl
      exact hne hptr.symm
    have hentry : (s.tracked.erase key)[(s.heap p).countersPtr]? =
        s.tracked[(s.heap p).countersPtr]? := by simp [Std.TreeMap.getElem?_erase,hne]
    refine h.keep (.of_setInner hpq rfl rfl rfl) hentry ?_ trivial trivial
      (fun hv => ?_)
    · rw [State.Placed]
      simpa [hpq,hne] using hplaced
    · rw [State.toVisit,hc] at hv
      exact hv.elim
  | removedUntracked | notReadyToFree | countersPtrMismatch =>
    exact absurd rfl (hsafe'.notPanicked _)
  | _ => cases hc.symm.trans ‹s.collector = _›

theorem Lowers.dropping (h : Lowers cfg p n s) (hsafe : Safe cfg s)
    (hp : (s.heap p).stage = .allocated) (hs : CollectorStep cfg s s') {i : Iter} {x : Nat}
    {phase : DropPhase} (hc : s.collector = .dropping i x phase) : Lowers cfg p n s' := by
  have hplaced := h.placed
  cases hs with
  | dropCounters it q hc | dropMemory it q hc | dropWeakInnerRef it q w hc =>
    rw [State.Placed,hc] at hplaced
    have hpq : p ≠ q := by
      rintro rfl
      simp [hsafe.tracking.lists.dropping it p _ hc] at hp
    refine h.keep (.of_setInner hpq rfl rfl rfl) rfl ?_ trivial trivial
      (fun hv => ?_)
    · rw [State.Placed]
      simpa [hpq] using hplaced
    · rw [State.toVisit,hc] at hv
      exact hv.elim
  | noWeakInnerRef it q hc | dropWeakSdarcInner it q origin backRef hc =>
    rw [State.Placed,hc] at hplaced
    refine h.keep ⟨rfl,rfl,fun _ => rfl,fun _ => id,id⟩ rfl hplaced trivial
      trivial (fun hv => ?_)
    rw [State.toVisit,hc] at hv
    exact hv.elim
  | _ => cases hc.symm.trans ‹s.collector = _›

theorem CollectorStep.lowers (h : Lowers cfg p n s) (hsafe : Safe cfg s) (hsafe' : Safe cfg s')
    (hp : (s.heap p).stage = .allocated) (hp' : ¬ s'.freed p) (hun : s.Unused cfg p)
    (hbusy : s.collector ≠ .parked) (hs : CollectorStep cfg s s') : Lowers cfg p n s' := by
  cases hc : s.collector with
  | parked => exact absurd hc hbusy
  | taking shard taken => exact h.taking hsafe hsafe' hp hs hc
  | traversing it len r j => exact h.traversing hun hs hc
  | visiting it => exact h.visiting hsafe hsafe' hp hs hc
  | checking it key pc => exact h.checking hsafe hsafe' hp hun hs hc
  | unlinking it key w => exact h.unlinking hsafe hsafe' hp hs hc
  | freeing it => exact h.freeing hsafe hsafe' hp hp' hs hc
  | dropping it q phase => exact h.dropping hsafe hp hs hc
  | panicked site => exact absurd hc (hsafe.notPanicked site)

theorem AtLevel.woken (h : s.AtLevel cfg p (n+1)) (hsafe : Safe cfg s)
    (hparked : s.collector = .parked) (hp : (s.heap p).stage = .allocated)
    (hun : s.Unused cfg p) : Lowers cfg p n { s with
      toNotify := s.collectionWaiting
      collectionWaiting := []
      collector := .taking 0 [] } := by
  refine ⟨?_,trivial,trivial,.inl ⟨trivial,h⟩⟩
  have honce := hsafe.tracking.places.once p
  have hregistering : registeringCount cfg s p = 0 := by
    unfold registeringCount registeringIn
    refine Finset.sum_eq_zero (fun t ht => ?_)
    have hown := owned_le_owners (s := s) (p := p) (Finset.mem_range.mp ht)
    rw [hun.owners] at hown
    cases hpc : (s.threads t).pc <;> simp_all [ThreadPc.registers,ThreadPc.owned]
  have htaken : takenCount s p = 0 := by simp [takenCount,hparked,CollectorPc.taken]
  rw [if_pos hp,hregistering,htaken] at honce
  rw [State.Placed]
  by_cases htracked : trackedCount s p = 0
  · left
    have hpos : pendingCount cfg s p ≠ 0 := by omega
    obtain ⟨j,-,hj⟩ := Finset.exists_ne_zero_of_sum_ne_zero hpos
    obtain ⟨e,he,hep⟩ := List.countP_pos_iff.mp (Nat.pos_of_ne_zero hj)
    exact ⟨j,e,Nat.zero_le j,he,by simpa using hep⟩
  · right; right
    unfold trackedCount at htracked
    split at htracked
    · rename_i e he
      change (s.tracked[(s.heap p).countersPtr]?).isSome
      rw [he]
      rfl
    · contradiction

theorem SystemStep.stage_allocated {a : Action} (hs : SystemStep cfg s a s') (hsafe : Safe cfg s)
    (hp : (s.heap p).stage = .allocated) (hp' : ¬ s'.freed p) :
    (s'.heap p).stage = .allocated := by
  cases hs with
  | thread t op _ _ hs =>
    have hborn := hsafe.tracking.places.lt_nextPointee (p := p) (by simp [hp])
    exact (hs.frame (.inl hborn.ne)).2.2.trans hp
  | collector _ hs =>
    have hborn := hs.stage_born (p := p) (by simp [hp])
    rw [State.freed,not_or] at hp'
    cases hstage : (s'.heap p).stage <;> simp_all
  | finishDestructor => exact hp

end Steps

section Run

variable {cfg : Config} {s s' : State} {p n : Nat}

/-- An unused pointee is at the level `n` when the collector is parked, or it will be at the
end of the outer iteration, if it is still there. -/
def Descends (cfg : Config) (p n : Nat) (s : State) : Prop :=
  ¬ s.freed p → (s.heap p).stage = .allocated ∧
    (s.collector = .parked → s.AtLevel cfg p n) ∧
    (s.collector ≠ .parked → Lowers cfg p n s)

theorem Lowers.parked (h : Lowers cfg p n s) (hparked : s.collector = .parked) :
    s.AtLevel cfg p n := by
  refine h.level.elim (fun hv => ?_) id
  have hvisit := hv.1
  rw [State.toVisit,hparked] at hvisit
  exact hvisit.elim

theorem SystemStep.descends {a : Action} (h : Descends cfg p n s) (hsafe : Safe cfg s)
    (hsafe' : Safe cfg s') (hun : ¬ s.freed p → s.Unused cfg p) (hs : SystemStep cfg s a s') :
    Descends cfg p n s' := by
  intro hp'
  have hfreed : ¬ s.freed p := fun hf => hp' (hs.freed_stays hsafe.tracking hf)
  obtain ⟨hp,hparked,hbusy⟩ := h hfreed
  have hunused := hun hfreed
  have hof : Lowers cfg p n s' → (s'.collector = .parked → s'.AtLevel cfg p n) ∧
      (s'.collector ≠ .parked → Lowers cfg p n s') := fun hl => ⟨hl.parked,fun _ => hl⟩
  refine ⟨hs.stage_allocated hsafe hp hp',?_⟩
  by_cases hc : s.collector = .parked
  · cases hs with
    | thread t op _ ht hs =>
      refine ⟨fun _ => ?_,fun hne => absurd (hs.collector.1.trans hc) hne⟩
      have hrest := hs.atRest hsafe ht hp hunused
      exact hrest.level (hrest.stateOf (by rw [hs.collector.2])) (hparked hc)
    | collector _ hs =>
      cases hs with
      | wake =>
        exact hof (AtLevel.woken ((hparked hc).mono (Nat.le_succ n) id id) hsafe hc hp hunused)
      | _ => simp_all
    | finishDestructor panicked it q hdropping => simp [hc] at hdropping
  · have hl := hbusy hc
    cases hs with
    | thread t op _ ht hs => exact hof (hs.lowers hl hsafe ht hp hunused)
    | collector _ hs => exact hof (hs.lowers hl hsafe hsafe' hp hp' hunused hc)
    | finishDestructor panicked it q hdropping =>
      have hplaced := hl.placed
      rw [State.Placed,hdropping] at hplaced
      refine hof (hl.keep (.goto _) rfl hplaced trivial trivial
        (fun hv => ?_))
      rw [State.toVisit,hdropping] at hv
      exact hv.elim

variable {N : Nat} {e : Execution (step cfg) N} {a b : Nat → Nat} {i k : Nat}

theorem descends_later (h₀ : e.state 0 = .initial)
    (hcov : ∀ k, k < N → (e.state k).covered cfg (e.action k)) (hik : i ≤ k) (hk : k ≤ N)
    (hun : ∀ j, i ≤ j → j < k → ¬ (e.state j).freed p → (e.state j).Unused cfg p)
    (h : Descends cfg p n (e.state i)) : Descends cfg p n (e.state k) := by
  induction k, hik using Nat.le_induction with
  | base => exact h
  | succ k hik ih =>
    exact (step_cases (e.enabled k hk)).descends
      (ih (by omega) (fun j hij hjk => hun j hij (by omega)))
      (safe_of_reach (reach_state h₀ hcov (by omega))) (safe_of_reach (reach_state h₀ hcov hk))
      (hun k hik (by omega))

theorem OuterIteration.descends {a b : Nat} (h : OuterIteration e a b)
    (h₀ : e.state 0 = .initial) (hcov : ∀ k, k < N → (e.state k).covered cfg (e.action k))
    (hun : ∀ j, a ≤ j → j < b → ¬ (e.state j).freed p → (e.state j).Unused cfg p)
    (hlevel : Descends cfg p (n+1) (e.state a)) : Descends cfg p n (e.state b) := by
  have hab := h.lt
  have hsafe := safe_of_reach (reach_state h₀ hcov (hab.le.trans h.bound))
  refine descends_later h₀ hcov hab h.bound (fun j haj hjb => hun j (by omega) hjb) ?_
  rw [h.woken]
  intro hfreed
  obtain ⟨hp,hparked,-⟩ := hlevel hfreed
  have hl := AtLevel.woken (hparked h.parked) hsafe h.parked hp
    (hun a le_rfl hab hfreed)
  exact ⟨hp,nofun,fun _ => hl⟩

theorem freed_of_descends (hsafe : Safe cfg s) (hparked : s.collector = .parked)
    (h : Descends cfg p 0 s) : s.freed p := by
  by_contra hfreed
  have hlevel := (h hfreed).2.1 hparked
  rw [State.AtLevel] at hlevel
  cases hstate : s.stateOf p with
  | defaultState =>
    rw [hstate] at hlevel
    have hthree : 3 ≤ 0 := hlevel
    contradiction
  | requiresReChecking =>
    rw [hstate] at hlevel
    have hone : 1 ≤ 0 := hlevel.1
    contradiction
  | readyToFree =>
    unfold State.stateOf at hstate
    split at hstate
    · rename_i e he
      have hmem := (hsafe.tracking.lists.ready (by simp [hparked,CollectorPc.isPanicked]) _).mpr
        ⟨e,he,hstate⟩
      simp [hparked,CollectorPc.toFree] at hmem
    · contradiction

/-- Every pointee that nobody uses any more is freed by the end of the fourth outer iteration,
whatever threads and destructors do in between. -/
theorem unused_is_freed (h₀ : e.state 0 = .initial)
    (hcov : ∀ k, k < N → (e.state k).covered cfg (e.action k))
    (houter : ∀ i, i < 4 → OuterIteration e (a i) (b i)) (hnext : ∀ i, i < 3 → b i ≤ a (i+1))
    (hp : ((e.state (a 0)).heap p).stage = .allocated)
    (hun : ∀ k, a 0 ≤ k → k < b 3 → ¬ (e.state k).freed p → (e.state k).Unused cfg p) :
    (e.state (b 3)).freed p := by
  have hsafe : ∀ j, j ≤ N → Safe cfg (e.state j) := fun j hj =>
    safe_of_reach (reach_state h₀ hcov hj)
  have hbetween : ∀ i, i < 4 → a 0 ≤ a i ∧ b i ≤ b 3 := by
    have h₀ := (houter 0 (by decide)).lt
    have h₁ := (houter 1 (by decide)).lt
    have h₂ := (houter 2 (by decide)).lt
    have h₃ := (houter 3 (by decide)).lt
    have hn₀ := hnext 0 (by decide)
    have hn₁ := hnext 1 (by decide)
    have hn₂ := hnext 2 (by decide)
    intro i hi
    obtain rfl | rfl | rfl | rfl : i = 0 ∨ i = 1 ∨ i = 2 ∨ i = 3 := by omega
    all_goals simp only [Nat.zero_add,Nat.reduceAdd] at hn₀ hn₁ hn₂
    all_goals omega
  have hall : ∀ i, i < 4 → Descends cfg p (3-i) (e.state (b i)) := by
    intro i
    induction i with
    | zero =>
      intro hi
      have hiter := houter 0 hi
      refine hiter.descends h₀ hcov (fun j haj hjb => hun j haj (hjb.trans_le (hbetween 0 hi).2))
        (fun _ => ⟨hp,fun _ => ?_,fun hbusy => absurd hiter.parked hbusy⟩)
      rw [State.AtLevel]
      cases (e.state (a 0)).stateOf p with
      | readyToFree => trivial
      | defaultState => exact (by decide : 3 ≤ 4)
      | requiresReChecking => exact ⟨by decide,fun _ => by decide,fun _ => by decide⟩
    | succ i ih =>
      intro hi
      have hiter := houter (i+1) hi
      have hle := hnext i (by omega)
      have hab := hiter.lt
      have hi₀ := (houter i (by omega)).lt
      obtain ⟨ha₀,hb₀⟩ := hbetween i (by omega)
      obtain ⟨ha₁,hb₁⟩ := hbetween (i+1) hi
      have hlevel := descends_later h₀ hcov hle (hab.le.trans hiter.bound)
        (fun j hj hj' => hun j (by omega) (by omega)) (ih (by omega))
      have hthree : 3 - i = 3 - (i+1) + 1 := by omega
      rw [hthree] at hlevel
      exact hiter.descends h₀ hcov (fun j hj hj' => hun j (by omega) (by omega)) hlevel
  have hlast := houter 3 (by decide)
  exact freed_of_descends (hsafe _ hlast.bound) hlast.ended (hall 3 (by decide))

/-- An unused pointee with a `WeakSdarcInner` is found with a tag, which an upgrade has left
behind: no earlier iteration frees it. -/
def upgradedThenUnused : List Action :=
  [.thread 1 (.sdarcNew 10 100 0 []),.thread 1 (.onNewSdarcAllocated 0),
    .thread 1 (.downgrade 0),.thread 1 .getOrInit,.thread 1 (.newWeakInner 11 101 0),
    .thread 1 (.registerWeakInner 0),.thread 1 .setWeakInner,.thread 1 (.cloneWeakInner 0),
    .thread 1 (.dropHandle 0),.thread 1 (.dropLoad 0),.thread 1 (.dropExchange false)] ++
  List.replicate 16 .collector ++
  [.thread 2 (.loadOwned (.backRef 1)),.thread 2 .obtain,.thread 2 .obtainNext,
    .thread 2 .enterSection,.thread 2 .loadPointer,.thread 2 (.loadIncrement 0),
    .thread 2 .leaveSection,.thread 2 (.dropHandle 0),.thread 2 (.dropLoad 0),
    .thread 2 (.dropExchange false)] ++
  List.replicate 119 .collector ++
  [.thread 0 (.dropLoad 0),.thread 0 (.dropExchange false),.finishDestructor false,
    .collector,.collector]

theorem upgradedThenUnused_enabled :
    (run (step ⟨1,3,1,by decide⟩) .initial upgradedThenUnused).isSome = true := by
  decide +kernel

theorem upgradedThenUnused_freed : ∃ e : Execution (step ⟨1,3,1,by decide⟩) 161,
    e.state 0 = .initial ∧ ¬ (e.state 124).freed 0 ∧ (e.state 161).freed 0 := by
  have hwithin : ∀ i, i < 4 → ∀ j, j < [64,94,124,161].getD i 0 → [37,64,94,124].getD i 0 < j →
      ((Execution.ofRun _ _ _ upgradedThenUnused_enabled).state j).collector ≠ .parked := by
    decide +kernel
  have hunused : ∀ k, k < 161 → 37 ≤ k →
      ((Execution.ofRun _ _ _ upgradedThenUnused_enabled).state k).freed 0 ∨
        ((Execution.ofRun _ _ _ upgradedThenUnused_enabled).state k).Unused ⟨1,3,1,by decide⟩ 0 := by
    decide +kernel
  refine ⟨.ofRun _ _ _ upgradedThenUnused_enabled,rfl,by decide +kernel,
    unused_is_freed (a := fun i => [37,64,94,124].getD i 0)
      (b := fun i => [64,94,124,161].getD i 0) rfl (by decide +kernel) (fun i hi => ?_)
      (by decide) (by decide +kernel)
      (fun k hk hkb hfreed => (hunused k hkb hk).resolve_left hfreed)⟩
  refine ⟨⟨?_,?_,?_,?_,fun j hj hj' => hwithin i hi j hj' hj⟩,?_⟩
  all_goals
    revert i
    decide +kernel

end Run

end Sdarc.System
