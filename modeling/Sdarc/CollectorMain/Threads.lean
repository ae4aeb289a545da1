import Mathlib.Data.List.Nodup
import Sdarc.Transition
set_option autoImplicit false

/-!
`collector_thread_main` and the threads that call `collector_update_now_and_wait`. A
request is the number of its channel; only `park_timeout` consumes the unpark token.
-/

namespace Sdarc.CollectorMain
open Transition

structure Config where
  shards : Nat
  threads : Nat

/-- Where a thread stands in `collector_update_now_and_wait`, with its sender. -/
inductive CallerPc where
  | idle
  | locking (sender : Nat)
  | pushing (sender : Nat)
  | unparking (sender : Nat)
  | unlocking (sender : Nat)
  | receiving (sender : Nat)
  deriving DecidableEq, Repr

/-- Where the collector stands in its outer loop. `taking` has the next shard and what is
left of the vector just taken. -/
inductive Phase where
  | starting
  | requesting
  | taking (deep : Bool) (shard : Nat) (taken : List Nat)
  | collecting (deep : Bool)
  | notifying
  | parking
  | parked
  deriving DecidableEq, Repr

structure State where
  threads : Nat → CallerPc
  /-- Which thread has locked `collection_waiting`. -/
  lock : Option Nat
  collectionWaiting : List Nat
  nextSender : Nat
  /-- The senders that have been sent to, in order. -/
  sent : List Nat
  unparkToken : Bool
  pendingToTrack : Nat → List Nat
  nextPointee : Nat
  trackedCounters : List Nat
  freed : List Nat
  toNotify : List Nat
  outerIterationCounter : Nat
  collector : Phase

def State.initial : State where
  threads _ := .idle
  lock := none
  collectionWaiting := []
  nextSender := 0
  sent := []
  unparkToken := false
  pendingToTrack _ := []
  nextPointee := 0
  trackedCounters := []
  freed := []
  toNotify := []
  outerIterationCounter := 0
  collector := .starting

namespace State

variable (s : State)

@[simp] def setThread (t : Nat) (pc : CallerPc) : State :=
  { s with threads := Function.update s.threads t pc }

@[simp] def goto (phase : Phase) : State := { s with collector := phase }

def call (t : Nat) : Option State :=
  match s.threads t with
  | .idle => some { s.setThread t (.locking s.nextSender) with nextSender := s.nextSender + 1 }
  | .locking x =>
      if s.lock = none then some { s.setThread t (.pushing x) with lock := some t } else none
  | .pushing x =>
      some { s.setThread t (.unparking x) with collectionWaiting := s.collectionWaiting ++ [x] }
  | .unparking x => some { s.setThread t (.unlocking x) with unparkToken := true }
  | .unlocking x => some { s.setThread t (.receiving x) with lock := none }
  | .receiving x => if x ∈ s.sent then some (s.setThread t .idle) else none

/-- `on_new_sdarc_allocated`, by any thread, with `shard` the current one. -/
def onNewSdarcAllocated (cfg : Config) (shard : Nat) : Option State :=
  if shard < cfg.shards then
    some { s with
      pendingToTrack := Function.update s.pendingToTrack shard
        (s.pendingToTrack shard ++ [s.nextPointee])
      nextPointee := s.nextPointee + 1 }
  else none

def collect (cfg : Config) : Option State :=
  match s.collector with
  | .starting =>
      some { s with
        outerIterationCounter := s.outerIterationCounter + 1
        collector := .requesting }
  | .requesting =>
      if s.lock = none then
        some { s with
          toNotify := s.collectionWaiting
          collectionWaiting := []
          collector := .taking (!s.collectionWaiting.isEmpty) 0 [] }
      else none
  | .taking deep shard (p :: taken) =>
      some { s with
        trackedCounters := s.trackedCounters ++ [p]
        collector := .taking deep shard taken }
  | .taking deep shard [] =>
      if shard < cfg.shards then
        some { s with
          pendingToTrack := Function.update s.pendingToTrack shard []
          collector := .taking deep (shard+1) (s.pendingToTrack shard) }
      else some (s.goto (.collecting deep))
  | .collecting _ => none
  | .notifying =>
      match s.toNotify with
      | [] => some (s.goto .parking)
      | x :: rest => some { s with toNotify := rest, sent := s.sent ++ [x] }
  | .parking =>
      if s.unparkToken then some { s with unparkToken := false, collector := .starting }
      else some (s.goto .parked)
  | .parked =>
      if s.unparkToken then some { s with unparkToken := false, collector := .starting }
      else none

def free (p : Nat) : Option State :=
  match s.collector with
  | .collecting _ =>
      if p ∈ s.trackedCounters then
        some { s with
          trackedCounters := s.trackedCounters.erase p
          freed := p :: s.freed }
      else none
  | _ => none

def finishCollection : Option State :=
  match s.collector with
  | .collecting _ => some (s.goto .notifying)
  | _ => none

def timeout : Option State :=
  match s.collector with
  | .parked => some { s with unparkToken := false, collector := .starting }
  | _ => none

end State

inductive Action where
  | call (t : Nat)
  | onNewSdarcAllocated (shard : Nat)
  | collect
  | free (p : Nat)
  | finishCollection
  | timeout
  deriving DecidableEq, Repr

def step (cfg : Config) (s : State) : Action → Option State
  | .call t => if t < cfg.threads then s.call t else none
  | .onNewSdarcAllocated shard => s.onNewSdarcAllocated cfg shard
  | .collect => s.collect cfg
  | .free p => s.free p
  | .finishCollection => s.finishCollection
  | .timeout => s.timeout

instance : Inhabited Action := ⟨.collect⟩

structure Outside (s s' : State) : Prop where
  collector : s'.collector = s.collector
  toNotify : s'.toNotify = s.toNotify
  sent : s'.sent = s.sent
  trackedCounters : s'.trackedCounters = s.trackedCounters
  freed : s'.freed = s.freed
  counter : s'.outerIterationCounter = s.outerIterationCounter
  waiting : ∀ x, x ∈ s.collectionWaiting → x ∈ s'.collectionWaiting
  pending : ∀ j p, p ∈ s.pendingToTrack j → p ∈ s'.pendingToTrack j

inductive CollectorStep (cfg : Config) (s : State) : State → Prop where
  | startIteration :
      s.collector = .starting →
      CollectorStep cfg s { s with
        outerIterationCounter := s.outerIterationCounter + 1
        collector := .requesting }
  | takeRequests :
      s.collector = .requesting → s.lock = none →
      CollectorStep cfg s { s with
        toNotify := s.collectionWaiting
        collectionWaiting := []
        collector := .taking (!s.collectionWaiting.isEmpty) 0 [] }
  | track (deep : Bool) (shard p : Nat) (taken : List Nat) :
      s.collector = .taking deep shard (p :: taken) →
      CollectorStep cfg s { s with
        trackedCounters := s.trackedCounters ++ [p]
        collector := .taking deep shard taken }
  | takePending (deep : Bool) (shard : Nat) :
      s.collector = .taking deep shard [] → shard < cfg.shards →
      CollectorStep cfg s { s with
        pendingToTrack := Function.update s.pendingToTrack shard []
        collector := .taking deep (shard+1) (s.pendingToTrack shard) }
  | startCollection (deep : Bool) (shard : Nat) :
      s.collector = .taking deep shard [] → cfg.shards ≤ shard →
      CollectorStep cfg s (s.goto (.collecting deep))
  | free (deep : Bool) (p : Nat) :
      s.collector = .collecting deep → p ∈ s.trackedCounters →
      CollectorStep cfg s { s with
        trackedCounters := s.trackedCounters.erase p
        freed := p :: s.freed }
  | finishCollection (deep : Bool) :
      s.collector = .collecting deep → CollectorStep cfg s (s.goto .notifying)
  | notify (x : Nat) (rest : List Nat) :
      s.collector = .notifying → s.toNotify = x :: rest →
      CollectorStep cfg s { s with toNotify := rest, sent := s.sent ++ [x] }
  | finishNotifying :
      s.collector = .notifying → s.toNotify = [] → CollectorStep cfg s (s.goto .parking)
  | park :
      s.collector = .parking → s.unparkToken = false → CollectorStep cfg s (s.goto .parked)
  | unpark :
      s.collector = .parking ∨ s.collector = .parked →
      CollectorStep cfg s { s with unparkToken := false, collector := .starting }

section Steps

variable {cfg : Config} {s s' : State}

theorem call_outside {t : Nat} (h : s.call t = some s') : Outside s s' := by
  unfold State.call at h
  split at h
  · obtain rfl := Option.some.inj h
    constructor <;> simp
  · obtain ⟨-,rfl⟩ := by simpa using h
    constructor <;> simp
  · obtain rfl := Option.some.inj h
    constructor <;> simp +contextual
  · obtain rfl := Option.some.inj h
    constructor <;> simp
  · obtain rfl := Option.some.inj h
    constructor <;> simp
  · obtain ⟨-,rfl⟩ := by simpa using h
    constructor <;> simp

theorem onNewSdarcAllocated_outside {shard : Nat}
    (h : s.onNewSdarcAllocated cfg shard = some s') : Outside s s' := by
  unfold State.onNewSdarcAllocated at h
  obtain ⟨-,rfl⟩ := by simpa using h
  refine ⟨rfl,rfl,rfl,rfl,rfl,rfl,fun _ hx => hx,fun j p hp => ?_⟩
  by_cases hj : j = shard
  · subst hj
    simp [hp]
  · simpa [hj] using hp

theorem collect_step (h : s.collect cfg = some s') : CollectorStep cfg s s' := by
  unfold State.collect at h
  split at h
  case h_1 hc =>
    obtain rfl := Option.some.inj h
    exact .startIteration hc
  case h_2 hc =>
    obtain ⟨hlock,rfl⟩ := by simpa using h
    exact .takeRequests hc hlock
  case h_3 deep shard p taken hc =>
    obtain rfl := Option.some.inj h
    exact .track deep shard p taken hc
  case h_4 deep shard hc =>
    split at h
    · obtain rfl := Option.some.inj h
      exact .takePending deep shard hc ‹_›
    · obtain rfl := Option.some.inj h
      exact .startCollection deep shard hc (by omega)
  case h_5 => contradiction
  case h_6 hc =>
    split at h
    · obtain rfl := Option.some.inj h
      exact .finishNotifying hc ‹_›
    · obtain rfl := Option.some.inj h
      exact .notify _ _ hc ‹_›
  case h_7 hc =>
    split at h
    · obtain rfl := Option.some.inj h
      exact .unpark (.inl hc)
    · obtain rfl := Option.some.inj h
      exact .park hc (by simpa using ‹¬ s.unparkToken = true›)
  case h_8 hc =>
    obtain ⟨-,rfl⟩ := by simpa using h
    exact .unpark (.inr hc)

theorem step_cases {a : Action} (h : step cfg s a = some s') :
    (∃ t, a = .call t ∧ t < cfg.threads ∧ s.call t = some s') ∨
    (∃ shard, a = .onNewSdarcAllocated shard ∧ s.onNewSdarcAllocated cfg shard = some s') ∨
    CollectorStep cfg s s' ∧ s'.threads = s.threads ∧ s'.nextSender = s.nextSender ∧
      s'.lock = s.lock := by
  cases a with
  | call t =>
    simp only [step,Option.ite_none_right_eq_some] at h
    exact .inl ⟨t,rfl,h⟩
  | onNewSdarcAllocated shard => exact .inr (.inl ⟨shard,rfl,h⟩)
  | collect =>
    have hc := collect_step h
    exact .inr (.inr ⟨hc,by cases hc <;> simp⟩)
  | free p =>
    simp only [step,State.free] at h
    split at h
    · obtain ⟨hp,rfl⟩ := by simpa using h
      exact .inr (.inr ⟨.free _ p ‹_› hp,rfl,rfl,rfl⟩)
    · contradiction
  | finishCollection =>
    simp only [step,State.finishCollection] at h
    split at h
    · obtain rfl := Option.some.inj h
      exact .inr (.inr ⟨.finishCollection _ ‹_›,rfl,rfl,rfl⟩)
    · contradiction
  | timeout =>
    simp only [step,State.timeout] at h
    split at h
    · obtain rfl := Option.some.inj h
      exact .inr (.inr ⟨.unpark (.inr ‹_›),rfl,rfl,rfl⟩)
    · contradiction

end Steps

end Sdarc.CollectorMain
