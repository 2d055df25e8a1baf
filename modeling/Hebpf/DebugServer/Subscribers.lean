import Hebpf.Data.Run
import Mathlib.Data.List.Nodup
import Mathlib.Logic.Function.Basic

namespace Hebpf.DebugServer

open Hebpf.Data

/-! The list of subscribers, which threads replace by a changed copy. -/

inductive Update where
  | attach
  | detach
  deriving DecidableEq, Repr

/-- Between its load and its store, a call has the list that it has loaded. -/
structure Pending (σ : Type) where
  update : Update
  subscriber : σ
  oldList : List σ

/-- `completed` is the update of a subscriber that was the last to complete: at
its store, or at its load where there is nothing to store. -/
structure Subscribers (θ σ : Type) where
  subscriberList : List σ
  calls : θ → Option (Pending σ)
  completed : σ → Option Update

inductive SubscriberStep (θ σ : Type) where
  | load (thread : θ) (update : Update) (subscriber : Option σ)
  | store (thread : θ)
  | notify (thread : θ)

section Lists

variable {σ : Type} [DecidableEq σ]

def newList (subscriber : σ) (update : Update) (oldList : List σ) : List σ :=
  match update with
  | .attach =>
      if subscriber ∈ oldList then oldList else oldList ++ [subscriber]
  | .detach => oldList.filter (· ≠ subscriber)

theorem mem_newList {subscriber other : σ} {update : Update}
    {oldList : List σ} :
    other ∈ newList subscriber update oldList ↔
      if other = subscriber then update = .attach else other ∈ oldList := by
  cases update with
  | attach =>
      simp only [newList]
      split_ifs with hmem heq heq
      · simp [heq, hmem]
      · rfl
      · simp [heq]
      · simp [heq]
  | detach => by_cases heq : other = subscriber <;> simp [newList, heq]

theorem nodup_newList {oldList : List σ} (hnodup : oldList.Nodup)
    (subscriber : σ) (update : Update) :
    (newList subscriber update oldList).Nodup := by
  cases update with
  | attach =>
      simp only [newList]
      split_ifs with hmem
      · exact hnodup
      · exact List.Nodup.append hnodup (List.nodup_singleton subscriber)
          (List.disjoint_singleton.mpr hmem)
  | detach => exact hnodup.filter _

end Lists

namespace Subscribers

variable {θ σ : Type} [DecidableEq θ] [DecidableEq σ]

def start : Subscribers θ σ := ⟨[], fun _ => none, fun _ => none⟩

/-- A thread in the middle of a call makes no other. -/
def load (state : Subscribers θ σ) (thread : θ) (update : Update)
    (subscriber : σ) : Subscribers θ σ :=
  if (state.calls thread).isSome then state
  else if update = .detach ∧ subscriber ∉ state.subscriberList then
    { state with
      completed := Function.update state.completed subscriber (some update) }
  else
    { state with
      calls := Function.update state.calls thread
        (some ⟨update, subscriber, state.subscriberList⟩) }

def store (state : Subscribers θ σ) (thread : θ) : Subscribers θ σ :=
  match state.calls thread with
  | none => state
  | some call =>
      { subscriberList := newList call.subscriber call.update call.oldList
        calls := Function.update state.calls thread none
        completed := Function.update state.completed call.subscriber
          (some call.update) }

def step (state : Subscribers θ σ) :
    SubscriberStep θ σ → Subscribers θ σ
  | .load thread update (some subscriber) =>
      state.load thread update subscriber
  | .load _ _ none => state
  | .store thread => state.store thread
  | .notify _ => state

/-- The list has each subscriber once that was attached last, and no other. -/
structure Reflects (state : Subscribers θ σ) : Prop where
  nodup : state.subscriberList.Nodup
  mem_iff : ∀ subscriber, subscriber ∈ state.subscriberList ↔
    state.completed subscriber = some .attach

def Undisturbed (state : Subscribers θ σ) : SubscriberStep θ σ → Prop
  | .store thread => ∀ call ∈ state.calls thread,
      ∀ other ≠ call.subscriber,
        (other ∈ call.oldList ↔ other ∈ state.subscriberList)
  | _ => True

structure Loaded (state : Subscribers θ σ) : Prop extends Reflects state where
  oldList : ∀ thread, ∀ call ∈ state.calls thread, call.oldList.Nodup

variable {state : Subscribers θ σ}

omit [DecidableEq θ] [DecidableEq σ] in
theorem loaded_start : (start : Subscribers θ σ).Loaded where
  nodup := List.nodup_nil
  mem_iff _ := iff_of_false (List.not_mem_nil) nofun
  oldList _ _ hcall := nomatch hcall

theorem Loaded.load (hloaded : state.Loaded) (thread : θ) (update : Update)
    (subscriber : σ) : (state.load thread update subscriber).Loaded := by
  unfold Subscribers.load
  split_ifs with hbusy hnothing
  · exact hloaded
  · refine ⟨⟨hloaded.nodup, fun other => ?_⟩, hloaded.oldList⟩
    simp only [Function.update_apply]
    split_ifs with heq
    · subst heq
      simp [hnothing]
    · exact hloaded.mem_iff other
  · refine ⟨⟨hloaded.nodup, hloaded.mem_iff⟩, fun other call hcall => ?_⟩
    simp only [Function.update_apply] at hcall
    split_ifs at hcall with heq
    · cases hcall
      exact hloaded.nodup
    · exact hloaded.oldList other call hcall

theorem mem_store {thread : θ} {call : Pending σ}
    (hcall : state.calls thread = some call) (other : σ) :
    other ∈ (state.store thread).subscriberList ↔
      if other = call.subscriber then call.update = .attach
      else other ∈ call.oldList := by
  simp only [store, hcall]
  exact mem_newList

theorem completed_store {thread : θ} {call : Pending σ}
    (hcall : state.calls thread = some call) (other : σ) :
    (state.store thread).completed other =
      if other = call.subscriber then some call.update
      else state.completed other := by
  simp only [store, hcall]
  exact Function.update_apply ..

theorem Loaded.store (hloaded : state.Loaded) {thread : θ}
    (hundisturbed : state.Undisturbed (.store thread)) :
    (state.store thread).Loaded := by
  cases hcall : state.calls thread with
  | none => simpa [Subscribers.store, hcall] using hloaded
  | some call =>
      refine ⟨⟨?_, fun other => ?_⟩, fun other pending hpending => ?_⟩
      · simp only [Subscribers.store, hcall]
        exact nodup_newList (hloaded.oldList thread call hcall) _ _
      · rw [mem_store hcall, completed_store hcall]
        split_ifs with heq
        · exact Option.some_inj.symm
        · rw [hundisturbed call hcall other heq]
          exact hloaded.mem_iff other
      · simp only [Subscribers.store, hcall, Function.update_apply] at hpending
        split_ifs at hpending with heq
        · cases hpending
        · exact hloaded.oldList other pending hpending

theorem Loaded.step (hloaded : state.Loaded) {input : SubscriberStep θ σ}
    (hundisturbed : state.Undisturbed input) : (state.step input).Loaded := by
  cases input with
  | load thread update subscriber =>
      cases subscriber with
      | none => exact hloaded
      | some subscriber => exact hloaded.load thread update subscriber
  | store thread => exact hloaded.store hundisturbed
  | notify thread => exact hloaded

theorem Loaded.lost_update (hloaded : state.Loaded)
    {input : SubscriberStep θ σ} (hdisturbed : ¬ state.Undisturbed input) :
    ¬ (state.step input).Reflects := by
  intro hreflects
  cases input with
  | load thread update subscriber => exact hdisturbed trivial
  | notify thread => exact hdisturbed trivial
  | store thread =>
      refine hdisturbed fun call hcall other hne => ?_
      have hmem := hreflects.mem_iff other
      rw [Subscribers.step, mem_store hcall, completed_store hcall, if_neg hne,
        if_neg hne] at hmem
      exact hmem.trans (hloaded.mem_iff other).symm

/-- The list reflects all completed updates after each step exactly if no store
overwrites what another call has changed since the load. -/
theorem reflects_iff (inputs : List (SubscriberStep θ σ)) :
    Throughout step Reflects start inputs ↔
      StepsMeet step Undisturbed start inputs :=
  throughout_iff_stepsMeet (fun _ hloaded => hloaded.toReflects)
    (fun _ _ hloaded hundisturbed => hloaded.step hundisturbed)
    (fun _ _ hloaded hdisturbed => hloaded.lost_update hdisturbed)
    loaded_start

/-- Both calls load the empty list before either stores its own. -/
theorem not_reflects_overlapping :
    ¬ ∀ inputs : List (SubscriberStep Bool Bool),
      (∀ thread, (run step start inputs).calls thread = none) →
        (run step start inputs).Reflects := by
  intro hall
  have hreflects := hall [.load false .attach (some false),
    .load true .attach (some true), .store false, .store true] (by decide)
  exact absurd ((hreflects.mem_iff false).mpr rfl) (by decide)

end Subscribers

end Hebpf.DebugServer
