import Hebpf.Data.Reconcile
import Hebpf.Inotify.Dispatch

namespace Hebpf.Inotify

open Hebpf.Data

variable {κ : Type}

/-! Whose callback a path has, as a store. -/

namespace InotifyManager

def holder (manager : InotifyManager κ) : Store String κ :=
  fun path => (manager.findWatchInfo (getParentDir path) path).map
    WatchInfo.onChange

/-- The manager has come to be by calls, whatever they were. -/
def Tracked (manager : InotifyManager κ) : Prop :=
  ∃ registered, Session.Tracks ⟨manager, registered⟩

theorem start_tracked : (start : InotifyManager κ).Tracked :=
  ⟨[], Session.start_tracks⟩

theorem holder_eq_find? {manager : InotifyManager κ}
    {registered : List (String × κ)}
    (htracks : Session.Tracks ⟨manager, registered⟩) (path : String) :
    manager.holder path =
      (registered.find? fun entry => entry.1 = path).map Prod.snd := by
  rw [← htracks.find, Option.map_map]
  rfl

theorem watchConfig_holder {manager : InotifyManager κ}
    (htracked : manager.Tracked) (accepted : Bool) (path : String)
    (onChange : κ) :
    let answer := manager.watchConfig accepted path onChange
    answer.2.Tracked ∧ answer.2.holder =
      if answer.1 = true then manager.holder.put path onChange
      else manager.holder := by
  obtain ⟨registered, htracks⟩ := htracked
  have hafter := htracks.watchConfig path onChange accepted
  simp only [Session.step, InotifyManager.call] at hafter
  simp only
  generalize manager.watchConfig accepted path onChange = answer
    at hafter ⊢
  obtain ⟨watched, after⟩ := answer
  refine ⟨?_, ?_⟩
  · cases watched <;> exact ⟨_, hafter⟩
  · funext other
    cases watched with
    | false =>
        simp only [Session.answered] at hafter
        rw [holder_eq_find? hafter, if_neg Bool.false_ne_true,
          holder_eq_find? htracks]
    | true =>
        simp only [Session.answered] at hafter
        rw [holder_eq_find? hafter, if_pos rfl, List.find?_append, Store.put,
          holder_eq_find? htracks]
        by_cases heq : path = other
        · cases registered.find? fun entry => entry.1 = other <;> simp [heq]
        · simp [heq]

theorem goodbyeConfig_holder {manager : InotifyManager κ}
    (htracked : manager.Tracked) (accepted : Bool) (path : String) :
    let answer := manager.goodbyeConfig accepted path
    answer.2.Tracked ∧ answer.2.holder =
      if answer.1 = true then manager.holder.drop path
      else manager.holder := by
  obtain ⟨registered, htracks⟩ := htracked
  have hafter := htracks.goodbyeConfig path accepted
  simp only [Session.step, InotifyManager.call] at hafter
  simp only
  generalize manager.goodbyeConfig accepted path = answer at hafter ⊢
  obtain ⟨withdrawn, after⟩ := answer
  refine ⟨?_, ?_⟩
  · cases withdrawn <;> exact ⟨_, hafter⟩
  · funext other
    cases withdrawn with
    | false =>
        simp only [Session.answered] at hafter
        rw [holder_eq_find? hafter, if_neg Bool.false_ne_true,
          holder_eq_find? htracks]
    | true =>
        simp only [Session.answered] at hafter
        rw [holder_eq_find? hafter, if_pos rfl, List.find?_filter, Store.drop,
          holder_eq_find? htracks]
        by_cases heq : path = other
        · subst heq
          simp [List.find?_eq_none]
        · rw [if_neg heq]
          congr 2
          funext entry
          by_cases hentry : entry.1 = other <;> simp [hentry, Ne.symm heq]

end InotifyManager

end Hebpf.Inotify
