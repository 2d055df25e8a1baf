import Hebpf.Daemon.Update
import Hebpf.Data.Run

namespace Hebpf.Daemon

open Hebpf.Common Hebpf.Data Hebpf.Ebpf

/-! The calls an update makes of the loader, in their order. -/

variable {σ ω π : Type}

inductive LoaderCall (σ ω : Type) where
  | loadService (env : Env σ ω) (soPath : String) (hook : HookType)
      (ifindex : Int32) (configPath : String)
  | unloadServices (env : Env σ ω) (soPath : String)
  | registerServiceConfig (env : Env σ ω) (soPath : String) (hook : HookType)
      (ifindex : Int32) (configPath : String)
  | unregisterServiceConfig (env : Env σ ω) (soPath configPath : String)
  | allocateChain (hook : HookType) (ifindex : Int32)
  | updateProgChain (hook : HookType) (namesIfindex : List (String × Int32))

namespace Loader

def call (ops : EbpfIf σ ω π) (loader : Loader σ π) :
    LoaderCall σ ω → Loader σ π
  | .loadService env soPath hook ifindex configPath =>
      (loader.loadService ops env soPath hook ifindex configPath).2
  | .unloadServices env soPath => (loader.unloadServices env soPath).2
  | .registerServiceConfig env soPath hook ifindex configPath =>
      (loader.registerServiceConfig ops env soPath hook ifindex configPath).2
  | .unregisterServiceConfig env soPath configPath =>
      (loader.unregisterServiceConfig env soPath configPath).2
  | .allocateChain hook ifindex => (loader.allocateChain hook ifindex).2
  | .updateProgChain hook namesIfindex =>
      (loader.updateProgChain hook namesIfindex).2

def chainCalls (sort : List OrderEntry → List OrderEntry) (config : EbpfMap) :
    List (LoaderCall σ ω) :=
  ((config.entries.map fun entry => entry.2.hook).dedup).flatMap fun hook =>
    (hookOrder sort config hook).map
        (fun pair => .allocateChain hook pair.2) ++
      [.updateProgChain hook (hookOrder sort config hook)]

def removedCalls (env : String → Env σ ω) (config : EbpfMap) :
    List (String × ConfigEbpf) → Loader σ π → List (LoaderCall σ ω)
  | [], _ => []
  | (name, cfg) :: rest, loader =>
      match config.find? name with
      | some _ => removedCalls env config rest loader
      | none =>
          .unloadServices (env name) cfg.lib ::
            match loader.unloadEbpf (env name) cfg.lib with
            | (.error _, _) => []
            | (.ok (), loader) => removedCalls env config rest loader

def loadCall (env : Env σ ω) (cfg : ConfigEbpf) : LoaderCall σ ω :=
  .loadService env cfg.lib cfg.hook cfg.ifindex cfg.config

def entryCalls (env : Env σ ω) (current : EbpfMap) (loader : Loader σ π)
    (name : String) (cfg : ConfigEbpf) : List (LoaderCall σ ω) :=
  match current.find? name with
  | none => [loadCall env cfg]
  | some held =>
      if place held ≠ place cfg then
        .unloadServices env held.lib ::
          match loader.unloadEbpf env held.lib with
          | (.error _, _) => []
          | (.ok (), _) => [loadCall env cfg]
      else if held.config ≠ cfg.config then
        .unregisterServiceConfig env held.lib held.config ::
          match loader.unregisterServiceConfig env held.lib held.config with
          | (.error _, _) => []
          | (.ok (), _) => [.registerServiceConfig env cfg.lib cfg.hook
              cfg.ifindex cfg.config]
      else []

def entriesCalls (ops : EbpfIf σ ω π) (env : String → Env σ ω)
    (current : EbpfMap) :
    List (String × ConfigEbpf) → Loader σ π → List (LoaderCall σ ω)
  | [], _ => []
  | (name, cfg) :: rest, loader =>
      loader.entryCalls (env name) current name cfg ++
        match loader.updateEntry ops (env name) current name cfg with
        | (.error _, _) => []
        | (.ok (), loader) => entriesCalls ops env current rest loader

section Calls

variable (ops : EbpfIf σ ω π)

theorem run_chainCalls (sort : List OrderEntry → List OrderEntry)
    (config : EbpfMap) (loader : Loader σ π) :
    run (call ops) loader (chainCalls sort config) =
      loader.rebuildChains sort config := by
  unfold chainCalls rebuildChains
  generalize (config.entries.map fun entry => entry.2.hook).dedup = hooks
  induction hooks generalizing loader with
  | nil => rfl
  | cons hook hooks ih =>
      rw [List.flatMap_cons, List.foldl_cons, run_append, ih, run_append]
      congr 1
      simp only [run, List.foldl_map, List.foldl_cons, List.foldl_nil]
      rfl

theorem run_loadCall (env : Env σ ω) (loader : Loader σ π)
    (cfg : ConfigEbpf) :
    run (call ops) loader [loadCall env cfg] =
      (loader.loadEbpf ops env cfg).2 := by
  unfold loadEbpf
  simp only [run_cons, run_nil, loadCall, call]
  generalize loader.loadService ops env cfg.lib cfg.hook cfg.ifindex
    cfg.config = answer
  obtain ⟨result, after⟩ := answer
  cases result <;> rfl

theorem call_unloadServices (env : Env σ ω) (loader : Loader σ π)
    (soPath : String) :
    loader.call ops (.unloadServices env soPath) =
      (loader.unloadEbpf env soPath).2 := by
  unfold unloadEbpf
  simp only [call]
  generalize loader.unloadServices env soPath = answer
  obtain ⟨result, after⟩ := answer
  cases result <;> rfl

theorem run_removedCalls (env : String → Env σ ω) (config : EbpfMap)
    (entries : List (String × ConfigEbpf)) (loader : Loader σ π) :
    run (call ops) loader (removedCalls env config entries loader) =
      (unloadRemoved env config entries loader).2 := by
  induction entries generalizing loader with
  | nil => rfl
  | cons entry rest ih =>
      obtain ⟨name, cfg⟩ := entry
      unfold removedCalls unloadRemoved
      cases config.find? name with
      | some held => exact ih loader
      | none =>
          simp only [run_cons, call_unloadServices]
          generalize loader.unloadEbpf (env name) cfg.lib = answer
          obtain ⟨result, after⟩ := answer
          cases result with
          | error exc => rfl
          | ok _ => exact ih after

theorem run_entryCalls (env : Env σ ω) (current : EbpfMap)
    (loader : Loader σ π) (name : String) (cfg : ConfigEbpf) :
    run (call ops) loader (loader.entryCalls env current name cfg) =
      (loader.updateEntry ops env current name cfg).2 := by
  unfold entryCalls updateEntry
  cases current.find? name with
  | none => exact run_loadCall ops env loader cfg
  | some held =>
      simp only
      split_ifs
      · rw [run_cons, call_unloadServices]
        generalize loader.unloadEbpf env held.lib = answer
        obtain ⟨result, after⟩ := answer
        cases result with
        | error exc => rfl
        | ok _ => exact run_loadCall ops env after cfg
      · rw [run_cons]
        simp only [call]
        generalize loader.unregisterServiceConfig env held.lib held.config =
          answer
        obtain ⟨result, after⟩ := answer
        cases result <;> rfl
      · rfl

theorem run_entriesCalls (env : String → Env σ ω) (current : EbpfMap)
    (entries : List (String × ConfigEbpf)) (loader : Loader σ π) :
    run (call ops) loader (entriesCalls ops env current entries loader) =
      (updateEntries ops env current entries loader).2 := by
  induction entries generalizing loader with
  | nil => rfl
  | cons entry rest ih =>
      obtain ⟨name, cfg⟩ := entry
      unfold entriesCalls updateEntries
      rw [run_append, run_entryCalls]
      generalize loader.updateEntry ops (env name) current name cfg = answer
      obtain ⟨result, after⟩ := answer
      cases result with
      | error exc => rfl
      | ok _ => exact ih after

end Calls

end Loader

namespace DaemonState

variable (ops : EbpfIf σ ω π) (sort : List OrderEntry → List OrderEntry)

def calls (daemon : DaemonState σ π) (input : UpdateInput σ ω) :
    List (LoaderCall σ ω) :=
  let current := withoutSchedulers daemon.currentEbpf
  let chainCalls :=
    if input.config ≠ current then Loader.chainCalls sort input.config else []
  chainCalls ++
    Loader.removedCalls input.env input.config current.entries
      (run (Loader.call ops) daemon.loader chainCalls) ++
    match daemon.prepare sort input with
    | (.error _, _) => []
    | (.ok (), loader) => Loader.entriesCalls ops input.env daemon.currentEbpf
        (addSchedulers input.config).entries loader

def allCalls : DaemonState σ π → List (UpdateInput σ ω) → List (LoaderCall σ ω)
  | _, [] => []
  | daemon, input :: inputs =>
      daemon.calls ops sort input ++
        allCalls (daemon.update ops sort input).2 inputs

theorem run_calls (daemon : DaemonState σ π) (input : UpdateInput σ ω) :
    run (Loader.call ops) daemon.loader (daemon.calls ops sort input) =
      (daemon.update ops sort input).2.loader := by
  have hprepared : run (Loader.call ops) daemon.loader
      ((if input.config ≠ withoutSchedulers daemon.currentEbpf then
          Loader.chainCalls sort input.config else []) ++
        Loader.removedCalls input.env input.config
          (withoutSchedulers daemon.currentEbpf).entries
          (run (Loader.call ops) daemon.loader
            (if input.config ≠ withoutSchedulers daemon.currentEbpf then
              Loader.chainCalls sort input.config else []))) =
      (daemon.prepare sort input).2 := by
    rw [run_append, Loader.run_removedCalls]
    simp only [prepare]
    split_ifs
    · rw [Loader.run_chainCalls]
    · rfl
  unfold calls update
  simp only
  rw [run_append, hprepared]
  generalize daemon.prepare sort input = answer
  obtain ⟨result, prepared⟩ := answer
  cases result with
  | error exc => rfl
  | ok _ =>
      simp only [Loader.run_entriesCalls]
      generalize prepared.updateEntries ops input.env daemon.currentEbpf
        (addSchedulers input.config).entries = updated
      obtain ⟨result, after⟩ := updated
      cases result <;> rfl

theorem run_allCalls (daemon : DaemonState σ π)
    (inputs : List (UpdateInput σ ω)) :
    run (Loader.call ops) daemon.loader (daemon.allCalls ops sort inputs) =
      (run (fun daemon input => (daemon.update ops sort input).2) daemon
        inputs).loader := by
  induction inputs generalizing daemon with
  | nil => rfl
  | cons input inputs ih =>
      rw [allCalls, run_append, run_calls, ih, run_cons]

end DaemonState

end Hebpf.Daemon
