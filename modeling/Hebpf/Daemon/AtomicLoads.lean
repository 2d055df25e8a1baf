import Hebpf.Daemon.ConfigReload

namespace Hebpf.Daemon

open Hebpf.Common Hebpf.Data Hebpf.Ebpf Hebpf.Inotify

namespace Loader

/-! Loads that fail: whether the services, the watches and the chain are as
they were before the call. -/

variable {σ ω π : Type}

structure Untouched (before after : Loader σ π) : Prop where
  services : ∀ soPath,
    after.services.lookup soPath = before.services.lookup soPath
  inotify : after.inotify = before.inotify
  chain : after.chain = before.chain

theorem Untouched.refl (loader : Loader σ π) : Untouched loader loader :=
  ⟨fun _ => rfl, rfl, rfl⟩

def LoadsOrLeaves (ops : EbpfIf σ ω π) (env : Env σ ω) (loader : Loader σ π)
    (soPath : String) (hook : HookType) (ifindex : Int32)
    (configPath : String) : Prop :=
  (loader.loadService ops env soPath hook ifindex configPath).1 ≠ .ok true →
    Untouched loader
      (loader.loadService ops env soPath hook ifindex configPath).2

/-- The service a configuration file goes to, once the new one is in the
table: the one under the path without what distinguishes the schedulers. -/
def configTarget (loader : Loader σ π) (soPath : String) (service : σ) :
    Option σ :=
  if realSoPath soPath = soPath then some service
  else (loader.services.lookup (realSoPath soPath)).map ServiceHandle.service

structure TakesFile (ops : EbpfIf σ ω π) (env : Env σ ω) (loader : Loader σ π)
    (soPath : String) (hook : HookType) (ifindex : Int32)
    (configPath : String) (service : σ) : Prop where
  watched : env.addWatch = true ∨
    (loader.inotify.map.lookup (getParentDir configPath)).isSome
  taken : ∃ target, loader.configTarget soPath service = some target ∧
    (ops.onConfigUpdate env.outcomes hook ifindex env.file.json target).1 =
      .ok ()

def TakesConfig (ops : EbpfIf σ ω π) (env : Env σ ω) (loader : Loader σ π)
    (soPath : String) (hook : HookType) (ifindex : Int32)
    (configPath : String) (service : σ) : Prop :=
  if realSoPath soPath = SCHEDULER_XDP_LIB ∨
      realSoPath soPath = SCHEDULER_TC_LIB then
    (ops.onConfigUpdate env.outcomes hook ifindex .null service).1 = .ok ()
  else configPath = "" ∨
    TakesFile ops env loader soPath hook ifindex configPath service

section Register

variable {ops : EbpfIf σ ω π} {env : Env σ ω} {loader : Loader σ π}
  {soPath configPath : String} {hook : HookType} {ifindex : Int32}

def inserted (ops : EbpfIf σ ω π) (loader : Loader σ π) (soPath : String)
    (hook : HookType) (ifindex : Int32) (service : σ) : Loader σ π :=
  { loader with
    services := loader.services.insert soPath
      ⟨service, ops.getName service, soPath, "", hook, ifindex⟩ }

theorem configTarget_eq (ops : EbpfIf σ ω π) (loader : Loader σ π)
    (soPath : String) (hook : HookType) (ifindex : Int32) (service : σ) :
    loader.configTarget soPath service =
      ((loader.inserted ops soPath hook ifindex service).services.lookup
        (realSoPath soPath)).map ServiceHandle.service := by
  unfold configTarget inserted
  split_ifs with hpath
  · rw [hpath, AList.lookup_insert]
    rfl
  · rw [AList.lookup_insert_ne hpath]

theorem configureLoaded_eq_ok_iff {service : σ} :
    (configureLoaded ops env (loader.inserted ops soPath hook ifindex service)
        soPath hook ifindex configPath).1 = .ok () ↔
      TakesConfig ops env loader soPath hook ifindex configPath service := by
  unfold configureLoaded TakesConfig
  split_ifs
  · simp only [inserted, AList.lookup_insert]
  · by_cases hconfig : configPath = ""
    · refine iff_of_true ?_ (.inl hconfig)
      unfold registerServiceConfig
      rw [if_pos hconfig]
    · rw [registerServiceConfig_eq_ok_iff hconfig, or_iff_right hconfig]
      have htarget := configTarget_eq ops loader soPath hook ifindex service
      constructor
      · intro hregistered
        obtain ⟨hwatched, handle, hlookup, htaken⟩ := hregistered
        rw [hlookup] at htarget
        exact ⟨hwatched, handle.service, htarget, htaken⟩
      · intro htakes
        obtain ⟨hwatched, target, hfound, htaken⟩ := htakes
        rw [hfound] at htarget
        obtain ⟨handle, hlookup, rfl⟩ :=
          Option.map_eq_some_iff.mp htarget.symm
        exact ⟨hwatched, handle, hlookup, htaken⟩

theorem configureLoaded_inserted_same (service : σ) :
    SameServices (fun _ : σ => ())
      (loader.inserted ops soPath hook ifindex service)
      (configureLoaded ops env
        (loader.inserted ops soPath hook ifindex service) soPath hook ifindex
        configPath).2 :=
  configureLoaded_same (fun _ _ _ _ _ => rfl) env _ soPath hook ifindex
    configPath

theorem isSome_lookup_configureLoaded (service : σ) :
    ((configureLoaded ops env (loader.inserted ops soPath hook ifindex service)
      soPath hook ifindex configPath).2.services.lookup soPath).isSome := by
  have hsame := @configureLoaded_inserted_same σ ω π ops env loader soPath
    configPath hook ifindex service
  have hplaced := congrArg Option.isSome (hsame.placed soPath)
  simp only [placed, Option.isSome_map] at hplaced
  rw [hplaced, inserted, AList.lookup_insert]
  rfl

theorem loadService_new {service : σ}
    (hstarted : env.opened = .started service)
    (hnew : loader.services.lookup soPath = none) :
    ((loader.loadService ops env soPath hook ifindex configPath).1 = .ok true ↔
        loader.chain.isSome ∧
          TakesConfig ops env loader soPath hook ifindex configPath service) ∧
      ((loader.loadService ops env soPath hook ifindex
        configPath).2.services.lookup soPath).isSome := by
  have hchain := (@configureLoaded_inserted_same σ ω π ops env loader soPath
    configPath hook ifindex service).chain
  have hfound := @isSome_lookup_configureLoaded σ ω π ops env loader soPath
    configPath hook ifindex service
  rw [← configureLoaded_eq_ok_iff]
  unfold loadService
  simp only [hstarted, hnew]
  change _ = loader.chain at hchain
  unfold inserted at hchain hfound ⊢
  generalize configureLoaded ops env _ soPath hook ifindex configPath = answer
    at hchain hfound ⊢
  obtain ⟨result, configured⟩ := answer
  simp only at hchain hfound
  cases result with
  | error exc =>
      refine ⟨?_, hfound⟩
      simp
  | ok _ =>
      simp only [hchain]
      cases loader.chain with
      | none =>
          refine ⟨?_, hfound⟩
          simp
      | some chain =>
          refine ⟨?_, hfound⟩
          simp

theorem not_loadsOrLeaves_of_kept
    (hfailed : (loader.loadService ops env soPath hook ifindex configPath).1 ≠
      .ok true)
    (hnew : loader.services.lookup soPath = none)
    (hkept : ((loader.loadService ops env soPath hook ifindex
      configPath).2.services.lookup soPath).isSome) :
    ¬ LoadsOrLeaves ops env loader soPath hook ifindex configPath := by
  intro hleaves
  rw [(hleaves hfailed).services, hnew] at hkept
  cases hkept

end Register

/-- A load leaves nothing behind when it fails exactly where nothing can fail
once the service is in the table. -/
theorem loadsOrLeaves_iff (ops : EbpfIf σ ω π) (env : Env σ ω)
    (loader : Loader σ π) (soPath : String) (hook : HookType)
    (ifindex : Int32) (configPath : String) :
    LoadsOrLeaves ops env loader soPath hook ifindex configPath ↔
      ∀ service, env.opened = .started service →
        (loader.services.lookup soPath).isSome ∨
          loader.chain.isSome ∧
            TakesConfig ops env loader soPath hook ifindex configPath
              service := by
  rcases loadService_cases ops env loader soPath hook ifindex configPath with
    ⟨hsame, hloaded⟩ | ⟨service, _, hstarted, hnew, _⟩
  · apply iff_of_true
    · unfold LoadsOrLeaves
      rw [hsame]
      exact fun _ => .refl loader
    · intro service hstarted
      exact .inl (hloaded service hstarted)
  · obtain ⟨htrue, hfound⟩ := @loadService_new σ ω π ops env loader soPath
      configPath hook ifindex service hstarted hnew
    constructor
    · intro hleaves other hother
      obtain rfl : service = other := by
        rw [hstarted] at hother
        exact Opened.started.inj hother
      right
      apply htrue.mp
      by_contra hfailed
      exact not_loadsOrLeaves_of_kept hfailed hnew hfound hleaves
    · intro htakes hfailed
      rcases htakes service hstarted with hloaded | hboth
      · rw [hnew] at hloaded
        cases hloaded
      · exact absurd (htrue.mpr hboth) hfailed

def badRules : ParsedFile := .document (.object [("rules", .string "none")])

def refusing : Env RuleService RuleOutcomes :=
  { aclReading (.document .null) with addWatch := false }

/-- The configuration throws, the watch is refused, and there is no chain
manager. -/
theorem not_loadsOrLeaves_inserted :
    ¬ LoadsOrLeaves aclOps (aclReading badRules)
        (.start .start (some (.init defaultProgMap))) "libhebpf_acl.so" .tc 1
        "acl.json" ∧
      ¬ LoadsOrLeaves aclOps refusing
        (.start .start (some (.init defaultProgMap))) "libhebpf_acl.so" .tc 1
        "acl.json" ∧
      ¬ LoadsOrLeaves aclOps (aclReading (.document .null))
        (.start .start none) "libhebpf_acl.so" .tc 1 "acl.json" := by
  refine ⟨?_, ?_, ?_⟩
  all_goals
    refine not_loadsOrLeaves_of_kept ?_ rfl rfl
    decide

end Loader

end Hebpf.Daemon
