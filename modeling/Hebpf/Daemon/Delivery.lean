import Hebpf.Daemon.ExecutedChain
import Hebpf.Ebpf.ChainDrops
import Hebpf.Services.ChainHandOver

namespace Hebpf.Services

open Hebpf.Common Hebpf.Ebpf

namespace Acl

theorem aclExit_ne_chainNext {ν : Type} {kept dropped : ν}
    (hne : kept ≠ dropped) (krules : KrulesAcl) (protocol : Be16)
    (frame : Frame) :
    aclExit krules protocol frame kept dropped ≠ .chainNext dropped := by
  by_cases hheaders : AclHeaders protocol frame
  · rw [aclExit_of_headers hheaders]
    split_ifs <;> simp [hne]
  · rw [aclExit_of_not_headers hheaders]
    simp

end Acl

namespace Lb

theorem balance_ne_drop (maps : LbMaps) (frame : Frame) (dport : Be16) :
    (balance maps frame dport).2 ≠ .chainNext .drop := by
  simp only [balance]
  split
  · simp
  · split_ifs
    · simp
    · split
      · simp
      · split <;> simp

theorem hebpfLbXdpGen_ne_drop (maps : LbMaps) (frame : Frame) :
    (hebpfLbXdpGen maps frame).2 ≠ .chainNext .drop := by
  unfold hebpfLbXdpGen
  split_ifs
  all_goals first | exact balance_ne_drop maps frame _ | simp

end Lb

namespace PacketHook

def scheduler : (hook : PacketHook) → hook.Service
  | xdp => XdpService.scheduler
  | tc _ => TcService.scheduler

theorem ne_dropped (hook : PacketHook) (service : hook.Service)
    (frame : Frame) :
    ((hook.program service).exec frame).2 ≠ .chainNext hook.dropped := by
  cases hook with
  | xdp =>
      cases service with
      | scheduler =>
          change Exit.chainNext XdpAction.pass ≠ .chainNext .drop
          simp
      | acl krules =>
          change Acl.hebpfAclXdpGeneric krules frame ≠ .chainNext .drop
          rw [Acl.hebpfAclXdpGeneric_eq]
          exact Acl.aclExit_ne_chainNext (by decide) krules _ frame
      | lb maps => exact Lb.hebpfLbXdpGen_ne_drop maps frame
  | tc protocol =>
      cases service with
      | scheduler =>
          change Exit.chainNext TcAction.ok ≠ .chainNext .shot
          simp
      | acl krules =>
          change Acl.hebpfAclTcIngress krules protocol frame ≠ .chainNext .shot
          rw [Acl.hebpfAclTcIngress_eq]
          exact Acl.aclExit_ne_chainNext (by decide) krules _ frame

theorem exists_ne_dropped (hook : PacketHook) :
    ∃ verdict, verdict ≠ hook.dropped := by
  cases hook with
  | xdp => exact ⟨XdpAction.pass, XdpAction.noConfusion⟩
  | tc protocol => exact ⟨TcAction.ok, TcAction.noConfusion⟩

theorem droppedAlong_scheduler (hook : PacketHook)
    (services : List hook.Service) (frame : Frame) :
    DroppedAlong hook.Finds hook.Denies (hook.scheduler :: services) frame ↔
      DroppedAlong hook.Finds hook.Denies services frame := by
  have hscheduler : hook.Finds hook.scheduler frame ∧
      ¬ hook.Denies hook.scheduler frame := by
    cases hook with
    | xdp => exact ⟨trivial, id⟩
    | tc protocol => exact ⟨trivial, id⟩
  rw [droppedAlong_cons_of_kept hscheduler.2, and_iff_right hscheduler.1]

end PacketHook

end Hebpf.Services

namespace Hebpf.Daemon

open Hebpf.Common Hebpf.Data Hebpf.Ebpf Hebpf.Inotify Hebpf.Services Loader

/-! From the configurations a daemon is given to the verdicts of the packets on
its interfaces. -/

variable {σ ω π ν : Type}

/-- A frame arrives on an interface, while each program does what `behaviour`
says; `none` is an interface without programs. -/
def Loader.deliver (ops : EbpfIf σ ω π) (behaviour : π → ChainProgram ν)
    (loader : Loader σ π) (hook : HookType) (ifindex : Int32)
    (frame : Frame) : Option (Frame × ν) :=
  match loader.mainProg ops (schedulerPath hook ifindex),
      loader.chain.bind fun chain => chain.hookMaps hook with
  | some scheduler, some maps =>
      some (runChain (maps.map behaviour) ifindex.toUInt32 MAX_TAIL_CALL_CNT
        (behaviour scheduler) frame)
  | _, _ => none

namespace Session

/-- The updates of a run load what they ask for and keep the chains stable. -/
structure Orderly (ops : EbpfIf σ ω π) (progId : π → UInt32)
    (sort : List OrderEntry → List OrderEntry)
    (progRegistry : String → Option ProgInfo)
    (start : Session σ π) (inputs : List (UpdateInput σ ω)) : Prop where
  view : ∀ outcomes hook ifindex config service,
    ops.getMainProg (ops.onConfigUpdate outcomes hook ifindex config
      service).2 = ops.getMainProg service
  sorts : SortsByOrder sort
  schedulers : SchedulersRegistered progRegistry
  domain : ∀ input ∈ inputs, InDomain progRegistry input.config
  built : ∀ input ∈ inputs, ∀ entry ∈ addSchedulers input.config,
    BuiltFor ops progId progRegistry (input.env entry.1) entry
  loads : StepsMeet (update ops sort)
    (fun session => session.daemon.LoadCalls ops (Loads ops) sort) start inputs
  stable : StepsMeet (update ops sort) (ChainStable ops sort progRegistry)
    start inputs

/-- On every interface a frame goes through the programs of the entries there,
one behind the other in ascending order, whatever they do. -/
def Delivers (ops : EbpfIf σ ω π) (progId : π → UInt32)
    (session : Session σ π) : Prop :=
  ∀ entry ∈ session.config, ∃ (chain : List ConfigEbpf) (scheduler : π)
      (progs : List π),
    chain.Perm (entriesOn session.config entry.2.hook entry.2.ifindex) ∧
    chain.Pairwise (fun left right => left.order ≤ right.order) ∧
    session.daemon.loader.mainProg ops
      (schedulerPath entry.2.hook entry.2.ifindex) = some scheduler ∧
    progs.map some =
      chain.map (fun cfg => session.daemon.loader.mainProg ops cfg.lib) ∧
    ∀ (ν : Type) (behaviour : π → ChainProgram ν),
      (∀ prog, (behaviour prog).id = progId prog) → ∀ verdict frame,
        session.daemon.loader.deliver ops behaviour entry.2.hook
            entry.2.ifindex frame =
          some (runPrograms ((scheduler :: progs).map behaviour) verdict frame)

variable {ops : EbpfIf σ ω π} {progId : π → UInt32}
  {sort : List OrderEntry → List OrderEntry}
  {progRegistry : String → Option ProgInfo} {session : Session σ π}

theorem Arranged.delivers (hsort : SortsByOrder sort)
    (harranged : session.Arranged ops progId sort progRegistry) :
    session.Delivers ops progId := by
  intro entry hentry
  obtain ⟨order, scheduler, progs, maps, hperm, hordered, hscheduler, hprogs,
    hmaps, hlayout⟩ := harranged.exists_layout hsort hentry
  refine ⟨order, scheduler, progs,
    harranged.chainable.entriesOn_eq hentry ▸ hperm, hordered, hscheduler,
    hprogs, ?_⟩
  intro ν behaviour hid verdict frame
  have hbehaviour : ChainLayout ChainProgram.id (maps.map behaviour)
      entry.2.ifindex.toUInt32 0 ((scheduler :: progs).map behaviour) :=
    hlayout.map fun prog _ => hid prog
  have hcalls : (progs.map behaviour).length ≤ MAX_TAIL_CALL_CNT := by
    have hbound := hlayout.bound
    simp only [List.length_cons, MAX_CHAIN_PROGS] at hbound
    simp only [List.length_map, MAX_TAIL_CALL_CNT]
    omega
  simp only [deliver, hscheduler, hmaps]
  rw [hbehaviour.runChain_eq hcalls verdict]
  rfl

theorem Orderly.arranged {inotify : InotifyManager ConfigCallback}
    {inputs : List (UpdateInput σ ω)}
    (horderly : Orderly ops progId sort progRegistry
      (start inotify (some (.init progRegistry))) inputs) :
    Throughout (update ops sort) (Arranged ops progId sort progRegistry)
      (start inotify (some (.init progRegistry))) inputs := by
  obtain ⟨hview, hsort, hschedulers, hdomain, hbuilt, hloads, hstable⟩ :=
    horderly
  have hinputs := @stepsMeet_of_forall _ _ (update ops sort) _
    (start inotify (some (.init progRegistry))) _
    fun input hinput => And.intro (hdomain input hinput) (hbuilt input hinput)
  refine throughout_of_stepsMeet ?_
    (start_arranged ops progId sort progRegistry inotify)
    (stepsMeet_and.mpr ⟨hinputs, stepsMeet_and.mpr ⟨hloads, hstable⟩⟩)
  intro session input harranged ⟨⟨hdomain, hbuilt⟩, hloads, hstable⟩
  exact harranged.update hstable hsort hschedulers hdomain hbuilt hview hloads

structure Serves (ops : EbpfIf σ ω π) (session : Session σ π)
    (packet : PacketHook) (behaviour : π → ChainProgram packet.Verdict)
    (service : ConfigEbpf → packet.Service) (hook : HookType)
    (ifindex : Int32) : Prop where
  scheduler : ∀ prog, session.daemon.loader.mainProg ops
    (schedulerPath hook ifindex) = some prog →
      behaviour prog = packet.program packet.scheduler
  entries : ∀ cfg ∈ entriesOn session.config hook ifindex, ∀ prog,
    session.daemon.loader.mainProg ops cfg.lib = some prog →
      behaviour prog = packet.program (service cfg)

/-- A frame is dropped exactly where the service of an entry on its interface
denies it and the services in front of that find their headers in it. -/
def DropsAsConfigured (ops : EbpfIf σ ω π) (progId : π → UInt32)
    (session : Session σ π) : Prop :=
  ∀ (packet : PacketHook) (behaviour : π → ChainProgram packet.Verdict)
      (service : ConfigEbpf → packet.Service),
    (∀ prog, (behaviour prog).id = progId prog) →
    ∀ entry ∈ session.config,
      session.Serves ops packet behaviour service entry.2.hook
        entry.2.ifindex →
      ∃ chain : List ConfigEbpf,
        chain.Perm (entriesOn session.config entry.2.hook entry.2.ifindex) ∧
        chain.Pairwise (fun left right => left.order ≤ right.order) ∧
        ∀ frame,
          (session.daemon.loader.deliver ops behaviour entry.2.hook
              entry.2.ifindex frame).map Prod.snd = some packet.dropped ↔
            DroppedAlong packet.Finds packet.Denies (chain.map service) frame

theorem Serves.programs {packet : PacketHook}
    {behaviour : π → ChainProgram packet.Verdict}
    {service : ConfigEbpf → packet.Service} {hook : HookType}
    {ifindex : Int32}
    (hserves : session.Serves ops packet behaviour service hook ifindex)
    {chain : List ConfigEbpf} {progs : List π}
    (hchain : ∀ cfg ∈ chain, cfg ∈ entriesOn session.config hook ifindex)
    (hprogs : progs.map some =
      chain.map fun cfg => session.daemon.loader.mainProg ops cfg.lib) :
    progs.map behaviour = (chain.map service).map packet.program := by
  induction chain generalizing progs with
  | nil =>
      cases progs with
      | nil => rfl
      | cons prog progs => cases hprogs
  | cons cfg chain ih =>
      cases progs with
      | nil => cases hprogs
      | cons prog progs =>
          obtain ⟨hprog, hrest⟩ := List.cons.inj hprogs
          obtain ⟨hcfg, hchain⟩ := List.forall_mem_cons.mp hchain
          simp only [List.map_cons, ih hchain hrest,
            hserves.entries cfg hcfg prog hprog.symm]

theorem Delivers.dropsAsConfigured (hdelivers : session.Delivers ops progId) :
    session.DropsAsConfigured ops progId := by
  intro packet behaviour service hid entry hentry hserves
  obtain ⟨chain, scheduler, progs, hperm, hordered, hscheduler, hprogs,
    hdeliver⟩ := hdelivers entry hentry
  refine ⟨chain, hperm, hordered, fun frame => ?_⟩
  have hbehaviour := hserves.programs (fun cfg hcfg => hperm.mem_iff.mp hcfg)
    hprogs
  obtain ⟨verdict, hverdict⟩ := packet.exists_ne_dropped
  rw [hdeliver _ behaviour hid verdict frame, List.map_cons, hbehaviour,
    hserves.scheduler scheduler hscheduler, ← List.map_cons, Option.map_some,
    Option.some_inj, packet.classified.runPrograms_eq_dropped_iff
      packet.ne_dropped hverdict, packet.droppedAlong_scheduler]

theorem orderly_aclThenLb :
    Orderly programOps Program.id sortByOrder defaultProgMap fresh
      aclThenLb where
  view _ _ _ _ _ := rfl
  sorts := sortsByOrder_sortByOrder
  schedulers := schedulersRegistered
  domain := inDomain_aclThenLb
  built := builtFor_aclThenLb
  loads := loads_aclThenLb
  stable := stable_aclThenLb

end Session

end Hebpf.Daemon
