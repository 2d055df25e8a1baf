import Hebpf.Ebpf.PinnedFiles

namespace Hebpf.Ebpf

open Hebpf.Daemon Hebpf.Data Calls

/-! Which pin files the lives of the process leave behind, and from which of
them the next life can begin. -/

theorem getPinPath_inj {first second : String} :
    getPinPath first = getPinPath second ↔ first = second := by
  simp [getPinPath, String.ext_iff]

theorem mapNames_ne {hook other : HookType} {names others : String × String}
    (hnames : names ∈ mapNames hook) (hothers : others ∈ mapNames other) :
    names.1 ≠ others.2 := by
  cases hook <;> cases other <;> simp [mapNames] at hnames hothers <;>
    subst names <;> subst others <;> decide

theorem mapNames_inj {hook other : HookType} {names others : String × String}
    (hnames : names ∈ mapNames hook) (hothers : others ∈ mapNames other) :
    (names.1 = others.1 ↔ hook = other) ∧
      (names.2 = others.2 ↔ hook = other) := by
  cases hook <;> cases other <;> simp [mapNames] at hnames hothers <;>
    subst names <;> subst others <;> decide

namespace Kernel

variable {kernel after : Kernel} {hook other : HookType}
  {names others : String × String} {first second : Option Nat}

def Together (kernel : Kernel) (names : String × String) : Prop :=
  (kernel.pins (getPinPath names.1)).isSome =
    (kernel.pins (getPinPath names.2)).isSome

theorem together_iff : kernel.Together names ↔
    (∃ map map', kernel.pins (getPinPath names.1) = some map ∧
      kernel.pins (getPinPath names.2) = some map') ∨
    (kernel.pins (getPinPath names.1) = none ∧
      kernel.pins (getPinPath names.2) = none) := by
  unfold Together
  cases kernel.pins (getPinPath names.1) <;>
    cases kernel.pins (getPinPath names.2) <;> simp

def Paired (kernel : Kernel) : Prop :=
  ∀ hook, ∀ names ∈ mapNames hook, kernel.Together names

/-- The pin file made or removed last is that of a program array. -/
def Torn (kernel : Kernel) : Prop :=
  ∃ hook, ∃ names ∈ mapNames hook,
    kernel.changed = some (getPinPath names.1)

def Steady (kernel : Kernel) : Prop := kernel.Paired ∧ ¬ kernel.Torn

theorem Steady.iff (hsteady : kernel.Steady) : kernel.Paired ↔ ¬ kernel.Torn :=
  iff_of_true hsteady.1 hsteady.2

@[simp] theorem changePin_files (path : String) :
    (kernel.changePin path first).files = kernel.files := rfl

theorem changePin_pins (path pinned : String) :
    (kernel.changePin path first).pins pinned =
      if pinned = path then first else kernel.pins pinned :=
  Function.update_apply ..

theorem together_changePin (hnames : names ∈ mapNames hook) :
    (kernel.changePin (getPinPath names.1) first).Together names ↔
      first.isSome = (kernel.pins (getPinPath names.2)).isSome := by
  have hne : getPinPath names.2 ≠ getPinPath names.1 := fun heq =>
    mapNames_ne hnames hnames (getPinPath_inj.mp heq).symm
  simp [Together, changePin, hne]

theorem torn_changePin (hnames : names ∈ mapNames hook)
    (hfirst : first.isSome ≠ (kernel.pins (getPinPath names.2)).isSome) :
    (kernel.changePin (getPinPath names.1) first).Paired ↔
      ¬ (kernel.changePin (getPinPath names.1) first).Torn := by
  have hpaired : ¬ (kernel.changePin (getPinPath names.1) first).Paired :=
    fun hpaired => hfirst ((together_changePin hnames).mp
      (hpaired hook names hnames))
  exact iff_of_false hpaired fun htorn => htorn ⟨hook, names, hnames, rfl⟩

theorem Steady.changePins (hsteady : kernel.Steady)
    (hnames : names ∈ mapNames hook) (hboth : first.isSome = second.isSome) :
    ((kernel.changePin (getPinPath names.1) first).changePin
      (getPinPath names.2) second).Steady := by
  constructor
  · intro other others hothers
    have hcross := mapNames_ne hnames hothers
    have hcross' := mapNames_ne hothers hnames
    obtain ⟨hfirst, hsecond⟩ := mapNames_inj hothers hnames
    have hkernel := hsteady.1 other others hothers
    by_cases hhook : other = hook
    · have hothers' : others = names :=
        Prod.ext (hfirst.mpr hhook) (hsecond.mpr hhook)
      subst hothers'
      simp [Together, changePin, getPinPath_inj, hcross, hboth]
    · simpa [Together, changePin, Function.update_apply, getPinPath_inj,
        hfirst, hsecond, hhook, hcross', hcross.symm] using hkernel
  · intro ⟨other, others, hothers, hchanged⟩
    exact mapNames_ne hothers hnames
      (getPinPath_inj.mp (Option.some.inj hchanged)).symm

structure Besides (names : String × String) (kernel after : Kernel) :
    Prop where
  opened : kernel.opened ≤ after.opened
  files : ∀ fd < (kernel.opened : Int), after.files fd = kernel.files fd
  pins : ∀ path, path ≠ getPinPath names.1 → path ≠ getPinPath names.2 →
    after.pins path = kernel.pins path

theorem Besides.together (hbesides : Besides others kernel after)
    (hnames : names ∈ mapNames hook) (hothers : others ∈ mapNames other)
    (hne : hook ≠ other) : after.Together names ↔ kernel.Together names := by
  obtain ⟨hfirst, hsecond⟩ := mapNames_inj hnames hothers
  have hcross := mapNames_ne hnames hothers
  have hcross' := mapNames_ne hothers hnames
  unfold Together
  rw [hbesides.pins, hbesides.pins] <;>
    simp [getPinPath_inj, hfirst, hsecond, hne, hcross, hcross'.symm]

theorem Held.of_besides {after : Kernel} {maps : HookMaps}
    (hheld : kernel.Held maps names) (hbesides : Besides others kernel after)
    (hfd : maps.progArrayFd < kernel.opened)
    (hfd' : maps.idHashFd < kernel.opened)
    (hnames : names ∈ mapNames hook) (hothers : others ∈ mapNames other)
    (hne : hook ≠ other) : after.Held maps names := by
  obtain ⟨hfirst, hsecond⟩ := mapNames_inj hnames hothers
  have hcross := mapNames_ne hnames hothers
  have hcross' := mapNames_ne hothers hnames
  constructor
  · rw [hbesides.files _ hfd, hbesides.pins]
    · exact hheld.progArray
    · simpa [getPinPath_inj, hfirst] using hne
    · simpa [getPinPath_inj] using hcross
  · rw [hbesides.files _ hfd', hbesides.pins]
    · exact hheld.idHash
    · simpa [getPinPath_inj] using hcross'.symm
    · simpa [getPinPath_inj, hsecond] using hne

end Kernel

open Kernel

structure HookMaps.Of (maps : HookMaps) (names : String × String) : Prop where
  progArrayFd : 0 ≤ maps.progArrayFd
  idHashFd : 0 ≤ maps.idHashFd
  pinPathProgArray : maps.pinPathProgArray = getPinPath names.1
  pinPathIdToIndex : maps.pinPathIdToIndex = getPinPath names.2

namespace MapFiles

variable {kernel : Kernel} {files : MapFiles} {hook : HookType}
  {names : String × String}

def Sound (files : MapFiles) : Prop :=
  ∀ hook, ∀ maps ∈ files.hookMaps hook, ∃ names ∈ mapNames hook, maps.Of names

theorem sound_new : new.Sound := fun _ _ hmaps => nomatch hmaps

theorem Sound.update (hsound : files.Sound) {maps : HookMaps}
    (hnames : names ∈ mapNames hook) (hmaps : maps.Of names) :
    Sound { files with
      hookMaps := Function.update files.hookMaps hook (some maps) } := by
  intro other others hothers
  by_cases hhook : other = hook
  · subst hhook
    have hsame : maps = others := by simpa using hothers
    exact hsame ▸ ⟨names, hnames, hmaps⟩
  · exact hsound other others (by simpa [hhook] using hothers)

/-! A life whose calls succeed, killed anywhere. -/

abbrev Kept {α : Type} (program : KernelCalls α) (ending : α → Kernel → Prop)
    (kernel : Kernel) : Prop :=
  Along answer (· = true) (fun kernel => kernel.Paired ↔ ¬ kernel.Torn)
    program ending kernel

theorem opened_nonneg (kernel : Kernel) :
    ¬ (kernel.opened : Int) < 0 ∧ ¬ (kernel.opened : Int) + 1 < 0 := by
  omega

theorem of_opened (kernel : Kernel) (names : String × String) :
    HookMaps.Of ⟨kernel.opened, kernel.opened + 1, getPinPath names.1,
      getPinPath names.2⟩ names :=
  ⟨not_lt.mp (opened_nonneg kernel).1, not_lt.mp (opened_nonneg kernel).2,
    rfl, rfl⟩

theorem pinPath_ne (hnames : names ∈ mapNames hook) :
    getPinPath names.2 ≠ getPinPath names.1 :=
  fun heq => mapNames_ne hnames hnames (getPinPath_inj.mp heq).symm

theorem kept_createMaps (hsteady : kernel.Steady)
    (hnames : names ∈ mapNames hook)
    (hfirst : kernel.pins (getPinPath names.1) = none)
    (hsecond : kernel.pins (getPinPath names.2) = none) :
    Kept (createMaps names.1 names.2)
      (fun created kernel =>
        (∀ maps, created = some maps → maps.Of names) ∧ kernel.Steady)
      kernel := by
  obtain ⟨hzero, hone⟩ := opened_nonneg kernel
  simp only [Kept, createMaps, ask_bind, along_call_eq, answer, ↓reduceIte,
    openMap, hzero, Nat.cast_add, Nat.cast_one, hone, hfirst, ne_eq,
    left_eq_add, one_ne_zero, not_false_eq_true, Function.update_of_ne,
    Function.update_self, lt_self_iff_false, changePin_pins, pinPath_ne hnames,
    hsecond, changePin_files, along_pure, Option.some.injEq, forall_eq']
  exact ⟨hsteady.iff, hsteady.iff, hsteady.iff,
    torn_changePin hnames (by simp [hsecond]), of_opened kernel names,
    hsteady.changePins hnames rfl⟩

theorem kept_openMaps (hsteady : kernel.Steady)
    (hnames : names ∈ mapNames hook) :
    Kept (openMaps names.1 names.2)
      (fun opened kernel =>
        (∀ maps, opened = some maps → maps.Of names) ∧ kernel.Steady) kernel := by
  obtain ⟨hzero, hone⟩ := opened_nonneg kernel
  have htogether := hsteady.1 hook names hnames
  obtain ⟨map, map', hfirst, hsecond⟩ | ⟨hfirst, hsecond⟩ :=
    together_iff.mp htogether
  · simp only [Kept, openMaps, ask_bind, along_call_eq, answer, ↓reduceIte,
      hfirst, openMap, hzero, false_or, hsecond, Nat.cast_add, Nat.cast_one,
      hone, along_pure, Option.some.injEq, forall_eq']
    exact ⟨hsteady.iff, hsteady.iff, of_opened kernel names, hsteady⟩
  · simp only [Kept, openMaps, closeOpened, ask_bind, along_call_eq, answer,
      ↓reduceIte, hfirst, Int.reduceNeg, Int.neg_neg_iff_pos, zero_lt_one,
      true_or, Int.neg_nonneg, Int.reduceLE, Calls.pure_bind, hsecond,
      and_self_left]
    exact ⟨hsteady.iff, kept_createMaps hsteady hnames hfirst hsecond⟩

theorem kept_ensureMaps (hsteady : kernel.Steady) (hsound : files.Sound)
    (hook : HookType) :
    Kept (files.ensureMaps hook)
      (fun ensured kernel => ensured.2.Sound ∧ kernel.Steady) kernel := by
  unfold ensureMaps
  split
  · exact ⟨hsound, hsteady⟩
  · cases hnames : mapNames hook with
    | none => exact ⟨hsound, hsteady⟩
    | some names =>
        refine ((kept_openMaps hsteady hnames).imp ?_).bind
        intro opened kernel hopened
        cases opened with
        | none => exact ⟨hsound, hopened.2⟩
        | some maps =>
            exact ⟨hsound.update hnames (hopened.1 maps rfl), hopened.2⟩

theorem kept_init (hsteady : kernel.Steady) (hsound : files.Sound) :
    Kept files.init (fun started kernel => started.2.Sound ∧ kernel.Steady)
      kernel := by
  refine ((kept_ensureMaps hsteady hsound .tc).imp ?_).bind
  intro (ensured, files) kernel hensured
  cases ensured with
  | false => exact hensured
  | true =>
      refine ((kept_ensureMaps hensured.2 hensured.1 .xdpGeneric).imp ?_).bind
      intro (ensured, files) kernel hensured
      cases ensured <;> exact hensured

theorem kept_removeHook {maps : HookMaps} (hsteady : kernel.Steady)
    (hnames : names ∈ mapNames hook) (hmaps : maps.Of names) :
    Kept (removeHook maps) (fun _ kernel => kernel.Steady) kernel := by
  obtain ⟨hfd, hfd', hpath, hpath'⟩ := hmaps
  have htogether := hsteady.1 hook names hnames
  obtain ⟨map, map', hfirst, hsecond⟩ | ⟨hfirst, hsecond⟩ :=
    together_iff.mp htogether
  · have htorn := @torn_changePin kernel hook names none hnames
      (by simp [hsecond])
    simp only [Kept, removeHook, removeMap, hfd, ↓reduceIte, hpath, ask_bind,
      hfd', hpath', call_bind, Calls.pure_bind, along_call_eq, answer, hfirst,
      changePin_files, changePin_pins, pinPath_ne hnames, hsecond, along_pure]
    exact ⟨hsteady.iff, hsteady.iff, htorn, htorn,
      hsteady.changePins hnames rfl⟩
  · simp only [Kept, removeHook, removeMap, hfd, ↓reduceIte, hpath, ask_bind,
      hfd', hpath', call_bind, Calls.pure_bind, along_call_eq, answer, hfirst,
      Int.reduceNeg, hsecond, along_pure, and_self_left]
    exact ⟨hsteady.iff, hsteady.iff, hsteady.iff, hsteady⟩

theorem kept_removeMaps (hsteady : kernel.Steady) (hsound : files.Sound)
    (order : List HookType) :
    Kept (files.removeMaps order) (fun _ kernel => kernel.Steady) kernel := by
  induction order generalizing kernel with
  | nil => exact hsteady
  | cons hook order ih =>
      unfold removeMaps
      cases hmaps : files.hookMaps hook with
      | none => exact ih hsteady
      | some maps =>
          obtain ⟨names, hnames, hof⟩ := hsound hook maps hmaps
          refine ((kept_removeHook hsteady hnames hof).imp ?_).bind
          exact fun _ kernel hkernel => ih hkernel

theorem kept_cleanup (hsteady : kernel.Steady) (hsound : files.Sound)
    (order : List HookType) :
    Kept (files.cleanup order)
      (fun cleaned kernel => cleaned.Sound ∧ kernel.Steady) kernel := by
  refine ((kept_removeMaps hsteady hsound order).imp ?_).bind
  exact fun _ kernel hkernel => ⟨sound_new, hkernel⟩

theorem kept_perform (hsteady : kernel.Steady) (hsound : files.Sound)
    (operations : List Operation) :
    Kept (perform operations files) (fun _ kernel => kernel.Steady)
      kernel := by
  induction operations generalizing kernel files with
  | nil => exact hsteady
  | cons operation operations ih =>
      cases operation with
      | init =>
          refine ((kept_init hsteady hsound).imp ?_).bind
          exact fun _ kernel hkernel => ih hkernel.2 hkernel.1
      | cleanup order =>
          refine ((kept_cleanup hsteady hsound order).imp ?_).bind
          exact fun _ kernel hkernel => ih hkernel.2 hkernel.1

theorem finish_createMaps_pinned
    (hpinned : (kernel.pins (getPinPath names.1)).isSome ∨
      (kernel.pins (getPinPath names.2)).isSome)
    (hnames : names ∈ mapNames hook) :
    (finish answer true (createMaps names.1 names.2) kernel).2 = none := by
  obtain ⟨hzero, hone⟩ := opened_nonneg kernel
  have hne := pinPath_ne hnames
  cases hfirst : kernel.pins (getPinPath names.1) with
  | some map =>
      simp [createMaps, answer, openMap, hfirst, hzero, hone]
  | none =>
      obtain ⟨map, hsecond⟩ := Option.isSome_iff_exists.mp
        (hpinned.resolve_left (by simp [hfirst]))
      simp [createMaps, answer, openMap, hfirst, hsecond, hzero, hone,
        changePin_pins, hne]

theorem finish_openMaps_torn (hnames : names ∈ mapNames hook)
    (htorn : ¬ kernel.Together names) :
    (finish answer true (openMaps names.1 names.2) kernel).2 = none := by
  obtain ⟨hzero, hone⟩ := opened_nonneg kernel
  cases hfirst : kernel.pins (getPinPath names.1) with
  | some map =>
      have hsecond : kernel.pins (getPinPath names.2) = none := by
        simpa [Together, hfirst] using htorn
      simp only [openMaps, closeOpened, ask_bind, finish_call, answer,
        ↓reduceIte, hfirst, openMap, hzero, false_or, Nat.cast_nonneg,
        call_bind, Calls.pure_bind, hsecond, Int.reduceNeg, Int.neg_neg_iff_pos,
        zero_lt_one, Int.neg_nonneg, Int.reduceLE, Function.update_idem]
      exact finish_createMaps_pinned (.inl (by simp [hfirst])) hnames
  | none =>
      cases hsecond : kernel.pins (getPinPath names.2) with
      | none => exact (htorn (by simp [Together, hfirst, hsecond])).elim
      | some map =>
          simp only [openMaps, closeOpened, ask_bind, finish_call, answer,
            ↓reduceIte, hfirst, Int.reduceNeg, Int.neg_neg_iff_pos, zero_lt_one,
            true_or, Int.neg_nonneg, Int.reduceLE, Calls.pure_bind, hsecond,
            openMap, Nat.cast_nonneg, call_bind, Function.update_idem]
          exact finish_createMaps_pinned (.inr (by simp [hsecond])) hnames

structure Ensured (names : String × String) (kernel after : Kernel)
    (maps : HookMaps) : Prop extends Besides names kernel after where
  held : after.Held maps names
  progArrayFd : maps.progArrayFd < after.opened
  idHashFd : maps.idHashFd < after.opened

theorem ensured_of_opened {after : Kernel} {map map' : Nat}
    (hfiles : after.files = Function.update
      (Function.update kernel.files kernel.opened (some map))
      (kernel.opened + 1) (some map'))
    (hopened : after.opened = kernel.opened + 2)
    (hfirst : after.pins (getPinPath names.1) = some map)
    (hsecond : after.pins (getPinPath names.2) = some map')
    (hpins : ∀ path, path ≠ getPinPath names.1 → path ≠ getPinPath names.2 →
      after.pins path = kernel.pins path) :
    Ensured names kernel after ⟨kernel.opened, kernel.opened + 1,
      getPinPath names.1, getPinPath names.2⟩ := by
  refine ⟨⟨by omega, ?_, hpins⟩, ⟨⟨map, ?_, hfirst⟩, map', ?_, hsecond⟩, ?_, ?_⟩
  · intro fd hfd
    have hne : fd ≠ kernel.opened := by omega
    have hne' : fd ≠ kernel.opened + 1 := by omega
    simp [hfiles, hne, hne']
  · have hne : (kernel.opened : Int) ≠ kernel.opened + 1 := by omega
    simp [hfiles, hne]
  · simp [hfiles]
  · simp only [hopened]
    omega
  · simp only [hopened]
    omega

theorem finish_openMaps_together (hnames : names ∈ mapNames hook)
    (htogether : kernel.Together names) :
    ∃ maps,
      (finish answer true (openMaps names.1 names.2) kernel).2 = some maps ∧
      Ensured names kernel
        (finish answer true (openMaps names.1 names.2) kernel).1 maps := by
  obtain ⟨hzero, hone⟩ := opened_nonneg kernel
  have hne := pinPath_ne hnames
  obtain ⟨map, map', hfirst, hsecond⟩ | ⟨hfirst, hsecond⟩ :=
    together_iff.mp htogether
  · simp only [openMaps, ask_bind, finish_call, answer, ↓reduceIte, hfirst,
      openMap, hzero, false_or, hsecond, Nat.cast_add, Nat.cast_one, hone,
      finish_pure, Option.some.injEq, exists_eq_left']
    exact ensured_of_opened rfl rfl hfirst hsecond fun _ _ _ => rfl
  · simp only [openMaps, closeOpened, ask_bind, createMaps, finish_call, answer,
      ↓reduceIte, hfirst, Int.reduceNeg, Int.neg_neg_iff_pos, zero_lt_one,
      true_or, Int.neg_nonneg, Int.reduceLE, Calls.pure_bind, hsecond, openMap,
      hzero, Nat.cast_add, Nat.cast_one, hone, ne_eq, left_eq_add, one_ne_zero,
      not_false_eq_true, Function.update_of_ne, Function.update_self,
      lt_self_iff_false, changePin_pins, hne, changePin_files, finish_pure,
      Option.some.injEq, exists_eq_left']
    refine ensured_of_opened rfl rfl ?_ ?_ ?_
    · simp [changePin_pins, hne.symm]
    · simp [changePin_pins]
    · intro path hpath hpath'
      simp [changePin_pins, hpath, hpath']

theorem finish_ensureMaps_together (hnames : names ∈ mapNames hook)
    (hnew : files.hookMaps hook = none) (htogether : kernel.Together names) :
    ∃ after maps,
      finish answer true (files.ensureMaps hook) kernel =
        (after, true, { files with
          hookMaps := Function.update files.hookMaps hook (some maps) }) ∧
      Ensured names kernel after maps := by
  have hsome : mapNames hook = some names := hnames
  obtain ⟨maps, hmaps, hensured⟩ := finish_openMaps_together hnames htogether
  exact ⟨_, maps, by simp [ensureMaps, hnew, hsome, finish_bind, hmaps],
    hensured⟩

theorem finish_ensureMaps_torn (hnames : names ∈ mapNames hook)
    (hnew : files.hookMaps hook = none) (htorn : ¬ kernel.Together names) :
    (finish answer true (files.ensureMaps hook) kernel).2.1 = false := by
  have hsome : mapNames hook = some names := hnames
  have hnone := finish_openMaps_torn hnames htorn
  simp [ensureMaps, hnew, hsome, finish_bind, hnone]

end MapFiles

namespace Kernel

open MapFiles

variable {kernel : Kernel}

theorem paired_iff : kernel.Paired ↔
    kernel.Together ("TC_In_parray", "TC_In_idhash") ∧
      kernel.Together ("XDP_Gen_parray", "XDP_Gen_idhash") := by
  constructor
  · exact fun hpaired => ⟨hpaired .tc _ rfl, hpaired .xdpGeneric _ rfl⟩
  · intro ⟨htc, hxdp⟩ hook names hnames
    cases hook <;> cases hnames
    · exact htc
    · exact hxdp

theorem held_init (hpaired : kernel.Paired) :
    (finish answer true new.init kernel).2.1 = true ∧
      ∀ hook, ∀ names ∈ mapNames hook,
        ∃ maps ∈ (finish answer true new.init kernel).2.2.hookMaps hook,
          (finish answer true new.init kernel).1.Held maps names := by
  obtain ⟨htc, hxdp⟩ := paired_iff.mp hpaired
  obtain ⟨middle, maps, hfinish, hensured⟩ :=
    @finish_ensureMaps_together kernel new .tc _ rfl rfl htc
  have hmiddle := @Besides.together kernel middle .xdpGeneric .tc _ _
    hensured.toBesides rfl rfl (by decide)
  obtain ⟨after, others, hfinish', hensured'⟩ :=
    @finish_ensureMaps_together middle
      { new with hookMaps := Function.update new.hookMaps .tc (some maps) }
      .xdpGeneric _ rfl rfl (hmiddle.mpr hxdp)
  have hheld := @Held.of_besides middle .tc .xdpGeneric _ _ after maps
    hensured.held hensured'.toBesides hensured.progArrayFd hensured.idHashFd
    rfl rfl (by decide)
  have hinit : finish answer true new.init kernel = (after, true, {
      initialized := true
      hookMaps := Function.update
        (Function.update new.hookMaps .tc (some maps)) .xdpGeneric
        (some others) }) := by
    simp [init, finish_bind, hfinish, hfinish']
  rw [hinit]
  refine ⟨rfl, fun hook names hnames => ?_⟩
  cases hook <;> cases hnames
  · exact ⟨maps, rfl, hheld⟩
  · exact ⟨others, rfl, hensured'.held⟩

theorem init_fails (htorn : ¬ kernel.Paired) :
    (finish answer true new.init kernel).2.1 = false := by
  rw [paired_iff] at htorn
  by_cases htc : kernel.Together ("TC_In_parray", "TC_In_idhash")
  · obtain ⟨middle, maps, hfinish, hensured⟩ :=
      @finish_ensureMaps_together kernel new .tc _ rfl rfl htc
    have hmiddle := @Besides.together kernel middle .xdpGeneric .tc _ _
      hensured.toBesides rfl rfl (by decide)
    have hfails := @finish_ensureMaps_torn middle
      { new with hookMaps := Function.update new.hookMaps .tc (some maps) }
      .xdpGeneric _ rfl rfl fun hxdp => htorn ⟨htc, hmiddle.mp hxdp⟩
    simp [init, finish_bind, hfinish, hfails]
  · have hfails := @finish_ensureMaps_torn kernel new .tc _ rfl rfl htc
    simp [init, finish_bind, hfails]

theorem recovers_iff_paired : kernel.Recovers ↔ kernel.Paired := by
  constructor
  · intro hrecovers
    by_contra htorn
    have hfails : (finish answer true new.init kernel.begin).2.1 = false :=
      init_fails htorn
    exact Bool.false_ne_true (hfails.symm.trans hrecovers.1)
  · exact fun hpaired => @held_init kernel.begin hpaired

theorem steady_start : start.Steady :=
  ⟨fun _ _ _ => rfl, fun ⟨_, _, _, hchanged⟩ => nomatch hchanged⟩

theorem endLife_paired_iff (hpaired : kernel.Paired)
    (operations : List Operation) (count : Nat) :
    (kernel.endLife ⟨operations, .replicate count true⟩).Paired ↔
      ¬ (kernel.endLife ⟨operations, .replicate count true⟩).Torn := by
  have hbegin : kernel.begin.Steady :=
    ⟨hpaired, fun ⟨_, _, _, hchanged⟩ => nomatch hchanged⟩
  exact (kept_perform hbegin sound_new operations).of_live
    (fun _ _ hsteady => hsteady.iff) fun _ hmem => List.eq_of_mem_replicate hmem

/-- After any lives the next one recovers exactly if each hook has both its pin
files or neither.  While all calls succeed, that is so exactly if no life is
killed when it has pinned or unpinned the program array of a hook and not yet
its id hash. -/
theorem recovers_iff (lives : List Life)
    (killed : List (List Operation × Nat)) :
    ((run endLife start lives).Recovers ↔ (run endLife start lives).Paired) ∧
    (StepsMeet endLife (fun kernel life => (kernel.endLife life).Recovers)
        start (killed.map fun life => ⟨life.1, .replicate life.2 true⟩) ↔
      StepsMeet endLife (fun kernel life => ¬ (kernel.endLife life).Torn)
        start (killed.map fun life => ⟨life.1, .replicate life.2 true⟩)) := by
  refine ⟨recovers_iff_paired, ?_⟩
  refine @stepsMeet_iff_stepsMeet _ _ endLife _ Paired _
    (fun life => ∃ operations count,
      life = ⟨operations, .replicate count true⟩) ?_ ?_ _ _ steady_start.1 ?_
  · intro kernel life hpaired hlife hwhole
    obtain ⟨operations, count, rfl⟩ := hlife
    exact (endLife_paired_iff hpaired operations count).mpr hwhole
  · intro kernel life hpaired hlife
    obtain ⟨operations, count, rfl⟩ := hlife
    exact recovers_iff_paired.trans
      (endLife_paired_iff hpaired operations count)
  · intro life hlife
    obtain ⟨⟨operations, count⟩, -, rfl⟩ := List.mem_map.mp hlife
    exact ⟨operations, count, rfl⟩

theorem not_recovers_killed :
    ¬ ∀ lives : List Life, (run endLife start lives).Recovers := by
  intro hall
  have hpaired := recovers_iff_paired.mp
    (hall [⟨[.init], .replicate 5 true⟩]) .tc _ rfl
  exact absurd hpaired (by unfold Together; decide)

end Kernel

end Hebpf.Ebpf
