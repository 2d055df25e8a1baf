import Hebpf.Ebpf.PinnedProgMap
import Mathlib.Data.List.TakeWhile

namespace Hebpf.Ebpf

open Hebpf.Common Hebpf.Daemon

/-! The two ways to the official name of a program: from the file name of its
library, by which the daemon orders a chain, and from the name of its service,
by which the loader puts the program into the chain. -/

def libraryFile (name : String) : String := "libhebpf_" ++ name ++ ".so"

def xdpLibraryFile (name : String) : String := "libhebpf_" ++ name ++ "_xdp.so"

/-- Both libraries of a service lead to the official name that its own name
leads to, in whatever directory they are, and names that are told apart in
upper case keep their official names apart. -/
structure NamedAlike (hook : HookType) (name : String) : Prop where
  library : ∀ dir : String,
    getCanonicalName hook .library (dir ++ "/" ++ libraryFile name) =
      getCanonicalName hook .program name
  xdpLibrary : ∀ dir : String,
    getCanonicalName hook .library (dir ++ "/" ++ xdpLibraryFile name) =
      getCanonicalName hook .program name
  apart : ∀ other : String,
    name.toList.map Char.toUpper ≠ other.toList.map Char.toUpper →
      getCanonicalName hook .program name ≠
        getCanonicalName hook .program other

theorem baseName_append {file : String} (hfile : '/' ∉ file.toList)
    (dir : String) : baseName (dir ++ "/" ++ file) = file := by
  have hslash : ∀ char ∈ file.toList.reverse, decide (char ≠ '/') = true := by
    intro char hchar
    exact decide_eq_true
      (ne_of_mem_of_not_mem (List.mem_reverse.mp hchar) hfile)
  have hpath : (dir ++ "/" ++ file).toList.reverse =
      file.toList.reverse ++ '/' :: dir.toList.reverse := by
    simp [String.toList_append]
  rw [baseName, hpath, List.takeWhile_append_of_pos hslash,
    List.takeWhile_cons_of_neg (by decide), List.append_nil,
    List.reverse_reverse, String.ofList_toList]

theorem dropLast_extension (stem : List Char) :
    (stem ++ ".so".toList).dropLast.dropLast.dropLast = stem := by
  have hsplit : stem ++ ".so".toList = stem ++ ['.'] ++ ['s'] ++ ['o'] := by
    simp
  rw [hsplit, List.dropLast_concat, List.dropLast_concat, List.dropLast_concat]

theorem libraryStem_file (rest : List Char) :
    libraryStem ("libhebpf_".toList ++ rest ++ ".so".toList) =
      some (rest.takeWhile (· ≠ '_')) := by
  unfold libraryStem
  rw [if_pos (List.suffix_append _ _)]
  simp only [dropLast_extension]
  rw [if_pos (List.prefix_append _ _), List.drop_left]

theorem getCanonicalName_library (hook : HookType) {rest : String}
    (hrest : '/' ∉ rest.toList) (dir : String) :
    getCanonicalName hook .library
        (dir ++ "/" ++ ("libhebpf_" ++ rest ++ ".so")) =
      getCanonicalName hook .program
        (String.ofList (rest.toList.takeWhile (· ≠ '_'))) := by
  have hfile : '/' ∉ ("libhebpf_" ++ rest ++ ".so").toList := by
    simp [String.toList_append, hrest]
  unfold getCanonicalName
  simp only
  rw [baseName_append hfile, String.toList_append, String.toList_append,
    libraryStem_file, String.toList_ofList]

theorem takeWhile_xdp (name : List Char) :
    (name ++ "_xdp".toList).takeWhile (· ≠ '_') =
      name.takeWhile (· ≠ '_') := by
  rw [List.takeWhile_append]
  split_ifs with hwhole
  · have hself : name.takeWhile (· ≠ '_') = name :=
      (List.takeWhile_prefix _).eq_of_length hwhole
    rw [hself]
    exact List.append_nil name
  · rfl

theorem getCanonicalName_libraryFile (hook : HookType) {name : String}
    (hname : '/' ∉ name.toList) (dir : String) :
    getCanonicalName hook .library (dir ++ "/" ++ libraryFile name) =
      getCanonicalName hook .program
        (String.ofList (name.toList.takeWhile (· ≠ '_'))) :=
  getCanonicalName_library hook hname dir

theorem getCanonicalName_xdpLibraryFile (hook : HookType) {name : String}
    (hname : '/' ∉ name.toList) (dir : String) :
    getCanonicalName hook .library (dir ++ "/" ++ xdpLibraryFile name) =
      getCanonicalName hook .program
        (String.ofList (name.toList.takeWhile (· ≠ '_'))) := by
  have hrest : '/' ∉ (name ++ "_xdp").toList := by
    simp [String.toList_append, hname]
  have hfile : xdpLibraryFile name = "libhebpf_" ++ (name ++ "_xdp") ++ ".so" := by
    apply String.toList_injective
    simp [xdpLibraryFile, String.toList_append]
  rw [hfile, getCanonicalName_library hook hrest dir, String.toList_append,
    takeWhile_xdp]

theorem getCanonicalName_program_inj {hook : HookType} {name other : String} :
    getCanonicalName hook .program name = getCanonicalName hook .program other ↔
      name.toList.map Char.toUpper = other.toList.map Char.toUpper := by
  unfold getCanonicalName
  simp only
  rw [String.append_left_inj, String.append_left_inj]
  exact String.ofList_inj

theorem takeWhile_eq_self_iff_not_mem {name : List Char} :
    name.takeWhile (· ≠ '_') = name ↔ '_' ∉ name := by
  rw [List.takeWhile_eq_self_iff]
  constructor
  · intro hall hmem
    exact absurd (hall '_' hmem) (by decide)
  · intro hnot char hchar
    exact decide_eq_true (ne_of_mem_of_not_mem hchar hnot)

/-- The two ways meet for a service exactly where its name has no
underscore. -/
theorem namedAlike_iff (hook : HookType) {name : String}
    (hname : '/' ∉ name.toList) :
    NamedAlike hook name ↔ '_' ∉ name.toList := by
  rw [← takeWhile_eq_self_iff_not_mem]
  constructor
  · intro halike
    have hlibrary := halike.library ""
    rw [getCanonicalName_libraryFile hook hname,
      getCanonicalName_program_inj, String.toList_ofList] at hlibrary
    have hlength := congrArg List.length hlibrary
    rw [List.length_map, List.length_map] at hlength
    exact (List.takeWhile_prefix _).eq_of_length hlength
  · intro hself
    constructor
    · intro dir
      rw [getCanonicalName_libraryFile hook hname, hself, String.ofList_toList]
    · intro dir
      rw [getCanonicalName_xdpLibraryFile hook hname, hself,
        String.ofList_toList]
    · intro other hother
      rw [ne_eq, getCanonicalName_program_inj]
      exact hother

/-- The load balancer. -/
theorem namedAlike_iff_lb :
    '/' ∉ "lb".toList ∧ (NamedAlike .tc "lb" ↔ '_' ∉ "lb".toList) :=
  ⟨by decide, namedAlike_iff .tc (by decide)⟩

/-- The library of `example_usermode` is taken for that of `example`. -/
theorem not_namedAlike_exampleUsermode :
    getCanonicalName .kprobe .library
        ("build" ++ "/" ++ libraryFile "example_usermode") =
          "EXAMPLE_KProbe" ∧
      getCanonicalName .kprobe .program "example_usermode" =
        "EXAMPLE_USERMODE_KProbe" ∧
      ¬ NamedAlike .kprobe "example_usermode" := by
  have hlibrary : getCanonicalName .kprobe .library
      ("build" ++ "/" ++ libraryFile "example_usermode") =
        "EXAMPLE_KProbe" := by decide
  have hprogram : getCanonicalName .kprobe .program "example_usermode" =
      "EXAMPLE_USERMODE_KProbe" := by decide
  refine ⟨hlibrary, hprogram, fun halike => ?_⟩
  have hsame := halike.library "build"
  rw [hlibrary, hprogram] at hsame
  exact absurd hsame (by decide)

end Hebpf.Ebpf
