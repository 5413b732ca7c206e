import SeeU.PackageAgreement
import SeeU.Responder

set_option autoImplicit false

/-!
# The cache of `getClasses`

The set of a package is kept from its first call on, whatever the flag of that call was
and however its scan ended.
-/
namespace SeeU.PackageUtil
open JavaString FileTree Responder

/-! ### Scans without an exception -/

/-- The entry has a name, and no class file whose name begins as the package's path does is
    in no directory. -/
def PlainEntry (packageDirName entry : JString) : Prop :=
  entry ≠ [] ∧ (packageDirName <+: stripSlash entry → classSuffix <:+ stripSlash entry →
    SLASH_CHAR ∈ stripSlash entry)

def ClassPath.Plain (cp : ClassPath) : Prop :=
  ∀ packageDirName path entries, .jar path entries ∈ cp.getResources packageDirName →
    ∀ entry ∈ entries, PlainEntry packageDirName entry

section Plain
variable {cp : ClassPath} {c : Call} {packageDirName packageName entry : JString}

/-- The package in force is then the directory of the entry, which ends before its name. -/
theorem classOf_plain (plain : PlainEntry packageDirName entry) :
    classOf packageDirName c.recursive (packageAfter packageDirName packageName entry) entry ≠
      none := by
  rw [classOf,if_neg plain.1]
  split_ifs with matched
  · obtain ⟨inside,_,suffix,_⟩ := matched
    obtain ⟨s,t,split,own⟩ := exists_last_of_mem (plain.2 inside suffix)
    rw [split,suffix_append_cons_iff (by decide)] at suffix
    obtain ⟨base,rfl⟩ := suffix_iff_exists.mp suffix
    have package : (packageAfter packageDirName packageName entry).length = s.length := by
      rw [packageAfter,if_pos inside,split,lastIndexOf_append s own]
      dsimp only
      rw [List.take_left,replace,List.length_map]
    rw [package,split,substring_class]
    exact Option.some_ne_none _
  · exact Option.some_ne_none _

theorem getClassInJar_plain {entries : List JString} {classes : Finset JString}
    (plain : ∀ e ∈ entries, PlainEntry (replace DOT_CHAR SLASH_CHAR c.packageName) e) :
    (getClassInJar cp.loader entries c.packageName c.recursive classes).thrown = false := by
  rw [←Bool.not_eq_true,getClassInJar,visitEntries_thrown_iff]
  rintro ⟨before,e,after,rfl,none⟩
  exact classOf_plain (plain e (by simp)) none

theorem visitUrls_plain {urls : List Url} {classes : Finset JString}
    (plain : ∀ path entries, .jar path entries ∈ urls →
      ∀ e ∈ entries, PlainEntry (replace DOT_CHAR SLASH_CHAR c.packageName) e) :
    (cp.visitUrls c urls classes).thrown = false := by
  induction urls generalizing classes with
  | nil => rfl
  | cons url urls ih =>
    have first : (cp.visitUrl c classes url).thrown = false := by
      cases url with
      | file dir => rfl
      | other => rfl
      | jar path entries =>
        rw [ClassPath.visitUrl]
        split_ifs
        · rfl
        · exact getClassInJar_plain (plain path entries (List.mem_cons_self ..))
    rw [ClassPath.visitUrls,first,if_neg Bool.false_ne_true]
    exact ih (fun path entries hu => plain path entries (List.mem_cons_of_mem _ hu))

theorem scan_plain (plain : cp.Plain) (c : Call) : (cp.scan c).thrown = false := by
  refine visitUrls_plain ?_
  intro path entries hu
  unfold ClassPath.resources at hu
  split_ifs at hu
  · cases hu
  · exact plain _ path entries hu

end Plain

/-! ### Transparency -/

/-- What a list of calls returns. -/
def results (cp : ClassPath) (calls : List Call) :
    List (Except RuntimeException (Finset JString)) :=
  (answers (getClasses cp) (fun _ => none) calls).1

theorem getClasses_eq_cached (cp : ClassPath) :
    getClasses cp = cached Call.packageName (fun c => (cp.scan c).result)
      (fun c => (cp.scan c).classes) Except.ok := by
  funext packageMap c
  rw [getClasses,cached]
  cases packageMap c.packageName <;> rfl

theorem result_eq_ok_iff {s : Scan} {classes : Finset JString} :
    s.result = .ok classes ↔ s.thrown = false ∧ s.classes = classes := by
  unfold Scan.result
  cases s.thrown <;> simp

/-- Every call returns what its own scan gives exactly if the scan of each later call for a
    package gives what the earlier one has collected. -/
theorem results_eq_iff_pairwise (cp : ClassPath) (calls : List Call) :
    results cp calls = calls.map (fun c => (cp.scan c).result) ↔
      calls.Pairwise (fun a b => a.packageName = b.packageName →
        (cp.scan b).result = .ok (cp.scan a).classes) := by
  rw [results,getClasses_eq_cached]
  refine answers_cached_iff ?_ calls
  intro c classes h
  exact (result_eq_ok_iff.mp h).2

/-- Two calls for one package that fail at the same operations and, unless they find no
    resources at all, have the same flag. -/
def Call.Alike (a b : Call) : Prop :=
  a.outage.getResources = b.outage.getResources ∧ (b.outage.getResources = false →
    a.recursive = b.recursive ∧ a.outage.getJarFile = b.outage.getJarFile)

theorem scan_alike {a b : Call} (cp : ClassPath) (package : a.packageName = b.packageName)
    (alike : a.Alike b) : cp.scan a = cp.scan b := by
  obtain ⟨name,flag,out,fails⟩ := a
  obtain ⟨name',flag',out',fails'⟩ := b
  obtain ⟨same,rest⟩ := alike
  cases package
  cases same
  cases out with
  | true => rfl
  | false =>
    obtain ⟨eq,eq'⟩ := rest rfl
    cases eq
    cases eq'
    rfl

/-! ### Class paths that tell calls apart -/

section Probes

/-- A class path with one resource for each package, all of whose classes are found. -/
def single (url : JString → Url) : ClassPath := ⟨⟨fun _ => true⟩,fun dir => [url dir]⟩

theorem scan_single (url : JString → Url) (c : Call) : (single url).scan c =
    if c.outage.getResources then ⟨∅,false⟩
    else (single url).visitUrl c ∅ (url (replace DOT_CHAR SLASH_CHAR c.packageName)) := by
  rw [ClassPath.scan,ClassPath.resources]
  cases c.outage.getResources with
  | true => rfl
  | false =>
    simp only [Bool.false_eq_true,if_false,single,ClassPath.visitUrls]
    split_ifs with thrown
    · rfl
    · rw [Bool.not_eq_true] at thrown
      rw [←thrown]

def classA : JString := ofString "A" ++ classSuffix

/-- The entry of a jar for a file of the package itself. -/
def entryOf (dir name : JString) : JString := SLASH_CHAR :: (dir ++ SLASH_CHAR :: name)

theorem classOf_entryOf {dir packageName base : JString} {recursive : Bool}
    (own : SLASH_CHAR ∉ base ++ classSuffix) (ne : base ++ classSuffix ≠ []) :
    classOf dir recursive (packageAfter dir packageName (entryOf dir (base ++ classSuffix)))
      (entryOf dir (base ++ classSuffix)) =
        some (some (replace SLASH_CHAR DOT_CHAR dir ++ DOT_CHAR :: base)) := by
  have name : stripSlash (entryOf dir (base ++ classSuffix)) =
      dir ++ SLASH_CHAR :: (base ++ classSuffix) := by
    rw [entryOf,stripSlash,if_pos rfl]
  have begins : dir <+: dir ++ SLASH_CHAR :: (base ++ classSuffix) := List.prefix_append ..
  have slash := lastIndexOf_append (s := dir) (c := SLASH_CHAR) own
  have package : packageAfter dir packageName (entryOf dir (base ++ classSuffix)) =
      replace SLASH_CHAR DOT_CHAR dir := by
    rw [packageAfter,name,if_pos begins,slash]
    dsimp only
    rw [List.take_left]
  have suffix : classSuffix <:+ dir ++ SLASH_CHAR :: (base ++ classSuffix) :=
    (suffix_append_cons_iff (by decide) _ _).mpr (List.suffix_append ..)
  have file : (!isDirectory (entryOf dir (base ++ classSuffix))) = true := by
    have last : entryOf dir (base ++ classSuffix) =
        (SLASH_CHAR :: (dir ++ [SLASH_CHAR])) ++ (base ++ classSuffix) := by
      rw [entryOf,List.cons_append,List.append_assoc]
      rfl
    rw [isDirectory,Bool.not_eq_true',decide_eq_false_iff_not,last]
    exact not_suffix_append _ ne own
  have length : (replace SLASH_CHAR DOT_CHAR dir).length = dir.length := List.length_map ..
  have nonempty : entryOf dir (base ++ classSuffix) ≠ [] := List.cons_ne_nil _ _
  have inside : lastIndexOf (dir ++ SLASH_CHAR :: (base ++ classSuffix)) SLASH_CHAR ≠ none := by
    rw [slash]
    exact Option.some_ne_none _
  rw [classOf,package,name,if_neg nonempty,if_pos ⟨begins,.inl inside,suffix,file⟩,length,
    substring_class]
  rfl

/-- Each package has one class in its directory. -/
def oneFile : ClassPath := single (fun _ => .file (some (.file classA .empty)))

/-- Each package has one class in a directory below its own. -/
def oneBelow : ClassPath :=
  single (fun _ => .file (some (.directory (ofString "d") (.file classA .empty) .empty)))

/-- Each package has one class in a jar. -/
def oneEntry (path : JString) : ClassPath :=
  single (fun dir => .jar path [entryOf dir classA])

theorem oneFile_plain : oneFile.Plain := by
  intro _ _ _ hu
  cases List.mem_singleton.mp hu

theorem oneBelow_plain : oneBelow.Plain := by
  intro _ _ _ hu
  cases List.mem_singleton.mp hu

theorem oneEntry_plain (path : JString) : (oneEntry path).Plain := by
  intro dir _ _ hu e he
  cases List.mem_singleton.mp hu
  rw [List.mem_singleton.mp he,PlainEntry,entryOf,stripSlash,if_pos rfl]
  refine ⟨List.cons_ne_nil _ _,?_⟩
  intro _ _
  simp

theorem oneFile_empty_iff (c : Call) :
    (oneFile.scan c).classes = ∅ ↔ c.outage.getResources = true := by
  rw [oneFile,scan_single]
  cases c.outage.getResources with
  | true => exact iff_of_true rfl rfl
  | false =>
    refine iff_of_false ?_ Bool.false_ne_true
    have accepted : accept c.recursive false classA = true := by
      cases c.recursive <;> decide
    simp only [Bool.false_eq_true,if_false,ClassPath.visitUrl,getClassInFile,visitFiles,
      accepted,if_true,addClass,single]
    exact Finset.insert_ne_empty _ _

theorem oneBelow_empty_iff {c : Call} (found : c.outage.getResources = false) :
    (oneBelow.scan c).classes = ∅ ↔ c.recursive = false := by
  rw [oneBelow,scan_single,found]
  cases recursive : c.recursive with
  | false =>
    refine iff_of_true ?_ rfl
    have refused : accept false true (ofString "d") = false := by decide
    simp only [Bool.false_eq_true,if_false,ClassPath.visitUrl,getClassInFile,visitFiles,recursive,
      refused]
  | true =>
    refine iff_of_false ?_ (by decide)
    have accepted : accept true false classA = true := by decide
    have entered : accept true true (ofString "d") = true := rfl
    simp only [Bool.false_eq_true,if_false,ClassPath.visitUrl,getClassInFile,visitFiles,recursive,
      accepted,entered,if_true,addClass,single]
    exact Finset.insert_ne_empty _ _

theorem oneEntry_empty_iff {c : Call} (found : c.outage.getResources = false) (path : JString) :
    ((oneEntry path).scan c).classes = ∅ ↔ c.outage.getJarFile path = true := by
  rw [oneEntry,scan_single,found]
  simp only [Bool.false_eq_true,if_false,ClassPath.visitUrl]
  cases fails : c.outage.getJarFile path with
  | true => exact iff_of_true rfl rfl
  | false =>
    refine iff_of_false ?_ Bool.false_ne_true
    rw [if_neg Bool.false_ne_true,getClassInJar,visitEntries,classA,
      classOf_entryOf (by decide) (by decide)]
    simp only [visitEntries,addClass,single,if_true]
    exact Finset.insert_ne_empty _ _

/-- Calls that agree on these class paths are alike. -/
theorem alike_of_scans {a b : Call}
    (same : ∀ cp : ClassPath, cp.Plain → (cp.scan b).classes = (cp.scan a).classes) :
    a.Alike b := by
  have resources : a.outage.getResources = b.outage.getResources := by
    rw [Bool.eq_iff_iff,←oneFile_empty_iff,←oneFile_empty_iff,same _ oneFile_plain]
  refine ⟨resources,?_⟩
  intro found
  have found' := resources.trans found
  constructor
  · have flag : a.recursive = false ↔ b.recursive = false := by
      rw [←oneBelow_empty_iff found,←oneBelow_empty_iff found',same _ oneBelow_plain]
    revert flag
    cases a.recursive <;> cases b.recursive <;> simp
  · funext path
    rw [Bool.eq_iff_iff,←oneEntry_empty_iff found,←oneEntry_empty_iff found',
      same _ (oneEntry_plain path)]

end Probes

/-- A class path with one jar, which has the classes of `packageOnly`. -/
def oneJar : ClassPath where
  loader := ⟨fun _ => true⟩
  getResources := fun dir =>
    if dir = comSeeu.path then
      [.jar (ofString "app.jar") [ofString "com/seeu/A.class",ofString "com/seeu/web/B.class"]]
    else []

/-- A call for `com.seeu` during which the jar is opened or not. -/
def openJar (opens : Bool) : Call := ⟨comSeeu.name,true,⟨false,fun _ => !opens⟩⟩

end SeeU.PackageUtil
