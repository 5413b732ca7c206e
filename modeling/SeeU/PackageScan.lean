import SeeU.PackageUtil
import Mathlib.Data.Finset.Insert
import Mathlib.Data.Set.Basic

set_option autoImplicit false

/-!
# A package in a directory and in a jar

Both scans are compared with the class files of a tree whose directories are those of the
package, or of a package below it.
-/
namespace SeeU.PackageUtil
open JavaString FileTree

/-! ### Class files and the entries of a jar -/

def ValidName (name : JString) : Prop := name ≠ [] ∧ SLASH_CHAR ∉ name

instance (name : JString) : Decidable (ValidName name) := inferInstanceAs (Decidable (_ ∧ _))

/-- A directory of a class path. -/
structure Tree where
  files : Directory
  proper : files.Proper ValidName

structure PackageName where
  components : List JString
  ne : components ≠ []
  plain : ∀ c ∈ components, c ≠ [] ∧ SLASH_CHAR ∉ c ∧ DOT_CHAR ∉ c

def PackageName.name (p : PackageName) : JString := join DOT_CHAR p.components
def PackageName.path (p : PackageName) : JString := join SLASH_CHAR p.components

/-- The file `base.class` in the directories `ds`. -/
def ClassFile (tree : Tree) (ds : List JString) (base : JString) : Prop :=
  (ds,base ++ classSuffix) ∈ tree.files.paths

def className (ds : List JString) (base : JString) : JString := join DOT_CHAR (ds ++ [base])

/-- The classes of the package, and if `recursive` those of the packages below it. -/
def ClassesIn (loader : ClassLoader) (tree : Tree) (p : PackageName) (recursive : Bool) :
    Set JString :=
  { n | ∃ ds base, ClassFile tree ds base ∧
    (ds = p.components ∨ recursive ∧ p.components <+: ds) ∧ n = className ds base ∧
    loader.loads n }

def filePath (ds : List JString) (name : JString) : JString := join SLASH_CHAR (ds ++ [name])

/-- An entry gives a path with or without a slash at its beginning. -/
def Gives (entry path : JString) : Prop := entry = path ∨ entry = SLASH_CHAR :: path

instance (entry path : JString) : Decidable (Gives entry path) :=
  inferInstanceAs (Decidable (_ ∨ _))

/-- A jar has an entry for each file of the tree and may have entries for directories. -/
structure JarOf (tree : Tree) (entries : List JString) : Prop where
  files : ∀ p ∈ tree.files.paths, ∃ e ∈ entries, Gives e (filePath p.1 p.2)
  only : ∀ e ∈ entries, (∃ p ∈ tree.files.paths, Gives e (filePath p.1 p.2)) ∨
    ∃ ds ∈ tree.files.directories, Gives e (filePath ds [])

/-! ### The walk through a directory -/

section Walk
variable {loader : ClassLoader} {recursive : Bool}

theorem mem_addClass {name n : JString} {classes : Finset JString} :
    n ∈ addClass loader name classes ↔ n ∈ classes ∨ n = name ∧ loader.loads n := by
  unfold addClass
  split_ifs with loads
  · rw [Finset.mem_insert]
    constructor
    · rintro (rfl | h)
      · exact .inr ⟨rfl,loads⟩
      · exact .inl h
    · rintro (h | ⟨rfl,_⟩)
      · exact .inr h
      · exact .inl rfl
  · constructor
    · exact .inl
    · rintro (h | ⟨rfl,h⟩)
      · exact h
      · exact absurd h loads

theorem suffix_iff_exists {name : JString} :
    classSuffix <:+ name ↔ ∃ base, name = base ++ classSuffix := by
  constructor
  · rintro ⟨base,eq⟩
    exact ⟨base,eq.symm⟩
  · rintro ⟨base,rfl⟩
    exact List.suffix_append ..

theorem simpleName_append (base : JString) : simpleName (base ++ classSuffix) = base := by
  rw [simpleName,List.length_append]
  exact List.take_left

/-- The directories that the walk goes into. -/
def Visited (recursive : Bool) (ds : List JString) : Prop :=
  ∀ d ∈ ds, accept recursive true d = true

theorem className_nil (base : JString) : className [] base = base := join_singleton base

theorem className_cons (d : JString) (ds : List JString) (base : JString) :
    className (d :: ds) base = d ++ DOT_CHAR :: className ds base :=
  join_cons d (List.append_ne_nil_of_right_ne_nil ds (List.cons_ne_nil base []))

/-- What a file of the directory itself adds. -/
theorem mem_visitFile {name packageName n : JString} {classes : Finset JString} :
    n ∈ (if accept recursive false name then
        addClass loader (packageName ++ DOT_CHAR :: simpleName name) classes
      else classes) ↔ n ∈ classes ∨
      ∃ base, name = base ++ classSuffix ∧ n = packageName ++ DOT_CHAR :: base ∧
        loader.loads n := by
  have filter : accept recursive false name = true ↔ classSuffix <:+ name := by
    simp [accept]
  split_ifs with suffix
  · obtain ⟨base,rfl⟩ := suffix_iff_exists.mp (filter.mp suffix)
    rw [mem_addClass,simpleName_append]
    apply or_congr Iff.rfl
    constructor
    · intro h
      exact ⟨base,rfl,h⟩
    · rintro ⟨base',eq,h⟩
      rw [List.append_cancel_right eq]
      exact h
  · constructor
    · exact .inl
    · rintro (h | ⟨base,eq,_⟩)
      · exact h
      · exact absurd (filter.mpr (suffix_iff_exists.mpr ⟨base,eq⟩)) suffix

theorem mem_visitFiles {files : Directory} {packageName n : JString} {classes : Finset JString} :
    n ∈ visitFiles loader recursive files packageName classes ↔ n ∈ classes ∨
      ∃ ds base, (ds,base ++ classSuffix) ∈ files.paths ∧ Visited recursive ds ∧
        n = packageName ++ DOT_CHAR :: className ds base ∧ loader.loads n := by
  induction files generalizing packageName classes with
  | empty => simp [visitFiles,Listing.paths]
  | file name rest ih =>
    rw [visitFiles,ih,mem_visitFile,or_assoc]
    apply or_congr Iff.rfl
    constructor
    · rintro (⟨base,rfl,h⟩ | ⟨ds,base,hp,h⟩)
      · refine ⟨[],base,List.mem_cons_self ..,List.forall_mem_nil _,?_⟩
        rw [className_nil]
        exact h
      · exact ⟨ds,base,List.mem_cons_of_mem _ hp,h⟩
    · rintro ⟨ds,base,hp,visited,h⟩
      rcases List.mem_cons.mp hp with eq | hp
      · cases eq
        rw [className_nil] at h
        exact .inl ⟨base,rfl,h⟩
      · exact .inr ⟨ds,base,hp,visited,h⟩
  | directory name files rest inner ih =>
    have below : n ∈ (if accept recursive true name then
          visitFiles loader recursive files (packageName ++ DOT_CHAR :: name) classes
        else classes) ↔ n ∈ classes ∨
        ∃ ds base, (ds,base ++ classSuffix) ∈ files.paths ∧ Visited recursive (name :: ds) ∧
          n = packageName ++ DOT_CHAR :: className (name :: ds) base ∧ loader.loads n := by
      simp only [className_cons,Visited,List.forall_mem_cons]
      split_ifs with visited
      · rw [inner]
        simp only [List.append_assoc,List.cons_append,visited,true_and]
        rfl
      · simp [visited]
    rw [visitFiles,ih,below,or_assoc]
    apply or_congr Iff.rfl
    constructor
    · rintro (⟨ds,base,hp,h⟩ | ⟨ds,base,hp,h⟩)
      · refine ⟨name :: ds,base,List.mem_append_left _ ?_,h⟩
        exact List.mem_map.mpr ⟨_,hp,rfl⟩
      · exact ⟨ds,base,List.mem_append_right _ hp,h⟩
    · rintro ⟨ds,base,hp,h⟩
      rcases List.mem_append.mp hp with hp | hp
      · obtain ⟨⟨es,f⟩,hq,eq⟩ := List.mem_map.mp hp
        obtain ⟨rfl,rfl⟩ := Prod.mk.inj eq
        exact .inl ⟨es,base,hq,h⟩
      · exact .inr ⟨ds,base,hp,h⟩

end Walk

/-! ### The entries of a jar -/

section Entries
variable {entry : JString} {ds : List JString} {name base : JString}

theorem filePath_nil (name : JString) : filePath [] name = name := join_singleton name

theorem filePath_of_ne (ne : ds ≠ []) (name : JString) :
    filePath ds name = join SLASH_CHAR ds ++ SLASH_CHAR :: name := join_concat ne name

/-- A path does not begin with a slash. -/
theorem stripSlash_path (h : Gives entry (filePath ds name)) (dirs : ∀ d ∈ ds, ValidName d)
    (own : ds = [] → ValidName name) : stripSlash entry = filePath ds name ∧ entry ≠ [] := by
  have first : ∃ c t, filePath ds name = c :: t ∧ c ≠ SLASH_CHAR := by
    have valid : ∃ d t, filePath ds name = d ++ t ∧ ValidName d := by
      cases ds with
      | nil => exact ⟨name,[],by rw [filePath_nil,List.append_nil],own rfl⟩
      | cons d ds => exact ⟨d,_,rfl,dirs d (List.mem_cons_self ..)⟩
    obtain ⟨d,t,eq,ne,noSlash⟩ := valid
    cases d with
    | nil => exact absurd rfl ne
    | cons c d =>
      rw [List.mem_cons,not_or] at noSlash
      exact ⟨c,d ++ t,eq,Ne.symm noSlash.1⟩
  obtain ⟨c,t,eq,ne⟩ := first
  rcases h with rfl | rfl
  · rw [eq,stripSlash,if_neg ne]
    exact ⟨rfl,List.cons_ne_nil c t⟩
  · rw [stripSlash,if_pos rfl]
    exact ⟨rfl,List.cons_ne_nil _ _⟩

variable {packageDirName packageName : JString} {recursive : Bool}

theorem packageAfter_nested (h : Gives entry (filePath ds name)) (dirs : ∀ d ∈ ds, ValidName d)
    (ne : ds ≠ []) (own : SLASH_CHAR ∉ name) :
    packageAfter packageDirName packageName entry =
      if packageDirName <+: filePath ds name then join DOT_CHAR ds else packageName := by
  rw [packageAfter,(stripSlash_path h dirs (fun nil => absurd nil ne)).1]
  apply ite_congr rfl
  · intro _
    rw [filePath_of_ne ne,lastIndexOf_append _ own]
    dsimp only
    rw [List.take_left,replace_join (fun d hd => (dirs d hd).2)]
  · intro _
    rfl

theorem packageAfter_root (h : Gives entry (filePath [] name)) (own : ValidName name) :
    packageAfter packageDirName packageName entry = packageName := by
  rw [packageAfter,(stripSlash_path h nofun (fun _ => own)).1,filePath_nil,
    lastIndexOf_of_notMem own.2]
  exact ite_self _

theorem isDirectory_file (h : Gives entry (filePath ds name)) (own : ValidName name) :
    isDirectory entry = false := by
  have ends : ∃ t, entry = t ++ name := by
    have path : ∃ t, filePath ds name = t ++ name := by
      by_cases nil : ds = []
      · subst nil
        exact ⟨[],filePath_nil name⟩
      · refine ⟨join SLASH_CHAR ds ++ [SLASH_CHAR],?_⟩
        rw [filePath_of_ne nil,List.append_assoc]
        rfl
    obtain ⟨t,eq⟩ := path
    rcases h with rfl | rfl
    · exact ⟨t,eq⟩
    · exact ⟨SLASH_CHAR :: t,by rw [eq]; rfl⟩
  obtain ⟨t,rfl⟩ := ends
  rw [isDirectory,decide_eq_false_iff_not]
  exact not_suffix_append t own.1 own.2

theorem suffix_filePath_iff : classSuffix <:+ filePath ds name ↔ classSuffix <:+ name := by
  by_cases nil : ds = []
  · subst nil
    rw [filePath_nil]
  · rw [filePath_of_ne nil]
    exact suffix_append_cons_iff (by decide) _ _

theorem classOf_other (h : Gives entry (filePath ds name)) (dirs : ∀ d ∈ ds, ValidName d)
    (own : ds = [] → ValidName name) (other : ¬classSuffix <:+ name) :
    classOf packageDirName recursive packageName entry = some none := by
  obtain ⟨path,ne⟩ := stripSlash_path h dirs own
  rw [classOf,path,if_neg ne,if_neg]
  rintro ⟨_,_,suffix,_⟩
  exact other (suffix_filePath_iff.mp suffix)

/-- The part between the last slash and the suffix is the name of the class. -/
theorem substring_class (s base : JString) :
    substring (s ++ SLASH_CHAR :: (base ++ classSuffix)) (s.length + 1)
      ((s ++ SLASH_CHAR :: (base ++ classSuffix)).length - 6) = some base := by
  have parts : s ++ SLASH_CHAR :: (base ++ classSuffix) =
      (s ++ [SLASH_CHAR]) ++ (base ++ classSuffix) := by
    rw [List.append_assoc]
    rfl
  have begin : s.length + 1 = (s ++ [SLASH_CHAR]).length := by
    rw [List.length_append]
    rfl
  have suffix : classSuffix.length = 6 := rfl
  have length : (s ++ SLASH_CHAR :: (base ++ classSuffix)).length - 6 =
      (s ++ [SLASH_CHAR]).length + base.length := by
    rw [parts]
    simp only [List.length_append,suffix]
    omega
  rw [begin,length,parts]
  exact substring_between ..

theorem substring_nested (ne : ds ≠ []) :
    substring (filePath ds (base ++ classSuffix)) ((join DOT_CHAR ds).length + 1)
      ((filePath ds (base ++ classSuffix)).length - 6) = some base := by
  have same : (join DOT_CHAR ds).length = (join SLASH_CHAR ds).length := length_join ..
  rw [same,filePath_of_ne ne]
  exact substring_class ..

theorem classOf_nested (h : Gives entry (filePath ds (base ++ classSuffix)))
    (dirs : ∀ d ∈ ds, ValidName d) (ne : ds ≠ []) (own : ValidName (base ++ classSuffix)) :
    classOf packageDirName recursive (packageAfter packageDirName packageName entry) entry =
      if packageDirName <+: filePath ds (base ++ classSuffix) then
        some (some (className ds base))
      else some none := by
  obtain ⟨path,nonempty⟩ := stripSlash_path h dirs (fun _ => own)
  rw [classOf,path,if_neg nonempty,packageAfter_nested h dirs ne own.2]
  by_cases inside : packageDirName <+: filePath ds (base ++ classSuffix)
  · have slash : lastIndexOf (filePath ds (base ++ classSuffix)) SLASH_CHAR ≠ none := by
      rw [filePath_of_ne ne,lastIndexOf_append _ own.2]
      nofun
    have suffix : classSuffix <:+ filePath ds (base ++ classSuffix) :=
      suffix_filePath_iff.mpr (List.suffix_append ..)
    rw [if_pos inside,if_pos inside,
      if_pos ⟨inside,.inl slash,suffix,by rw [isDirectory_file h own]; rfl⟩,
      substring_nested ne]
    rw [className,join_concat ne]
    rfl
  · rw [if_neg inside,if_neg inside,if_neg (fun all => inside all.1)]

theorem classOf_root (h : Gives entry (filePath [] (base ++ classSuffix)))
    (own : ValidName (base ++ classSuffix)) :
    classOf packageDirName recursive packageName entry =
      if packageDirName <+: base ++ classSuffix ∧ recursive then
        if packageName.length < base.length then
          some (some (packageName ++ DOT_CHAR :: base.drop (packageName.length + 1)))
        else none
      else some none := by
  obtain ⟨path,nonempty⟩ := stripSlash_path h nofun (fun _ => own)
  rw [filePath_nil] at path
  have suffix : classSuffix <:+ base ++ classSuffix := List.suffix_append ..
  have file : (!isDirectory entry) = true := by
    rw [isDirectory_file h own]
    rfl
  have root : lastIndexOf (base ++ classSuffix) SLASH_CHAR = none :=
    lastIndexOf_of_notMem own.2
  rw [classOf,path,if_neg nonempty,root]
  have length : (base ++ classSuffix).length - 6 = base.length := by
    rw [List.length_append]
    exact Nat.add_sub_cancel ..
  simp only [ne_eq,not_true_eq_false,false_or,suffix,file,and_true]
  apply ite_congr rfl
  · intro _
    rw [length,substring_left]
    split_ifs with fits short short
    · rfl
    · exact absurd fits short
    · exact absurd short fits
    · rfl
  · intro _
    rfl

end Entries

end SeeU.PackageUtil
