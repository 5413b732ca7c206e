import SeeU.PackageScan

set_option autoImplicit false

/-!
# Where the scans of a directory and of a jar agree

The jar is read by the beginnings of its entries, so it gives the classes of the package
only if no other class file has a path that begins as the package's does.
-/
namespace SeeU.PackageUtil
open JavaString FileTree

/-! ### The loop over the entries -/

/-- What the loop makes of an entry, with those that come before it. -/
def reading (packageDirName : JString) (recursive : Bool) (packageName : JString)
    (before : List JString) (entry : JString) : Option (Option JString) :=
  classOf packageDirName recursive
    (packageAfter packageDirName (before.foldl (packageAfter packageDirName) packageName) entry)
    entry

theorem exists_split_cons {α : Type} {P : List α → α → Prop} {a : α} {as : List α} :
    (∃ before e after, a :: as = before ++ e :: after ∧ P before e) ↔
      P [] a ∨ ∃ before e after, as = before ++ e :: after ∧ P (a :: before) e := by
  constructor
  · rintro ⟨before,e,after,eq,h⟩
    cases before with
    | nil =>
      cases eq
      exact .inl h
    | cons b before =>
      cases eq
      exact .inr ⟨before,e,after,rfl,h⟩
  · rintro (h | ⟨before,e,after,rfl,h⟩)
    · exact ⟨[],a,as,rfl,h⟩
    · exact ⟨a :: before,e,after,rfl,h⟩

section Loop
variable {loader : ClassLoader} {packageDirName : JString} {recursive : Bool}

theorem visitEntries_thrown_iff (entries : List JString) (packageName : JString)
    (classes : Finset JString) :
    (visitEntries loader packageDirName recursive entries packageName classes).thrown = true ↔
      ∃ before e after, entries = before ++ e :: after ∧
        reading packageDirName recursive packageName before e = none := by
  induction entries generalizing packageName classes with
  | nil => simp [visitEntries]
  | cons entry entries ih =>
    rw [exists_split_cons,visitEntries]
    dsimp only [reading,List.foldl_nil,List.foldl_cons]
    cases classOf packageDirName recursive (packageAfter packageDirName packageName entry) entry with
    | none => exact iff_of_true rfl (.inl rfl)
    | some found =>
      rw [or_iff_right nofun]
      cases found with
      | none => exact ih _ _
      | some name => exact ih _ _

theorem mem_visitEntries {entries : List JString} {packageName n : JString}
    {classes : Finset JString}
    (h : (visitEntries loader packageDirName recursive entries packageName classes).thrown = false) :
    n ∈ (visitEntries loader packageDirName recursive entries packageName classes).classes ↔
      n ∈ classes ∨ loader.loads n ∧ ∃ before e after, entries = before ++ e :: after ∧
        reading packageDirName recursive packageName before e = some (some n) := by
  induction entries generalizing packageName classes with
  | nil => simp [visitEntries]
  | cons entry entries ih =>
    rw [exists_split_cons]
    rw [visitEntries] at h ⊢
    dsimp only [reading,List.foldl_nil,List.foldl_cons] at h ⊢
    cases hc : classOf packageDirName recursive
        (packageAfter packageDirName packageName entry) entry with
    | none =>
      rw [hc] at h
      cases h
    | some found =>
      rw [hc] at h
      cases found with
      | none =>
        dsimp only at h ⊢
        have nothing : ¬(some none : Option (Option JString)) = some (some n) := nofun
        rw [ih h]
        simp only [nothing,false_or]
        rfl
      | some name =>
        dsimp only at h ⊢
        rw [ih h,mem_addClass,or_assoc]
        apply or_congr Iff.rfl
        simp only [Option.some.injEq]
        constructor
        · rintro (⟨rfl,loads⟩ | ⟨loads,later⟩)
          · exact ⟨loads,.inl rfl⟩
          · exact ⟨loads,.inr later⟩
        · rintro ⟨loads,rfl | later⟩
          · exact .inl ⟨rfl,loads⟩
          · exact .inr ⟨loads,later⟩

end Loop

/-! ### The jar of a tree -/

section Jar
variable {tree : Tree} {p : PackageName} {recursive : Bool} {entries : List JString}

theorem PackageName.replace_name (p : PackageName) : replace DOT_CHAR SLASH_CHAR p.name = p.path :=
  replace_join (fun c hc => (p.plain c hc).2.2)

/-- The package that is in force behind the entries `before`. -/
def inForce (p : PackageName) (before : List JString) : JString :=
  before.foldl (packageAfter p.path) p.name

theorem ClassFile.valid {ds : List JString} {base : JString} (h : ClassFile tree ds base) :
    (∀ d ∈ ds, ValidName d) ∧ ValidName (base ++ classSuffix) :=
  Listing.valid_of_mem_paths tree.proper h

theorem reading_nested {ds : List JString} {base entry : JString} (h : ClassFile tree ds base)
    (ne : ds ≠ []) (gives : Gives entry (filePath ds (base ++ classSuffix)))
    (before : List JString) : reading p.path recursive p.name before entry =
      if p.path <+: filePath ds (base ++ classSuffix) then some (some (className ds base))
      else some none :=
  classOf_nested gives h.valid.1 ne h.valid.2

theorem reading_root {base entry : JString} (h : ClassFile tree [] base)
    (gives : Gives entry (filePath [] (base ++ classSuffix))) (before : List JString) :
    reading p.path recursive p.name before entry =
      if p.path <+: base ++ classSuffix ∧ recursive then
        if (inForce p before).length < base.length then
          some (some (inForce p before ++ DOT_CHAR :: base.drop ((inForce p before).length + 1)))
        else none
      else some none := by
  rw [reading,packageAfter_root gives h.valid.2]
  exact classOf_root gives h.valid.2

/-- Only the entries of class files add a class or end the scan. -/
theorem reading_cases (jar : JarOf tree entries) {entry : JString} (he : entry ∈ entries)
    (before : List JString) :
    (∃ ds base, ClassFile tree ds base ∧ Gives entry (filePath ds (base ++ classSuffix))) ∨
      reading p.path recursive p.name before entry = some none := by
  rcases jar.only entry he with ⟨⟨ds,name⟩,hp,gives⟩ | ⟨ds,hd,gives⟩
  · obtain ⟨dirs,own⟩ := Listing.valid_of_mem_paths tree.proper hp
    by_cases suffix : classSuffix <:+ name
    · obtain ⟨base,rfl⟩ := suffix_iff_exists.mp suffix
      exact .inl ⟨ds,base,hp,gives⟩
    · exact .inr (classOf_other gives dirs (fun _ => own) suffix)
  · obtain ⟨ne,dirs⟩ := Listing.valid_of_mem_directories tree.proper hd
    exact .inr (classOf_other gives dirs (fun nil => absurd nil ne) (by decide))

end Jar

/-! ### Agreement -/

/-- The jar is scanned to its end, and both scans give the classes of the package. -/
structure Exact (loader : ClassLoader) (tree : Tree) (entries : List JString) (p : PackageName)
    (recursive : Bool) : Prop where
  ends : (getClassInJar loader entries p.name recursive ∅).thrown = false
  jar : ∀ n, n ∈ (getClassInJar loader entries p.name recursive ∅).classes ↔
    n ∈ ClassesIn loader tree p recursive
  directory : ∀ n, n ∈ getClassInFile loader (tree.files.find p.components) p.name recursive ∅ ↔
    n ∈ ClassesIn loader tree p recursive

/-- No class file outside the package has a path that begins as the package's does, unless
    it is in no directory. Then its name is cut as if it were in the package in force, and
    must be longer than that is. -/
structure Unambiguous (loader : ClassLoader) (tree : Tree) (entries : List JString)
    (p : PackageName) (recursive : Bool) : Prop where
  nested : ∀ ds base, ClassFile tree ds base → ds ≠ [] →
    p.path <+: filePath ds (base ++ classSuffix) → loader.loads (className ds base) →
    className ds base ∈ ClassesIn loader tree p recursive
  root : recursive → ∀ before entry after base, entries = before ++ entry :: after →
    ClassFile tree [] base → Gives entry (base ++ classSuffix) → p.path <+: base ++ classSuffix →
    (inForce p before).length < base.length ∧
      ∀ n, n = inForce p before ++ DOT_CHAR :: base.drop ((inForce p before).length + 1) →
        loader.loads n → n ∈ ClassesIn loader tree p recursive

section Agreement
variable {loader : ClassLoader} {tree : Tree} {p : PackageName} {recursive : Bool}
  {entries : List JString}

theorem thrown_iff : (getClassInJar loader entries p.name recursive ∅).thrown = true ↔
    ∃ before e after, entries = before ++ e :: after ∧
      reading p.path recursive p.name before e = none := by
  rw [getClassInJar,p.replace_name]
  exact visitEntries_thrown_iff entries p.name ∅

theorem mem_getClassInJar {n : JString}
    (h : (getClassInJar loader entries p.name recursive ∅).thrown = false) :
    n ∈ (getClassInJar loader entries p.name recursive ∅).classes ↔
      loader.loads n ∧ ∃ before e after, entries = before ++ e :: after ∧
        reading p.path recursive p.name before e = some (some n) := by
  rw [getClassInJar,p.replace_name] at h ⊢
  rw [mem_visitEntries h,or_iff_right (Finset.notMem_empty n)]

theorem path_begins {ds : List JString} (h : p.components <+: ds) (name : JString) :
    p.path <+: filePath ds name :=
  join_prefix (h.trans (List.prefix_append ..))

theorem ne_nil_of_below {ds : List JString} (h : p.components <+: ds) : ds ≠ [] := by
  rintro rfl
  exact p.ne (List.prefix_nil.mp h)

theorem className_below (p : PackageName) (ds : List JString) (base : JString) :
    className (p.components ++ ds) base = p.name ++ DOT_CHAR :: className ds base := by
  rw [className,List.append_assoc]
  exact join_append p.ne (List.append_ne_nil_of_right_ne_nil ds (List.cons_ne_nil base []))

theorem exists_split (jar : JarOf tree entries) {ds : List JString} {base : JString}
    (h : ClassFile tree ds base) : ∃ before e after, entries = before ++ e :: after ∧
      Gives e (filePath ds (base ++ classSuffix)) := by
  obtain ⟨e,he,gives⟩ := jar.files _ h
  obtain ⟨before,after,eq⟩ := List.append_of_mem he
  exact ⟨before,e,after,eq,gives⟩

theorem Exact.unambiguous (jar : JarOf tree entries) (h : Exact loader tree entries p recursive) :
    Unambiguous loader tree entries p recursive := by
  constructor
  · intro ds base file ne begins loads
    obtain ⟨before,e,after,eq,gives⟩ := exists_split jar file
    refine (h.jar _).mp ((mem_getClassInJar h.ends).mpr ⟨loads,before,e,after,eq,?_⟩)
    rw [reading_nested file ne gives,if_pos begins]
  · intro recurses before e after base eq file gives begins
    have root : reading p.path recursive p.name before e = _ :=
      reading_root file (by rw [filePath_nil]; exact gives) before
    rw [if_pos ⟨begins,recurses⟩] at root
    have fits : (inForce p before).length < base.length := by
      by_contra short
      rw [if_neg short] at root
      have thrown : (getClassInJar loader entries p.name recursive ∅).thrown = true :=
        thrown_iff.mpr ⟨before,e,after,eq,root⟩
      rw [h.ends] at thrown
      cases thrown
    refine ⟨fits,?_⟩
    rintro n rfl loads
    rw [if_pos fits] at root
    exact (h.jar _).mp ((mem_getClassInJar h.ends).mpr ⟨loads,before,e,after,eq,root⟩)

theorem Unambiguous.ends (jar : JarOf tree entries)
    (h : Unambiguous loader tree entries p recursive) :
    (getClassInJar loader entries p.name recursive ∅).thrown = false := by
  by_contra thrown
  obtain ⟨before,e,after,eq,none⟩ := thrown_iff.mp (Bool.eq_true_of_not_eq_false thrown)
  have mem : e ∈ entries := by simp [eq]
  rcases reading_cases jar mem before with ⟨ds,base,file,gives⟩ | other
  · by_cases nil : ds = []
    · subst nil
      rw [reading_root file gives] at none
      split_ifs at none with matched fits
      rw [filePath_nil] at gives
      exact fits (h.root matched.2 before e after base eq file gives matched.1).1
    · rw [reading_nested file nil gives] at none
      split_ifs at none
  · rw [other] at none
    cases none

/-- What the jar gives is right, the name of a file in no directory included. -/
theorem Unambiguous.sound (jar : JarOf tree entries)
    (h : Unambiguous loader tree entries p recursive) {before after : List JString}
    {e n : JString} (eq : entries = before ++ e :: after) (loads : loader.loads n)
    (found : reading p.path recursive p.name before e = some (some n)) :
    n ∈ ClassesIn loader tree p recursive := by
  have mem : e ∈ entries := by simp [eq]
  rcases reading_cases jar mem before with ⟨ds,base,file,gives⟩ | other
  · by_cases nil : ds = []
    · subst nil
      rw [reading_root file gives] at found
      split_ifs at found with matched fits
      · cases found
        rw [filePath_nil] at gives
        exact (h.root matched.2 before e after base eq file gives matched.1).2 _ rfl loads
      · cases found
    · rw [reading_nested file nil gives] at found
      split_ifs at found with begins
      · cases found
        exact h.nested ds base file nil begins loads
      · cases found
  · rw [other] at found
    cases found

/-- Every class of the package has an entry that gives it. -/
theorem complete (jar : JarOf tree entries) {n : JString}
    (h : n ∈ ClassesIn loader tree p recursive) : loader.loads n ∧
      ∃ before e after, entries = before ++ e :: after ∧
        reading p.path recursive p.name before e = some (some n) := by
  obtain ⟨ds,base,file,place,rfl,loads⟩ := h
  have below : p.components <+: ds := by
    rcases place with rfl | ⟨_,below⟩
    · exact List.prefix_rfl
    · exact below
  obtain ⟨before,e,after,eq,gives⟩ := exists_split jar file
  refine ⟨loads,before,e,after,eq,?_⟩
  rw [reading_nested file (ne_nil_of_below below) gives,if_pos (path_begins below _)]

/-- The walk goes through the files below the directory of the package. -/
theorem mem_getClassInFile {n : JString} :
    n ∈ getClassInFile loader (tree.files.find p.components) p.name recursive ∅ ↔
      ∃ ds base, ClassFile tree (p.components ++ ds) base ∧ Visited recursive ds ∧
        n = className (p.components ++ ds) base ∧ loader.loads n := by
  simp only [ClassFile,Listing.mem_paths_append_iff tree.proper,className_below]
  cases tree.files.find p.components with
  | none => simp [getClassInFile]
  | some files =>
    rw [getClassInFile,mem_visitFiles,or_iff_right (Finset.notMem_empty n)]
    simp only [Option.some.injEq,exists_eq_left']

/-- The recursive walk gives exactly the classes of the package, so only the jar can go
    wrong then. -/
theorem mem_getClassInFile_recursive {n : JString} :
    n ∈ getClassInFile loader (tree.files.find p.components) p.name true ∅ ↔
      n ∈ ClassesIn loader tree p true := by
  rw [mem_getClassInFile]
  constructor
  · rintro ⟨ds,base,file,_,rfl,loads⟩
    exact ⟨_,base,file,.inr ⟨rfl,List.prefix_append ..⟩,rfl,loads⟩
  · rintro ⟨ds,base,file,place,rfl,loads⟩
    obtain ⟨es,rfl⟩ : p.components <+: ds := by
      rcases place with rfl | ⟨_,below⟩
      · exact List.prefix_rfl
      · exact below
    refine ⟨es,base,file,?_,rfl,loads⟩
    intro d _
    rfl

theorem Unambiguous.directory (h : Unambiguous loader tree entries p recursive) (n : JString) :
    n ∈ getClassInFile loader (tree.files.find p.components) p.name recursive ∅ ↔
      n ∈ ClassesIn loader tree p recursive := by
  rw [mem_getClassInFile]
  constructor
  · rintro ⟨ds,base,file,_,rfl,loads⟩
    have below : p.components <+: p.components ++ ds := List.prefix_append ..
    exact h.nested _ base file (ne_nil_of_below below) (path_begins below _) loads
  · rintro ⟨ds,base,file,rfl | ⟨recurses,es,rfl⟩,rfl,loads⟩
    · refine ⟨[],base,?_,nofun,?_,loads⟩ <;> rw [List.append_nil]
      exact file
    · refine ⟨es,base,file,?_,rfl,loads⟩
      intro d _
      simp [accept,recurses]

theorem Unambiguous.exact (jar : JarOf tree entries)
    (h : Unambiguous loader tree entries p recursive) :
    Exact loader tree entries p recursive := by
  refine ⟨h.ends jar,?_,h.directory⟩
  intro n
  rw [mem_getClassInJar (h.ends jar)]
  constructor
  · rintro ⟨loads,before,e,after,eq,found⟩
    exact h.sound jar eq loads found
  · exact complete jar

/-- For every order of the entries, both scans give exactly the classes of the package if
    and only if the beginnings of the paths are not ambiguous. -/
theorem exact_iff (jar : JarOf tree entries) : Exact loader tree entries p recursive ↔
    Unambiguous loader tree entries p recursive :=
  ⟨Exact.unambiguous jar,Unambiguous.exact jar⟩

end Agreement

/-- The package `com.seeu`. -/
def comSeeu : PackageName := ⟨[ofString "com",ofString "seeu"],by decide,by decide⟩

/-- A tree with `com/seeu/A.class` and the files given. -/
def treeWith (inSeeu inCom : Directory) : Directory :=
  .directory (ofString "com")
    (.directory (ofString "seeu") (.file (ofString "A.class") inSeeu) inCom) .empty

/-- There is the class `com.seeu.web.B` besides `com.seeu.A`. -/
def packageOnly : Tree where
  files := treeWith (.directory (ofString "web") (.file (ofString "B.class") .empty) .empty) .empty
  proper := by simp only [treeWith,Listing.Proper,Listing.names]; decide

theorem package_only_exact : JarOf packageOnly [ofString "com/",ofString "com/seeu/web/B.class",
      ofString "com/seeu/A.class"] ∧
    Exact ⟨fun _ => true⟩ packageOnly [ofString "com/",ofString "com/seeu/web/B.class",
      ofString "com/seeu/A.class"] comSeeu true := by
  have jar : JarOf packageOnly [ofString "com/",ofString "com/seeu/web/B.class",
      ofString "com/seeu/A.class"] := ⟨by decide,by decide⟩
  have below : ∀ q ∈ packageOnly.files.paths, comSeeu.components <+: q.1 := by decide
  refine ⟨jar,(exact_iff jar).mpr ⟨?_,?_⟩⟩
  · intro ds base file _ _ loads
    exact ⟨ds,base,file,.inr ⟨rfl,below _ file⟩,rfl,loads⟩
  · intro _ _ _ _ _ _ file
    exact absurd (List.prefix_nil.mp (below _ file)) comSeeu.ne

/-- There is the sibling package `com.seeu2`. -/
def withSibling : Tree where
  files := treeWith .empty (.directory (ofString "seeu2") (.file (ofString "B.class") .empty) .empty)
  proper := by simp only [treeWith,Listing.Proper,Listing.names]; decide

/-- The class of the sibling package is given by the jar, and not by the directory. -/
theorem sibling_collected : JarOf withSibling [ofString "com/seeu/A.class",
      ofString "com/seeu2/B.class"] ∧
    ofString "com.seeu2.B" ∈ (getClassInJar ⟨fun _ => true⟩ [ofString "com/seeu/A.class",
      ofString "com/seeu2/B.class"] comSeeu.name true ∅).classes ∧
    ofString "com.seeu2.B" ∉ getClassInFile ⟨fun _ => true⟩
      (withSibling.files.find comSeeu.components) comSeeu.name true ∅ ∧
    ¬Exact ⟨fun _ => true⟩ withSibling [ofString "com/seeu/A.class",
      ofString "com/seeu2/B.class"] comSeeu true := by
  have collected : ofString "com.seeu2.B" ∈ (getClassInJar ⟨fun _ => true⟩
      [ofString "com/seeu/A.class",ofString "com/seeu2/B.class"] comSeeu.name true ∅).classes := by
    decide
  have missing : ofString "com.seeu2.B" ∉ getClassInFile ⟨fun _ => true⟩
      (withSibling.files.find comSeeu.components) comSeeu.name true ∅ := by
    decide
  refine ⟨⟨by decide,by decide⟩,collected,missing,?_⟩
  intro exact
  exact missing ((exact.directory _).mpr ((exact.jar _).mp collected))

end SeeU.PackageUtil
