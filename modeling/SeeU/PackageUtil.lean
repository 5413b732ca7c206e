import SeeU.FileTree
import SeeU.JavaString
import Mathlib.Data.Finset.Insert
import Mathlib.Logic.Function.Basic

set_option autoImplicit false

/-!
# `PackageUtil`

The classes of a package are collected from directories and jars. A directory is walked
through, a jar gives its entries one after another. File names are separated by slashes.
-/
namespace SeeU.PackageUtil
open JavaString FileTree

/-- A list of `char`s. -/
abbrev JString := List UInt16

/-- A constant of the source, all of whose characters are ASCII. -/
def ofString (s : String) : JString := s.toList.map (fun c => UInt16.ofNat c.toNat)

/-- `'/'`, which is `File.separatorChar` too. -/
def SLASH_CHAR : UInt16 := 0x2f
def DOT_CHAR : UInt16 := 0x2e

/-- `".class"`. -/
def classSuffix : JString := ofString ".class"

/-- A class is its name, under which the class loader finds it or not. -/
structure ClassLoader where
  loads : JString → Bool

/-- `classes.add(getClassLoader().loadClass(name))`; a `ClassNotFoundException` is logged. -/
def addClass (loader : ClassLoader) (name : JString) (classes : Finset JString) :
    Finset JString :=
  if loader.loads name then insert name classes else classes

/-! ### Directories -/

abbrev Directory := Listing JString

/-- The `FileFilter` of `listFiles`. -/
def accept (recursive isDirectory : Bool) (name : JString) : Bool :=
  (recursive && isDirectory) || decide (classSuffix <:+ name)

/-- The name of a class file without its suffix. -/
def simpleName (name : JString) : JString := name.take (name.length - 6)

/-- The loop over the files of a directory. -/
def visitFiles (loader : ClassLoader) (recursive : Bool) :
    Directory → JString → Finset JString → Finset JString
  | .empty, _, classes => classes
  | .file name rest, packageName, classes =>
    visitFiles loader recursive rest packageName
      (if accept recursive false name then
        addClass loader (packageName ++ DOT_CHAR :: simpleName name) classes
      else classes)
  | .directory name files rest, packageName, classes =>
    visitFiles loader recursive rest packageName
      (if accept recursive true name then
        visitFiles loader recursive files (packageName ++ DOT_CHAR :: name) classes
      else classes)

/-- `dir` is null if no directory has the path. -/
def getClassInFile (loader : ClassLoader) (dir : Option Directory) (packageName : JString)
    (recursive : Bool) (classes : Finset JString) : Finset JString :=
  match dir with
  | none => classes
  | some files => visitFiles loader recursive files packageName classes

/-! ### Jars -/

/-- What a scan has collected, and whether it ended with an unchecked exception. -/
structure Scan where
  classes : Finset JString
  thrown : Bool
  deriving DecidableEq

/-- `JarEntry.isDirectory`. -/
def isDirectory (entry : JString) : Bool := decide ([SLASH_CHAR] <:+ entry)

/-- The name of an entry without a slash at its beginning. -/
def stripSlash : JString → JString
  | [] => []
  | c :: name => if c = SLASH_CHAR then name else c :: name

/-- The value of `packageName` after an entry. -/
def packageAfter (packageDirName packageName entry : JString) : JString :=
  let name := stripSlash entry
  if packageDirName <+: name then
    match lastIndexOf name SLASH_CHAR with
    | some idx => replace SLASH_CHAR DOT_CHAR (name.take idx)
    | none => packageName
  else packageName

/-- The class that an entry adds, with `packageName` assigned already. `none` is a
    `StringIndexOutOfBoundsException`. -/
def classOf (packageDirName : JString) (recursive : Bool) (packageName entry : JString) :
    Option (Option JString) :=
  let name := stripSlash entry
  if entry = [] then none
  else if packageDirName <+: name ∧ (lastIndexOf name SLASH_CHAR ≠ none ∨ recursive) ∧
      classSuffix <:+ name ∧ !isDirectory entry then
    (substring name (packageName.length + 1) (name.length - 6)).map
      (fun className => some (packageName ++ DOT_CHAR :: className))
  else some none

def visitEntries (loader : ClassLoader) (packageDirName : JString) (recursive : Bool) :
    List JString → JString → Finset JString → Scan
  | [], _, classes => ⟨classes,false⟩
  | entry :: entries, packageName, classes =>
    let packageName := packageAfter packageDirName packageName entry
    match classOf packageDirName recursive packageName entry with
    | none => ⟨classes,true⟩
    | some none => visitEntries loader packageDirName recursive entries packageName classes
    | some (some name) =>
      visitEntries loader packageDirName recursive entries packageName
        (addClass loader name classes)

def getClassInJar (loader : ClassLoader) (entries : List JString) (packageName : JString)
    (recursive : Bool) (classes : Finset JString) : Scan :=
  visitEntries loader (replace DOT_CHAR SLASH_CHAR packageName) recursive entries packageName
    classes

/-! ### `getClasses` -/

/-- A resource by its protocol. The directory of a `file` is null if there is none, or if
    the URL cannot be decoded, which is logged. -/
inductive Url where
  | file (dir : Option Directory)
  | jar (path : JString) (entries : List JString)
  | other

structure ClassPath where
  loader : ClassLoader
  getResources : JString → List Url

/-- The operations that throw an `IOException` during a call. -/
structure Outage where
  getResources : Bool
  getJarFile : JString → Bool

structure Call where
  packageName : JString
  recursive : Bool
  outage : Outage

namespace ClassPath

/-- The `switch` on the protocol; an `IOException` of a jar is logged. -/
def visitUrl (cp : ClassPath) (c : Call) (classes : Finset JString) : Url → Scan
  | .file dir => ⟨getClassInFile cp.loader dir c.packageName c.recursive classes,false⟩
  | .jar path entries =>
    if c.outage.getJarFile path then ⟨classes,false⟩
    else getClassInJar cp.loader entries c.packageName c.recursive classes
  | .other => ⟨classes,false⟩

def visitUrls (cp : ClassPath) (c : Call) : List Url → Finset JString → Scan
  | [], classes => ⟨classes,false⟩
  | url :: urls, classes =>
    let scan := cp.visitUrl c classes url
    if scan.thrown then scan else visitUrls cp c urls scan.classes

/-- The resources that the class loader has for a call. -/
def resources (cp : ClassPath) (c : Call) : List Url :=
  if c.outage.getResources then []
  else cp.getResources (replace DOT_CHAR SLASH_CHAR c.packageName)

/-- The scan of a call, with an `IOException` of `getResources` logged. -/
def scan (cp : ClassPath) (c : Call) : Scan := cp.visitUrls c (cp.resources c) ∅

end ClassPath

inductive RuntimeException where
  | stringIndexOutOfBounds
  deriving DecidableEq

def Scan.result (s : Scan) : Except RuntimeException (Finset JString) :=
  if s.thrown then .error .stringIndexOutOfBounds else .ok s.classes

/-- The set is in `packageMap` while the scan fills it, and stays there with what it holds
    when the scan throws. -/
def getClasses (cp : ClassPath) (packageMap : JString → Option (Finset JString)) (c : Call) :
    Except RuntimeException (Finset JString) × (JString → Option (Finset JString)) :=
  match packageMap c.packageName with
  | some classes => (.ok classes,packageMap)
  | none =>
    let scan := cp.scan c
    (scan.result,Function.update packageMap c.packageName (some scan.classes))

end SeeU.PackageUtil
