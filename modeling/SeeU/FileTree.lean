import Mathlib.Data.List.Basic

set_option autoImplicit false

/-!
# Trees of directories

A directory is the list of its files, of which some are directories themselves. A file is
given by its path, the names of the directories on the way to it and its own.
-/
namespace FileTree

inductive Listing (ν : Type) where
  | empty
  | file (name : ν) (rest : Listing ν)
  | directory (name : ν) (files rest : Listing ν)

namespace Listing
variable {ν : Type}

def names : Listing ν → List ν
  | empty => []
  | file name rest => name :: rest.names
  | directory name _ rest => name :: rest.names

/-- The paths of the files that are no directories. -/
def paths : Listing ν → List (List ν × ν)
  | empty => []
  | file name rest => ([],name) :: rest.paths
  | directory name files rest => files.paths.map (fun p => (name :: p.1,p.2)) ++ rest.paths

def directories : Listing ν → List (List ν)
  | empty => []
  | file _ rest => rest.directories
  | directory name files rest =>
    [name] :: files.directories.map (name :: ·) ++ rest.directories

/-- The names are valid, and those in one directory are distinct. -/
def Proper (valid : ν → Prop) : Listing ν → Prop
  | empty => True
  | file name rest => valid name ∧ name ∉ rest.names ∧ rest.Proper valid
  | directory name files rest =>
    valid name ∧ name ∉ rest.names ∧ files.Proper valid ∧ rest.Proper valid

section Proper
variable {valid : ν → Prop} {l : Listing ν}

theorem valid_of_mem_paths (h : l.Proper valid) {p : List ν × ν} (hp : p ∈ l.paths) :
    (∀ d ∈ p.1, valid d) ∧ valid p.2 := by
  induction l generalizing p with
  | empty => cases hp
  | file name rest ih =>
    rcases List.mem_cons.mp hp with rfl | hp
    · exact ⟨nofun,h.1⟩
    · exact ih h.2.2 hp
  | directory name files rest inner ih =>
    rcases List.mem_append.mp hp with hp | hp
    · obtain ⟨q,hq,rfl⟩ := List.mem_map.mp hp
      obtain ⟨dirs,own⟩ := inner h.2.2.1 hq
      exact ⟨List.forall_mem_cons.mpr ⟨h.1,dirs⟩,own⟩
    · exact ih h.2.2.2 hp

theorem valid_of_mem_directories (h : l.Proper valid) {ds : List ν} (hd : ds ∈ l.directories) :
    ds ≠ [] ∧ ∀ d ∈ ds, valid d := by
  induction l generalizing ds with
  | empty => cases hd
  | file name rest ih => exact ih h.2.2 hd
  | directory name files rest inner ih =>
    rcases List.mem_append.mp hd with hd | hd
    · rcases List.mem_cons.mp hd with rfl | hd
      · exact ⟨List.cons_ne_nil _ _,List.forall_mem_singleton.mpr h.1⟩
      · obtain ⟨es,he,rfl⟩ := List.mem_map.mp hd
        exact ⟨List.cons_ne_nil _ _,List.forall_mem_cons.mpr ⟨h.1,(inner h.2.2.1 he).2⟩⟩
    · exact ih h.2.2.2 hd

theorem mem_names_of_mem_paths {d : ν} {ds : List ν} {f : ν} (h : (d :: ds,f) ∈ l.paths) :
    d ∈ l.names := by
  induction l with
  | empty => cases h
  | file name rest ih =>
    rcases List.mem_cons.mp h with eq | h
    · cases eq
    · exact List.mem_cons_of_mem _ (ih h)
  | directory name files rest inner ih =>
    rcases List.mem_append.mp h with h | h
    · obtain ⟨q,_,eq⟩ := List.mem_map.mp h
      cases eq
      exact List.mem_cons_self ..
    · exact List.mem_cons_of_mem _ (ih h)

end Proper

section Find
variable [DecidableEq ν] {valid : ν → Prop}

def subdirectory (d : ν) : Listing ν → Option (Listing ν)
  | empty => none
  | file _ rest => rest.subdirectory d
  | directory name files rest => if name = d then some files else rest.subdirectory d

def find (l : Listing ν) : List ν → Option (Listing ν)
  | [] => some l
  | d :: ds => (l.subdirectory d).bind (fun files => files.find ds)

theorem Proper.subdirectory {l files : Listing ν} {d : ν} (h : l.Proper valid)
    (hf : l.subdirectory d = some files) : files.Proper valid := by
  induction l with
  | empty => cases hf
  | file name rest ih => exact ih h.2.2 hf
  | directory name files' rest _ ih =>
    rw [Listing.subdirectory] at hf
    split_ifs at hf with same
    · cases hf
      exact h.2.2.1
    · exact ih h.2.2.2 hf

theorem mem_paths_cons_iff {l : Listing ν} (h : l.Proper valid) {d : ν} {ds : List ν} {f : ν} :
    (d :: ds,f) ∈ l.paths ↔ ∃ files, l.subdirectory d = some files ∧ (ds,f) ∈ files.paths := by
  induction l with
  | empty => simp [paths,Listing.subdirectory]
  | file name rest ih =>
    rw [Listing.subdirectory,←ih h.2.2,paths,List.mem_cons]
    simp
  | directory name files rest _ ih =>
    rw [paths,List.mem_append,List.mem_map,Listing.subdirectory]
    by_cases same : name = d
    · subst same
      rw [if_pos rfl]
      have other : (name :: ds,f) ∉ rest.paths := fun hp => h.2.1 (mem_names_of_mem_paths hp)
      simp [other]
    · rw [if_neg same,←ih h.2.2.2]
      simp [same]

/-- The files below a directory that can be found are those of its listing. -/
theorem mem_paths_append_iff {l : Listing ν} (h : l.Proper valid) {ds es : List ν} {f : ν} :
    (ds ++ es,f) ∈ l.paths ↔ ∃ files, l.find ds = some files ∧ (es,f) ∈ files.paths := by
  induction ds generalizing l with
  | nil => simp [find]
  | cons d ds ih =>
    rw [List.cons_append,mem_paths_cons_iff h]
    simp only [find,Option.bind_eq_some_iff]
    constructor
    · rintro ⟨files,hf,hp⟩
      obtain ⟨m,hm,hp⟩ := (ih (h.subdirectory hf)).mp hp
      exact ⟨m,⟨files,hf,hm⟩,hp⟩
    · rintro ⟨m,⟨files,hf,hm⟩,hp⟩
      exact ⟨files,hf,(ih (h.subdirectory hf)).mpr ⟨m,hm,hp⟩⟩

end Find

end Listing

end FileTree
