import Mathlib.Data.List.Basic

set_option autoImplicit false

/-!
# Strings that are lists of characters

The methods of a string, and names that are joined by a separator: a path by slashes, a
package by dots.
-/
namespace JavaString
variable {α : Type}

/-! ### Methods -/

/-- `none` if the indices are out of bounds. -/
def substring (s : List α) (beginIndex endIndex : ℕ) : Option (List α) :=
  if beginIndex ≤ endIndex ∧ endIndex ≤ s.length then some ((s.take endIndex).drop beginIndex)
  else none

theorem substring_between (s m t : List α) :
    substring (s ++ (m ++ t)) s.length (s.length + m.length) = some m := by
  have inside : s.length ≤ s.length + m.length ∧ s.length + m.length ≤ (s ++ (m ++ t)).length := by
    simp only [List.length_append]
    omega
  rw [substring,if_pos inside,List.drop_take,List.drop_left,Nat.add_sub_cancel_left,
    List.take_left]

theorem substring_left (s t : List α) (beginIndex : ℕ) :
    substring (s ++ t) beginIndex s.length =
      if beginIndex ≤ s.length then some (s.drop beginIndex) else none := by
  have inside : s.length ≤ (s ++ t).length := by
    rw [List.length_append]
    exact Nat.le_add_right ..
  rw [substring,List.take_left]
  simp only [inside,and_true]

section Search
variable [DecidableEq α]

def replace (old new : α) (s : List α) : List α := s.map (fun c => if c = old then new else c)

/-- `none` stands for `-1`. -/
def lastIndexOf (s : List α) (c : α) : Option ℕ :=
  match s with
  | [] => none
  | a :: s =>
    match lastIndexOf s c with
    | some i => some (i + 1)
    | none => if a = c then some 0 else none

theorem replace_append (old new : α) (s t : List α) :
    replace old new (s ++ t) = replace old new s ++ replace old new t :=
  List.map_append

theorem replace_of_notMem {old : α} (new : α) {s : List α} (h : old ∉ s) :
    replace old new s = s := by
  have same : ∀ c ∈ s, (if c = old then new else c) = id c := by
    intro c hc
    rw [if_neg]
    · rfl
    · rintro rfl
      exact h hc
  rw [replace,List.map_congr_left same,List.map_id]

theorem lastIndexOf_of_notMem {c : α} {s : List α} (h : c ∉ s) : lastIndexOf s c = none := by
  induction s with
  | nil => rfl
  | cons a s ih =>
    rw [List.mem_cons,not_or] at h
    rw [lastIndexOf,ih h.2]
    exact if_neg (Ne.symm h.1)

theorem lastIndexOf_append {c : α} (s : List α) {t : List α} (h : c ∉ t) :
    lastIndexOf (s ++ c :: t) c = some s.length := by
  induction s with
  | nil =>
    rw [List.nil_append,lastIndexOf,lastIndexOf_of_notMem h]
    exact if_pos rfl
  | cons a s ih =>
    rw [List.cons_append,lastIndexOf,ih]
    rfl

end Search

/-- A list is split at the last place of one of its characters. -/
theorem exists_last_of_mem {c : α} {s : List α} (h : c ∈ s) :
    ∃ t u, s = t ++ c :: u ∧ c ∉ u := by
  obtain ⟨u,t,eq,own⟩ := List.eq_append_cons_of_mem (List.mem_reverse.mpr h)
  refine ⟨t.reverse,u.reverse,?_,fun mem => own (List.mem_reverse.mp mem)⟩
  rw [←List.reverse_reverse s,eq,List.reverse_append,List.reverse_cons,List.append_assoc]
  rfl

theorem not_suffix_append {c : α} (s : List α) {t : List α} (ne : t ≠ []) (h : c ∉ t) :
    ¬[c] <:+ s ++ t := by
  rintro ⟨u,eq⟩
  obtain ⟨t',d,rfl⟩ := (List.eq_nil_or_concat' t).resolve_left ne
  rw [←List.append_assoc] at eq
  obtain ⟨_,last⟩ := List.append_inj' eq rfl
  cases last
  exact h (by simp)

/-- A suffix without the character does not reach back to it. -/
theorem suffix_append_cons_iff {c : α} {u : List α} (h : c ∉ u) (s t : List α) :
    u <:+ s ++ c :: t ↔ u <:+ t := by
  constructor
  · intro hu
    rcases List.suffix_or_suffix_of_suffix hu (List.suffix_append s (c :: t)) with shorter | longer
    · rcases List.suffix_cons_iff.mp shorter with rfl | hu
      · exact absurd (List.mem_cons_self ..) h
      · exact hu
    · exact absurd (longer.subset (List.mem_cons_self ..)) h
  · intro hu
    exact hu.trans ((List.suffix_cons c t).trans (List.suffix_append ..))

/-! ### Joined names -/

def join (sep : α) : List (List α) → List α
  | [] => []
  | s :: ss => s ++ ss.flatMap (sep :: ·)

variable {sep : α}

theorem join_append {ss ts : List (List α)} (hs : ss ≠ []) (ht : ts ≠ []) :
    join sep (ss ++ ts) = join sep ss ++ sep :: join sep ts := by
  cases ss with
  | nil => exact absurd rfl hs
  | cons s ss =>
    cases ts with
    | nil => exact absurd rfl ht
    | cons t ts =>
      simp only [join,List.cons_append,List.flatMap_append,List.flatMap_cons,List.append_assoc]

theorem join_singleton (s : List α) : join sep [s] = s := List.append_nil s

theorem join_cons (s : List α) {ts : List (List α)} (h : ts ≠ []) :
    join sep (s :: ts) = s ++ sep :: join sep ts := by
  rw [←List.singleton_append,join_append (List.cons_ne_nil s []) h,join_singleton]

theorem join_concat {ss : List (List α)} (h : ss ≠ []) (s : List α) :
    join sep (ss ++ [s]) = join sep ss ++ sep :: s := by
  rw [join_append h (List.cons_ne_nil s []),join_singleton]

theorem replace_join [DecidableEq α] {new : α} {ss : List (List α)} (h : ∀ s ∈ ss, sep ∉ s) :
    replace sep new (join sep ss) = join new ss := by
  cases ss with
  | nil => rfl
  | cons s ss =>
    rw [List.forall_mem_cons] at h
    rw [join,join,replace_append,replace_of_notMem new h.1]
    apply congrArg
    induction ss with
    | nil => rfl
    | cons t ss ih =>
      rw [List.forall_mem_cons] at h
      rw [List.flatMap_cons,List.flatMap_cons,replace_append,ih ⟨h.1,h.2.2⟩]
      apply congrArg (· ++ _)
      change (if sep = sep then new else sep) :: replace sep new t = _
      rw [if_pos rfl,replace_of_notMem new h.2.1]

theorem length_join (sep sep' : α) (ss : List (List α)) :
    (join sep ss).length = (join sep' ss).length := by
  cases ss with
  | nil => rfl
  | cons s ss => simp only [join,List.length_append,List.length_flatMap,List.length_cons]

/-- A path begins with the path of each directory on it. -/
theorem join_prefix {ss ts : List (List α)} (h : ss <+: ts) : join sep ss <+: join sep ts := by
  obtain ⟨rest,rfl⟩ := h
  cases ss with
  | nil => exact List.nil_prefix
  | cons s ss =>
    simp only [join,List.cons_append,List.flatMap_append,←List.append_assoc]
    exact List.prefix_append ..

end JavaString
