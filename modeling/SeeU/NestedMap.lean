import Mathlib.Logic.Function.Basic

set_option autoImplicit false

/-!
# Maps of maps

The inner map of a key is created when it is first needed and is never taken away.
-/

abbrev NestedMap (κ ι β : Type) := κ → Option (ι → Option β)

namespace NestedMap
variable {κ ι β : Type}

def empty : NestedMap κ ι β := fun _ => none

def get (m : NestedMap κ ι β) (k : κ) (i : ι) : Option β :=
  match m k with
  | none => none
  | some inner => inner i

theorem get_getD (m : NestedMap κ ι β) (k : κ) (i : ι) :
    (m k).getD (fun _ => none) i = m.get k i := by
  unfold get
  cases m k <;> rfl

variable [DecidableEq κ]

/-- The inner map of `k`, empty if there was none. -/
def computeIfAbsent (m : NestedMap κ ι β) (k : κ) : NestedMap κ ι β :=
  Function.update m k (some ((m k).getD (fun _ => none)))

def put [DecidableEq ι] (m : NestedMap κ ι β) (k : κ) (i : ι) (v : β) : NestedMap κ ι β :=
  Function.update m k (some (Function.update ((m k).getD (fun _ => none)) i (some v)))

theorem get_computeIfAbsent (m : NestedMap κ ι β) (k k' : κ) (i : ι) :
    (m.computeIfAbsent k).get k' i = m.get k' i := by
  by_cases hk : k' = k
  · subst hk
    rw [get,computeIfAbsent,Function.update_self]
    exact m.get_getD k' i
  · rw [get,computeIfAbsent,Function.update_of_ne hk,get]

theorem get_put [DecidableEq ι] (m : NestedMap κ ι β) (k k' : κ) (i i' : ι) (v : β) :
    (m.put k i v).get k' i' = if (k',i') = (k,i) then some v else m.get k' i' := by
  by_cases hk : k' = k
  · subst hk
    rw [get,put,Function.update_self]
    by_cases hi : i' = i
    · subst hi
      rw [if_pos rfl]
      exact Function.update_self ..
    · rw [if_neg (fun e => hi (congrArg Prod.snd e))]
      exact (Function.update_of_ne hi ..).trans (m.get_getD k' i')
  · rw [if_neg (fun e => hk (congrArg Prod.fst e)),get,put,Function.update_of_ne hk,get]

end NestedMap
