import Mathlib.Data.List.Basic

set_option autoImplicit false

/-!
# The current value of a key in a log of changes

A log puts values under keys and removes keys. The last event about a key decides
its current value.
-/
namespace KeyedLog

inductive Event (K V : Type) where
  | put (k : K) (v : V)
  | remove (k : K)

variable {K V : Type}

def Event.key : Event K V → K
  | put k _ => k
  | remove k => k

def Event.value : Event K V → Option V
  | put _ v => some v
  | remove _ => none

variable [DecidableEq K]

def current (log : List (Event K V)) (k : K) : Option V :=
  (log.reverse.find? (fun e => e.key = k)).bind Event.value

theorem current_snoc (log : List (Event K V)) (e : Event K V) (k : K) :
    current (log ++ [e]) k = if e.key = k then e.value else current log k := by
  unfold current
  rw [List.reverse_append,List.reverse_singleton,List.singleton_append,List.find?_cons]
  by_cases h : e.key = k <;> simp [h]

theorem put_mem_of_current {log : List (Event K V)} {k : K} {v : V} (h : current log k = some v) :
    .put k v ∈ log := by
  obtain ⟨e,he,hv⟩ := Option.bind_eq_some_iff.mp h
  have key := List.find?_some he
  have mem := List.mem_of_find?_eq_some he
  cases e with
  | put k' v' =>
    cases hv
    have eq : k' = k := of_decide_eq_true key
    rw [←eq]
    exact List.mem_reverse.mp mem
  | remove k' => cases hv

end KeyedLog
