import Mathlib.Data.List.Nodup

set_option autoImplicit false

/-!
# Linearizations

A concurrent object has changes, which take effect one after the other, and answers,
which may be about any moment of their call. A moment is a number of changes that have
taken effect. An answer that comes last can still be placed earlier in the order.
-/
namespace Linearizability

/-- The object as it is used by one call at a time. -/
structure Object (σ K A : Type) where
  init : σ
  apply : σ → K → σ
  Answers : σ → A → Prop

inductive Entry (C K A : Type) where
  | change (c : C) (k : K)
  | answer (c : C) (a : A)

variable {σ C K A : Type}

def Entry.call : Entry C K A → C
  | change c _ => c
  | answer c _ => c

def Entry.effect : Entry C K A → Option (C × K)
  | change c k => some (c,k)
  | answer _ _ => none

def changes (order : List (Entry C K A)) : List (C × K) := order.filterMap Entry.effect

namespace Object

variable (O : Object σ K A)

/-- The state after the changes. -/
def after (s : σ) (ks : List K) : σ := ks.foldl O.apply s

/-- Each answer is one that the object gives after the changes before it. -/
def Sequential : σ → List (Entry C K A) → Prop
  | _, [] => True
  | s, .change _ k :: rest => Sequential (O.apply s k) rest
  | s, .answer _ a :: rest => O.Answers s a ∧ Sequential s rest

end Object

/-- One call at a time in this order gives the same answers, and no call stands before
    one that had returned when it was invoked. -/
structure Linearization (O : Object σ K A) (Precedes : C → C → Prop)
    (order : List (Entry C K A)) : Prop where
  nodup : (order.map Entry.call).Nodup
  sequential : O.Sequential O.init order
  realTime : order.Pairwise (fun e e' => ¬Precedes e'.call e.call)

/-- No entry stands after the moment at which its call returned. -/
def Within (finish : C → ℕ) : ℕ → List (Entry C K A) → Prop
  | _, [] => True
  | n, .change c _ :: rest => n < finish c ∧ Within finish (n+1) rest
  | n, .answer c _ :: rest => n ≤ finish c ∧ Within finish n rest

/-! ### The parts of an order -/

section Parts
variable {O : Object σ K A} {finish : C → ℕ} {order before after : List (Entry C K A)}

@[simp] theorem changes_append : changes (before ++ after) = changes before ++ changes after :=
  List.filterMap_append

@[simp] theorem changes_change (c : C) (k : K) :
    changes (.change c k :: order) = (c,k) :: changes order := rfl

@[simp] theorem changes_answer (c : C) (a : A) : changes (.answer c a :: order) = changes order :=
  rfl

theorem Object.sequential_append {s : σ} : O.Sequential s (before ++ after) ↔
    O.Sequential s before ∧ O.Sequential (O.after s ((changes before).map Prod.snd)) after := by
  induction before generalizing s with
  | nil => exact (true_and _).symm ▸ Iff.rfl
  | cons e before ih =>
    cases e with
    | change c k => exact ih
    | answer c a =>
      rw [List.cons_append,Sequential,Sequential,ih,and_assoc]
      rfl

theorem within_append {n : ℕ} : Within finish n (before ++ after) ↔
    Within finish n before ∧ Within finish (n+(changes before).length) after := by
  induction before generalizing n with
  | nil => exact (true_and _).symm ▸ Iff.rfl
  | cons e before ih =>
    cases e with
    | change c k =>
      rw [List.cons_append,Within,Within,ih,and_assoc,changes_change,List.length_cons,
        Nat.add_assoc,Nat.add_comm 1]
    | answer c a =>
      rw [List.cons_append,Within,Within,ih,and_assoc,changes_answer]

theorem Within.le {n : ℕ} (h : Within finish n order) : ∀ e ∈ order, n ≤ finish e.call := by
  induction order generalizing n with
  | nil => simp
  | cons e order ih =>
    cases e with
    | change c k =>
      rw [List.forall_mem_cons]
      exact ⟨Nat.le_of_lt h.1,fun e he => Nat.le_of_succ_le (ih h.2 e he)⟩
    | answer c a =>
      rw [List.forall_mem_cons]
      exact ⟨h.1,ih h.2⟩

theorem Within.congr {finish' : C → ℕ} {n : ℕ} (h : Within finish n order)
    (same : ∀ e ∈ order, finish' e.call = finish e.call) : Within finish' n order := by
  induction order generalizing n with
  | nil => trivial
  | cons e order ih =>
    rw [List.forall_mem_cons] at same
    cases e with
    | change c k => exact ⟨Nat.lt_of_lt_of_eq h.1 same.1.symm,ih h.2 same.2⟩
    | answer c a => exact ⟨Nat.le_trans h.1 (Nat.le_of_eq same.1.symm),ih h.2 same.2⟩

/-- The order up to its moment `n`, with all answers about it, and what comes later. -/
theorem split_at (finish : C → ℕ) {n : ℕ} (hn : n ≤ (changes order).length) : ∃ before after,
    order = before ++ after ∧ changes before = (changes order).take n ∧
      ∀ m, Within finish m after → ∀ e ∈ after, m < finish e.call := by
  induction order generalizing n with
  | nil => exact ⟨[],[],rfl,List.take_nil.symm,fun _ _ => by simp⟩
  | cons e order ih =>
    cases e with
    | answer c a =>
      obtain ⟨before,after,rfl,eq,later⟩ := ih hn
      exact ⟨.answer c a :: before,after,rfl,eq,later⟩
    | change c k =>
      cases n with
      | zero =>
        refine ⟨[],.change c k :: order,rfl,rfl,?_⟩
        rintro m ⟨first,rest⟩
        rw [List.forall_mem_cons]
        exact ⟨first,rest.le⟩
      | succ n =>
        obtain ⟨before,after,rfl,eq,later⟩ := ih (Nat.le_of_succ_le_succ hn)
        exact ⟨.change c k :: before,after,rfl,congrArg (List.cons (c,k)) eq,later⟩

end Parts

/-! ### One more call -/

section Grow
variable {O : Object σ K A} {Precedes : C → C → Prop} {finish : C → ℕ}
  {order : List (Entry C K A)} {c : C}

/-- Returned calls keep their order as long as no call precedes them later. -/
theorem Linearization.mono {Precedes' : C → C → Prop} (h : Linearization O Precedes order)
    (same : ∀ e ∈ order, ∀ b, Precedes' b e.call → Precedes b e.call) :
    Linearization O Precedes' order := by
  refine ⟨h.nodup,h.sequential,h.realTime.imp_of_mem ?_⟩
  intro e e' he _ not before
  exact not (same e he _ before)

/-- A change takes effect after all others. -/
theorem Linearization.change (h : Linearization O Precedes order) (within : Within finish 0 order)
    (new : c ∉ order.map Entry.call) (last : ∀ e ∈ order, ¬Precedes c e.call) (k : K)
    (hf : (changes order).length < finish c) :
    Linearization O Precedes (order ++ [.change c k]) ∧
      Within finish 0 (order ++ [.change c k]) := by
  refine ⟨⟨?_,?_,?_⟩,?_⟩
  · rw [List.map_append,List.map_singleton]
    exact List.nodup_append_comm.mp (List.nodup_cons.mpr ⟨new,h.nodup⟩)
  · exact Object.sequential_append.mpr ⟨h.sequential,trivial⟩
  · refine List.pairwise_append.mpr ⟨h.realTime,List.pairwise_singleton _ _,?_⟩
    rintro e he e' he'
    cases List.mem_singleton.mp he'
    exact last e he
  · refine within_append.mpr ⟨within,?_,trivial⟩
    rw [Nat.zero_add]
    exact hf

/-- An answer about the moment `n` stands last among those about that moment: the calls
    behind it were still running then. -/
theorem Linearization.answer (h : Linearization O Precedes order) (within : Within finish 0 order)
    (new : c ∉ order.map Entry.call) (last : ∀ e ∈ order, ¬Precedes c e.call) {a : A} {n : ℕ}
    (hn : n ≤ (changes order).length)
    (ha : O.Answers (O.after O.init (((changes order).take n).map Prod.snd)) a)
    (early : ∀ e ∈ order, Precedes e.call c → finish e.call ≤ n) (hf : n ≤ finish c) :
    ∃ order', Linearization O Precedes order' ∧ Within finish 0 order' ∧
      changes order' = changes order ∧ ∀ e, e ∈ order' ↔ e ∈ order ∨ e = .answer c a := by
  obtain ⟨before,after,rfl,eq,later⟩ := split_at finish hn
  have length : (changes before).length = n := by
    rw [eq,List.length_take,Nat.min_eq_left hn]
  obtain ⟨within,tail⟩ := within_append.mp within
  obtain ⟨executed,rest⟩ := Object.sequential_append.mp h.sequential
  obtain ⟨first,second,across⟩ := List.pairwise_append.mp h.realTime
  rw [Nat.zero_add,length] at tail
  rw [←eq] at ha
  refine ⟨before ++ .answer c a :: after,⟨?_,?_,?_⟩,?_,?_,?_⟩
  · rw [List.map_append,List.map_cons]
    refine List.nodup_middle.mpr (List.nodup_cons.mpr ?_)
    rw [←List.map_append]
    exact ⟨new,h.nodup⟩
  · exact Object.sequential_append.mpr ⟨executed,ha,rest⟩
  · refine List.pairwise_append.mpr ⟨first,List.pairwise_cons.mpr ⟨?_,second⟩,?_⟩
    · intro e he precedes
      have bound := early e (List.mem_append_right _ he) precedes
      have running := later n tail e he
      omega
    · intro e he e' he'
      rcases List.mem_cons.mp he' with rfl | he'
      · exact last e (List.mem_append_left _ he)
      · exact across e he e' he'
  · refine within_append.mpr ⟨within,?_⟩
    rw [Nat.zero_add,length]
    exact ⟨hf,tail⟩
  · rw [changes_append,changes_append,changes_answer]
  · intro e
    simp only [List.mem_append,List.mem_cons]
    tauto

end Grow

end Linearizability
