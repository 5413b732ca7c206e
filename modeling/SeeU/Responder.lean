import Mathlib.Data.List.Basic
import Mathlib.Logic.Function.Basic

set_option autoImplicit false

/-!
# Machines that answer their calls one at a time

Two machines that simulate each other step by step answer every list of calls alike.
-/
namespace Responder
variable {σ τ α β : Type}

/-- The answers to a list of calls, and the state after the last one. -/
def answers (step : σ → α → β × σ) : σ → List α → List β × σ
  | s, [] => ([],s)
  | s, a :: as =>
    let answered := step s a
    let rest := answers step answered.2 as
    (answered.1 :: rest.1,rest.2)

/-- The states that `R` relates answer a call alike, and `R` relates the next states. -/
def Simulates (R : σ → τ → Prop) (step : σ → α → β × σ) (step' : τ → α → β × τ) : Prop :=
  ∀ s t a, R s t → (step s a).1 = (step' t a).1 ∧ R (step s a).2 (step' t a).2

theorem Simulates.answers {R : σ → τ → Prop} {step : σ → α → β × σ} {step' : τ → α → β × τ}
    (h : Simulates R step step') {s : σ} {t : τ} (related : R s t) (as : List α) :
    (answers step s as).1 = (answers step' t as).1 ∧
      R (answers step s as).2 (answers step' t as).2 := by
  induction as generalizing s t with
  | nil => exact ⟨rfl,related⟩
  | cons a as ih =>
    obtain ⟨alike,next⟩ := h s t a related
    obtain ⟨rest,last⟩ := ih next
    exact ⟨congrArg₂ List.cons alike rest,last⟩

/-! ### A cache that keeps the first call of each key -/

section FirstCall
variable {κ γ : Type} [DecidableEq κ]

/-- `eval` answers a call that has nothing in the cache and leaves what it has `kept`
    there; `hit` answers the later calls of the key. -/
def cached (key : α → κ) (eval : α → β) (kept : α → γ) (hit : γ → β)
    (cache : κ → Option γ) (a : α) : β × (κ → Option γ) :=
  match cache (key a) with
  | some c => (hit c,cache)
  | none => (eval a,Function.update cache (key a) (some (kept a)))

variable {key : α → κ} {eval : α → β} {kept : α → γ} {hit : γ → β}

theorem cached_of_some {cache : κ → Option γ} {a : α} {c : γ} (h : cache (key a) = some c) :
    cached key eval kept hit cache a = (hit c,cache) := by
  simp only [cached,h]

theorem cached_of_none {cache : κ → Option γ} {a : α} (h : cache (key a) = none) :
    cached key eval kept hit cache a =
      (eval a,Function.update cache (key a) (some (kept a))) := by
  simp only [cached,h]

/-- What the cache holds for a call is what the call would be answered itself. -/
def Explains (key : α → κ) (eval : α → β) (hit : γ → β) (cache : κ → Option γ)
    (as : List α) : Prop :=
  ∀ b ∈ as, ∀ c, cache (key b) = some c → eval b = hit c

theorem explains_update_iff {cache : κ → Option γ} {a : α} (h : cache (key a) = none)
    (as : List α) :
    Explains key eval hit (Function.update cache (key a) (some (kept a))) as ↔
      Explains key eval hit cache as ∧ ∀ b ∈ as, key a = key b → eval b = hit (kept a) := by
  unfold Explains
  rw [←forall₂_and]
  apply forall₂_congr
  intro b _
  by_cases same : key a = key b
  · rw [←same,Function.update_self,h]
    simp
  · rw [Function.update_of_ne (Ne.symm same)]
    simp [same]

theorem answers_cached_iff_of (own : ∀ a c, eval a = hit c → kept a = c) (cache : κ → Option γ)
    (as : List α) : (answers (cached key eval kept hit) cache as).1 = as.map eval ↔
      Explains key eval hit cache as ∧
        as.Pairwise (fun a b => key a = key b → eval b = hit (kept a)) := by
  induction as generalizing cache with
  | nil => simp [answers,Explains]
  | cons a as ih =>
    rw [List.pairwise_cons,Explains,List.forall_mem_cons,answers,List.map_cons,List.cons.injEq]
    cases h : cache (key a) with
    | some c =>
      rw [cached_of_some h]
      dsimp only
      rw [ih]
      constructor
      · rintro ⟨first,later,pairs⟩
        refine ⟨⟨?_,later⟩,?_,pairs⟩
        · rintro _ ⟨⟩
          exact first.symm
        · intro b hb same
          rw [own a c first.symm]
          exact later b hb c (same ▸ h)
      · rintro ⟨⟨first,later⟩,_,pairs⟩
        exact ⟨(first c rfl).symm,later,pairs⟩
    | none =>
      rw [cached_of_none h]
      dsimp only
      rw [ih,explains_update_iff h]
      constructor
      · rintro ⟨_,⟨later,alike⟩,pairs⟩
        exact ⟨⟨nofun,later⟩,alike,pairs⟩
      · rintro ⟨⟨_,later⟩,alike,pairs⟩
        exact ⟨rfl,⟨later,alike⟩,pairs⟩

/-- No call can tell that there is a cache exactly if each later call of a key would
    itself be answered with what the earlier one has kept. -/
theorem answers_cached_iff (own : ∀ a c, eval a = hit c → kept a = c) (as : List α) :
    (answers (cached key eval kept hit) (fun _ => none) as).1 = as.map eval ↔
      as.Pairwise (fun a b => key a = key b → eval b = hit (kept a)) := by
  rw [answers_cached_iff_of own]
  exact and_iff_right (fun _ _ _ => nofun)

end FirstCall

end Responder
