import Mathlib.Data.List.Induction

set_option autoImplicit false

/-!
# Runs of a machine whose steps are chosen by actions

A machine is deterministic once the action is fixed, so every interleaving is
one list of actions. Invariants are proved of one step and carried to runs here.
-/
namespace TransitionSystem

/-- `step s a = none` means that the action `a` is not enabled in `s`. -/
structure Machine (σ α : Type) where
  init : σ
  step : σ → α → Option σ

variable {σ α : Type} (M : Machine σ α)

inductive Run : σ → List α → σ → Prop where
  | nil (s : σ) : Run s [] s
  | cons {s t u : σ} {a : α} {as : List α} (h : M.step s a = some t)
      (tail : Run t as u) : Run s (a :: as) u

def exec (s : σ) : List α → Option σ
  | [] => some s
  | a :: as => (M.step s a).bind (fun t => exec t as)

variable {M}

theorem run_of_exec {s t : σ} {as : List α} (h : exec M s as = some t) : Run M s as t := by
  induction as generalizing s with
  | nil =>
    cases h
    exact .nil _
  | cons a as ih =>
    obtain ⟨u,hu,hr⟩ := Option.bind_eq_some_iff.mp h
    exact .cons hu (ih hr)

def endOf (M : Machine σ α) (s : σ) (as : List α) (h : (exec M s as).isSome = true) : σ :=
  (exec M s as).get h

theorem run_endOf {s : σ} {as : List α} (h : (exec M s as).isSome = true) :
    Run M s as (endOf M s as h) :=
  run_of_exec (Option.some_get h).symm

theorem Run.unique {s t u : σ} {as : List α} (h : Run M s as t) (h' : Run M s as u) : t = u := by
  induction h with
  | nil _ =>
    cases h'
    rfl
  | cons hs _ ih =>
    cases h' with
    | cons hs' tail =>
      rw [hs] at hs'
      cases hs'
      exact ih tail

theorem Run.snoc {s t u : σ} {as : List α} {a : α} (h : Run M s as t)
    (hs : M.step t a = some u) : Run M s (as ++ [a]) u := by
  induction h with
  | nil _ => exact .cons hs (.nil u)
  | cons ha _ ih => exact .cons ha (ih hs)

theorem Run.append {s t u : σ} {as bs : List α} (h : Run M s as t) (h' : Run M t bs u) :
    Run M s (as ++ bs) u := by
  induction h with
  | nil _ => exact h'
  | cons ha _ ih => exact .cons ha (ih h')

/-- A run of an appended list passes through a state between the two parts. -/
theorem Run.split {s u : σ} {as bs : List α} (h : Run M s (as ++ bs) u) :
    ∃ t, Run M s as t ∧ Run M t bs u := by
  induction as generalizing s with
  | nil => exact ⟨s,.nil s,h⟩
  | cons a as ih =>
    cases h with
    | cons hs tail =>
      obtain ⟨t,ht,hu⟩ := ih tail
      exact ⟨t,.cons hs ht,hu⟩

/-- Induction on a run with its last step peeled off. -/
theorem Run.rec_last {s : σ} {P : List α → σ → Prop} (nil : P [] s)
    (snoc : ∀ as t a u, Run M s as t → P as t → M.step t a = some u → P (as ++ [a]) u)
    {as : List α} {t : σ} (h : Run M s as t) : P as t := by
  induction as using List.reverseRecOn generalizing t with
  | nil =>
    cases h
    exact nil
  | append_singleton as a ih =>
    obtain ⟨u,hu,last⟩ := h.split
    cases last with
    | cons hs tail =>
      cases tail
      exact snoc as u a t hu (ih hu) hs

theorem Run.invariant {I : σ → Prop} (hstep : ∀ s a t, I s → M.step s a = some t → I t)
    {s t : σ} {as : List α} (h : Run M s as t) (hs : I s) : I t := by
  induction h with
  | nil _ => exact hs
  | cons ha _ ih => exact ih (hstep _ _ _ hs ha)

variable (M)

/-- Every step of the run meets the guard `G` in the state it is taken from. -/
def Guarded (G : σ → α → Prop) : σ → List α → Prop
  | _, [] => True
  | s, a :: as => G s a ∧ ∀ t, M.step s a = some t → Guarded G t as

variable {M}

/-! ### What holds all along a run -/

variable (M)

/-- `P` holds at every point of the run, of the actions before it, the state and the
    actions after it. -/
def Along (P : List α → σ → List α → Prop) (s : σ) (as : List α) : Prop :=
  ∀ bs cs t, as = bs ++ cs → Run M s bs t → P bs t cs

/-- `P` holds in every state of the run. -/
def Throughout (P : σ → Prop) (s : σ) (as : List α) : Prop := Along M (fun _ t _ => P t) s as

variable {M}

theorem Run.guarded_invariant {G : σ → α → Prop} {I : σ → Prop}
    (hstep : ∀ s a t, I s → G s a → M.step s a = some t → I t)
    {s t : σ} {as : List α} (h : Run M s as t) (hg : Guarded M G s as) (hs : I s) : I t := by
  induction h with
  | nil _ => exact hs
  | cons ha _ ih => exact ih (hg.2 _ ha) (hstep _ _ _ hs hg.1 ha)

theorem Guarded.cons {G : σ → α → Prop} {s t : σ} {a : α} {as : List α}
    (ha : M.step s a = some t) (hg : G s a) (tail : Guarded M G t as) :
    Guarded M G s (a :: as) := by
  refine ⟨hg,fun u hu => ?_⟩
  rw [ha] at hu
  cases hu
  exact tail

theorem Guarded.of_forall {G : σ → α → Prop} {as : List α} (h : ∀ a ∈ as, ∀ s, G s a) (s : σ) :
    Guarded M G s as := by
  induction as generalizing s with
  | nil => trivial
  | cons a as ih =>
    exact ⟨h a (by simp) s,fun t _ => ih (fun b hb => h b (by simp [hb])) t⟩

/-- `J` is what the guard `G` keeps, on the steps of a domain `D`, and a step that breaks
    `G` from a state with `J` breaks `P`. Then `P` holds all along a run of the domain
    exactly when the whole run meets the guard. -/
theorem Run.always_iff_guarded {D G : σ → α → Prop} {P J : σ → Prop} (holds : ∀ s, J s → P s)
    (keeps : ∀ s a t, J s → D s a → G s a → M.step s a = some t → J t)
    (breaks : ∀ s a t, J s → D s a → M.step s a = some t → P t → G s a)
    {s t : σ} {as : List α} (h : Run M s as t) (hd : Guarded M D s as) (hs : J s) :
    Throughout M P s as ↔ Guarded M G s as := by
  induction h with
  | nil s =>
    refine ⟨fun _ => trivial,?_⟩
    intro _ bs cs u eq run
    obtain ⟨rfl,_⟩ := List.append_eq_nil_iff.mp eq.symm
    cases run
    exact holds s hs
  | @cons s t u a as ha tail ih =>
    constructor
    · intro always
      have next : P t := always [a] as t rfl (.cons ha (.nil t))
      have guard := breaks _ _ _ hs hd.1 ha next
      refine .cons ha guard ((ih (hd.2 _ ha) (keeps _ _ _ hs hd.1 guard ha)).mp ?_)
      intro bs cs w eq run
      exact always (a :: bs) cs w (by rw [eq,List.cons_append]) (.cons ha run)
    · rintro guarded bs cs w eq run
      cases run with
      | nil _ => exact holds s hs
      | @cons _ t' _ b bs hb run =>
        rw [List.cons_append,List.cons.injEq] at eq
        obtain ⟨rfl,eq⟩ := eq
        rw [ha] at hb
        cases hb
        have next := keeps _ _ _ hs hd.1 guarded.1 ha
        exact (ih (hd.2 _ ha) next).mpr (guarded.2 _ ha) bs cs w eq run

/-- If a step from a state with `I` keeps it exactly when it meets the guard, then `I`
    holds all along a run exactly when the whole run meets the guard. -/
theorem Run.always_iff {G : σ → α → Prop} {I : σ → Prop}
    (hstep : ∀ s a t, I s → M.step s a = some t → (I t ↔ G s a))
    {s t : σ} {as : List α} (h : Run M s as t) (hs : I s) :
    Throughout M I s as ↔ Guarded M G s as :=
  h.always_iff_guarded (D := fun _ _ => True) (fun _ hi => hi)
    (fun s a t hi _ guard ha => (hstep s a t hi ha).mpr guard)
    (fun s a t hi _ ha next => (hstep s a t hi ha).mp next)
    (Guarded.of_forall (fun _ _ _ => trivial) s) hs

theorem Guarded.and {G H : σ → α → Prop} {s : σ} {as : List α} (hg : Guarded M G s as)
    (hh : Guarded M H s as) : Guarded M (fun s a => G s a ∧ H s a) s as := by
  induction as generalizing s with
  | nil => trivial
  | cons a as ih => exact ⟨⟨hg.1,hh.1⟩,fun t ht => ih (hg.2 t ht) (hh.2 t ht)⟩

theorem Guarded.left {G : σ → α → Prop} {s : σ} {as bs : List α}
    (h : Guarded M G s (as ++ bs)) : Guarded M G s as := by
  induction as generalizing s with
  | nil => trivial
  | cons a as ih => exact ⟨h.1,fun t ht => ih (h.2 t ht)⟩

theorem Guarded.snoc {G : σ → α → Prop} {s t : σ} {as : List α} {a : α}
    (h : Guarded M G s as) (ht : Run M s as t) (hg : G t a) : Guarded M G s (as ++ [a]) := by
  induction ht with
  | nil _ => exact ⟨hg,fun _ _ => trivial⟩
  | cons ha _ ih => exact .cons ha h.1 (ih (h.2 _ ha) hg)

theorem Guarded.append {G : σ → α → Prop} {s t : σ} {as bs : List α} (h : Guarded M G s as)
    (ht : Run M s as t) (h' : Guarded M G t bs) : Guarded M G s (as ++ bs) := by
  induction ht with
  | nil _ => exact h'
  | cons ha _ ih => exact .cons ha h.1 (ih (h.2 _ ha) h')

theorem Guarded.right {G : σ → α → Prop} {s t : σ} {as bs : List α}
    (h : Guarded M G s (as ++ bs)) (ht : Run M s as t) : Guarded M G t bs := by
  induction ht with
  | nil _ => exact h
  | cons ha _ ih => exact ih (h.2 _ ha)

end TransitionSystem
