import Mathlib.Logic.Function.Basic
import Mathlib.Tactic.SplitIfs

set_option autoImplicit false

/-!
# Records filed under a key of theirs

An index files records under keys. The key of a record can change while it is
filed, so an index has to be asked whether every entry is still under the key that
its record has now.
-/
namespace KeyedIndex

variable {K R : Type} [DecidableEq K] {ix : K → Option R} {key key' : R → K}

def put (ix : K → Option R) (k : K) (r : R) : K → Option R := Function.update ix k (some r)

def remove (ix : K → Option R) (k : K) : K → Option R := Function.update ix k none

/-- Every entry is under the key that its record has. -/
def Filed (ix : K → Option R) (key : R → K) : Prop := ∀ k r, ix k = some r → key r = k

omit [DecidableEq K] in
theorem filed_none (key : R → K) : Filed (fun _ => none) key := fun _ _ h => by cases h

@[simp] theorem put_self (ix : K → Option R) (k : K) (r : R) : put ix k r k = some r :=
  Function.update_self ..

theorem put_of_ne {k l : K} (r : R) (h : l ≠ k) : put ix k r l = ix l := Function.update_of_ne h ..

@[simp] theorem remove_self (ix : K → Option R) (k : K) : remove ix k k = none :=
  Function.update_self ..

theorem remove_of_ne {k l : K} (h : l ≠ k) : remove ix k l = ix l := Function.update_of_ne h ..

theorem put_eq_some {k l : K} {r q : R} (h : put ix k r l = some q) :
    (l = k ∧ q = r) ∨ (l ≠ k ∧ ix l = some q) := by
  by_cases hl : l = k
  · subst hl
    rw [put_self] at h
    exact .inl ⟨rfl,(Option.some.inj h).symm⟩
  · rw [put_of_ne r hl] at h
    exact .inr ⟨hl,h⟩

theorem remove_eq_some {k l : K} {q : R} (h : remove ix k l = some q) : l ≠ k ∧ ix l = some q := by
  by_cases hl : l = k
  · subst hl
    rw [remove_self] at h
    cases h
  · rw [remove_of_ne hl] at h
    exact ⟨hl,h⟩

theorem remove_of_none {k : K} (h : ix k = none) : remove ix k = ix :=
  Function.update_eq_self_iff.mpr h.symm

/-! ### An entry that is put only under a condition -/

section Conditional
variable {c : Prop} [Decidable c] {k l : K} {r q : R}

theorem ite_put_eq_some (h : (if c then put ix k r else ix) l = some q) :
    (c ∧ l = k ∧ q = r) ∨ (¬(c ∧ l = k) ∧ ix l = some q) := by
  split_ifs at h with hc
  · rcases put_eq_some h with ⟨hl,hq⟩ | ⟨hl,hq⟩
    · exact .inl ⟨hc,hl,hq⟩
    · exact .inr ⟨fun both => hl both.2,hq⟩
  · exact .inr ⟨fun both => hc both.1,h⟩

theorem ite_put_of_ne (other : c → l ≠ k) : (if c then put ix k r else ix) l = ix l := by
  split_ifs with hc
  · exact put_of_ne r (other hc)
  · rfl

theorem ite_put_kept (other : c → l ≠ k) (h : ix l = some q) :
    (if c then put ix k r else ix) l = some q :=
  (ite_put_of_ne other).trans h

theorem ite_put_self (hc : c) : (if c then put ix k r else ix) k = some r := by
  rw [if_pos hc,put_self]

theorem ite_put_of_free (free : c → ix k = none) (h : ix l = some q) :
    (if c then put ix k r else ix) l = some q := by
  refine ite_put_kept ?_ h
  rintro hc rfl
  rw [free hc] at h
  cases h

/-- A record that no entry holds is filed under its own key, or nowhere. -/
theorem Filed.ite_put (h : Filed ix key) (own : key' r = k) (same : ∀ q, q ≠ r → key' q = key q)
    (new : ∀ l, ix l ≠ some r) : Filed (if c then KeyedIndex.put ix k r else ix) key' := by
  intro l q hq
  rcases ite_put_eq_some hq with ⟨_,rfl,rfl⟩ | ⟨_,old⟩
  · exact own
  · rw [same q (by rintro rfl; exact new l old)]
    exact h l q old

end Conditional

theorem Filed.put (h : Filed ix key) (r : R) : Filed (put ix (key r) r) key := by
  intro k q hq
  rcases put_eq_some hq with ⟨rfl,rfl⟩ | ⟨_,hq⟩
  · rfl
  · exact h k q hq

theorem Filed.remove (h : Filed ix key) (k : K) : Filed (remove ix k) key :=
  fun l q hq => h l q (remove_eq_some hq).2

/-- The entry under the key of a record is its only one. -/
theorem Filed.remove_ne (h : Filed ix key) (r : R) (l : K) :
    KeyedIndex.remove ix (key r) l ≠ some r := by
  intro hr
  obtain ⟨ne,hr⟩ := remove_eq_some hr
  exact ne (h l r hr).symm

omit [DecidableEq K] in
/-- A change to the key of one record shows only if the record is filed. -/
theorem filed_rekey_iff (h : Filed ix key) {r : R} (same : ∀ q, q ≠ r → key' q = key q) :
    Filed ix key' ↔ (ix (key r) = some r → key r = key' r) := by
  constructor
  · exact fun filed hr => (filed _ _ hr).symm
  · intro own k q hq
    by_cases hr : q = r
    · subst hr
      have old := h k q hq
      rw [←old] at hq ⊢
      exact (own hq).symm
    · rw [same q hr]
      exact h k q hq

theorem filed_put_rekey_iff (h : Filed ix key) {r : R} (same : ∀ q, q ≠ r → key' q = key q) :
    Filed (KeyedIndex.put ix (key' r) r) key' ↔ (ix (key r) = some r → key r = key' r) := by
  constructor
  · intro filed hr
    by_contra e
    exact e (filed _ _ (by rw [put_of_ne r e]; exact hr)).symm
  · intro own
    exact ((filed_rekey_iff h same).mpr own).put r

theorem Filed.move (h : Filed ix key) {r : R} (same : ∀ q, q ≠ r → key' q = key q) :
    Filed (KeyedIndex.put (KeyedIndex.remove ix (key r)) (key' r) r) key' := by
  intro k q hq
  rcases put_eq_some hq with ⟨rfl,rfl⟩ | ⟨_,hq⟩
  · rfl
  · obtain ⟨ne,old⟩ := remove_eq_some hq
    by_cases hr : q = r
    · subst hr
      exact absurd (h k q old).symm ne
    · rw [same q hr]
      exact h k q old

end KeyedIndex
