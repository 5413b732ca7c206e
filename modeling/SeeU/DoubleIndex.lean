import Mathlib.Logic.Function.Basic
import Mathlib.Data.List.Nodup

set_option autoImplicit false

/-!
# Items indexed by a slot and by a key

Every item has a slot and may have a key. An index keeps one map for each; it is
coherent when both maps hold the same items, each where its labels say.
-/
namespace DoubleIndex

structure Index (S K C : Type) where
  bySlot : S → Option C
  byKey : K → Option C

structure Labels (S K C : Type) where
  slot : C → S
  key : C → Option K

variable {S K C : Type}

structure Coherent (l : Labels S K C) (x : Index S K C) : Prop where
  filed : ∀ p c, x.bySlot p = some c ↔ l.slot c = p ∧ ∃ k, l.key c = some k ∧ x.byKey k = some c
  keyed : ∀ k c, x.byKey k = some c → l.key c = some k

def empty : Index S K C := ⟨fun _ => none,fun _ => none⟩

theorem coherent_empty (l : Labels S K C) : Coherent l empty := by
  constructor
  · intro p c
    simp [empty]
  · intro k c h
    cases h

/-- What is filed under the key of an item. -/
def atKey (l : Labels S K C) (x : Index S K C) (c : C) : Option C := (l.key c).bind x.byKey

section Labels
variable {l : Labels S K C} {x : Index S K C}

theorem atKey_eq_some {c d : C} :
    atKey l x c = some d ↔ ∃ k, l.key c = some k ∧ x.byKey k = some d :=
  Option.bind_eq_some_iff

theorem Coherent.slot_of_key (h : Coherent l x) {k : K} {c : C} (hk : x.byKey k = some c) :
    x.bySlot (l.slot c) = some c :=
  (h.filed _ _).mpr ⟨rfl,k,h.keyed k c hk,hk⟩

theorem Coherent.atKey_of_slot (h : Coherent l x) {p : S} {c : C} (hp : x.bySlot p = some c) :
    atKey l x c = some c :=
  atKey_eq_some.mpr ((h.filed p c).mp hp).2

/-- If the slot and the key of `c` agree, an item is in the slot exactly if it is under the
    key. -/
theorem slot_iff_key (h : Coherent l x) {c d : C} (agree : x.bySlot (l.slot c) = atKey l x c)
    {k : K} (hk : x.byKey k = some d) : l.slot d = l.slot c ↔ l.key c = some k := by
  have slot := h.slot_of_key hk
  constructor
  · intro e
    rw [e,agree] at slot
    obtain ⟨j,hj,hx⟩ := atKey_eq_some.mp slot
    have key := h.keyed j d hx
    rw [h.keyed k d hk] at key
    cases key
    exact hj
  · intro e
    have entry := atKey_eq_some.mpr ⟨k,e,hk⟩
    rw [←agree] at entry
    exact ((h.filed _ d).mp entry).1

end Labels

/-! ### Walking the slots -/

/-- The keys of the items met when the slots are walked in an order. -/
def walk (l : Labels S K C) (x : Index S K C) (order : List S) : List K :=
  (order.filterMap x.bySlot).filterMap l.key

section Walk
variable {l : Labels S K C} {x : Index S K C} {order : List S}

theorem mem_walk (h : Coherent l x) {k : K} :
    k ∈ walk l x order ↔ ∃ c, x.byKey k = some c ∧ l.slot c ∈ order := by
  simp only [walk,List.mem_filterMap]
  constructor
  · rintro ⟨c,⟨p,hp,hc⟩,hk⟩
    obtain ⟨rfl,j,hj,hx⟩ := (h.filed p c).mp hc
    rw [hk] at hj
    cases hj
    exact ⟨c,hx,hp⟩
  · rintro ⟨c,hx,hp⟩
    exact ⟨c,⟨l.slot c,hp,h.slot_of_key hx⟩,h.keyed k c hx⟩

theorem walk_nodup (h : Coherent l x) (nodup : order.Nodup) : (walk l x order).Nodup := by
  unfold walk
  rw [List.filterMap_filterMap]
  refine List.Nodup.filterMap ?_ nodup
  intro p q k hp hq
  obtain ⟨c,hc,ck⟩ := Option.bind_eq_some_iff.mp hp
  obtain ⟨d,hd,dk⟩ := Option.bind_eq_some_iff.mp hq
  obtain ⟨rfl,i,hi,ci⟩ := (h.filed p c).mp hc
  obtain ⟨rfl,j,hj,dj⟩ := (h.filed q d).mp hd
  rw [ck] at hi
  rw [dk] at hj
  cases hi
  cases hj
  rw [ci] at dj
  cases dj
  rfl

end Walk

variable [DecidableEq S] [DecidableEq K]

def setSlot (x : Index S K C) (p : S) (v : Option C) : Index S K C :=
  { x with bySlot := Function.update x.bySlot p v }

def setKey (x : Index S K C) (k : K) (v : Option C) : Index S K C :=
  { x with byKey := Function.update x.byKey k v }

/-- Set the slot of an item, and its key if it has one, to one value. -/
def setBoth (l : Labels S K C) (x : Index S K C) (c : C) (v : Option C) : Index S K C :=
  (l.key c).elim (setSlot x (l.slot c) v) (fun k => setKey (setSlot x (l.slot c) v) k v)

section Lemmas
variable {l : Labels S K C} {x : Index S K C}

theorem setBoth_bySlot (x : Index S K C) (c : C) (v : Option C) :
    (setBoth l x c v).bySlot = Function.update x.bySlot (l.slot c) v := by
  unfold setBoth
  cases l.key c <;> rfl

theorem setBoth_byKey_self (x : Index S K C) {c : C} {k : K} (v : Option C)
    (hk : l.key c = some k) : (setBoth l x c v).byKey k = v := by
  unfold setBoth
  rw [hk]
  exact Function.update_self _ _ _

theorem setBoth_byKey_of_ne (x : Index S K C) {c : C} {k : K} (v : Option C)
    (hk : l.key c ≠ some k) : (setBoth l x c v).byKey k = x.byKey k := by
  unfold setBoth
  cases hc : l.key c with
  | none => rfl
  | some j =>
    apply Function.update_of_ne
    intro e
    rw [hc,e] at hk
    exact hk rfl

/-- An item that loses its slot must have been filed under the key of `c`. -/
theorem displaced_at_key (h : Coherent l x) {c a : C} {v : Option C}
    (after : Coherent l (setBoth l x c v)) (ha : x.bySlot (l.slot c) = some a) (ne : v ≠ some a) :
    atKey l x c = some a := by
  obtain ⟨slot,k,hk,hx⟩ := (h.filed _ _).mp ha
  by_cases e : l.key c = some k
  · exact atKey_eq_some.mpr ⟨k,e,hx⟩
  · exfalso
    have filed := (after.filed (l.slot c) a).mpr
      ⟨slot,k,hk,by rw [setBoth_byKey_of_ne x v e,hx]⟩
    rw [setBoth_bySlot,Function.update_self] at filed
    exact ne filed

/-- An item that loses its key must have been filed in the slot of `c`. -/
theorem displaced_at_slot (h : Coherent l x) {c b : C} {v : Option C}
    (after : Coherent l (setBoth l x c v)) (hb : atKey l x c = some b) (ne : v ≠ some b) :
    x.bySlot (l.slot c) = some b := by
  obtain ⟨k,hc,hx⟩ := atKey_eq_some.mp hb
  by_cases e : l.slot b = l.slot c
  · rw [←e]
    exact h.slot_of_key hx
  · exfalso
    have filed : (setBoth l x c v).bySlot (l.slot b) = some b := by
      rw [setBoth_bySlot,Function.update_of_ne e]
      exact h.slot_of_key hx
    obtain ⟨_,j,hj,hbj⟩ := (after.filed _ _).mp filed
    rw [h.keyed k b hx] at hj
    cases hj
    rw [setBoth_byKey_self x v hc] at hbj
    exact ne hbj

theorem agree_of_setBoth (h : Coherent l x) {c : C} {v : Option C} (own : ∀ d, v = some d → d = c)
    (after : Coherent l (setBoth l x c v)) : x.bySlot (l.slot c) = atKey l x c := by
  cases hs : x.bySlot (l.slot c) with
  | some a =>
    by_cases e : v = some a
    · rw [own a e] at hs ⊢
      exact (h.atKey_of_slot hs).symm
    · exact (displaced_at_key h after hs e).symm
  | none =>
    cases hk : atKey l x c with
    | none => rfl
    | some b =>
      have slot : x.bySlot (l.slot c) = some b := by
        by_cases e : v = some b
        · obtain ⟨k,_,hx⟩ := atKey_eq_some.mp hk
          rw [own b e] at hx ⊢
          exact h.slot_of_key hx
        · exact displaced_at_slot h after hk e
      rw [hs] at slot
      cases slot

theorem setBoth_filed (h : Coherent l x) {c : C} {v : Option C}
    (own : ∀ d, v = some d → d = c ∧ (l.key d).isSome)
    (agree : x.bySlot (l.slot c) = atKey l x c) (p : S) (d : C) :
    (setBoth l x c v).bySlot p = some d ↔
      l.slot d = p ∧ ∃ k, l.key d = some k ∧ (setBoth l x c v).byKey k = some d := by
  rw [setBoth_bySlot]
  constructor
  · intro hd
    by_cases hp : p = l.slot c
    · rw [hp,Function.update_self] at hd
      obtain ⟨rfl,key⟩ := own d hd
      obtain ⟨k,hk⟩ := Option.isSome_iff_exists.mp key
      exact ⟨hp.symm,k,hk,by rw [setBoth_byKey_self x v hk,hd]⟩
    · rw [Function.update_of_ne hp] at hd
      obtain ⟨slot,k,hk,hx⟩ := (h.filed p d).mp hd
      have ne : l.key c ≠ some k := by
        intro e
        exact hp (slot.symm.trans ((slot_iff_key h agree hx).mpr e))
      exact ⟨slot,k,hk,by rw [setBoth_byKey_of_ne x v ne,hx]⟩
  · rintro ⟨slot,k,hk,hb⟩
    by_cases e : l.key c = some k
    · rw [setBoth_byKey_self x v e] at hb
      obtain ⟨rfl,_⟩ := own d hb
      rw [←slot,Function.update_self,hb]
    · rw [setBoth_byKey_of_ne x v e] at hb
      have ne : p ≠ l.slot c := by
        intro hp
        exact e ((slot_iff_key h agree hb).mp (slot.trans hp))
      rw [Function.update_of_ne ne,h.filed]
      exact ⟨slot,k,hk,hb⟩

theorem setBoth_coherent (h : Coherent l x) {c : C} {v : Option C}
    (own : ∀ d, v = some d → d = c ∧ (l.key d).isSome)
    (agree : x.bySlot (l.slot c) = atKey l x c) : Coherent l (setBoth l x c v) where
  filed := setBoth_filed h own agree
  keyed := by
    intro k d hb
    by_cases e : l.key c = some k
    · rw [setBoth_byKey_self x v e] at hb
      obtain ⟨rfl,_⟩ := own d hb
      exact e
    · rw [setBoth_byKey_of_ne x v e] at hb
      exact h.keyed k d hb

/-- Filing an item keeps an index coherent exactly if the item has a key and its slot
    and its key held the same entry. -/
theorem add_coherent_iff (h : Coherent l x) (c : C) : Coherent l (setBoth l x c (some c)) ↔
    (l.key c).isSome ∧ x.bySlot (l.slot c) = atKey l x c := by
  constructor
  · intro after
    have filed : (setBoth l x c (some c)).bySlot (l.slot c) = some c := by
      rw [setBoth_bySlot,Function.update_self]
    obtain ⟨_,k,hk,_⟩ := (after.filed _ _).mp filed
    refine ⟨by rw [hk]; rfl,agree_of_setBoth h ?_ after⟩
    intro d hd
    exact (Option.some.inj hd).symm
  · rintro ⟨key,agree⟩
    apply setBoth_coherent h _ agree
    intro d hd
    cases hd
    exact ⟨rfl,key⟩

/-- Clearing the slot and the key of an item keeps an index coherent exactly if both held
    the same entry. -/
theorem remove_coherent_iff (h : Coherent l x) (c : C) : Coherent l (setBoth l x c none) ↔
    x.bySlot (l.slot c) = atKey l x c :=
  ⟨agree_of_setBoth h (fun _ => nofun),setBoth_coherent h (fun _ => nofun)⟩

theorem removeKey_coherent (h : Coherent l x) {k : K} {c : C} (hk : x.byKey k = some c) :
    Coherent l (setSlot (setKey x k none) (l.slot c) none) := by
  have key := h.keyed k c hk
  have same : setSlot (setKey x k none) (l.slot c) none = setBoth l x c none := by
    unfold setBoth
    rw [key]
    rfl
  rw [same,remove_coherent_iff h,h.slot_of_key hk]
  exact (atKey_eq_some.mpr ⟨k,key,hk⟩).symm

end Lemmas

end DoubleIndex
