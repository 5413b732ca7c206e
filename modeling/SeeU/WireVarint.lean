import Mathlib.Algebra.Order.Ring.Nat
import Mathlib.Data.List.Basic
import Mathlib.Tactic.Ring

set_option autoImplicit false

/-!
# Base-128 varints

Seven bits a byte, least significant group first, the top bit of every byte but
the last set. A reader accepts padded varints; a writer emits the shortest one,
except that a negative 32-bit integer is sign-extended to ten bytes.
-/
namespace WireFormat

abbrev Bytes := List UInt8

/-- At most `k` bytes are read: `none` is a truncated or an overlong varint. -/
def readVarint : ℕ → Bytes → Option (ℕ × Bytes)
  | 0, _ => none
  | _ + 1, [] => none
  | k + 1, b :: bs =>
    if b.toNat < 128 then some (b.toNat,bs)
    else (readVarint k bs).map (fun p => (b.toNat % 128 + 128 * p.1,p.2))

def writeVarint : ℕ → ℕ → Bytes
  | 0, _ => []
  | k + 1, v =>
    if v < 128 then [UInt8.ofNat v]
    else UInt8.ofNat (v % 128 + 128) :: writeVarint k (v / 128)

theorem readVarint_writeVarint (k v : ℕ) (rest : Bytes) (h : v < 128 ^ (k + 1)) :
    readVarint (k + 1) (writeVarint (k + 1) v ++ rest) = some (v,rest) := by
  induction k generalizing v with
  | zero =>
    have hv : v < 128 := by simpa using h
    have hb : (UInt8.ofNat v).toNat = v := by simp; omega
    simp [writeVarint,readVarint,hv,hb]
  | succ k ih =>
    by_cases hv : v < 128
    · have hb : (UInt8.ofNat v).toNat = v := by simp; omega
      simp [writeVarint,readVarint,hv,hb]
    · have hb : (UInt8.ofNat (v % 128 + 128)).toNat = v % 128 + 128 := by simp; omega
      have hd : v / 128 < 128 ^ (k + 1) := by
        apply Nat.div_lt_of_lt_mul
        rw [Nat.mul_comm,←Nat.pow_succ]
        exact h
      have hr := ih (v / 128) hd
      rw [writeVarint,if_neg hv,List.cons_append,readVarint,if_neg (by omega),hr,hb]
      simp only [Option.map_some,Option.some.injEq,Prod.mk.injEq,and_true]
      omega

theorem writeVarint_length_le (k v : ℕ) : (writeVarint k v).length ≤ k := by
  induction k generalizing v with
  | zero => simp [writeVarint]
  | succ k ih =>
    unfold writeVarint
    split_ifs
    · simp
    · have hd := ih (v / 128)
      rw [List.length_cons]
      omega

theorem readVarint_extend {k v : ℕ} {bs rest : Bytes} (ys : Bytes)
    (h : readVarint k bs = some (v,rest)) : readVarint k (bs ++ ys) = some (v,rest ++ ys) := by
  induction k generalizing bs v with
  | zero => simp [readVarint] at h
  | succ k ih =>
    cases bs with
    | nil => simp [readVarint] at h
    | cons b bs =>
      by_cases hb : b.toNat < 128
      · simp only [readVarint,hb,↓reduceIte,Option.some.injEq,Prod.mk.injEq] at h
        obtain ⟨rfl,rfl⟩ := h
        simp [readVarint,hb]
      · simp only [readVarint,hb,↓reduceIte,Option.map_eq_some_iff,Prod.mk.injEq] at h
        obtain ⟨⟨w,r⟩,hr,rfl,rfl⟩ := h
        simp [readVarint,hb,ih hr]

/-- Bytes from `0xF8` on weigh nothing, so that the five bytes a negative 32-bit
    integer has beyond its shortest varint weigh as much as that one's last byte. -/
def weight (bs : Bytes) : ℕ := bs.countP (fun b => b.toNat < 0xF8)

@[simp] theorem weight_nil : weight [] = 0 := rfl

@[simp] theorem weight_append (xs ys : Bytes) : weight (xs ++ ys) = weight xs + weight ys :=
  List.countP_append

theorem weight_cons (b : UInt8) (bs : Bytes) : weight (b :: bs) = weight [b] + weight bs :=
  weight_append [b] bs

theorem weight_singleton (b : UInt8) (h : b.toNat < 0xF8) : weight [b] = 1 := by
  simp [weight,h]

/-- A varint that was read is a prefix of the input and ends in a byte of weight one. -/
theorem readVarint_used {k v : ℕ} {bs rest : Bytes} (h : readVarint k bs = some (v,rest)) :
    ∃ used, bs = used ++ rest ∧ 1 ≤ weight used := by
  induction k generalizing bs v with
  | zero => simp [readVarint] at h
  | succ k ih =>
    cases bs with
    | nil => simp [readVarint] at h
    | cons b bs =>
      by_cases hb : b.toNat < 128
      · simp only [readVarint,hb,↓reduceIte,Option.some.injEq,Prod.mk.injEq] at h
        obtain ⟨_,rfl⟩ := h
        exact ⟨[b],rfl,by rw [weight_singleton b (by omega)]⟩
      · simp only [readVarint,hb,↓reduceIte,Option.map_eq_some_iff,Prod.mk.injEq] at h
        obtain ⟨⟨w,r⟩,hr,_,rfl⟩ := h
        obtain ⟨used,rfl,hw⟩ := ih hr
        refine ⟨b :: used,rfl,?_⟩
        rw [weight_cons]
        omega

theorem readVarint_weight {k v : ℕ} {bs rest : Bytes} (h : readVarint k bs = some (v,rest)) :
    weight rest + 1 ≤ weight bs := by
  obtain ⟨used,rfl,hw⟩ := readVarint_used h
  rw [weight_append]
  omega

theorem readVarint_length {k v : ℕ} {bs rest : Bytes} (h : readVarint k bs = some (v,rest)) :
    rest.length < bs.length := by
  obtain ⟨used,rfl,hw⟩ := readVarint_used h
  cases used with
  | nil => simp at hw
  | cons b used =>
    rw [List.length_append,List.length_cons]
    omega

/-- The sign extension of the `4 + 7 n` low bits `w` to `36 + 7 n` bits. -/
def extended (n w : ℕ) : ℕ :=
  if w < 2 ^ (3 + 7 * n) then w else 2 ^ (36 + 7 * n) - 2 ^ (4 + 7 * n) + w

theorem extended_succ (n w : ℕ) (h : w < 2 ^ (4 + 7 * (n + 1))) :
    (extended (n + 1) w < 128 ↔ w < 128) ∧ extended (n + 1) w % 128 = w % 128 ∧
      extended (n + 1) w / 128 = extended n (w / 128) := by
  obtain ⟨A,hA⟩ : ∃ A, A = 2 ^ (3 + 7 * n) := ⟨_,rfl⟩
  have pos : 8 ≤ A := by
    rw [hA,Nat.pow_add]
    exact Nat.le_mul_of_pos_right 8 (Nat.two_pow_pos _)
  have e1 : 2 ^ (4 + 7 * n) = 2 * A := by rw [hA]; ring
  have e2 : 2 ^ (36 + 7 * n) = 2 ^ 33 * A := by rw [hA]; ring
  have e3 : 2 ^ (3 + 7 * (n + 1)) = 128 * A := by rw [hA]; ring
  have e4 : 2 ^ (4 + 7 * (n + 1)) = 256 * A := by rw [hA]; ring
  have e5 : 2 ^ (36 + 7 * (n + 1)) = 2 ^ 40 * A := by rw [hA]; ring
  simp only [extended,e1,e2,e3,e4,e5,←hA] at h ⊢
  split_ifs <;> omega

theorem extended_zero_weight (w : ℕ) (h : w < 16) : weight (writeVarint 6 (extended 0 w)) = 1 := by
  have all : ∀ w < 16, weight (writeVarint 6 (extended 0 w)) = 1 := by decide
  exact all w h

/-- No varint with given low `4 + 7 n` bits weighs less than the written one. -/
theorem writeVarint_weight_le {n k v : ℕ} {bs rest : Bytes}
    (h : readVarint k bs = some (v,rest)) :
    weight (writeVarint (6 + n) (extended n (v % 2 ^ (4 + 7 * n)))) + weight rest ≤ weight bs := by
  induction n generalizing k v bs with
  | zero =>
    have hw := extended_zero_weight (v % 2 ^ (4 + 7 * 0)) (Nat.mod_lt _ (by decide))
    have hr := readVarint_weight h
    rw [Nat.add_zero,hw]
    omega
  | succ n ih =>
    obtain ⟨w,hw⟩ : ∃ w, w = v % 2 ^ (4 + 7 * (n + 1)) := ⟨_,rfl⟩
    have wlt : w < 2 ^ (4 + 7 * (n + 1)) := by rw [hw]; exact Nat.mod_lt _ (Nat.two_pow_pos _)
    obtain ⟨small,low,high⟩ := extended_succ n w wlt
    rw [←hw,←Nat.add_assoc,writeVarint]
    by_cases hs : extended (n + 1) w < 128
    · have hr := readVarint_weight h
      have hb : (UInt8.ofNat (extended (n + 1) w)).toNat < 0xF8 := by simp; omega
      rw [if_pos hs,weight_singleton _ hb]
      omega
    · rw [if_neg hs,low,high]
      cases k with
      | zero => simp [readVarint] at h
      | succ k =>
        cases bs with
        | nil => simp [readVarint] at h
        | cons b bs =>
          have pow : 2 ^ (4 + 7 * (n + 1)) = 128 * 2 ^ (4 + 7 * n) := by ring
          by_cases hb : b.toNat < 128
          · simp only [readVarint,hb,↓reduceIte,Option.some.injEq,Prod.mk.injEq] at h
            have hv : w ≤ b.toNat := by rw [hw,←h.1]; exact Nat.mod_le _ _
            omega
          · simp only [readVarint,hb,↓reduceIte,Option.map_eq_some_iff,Prod.mk.injEq] at h
            obtain ⟨⟨v',r⟩,hr,rfl,rfl⟩ := h
            have step := ih hr
            rw [pow,Nat.mod_mul] at hw
            have hd : w / 128 = v' % 2 ^ (4 + 7 * n) := by
              rw [show (b.toNat % 128 + 128 * v') / 128 = v' by omega] at hw
              omega
            have hm : UInt8.ofNat (w % 128 + 128) = b := by
              apply UInt8.toNat_inj.mp
              have := b.toNat_lt
              simp
              omega
            rw [hm,hd,weight_cons,weight_cons b bs]
            omega

end WireFormat
