import Mathlib.Data.List.Basic
import Mathlib.Data.Nat.Notation

set_option autoImplicit false

/-!
# Code points in UTF-16 and in UTF-8

A string of 16-bit units need not be well formed: a surrogate outside of any pair is a
code point of its own. UTF-8 goes on for such code points as for the others of three
bytes, and stays a prefix code.
-/
namespace CodePoints

def High (u : ℕ) : Prop := 0xd800 ≤ u ∧ u ≤ 0xdbff

def Low (u : ℕ) : Prop := 0xdc00 ≤ u ∧ u ≤ 0xdfff

def Surrogate (p : ℕ) : Prop := 0xd800 ≤ p ∧ p ≤ 0xdfff

instance (u : ℕ) : Decidable (High u) := inferInstanceAs (Decidable (_ ∧ _))

instance (u : ℕ) : Decidable (Low u) := inferInstanceAs (Decidable (_ ∧ _))

instance (p : ℕ) : Decidable (Surrogate p) := inferInstanceAs (Decidable (_ ∧ _))

def pair (u v : ℕ) : ℕ := 1024 * (u - 0xd800) + (v - 0xdc00) + 0x10000

def ofUtf16 : List UInt16 → List ℕ
  | [] => []
  | [u] => [u.toNat]
  | u :: v :: us =>
    if High u.toNat ∧ Low v.toNat then pair u.toNat v.toNat :: ofUtf16 us
    else u.toNat :: ofUtf16 (v :: us)

def utf16 (p : ℕ) : List UInt16 :=
  if p < 0x10000 then [UInt16.ofNat p]
  else [UInt16.ofNat ((p - 0x10000) / 1024 + 0xd800),UInt16.ofNat ((p - 0x10000) % 1024 + 0xdc00)]

def utf8 (p : ℕ) : List ℕ :=
  if p < 0x80 then [p]
  else if p < 0x800 then [p / 64 + 0xc0,p % 64 + 0x80]
  else if p < 0x10000 then [p / 4096 + 0xe0,p / 64 % 64 + 0x80,p % 64 + 0x80]
  else [p / 262144 + 0xf0,p / 4096 % 64 + 0x80,p / 64 % 64 + 0x80,p % 64 + 0x80]

/-- No surrogate is left over when the pairs are taken together. -/
def WellFormed (us : List UInt16) : Prop := ∀ p ∈ ofUtf16 us, ¬Surrogate p

instance (us : List UInt16) : Decidable (WellFormed us) :=
  inferInstanceAs (Decidable (∀ p ∈ ofUtf16 us, ¬Surrogate p))

def ofChars (cs : List Char) : List ℕ := cs.map Char.toNat

/-! ### UTF-16 -/

theorem pair_bounds {u v : ℕ} (h : High u ∧ Low v) : 0x10000 ≤ pair u v ∧ pair u v < 0x110000 := by
  obtain ⟨⟨_,_⟩,_,_⟩ := h
  unfold pair
  omega

theorem utf16_unit (u : UInt16) : utf16 u.toNat = [u] := by
  rw [utf16,if_pos u.toNat_lt,UInt16.ofNat_toNat]

theorem utf16_pair {u v : UInt16} (h : High u.toNat ∧ Low v.toNat) :
    utf16 (pair u.toNat v.toNat) = [u,v] := by
  have bounds := pair_bounds h
  obtain ⟨⟨_,_⟩,_,_⟩ := h
  rw [utf16,if_neg (by omega)]
  have first : (pair u.toNat v.toNat - 0x10000) / 1024 + 0xd800 = u.toNat := by
    unfold pair
    omega
  have second : (pair u.toNat v.toNat - 0x10000) % 1024 + 0xdc00 = v.toNat := by
    unfold pair
    omega
  rw [first,second,UInt16.ofNat_toNat,UInt16.ofNat_toNat]

/-- The units are those of the code points. -/
theorem utf16_ofUtf16 (us : List UInt16) : (ofUtf16 us).flatMap utf16 = us := by
  fun_induction ofUtf16 us with
  | case1 => rfl
  | case2 u => rw [List.flatMap_singleton,utf16_unit]
  | case3 u v us h ih => rw [List.flatMap_cons,utf16_pair h,ih]; rfl
  | case4 u v us h ih => rw [List.flatMap_cons,utf16_unit,ih]; rfl

theorem ofUtf16_bound {us : List UInt16} : ∀ p ∈ ofUtf16 us, p < 0x110000 := by
  fun_induction ofUtf16 us with
  | case1 => exact fun p mem => absurd mem List.not_mem_nil
  | case2 u =>
    intro p mem
    have bound := u.toNat_lt
    cases List.mem_singleton.mp mem
    omega
  | case3 u v us h ih =>
    intro p mem
    rcases List.mem_cons.mp mem with rfl | mem
    · exact (pair_bounds h).2
    · exact ih p mem
  | case4 u v us h ih =>
    intro p mem
    rcases List.mem_cons.mp mem with rfl | mem
    · have bound := u.toNat_lt
      omega
    · exact ih p mem

theorem ofUtf16_cons_unit {u : UInt16} (h : ¬Surrogate u.toNat) (us : List UInt16) :
    ofUtf16 (u :: us) = u.toNat :: ofUtf16 us := by
  cases us with
  | nil => rfl
  | cons v us =>
    have single : ¬High u.toNat := fun high => h ⟨high.1,by have := high.2; omega⟩
    rw [ofUtf16,if_neg (fun both => single both.1)]

/-- Where no code point is a surrogate, no two of them make a pair. -/
theorem ofUtf16_utf16 {ps : List ℕ} (h : ∀ p ∈ ps, ¬Surrogate p ∧ p < 0x110000) :
    ofUtf16 (ps.flatMap utf16) = ps := by
  induction ps with
  | nil => rfl
  | cons p ps ih =>
    obtain ⟨plain,bound⟩ := h p List.mem_cons_self
    have rest := ih (fun q mem => h q (List.mem_cons_of_mem p mem))
    rw [List.flatMap_cons]
    by_cases small : p < 0x10000
    · have value : (UInt16.ofNat p).toNat = p := UInt16.toNat_ofNat_of_lt small
      rw [utf16,if_pos small,List.singleton_append,ofUtf16_cons_unit (by rwa [value]),value,rest]
    · have first : (UInt16.ofNat ((p - 0x10000) / 1024 + 0xd800)).toNat =
          (p - 0x10000) / 1024 + 0xd800 := UInt16.toNat_ofNat_of_lt (by simp [UInt16.size]; omega)
      have second : (UInt16.ofNat ((p - 0x10000) % 1024 + 0xdc00)).toNat =
          (p - 0x10000) % 1024 + 0xdc00 := UInt16.toNat_ofNat_of_lt (by simp [UInt16.size]; omega)
      have both : High (UInt16.ofNat ((p - 0x10000) / 1024 + 0xd800)).toNat ∧
          Low (UInt16.ofNat ((p - 0x10000) % 1024 + 0xdc00)).toNat := by
        rw [first,second]
        unfold High Low
        omega
      rw [utf16,if_neg small,List.cons_append,List.singleton_append,ofUtf16,if_pos both,first,
        second,rest]
      apply congrArg (· :: ps)
      unfold pair
      omega

/-! ### Characters -/

theorem ofChars_plain {cs : List Char} : ∀ p ∈ ofChars cs, ¬Surrogate p ∧ p < 0x110000 := by
  intro p mem
  obtain ⟨c,_,rfl⟩ := List.mem_map.mp mem
  have valid : c.toNat.isValidChar := c.valid
  unfold Nat.isValidChar at valid
  unfold Surrogate
  omega

theorem ofChars_injective {cs ds : List Char} (h : ofChars cs = ofChars ds) : cs = ds :=
  List.map_injective_iff.mpr (fun _ _ => Char.toNat_inj.mp) h

theorem exists_chars {ps : List ℕ} (h : ∀ p ∈ ps, ¬Surrogate p ∧ p < 0x110000) :
    ∃ cs, ofChars cs = ps := by
  induction ps with
  | nil => exact ⟨[],rfl⟩
  | cons p ps ih =>
    obtain ⟨plain,bound⟩ := h p List.mem_cons_self
    obtain ⟨cs,rfl⟩ := ih (fun q mem => h q (List.mem_cons_of_mem p mem))
    have valid : p.isValidChar := by
      unfold Surrogate at plain
      unfold Nat.isValidChar
      omega
    refine ⟨Char.ofNat p :: cs,?_⟩
    have value : (Char.ofNat p).toNat = p := by
      rw [Char.ofNat,dif_pos valid]
      rfl
    rw [ofChars,List.map_cons,value]
    rfl

/-- The units of characters. -/
def encode (cs : List Char) : List UInt16 := (ofChars cs).flatMap utf16

theorem ofUtf16_encode (cs : List Char) : ofUtf16 (encode cs) = ofChars cs :=
  ofUtf16_utf16 ofChars_plain

theorem wellFormed_iff (us : List UInt16) : WellFormed us ↔ ∃ cs, encode cs = us := by
  constructor
  · intro h
    obtain ⟨cs,eq⟩ := exists_chars (fun p mem => ⟨h p mem,ofUtf16_bound p mem⟩)
    exact ⟨cs,by rw [encode,eq,utf16_ofUtf16]⟩
  · rintro ⟨cs,rfl⟩ p mem
    rw [ofUtf16_encode] at mem
    exact (ofChars_plain p mem).1

/-! ### UTF-8 -/

theorem utf8_one {p : ℕ} (h : p < 0x80) : utf8 p = [p] := if_pos h

theorem utf8_two {p : ℕ} (low : ¬p < 0x80) (h : p < 0x800) :
    utf8 p = [p / 64 + 0xc0,p % 64 + 0x80] := by
  rw [utf8,if_neg low,if_pos h]

theorem utf8_three {p : ℕ} (low : ¬p < 0x800) (h : p < 0x10000) :
    utf8 p = [p / 4096 + 0xe0,p / 64 % 64 + 0x80,p % 64 + 0x80] := by
  rw [utf8,if_neg (by omega),if_neg low,if_pos h]

theorem utf8_four {p : ℕ} (low : ¬p < 0x10000) :
    utf8 p = [p / 262144 + 0xf0,p / 4096 % 64 + 0x80,p / 64 % 64 + 0x80,p % 64 + 0x80] := by
  rw [utf8,if_neg (by omega),if_neg (by omega),if_neg low]

theorem utf8_bound {p : ℕ} (h : p < 0x110000) : ∀ n ∈ utf8 p, n < 256 := by
  intro n mem
  unfold utf8 at mem
  split_ifs at mem <;> simp only [List.mem_cons,List.not_mem_nil,or_false] at mem <;> omega

/-- The numbers of one code point are never the beginning of another's. -/
theorem utf8_prefix {p q : ℕ} (hp : p < 0x110000) (hq : q < 0x110000) {xs ys : List ℕ}
    (h : utf8 p ++ xs = utf8 q ++ ys) : p = q ∧ xs = ys := by
  unfold utf8 at h
  split_ifs at h <;>
    simp only [List.cons_append,List.nil_append,List.cons.injEq] at h <;>
    refine ⟨by omega,?_⟩ <;>
    first
    | omega
    | simp only [h]

theorem utf8_ne_nil (p : ℕ) : utf8 p ≠ [] := by
  unfold utf8
  split_ifs <;> exact List.cons_ne_nil _ _

theorem length_le_utf8 (ps : List ℕ) : ps.length ≤ (ps.flatMap utf8).length := by
  induction ps with
  | nil => exact Nat.le_refl 0
  | cons p ps ih =>
    have some_byte := List.length_pos_iff.mpr (utf8_ne_nil p)
    rw [List.flatMap_cons,List.length_append,List.length_cons]
    omega

theorem utf8_injective {ps qs : List ℕ} (hp : ∀ p ∈ ps, p < 0x110000) (hq : ∀ q ∈ qs, q < 0x110000)
    (h : ps.flatMap utf8 = qs.flatMap utf8) : ps = qs := by
  induction ps generalizing qs with
  | nil =>
    cases qs with
    | nil => rfl
    | cons q qs =>
      rw [List.flatMap_cons] at h
      exact absurd (List.append_eq_nil_iff.mp h.symm).1 (utf8_ne_nil q)
  | cons p ps ih =>
    cases qs with
    | nil =>
      rw [List.flatMap_cons] at h
      exact absurd (List.append_eq_nil_iff.mp h).1 (utf8_ne_nil p)
    | cons q qs =>
      rw [List.flatMap_cons,List.flatMap_cons] at h
      obtain ⟨rfl,rest⟩ := utf8_prefix (hp p List.mem_cons_self) (hq q List.mem_cons_self) h
      rw [ih (fun r mem => hp r (List.mem_cons_of_mem p mem))
        (fun r mem => hq r (List.mem_cons_of_mem p mem)) rest]

theorem utf8_char (c : Char) : (utf8 c.toNat).map UInt8.ofNat = String.utf8EncodeChar c := by
  have bound : c.toNat < 0x110000 :=
    (ofChars_plain c.toNat (show c.toNat ∈ ofChars [c] from List.mem_singleton.mpr rfl)).2
  have value : c.val.toNat = c.toNat := rfl
  simp only [utf8,String.utf8EncodeChar,value]
  generalize c.toNat = v at bound
  by_cases one : v < 0x80
  · rw [if_pos one,if_pos (show v ≤ 0x7f by omega)]
    rfl
  rw [if_neg one,if_neg (show ¬v ≤ 0x7f by omega)]
  by_cases two : v < 0x800
  · rw [if_pos two,if_pos (show v ≤ 0x7ff by omega),Nat.mod_eq_of_lt (show v / 64 < 0x20 by omega)]
    rfl
  rw [if_neg two,if_neg (show ¬v ≤ 0x7ff by omega)]
  by_cases three : v < 0x10000
  · rw [if_pos three,if_pos (show v ≤ 0xffff by omega),
      Nat.mod_eq_of_lt (show v / 4096 < 0x10 by omega)]
    rfl
  · rw [if_neg three,if_neg (show ¬v ≤ 0xffff by omega),
      Nat.mod_eq_of_lt (show v / 262144 < 0x08 by omega)]
    rfl

theorem utf8_ofChars (cs : List Char) :
    ((ofChars cs).flatMap utf8).map UInt8.ofNat = cs.flatMap String.utf8EncodeChar := by
  rw [ofChars,List.flatMap_map,List.map_flatMap]
  exact congrArg (cs.flatMap ·) (funext utf8_char)

theorem map_ofNat_injective {xs ys : List ℕ} (hx : ∀ n ∈ xs, n < 256) (hy : ∀ n ∈ ys, n < 256)
    (h : xs.map UInt8.ofNat = ys.map UInt8.ofNat) : xs = ys := by
  have back : ∀ ns : List ℕ, (∀ n ∈ ns, n < 256) → (ns.map UInt8.ofNat).map UInt8.toNat = ns := by
    intro ns bound
    rw [List.map_map]
    exact (List.map_congr_left (fun n mem => UInt8.toNat_ofNat_of_lt (bound n mem))).trans
      (List.map_id ns)
  rw [←back xs hx,h,back ys hy]

theorem utf8_bytes {ps : List ℕ} (h : ∀ p ∈ ps, p < 0x110000) : ∀ n ∈ ps.flatMap utf8, n < 256 := by
  intro n mem
  obtain ⟨p,here,mem⟩ := List.mem_flatMap.mp mem
  exact utf8_bound (h p here) n mem

/-- The bytes are those of a string exactly if the code points are its characters. -/
theorem utf8_eq_encodeChars_iff {ps : List ℕ} (h : ∀ p ∈ ps, p < 0x110000) (cs : List Char) :
    (ps.flatMap utf8).map UInt8.ofNat = cs.flatMap String.utf8EncodeChar ↔ ps = ofChars cs := by
  have bound : ∀ p ∈ ofChars cs, p < 0x110000 := fun p mem => (ofChars_plain p mem).2
  rw [←utf8_ofChars]
  constructor
  · intro eq
    exact utf8_injective h bound (map_ofNat_injective (utf8_bytes h) (utf8_bytes bound) eq)
  · rintro rfl
    rfl

end CodePoints
