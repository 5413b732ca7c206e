import SeeU.WireField
import SeeU.StreamFraming

set_option autoImplicit false

/-!
# Messages with singular fields

A message is written field by field, leaving out the fields that hold their
default. It is parsed to the end of the buffer: a declared tag sets its field (the
last value wins), any other tag is kept as an unknown field, and a truncated or
malformed field fails the parse.
-/
namespace WireFormat

/-- The bytes of a field that the message does not declare. -/
structure UnknownField where
  tag : ℕ
  payload : Bytes
  deriving DecidableEq

/-- A tag is the low 32 bits of a varint, and field number zero is an error. -/
def readTag (bs : Bytes) : Option (ℕ × Bytes) :=
  (readVarint 10 bs).bind (fun p =>
    if p.1 % 2 ^ 32 < 8 then none else some (p.1 % 2 ^ 32,p.2))

def writeTag (tag : ℕ) : Bytes := writeVarint 10 tag

def skipFixed (n : ℕ) (bs : Bytes) : Option Bytes :=
  if n ≤ bs.length then some (bs.drop n) else none

def skipScalar (wireType : ℕ) (bs : Bytes) : Option Bytes :=
  match wireType with
  | 0 => (readVarint 10 bs).map Prod.snd
  | 1 => skipFixed 8 bs
  | 2 => (readBytes bs).map Prod.snd
  | 5 => skipFixed 4 bs
  | _ => none

def recursionLimit : ℕ := 100

/-- The list holds the numbers of the groups being read, the innermost one first. -/
def skipGroup : ℕ → List ℕ → Bytes → Option Bytes
  | _, [], bs => some bs
  | 0, _ :: _, _ => none
  | n + 1, g :: gs, bs =>
    (readTag bs).bind (fun p =>
      if p.1 % 8 = 4 then
        if p.1 / 8 = g then skipGroup n gs p.2 else none
      else if p.1 % 8 = 3 then
        if gs.length + 1 < recursionLimit then skipGroup n (p.1 / 8 :: g :: gs) p.2 else none
      else (skipScalar (p.1 % 8) p.2).bind (fun rest => skipGroup n (g :: gs) rest))

/-- Every tag of a group takes a byte, so the length of the input is fuel enough. -/
def skipField (tag : ℕ) (bs : Bytes) : Option Bytes :=
  if tag % 8 = 3 then skipGroup bs.length [tag / 8] bs else skipScalar (tag % 8) bs

structure FieldSpec (σ : Type) where
  number : ℕ
  kind : Kind
  get : σ → kind.Val
  set : σ → kind.Val → σ

variable {σ : Type}

def FieldSpec.tag (f : FieldSpec σ) : ℕ := 8 * f.number + f.kind.wireType

def FieldSpec.write (f : FieldSpec σ) (m : σ) : Bytes :=
  if f.get m = f.kind.default then [] else writeTag f.tag ++ f.kind.write (f.get m)

/-- Setting either of two fields leaves the other one as it was. -/
def FieldSpec.Apart (f g : FieldSpec σ) : Prop :=
  f.number ≠ g.number ∧ (∀ m v, f.get (g.set m v) = f.get m) ∧ ∀ m v, g.get (f.set m v) = g.get m

/-- The declared fields of a message, in the order they are written; their tags
    take one byte each. -/
structure Schema (σ : Type) where
  fields : List (FieldSpec σ)
  defaultInstance : σ
  number_pos : ∀ f ∈ fields, 0 < f.number
  number_lt : ∀ f ∈ fields, f.number < 16
  apart : fields.Pairwise FieldSpec.Apart
  get_set : ∀ f ∈ fields, ∀ m v, f.get (f.set m v) = v
  get_default : ∀ f ∈ fields, f.get defaultInstance = f.kind.default
  ext : ∀ m m', (∀ f ∈ fields, f.get m = f.get m') → m = m'

structure Parsed (σ : Type) where
  message : σ
  unknownFields : List UnknownField
  deriving DecidableEq

variable (S : Schema σ)

def Schema.writeTo (m : σ) : Bytes := S.fields.flatMap (fun f => f.write m)

def Schema.field (tag : ℕ) : Option (FieldSpec σ) := S.fields.find? (fun f => f.tag = tag)

def Schema.parseField (p : Parsed σ) (bs : Bytes) : Option (Parsed σ × Bytes) :=
  (readTag bs).bind (fun t =>
    match S.field t.1 with
    | some f => (f.kind.read t.2).map (fun r => (⟨f.set p.message r.1,p.unknownFields⟩,r.2))
    | none => (skipField t.1 t.2).map (fun rest =>
        (⟨p.message,p.unknownFields ++ [⟨t.1,t.2.take (t.2.length - rest.length)⟩]⟩,rest)))

def Schema.parseLoop : ℕ → Parsed σ → Bytes → Option (Parsed σ)
  | _, p, [] => some p
  | 0, _, _ :: _ => none
  | n + 1, p, b :: bs => (S.parseField p (b :: bs)).bind (fun r => Schema.parseLoop n r.1 r.2)

/-- Every field takes a byte, so the length of the input is fuel enough. -/
def Schema.parseFrom (bs : Bytes) : Option (Parsed σ) :=
  S.parseLoop bs.length ⟨S.defaultInstance,[]⟩ bs

/-! ### Tags -/

theorem wireType_lt (k : Kind) : k.wireType < 8 := by cases k <;> decide

theorem FieldSpec.tag_bounds (f : FieldSpec σ) (hpos : 0 < f.number) (hlt : f.number < 16) :
    8 ≤ f.tag ∧ f.tag < 128 := by
  have := wireType_lt f.kind
  unfold FieldSpec.tag
  omega

theorem writeTag_eq {tag : ℕ} (h : tag < 128) : writeTag tag = [UInt8.ofNat tag] := by
  rw [writeTag,writeVarint,if_pos h]

theorem weight_writeTag {tag : ℕ} (h : tag < 128) : weight (writeTag tag) = 1 := by
  rw [writeTag_eq h]
  exact weight_singleton _ (by simp; omega)

theorem readTag_write {tag : ℕ} (rest : Bytes) (hpos : 8 ≤ tag) (hlt : tag < 128) :
    readTag (writeTag tag ++ rest) = some (tag,rest) := by
  have hv : tag < 128 ^ (9 + 1) := hlt.trans (by decide)
  have hm : tag % 2 ^ 32 = tag := Nat.mod_eq_of_lt (by omega)
  rw [readTag,writeTag,readVarint_writeVarint 9 tag rest hv,Option.bind_some,hm,
    if_neg (by omega)]

theorem readTag_eq_some {tag : ℕ} {bs rest : Bytes} (h : readTag bs = some (tag,rest)) :
    ∃ n, readVarint 10 bs = some (n,rest) ∧ n % 2 ^ 32 = tag := by
  simp only [readTag,Option.bind_eq_some_iff] at h
  obtain ⟨⟨n,r⟩,hr,h⟩ := h
  split at h
  · cases h
  · simp only [Option.some.injEq,Prod.mk.injEq] at h
    obtain ⟨rfl,rfl⟩ := h
    exact ⟨n,hr,rfl⟩

theorem readTag_extend {tag : ℕ} {bs rest : Bytes} (ys : Bytes)
    (h : readTag bs = some (tag,rest)) : readTag (bs ++ ys) = some (tag,rest ++ ys) := by
  simp only [readTag,Option.bind_eq_some_iff] at h ⊢
  obtain ⟨⟨n,r⟩,hr,h⟩ := h
  refine ⟨(n,r ++ ys),readVarint_extend ys hr,?_⟩
  split at h
  · cases h
  · rename_i ge
    simp only [Option.some.injEq,Prod.mk.injEq] at h
    rw [if_neg ge,h.1,h.2]

theorem readTag_used {tag : ℕ} {bs rest : Bytes} (h : readTag bs = some (tag,rest)) :
    ∃ used, bs = used ++ rest ∧ 1 ≤ weight used := by
  obtain ⟨n,hr,_⟩ := readTag_eq_some h
  exact readVarint_used hr

theorem readTag_length {tag : ℕ} {bs rest : Bytes} (h : readTag bs = some (tag,rest)) :
    rest.length < bs.length := by
  obtain ⟨n,hr,_⟩ := readTag_eq_some h
  exact readVarint_length hr

/-! ### Skipping an unknown field -/

theorem skipFixed_used {n : ℕ} {bs rest : Bytes} (h : skipFixed n bs = some rest) :
    ∃ used, bs = used ++ rest := by
  unfold skipFixed at h
  split at h
  · cases h
    exact ⟨bs.take n,(List.take_append_drop n bs).symm⟩
  · cases h

theorem skipFixed_extend {n : ℕ} {bs rest : Bytes} (ys : Bytes) (h : skipFixed n bs = some rest) :
    skipFixed n (bs ++ ys) = some (rest ++ ys) := by
  unfold skipFixed at h ⊢
  split at h
  · rename_i le
    cases h
    rw [if_pos (by rw [List.length_append]; omega),List.drop_append_of_le_length le]
  · cases h

theorem readBytes_used {v : ByteString} {bs rest : Bytes} (h : readBytes bs = some (v,rest)) :
    ∃ used, bs = used ++ rest := by
  obtain ⟨n,hr,_⟩ := readBytes_eq_some h
  obtain ⟨used,hu,_⟩ := readVarint_used hr
  exact ⟨used ++ v.bytes,by rw [hu,List.append_assoc]⟩

theorem skipScalar_used {w : ℕ} {bs rest : Bytes} (h : skipScalar w bs = some rest) :
    ∃ used, bs = used ++ rest := by
  unfold skipScalar at h
  split at h
  · obtain ⟨⟨v,r⟩,hr,rfl⟩ := Option.map_eq_some_iff.mp h
    obtain ⟨used,hu,_⟩ := readVarint_used hr
    exact ⟨used,hu⟩
  · exact skipFixed_used h
  · obtain ⟨⟨v,r⟩,hr,rfl⟩ := Option.map_eq_some_iff.mp h
    exact readBytes_used hr
  · exact skipFixed_used h
  · cases h

theorem skipScalar_extend {w : ℕ} {bs rest : Bytes} (ys : Bytes) (h : skipScalar w bs = some rest) :
    skipScalar w (bs ++ ys) = some (rest ++ ys) := by
  unfold skipScalar at h ⊢
  split at h
  · obtain ⟨⟨v,r⟩,hr,rfl⟩ := Option.map_eq_some_iff.mp h
    simp [readVarint_extend ys hr]
  · exact skipFixed_extend ys h
  · obtain ⟨⟨v,r⟩,hr,rfl⟩ := Option.map_eq_some_iff.mp h
    simp [readBytes_extend ys hr]
  · exact skipFixed_extend ys h
  · cases h

theorem skipGroup_used {n : ℕ} {gs : List ℕ} {bs rest : Bytes}
    (h : skipGroup n gs bs = some rest) : ∃ used, bs = used ++ rest := by
  induction n generalizing gs bs with
  | zero =>
    cases gs with
    | nil =>
      cases h
      exact ⟨[],rfl⟩
    | cons g gs => cases h
  | succ n ih =>
    cases gs with
    | nil =>
      cases h
      exact ⟨[],rfl⟩
    | cons g gs =>
      simp only [skipGroup,Option.bind_eq_some_iff] at h
      obtain ⟨⟨tag,r⟩,ht,h⟩ := h
      obtain ⟨u,rfl,_⟩ := readTag_used ht
      have tail : ∃ used, r = used ++ rest := by
        split_ifs at h
        · exact ih h
        · exact ih h
        · obtain ⟨r',hr,hs⟩ := Option.bind_eq_some_iff.mp h
          obtain ⟨u',hu⟩ := skipScalar_used hr
          obtain ⟨u'',rfl⟩ := ih hs
          exact ⟨u' ++ u'',by rw [List.append_assoc]; exact hu⟩
      obtain ⟨u',rfl⟩ := tail
      exact ⟨u ++ u',by rw [List.append_assoc]⟩

theorem skipGroup_extend {n k : ℕ} {gs : List ℕ} {bs rest : Bytes} (ys : Bytes)
    (h : skipGroup n gs bs = some rest) : skipGroup (n + k) gs (bs ++ ys) = some (rest ++ ys) := by
  induction n generalizing gs bs with
  | zero =>
    cases gs with
    | nil =>
      cases h
      rw [skipGroup]
    | cons g gs => cases h
  | succ n ih =>
    cases gs with
    | nil =>
      cases h
      rw [skipGroup]
    | cons g gs =>
      simp only [skipGroup,Option.bind_eq_some_iff] at h
      obtain ⟨⟨tag,r⟩,ht,h⟩ := h
      rw [Nat.add_right_comm,skipGroup,readTag_extend ys ht,Option.bind_some]
      dsimp only at h ⊢
      split_ifs at h ⊢
      · exact ih h
      · exact ih h
      · obtain ⟨r',hr,h⟩ := Option.bind_eq_some_iff.mp h
        rw [skipScalar_extend ys hr,Option.bind_some]
        exact ih h

theorem skipGroup_fuel {n k : ℕ} {gs : List ℕ} {bs : Bytes} (hn : bs.length ≤ n)
    (hk : bs.length ≤ k) : skipGroup n gs bs = skipGroup k gs bs := by
  have ended : ∀ n gs, skipGroup n gs [] = match gs with | [] => some [] | _ :: _ => none := by
    intro n gs
    cases n <;> cases gs <;> simp [skipGroup,readTag,readVarint]
  induction n generalizing k gs bs with
  | zero =>
    have nil : bs = [] := List.eq_nil_of_length_eq_zero (by omega)
    rw [nil,ended,ended]
  | succ n ih =>
    cases k with
    | zero =>
      have nil : bs = [] := List.eq_nil_of_length_eq_zero (by omega)
      rw [nil,ended,ended]
    | succ k =>
      cases gs with
      | nil => rw [skipGroup,skipGroup]
      | cons g gs =>
        rw [skipGroup,skipGroup]
        cases ht : readTag bs with
        | none => rfl
        | some p =>
          obtain ⟨tag,r⟩ := p
          have hr := readTag_length ht
          simp only [Option.bind_some]
          rw [@ih k gs r (by omega) (by omega),
            @ih k (tag / 8 :: g :: gs) r (by omega) (by omega)]
          cases hs : skipScalar (tag % 8) r with
          | none => rfl
          | some r' =>
            obtain ⟨used,hu⟩ := skipScalar_used hs
            have len : r'.length ≤ r.length := by rw [hu]; simp
            simp only [Option.bind_some]
            rw [@ih k (g :: gs) r' (by omega) (by omega)]

theorem skipField_used {tag : ℕ} {bs rest : Bytes} (h : skipField tag bs = some rest) :
    ∃ used, bs = used ++ rest := by
  unfold skipField at h
  split at h
  · exact skipGroup_used h
  · exact skipScalar_used h

theorem skipField_extend {tag : ℕ} {bs rest : Bytes} (ys : Bytes)
    (h : skipField tag bs = some rest) : skipField tag (bs ++ ys) = some (rest ++ ys) := by
  unfold skipField at h ⊢
  split_ifs at h ⊢
  · rw [List.length_append]
    exact skipGroup_extend ys h
  · exact skipScalar_extend ys h

/-! ### One field of a message -/

variable {S}

theorem Schema.field_mem {tag : ℕ} {f : FieldSpec σ} (h : S.field tag = some f) :
    f ∈ S.fields ∧ f.tag = tag := by
  have mem := List.mem_of_find?_eq_some h
  have eq := List.find?_some h
  exact ⟨mem,by simpa using eq⟩

theorem tag_injective {f g : FieldSpec σ} (h : f.tag = g.tag) : f.number = g.number := by
  have hf := wireType_lt f.kind
  have hg := wireType_lt g.kind
  unfold FieldSpec.tag at h
  omega

theorem Schema.field_of_mem {f : FieldSpec σ} (h : f ∈ S.fields) : S.field f.tag = some f := by
  have apart := S.apart
  unfold Schema.field
  generalize S.fields = fs at h apart
  induction fs with
  | nil => cases h
  | cons g gs ih =>
    rw [List.pairwise_cons] at apart
    rcases List.mem_cons.mp h with rfl | hm
    · rw [List.find?_cons_of_pos (by simp)]
    · have ne : g.tag ≠ f.tag := fun eq => (apart.1 f hm).1 (tag_injective eq)
      rw [List.find?_cons_of_neg (by simpa using ne)]
      exact ih hm apart.2

theorem Kind.read_used {k : Kind} {v : k.Val} {bs rest : Bytes}
    (h : k.read bs = some (v,rest)) : ∃ used, bs = used ++ rest := by
  have varint : ∀ {n : ℕ}, readVarint 10 bs = some (n,rest) → ∃ used, bs = used ++ rest := by
    intro n hr
    obtain ⟨used,hu,_⟩ := readVarint_used hr
    exact ⟨used,hu⟩
  cases k with
  | int32 | enum | bool =>
    obtain ⟨⟨n,r⟩,hr,eq⟩ := Option.map_eq_some_iff.mp h
    cases eq
    exact varint hr
  | string => exact readBytes_used (readString_eq_some h)
  | bytes => exact readBytes_used h

theorem Schema.parseField_used {p q : Parsed σ} {bs rest : Bytes}
    (h : S.parseField p bs = some (q,rest)) : ∃ used, bs = used ++ rest ∧ 1 ≤ weight used := by
  simp only [Schema.parseField,Option.bind_eq_some_iff] at h
  obtain ⟨⟨tag,r⟩,ht,h⟩ := h
  obtain ⟨u,rfl,hw⟩ := readTag_used ht
  have tail : ∃ used, r = used ++ rest := by
    cases hf : S.field tag with
    | some f =>
      simp only [hf,Option.map_eq_some_iff,Prod.mk.injEq] at h
      obtain ⟨⟨v,r'⟩,hv,_,rfl⟩ := h
      exact Kind.read_used hv
    | none =>
      simp only [hf,Option.map_eq_some_iff,Prod.mk.injEq] at h
      obtain ⟨r',hv,_,rfl⟩ := h
      exact skipField_used hv
  obtain ⟨u',rfl⟩ := tail
  refine ⟨u ++ u',by rw [List.append_assoc],?_⟩
  rw [weight_append]
  omega

theorem Schema.parseField_extend {p q : Parsed σ} {bs rest : Bytes} (ys : Bytes)
    (h : S.parseField p bs = some (q,rest)) :
    S.parseField p (bs ++ ys) = some (q,rest ++ ys) := by
  simp only [Schema.parseField,Option.bind_eq_some_iff] at h
  obtain ⟨⟨tag,r⟩,ht,h⟩ := h
  rw [Schema.parseField,readTag_extend ys ht,Option.bind_some]
  dsimp only at h ⊢
  cases hf : S.field tag with
  | some f =>
    simp only [hf,Option.map_eq_some_iff,Prod.mk.injEq] at h ⊢
    obtain ⟨⟨v,r'⟩,hv,rfl,rfl⟩ := h
    exact ⟨(v,r' ++ ys),Kind.read_extend ys hv,rfl,rfl⟩
  | none =>
    simp only [hf,Option.map_eq_some_iff,Prod.mk.injEq] at h ⊢
    obtain ⟨r',hv,rfl,rfl⟩ := h
    obtain ⟨used,rfl⟩ := skipField_used hv
    refine ⟨r' ++ ys,skipField_extend ys hv,?_,rfl⟩
    simp

theorem FieldSpec.write_length_le {f : FieldSpec σ} (h : f.kind.wireType = 0) (m : σ) :
    (f.write m).length ≤ 20 := by
  have value : ∀ (k : Kind) (v : k.Val), k.wireType = 0 → (k.write v).length ≤ 10 := by
    intro k v hk
    cases k with
    | int32 | enum => exact writeVarint_length_le 10 _
    | bool => exact Nat.le_of_ble_eq_true rfl
    | string | bytes => cases hk
  unfold FieldSpec.write
  split_ifs
  · exact Nat.zero_le _
  · have tag := writeVarint_length_le 10 f.tag
    have val := value f.kind (f.get m) h
    rw [List.length_append,writeTag]
    omega

theorem FieldSpec.write_apart {f g : FieldSpec σ} (h : f.Apart g) (m : σ) (v : f.kind.Val) :
    g.write (f.set m v) = g.write m := by
  simp only [FieldSpec.write,h.2.2]

theorem FieldSpec.Apart.symm {f g : FieldSpec σ} (h : f.Apart g) : g.Apart f :=
  ⟨h.1.symm,h.2.2,h.2.1⟩

theorem write_all_apart {f : FieldSpec σ} (fs : List (FieldSpec σ)) (h : ∀ g ∈ fs, f.Apart g) (m : σ)
    (v : f.kind.Val) : fs.flatMap (fun g => g.write (f.set m v)) = fs.flatMap (fun g => g.write m) := by
  induction fs with
  | nil => rfl
  | cons g gs ih =>
    rw [List.flatMap_cons,List.flatMap_cons,FieldSpec.write_apart (h g (by simp)),
      ih (fun q hq => h q (by simp [hq]))]

theorem write_set_weight {f : FieldSpec σ} (fs : List (FieldSpec σ)) (apart : fs.Pairwise FieldSpec.Apart)
    (mem : f ∈ fs) (m : σ) (v : f.kind.Val) :
    weight (fs.flatMap (fun g => g.write (f.set m v))) ≤
      weight (fs.flatMap (fun g => g.write m)) + weight (f.write (f.set m v)) := by
  induction fs with
  | nil => cases mem
  | cons g gs ih =>
    rw [List.pairwise_cons] at apart
    simp only [List.flatMap_cons,weight_append]
    rcases List.mem_cons.mp mem with rfl | hm
    · rw [write_all_apart gs apart.1]
      omega
    · have rest := ih apart.2 hm
      rw [FieldSpec.write_apart (apart.1 f hm).symm]
      omega

theorem Schema.field_write_weight {f : FieldSpec σ} (h : f ∈ S.fields) (m : σ) (v : f.kind.Val) :
    weight (f.write (f.set m v)) ≤ 1 + weight (f.kind.write v) := by
  have bounds := f.tag_bounds (S.number_pos f h) (S.number_lt f h)
  rw [FieldSpec.write,S.get_set f h]
  split
  · exact Nat.zero_le _
  · rw [weight_append,weight_writeTag bounds.2]

theorem Schema.parseField_weight {p q : Parsed σ} {bs rest : Bytes}
    (h : S.parseField p bs = some (q,rest)) :
    weight (S.writeTo q.message) + weight rest ≤ weight (S.writeTo p.message) + weight bs := by
  simp only [Schema.parseField,Option.bind_eq_some_iff] at h
  obtain ⟨⟨tag,r⟩,ht,h⟩ := h
  obtain ⟨u,rfl,hw⟩ := readTag_used ht
  cases hf : S.field tag with
  | some f =>
    simp only [hf,Option.map_eq_some_iff,Prod.mk.injEq] at h
    obtain ⟨⟨v,r'⟩,hv,rfl,rfl⟩ := h
    have mem := (S.field_mem hf).1
    have value := Kind.read_weight hv
    have new := S.field_write_weight mem p.message v
    have whole := write_set_weight S.fields S.apart mem p.message v
    rw [weight_append]
    unfold Schema.writeTo
    dsimp only at whole ⊢
    omega
  | none =>
    simp only [hf,Option.map_eq_some_iff,Prod.mk.injEq] at h
    obtain ⟨r',hv,rfl,rfl⟩ := h
    obtain ⟨used,rfl⟩ := skipField_used hv
    simp only [weight_append]
    omega

/-! ### The parse loop -/

theorem Schema.parseLoop_nil (n : ℕ) (p : Parsed σ) : S.parseLoop n p [] = some p := by
  rw [Schema.parseLoop.eq_def]

theorem Schema.parseLoop_fuel {n k : ℕ} {p : Parsed σ} {bs : Bytes} (hn : bs.length ≤ n)
    (hk : bs.length ≤ k) : S.parseLoop n p bs = S.parseLoop k p bs := by
  induction n generalizing k p bs with
  | zero =>
    have nil : bs = [] := List.eq_nil_of_length_eq_zero (by omega)
    rw [nil,Schema.parseLoop_nil,Schema.parseLoop_nil]
  | succ n ih =>
    cases bs with
    | nil => rw [Schema.parseLoop_nil,Schema.parseLoop_nil]
    | cons b bs =>
      cases k with
      | zero => simp at hk
      | succ k =>
        rw [Schema.parseLoop,Schema.parseLoop]
        cases hf : S.parseField p (b :: bs) with
        | none => rfl
        | some r =>
          obtain ⟨q,rest⟩ := r
          obtain ⟨used,hu,hw⟩ := S.parseField_used hf
          have shorter : rest.length < (b :: bs).length := by
            cases used with
            | nil => simp at hw
            | cons c used =>
              rw [hu,List.length_append,List.length_cons]
              omega
          simp only [List.length_cons] at hn hk shorter
          change S.parseLoop n q rest = S.parseLoop k q rest
          exact ih (by omega) (by omega)

/-- A parse that reached the end of its buffer goes on with the bytes that follow. -/
theorem Schema.parseLoop_append {n : ℕ} {p q : Parsed σ} {xs : Bytes} (ys : Bytes)
    (h : S.parseLoop n p xs = some q) :
    S.parseLoop (n + ys.length) p (xs ++ ys) = S.parseLoop ys.length q ys := by
  induction n generalizing p xs with
  | zero =>
    cases xs with
    | nil =>
      cases h
      rw [Nat.zero_add,List.nil_append]
    | cons b bs => cases h
  | succ n ih =>
    cases xs with
    | nil =>
      rw [Schema.parseLoop_nil,Option.some.injEq] at h
      rw [h,List.nil_append]
      exact S.parseLoop_fuel (by omega) (by omega)
    | cons b bs =>
      rw [Schema.parseLoop,Option.bind_eq_some_iff] at h
      obtain ⟨⟨r,rest⟩,hf,hl⟩ := h
      have he := S.parseField_extend ys hf
      rw [List.cons_append] at he
      rw [Nat.add_right_comm,List.cons_append,Schema.parseLoop,he,Option.bind_some]
      exact ih hl

theorem Schema.parseLoop_weight {n : ℕ} {p q : Parsed σ} {bs : Bytes}
    (h : S.parseLoop n p bs = some q) :
    weight (S.writeTo q.message) ≤ weight (S.writeTo p.message) + weight bs := by
  induction n generalizing p bs with
  | zero =>
    cases bs with
    | nil =>
      cases h
      omega
    | cons b bs => cases h
  | succ n ih =>
    cases bs with
    | nil =>
      cases h
      omega
    | cons b bs =>
      rw [Schema.parseLoop,Option.bind_eq_some_iff] at h
      obtain ⟨⟨r,rest⟩,hf,hl⟩ := h
      have first := S.parseField_weight hf
      have others := ih hl
      dsimp only at others
      omega

theorem Schema.parseLoop_nonempty {n : ℕ} {p q : Parsed σ} {bs : Bytes}
    (h : S.parseLoop n p bs = some q) (ne : bs ≠ []) : 1 ≤ weight bs := by
  cases bs with
  | nil => exact absurd rfl ne
  | cons b bs =>
    cases n with
    | zero => cases h
    | succ n =>
      rw [Schema.parseLoop,Option.bind_eq_some_iff] at h
      obtain ⟨⟨r,rest⟩,hf,_⟩ := h
      obtain ⟨used,hu,hw⟩ := S.parseField_used hf
      rw [hu,weight_append]
      omega

/-! ### A written message parses to itself -/

theorem Schema.parseField_write {f : FieldSpec σ} (h : f ∈ S.fields) (p : Parsed σ) (v : f.kind.Val)
    (rest : Bytes) : S.parseField p (writeTag f.tag ++ (f.kind.write v ++ rest)) =
      some (⟨f.set p.message v,p.unknownFields⟩,rest) := by
  have bounds := f.tag_bounds (S.number_pos f h) (S.number_lt f h)
  rw [Schema.parseField,readTag_write _ bounds.1 bounds.2,Option.bind_some]
  simp only [S.field_of_mem h,f.kind.read_write,Option.map_some]

/-- The fields of `pre` have been read, those of `post` still hold their defaults. -/
theorem Schema.parse_fields (pre post : List (FieldSpec σ)) (split : S.fields = pre ++ post)
    (m acc : σ) (us : List UnknownField) (done : ∀ f ∈ pre, f.get acc = f.get m)
    (todo : ∀ f ∈ post, f.get acc = f.kind.default) (n : ℕ)
    (fuel : (post.flatMap (fun f => f.write m)).length ≤ n) :
    S.parseLoop n ⟨acc,us⟩ (post.flatMap (fun f => f.write m)) = some ⟨m,us⟩ := by
  induction post generalizing pre acc n with
  | nil =>
    have eq : acc = m := by
      apply S.ext
      rw [split,List.append_nil]
      exact done
    rw [List.flatMap_nil,Schema.parseLoop_nil,eq]
  | cons f post ih =>
    have mem : f ∈ S.fields := by rw [split]; simp
    have apart := S.apart
    rw [split,List.pairwise_append,List.pairwise_cons] at apart
    have split' : S.fields = (pre ++ [f]) ++ post := by rw [split]; simp
    rw [List.flatMap_cons] at fuel ⊢
    by_cases hd : f.get m = f.kind.default
    · have empty : f.write m = [] := by rw [FieldSpec.write,if_pos hd]
      rw [empty,List.nil_append] at fuel ⊢
      refine ih (pre ++ [f]) split' acc ?_ (fun g hg => todo g (by simp [hg])) n fuel
      intro g hg
      rcases List.mem_append.mp hg with hp | hf
      · exact done g hp
      · rw [List.mem_singleton.mp hf,hd]
        exact todo f (by simp)
    · have bounds := f.tag_bounds (S.number_pos f mem) (S.number_lt f mem)
      have bytes : f.write m = UInt8.ofNat f.tag :: f.kind.write (f.get m) := by
        rw [FieldSpec.write,if_neg hd,writeTag_eq bounds.2]
        rfl
      have step := S.parseField_write mem ⟨acc,us⟩ (f.get m) (post.flatMap (fun f => f.write m))
      rw [writeTag_eq bounds.2,List.singleton_append] at step
      rw [bytes,List.cons_append] at fuel ⊢
      cases n with
      | zero => simp at fuel
      | succ n =>
        rw [Schema.parseLoop,step,Option.bind_some]
        refine ih (pre ++ [f]) split' (f.set acc (f.get m)) ?_ ?_ n ?_
        · intro g hg
          rcases List.mem_append.mp hg with hp | hf
          · have hgf := apart.2.2 g hp f (by simp)
            rw [hgf.2.1]
            exact done g hp
          · rw [List.mem_singleton.mp hf]
            exact S.get_set f mem acc _
        · intro g hg
          have hfg := apart.2.1.1 g hg
          rw [hfg.2.2]
          exact todo g (by simp [hg])
        · simp only [List.length_cons,List.length_append] at fuel
          omega

variable (S)

theorem Schema.parseFrom_writeTo (m : σ) : S.parseFrom (S.writeTo m) = some ⟨m,[]⟩ :=
  S.parse_fields [] S.fields rfl m S.defaultInstance [] (by simp) (fun f hf => S.get_default f hf)
    _ (le_refl _)

theorem Schema.writeTo_default : weight (S.writeTo S.defaultInstance) = 0 := by
  have empty : S.writeTo S.defaultInstance = [] := by
    rw [Schema.writeTo,List.flatMap_eq_nil_iff]
    intro f hf
    rw [FieldSpec.write,if_pos (S.get_default f hf)]
  rw [empty,weight_nil]

/-- Any buffer that parses to a message weighs at least what the message is written with. -/
theorem Schema.parseFrom_weight {bs : Bytes} {q : Parsed σ} (h : S.parseFrom bs = some q) :
    weight (S.writeTo q.message) ≤ weight bs := by
  have hw := S.parseLoop_weight h
  rw [S.writeTo_default,Nat.zero_add] at hw
  exact hw

theorem Schema.writeTo_head (m : σ) (b : UInt8) (bs : Bytes) (h : S.writeTo m = b :: bs) :
    0 < weight [b] := by
  have small := S.number_lt
  have pos := S.number_pos
  unfold Schema.writeTo at h
  generalize S.fields = fs at h small pos
  induction fs with
  | nil => cases h
  | cons f fs ih =>
    rw [List.flatMap_cons] at h
    by_cases hd : f.get m = f.kind.default
    · rw [FieldSpec.write,if_pos hd,List.nil_append] at h
      exact ih h (fun g hg => small g (by simp [hg])) (fun g hg => pos g (by simp [hg]))
    · have bounds := f.tag_bounds (pos f (by simp)) (small f (by simp))
      rw [FieldSpec.write,if_neg hd,writeTag_eq bounds.2,List.append_assoc,List.singleton_append,
        List.cons.injEq] at h
      rw [←h.1,←writeTag_eq bounds.2,weight_writeTag bounds.2]
      exact Nat.one_pos

/-- A parse that ends within a written message would have to go on to its end, and
    the first tag it then meets has a positive weight. -/
theorem Schema.writeTo_tail (m : σ) (xs ys : Bytes) {q : Parsed σ} (h : S.parseFrom xs = some q)
    (split : S.writeTo m = xs ++ ys) (ne : ys ≠ []) : 0 < weight ys := by
  have whole := S.parseFrom_writeTo m
  rw [split,Schema.parseFrom,List.length_append,S.parseLoop_append ys h] at whole
  exact S.parseLoop_nonempty whole ne

/-- No beginning of a written message but the whole of it parses to the message. -/
theorem Schema.parseFrom_prefix_ne {m : σ} {xs ys : Bytes} (split : S.writeTo m = xs ++ ys)
    (ne : ys ≠ []) (us : List UnknownField) : S.parseFrom xs ≠ some ⟨m,us⟩ := by
  intro same
  have tail := S.writeTo_tail m xs ys same split ne
  have whole := S.parseFrom_weight same
  rw [split,weight_append] at whole
  omega

/-- The codec that writes a message with no length before it and parses every
    buffer whole. -/
def Schema.codec : StreamFraming.BufferCodec σ (Parsed σ) UInt8 where
  encode := S.writeTo
  decode := S.parseFrom
  sent m := ⟨m,[]⟩
  weight := weight
  weight_append := weight_append
  decode_encode := S.parseFrom_writeTo
  weight_le _ _ h := S.parseFrom_weight h
  weight_head := S.writeTo_head
  weight_tail m xs ys h := S.writeTo_tail m xs ys h

end WireFormat
