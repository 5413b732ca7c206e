import SeeU.CodePoints
import SeeU.WireField
import SeeU.WebsocketPipeline

set_option autoImplicit false

/-!
# The client's writer

`serializeBinary` of `wsMsg_pb.js` over the encoder and the writer of `google-protobuf`.
Where the source asserts, `none` is the exception; the sizes of delimited fields are
patched into their block after the field is written.
-/
namespace SeeU.Jspb
open WireFormat

/-- `proto.wsMsg.wsMsg`; a JavaScript string is a sequence of 16-bit units. -/
structure WsMsg where
  msgseq : ℤ
  msgid : List UInt16
  content : Bytes
  deriving DecidableEq

/-! ### `jspb.BinaryEncoder` -/

/-- `buffer_`. -/
abbrev Buffer := List ℕ

/-- `a >>>= 7` takes `a` to 32 bits, so that the loop pushes at most five numbers. -/
def pushVarint : ℕ → Buffer → ℕ → Buffer
  | 0, buffer, _ => buffer
  | n + 1, buffer, a =>
    if 127 < a then pushVarint n (buffer ++ [a &&& 127 ||| 128]) ((a % 2 ^ 32) >>> 7)
    else buffer ++ [a]

def writeUnsignedVarint32 (buffer : Buffer) (a : ℕ) : Option Buffer :=
  if a < 2 ^ 32 then some (pushVarint 5 buffer a) else none

/-- The loop over a negative `a`. -/
def pushNegative : ℕ → Buffer → BitVec 32 → Buffer
  | 0, buffer, _ => buffer ++ [1]
  | n + 1, buffer, a =>
    pushNegative n (buffer ++ [(a &&& 127#32 ||| 128#32).toNat]) (a.sshiftRight 7)

def writeSignedVarint32 (buffer : Buffer) (a : ℤ) : Option Buffer :=
  if -2 ^ 31 ≤ a ∧ a < 2 ^ 31 then
    if 0 ≤ a then writeUnsignedVarint32 buffer a.toNat
    else some (pushNegative 9 buffer (BitVec.ofInt 32 a))
  else none

def pushThree (buffer : Buffer) (d : ℕ) : Buffer :=
  buffer ++ [d >>> 12 ||| 224,d >>> 6 &&& 63 ||| 128,d &&& 63 ||| 128]

def pushFour (buffer : Buffer) (d : ℕ) : Buffer :=
  buffer ++ [d >>> 18 ||| 240,d >>> 12 &&& 63 ||| 128,d >>> 6 &&& 63 ||| 128,d &&& 63 ||| 128]

/-- A high surrogate before a unit that is no low one is skipped without a push. -/
def writeString (buffer : Buffer) : List UInt16 → Buffer
  | [] => buffer
  | [u] =>
    let d := u.toNat
    if d < 128 then buffer ++ [d]
    else if d < 2048 then buffer ++ [d >>> 6 ||| 192,d &&& 63 ||| 128]
    else pushThree buffer d
  | u :: v :: us =>
    let d := u.toNat
    let e := v.toNat
    if d < 128 then writeString (buffer ++ [d]) (v :: us)
    else if d < 2048 then writeString (buffer ++ [d >>> 6 ||| 192,d &&& 63 ||| 128]) (v :: us)
    else if 55296 ≤ d ∧ d ≤ 56319 then
      if 56320 ≤ e ∧ e ≤ 57343 then
        writeString (pushFour buffer (1024 * (d - 55296) + e - 56320 + 65536)) us
      else writeString buffer (v :: us)
    else writeString (pushThree buffer d) (v :: us)

/-! ### `jspb.BinaryWriter` -/

/-- `encoder` is the buffer of `encoder_`. -/
structure BinaryWriter where
  blocks : List Buffer
  totalLength : ℕ
  encoder : Buffer

namespace BinaryWriter

def new : BinaryWriter := ⟨[],0,[]⟩

def writeFieldHeader (w : BinaryWriter) (field wireType : ℕ) : Option BinaryWriter :=
  if 1 ≤ field then
    (writeUnsignedVarint32 w.encoder (8 * field + wireType)).map (fun b => { w with encoder := b })
  else none

/-- The place of the new block stands for the reference to it; its last number is the
    length that was reached before the field. -/
def beginDelimited (w : BinaryWriter) (field : ℕ) : Option (BinaryWriter × ℕ) :=
  (w.writeFieldHeader field 2).map (fun w =>
    let total := w.totalLength + w.encoder.length
    (⟨w.blocks ++ [w.encoder ++ [total]],total,[]⟩,w.blocks.length))

/-- The bookmark is popped and the size of the field pushed instead. -/
def endDelimited (w : BinaryWriter) (a : ℕ) : Option BinaryWriter :=
  (w.blocks[a]?).bind (fun block =>
    block.getLast?.bind (fun mark =>
      if mark ≤ w.totalLength + w.encoder.length then
        let size := pushVarint 5 [] (w.totalLength + w.encoder.length - mark)
        some { w with
          blocks := w.blocks.set a (block.dropLast ++ size)
          totalLength := w.totalLength + size.length }
      else none))

def writeInt32 (w : BinaryWriter) (field : ℕ) (value : ℤ) : Option BinaryWriter :=
  (w.writeFieldHeader field 0).bind (fun w =>
    (writeSignedVarint32 w.encoder value).map (fun b => { w with encoder := b }))

def writeString (w : BinaryWriter) (field : ℕ) (value : List UInt16) : Option BinaryWriter :=
  (w.beginDelimited field).bind (fun p =>
    { p.1 with encoder := Jspb.writeString p.1.encoder value }.endDelimited p.2)

/-- `appendUint8Array_`. -/
def appendUint8Array (w : BinaryWriter) (a : Bytes) : BinaryWriter :=
  ⟨w.blocks ++ [w.encoder,a.map UInt8.toNat],w.totalLength + (w.encoder.length + a.length),[]⟩

def writeBytes (w : BinaryWriter) (field : ℕ) (value : Bytes) : Option BinaryWriter :=
  (w.writeFieldHeader field 2).bind (fun w =>
    (writeUnsignedVarint32 w.encoder value.length).map (fun b =>
      { w with encoder := b }.appendUint8Array value))

/-- The array is as long as the lengths say: numbers that do not fit in it, and places in
    it that none is set at, throw. -/
def getResultBuffer (w : BinaryWriter) : Option Bytes :=
  let numbers := w.blocks.flatten ++ w.encoder
  if numbers.length = w.totalLength + w.encoder.length then some (numbers.map UInt8.ofNat)
  else none

end BinaryWriter

/-! ### `wsMsg_pb.js` -/

def WsMsg.serializeBinaryToWriter (message : WsMsg) (w : BinaryWriter) : Option BinaryWriter :=
  (if message.msgseq ≠ 0 then w.writeInt32 1 message.msgseq else some w).bind (fun w =>
    (if 0 < message.msgid.length then w.writeString 2 message.msgid else some w).bind (fun w =>
      if 0 < message.content.length then w.writeBytes 3 message.content else some w))

def WsMsg.serializeBinary (message : WsMsg) : Option Bytes :=
  (message.serializeBinaryToWriter BinaryWriter.new).bind BinaryWriter.getResultBuffer

/-! ### Numbers -/

theorem or_128 {x : ℕ} (h : x < 128) : x ||| 128 = x + 128 := by
  rw [Nat.or_comm,Nat.add_comm]
  exact (Nat.two_pow_add_eq_or_of_lt (i := 7) h 1).symm

theorem and_127 (x : ℕ) : x &&& 127 = x % 128 := Nat.and_two_pow_sub_one_eq_mod x 7

theorem and_63 (x : ℕ) : x &&& 63 = x % 64 := Nat.and_two_pow_sub_one_eq_mod x 6

theorem writeVarint_ge (k : ℕ) {v : ℕ} (h : 128 ≤ v) :
    writeVarint (k + 1) v = UInt8.ofNat (v % 128 + 128) :: writeVarint k (v / 128) := by
  rw [writeVarint,if_neg (Nat.not_lt.mpr h)]

theorem pushVarint_append (n : ℕ) (buffer : Buffer) (a : ℕ) :
    pushVarint n buffer a = buffer ++ pushVarint n [] a := by
  induction n generalizing buffer a with
  | zero => simp [pushVarint]
  | succ n ih =>
    unfold pushVarint
    split_ifs
    · rw [ih,ih ([] ++ _),List.append_assoc,List.append_assoc,List.nil_append]
    · rw [List.nil_append]

theorem pushVarint_bytes {n a : ℕ} (k : ℕ) (small : a < 2 ^ 32) (fits : a < 128 ^ (n + 1)) :
    (pushVarint (n + 1) [] a).map UInt8.ofNat = writeVarint (n + 1 + k) a := by
  induction n generalizing a with
  | zero =>
    have last : a < 128 := by simpa using fits
    rw [pushVarint,if_neg (by omega),Nat.zero_add,Nat.add_comm 1 k,writeVarint,if_pos last]
    rfl
  | succ n ih =>
    have order : n + 1 + 1 + k = n + 1 + k + 1 := by omega
    rw [pushVarint,order]
    by_cases last : a < 128
    · rw [if_neg (by omega),writeVarint,if_pos last]
      rfl
    · have next : a / 128 < 128 ^ (n + 1) := by
        rw [Nat.pow_succ] at fits
        omega
      have shifted : (a % 2 ^ 32) >>> 7 = a / 128 := by
        rw [Nat.mod_eq_of_lt small]
        exact Nat.shiftRight_eq_div_pow a 7
      rw [if_pos (by omega),writeVarint_ge _ (by omega),pushVarint_append,shifted,and_127,
        or_128 (Nat.mod_lt a (by decide)),List.map_append,ih (by omega) next]
      rfl

theorem writeUnsignedVarint32_eq {a : ℕ} (small : a < 2 ^ 32) (buffer : Buffer) :
    ∃ numbers, writeUnsignedVarint32 buffer a = some (buffer ++ numbers) ∧
      numbers.map UInt8.ofNat = writeVarint 10 a := by
  refine ⟨pushVarint 5 [] a,?_,pushVarint_bytes 5 small (small.trans (by decide))⟩
  rw [writeUnsignedVarint32,if_pos small,pushVarint_append]

theorem pushNegative_append (n : ℕ) (buffer : Buffer) (a : BitVec 32) :
    pushNegative n buffer a = buffer ++ pushNegative n [] a := by
  induction n generalizing buffer a with
  | zero => simp [pushNegative]
  | succ n ih =>
    rw [pushNegative,pushNegative,ih,ih ([] ++ _),List.append_assoc,List.nil_append]

/-- After `n` shifts only the sign is left of a number of `7 n` bits. -/
theorem pushNegative_bytes {n : ℕ} {a : BitVec 32} (negative : a.toInt < 0)
    (fits : -(128 : ℤ) ^ n ≤ a.toInt) :
    (pushNegative n [] a).map UInt8.ofNat =
      writeVarint (n + 1) (2 * 128 ^ n + a.toInt).toNat := by
  induction n generalizing a with
  | zero =>
    have last : a.toInt = -1 := by
      simp only [Int.pow_zero] at fits
      omega
    rw [last]
    rfl
  | succ n ih =>
    have shifted : (a.sshiftRight 7).toInt = a.toInt / 128 := by
      rw [BitVec.toInt_sshiftRight,Int.shiftRight_eq_div_pow]
      rfl
    have power : (128 : ℤ) ^ (n + 1) = 128 * 128 ^ n := by rw [Int.pow_succ,Int.mul_comm]
    have positive : (0 : ℤ) < 128 ^ n := Int.pow_pos (by decide)
    rw [power] at fits ⊢
    have rest := ih (a := a.sshiftRight 7) (by omega) (by omega)
    have low : (a &&& 127#32 ||| 128#32).toNat = a.toNat % 128 + 128 := by
      rw [BitVec.toNat_or,BitVec.toNat_and]
      change a.toNat &&& 127 ||| 128 = _
      rw [and_127,or_128 (Nat.mod_lt _ (by decide))]
    have residue : (a.toNat % 128 : ℤ) = a.toInt % 128 := by
      rw [BitVec.toInt_eq_toNat_cond]
      split_ifs <;> omega
    generalize (128 : ℤ) ^ n = p at *
    have first : (2 * (128 * p) + a.toInt).toNat % 128 = a.toNat % 128 := by omega
    have next : (2 * (128 * p) + a.toInt).toNat / 128 = (2 * p + a.toInt / 128).toNat := by omega
    have whole := writeVarint_ge (n + 1) (v := (2 * (128 * p) + a.toInt).toNat) (by omega)
    rw [whole,first,next,pushNegative,pushNegative_append,List.map_append,rest,low,shifted]
    rfl

theorem writeSignedVarint32_eq {a : ℤ} (lower : -2 ^ 31 ≤ a) (upper : a < 2 ^ 31)
    (buffer : Buffer) : ∃ numbers, writeSignedVarint32 buffer a = some (buffer ++ numbers) ∧
      numbers.map UInt8.ofNat = WireFormat.writeInt32 (BitVec.ofInt 32 a) := by
  rw [writeSignedVarint32,if_pos ⟨lower,upper⟩,WireFormat.writeInt32]
  have value : (BitVec.ofInt 32 a).toInt = a := BitVec.toInt_ofInt_eq_self (by decide) lower upper
  have extended : ((BitVec.ofInt 32 a).signExtend 64).toInt = a := by
    rw [BitVec.toInt_signExtend_of_le (by decide),value]
  have cond := BitVec.toInt_eq_toNat_cond ((BitVec.ofInt 32 a).signExtend 64)
  rw [extended] at cond
  split_ifs with sign
  · obtain ⟨numbers,eq,bytes⟩ := writeUnsignedVarint32_eq (a := a.toNat) (by omega) buffer
    refine ⟨numbers,eq,bytes.trans (congrArg _ ?_)⟩
    split_ifs at cond <;> omega
  · refine ⟨pushNegative 9 [] (BitVec.ofInt 32 a),by rw [pushNegative_append],?_⟩
    rw [pushNegative_bytes (by omega) (by omega),value]
    apply congrArg
    split_ifs at cond <;> omega

/-! ### Strings -/

/-- The code points without the high surrogates that another one follows. -/
def kept : List ℕ → List ℕ
  | [] => []
  | [p] => [p]
  | p :: q :: ps => if CodePoints.High p then kept (q :: ps) else p :: kept (q :: ps)

theorem kept_plain {p : ℕ} (h : ¬CodePoints.High p) (ps : List ℕ) :
    kept (p :: ps) = p :: kept ps := by
  cases ps with
  | nil => rfl
  | cons q ps => rw [kept,if_neg h]

theorem kept_sublist (ps : List ℕ) : (kept ps).Sublist ps := by
  fun_induction kept ps with
  | case1 => exact .refl []
  | case2 p => exact .refl [p]
  | case3 p q ps h ih => exact .cons p ih
  | case4 p q ps h ih => exact .cons_cons p ih

theorem kept_ne_nil {ps : List ℕ} (h : ps ≠ []) : kept ps ≠ [] := by
  fun_induction kept ps with
  | case1 => exact absurd rfl h
  | case2 p => exact List.cons_ne_nil p []
  | case3 p q ps high ih => exact ih (List.cons_ne_nil q ps)
  | case4 p q ps high ih => exact List.cons_ne_nil p _

theorem kept_of_plain {ps : List ℕ} (h : ∀ p ∈ ps, ¬CodePoints.High p) : kept ps = ps := by
  induction ps with
  | nil => rfl
  | cons p ps ih =>
    rw [kept_plain (h p List.mem_cons_self),ih (fun q mem => h q (List.mem_cons_of_mem p mem))]

theorem or_192 {x : ℕ} (h : x < 64) : x ||| 192 = x + 192 := by
  rw [Nat.or_comm,Nat.add_comm]
  exact (Nat.two_pow_add_eq_or_of_lt (i := 6) h 3).symm

theorem or_224 {x : ℕ} (h : x < 32) : x ||| 224 = x + 224 := by
  rw [Nat.or_comm,Nat.add_comm]
  exact (Nat.two_pow_add_eq_or_of_lt (i := 5) h 7).symm

theorem or_240 {x : ℕ} (h : x < 16) : x ||| 240 = x + 240 := by
  rw [Nat.or_comm,Nat.add_comm]
  exact (Nat.two_pow_add_eq_or_of_lt (i := 4) h 15).symm

theorem low_or_128 (x : ℕ) : x &&& 63 ||| 128 = x % 64 + 128 := by
  rw [and_63,or_128 (by omega)]

theorem shifted (x n : ℕ) : x >>> n = x / 2 ^ n := Nat.shiftRight_eq_div_pow x n

theorem pushOne_eq {d : ℕ} (h : d < 128) (buffer : Buffer) :
    buffer ++ [d] = buffer ++ CodePoints.utf8 d := by
  rw [CodePoints.utf8_one h]

theorem pushTwo_eq {d : ℕ} (low : ¬d < 128) (h : d < 2048) (buffer : Buffer) :
    buffer ++ [d >>> 6 ||| 192,d &&& 63 ||| 128] = buffer ++ CodePoints.utf8 d := by
  rw [CodePoints.utf8_two low h,low_or_128,shifted,or_192 (by omega)]
  rfl

theorem pushThree_eq {d : ℕ} (low : ¬d < 2048) (h : d < 65536) (buffer : Buffer) :
    pushThree buffer d = buffer ++ CodePoints.utf8 d := by
  rw [CodePoints.utf8_three low h,pushThree,low_or_128,low_or_128,shifted,shifted,
    or_224 (by omega)]
  rfl

theorem pushFour_eq {d : ℕ} (low : 65536 ≤ d) (h : d < 0x110000) (buffer : Buffer) :
    pushFour buffer d = buffer ++ CodePoints.utf8 d := by
  rw [CodePoints.utf8_four (Nat.not_lt.mpr low),pushFour,low_or_128,low_or_128,low_or_128,shifted,
    shifted,shifted,or_240 (by omega)]
  rfl

theorem kept_cons_high {p : ℕ} (h : CodePoints.High p) {ps : List ℕ} (ne : ps ≠ []) :
    kept (p :: ps) = kept ps := by
  cases ps with
  | nil => exact absurd rfl ne
  | cons q ps => rw [kept,if_pos h]

theorem ofUtf16_unpaired {u v : UInt16} (h : ¬(CodePoints.High u.toNat ∧ CodePoints.Low v.toNat))
    (us : List UInt16) : CodePoints.ofUtf16 (u :: v :: us) =
      u.toNat :: CodePoints.ofUtf16 (v :: us) := by
  rw [CodePoints.ofUtf16,if_neg h]

theorem ofUtf16_ne_nil (u : UInt16) (us : List UInt16) : CodePoints.ofUtf16 (u :: us) ≠ [] := by
  intro h
  have units := CodePoints.utf16_ofUtf16 (u :: us)
  rw [h] at units
  exact List.cons_ne_nil u us units.symm

/-- What is pushed for one unit that is neither in a pair nor skipped. -/
theorem writeString_unit {u v : UInt16} {us : List UInt16} (plain : ¬CodePoints.High u.toNat)
    {buffer : Buffer} {out : Buffer} (here : out = buffer ++ CodePoints.utf8 u.toNat)
    (rest : writeString out (v :: us) =
      out ++ (kept (CodePoints.ofUtf16 (v :: us))).flatMap CodePoints.utf8) :
    writeString out (v :: us) =
      buffer ++ (kept (CodePoints.ofUtf16 (u :: v :: us))).flatMap CodePoints.utf8 := by
  rw [rest,here,ofUtf16_unpaired (fun both => plain both.1),kept_plain plain,List.flatMap_cons,
    List.append_assoc]

theorem writeString_eq (buffer : Buffer) (us : List UInt16) :
    writeString buffer us =
      buffer ++ (kept (CodePoints.ofUtf16 us)).flatMap CodePoints.utf8 := by
  fun_induction writeString buffer us with
  | case1 buffer => exact (List.append_nil buffer).symm
  | case2 buffer u d one =>
    exact (pushOne_eq one buffer).trans (congrArg _ (List.flatMap_singleton ..).symm)
  | case3 buffer u d one two =>
    exact (pushTwo_eq one two buffer).trans (congrArg _ (List.flatMap_singleton ..).symm)
  | case4 buffer u d one two =>
    exact (pushThree_eq two u.toNat_lt buffer).trans (congrArg _ (List.flatMap_singleton ..).symm)
  | case5 buffer u v us d one ih =>
    exact writeString_unit (fun high => by have := high.1; omega) (pushOne_eq one buffer) ih
  | case6 buffer u v us d one two ih =>
    exact writeString_unit (fun high => by have := high.1; omega) (pushTwo_eq one two buffer) ih
  | case7 buffer u v us d e one two high low ih =>
    have both : CodePoints.High u.toNat ∧ CodePoints.Low v.toNat := ⟨high,low⟩
    have bounds := CodePoints.pair_bounds both
    have point : 1024 * (d - 55296) + e - 56320 + 65536 = CodePoints.pair u.toNat v.toNat := by
      obtain ⟨⟨_,_⟩,_,_⟩ := both
      unfold CodePoints.pair
      omega
    rw [ih,point,pushFour_eq bounds.1 bounds.2,CodePoints.ofUtf16,if_pos both,
      kept_plain (fun h => by have := h.2; omega),List.flatMap_cons,List.append_assoc]
  | case8 buffer u v us d e one two high low ih =>
    rw [ih,ofUtf16_unpaired (fun both => low both.2),kept_cons_high high (ofUtf16_ne_nil v us)]
  | case9 buffer u v us d one two high ih =>
    exact writeString_unit high (pushThree_eq two u.toNat_lt buffer) ih

/-! ### What the writer has written -/

namespace BinaryWriter

def Counted (w : BinaryWriter) : Prop := w.totalLength = w.blocks.flatten.length

def output (w : BinaryWriter) : Bytes := (w.blocks.flatten ++ w.encoder).map UInt8.ofNat

/-- The bytes are appended, and the lengths of the blocks still add up. -/
def Appends (w : BinaryWriter) (r : Option BinaryWriter) (bytes : Bytes) : Prop :=
  ∃ w', r = some w' ∧ w'.Counted ∧ w'.output = w.output ++ bytes

variable {w : BinaryWriter}

theorem getResultBuffer_eq (counted : w.Counted) : w.getResultBuffer = some w.output := by
  unfold Counted at counted
  rw [getResultBuffer,List.length_append,counted,if_pos rfl]
  rfl

theorem Appends.nil (counted : w.Counted) : w.Appends (some w) [] :=
  ⟨w,rfl,counted,(List.append_nil _).symm⟩

theorem Appends.bind {r : Option BinaryWriter} {f : BinaryWriter → Option BinaryWriter}
    {xs ys : Bytes} (first : w.Appends r xs) (next : ∀ w' : BinaryWriter, w'.Counted →
      w'.Appends (f w') ys) : w.Appends (r.bind f) (xs ++ ys) := by
  obtain ⟨w1,rfl,counted,out⟩ := first
  obtain ⟨w2,eq,counted2,out2⟩ := next w1 counted
  exact ⟨w2,eq,counted2,by rw [out2,out,List.append_assoc]⟩

theorem writeFieldHeader_eq {field wireType : ℕ} (pos : 1 ≤ field)
    (small : 8 * field + wireType < 2 ^ 32) : ∃ numbers,
      w.writeFieldHeader field wireType = some { w with encoder := w.encoder ++ numbers } ∧
      numbers.map UInt8.ofNat = writeTag (8 * field + wireType) := by
  obtain ⟨numbers,eq,bytes⟩ := writeUnsignedVarint32_eq small w.encoder
  exact ⟨numbers,by rw [writeFieldHeader,if_pos pos,eq]; rfl,bytes⟩

theorem output_encoder (numbers : List ℕ) :
    { w with encoder := w.encoder ++ numbers }.output = w.output ++ numbers.map UInt8.ofNat := by
  rw [output,output,←List.append_assoc,List.map_append]

theorem writeInt32_appends (counted : w.Counted) {field : ℕ} (pos : 1 ≤ field)
    (small : 8 * field + 0 < 2 ^ 32) {value : ℤ} (lower : -2 ^ 31 ≤ value)
    (upper : value < 2 ^ 31) : w.Appends (w.writeInt32 field value)
      (writeTag (8 * field + 0) ++ WireFormat.writeInt32 (BitVec.ofInt 32 value)) := by
  obtain ⟨header,eq,headerBytes⟩ := writeFieldHeader_eq (w := w) pos small
  obtain ⟨numbers,next,bytes⟩ := writeSignedVarint32_eq lower upper (w.encoder ++ header)
  refine ⟨{ w with encoder := w.encoder ++ header ++ numbers },?_,counted,?_⟩
  · rw [writeInt32,eq,Option.bind_some,next]
    rfl
  · rw [List.append_assoc,output_encoder,List.map_append,headerBytes,bytes]

/-- The size takes the place of the bookmark in the block of the field's header. -/
theorem endDelimited_eq (blocks : List Buffer) (block numbers : Buffer) (total : ℕ) :
    BinaryWriter.endDelimited ⟨blocks ++ [block ++ [total]],total,numbers⟩ blocks.length =
      some ⟨blocks ++ [block ++ pushVarint 5 [] numbers.length],
        total + (pushVarint 5 [] numbers.length).length,numbers⟩ := by
  have here : (blocks ++ [block ++ [total]])[blocks.length]? = some (block ++ [total]) :=
    List.getElem?_concat_length
  have patched (b : Buffer) :
      (blocks ++ [block ++ [total]]).set blocks.length b = blocks ++ [b] := by
    rw [List.set_append_right _ _ (Nat.le_refl _),Nat.sub_self]
    rfl
  simp only [endDelimited,here,Option.bind_some,List.getLast?_concat,Nat.le_add_right,if_true,
    Nat.add_sub_cancel_left,List.dropLast_concat,patched]

theorem writeString_appends (counted : w.Counted) {field : ℕ} (pos : 1 ≤ field)
    (small : 8 * field + 2 < 2 ^ 32) {us : List UInt16}
    (size : (Jspb.writeString [] us).length < 2 ^ 32) :
    w.Appends (w.writeString field us) (writeTag (8 * field + 2) ++
      (writeVarint 10 (Jspb.writeString [] us).length ++
        (Jspb.writeString [] us).map UInt8.ofNat)) := by
  obtain ⟨header,eq,headerBytes⟩ := writeFieldHeader_eq (w := w) pos small
  have sizeBytes := pushVarint_bytes 5 size (size.trans (by decide) : _ < 128 ^ (4 + 1))
  unfold Counted at counted
  refine ⟨⟨w.blocks ++ [w.encoder ++ header ++ pushVarint 5 [] (Jspb.writeString [] us).length],
    w.totalLength + (w.encoder ++ header).length +
      (pushVarint 5 [] (Jspb.writeString [] us).length).length,Jspb.writeString [] us⟩,?_,?_,?_⟩
  · rw [writeString,beginDelimited,eq,Option.map_some,Option.bind_some]
    exact endDelimited_eq w.blocks (w.encoder ++ header) (Jspb.writeString [] us) _
  · simp only [Counted,counted,List.flatten_append,List.flatten_singleton,List.length_append]
    omega
  · simp only [output,List.flatten_append,List.flatten_singleton,List.map_append,List.append_assoc,
      headerBytes,sizeBytes]

theorem writeBytes_appends (counted : w.Counted) {field : ℕ} (pos : 1 ≤ field)
    (small : 8 * field + 2 < 2 ^ 32) {value : Bytes} (size : value.length < 2 ^ 32) :
    w.Appends (w.writeBytes field value)
      (writeTag (8 * field + 2) ++ (writeVarint 10 value.length ++ value)) := by
  obtain ⟨header,eq,headerBytes⟩ := writeFieldHeader_eq (w := w) pos small
  obtain ⟨numbers,next,sizeBytes⟩ := writeUnsignedVarint32_eq size (w.encoder ++ header)
  have back : (value.map UInt8.toNat).map UInt8.ofNat = value := by
    rw [List.map_map]
    exact (List.map_congr_left (fun b _ => UInt8.ofNat_toNat)).trans (List.map_id value)
  unfold Counted at counted
  refine ⟨{ w with encoder := w.encoder ++ header ++ numbers }.appendUint8Array value,?_,?_,?_⟩
  · rw [writeBytes,eq,Option.bind_some,next]
    rfl
  · simp only [Counted,appendUint8Array,counted,List.flatten_append,List.flatten_cons,
      List.flatten_nil,List.length_append,List.length_map,List.length_nil]
    omega
  · simp only [output,appendUint8Array,List.flatten_append,List.flatten_cons,List.flatten_nil,
      List.map_append,List.append_assoc,List.append_nil,headerBytes,sizeBytes,back]

end BinaryWriter

/-! ### What the client sends -/

/-- The bytes of the string that are written. -/
def WsMsg.idBytes (message : WsMsg) : Bytes :=
  ((kept (CodePoints.ofUtf16 message.msgid)).flatMap CodePoints.utf8).map UInt8.ofNat

/-- The values that the two sides can hold: the assertion on the number passes, and Java's
    sizes do not overflow. -/
structure WsMsg.Fits (message : WsMsg) : Prop where
  lower : -2 ^ 31 ≤ message.msgseq
  upper : message.msgseq < 2 ^ 31
  id_lt : message.idBytes.length < 2 ^ 31
  content_lt : message.content.length < 2 ^ 31

def delimited (tag : ℕ) (bytes : Bytes) : Bytes :=
  writeTag tag ++ (writeVarint 10 bytes.length ++ bytes)

def WsMsg.encoded (message : WsMsg) : Bytes :=
  (if message.msgseq ≠ 0 then
    writeTag 8 ++ WireFormat.writeInt32 (BitVec.ofInt 32 message.msgseq) else []) ++
  ((if 0 < message.msgid.length then delimited 18 message.idBytes else []) ++
    if 0 < message.content.length then delimited 26 message.content else [])

theorem serializeBinary_eq {message : WsMsg} (fits : message.Fits) :
    message.serializeBinary = some message.encoded := by
  have counted : BinaryWriter.new.Counted := rfl
  have idBytes : message.idBytes = (writeString [] message.msgid).map UInt8.ofNat := by
    rw [writeString_eq]
    rfl
  have number : BinaryWriter.new.Appends
      (if message.msgseq ≠ 0 then BinaryWriter.new.writeInt32 1 message.msgseq
        else some BinaryWriter.new)
      (if message.msgseq ≠ 0 then
        writeTag 8 ++ WireFormat.writeInt32 (BitVec.ofInt 32 message.msgseq) else []) := by
    split_ifs
    · exact BinaryWriter.writeInt32_appends counted (by decide) (by decide) fits.lower fits.upper
    · exact .nil counted
  have id (w : BinaryWriter) (counted : w.Counted) : w.Appends
      (if 0 < message.msgid.length then w.writeString 2 message.msgid else some w)
      (if 0 < message.msgid.length then delimited 18 message.idBytes else []) := by
    split_ifs
    · have size := fits.id_lt
      rw [idBytes,List.length_map] at size
      have appends := BinaryWriter.writeString_appends counted (by decide : 1 ≤ 2) (by decide)
        (Nat.lt_trans size (by decide))
      rw [delimited,idBytes,List.length_map]
      exact appends
    · exact .nil counted
  have content (w : BinaryWriter) (counted : w.Counted) : w.Appends
      (if 0 < message.content.length then w.writeBytes 3 message.content else some w)
      (if 0 < message.content.length then delimited 26 message.content else []) := by
    split_ifs
    · exact BinaryWriter.writeBytes_appends counted (by decide) (by decide)
        (Nat.lt_trans fits.content_lt (by decide))
    · exact .nil counted
  have written : BinaryWriter.new.Appends (message.serializeBinaryToWriter BinaryWriter.new)
      message.encoded := number.bind (fun w counted => (id w counted).bind content)
  obtain ⟨w,eq,counted,out⟩ := written
  rw [WsMsg.serializeBinary,eq,Option.bind_some,BinaryWriter.getResultBuffer_eq counted,out]
  rfl

end SeeU.Jspb
