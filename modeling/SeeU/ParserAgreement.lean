import SeeU.BinaryReader
import SeeU.WebsocketClient
import SeeU.WireSize
import Mathlib.Data.List.Flatten

set_option autoImplicit false

/-!
# The client's reader and the server's parser

Every buffer that the server parses is read by the client to the same message, up to
numbers of five bytes, unless a declared field has another wire type: the server keeps it
as an unknown field, the client's assertion fails. What either side writes is read
exactly.
-/
namespace SeeU.Jspb
open WireFormat WebsocketPipeline

/-! ### Groups -/

/-- The group on top of the parser's stack ends, and the client's loop with it. -/
theorem skipGroup_eq {n g : ℕ} {gs : List ℕ} {bs rest : Bytes}
    (h : WireFormat.skipGroup n (g :: gs) bs = some rest) :
    ∃ m mid, m < n ∧ WireFormat.skipGroup m gs mid = some rest ∧ mid.length < bs.length ∧
      ∀ k r, bs.length ≤ k → Ahead bs r.decoder →
        ∃ r', BinaryReader.skipGroup k g r = .ok r' ∧ Ahead mid r'.decoder := by
  induction n using Nat.strongRecOn generalizing g gs bs with
  | _ n ih =>
    cases n with
    | zero => cases h
    | succ n =>
      rw [WireFormat.skipGroup,Option.bind_eq_some_iff] at h
      obtain ⟨⟨tag,bs'⟩,read,h⟩ := h
      have shorter := readTag_length read
      dsimp only at h
      split_ifs at h with stop same start depth
      · refine ⟨n,bs',Nat.lt_succ_self n,h,shorter,?_⟩
        intro k r fuel ahead
        cases k with
        | zero => omega
        | succ k =>
          obtain ⟨d,next,ahead'⟩ := (nextField_eq ahead read).1 (by omega)
          refine ⟨⟨d,tag / 8,tag % 8⟩,?_,ahead'⟩
          rw [BinaryReader.skipGroup,next]
          simp only [bind,Except.bind,stop,same,if_true]
      · obtain ⟨m,mid,less,inner,short,skips⟩ := ih n (Nat.lt_succ_self n) h
        obtain ⟨m',mid',less',outer,short',skips'⟩ := ih m (by omega) inner
        refine ⟨m',mid',by omega,outer,by omega,?_⟩
        intro k r fuel ahead
        cases k with
        | zero => omega
        | succ k =>
          obtain ⟨d,next,ahead'⟩ := (nextField_eq ahead read).1 (by omega)
          obtain ⟨r1,eq1,ahead1⟩ := skips k ⟨d,tag / 8,tag % 8⟩ (by omega) ahead'
          obtain ⟨r2,eq2,ahead2⟩ := skips' k r1 (by omega) ahead1
          refine ⟨r2,?_,ahead2⟩
          rw [start] at eq1
          rw [BinaryReader.skipGroup,next]
          simp only [bind,Except.bind,start,Nat.reduceEqDiff,if_false,BinaryReader.skipFieldWith,
            eq1]
          exact eq2
      · rw [Option.bind_eq_some_iff] at h
        obtain ⟨bs2,scalar,h⟩ := h
        obtain ⟨used,eq⟩ := skipScalar_used scalar
        have short : bs2.length ≤ bs'.length := by
          rw [eq,List.length_append]
          omega
        obtain ⟨m,mid,less,outer,short',skips⟩ := ih n (Nat.lt_succ_self n) h
        refine ⟨m,mid,by omega,outer,by omega,?_⟩
        intro k r fuel ahead
        cases k with
        | zero => omega
        | succ k =>
          have valid : tag % 8 < 6 := by
            by_contra invalid
            have wire : tag % 8 = 6 ∨ tag % 8 = 7 := by omega
            rcases wire with wire | wire <;> rw [wire] at scalar <;> cases scalar
          obtain ⟨d,next,ahead'⟩ := (nextField_eq ahead read).1 valid
          obtain ⟨d2,ahead2,eq2⟩ := skipScalar_eq (r := ⟨d,tag / 8,tag % 8⟩)
            (BinaryReader.skipGroup k) ahead' scalar
          obtain ⟨r3,eq3,ahead3⟩ := skips k ⟨d2,tag / 8,tag % 8⟩ (by omega) ahead2
          refine ⟨r3,?_,ahead3⟩
          rw [BinaryReader.skipGroup,next]
          simp only [bind,Except.bind,stop,if_false,eq2]
          exact eq3

theorem skipField_eq {tag : ℕ} {bs rest : Bytes} {r : BinaryReader}
    (h : WireFormat.skipField tag bs = some rest) (ahead : Ahead bs r.decoder)
    (number : r.fieldNumber = tag / 8) (wire : r.wireType = tag % 8) {k : ℕ}
    (fuel : bs.length ≤ k) : ∃ r', r.skipField k = .ok r' ∧ Ahead rest r'.decoder := by
  rw [WireFormat.skipField] at h
  split_ifs at h with start
  · obtain ⟨m,mid,_,outer,_,skips⟩ := skipGroup_eq h
    have done : mid = rest := by simpa [WireFormat.skipGroup] using outer
    obtain ⟨r',eq,next⟩ := skips k r fuel ahead
    refine ⟨r',?_,done ▸ next⟩
    rw [BinaryReader.skipField,BinaryReader.skipFieldWith,wire,start,number]
    exact eq
  · rw [←wire] at h
    obtain ⟨d,next,eq⟩ := skipScalar_eq (BinaryReader.skipGroup k) ahead h
    exact ⟨_,eq,next⟩

/-! ### The loop over the fields -/

/-- The two sides hold the same values, but that the client may take a negative number
    for an unsigned one. -/
structure Agrees (msg : WsMsg) (m : WebsocketPipeline.WsMsg) : Prop where
  msgseq : msg.msgseq = m.msgSeq.toInt ∨ msg.msgseq = m.msgSeq.toNat
  msgid : msg.msgid = CodePoints.encode m.msgId.val.toList
  content : msg.content = m.content.bytes

/-- The field is declared, though not with this wire type. -/
def Mismatched (u : UnknownField) : Prop := u.tag / 8 = 1 ∨ u.tag / 8 = 2 ∨ u.tag / 8 = 3

instance (u : UnknownField) : Decidable (Mismatched u) :=
  inferInstanceAs (Decidable (_ ∨ _))

theorem field_eq_some {tag : ℕ} {f : FieldSpec WebsocketPipeline.WsMsg}
    (h : WsMsg.schema.field tag = some f) : f ∈ WsMsg.fields ∧ tag = f.tag :=
  ⟨(Schema.field_mem h).1,(Schema.field_mem h).2.symm⟩

theorem points_of_string {v : ByteString} {s : String} (h : decodeUtf8 v.bytes = some s) :
    v.bytes = ((CodePoints.ofChars s.toList).flatMap CodePoints.utf8).map UInt8.ofNat := by
  rw [CodePoints.utf8_ofChars,←utf8_of_decodeUtf8 h,utf8_eq_encode]
  rfl

theorem readStringRequireUtf8_eq_some {v : Utf8String} {bs rest : Bytes}
    (h : readStringRequireUtf8 bs = some (v,rest)) : ∃ b : ByteString,
      WireFormat.readBytes bs = some (b,rest) ∧ decodeUtf8 b.bytes = some v.val := by
  rw [readStringRequireUtf8,Option.bind_eq_some_iff] at h
  obtain ⟨⟨b,r⟩,read,h⟩ := h
  split at h
  · rename_i s hs
    cases h
    exact ⟨b,read,hs⟩
  · cases h

section Loop
variable {bs rest : Bytes} {p q : Parsed WebsocketPipeline.WsMsg} {msg : WsMsg} {r : BinaryReader}
  {k : ℕ}

/-- A declared field is read to the value that the parser reads. -/
theorem round_declared {tag : ℕ} {bs' : Bytes} {f : FieldSpec WebsocketPipeline.WsMsg}
    {v : f.kind.Val} (ahead : Ahead bs r.decoder) (read : readTag bs = some (tag,bs'))
    (declared : WsMsg.schema.field tag = some f) (value : f.kind.read bs' = some (v,rest))
    {m : WebsocketPipeline.WsMsg} (agrees : Agrees msg m) : ∃ msg' r',
      deserializeBinaryFromReader (k + 1) msg r = deserializeBinaryFromReader k msg' r' ∧
      Ahead rest r'.decoder ∧ Agrees msg' (f.set m v) := by
  obtain ⟨mem,rfl⟩ := field_eq_some declared
  simp only [WsMsg.fields,List.mem_cons,List.not_mem_nil,or_false] at mem
  rcases mem with rfl | rfl | rfl
  · obtain ⟨d,next,ahead'⟩ := (nextField_eq ahead read).1 (by decide)
    obtain ⟨⟨n,bs2⟩,varint,eq⟩ := Option.map_eq_some_iff.mp value
    cases eq
    obtain ⟨d2,ahead2,eq2⟩ := readInt32_eq (r := ⟨d,1,0⟩) ahead' rfl varint
    refine ⟨{ msg with msgseq := varintValue (bs'.length - bs2.length) n },⟨d2,1,0⟩,?_,ahead2,?_⟩
    · rw [deserializeBinaryFromReader,next]
      change Except.bind (BinaryReader.readInt32 ⟨d,1,0⟩) _ = _
      rw [eq2]
      rfl
    · exact ⟨varintValue_cases _ n,agrees.msgid,agrees.content⟩
  · obtain ⟨d,next,ahead'⟩ := (nextField_eq ahead read).1 (by decide)
    obtain ⟨b,bytes,decoded⟩ := readStringRequireUtf8_eq_some value
    have bound : ∀ p ∈ CodePoints.ofChars v.val.toList, p < 0x110000 :=
      fun p mem => (CodePoints.ofChars_plain p mem).2
    obtain ⟨d2,ahead2,eq2⟩ := readString_eq (r := ⟨d,2,2⟩) bound ahead' rfl bytes
      (points_of_string decoded)
    refine ⟨{ msg with msgid := CodePoints.encode v.val.toList },⟨d2,2,2⟩,?_,ahead2,?_⟩
    · rw [deserializeBinaryFromReader,next]
      change Except.bind (BinaryReader.readString ⟨d,2,2⟩) _ = _
      rw [eq2]
      rfl
    · exact ⟨agrees.msgseq,rfl,agrees.content⟩
  · obtain ⟨d,next,ahead'⟩ := (nextField_eq ahead read).1 (by decide)
    obtain ⟨d2,ahead2,eq2⟩ := readBytes_eq (r := ⟨d,3,2⟩) ahead' rfl value
    refine ⟨{ msg with content := v.bytes },⟨d2,3,2⟩,?_,ahead2,?_⟩
    · rw [deserializeBinaryFromReader,next]
      change Except.bind (BinaryReader.readBytes ⟨d,3,2⟩) _ = _
      rw [eq2]
      rfl
    · exact ⟨agrees.msgseq,agrees.msgid,rfl⟩

theorem undeclared {tag : ℕ} (h : WsMsg.schema.field tag = none) :
    tag ≠ 8 ∧ tag ≠ 18 ∧ tag ≠ 26 := by
  refine ⟨?_,?_,?_⟩ <;>
  · rintro rfl
    cases h

theorem skipped_wire {tag : ℕ} (h : WireFormat.skipField tag bs = some rest) :
    tag % 8 < 6 ∧ tag % 8 ≠ 4 := by
  rw [WireFormat.skipField] at h
  split_ifs at h with start
  · omega
  · constructor
    · by_contra invalid
      have wire : tag % 8 = 6 ∨ tag % 8 = 7 := by omega
      rcases wire with wire | wire <;> rw [wire] at h <;> cases h
    · intro wire
      rw [wire] at h
      cases h

/-- A field of an unknown number is skipped on both sides. -/
theorem round_skipped (msg : WsMsg) {tag : ℕ} {bs' : Bytes} (ahead : Ahead bs r.decoder)
    (read : readTag bs = some (tag,bs')) (skip : WireFormat.skipField tag bs' = some rest)
    (other : ¬(tag / 8 = 1 ∨ tag / 8 = 2 ∨ tag / 8 = 3)) (fuel : bs'.length ≤ k) : ∃ r',
      deserializeBinaryFromReader (k + 1) msg r = deserializeBinaryFromReader k msg r' ∧
      Ahead rest r'.decoder := by
  obtain ⟨valid,noEnd⟩ := skipped_wire skip
  obtain ⟨d,next,ahead'⟩ := (nextField_eq ahead read).1 valid
  obtain ⟨r',eq,ahead2⟩ := skipField_eq (r := ⟨d,tag / 8,tag % 8⟩) skip ahead' rfl rfl fuel
  refine ⟨r',?_,ahead2⟩
  rw [deserializeBinaryFromReader,next]
  simp only [bind,Except.bind,noEnd,if_false]
  split
  · exact absurd (.inl ‹_›) other
  · exact absurd (.inr (.inl ‹_›)) other
  · exact absurd (.inr (.inr ‹_›)) other
  · rw [eq]

/-- A declared field of another wire type fails the assertion. -/
theorem round_mismatched {tag : ℕ} {bs' : Bytes} (ahead : Ahead bs r.decoder)
    (read : readTag bs = some (tag,bs')) (field : WsMsg.schema.field tag = none)
    (skip : WireFormat.skipField tag bs' = some rest)
    (mismatched : tag / 8 = 1 ∨ tag / 8 = 2 ∨ tag / 8 = 3) :
    deserializeBinaryFromReader (k + 1) msg r = .error .assertion := by
  obtain ⟨valid,noEnd⟩ := skipped_wire skip
  obtain ⟨no8,no18,no26⟩ := undeclared field
  obtain ⟨d,next,_⟩ := (nextField_eq ahead read).1 valid
  rw [deserializeBinaryFromReader,next]
  simp only [bind,Except.bind,noEnd,if_false]
  rcases mismatched with number | number | number
  · have wire : ¬tag % 8 = 0 := by omega
    simp only [number,BinaryReader.readInt32,BinaryReader.expect,wire,if_false,bind,Except.bind]
  · have wire : ¬tag % 8 = 2 := by omega
    simp only [number,BinaryReader.readString,BinaryReader.expect,wire,if_false,bind,Except.bind]
  · have wire : ¬tag % 8 = 2 := by omega
    simp only [number,BinaryReader.readBytes,BinaryReader.expect,wire,if_false,bind,Except.bind]

theorem round_end (ahead : Ahead [] r.decoder) (fuel : 0 < k) :
    deserializeBinaryFromReader k msg r = .ok msg := by
  cases k with
  | zero => exact absurd fuel (Nat.lt_irrefl 0)
  | succ k =>
    rw [deserializeBinaryFromReader,nextField_end ahead]
    rfl

/-- The loop is where it reads `bs` next, with the values of `m`. -/
def Continues (k : ℕ) (msg : WsMsg) (r : BinaryReader) (bs : Bytes) (m : WebsocketPipeline.WsMsg) :
    Prop :=
  ∃ k' msg' r', bs.length < k' ∧ Ahead bs r'.decoder ∧ Agrees msg' m ∧
    deserializeBinaryFromReader k msg r = deserializeBinaryFromReader k' msg' r'

/-- The induction is on the parser's rounds; the client's loop has a round for each. -/
theorem loop_agrees {n : ℕ} (tail : Bytes) (h : WsMsg.schema.parseLoop n p bs = some q)
    (ahead : Ahead (bs ++ tail) r.decoder) (fuel : (bs ++ tail).length < k)
    (agrees : Agrees msg p.message) : ∃ more, q.unknownFields = p.unknownFields ++ more ∧
      ((∀ u ∈ more, ¬Mismatched u) → Continues k msg r tail q.message) ∧
      ((∃ u ∈ more, Mismatched u) →
        deserializeBinaryFromReader k msg r = .error .assertion) := by
  induction n generalizing p bs msg r k with
  | zero =>
    cases bs with
    | nil =>
      cases h
      refine ⟨[],(List.append_nil _).symm,fun _ => ⟨k,msg,r,fuel,ahead,agrees,rfl⟩,?_⟩
      rintro ⟨u,mem,_⟩
      exact absurd mem List.not_mem_nil
    | cons b bs => cases h
  | succ n ih =>
    cases bs with
    | nil =>
      cases h
      refine ⟨[],(List.append_nil _).symm,fun _ => ⟨k,msg,r,fuel,ahead,agrees,rfl⟩,?_⟩
      rintro ⟨u,mem,_⟩
      exact absurd mem List.not_mem_nil
    | cons b bs =>
      obtain ⟨k,rfl⟩ := Nat.exists_eq_succ_of_ne_zero (Nat.ne_of_gt (Nat.zero_lt_of_lt fuel))
      rw [Schema.parseLoop,Option.bind_eq_some_iff] at h
      obtain ⟨⟨p',rest⟩,field,h⟩ := h
      rw [Schema.parseField,Option.bind_eq_some_iff] at field
      obtain ⟨⟨tag,bs'⟩,read,field⟩ := field
      have shorter := readTag_length read
      have read := readTag_extend tail read
      rw [List.length_append] at fuel
      dsimp only at field h
      cases declared : WsMsg.schema.field tag with
      | some f =>
        simp only [declared,Option.map_eq_some_iff,Prod.mk.injEq,Prod.exists] at field
        obtain ⟨v,rest,value,rfl,rfl⟩ := field
        obtain ⟨used,split⟩ := Kind.read_used value
        have short : rest.length ≤ bs'.length := by
          rw [split,List.length_append]
          omega
        obtain ⟨msg',r',round,ahead',agrees'⟩ := round_declared (k := k) ahead read declared
          (Kind.read_extend tail value) agrees
        have later := ih (k := k) h ahead' (by rw [List.length_append]; omega) agrees'
        rw [Continues,round]
        exact later
      | none =>
        simp only [declared,Option.map_eq_some_iff,Prod.mk.injEq] at field
        obtain ⟨rest,skip,rfl,rfl⟩ := field
        obtain ⟨used,split⟩ := skipField_used skip
        have short : rest.length ≤ bs'.length := by
          rw [split,List.length_append]
          omega
        have skip := skipField_extend tail skip
        by_cases mismatched : tag / 8 = 1 ∨ tag / 8 = 2 ∨ tag / 8 = 3
        · obtain ⟨more,unknown,_⟩ := ih h (r := ⟨⟨rest ++ tail,0⟩,0,0⟩) (Ahead.start _)
            (Nat.lt_succ_self _) agrees
          refine ⟨_ :: more,by rw [unknown,List.append_assoc]; rfl,?_,?_⟩
          · intro none
            exact absurd mismatched (none _ List.mem_cons_self)
          · intro _
            exact round_mismatched ahead read declared skip mismatched
        · obtain ⟨r',round,ahead'⟩ := round_skipped msg (k := k) ahead read skip mismatched
            (by rw [List.length_append]; omega)
          obtain ⟨more,unknown,good,bad⟩ := ih (k := k) h ahead'
            (by rw [List.length_append]; omega) agrees
          rw [Continues,round]
          refine ⟨_ :: more,by rw [unknown,List.append_assoc]; rfl,?_,?_⟩
          · intro none
            exact good (List.forall_mem_cons.mp none).2
          · rintro ⟨u,mem,mis⟩
            rcases List.mem_cons.mp mem with rfl | mem
            · exact absurd mis mismatched
            · exact bad ⟨u,mem,mis⟩

/-- What the client does with a buffer that the server parses, and bytes behind it. -/
theorem parsed_agrees (tail : Bytes) (h : WsMsg.schema.parseFrom bs = some q) {fuel : ℕ}
    (enough : (bs ++ tail).length < fuel) :
    ((∀ u ∈ q.unknownFields, ¬Mismatched u) →
      Continues fuel ⟨0,[],[]⟩ ⟨⟨bs ++ tail,0⟩,0,0⟩ tail q.message) ∧
    ((∃ u ∈ q.unknownFields, Mismatched u) →
      deserializeBinary fuel (bs ++ tail) = .error .assertion) := by
  obtain ⟨more,unknown,good,bad⟩ := loop_agrees tail (r := ⟨⟨bs ++ tail,0⟩,0,0⟩) h
    (Ahead.start _) enough (⟨.inl rfl,rfl,rfl⟩ : Agrees ⟨0,[],[]⟩ WsMsg.schema.defaultInstance)
  rw [List.nil_append] at unknown
  rw [unknown]
  exact ⟨good,bad⟩

end Loop

/-- Whatever the server parses, the client reads to the same message, exactly unless the
    server has kept a field of a declared number as unknown; then the client throws. -/
theorem client_reads_as_server {bs : Bytes} {q : Parsed WebsocketPipeline.WsMsg}
    (h : WsMsg.schema.parseFrom bs = some q) {fuel : ℕ} (enough : bs.length < fuel) :
    ((∃ msg, deserializeBinary fuel bs = .ok msg) ↔ ∀ u ∈ q.unknownFields, ¬Mismatched u) ∧
    (∀ msg, deserializeBinary fuel bs = .ok msg → Agrees msg q.message) ∧
    ((∃ u ∈ q.unknownFields, Mismatched u) → deserializeBinary fuel bs = .error .assertion) := by
  have rounds : (bs ++ []).length < fuel := by rwa [List.append_nil]
  obtain ⟨good,bad⟩ := parsed_agrees [] h rounds
  rw [List.append_nil] at good bad
  by_cases plain : ∀ u ∈ q.unknownFields, ¬Mismatched u
  · obtain ⟨k,msg,r,more,ahead,agrees,eq⟩ := good plain
    rw [round_end ahead (Nat.zero_lt_of_lt more)] at eq
    refine ⟨⟨fun _ => plain,fun _ => ⟨msg,eq⟩⟩,?_,bad⟩
    intro msg' eq'
    rw [deserializeBinary,eq] at eq'
    cases eq'
    exact agrees
  · have throws : deserializeBinary fuel bs = .error .assertion := by
      apply bad
      by_contra none
      exact plain (fun u mem mismatched => none ⟨u,mem,mismatched⟩)
    rw [throws]
    refine ⟨⟨?_,fun all => absurd all plain⟩,?_,fun _ => rfl⟩
    · rintro ⟨msg,eq⟩
      cases eq
    · intro msg eq
      cases eq

/-- The number as four bytes. -/
def fixedNumber : Bytes := [13,1,1,1,1]

theorem fixed_number_throws :
    WsMsg.schema.parseFrom fixedNumber =
        some ⟨⟨0,Utf8String.empty,ByteString.empty⟩,[⟨13,[1,1,1,1]⟩]⟩ ∧
      deserializeBinary 6 fixedNumber = .error .assertion := by
  have parsed : WsMsg.schema.parseFrom fixedNumber =
      some ⟨⟨0,Utf8String.empty,ByteString.empty⟩,[⟨13,[1,1,1,1]⟩]⟩ := by decide
  have read := client_reads_as_server parsed (by decide : fixedNumber.length < 6)
  exact ⟨parsed,read.2.2 ⟨_,List.mem_singleton.mpr rfl,by decide⟩⟩

/-! ### Written messages -/

/-- The loop at `bs` with `msg` goes on as the one at `bs'` with `msg'`. -/
def Reaches (bs : Bytes) (msg : WsMsg) (bs' : Bytes) (msg' : WsMsg) : Prop :=
  ∀ k r, bs.length < k → Ahead bs r.decoder → ∃ k' r', bs'.length < k' ∧ Ahead bs' r'.decoder ∧
    deserializeBinaryFromReader k msg r = deserializeBinaryFromReader k' msg' r'

section Written
variable {bs bs' bs'' rest : Bytes} {msg msg' msg'' : WsMsg}

theorem Reaches.refl (bs : Bytes) (msg : WsMsg) : Reaches bs msg bs msg :=
  fun k r fuel ahead => ⟨k,r,fuel,ahead,rfl⟩

theorem Reaches.trans (h : Reaches bs msg bs' msg') (h' : Reaches bs' msg' bs'' msg'') :
    Reaches bs msg bs'' msg'' := by
  intro k r fuel ahead
  obtain ⟨k1,r1,fuel1,ahead1,eq1⟩ := h k r fuel ahead
  obtain ⟨k2,r2,fuel2,ahead2,eq2⟩ := h' k1 r1 fuel1 ahead1
  exact ⟨k2,r2,fuel2,ahead2,eq1.trans eq2⟩

theorem Reaches.read (h : Reaches bs ⟨0,[],[]⟩ [] msg) {fuel : ℕ} (enough : bs.length < fuel) :
    deserializeBinary fuel bs = .ok msg := by
  obtain ⟨k,r,fuel',ahead,eq⟩ := h fuel ⟨⟨bs,0⟩,0,0⟩ enough (Ahead.start bs)
  rw [deserializeBinary,eq]
  exact round_end ahead fuel'

/-- A negative number takes ten bytes, so that its sign is read. -/
theorem varintValue_writeInt32 (v : BitVec 32) :
    varintValue (WireFormat.writeInt32 v).length (v.signExtend 64).toNat = v.toInt := by
  have extended : (v.signExtend 64).toInt = v.toInt := BitVec.toInt_signExtend_of_le (by decide)
  have word : BitVec.ofNat 32 (v.signExtend 64).toNat = v := by
    have read := readInt32_write v []
    rw [WireFormat.readInt32,WireFormat.writeInt32,readVarint_writeVarint 9 _ _
      ((v.signExtend 64).isLt.trans (by decide))] at read
    simpa using read
  have lower := BitVec.le_toInt v
  have upper := BitVec.toInt_lt (x := v)
  have cond := BitVec.toInt_eq_toNat_cond (v.signExtend 64)
  rw [extended] at cond
  split_ifs at cond with positive
  · rw [varintValue_small _ (by omega)]
    omega
  · have length := writeVarint_length_of_le 9 (v.signExtend 64).toNat (by omega)
    rw [WireFormat.writeInt32,length,varintValue,if_neg (by decide),word]

/-- A field that is read in one round. -/
theorem Reaches.of_round {tag : ℕ} {body : Bytes} (pos : 8 ≤ tag) (lt : tag < 128)
    (valid : tag % 8 < 6) (short : rest.length ≤ body.length)
    (round : ∀ k r d, r.nextField = .ok (some ⟨d,tag / 8,tag % 8⟩) → Ahead body d → ∃ r',
      Ahead rest r'.decoder ∧
        deserializeBinaryFromReader (k + 1) msg r = deserializeBinaryFromReader k msg' r') :
    Reaches (writeTag tag ++ body) msg rest msg' := by
  intro k r fuel ahead
  cases k with
  | zero => exact absurd fuel (Nat.not_lt_zero _)
  | succ k =>
    have read := readTag_write body pos lt
    have shorter := readTag_length read
    obtain ⟨d,next,ahead'⟩ := (nextField_eq ahead read).1 valid
    obtain ⟨r',ahead2,eq⟩ := round k r d next ahead'
    exact ⟨k,r',by omega,ahead2,eq⟩

theorem reaches_number (v : BitVec 32) : Reaches
    (writeTag 8 ++ (WireFormat.writeInt32 v ++ rest)) msg rest { msg with msgseq := v.toInt } := by
  have short : rest.length ≤ (WireFormat.writeInt32 v ++ rest).length := by
    rw [List.length_append]
    omega
  refine .of_round (by decide) (by decide) (by decide) short ?_
  intro k r d next ahead
  have varint : readVarint 10 (WireFormat.writeInt32 v ++ rest) = _ :=
    readVarint_writeVarint 9 (v.signExtend 64).toNat rest
      ((v.signExtend 64).isLt.trans (by decide))
  obtain ⟨d2,ahead2,eq2⟩ := readInt32_eq (r := ⟨d,1,0⟩) ahead rfl varint
  rw [List.length_append,Nat.add_sub_cancel,varintValue_writeInt32] at eq2
  refine ⟨⟨d2,1,0⟩,ahead2,?_⟩
  rw [deserializeBinaryFromReader,next]
  change Except.bind (BinaryReader.readInt32 ⟨d,1,0⟩) _ = _
  rw [eq2]
  rfl

theorem reaches_id {bytes : Bytes} {ps : List ℕ} (bound : ∀ p ∈ ps, p < 0x110000)
    (size : bytes.length < 2 ^ 31) (points : bytes = (ps.flatMap CodePoints.utf8).map UInt8.ofNat) :
    Reaches (delimited 18 bytes ++ rest) msg rest
      { msg with msgid := ps.flatMap CodePoints.utf16 } := by
  have short : rest.length ≤ (WireFormat.writeBytes ⟨bytes,size⟩ ++ rest).length := by
    rw [List.length_append]
    omega
  rw [delimited,List.append_assoc]
  refine .of_round (by decide) (by decide) (by decide) short ?_
  intro k r d next ahead
  obtain ⟨d2,ahead2,eq2⟩ := readString_eq (r := ⟨d,2,2⟩) bound ahead rfl
    (readBytes_write ⟨bytes,size⟩ rest) points
  refine ⟨⟨d2,2,2⟩,ahead2,?_⟩
  rw [deserializeBinaryFromReader,next]
  change Except.bind (BinaryReader.readString ⟨d,2,2⟩) _ = _
  rw [eq2]
  rfl

theorem reaches_content {bytes : Bytes} (size : bytes.length < 2 ^ 31) :
    Reaches (delimited 26 bytes ++ rest) msg rest { msg with content := bytes } := by
  have short : rest.length ≤ (WireFormat.writeBytes ⟨bytes,size⟩ ++ rest).length := by
    rw [List.length_append]
    omega
  rw [delimited,List.append_assoc]
  refine .of_round (by decide) (by decide) (by decide) short ?_
  intro k r d next ahead
  obtain ⟨d2,ahead2,eq2⟩ := readBytes_eq (r := ⟨d,3,2⟩) ahead rfl
    (readBytes_write ⟨bytes,size⟩ rest)
  refine ⟨⟨d2,3,2⟩,ahead2,?_⟩
  rw [deserializeBinaryFromReader,next]
  change Except.bind (BinaryReader.readBytes ⟨d,3,2⟩) _ = _
  rw [eq2]
  rfl

/-- What either side writes, with the fields left out that hold their default. -/
theorem reaches_written (v : BitVec 32) {ps : List ℕ} (bound : ∀ p ∈ ps, p < 0x110000)
    {idBytes content : Bytes} (idSize : idBytes.length < 2 ^ 31) (size : content.length < 2 ^ 31)
    (points : idBytes = (ps.flatMap CodePoints.utf8).map UInt8.ofNat) : Reaches
      ((if v = 0 then [] else writeTag 8 ++ WireFormat.writeInt32 v) ++
        ((if ps = [] then [] else delimited 18 idBytes) ++
          if content = [] then [] else delimited 26 content))
      ⟨0,[],[]⟩ [] ⟨v.toInt,ps.flatMap CodePoints.utf16,content⟩ := by
  have number (rest : Bytes) : Reaches
      ((if v = 0 then [] else writeTag 8 ++ WireFormat.writeInt32 v) ++ rest) ⟨0,[],[]⟩ rest
      ⟨v.toInt,[],[]⟩ := by
    split_ifs with zero
    · rw [zero]
      exact .refl _ _
    · rw [List.append_assoc]
      exact reaches_number v
  have id (rest : Bytes) : Reaches ((if ps = [] then [] else delimited 18 idBytes) ++ rest)
      ⟨v.toInt,[],[]⟩ rest ⟨v.toInt,ps.flatMap CodePoints.utf16,[]⟩ := by
    by_cases none : ps = []
    · rw [if_pos none,none]
      exact .refl _ _
    · rw [if_neg none]
      exact reaches_id bound idSize points
  have last : Reaches (if content = [] then [] else delimited 26 content)
      ⟨v.toInt,ps.flatMap CodePoints.utf16,[]⟩ []
      ⟨v.toInt,ps.flatMap CodePoints.utf16,content⟩ := by
    by_cases none : content = []
    · rw [if_pos none,none]
      exact .refl _ _
    · have last : Reaches (delimited 26 content ++ []) ⟨v.toInt,ps.flatMap CodePoints.utf16,[]⟩ []
          ⟨v.toInt,ps.flatMap CodePoints.utf16,content⟩ := reaches_content size
      rw [List.append_nil] at last
      rw [if_neg none]
      exact last
  exact (number _).trans ((id _).trans last)

end Written

/-- The server's message as the client holds it. -/
def ofServer (m : WebsocketPipeline.WsMsg) : WsMsg :=
  ⟨m.msgSeq.toInt,CodePoints.encode m.msgId.val.toList,m.content.bytes⟩

theorem reaches_server (m : WebsocketPipeline.WsMsg) :
    Reaches (WsMsg.schema.writeTo m) ⟨0,[],[]⟩ [] (ofServer m) := by
  have bound : ∀ p ∈ CodePoints.ofChars m.msgId.val.toList, p < 0x110000 :=
    fun p mem => (CodePoints.ofChars_plain p mem).2
  have points := points_of_string (v := ⟨utf8 m.msgId.val,m.msgId.size_lt⟩)
    (decodeUtf8_utf8 m.msgId.val)
  have reaches := reaches_written m.msgSeq bound m.msgId.size_lt m.content.size_lt points
  rw [writeTo_fields,List.append_nil]
  simp only [msgId_empty_iff,content_empty_iff]
  exact reaches

theorem reaches_client {message : WsMsg} (fits : message.Fits) :
    Reaches message.encoded ⟨0,[],[]⟩ [] { message with
      msgid := (kept (CodePoints.ofUtf16 message.msgid)).flatMap CodePoints.utf16 } := by
  have value : (BitVec.ofInt 32 message.msgseq).toInt = message.msgseq :=
    BitVec.toInt_ofInt_eq_self (by decide) fits.lower fits.upper
  have reaches := reaches_written (BitVec.ofInt 32 message.msgseq) kept_lt fits.id_lt
    fits.content_lt rfl
  rw [value] at reaches
  rw [WsMsg.encoded]
  simp only [msgSeq_zero_iff fits,kept_eq_nil_iff] at reaches
  simp only [List.length_pos_iff,ne_eq,ite_not]
  exact reaches

theorem kept_eq_iff (ps : List ℕ) : kept ps = ps ↔ ∀ p ∈ ps.dropLast, ¬CodePoints.High p := by
  fun_induction kept ps with
  | case1 => simp
  | case2 p => simp
  | case3 p q ps high ih =>
    constructor
    · intro h
      have shorter := (kept_sublist (q :: ps)).length_le
      rw [h,List.length_cons] at shorter
      exact absurd shorter (Nat.not_succ_le_self _)
    · intro h
      exact absurd high (h p List.mem_cons_self)
  | case4 p q ps high ih =>
    rw [List.cons_inj_right,ih,List.dropLast_cons_cons,List.forall_mem_cons]
    exact ⟨fun h => ⟨high,h⟩,fun h => h.2⟩

theorem utf16_ne_nil (p : ℕ) : CodePoints.utf16 p ≠ [] := by
  unfold CodePoints.utf16
  split_ifs <;> exact List.cons_ne_nil _ _

/-- Code points that are left out are missing among the units. -/
theorem eq_of_utf16_length {xs ys : List ℕ} (h : xs.Sublist ys)
    (length : (ys.flatMap CodePoints.utf16).length ≤ (xs.flatMap CodePoints.utf16).length) :
    xs = ys := by
  induction h with
  | slnil => rfl
  | @cons xs ys p h ih =>
    have shorter := (h.flatMap CodePoints.utf16).length_le
    have units := List.length_pos_iff.mpr (utf16_ne_nil p)
    rw [List.flatMap_cons,List.length_append] at length
    omega
  | @cons_cons xs ys p h ih =>
    rw [List.flatMap_cons,List.flatMap_cons,List.length_append,List.length_append] at length
    rw [ih (by omega)]

theorem kept_units_iff (us : List UInt16) :
    (kept (CodePoints.ofUtf16 us)).flatMap CodePoints.utf16 = us ↔
      ∀ p ∈ (CodePoints.ofUtf16 us).dropLast, ¬CodePoints.High p := by
  rw [←kept_eq_iff]
  constructor
  · intro h
    refine eq_of_utf16_length (kept_sublist _) ?_
    rw [h,CodePoints.utf16_ofUtf16]
  · intro h
    rw [h,CodePoints.utf16_ofUtf16]

/-- The client reads what the server writes as it was, and what a client writes but for the
    high surrogates that the writer leaves out. -/
theorem written_read_back (m : WebsocketPipeline.WsMsg) (message : WsMsg) (fits : message.Fits) :
    (∀ fuel, (WsMsg.schema.writeTo m).length < fuel →
      deserializeBinary fuel (WsMsg.schema.writeTo m) = .ok (ofServer m)) ∧
    ∃ payload, message.serializeBinary = some payload ∧ ∀ fuel, payload.length < fuel →
      (deserializeBinary fuel payload = .ok { message with
        msgid := (kept (CodePoints.ofUtf16 message.msgid)).flatMap CodePoints.utf16 }) ∧
      (deserializeBinary fuel payload = .ok message ↔
        ∀ p ∈ (CodePoints.ofUtf16 message.msgid).dropLast, ¬CodePoints.High p) := by
  refine ⟨fun fuel enough => (reaches_server m).read enough,message.encoded,
    serializeBinary_eq fits,?_⟩
  intro fuel enough
  have read := (reaches_client fits).read enough
  refine ⟨read,?_⟩
  rw [read,←kept_units_iff]
  constructor
  · intro h
    exact congrArg WsMsg.msgid (Except.ok.inj h)
  · intro h
    rw [h]

/-- A low surrogate at the end, which the server rejects. -/
def loneSurrogate : WsMsg := ⟨-5,[0xd83d,0xde00,0xdc00],[1]⟩

theorem lone_surrogate_read_back : ∃ payload, loneSurrogate.serializeBinary = some payload ∧
    ∀ fuel, payload.length < fuel → deserializeBinary fuel payload = .ok loneSurrogate := by
  have fits : loneSurrogate.Fits := by constructor <;> decide
  obtain ⟨_,payload,eq,read⟩ := written_read_back letterOnly loneSurrogate fits
  exact ⟨payload,eq,fun fuel enough => (read fuel enough).2.mpr (by decide)⟩

end SeeU.Jspb
