import SeeU.BinaryWriter
import SeeU.WebsocketCharset

set_option autoImplicit false

/-!
# Messages from the client to the access server

The client writes a `wsMsg` whose `msgid` may be any sequence of 16-bit units, and the
server's parser requires UTF-8. A high surrogate that another code point follows is left
out, a surrogate that is written makes the server close the connection.
-/
namespace WireFormat

theorem Schema.parseField_none {σ : Type} {S : Schema σ} {f : FieldSpec σ} (h : f ∈ S.fields)
    (p : Parsed σ) {bs : Bytes} (bad : f.kind.read bs = none) :
    S.parseField p (writeTag f.tag ++ bs) = none := by
  have bounds := f.tag_bounds (S.number_pos f h) (S.number_lt f h)
  rw [Schema.parseField,readTag_write _ bounds.1 bounds.2,Option.bind_some]
  simp only [S.field_of_mem h,bad,Option.map_none]

theorem Schema.parseLoop_none {σ : Type} {S : Schema σ} {f : FieldSpec σ} (h : f ∈ S.fields)
    (n : ℕ) (p : Parsed σ) {bs : Bytes} (bad : f.kind.read bs = none) :
    S.parseLoop n p (writeTag f.tag ++ bs) = none := by
  have bounds := f.tag_bounds (S.number_pos f h) (S.number_lt f h)
  have step := S.parseField_none h p bad
  rw [writeTag_eq bounds.2,List.singleton_append] at step ⊢
  cases n with
  | zero => rfl
  | succ n => rw [Schema.parseLoop,step,Option.bind_none]

end WireFormat

namespace SeeU.Jspb
open WireFormat WebsocketPipeline

/-- What the server is to make of the client's message. -/
structure Carries (message : WsMsg) (m : WebsocketPipeline.WsMsg) : Prop where
  msgSeq : m.msgSeq = BitVec.ofInt 32 message.msgseq
  msgId : CodePoints.ofChars m.msgId.val.toList = kept (CodePoints.ofUtf16 message.msgid)
  content : m.content.bytes = message.content

variable {message : WsMsg}

theorem kept_lt : ∀ p ∈ kept (CodePoints.ofUtf16 message.msgid), p < 0x110000 :=
  fun p mem => CodePoints.ofUtf16_bound p ((kept_sublist _).subset mem)

theorem idBytes_eq_utf8_iff (s : String) : message.idBytes = utf8 s ↔
    CodePoints.ofChars s.toList = kept (CodePoints.ofUtf16 message.msgid) := by
  rw [utf8_eq_encode,eq_comm (a := CodePoints.ofChars _)]
  exact CodePoints.utf8_eq_encodeChars_iff kept_lt s.toList

theorem kept_eq_nil_iff : kept (CodePoints.ofUtf16 message.msgid) = [] ↔ message.msgid = [] := by
  constructor
  · intro h
    by_contra ne
    obtain ⟨u,us,eq⟩ := List.exists_cons_of_ne_nil ne
    rw [eq] at h
    exact kept_ne_nil (ofUtf16_ne_nil u us) h
  · intro h
    rw [h]
    rfl

theorem writeTo_fields (m : WebsocketPipeline.WsMsg) : WsMsg.schema.writeTo m =
    (if m.msgSeq = 0 then [] else writeTag 8 ++ WireFormat.writeInt32 m.msgSeq) ++
    ((if m.msgId = Utf8String.empty then [] else delimited 18 (utf8 m.msgId.val)) ++
      ((if m.content = ByteString.empty then [] else delimited 26 m.content.bytes) ++ [])) := rfl

theorem msgId_empty_iff (v : Utf8String) :
    v = Utf8String.empty ↔ CodePoints.ofChars v.val.toList = [] := by
  constructor
  · intro h
    rw [h]
    rfl
  · intro h
    have none : v.val.toList = [] := List.map_eq_nil_iff.mp h
    obtain ⟨val,size⟩ := v
    obtain rfl : val = "" := String.toList_inj.mp none
    rfl

theorem content_empty_iff (v : ByteString) : v = ByteString.empty ↔ v.bytes = [] := by
  constructor
  · intro h
    rw [h]
    rfl
  · intro h
    obtain ⟨bytes,size⟩ := v
    obtain rfl : bytes = [] := h
    rfl

theorem msgSeq_zero_iff (fits : message.Fits) :
    BitVec.ofInt 32 message.msgseq = 0 ↔ message.msgseq = 0 := by
  have value : (BitVec.ofInt 32 message.msgseq).toInt = message.msgseq :=
    BitVec.toInt_ofInt_eq_self (by decide) fits.lower fits.upper
  constructor
  · intro h
    rw [←value,h]
    rfl
  · intro h
    rw [h]
    rfl

/-- Both sides leave out the same fields and write the others alike. -/
theorem Carries.encoded {m : WebsocketPipeline.WsMsg} (fits : message.Fits)
    (carries : Carries message m) : message.encoded = WsMsg.schema.writeTo m := by
  have bytes : message.idBytes = utf8 m.msgId.val := (idBytes_eq_utf8_iff _).mpr carries.msgId
  have noId : m.msgId = Utf8String.empty ↔ ¬0 < message.msgid.length := by
    rw [msgId_empty_iff,carries.msgId,kept_eq_nil_iff,Nat.not_lt,Nat.le_zero,
      List.length_eq_zero_iff]
  have noContent : m.content = ByteString.empty ↔ ¬0 < message.content.length := by
    rw [content_empty_iff,carries.content,Nat.not_lt,Nat.le_zero,List.length_eq_zero_iff]
  rw [writeTo_fields,List.append_nil,WsMsg.encoded,bytes]
  simp only [carries.msgSeq,msgSeq_zero_iff fits,noId,noContent,carries.content,ite_not,ne_eq]

/-- The message that the server makes if every code point that is written is a character. -/
theorem exists_carried (fits : message.Fits)
    (plain : ∀ p ∈ kept (CodePoints.ofUtf16 message.msgid), ¬CodePoints.Surrogate p) :
    ∃ m, Carries message m := by
  obtain ⟨cs,eq⟩ := CodePoints.exists_chars (fun p mem => ⟨plain p mem,kept_lt p mem⟩)
  have chars : CodePoints.ofChars (String.ofList cs).toList =
      kept (CodePoints.ofUtf16 message.msgid) := by rw [String.toList_ofList,eq]
  have bytes := (idBytes_eq_utf8_iff _).mpr chars
  have size : (utf8 (String.ofList cs)).length < 2 ^ 31 := bytes ▸ fits.id_lt
  exact ⟨⟨BitVec.ofInt 32 message.msgseq,⟨String.ofList cs,size⟩,⟨message.content,fits.content_lt⟩⟩,
    rfl,chars,rfl⟩

theorem Carries.unique {m m' : WebsocketPipeline.WsMsg} (h : Carries message m)
    (h' : Carries message m') : m = m' := by
  obtain ⟨seq,⟨id,idSize⟩,⟨content,size⟩⟩ := m
  obtain ⟨seq',⟨id',idSize'⟩,⟨content',size'⟩⟩ := m'
  obtain rfl : seq = seq' := h.msgSeq.trans h'.msgSeq.symm
  obtain rfl : id = id' := String.toList_inj.mp
    (CodePoints.ofChars_injective (h.msgId.trans h'.msgId.symm))
  obtain rfl : content = content' := h.content.trans h'.content.symm
  rfl

/-- The bytes of a surrogate are no UTF-8. -/
theorem decodeUtf8_idBytes {p : ℕ} (mem : p ∈ kept (CodePoints.ofUtf16 message.msgid))
    (surrogate : CodePoints.Surrogate p) : decodeUtf8 message.idBytes = none := by
  cases eq : decodeUtf8 message.idBytes with
  | none => rfl
  | some s =>
    have chars := (idBytes_eq_utf8_iff s).mp (utf8_of_decodeUtf8 eq).symm
    rw [←chars] at mem
    exact absurd surrogate (CodePoints.ofChars_plain p mem).1

theorem readString_none {bs rest : Bytes} (size : bs.length < 2 ^ 31)
    (bad : decodeUtf8 bs = none) :
    readStringRequireUtf8 (writeVarint 10 bs.length ++ bs ++ rest) = none := by
  have read := readBytes_write ⟨bs,size⟩ rest
  rw [WireFormat.writeBytes] at read
  rw [readStringRequireUtf8,read,Option.bind_some]
  split
  · rename_i s hs
    rw [bad] at hs
    cases hs
  · rfl

/-- The number has been read when the parser meets the surrogate. -/
theorem parseFrom_surrogate (fits : message.Fits) {p : ℕ}
    (mem : p ∈ kept (CodePoints.ofUtf16 message.msgid)) (surrogate : CodePoints.Surrogate p) :
    WsMsg.schema.parseFrom message.encoded = none := by
  let number : WebsocketPipeline.WsMsg :=
    ⟨BitVec.ofInt 32 message.msgseq,Utf8String.empty,ByteString.empty⟩
  let field : FieldSpec WebsocketPipeline.WsMsg :=
    ⟨2,.string,WsMsg.msgId,fun m v => { m with msgId := v }⟩
  have declared : field ∈ WsMsg.schema.fields := List.mem_cons_of_mem _ List.mem_cons_self
  have some_id : 0 < message.msgid.length := by
    rw [List.length_pos_iff,ne_eq,←kept_eq_nil_iff]
    exact List.ne_nil_of_mem mem
  have bad := decodeUtf8_idBytes mem surrogate
  have split : message.encoded = WsMsg.schema.writeTo number ++ (writeTag field.tag ++
      (writeVarint 10 message.idBytes.length ++ message.idBytes ++
        if 0 < message.content.length then delimited 26 message.content else [])) := by
    rw [writeTo_fields]
    simp only [number,if_true,List.append_nil,WsMsg.encoded,msgSeq_zero_iff fits,ne_eq,ite_not,
      some_id,delimited,List.append_assoc]
    rfl
  have first := WsMsg.schema.parseFrom_writeTo number
  have after := Schema.parseLoop_append (writeTag field.tag ++
    (writeVarint 10 message.idBytes.length ++ message.idBytes ++
      if 0 < message.content.length then delimited 26 message.content else [])) first
  rw [Schema.parseFrom,split,List.length_append,after]
  exact Schema.parseLoop_none declared _ _ (readString_none fits.id_lt bad)

/-! ### The server's handler -/

/-- The limit of the frame decoder that `WebSocketServerProtocolHandler("/", null, true)`
    installs. -/
def maxFramePayloadLength : ℕ := 65536

/-- The calls of the handler for a binary frame of the client. At a longer frame the frame
    decoder ends the connection. -/
def frameRead (charset : Charset) (final : Bool) (payload : Bytes) : Option (List Call) :=
  if payload.length ≤ maxFramePayloadLength then some (channelRead charset (.binary final payload))
  else none

section Received
variable {charset : Charset} {final : Bool}

theorem channelRead_encoded : channelRead charset (.binary final message.encoded) =
    [MsgKind.call charset message.encoded .binary] :=
  channelRead_frame .binary final message.encoded

theorem channelRead_carried (fits : message.Fits) {m : WebsocketPipeline.WsMsg}
    (carries : Carries message m) :
    channelRead charset (.binary final message.encoded) = [.ok (.protobuf ⟨m,[]⟩)] := by
  rw [channelRead_encoded,MsgKind.call,carries.encoded fits,WsMsg.schema.parseFrom_writeTo]

theorem channelRead_surrogate (fits : message.Fits) {p : ℕ}
    (mem : p ∈ kept (CodePoints.ofUtf16 message.msgid)) (surrogate : CodePoints.Surrogate p) :
    channelRead charset (.binary final message.encoded) = [.error .invalidProtocolBuffer] := by
  rw [channelRead_encoded,MsgKind.call,parseFrom_surrogate fits mem surrogate]

end Received

theorem wellFormed_iff_kept (us : List UInt16) : CodePoints.WellFormed us ↔
    (∀ p ∈ kept (CodePoints.ofUtf16 us), ¬CodePoints.Surrogate p) ∧
      kept (CodePoints.ofUtf16 us) = CodePoints.ofUtf16 us := by
  constructor
  · intro h
    have all := kept_of_plain (fun p mem high => h p mem ⟨high.1,by have := high.2; omega⟩)
    exact ⟨by rwa [all],all⟩
  · rintro ⟨plain,all⟩
    rwa [all] at plain

theorem Carries.plain {m : WebsocketPipeline.WsMsg} (h : Carries message m) :
    ∀ p ∈ kept (CodePoints.ofUtf16 message.msgid), ¬CodePoints.Surrogate p := by
  intro p mem
  rw [←h.msgId] at mem
  exact (CodePoints.ofChars_plain p mem).1

theorem Carries.same_iff {m : WebsocketPipeline.WsMsg} (h : Carries message m) :
    CodePoints.encode m.msgId.val.toList = message.msgid ↔ CodePoints.WellFormed message.msgid := by
  constructor
  · intro same
    exact (CodePoints.wellFormed_iff _).mpr ⟨_,same⟩
  · intro wellFormed
    rw [CodePoints.encode,h.msgId,((wellFormed_iff_kept _).mp wellFormed).2,
      CodePoints.utf16_ofUtf16]

/-- What a frame of the client comes to that is not too long. -/
theorem channelRead_client (message : WsMsg) (fits : message.Fits) (charset : Charset)
    (final : Bool) :
    (∀ m, channelRead charset (.binary final message.encoded) = [.ok (.protobuf m)] ↔
      m.unknownFields = [] ∧ Carries message m.message) ∧
    ((∃ m, channelRead charset (.binary final message.encoded) = [.ok (.protobuf m)]) ↔
      ∀ p ∈ kept (CodePoints.ofUtf16 message.msgid), ¬CodePoints.Surrogate p) ∧
    (channelRead charset (.binary final message.encoded) = [.error .invalidProtocolBuffer] ↔
      ∃ p ∈ kept (CodePoints.ofUtf16 message.msgid), CodePoints.Surrogate p) := by
  by_cases plain : ∀ p ∈ kept (CodePoints.ofUtf16 message.msgid), ¬CodePoints.Surrogate p
  · obtain ⟨m,carries⟩ := exists_carried fits plain
    rw [channelRead_carried fits carries]
    refine ⟨fun q => ?_,iff_of_true ⟨_,rfl⟩ plain,?_⟩
    · constructor
      · intro h
        cases h
        exact ⟨rfl,carries⟩
      · rintro ⟨none,other⟩
        obtain ⟨m',us⟩ := q
        rw [carries.unique other]
        cases none
        rfl
    · constructor
      · intro h
        cases h
      · rintro ⟨p,mem,surrogate⟩
        exact absurd surrogate (plain p mem)
  · obtain ⟨p,mem,surrogate⟩ : ∃ p ∈ kept (CodePoints.ofUtf16 message.msgid),
        CodePoints.Surrogate p := by
      by_contra none
      exact plain (fun p mem surrogate => none ⟨p,mem,surrogate⟩)
    rw [channelRead_surrogate fits mem surrogate]
    refine ⟨fun q => ?_,iff_of_false ?_ plain,iff_of_true rfl ⟨p,mem,surrogate⟩⟩
    · constructor
      · intro h
        cases h
      · rintro ⟨_,carries⟩
        exact absurd surrogate (carries.plain p mem)
    · rintro ⟨q,eq⟩
      cases eq

/-- The server has the client's `msgid` exactly if it is well formed. -/
theorem same_msgid_iff (message : WsMsg) (fits : message.Fits) (charset : Charset)
    (final : Bool) :
    (∃ m, channelRead charset (.binary final message.encoded) = [.ok (.protobuf m)] ∧
      CodePoints.encode m.message.msgId.val.toList = message.msgid) ↔
        CodePoints.WellFormed message.msgid := by
  obtain ⟨received,exists_iff,_⟩ := channelRead_client message fits charset final
  constructor
  · rintro ⟨m,eq,same⟩
    exact ((received m).mp eq).2.same_iff.mp same
  · intro wellFormed
    obtain ⟨m,eq⟩ := exists_iff.mpr ((wellFormed_iff_kept _).mp wellFormed).1
    exact ⟨m,eq,((received m).mp eq).2.same_iff.mpr wellFormed⟩

/-- A high surrogate and the letter `中`. -/
def halfPair : WsMsg := ⟨-5,[0xd83d,0x4e2d],[]⟩

def letterOnly : WebsocketPipeline.WsMsg := ⟨-5,⟨"中",by decide⟩,ByteString.empty⟩

end SeeU.Jspb
