import SeeU.Utf8Decoding
import SeeU.WebsocketPipeline

set_option autoImplicit false

/-!
# The charset of the text frames

The payload of a text frame is UTF-8, and `WebsocketMsgDecoder` decodes it with the
default charset of the JVM.
-/
namespace SeeU.WebsocketPipeline
open WireFormat

def utf8Charset : Charset := ⟨fun bs => String.ofList (Utf8.decode bs)⟩

theorem utf8_eq_encode (s : String) : utf8 s = Utf8.encode s.toList := by
  rw [utf8,←String.utf8Encode_toList,List.utf8Encode,List.data_toByteArray]
  rfl

theorem utf8Charset_utf8 (s : String) : utf8Charset.newString (utf8 s) = s := by
  rw [utf8_eq_encode]
  change String.ofList (Utf8.decode (Utf8.encode s.toList)) = s
  rw [Utf8.decode_encode,String.ofList_toList]

/-- What a frame is to give whatever the default charset is. -/
def delivered : WebSocketFrame → List Call
  | .text _ payload => [.ok (.string (utf8Charset.newString payload))]
  | .binary _ payload =>
    match WsMsg.schema.parseFrom payload with
    | some m => [.ok (.protobuf m)]
    | none => [.error .invalidProtocolBuffer]
  | .continuation .. | .ping _ | .pong _ | .close _ => []

theorem frame_delivered_iff (charset : Charset) (frame : WebSocketFrame) :
    channelRead charset frame = delivered frame ↔
      ∀ final payload, frame = .text final payload →
        charset.newString payload = utf8Charset.newString payload := by
  cases frame with
  | text final payload =>
    have call : channelRead charset (.text final payload) =
      [.ok (.string (charset.newString payload))] := channelRead_frame .text final payload
    rw [call,delivered]
    constructor
    · intro same final' payload' text
      cases text
      simpa using same
    · intro same
      rw [same final payload rfl]
  | binary final payload =>
    refine iff_of_true ?_ ?_
    · refine (channelRead_frame .binary final payload).trans ?_
      rw [MsgKind.call,delivered]
      cases WsMsg.schema.parseFrom payload <;> rfl
    · intro _ _ text
      cases text
  | continuation | ping | pong | close =>
    refine iff_of_true rfl ?_
    intro _ _ text
    cases text

theorem all_delivered_iff (charset : Charset) :
    (∀ frame, channelRead charset frame = delivered frame) ↔ charset = utf8Charset := by
  simp only [frame_delivered_iff]
  constructor
  · intro same
    have all : charset.newString = utf8Charset.newString := by
      funext payload
      exact same (.text true payload) true payload rfl
    cases charset
    exact congrArg Charset.mk all
  · rintro rfl _ _ _ _
    rfl

/-- A frame is delivered as it is to be exactly if it is no text, or the default charset
    takes its payload to the text that UTF-8 takes it to. All frames are exactly if the
    default charset is UTF-8. -/
theorem channelRead_eq_delivered_iff (charset : Charset) :
    (∀ frame, channelRead charset frame = delivered frame ↔
      ∀ final payload, frame = .text final payload →
        charset.newString payload = utf8Charset.newString payload) ∧
    ((∀ frame, channelRead charset frame = delivered frame) ↔ charset = utf8Charset) :=
  ⟨frame_delivered_iff charset,all_delivered_iff charset⟩

/-- A Chinese letter on a machine whose charset is ISO-8859-1. -/
theorem chinese_garbled :
    channelRead latin1 (.text true (utf8 "中")) =
      [.ok (.string (String.ofList [Char.ofNat 0xe4,Char.ofNat 0xb8,Char.ofNat 0xad]))] ∧
    delivered (.text true (utf8 "中")) = [.ok (.string "中")] ∧
    channelRead latin1 (.text true (utf8 "中")) ≠ delivered (.text true (utf8 "中")) := by
  have wanted : delivered (.text true (utf8 "中")) = [.ok (.string "中")] := by
    rw [delivered,utf8Charset_utf8]
  refine ⟨by decide,wanted,?_⟩
  rw [wanted]
  decide

/-! ### Texts that only their own bytes make -/

/-- Under UTF-8 that is every text without the character that stands for malformed bytes. -/
theorem determined_of_utf8 {m : Fragmented} {s : String} (text : m.kind = .text)
    (payload : m.payload = utf8 s) (clean : Utf8.replacement ∉ s.toList) :
    m.Determined utf8Charset := by
  rw [Fragmented.Determined,text]
  intro bs same
  rw [payload,utf8Charset_utf8] at same
  have chars : Utf8.decode bs = s.toList := by
    rw [←same]
    exact String.toList_ofList.symm
  rw [payload,utf8_eq_encode,←chars]
  exact (Utf8.encode_decode (by rwa [chars])).symm

/-! ### One byte for each character -/

/-- ISO-8859-1 is right for the texts that have ASCII letters only. -/
theorem latin1_eq_utf8_iff (bs : Bytes) :
    latin1.newString bs = utf8Charset.newString bs ↔ ∀ b ∈ bs, b < 0x80 := by
  rw [←Utf8.map_ofNat_eq_decode_iff]
  exact String.ofList_inj

end SeeU.WebsocketPipeline
