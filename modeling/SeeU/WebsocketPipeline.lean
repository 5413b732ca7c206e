import SeeU.WireMessage
import Mathlib.Data.List.Forall2

set_option autoImplicit false

/-!
# The pipeline of a websocket connection

`WebSocketMessagePreProcess` puts a type byte before the payload of a text or binary
frame and drops the other frames; `WebsocketMsgDecoder` takes the type byte off again
and makes a string or a `wsMsg` of the rest for `WebsocketHandler`.
-/
namespace SeeU.WebsocketPipeline
open WireFormat

/-! ### `wsMsg` -/

structure WsMsg where
  msgSeq : BitVec 32
  msgId : Utf8String
  content : ByteString
  deriving DecidableEq

def WsMsg.fields : List (FieldSpec WsMsg) :=
  [⟨1,.int32,WsMsg.msgSeq,fun m v => { m with msgSeq := v }⟩,
    ⟨2,.string,WsMsg.msgId,fun m v => { m with msgId := v }⟩,
    ⟨3,.bytes,WsMsg.content,fun m v => { m with content := v }⟩]

def WsMsg.schema : Schema WsMsg where
  fields := WsMsg.fields
  defaultInstance := ⟨0,Utf8String.empty,ByteString.empty⟩
  number_pos := by simp [WsMsg.fields]
  number_lt := by simp [WsMsg.fields]
  apart := by simp [WsMsg.fields,FieldSpec.Apart]
  get_set := by simp [WsMsg.fields]
  get_default := by simp [WsMsg.fields,Kind.default]
  ext m m' h := by
    simp only [WsMsg.fields,List.forall_mem_cons,List.not_mem_nil,false_implies,implies_true,
      and_true] at h
    cases m
    simp_all

/-! ### The handlers -/

inductive WebSocketFrame where
  | text (finalFragment : Bool) (content : Bytes)
  | binary (finalFragment : Bool) (content : Bytes)
  | continuation (finalFragment : Bool) (content : Bytes)
  | ping (content : Bytes)
  | pong (content : Bytes)
  | close (content : Bytes)
  deriving DecidableEq

/-- What `WebSocketMessagePreProcess.decode` passes on and what it writes back. -/
structure PreProcessed where
  out : List Bytes
  written : List WebSocketFrame
  deriving DecidableEq

def preProcess : WebSocketFrame → PreProcessed
  | .text _ content => ⟨[1 :: content],[]⟩
  | .binary _ content => ⟨[2 :: content],[]⟩
  | .ping content => ⟨[],[.pong content]⟩
  | .continuation .. | .pong _ | .close _ => ⟨[],[]⟩

/-- The charset of `new String(bytes)` is the JVM's default. Malformed input is
    replaced, so every array decodes. -/
structure Charset where
  newString : Bytes → String

/-- The argument of `WebsocketHandler.channelRead0`. -/
inductive Msg where
  | string (s : String)
  | protobuf (m : Parsed WsMsg)
  deriving DecidableEq

inductive DecoderException where
  | indexOutOfBounds | invalidProtocolBuffer
  deriving DecidableEq

/-- `ProtobufDecoder.decode` with the prototype `wsMsg`. -/
def protobufDecode (msg : Bytes) : Except DecoderException (List Msg) :=
  match WsMsg.schema.parseFrom msg with
  | some m => .ok [.protobuf m]
  | none => .error .invalidProtocolBuffer

/-- `WebsocketMsgDecoder.decode`. -/
def decode (charset : Charset) : Bytes → Except DecoderException (List Msg)
  | [] => .error .indexOutOfBounds
  | type :: rest =>
    if type = 1 then .ok [.string (charset.newString rest)]
    else if type = 2 then protobufDecode rest
    else .ok []

/-- A call of `WebsocketHandler.channelRead0` or of its `exceptionCaught`. -/
abbrev Call := Except DecoderException Msg

def calls : Except DecoderException (List Msg) → List Call
  | .ok out => out.map .ok
  | .error e => [.error e]

/-- The calls of the handler for one frame. -/
def channelRead (charset : Charset) (frame : WebSocketFrame) : List Call :=
  (preProcess frame).out.flatMap (fun buf => calls (decode charset buf))

/-- `exceptionCaught` closes the connection, and the frames behind may then be lost. -/
def Cut (all : List Call) (cs : List Call) : Prop :=
  cs = all ∨ cs <+: all ∧ ∃ e, cs.getLast? = some (.error e)

/-- The calls of the handler for the frames of a connection. -/
def Handles (charset : Charset) (frames : List WebSocketFrame) : List Call → Prop :=
  Cut (frames.flatMap (channelRead charset))

/-! ### Messages and their fragments -/

inductive MsgKind where
  | text | binary
  deriving DecidableEq

def MsgKind.frame : MsgKind → Bool → Bytes → WebSocketFrame
  | .text => .text
  | .binary => .binary

/-- The control frames that may come between the fragments of a message. -/
inductive ControlFrame where
  | ping (content : Bytes)
  | pong (content : Bytes)

def ControlFrame.frame : ControlFrame → WebSocketFrame
  | ping content => .ping content
  | pong content => .pong content

/-- A message with the fragments that it is split into and the control frames that come
    before each of them. -/
structure Fragmented where
  kind : MsgKind
  before : List ControlFrame
  first : Bytes
  continuations : List (List ControlFrame × Bytes)

def Fragmented.payload (m : Fragmented) : Bytes :=
  m.first ++ m.continuations.flatMap Prod.snd

def continuationFrames : List (List ControlFrame × Bytes) → List WebSocketFrame
  | [] => []
  | (before,content) :: rest =>
    before.map ControlFrame.frame ++
      .continuation rest.isEmpty content :: continuationFrames rest

def Fragmented.frames (m : Fragmented) : List WebSocketFrame :=
  m.before.map ControlFrame.frame ++
    m.kind.frame m.continuations.isEmpty m.first :: continuationFrames m.continuations

def Fragmented.unfragmented (m : Fragmented) : WebSocketFrame := m.kind.frame true m.payload

/-- The handler is called once for each message, in order, with what it is called with
    when the message is sent in one frame. -/
def Intact (charset : Charset) (ms : List Fragmented) (cs : List Call) : Prop :=
  ∃ all, List.Forall₂ (fun m c => channelRead charset m.unfragmented = [c]) ms all ∧ Cut all cs

/-- The first frame carries the whole payload. -/
def Fragmented.Undivided (m : Fragmented) : Prop := ∀ c ∈ m.continuations, c.2 = []

/-- No other bytes make the text, or the payload is a written `wsMsg`. -/
def Fragmented.Determined (charset : Charset) (m : Fragmented) : Prop :=
  match m.kind with
  | .text => ∀ bs, charset.newString bs = charset.newString m.payload → bs = m.payload
  | .binary => ∃ w, m.payload = WsMsg.schema.writeTo w

/-! ### The calls of a connection -/

section Calls
variable {charset : Charset}

theorem Cut.self (all : List Call) : Cut all all := .inl rfl

theorem Cut.eq_of_length {all cs : List Call} (h : Cut all cs) (len : cs.length = all.length) :
    cs = all := by
  rcases h with eq | ⟨initial,_⟩
  · exact eq
  · exact initial.eq_of_length len

def MsgKind.call (charset : Charset) (content : Bytes) : MsgKind → Call
  | .text => .ok (.string (charset.newString content))
  | .binary =>
    match WsMsg.schema.parseFrom content with
    | some m => .ok (.protobuf m)
    | none => .error .invalidProtocolBuffer

theorem channelRead_frame (kind : MsgKind) (final : Bool) (content : Bytes) :
    channelRead charset (kind.frame final content) = [kind.call charset content] := by
  cases kind with
  | text => rfl
  | binary =>
    change calls (protobufDecode content) ++ [] = _
    rw [List.append_nil,protobufDecode,MsgKind.call]
    cases WsMsg.schema.parseFrom content <;> rfl

theorem channelRead_controls (before : List ControlFrame) :
    (before.map ControlFrame.frame).flatMap (channelRead charset) = [] := by
  simp only [List.flatMap_map,List.flatMap_eq_nil_iff]
  intro c _
  cases c <;> rfl

theorem channelRead_continuations (cs : List (List ControlFrame × Bytes)) :
    (continuationFrames cs).flatMap (channelRead charset) = [] := by
  induction cs with
  | nil => rfl
  | cons c cs ih =>
    rw [continuationFrames,List.flatMap_append,channelRead_controls,List.flatMap_cons,ih]
    rfl

theorem channelRead_frames (m : Fragmented) :
    m.frames.flatMap (channelRead charset) = [m.kind.call charset m.first] := by
  rw [Fragmented.frames,List.flatMap_append,channelRead_controls,List.flatMap_cons,
    channelRead_frame,channelRead_continuations]
  rfl

theorem channelRead_fragments (ms : List Fragmented) :
    (ms.flatMap Fragmented.frames).flatMap (channelRead charset) =
      ms.map (fun m => m.kind.call charset m.first) := by
  induction ms with
  | nil => rfl
  | cons m ms ih =>
    rw [List.flatMap_cons,List.flatMap_append,channelRead_frames,ih]
    rfl

theorem intact_iff (ms : List Fragmented) (cs : List Call) :
    Intact charset ms cs ↔ Cut (ms.map (fun m => m.kind.call charset m.payload)) cs := by
  have calls : ∀ all, List.Forall₂ (fun m c => channelRead charset m.unfragmented = [c]) ms all ↔
      ms.map (fun m => m.kind.call charset m.payload) = all := by
    intro all
    simp only [Fragmented.unfragmented,channelRead_frame,List.cons.injEq,and_true]
    rw [←List.forall₂_map_left_iff,List.forall₂_eq_eq_eq]
  unfold Intact
  simp only [calls,exists_eq_left']

/-- The messages are intact exactly if each first frame makes the call of its message. -/
theorem intact_iff_first (ms : List Fragmented) :
    (∀ cs, Handles charset (ms.flatMap Fragmented.frames) cs ↔ Intact charset ms cs) ↔
      ∀ m ∈ ms, m.kind.call charset m.first = m.kind.call charset m.payload := by
  simp only [Handles,channelRead_fragments,intact_iff,←List.map_inj_left]
  constructor
  · intro same
    exact ((same _).mp (Cut.self _)).eq_of_length (by simp)
  · intro eq cs
    rw [eq]

theorem payload_eq_first_iff (m : Fragmented) : m.first = m.payload ↔ m.Undivided := by
  rw [Fragmented.payload,List.self_eq_append_right]
  exact List.flatMap_eq_nil_iff

/-- What a determined message makes is made by no part of it. -/
theorem undivided_of_call_eq {m : Fragmented} (determined : m.Determined charset)
    (same : m.kind.call charset m.first = m.kind.call charset m.payload) : m.Undivided := by
  rw [←payload_eq_first_iff]
  unfold Fragmented.Determined at determined
  cases kind : m.kind with
  | text =>
    rw [kind] at same determined
    exact determined m.first (Msg.string.inj (Except.ok.inj same))
  | binary =>
    rw [kind] at same determined
    obtain ⟨w,written⟩ := determined
    have whole := WsMsg.schema.parseFrom_writeTo w
    rw [←written] at whole
    by_contra parted
    have rest : m.continuations.flatMap Prod.snd ≠ [] := by
      rwa [Fragmented.payload,List.self_eq_append_right] at parted
    simp only [MsgKind.call,whole] at same
    cases parsed : WsMsg.schema.parseFrom m.first with
    | none =>
      rw [parsed] at same
      cases same
    | some q =>
      rw [parsed] at same
      obtain ⟨rfl⟩ := Msg.protobuf.inj (Except.ok.inj same)
      exact WsMsg.schema.parseFrom_prefix_ne written.symm rest [] parsed

end Calls

/-- Messages whose first frames carry their whole payloads reach the handler as the
    unfragmented ones do, and determined messages only then. -/
theorem intact_iff_undivided (charset : Charset) (ms : List Fragmented) :
    ((∀ m ∈ ms, m.Undivided) →
      ∀ cs, Handles charset (ms.flatMap Fragmented.frames) cs ↔ Intact charset ms cs) ∧
    ((∀ m ∈ ms, m.Determined charset) →
      (∀ cs, Handles charset (ms.flatMap Fragmented.frames) cs ↔ Intact charset ms cs) →
        ∀ m ∈ ms, m.Undivided) := by
  constructor
  · intro undivided
    refine (intact_iff_first ms).mpr ?_
    intro m hm
    rw [(payload_eq_first_iff m).mpr (undivided m hm)]
  · intro determined same m hm
    exact undivided_of_call_eq (determined m hm) ((intact_iff_first ms).mp same m hm)

/-- ISO-8859-1, one character for each byte. -/
def latin1 : Charset := ⟨fun bs => String.ofList (bs.map (fun b => Char.ofNat b.toNat))⟩

/-- A `wsMsg` in one frame, with a ping and an empty frame behind it. -/
def inOneFrame : Fragmented := ⟨.binary,[],[8,1],[([.ping []],[])]⟩

def inTwoFrames : Fragmented := ⟨.binary,[],[8],[([],[1])]⟩

theorem split_wsMsg_lost :
    (∀ cs, Handles latin1 ([inOneFrame].flatMap Fragmented.frames) cs ↔
      Intact latin1 [inOneFrame] cs) ∧
    ¬∀ cs, Handles latin1 ([inOneFrame,inTwoFrames].flatMap Fragmented.frames) cs ↔
      Intact latin1 [inOneFrame,inTwoFrames] cs := by
  have written : [8,1] = WsMsg.schema.writeTo ⟨1,Utf8String.empty,ByteString.empty⟩ := by decide
  have determined : ∀ m ∈ [inOneFrame,inTwoFrames], m.Determined latin1 := by
    simp only [List.forall_mem_cons]
    exact ⟨⟨_,written⟩,⟨_,written⟩,List.forall_mem_nil _⟩
  constructor
  · refine (intact_iff_undivided latin1 [inOneFrame]).1 ?_
    simp [Fragmented.Undivided,inOneFrame]
  · intro same
    have all := (intact_iff_undivided latin1 [inOneFrame,inTwoFrames]).2 determined same
    have last := all inTwoFrames (by simp) ([],[1]) (List.mem_singleton.mpr rfl)
    cases last

/-- The text `ab` in a frame for each letter. -/
def letterByLetter : Fragmented := ⟨.text,[],[97],[([],[98])]⟩

theorem second_letter_lost :
    Handles latin1 letterByLetter.frames [.ok (.string "a")] ∧
      Handles latin1 [letterByLetter.unfragmented] [.ok (.string "ab")] ∧
      ¬∀ cs, Handles latin1 ([letterByLetter].flatMap Fragmented.frames) cs ↔
        Intact latin1 [letterByLetter] cs := by
  refine ⟨.inl (by decide),.inl (by decide),?_⟩
  intro same
  have cut := (intact_iff _ _).mp ((same [.ok (.string "a")]).mp (.inl (by decide)))
  have eq := cut.eq_of_length rfl
  revert eq
  decide

end SeeU.WebsocketPipeline
