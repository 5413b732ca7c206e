import SeeU.RpcMsg

set_option autoImplicit false

/-!
# The pipelines of an RPC connection

Both ends install an idle handler, a protobuf decoder, a protobuf encoder and
their handler, and no frame handler. The encoder writes the bytes of a message
alone; the decoder parses what one read of the socket returned.
-/
namespace SeeU.RpcPipeline
open WireFormat StreamFraming

/-- What the client's encoder puts on the connection for the requests written to it. -/
def clientOutbound (msgs : List Request) : Bytes := stream Request.schema.codec msgs

/-- What the server's encoder puts on the connection for the responses written to it. -/
def serverOutbound (msgs : List Response) : Bytes := stream Response.schema.codec msgs

/-- The arguments of the calls of `RpcServerHandler.channelRead0` for the reads of a
    connection: a buffer that does not parse raises an exception in the decoder and
    is not passed on. -/
def serverChannelReads (reads : List Bytes) : List (Parsed Request) :=
  delivered Request.schema.codec reads

/-- The arguments of the calls of `RpcClientHandler.channelRead0`. -/
def clientChannelReads (reads : List Bytes) : List (Parsed Response) :=
  delivered Response.schema.codec reads

/-- A message as the decoder builds it from exactly its own bytes. -/
def received {σ : Type} (m : σ) : Parsed σ := ⟨m,[]⟩

/-- In both directions the handler is called once for each message, in order, for
    exactly those reads that hold the bytes of one message each. -/
theorem channelReads_iff_aligned (requests : List Request)
    (requestCut : Segmentation (clientOutbound requests)) (responses : List Response)
    (responseCut : Segmentation (serverOutbound responses)) :
    (serverChannelReads requestCut.reads = requests.map received ↔
      requestCut.reads = requests.map Request.toByteArray) ∧
    (clientChannelReads responseCut.reads = responses.map received ↔
      responseCut.reads = responses.map Response.toByteArray) :=
  ⟨delivered_iff_aligned (C := Request.schema.codec) requests requestCut,
    delivered_iff_aligned (C := Response.schema.codec) responses responseCut⟩

/-- A request without content, as `register` followed by `getServiceInfo` would be. -/
def emptyRequest (msgSeq : BitVec 32) : Request :=
  { Request.schema.defaultInstance with msgSeq := msgSeq }

def coalesced : Segmentation (clientOutbound [emptyRequest 1,emptyRequest 2]) where
  reads := [[0x08,0x01,0x08,0x02]]
  nonempty := by simp
  flatten := by decide

theorem coalesced_requests_merged :
    serverChannelReads coalesced.reads = [received (emptyRequest 2)] ∧
      serverChannelReads coalesced.reads ≠
        [emptyRequest 1,emptyRequest 2].map received := by
  decide

end SeeU.RpcPipeline
