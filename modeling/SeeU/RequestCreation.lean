import SeeU.RpcClientManger
import Mathlib.Data.List.Pairwise

set_option autoImplicit false

/-!
# The sequence numbers of one process

`RpcClientManger` and `DiscoverClient` number their requests from one clock. Two
requests share a number exactly if they were created in one millisecond, as far as
they can be outstanding together.
-/
namespace SeeU.RequestCreation
open WireFormat

inductive Producer where
  | generateRpcRequest | generateDiscoverMsg
  deriving DecidableEq

/-- One request creation: who creates the request, what the clock reads, and the rest of
    the arguments. -/
structure Creation where
  producer : Producer
  now : Instant
  method : Utf8String
  content : ByteString
  needResponse : Bool

def create (info : ServerInfo) (c : Creation) : Except Throwable Request :=
  match c.producer with
  | .generateRpcRequest =>
    RpcClientManger.generateRpcRequest info c.now c.method c.content c.needResponse
  | .generateDiscoverMsg =>
    DiscoverClient.generateDiscoverMsg info c.now c.method c.content c.needResponse

/-- A request is outstanding for the 100 ms of the timeout. -/
def Near (a b : Creation) : Prop := b.now.toInt - a.now.toInt ≤ 100

/-- The requests that were created near each other carry different sequence numbers. -/
def OutstandingDistinct (info : ServerInfo) (log : List Creation) : Prop :=
  log.Pairwise (fun a b => Near a b → ∀ ra rb, create info a = .ok ra → create info b = .ok rb →
    ra.msgSeq ≠ rb.msgSeq)

theorem create_msgSeq {info : ServerInfo} {c : Creation} {req : Request}
    (h : create info c = .ok req) :
    FuncUtil.generateMsgSeq c.now info.serverType info.serverId info.startInstant =
      .ok req.msgSeq := by
  unfold create at h
  cases hp : c.producer with
  | generateRpcRequest =>
    rw [hp] at h
    simp only [RpcClientManger.generateRpcRequest,bind_eq_ok] at h
    obtain ⟨_,_,_,_,seq,hs,h⟩ := h
    cases h
    exact hs
  | generateDiscoverMsg =>
    rw [hp] at h
    exact DiscoverClient.generateDiscoverMsg_msgSeq h

theorem create_ok {info : ServerInfo} {t : ServerType} (ht : info.serverType = some t)
    (declared : t.Declared) (c : Creation) : ∃ req, create info c = .ok req := by
  obtain ⟨seq,hs⟩ := FuncUtil.generateMsgSeq_ok_iff.mpr ⟨t,ht,declared⟩
  obtain ⟨number,hn⟩ := ServerType.getNumber_declared declared
  unfold create
  cases c.producer with
  | generateRpcRequest =>
    refine ⟨⟨seq,number,info.serverId,c.method,c.needResponse,c.content⟩,?_⟩
    simp only [RpcClientManger.generateRpcRequest,bind_eq_ok,nonNull_eq_ok]
    exact ⟨t,ht,number,hn,seq,hs,rfl⟩
  | generateDiscoverMsg =>
    refine ⟨⟨seq,0,0,c.method,c.needResponse,c.content⟩,?_⟩
    simp only [DiscoverClient.generateDiscoverMsg,bind_eq_ok]
    exact ⟨seq,hs,0,rfl,rfl⟩

theorem near_distinct {info : ServerInfo} {a b : Creation} (order : a.now.toInt ≤ b.now.toInt)
    (near : Near a b) (ne : a.now ≠ b.now) {ra rb : Request} (ha : create info a = .ok ra)
    (hb : create info b = .ok rb) : ra.msgSeq ≠ rb.msgSeq := by
  intro eq
  have sa := create_msgSeq ha
  have sb := create_msgSeq hb
  rw [←eq] at sb
  unfold Near at near
  exact ne (FuncUtil.now_eq_of_msgSeq_eq order (by omega) sa sb)

theorem same_now_same_seq {info : ServerInfo} {a b : Creation} (eq : a.now = b.now)
    {ra rb : Request} (ha : create info a = .ok ra) (hb : create info b = .ok rb) :
    ra.msgSeq = rb.msgSeq := by
  have sa := create_msgSeq ha
  have sb := create_msgSeq hb
  rw [eq,sb] at sa
  exact (Except.ok.inj sa).symm

/-- On a clock that does not run backwards, requests that are outstanding together have
    different numbers exactly if no two requests are created in one millisecond, or the
    process has no declared type and creates none. -/
theorem outstandingDistinct_iff {info : ServerInfo} {log : List Creation}
    (clock : log.Pairwise (fun a b => a.now.toInt ≤ b.now.toInt)) :
    OutstandingDistinct info log ↔
      ((∃ t, info.serverType = some t ∧ t.Declared) →
        log.Pairwise (fun a b => a.now ≠ b.now)) := by
  constructor
  · rintro distinct ⟨t,ht,declared⟩
    apply distinct.imp
    intro a b differ eq
    obtain ⟨ra,ha⟩ := create_ok ht declared a
    obtain ⟨rb,hb⟩ := create_ok ht declared b
    refine differ ?_ ra rb ha hb (same_now_same_seq eq ha hb)
    unfold Near
    rw [eq]
    omega
  · intro differ
    by_cases creates : ∃ t, info.serverType = some t ∧ t.Declared
    · apply (clock.and (differ creates)).imp
      rintro a b ⟨order,ne⟩ near ra rb ha hb
      exact near_distinct order near ne ha hb
    · apply List.pairwise_of_forall
      intro a b _ ra _ ha
      exact absurd (FuncUtil.generateMsgSeq_ok_iff.mp ⟨_,create_msgSeq ha⟩) creates

def accessServer : ServerInfo := ⟨some .access,1000,3⟩

def login (now : Instant) : Creation :=
  ⟨.generateRpcRequest,now,Utf8String.empty,ByteString.empty,true⟩

theorem later_requests_distinct : OutstandingDistinct accessServer [login 2000,login 2001] :=
  (outstandingDistinct_iff (by decide)).mpr (fun _ => by decide)

theorem same_millisecond_collides :
    [login 2000,login 2000].Pairwise (fun a b => a.now.toInt ≤ b.now.toInt) ∧
      ¬OutstandingDistinct accessServer [login 2000,login 2000] := by
  refine ⟨by decide,?_⟩
  intro distinct
  have differ := List.rel_of_pairwise_cons distinct (List.mem_singleton_self _)
  exact differ (by unfold Near; decide) _ _ rfl rfl rfl

end SeeU.RequestCreation
