import SeeU.DoubleIndex
import SeeU.RpcClientManger
import SeeU.TransitionSystem

set_option autoImplicit false

/-!
# When the two maps of `RpcClientManger` index the same clients

The maps are an index of clients by their target and by the key of their channel.
Each operation is a step of a machine; the condition under which it keeps the maps
coherent is exact.
-/
namespace SeeU.RpcClientManger
open WireFormat DiscoverMsg TransitionSystem DoubleIndex

namespace Manger

def labels (s : Manger) : Labels (Option ServerType × BitVec 32) String ClientId where
  slot c := ((s.clients c).targetType,(s.clients c).targetId)
  key c := (s.clients c).channel.map getChannelKey

def index (s : Manger) : Index (Option ServerType × BitVec 32) String ClientId where
  bySlot p := s.client p.1 p.2
  byKey := s.rpcChannelClientMap

/-- `rpcClientMap[t][i] = c` exactly when the target of `c` is `(t,i)` and
    `rpcChannelClientMap` has `c` under the key of its channel, and it has `c` under no
    other key. -/
def Coherent (s : Manger) : Prop := DoubleIndex.Coherent s.labels s.index

/-- Removing by a channel takes no entry from a client with another channel key. -/
def RemovesOwn (s : Manger) (channel : Channel) : Prop :=
  ∀ t i c, s.client t i = some c → (s.removeChannel channel).2.client t i = none →
    (s.clients c).channel.map getChannelKey = some (getChannelKey channel)

/-! ### The operations on the index -/

theorem setClient_index (s : Manger) (t : Option ServerType) (i : BitVec 32)
    (c : Option ClientId) (h : c = none ∨ (s.rpcClientMap t).isSome) :
    (s.setClient t i c).index = setSlot s.index (t,i) c := by
  have slots : (s.setClient t i c).index.bySlot = (setSlot s.index (t,i) c).bySlot := by
    funext p
    obtain ⟨u,j⟩ := p
    change (s.setClient t i c).client u j = Function.update s.index.bySlot (t,i) c (u,j)
    rw [setClient_client s t i c h,Function.update_apply]
    simp only [Prod.mk.injEq]
    rfl
  have keys : (s.setClient t i c).index.byKey = s.index.byKey := setClient_channels s t i c
  exact congrArg₂ Index.mk slots keys

theorem computeIfAbsent_index (s : Manger) (t : Option ServerType) :
    (s.computeIfAbsent t).index = s.index := by
  simp [index]

theorem setChannel_index (s : Manger) (key : String) (c : Option ClientId) :
    (s.setChannel key c).index = setKey s.index key c := rfl

theorem addClient_index (s : Manger) (c : ClientId) :
    (s.addClient c).2.index = setBoth s.labels s.index c (some c) := by
  have slot := setClient_index (s.computeIfAbsent (s.clients c).targetType)
    (s.clients c).targetType (s.clients c).targetId (some c) (.inr (computeIfAbsent_present s _))
  rw [computeIfAbsent_index] at slot
  unfold addClient setBoth
  cases hc : (s.clients c).channel with
  | none =>
    simp only [labels,hc,Option.map_none,Option.elim_none]
    exact slot
  | some channel =>
    simp only [labels,hc,Option.map_some,Option.elim_some,setChannel_index]
    rw [slot]

theorem removeClient_index (s : Manger) (c : ClientId) :
    (s.removeClient c).2.index = setBoth s.labels s.index c none := by
  have slot := setClient_index s (s.clients c).targetType (s.clients c).targetId none (.inl rfl)
  unfold removeClient setBoth
  cases hc : (s.clients c).channel with
  | none =>
    simp only [labels,hc,Option.map_none,Option.elim_none]
    exact slot
  | some channel =>
    simp only [labels,hc,Option.map_some,Option.elim_some,setChannel_index]
    rw [slot]

theorem removeChannel_index (s : Manger) (channel : Channel) :
    (s.removeChannel channel).2.index =
      match s.rpcChannelClientMap (getChannelKey channel) with
      | none => setKey s.index (getChannelKey channel) none
      | some c => setSlot (setKey s.index (getChannelKey channel) none) (s.labels.slot c) none := by
  unfold removeChannel
  cases hc : s.rpcChannelClientMap (getChannelKey channel) with
  | none => rfl
  | some c =>
    exact setClient_index (s.setChannel (getChannelKey channel) none) _ _ none (.inl rfl)

theorem addClient_clients (s : Manger) (c : ClientId) : (s.addClient c).2.clients = s.clients := by
  unfold addClient
  cases hc : (s.clients c).channel <;> simp [hc]

theorem removeClient_clients (s : Manger) (c : ClientId) :
    (s.removeClient c).2.clients = s.clients := by
  unfold removeClient
  cases hc : (s.clients c).channel <;> simp [hc]

theorem removeChannel_clients (s : Manger) (channel : Channel) :
    (s.removeChannel channel).2.clients = s.clients := by
  unfold removeChannel
  cases s.rpcChannelClientMap (getChannelKey channel) <;> simp

theorem labels_eq {s t : Manger} (h : t.clients = s.clients) : t.labels = s.labels := by
  unfold labels
  rw [h]

theorem removeChannel_coherent {s : Manger} (h : s.Coherent) (channel : Channel) :
    (s.removeChannel channel).2.Coherent := by
  unfold Coherent
  rw [labels_eq (s.removeChannel_clients channel),removeChannel_index]
  cases hc : s.rpcChannelClientMap (getChannelKey channel) with
  | none =>
    have same : setKey s.index (getChannelKey channel) none = s.index :=
      congrArg (Index.mk s.index.bySlot) (Function.update_eq_self_iff.mpr hc.symm)
    rw [same]
    exact h
  | some c => exact removeKey_coherent h hc

theorem Coherent.removesOwn {s : Manger} (h : s.Coherent) (channel : Channel) :
    s.RemovesOwn channel := by
  intro t i c hc hn
  have slots := congrFun (congrArg Index.bySlot (s.removeChannel_index channel)) (t,i)
  change (s.removeChannel channel).2.client t i = _ at slots
  rw [hn] at slots
  cases hd : s.rpcChannelClientMap (getChannelKey channel) with
  | none =>
    rw [hd] at slots
    exact absurd (slots.trans hc) nofun
  | some d =>
    rw [hd] at slots
    have filed := h.slot_of_key hd
    by_cases e : (t,i) = s.labels.slot d
    · rw [←e] at filed
      have cd : some c = some d := hc.symm.trans filed
      cases cd
      exact h.keyed _ _ hd
    · have kept : none = s.client t i := slots.trans (Function.update_of_ne e _ _)
      rw [hc] at kept
      cases kept

end Manger

/-! ### The machine of the registry -/

/-- A request misses although the id that discovery answers has a client. -/
def ConnectsAgain (env : Environment) (s : Manger) (t : Option ServerType) (i : BitVec 32) : Prop :=
  s.client t i = none ∧ ∃ infoResp, getServiceInfo env t i = .ok (some infoResp) ∧
    (s.client t infoResp.svrId).isSome

theorem connectAgain_state (env : Environment) (s : Manger) (effects : List Effect)
    (t : Option ServerType) (i : BitVec 32) (infoResp : GetServiceInfoResp) (method : Utf8String)
    (msg : ByteString) (needResponse : Bool) (present : (s.rpcClientMap t).isSome) :
    (connectAgain env s effects t i infoResp method msg needResponse).state.client t i =
        some s.fresh ∧
      ((connectAgain env s effects t i infoResp method msg needResponse).state.clients
        s.fresh).targetType = none := by
  have slot := Manger.setClient_client (s.newClient infoResp.host infoResp.port
    (env.connect infoResp.host infoResp.port)) t i (some s.fresh) (.inr present) t i
  rw [if_pos ⟨rfl,rfl⟩] at slot
  cases hc : (env.connect infoResp.host infoResp.port).channel with
  | none =>
    simp only [connectAgain,hc]
    exact ⟨slot,by simp [Manger.newClient]⟩
  | some channel =>
    simp only [connectAgain,hc,send_state,Manger.setChannel_client,Manger.setChannel_clients]
    exact ⟨slot,by simp [Manger.newClient]⟩

theorem request_maps {env : Environment} {s : Manger} {t : Option ServerType} {i : BitVec 32}
    (method : Utf8String) (msg : ByteString) (needResponse : Bool)
    (h : ¬ConnectsAgain env s t i) :
    (request env s t i method msg needResponse).state = s.computeIfAbsent t := by
  cases hit : s.client t i with
  | some c => rw [request_hit method msg needResponse hit,send_state]
  | none =>
    cases ha : getServiceInfo env t i with
    | error e => rw [request_error method msg needResponse hit ha]
    | ok answer =>
      obtain ⟨infoReq,hr⟩ := request_miss method msg needResponse hit ha
      rw [hr]
      cases answer with
      | none => rfl
      | some infoResp =>
        cases hc : s.client t infoResp.svrId with
        | none => simp only [hc,send_state]
        | some c => exact absurd ⟨hit,infoResp,ha,by rw [hc]; rfl⟩ h

theorem connectsAgain_incoherent {env : Environment} {s : Manger} {t : Option ServerType}
    {i : BitVec 32} (method : Utf8String) (msg : ByteString) (needResponse : Bool)
    (h : ConnectsAgain env s t i) :
    ¬(request env s t i method msg needResponse).state.Coherent := by
  obtain ⟨miss,infoResp,ha,stored⟩ := h
  obtain ⟨c,hc⟩ := Option.isSome_iff_exists.mp stored
  obtain ⟨infoReq,hr⟩ := request_miss method msg needResponse miss ha
  simp only [hc] at hr
  rw [hr]
  intro coherent
  obtain ⟨slot,target⟩ := connectAgain_state env (s.computeIfAbsent t)
    [.write infoReq env.discoverClient] t i infoResp method msg needResponse
    (s.computeIfAbsent_present t)
  have own := ((coherent.filed (t,i) _).mp slot).1
  have type : (none : Option ServerType) = t := target.symm.trans (congrArg Prod.fst own)
  subst type
  cases ha

inductive Action where
  | addClient (c : ClientId)
  | removeClient (c : ClientId)
  | removeChannel (channel : Channel)
  | request (env : Environment) (serverType : Option ServerType) (serverId : BitVec 32)
      (method : Utf8String) (msg : ByteString) (needResponse : Bool)

/-- An operation is called with clients that exist. -/
def step (s : Manger) : Action → Option Manger
  | .addClient c => if c < s.fresh then some (s.addClient c).2 else none
  | .removeClient c => if c < s.fresh then some (s.removeClient c).2 else none
  | .removeChannel channel => some (s.removeChannel channel).2
  | .request env t i method msg needResponse =>
    some (request env s t i method msg needResponse).state

def start (clients : ClientId → RpcBaseClient) (fresh : ClientId) : Manger :=
  ⟨clients,fresh,fun _ => none,fun _ => none⟩

def machine (clients : ClientId → RpcBaseClient) (fresh : ClientId) : Machine Manger Action :=
  ⟨start clients fresh,step⟩

/-- The maps are coherent after every prefix of the run, and no removal by a channel takes
    the entry of a client with another channel key. -/
def CoherentRun (clients : ClientId → RpcBaseClient) (fresh : ClientId) (as : List Action) : Prop :=
  Along (machine clients fresh) (fun _ s cs =>
    s.Coherent ∧ ∀ channel ds, cs = .removeChannel channel :: ds → s.RemovesOwn channel)
    (start clients fresh) as

/-- The client has a channel if it is to be added; its two entries hold one client or
    none; and no request connects again to a server that has a client. -/
def KeepsCoherent (s : Manger) : Action → Prop
  | .addClient c => (s.clients c).channel.isSome ∧
      s.client (s.clients c).targetType (s.clients c).targetId =
        (s.clients c).channel.bind (fun ch => s.rpcChannelClientMap (getChannelKey ch))
  | .removeClient c => s.client (s.clients c).targetType (s.clients c).targetId =
      (s.clients c).channel.bind (fun ch => s.rpcChannelClientMap (getChannelKey ch))
  | .removeChannel _ => True
  | .request env t i _ _ _ => ¬ConnectsAgain env s t i

theorem atKey_labels (s : Manger) (c : ClientId) : atKey s.labels s.index c =
    (s.clients c).channel.bind (fun ch => s.rpcChannelClientMap (getChannelKey ch)) := by
  simp only [atKey,Manger.labels,Option.bind_map]
  rfl

theorem step_coherent_iff {s t : Manger} {a : Action} (h : s.Coherent) (hs : step s a = some t) :
    t.Coherent ↔ KeepsCoherent s a := by
  cases a with
  | addClient c =>
    simp only [step] at hs
    split_ifs at hs
    cases hs
    unfold Manger.Coherent KeepsCoherent
    rw [Manger.labels_eq (s.addClient_clients c),Manger.addClient_index,add_coherent_iff h,
      atKey_labels]
    simp only [Manger.labels,Manger.index,Option.isSome_map]
  | removeClient c =>
    simp only [step] at hs
    split_ifs at hs
    cases hs
    unfold Manger.Coherent KeepsCoherent
    rw [Manger.labels_eq (s.removeClient_clients c),Manger.removeClient_index,
      remove_coherent_iff h,atKey_labels]
    rfl
  | removeChannel channel =>
    cases hs
    exact iff_of_true (Manger.removeChannel_coherent h channel) trivial
  | request env u i method msg needResponse =>
    cases hs
    unfold KeepsCoherent
    constructor
    · intro coherent again
      exact connectsAgain_incoherent method msg needResponse again coherent
    · intro keeps
      rw [request_maps method msg needResponse keeps]
      unfold Manger.Coherent
      rw [Manger.computeIfAbsent_index,Manger.labels_eq (s.computeIfAbsent_clients u)]
      exact h

theorem start_coherent (clients : ClientId → RpcBaseClient) (fresh : ClientId) :
    (start clients fresh).Coherent :=
  coherent_empty _

/-- A run keeps the two maps coherent, and its removals to their own clients, exactly if
    every step meets `KeepsCoherent`. -/
theorem coherentRun_iff {clients : ClientId → RpcBaseClient} {fresh : ClientId}
    {as : List Action} {s : Manger} (h : Run (machine clients fresh) (start clients fresh) as s) :
    CoherentRun clients fresh as ↔
      Guarded (machine clients fresh) KeepsCoherent (start clients fresh) as := by
  have always_iff := h.always_iff (I := Manger.Coherent) (G := KeepsCoherent)
    (fun _ _ _ hi hs => step_coherent_iff hi hs) (start_coherent clients fresh)
  rw [←always_iff]
  constructor
  · intro run bs cs u eq hr
    exact (run bs cs u eq hr).1
  · intro always bs cs u eq hr
    have coherent := always bs cs u eq hr
    exact ⟨coherent,fun channel _ _ => coherent.removesOwn channel⟩

def channelA : Channel := ⟨"0a","[id: 0x0a]"⟩
def channelB : Channel := ⟨"0b","[id: 0x0b]"⟩

def connections : ClientId → RpcBaseClient
  | 0 => ⟨some .access,1,none,0,some channelA⟩
  | _ => ⟨some .access,1,none,0,some channelB⟩

/-- Two servers, each with a connection of its own. -/
def apart : ClientId → RpcBaseClient
  | 0 => ⟨some .access,1,none,0,some channelA⟩
  | _ => ⟨some .access,2,none,0,some channelB⟩

def apartRun : List Action := [.addClient 0,.addClient 1,.removeChannel channelA]

/-- The connection that goes inactive takes its own client with it and not the other. -/
theorem two_clients_coherent : ∃ s, Run (machine apart 2) (start apart 2) apartRun s ∧
    CoherentRun apart 2 apartRun ∧ s.client (some .access) 1 = none ∧
      s.client (some .access) 2 = some 1 ∧
      s.rpcChannelClientMap (getChannelKey channelB) = some 1 := by
  have run : Run (machine apart 2) (start apart 2) apartRun _ := run_endOf (by decide)
  exact ⟨_,run,(coherentRun_iff run).mpr (.cons rfl ⟨rfl,rfl⟩ (.cons rfl ⟨rfl,rfl⟩
    (.cons rfl trivial trivial))),rfl,rfl,rfl⟩

/-- The old connection goes inactive after its replacement was added. -/
def replacedRun : List Action := [.addClient 0,.addClient 1,.removeChannel channelA]

theorem replacement_removed : ∃ s, Run (machine connections 2) (start connections 2) replacedRun s ∧
    s.client (some .access) 1 = none ∧ s.rpcChannelClientMap (getChannelKey channelB) = some 1 ∧
      ¬CoherentRun connections 2 replacedRun := by
  refine ⟨_,run_endOf (by decide),rfl,rfl,?_⟩
  intro coherent
  have before : Run (machine connections 2) (start connections 2) [.addClient 0,.addClient 1] _ :=
    run_endOf (by decide)
  have own := (coherent _ [.removeChannel channelA] _ rfl before).2 channelA [] rfl
  have key := own (some .access) 1 1 rfl rfl
  exact absurd key (by decide)

end SeeU.RpcClientManger
