import SeeU.DiscoverNetworkAnswers

set_option autoImplicit false

/-!
# What the discover server knows of a process

The entry of a process in the registry follows what the process has announced of itself,
whatever the others send, as long as no two processes have the same type and id.
-/
namespace SeeU.DiscoverNetwork
open WireFormat DiscoverMsg DiscoverClient TransitionSystem RequestNetwork
open DiscoverConcurrent (InvocationId)
open DiscoverHandler (Call registered registered_snoc)

/-- No two processes have one type and one id. -/
def Distinct {P : Type} (processes : P → Process) : Prop :=
  ∀ p q t, (processes p).serverInfo.serverType = some t →
    (processes q).serverInfo.serverType = some t →
    (processes p).serverInfo.serverId = (processes q).serverInfo.serverId → p = q

/-- The registered address of a type and id. -/
def address {C : Type} (s : EventLoops C) (t : ServerType) (i : BitVec 32) :
    Option (Utf8String × BitVec 32) :=
  (s.handler.handler.lookup t i).map (fun r => (r.host,r.port))

/-- The entry that the calls for a process leave. -/
def entry (p : Process) (calls : List Call) : Option (Utf8String × BitVec 32) :=
  match calls.getLast? with
  | some (.register _) => some (p.serviceHost,p.servicePort)
  | _ => none

/-- The calls for the requests of a process, in the order of their effects. -/
def announced {P C : Type} [DecidableEq P] (owner : C → P) (s : EventLoops C) (p : P) :
    List Call :=
  (s.handler.history.filter (fun e => (s.source e.1).map (fun x => owner x.1) = some p)).map
    Prod.snd

/-! ### One call -/

/-- The calls that the announcements of a process come to. -/
inductive Announces (p : Process) : Call → Prop where
  | register {t : ServerType} {svrType : BitVec 32} (label : p.Labelled t svrType) :
      Announces p (.register ⟨svrType,p.serverInfo.serverId,p.serviceHost,p.servicePort⟩)
  | unregister {t : ServerType} {svrType : BitVec 32} (label : p.Labelled t svrType) :
      Announces p (.unregister ⟨svrType,p.serverInfo.serverId⟩)

section Announces
variable {p : Process} {call : Call} {t : ServerType}

/-- A call for a process is about its own key. -/
theorem Announces.key (h : Announces p call) : ∃ t, p.serverInfo.serverType = some t ∧
    call.event.key = (t,p.serverInfo.serverId) := by
  cases h with
  | register label | unregister label =>
    refine ⟨_,label.type,?_⟩
    rw [←ServerType.ofRaw_getNumber label.number]
    rfl

theorem Announces.entry_snoc (h : Announces p call) (calls : List Call) :
    entry p (calls ++ [call]) = call.event.value.map (fun r => (r.host,r.port)) := by
  unfold entry
  rw [List.getLast?_concat]
  cases h <;> rfl

end Announces

/-! ### The calls in the order of their effects -/

section Registry
variable {P C : Type} {processes : P → Process} {owner : C → P} {w : World P C} {p : P}
  {t : ServerType}

/-- What has taken effect was announced by the process that owns the connection. -/
theorem Traffic.announces [DecidableEq C] (h : Traffic processes owner w) {i : InvocationId}
    {call : Call} (made : (i,call) ∈ w.server.handler.history) : ∃ x, w.server.source i = some x ∧
      Announces (processes (owner x.1)) call := by
  obtain ⟨c,req,source,hd⟩ := h.loops.history i call made
  refine ⟨(c,req),source,?_⟩
  cases h.sources i c req source with
  | register hm =>
    obtain ⟨t,svrType,label,announced⟩ := register_dispatch hm
    rw [announced] at hd
    cases hd
    exact .register label
  | unregister hm =>
    obtain ⟨t,svrType,label,announced⟩ := unregister_dispatch hm
    rw [announced] at hd
    cases hd
    exact .unregister label
  | call hc =>
    obtain ⟨_,_,_,hm⟩ := h.asked _ _ _ hc
    obtain ⟨q,query⟩ := getServiceInfoMsg_query hm
    rw [query.dispatch] at hd
    cases hd

variable [DecidableEq P]

/-- The calls of the other processes do not touch the entry of a process. -/
theorem registered_own (distinct : Distinct processes)
    (ht : (processes p).serverInfo.serverType = some t) (s : EventLoops C)
    (log : List (InvocationId × Call)) (made : ∀ e ∈ log, ∃ x, s.source e.1 = some x ∧
      Announces (processes (owner x.1)) e.2) :
    (registered (log.map Prod.snd) t (processes p).serverInfo.serverId).map
        (fun r => (r.host,r.port)) =
      entry (processes p) ((log.filter (fun e =>
        (s.source e.1).map (fun x => owner x.1) = some p)).map Prod.snd) := by
  induction log using List.reverseRecOn with
  | nil => rfl
  | append_singleton log e ih =>
    obtain ⟨x,source,announces⟩ := made e (by simp)
    obtain ⟨t',type,key⟩ := announces.key
    have before := ih (fun d hd => made d (by simp [hd]))
    rw [List.map_append,List.map_singleton,registered_snoc,List.filter_append,List.map_append,key]
    by_cases own : owner x.1 = p
    · subst own
      rw [ht] at type
      cases type
      rw [if_pos rfl,List.filter_cons_of_pos (by simp [source]),List.filter_nil,
        List.map_singleton,announces.entry_snoc]
    · have ne : (t',(processes (owner x.1)).serverInfo.serverId) ≠
          (t,(processes p).serverInfo.serverId) := by
        intro same
        obtain ⟨rfl,id⟩ := Prod.mk.inj same
        exact own (distinct (owner x.1) p t' type ht id)
      rw [if_neg ne,List.filter_cons_of_neg (by simpa [source] using own),List.filter_nil,
        List.map_nil,List.append_nil]
      exact before

variable [DecidableEq C]

/-- What the only connection of a process has carried. -/
theorem announced_effects {c : C} (only : ∀ d, owner d = p ↔ d = c) (s : EventLoops C) :
    announced owner s p = s.effects c := by
  unfold announced EventLoops.effects
  congr 1
  apply List.filter_congr
  intro e _
  cases s.source e.1 with
  | none => rfl
  | some x => simp [only]

/-- Whatever the other processes and the network do, the entry of a process is what its own
    announcements have made it, by the last that has taken effect. Once nothing is under way
    on its only connection, if that is not lost, this is the last it has sent. -/
theorem registry_follows_announcements {as : List (Action P C)}
    (run : Run (machine processes owner) (init processes) as w) (distinct : Distinct processes)
    (ht : (processes p).serverInfo.serverType = some t) :
    address w.server t (processes p).serverInfo.serverId =
        entry (processes p) (announced owner w.server p) ∧
      ∀ c, (∀ d, owner d = p ↔ d = c) → w.net.lost c = false → w.net.requests.pending c = [] →
        w.server.handling c = none →
        address w.server t (processes p).serverInfo.serverId =
          entry (processes p) (changes (on c w.net.requests.sent)) := by
  have traffic := traffic_run run
  have now : address w.server t (processes p).serverInfo.serverId =
      entry (processes p) (announced owner w.server p) := by
    unfold address
    rw [traffic.loops.handler.lookup]
    exact registered_own distinct ht w.server w.server.handler.history (fun _ => traffic.announces)
  refine ⟨now,?_⟩
  intro c only kept arrived idle
  have complete := traffic.ordered.requests.complete c kept
  rw [arrived,List.append_nil] at complete
  have order := traffic.inOrder c
  rw [underWay_idle idle,List.append_nil,complete] at order
  rw [now,announced_effects only,order]

end Registry

/-- Both register, one is destroyed, and the two event loops are in the handler together. -/
def announceRun : List (Action Bool Bool) :=
  [.clientActive true 5,.clientActive false 5,.destroy false 7,.serverRead false 0,
    .serverRead true 1,.serverAccess (.getMap 0),.serverAccess (.getMap 1),
    .serverAccess (.access 0),.serverWrite false,.serverRead false 2,.serverAccess (.getMap 2),
    .serverAccess (.access 2),.serverAccess (.access 1),.serverWrite true,.serverWrite false]

theorem remaining_process_registered : ∃ w, Run localMachine localMachine.init announceRun w ∧
    address w.server .access 3 = some (DiscoverHandler.accessOne.host,9000) ∧
    address w.server .access 4 = none := by
  have run : Run localMachine localMachine.init announceRun _ := run_endOf (by decide +kernel)
  have distinct : Distinct twoProcesses := by
    intro p q t _ _ id
    cases p <;> cases q <;> first | rfl | exact absurd id (by decide)
  refine ⟨_,run,?_,?_⟩
  · exact ((registry_follows_announcements (p := true) run distinct rfl).2 true (fun _ => .rfl)
      rfl rfl rfl).trans (by decide +kernel)
  · exact ((registry_follows_announcements (p := false) run distinct rfl).2 false (fun _ => .rfl)
      rfl rfl rfl).trans (by decide +kernel)

end SeeU.DiscoverNetwork
