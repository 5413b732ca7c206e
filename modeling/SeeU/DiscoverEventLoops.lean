import SeeU.DiscoverExchange

set_option autoImplicit false

/-!
# The event loops of the discover server

The messages of a connection are read by one event loop, which takes the next one when the
method called for the last has returned. The event loops of different connections are in
the handler at the same time.
-/
namespace SeeU.DiscoverNetwork
open WireFormat DiscoverMsg DiscoverConcurrent TransitionSystem
open DiscoverHandler (Call)

/-! ### The machine -/

structure EventLoops (C : Type) where
  handler : DiscoverConcurrent.State
  /-- The request that the event loop of a connection is in the handler with. -/
  handling : C → Option (InvocationId × Request)
  /-- Where each call comes from, which the program does not keep. -/
  source : InvocationId → Option (C × Request)

/-- The request that the bytes of one read hold, if the server makes a call for it. -/
def received (buf : Bytes) : Option (Request × Operation) := do
  let parsed ← Request.schema.parseFrom buf
  let operation ← dispatch parsed.message
  return (parsed.message,operation)

namespace EventLoops
variable {C : Type}

def start : EventLoops C := ⟨DiscoverConcurrent.machine.init,fun _ => none,fun _ => none⟩

variable [DecidableEq C]

/-- The event loop of `c` enters the handler with a request. -/
def enter (s : EventLoops C) (c : C) (i : InvocationId) (req : Request) (handler : State) :
    EventLoops C :=
  ⟨handler,Function.update s.handling c (some (i,req)),Function.update s.source i (some (c,req))⟩

def setHandler (s : EventLoops C) (handler : State) : EventLoops C := { s with handler := handler }

def leave (s : EventLoops C) (c : C) : EventLoops C :=
  { s with handling := Function.update s.handling c none }

/-- Up to the method; an exception before it ends in the pipeline or in `serviceInvoke`. -/
def read (s : EventLoops C) (c : C) (i : InvocationId) (buf : Bytes) : Option (EventLoops C) :=
  match s.handling c,received buf with
  | some _,_ => none
  | none,none => some s
  | none,some (req,operation) =>
    (DiscoverConcurrent.step s.handler (.invoke i operation)).map (s.enter c i req)

/-- One access of a method to the maps. -/
def access (s : EventLoops C) : DiscoverConcurrent.Action → Option (EventLoops C)
  | .invoke _ _ => none
  | a => (DiscoverConcurrent.step s.handler a).map s.setHandler

/-- What is left of `channelRead0` once the method has returned. -/
def write (s : EventLoops C) (c : C) : Option (Option Bytes × EventLoops C) :=
  (s.handling c).bind (fun handled => (s.handler.invocations handled.1).bind (fun inv =>
    match inv.phase with
    | .returned result _ => some (answerOf handled.2 result,s.leave c)
    | _ => none))

end EventLoops

/-! ### What an access does -/

def callOf : Operation → Option Call
  | .change call => some call
  | .getServiceInfo _ => none

/-- The change that a call has yet to make. -/
def pending (inv : Invocation) : List Call :=
  match inv.phase with
  | .returned _ _ => []
  | _ => (callOf inv.operation).toList

def made (inv : Invocation) : List Call :=
  match inv.phase with
  | .returned _ _ => (callOf inv.operation).toList
  | _ => []

/-- The call `i` goes from `inv` to `new`, and takes effect when it returns. -/
structure Accessed (s t : State) (i : InvocationId) (inv new : Invocation) : Prop where
  before : s.invocations i = some inv
  running : inv.phase.Running
  after : t.invocations = Function.update s.invocations i (some new)
  operation : new.operation = inv.operation
  start : new.start = inv.start
  history : t.history = s.history ++ (made new).map (fun call => (i,call))

section Access
variable {s t : State} {i : InvocationId} {inv new : Invocation}

theorem pending_running (h : inv.phase.Running) : pending inv = (callOf inv.operation).toList := by
  obtain ⟨operation,start,phase⟩ := inv
  cases phase with
  | returned result finish => exact h.elim
  | _ => rfl

theorem made_running (h : inv.phase.Running) : made inv = [] := by
  obtain ⟨operation,start,phase⟩ := inv
  cases phase with
  | returned result finish => exact h.elim
  | _ => rfl

theorem made_pending (inv : Invocation) :
    made inv ++ pending inv = (callOf inv.operation).toList := by
  obtain ⟨operation,start,phase⟩ := inv
  cases phase with
  | returned result finish => exact List.append_nil _
  | _ => rfl

/-- An access belongs to a call that is already there. -/
theorem step_old {a : DiscoverConcurrent.Action} (hs : DiscoverConcurrent.step s a = some t)
    (access : ∀ i operation, a ≠ .invoke i operation) (i : InvocationId)
    (h : s.invocations i = none) : t.invocations i = none := by
  have ne : i ≠ a.invocation := by
    rintro rfl
    cases a with
    | invoke j operation => exact access j operation rfl
    | _ =>
      obtain ⟨inv,hc,_⟩ := Option.bind_eq_some_iff.mp hs
      exact absurd (h.symm.trans hc) nofun
  rw [(step_rank hs).1 i ne,h]

theorem step_accessed {a : DiscoverConcurrent.Action} (hi : DiscoverConcurrent.Inv s)
    (hs : DiscoverConcurrent.step s a = some t) (access : ∀ i operation, a ≠ .invoke i operation) :
    ∃ i inv new, Accessed s t i inv new := by
  have old := step_old hs access
  cases step_move hi hs with
  | @invoke i operation new =>
    have absent := old i new
    simp [State.setInvocation] at absent
  | advance handler hc running _ _ next _ =>
    refine ⟨_,_,_,hc,running,rfl,rfl,rfl,?_⟩
    rw [made_running next]
    exact (List.append_nil _).symm
  | @change handler i inv call hc running operation _ _ _ _ =>
    refine ⟨_,_,_,hc,running,rfl,rfl,rfl,?_⟩
    change _ ++ [(i,call)] = _ ++ ((callOf inv.operation).toList).map _
    rw [operation]
    rfl
  | @answer i inv q result hc running operation _ _ =>
    refine ⟨_,_,_,hc,running,rfl,rfl,rfl,?_⟩
    change _ = _ ++ ((callOf inv.operation).toList).map _
    rw [operation]
    exact (List.append_nil _).symm

theorem Accessed.of_ne (h : Accessed s t i inv new) {j : InvocationId} (ne : j ≠ i) :
    t.invocations j = s.invocations j := by
  rw [h.after,Function.update_of_ne ne]

theorem Accessed.self (h : Accessed s t i inv new) : t.invocations i = some new := by
  rw [h.after,Function.update_self]

/-- Whoever is in the handler after the access was there before, with the same operation. -/
theorem Accessed.back (h : Accessed s t i inv new) {j : InvocationId} {inv' : Invocation}
    (hj : t.invocations j = some inv') : ∃ old, s.invocations j = some old ∧
      inv'.operation = old.operation ∧ inv'.start = old.start ∧
      (inv'.phase.Running → old.phase.Running) := by
  by_cases same : j = i
  · subst same
    rw [h.self] at hj
    cases hj
    exact ⟨inv,h.before,h.operation,h.start,fun _ => h.running⟩
  · rw [h.of_ne same] at hj
    exact ⟨inv',hj,rfl,rfl,id⟩

/-- A call that has returned stays as it is. -/
theorem Accessed.returned (h : Accessed s t i inv new) {j : InvocationId} {inv' : Invocation}
    (hj : s.invocations j = some inv') (ended : ¬ inv'.phase.Running) :
    t.invocations j = some inv' := by
  have ne : j ≠ i := by
    rintro rfl
    rw [h.before] at hj
    cases hj
    exact ended h.running
  rw [h.of_ne ne,hj]

end Access

/-! ### What a step can do -/

inductive Event (C : Type) where
  | read (c : C) (buf : Bytes)
  | access
  | write (c : C) (answer : Option Bytes)

section Turns
variable {C : Type} [DecidableEq C]

inductive Turn (s : EventLoops C) : Event C → EventLoops C → Prop where
  | ignore {c : C} {buf : Bytes} (idle : s.handling c = none) (hb : received buf = none) :
      Turn s (.read c buf) s
  | invoke {c : C} {buf : Bytes} {i : InvocationId} {req : Request} {operation : Operation}
      (idle : s.handling c = none) (hb : received buf = some (req,operation))
      (new : s.handler.invocations i = none) :
      Turn s (.read c buf) (s.enter c i req
        (s.handler.setInvocation i ⟨operation,s.handler.history.length,.started⟩))
  | access {handler : State} {a : DiscoverConcurrent.Action} {i : InvocationId}
      {inv new : Invocation} (hs : DiscoverConcurrent.step s.handler a = some handler)
      (h : Accessed s.handler handler i inv new) : Turn s .access (s.setHandler handler)
  | write {c : C} {i : InvocationId} {req : Request} {inv : Invocation}
      {result : Except Throwable (Option GetServiceInfoResp)} {finish : ℕ}
      (handled : s.handling c = some (i,req)) (hi : s.handler.invocations i = some inv)
      (ended : inv.phase = .returned result finish) :
      Turn s (.write c (answerOf req result)) (s.leave c)

variable {s t : EventLoops C} {c : C}

theorem read_turn {i : InvocationId} {buf : Bytes} (h : s.read c i buf = some t) :
    Turn s (.read c buf) t := by
  unfold EventLoops.read at h
  split at h
  · cases h
  · cases h
    exact .ignore ‹_› ‹_›
  · obtain ⟨handler,hs,rfl⟩ := Option.map_eq_some_iff.mp h
    simp only [DiscoverConcurrent.step] at hs
    split at hs
    · cases hs
      exact .invoke ‹_› ‹_› ‹_›
    · cases hs

theorem access_turn {a : DiscoverConcurrent.Action} (hi : DiscoverConcurrent.Inv s.handler)
    (h : s.access a = some t) : Turn s .access t := by
  have taken : (∀ i operation, a ≠ .invoke i operation) ∧
      (DiscoverConcurrent.step s.handler a).map s.setHandler = some t := by
    cases a with
    | invoke i operation => cases h
    | _ => exact ⟨nofun,h⟩
  obtain ⟨access,h⟩ := taken
  obtain ⟨handler,hs,rfl⟩ := Option.map_eq_some_iff.mp h
  obtain ⟨i,inv,new,accessed⟩ := step_accessed hi hs access
  exact .access hs accessed

theorem write_turn {answer : Option Bytes} (h : s.write c = some (answer,t)) :
    Turn s (.write c answer) t := by
  obtain ⟨⟨i,req⟩,handled,h⟩ := Option.bind_eq_some_iff.mp h
  obtain ⟨inv,hi,h⟩ := Option.bind_eq_some_iff.mp h
  split at h
  · cases h
    exact .write handled hi ‹_›
  · cases h

end Turns

/-! ### Each call belongs to a request -/

/-- What the event loops do to the handler is a run of it. The request of a call has its
    operation, and the event loop that has taken it stays in the call until it returns. -/
structure EventLoops.Inv {C : Type} (s : EventLoops C) : Prop where
  reached : ∃ as, Run DiscoverConcurrent.machine DiscoverConcurrent.machine.init as s.handler
  new : ∀ i, s.handler.invocations i = none → s.source i = none
  traced : ∀ i inv, s.handler.invocations i = some inv → ∃ c req,
    s.source i = some (c,req) ∧ dispatch req = some inv.operation
  handled : ∀ c i req, s.handling c = some (i,req) → s.source i = some (c,req)
  running : ∀ i inv c req, s.handler.invocations i = some inv → inv.phase.Running →
    s.source i = some (c,req) → s.handling c = some (i,req)
  history : ∀ i call, (i,call) ∈ s.handler.history → ∃ c req,
    s.source i = some (c,req) ∧ dispatch req = some (.change call)

section Inv
variable {C : Type} {s t : EventLoops C}

theorem received_eq_some {buf : Bytes} {req : Request} {operation : Operation}
    (h : received buf = some (req,operation)) :
    (Request.schema.parseFrom buf).map Parsed.message = some req ∧
      dispatch req = some operation := by
  obtain ⟨parsed,hp,h⟩ := Option.bind_eq_some_iff.mp h
  obtain ⟨operation',ho,h⟩ := Option.bind_eq_some_iff.mp h
  cases h
  exact ⟨by rw [hp]; rfl,ho⟩

theorem received_encoded (req : Request) :
    received req.toByteArray = (dispatch req).map (fun operation => (req,operation)) := by
  unfold received Request.toByteArray
  rw [Request.schema.parseFrom_writeTo]
  change (dispatch req).bind _ = _
  cases dispatch req <;> rfl

theorem EventLoops.Inv.handler (hi : s.Inv) : DiscoverConcurrent.Inv s.handler := by
  obtain ⟨as,run⟩ := hi.reached
  exact inv_run run

theorem EventLoops.Inv.reaches (hi : s.Inv) {a : DiscoverConcurrent.Action} {handler : State}
    (hs : DiscoverConcurrent.step s.handler a = some handler) :
    ∃ as, Run DiscoverConcurrent.machine DiscoverConcurrent.machine.init as handler := by
  obtain ⟨as,run⟩ := hi.reached
  exact ⟨as ++ [a],run.snoc hs⟩

theorem loops_start : (EventLoops.start : EventLoops C).Inv where
  reached := ⟨[],.nil _⟩
  new _ _ := rfl
  traced _ _ h := by cases h
  handled _ _ _ h := by cases h
  running _ _ _ _ h := by cases h
  history _ _ h := by cases h

theorem EventLoops.Inv.access (hi : s.Inv) {handler : State} {a : DiscoverConcurrent.Action}
    {i : InvocationId} {inv new : Invocation}
    (hs : DiscoverConcurrent.step s.handler a = some handler)
    (h : Accessed s.handler handler i inv new) : (s.setHandler handler).Inv := by
  refine ⟨hi.reaches hs,?_,?_,hi.handled,?_,?_⟩
  · intro j absent
    by_cases same : j = i
    · subst same
      exact absurd (h.self.symm.trans absent) nofun
    · exact hi.new j ((h.of_ne same).symm.trans absent)
  · intro j inv' hj
    obtain ⟨old,ho,operation,_,_⟩ := h.back hj
    rw [operation]
    exact hi.traced j old ho
  · intro j inv' c req hj running source
    obtain ⟨old,ho,_,_,ran⟩ := h.back hj
    exact hi.running j old c req ho (ran running) source
  · intro j call hj
    change (j,call) ∈ handler.history at hj
    rw [h.history,List.mem_append,List.mem_map] at hj
    rcases hj with hj | ⟨call',hm,eq⟩
    · exact hi.history j call hj
    · cases eq
      obtain ⟨c,req,source,hd⟩ := hi.traced i inv h.before
      refine ⟨c,req,source,hd.trans ?_⟩
      have mem : call ∈ (callOf inv.operation).toList := by
        rw [←h.operation,←made_pending new]
        exact List.mem_append_left _ hm
      cases ho : inv.operation with
      | change call' =>
        rw [ho] at mem
        rw [List.mem_singleton.mp mem]
      | getServiceInfo q =>
        rw [ho] at mem
        cases mem

variable [DecidableEq C] {e : Event C}

/-- What a step keeps of where the calls come from. -/
theorem Turn.source (hi : s.Inv) (h : Turn s e t) {i : InvocationId} {x : C × Request}
    (hs : s.source i = some x) : t.source i = some x := by
  cases h with
  | @invoke c buf j req operation _ _ new =>
    have ne : i ≠ j := by
      rintro rfl
      rw [hi.new i new] at hs
      cases hs
    dsimp only [EventLoops.enter]
    rw [Function.update_of_ne ne,hs]
  | ignore | access | write => exact hs

theorem EventLoops.Inv.invoke (hi : s.Inv) {c : C} {i : InvocationId} {req : Request}
    {operation : Operation} (idle : s.handling c = none) (hd : dispatch req = some operation)
    (new : s.handler.invocations i = none)
    (kept : ∀ j x, s.source j = some x → Function.update s.source i (some (c,req)) j = some x) :
    (s.enter c i req
      (s.handler.setInvocation i ⟨operation,s.handler.history.length,.started⟩)).Inv := by
  have own : Function.update s.source i (some (c,req)) i = some (c,req) := Function.update_self ..
  have invoked : DiscoverConcurrent.step s.handler (.invoke i operation) =
      some (s.handler.setInvocation i ⟨operation,s.handler.history.length,.started⟩) := by
    simp only [DiscoverConcurrent.step,new]
  refine ⟨hi.reaches invoked,?_,?_,?_,?_,?_⟩
  · intro j absent
    dsimp only [EventLoops.enter,State.setInvocation] at absent ⊢
    by_cases hj : j = i
    · subst hj
      rw [Function.update_self] at absent
      cases absent
    · rw [Function.update_of_ne hj] at absent ⊢
      exact hi.new j absent
  · intro j inv hj
    dsimp only [EventLoops.enter,State.setInvocation] at hj
    by_cases same : j = i
    · subst same
      rw [Function.update_self] at hj
      cases hj
      exact ⟨c,req,own,hd⟩
    · rw [Function.update_of_ne same] at hj
      obtain ⟨d,req',source,operation'⟩ := hi.traced j inv hj
      exact ⟨d,req',kept j _ source,operation'⟩
  · intro d j req' hd
    dsimp only [EventLoops.enter] at hd
    by_cases same : d = c
    · subst same
      rw [Function.update_self] at hd
      cases hd
      exact own
    · rw [Function.update_of_ne same] at hd
      exact kept j _ (hi.handled d j req' hd)
  · intro j inv d req' hj running source
    dsimp only [EventLoops.enter,State.setInvocation] at hj source ⊢
    by_cases same : j = i
    · subst same
      rw [own] at source
      cases source
      rw [Function.update_self]
    · rw [Function.update_of_ne same] at hj source
      have handling := hi.running j inv d req' hj running source
      have ne : d ≠ c := by
        rintro rfl
        rw [idle] at handling
        cases handling
      rw [Function.update_of_ne ne,handling]
  · intro j call hj
    obtain ⟨d,req',source,hd⟩ := hi.history j call hj
    exact ⟨d,req',kept j _ source,hd⟩

theorem EventLoops.Inv.write (hi : s.Inv) {c : C} {i : InvocationId} {req : Request}
    {inv : Invocation} (handled : s.handling c = some (i,req))
    (hj : s.handler.invocations i = some inv)
    (ended : ¬ inv.phase.Running) :
    (s.leave c).Inv := by
  refine ⟨hi.reached,hi.new,hi.traced,?_,?_,hi.history⟩
  · intro d j req' hd
    dsimp only [EventLoops.leave] at hd
    by_cases same : d = c
    · subst same
      rw [Function.update_self] at hd
      cases hd
    · rw [Function.update_of_ne same] at hd
      exact hi.handled d j req' hd
  · intro j inv' d req' hj' running source
    have handling := hi.running j inv' d req' hj' running source
    have ne : d ≠ c := by
      rintro rfl
      rw [handled] at handling
      cases handling
      cases hj.symm.trans hj'
      exact ended running
    dsimp only [EventLoops.leave]
    rw [Function.update_of_ne ne,handling]

/-- A call is there before the step, or belongs to the message that it reads. -/
theorem Turn.source_back (h : Turn s e t) {i : InvocationId} {x : C × Request}
    (hs : t.source i = some x) : s.source i = some x ∨ ∃ c buf req operation,
      e = .read c buf ∧ received buf = some (req,operation) ∧ x = (c,req) := by
  cases h with
  | @invoke c buf j req operation _ hb _ =>
    change Function.update s.source j _ i = _ at hs
    by_cases same : i = j
    · subst same
      rw [Function.update_self] at hs
      cases hs
      exact .inr ⟨c,buf,req,operation,rfl,hb,rfl⟩
    · rw [Function.update_of_ne same] at hs
      exact .inl hs
  | ignore | access | write => exact .inl hs

theorem Turn.inv (hi : s.Inv) (h : Turn s e t) : t.Inv := by
  have kept (j : InvocationId) (x : C × Request) := h.source hi (i := j) (x := x)
  cases h with
  | ignore _ _ => exact hi
  | invoke idle hb new => exact hi.invoke idle (received_eq_some hb).2 new kept
  | access hs h => exact hi.access hs h
  | write handled hj ended => exact hi.write handled hj (by rw [ended]; exact id)

end Inv

/-! ### The answer to a request -/

/-- What a state keeps of an earlier one, whose calls are the ones with a source there. -/
structure Since {C : Type} (s t : EventLoops C) : Prop where
  history : s.handler.history.length ≤ t.handler.history.length
  source : ∀ i x, s.source i = some x → t.source i = some x
  later : ∀ i inv, t.handler.invocations i = some inv → s.source i = none →
    s.handler.history.length ≤ inv.start

/-- A call for a request of the connection has returned, and its answer has these bytes. -/
def Answered {C : Type} (s : EventLoops C) (c : C) (b : Bytes) : Prop :=
  ∃ i req inv result finish, s.source i = some (c,req) ∧ s.handler.invocations i = some inv ∧
    inv.phase = .returned result finish ∧ answerOf req result = some b

section Answers
variable {C : Type} {s t u : EventLoops C}

theorem since_refl (hi : s.Inv) : Since s s := by
  refine ⟨le_rfl,fun _ _ => id,?_⟩
  intro i inv hc absent
  obtain ⟨c,req,source,_⟩ := hi.traced i inv hc
  rw [absent] at source
  cases source

/-- The answer of a query is how it has ended while it ran. -/
theorem Answered.outcome (hi : s.Inv) {c : C} {b : Bytes} (h : Answered s c b) :
    ∃ i req q start finish resp rsp, s.source i = some (c,req) ∧
      dispatch req = some (.getServiceInfo q) ∧ s.handler.invocations i =
        some ⟨.getServiceInfo q,start,.returned (.ok (some resp)) finish⟩ ∧
      start ≤ finish ∧ finish ≤ s.handler.history.length ∧
      Outcome s.handler start finish q (.ok (some resp)) ∧
      Response.schema.parseFrom b = some ⟨rsp,[]⟩ ∧ rsp.msgSeq = req.msgSeq ∧
      DiscoverClient.readServiceInfo (.ok (some rsp)) = some resp := by
  obtain ⟨i,req,⟨operation,start,phase⟩,result,finish,source,hc,rfl,hb⟩ := h
  obtain ⟨resp,rsp,rfl,parsed,seq,read⟩ := answerOf_read hb
  obtain ⟨d,req',source',hd⟩ := hi.traced i _ hc
  rw [source] at source'
  cases source'
  cases hi.handler.known i _ hc with
  | answered order last outcome =>
    exact ⟨i,req,_,start,finish,resp,rsp,source,hd,hc,order,last,outcome,parsed,seq,read⟩

variable [DecidableEq C] {e : Event C}

theorem Since.turn (h : Since s t) (hi : t.Inv) (turn : Turn t e u) : Since s u := by
  refine ⟨?_,fun i x hs => turn.source hi (h.source i x hs),?_⟩
  · cases turn with
    | @access handler _ _ _ _ _ ha =>
      have grown : t.handler.history.length ≤ handler.history.length := by
        rw [ha.history,List.length_append]
        exact Nat.le_add_right _ _
      exact h.history.trans grown
    | ignore | invoke | write => exact h.history
  · intro i inv hc absent
    cases turn with
    | ignore => exact h.later i inv hc absent
    | @invoke c buf j req operation _ _ new =>
      change Function.update t.handler.invocations j _ i = _ at hc
      by_cases same : i = j
      · subst same
        rw [Function.update_self] at hc
        cases hc
        exact h.history
      · rw [Function.update_of_ne same] at hc
        exact h.later i inv hc absent
    | access _ ha =>
      obtain ⟨old,ho,_,start,_⟩ := ha.back hc
      rw [start]
      exact h.later i old ho absent
    | write => exact h.later i inv hc absent

theorem Answered.turn (hi : s.Inv) {c : C} {b : Bytes} (h : Answered s c b) (turn : Turn s e t) :
    Answered t c b := by
  obtain ⟨i,req,inv,result,finish,source,hc,ended,hb⟩ := h
  refine ⟨i,req,inv,result,finish,turn.source hi source,?_,ended,hb⟩
  cases turn with
  | ignore => exact hc
  | @invoke c buf j req operation _ _ new =>
    have ne : i ≠ j := by
      rintro rfl
      rw [new] at hc
      cases hc
    exact (Function.update_of_ne ne _ _).trans hc
  | access _ ha => exact ha.returned hc (by rw [ended]; exact id)
  | write => exact hc

theorem write_answered (hi : s.Inv) {c : C} {b : Bytes} (h : Turn s (.write c (some b)) t) :
    Answered s c b := by
  generalize eq : some b = answer at h
  cases h with
  | write handled hc ended =>
    exact ⟨_,_,_,_,_,hi.handled _ _ _ handled,hc,ended,eq.symm⟩

end Answers

end SeeU.DiscoverNetwork
