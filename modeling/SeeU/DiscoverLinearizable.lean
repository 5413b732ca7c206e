import SeeU.DiscoverConcurrent
import SeeU.Linearizability

set_option autoImplicit false

/-!
# The calls of `DiscoverHandler` in one order

Whatever the threads do, the maps are those of some sequential run of the handler. So are
the answers of the queries, unless the requested server registers during a query.
-/
namespace SeeU.DiscoverConcurrent
open WireFormat DiscoverMsg DiscoverHandler TransitionSystem Linearizability

/-- The handler that one thread calls; the iteration of each query is its own. -/
def object : Object Handler Call (GetServiceInfoReq × GetServiceInfoResp) where
  init := DiscoverHandler.machine.init
  apply
    | s, .register r => s.register r
    | s, .unregister u => s.unregister u
  Answers s a := ∃ it : Iteration, s.getServiceInfo it a.1 = .ok a.2

abbrev Completion := Entry InvocationId Call (GetServiceInfoReq × GetServiceInfoResp)

/-- The requested server does not register between the two moments. -/
def Undisturbed (s : State) (start finish : ℕ) (q : GetServiceInfoReq) : Prop :=
  ∀ n, start ≤ n → n < finish → ∀ r, s.calls[n]? = some (.register r) →
    (r.getSvrType,r.svrId) ≠ (q.getSvrType,q.svrId)

def Describes (s : State) : Completion → Invocation → Prop
  | .change _ call, inv => inv.operation = .change call ∧
      ∃ finish, inv.phase = .returned (.ok none) finish
  | .answer _ (q,resp), inv => inv.operation = .getServiceInfo q ∧
      ∃ finish, inv.phase = .returned (.ok (some resp)) finish ∧ Undisturbed s inv.start finish q

/-- The changes that have returned, and the answers of the undisturbed queries. -/
def Completed (s : State) (e : Completion) : Prop :=
  ∃ inv, s.invocations e.call = some inv ∧ Describes s e inv

namespace State

def Returned (s : State) (c : InvocationId) : Prop :=
  ∃ inv, s.invocations c = some inv ∧ ¬inv.phase.Running

def finishOf (s : State) (c : InvocationId) : ℕ :=
  match s.invocations c with
  | some ⟨_,_,.returned _ finish⟩ => finish
  | _ => 0

end State

/-- In the run one call had returned when the other was invoked. -/
def Precedes (as : List Action) (b c : InvocationId) : Prop :=
  ∃ bs cs u, as = bs ++ cs ∧ Run machine machine.init bs u ∧ u.Returned b ∧
    u.invocations c = none

/-! ### The answers of the sequential handler -/

section Answers
variable {ks : List Call} {q : GetServiceInfoReq}

theorem refines_after (ks : List Call) : Refines ks (object.after object.init ks) := by
  induction ks using List.reverseRecOn with
  | nil => exact refines_run (.nil _)
  | append_singleton ks call ih =>
    rw [Object.after,List.foldl_append]
    refine refines_step (c := call) ih ?_
    cases call <;> rfl

/-- An iteration that returns `r` wherever it can. -/
def preferring (r : Register) : Iteration where
  next values := if r ∈ values then some r else values.head?
  mem_of_next h := by
    split_ifs at h with mem
    · cases h
      exact mem
    · exact List.mem_of_head? h
  nil_of_next h := by
    split_ifs at h
    exact List.head?_eq_none_iff.mp h

theorem object_unknown (never : ∀ r, .register r ∈ ks → r.getSvrType ≠ q.getSvrType) :
    object.Answers (object.after object.init ks) (q,⟨0,0,Utf8String.empty,0⟩) :=
  ⟨entryOrder,getServiceInfo_absent (((refines_after ks).absent _).mpr never)⟩

theorem object_found {r : Register} {number : BitVec 32}
    (hn : q.getSvrType.getNumber = .ok number)
    (hr : registered ks q.getSvrType q.svrId = some r) :
    object.Answers (object.after object.init ks) (q,⟨number,q.svrId,r.host,r.port⟩) := by
  have refines := refines_after ks
  obtain ⟨serverMap,hm⟩ := map_of_registered refines hr
  refine ⟨entryOrder,getServiceInfo_found hm hn ?_⟩
  rw [Handler.findRegister,lookup_of_map refines hm,hr]

theorem object_substitute {r : Register} {number : BitVec 32} {i : BitVec 32}
    (hn : q.getSvrType.getNumber = .ok number)
    (missing : registered ks q.getSvrType q.svrId = none)
    (hr : registered ks q.getSvrType i = some r) :
    object.Answers (object.after object.init ks) (q,⟨number,q.svrId,r.host,r.port⟩) := by
  have refines := refines_after ks
  obtain ⟨serverMap,hm⟩ := map_of_registered refines hr
  have mem : r ∈ values serverMap := mem_values_iff.mpr ⟨i,by rw [lookup_of_map refines hm,hr]⟩
  refine ⟨preferring r,getServiceInfo_found hm hn ?_⟩
  rw [Handler.findRegister,lookup_of_map refines hm,missing]
  simp only [preferring,if_pos mem]

/-- A missing key stays missing until a server registers under it. -/
theorem missing_append {more : List Call} {t : ServerType} {i : BitVec 32}
    (missing : registered ks t i = none)
    (quiet : ∀ r, .register r ∈ more → (r.getSvrType,r.svrId) ≠ (t,i)) :
    registered (ks ++ more) t i = none := by
  induction more using List.reverseRecOn with
  | nil => rw [List.append_nil,missing]
  | append_singleton more call ih =>
    rw [←List.append_assoc,registered_snoc,
      ih (fun r hr => quiet r (List.mem_append_left _ hr))]
    cases call with
    | register r => exact if_neg (quiet r (List.mem_append_right _ (List.mem_singleton_self _)))
    | unregister u => exact ite_self _

end Answers

/-! ### The one invocation of a step -/

/-- The step is one of `c`, which had not returned, and makes it `new`. -/
structure Focus (s t : State) (c : InvocationId) (new : Invocation) : Prop where
  running : ¬s.Returned c
  start : ∀ inv, s.invocations c = some inv → new.start = inv.start
  begin : s.invocations c = none → new.start = s.history.length
  invocations : t.invocations = Function.update s.invocations c (some new)

inductive Effect (s t : State) (c : InvocationId) : Invocation → Prop where
  | silent {new : Invocation} (history : t.history = s.history) (none : ∀ e, ¬Describes t e new) :
      Effect s t c new
  | change {call : Call} {start : ℕ} (history : t.history = s.history ++ [(c,call)]) :
      Effect s t c ⟨.change call,start,.returned (.ok none) (s.history.length+1)⟩
  | answer {q : GetServiceInfoReq} {start : ℕ} {resp : GetServiceInfoResp}
      (history : t.history = s.history)
      (outcome : Outcome s start s.history.length q (.ok (some resp)))
      (quiet : Undisturbed s start s.history.length q) :
      Effect s t c ⟨.getServiceInfo q,start,.returned (.ok (some resp)) s.history.length⟩

section Steps
variable {s t : State} {c : InvocationId} {new : Invocation}

theorem not_describes_of_running (s : State) (running : new.phase.Running) (e : Completion) :
    ¬Describes s e new := by
  intro h
  cases e with
  | change _ _ =>
    obtain ⟨_,_,phase⟩ := h
    rw [phase] at running
    exact running
  | answer _ _ =>
    obtain ⟨_,_,phase,_⟩ := h
    rw [phase] at running
    exact running

theorem not_returned (hc : s.invocations c = some new) (running : new.phase.Running) :
    ¬s.Returned c := by
  rintro ⟨inv,hinv,ended⟩
  rw [hc] at hinv
  cases hinv
  exact ended running

theorem focus_of_running {inv : Invocation} {phase : Phase} (hc : s.invocations c = some inv)
    (running : inv.phase.Running)
    (eq : t.invocations = Function.update s.invocations c (some { inv with phase := phase })) :
    Focus s t c { inv with phase := phase } := by
  refine ⟨not_returned hc running,?_,?_,eq⟩
  · intro old hold
    rw [hc] at hold
    cases hold
    rfl
  · intro none
    rw [hc] at none
    cases none

theorem Move.effect (h : Move s t) : ∃ c new, Focus s t c new ∧ Effect s t c new := by
  cases h with
  | @invoke c operation none =>
    refine ⟨c,⟨operation,s.history.length,.started⟩,⟨?_,?_,fun _ => rfl,rfl⟩,
      .silent rfl (not_describes_of_running _ trivial)⟩
    · rintro ⟨inv,some,_⟩
      rw [none] at some
      cases some
    · intro inv some
      rw [none] at some
      cases some
  | @advance _ c inv phase hc running _ _ next _ =>
    exact ⟨c,_,focus_of_running hc running rfl,.silent rfl (not_describes_of_running _ next)⟩
  | @change handler c inv call hc running operation _ _ _ _ =>
    obtain ⟨_,start,phase⟩ := inv
    cases operation
    have length : (s.history ++ [(c,call)]).length = s.history.length+1 := List.length_append
    refine ⟨c,_,focus_of_running hc running rfl,?_⟩
    change Effect s _ c ⟨_,_,.returned (.ok none) (s.history ++ [(c,call)]).length⟩
    rw [length]
    exact .change rfl
  | @answer c inv q result hc running operation _ outcome =>
    obtain ⟨_,start,phase⟩ := inv
    cases operation
    refine ⟨c,_,focus_of_running hc running rfl,?_⟩
    rcases result with e | _ | resp
    · refine .silent rfl ?_
      rintro (_ | _) ⟨_,_,eq⟩
      · cases eq
      · cases eq.1
    · cases outcome
    · by_cases quiet : Undisturbed s start s.history.length q
      · exact .answer rfl outcome quiet
      · refine .silent rfl ?_
        rintro (_ | ⟨_,_,_⟩) ⟨own,_,eq⟩
        · cases own
        · cases own
          cases eq.1
          exact quiet eq.2

theorem Focus.stays (h : Focus s t c new) {d : InvocationId} (hd : s.Returned d) :
    t.invocations d = s.invocations d := by
  rw [h.invocations]
  apply Function.update_of_ne
  rintro rfl
  exact h.running hd

theorem Focus.returned (h : Focus s t c new) {d : InvocationId} (hd : s.Returned d) :
    t.Returned d := by
  obtain ⟨inv,hinv,ended⟩ := hd
  exact ⟨inv,by rw [h.stays ⟨inv,hinv,ended⟩,hinv],ended⟩

theorem Completed.returned {e : Completion} (h : Completed s e) : s.Returned e.call := by
  obtain ⟨inv,hinv,describes⟩ := h
  exact ⟨inv,hinv,fun running => not_describes_of_running s running e describes⟩

theorem Extends.undisturbed (ext : Extends s t) {start finish : ℕ} {q : GetServiceInfoReq}
    (hf : finish ≤ s.history.length) :
    Undisturbed t start finish q ↔ Undisturbed s start finish q := by
  have same {n : ℕ} (last : n < finish) : t.calls[n]? = s.calls[n]? := by
    rw [←List.getElem?_take_of_lt last,ext.take hf,List.getElem?_take_of_lt last]
  constructor
  · intro h n first last r hr
    exact h n first last r (by rw [same last,hr])
  · intro h n first last r hr
    exact h n first last r (by rw [←same last,hr])

theorem Extends.describes (ext : Extends s t) {inv : Invocation}
    (known : Known s inv.start inv.operation inv.phase) (e : Completion) :
    Describes t e inv ↔ Describes s e inv := by
  cases e with
  | change _ _ => exact Iff.rfl
  | answer _ a =>
    obtain ⟨operation,start,phase⟩ := inv
    cases known with
    | answered _ last _ =>
      constructor
      · rintro ⟨own,_,eq,quiet⟩
        cases eq
        exact ⟨own,_,rfl,(ext.undisturbed last).mp quiet⟩
      · rintro ⟨own,_,eq,quiet⟩
        cases eq
        exact ⟨own,_,rfl,(ext.undisturbed last).mpr quiet⟩
    | _ => simp [Describes]

theorem Focus.completed (h : Focus s t c new) (hi : Inv s) (ext : Extends s t) (e : Completion) :
    Completed t e ↔ Completed s e ∨ e.call = c ∧ Describes t e new := by
  by_cases hc : e.call = c
  · subst hc
    have before : ¬Completed s e := fun completed => h.running completed.returned
    rw [or_iff_right before,Completed,h.invocations,Function.update_self]
    simp
  · rw [or_iff_left (fun own => hc own.1),Completed,h.invocations,Function.update_of_ne hc]
    refine exists_congr (fun inv => and_congr_right ?_)
    exact fun hinv => ext.describes (hi.known _ _ hinv) e

/-- An invocation that begins after the moment `n` has its start after it. -/
theorem Focus.start_ge (h : Focus s t c new) {n : ℕ} (hn : n ≤ s.history.length)
    {d : InvocationId} (later : ∀ inv, s.invocations d = some inv → n ≤ inv.start) :
    ∀ inv, t.invocations d = some inv → n ≤ inv.start := by
  intro inv hinv
  rw [h.invocations] at hinv
  by_cases hd : d = c
  · subst hd
    rw [Function.update_self] at hinv
    cases hinv
    cases hs : s.invocations d with
    | none => exact hn.trans_eq (h.begin hs).symm
    | some old => exact (later old hs).trans_eq (h.start old hs).symm
  · rw [Function.update_of_ne hd] at hinv
    exact later inv hinv

theorem finishOf_congr {d : InvocationId} (h : t.invocations d = s.invocations d) :
    t.finishOf d = s.finishOf d := by
  rw [State.finishOf,State.finishOf,h]

theorem finishOf_le (hi : Inv s) {d : InvocationId} (hd : s.Returned d) :
    s.finishOf d ≤ s.history.length := by
  obtain ⟨inv,hinv,ended⟩ := hd
  obtain ⟨operation,start,phase⟩ := inv
  have known := hi.known d _ hinv
  rw [State.finishOf,hinv]
  cases known with
  | changed _ last => exact last
  | answered _ last _ => exact last
  | _ => exact absurd trivial ended

end Steps

/-! ### Real time -/

section RealTime
variable {as : List Action} {s t : State} {b c : InvocationId}

/-- A call that had returned when another was invoked has its end before that start. -/
theorem precedes_returned (h : Run machine machine.init as s) (precedes : Precedes as b c) :
    s.Returned b ∧ ∀ inv, s.invocations c = some inv → s.finishOf b ≤ inv.start := by
  obtain ⟨bs,cs,u,rfl,run,returned,new⟩ := precedes
  obtain ⟨v,hv,rest⟩ := h.split
  obtain rfl := hv.unique run
  have kept : Inv s ∧ s.invocations b = v.invocations b ∧ v.history.length ≤ s.history.length ∧
      ∀ inv, s.invocations c = some inv → v.history.length ≤ inv.start := by
    refine rest.invariant (I := fun w => Inv w ∧ w.invocations b = v.invocations b ∧
      v.history.length ≤ w.history.length ∧
      ∀ inv, w.invocations c = some inv → v.history.length ≤ inv.start) ?_ ?_
    · rintro w a w' ⟨hi,same,longer,later⟩ hs
      have move := step_move hi hs
      obtain ⟨d,new,focus,_⟩ := move.effect
      refine ⟨move.inv hi,?_,longer.trans move.extends.length,focus.start_ge longer later⟩
      rw [focus.stays,same]
      rw [State.Returned,same]
      exact returned
    · exact ⟨inv_run hv,rfl,le_rfl,fun inv some => by rw [new] at some; cases some⟩
  obtain ⟨_,same,_,later⟩ := kept
  refine ⟨?_,?_⟩
  · rw [State.Returned,same]
    exact returned
  · intro inv hinv
    rw [finishOf_congr same]
    exact (finishOf_le (inv_run hv) returned).trans (later inv hinv)

theorem precedes_of_snoc {a : Action} (h : Run machine machine.init as s)
    (hs : step s a = some t) (precedes : Precedes (as ++ [a]) b c)
    (invoked : t.invocations c ≠ none) : Precedes as b c := by
  obtain ⟨bs,cs,u,eq,run,returned,new⟩ := precedes
  rcases List.eq_nil_or_concat cs with rfl | ⟨cs,x,rfl⟩
  · rw [List.append_nil] at eq
    subst eq
    obtain rfl := (h.snoc hs).unique run
    exact absurd new invoked
  · rw [List.concat_eq_append,←List.append_assoc] at eq
    exact ⟨bs,cs,u,(List.append_inj' eq rfl).1,run,returned,new⟩

end RealTime

/-! ### The order of a run -/

/-- The order is one for the calls that the run has completed. -/
structure Orders (as : List Action) (s : State) (order : List Completion) : Prop where
  linearization : Linearization object (Precedes as) order
  within : Within s.finishOf 0 order
  changes : changes order = s.history
  completed : ∀ e, e ∈ order ↔ Completed s e

section Orders
variable {as : List Action} {a : Action} {s t : State} {c : InvocationId} {new : Invocation}
  {order : List Completion}

theorem Orders.kept (h : Orders as s order) (run : Run machine machine.init as s)
    (hs : step s a = some t) (focus : Focus s t c new) :
    Linearization object (Precedes (as ++ [a])) order ∧ Within t.finishOf 0 order := by
  constructor
  · refine h.linearization.mono ?_
    intro e he b precedes
    obtain ⟨inv,hinv,ended⟩ := focus.returned ((h.completed e).mp he).returned
    refine precedes_of_snoc run hs precedes ?_
    rw [hinv]
    exact Option.some_ne_none inv
  · refine h.within.congr ?_
    intro e he
    exact finishOf_congr (focus.stays ((h.completed e).mp he).returned)

theorem Undisturbed.narrow {q : GetServiceInfoReq} {start start' finish finish' : ℕ}
    (h : Undisturbed s start finish q) (hs : start ≤ start') (hf : finish' ≤ finish) :
    Undisturbed s start' finish' q :=
  fun n first last => h n (hs.trans first) (last.trans_le hf)

/-- An undisturbed answer is one that a single thread gets at some moment of the query. -/
theorem answer_moment {q : GetServiceInfoReq} {resp : GetServiceInfoResp} {start finish : ℕ}
    (outcome : Outcome s start finish q (.ok (some resp))) (quiet : Undisturbed s start finish q) :
    ∃ n, start ≤ n ∧ n ≤ finish ∧
      object.Answers (object.after object.init (s.calls.take n)) (q,resp) := by
  cases outcome with
  | unknown first last never => exact ⟨_,first,last,object_unknown never⟩
  | found first last hn hr => exact ⟨_,first,last,object_found hn hr⟩
  | @substitute n m r _ first between last hn missing hr =>
    refine ⟨m,first.trans between,last,object_substitute hn ?_ hr⟩
    have split : s.calls.take m = s.calls.take n ++ (s.calls.take m).drop n := by
      conv_lhs => rw [←List.take_append_drop n (s.calls.take m)]
      rw [List.take_take,Nat.min_eq_left between]
    rw [split]
    refine missing_append missing ?_
    intro r' hr'
    obtain ⟨j,hj⟩ := List.mem_iff_getElem?.mp hr'
    rw [List.getElem?_drop,List.getElem?_take] at hj
    obtain ⟨short,hj⟩ := Option.ite_none_right_eq_some.mp hj
    exact quiet (n+j) (by omega) (by omega) r' hj

theorem eq_change_iff {e : Completion} {call : Call} {start finish : ℕ} :
    e.call = c ∧ Describes s e ⟨.change call,start,.returned (.ok none) finish⟩ ↔
      e = .change c call := by
  cases e with
  | change d call' => simp [Entry.call,Describes,eq_comm]
  | answer d a => simp [Describes]

theorem eq_answer_iff {e : Completion} {q : GetServiceInfoReq} {resp : GetServiceInfoResp}
    {start finish : ℕ} (quiet : Undisturbed s start finish q) :
    e.call = c ∧ Describes s e ⟨.getServiceInfo q,start,.returned (.ok (some resp)) finish⟩ ↔
      e = .answer c (q,resp) := by
  cases e with
  | change d call => simp [Describes]
  | answer d a =>
    obtain ⟨q',resp'⟩ := a
    constructor
    · rintro ⟨rfl,own,_,eq,_⟩
      cases own
      cases eq
      rfl
    · intro eq
      cases eq
      exact ⟨rfl,rfl,_,rfl,quiet⟩

theorem Orders.step (h : Orders as s order) (run : Run machine machine.init as s)
    (hs : step s a = some t) : ∃ order, Orders (as ++ [a]) t order := by
  have hi := inv_run run
  have move := step_move hi hs
  have ext := move.extends
  obtain ⟨c,new,focus,effect⟩ := move.effect
  obtain ⟨linearization,within⟩ := h.kept run hs focus
  have fresh : c ∉ order.map Entry.call := by
    intro mem
    obtain ⟨e,he,rfl⟩ := List.mem_map.mp mem
    exact focus.running ((h.completed e).mp he).returned
  have last : ∀ e ∈ order, ¬Precedes (as ++ [a]) c e.call := by
    intro e he precedes
    obtain ⟨inv,hinv,_⟩ := focus.returned ((h.completed e).mp he).returned
    have before := precedes_of_snoc run hs precedes (by rw [hinv]; exact Option.some_ne_none inv)
    exact focus.running (precedes_returned run before).1
  have own : t.invocations c = some new := by
    rw [focus.invocations,Function.update_self]
  cases effect with
  | silent history none =>
    refine ⟨order,linearization,within,by rw [history,h.changes],?_⟩
    intro e
    rw [focus.completed hi ext,h.completed]
    simp [none]
  | @change call start history =>
    have finish : t.finishOf c = s.history.length+1 := by rw [State.finishOf,own]
    obtain ⟨linearization,within⟩ := linearization.change within fresh last call
      (by rw [h.changes,finish]; exact Nat.lt_succ_self _)
    refine ⟨_,linearization,within,?_,?_⟩
    · rw [changes_append,h.changes,history]
      rfl
    · intro e
      rw [List.mem_append,List.mem_singleton,focus.completed hi ext,h.completed,eq_change_iff]
  | @answer q start resp history outcome quiet =>
    have finish : t.finishOf c = s.history.length := by rw [State.finishOf,own]
    obtain ⟨n,first,bound,answers⟩ := answer_moment outcome quiet
    obtain ⟨order',linearization,within,same,mem⟩ := linearization.answer within fresh last
      (by rw [h.changes]; exact bound) (by rw [h.changes,List.map_take]; exact answers)
      (fun e _ precedes => ((precedes_returned (run.snoc hs) precedes).2 _ own).trans first)
      (by rw [finish]; exact bound)
    refine ⟨order',linearization,within,by rw [same,h.changes,history],?_⟩
    intro e
    rw [mem,focus.completed hi ext,h.completed,eq_answer_iff ((ext.undisturbed le_rfl).mpr quiet)]

theorem orders_run (h : Run machine machine.init as s) : ∃ order, Orders as s order := by
  refine h.rec_last (P := fun as s => ∃ order, Orders as s order) ?_ ?_
  · refine ⟨[],⟨List.nodup_nil,trivial,.nil⟩,trivial,rfl,?_⟩
    intro e
    refine iff_of_false (by simp) ?_
    rintro ⟨_,none,_⟩
    cases none
  · intro as s a t run ih hs
    obtain ⟨order,h⟩ := ih
    exact h.step run hs

end Orders

/-- Some order of the completed changes and the undisturbed answers, in which a call stands
    before those that began after it returned, lets one thread give the same answers and
    leaves the registrations that the maps hold. -/
theorem calls_linearizable {as : List Action} {s : State} (h : Run machine machine.init as s) :
    ∃ order, Linearization object (Precedes as) order ∧
      (∀ e, e ∈ order ↔ Completed s e) ∧ ∀ t i, s.handler.lookup t i =
        (object.after object.init ((changes order).map Prod.snd)).lookup t i := by
  obtain ⟨order,orders⟩ := orders_run h
  refine ⟨order,orders.linearization,orders.completed,?_⟩
  intro t i
  rw [(inv_run h).lookup,(refines_after _).lookup,orders.changes]
  rfl

/-- A query still answers with a server that unregisters before its last access. -/
def lateAnswer : List Action :=
  [.invoke 0 (.change (.register accessOne)),.getMap 0,.access 0,
    .invoke 1 (.getServiceInfo ⟨2,5⟩),.getMap 1,.access 1,.iterator 1,
    .invoke 2 (.change (.unregister ⟨2,1⟩)),.getMap 2,.access 2,.next 1 (some accessOne)]

theorem lateAnswer_linearizable : ∃ s, Run machine machine.init lateAnswer s ∧
    ∃ order, Linearization object (Precedes lateAnswer) order ∧
      .answer 1 (⟨2,5⟩,⟨2,5,accessOne.host,9000⟩) ∈ order := by
  let s := endOf machine machine.init lateAnswer rfl
  have run : Run machine machine.init lateAnswer s := run_endOf rfl
  have quiet : Undisturbed s 1 2 ⟨2,5⟩ := by
    intro n first last r hr
    obtain rfl : n = 1 := by omega
    cases hr
  obtain ⟨order,linearization,completed,_⟩ := calls_linearizable run
  exact ⟨s,run,order,linearization,(completed _).mpr ⟨_,rfl,rfl,_,rfl,quiet⟩⟩

/-- The first `register` of a type makes its map before it fills it, and a query in between
    throws, although one thread gets an answer before the call and after it. -/
theorem first_register_race : ∃ s, Run machine machine.init
    [.invoke 0 (.change (.register accessOne)),.getMap 0,.invoke 1 (.getServiceInfo ⟨2,1⟩),
      .getMap 1,.access 1,.iterator 1,.next 1 none,.access 0] s ∧
    s.invocations 1 = some ⟨.getServiceInfo ⟨2,1⟩,0,.returned (.error .noSuchElement) 0⟩ ∧
    ∀ n, ∃ resp, object.Answers (object.after object.init (s.calls.take n)) (⟨2,1⟩,resp) := by
  refine ⟨_,run_endOf rfl,rfl,?_⟩
  intro n
  change ∃ resp, object.Answers (object.after object.init ([Call.register accessOne].take n)) _
  match n with
  | 0 => exact ⟨_,object_unknown (by simp)⟩
  | n+1 =>
    rw [List.take_succ_cons,List.take_nil]
    exact ⟨_,object_found (r := accessOne) rfl rfl⟩

def accessSeven : Register := { accessOne with svrId := 7, port := 9007 }

/-- Where two servers register one after the other during a query for the first of them,
    the query can return the second, which one thread gets at no moment. -/
theorem disturbed_answer : ∃ s, Run machine machine.init
    [.invoke 0 (.change (.register accessOne)),.getMap 0,.access 0,
      .invoke 1 (.getServiceInfo ⟨2,5⟩),.getMap 1,.access 1,
      .invoke 2 (.change (.register accessFive)),.getMap 2,.access 2,
      .invoke 3 (.change (.register accessSeven)),.getMap 3,.access 3,
      .iterator 1,.next 1 (some accessSeven)] s ∧
    s.invocations 1 = some
      ⟨.getServiceInfo ⟨2,5⟩,1,.returned (.ok (some ⟨2,5,accessOne.host,9007⟩)) 3⟩ ∧
    ∀ n, ¬object.Answers (object.after object.init (s.calls.take n))
      (⟨2,5⟩,⟨2,5,accessOne.host,9007⟩) := by
  refine ⟨_,run_endOf rfl,rfl,?_⟩
  intro n
  change ¬object.Answers (object.after object.init ([Call.register accessOne,
    .register accessFive,.register accessSeven].take n)) _
  rintro ⟨it,h⟩
  match n with
  | 0 => cases h
  | 1 =>
    have refines := refines_after [Call.register accessOne]
    have one : registered [Call.register accessOne] .access 1 = some accessOne := rfl
    obtain ⟨serverMap,hm⟩ := map_of_registered refines one
    rcases findRegister_eq it serverMap 5 with ⟨r,hf,found⟩ | ⟨_,empty⟩
    · have first : ∃ j, serverMap.lookup j = some r :=
        found.elim (fun own => ⟨5,own⟩) And.right
      obtain ⟨j,hj⟩ := first
      rw [lookup_of_map refines hm] at hj
      obtain ⟨mem,_,_⟩ := registered_labels hj
      cases List.mem_singleton.mp mem
      have resp : (object.after object.init [Call.register accessOne]).getServiceInfo it ⟨2,5⟩ =
          .ok ⟨2,5,accessOne.host,9000⟩ := getServiceInfo_found hm rfl hf
      rw [List.take_succ_cons,List.take_zero,resp] at h
      cases h
    · rw [←lookup_of_map refines hm,empty] at one
      cases one
  | 2 => cases h
  | n+3 =>
    simp only [List.take_succ_cons,List.take_nil] at h
    cases h

end SeeU.DiscoverConcurrent
