import SeeU.DiscoverAnswer

set_option autoImplicit false

/-!
# Types that the discover service does not know

On the wire a type is any number, and all numbers that are not declared have one enum
view. They share one map, and a query for any of them throws once that map exists.
-/
namespace SeeU.DiscoverHandler
open WireFormat DiscoverMsg TransitionSystem

/-! ### Non-interference -/

/-- The raw number of the type. -/
def Call.svrType : Call → BitVec 32
  | register r => r.svrType
  | unregister u => u.svrType

/-- The answers to the queries for other numbers than that of the call stay. -/
def Isolated (it : Iteration) (s : Handler) (c : Call) (t : Handler) : Prop :=
  ∀ req : GetServiceInfoReq, req.svrType ≠ c.svrType →
    t.getServiceInfo it req = s.getServiceInfo it req

def Responds (it : Iteration) (s : Handler) : Prop :=
  ∀ req, ∃ resp, s.getServiceInfo it req = .ok resp

/-- All along a history, whose queries change nothing and are left out of it. -/
structure NonInterfering (it : Iteration) (history : List Call) : Prop where
  isolated : ∀ before c after s t, history = before ++ c :: after →
    Run machine machine.init before s → step s c = some t → Isolated it s c t
  responds : ∀ before after s, history = before ++ after →
    Run machine machine.init before s → Responds it s

/-- Only declared types are registered, and the last server of a type stays. -/
def KeepsServers (s : Handler) : Call → Prop
  | .register r => r.getSvrType.Declared
  | .unregister u => (s.lookup u.getSvrType u.svrId).isSome →
      ∃ i, i ≠ u.svrId ∧ (s.lookup u.getSvrType i).isSome

/-- Every type that has a map is declared and has a server. -/
def Served (s : Handler) : Prop :=
  ∀ t, s.serverTypeSetMap t ≠ none → t.Declared ∧ ∃ i, (s.lookup t i).isSome

theorem run_exists (history : List Call) (s : Handler) : ∃ t, Run machine s history t := by
  induction history generalizing s with
  | nil => exact ⟨s,.nil s⟩
  | cons c history ih =>
    have enabled : ∃ t, machine.step s c = some t := by
      cases c <;> exact ⟨_,rfl⟩
    obtain ⟨t,ht⟩ := enabled
    obtain ⟨u,hu⟩ := ih t
    exact ⟨u,.cons ht hu⟩

section Steps
variable {it : Iteration} {s t : Handler} {c : Call}

theorem map_of_isSome {type : ServerType} {i : BitVec 32} (h : (s.lookup type i).isSome) :
    ∃ serverMap, s.serverTypeSetMap type = some serverMap ∧ (serverMap.lookup i).isSome := by
  obtain ⟨r,hr⟩ := Option.isSome_iff_exists.mp h
  obtain ⟨serverMap,hm,hl⟩ := Option.bind_eq_some_iff.mp hr
  exact ⟨serverMap,hm,Option.isSome_of_eq_some hl⟩

theorem Served.responds (h : Served s) : Responds it s := by
  intro req
  cases hm : s.serverTypeSetMap req.getSvrType with
  | none => exact ⟨_,getServiceInfo_absent hm⟩
  | some serverMap =>
    obtain ⟨declared,i,hi⟩ := h req.getSvrType (by rw [hm]; exact Option.some_ne_none _)
    obtain ⟨number,hn⟩ := ServerType.getNumber_declared declared
    rcases findRegister_eq it serverMap req.svrId with ⟨r,hf,_⟩ | ⟨_,empty⟩
    · exact ⟨_,getServiceInfo_found hm hn hf⟩
    · obtain ⟨serverMap',hm',present⟩ := map_of_isSome hi
      rw [hm] at hm'
      cases hm'
      rw [empty] at present
      cases present

theorem ofRaw_surjective (type : ServerType) : ∃ raw, ServerType.ofRaw raw = type := by
  cases type with
  | unknown => exact ⟨0,rfl⟩
  | discover => exact ⟨1,rfl⟩
  | access => exact ⟨2,rfl⟩
  | unrecognized => exact ⟨3,rfl⟩

/-- Only a server of a declared type can be answered where there is a map. -/
theorem Responds.served (h : Responds it s) : Served s := by
  intro type present
  obtain ⟨raw,rfl⟩ := ofRaw_surjective type
  obtain ⟨serverMap,hm⟩ := Option.ne_none_iff_exists'.mp present
  obtain ⟨resp,hresp⟩ := h ⟨raw,0⟩
  rcases findRegister_eq it serverMap 0 with ⟨r,_,found⟩ | ⟨hf,_⟩
  · constructor
    · intro undeclared
      have throws : s.getServiceInfo it ⟨raw,0⟩ = .error .illegalArgument := by
        simp only [Handler.getServiceInfo,GetServiceInfoReq.getSvrType,hm]
        rw [undeclared]
        rfl
      rw [hresp] at throws
      cases throws
    · obtain ⟨i,hi⟩ : ∃ i, serverMap.lookup i = some r := by
        rcases found with requested | ⟨_,other⟩
        · exact ⟨0,requested⟩
        · exact other
      refine ⟨i,?_⟩
      rw [Handler.lookup,hm,Option.bind_some,hi]
      rfl
  · obtain ⟨e,he⟩ : ∃ e, s.getServiceInfo it ⟨raw,0⟩ = .error e := getServiceInfo_emptied hm hf
    rw [hresp] at he
    cases he

theorem served_register_iff (h : Served s) (r : Register) :
    Served (s.register r) ↔ r.getSvrType.Declared := by
  constructor
  · intro served
    refine (served r.getSvrType ?_).1
    intro absent
    exact ((register_absent s r _).mp absent).2 rfl
  · intro declared type present
    by_cases own : r.getSvrType = type
    · subst own
      refine ⟨declared,r.svrId,?_⟩
      rw [register_lookup,if_pos rfl]
      rfl
    · have before : s.serverTypeSetMap type ≠ none := by
        intro absent
        exact present ((register_absent s r type).mpr ⟨absent,own⟩)
      obtain ⟨known,i,hi⟩ := h type before
      refine ⟨known,i,?_⟩
      rw [register_lookup,if_neg (fun same => own (congrArg Prod.fst same))]
      exact hi

/-- A type keeps its map when a server unregisters, so it must keep another server. -/
theorem served_unregister_iff (h : Served s) (u : Unregister) :
    Served (s.unregister u) ↔ KeepsServers s (.unregister u) := by
  constructor
  · intro served registered
    obtain ⟨serverMap,hm,_⟩ := map_of_isSome registered
    have present : (s.unregister u).serverTypeSetMap u.getSvrType ≠ none := by
      rw [ne_eq,unregister_absent,hm]
      exact Option.some_ne_none _
    obtain ⟨_,i,hi⟩ := served _ present
    rw [unregister_lookup] at hi
    split_ifs at hi with same
    · cases hi
    · exact ⟨i,fun e => same (by rw [e]),hi⟩
  · intro guard type present
    rw [ne_eq,unregister_absent] at present
    obtain ⟨known,i,hi⟩ := h type present
    refine ⟨known,?_⟩
    by_cases same : (u.getSvrType,u.svrId) = (type,i)
    · obtain ⟨rfl,rfl⟩ := Prod.mk.inj same
      obtain ⟨j,ne,hj⟩ := guard hi
      refine ⟨j,?_⟩
      rw [unregister_lookup,if_neg (fun e => ne (congrArg Prod.snd e).symm)]
      exact hj
    · refine ⟨i,?_⟩
      rw [unregister_lookup,if_neg same]
      exact hi

theorem served_step_iff (h : Served s) (hs : step s c = some t) : Served t ↔ KeepsServers s c := by
  cases c with
  | register r =>
    cases hs
    exact served_register_iff h r
  | unregister u =>
    cases hs
    exact served_unregister_iff h u

/-- Two numbers have one declared view only if they are one. -/
theorem ofRaw_injective {raw raw' : BitVec 32} (declared : (ServerType.ofRaw raw).Declared)
    (same : ServerType.ofRaw raw' = ServerType.ofRaw raw) : raw' = raw := by
  have own := ServerType.getNumber_ofRaw declared
  rw [←same] at declared own
  rw [ServerType.getNumber_ofRaw declared] at own
  exact Except.ok.inj own

theorem getServiceInfo_congr {req : GetServiceInfoReq}
    (h : t.serverTypeSetMap req.getSvrType = s.serverTypeSetMap req.getSvrType) :
    t.getServiceInfo it req = s.getServiceInfo it req := by
  simp only [Handler.getServiceInfo,h]

theorem isolated_step (h : Served s) (guard : KeepsServers s c) (hs : step s c = some t) :
    Isolated it s c t := by
  intro req other
  apply getServiceInfo_congr
  cases c with
  | register r =>
    cases hs
    have ne : req.getSvrType ≠ r.getSvrType := fun same => other (ofRaw_injective guard same)
    simp only [Handler.register,Function.update_of_ne ne]
  | unregister u =>
    cases hs
    cases hm : s.serverTypeSetMap u.getSvrType with
    | none => rw [unregister_of_none hm]
    | some serverMap =>
      obtain ⟨declared,_⟩ := h u.getSvrType (by rw [hm]; exact Option.some_ne_none _)
      have ne : req.getSvrType ≠ u.getSvrType :=
        fun same => other (ofRaw_injective declared same)
      rw [unregister_of_some hm]
      exact Function.update_of_ne ne ..

end Steps

/-- No query fails, and none is changed by a call for another number, exactly if every
    registered type is declared and no type loses its last server. -/
theorem nonInterfering_iff (it : Iteration) (history : List Call) :
    NonInterfering it history ↔ Guarded machine KeepsServers machine.init history := by
  obtain ⟨s,h⟩ := run_exists history machine.init
  have start : Served machine.init := fun _ present => absurd rfl present
  have always := h.always_iff (G := KeepsServers) (I := Served)
    (fun s c t served hs => served_step_iff served hs) start
  constructor
  · intro holds
    refine always.mp ?_
    intro before after t eq run
    exact (holds.responds before after t eq run).served
  · intro guarded
    have served := always.mpr guarded
    constructor
    · rintro before c after t u rfl run hs
      exact isolated_step (served before (c :: after) t rfl run) (guarded.right run).1 hs
    · intro before after t eq run
      exact (served before after t eq run).responds

/-- A server of a type 7 registers, and a query for the type 8 is no longer answered. -/
theorem unknown_type_interferes :
    machine.init.getServiceInfo entryOrder ⟨8,1⟩ = .ok ⟨0,0,Utf8String.empty,0⟩ ∧
    (machine.init.register { accessOne with svrType := 7 }).getServiceInfo entryOrder ⟨8,1⟩ =
      .error .illegalArgument ∧
    ¬NonInterfering entryOrder [.register { accessOne with svrType := 7 }] := by
  refine ⟨rfl,rfl,?_⟩
  intro holds
  have run : Run machine machine.init [.register { accessOne with svrType := 7 }] _ :=
    run_endOf rfl
  obtain ⟨resp,hresp⟩ := holds.responds _ [] _ (List.append_nil _).symm run ⟨8,1⟩
  cases hresp

end SeeU.DiscoverHandler
