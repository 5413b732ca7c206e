import SeeU.DiscoverHandler

set_option autoImplicit false

/-!
# What `getServiceInfo` answers

The answer is right while the requested type was never registered or still has a
server, and truthful while the requested id is registered or the type has none.
-/
namespace SeeU.DiscoverHandler
open WireFormat DiscoverMsg TransitionSystem

/-! ### The branches of `getServiceInfo` -/

section Branches
variable {it : Iteration} {s : Handler} {req : GetServiceInfoReq}

theorem mem_values_iff {serverMap : ServerMap} {r : Register} :
    r ∈ values serverMap ↔ ∃ i, serverMap.lookup i = some r := by
  constructor
  · intro h
    obtain ⟨⟨i,r'⟩,mem,rfl⟩ := List.mem_map.mp h
    exact ⟨i,AList.mem_lookup_iff.mpr mem⟩
  · rintro ⟨i,h⟩
    exact List.mem_map.mpr ⟨⟨i,r⟩,AList.mem_lookup_iff.mp h,rfl⟩

theorem getServiceInfo_absent (h : s.serverTypeSetMap req.getSvrType = none) :
    s.getServiceInfo it req = .ok ⟨0,0,Utf8String.empty,0⟩ := by
  simp only [Handler.getServiceInfo,h]
  rfl

theorem getServiceInfo_found {serverMap : ServerMap} {r : Register} {number : BitVec 32}
    (h : s.serverTypeSetMap req.getSvrType = some serverMap)
    (hn : req.getSvrType.getNumber = .ok number)
    (hr : Handler.findRegister it serverMap req.svrId = .ok (some r)) :
    s.getServiceInfo it req = .ok ⟨number,req.svrId,r.host,r.port⟩ := by
  simp only [Handler.getServiceInfo,h,hn,hr]
  rfl

/-- What the handler finds: the requested registration, or else any of the type. -/
theorem findRegister_eq (it : Iteration) (serverMap : ServerMap) (i : BitVec 32) :
    (∃ r, Handler.findRegister it serverMap i = .ok (some r) ∧
      (serverMap.lookup i = some r ∨ serverMap.lookup i = none ∧ ∃ j, serverMap.lookup j = some r)) ∨
    Handler.findRegister it serverMap i = .error .noSuchElement ∧
      ∀ j, serverMap.lookup j = none := by
  unfold Handler.findRegister
  cases hl : serverMap.lookup i with
  | some r => exact .inl ⟨r,rfl,.inl rfl⟩
  | none =>
    cases hn : it.next (values serverMap) with
    | some r => exact .inl ⟨r,rfl,.inr ⟨rfl,mem_values_iff.mp (it.mem_of_next hn)⟩⟩
    | none =>
      right
      refine ⟨rfl,?_⟩
      intro j
      by_contra present
      obtain ⟨r,hr⟩ := Option.ne_none_iff_exists'.mp present
      have mem := mem_values_iff.mpr ⟨j,hr⟩
      rw [it.nil_of_next hn] at mem
      cases mem

theorem getServiceInfo_emptied {serverMap : ServerMap}
    (h : s.serverTypeSetMap req.getSvrType = some serverMap)
    (hr : Handler.findRegister it serverMap req.svrId = .error .noSuchElement) :
    ∃ e, s.getServiceInfo it req = .error e := by
  cases hn : req.getSvrType.getNumber with
  | error e => exact ⟨e,by simp only [Handler.getServiceInfo,h,hn]; rfl⟩
  | ok number => exact ⟨.noSuchElement,by simp only [Handler.getServiceInfo,h,hn,hr]; rfl⟩

end Branches

/-! ### Discovery always answers -/

/-- The call answers; with `UNKNOWN` exactly if no server of the type is registered, and
    else with the type and the address of a registered server of the type. -/
def Answers (it : Iteration) (history : List Call) (s : Handler) (req : GetServiceInfoReq) : Prop :=
  ∃ resp, s.getServiceInfo it req = .ok resp ∧
    (resp.getSvrType = .unknown ↔ ∀ i, registered history req.getSvrType i = none) ∧
    (resp.getSvrType ≠ .unknown → resp.getSvrType = req.getSvrType ∧
      ∃ i r, registered history req.getSvrType i = some r ∧ resp.host = r.host ∧
        resp.port = r.port)

section Answer
variable {it : Iteration} {history : List Call} {s : Handler} {req : GetServiceInfoReq}

theorem lookup_of_map (h : Refines history s) {t : ServerType} {serverMap : ServerMap}
    (hm : s.serverTypeSetMap t = some serverMap) (i : BitVec 32) :
    serverMap.lookup i = registered history t i := by
  rw [←h.lookup,Handler.lookup,hm]
  rfl

theorem map_of_registered (h : Refines history s) {t : ServerType} {i : BitVec 32} {r : Register}
    (hr : registered history t i = some r) : ∃ serverMap, s.serverTypeSetMap t = some serverMap := by
  rw [←h.lookup] at hr
  obtain ⟨serverMap,hm,_⟩ := Option.bind_eq_some_iff.mp hr
  exact ⟨serverMap,hm⟩

theorem answers_of_absent (h : Refines history s)
    (never : ∀ r, .register r ∈ history → r.getSvrType ≠ req.getSvrType) :
    Answers it history s req := by
  have absent := (h.absent _).mpr never
  refine ⟨_,getServiceInfo_absent absent,?_,?_⟩
  · refine iff_of_true rfl ?_
    intro i
    rw [←h.lookup,Handler.lookup,absent]
    rfl
  · intro known
    exact absurd rfl known

theorem answers_of_registered (h : Refines history s) (declared : req.getSvrType.Declared)
    (known : req.getSvrType ≠ .unknown) {i : BitVec 32} {r : Register}
    (hr : registered history req.getSvrType i = some r) : Answers it history s req := by
  obtain ⟨number,hn⟩ := ServerType.getNumber_declared declared
  obtain ⟨serverMap,hm⟩ := map_of_registered h hr
  rcases findRegister_eq it serverMap req.svrId with ⟨r',hf,found⟩ | ⟨_,empty⟩
  · have type : GetServiceInfoResp.getSvrType ⟨number,req.svrId,r'.host,r'.port⟩ =
        req.getSvrType := ServerType.ofRaw_getNumber hn
    refine ⟨_,getServiceInfo_found hm hn hf,?_,?_⟩
    · rw [type]
      refine iff_of_false known ?_
      intro none
      rw [none] at hr
      cases hr
    · intro _
      refine ⟨type,?_⟩
      rcases found with requested | ⟨_,j,other⟩
      · exact ⟨req.svrId,r',by rw [←lookup_of_map h hm,requested],rfl,rfl⟩
      · exact ⟨j,r',by rw [←lookup_of_map h hm,other],rfl,rfl⟩
  · rw [←lookup_of_map h hm,empty] at hr
    cases hr

/-- Discovery answers as it should exactly if no server of the type has ever registered
    or some server of the type is registered now. -/
theorem answers_iff (h : Run machine machine.init history s) (declared : req.getSvrType.Declared)
    (known : req.getSvrType ≠ .unknown) : Answers it history s req ↔
      (∀ r, .register r ∈ history → r.getSvrType ≠ req.getSvrType) ∨
        ∃ i r, registered history req.getSvrType i = some r := by
  have refines := refines_run h
  constructor
  · rintro ⟨resp,hresp,_⟩
    cases hm : s.serverTypeSetMap req.getSvrType with
    | none => exact .inl ((refines.absent _).mp hm)
    | some serverMap =>
      right
      rcases findRegister_eq it serverMap req.svrId with ⟨r,_,found⟩ | ⟨hf,_⟩
      · rcases found with requested | ⟨_,j,other⟩
        · exact ⟨req.svrId,r,by rw [←lookup_of_map refines hm,requested]⟩
        · exact ⟨j,r,by rw [←lookup_of_map refines hm,other]⟩
      · obtain ⟨e,he⟩ := getServiceInfo_emptied hm hf
        rw [hresp] at he
        cases he
  · rintro (never | ⟨i,r,hr⟩)
    · exact answers_of_absent refines never
    · exact answers_of_registered refines declared known hr

end Answer

/-- An iteration in the order of the entries. -/
def entryOrder : Iteration where
  next := List.head?
  mem_of_next := List.mem_of_head?
  nil_of_next := List.head?_eq_none_iff.mp

def accessOne : Register := ⟨2,1,⟨"localhost",by decide⟩,9000⟩

theorem registered_answers : Answers entryOrder [.register accessOne]
    (endOf machine machine.init [.register accessOne] rfl) ⟨2,5⟩ :=
  (answers_iff (run_endOf _) (by decide) (by decide)).mpr (.inr ⟨1,accessOne,rfl⟩)

theorem emptied_type_throws : ∃ s,
    Run machine machine.init [.register accessOne,.unregister ⟨2,1⟩] s ∧
      s.getServiceInfo entryOrder ⟨2,5⟩ = .error .noSuchElement ∧
      ¬Answers entryOrder [.register accessOne,.unregister ⟨2,1⟩] s ⟨2,5⟩ := by
  refine ⟨_,run_endOf rfl,rfl,?_⟩
  rintro ⟨resp,h,_⟩
  cases h

/-! ### Discovery answers are truthful -/

def Call.getSvrType : Call → ServerType
  | register r => r.getSvrType
  | unregister u => u.getSvrType

/-- An answer that is not `UNKNOWN` has all four fields from one current registration. -/
def Truthful (it : Iteration) (history : List Call) (s : Handler) (req : GetServiceInfoReq) : Prop :=
  ∀ resp, s.getServiceInfo it req = .ok resp → resp.getSvrType ≠ .unknown →
    ∃ t i r, registered history t i = some r ∧ resp.svrType = r.svrType ∧
      resp.svrId = r.svrId ∧ resp.host = r.host ∧ resp.port = r.port

section Truth
variable {it : Iteration} {history : List Call} {s : Handler} {req : GetServiceInfoReq}

/-- A registered type of a history of declared types is declared and not `UNKNOWN`. -/
theorem registered_known (declared : ∀ c ∈ history, c.getSvrType.Declared ∧
    c.getSvrType ≠ .unknown) {t : ServerType} {i : BitVec 32} {r : Register}
    (hr : registered history t i = some r) : t.Declared ∧ t ≠ .unknown := by
  obtain ⟨mem,rfl,_⟩ := registered_labels hr
  exact declared _ mem

theorem truthful_of_requested (h : Refines history s) {r : Register}
    (hr : registered history req.getSvrType req.svrId = some r)
    (declared : req.getSvrType.Declared) : Truthful it history s req := by
  intro resp hresp _
  obtain ⟨number,hn⟩ := ServerType.getNumber_declared declared
  obtain ⟨_,type,id⟩ := registered_labels hr
  obtain ⟨serverMap,hm⟩ := map_of_registered h hr
  have found : Handler.findRegister it serverMap req.svrId = .ok (some r) := by
    unfold Handler.findRegister
    rw [lookup_of_map h hm,hr]
  rw [getServiceInfo_found hm hn found] at hresp
  cases hresp
  have raw : r.getSvrType.getNumber = .ok r.svrType := by
    apply ServerType.getNumber_ofRaw
    change r.getSvrType.Declared
    rw [type]
    exact declared
  rw [type,hn] at raw
  exact ⟨req.getSvrType,req.svrId,r,hr,Except.ok.inj raw,id.symm,rfl,rfl⟩

theorem truthful_of_empty (h : Refines history s)
    (empty : ∀ i, registered history req.getSvrType i = none) : Truthful it history s req := by
  intro resp hresp known
  cases hm : s.serverTypeSetMap req.getSvrType with
  | none =>
    rw [getServiceInfo_absent hm] at hresp
    cases hresp
    exact absurd rfl known
  | some serverMap =>
    rcases findRegister_eq it serverMap req.svrId with ⟨r,_,found⟩ | ⟨hf,_⟩
    · rcases found with requested | ⟨_,j,other⟩
      · rw [lookup_of_map h hm,empty] at requested
        cases requested
      · rw [lookup_of_map h hm,empty] at other
        cases other
    · obtain ⟨e,he⟩ := getServiceInfo_emptied hm hf
      rw [hresp] at he
      cases he

/-- A substitute is answered under the requested id, which is registered nowhere. -/
theorem substitute_not_truthful (h : Refines history s) (declared : req.getSvrType.Declared)
    (known : req.getSvrType ≠ .unknown)
    (missing : registered history req.getSvrType req.svrId = none) {i : BitVec 32} {r : Register}
    (hr : registered history req.getSvrType i = some r) : ¬Truthful it history s req := by
  intro truthful
  obtain ⟨number,hn⟩ := ServerType.getNumber_declared declared
  obtain ⟨serverMap,hm⟩ := map_of_registered h hr
  rcases findRegister_eq it serverMap req.svrId with ⟨sub,hf,_⟩ | ⟨_,empty⟩
  · have type : GetServiceInfoResp.getSvrType ⟨number,req.svrId,sub.host,sub.port⟩ =
        req.getSvrType := ServerType.ofRaw_getNumber hn
    obtain ⟨t,j,r',hr',htype,hid,_⟩ := truthful _ (getServiceInfo_found hm hn hf)
      (by rw [type]; exact known)
    obtain ⟨_,own,id⟩ := registered_labels hr'
    have same : t = req.getSvrType := by
      rw [←own,←type]
      exact congrArg ServerType.ofRaw htype.symm
    have eq : j = req.svrId := by rw [←id,←hid]
    rw [same,eq,missing] at hr'
    cases hr'
  · rw [←lookup_of_map h hm,empty] at hr
    cases hr

/-- Discovery answers truthfully exactly if the requested id is registered or no server
    of the type is. -/
theorem truthful_iff (h : Run machine machine.init history s)
    (declared : ∀ c ∈ history, c.getSvrType.Declared ∧ c.getSvrType ≠ .unknown) :
    Truthful it history s req ↔
      (∃ r, registered history req.getSvrType req.svrId = some r) ∨
        ∀ i, registered history req.getSvrType i = none := by
  have refines := refines_run h
  constructor
  · intro truthful
    by_contra neither
    obtain ⟨missing,some⟩ := not_or.mp neither
    obtain ⟨i,hi⟩ := not_forall.mp some
    obtain ⟨r,hr⟩ := Option.ne_none_iff_exists'.mp hi
    obtain ⟨dec,known⟩ := registered_known declared hr
    refine substitute_not_truthful refines dec known ?_ hr truthful
    by_contra present
    exact missing (Option.ne_none_iff_exists'.mp present)
  · rintro (⟨r,hr⟩ | empty)
    · exact truthful_of_requested refines hr (registered_known declared hr).1
    · exact truthful_of_empty refines empty

end Truth

theorem requested_truthful : Truthful entryOrder [.register accessOne]
    (endOf machine machine.init [.register accessOne] rfl) ⟨2,1⟩ :=
  (truthful_iff (run_endOf _) (by decide)).mpr (.inl ⟨accessOne,rfl⟩)

theorem substitute_misnamed : ∃ s, Run machine machine.init [.register accessOne] s ∧
    s.getServiceInfo entryOrder ⟨2,5⟩ = .ok ⟨2,5,accessOne.host,9000⟩ ∧
    ¬Truthful entryOrder [.register accessOne] s ⟨2,5⟩ := by
  refine ⟨_,run_endOf rfl,rfl,?_⟩
  intro truthful
  obtain ⟨t,i,r,hr,_,id,_⟩ := truthful _ rfl (by decide)
  obtain ⟨mem,_,_⟩ := registered_labels hr
  cases List.mem_singleton.mp mem
  cases id

end SeeU.DiscoverHandler
