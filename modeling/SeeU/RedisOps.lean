import SeeU.TransitionSystem
import Mathlib

set_option autoImplicit false

/-!
# `RedisOps.autoId`

Every call reads the counter and increments it with separate commands. A Redis server
executes the commands of all clients one at a time, in any order.
-/
namespace SeeU.RedisOps
open TransitionSystem

/-! ### The server -/

/-- The strings that Redis takes for integers: the decimal representations of the signed
    64-bit integers. -/
def string2ll (s : String) : Option ℤ :=
  s.toInt?.bind (fun n => if n.repr = s ∧ -2 ^ 63 ≤ n ∧ n < 2 ^ 63 then some n else none)

inductive JedisDataException where
  | notAnInteger | overflow

/-- `INCR` takes an absent key for zero. -/
def incr (value : Option String) : Except JedisDataException String :=
  match string2ll (value.getD "0") with
  | none => .error .notAnInteger
  | some n => if n + 1 < 2 ^ 63 then .ok (n + 1).repr else .error .overflow

/-- `StringUtils.isEmpty`. -/
def isEmpty (sid : Option String) : Bool := sid.getD "" = ""

/-! ### The clients -/

/-- One invocation of `autoId` on the key. -/
abbrev CallId := ℕ

/-- The command that a call sends next, or how it has ended. The second `incr` is the one
    in the `catch` block. -/
inductive Phase where
  | set
  | incr (sid : String)
  | reset
  | incrAgain
  | returned (sid : String)
  | threw

structure State where
  value : Option String
  calls : CallId → Option Phase

/-- The commands; the first one of a call is `get`. -/
inductive Action where
  | get (c : CallId)
  | set (c : CallId)
  | incr (c : CallId)
  | reset (c : CallId)
  | incrAgain (c : CallId)

def State.setCall (s : State) (c : CallId) (p : Phase) : State :=
  { s with calls := Function.update s.calls c (some p) }

def step (s : State) : Action → Option State
  | .get c =>
    match s.calls c with
    | none =>
      if isEmpty s.value then some (s.setCall c .set)
      else some (s.setCall c (.incr (s.value.getD "")))
    | some _ => none
  | .set c =>
    match s.calls c with
    | some .set => some ({ s with value := some "1" }.setCall c (.incr "1"))
    | _ => none
  | .incr c =>
    match s.calls c with
    | some (.incr sid) =>
      match RedisOps.incr s.value with
      | .ok value => some ({ s with value := some value }.setCall c (.returned sid))
      | .error _ => some (s.setCall c .reset)
    | _ => none
  | .reset c =>
    match s.calls c with
    | some .reset => some ({ s with value := some "1" }.setCall c .incrAgain)
    | _ => none
  | .incrAgain c =>
    match s.calls c with
    | some .incrAgain =>
      match RedisOps.incr s.value with
      | .ok value => some ({ s with value := some value }.setCall c (.returned "1"))
      | .error _ => some (s.setCall c .threw)
    | _ => none

def start (value : Option String) : State := ⟨value,fun _ => none⟩

def machine (value : Option String) : Machine State Action := ⟨start value,step⟩

/-- The ids that have been returned are pairwise distinct. -/
def DistinctIds (s : State) : Prop :=
  ∀ c d sid, s.calls c = some (.returned sid) → s.calls d = some (.returned sid) → c = d

def Startable (value : Option String) : Prop :=
  value = none ∨ ∃ n : ℤ, 0 < n ∧ n < 2 ^ 63 ∧ value = some n.repr

def Phase.Ended : Phase → Prop
  | .returned _ | .threw => True
  | _ => False

/-- A call reads the key only while no other call is between its first command and its
    last. -/
def Alone (s : State) : Action → Prop
  | .get c => ∀ d p, d ≠ c → s.calls d = some p → p.Ended
  | _ => True

/-- The counter is not incremented beyond the largest 64-bit integer. -/
def InRange (s : State) : Action → Prop
  | .incr _ => ∀ n : ℤ, s.value = some n.repr → n + 1 < 2 ^ 63
  | _ => True

def Complete (s : State) : Prop := ∀ c p, s.calls c = some p → ∃ sid, p = .returned sid

/-! ### Integers and their representations -/

theorem repr_ne_empty (n : ℤ) : n.repr ≠ "" := by
  cases n with
  | ofNat n => exact Nat.repr_ne_empty
  | negSucc n => simp [Int.repr]

theorem string2ll_repr {n : ℤ} (lower : -2 ^ 63 ≤ n) (upper : n < 2 ^ 63) :
    string2ll n.repr = some n := by
  unfold string2ll
  rw [Int.toInt?_repr,Option.bind_some,if_pos ⟨rfl,lower,upper⟩]

theorem incr_repr {n : ℤ} (pos : 0 ≤ n) (upper : n + 1 < 2 ^ 63) :
    incr (some n.repr) = .ok (n + 1).repr := by
  unfold incr
  rw [Option.getD_some,string2ll_repr (by omega) (by omega)]
  exact if_pos upper

theorem isEmpty_repr (n : ℤ) : isEmpty (some n.repr) = false := by
  unfold isEmpty
  exact decide_eq_false (repr_ne_empty n)

theorem incr_startable {value : Option String} (h : Startable value)
    (range : ∀ n : ℤ, value = some n.repr → n + 1 < 2 ^ 63) :
    ∃ next, incr value = .ok next ∧ Startable (some next) := by
  rcases h with rfl | ⟨n,pos,_,rfl⟩
  · have zero : incr none = incr (some (0 : ℤ).repr) := rfl
    rw [zero]
    exact ⟨_,incr_repr (by omega) (by omega),.inr ⟨0 + 1,by omega,by omega,rfl⟩⟩
  · have upper := range n rfl
    exact ⟨_,incr_repr (by omega) upper,.inr ⟨n + 1,by omega,upper,rfl⟩⟩

/-! ### What each step can do -/

inductive Step (s : State) : Action → State → Prop where
  | getEmpty {c : CallId} (new : s.calls c = none) (h : isEmpty s.value = true) :
      Step s (.get c) (s.setCall c .set)
  | get {c : CallId} (new : s.calls c = none) (h : isEmpty s.value = false) :
      Step s (.get c) (s.setCall c (.incr (s.value.getD "")))
  | set {c : CallId} (hc : s.calls c = some .set) :
      Step s (.set c) ({ s with value := some "1" }.setCall c (.incr "1"))
  | incr {c : CallId} {sid value : String} (hc : s.calls c = some (.incr sid))
      (h : RedisOps.incr s.value = .ok value) :
      Step s (.incr c) ({ s with value := some value }.setCall c (.returned sid))
  | incrFailed {c : CallId} {sid : String} {e : JedisDataException}
      (hc : s.calls c = some (.incr sid)) (h : RedisOps.incr s.value = .error e) :
      Step s (.incr c) (s.setCall c .reset)
  | reset {c : CallId} (hc : s.calls c = some .reset) :
      Step s (.reset c) ({ s with value := some "1" }.setCall c .incrAgain)
  | incrAgain {c : CallId} {value : String} (hc : s.calls c = some .incrAgain)
      (h : RedisOps.incr s.value = .ok value) :
      Step s (.incrAgain c) ({ s with value := some value }.setCall c (.returned "1"))
  | incrAgainFailed {c : CallId} {e : JedisDataException} (hc : s.calls c = some .incrAgain)
      (h : RedisOps.incr s.value = .error e) : Step s (.incrAgain c) (s.setCall c .threw)

theorem step_cases {value : Option String} {s t : State} {a : Action}
    (h : (machine value).step s a = some t) : Step s a t := by
  change step s a = some t at h
  cases a with
  | get c =>
    simp only [step] at h
    split at h
    · split_ifs at h with empty
      · cases h
        exact .getEmpty ‹_› empty
      · cases h
        exact .get ‹_› (by simpa using empty)
    · cases h
  | set c =>
    simp only [step] at h
    split at h
    · cases h
      exact .set ‹_›
    · cases h
  | incr c =>
    simp only [step] at h
    split at h
    · split at h
      · cases h
        exact .incr ‹_› ‹_›
      · cases h
        exact .incrFailed ‹_› ‹_›
    · cases h
  | reset c =>
    simp only [step] at h
    split at h
    · cases h
      exact .reset ‹_›
    · cases h
  | incrAgain c =>
    simp only [step] at h
    split at h
    · split at h
      · cases h
        exact .incrAgain ‹_› ‹_›
      · cases h
        exact .incrAgainFailed ‹_› ‹_›
    · cases h

theorem setCall_eq_some {s : State} {c d : CallId} {p q : Phase}
    (h : (s.setCall c p).calls d = some q) : (d = c ∧ q = p) ∨ (d ≠ c ∧ s.calls d = some q) := by
  by_cases dc : d = c
  · subst dc
    have self : (s.setCall d p).calls d = some p := Function.update_self ..
    rw [self] at h
    exact .inl ⟨rfl,(Option.some.inj h).symm⟩
  · have other : (s.setCall c p).calls d = s.calls d := Function.update_of_ne dc ..
    rw [other] at h
    exact .inr ⟨dc,h⟩

theorem setCall_self (s : State) (c : CallId) (p : Phase) : (s.setCall c p).calls c = some p :=
  Function.update_self ..

theorem setCall_of_ne {s : State} {c d : CallId} (p : Phase) (h : d ≠ c) :
    (s.setCall c p).calls d = s.calls d := Function.update_of_ne h ..

/-! ### Runs within the range -/

/-- No call has had a failed `INCR`. -/
structure Normal (s : State) : Prop where
  startable : Startable s.value
  phases : ∀ c p, s.calls c = some p → p = .set ∨ (∃ sid, p = .incr sid) ∨ ∃ sid, p = .returned sid

section Normal
variable {s : State}

theorem Normal.incr_ok (h : Normal s) {c : CallId} (range : InRange s (.incr c))
    (e : JedisDataException) : incr s.value ≠ .error e := by
  obtain ⟨next,hn,_⟩ := incr_startable h.startable range
  rw [hn]
  nofun

/-- No call is in the `catch` block. -/
theorem Normal.not_caught (h : Normal s) {c : CallId} {p : Phase} (hp : s.calls c = some p) :
    p ≠ .reset ∧ p ≠ .incrAgain := by
  rcases h.phases c p hp with rfl | ⟨_,rfl⟩ | ⟨_,rfl⟩
  all_goals exact ⟨nofun,nofun⟩

end Normal

/-- The id that a call is going to return or has returned. -/
def Phase.id : Phase → String
  | .incr sid | .returned sid => sid
  | .set | .reset | .incrAgain | .threw => "1"

theorem normal_step {s t : State} {a : Action} (h : Normal s) (range : InRange s a)
    (hs : Step s a t) : Normal t := by
  have keep : ∀ {v : Option String} {c : CallId} {p : Phase}, Startable v →
      (p = .set ∨ (∃ sid, p = .incr sid) ∨ ∃ sid, p = .returned sid) →
      Normal ({ s with value := v }.setCall c p) := by
    intro v c p startable phase
    refine ⟨startable,?_⟩
    intro d q hd
    rcases setCall_eq_some hd with ⟨_,rfl⟩ | ⟨_,hd⟩
    · exact phase
    · exact h.phases d q hd
  cases hs with
  | getEmpty => exact keep h.startable (.inl rfl)
  | get => exact keep h.startable (.inr (.inl ⟨_,rfl⟩))
  | set => exact keep (.inr ⟨1,by decide,by decide,rfl⟩) (.inr (.inl ⟨_,rfl⟩))
  | incr _ hv =>
    obtain ⟨next,hn,startable⟩ := incr_startable h.startable range
    rw [hv] at hn
    cases hn
    exact keep startable (.inr (.inr ⟨_,rfl⟩))
  | incrFailed _ hv => exact absurd hv (h.incr_ok range _)
  | reset hc => exact absurd rfl (h.not_caught hc).1
  | incrAgain hc | incrAgainFailed hc => exact absurd rfl (h.not_caught hc).2

theorem id_step {s t : State} {a : Action} (h : Normal s) (range : InRange s a) (hs : Step s a t)
    {c : CallId} {p : Phase} (hp : s.calls c = some p) : ∃ q, t.calls c = some q ∧ q.id = p.id := by
  have keep : ∀ {v : Option String} {d : CallId} {q : Phase},
      (∀ r, s.calls d = some r → q.id = r.id) →
      ∃ q', ({ s with value := v }.setCall d q).calls c = some q' ∧ q'.id = p.id := by
    intro v d q same
    by_cases cd : c = d
    · subst cd
      exact ⟨q,setCall_self ..,same p hp⟩
    · exact ⟨p,(setCall_of_ne q cd).trans hp,rfl⟩
  have eq : ∀ {d : CallId} {r r' : Phase}, s.calls d = some r → s.calls d = some r' → r = r' := by
    intro d r r' hr hr'
    rw [hr] at hr'
    exact Option.some.inj hr'
  cases hs with
  | getEmpty new | get new => exact keep (fun r hr => by rw [new] at hr; cases hr)
  | set hc | incr hc =>
    refine keep (fun r hr => ?_)
    rw [←eq hc hr]
    rfl
  | incrFailed _ hv => exact absurd hv (h.incr_ok range _)
  | reset hc => exact absurd rfl (h.not_caught hc).1
  | incrAgain hc | incrAgainFailed hc => exact absurd rfl (h.not_caught hc).2

section Runs
variable {value : Option String} {as : List Action} {s t : State}

theorem normal_run (h : Run (machine value) s as t)
    (range : Guarded (machine value) InRange s as) (normal : Normal s) : Normal t :=
  h.guarded_invariant (I := Normal) (G := InRange)
    (fun _ _ _ hi hg hs => normal_step hi hg (step_cases hs)) range normal

theorem id_run (h : Run (machine value) s as t) (range : Guarded (machine value) InRange s as)
    (normal : Normal s) {c : CallId} {p : Phase} (hp : s.calls c = some p) :
    ∃ q, t.calls c = some q ∧ q.id = p.id := by
  induction h generalizing p with
  | nil _ => exact ⟨p,hp,rfl⟩
  | cons hs tail ih =>
    obtain ⟨q,hq,same⟩ := id_step normal range.1 (step_cases hs) hp
    obtain ⟨r,hr,id⟩ := ih (range.2 _ hs) (normal_step normal range.1 (step_cases hs)) hq
    exact ⟨r,hr,id.trans same⟩

end Runs

/-! ### One call at a time -/

/-- No two calls are going to return or have returned one id. -/
def DistinctCalls (s : State) : Prop :=
  ∀ c d p q, s.calls c = some p → s.calls d = some q → p.id = q.id → c = d

/-- The ids that have been returned are below the counter, and a call that is under way
    has the value of the counter. -/
structure Sequential (s : State) : Prop where
  startable : Startable s.value
  absent : s.value = none → ∀ c p, s.calls c = some p → p = .set
  counted : ∀ n : ℤ, s.value = some n.repr → ∀ c p, s.calls c = some p →
    p = .incr n.repr ∨ ∃ m : ℤ, m < n ∧ p = .returned m.repr
  distinct : DistinctCalls s

theorem Sequential.normal {s : State} (h : Sequential s) : Normal s := by
  refine ⟨h.startable,?_⟩
  intro c p hp
  rcases h.startable with none | ⟨n,_,_,hn⟩
  · exact .inl (h.absent none c p hp)
  · rcases h.counted n hn c p hp with rfl | ⟨m,_,rfl⟩
    · exact .inr (.inl ⟨_,rfl⟩)
    · exact .inr (.inr ⟨_,rfl⟩)

theorem Sequential.no_set {s : State} (h : Sequential s) {c : CallId}
    (hc : s.calls c = some .set) : s.value = none := by
  rcases h.startable with none | ⟨n,_,_,hn⟩
  · exact none
  · rcases h.counted n hn c _ hc with e | ⟨_,_,e⟩ <;> cases e

theorem Sequential.counter {s : State} (h : Sequential s) {c : CallId} {sid : String}
    (hc : s.calls c = some (.incr sid)) : ∃ n : ℤ, 0 < n ∧ s.value = some n.repr ∧ sid = n.repr := by
  rcases h.startable with none | ⟨n,pos,_,hn⟩
  · have e := h.absent none c _ hc
    cases e
  · rcases h.counted n hn c _ hc with e | ⟨_,_,e⟩
    · cases e
      exact ⟨n,pos,hn,rfl⟩
    · cases e

theorem repr_eq {m n : ℤ} (h : (some m.repr : Option String) = some n.repr) : m = n :=
  Int.repr_injective (Option.some.inj h)

theorem Sequential.get {s : State} (h : Sequential s) {c : CallId} (new : s.calls c = none)
    (alone : Alone s (.get c)) {p : Phase} (absent : s.value = none → p = .set)
    (counted : ∀ n : ℤ, s.value = some n.repr → p = .incr n.repr) :
    Sequential (s.setCall c p) := by
  have ended : ∀ {d q}, s.calls d = some q → q.Ended := by
    intro d q hd
    refine alone d q ?_ hd
    rintro rfl
    rw [new] at hd
    cases hd
  refine ⟨h.startable,?_,?_,?_⟩
  · intro none d q hd
    rcases setCall_eq_some hd with ⟨_,rfl⟩ | ⟨_,hd⟩
    · exact absent none
    · exact h.absent none d q hd
  · intro n hn d q hd
    rcases setCall_eq_some hd with ⟨_,rfl⟩ | ⟨_,hd⟩
    · exact .inl (counted n hn)
    · exact h.counted n hn d q hd
  · have apart : ∀ {d q}, s.calls d = some q → q.id ≠ p.id := by
      intro d q hd same
      have done := ended hd
      rcases h.startable with none | ⟨n,_,_,hn⟩
      · rw [h.absent none d q hd] at done
        cases done
      · rw [counted n hn] at same
        rcases h.counted n hn d q hd with rfl | ⟨m,below,rfl⟩
        · cases done
        · exact Int.ne_of_lt below (Int.repr_injective same)
    intro d e q r hd he same
    rcases setCall_eq_some hd with ⟨rfl,rfl⟩ | ⟨_,oldd⟩
    · rcases setCall_eq_some he with ⟨rfl,_⟩ | ⟨_,olde⟩
      · rfl
      · exact absurd same.symm (apart olde)
    · rcases setCall_eq_some he with ⟨rfl,rfl⟩ | ⟨_,olde⟩
      · exact absurd same (apart oldd)
      · exact h.distinct d e q r oldd olde same

theorem DistinctCalls.setCall {s : State} (h : DistinctCalls s) {v : Option String} {c : CallId}
    {p q : Phase} (hc : s.calls c = some p) (same : q.id = p.id) :
    DistinctCalls ({ s with value := v }.setCall c q) := by
  have old : ∀ {d r}, ({ s with value := v }.setCall c q).calls d = some r →
      ∃ r', s.calls d = some r' ∧ r'.id = r.id := by
    intro d r hd
    rcases setCall_eq_some hd with ⟨rfl,rfl⟩ | ⟨_,hd⟩
    · exact ⟨p,hc,same.symm⟩
    · exact ⟨r,hd,rfl⟩
  intro d e r u hd he id
  obtain ⟨r',hr,idr⟩ := old hd
  obtain ⟨u',hu,idu⟩ := old he
  exact h d e r' u' hr hu (by rw [idr,idu,id])

theorem Sequential.set {s : State} (h : Sequential s) {c : CallId} (hc : s.calls c = some .set) :
    Sequential ({ s with value := some "1" }.setCall c (.incr "1")) := by
  have none := h.no_set hc
  refine ⟨.inr ⟨1,by decide,by decide,rfl⟩,nofun,?_,h.distinct.setCall hc rfl⟩
  intro n hn d q hd
  have one : (1 : ℤ) = n := repr_eq hn
  subst one
  rcases setCall_eq_some hd with ⟨_,rfl⟩ | ⟨dc,hd⟩
  · exact .inl rfl
  · rw [h.absent none d q hd] at hd
    exact absurd (h.distinct d c _ _ hd hc rfl) dc

theorem Sequential.incr {s : State} (h : Sequential s) {c : CallId} {sid next : String}
    (range : InRange s (.incr c)) (hc : s.calls c = some (.incr sid))
    (hv : RedisOps.incr s.value = .ok next) :
    Sequential ({ s with value := some next }.setCall c (.returned sid)) := by
  obtain ⟨n,pos,hn,rfl⟩ := h.counter hc
  have upper := range n hn
  rw [hn,incr_repr (by omega) upper] at hv
  cases hv
  refine ⟨.inr ⟨n + 1,by omega,upper,rfl⟩,nofun,?_,h.distinct.setCall hc rfl⟩
  intro m hm d q hd
  have eq : n + 1 = m := repr_eq hm
  subst eq
  right
  rcases setCall_eq_some hd with ⟨_,rfl⟩ | ⟨dc,hd⟩
  · exact ⟨n,by omega,rfl⟩
  · rcases h.counted n hn d q hd with rfl | ⟨m,below,rfl⟩
    · exact absurd (h.distinct d c _ _ hd hc rfl) dc
    · exact ⟨m,by omega,rfl⟩

theorem isEmpty_startable {value : Option String} (h : Startable value) :
    isEmpty value = true ↔ value = none := by
  rcases h with rfl | ⟨n,_,_,rfl⟩
  · exact iff_of_true rfl rfl
  · rw [isEmpty_repr]
    exact iff_of_false nofun nofun

theorem sequential_step {s t : State} {a : Action} (h : Sequential s) (range : InRange s a)
    (alone : Alone s a) (hs : Step s a t) : Sequential t := by
  cases hs with
  | getEmpty new empty =>
    have none := (isEmpty_startable h.startable).mp empty
    refine h.get new alone (fun _ => rfl) ?_
    intro n hn
    rw [none] at hn
    cases hn
  | get new present =>
    refine h.get new alone ?_ ?_
    · intro none
      rw [(isEmpty_startable h.startable).mpr none] at present
      cases present
    · intro n hn
      rw [hn]
      rfl
  | set hc => exact h.set hc
  | incr hc hv => exact h.incr range hc hv
  | incrFailed _ hv => exact absurd hv (h.normal.incr_ok range _)
  | reset hc => exact absurd rfl (h.normal.not_caught hc).1
  | incrAgain hc | incrAgainFailed hc => exact absurd rfl (h.normal.not_caught hc).2

/-- A call that reads the key while another is under way gets the id of the other. -/
theorem alone_of_distinct {s t : State} {a : Action} (h : Sequential s) (hs : Step s a t)
    (distinct : DistinctCalls t) : Alone s a := by
  have busy : ∀ {d p}, s.calls d = some p → ¬p.Ended →
      (s.value = none ∧ p.id = "1") ∨ ∃ n : ℤ, s.value = some n.repr ∧ p.id = n.repr := by
    intro d p hd open'
    rcases h.startable with none | ⟨n,_,_,hn⟩
    · rw [h.absent none d p hd]
      exact .inl ⟨none,rfl⟩
    · rcases h.counted n hn d p hd with rfl | ⟨m,_,rfl⟩
      · exact .inr ⟨n,hn,rfl⟩
      · exact absurd trivial open'
  cases hs with
  | @getEmpty c new empty =>
    intro d p dc hd
    by_contra open'
    rcases busy hd open' with ⟨_,id⟩ | ⟨n,hn,_⟩
    · exact dc (distinct d c p _ ((setCall_of_ne _ dc).trans hd) (setCall_self ..) id)
    · rw [hn,isEmpty_repr] at empty
      cases empty
  | @get c new present =>
    intro d p dc hd
    by_contra open'
    rcases busy hd open' with ⟨none,_⟩ | ⟨n,hn,id⟩
    · rw [none] at present
      cases present
    · refine dc (distinct d c p _ ((setCall_of_ne _ dc).trans hd) (setCall_self ..) ?_)
      rw [id,hn]
      rfl
  | set | incr | incrFailed | reset | incrAgain | incrAgainFailed => trivial

theorem sequential_start {value : Option String} (h : Startable value) : Sequential (start value) :=
  ⟨h,nofun,nofun,nofun⟩

/-- As long as the counter stays in the range, calls that run one at a time return
    distinct ids, and calls that have all returned did so with distinct ids only if they
    ran one at a time. -/
theorem autoId_distinct_iff {value : Option String} (startable : Startable value)
    {as : List Action} {s : State} (h : Run (machine value) (start value) as s)
    (range : Guarded (machine value) InRange (start value) as) :
    (Guarded (machine value) Alone (start value) as → DistinctIds s) ∧
      (Complete s → DistinctIds s → Guarded (machine value) Alone (start value) as) := by
  have always_iff := h.always_iff_guarded (P := DistinctCalls) (J := Sequential) (G := Alone)
    (fun _ hj => hj.distinct)
    (fun _ _ _ hj hd hg hs => sequential_step hj hd hg (step_cases hs))
    (fun _ _ _ hj _ hs hp => alone_of_distinct hj (step_cases hs) hp)
    range (sequential_start startable)
  constructor
  · intro alone c d sid hc hd
    exact always_iff.mpr alone as [] s (List.append_nil as).symm h c d _ _ hc hd rfl
  · intro complete distinct
    refine always_iff.mp ?_
    rintro bs cs u rfl hu c d p q hp hq same
    obtain ⟨u',hu',rest⟩ := h.split
    have eq := hu.unique hu'
    subst eq
    have normal := normal_run hu range.left (sequential_start startable).normal
    obtain ⟨p',hp',idp⟩ := id_run rest (range.right hu) normal hp
    obtain ⟨q',hq',idq⟩ := id_run rest (range.right hu) normal hq
    obtain ⟨sid,rfl⟩ := complete c p' hp'
    obtain ⟨sid',rfl⟩ := complete d q' hq'
    have ids : sid = sid' := by
      change sid = p.id at idp
      change sid' = q.id at idq
      rw [idp,idq,same]
    subst ids
    exact distinct c d sid hp' hq'

theorem step_incr {s : State} {c : CallId} {sid : String} {n : ℤ} (pos : 0 ≤ n)
    (upper : n + 1 < 2 ^ 63) (hn : s.value = some n.repr) (hc : s.calls c = some (.incr sid)) :
    step s (.incr c) = some ({ s with value := some (n + 1).repr }.setCall c (.returned sid)) := by
  simp only [step,hc,hn,incr_repr pos upper]

/-- Two calls, the second of which begins after the first has returned. -/
theorem successive_calls_distinct : ∃ s, Run (machine (some "5")) (start (some "5"))
    [.get 0,.incr 0,.get 1,.incr 1] s ∧ DistinctIds s := by
  have first := step_incr (s := (start (some "5")).setCall 0 (.incr "5")) (c := 0) (n := 5)
    (by decide) (by decide) rfl rfl
  have second := step_incr (s := ({ (start (some "5")).setCall 0 (.incr "5") with
    value := some "6" }.setCall 0 (.returned "5")).setCall 1 (.incr "6")) (c := 1) (n := 6)
    (by decide) (by decide) rfl rfl
  have below : ∀ {s : State} {c : CallId} {k : ℤ}, s.value = some k.repr → k + 1 < 2 ^ 63 →
      InRange s (.incr c) := by
    intro s c k hk upper n hn
    rw [hk] at hn
    rw [←repr_eq hn]
    exact upper
  have run : Run (machine (some "5")) (start (some "5")) [.get 0,.incr 0,.get 1,.incr 1] _ :=
    .cons rfl (.cons first (.cons rfl (.cons second (.nil _))))
  have range : Guarded (machine (some "5")) InRange (start (some "5"))
      [.get 0,.incr 0,.get 1,.incr 1] :=
    .cons rfl trivial (.cons first (below (k := 5) rfl (by decide))
      (.cons rfl trivial (.cons second (below (k := 6) rfl (by decide)) trivial)))
  refine ⟨_,run,(autoId_distinct_iff (.inr ⟨5,by decide,by decide,rfl⟩) run range).1 ?_⟩
  refine .cons rfl (fun d p _ hd => ?_) (.cons first trivial (.cons rfl (fun d p _ hd => ?_)
    (.cons second trivial trivial)))
  · cases hd
  · rcases setCall_eq_some hd with ⟨_,rfl⟩ | ⟨d0,old⟩
    · trivial
    · exact absurd old (by simp [State.setCall,start,d0])

/-- Two calls that have both read the counter before either increments it. -/
theorem overlapping_calls_collide : ∃ s, Run (machine (some "5")) (start (some "5"))
    [.get 0,.get 1,.incr 0,.incr 1] s ∧ s.calls 0 = some (.returned "5") ∧
      s.calls 1 = some (.returned "5") ∧ ¬DistinctIds s := by
  have first := step_incr (s := ((start (some "5")).setCall 0 (.incr "5")).setCall 1 (.incr "5"))
    (c := 0) (n := 5) (by decide) (by decide) rfl rfl
  have second := step_incr (s := { ((start (some "5")).setCall 0 (.incr "5")).setCall 1
    (.incr "5") with value := some "6" }.setCall 0 (.returned "5")) (c := 1) (n := 6)
    (by decide) (by decide) rfl rfl
  refine ⟨_,.cons rfl (.cons rfl (.cons first (.cons second (.nil _)))),rfl,rfl,?_⟩
  intro distinct
  have same : (0 : CallId) = 1 := distinct 0 1 "5" rfl rfl
  cases same

end SeeU.RedisOps
