import Mathlib.Data.List.Basic
import Mathlib.Logic.Function.Basic

set_option autoImplicit false

/-!
# Connections that keep order and can be lost

Requests and answers travel first in, first out on each connection. Losing one drops what
is under way on it, and nothing is sent on it again. The two ends are left open, and no step
reads the logs.
-/
namespace RequestNetwork

/-- One direction of the connections. -/
structure Link (C A : Type) where
  pending : C → List A
  sent : List (C × A)
  arrived : List (C × A)

structure Net (C A B : Type) where
  requests : Link C A
  answers : Link C B
  lost : C → Bool

inductive Action (C A B : Type) where
  | write (c : C) (a : A)
  | take (c : C)
  | reply (c : C) (b : B)
  | receive (c : C)
  | lose (c : C)

variable {C A B α : Type}

def Link.empty : Link C A := ⟨fun _ => [],[],[]⟩

def start : Net C A B := ⟨.empty,.empty,fun _ => false⟩

variable [DecidableEq C]

namespace Link

def send (l : Link C A) (c : C) (a : A) : Link C A :=
  { l with
    pending := Function.update l.pending c (l.pending c ++ [a])
    sent := l.sent ++ [(c,a)] }

/-- The first message of a connection arrives. -/
def arrive (l : Link C A) (c : C) : Option (A × Link C A) :=
  match l.pending c with
  | [] => none
  | a :: rest =>
    some (a,{ l with
      pending := Function.update l.pending c rest
      arrived := l.arrived ++ [(c,a)] })

def drop (l : Link C A) (c : C) : Link C A :=
  { l with pending := Function.update l.pending c [] }

end Link

namespace Net

/-- What is written on a lost connection is dropped. -/
def write (n : Net C A B) (c : C) (a : A) : Net C A B :=
  if n.lost c then n else { n with requests := n.requests.send c a }

/-- The server takes the first request of a connection. -/
def take (n : Net C A B) (c : C) : Option (A × Net C A B) :=
  (n.requests.arrive c).map (fun taken => (taken.1,{ n with requests := taken.2 }))

def reply (n : Net C A B) (c : C) (b : B) : Net C A B :=
  if n.lost c then n else { n with answers := n.answers.send c b }

/-- The other end takes the first answer of a connection. -/
def receive (n : Net C A B) (c : C) : Option (B × Net C A B) :=
  (n.answers.arrive c).map (fun taken => (taken.1,{ n with answers := taken.2 }))

def lose (n : Net C A B) (c : C) : Net C A B :=
  ⟨n.requests.drop c,n.answers.drop c,Function.update n.lost c true⟩

end Net

def step (n : Net C A B) : Action C A B → Option (Net C A B)
  | .write c a => some (n.write c a)
  | .take c => (n.take c).map Prod.snd
  | .reply c b => some (n.reply c b)
  | .receive c => (n.receive c).map Prod.snd
  | .lose c => some (n.lose c)

/-! ### The log of one connection -/

/-- The entries of a log for one connection. -/
def on (c : C) (log : List (C × α)) : List α := (log.filter (fun e => e.1 = c)).map Prod.snd

section On
variable (c : C) (log log' : List (C × α))

theorem on_append : on c (log ++ log') = on c log ++ on c log' := by
  unfold on
  rw [List.filter_append,List.map_append]

theorem on_self (a : α) : on c [(c,a)] = [a] := by simp [on]

theorem on_of_ne {d : C} (h : d ≠ c) (a : α) : on c [(d,a)] = [] := by simp [on,h]

theorem mem_on {a : α} : a ∈ on c log ↔ (c,a) ∈ log := by
  simp only [on,List.mem_map,List.mem_filter,decide_eq_true_eq]
  constructor
  · rintro ⟨e,⟨he,rfl⟩,rfl⟩
    exact he
  · intro h
    exact ⟨(c,a),⟨h,rfl⟩,rfl⟩

end On

/-! ### One direction -/

/-- What has arrived was sent, at most once and in order, and unless the connection is lost
    nothing is missing. -/
structure Fifo (l : Link C A) (lost : C → Bool) : Prop where
  order : ∀ c, (on c l.arrived ++ l.pending c).Sublist (on c l.sent)
  complete : ∀ c, lost c = false → on c l.arrived ++ l.pending c = on c l.sent

theorem fifo_empty (lost : C → Bool) : Fifo (.empty : Link C A) lost :=
  ⟨fun _ => List.Sublist.refl _,fun _ _ => rfl⟩

section Link
variable {l m : Link C A} {lost : C → Bool} {c : C} {a : A}

theorem arrive_eq_some (h : l.arrive c = some (a,m)) : ∃ rest,
    l.pending c = a :: rest ∧ m = { l with
      pending := Function.update l.pending c rest
      arrived := l.arrived ++ [(c,a)] } := by
  unfold Link.arrive at h
  cases hp : l.pending c with
  | nil =>
    rw [hp] at h
    cases h
  | cons b rest =>
    rw [hp] at h
    cases h
    exact ⟨rest,rfl,rfl⟩

theorem send_log (l : Link C A) (c : C) (a : A) (d : C) :
    on d (l.send c a).arrived ++ (l.send c a).pending d =
      on d l.arrived ++ l.pending d ++ on d [(c,a)] := by
  dsimp only [Link.send]
  by_cases hd : c = d
  · subst hd
    rw [Function.update_self,on_self,List.append_assoc]
  · rw [Function.update_of_ne (Ne.symm hd),on_of_ne d hd,List.append_nil]

/-- An arrival moves a message from one list to the end of the other. -/
theorem arrive_log (h : l.arrive c = some (a,m)) (d : C) :
    on d m.arrived ++ m.pending d = on d l.arrived ++ l.pending d := by
  obtain ⟨rest,hp,rfl⟩ := arrive_eq_some h
  dsimp only
  rw [on_append]
  by_cases hd : c = d
  · subst hd
    rw [Function.update_self,on_self,List.append_assoc,List.singleton_append,hp]
  · rw [Function.update_of_ne (Ne.symm hd),on_of_ne d hd,List.append_nil]

theorem Fifo.send (h : Fifo l lost) (c : C) (a : A) : Fifo (l.send c a) lost := by
  have sent (d : C) : on d (l.send c a).sent = on d l.sent ++ on d [(c,a)] := on_append d _ _
  refine ⟨fun d => ?_,fun d kept => ?_⟩
  · rw [send_log,sent]
    exact (h.order d).append (List.Sublist.refl _)
  · rw [send_log,sent,h.complete d kept]

theorem Fifo.arrive (h : Fifo l lost) (hs : l.arrive c = some (a,m)) : Fifo m lost := by
  have sent : m.sent = l.sent := by
    obtain ⟨rest,_,rfl⟩ := arrive_eq_some hs
    rfl
  refine ⟨fun d => ?_,fun d kept => ?_⟩
  · rw [arrive_log hs,sent]
    exact h.order d
  · rw [arrive_log hs,sent,h.complete d kept]

theorem Fifo.drop (h : Fifo l lost) (c : C) :
    Fifo (l.drop c) (Function.update lost c true) := by
  refine ⟨fun d => ?_,fun d kept => ?_⟩
  · dsimp only [Link.drop]
    by_cases hd : d = c
    · subst hd
      rw [Function.update_self]
      exact ((List.Sublist.refl _).append (List.nil_sublist _)).trans (h.order d)
    · rw [Function.update_of_ne hd]
      exact h.order d
  · have ne : d ≠ c := by
      rintro rfl
      rw [Function.update_self] at kept
      cases kept
    rw [Function.update_of_ne ne] at kept
    dsimp only [Link.drop]
    rw [Function.update_of_ne ne]
    exact h.complete d kept

theorem Fifo.arrived_sent (h : Fifo l lost) (ha : (c,a) ∈ l.arrived) : (c,a) ∈ l.sent := by
  have mem := List.mem_append_left (l.pending c) ((mem_on c l.arrived).mpr ha)
  exact (mem_on c l.sent).mp ((h.order c).subset mem)

theorem Fifo.pending_sent (h : Fifo l lost) (ha : a ∈ l.pending c) : (c,a) ∈ l.sent :=
  (mem_on c l.sent).mp ((h.order c).subset (List.mem_append_right _ ha))

end Link

/-! ### What every run keeps -/

structure Ordered (n : Net C A B) : Prop where
  requests : Fifo n.requests n.lost
  answers : Fifo n.answers n.lost

theorem ordered_start : Ordered (start : Net C A B) := ⟨fifo_empty _,fifo_empty _⟩

section Steps
variable {n t : Net C A B} {c : C}

theorem take_eq_some {a : A} (h : n.take c = some (a,t)) : ∃ requests,
    n.requests.arrive c = some (a,requests) ∧ t = { n with requests := requests } := by
  obtain ⟨⟨b,requests⟩,ha,eq⟩ := Option.map_eq_some_iff.mp h
  cases eq
  exact ⟨requests,ha,rfl⟩

theorem receive_eq_some {b : B} (h : n.receive c = some (b,t)) : ∃ answers,
    n.answers.arrive c = some (b,answers) ∧ t = { n with answers := answers } := by
  obtain ⟨⟨a,answers⟩,ha,eq⟩ := Option.map_eq_some_iff.mp h
  cases eq
  exact ⟨answers,ha,rfl⟩

theorem Ordered.write (h : Ordered n) (c : C) (a : A) : Ordered (n.write c a) := by
  unfold Net.write
  split_ifs
  · exact h
  · exact ⟨h.requests.send c a,h.answers⟩

theorem Ordered.reply (h : Ordered n) (c : C) (b : B) : Ordered (n.reply c b) := by
  unfold Net.reply
  split_ifs
  · exact h
  · exact ⟨h.requests,h.answers.send c b⟩

theorem Ordered.step (h : Ordered n) {a : Action C A B} (hs : step n a = some t) : Ordered t := by
  cases a with
  | write c a =>
    cases hs
    exact h.write c a
  | take c =>
    obtain ⟨⟨a,t'⟩,ht,rfl⟩ := Option.map_eq_some_iff.mp hs
    obtain ⟨requests,ha,rfl⟩ := take_eq_some ht
    exact ⟨h.requests.arrive ha,h.answers⟩
  | reply c b =>
    cases hs
    exact h.reply c b
  | receive c =>
    obtain ⟨⟨b,t'⟩,ht,rfl⟩ := Option.map_eq_some_iff.mp hs
    obtain ⟨answers,ha,rfl⟩ := receive_eq_some ht
    exact ⟨h.requests,h.answers.arrive ha⟩
  | lose c =>
    cases hs
    exact ⟨h.requests.drop c,h.answers.drop c⟩

/-- What the logs gain by a step. -/
structure Gains (n t : Net C A B) (a : Action C A B) : Prop where
  written : ∀ c m, (c,m) ∈ t.requests.sent → (c,m) ∈ n.requests.sent ∨ a = .write c m
  replied : ∀ c b, (c,b) ∈ t.answers.sent → (c,b) ∈ n.answers.sent ∨ a = .reply c b
  received : ∀ e ∈ n.answers.arrived, e ∈ t.answers.arrived
  taken : (∀ c, a ≠ .take c) → t.requests.arrived = n.requests.arrived

theorem sent_send {l : Link C A} {d : C} {a b : A} (h : (d,b) ∈ (l.send c a).sent) :
    (d,b) ∈ l.sent ∨ (d,b) = (c,a) := by
  rcases List.mem_append.mp h with h | h
  · exact .inl h
  · exact .inr (List.mem_singleton.mp h)

theorem gains_step {a : Action C A B} (hs : step n a = some t) : Gains n t a := by
  cases a with
  | write c a =>
    cases hs
    unfold Net.write
    split_ifs
    · exact ⟨fun _ _ => .inl,fun _ _ => .inl,fun _ => id,fun _ => rfl⟩
    · refine ⟨fun d m hm => ?_,fun _ _ => .inl,fun _ => id,fun _ => rfl⟩
      rcases sent_send hm with old | eq
      · exact .inl old
      · cases eq
        exact .inr rfl
  | take c =>
    obtain ⟨⟨a,t'⟩,ht,rfl⟩ := Option.map_eq_some_iff.mp hs
    obtain ⟨requests,ha,rfl⟩ := take_eq_some ht
    obtain ⟨rest,_,rfl⟩ := arrive_eq_some ha
    exact ⟨fun _ _ => .inl,fun _ _ => .inl,fun _ => id,fun other => absurd rfl (other c)⟩
  | reply c b =>
    cases hs
    unfold Net.reply
    split_ifs
    · exact ⟨fun _ _ => .inl,fun _ _ => .inl,fun _ => id,fun _ => rfl⟩
    · refine ⟨fun _ _ => .inl,fun d m hm => ?_,fun _ => id,fun _ => rfl⟩
      rcases sent_send hm with old | eq
      · exact .inl old
      · cases eq
        exact .inr rfl
  | receive c =>
    obtain ⟨⟨b,t'⟩,ht,rfl⟩ := Option.map_eq_some_iff.mp hs
    obtain ⟨answers,ha,rfl⟩ := receive_eq_some ht
    obtain ⟨rest,_,rfl⟩ := arrive_eq_some ha
    exact ⟨fun _ _ => .inl,fun _ _ => .inl,fun _ => List.mem_append_left _,fun _ => rfl⟩
  | lose c =>
    cases hs
    exact ⟨fun _ _ => .inl,fun _ _ => .inl,fun _ => id,fun _ => rfl⟩

end Steps

end RequestNetwork
