import BlipMQ.Lib.Threads
import BlipMQ.Core.Registry

/-!
# Broker — calls side by side

Every structure of the broker has a lock of its own, and a call takes them one
after the other: between two of its critical sections other calls run. Here a
call is the list of its critical sections, and a step carries out the next one
of some call, whichever. Locks that a call keeps for longer only leave out some of
these orders.
-/

namespace BlipMQ.Core

/-! ## The critical sections on the registry -/

namespace Registry

/-- `subscribers.insert` or `members.push`. -/
def place (r : Registry) (x : Nat) (home : SubscriptionRef) : Registry :=
  { r with members := fun t g =>
      if (⟨t, g⟩ : SubscriptionRef) = home then r.members t g ++ [x] else r.members t g }

/-- `subscribers.remove` or `members.retain`. -/
def unplace (r : Registry) (x : Nat) (home : SubscriptionRef) : Registry :=
  { r with members := fun t g =>
      if (⟨t, g⟩ : SubscriptionRef) = home then (r.members t g).filter (· ≠ x)
      else r.members t g }

/-- `shard.insert`. -/
def store (r : Registry) (x : Nat) (home : SubscriptionRef) : Registry :=
  { r with subscriptions := fun y => if y = x then some home else r.subscriptions y }

/-- `shard.remove`. -/
def discard (r : Registry) (x : Nat) : Registry :=
  { r with subscriptions := fun y => if y = x then none else r.subscriptions y }

/-- `conn_map.entry(c).or_default().push`. -/
def connect (r : Registry) (x c : Nat) : Registry :=
  { r with connections := fun d => if d = c then r.connections d ++ [x] else r.connections d }

/-- `conn_map.remove(c)`. -/
def hangUp (r : Registry) (c : Nat) : Registry :=
  { r with connections := fun d => if d = c then [] else r.connections d }

/-- The walk over the whole map in `unsubscribe_one`. -/
def disconnect (r : Registry) (x : Nat) : Registry :=
  { r with connections := fun c => (r.connections c).filter (· ≠ x) }

/-- `wcs.push`, and the length under the same lock. -/
def list (r : Registry) (x : Nat) (pattern : SubjectPattern) : Registry :=
  { r with wildcards := r.wildcards ++ [(pattern, x)], wildcardsLen := r.wildcards.length + 1 }

/-- `wcs.retain`, and the length under the same lock. -/
def unlist (r : Registry) (removed : List Nat) : Registry :=
  { r with
    wildcards := r.wildcards.filter (·.2 ∉ removed)
    wildcardsLen := (r.wildcards.filter (·.2 ∉ removed)).length }

end Registry

/-- What the calls share: the registries, the topic records that exist, the
groups of each, and the round-robin counters of the groups. -/
structure Shared where
  registry : Registry
  topics : List String
  groups : String → List String
  turns : String → String → Nat

/-- The place has its topic record, and its group if it names one. -/
def Shared.knows (s : Shared) (home : SubscriptionRef) : Bool :=
  decide (home.topic ∈ s.topics) && home.group.all (· ∈ s.groups home.topic)

/-! ## Calls -/

/-- What a subscribe call was made with. -/
structure Joining where
  home : SubscriptionRef
  connId : Option Nat
  wildcard : Option SubjectPattern
  deriving DecidableEq, Repr

/-- Where a publish found a subscription: in a place of the topic, or in the list of
wildcards. -/
inductive Source where
  | place (group : Option String)
  | wildcard
  deriving DecidableEq, Repr

/-- The critical sections of a publish. -/
inductive Read where
  | topic
  | subscribers
  | groups
  | members (g : String)
  | wildcardsLen
  | wildcards
  | lookup (pattern : SubjectPattern) (x : Nat)
  deriving DecidableEq, Repr

/-- A publish: what it has to read and what it has found. -/
structure Reading where
  topic : String
  key : Option Bytes
  todo : List Read
  found : List (Source × Nat)
  deriving DecidableEq, Repr

/-- The next critical section of a call. `one` says that the call is an
`unsubscribe_one`, which clears the connections as well. -/
inductive Call where
  | getOrInsert (j : Joining)
  | number (j : Joining)
  | enlist (x : Nat) (j : Joining)
  | place (x : Nat) (j : Joining)
  | store (x : Nat) (j : Joining)
  | connect (x c : Nat) (wildcard : Option SubjectPattern)
  | list (x : Nat) (pattern : SubjectPattern)
  | close (c : Nat)
  | take (ids : List Nat) (taken : List (Nat × SubscriptionRef)) (one : Bool)
  | unplace (gone : List Nat) (todo : List (Nat × SubscriptionRef)) (one : Bool)
  | disconnect (x : Nat)
  | unlist (removed : List Nat)
  | publish (p : Reading)
  | done
  deriving DecidableEq, Repr

namespace Call

/-- After the connection comes the list of wildcards. -/
def afterConnect (x : Nat) : Option SubjectPattern → Call
  | none => .done
  | some pattern => .list x pattern

/-- After the map of subscriptions comes the connection. -/
def afterStore (x : Nat) (j : Joining) : Call :=
  match j.connId with
  | none => afterConnect x j.wildcard
  | some c => .connect x c j.wildcard

/-- After the topics come the connections, or the list of wildcards at once. -/
def afterUnplace (one : Bool) : List Nat → Call
  | [] => .done
  | x :: gone => if one then .disconnect x else .unlist (x :: gone)

end Call

/-- The group of a topic as a publish meets it. -/
def Shared.group (s : Shared) (topic g : String) : ConsumerGroup :=
  ⟨s.registry.members topic (some g), s.turns topic g⟩

/-- The choice of one member, which moves the group's counter on. -/
def Shared.turn (ahash : Bytes → Nat) (s : Shared) (topic g : String) (key : Option Bytes) :
    Shared :=
  { s with turns := fun t h =>
      if t = topic ∧ h = g then ((s.group topic g).choose ahash key).2.nextIdx else s.turns t h }

/-- What is to be read because of what is read now. -/
def Read.leads (s : Shared) (topic : String) : Read → List Read
  | .topic => if topic ∈ s.topics then [.subscribers, .groups] else []
  | .groups => (s.groups topic).map .members
  | .wildcardsLen => if 0 < s.registry.wildcardsLen then [.wildcards] else []
  | .wildcards => s.registry.wildcards.map fun p => .lookup p.1 p.2
  | .subscribers | .members _ | .lookup .. => []

/-- What is found. -/
def Read.finds (ahash : Bytes → Nat) (s : Shared) (topic : String) (key : Option Bytes) :
    Read → List (Source × Nat)
  | .subscribers => (s.registry.members topic none).map (.place none, ·)
  | .members g => ((s.group topic g).choose ahash key).1.toList.map (.place (some g), ·)
  | .lookup pattern x =>
    if pattern.matches topic && (s.registry.subscriptions x).isSome then [(.wildcard, x)] else []
  | .topic | .groups | .wildcardsLen | .wildcards => []

/-- One critical section of a publish. -/
def Reading.next (ahash : Bytes → Nat) (s : Shared) (p : Reading) : Option (Shared × Reading) :=
  match p.todo with
  | [] => none
  | r :: todo =>
    some (match r with | .members g => s.turn ahash p.topic g p.key | _ => s,
      { p with
        todo := r.leads s p.topic ++ todo
        found := p.found ++ r.finds ahash s p.topic p.key })

/-- One critical section of a call. Topics and groups that are there stay there, so
looking them up in an unsubscribe is part of the removal. -/
def Call.next (ahash : Bytes → Nat) (s : Shared) : Call → Option (Shared × Call)
  | .getOrInsert j =>
    some ({ s with topics := s.topics.insert j.home.topic }, .number j)
  | .number j =>
    some ({ s with registry := { s.registry with nextId := s.registry.nextId + 1 } },
      match j.home.group with
      | none => .place s.registry.nextId j
      | some _ => .enlist s.registry.nextId j)
  | .enlist x j =>
    some ({ s with groups := fun t =>
      if t = j.home.topic then j.home.group.elim (s.groups t) (s.groups t).insert
      else s.groups t }, .place x j)
  | .place x j => some ({ s with registry := s.registry.place x j.home }, .store x j)
  | .store x j => some ({ s with registry := s.registry.store x j.home }, afterStore x j)
  | .connect x c wildcard =>
    some ({ s with registry := s.registry.connect x c }, afterConnect x wildcard)
  | .list x pattern => some ({ s with registry := s.registry.list x pattern }, .done)
  | .close c =>
    some ({ s with registry := s.registry.hangUp c }, .take (s.registry.connections c) [] false)
  | .take [] taken one => some (s, .unplace [] taken one)
  | .take (x :: ids) taken one =>
    match s.registry.subscriptions x with
    | none => some (s, .take ids taken one)
    | some home =>
      some ({ s with registry := s.registry.discard x }, .take ids (taken ++ [(x, home)]) one)
  | .unplace gone [] one => some (s, afterUnplace one gone)
  | .unplace gone ((x, home) :: todo) one =>
    some (if s.knows home then { s with registry := s.registry.unplace x home } else s,
      .unplace (gone ++ [x]) todo one)
  | .disconnect x => some ({ s with registry := s.registry.disconnect x }, .unlist [x])
  | .unlist removed => some ({ s with registry := s.registry.unlist removed }, .done)
  | .publish p => (p.next ahash s).map fun q => (q.1, .publish q.2)
  | .done => none

/-! ## The system -/

structure Interleaved where
  shared : Shared
  calls : List Call

/-- What can be called: a subscribe, the end of a connection, the removal of one
subscription, a publish with the topic's name or with a handle to its record. -/
inductive Request where
  | subscribe (j : Joining)
  | unsubscribeConnection (c : Nat)
  | unsubscribeOne (x : Nat)
  | publish (topic : String) (key : Option Bytes)
  | publishResolved (topic : String) (key : Option Bytes)
  deriving DecidableEq, Repr

def Request.call : Request → Call
  | .subscribe j => .getOrInsert j
  | .unsubscribeConnection c => .close c
  | .unsubscribeOne x => .take [x] [] true
  | .publish topic key => .publish ⟨topic, key, [.topic, .wildcardsLen], []⟩
  | .publishResolved topic key =>
    .publish ⟨topic, key, [.subscribers, .groups, .wildcardsLen], []⟩

inductive Move where
  | start (request : Request)
  | advance (i : Nat)
  deriving DecidableEq, Repr

namespace Interleaved

/-- A call begins, or one that is under way carries out its next critical section. -/
def step (ahash : Bytes → Nat) (s : Interleaved) : Move → Option Interleaved
  | .start request => some { s with calls := s.calls ++ [request.call] }
  | .advance i =>
    match s.calls[i]? with
    | none => none
    | some c => (c.next ahash s.shared).map fun q => ⟨q.1, s.calls.set i q.2⟩

/-- A broker nobody has subscribed to. -/
def new : Interleaved where
  shared :=
    { registry := ⟨fun _ _ => [], fun _ => none, fun _ => [], [], 0, 1⟩
      topics := []
      groups := fun _ => []
      turns := fun _ _ => 0 }
  calls := []

end Interleaved

/-! ## What a step does -/

theorem Reading.next_some {ahash : Bytes → Nat} {s s' : Shared} {p p' : Reading}
    (h : p.next ahash s = some (s', p')) : ∃ r todo turns, p.todo = r :: todo ∧
      s' = { s with turns := turns } ∧ p' = { p with
        todo := r.leads s p.topic ++ todo
        found := p.found ++ r.finds ahash s p.topic p.key } := by
  unfold next at h
  split at h
  · cases h
  · rename_i r todo htodo
    cases h
    cases r <;> exact ⟨_, todo, _, htodo, rfl, rfl⟩

/-- What holds when a call begins and is kept by every critical section is kept
by every step. -/
theorem Interleaved.step_invariant (ahash : Bytes → Nat) {P : Interleaved → Prop}
    {cond : Interleaved → Move → Prop}
    (hstart : ∀ s (request : Request), P s → P { s with calls := s.calls ++ [request.call] })
    (hnext : ∀ s i c sh c', P s → cond s (.advance i) → s.calls[i]? = some c →
      c.next ahash s.shared = some (sh, c') → P ⟨sh, s.calls.set i c'⟩) :
    ∀ s a s', P s → cond s a → step ahash s a = some s' → P s' := by
  intro s a s' hP hcond h
  cases a with
  | start request =>
    cases h
    exact hstart s request hP
  | advance i =>
    simp only [step] at h
    split at h
    · cases h
    · rename_i c hc
      obtain ⟨⟨sh, c'⟩, hnxt, rfl⟩ := Option.map_eq_some_iff.mp h
      exact hnext s i c sh c' hP hcond hc hnxt

end BlipMQ.Core
