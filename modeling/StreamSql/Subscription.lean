import StreamSql.Response.Rows

/-!
Subscriptions: a task takes items from a source one by one and calls an observer with each, until the
source ends, an item is an error, or the holder of the subscription ends it. The task and the holder
take turns in any order; each of their actions is a function on the state. To end a subscription, or to
leave it, takes the holder two actions, and the task may act in between.
-/

namespace StreamSql

inductive Call (α : Type)
  | next (a : α)
  | error (e : Error)
  | completed

inductive Task (α : Type)
  | waiting
  | holding (next : Option (Item α))
  | stopped

structure Subscription (α : Type) where
  source : List (Item α)
  ended : Bool
  isOpen : Bool
  cancelled : Bool
  task : Task α
  log : List (Call α)

namespace Subscription

variable {α : Type}

def start (source : List (Item α)) (ended : Bool) : Subscription α :=
  ⟨source, ended, true, false, .waiting, []⟩

def add (s : Subscription α) (items : List (Item α)) : Subscription α :=
  { s with source := s.source ++ items }

def observe (s : Subscription α) : Subscription α :=
  match s.task with
  | .waiting => if s.cancelled then { s with task := .stopped } else s
  | _ => s

def pull (s : Subscription α) : Subscription α :=
  match s.task, s.source with
  | .waiting, item :: rest => { s with source := rest, task := .holding (some item) }
  | .waiting, [] => if s.ended then { s with task := .holding none } else s
  | _, _ => s

def handOver (s : Subscription α) : Option (Item α) → Subscription α
  | some (.ok a) => { s with log := s.log ++ [.next a], task := .waiting }
  | some (.error e) => { s with log := s.log ++ [.error e], isOpen := false, task := .stopped }
  | none => { s with log := s.log ++ [.completed], isOpen := false, task := .stopped }

/-- The task calls the observer with what it holds, as long as calls are delivered. -/
def deliver (s : Subscription α) : Subscription α :=
  match s.task with
  | .holding next => if s.isOpen then s.handOver next else { s with task := .stopped }
  | _ => s

def shut (s : Subscription α) : Subscription α := { s with isOpen := false }

def cancel (s : Subscription α) : Subscription α := { s with cancelled := true }

def unsubscribe (s : Subscription α) : Subscription α := s.shut.cancel

def isActive (s : Subscription α) : Bool := s.isOpen && !s.cancelled

def isStopped (s : Subscription α) : Bool :=
  match s.task with
  | .stopped => true
  | _ => false

/-- To unsubscribe, or to drop the subscription, is to shut it and then to cancel the task. -/
inductive Action
  | observe
  | pull
  | deliver
  | shut
  | cancel
deriving DecidableEq

def Action.isOfTask : Action → Bool
  | .observe | .pull | .deliver => true
  | .shut | .cancel => false

def act (s : Subscription α) : Action → Subscription α
  | .observe => s.observe
  | .pull => s.pull
  | .deliver => s.deliver
  | .shut => s.shut
  | .cancel => s.cancel

def run (s : Subscription α) (actions : List Action) : Subscription α := actions.foldl act s

def turns : Nat → Subscription α → Subscription α
  | 0, s => s
  | n + 1, s => turns n s.observe.pull.deliver

def settle (s : Subscription α) : Subscription α := turns (s.source.length + 1) s

end Subscription

structure Feed (α : Type) where
  decoder : Decoder α
  phase : Phase
  subscription : Subscription α
  held : Bool

namespace Feed

variable {α : Type}

def start (d : Decoder α) : Feed α := ⟨d, .header, .start [] false, true⟩

def settle (f : Feed α) : Feed α := { f with subscription := f.subscription.settle }

def push (f : Feed α) (l : Line) : Feed α :=
  let (phase, item) := f.decoder.step f.phase l
  let s := f.subscription.add item.toList
  { f with phase := phase, subscription := { s with ended := s.ended || phase = .closed } }

def close (f : Feed α) : Feed α :=
  let s := f.subscription.add (Decoder.finish f.phase).toList
  { f with phase := .closed, subscription := { s with ended := true } }

def unsubscribe (f : Feed α) : Feed α :=
  if f.held then { f with subscription := f.subscription.unsubscribe } else f

def drop (f : Feed α) : Feed α := { f.unsubscribe with held := false }

def join (f : Feed α) : Feed α := { f with held := false }

def isActive? (f : Feed α) : Option Bool := if f.held then some f.subscription.isActive else none

end Feed
end StreamSql
