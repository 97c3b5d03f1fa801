import Overload.Transition

/-! How the handlers of one job on a secondary share its connection pool
(`cluster-executor/src/secondary.rs`): two maps and a oneshot channel.  Both
versions of the handler take the same steps here.  A step ends where the next one
has to wait for a lock, a notification or a message. -/

namespace Overload.Secondary

open Transition

/-- What the receiving end of a oneshot channel will see.  One that has answered that the sender
is gone panics when it is polled again. -/
inductive Channel
  | unsent
  | sent
  | closed
  | consumed
  deriving DecidableEq, Repr

/-- The entries of the job in `CONNECTION_POOLS` and
`CONNECTION_POOLS_USAGE_LISTENER`.  Pools and channels are numbered. -/
structure Registry where
  connectionPools : Option Nat
  usageListener : Option Nat
  channels : List Channel
  nextPool : Nat
  deriving DecidableEq, Repr

/-- A handler from its call of `init_connection_pool` on, with the pool and the
ends of channels that it holds.  `givingUp` is about to put the receiver back,
`parking` to `removingMetrics` are the exits.  `panicked` has no pool to unwrap, `aborted` has
polled a receiver once too often. -/
inductive Handler
  | arrived
  | waiting (rx : Nat)
  | givingUp (rx : Nat)
  | taking
  | registering (queuePool : Nat)
  | running (queuePool tx : Nat)
  | parking (queuePool tx : Nat)
  | notifying (tx : Nat)
  | removingPool (queuePool tx : Nat)
  | removingListener (queuePool tx : Nat)
  | removingMetrics (queuePool tx : Nat)
  | ended
  | panicked
  | aborted
  deriving DecidableEq, Repr

/-- What `rx.recv()` gives in the message loop, with the outcome of `prepare` for
a request. -/
inductive Message
  | timeout
  | error
  | none
  | metadata
  | request (prepared : Bool)
  | rates
  | reset
  | stop
  | finished
  deriving DecidableEq, Repr

inductive Move
  | lookUp
  | notified
  | closed
  | timedOut
  | polledAgain
  | putBack
  | takePool
  | register
  | receive (msg : Message)
  | parkPool
  | notify
  | removePool
  | removeListener
  | removeMetrics
  deriving DecidableEq, Repr

namespace Registry

variable (r : Registry)

def settle (tx : Nat) (channel : Channel) : Registry :=
  { r with channels := r.channels.set tx channel }

def lookUp : Registry × Handler :=
  match r.usageListener with
  | some rx => ({ r with usageListener := none }, .waiting rx)
  | none => ({ r with nextPool := r.nextPool + 1 }, .registering r.nextPool)

def takePool : Registry × Handler :=
  match r.connectionPools with
  | some queuePool => ({ r with connectionPools := none }, .registering queuePool)
  | none => (r, .panicked)

def register (queuePool : Nat) : Registry × Handler :=
  ({ r with channels := r.channels ++ [.unsent], usageListener := some r.channels.length },
    .running queuePool r.channels.length)

def receive (queuePool tx : Nat) : Message → Registry × Handler
  | .error => (r, .parking queuePool tx)
  | .stop | .finished => (r, .removingPool queuePool tx)
  | .none | .request false => (r.settle tx .closed, .ended)
  | .timeout | .metadata | .rates | .reset | .request true => (r, .running queuePool tx)

def perform : Handler → Move → Option (Registry × Handler)
  | .arrived, .lookUp => some r.lookUp
  | .waiting rx, .notified => if r.channels[rx]? = some .sent then some (r, .taking) else none
  | .waiting rx, .closed =>
    if r.channels[rx]? = some .closed then some (r.settle rx .consumed, .givingUp rx) else none
  | .waiting rx, .timedOut =>
    if r.channels[rx]? = some .unsent then some (r, .givingUp rx) else none
  | .waiting rx, .polledAgain =>
    if r.channels[rx]? = some .consumed then some (r, .aborted) else none
  | .givingUp rx, .putBack => some ({ r with usageListener := some rx }, .ended)
  | .taking, .takePool => some r.takePool
  | .registering queuePool, .register => some (r.register queuePool)
  | .running queuePool tx, .receive msg => some (r.receive queuePool tx msg)
  | .parking queuePool tx, .parkPool =>
    some ({ r with connectionPools := some queuePool }, .notifying tx)
  | .notifying tx, .notify => some (r.settle tx .sent, .ended)
  | .removingPool queuePool tx, .removePool =>
    some ({ r with connectionPools := none }, .removingListener queuePool tx)
  | .removingListener queuePool tx, .removeListener =>
    some ({ r with usageListener := none }, .removingMetrics queuePool tx)
  | .removingMetrics _ tx, .removeMetrics => some (r.settle tx .closed, .ended)
  | _, _ => none

inductive Performs : Handler → Move → Registry → Handler → Prop
  | lookUp : Performs .arrived .lookUp r.lookUp.1 r.lookUp.2
  | notified {rx : Nat} (hsent : r.channels[rx]? = some .sent) :
    Performs (.waiting rx) .notified r .taking
  | closed {rx : Nat} (hclosed : r.channels[rx]? = some .closed) :
    Performs (.waiting rx) .closed (r.settle rx .consumed) (.givingUp rx)
  | timedOut {rx : Nat} (hunsent : r.channels[rx]? = some .unsent) :
    Performs (.waiting rx) .timedOut r (.givingUp rx)
  | polledAgain {rx : Nat} (hconsumed : r.channels[rx]? = some .consumed) :
    Performs (.waiting rx) .polledAgain r .aborted
  | putBack {rx : Nat} : Performs (.givingUp rx) .putBack { r with usageListener := some rx } .ended
  | takePool : Performs .taking .takePool r.takePool.1 r.takePool.2
  | register {queuePool : Nat} :
    Performs (.registering queuePool) .register (r.register queuePool).1 (r.register queuePool).2
  | receive {queuePool tx : Nat} {msg : Message} :
    Performs (.running queuePool tx) (.receive msg) (r.receive queuePool tx msg).1
      (r.receive queuePool tx msg).2
  | parkPool {queuePool tx : Nat} :
    Performs (.parking queuePool tx) .parkPool { r with connectionPools := some queuePool }
      (.notifying tx)
  | notify {tx : Nat} : Performs (.notifying tx) .notify (r.settle tx .sent) .ended
  | removePool {queuePool tx : Nat} :
    Performs (.removingPool queuePool tx) .removePool { r with connectionPools := none }
      (.removingListener queuePool tx)
  | removeListener {queuePool tx : Nat} :
    Performs (.removingListener queuePool tx) .removeListener { r with usageListener := none }
      (.removingMetrics queuePool tx)
  | removeMetrics {queuePool tx : Nat} :
    Performs (.removingMetrics queuePool tx) .removeMetrics (r.settle tx .closed) .ended

variable {r}

theorem Performs.of_perform {r' : Registry} {h h' : Handler} {m : Move}
    (hm : r.perform h m = some (r', h')) : r.Performs h m r' h' := by
  unfold perform at hm
  split at hm
  case h_1 | h_7 | h_8 | h_9 =>
    obtain ⟨rfl, rfl⟩ := Prod.ext_iff.mp (Option.some.inj hm)
    constructor
  case h_2 | h_3 | h_4 | h_5 =>
    split at hm
    · cases hm
      constructor
      assumption
    · cases hm
  case h_15 => cases hm
  all_goals
    cases hm
    constructor

end Registry

structure System where
  registry : Registry
  handlers : List Handler
  deriving DecidableEq, Repr

def System.new : System := ⟨⟨none, none, [], 0⟩, []⟩

inductive Action
  | connect
  | move (i : Nat) (m : Move)
  deriving DecidableEq, Repr

def step (s : System) : Action → Option System
  | .connect => some { s with handlers := s.handlers ++ [.arrived] }
  | .move i m =>
    match s.handlers[i]? with
    | some h =>
      (s.registry.perform h m).map fun (registry, h') => ⟨registry, s.handlers.set i h'⟩
    | none => none

theorem step_cases {s t : System} {a : Action} (h : step s a = some t) :
    (a = .connect ∧ t = { s with handlers := s.handlers ++ [.arrived] }) ∨
      ∃ i m l₁ l₂ h₀ registry h', a = .move i m ∧ s.handlers[i]? = some h₀ ∧
        s.handlers = l₁ ++ h₀ :: l₂ ∧ s.registry.perform h₀ m = some (registry, h') ∧
        t = ⟨registry, l₁ ++ h' :: l₂⟩ := by
  cases a with
  | connect =>
    cases h
    exact .inl ⟨rfl, rfl⟩
  | move i m =>
    simp only [step] at h
    split at h
    · rename_i h₀ hi
      obtain ⟨l₁, l₂, hsplit, hset, _⟩ := exists_split_of_getElem? hi
      simp only [Option.map_eq_some_iff, Prod.exists] at h
      obtain ⟨registry, h', hperform, rfl⟩ := h
      rw [hset]
      exact .inr ⟨i, m, l₁, l₂, h₀, registry, h', rfl, hi, hsplit, hperform, rfl⟩
    · cases h

end Overload.Secondary
