import Overload.Pool.QueuePool

/-! The cycles of one job on a secondary (`cluster-executor/src/secondary.rs`).  A
rate message starts a cycle; its loop takes connections from the pool bundle by
bundle, generates requests for them and spawns a task that sends these.  Request
tasks and the pool's own tasks go on in between.

Requests are of any type.  Times matter only through the readings of
`time_remaining`, which are left open, so the lengths of the sleeps are not here. -/

namespace Overload.Cycle

open Transition
open Pool (HttpConnection World)

/-- `Batch` is served by `handle_rate_msg`, `Immediate` by `handle_rate_msg_v2`. -/
inductive LoadGenerationMode
  | batch
  | immediate
  deriving DecidableEq, Repr

structure RateMessage where
  qps : Nat
  connections : Nat
  deriving DecidableEq, Repr

def bundleSize (requestBundleSize : Nat) (rate : RateMessage) : LoadGenerationMode → Nat
  | .immediate => 2 ^ 16 - 1
  | .batch =>
    let requestBundleSize := max (rate.qps / 100 + 1) requestBundleSize
    if rate.connections = 0 then min rate.qps requestBundleSize
    else min rate.qps (min rate.connections requestBundleSize)

theorem bundleSize_pos (requestBundleSize : Nat) {rate : RateMessage}
    (mode : LoadGenerationMode) (h : rate.qps ≠ 0) :
    0 < bundleSize requestBundleSize rate mode := by
  cases mode with
  | immediate => simp [bundleSize]
  | batch =>
    simp only [bundleSize]
    split <;> omega

structure Loop where
  bundleSize : Nat
  totalRemainingQps : Nat
  bundleSize_pos : 0 < bundleSize
  remaining_pos : 0 < totalRemainingQps
  deriving DecidableEq, Repr

def Loop.requestedConnection (loop : Loop) : Nat := min loop.bundleSize loop.totalRemainingQps

def Loop.sent (loop : Loop) (availableConnection : Nat) : Option Loop :=
  if h : loop.totalRemainingQps - availableConnection = 0 then none
  else some { loop with
    totalRemainingQps := loop.totalRemainingQps - availableConnection
    remaining_pos := Nat.pos_of_ne_zero h }

theorem Loop.sent_eq_some {loop loop' : Loop} {availableConnection : Nat}
    (h : loop.sent availableConnection = some loop') :
    loop'.bundleSize = loop.bundleSize ∧
      loop'.totalRemainingQps = loop.totalRemainingQps - availableConnection := by
  unfold sent at h
  split at h
  · cases h
  · cases h
    exact ⟨rfl, rfl⟩

structure Fill (Req : Type) where
  availableReq : Nat
  i : Nat
  needToInsert : Nat
  requestsToSend : List Req
  available_le : availableReq ≤ requestsToSend.length
  deriving DecidableEq, Repr

namespace Fill

variable {Req : Type}

def start (availableConnection : Nat) (requestsToSend : List Req) : Fill Req where
  availableReq := requestsToSend.length
  i := 0
  needToInsert := availableConnection - requestsToSend.length
  requestsToSend := requestsToSend
  available_le := Nat.le_refl _

def next (fill : Fill Req) : Option (Fill Req) :=
  if fill.needToInsert = 0 then none
  else if h : fill.i < fill.availableReq then
    have hi : fill.i < fill.requestsToSend.length := Nat.lt_of_lt_of_le h fill.available_le
    some { fill with
      requestsToSend := fill.requestsToSend ++ [fill.requestsToSend[fill.i]]
      i := fill.i + 1
      needToInsert := fill.needToInsert - 1
      available_le := Nat.le_trans fill.available_le (by simp) }
  else some { fill with i := 0 }

end Fill

def assign {Req : Type} : List HttpConnection → List Req → Option (List (HttpConnection × Req))
  | [], _ => some []
  | con :: connections, requestsToSend =>
    match requestsToSend.getLast? with
    | none => none
    | some req => (assign connections requestsToSend.dropLast).map ((con, req) :: ·)

inductive Phase (Req : Type)
  | waiting
  | starting (rate : RateMessage)
  | looping (loop : Loop)
  | acquiring (loop : Loop)
  | generating (loop : Loop) (connections : List HttpConnection)
  | filling (loop : Loop) (connections : List HttpConnection) (fill : Fill Req)
  | pacing (loop : Loop) (availableConnection : Nat)
  deriving DecidableEq, Repr

/-- `inFlight` are the connections in the spawned request tasks.  `obtained` and
`passed` record what the cycle got from `get_connections` and what it gave to
request tasks. -/
structure Session (Req : Type) where
  mode : LoadGenerationMode
  requestBundleSize : Nat
  world : World
  prevConnectionCount : Nat
  phase : Phase Req
  inFlight : List (HttpConnection × Req)
  obtained : List HttpConnection
  passed : List HttpConnection
  deriving DecidableEq, Repr

def Session.new (Req : Type) (mode : LoadGenerationMode) (requestBundleSize : Nat)
    (keepAlive : Pool.ConnectionKeepAlive) (elasticPool : Bool) : Session Req where
  mode := mode
  requestBundleSize := requestBundleSize
  world := .new keepAlive elasticPool
  prevConnectionCount := 0
  phase := .waiting
  inFlight := []
  obtained := []
  passed := []

namespace Session

variable {Req : Type} (s : Session Req)

def resize (connections : Nat) : Option World :=
  if s.prevConnectionCount ≠ connections then Pool.step s.world (.setConnectionCount connections)
  else some s.world

def handleRateMsg (rate : RateMessage) : Option (Session Req) :=
  (s.resize rate.connections).map fun world => { s with
    world
    prevConnectionCount := rate.connections
    phase := .starting rate
    obtained := []
    passed := [] }

def start (rate : RateMessage) (timeRemaining : Int) : Session Req :=
  if s.mode = .immediate ∧ timeRemaining < 10 then { s with phase := .waiting }
  else if h : rate.qps = 0 then { s with phase := .waiting }
  else { s with phase := .looping {
    bundleSize := bundleSize s.requestBundleSize rate s.mode
    totalRemainingQps := rate.qps
    bundleSize_pos := bundleSize_pos _ s.mode h
    remaining_pos := Nat.pos_of_ne_zero h } }

def getConnections (loop : Loop) (timeRemaining : Int) : Option (Session Req) :=
  if timeRemaining < 0 then some { s with phase := .waiting }
  else (Pool.step s.world (.getConnections loop.requestedConnection)).map fun world =>
    { s with world, phase := .acquiring loop }

end Session

def asksAgain (requestedConnection availableConnection : Nat) : LoadGenerationMode → Bool
  | .immediate => availableConnection < 1
  | .batch => availableConnection < requestedConnection && availableConnection < 1

namespace Session

variable {Req : Type} (s : Session Req)

def receive (loop : Loop) (connections : List HttpConnection) : Session Req :=
  { s with
    phase :=
      if asksAgain loop.requestedConnection connections.length s.mode then .looping loop
      else .generating loop connections
    obtained := s.obtained ++ connections }

def handOut (loop : Loop) : Option (Session Req) :=
  match s.world.call with
  | .checking _ [] vec _ _ =>
    (Pool.step s.world .handOut).map fun world => { s with world }.receive loop vec
  | _ => none

def spawnRequests (loop : Loop) (connections : List HttpConnection) (requestsToSend : List Req) :
    Session Req :=
  { s with
    phase := .pacing loop connections.length
    inFlight := s.inFlight ++ (assign connections requestsToSend).getD []
    passed := s.passed ++ connections }

def sendRequests (loop : Loop) (connections : List HttpConnection) :
    Except String (List Req) → Session Req
  -- an early return drops the vector of connections
  | .error _ => { s with phase := .waiting }
  | .ok requestsToSend =>
    -- `send_multiple_requests` goes on with an empty vector
    if s.mode = .immediate ∧ requestsToSend.isEmpty then { s with phase := .waiting }
    else if requestsToSend.length < connections.length then
      { s with phase := .filling loop connections (.start connections.length requestsToSend) }
    else s.spawnRequests loop connections requestsToSend

def fillReq (loop : Loop) (connections : List HttpConnection) (fill : Fill Req) : Session Req :=
  match fill.next with
  | some fill => { s with phase := .filling loop connections fill }
  | none => s.spawnRequests loop connections fill.requestsToSend

def pace (loop : Loop) (availableConnection : Nat) (timeRemaining : Int) : Session Req :=
  { s with phase :=
    if timeRemaining < 0 then .waiting
    else match loop.sent availableConnection with
      | none => .waiting
      | some loop => .looping loop }

def finishRequest (i sinceEpoch : Nat) : Option (Session Req) :=
  match s.inFlight[i]? with
  | some (con, _) =>
    (Pool.step s.world (.returnConnection con sinceEpoch)).map fun world =>
      { s with world, inFlight := s.inFlight.eraseIdx i }
  | none => none

section Inversion

variable {s} {t : Session Req} {loop : Loop}

theorem resize_eq_some {connections : Nat} {world : World}
    (h : s.resize connections = some world) :
    s.prevConnectionCount ≠ connections ∧
        Pool.step s.world (.setConnectionCount connections) = some world ∨
      s.prevConnectionCount = connections ∧ world = s.world := by
  unfold resize at h
  split at h
  · rename_i hchanged
    exact .inl ⟨hchanged, h⟩
  · rename_i hsame
    exact .inr ⟨not_not.mp hsame, (Option.some.inj h).symm⟩

theorem getConnections_eq_some {timeRemaining : Int}
    (h : s.getConnections loop timeRemaining = some t) :
    t = { s with phase := .waiting } ∨
      ∃ world, Pool.step s.world (.getConnections loop.requestedConnection) = some world ∧
        t = { s with world, phase := .acquiring loop } := by
  unfold getConnections at h
  split at h
  · exact .inl (Option.some.inj h).symm
  · obtain ⟨world, hworld, rfl⟩ := Option.map_eq_some_iff.mp h
    exact .inr ⟨world, hworld, rfl⟩

theorem handOut_eq_some (h : s.handOut loop = some t) :
    ∃ connectionRequest vec dropped broken world,
      s.world.call = .checking connectionRequest [] vec dropped broken ∧
        Pool.step s.world .handOut = some world ∧ t = { s with world }.receive loop vec := by
  unfold handOut at h
  split at h
  · rename_i connectionRequest vec dropped broken hcall
    obtain ⟨world, hworld, rfl⟩ := Option.map_eq_some_iff.mp h
    exact ⟨connectionRequest, vec, dropped, broken, world, hcall, hworld, rfl⟩
  · cases h

end Inversion

end Session

def isBackground : Pool.Action → Bool
  | .setConnectionCount _ => false
  | .getConnections _ => false
  | .handOut => false
  | .returnConnection _ _ => false
  | _ => true

inductive Action (Req : Type)
  | rates (rate : RateMessage)
  | start (timeRemaining : Int)
  | getConnections (timeRemaining : Int)
  | handOut
  | getRequests (answer : Except String (List Req))
  | fill
  | pace (timeRemaining : Int)
  | finishRequest (i sinceEpoch : Nat)
  | pool (a : Pool.Action)
  -- the handler exits on a receiver error and the next one recovers the pool
  | reconnect

def step {Req : Type} (s : Session Req) : Action Req → Option (Session Req)
  | .rates rate =>
    match s.phase with
    | .waiting => s.handleRateMsg rate
    | _ => none
  | .start timeRemaining =>
    match s.phase, s.world.call with
    | .starting rate, .idle => some (s.start rate timeRemaining)
    | _, _ => none
  | .getConnections timeRemaining =>
    match s.phase with
    | .looping loop => s.getConnections loop timeRemaining
    | _ => none
  | .handOut =>
    match s.phase with
    | .acquiring loop => s.handOut loop
    | _ => none
  | .getRequests answer =>
    match s.phase with
    | .generating loop connections => some (s.sendRequests loop connections answer)
    | _ => none
  | .fill =>
    match s.phase with
    | .filling loop connections fill => some (s.fillReq loop connections fill)
    | _ => none
  | .pace timeRemaining =>
    match s.phase with
    | .pacing loop availableConnection => some (s.pace loop availableConnection timeRemaining)
    | _ => none
  | .finishRequest i sinceEpoch => s.finishRequest i sinceEpoch
  | .pool a =>
    if isBackground a then (Pool.step s.world a).map fun world => { s with world } else none
  | .reconnect =>
    match s.phase with
    | .waiting => some { s with prevConnectionCount := 0 }
    | _ => none

inductive Steps {Req : Type} (s : Session Req) : Action Req → Session Req → Prop
  | rates {rate : RateMessage} {t : Session Req} (hphase : s.phase = .waiting)
    (h : s.handleRateMsg rate = some t) : Steps s (.rates rate) t
  | start {rate : RateMessage} {timeRemaining : Int} (hphase : s.phase = .starting rate)
    (hcall : s.world.call = .idle) : Steps s (.start timeRemaining) (s.start rate timeRemaining)
  | getConnections {loop : Loop} {timeRemaining : Int} {t : Session Req}
    (hphase : s.phase = .looping loop) (h : s.getConnections loop timeRemaining = some t) :
    Steps s (.getConnections timeRemaining) t
  | handOut {loop : Loop} {t : Session Req} (hphase : s.phase = .acquiring loop)
    (h : s.handOut loop = some t) : Steps s .handOut t
  | getRequests {loop : Loop} {connections : List HttpConnection}
    {answer : Except String (List Req)} (hphase : s.phase = .generating loop connections) :
    Steps s (.getRequests answer) (s.sendRequests loop connections answer)
  | fill {loop : Loop} {connections : List HttpConnection} {fill : Fill Req}
    (hphase : s.phase = .filling loop connections fill) :
    Steps s .fill (s.fillReq loop connections fill)
  | pace {loop : Loop} {availableConnection : Nat} {timeRemaining : Int}
    (hphase : s.phase = .pacing loop availableConnection) :
    Steps s (.pace timeRemaining) (s.pace loop availableConnection timeRemaining)
  | finishRequest {i sinceEpoch : Nat} {con : HttpConnection} {req : Req} {world : World}
    (hi : s.inFlight[i]? = some (con, req))
    (hworld : Pool.step s.world (.returnConnection con sinceEpoch) = some world) :
    Steps s (.finishRequest i sinceEpoch) { s with world, inFlight := s.inFlight.eraseIdx i }
  | pool {b : Pool.Action} {world : World} (hb : isBackground b)
    (hworld : Pool.step s.world b = some world) : Steps s (.pool b) { s with world }
  | reconnect (hphase : s.phase = .waiting) :
    Steps s .reconnect { s with prevConnectionCount := 0 }

theorem Steps.of_step {Req : Type} {s t : Session Req} {a : Action Req} (h : step s a = some t) :
    Steps s a t := by
  cases a with
  | rates rate =>
    simp only [step] at h
    split at h
    · exact .rates ‹_› h
    · cases h
  | start timeRemaining =>
    simp only [step] at h
    split at h
    · cases h
      exact .start ‹_› ‹_›
    · cases h
  | getConnections timeRemaining =>
    simp only [step] at h
    split at h
    · exact .getConnections ‹_› h
    · cases h
  | handOut =>
    simp only [step] at h
    split at h
    · exact .handOut ‹_› h
    · cases h
  | finishRequest i sinceEpoch =>
    simp only [step, Session.finishRequest] at h
    split at h
    · obtain ⟨world, hworld, rfl⟩ := Option.map_eq_some_iff.mp h
      exact .finishRequest ‹_› hworld
    · cases h
  | pool b =>
    simp only [step] at h
    split at h
    · obtain ⟨world, hworld, rfl⟩ := Option.map_eq_some_iff.mp h
      exact .pool ‹_› hworld
    · cases h
  | _ =>
    simp only [step] at h
    split at h
    · cases h
      constructor
      assumption
    · cases h

end Overload.Cycle
