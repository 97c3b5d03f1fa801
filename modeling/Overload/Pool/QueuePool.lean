import Overload.Transition

/-! The connection pool (`cluster-executor/src/connection.rs`) as a machine.
The owner's two calls are cut at their awaits; what request tasks and spawned
tasks do to the shared vectors and to the failure counter happens in between. -/

namespace Overload.Pool

open Transition

structure ConnectionKeepAlive where
  ttl : UInt32
  maxRequestPerConnection : UInt32
  nonzero : maxRequestPerConnection ≠ 0
  deriving DecidableEq, Repr

/-- `requestHandle` stands for the hyper handle, that is, for the identity of the
connection. -/
structure HttpConnection where
  requestHandle : Nat
  shouldDrop : Bool
  expireAt : Nat
  remainingReuse : Int
  deriving DecidableEq, Repr

def getExpiry (ttl now : Nat) : Nat := min (now + ttl) (2 ^ 64 - 1)

def openConnection (keepAlive : ConnectionKeepAlive) (handle now : Nat) : HttpConnection where
  requestHandle := handle
  shouldDrop := false
  expireAt := getExpiry keepAlive.ttl.toNat now
  remainingReuse := (min keepAlive.maxRequestPerConnection.toNat (2 ^ 31 - 1) : Nat)

structure QueuePool where
  maxConnection : Int
  connections : List HttpConnection
  recyclableConnections : List HttpConnection
  newConnections : List HttpConnection
  busyConnections : Nat
  elastic : Bool
  keepAlive : ConnectionKeepAlive
  failedConnection : Nat
  deriving DecidableEq, Repr

def QueuePool.new (keepAlive : ConnectionKeepAlive) (elasticPool : Bool) : QueuePool where
  maxConnection := 0
  connections := []
  recyclableConnections := []
  newConnections := []
  busyConnections := 0
  elastic := elasticPool
  keepAlive := keepAlive
  failedConnection := 0

/-- The start of `set_connection_count`: a changed size ends elasticity, and the
queue loses its front down to the new size. -/
def QueuePool.shrinkTo (pool : QueuePool) (connectionCount : Nat) : QueuePool :=
  let availConLen := pool.connections.length
  { pool with
    elastic := pool.elastic && decide (connectionCount = pool.maxConnection.toNat)
    connections :=
      if availConLen > connectionCount then pool.connections.drop (availConLen - connectionCount)
      else pool.connections }

structure PoolMetrics where
  attempt : Nat
  success : Nat
  dropped : Nat
  broken : Nat
  idle : Int
  busy : Int
  deriving DecidableEq, Repr

/-- Spawned futures that have not finished.  `connecting` and `appending` are
`add_new_connection` inside its connect loop and before its last await. -/
inductive Task
  | resizeConnectionPool (diff : Int)
  | addNewConnection (count : Nat)
  | connecting (count : Nat)
  | appending (conn : List HttpConnection)
  deriving DecidableEq, Repr

/-- Where the owner stands: between calls, or at an await of one with the local
variables that are live there. -/
inductive Call
  | idle
  | resizing (connectionCount : Nat)
  | claiming (connectionRequest returnedToPool : Nat)
  | checking (connectionRequest : Nat) (futures vec : List HttpConnection) (dropped broken : Nat)
  | panicked
  deriving DecidableEq, Repr

/-- `handedOut` and `returning` are the connections in the hands of request tasks,
the latter already inside `return_connection`. -/
structure World where
  pool : QueuePool
  call : Call
  tasks : List Task
  handedOut : List HttpConnection
  returning : List HttpConnection
  metrics : PoolMetrics
  nextHandle : Nat
  deriving DecidableEq, Repr

def World.new (keepAlive : ConnectionKeepAlive) (elasticPool : Bool) : World where
  pool := .new keepAlive elasticPool
  call := .idle
  tasks := []
  handedOut := []
  returning := []
  metrics := ⟨0, 0, 0, 0, 0, 0⟩
  nextHandle := 0

namespace World

variable (w : World)

def spawnResizer (connectionCount : Nat) (diff : Int) : World :=
  { w with
    pool := { w.pool with maxConnection := connectionCount }
    tasks := w.tasks ++ [.resizeConnectionPool diff]
    call := .idle }

/-- `set_connection_count` up to its await, or to its end when the pool does not
grow.  Callers pass a `u32`, so the casts to `i64` change nothing. -/
def setConnectionCount (connectionCount : Nat) : World :=
  let pool := w.pool.shrinkTo connectionCount
  let dropped := w.pool.connections.length - pool.connections.length
  let w' : World := { w with
    pool
    metrics := { w.metrics with dropped := w.metrics.dropped + dropped } }
  let diff : Int := connectionCount - pool.maxConnection
  if diff > 0 then { w' with call := .resizing connectionCount }
  else w'.spawnResizer connectionCount diff

def resize (connectionCount : Nat) : World :=
  let activeCon :=
    w.pool.newConnections.length + w.pool.busyConnections + w.pool.connections.length
  w.spawnResizer connectionCount (max 0 ((connectionCount : Int) - activeCon))

def addNewConnectionMut (count : Nat) : World :=
  if count = 0 then w else { w with tasks := w.tasks ++ [.addNewConnection count] }

def claimRecyclable (connectionRequest : Nat) : World :=
  { w with
    pool := { w.pool with
      connections := w.pool.connections ++ w.pool.recyclableConnections
      recyclableConnections := [] }
    call := .claiming connectionRequest w.pool.recyclableConnections.length }

def claimNew : World :=
  { w with pool := { w.pool with
      connections := w.pool.connections ++ w.pool.newConnections
      newConnections := [] } }

def takeOffBusy (returnedToPool : Nat) : World :=
  { w with pool := { w.pool with busyConnections := w.pool.busyConnections - returnedToPool } }

def requestMore (connectionRequest : Nat) : World :=
  let diff : Int := w.pool.connections.length - connectionRequest
  if diff < 0 then w.addNewConnectionMut diff.natAbs else w

def reEnforce : World :=
  let available := w.pool.connections.length
  let currentActive := available + w.pool.busyConnections
  let diff : Int := currentActive - w.pool.maxConnection
  if diff > 0 then
    let connections := w.pool.connections.take (max 0 ((available : Int) - diff)).toNat
    let change := available - connections.length
    { w with
      pool := { w.pool with connections }
      metrics := { w.metrics with
        dropped := w.metrics.dropped + change
        idle := w.metrics.idle - change } }
  else w

def adjust (connectionRequest : Nat) : World :=
  if w.pool.elastic then w.requestMore connectionRequest else w.reEnforce

@[simp] theorem addNewConnectionMut_pool (count : Nat) :
    (w.addNewConnectionMut count).pool = w.pool := by
  simp only [addNewConnectionMut]
  split <;> rfl

@[simp] theorem addNewConnectionMut_handedOut (count : Nat) :
    (w.addNewConnectionMut count).handedOut = w.handedOut := by
  simp only [addNewConnectionMut]
  split <;> rfl

theorem adjust_frame (connectionRequest : Nat) :
    ∃ connections tasks metrics, w.adjust connectionRequest =
        { w with pool := { w.pool with connections }, tasks, metrics } ∧
      metrics.busy = w.metrics.busy := by
  simp only [adjust, requestMore, reEnforce, addNewConnectionMut]
  split
  · split
    · split <;> exact ⟨_, _, _, rfl, rfl⟩
    · exact ⟨_, _, _, rfl, rfl⟩
  · split <;> exact ⟨_, _, _, rfl, rfl⟩

theorem adjust_pool (connectionRequest : Nat) :
    (w.adjust connectionRequest).pool.elastic = w.pool.elastic ∧
      (w.adjust connectionRequest).pool.maxConnection = w.pool.maxConnection := by
  obtain ⟨_, _, _, hadjust, _⟩ := w.adjust_frame connectionRequest
  simp [hadjust]

theorem adjust_handedOut (connectionRequest : Nat) :
    (w.adjust connectionRequest).handedOut = w.handedOut := by
  obtain ⟨_, _, _, hadjust, _⟩ := w.adjust_frame connectionRequest
  simp [hadjust]

end World

def popFront : Nat → List HttpConnection → List HttpConnection × List HttpConnection × Nat
  | 0, connections => (connections, [], 0)
  | _ + 1, [] => ([], [], 0)
  | n + 1, con :: connections =>
    let (rest, futures, dropped) := popFront n connections
    if con.shouldDrop then (rest, futures, dropped + 1) else (rest, con :: futures, dropped)

namespace World

variable (w : World)

def popConnections (connectionRequest : Nat) : World :=
  let (connections, futures, dropped) := popFront connectionRequest w.pool.connections
  { w with
    pool := { w.pool with connections }
    call := .checking connectionRequest futures [] dropped 0 }

/-- `get_connections` from its second await to the readiness checks.  A
subtraction that would underflow stops the owner. -/
def prepareHandOut (connectionRequest returnedToPool : Nat) : World :=
  if w.pool.busyConnections < returnedToPool then { w.claimNew with call := .panicked }
  else ((w.claimNew.takeOffBusy returnedToPool).adjust connectionRequest).popConnections
    connectionRequest

def checkReady (con : HttpConnection) (ok : Bool) : Option World :=
  match w.call with
  | .checking connectionRequest futures vec dropped broken =>
    if con ∈ futures then
      some { w with call :=
        if ok then .checking connectionRequest (futures.erase con) (vec ++ [con]) dropped broken
        else .checking connectionRequest (futures.erase con) vec dropped (broken + 1) }
    else none
  | _ => none

def refill (dropped broken : Nat) : World :=
  { w with pool := { w.pool with failedConnection := 0 } }.addNewConnectionMut
    (broken + dropped + w.pool.failedConnection)

def handOut (vec : List HttpConnection) (dropped broken : Nat) : World :=
  let w := w.refill dropped broken
  { w with
    pool := { w.pool with busyConnections := w.pool.busyConnections + vec.length }
    call := .idle
    handedOut := w.handedOut ++ vec
    metrics := { w.metrics with
      broken := w.metrics.broken + broken
      dropped := w.metrics.dropped + (broken + dropped)
      busy := w.metrics.busy + vec.length
      idle := w.metrics.idle - vec.length } }

end World

def HttpConnection.used (connection : HttpConnection) (sinceEpoch : Nat) : HttpConnection :=
  { connection with
    shouldDrop := connection.shouldDrop ||
      (connection.expireAt < sinceEpoch || connection.remainingReuse ≤ 1)
    remainingReuse := connection.remainingReuse - 1 }

def resizeConnContainer (container : List HttpConnection) (toBeRemoved : Nat) :
    List HttpConnection × Nat :=
  if container.length < toBeRemoved then ([], container.length)
  else (container.take (container.length - toBeRemoved), toBeRemoved)

/-- The connections opened before the timeout, in order of completion; `some now`
is a success at that time. -/
def openConnections (keepAlive : ConnectionKeepAlive) :
    Nat → List (Option Nat) → List HttpConnection
  | _, [] => []
  | handle, none :: results => openConnections keepAlive handle results
  | handle, some now :: results =>
    openConnection keepAlive handle now :: openConnections keepAlive (handle + 1) results

namespace World

variable (w : World)

def returnConnection (connection : HttpConnection) (sinceEpoch : Nat) : Option World :=
  if connection ∈ w.handedOut then
    some { w with
      handedOut := w.handedOut.erase connection
      returning := w.returning ++ [connection.used sinceEpoch]
      metrics := { w.metrics with busy := w.metrics.busy - 1, idle := w.metrics.idle + 1 } }
  else none

def pushReturned (connection : HttpConnection) : Option World :=
  if connection ∈ w.returning then
    some { w with
      returning := w.returning.erase connection
      pool := { w.pool with
        recyclableConnections := w.pool.recyclableConnections ++ [connection] } }
  else none

def startConnecting (i count : Nat) : World :=
  { w with
    tasks := w.tasks.set i (.connecting count)
    metrics := { w.metrics with attempt := w.metrics.attempt + count } }

def removeNew (i toBeRemoved : Nat) : World :=
  let (newConnections, removed) := resizeConnContainer w.pool.newConnections toBeRemoved
  { w with
    tasks := w.tasks.eraseIdx i
    pool := { w.pool with newConnections }
    metrics := { w.metrics with
      dropped := w.metrics.dropped + removed
      idle := w.metrics.idle - removed } }

def startTask (i : Nat) : Option World :=
  match w.tasks[i]? with
  | some (.resizeConnectionPool diff) =>
    if diff < 0 then some (w.removeNew i diff.natAbs)
    else if diff > 0 then some (w.startConnecting i diff.natAbs)
    else some { w with tasks := w.tasks.eraseIdx i }
  | some (.addNewConnection count) => some (w.startConnecting i count)
  | _ => none

def finishConnecting (i : Nat) (results : List (Option Nat)) : Option World :=
  match w.tasks[i]? with
  | some (.connecting count) =>
    if results.length ≤ count then
      let conn := openConnections w.pool.keepAlive w.nextHandle results
      some { w with
        tasks := w.tasks.set i (.appending conn)
        pool := { w.pool with
          failedConnection := w.pool.failedConnection + (count - conn.length) }
        nextHandle := w.nextHandle + conn.length
        metrics := { w.metrics with
          success := w.metrics.success + conn.length
          idle := w.metrics.idle + conn.length } }
    else none
  | _ => none

def appendNew (i : Nat) : Option World :=
  match w.tasks[i]? with
  | some (.appending conn) =>
    some { w with
      tasks := w.tasks.eraseIdx i
      pool := { w.pool with newConnections := w.pool.newConnections ++ conn } }
  | _ => none

end World

inductive Action
  | setConnectionCount (connectionCount : Nat)
  | resize
  | getConnections (connectionRequest : Nat)
  | prepareHandOut
  | checkReady (con : HttpConnection) (ok : Bool)
  | handOut
  | returnConnection (connection : HttpConnection) (sinceEpoch : Nat)
  | pushReturned (connection : HttpConnection)
  | startTask (i : Nat)
  | finishConnecting (i : Nat) (results : List (Option Nat))
  | appendNew (i : Nat)
  deriving DecidableEq, Repr

def step (w : World) : Action → Option World
  | .setConnectionCount connectionCount =>
    match w.call with
    | .idle => some (w.setConnectionCount connectionCount)
    | _ => none
  | .resize =>
    match w.call with
    | .resizing connectionCount => some (w.resize connectionCount)
    | _ => none
  | .getConnections connectionRequest =>
    match w.call with
    | .idle => some (w.claimRecyclable connectionRequest)
    | _ => none
  | .prepareHandOut =>
    match w.call with
    | .claiming connectionRequest returnedToPool =>
      some (w.prepareHandOut connectionRequest returnedToPool)
    | _ => none
  | .checkReady con ok => w.checkReady con ok
  | .handOut =>
    match w.call with
    | .checking _ [] vec dropped broken => some (w.handOut vec dropped broken)
    | _ => none
  | .returnConnection connection sinceEpoch => w.returnConnection connection sinceEpoch
  | .pushReturned connection => w.pushReturned connection
  | .startTask i => w.startTask i
  | .finishConnecting i results => w.finishConnecting i results
  | .appendNew i => w.appendNew i

inductive Steps (w : World) : Action → World → Prop
  | setConnectionCount {connectionCount : Nat} (hcall : w.call = .idle) :
    Steps w (.setConnectionCount connectionCount) (w.setConnectionCount connectionCount)
  | resize {connectionCount : Nat} (hcall : w.call = .resizing connectionCount) :
    Steps w .resize (w.resize connectionCount)
  | getConnections {connectionRequest : Nat} (hcall : w.call = .idle) :
    Steps w (.getConnections connectionRequest) (w.claimRecyclable connectionRequest)
  | prepareHandOut {connectionRequest returnedToPool : Nat}
    (hcall : w.call = .claiming connectionRequest returnedToPool) :
    Steps w .prepareHandOut (w.prepareHandOut connectionRequest returnedToPool)
  | ready {connectionRequest dropped broken : Nat} {con : HttpConnection}
    {futures vec : List HttpConnection}
    (hcall : w.call = .checking connectionRequest futures vec dropped broken)
    (hmem : con ∈ futures) :
    Steps w (.checkReady con true) { w with
      call := .checking connectionRequest (futures.erase con) (vec ++ [con]) dropped broken }
  | broken {connectionRequest dropped broken : Nat} {con : HttpConnection}
    {futures vec : List HttpConnection}
    (hcall : w.call = .checking connectionRequest futures vec dropped broken)
    (hmem : con ∈ futures) :
    Steps w (.checkReady con false) { w with
      call := .checking connectionRequest (futures.erase con) vec dropped (broken + 1) }
  | handOut {connectionRequest dropped broken : Nat} {vec : List HttpConnection}
    (hcall : w.call = .checking connectionRequest [] vec dropped broken) :
    Steps w .handOut (w.handOut vec dropped broken)
  | returnConnection {connection : HttpConnection} {sinceEpoch : Nat}
    (hmem : connection ∈ w.handedOut) :
    Steps w (.returnConnection connection sinceEpoch) { w with
      handedOut := w.handedOut.erase connection
      returning := w.returning ++ [connection.used sinceEpoch]
      metrics := { w.metrics with busy := w.metrics.busy - 1, idle := w.metrics.idle + 1 } }
  | pushReturned {connection : HttpConnection} (hmem : connection ∈ w.returning) :
    Steps w (.pushReturned connection) { w with
      returning := w.returning.erase connection
      pool := { w.pool with
        recyclableConnections := w.pool.recyclableConnections ++ [connection] } }
  | removeNew {i : Nat} {diff : Int} (hi : w.tasks[i]? = some (.resizeConnectionPool diff))
    (hneg : diff < 0) : Steps w (.startTask i) (w.removeNew i diff.natAbs)
  | growPool {i : Nat} {diff : Int} (hi : w.tasks[i]? = some (.resizeConnectionPool diff))
    (hpos : 0 < diff) : Steps w (.startTask i) (w.startConnecting i diff.natAbs)
  | leavePool {i : Nat} (hi : w.tasks[i]? = some (.resizeConnectionPool 0)) :
    Steps w (.startTask i) { w with tasks := w.tasks.eraseIdx i }
  | startConnecting {i count : Nat} (hi : w.tasks[i]? = some (.addNewConnection count)) :
    Steps w (.startTask i) (w.startConnecting i count)
  | finishConnecting {i count : Nat} {results : List (Option Nat)} {conn : List HttpConnection}
    (hi : w.tasks[i]? = some (.connecting count)) (hle : results.length ≤ count)
    (hconn : conn = openConnections w.pool.keepAlive w.nextHandle results) :
    Steps w (.finishConnecting i results) { w with
      tasks := w.tasks.set i (.appending conn)
      pool := { w.pool with
        failedConnection := w.pool.failedConnection + (count - conn.length) }
      nextHandle := w.nextHandle + conn.length
      metrics := { w.metrics with
        success := w.metrics.success + conn.length
        idle := w.metrics.idle + conn.length } }
  | appendNew {i : Nat} {conn : List HttpConnection}
    (hi : w.tasks[i]? = some (.appending conn)) :
    Steps w (.appendNew i) { w with
      tasks := w.tasks.eraseIdx i
      pool := { w.pool with newConnections := w.pool.newConnections ++ conn } }

theorem Steps.of_step {w w' : World} {a : Action} (h : step w a = some w') : Steps w a w' := by
  cases a with
  | checkReady con ok =>
    simp only [step, World.checkReady] at h
    split at h
    · split at h
      · cases h
        cases ok
        · exact .broken ‹_› ‹_›
        · exact .ready ‹_› ‹_›
      · cases h
    · cases h
  | returnConnection connection sinceEpoch =>
    simp only [step, World.returnConnection] at h
    split at h
    · cases h
      exact .returnConnection ‹_›
    · cases h
  | pushReturned connection =>
    simp only [step, World.pushReturned] at h
    split at h
    · cases h
      exact .pushReturned ‹_›
    · cases h
  | startTask i =>
    simp only [step, World.startTask] at h
    split at h
    · rename_i diff hi
      split at h
      · cases h
        exact .removeNew hi ‹_›
      · split at h
        · cases h
          exact .growPool hi ‹_›
        · cases h
          obtain rfl : diff = 0 := by omega
          exact .leavePool hi
    · cases h
      exact .startConnecting ‹_›
    · cases h
  | finishConnecting i results =>
    simp only [step, World.finishConnecting] at h
    split at h
    · split at h
      · cases h
        exact .finishConnecting ‹_› ‹_› rfl
      · cases h
    · cases h
  | appendNew i =>
    simp only [step, World.appendNew] at h
    split at h
    · cases h
      exact .appendNew ‹_›
    · cases h
  | _ =>
    simp only [step] at h
    split at h
    · cases h
      constructor
      assumption
    · cases h

def Initial (elasticPool : Bool) (w : World) : Prop :=
  ∃ keepAlive, w = .new keepAlive elasticPool

end Overload.Pool
