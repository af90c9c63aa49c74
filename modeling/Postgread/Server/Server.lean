import Postgread.Foundations.Tasks
import Postgread.Convey.Go

/-!
# The server

The server accepts connections and gives each of them to a task of its own (`server.rs`). A task
takes the next number from a counter that all tasks share, announces the client, connects to the
target server and conveys. It prints a line wherever it gets to. `loopAccepting` and the tasks take
turns in any order: a schedule says who is next.

What the network has in store for a connection is a field of its `Client`. A turn of a task that
conveys is a step of `go`, from one message to the next, and its outputs are the events of this
step. The executor polls a task more often than that: a poll in which a read or a write is pending is
part of the turn that it belongs to, since it changes nothing that another task can see.

Three things belong to the library that runs the tasks and are not modelled: that `task::spawn` finds
room for one more task, in which order the executor polls them (a schedule is arbitrary, and may leave
a task out), and what a panic in one task does to the others. A task that panics is `finished`, and
the others go on.
-/

namespace Postgread

open Conveyor

/-! ## Addresses and lines -/

/-- An address of either version. -/
inductive IpAddr where
  | v4 (bits : BitVec 32)
  | v6 (bits : BitVec 128)
deriving DecidableEq, Repr

/-- An address with a port. -/
structure SocketAddr where
  ip : IpAddr
  port : UInt16
deriving DecidableEq, Repr

/-- The fields of the configuration that the loop reads. -/
structure Config where
  targetHost : String
  targetPort : UInt16

/-- A connection that was accepted. -/
structure Client where
  /-- `local_addr`, if it is known. -/
  localAddr : Option SocketAddr
  /-- `peer_addr`, if it is known. -/
  peerAddr : Option SocketAddr
  stream : Stream
  /-- What `TcpStream::connect` comes to: the local address of the connection, if it is known, and
  the stream of the target server. -/
  connect : SocketAddr → Except IoError (Option SocketAddr × Stream)

/-- A server that listens: the TLS library for the frontends, the results of `incoming.next()`, and
the configuration. -/
structure Server where
  tlsAcceptor : TlsProvider
  tcpListener : List (Except IoError Client)
  config : Config

/-- What the server runs on. -/
structure Platform where
  /-- How many bits a `usize` has. -/
  usizeBits : ℕ
  sixteen_le : 16 ≤ usizeBits
  overflowChecks : Bool
  /-- How a text is parsed as an address. -/
  parseIp : String → Option IpAddr
  /-- The TLS library for the target server. -/
  newTlsConnector : TlsProvider

/-- What a line tells of a client. -/
inductive Report where
  | isNewConnection (peer : SocketAddr)
  | couldNotBeHandled (error : IoError)
  | connected (server : SocketAddr)
  | couldNotConnect (error : IoError)
  | stopped (result : Except ConveyError Unit)

/-- A line, without its text and the time. -/
structure Line where
  listenPort : UInt16
  clientId : ℕ
  report : Report

/-- What can be observed of a task. -/
inductive Output where
  | line (line : Line)
  | event (event : Event)

/-! ## Tasks -/

/-- Where a task stands between two turns. -/
inductive ClientTask where
  /-- The loop has spawned the task. -/
  | accepted (client : Client)
  /-- It has taken its number. -/
  | numbered (clientId : ℕ) (client : Client)
  /-- `handle_client` has spawned the task that connects. -/
  | connecting (clientId : ℕ) (client : Client) (serverEndpoint : SocketAddr)
  | conveying (clientId : ℕ) (client : Client) (phase : Phase) (conveyor : Conveyor)
  /-- It has returned, has panicked, or waits for ever. -/
  | finished (clientId : ℕ)

/-- `fetch_add(1)`: the old value and the new one, which wraps around. -/
def fetchAdd (bits value : ℕ) : ℕ × ℕ := (value, (value + 1) % 2 ^ bits)

namespace Client

/-- The port that the lines about the client name. -/
def listenPort (client : Client) : UInt16 :=
  (client.localAddr.map SocketAddr.port).getD 0

/-- A line about the client. -/
def line (client : Client) (clientId : ℕ) (report : Report) : Output :=
  .line ⟨client.listenPort, clientId, report⟩

end Client

/-- A target host that is no address. -/
def invalidIp : IoError := .other "invalid IP address syntax"

/-- The address to connect to. -/
def serverEndpoint (platform : Platform) (config : Config) : Except IoError SocketAddr :=
  match platform.parseIp config.targetHost with
  | some ip => .ok ⟨ip, config.targetPort⟩
  | none => .error invalidIp

namespace ClientTask

/-- The part of `handle_client` that runs before the target server is connected. -/
def handleClient (platform : Platform) (config : Config) (clientId : ℕ) (client : Client) :
    ClientTask × List Output :=
  match client.peerAddr with
  -- the address is unwrapped before the line is printed
  | none => (.finished clientId, [])
  | some peer =>
    match serverEndpoint platform config with
    | .error error => (.finished clientId, [client.line clientId (.isNewConnection peer),
        client.line clientId (.couldNotBeHandled error)])
    | .ok endpoint => (.connecting clientId client endpoint,
        [client.line clientId (.isNewConnection peer)])

/-- The beginning of the task that `handle_client` spawns. -/
def connect (platform : Platform) (server : Server) (clientId : ℕ) (client : Client)
    (endpoint : SocketAddr) : ClientTask × List Output :=
  match client.connect endpoint with
  | .error error => (.finished clientId, [client.line clientId (.couldNotConnect error)])
  -- again an address is unwrapped
  | .ok (none, _) => (.finished clientId, [])
  | .ok (some addr, target) =>
    (.conveying clientId client .initial (.new client.stream target server.tlsAcceptor
      platform.newTlsConnector platform.overflowChecks), [client.line clientId (.connected addr)])

/-- What is printed when `convey` has come to an end. -/
def stopped (clientId : ℕ) (client : Client) :
    Except (Halt ConveyError) Unit → List Output
  | .ok _ => [client.line clientId (.stopped (.ok ⟨⟩))]
  | .error (.error error) => [client.line clientId (.stopped (.error error))]
  -- nothing is printed after a panic or an endless wait
  | .error _ => []

/-- The events that a step has added to the trace. -/
def newEvents (before after : Conveyor) : List Output :=
  (after.trace.drop before.trace.length).map .event

/-- One step of `go`, with its events as outputs and the line that comes after the last one. -/
def convey (clientId : ℕ) (client : Client) (phase : Phase) (conveyor : Conveyor) :
    ClientTask × List Output :=
  match step phase conveyor with
  | (.ok (some phase'), conveyor') =>
    (.conveying clientId client phase' conveyor', newEvents conveyor conveyor')
  | (.ok none, conveyor') =>
    (.finished clientId, newEvents conveyor conveyor' ++ stopped clientId client (.ok ⟨⟩))
  | (.error halt, conveyor') =>
    (.finished clientId, newEvents conveyor conveyor' ++ stopped clientId client (.error halt))

/-- One turn of a task: what it does up to its next number, connection or message. The counter is all
that tasks share. -/
def turn (platform : Platform) (server : Server) : Turn ClientTask ℕ Output
  | .accepted client, nextClientId =>
    let (clientId, nextClientId) := fetchAdd platform.usizeBits nextClientId
    (.numbered clientId client, nextClientId, [])
  | .numbered clientId client, nextClientId =>
    let (task, outputs) := handleClient platform server.config clientId client
    (task, nextClientId, outputs)
  | .connecting clientId client endpoint, nextClientId =>
    let (task, outputs) := connect platform server clientId client endpoint
    (task, nextClientId, outputs)
  | .conveying clientId client phase conveyor, nextClientId =>
    let (task, outputs) := convey clientId client phase conveyor
    (task, nextClientId, outputs)
  | .finished clientId, nextClientId => (.finished clientId, nextClientId, [])

end ClientTask

/-! ## The loop -/

/-- The results of `incoming.next()` still to come, what the loop has returned, if it has, and the
tasks. -/
structure Serving where
  incoming : List (Except IoError Client)
  returned : Option (Except IoError Unit)
  pool : Pool ClientTask ℕ Output

/-- Who takes a turn. -/
inductive Actor where
  | loop
  | task (i : ℕ)
deriving DecidableEq, Repr

namespace Serving

/-- Before the first connection. -/
def start (server : Server) : Serving where
  incoming := server.tcpListener
  returned := none
  pool := ⟨[], 1, []⟩

/-- One round of the loop. -/
def loopAccepting (serving : Serving) : Serving :=
  match serving.returned with
  | some _ => serving
  | none =>
    match serving.incoming with
    | [] => { serving with returned := some (.ok ⟨⟩) }
    | .error error :: incoming => { serving with incoming, returned := some (.error error) }
    | .ok client :: incoming =>
      { serving with incoming, pool := serving.pool.spawn (.accepted client) }

/-- A turn of the loop or of one of the tasks. -/
def turn (platform : Platform) (server : Server) (serving : Serving) : Actor → Serving
  | .loop => serving.loopAccepting
  | .task i => { serving with pool := serving.pool.turn (ClientTask.turn platform server) i }

/-- The turns of a schedule, one after the other. -/
def run (platform : Platform) (server : Server) (schedule : List Actor) (serving : Serving) :
    Serving :=
  schedule.foldl (turn platform server) serving

end Serving

end Postgread
