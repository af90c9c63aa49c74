import Postgread.Convey.History
import Postgread.Server.Server

/-!
# Clients on their own

The tasks of the server share a counter, a callback and the standard output. `story` says what can be
observed of one client when nobody else is there. `serving_isolated` says that in every schedule each
client's outputs are a beginning of its story, which is complete when its task is over, and
`serving_lively` that a task is over after a number of turns that depends on its client alone.
-/

namespace Postgread

open Conveyor

variable {platform : Platform} {server : Server}

/-! ## What can be observed of one client -/

/-- The conveyor between a client and its target. -/
def Client.conveyor (client : Client) (platform : Platform) (server : Server) (target : Stream) :
    Conveyor :=
  .new client.stream target server.tlsAcceptor platform.newTlsConnector platform.overflowChecks

/-- The conveyor of a client has not done anything yet. -/
theorem Client.fresh_conveyor (client : Client) (target : Stream) :
    (client.conveyor platform server target).Fresh :=
  fresh_new _ _ _ _ _

/-- All that is observed of a client from the call of `handle_client` on. -/
def story (platform : Platform) (server : Server) (clientId : ℕ) (client : Client) : List Output :=
  match client.peerAddr with
  | none => []
  | some peer =>
    client.line clientId (.isNewConnection peer) ::
      match serverEndpoint platform server.config with
      | .error error => [client.line clientId (.couldNotBeHandled error)]
      | .ok endpoint =>
        match client.connect endpoint with
        | .error error => [client.line clientId (.couldNotConnect error)]
        | .ok (none, _) => []
        | .ok (some addr, target) =>
          let (result, conveyor) := go (client.conveyor platform server target)
          client.line clientId (.connected addr) ::
            (conveyor.trace.map .event ++ ClientTask.stopped clientId client result)

/-- `Tells platform server client task outputs`: where the task of a client stands when it has
yielded these outputs. -/
inductive Tells (platform : Platform) (server : Server) (client : Client) :
    ClientTask → List Output → Prop where
  | accepted : Tells platform server client (.accepted client) []
  | numbered (clientId : ℕ) : Tells platform server client (.numbered clientId client) []
  | connecting {clientId : ℕ} {peer endpoint : SocketAddr} (hpeer : client.peerAddr = some peer)
      (hendpoint : serverEndpoint platform server.config = .ok endpoint) :
      Tells platform server client (.connecting clientId client endpoint)
        [client.line clientId (.isNewConnection peer)]
  | conveying {clientId : ℕ} {peer endpoint addr : SocketAddr} {target : Stream} {ph : Phase}
      {c : Conveyor} (hpeer : client.peerAddr = some peer)
      (hendpoint : serverEndpoint platform server.config = .ok endpoint)
      (hconnect : client.connect endpoint = .ok (some addr, target))
      (hreach : Reaches step (.initial, client.conveyor platform server target) (ph, c)) :
      Tells platform server client (.conveying clientId client ph c)
        (client.line clientId (.isNewConnection peer) ::
          client.line clientId (.connected addr) :: c.trace.map .event)
  | finished (clientId : ℕ) :
      Tells platform server client (.finished clientId) (story platform server clientId client)

namespace ClientTask

/-- What a step has added to the trace are its outputs. -/
theorem newEvents_of_trace {c c' : Conveyor} {events : List Event}
    (h : c'.trace = c.trace ++ events) : newEvents c c' = events.map .event := by
  rw [newEvents, h, List.drop_left]

/-- The story of a client that has been connected. -/
theorem story_of_connect {clientId : ℕ} {client : Client} {peer endpoint addr : SocketAddr}
    {target : Stream} (hpeer : client.peerAddr = some peer)
    (hendpoint : serverEndpoint platform server.config = .ok endpoint)
    (hconnect : client.connect endpoint = .ok (some addr, target)) :
    story platform server clientId client =
      client.line clientId (.isNewConnection peer) :: client.line clientId (.connected addr) ::
        ((go (client.conveyor platform server target)).2.trace.map .event ++
          stopped clientId client (go (client.conveyor platform server target)).1) := by
  simp only [story, hpeer, hendpoint, hconnect]

/-- A step of a conveyor that goes on or ends as `go` does. -/
theorem convey_tells {clientId : ℕ} {client : Client} {peer endpoint addr : SocketAddr}
    {target : Stream} {ph : Phase} {c : Conveyor} (hpeer : client.peerAddr = some peer)
    (hendpoint : serverEndpoint platform server.config = .ok endpoint)
    (hconnect : client.connect endpoint = .ok (some addr, target))
    (hreach : Reaches step (.initial, client.conveyor platform server target) (ph, c)) :
    Tells platform server client (convey clientId client ph c).1
      (client.line clientId (.isNewConnection peer) :: client.line clientId (.connected addr) ::
        (c.trace.map .event ++ (convey clientId client ph c).2)) := by
  have hfresh := @Client.fresh_conveyor platform server client target
  obtain ⟨σ, -, hat, -⟩ := reaches_inv hfresh hreach
  have hgo {r : Except (Halt ConveyError) Unit} {c' : Conveyor} (hends : Ends step (ph, c) r c') :=
    (go_eq_iff hfresh.at_initial).mpr (Ends.of_reaches hreach hends)
  rw [convey]
  rcases hstep : step ph c with ⟨halt | _ | ph', c'⟩
  · obtain ⟨events, -, htrace⟩ := step_eq_error hat hstep
    have hstory := @story_of_connect _ _ clientId _ _ _ _ _ hpeer hendpoint hconnect
    simp only [newEvents_of_trace htrace]
    rw [hgo (.halt hstep), htrace, List.map_append, List.append_assoc] at hstory
    rw [← hstory]
    exact .finished clientId
  · obtain ⟨e, -, -, -, htrace, -⟩ := step_eq_ok hat hstep
    have hstory := @story_of_connect _ _ clientId _ _ _ _ _ hpeer hendpoint hconnect
    simp only [newEvents_of_trace htrace]
    rw [hgo (.done hstep), htrace, List.map_append, List.append_assoc] at hstory
    rw [← hstory]
    exact .finished clientId
  · obtain ⟨e, -, -, -, htrace, -⟩ := step_eq_ok hat hstep
    simp only [newEvents_of_trace htrace]
    rw [← List.map_append, ← htrace]
    exact .conveying hpeer hendpoint hconnect (hreach.tail hstep)

/-- Every turn of a task tells its story on. -/
theorem turn_tells {client : Client} {task : ClientTask} {outputs : List Output}
    (h : Tells platform server client task outputs) (nextClientId : ℕ) :
    Tells platform server client (turn platform server task nextClientId).1
      (outputs ++ (turn platform server task nextClientId).2.2) := by
  cases h with
  | accepted => exact .numbered _
  | numbered clientId =>
    have hover {outputs : List Output} (hstory : story platform server clientId client = outputs) :
        Tells platform server client (.finished clientId) outputs := hstory ▸ .finished clientId
    simp only [turn, handleClient, List.nil_append]
    rcases hpeer : client.peerAddr with _ | peer
    · exact hover (by simp only [story, hpeer])
    rcases hendpoint : serverEndpoint platform server.config with error | endpoint
    · exact hover (by simp only [story, hpeer, hendpoint])
    · exact .connecting hpeer hendpoint
  | @connecting clientId peer endpoint hpeer hendpoint =>
    have hover {outputs : List Output} (hstory : story platform server clientId client = outputs) :
        Tells platform server client (.finished clientId) outputs := hstory ▸ .finished clientId
    simp only [turn, connect, List.cons_append, List.nil_append]
    rcases hconnect : client.connect endpoint with error | ⟨_ | addr, target⟩
    · exact hover (by simp only [story, hpeer, hendpoint, hconnect])
    · exact hover (by simp only [story, hpeer, hendpoint, hconnect])
    · have hstart := @Tells.conveying _ _ _ clientId _ _ _ _ _ _ hpeer hendpoint hconnect .refl
      rw [(client.fresh_conveyor target).trace_eq] at hstart
      exact hstart
  | conveying hpeer hendpoint hconnect hreach =>
    exact convey_tells hpeer hendpoint hconnect hreach
  | finished clientId =>
    simp only [turn, List.append_nil]
    exact .finished clientId

/-- The number of a client, once its task has taken one. -/
def clientId : ClientTask → Option ℕ
  | .accepted _ => none
  | .numbered clientId _ | .connecting clientId _ _ | .conveying clientId _ _ _
  | .finished clientId => some clientId

/-- What the outputs of a task have to do with the client that it is about. -/
structure Alone (platform : Platform) (server : Server) (client : Client) (task : ClientTask)
    (outputs : List Output) : Prop where
  eq_nil : task.clientId = none → outputs = []
  isPrefix : ∀ clientId, task.clientId = some clientId →
    outputs <+: story platform server clientId client
  eq_story : ∀ clientId, task = .finished clientId →
    outputs = story platform server clientId client

/-- A task that tells the story of its client, as far as it has got, serves it as if it were alone.
-/
theorem alone_of_tells {client : Client} {task : ClientTask} {outputs : List Output}
    (h : Tells platform server client task outputs) :
    Alone platform server client task outputs := by
  cases h with
  | accepted => exact ⟨fun _ => rfl, by rintro _ ⟨⟩, by rintro _ ⟨⟩⟩
  | numbered => exact ⟨fun _ => rfl, fun _ _ => List.nil_prefix, by rintro _ ⟨⟩⟩
  | connecting hpeer hendpoint =>
    refine ⟨by rintro ⟨⟩, ?_, by rintro _ ⟨⟩⟩
    rintro _ ⟨⟩
    simp only [story, hpeer]
    exact List.cons_prefix_cons.mpr ⟨rfl, List.nil_prefix⟩
  | conveying hpeer hendpoint hconnect hreach =>
    refine ⟨by rintro ⟨⟩, ?_, by rintro _ ⟨⟩⟩
    rintro _ ⟨⟩
    have hfresh := @Client.fresh_conveyor platform server client
    obtain ⟨σ, -, hat, -⟩ := reaches_inv (hfresh _) hreach
    obtain ⟨post, hpost⟩ :=
      exists_trace_of_ends ((go_ends (hfresh _).at_initial).drop hreach) hat
    rw [story_of_connect hpeer hendpoint hconnect, hpost, List.map_append,
      List.append_assoc]
    exact List.cons_prefix_cons.mpr ⟨rfl, List.cons_prefix_cons.mpr ⟨rfl, List.prefix_append _ _⟩⟩
  | finished => exact ⟨by rintro ⟨⟩, by rintro _ ⟨⟩; exact List.prefix_rfl, by rintro _ ⟨⟩; rfl⟩

/-! ## Tasks come to an end -/

/-- The task takes no part any more. -/
def IsOver (task : ClientTask) : Prop := ∃ clientId, task = .finished clientId

/-- A task that is over stays over. -/
theorem IsOver.turn {task : ClientTask} (h : task.IsOver) (nextClientId : ℕ) :
    (ClientTask.turn platform server task nextClientId).1.IsOver := by
  obtain ⟨clientId, rfl⟩ := h
  exact ⟨clientId, rfl⟩

/-- A conveyor needs as many turns as its run has steps. -/
theorem within_conveying {x : Phase × Conveyor} {r : Except (Halt ConveyError) Unit} {c : Conveyor}
    (h : Ends step x r c) : ∃ n, ∀ clientId client,
      Within (turn platform server) IsOver n (.conveying clientId client x.1 x.2) := by
  induction h with
  | done h =>
    refine ⟨1, fun clientId client => .next fun _ => .finished ⟨clientId, ?_⟩⟩
    simp only [turn, convey, h]
  | halt h =>
    refine ⟨1, fun clientId client => .next fun _ => .finished ⟨clientId, ?_⟩⟩
    simp only [turn, convey, h]
  | next h _ ih =>
    obtain ⟨n, hn⟩ := ih
    refine ⟨n + 1, fun clientId client => .next fun _ => ?_⟩
    rw [StepsTo] at h
    simpa only [turn, convey, h] using hn clientId client

/-- How many turns it takes from the connection to the target on. -/
theorem within_connecting (platform : Platform) (server : Server) (client : Client)
    (endpoint : SocketAddr) : ∃ n, ∀ clientId,
      Within (turn platform server) IsOver n (.connecting clientId client endpoint) := by
  rcases hconnect : client.connect endpoint with error | ⟨_ | addr, target⟩
  · refine ⟨1, fun clientId => .next fun _ => .finished ⟨clientId, ?_⟩⟩
    simp only [turn, connect, hconnect]
  · refine ⟨1, fun clientId => .next fun _ => .finished ⟨clientId, ?_⟩⟩
    simp only [turn, connect, hconnect]
  · obtain ⟨n, hn⟩ := @within_conveying platform server _ _ _
      (go_ends (@Client.fresh_conveyor platform server client target).at_initial)
    refine ⟨n + 1, fun clientId => .next fun _ => ?_⟩
    simp only [turn, connect, hconnect]
    exact hn clientId client

/-- A turn does not depend on the other clients that the listener brings. -/
theorem turn_tcpListener (platform : Platform) (server : Server)
    (tcpListener : List (Except IoError Client)) :
    turn platform { server with tcpListener } = turn platform server := rfl

/-- How many turns the task of a client needs. -/
theorem exists_within (platform : Platform) (server : Server) (client : Client) :
    ∃ n, ∀ tcpListener, Within (turn platform { server with tcpListener }) IsOver n
      (.accepted client) := by
  simp only [turn_tcpListener, forall_const]
  -- it does not matter which number has been taken
  suffices h : ∃ n, ∀ clientId,
      Within (turn platform server) IsOver n (.numbered clientId client) by
    obtain ⟨n, hn⟩ := h
    exact ⟨n + 1, .next fun _ => hn _⟩
  rcases hpeer : client.peerAddr with _ | peer
  · refine ⟨1, fun clientId => .next fun _ => .finished ⟨clientId, ?_⟩⟩
    simp only [turn, handleClient, hpeer]
  rcases hendpoint : serverEndpoint platform server.config with error | endpoint
  · refine ⟨1, fun clientId => .next fun _ => .finished ⟨clientId, ?_⟩⟩
    simp only [turn, handleClient, hpeer, hendpoint]
  · obtain ⟨n, hn⟩ := within_connecting platform server client endpoint
    refine ⟨n + 1, fun clientId => .next fun _ => ?_⟩
    simp only [turn, handleClient, hpeer, hendpoint]
    exact hn clientId

end ClientTask

/-! ## The loop -/

namespace Serving

/-- The clients that the loop has taken from the listener, and what it found after them if it has
returned. -/
structure Admits (server : Server) (clients : List Client) (serving : Serving) : Prop where
  length_eq : clients.length = serving.pool.tasks.length
  running : serving.returned = none →
    server.tcpListener = clients.map .ok ++ serving.incoming
  closed : serving.returned = some (.ok ⟨⟩) → server.tcpListener = clients.map .ok
  failed : ∀ error, serving.returned = some (.error error) →
    ∃ later, server.tcpListener = clients.map .ok ++ .error error :: later

/-- What holds of all tasks of the clients that the loop has admitted. -/
def Serves (server : Server) (I : Client → ClientTask → List Output → Prop) (serving : Serving) :
    Prop :=
  ∃ clients, serving.Admits server clients ∧
    serving.pool.Each fun i task outputs => ∃ client, clients[i]? = some client ∧
      I client task outputs

/-- Before the first connection there is nothing to be said of the tasks. -/
theorem serves_start (I : Client → ClientTask → List Output → Prop) :
    (start server).Serves server I :=
  ⟨[], ⟨rfl, fun _ => rfl, by rintro ⟨⟩, by rintro _ ⟨⟩⟩, Pool.each_empty 1⟩

/-- A new task begins with what holds of an accepted client. -/
theorem Serves.loopAccepting {I : Client → ClientTask → List Output → Prop} {serving : Serving}
    (h : serving.Serves server I) (haccepted : ∀ client, I client (.accepted client) []) :
    serving.loopAccepting.Serves server I := by
  obtain ⟨clients, hadmits, heach⟩ := h
  rw [Serving.loopAccepting]
  rcases hreturned : serving.returned with _ | result
  · have hlistener := hadmits.running hreturned
    rcases hincoming : serving.incoming with _ | ⟨error | client, incoming⟩
    · rw [hincoming, List.append_nil] at hlistener
      exact ⟨clients, ⟨hadmits.length_eq, by rintro ⟨⟩, fun _ => hlistener, by rintro _ ⟨⟩⟩, heach⟩
    · rw [hincoming] at hlistener
      refine ⟨clients, ⟨hadmits.length_eq, by rintro ⟨⟩, by rintro ⟨⟩, ?_⟩, heach⟩
      rintro _ ⟨⟩
      exact ⟨incoming, hlistener⟩
    · -- the new client comes after the others
      refine ⟨clients ++ [client], ⟨?_, ?_, ?_, ?_⟩, ?_⟩
      · simp [Pool.spawn, hadmits.length_eq]
      · intro _
        simp [hlistener, hincoming]
      · rintro ⟨⟩
      · rintro _ ⟨⟩
      · have hmore : serving.pool.Each fun i task outputs =>
            ∃ client', (clients ++ [client])[i]? = some client' ∧ I client' task outputs := by
          refine ⟨fun i task hi => ?_, heach.outputsOf_eq_nil⟩
          obtain ⟨client', hclient', hI⟩ := heach.task i task hi
          obtain ⟨hlt, -⟩ := List.getElem?_eq_some_iff.mp hclient'
          exact ⟨client', by rwa [List.getElem?_append_left hlt], hI⟩
        refine hmore.spawn ⟨client, ?_, haccepted client⟩
        rw [← hadmits.length_eq]
        simp
  · exact ⟨clients, hadmits, heach⟩

/-- What every task has at first and keeps in its own turns holds in every schedule. -/
theorem serves_run {I : Client → ClientTask → List Output → Prop}
    (haccepted : ∀ client, I client (.accepted client) [])
    (hturn : ∀ client task outputs nextClientId, I client task outputs →
      I client (ClientTask.turn platform server task nextClientId).1
        (outputs ++ (ClientTask.turn platform server task nextClientId).2.2))
    (schedule : List Actor) : ((start server).run platform server schedule).Serves server I := by
  have hrun (serving : Serving) (h : serving.Serves server I) :
      (serving.run platform server schedule).Serves server I := by
    induction schedule generalizing serving with
    | nil => exact h
    | cons actor schedule ih =>
      refine ih _ ?_
      cases actor with
      | loop => exact h.loopAccepting haccepted
      | task i =>
        obtain ⟨clients, hadmits, heach⟩ := h
        refine ⟨clients, ⟨?_, hadmits.running, hadmits.closed, hadmits.failed⟩, ?_⟩
        · exact hadmits.length_eq.trans (Pool.length_tasks_turn _ _ _).symm
        · show (serving.pool.turn (ClientTask.turn platform server) i).Each _
          refine heach.turn fun task _ hI => ?_
          obtain ⟨client, hclient, hI⟩ := hI
          exact ⟨client, hclient, hturn _ _ _ _ hI⟩
  exact hrun _ (serves_start I)

/-- The loop has admitted the clients in the order of the listener. -/
theorem Admits.client_eq {clients : List Client} {serving : Serving}
    (h : serving.Admits server clients) {i : ℕ} {client client' : Client}
    (hlistener : server.tcpListener[i]? = some (.ok client))
    (hclient : clients[i]? = some client') : client = client' := by
  obtain ⟨rest, hrest⟩ : ∃ rest, server.tcpListener = clients.map .ok ++ rest := by
    rcases hreturned : serving.returned with _ | error | _
    · exact ⟨_, h.running hreturned⟩
    · obtain ⟨later, hlater⟩ := h.failed error hreturned
      exact ⟨_, hlater⟩
    · exact ⟨[], by rw [h.closed hreturned, List.append_nil]⟩
  obtain ⟨hlt, -⟩ := List.getElem?_eq_some_iff.mp hclient
  rw [hrest, List.getElem?_append_left (by simpa using hlt), List.getElem?_map, hclient] at hlistener
  exact Except.ok.inj (Option.some.inj hlistener.symm)

/-- Turns of a schedule count for the task that they are given to. -/
theorem withinAt_run {serving : Serving} {n i : ℕ}
    (h : serving.pool.WithinAt (ClientTask.turn platform server) ClientTask.IsOver n i)
    (schedule : List Actor) :
    (serving.run platform server schedule).pool.WithinAt (ClientTask.turn platform server)
      ClientTask.IsOver (n - schedule.count (.task i)) i := by
  induction schedule generalizing serving n with
  | nil => exact h
  | cons actor schedule ih =>
    cases actor with
    | loop =>
      have hloop : serving.loopAccepting.pool.WithinAt (ClientTask.turn platform server)
          ClientTask.IsOver n i := by
        rw [loopAccepting]
        split
        · exact h
        split
        · exact h
        · exact h
        · exact h.spawn _
      rw [List.count_cons_of_ne (by rintro ⟨⟩)]
      exact ih hloop
    | task j =>
      by_cases hij : j = i
      · subst hij
        rw [List.count_cons_self, Nat.add_comm, ← Nat.sub_sub]
        exact ih (h.turn_self fun _ nextClientId hover => hover.turn nextClientId)
      · rw [List.count_cons_of_ne (by simpa using hij)]
        exact ih (h.turn_of_ne hij)

end Serving

/-! ## Every schedule -/

open Serving

/-- Each client is served as if it were alone: whatever the schedule is and whatever becomes of the
other clients, its outputs are a beginning of its story, and all of it once its task is over. -/
theorem serving_isolated (platform : Platform) (server : Server) (schedule : List Actor) :
    let serving := (start server).run platform server schedule
    ∃ clients, serving.Admits server clients ∧
      (∀ i task, serving.pool.tasks[i]? = some task → ∃ client, clients[i]? = some client ∧
        ClientTask.Alone platform server client task (serving.pool.outputsOf i)) ∧
      ∀ i, clients.length ≤ i → serving.pool.outputsOf i = [] := by
  intro serving
  obtain ⟨clients, hadmits, heach⟩ := @serves_run platform server (Tells platform server)
    (fun _ => .accepted) (fun _ _ _ nextClientId h => ClientTask.turn_tells h nextClientId) schedule
  refine ⟨clients, hadmits, fun i task hi => ?_, fun i hi => ?_⟩
  · obtain ⟨client, hclient, htells⟩ := heach.task i task hi
    exact ⟨client, hclient, ClientTask.alone_of_tells htells⟩
  · rw [hadmits.length_eq] at hi
    exact heach.outputsOf_eq_nil i (List.getElem?_eq_none hi)

/-- How many turns a task needs is settled by its client alone, before anyone knows which other
clients there are and who will take turns: whatever has happened before and whatever the loop and the
other tasks do in between, the task is over when it has been given so many turns. Whether it is given
them is up to the scheduler. -/
theorem serving_lively (platform : Platform) (tlsAcceptor : TlsProvider) (config : Config) :
    ∃ turns : Client → ℕ, ∀ tcpListener schedule schedule' i client,
      let server : Server := ⟨tlsAcceptor, tcpListener, config⟩
      tcpListener[i]? = some (.ok client) →
      i < ((start server).run platform server schedule).pool.tasks.length →
      turns client ≤ schedule'.count (.task i) →
      ∃ clientId, ((start server).run platform server (schedule ++ schedule')).pool.tasks[i]? =
        some (.finished clientId) := by
  choose turns hturns using ClientTask.exists_within platform ⟨tlsAcceptor, [], config⟩
  refine ⟨turns, ?_⟩
  intro tcpListener schedule schedule' i client server hlistener hi hcount
  -- the turns that are still needed are an invariant of the task and its client
  obtain ⟨clients, hadmits, heach⟩ := @serves_run platform server
    (fun client task _ =>
      Within (ClientTask.turn platform server) ClientTask.IsOver (turns client) task)
    (fun client => hturns client tcpListener) (fun client _ _ nextClientId h =>
      (h.turn (fun _ _ h => h.turn _) nextClientId).mono (Nat.sub_le _ _)) schedule
  obtain ⟨client', hclient, hwithin⟩ := heach.task i _ (List.getElem?_eq_getElem hi)
  obtain rfl : client = client' := hadmits.client_eq hlistener hclient
  obtain ⟨task, htask, hover⟩ := withinAt_run ⟨_, List.getElem?_eq_getElem hi, hwithin⟩ schedule'
  rw [Nat.sub_eq_zero_of_le hcount] at hover
  obtain ⟨clientId, rfl⟩ := hover.over_of_zero
  refine ⟨clientId, ?_⟩
  rw [run, List.foldl_append]
  exact htask

/-- A client that asks to cancel a query is served when it is given turns. -/
theorem serving_lively_cancel :
    let platform : Platform := ⟨64, by decide, true, fun _ => some (.v4 2130706433), .ok⟩
    let client : Client := ⟨none, some ⟨.v4 2130706433, 49152⟩,
      [.ready 0 [0, 0, 16, 4, 210, 22, 46, 0, 0, 0, 1, 0, 0, 0, 2]], fun addr => .ok (some addr, [])⟩
    let server : Server := ⟨.ok, [.ok client], ⟨"127.0.0.1", 5432⟩⟩
    ∃ n clientId, ((start server).run platform server
      ([.loop] ++ List.replicate n (.task 0))).pool.tasks[0]? = some (.finished clientId) := by
  intro platform client server
  obtain ⟨turns, hturns⟩ := serving_lively platform server.tlsAcceptor server.config
  refine ⟨turns client, hturns server.tcpListener [.loop] _ 0 client rfl Nat.one_pos ?_⟩
  rw [List.count_replicate_self]

end Postgread
