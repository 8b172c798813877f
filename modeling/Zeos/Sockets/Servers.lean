import Mathlib.Data.Fintype.Basic
import Zeos.Sockets.Conversation

/-!
# One server, any number of clients

The main loops of `serverSocket.c` (SEQSERV and CONSERV) and of `serverSocketThreads.c`.
Clients connect and write as they like; a connection is served once it is accepted, by the
main loop itself, by a child or by a thread. There always is a descriptor, a child or a
thread to be had, and no call of a conversation fails, so no server exits.
-/

namespace Zeos.Sockets

open Library

universe u

/-- The servers that accept without a bound. -/
inductive ServerType where
  | SEQSERV | CONSERV | THREADSERV
  deriving DecidableEq

/-- A connection of the server's socket, waiting to be accepted or in service. -/
structure Connection where
  accepted : Bool
  talk : Conversation
  deriving DecidableEq

def Call.byServer : Call → Bool
  | .serverRead _ | .serverWrite _ | .serverEnd => true
  | .clientWrite _ | .clientRead _ | .deleteSocket => false

inductive ServerEvent (Client : Type u) where
  /-- `acceptNewConnections` returns, and the service is handed on. -/
  | accept (client : Client)
  | call (client : Client) (call : Call)

variable {Client : Type u} {serverType : ServerType} {numIt : Client → Nat}
  {connections : Client → Connection} {client other : Client} {event : ServerEvent Client}
  {events : List (ServerEvent Client)}

def Connection.InService (connection : Connection) : Prop :=
  connection.accepted = true ∧ connection.talk.server ≠ .ended

instance (connection : Connection) : Decidable connection.InService :=
  inferInstanceAs (Decidable (_ ∧ _))

/-- The main loop is at `acceptNewConnections`; it is away from it only in SEQSERV. -/
def Accepts (serverType : ServerType) (connections : Client → Connection) : Prop :=
  serverType = .SEQSERV → ∀ client, ¬ (connections client).InService

section

variable [DecidableEq Client]

def Serves (serverType : ServerType) (connections : Client → Connection) :
    ServerEvent Client → Prop
  | .accept client => (connections client).accepted = false ∧ Accepts serverType connections
  | .call client call =>
      (connections client).talk.Enabled call ∧
        (call.byServer = true → (connections client).accepted = true)

def handle (connections : Client → Connection) : ServerEvent Client → Client → Connection
  | .accept client =>
      Function.update connections client { connections client with accepted := true }
  | .call client call =>
      Function.update connections client
        { connections client with talk := (connections client).talk.next call }

def allWaiting (numIt : Client → Nat) (client : Client) : Connection where
  accepted := false
  talk := .start (numIt client)

def servers (serverType : ServerType) (numIt : Client → Nat) :
    System (Client → Connection) (ServerEvent Client) where
  initial connections := connections = allWaiting numIt
  enabled := Serves serverType
  next := handle

def callsOf (client : Client) : List (ServerEvent Client) → List Call
  | [] => []
  | .accept _ :: rest => callsOf client rest
  | .call place call :: rest =>
      if place = client then call :: callsOf client rest else callsOf client rest

theorem accept_talk (connections : Client → Connection) (place client : Client) :
    (handle connections (.accept place) client).talk = (connections client).talk := by
  by_cases same : client = place
  · subst same
    simp [handle]
  · simp [handle, same]

theorem call_talk (connections : Client → Connection) (place client : Client) (call : Call) :
    (handle connections (.call place call) client).talk =
      if place = client then (connections client).talk.next call else (connections client).talk := by
  by_cases same : place = client
  · subst same
    simp [handle]
  · simp [handle, same, Function.update_of_ne (Ne.symm same)]

/-- What others do does not show on a connection. -/
theorem run_talk (client : Client) (runs : (servers serverType numIt).Runs connections events) :
    (conversations (numIt client)).Runs (connections client).talk (callsOf client events) ∧
      ((servers serverType numIt).run connections events client).talk =
        (conversations (numIt client)).run (connections client).talk (callsOf client events) := by
  induction events generalizing connections with
  | nil => exact ⟨trivial, rfl⟩
  | cons event rest inductionHypothesis =>
      obtain ⟨goes, last⟩ := inductionHypothesis runs.2
      change (conversations (numIt client)).Runs (handle connections event client).talk _ at goes
      change _ = (conversations (numIt client)).run (handle connections event client).talk _ at last
      cases event with
      | accept place =>
          rw [accept_talk] at goes last
          exact ⟨goes, last⟩
      | call place call =>
          rw [call_talk] at goes last
          by_cases same : place = client
          · subst same
            rw [if_pos rfl] at goes last
            rw [callsOf, if_pos rfl]
            exact ⟨⟨runs.1.1, goes⟩, last⟩
          · rw [if_neg same] at goes last
            rw [callsOf, if_neg same]
            exact ⟨goes, last⟩

/-- A connection that was not accepted was not served, and with SEQSERV only one is in service. -/
structure Kept (serverType : ServerType) (numIt : Client → Nat)
    (connections : Client → Connection) : Prop where
  counts : ∀ client, (connections client).talk.Counts (numIt client)
  unserved : ∀ client, (connections client).accepted = false →
    (connections client).talk.server = .read
  one : serverType = .SEQSERV → ∀ client other, (connections client).InService →
    (connections other).InService → client = other

omit [DecidableEq Client] in
theorem allWaiting_kept (serverType : ServerType) (numIt : Client → Nat) :
    Kept serverType numIt (allWaiting numIt) where
  counts client := Conversation.start_counts (numIt client)
  unserved _ _ := rfl
  one _ _ _ inService := nomatch inService.1

theorem serverRead_of_other {c : Conversation} {call : Call} (other : call.byServer = false) :
    (c.next call).server = c.server := by
  cases call with
  | clientWrite count => rfl
  | clientRead count => rfl
  | deleteSocket => rfl
  | serverRead count => cases other
  | serverWrite count => cases other
  | serverEnd => cases other

/-- A call starts no service: who is in service after it was before. -/
theorem inService_of_call {call : Call} (serves : Serves serverType connections (.call client call))
    (after : (handle connections (.call client call) other).InService) :
    (connections other).InService := by
  by_cases same : other = client
  · subst same
    obtain ⟨enabled, allowed⟩ := serves
    simp only [handle, Function.update_self, Connection.InService] at after
    refine ⟨after.1, fun ended => ?_⟩
    cases server : call.byServer with
    | false =>
        rw [serverRead_of_other server] at after
        exact after.2 ended
    | true =>
        cases call with
        | clientWrite count => cases server
        | clientRead count => cases server
        | deleteSocket => cases server
        | serverRead count => rw [enabled.1] at ended; cases ended
        | serverWrite count => rw [enabled.1] at ended; cases ended
        | serverEnd => rw [enabled.1] at ended; cases ended
  · simpa [handle, same] using after

theorem Kept.next (kept : Kept serverType numIt connections)
    (serves : Serves serverType connections event) :
    Kept serverType numIt (handle connections event) := by
  obtain ⟨counts, unserved, one⟩ := kept
  cases event with
  | accept client =>
      obtain ⟨waiting, accepts⟩ := serves
      refine ⟨fun other => ?_, fun other unaccepted => ?_, fun sequential first second => ?_⟩
      · rw [accept_talk]
        exact counts other
      · rw [accept_talk]
        apply unserved other
        by_cases same : other = client
        · subst same
          exact waiting
        · simpa [handle, same] using unaccepted
      · have only : ∀ place, (handle connections (.accept client) place).InService →
            place = client := by
          intro place inService
          by_contra apart
          simp only [handle, Function.update_of_ne apart] at inService
          exact accepts sequential place inService
        exact fun here there => (only first here).trans (only second there).symm
  | call client call =>
      refine ⟨fun other => ?_, fun other unaccepted => ?_, fun sequential first second => ?_⟩
      · rw [call_talk]
        split
        · rename_i same
          subst same
          exact (counts client).next serves.1
        · exact counts other
      · rw [call_talk]
        split
        · rename_i same
          subst same
          simp only [handle, Function.update_self] at unaccepted
          have byClient : call.byServer = false := by
            cases server : call.byServer with
            | false => rfl
            | true =>
                rw [serves.2 server] at unaccepted
                cases unaccepted
          rw [serverRead_of_other byClient]
          exact unserved client unaccepted
        · rename_i apart
          apply unserved other
          simpa [handle, Function.update_of_ne (Ne.symm apart)] using unaccepted
      · exact fun here there => one sequential first second (inService_of_call serves here)
          (inService_of_call serves there)

def Connection.budget (connection : Connection) : Nat :=
  connection.talk.budget + if connection.accepted then 0 else 1

theorem handle_budget (kept : Kept serverType numIt connections)
    (serves : Serves serverType connections event) : ∃ client connection,
      handle connections event = Function.update connections client connection ∧
        connection.budget < (connections client).budget := by
  cases event with
  | accept client =>
      refine ⟨client, _, rfl, ?_⟩
      simp only [Connection.budget, serves.1, if_true, Bool.false_eq_true, if_false]
      omega
  | call client call =>
      refine ⟨client, _, rfl, ?_⟩
      have less := (Conversation.descends (numIt client)).down _ call (kept.counts client) serves.1
      exact Nat.add_lt_add_right less _

theorem servers_descends [Fintype Client] (serverType : ServerType) (numIt : Client → Nat) :
    (servers serverType numIt).Descends (Kept serverType numIt)
      fun connections => ∑ client, (connections client).budget where
  kept _ _ kept serves := kept.next serves
  down connections event kept serves := by
    obtain ⟨client, connection, result, less⟩ := handle_budget kept serves
    have total := sum_update_add Connection.budget connections client connection
    change ∑ place, (handle connections event place).budget < _
    rw [result]
    omega

theorem Kept.finished_of_stuck (kept : Kept serverType numIt connections)
    (stuck : (servers serverType numIt).Stuck connections) (client : Client) :
    (connections client).talk.Finished := by
  have quiet : ∀ client, (connections client).accepted = true →
      (connections client).talk.Finished := by
    intro client accepted
    refine (kept.counts client).finished_of_stuck fun call enabled => ?_
    exact stuck (.call client call) ⟨enabled, fun _ => accepted⟩
  have accepts : Accepts serverType connections :=
    fun _ client inService => inService.2 (quiet client inService.1).2
  cases accepted : (connections client).accepted with
  | false => exact absurd ⟨accepted, accepts⟩ (stuck (.accept client))
  | true => exact quiet client accepted

end

structure AllServed [Fintype Client] [DecidableEq Client] (serverType : ServerType)
    (numIt : Client → Nat) (events : List (ServerEvent Client))
    (after : Client → Connection) : Prop where
  /-- Each connection is a conversation of its own. -/
  each : ∀ client, Completes (numIt client) (callsOf client events) (after client).talk
  few : events.length ≤ ∑ client, (12 * numIt client + 3)
  one : serverType = .SEQSERV → ∀ client other, (after client).InService →
    (after other).InService → client = other
  answered : (servers serverType numIt).Stuck after → ∀ client,
    (after client).talk.Finished ∧ (after client).talk.replies.length = numIt client
  goesOn : ∃ more, (servers serverType numIt).Runs after more ∧
    ∀ client, ((servers serverType numIt).run after more client).talk.Finished

/-- With each kind of server, for any number of clients with any number of iterations and in
whatever order things happen, as long as no call fails: connections do not mix, SEQSERV serves one at a time, nobody
waits in vain, and every client gets all its answers. -/
theorem every_client_served [Fintype Client] [DecidableEq Client]
    (runs : (servers serverType numIt).Runs (allWaiting numIt) events) :
    AllServed serverType numIt events
      ((servers serverType numIt).run (allWaiting numIt) events) := by
  have descends := servers_descends serverType numIt
  obtain ⟨kept, bound⟩ := descends.run (allWaiting_kept serverType numIt) runs
  have talks := fun client => run_talk client runs
  generalize (servers serverType numIt).run (allWaiting numIt) events = after at kept bound talks
  have each : ∀ client, Completes (numIt client) (callsOf client events) (after client).talk := by
    intro client
    obtain ⟨goes, last⟩ := talks client
    rw [last]
    exact Conversation.completes goes
  refine ⟨each, ?_, kept.one, fun stuck client => ?_, ?_⟩
  · have start : ∀ client, (allWaiting numIt client).budget = 12 * numIt client + 3 := fun _ => rfl
    simp only [start] at bound
    omega
  · have finished := kept.finished_of_stuck stuck client
    have none := (kept.counts client).closes finished.1
    have iterations := (kept.counts client).iterations
    exact ⟨finished, by omega⟩
  · obtain ⟨more, goes, stuck⟩ := descends.exists_stuck kept
    exact ⟨more, goes, (descends.run kept goes).1.finished_of_stuck stuck⟩

/-- The second client writes before the first is accepted. -/
def twoClients : List (ServerEvent (Fin 2)) :=
  [.call 1 (.clientWrite 5), .accept 0, .call 0 (.clientWrite 3), .call 0 (.serverRead 3)]

theorem twoClients_served : AllServed .SEQSERV (fun _ : Fin 2 => 1) twoClients
    ((servers .SEQSERV fun _ => 1).run (allWaiting fun _ => 1) twoClients) :=
  every_client_served ⟨⟨by decide, nofun⟩, ⟨rfl, fun _ => by decide⟩, ⟨by decide, nofun⟩,
    ⟨by decide, fun _ => rfl⟩, trivial⟩

end Zeos.Sockets
