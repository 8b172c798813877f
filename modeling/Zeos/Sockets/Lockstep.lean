import Zeos.Sockets.Overruns

/-!
# A connection that keeps messages whole

If every `write` takes its whole message and every `read` returns all there is, the two
programs go in step: there is one message at a time, each is the other side's, and no
buffer is ever short.
-/

namespace Zeos.Sockets

open Library

/-- The connection does not cut a message. -/
def Whole (c : Conversation) : Call → Prop
  | .clientWrite count => count = request.length
  | .serverWrite count => count = reply.length
  | .clientRead count => count = c.toClient.length
  | .serverRead count => count = c.toServer.length
  | .deleteSocket | .serverEnd => True

instance (c : Conversation) : (call : Call) → Decidable (Whole c call)
  | .clientWrite _ | .clientRead _ | .serverRead _ | .serverWrite _ =>
      inferInstanceAs (Decidable (_ = _))
  | .deleteSocket | .serverEnd => inferInstanceAs (Decidable True)

/-- Where the one message is: with neither program, or where it goes next. -/
inductive Place (c : Conversation) : Prop where
  | idle (client : c.client ≠ .read) (server : c.server ≠ .write) (toServer : c.toServer = [])
      (toClient : c.toClient = []) (even : c.requests.length = c.replies.length)
  | asked (client : c.client = .read) (server : c.server = .read) (toServer : c.toServer = request)
      (toClient : c.toClient = []) (even : c.requests.length = c.replies.length)
  | served (client : c.client = .read) (server : c.server = .write) (toServer : c.toServer = [])
      (toClient : c.toClient = []) (ahead : c.requests.length = c.replies.length + 1)
  | answered (client : c.client = .read) (server : c.server = .read) (toServer : c.toServer = [])
      (toClient : c.toClient = reply) (ahead : c.requests.length = c.replies.length + 1)

structure InStep (c : Conversation) : Prop where
  place : Place c
  requests : ∀ bytes ∈ c.requests, bytes = request
  replies : ∀ bytes ∈ c.replies, bytes = reply

variable {pid numIt : Nat} {msecElapsed : Int} {c : Conversation} {call : Call} {calls : List Call}

theorem start_inStep (numIt : Nat) : InStep (.start numIt) where
  place := .idle nofun nofun rfl rfl rfl
  requests := nofun
  replies := nofun

theorem forall_mem_append_singleton {pieces : List (List Byte)} {bytes : List Byte}
    (all : ∀ piece ∈ pieces, piece = bytes) : ∀ piece ∈ pieces ++ [bytes], piece = bytes := by
  intro piece member
  rcases List.mem_append.mp member with old | new
  · exact all piece old
  · exact List.mem_singleton.mp new

theorem InStep.next (inStep : InStep c) (counts : c.Counts numIt) (enabled : c.Enabled call)
    (whole : Whole c call) : InStep (c.next call) := by
  obtain ⟨place, requests, replies⟩ := inStep
  cases call with
  | clientWrite count =>
      obtain ⟨atLoop, _, _⟩ := enabled
      have all : request.take count = request := List.take_of_length_le (Nat.le_of_eq whole.symm)
      refine ⟨?_, requests, replies⟩
      cases place with
      | idle client server toServer toClient even =>
          have reads : c.server = .read := by
            cases at_ : c.server with
            | read => rfl
            | write => exact absurd at_ server
            | ended =>
                have ended := (counts.ends at_).1
                rw [atLoop] at ended
                cases ended
          refine .asked rfl reads ?_ toClient even
          show c.toServer ++ request.take count = request
          rw [toServer, all, List.nil_append]
      | asked client => rw [atLoop] at client; cases client
      | served client => rw [atLoop] at client; cases client
      | answered client => rw [atLoop] at client; cases client
  | clientRead count =>
      obtain ⟨atRead, _, least, most⟩ := enabled
      cases place with
      | idle client => exact absurd atRead client
      | asked _ _ _ toClient =>
          rw [toClient] at most
          exact absurd most (by rw [List.length_nil]; omega)
      | served _ _ _ toClient =>
          rw [toClient] at most
          exact absurd most (by rw [List.length_nil]; omega)
      | answered client server toServer toClient ahead =>
          have all : c.toClient.take count = reply := by
            rw [whole, List.take_length, toClient]
          refine ⟨.idle nofun ?_ toServer ?_ ?_, requests, ?_⟩
          · show c.server ≠ .write
            rw [server]
            exact nofun
          · show c.toClient.drop count = []
            rw [whole, List.drop_length]
          · show c.requests.length = (c.replies ++ [c.toClient.take count]).length
            rw [List.length_append, List.length_singleton, ahead]
          · show ∀ bytes ∈ c.replies ++ [c.toClient.take count], bytes = reply
            rw [all]
            exact forall_mem_append_singleton replies
  | deleteSocket =>
      obtain ⟨atLoop, _⟩ := enabled
      refine ⟨?_, requests, replies⟩
      cases place with
      | idle client server toServer toClient even => exact .idle nofun server toServer toClient even
      | asked client => rw [atLoop] at client; cases client
      | served client => rw [atLoop] at client; cases client
      | answered client => rw [atLoop] at client; cases client
  | serverRead count =>
      obtain ⟨atRead, _, least, most⟩ := enabled
      cases place with
      | idle _ _ toServer =>
          rw [toServer] at most
          exact absurd most (by rw [List.length_nil]; omega)
      | asked client server toServer toClient even =>
          have all : c.toServer.take count = request := by
            rw [whole, List.take_length, toServer]
          refine ⟨.served client rfl ?_ toClient ?_, ?_, replies⟩
          · show c.toServer.drop count = []
            rw [whole, List.drop_length]
          · show (c.requests ++ [c.toServer.take count]).length = c.replies.length + 1
            rw [List.length_append, List.length_singleton, even]
          · show ∀ bytes ∈ c.requests ++ [c.toServer.take count], bytes = request
            rw [all]
            exact forall_mem_append_singleton requests
      | served _ server => rw [atRead] at server; cases server
      | answered _ _ toServer =>
          rw [toServer] at most
          exact absurd most (by rw [List.length_nil]; omega)
  | serverWrite count =>
      obtain ⟨atWrite, _⟩ := enabled
      have all : reply.take count = reply := List.take_of_length_le (Nat.le_of_eq whole.symm)
      refine ⟨?_, requests, replies⟩
      cases place with
      | idle _ server => exact absurd atWrite server
      | asked _ server => rw [atWrite] at server; cases server
      | served client server toServer toClient ahead =>
          refine .answered client rfl toServer ?_ ahead
          show c.toClient ++ reply.take count = reply
          rw [toClient, all, List.nil_append]
      | answered _ server => rw [atWrite] at server; cases server
  | serverEnd =>
      obtain ⟨atRead, empty, ended⟩ := enabled
      refine ⟨?_, requests, replies⟩
      cases place with
      | idle client _ toServer toClient even => exact .idle client nofun toServer toClient even
      | asked client => rw [ended] at client; cases client
      | served client => rw [ended] at client; cases client
      | answered client => rw [ended] at client; cases client

theorem inStep_of_each (runs : (conversations numIt).Runs (.start numIt) calls)
    (each : (conversations numIt).Each Whole (.start numIt) calls) :
    (((conversations numIt).run (.start numIt) calls).Counts numIt) ∧
      InStep ((conversations numIt).run (.start numIt) calls) := by
  have always : (conversations numIt).Always (fun c => c.Counts numIt ∧ InStep c) (.start numIt)
      calls := by
    refine System.always_of_each (fun c call good enabled whole => ?_) runs
      ⟨Conversation.start_counts numIt, start_inStep numIt⟩ each
    exact ⟨good.1.next enabled, good.2.next good.1 enabled whole⟩
  exact always.final

/-- The answers run at most one behind the requests. -/
theorem Place.even (place : Place c) : c.replies.length ≤ c.requests.length ∧
    c.requests.length ≤ c.replies.length + 1 := by
  cases place with
  | idle _ _ _ _ even => omega
  | asked _ _ _ _ even => omega
  | served _ _ _ _ ahead => omega
  | answered _ _ _ _ ahead => omega

structure Understood (numIt : Nat) (c : Conversation) : Prop where
  requests : c.requests = List.replicate c.requests.length request
  replies : c.replies = List.replicate c.replies.length reply
  inTurn : c.replies.length ≤ c.requests.length ∧ c.requests.length ≤ c.replies.length + 1
  finished : c.Finished → c.requests.length = numIt ∧ c.replies.length = numIt
  safe : ∀ pid msecElapsed ending, (decimal pid).length ≤ 10 → msecElapsed.natAbs < 10 ^ 10 →
    (serverSocketDoService pid c.requests ending .fresh).Safe ∧
      (clientMain pid msecElapsed c.replies .fresh).Safe

/-- On such a connection each program reads the other's messages and nothing else, in turn,
and both stay inside their buffers for any number of iterations. -/
theorem whole_messages_understood (runs : (conversations numIt).Runs (.start numIt) calls)
    (each : (conversations numIt).Each Whole (.start numIt) calls) :
    Understood numIt ((conversations numIt).run (.start numIt) calls) := by
  obtain ⟨counts, place, requests, replies⟩ := inStep_of_each runs each
  generalize (conversations numIt).run (.start numIt) calls = after at counts place requests replies
  refine ⟨List.eq_replicate_length.mpr requests, List.eq_replicate_length.mpr replies, place.even,
    ?_, fun pid msecElapsed ending digits small => ⟨?_, ?_⟩⟩
  · rintro ⟨client, server⟩
    have none := counts.closes client
    have iterations := counts.iterations
    cases place with
    | idle _ _ _ _ even => omega
    | asked reads => rw [client] at reads; cases reads
    | served reads => rw [client] at reads; cases reads
    | answered reads => rw [client] at reads; cases reads
  · refine (serve_safe_iff digits counts.requests .fresh ending).mpr
      ⟨Buffers.fresh_safe, fun bytes member => ?_⟩
    have five : request.length = 5 := rfl
    have nonzero : ∀ byte ∈ request, byte ≠ 0 := by decide
    rw [requests bytes member, fits_iff nonzero]
    omega
  · refine (clientMain_safe_iff digits small counts.replies).mpr fun bytes member => ?_
    have eight : reply.length = 8 := rfl
    have nonzero : ∀ byte ∈ reply, byte ≠ 0 := by decide
    rw [replies bytes member, fits_iff nonzero]
    omega

def inStepOnce : List Call :=
  [.clientWrite 5, .serverRead 5, .serverWrite 8, .clientRead 8, .deleteSocket, .serverEnd]

theorem whole_messages_understood_once :
    Understood 1 ((conversations 1).run (.start 1) inStepOnce) :=
  whole_messages_understood (by decide) (by decide)

end Zeos.Sockets
