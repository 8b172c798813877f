import Zeos.Library.Progress
import Zeos.Sockets.Buffers

/-!
# A client and its server

`main` of `clientSocket.c` at one end of a connection, `doService` at the other. The
connection keeps the bytes of each direction in order and is free to cut them anywhere: a
`write` takes any part of its message, a `read` returns any part of what is there. The runs
are those in which no call fails, not even a `write` of the server's to a client that has
closed.
-/

namespace Zeos.Sockets

open Library

inductive ClientMain where
  /-- `write (connectionFD, "hola ",5)`; after the loop, `deleteSocket (connectionFD)`. -/
  | loop
  /-- `read (connectionFD, buff, sizeof (buff))` -/
  | read
  | ended
  deriving DecidableEq

inductive DoService where
  /-- `read(socket_fd, buff, sizeof(buff))` -/
  | read
  /-- `write(fd, "caracola ", 8)` -/
  | write
  | ended
  deriving DecidableEq

/-- `"hola "`, of which 5 bytes are written. -/
def request : List Byte := (literal "hola ").take 5

/-- `"caracola "`, of which 8 bytes are written. -/
def reply : List Byte := (literal "caracola ").take 8

structure Conversation where
  client : ClientMain
  /-- `num_it - i` -/
  left : Nat
  server : DoService
  toServer : List Byte
  toClient : List Byte
  requests : List (List Byte)
  replies : List (List Byte)
  deriving DecidableEq

/-- A call that returns, with the number of bytes it returns. -/
inductive Call where
  | clientWrite (count : Nat)
  | clientRead (count : Nat)
  | deleteSocket
  | serverRead (count : Nat)
  | serverWrite (count : Nat)
  /-- `read` returns 0: the client is gone and nothing is left. -/
  | serverEnd
  deriving DecidableEq

def Call.requested : Call → List Byte
  | .clientWrite count => request.take count
  | _ => []

def Call.replied : Call → List Byte
  | .serverWrite count => reply.take count
  | _ => []

/-- A part of the message, at least one byte. -/
def PartOf (count : Nat) (bytes : List Byte) : Prop := 1 ≤ count ∧ count ≤ bytes.length

instance (count : Nat) (bytes : List Byte) : Decidable (PartOf count bytes) :=
  inferInstanceAs (Decidable (_ ∧ _))

namespace Conversation

def start (numIt : Nat) : Conversation where
  client := .loop
  left := numIt
  server := .read
  toServer := []
  toClient := []
  requests := []
  replies := []

def Enabled (c : Conversation) : Call → Prop
  | .clientWrite count => c.client = .loop ∧ 0 < c.left ∧ PartOf count request
  | .clientRead count => c.client = .read ∧ count ≤ SIZEOF_BUFF ∧ PartOf count c.toClient
  | .deleteSocket => c.client = .loop ∧ c.left = 0
  | .serverRead count => c.server = .read ∧ count ≤ SIZEOF_BUFF ∧ PartOf count c.toServer
  | .serverWrite count => c.server = .write ∧ PartOf count reply
  | .serverEnd => c.server = .read ∧ c.toServer = [] ∧ c.client = .ended

instance (c : Conversation) : (call : Call) → Decidable (c.Enabled call)
  | .clientWrite _ | .clientRead _ | .deleteSocket | .serverRead _ | .serverWrite _ | .serverEnd =>
      inferInstanceAs (Decidable (_ ∧ _))

def next (c : Conversation) : Call → Conversation
  | .clientWrite count => { c with client := .read, toServer := c.toServer ++ request.take count }
  | .clientRead count =>
      { c with
        client := .loop
        left := c.left - 1
        toClient := c.toClient.drop count
        replies := c.replies ++ [c.toClient.take count] }
  | .deleteSocket => { c with client := .ended }
  | .serverRead count =>
      { c with
        server := .write
        toServer := c.toServer.drop count
        requests := c.requests ++ [c.toServer.take count] }
  | .serverWrite count => { c with server := .read, toClient := c.toClient ++ reply.take count }
  | .serverEnd => { c with server := .ended }

def Finished (c : Conversation) : Prop := c.client = .ended ∧ c.server = .ended

instance (c : Conversation) : Decidable c.Finished := inferInstanceAs (Decidable (_ ∧ _))

end Conversation

def conversations (numIt : Nat) : System Conversation Call where
  initial c := c = .start numIt
  enabled := Conversation.Enabled
  next := Conversation.next

instance (numIt : Nat) (c : Conversation) (call : Call) :
    Decidable ((conversations numIt).enabled c call) :=
  inferInstanceAs (Decidable (c.Enabled call))

structure Conversation.Counts (numIt : Nat) (c : Conversation) : Prop where
  iterations : c.replies.length + c.left = numIt
  asks : c.client = .read → 0 < c.left
  closes : c.client = .ended → c.left = 0
  ends : c.server = .ended → c.client = .ended ∧ c.toServer = []
  /-- An unanswered request is on its way, being served, or its reply is on its way. -/
  answered : c.client = .read → c.toServer ≠ [] ∨ c.server = .write ∨ c.toClient ≠ []
  requests : ∀ bytes ∈ c.requests, Received bytes
  replies : ∀ bytes ∈ c.replies, Received bytes

variable {numIt : Nat} {c : Conversation} {call : Call} {calls : List Call}

theorem take_ne_nil {count : Nat} {bytes : List Byte} (part : PartOf count bytes) :
    bytes.take count ≠ [] := by
  intro nothing
  have length := congrArg List.length nothing
  rw [List.length_take, List.length_nil] at length
  exact absurd part (by unfold PartOf; omega)

theorem received_take {count : Nat} {bytes : List Byte} (fits : count ≤ SIZEOF_BUFF)
    (part : PartOf count bytes) : Received (bytes.take count) := by
  have length : (bytes.take count).length = count := List.length_take_of_le part.2
  rw [Received, length]
  exact ⟨part.1, fits⟩

namespace Conversation

theorem start_counts (numIt : Nat) : (start numIt).Counts numIt where
  iterations := Nat.zero_add numIt
  asks := nofun
  closes := nofun
  ends := nofun
  answered := nofun
  requests _ member := nomatch member
  replies _ member := nomatch member

theorem Counts.next (counts : c.Counts numIt) (enabled : c.Enabled call) :
    (c.next call).Counts numIt := by
  obtain ⟨iterations, asks, closes, ends, answered, requests, replies⟩ := counts
  cases call with
  | clientWrite count =>
      obtain ⟨atLoop, some, part⟩ := enabled
      refine ⟨iterations, fun _ => some, nofun, fun ended => ?_,
        fun _ => .inl ?_, requests, replies⟩
      · rw [(ends ended).1] at atLoop
        cases atLoop
      · exact List.append_ne_nil_of_right_ne_nil _ (take_ne_nil part)
  | clientRead count =>
      obtain ⟨atRead, fits, part⟩ := enabled
      have some := asks atRead
      refine ⟨?_, nofun, nofun, fun ended => ?_,
        nofun, requests, fun bytes member => ?_⟩
      · simp only [Conversation.next, List.length_append, List.length_singleton]
        omega
      · rw [(ends ended).1] at atRead
        cases atRead
      · rcases List.mem_append.mp member with old | new
        · exact replies bytes old
        · rw [List.mem_singleton.mp new]
          exact received_take fits part
  | deleteSocket =>
      obtain ⟨atLoop, none⟩ := enabled
      exact ⟨iterations, nofun, fun _ => none,
        fun ended => ⟨rfl, (ends ended).2⟩, nofun, requests, replies⟩
  | serverRead count =>
      obtain ⟨atRead, fits, part⟩ := enabled
      refine ⟨iterations, asks, closes, nofun, fun _ => .inr (.inl rfl),
        fun bytes member => ?_, replies⟩
      rcases List.mem_append.mp member with old | new
      · exact requests bytes old
      · rw [List.mem_singleton.mp new]
        exact received_take fits part
  | serverWrite count =>
      obtain ⟨atWrite, part⟩ := enabled
      refine ⟨iterations, asks, closes, nofun, fun _ => .inr (.inr ?_),
        requests, replies⟩
      exact List.append_ne_nil_of_right_ne_nil _ (take_ne_nil part)
  | serverEnd =>
      obtain ⟨atRead, empty, ended⟩ := enabled
      refine ⟨iterations, asks, closes, fun _ => ⟨ended, empty⟩, fun reading => ?_, requests,
        replies⟩
      change c.client = .read at reading
      rw [ended] at reading
      cases reading

/-- Calls still to come of a client with so many iterations to go, and of the server for the
requests it will still make: 12 for an iteration, as the 5 bytes of a request may be read and
replied to one by one. -/
def clientAhead (left : Nat) : ClientMain → Nat
  | .loop => 12 * left + 1
  | .read => 12 * (left - 1) + 2
  | .ended => 0

/-- Calls still to come of a server that reads nothing more. -/
def serverAhead : DoService → Nat
  | .read => 1
  | .write => 2
  | .ended => 0

def budget (c : Conversation) : Nat :=
  clientAhead c.left c.client + 2 * c.toServer.length + serverAhead c.server

theorem descends (numIt : Nat) : (conversations numIt).Descends (Counts numIt) budget where
  kept _ _ counts enabled := counts.next enabled
  down c call counts enabled := by
    have five : request.length = 5 := rfl
    show (c.next call).budget < c.budget
    cases call with
    | clientWrite count =>
        obtain ⟨atLoop, some, _, most⟩ := enabled
        have length : (request.take count).length = count := List.length_take_of_le most
        simp only [budget, next, atLoop, clientAhead, List.length_append, length]
        omega
    | clientRead count =>
        obtain ⟨atRead, _, _⟩ := enabled
        simp only [budget, next, atRead, clientAhead]
        omega
    | deleteSocket =>
        obtain ⟨atLoop, none⟩ := enabled
        simp only [budget, next, atLoop, clientAhead]
        omega
    | serverRead count =>
        obtain ⟨atRead, _, least, most⟩ := enabled
        simp only [budget, next, atRead, serverAhead, List.length_drop]
        omega
    | serverWrite count =>
        obtain ⟨atWrite, _⟩ := enabled
        simp only [budget, next, atWrite, serverAhead]
        omega
    | serverEnd =>
        obtain ⟨atRead, _⟩ := enabled
        simp only [budget, next, atRead, serverAhead]
        omega

theorem partOf_one {bytes : List Byte} (some : bytes ≠ []) : PartOf 1 bytes :=
  ⟨Nat.le_refl 1, List.length_pos_iff.mpr some⟩

/-- The two programs never wait for each other. -/
theorem Counts.finished_of_stuck (counts : c.Counts numIt) (stuck : (conversations numIt).Stuck c) :
    c.Finished := by
  have one : 1 ≤ SIZEOF_BUFF := by decide
  have notWriting : c.server ≠ .write := fun atWrite =>
    stuck (.serverWrite 1) ⟨atWrite, by decide⟩
  have read : c.server = .read → c.toServer = [] := by
    intro atRead
    by_contra some
    exact stuck (.serverRead 1) ⟨atRead, one, partOf_one some⟩
  have arrived : c.toServer = [] := by
    cases at_ : c.server with
    | read => exact read at_
    | write => exact absurd at_ notWriting
    | ended => exact (counts.ends at_).2
  have ended : c.client = .ended := by
    cases place : c.client with
    | ended => rfl
    | loop =>
        rcases Nat.eq_zero_or_pos c.left with none | some
        · exact absurd ⟨place, none⟩ (stuck .deleteSocket)
        · exact absurd ⟨place, some, by decide⟩ (stuck (.clientWrite 1))
    | read =>
        rcases counts.answered place with some | writing | some
        · exact absurd arrived some
        · exact absurd writing notWriting
        · exact absurd ⟨place, one, partOf_one some⟩ (stuck (.clientRead 1))
  refine ⟨ended, ?_⟩
  cases place : c.server with
  | ended => rfl
  | read => exact absurd ⟨place, arrived, ended⟩ (stuck .serverEnd)
  | write => exact absurd place notWriting

theorem next_streams (c : Conversation) (call : Call) :
    (c.next call).requests.flatten ++ (c.next call).toServer =
        c.requests.flatten ++ c.toServer ++ call.requested ∧
      (c.next call).replies.flatten ++ (c.next call).toClient =
        c.replies.flatten ++ c.toClient ++ call.replied := by
  cases call <;> simp [Conversation.next, Call.requested, Call.replied, List.append_assoc]

theorem run_streams (numIt : Nat) (c : Conversation) (calls : List Call) :
    ((conversations numIt).run c calls).requests.flatten ++
          ((conversations numIt).run c calls).toServer =
        c.requests.flatten ++ c.toServer ++ calls.flatMap Call.requested ∧
      ((conversations numIt).run c calls).replies.flatten ++
          ((conversations numIt).run c calls).toClient =
        c.replies.flatten ++ c.toClient ++ calls.flatMap Call.replied := by
  induction calls generalizing c with
  | nil => simp [System.run]
  | cons call rest inductionHypothesis =>
      obtain ⟨requests, replies⟩ := inductionHypothesis (c.next call)
      obtain ⟨first, second⟩ := c.next_streams call
      constructor
      · refine requests.trans ?_
        rw [first, List.flatMap_cons, List.append_assoc]
      · refine replies.trans ?_
        rw [second, List.flatMap_cons, List.append_assoc]

end Conversation

/-- What a run without failing calls comes to, whatever order the two programs run in and
however the connection cuts the streams. -/
structure Completes (numIt : Nat) (calls : List Call) (after : Conversation) : Prop where
  requested : after.requests.flatten ++ after.toServer = calls.flatMap Call.requested
  replied : after.replies.flatten ++ after.toClient = calls.flatMap Call.replied
  few : calls.length ≤ 12 * numIt + 2
  /-- Neither program waits for the other in vain. -/
  answered : (conversations numIt).Stuck after → after.Finished ∧ after.toServer = [] ∧
    after.replies.length = numIt ∧ ∀ bytes ∈ after.replies, Received bytes
  goesOn : ∃ more, (conversations numIt).Runs after more ∧
    ((conversations numIt).run after more).Finished

theorem Conversation.completes (runs : (conversations numIt).Runs (.start numIt) calls) :
    Completes numIt calls ((conversations numIt).run (.start numIt) calls) := by
  have descends := Conversation.descends numIt
  obtain ⟨counts, bound⟩ := descends.run (Conversation.start_counts numIt) runs
  obtain ⟨requested, replied⟩ := Conversation.run_streams numIt (.start numIt) calls
  have whole : (Conversation.start numIt).budget = 12 * numIt + 2 := rfl
  refine ⟨requested, replied, by omega, fun stuck => ?_, ?_⟩
  · have finished := counts.finished_of_stuck stuck
    have none := counts.closes finished.1
    have iterations := counts.iterations
    exact ⟨finished, (counts.ends finished.2).2, by omega, counts.replies⟩
  · obtain ⟨more, goes, stuck⟩ := descends.exists_stuck counts
    exact ⟨more, goes, (descends.run counts goes).1.finished_of_stuck stuck⟩

/-- No byte is lost, repeated or out of order, and after so many calls at most the client has
had an answer to each of its `num_it` requests. -/
theorem conversation_completes (runs : (conversations numIt).Runs (.start numIt) calls) :
    Completes numIt calls ((conversations numIt).run (.start numIt) calls) :=
  Conversation.completes runs

/-- A request in two pieces, the second overtaken by the answer to the first. -/
def inPieces : List Call :=
  [.clientWrite 5, .serverRead 2, .serverWrite 8, .clientRead 3, .serverRead 3, .deleteSocket]

theorem conversation_completes_inPieces :
    Completes 1 inPieces ((conversations 1).run (.start 1) inPieces) :=
  conversation_completes (by decide)

end Zeos.Sockets
