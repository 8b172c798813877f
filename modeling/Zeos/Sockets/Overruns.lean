import Zeos.Sockets.Conversation

/-!
# How much can pile up in a conversation

The client waits for any answer before it goes on, and `doService` answers whatever it has
read. Where the connection cuts requests into bytes, answers pile up in front of the
client and requests in front of the server, the more the longer the client goes on.
-/

namespace Zeos.Sockets

open Library

/-- `"Client [%d] received: %s\n"` -/
def clientReceived (pid : Nat) (text : List Byte) : List Byte :=
  literal "Client [" ++ decimal pid ++ literal "] received: " ++ text ++ literal "\n"

/-- `"\nClient [%d] finishes\n"` -/
def clientFinishes (pid : Nat) : List Byte :=
  literal "\nClient [" ++ decimal pid ++ literal "] finishes\n"

/-- `"Time %d msec\n"` -/
def timeMessage (msecElapsed : Int) : List Byte :=
  literal "Time " ++ (if msecElapsed < 0 then literal "-" else []) ++ decimal msecElapsed.natAbs ++
    literal " msec\n"

/-- One iteration of the loop of the client: `read` returned these bytes. -/
def Buffers.clientReceive (pid : Nat) (b : Buffers) (bytes : List Byte) : Buffers :=
  let b := { b with buff := (b.buff.putMany 0 bytes).put bytes.length 0 }
  b.print (clientReceived pid (b.buff.readString 0 (SIZEOF_BUFF + 1)))

/-- `main` of `clientSocket.c`, from its loop on; its last line goes to file 2. -/
def clientMain (pid : Nat) (msecElapsed : Int) (reads : List (List Byte)) (b : Buffers) : Buffers :=
  ((reads.foldl (Buffers.clientReceive pid) b).print (clientFinishes pid)).print
    (timeMessage msecElapsed)

variable {pid numIt : Nat} {msecElapsed : Int} {b : Buffers} {bytes : List Byte}
  {reads : List (List Byte)} {c : Conversation} {call : Call}

theorem clientReceived_length (pid : Nat) (text : List Byte) :
    (clientReceived pid text).length = (receivedMessage pid text).length := by
  have first : (literal "Client [").length = (literal "Server [").length := rfl
  simp only [clientReceived, receivedMessage, List.length_append, first]

theorem clientFinishes_length (pid : Nat) :
    (clientFinishes pid).length = 20 + (decimal pid).length := by
  have first : (literal "\nClient [").length = 9 := rfl
  have last : (literal "] finishes\n").length = 11 := rfl
  simp only [clientFinishes, List.length_append, first, last]
  omega

theorem timeMessage_length (small : msecElapsed.natAbs < 10 ^ 10) :
    (timeMessage msecElapsed).length ≤ 22 := by
  have first : (literal "Time ").length = 5 := rfl
  have last : (literal " msec\n").length = 6 := rfl
  have sign : (if msecElapsed < 0 then literal "-" else []).length ≤ 1 := by
    split <;> decide
  have digits : (decimal msecElapsed.natAbs).length ≤ 10 := decimal_length_le (by decide) small
  simp only [timeMessage, List.length_append, first, last]
  omega

theorem Buffers.clientReceive_safe_iff (pid : Nat) (b : Buffers) (bytes : List Byte) :
    (b.clientReceive pid bytes).Safe ↔ (b.receive pid bytes).Safe := by
  rw [clientReceive, receive, print_safe_iff, print_safe_iff, clientReceived_length]

theorem clientReceives_safe_iff (received : ∀ bytes ∈ reads, Received bytes) (b : Buffers) :
    (reads.foldl (Buffers.clientReceive pid) b).Safe ↔ b.Safe ∧ ∀ bytes ∈ reads, Fits pid bytes := by
  induction reads generalizing b with
  | nil => exact ⟨fun safe => ⟨safe, nofun⟩, And.left⟩
  | cons bytes reads inductionHypothesis =>
      have here := received bytes List.mem_cons_self
      rw [List.foldl_cons, inductionHypothesis fun other member => received other (.tail _ member),
        Buffers.clientReceive_safe_iff, Buffers.receive_safe_iff here, List.forall_mem_cons, and_assoc]

theorem clientMain_safe_iff (digits : (decimal pid).length ≤ 10)
    (small : msecElapsed.natAbs < 10 ^ 10) (received : ∀ bytes ∈ reads, Received bytes) :
    (clientMain pid msecElapsed reads .fresh).Safe ↔ ∀ bytes ∈ reads, Fits pid bytes := by
  have time := timeMessage_length small
  rw [clientMain, Buffers.print_safe_iff, Buffers.print_safe_iff, clientReceives_safe_iff received,
    clientFinishes_length]
  constructor
  · exact fun safe => safe.1.1.2
  · exact fun fits => ⟨⟨⟨Buffers.fresh_safe, fits⟩, show 20 + _ < 80 by omega⟩,
      show _ < 80 by omega⟩

/-- The most bytes on their way to the server: every answer it gives lets the client go on
for 8 iterations, and costs it one byte. -/
def serverPeak (numIt : Nat) : Nat := 5 * numIt - (numIt + 6) / 8

/-- The most bytes on their way to the client: 40 for each request, if it is read byte by byte. -/
def clientPeak (numIt : Nat) : Nat := 40 * numIt - (numIt - 1)

def ClientMain.waits : ClientMain → Nat
  | .read => 1
  | _ => 0

def DoService.owes : DoService → Nat
  | .write => 1
  | _ => 0

theorem ClientMain.waits_le (client : ClientMain) : client.waits ≤ 1 := by
  cases client <;> decide

/-- How the bytes that were read and those on their way add up. -/
structure Conversation.Weighs (numIt : Nat) (c : Conversation) : Prop where
  counts : c.Counts numIt
  requested : c.requests.flatten.length + c.toServer.length ≤ 5 * (c.replies.length + c.client.waits)
  replied : c.replies.flatten.length + c.toClient.length + 8 * c.server.owes ≤ 8 * c.requests.length
  reads : c.requests.length ≤ c.requests.flatten.length
  answers : c.replies.length ≤ c.replies.flatten.length
  atServer : ∀ bytes ∈ c.requests, bytes.length ≤ serverPeak numIt
  atClient : ∀ bytes ∈ c.replies, bytes.length ≤ clientPeak numIt

namespace Conversation

theorem start_weighs (numIt : Nat) : (start numIt).Weighs numIt where
  counts := start_counts numIt
  requested := Nat.zero_le _
  replied := Nat.zero_le _
  reads := Nat.le_refl 0
  answers := Nat.le_refl 0
  atServer := nofun
  atClient := nofun

theorem Weighs.sent_le (weighs : c.Weighs numIt) : c.replies.length + c.client.waits ≤ numIt := by
  have iterations := weighs.counts.iterations
  cases at_ : c.client with
  | read =>
      have some := weighs.counts.asks at_
      exact show c.replies.length + 1 ≤ numIt by omega
  | loop => exact show c.replies.length ≤ numIt by omega
  | ended => exact show c.replies.length ≤ numIt by omega

theorem Weighs.toServer_le (weighs : c.Weighs numIt) : c.toServer.length ≤ serverPeak numIt := by
  have most := weighs.sent_le
  obtain ⟨_, requested, replied, reads, answers, _, _⟩ := weighs
  have waits := c.client.waits_le
  unfold serverPeak
  omega

theorem Weighs.toClient_le (weighs : c.Weighs numIt) : c.toClient.length ≤ clientPeak numIt := by
  have most := weighs.sent_le
  obtain ⟨_, requested, replied, reads, answers, _, _⟩ := weighs
  have waits := c.client.waits_le
  unfold clientPeak
  omega

theorem Weighs.next (weighs : c.Weighs numIt) (enabled : c.Enabled call) :
    (c.next call).Weighs numIt := by
  have later := weighs.counts.next enabled
  have toServer := weighs.toServer_le
  have toClient := weighs.toClient_le
  obtain ⟨_, requested, replied, reads, answers, atServer, atClient⟩ := weighs
  cases call with
  | clientWrite count =>
      obtain ⟨atLoop, _, _, most⟩ := enabled
      have length : (request.take count).length = count := List.length_take_of_le most
      have five : request.length = 5 := rfl
      refine ⟨later, ?_, replied, reads, answers, atServer, atClient⟩
      simp only [Conversation.next, atLoop, ClientMain.waits, List.length_append, length] at requested ⊢
      omega
  | clientRead count =>
      obtain ⟨atRead, _, least, most⟩ := enabled
      have piece : (c.toClient.take count).length = count := List.length_take_of_le most
      refine ⟨later, ?_, ?_, reads, ?_, atServer, fun bytes member => ?_⟩
      · simp only [Conversation.next, atRead, ClientMain.waits, List.length_append,
          List.length_singleton] at requested ⊢
        omega
      · simp only [Conversation.next, List.flatten_append, List.length_append,
          List.flatten_singleton, piece, List.length_drop] at replied ⊢
        omega
      · simp only [Conversation.next, List.flatten_append, List.length_append,
          List.flatten_singleton, piece, List.length_singleton]
        omega
      · rcases List.mem_append.mp member with old | new
        · exact atClient bytes old
        · rw [List.mem_singleton.mp new, piece]
          exact Nat.le_trans most toClient
  | deleteSocket =>
      obtain ⟨atLoop, _⟩ := enabled
      refine ⟨later, ?_, replied, reads, answers, atServer, atClient⟩
      simp only [Conversation.next, atLoop, ClientMain.waits] at requested ⊢
      omega
  | serverRead count =>
      obtain ⟨atRead, _, least, most⟩ := enabled
      have piece : (c.toServer.take count).length = count := List.length_take_of_le most
      refine ⟨later, ?_, ?_, ?_, answers, fun bytes member => ?_, atClient⟩
      · simp only [Conversation.next, List.flatten_append, List.length_append,
          List.flatten_singleton, piece, List.length_drop] at requested ⊢
        omega
      · simp only [Conversation.next, atRead, DoService.owes, List.length_append,
          List.length_singleton] at replied ⊢
        omega
      · simp only [Conversation.next, List.flatten_append, List.length_append,
          List.flatten_singleton, piece, List.length_singleton]
        omega
      · rcases List.mem_append.mp member with old | new
        · exact atServer bytes old
        · rw [List.mem_singleton.mp new, piece]
          exact Nat.le_trans most toServer
  | serverWrite count =>
      obtain ⟨atWrite, _, most⟩ := enabled
      have length : (reply.take count).length = count := List.length_take_of_le most
      have eight : reply.length = 8 := rfl
      refine ⟨later, requested, ?_, reads, answers, atServer, atClient⟩
      simp only [Conversation.next, atWrite, DoService.owes, List.length_append, length] at replied ⊢
      omega
  | serverEnd =>
      obtain ⟨atRead, _⟩ := enabled
      refine ⟨later, requested, ?_, reads, answers, atServer, atClient⟩
      simp only [Conversation.next, atRead, DoService.owes] at replied ⊢
      omega

end Conversation

theorem weighs_of_reachable (reachable : (conversations numIt).Reachable c) : c.Weighs numIt := by
  refine reachable.invariant ?_ fun c call weighs enabled => weighs.next enabled
  rintro c rfl
  exact Conversation.start_weighs numIt

theorem reachable_next (reachable : (conversations numIt).Reachable c) (call : Call)
    (enabled : c.Enabled call) : (conversations numIt).Reachable (c.next call) :=
  @System.Reachable.step _ _ (conversations numIt) c call reachable enabled

theorem reachable_answer (reachable : (conversations numIt).Reachable c) (reads : c.server = .read)
    (some : c.toServer ≠ []) : ∃ after, (conversations numIt).Reachable after ∧
      after.client = c.client ∧ after.left = c.left ∧ after.server = .read ∧
      after.toServer.length + 1 = c.toServer.length ∧
      after.toClient.length = c.toClient.length + 8 := by
  have first : c.Enabled (.serverRead 1) := ⟨reads, by decide, Conversation.partOf_one some⟩
  have second : (c.next (.serverRead 1)).Enabled (.serverWrite 8) := ⟨rfl, by decide⟩
  have eight : (reply.take 8).length = 8 := rfl
  have positive := List.length_pos_iff.mpr some
  refine ⟨_, reachable_next (reachable_next reachable _ first) _ second, rfl, rfl, rfl, ?_, ?_⟩
  · show (c.toServer.drop 1).length + 1 = _
    rw [List.length_drop]
    omega
  · show (c.toClient ++ reply.take 8).length = _
    rw [List.length_append, eight]

theorem reachable_answers {waiting : Nat} (reachable : (conversations numIt).Reachable c)
    (reads : c.server = .read) (some : c.toServer.length = waiting) :
    ∃ after, (conversations numIt).Reachable after ∧ after.client = c.client ∧
      after.left = c.left ∧ after.server = .read ∧ after.toServer.length = 0 ∧
      after.toClient.length = c.toClient.length + 8 * waiting := by
  induction waiting generalizing c with
  | zero => exact ⟨c, reachable, rfl, rfl, reads, some, rfl⟩
  | succ waiting inductionHypothesis =>
      have nonempty : c.toServer ≠ [] := List.ne_nil_of_length_eq_add_one some
      obtain ⟨middle, first, client, left, server, less, more⟩ :=
        reachable_answer reachable reads nonempty
      obtain ⟨after, last, sameClient, sameLeft, ready, empty, all⟩ :=
        inductionHypothesis first server (by omega)
      exact ⟨after, last, sameClient.trans client, sameLeft.trans left, ready, empty, by omega⟩

theorem reachable_ask (reachable : (conversations numIt).Reachable c) (reads : c.client = .read)
    (some : c.toClient ≠ []) (left : 1 < c.left) : ∃ after, (conversations numIt).Reachable after ∧
      after.client = .read ∧ after.left + 1 = c.left ∧ after.server = c.server ∧
      after.toServer.length = c.toServer.length + 5 ∧
      after.toClient.length + 1 = c.toClient.length := by
  have first : c.Enabled (.clientRead 1) := ⟨reads, by decide, Conversation.partOf_one some⟩
  have second : (c.next (.clientRead 1)).Enabled (.clientWrite 5) :=
    ⟨rfl, show 0 < c.left - 1 by omega, by decide⟩
  have five : (request.take 5).length = 5 := rfl
  have positive := List.length_pos_iff.mpr some
  refine ⟨_, reachable_next (reachable_next reachable _ first) _ second, rfl, ?_, rfl, ?_, ?_⟩
  · show c.left - 1 + 1 = c.left
    omega
  · show (c.toServer ++ request.take 5).length = _
    rw [List.length_append, five]
  · show (c.toClient.drop 1).length + 1 = _
    rw [List.length_drop]
    omega

theorem reachable_first (some : 0 < numIt) : ∃ c, (conversations numIt).Reachable c ∧
    c.client = .read ∧ c.left = numIt ∧ c.server = .read ∧ c.toServer.length = 5 ∧
      c.toClient.length = 0 := by
  have start : (conversations numIt).Reachable (.start numIt) := .initial rfl
  have enabled : (Conversation.start numIt).Enabled (.clientWrite 5) := ⟨rfl, some, by decide⟩
  exact ⟨_, reachable_next start _ enabled, rfl, rfl, rfl, rfl, rfl⟩

/-- An answer of one byte for each request, and a byte read for 8 answers. -/
theorem server_crowded {sent : Nat} (some : sent < numIt) : ∃ c,
    (conversations numIt).Reachable c ∧ c.client = .read ∧ c.left + sent = numIt ∧
      c.server = .read ∧ c.toServer.length = serverPeak (sent + 1) ∧
      c.toClient.length + sent = 8 * ((sent + 7) / 8) := by
  induction sent with
  | zero =>
      obtain ⟨c, reachable, client, left, server, toServer, toClient⟩ := reachable_first some
      exact ⟨c, reachable, client, left, server, toServer, toClient⟩
  | succ sent inductionHypothesis =>
      obtain ⟨c, reachable, client, left, server, toServer, toClient⟩ :=
        inductionHypothesis (by omega)
      have answered : ∃ middle, (conversations numIt).Reachable middle ∧ middle.client = .read ∧
          middle.left + sent = numIt ∧ middle.server = .read ∧ middle.toClient ≠ [] ∧
          middle.toServer.length + (sent + 8) / 8 = 5 * (sent + 1) ∧
          middle.toClient.length + sent = 8 * ((sent + 8) / 8) := by
        unfold serverPeak at toServer
        by_cases empty : c.toClient = []
        · have none : c.toClient.length = 0 := by rw [empty, List.length_nil]
          have waiting : c.toServer ≠ [] := by
            apply List.ne_nil_of_length_pos
            omega
          obtain ⟨middle, first, sameClient, sameLeft, ready, less, more⟩ :=
            reachable_answer reachable server waiting
          refine ⟨middle, first, sameClient.trans client, by omega, ready, ?_, by omega, by omega⟩
          apply List.ne_nil_of_length_pos
          omega
        · have nonempty := List.length_pos_iff.mpr empty
          exact ⟨c, reachable, client, left, server, empty, by omega, by omega⟩
      obtain ⟨middle, first, reading, more, ready, nonempty, waiting, answers⟩ := answered
      obtain ⟨after, last, sameClient, less, sameServer, grown, shrunk⟩ :=
        reachable_ask first reading nonempty (by omega)
      refine ⟨after, last, sameClient, by omega, sameServer.trans ready, ?_, by omega⟩
      unfold serverPeak
      omega

theorem client_crowded {sent : Nat} (some : sent < numIt) : ∃ c,
    (conversations numIt).Reachable c ∧ c.client = .read ∧ c.left + sent = numIt ∧
      c.server = .read ∧ c.toServer.length = 0 ∧ c.toClient.length = clientPeak (sent + 1) := by
  induction sent with
  | zero =>
      obtain ⟨c, reachable, client, left, server, toServer, toClient⟩ := reachable_first some
      obtain ⟨after, last, sameClient, sameLeft, ready, empty, answers⟩ :=
        reachable_answers reachable server toServer
      refine ⟨after, last, sameClient.trans client, sameLeft.trans left, ready, empty, ?_⟩
      rw [answers, toClient]
      rfl
  | succ sent inductionHypothesis =>
      obtain ⟨c, reachable, client, left, server, toServer, toClient⟩ :=
        inductionHypothesis (by omega)
      unfold clientPeak at toClient
      have nonempty : c.toClient ≠ [] := by
        apply List.ne_nil_of_length_pos
        omega
      obtain ⟨middle, first, reading, less, same, grown, shrunk⟩ :=
        reachable_ask reachable client nonempty (by omega)
      obtain ⟨after, last, sameClient, sameLeft, ready, empty, answers⟩ :=
        reachable_answers first (same.trans server) grown
      refine ⟨after, last, sameClient.trans reading, by omega, ready, empty, ?_⟩
      unfold clientPeak
      omega

/-- Both programs send letters and blanks only. -/
def Conversation.Lettered (c : Conversation) : Prop :=
  (∀ byte ∈ c.requests.flatten ++ c.toServer, byte ≠ 0) ∧
    ∀ byte ∈ c.replies.flatten ++ c.toClient, byte ≠ 0

theorem Call.lettered (call : Call) :
    (∀ byte ∈ call.requested, byte ≠ 0) ∧ ∀ byte ∈ call.replied, byte ≠ 0 := by
  have requests : ∀ byte ∈ request, byte ≠ 0 := by decide
  have replies : ∀ byte ∈ reply, byte ≠ 0 := by decide
  cases call with
  | clientWrite count => exact ⟨fun byte member => requests byte (List.mem_of_mem_take member), nofun⟩
  | serverWrite count => exact ⟨nofun, fun byte member => replies byte (List.mem_of_mem_take member)⟩
  | clientRead count => exact ⟨nofun, nofun⟩
  | deleteSocket => exact ⟨nofun, nofun⟩
  | serverRead count => exact ⟨nofun, nofun⟩
  | serverEnd => exact ⟨nofun, nofun⟩

theorem lettered_of_reachable (reachable : (conversations numIt).Reachable c) : c.Lettered := by
  refine reachable.invariant ?_ fun c call lettered _ => ?_
  · rintro c rfl
    exact ⟨nofun, nofun⟩
  · obtain ⟨requests, replies⟩ := c.next_streams call
    obtain ⟨requested, replied⟩ := call.lettered
    show (c.next call).Lettered
    unfold Conversation.Lettered
    rw [requests, replies]
    exact ⟨fun byte member => (List.mem_append.mp member).elim (lettered.1 byte) (requested byte),
      fun byte member => (List.mem_append.mp member).elim (lettered.2 byte) (replied byte)⟩

/-- The message leaves 58 places of `buff2` to the process id and the text. -/
theorem fits_iff (nonzero : ∀ byte ∈ bytes, byte ≠ 0) :
    Fits pid bytes ↔ bytes.length + (decimal pid).length ≤ 58 := by
  have positive := decimal_length_pos pid
  rw [Fits, Chars.untilZero_of_nonzero nonzero]
  show _ < 80 ∧ 22 + _ + _ ≤ 80 ↔ _
  omega

theorem server_safe_iff (digits : (decimal pid).length ≤ 10) :
    (∀ c ending, (conversations numIt).Reachable c →
      (serverSocketDoService pid c.requests ending .fresh).Safe) ↔
        serverPeak numIt + (decimal pid).length ≤ 58 := by
  constructor
  · intro safe
    by_contra crowded
    have some : 0 < numIt := by
      unfold serverPeak at crowded
      omega
    obtain ⟨c, reachable, _, _, server, waiting, _⟩ :=
      @server_crowded numIt (numIt - 1) (by omega)
    have peak : numIt - 1 + 1 = numIt := Nat.sub_add_cancel some
    rw [peak] at waiting
    have part : PartOf (min SIZEOF_BUFF c.toServer.length) c.toServer := by
      rw [PartOf, waiting]
      show 1 ≤ min 80 _ ∧ _
      omega
    have read := reachable_next reachable (.serverRead (min SIZEOF_BUFF c.toServer.length))
      ⟨server, Nat.min_le_left _ _, part⟩
    have fits := ((serve_safe_iff digits (weighs_of_reachable read).counts.requests .fresh
      .closed).mp (safe _ .closed read)).2 (c.toServer.take (min SIZEOF_BUFF c.toServer.length))
        (List.mem_append_right _ (List.mem_singleton_self _))
    have nonzero : ∀ byte ∈ c.toServer.take (min SIZEOF_BUFF c.toServer.length), byte ≠ 0 :=
      fun byte member => (lettered_of_reachable reachable).1 byte
        (List.mem_append_right _ (List.mem_of_mem_take member))
    rw [fits_iff nonzero, List.length_take_of_le part.2, waiting] at fits
    have eighty : SIZEOF_BUFF = 80 := rfl
    omega
  · intro small c ending reachable
    have weighs := weighs_of_reachable reachable
    refine (serve_safe_iff digits weighs.counts.requests .fresh ending).mpr
      ⟨Buffers.fresh_safe, fun bytes member => ?_⟩
    have most := weighs.atServer bytes member
    refine (fits_iff fun byte inside => ?_).mpr (by omega)
    exact (lettered_of_reachable reachable).1 byte
      (List.mem_append_left _ (List.mem_flatten.mpr ⟨bytes, member, inside⟩))

theorem client_safe_iff (digits : (decimal pid).length ≤ 10) (small : msecElapsed.natAbs < 10 ^ 10) :
    (∀ c, (conversations numIt).Reachable c →
      (clientMain pid msecElapsed c.replies .fresh).Safe) ↔ numIt ≤ 1 := by
  have positive := decimal_length_pos pid
  constructor
  · intro safe
    by_contra crowded
    obtain ⟨c, reachable, client, _, _, _, waiting⟩ := @client_crowded numIt 1 (by omega)
    have length : c.toClient.length = 79 := waiting
    have part : PartOf 79 c.toClient := ⟨by decide, by omega⟩
    have read := reachable_next reachable (.clientRead 79) ⟨client, by decide, part⟩
    have fits := (clientMain_safe_iff digits small (weighs_of_reachable read).counts.replies).mp
      (safe _ read) (c.toClient.take 79) (List.mem_append_right _ (List.mem_singleton_self _))
    have nonzero : ∀ byte ∈ c.toClient.take 79, byte ≠ 0 := fun byte member =>
      (lettered_of_reachable reachable).2 byte
        (List.mem_append_right _ (List.mem_of_mem_take member))
    rw [fits_iff nonzero, List.length_take_of_le part.2] at fits
    omega
  · intro few c reachable
    have weighs := weighs_of_reachable reachable
    refine (clientMain_safe_iff digits small weighs.counts.replies).mpr fun bytes member => ?_
    have most := weighs.atClient bytes member
    refine (fits_iff fun byte inside => ?_).mpr ?_
    · exact (lettered_of_reachable reachable).2 byte
        (List.mem_append_left _ (List.mem_flatten.mpr ⟨bytes, member, inside⟩))
    · unfold clientPeak at most
      omega

/-- Whatever the connection does, no buffer of `doService` is overrun exactly if the client's
iterations cannot pile up more than the message has room for, and none of the client's
exactly if it goes through its loop at most once. -/
theorem conversation_safe_iff (digits : (decimal pid).length ≤ 10)
    (small : msecElapsed.natAbs < 10 ^ 10) :
    ((∀ c ending, (conversations numIt).Reachable c →
        (serverSocketDoService pid c.requests ending .fresh).Safe) ↔
          serverPeak numIt + (decimal pid).length ≤ 58) ∧
      ((∀ c, (conversations numIt).Reachable c →
        (clientMain pid msecElapsed c.replies .fresh).Safe) ↔ numIt ≤ 1) :=
  ⟨server_safe_iff digits, client_safe_iff digits small⟩

/-- With a process id of four digits the server is safe from clients of up to 11 iterations. -/
theorem conversation_safe_iff_eleven :
    ((∀ c ending, (conversations 11).Reachable c →
        (serverSocketDoService 4321 c.requests ending .fresh).Safe) ↔
          serverPeak 11 + (decimal 4321).length ≤ 58) ∧
      ((∀ c, (conversations 11).Reachable c →
        (clientMain 4321 250 c.replies .fresh).Safe) ↔ 11 ≤ 1) :=
  conversation_safe_iff (decimal_length_le (by decide) (by decide)) (by decide)

end Zeos.Sockets
