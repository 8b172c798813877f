import Zeos.Library.Text

/-!
# The buffers of `doService`

The versions of `serverSocket.c` and `serverSocketThreads.c` read up to `sizeof(buff)`
bytes, store a zero after them and format them into `buff2`, which is no larger. The
buffers are followed by whatever the compiler puts there; a store past their end is
recorded like any other.
-/

namespace Zeos.Sockets

open Library

abbrev Byte := BitVec 8

/-- `sizeof(buff)` and `sizeof(buff2)`. -/
abbrev SIZEOF_BUFF : Nat := 80

def literal (text : String) : List Byte := text.toList.map fun char => BitVec.ofNat 8 char.toNat

/-- The local variables of `doService`, and what it wrote to file 1. -/
structure Buffers where
  buff : Chars
  buff2 : Chars
  output : List Byte

/-- How the loop ends: `read` returns 0 or an error, or `write` to the socket fails. -/
inductive Ending where
  | closed
  | readError
  | writeError
  deriving DecidableEq

/-- `sprintf(buff2, ...); write(1, buff2, strlen(buff2));` -/
def Buffers.print (b : Buffers) (text : List Byte) : Buffers :=
  let buff2 := b.buff2.putString 0 text
  { b with buff2 := buff2, output := b.output ++ buff2.readString 0 (text.length + 1) }

/-- `"Server [%d] received: %s\n"` -/
def receivedMessage (pid : Nat) (text : List Byte) : List Byte :=
  literal "Server [" ++ decimal pid ++ literal "] received: " ++ text ++ literal "\n"

/-- `"Server [%d] ends service\n"` -/
def endsMessage (pid : Nat) : List Byte :=
  literal "Server [" ++ decimal pid ++ literal "] ends service\n"

/-- One iteration of the loop: `read` returned these bytes. -/
def Buffers.receive (pid : Nat) (b : Buffers) (bytes : List Byte) : Buffers :=
  let b := { b with buff := (b.buff.putMany 0 bytes).put bytes.length 0 }
  b.print (receivedMessage pid (b.buff.readString 0 (SIZEOF_BUFF + 1)))

/-- `doService` of both programs; the last answer may fail, and then the process exits. -/
def serve (pid : Nat) (reads : List (List Byte)) (ending : Ending) (b : Buffers) : Buffers :=
  let b := reads.foldl (Buffers.receive pid) b
  if ending = .writeError then b else b.print (endsMessage pid)

def serverSocketDoService := serve

def serverSocketThreadsDoService := serve

/-- No store went past the end of its buffer. -/
def Buffers.Safe (b : Buffers) : Prop :=
  (∀ place ∈ b.buff.stores, place < SIZEOF_BUFF) ∧ ∀ place ∈ b.buff2.stores, place < SIZEOF_BUFF

def Received (bytes : List Byte) : Prop := 1 ≤ bytes.length ∧ bytes.length ≤ SIZEOF_BUFF

/-- The zero after the bytes fits, and so does the message with its terminator: 21
characters around the process id and the text. -/
def Fits (pid : Nat) (bytes : List Byte) : Prop :=
  bytes.length < SIZEOF_BUFF ∧
    22 + (decimal pid).length + (Chars.untilZero bytes).length ≤ SIZEOF_BUFF

variable {pid : Nat} {b : Buffers} {bytes : List Byte} {reads : List (List Byte)} {ending : Ending}

theorem receivedMessage_length (pid : Nat) (text : List Byte) :
    (receivedMessage pid text).length = 21 + (decimal pid).length + text.length := by
  have first : (literal "Server [").length = 8 := rfl
  have second : (literal "] received: ").length = 12 := rfl
  have last : (literal "\n").length = 1 := rfl
  simp only [receivedMessage, List.length_append, first, second, last]
  omega

theorem endsMessage_length (pid : Nat) : (endsMessage pid).length = 23 + (decimal pid).length := by
  have first : (literal "Server [").length = 8 := rfl
  have last : (literal "] ends service\n").length = 15 := rfl
  simp only [endsMessage, List.length_append, first, last]
  omega

theorem putString_safe_iff (chars : Chars) (text : List Byte) :
    (∀ place ∈ (chars.putString 0 text).stores, place < SIZEOF_BUFF) ↔
      text.length < SIZEOF_BUFF ∧ ∀ place ∈ chars.stores, place < SIZEOF_BUFF := by
  constructor
  · intro inside
    refine ⟨inside text.length ?_, fun place member => inside place ?_⟩
    · exact (chars.putString_stores ..).mpr (.inl ⟨Nat.zero_le _, by omega⟩)
    · exact (chars.putString_stores ..).mpr (.inr member)
  · rintro ⟨short, inside⟩ place member
    rcases (chars.putString_stores ..).mp member with ⟨_, new⟩ | old
    · omega
    · exact inside place old

theorem Buffers.print_safe_iff (b : Buffers) (text : List Byte) :
    (b.print text).Safe ↔ b.Safe ∧ text.length < SIZEOF_BUFF := by
  simp only [Safe, print, putString_safe_iff]
  exact ⟨fun ⟨one, short, two⟩ => ⟨⟨one, two⟩, short⟩, fun ⟨⟨one, two⟩, short⟩ => ⟨one, short, two⟩⟩

theorem Buffers.receive_safe_iff (received : Received bytes) :
    (b.receive pid bytes).Safe ↔ b.Safe ∧ Fits pid bytes := by
  have stored : (b.buff.putMany 0 bytes).put bytes.length 0 = b.buff.putString 0 bytes := by
    rw [Chars.putString, Nat.zero_add]
  have text := b.buff.readString_putString 0 bytes (Nat.lt_succ_of_le received.2)
  rw [receive, stored, text, print_safe_iff, receivedMessage_length]
  simp only [Safe, putString_safe_iff, Fits]
  constructor
  · rintro ⟨⟨⟨short, one⟩, two⟩, message⟩
    exact ⟨⟨one, two⟩, short, by omega⟩
  · rintro ⟨⟨one, two⟩, short, message⟩
    exact ⟨⟨⟨short, one⟩, two⟩, by omega⟩

theorem receives_safe_iff (received : ∀ bytes ∈ reads, Received bytes) (b : Buffers) :
    (reads.foldl (Buffers.receive pid) b).Safe ↔ b.Safe ∧ ∀ bytes ∈ reads, Fits pid bytes := by
  induction reads generalizing b with
  | nil => exact ⟨fun safe => ⟨safe, fun _ member => absurd member List.not_mem_nil⟩, And.left⟩
  | cons bytes reads inductionHypothesis =>
      have here := received bytes List.mem_cons_self
      rw [List.foldl_cons, inductionHypothesis fun other member => received other (.tail _ member),
        Buffers.receive_safe_iff here, List.forall_mem_cons, and_assoc]

theorem serve_safe_iff (digits : (decimal pid).length ≤ 10)
    (received : ∀ bytes ∈ reads, Received bytes) (b : Buffers) (ending : Ending) :
    (serve pid reads ending b).Safe ↔ b.Safe ∧ ∀ bytes ∈ reads, Fits pid bytes := by
  rw [← receives_safe_iff received, serve]
  split
  · exact Iff.rfl
  · rw [Buffers.print_safe_iff, endsMessage_length]
    exact ⟨And.left, fun safe => ⟨safe, show 23 + _ < 80 by omega⟩⟩

/-- Every iteration of either program stays inside its buffers exactly if each read leaves
room for the zero and for the message. -/
theorem buffers_safe_iff (digits : (decimal pid).length ≤ 10)
    (received : ∀ bytes ∈ reads, Received bytes) (ending : Ending) (fresh : b.Safe) :
    ((serverSocketDoService pid reads ending b).Safe ↔ ∀ bytes ∈ reads, Fits pid bytes) ∧
      ((serverSocketThreadsDoService pid reads ending b).Safe ↔
        ∀ bytes ∈ reads, Fits pid bytes) := by
  have exact_bound : (serve pid reads ending b).Safe ↔ ∀ bytes ∈ reads, Fits pid bytes := by
    rw [serve_safe_iff digits received]
    exact and_iff_right fresh
  exact ⟨exact_bound, exact_bound⟩

def Buffers.fresh : Buffers := ⟨⟨fun _ => 0, []⟩, ⟨fun _ => 0, []⟩, []⟩

theorem Buffers.fresh_safe : fresh.Safe :=
  ⟨fun _ member => absurd member List.not_mem_nil, fun _ member => absurd member List.not_mem_nil⟩

/-- Five bytes, as the client sends them. -/
theorem buffers_safe_iff_five :
    ((serverSocketDoService 1000 [[0x68, 0x6F, 0x6C, 0x61, 0x0A]] .closed .fresh).Safe ↔
        ∀ bytes ∈ [[0x68, 0x6F, 0x6C, 0x61, 0x0A]], Fits 1000 bytes) ∧
      ((serverSocketThreadsDoService 1000 [[0x68, 0x6F, 0x6C, 0x61, 0x0A]] .closed .fresh).Safe ↔
        ∀ bytes ∈ [[0x68, 0x6F, 0x6C, 0x61, 0x0A]], Fits 1000 bytes) :=
  buffers_safe_iff (decimal_length_le (by decide) (by decide))
    (List.forall_mem_singleton.mpr ⟨by decide, by decide⟩) .closed Buffers.fresh_safe

theorem sixty_long : (Chars.untilZero (List.replicate 60 (0x61 : Byte))).length = 60 := by decide

/-- Sixty letters in one read. -/
theorem message_overruns : ¬ ∀ pid reads ending, (decimal pid).length ≤ 10 →
    (∀ bytes ∈ reads, Received bytes) →
      (serverSocketDoService pid reads ending .fresh).Safe ∧
        (serverSocketThreadsDoService pid reads ending .fresh).Safe := by
  intro always
  have digits : (decimal 1000).length ≤ 10 := decimal_length_le (by decide) (by decide)
  have received : ∀ bytes ∈ [List.replicate 60 (0x61 : Byte)], Received bytes :=
    List.forall_mem_singleton.mpr ⟨by decide, by decide⟩
  have safe := (always 1000 _ .closed digits received).1
  have fits := ((serve_safe_iff digits received .fresh .closed).mp safe).2 _ List.mem_cons_self
  have room := fits.2
  have some_digit := decimal_length_pos 1000
  rw [sixty_long] at room
  exact absurd room (show ¬ 22 + (decimal 1000).length + 60 ≤ 80 by omega)

end Zeos.Sockets
