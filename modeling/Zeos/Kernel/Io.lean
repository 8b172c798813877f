import Zeos.Kernel.Types
import Zeos.Library.Text

/-!
# `io.c` and the console of `devices.c`

The cursor is two bytes, which positioned output borrows and gives back. Text is the
stream of the characters that are printed at the cursor.
-/

namespace Zeos

open Library

@[simp] abbrev NUM_COLUMNS : Nat := 80
@[simp] abbrev NUM_ROWS : Nat := 25
@[simp] abbrev SCREEN : Nat := 0xb8000

abbrev LINE_FEED : Byte := 0x0A

/-- `x` and `y`, the words stored to the screen and the bytes put out on port 0xe9, both
latest first. -/
structure Console where
  x : Byte
  y : Byte
  stores : List (DWord × BitVec 16)
  port : List Byte

namespace Console

def nextRow (y : Byte) : Byte := BitVec.ofNat 8 ((y.toNat + 1) % NUM_ROWS)

def screen (x y : Byte) : DWord :=
  BitVec.ofNat 32 (SCREEN + (y.toNat * NUM_COLUMNS + x.toNat) * 2)

def ch (c : Byte) : BitVec 16 := c.setWidth 16 ||| 0x0200

def printc (s : Console) (c : Byte) : Console :=
  let s := { s with port := c :: s.port }
  if c = LINE_FEED then { s with x := 0, y := nextRow s.y }
  else
    let address := screen s.x s.y
    let s := { s with x := s.x + 1 }
    let s := if s.x.toNat ≥ NUM_COLUMNS then { s with x := 0, y := nextRow s.y } else s
    { s with stores := (address, ch c) :: s.stores }

def printcXy (s : Console) (mx my c : Byte) : Console :=
  let cx := s.x
  let cy := s.y
  let s := { s with x := mx, y := my }
  let s := s.printc c
  { s with x := cx, y := cy }

def printk (s : Console) : List Byte → Console
  | [] => s
  | c :: string => if c = 0 then s else (s.printc c).printk string

/-- `sys_write_console`: the loop, up to `i`. -/
def writeLoop (buffer : Nat → Byte) : Nat → Console → Console
  | 0, s => s
  | i + 1, s => (writeLoop buffer i s).printc (buffer i)

def sysWriteConsole (s : Console) (buffer : Nat → Byte) (size : Int) : Int × Console :=
  (size, writeLoop buffer size.toNat s)

def start : Console := ⟨0, 19, [], []⟩

end Console

inductive Print where
  | printc (c : Byte)
  | printk (string : List Byte)
  | printcXy (mx my c : Byte)
  deriving DecidableEq

namespace Console

def call (s : Console) : Print → Console
  | .printc c => s.printc c
  | .printk string => s.printk string
  | .printcXy mx my c => s.printcXy mx my c

def calls (s : Console) (prints : List Print) : Console := prints.foldl call s

/-- The cursor is on the screen, and so are both bytes of every word stored. -/
structure OnScreen (s : Console) : Prop where
  column : s.x.toNat < NUM_COLUMNS
  row : s.y.toNat < NUM_ROWS
  stores : ∀ store ∈ s.stores, SCREEN ≤ store.1.toNat ∧
    store.1.toNat + 2 ≤ SCREEN + NUM_COLUMNS * NUM_ROWS * 2

end Console

/-- Positioned output names a place on the screen. -/
def Print.Valid : Print → Prop
  | .printc _ | .printk _ => True
  | .printcXy mx my _ => mx.toNat < NUM_COLUMNS ∧ my.toNat < NUM_ROWS

namespace Console

variable {s other : Console} {c mx my : Byte}

def cells (x y c : Byte) : List (DWord × BitVec 16) :=
  if c = LINE_FEED then [] else [(screen x y, ch c)]

def advance (x y c : Byte) : Byte × Byte :=
  if c = LINE_FEED ∨ (x + 1).toNat ≥ NUM_COLUMNS then (0, nextRow y) else (x + 1, y)

theorem printc_eq (s : Console) (c : Byte) : s.printc c =
    ⟨(advance s.x s.y c).1, (advance s.x s.y c).2, cells s.x s.y c ++ s.stores, c :: s.port⟩ := by
  by_cases feed : c = LINE_FEED
  · simp only [printc, advance, cells, if_pos feed, if_pos (Or.inl feed : c = LINE_FEED ∨ _)]
    rfl
  · by_cases wraps : (s.x + 1).toNat ≥ NUM_COLUMNS
    · simp only [printc, advance, cells, if_neg feed, if_pos wraps,
        if_pos (Or.inr wraps : c = LINE_FEED ∨ _)]
      rfl
    · simp only [printc, advance, cells, if_neg feed, if_neg wraps,
        if_neg (not_or.mpr ⟨feed, wraps⟩)]
      rfl

theorem printcXy_eq (s : Console) (mx my c : Byte) : s.printcXy mx my c =
    ⟨s.x, s.y, cells mx my c ++ s.stores, c :: s.port⟩ := by
  simp only [printcXy, printc_eq]

theorem nextRow_lt (y : Byte) : (nextRow y).toNat < NUM_ROWS := by
  rw [nextRow, BitVec.toNat_ofNat]
  simp only [NUM_ROWS]
  omega

theorem advance_lt (x : Byte) {y : Byte} (row : y.toNat < NUM_ROWS) (c : Byte) :
    (advance x y c).1.toNat < NUM_COLUMNS ∧ (advance x y c).2.toNat < NUM_ROWS := by
  unfold advance
  split
  · have first : (0 : Byte).toNat < NUM_COLUMNS := by decide
    exact ⟨first, nextRow_lt y⟩
  · rename_i inside
    exact ⟨Nat.lt_of_not_le (not_or.mp inside).2, row⟩

theorem cells_onScreen {x y : Byte} (column : x.toNat < NUM_COLUMNS) (row : y.toNat < NUM_ROWS)
    (c : Byte) : ∀ store ∈ cells x y c, SCREEN ≤ store.1.toNat ∧
      store.1.toNat + 2 ≤ SCREEN + NUM_COLUMNS * NUM_ROWS * 2 := by
  intro store member
  unfold cells at member
  split at member
  · exact absurd member List.not_mem_nil
  · rw [List.mem_singleton.mp member, screen, BitVec.toNat_ofNat]
    simp only [SCREEN, NUM_COLUMNS, NUM_ROWS] at *
    omega

theorem OnScreen.printc (onScreen : s.OnScreen) (c : Byte) : (s.printc c).OnScreen := by
  have moved := advance_lt s.x onScreen.row c
  rw [printc_eq]
  refine ⟨moved.1, moved.2, fun store member => ?_⟩
  rcases List.mem_append.mp member with new | old
  · exact cells_onScreen onScreen.column onScreen.row c store new
  · exact onScreen.stores store old

theorem OnScreen.printcXy (onScreen : s.OnScreen) (column : mx.toNat < NUM_COLUMNS)
    (row : my.toNat < NUM_ROWS) (c : Byte) : (s.printcXy mx my c).OnScreen := by
  rw [printcXy_eq]
  refine ⟨onScreen.column, onScreen.row, fun store member => ?_⟩
  rcases List.mem_append.mp member with new | old
  · exact cells_onScreen column row c store new
  · exact onScreen.stores store old

theorem OnScreen.printk (onScreen : s.OnScreen) (string : List Byte) :
    (s.printk string).OnScreen := by
  induction string generalizing s with
  | nil => exact onScreen
  | cons c string inductionHypothesis =>
      unfold Console.printk
      split
      · exact onScreen
      · exact inductionHypothesis (onScreen.printc c)

theorem OnScreen.call (onScreen : s.OnScreen) {print : Print} (valid : print.Valid) :
    (s.call print).OnScreen := by
  cases print with
  | printc c => exact onScreen.printc c
  | printk string => exact onScreen.printk string
  | printcXy mx my c => exact onScreen.printcXy valid.1 valid.2 c

theorem start_onScreen : start.OnScreen :=
  ⟨by decide, by decide, fun _ member => absurd member List.not_mem_nil⟩

theorem OnScreen.calls (onScreen : s.OnScreen) {prints : List Print}
    (valid : ∀ print ∈ prints, print.Valid) : (s.calls prints).OnScreen := by
  induction prints generalizing s with
  | nil => exact onScreen
  | cons print prints inductionHypothesis =>
      exact inductionHypothesis (onScreen.call (valid print List.mem_cons_self))
        fun other member => valid other (.tail _ member)

theorem writeLoop_congr {buffer same : Nat → Byte} {count : Nat}
    (equal : ∀ index < count, buffer index = same index) (s : Console) :
    writeLoop buffer count s = writeLoop same count s := by
  induction count with
  | zero => rfl
  | succ count inductionHypothesis =>
      rw [writeLoop, writeLoop, equal count (Nat.lt_succ_self count),
        inductionHypothesis fun index bound => equal index (Nat.lt_succ_of_lt bound)]

theorem writeLoop_add (buffer : Nat → Byte) (first second : Nat) (s : Console) :
    writeLoop buffer (first + second) s =
      writeLoop (fun index => buffer (first + index)) second (writeLoop buffer first s) := by
  induction second with
  | zero => rfl
  | succ second inductionHypothesis =>
      rw [← Nat.add_assoc, writeLoop, inductionHypothesis, writeLoop]

theorem writeLoop_port (buffer : Nat → Byte) (count : Nat) (s : Console) :
    (writeLoop buffer count s).port = ((List.range count).map buffer).reverse ++ s.port := by
  induction count with
  | zero => rfl
  | succ count inductionHypothesis =>
      rw [writeLoop, printc_eq, List.range_succ, List.map_append, List.reverse_append,
        inductionHypothesis]
      rfl

/-- A character of the text, or output at a place. -/
inductive Event where
  | text (c : Byte)
  | xy (mx my c : Byte)
  deriving DecidableEq

/-- The characters of the text. -/
def Event.char? : Event → Option Byte
  | .text c => some c
  | .xy _ _ _ => none

/-- A call, character by character; `printk` stops at the zero of its string. -/
def printEvents : Print → List Event
  | .printc c => [.text c]
  | .printk string => (Chars.untilZero string).map .text
  | .printcXy mx my c => [.xy mx my c]

def event (s : Console) : Event → Console
  | .text c => s.printc c
  | .xy mx my c => s.printcXy mx my c

def events (s : Console) (es : List Event) : Console := es.foldl event s

theorem printk_events (s : Console) (string : List Byte) :
    s.printk string = s.events (printEvents (.printk string)) := by
  induction string generalizing s with
  | nil => rfl
  | cons c string inductionHypothesis =>
      by_cases zero : c = 0
      · simp only [printk, printEvents, Chars.untilZero, if_pos zero]
        rfl
      · simp only [printk, printEvents, Chars.untilZero, if_neg zero, inductionHypothesis]
        rfl

theorem calls_events (s : Console) (prints : List Print) :
    s.calls prints = s.events (prints.flatMap printEvents) := by
  induction prints generalizing s with
  | nil => rfl
  | cons print prints inductionHypothesis =>
      have here : s.call print = s.events (printEvents print) := by
        cases print with
        | printc c => rfl
        | printk string => exact s.printk_events string
        | printcXy mx my c => rfl
      calc s.calls (print :: prints) = (s.call print).calls prints := rfl
        _ = (s.events (printEvents print)).events (prints.flatMap printEvents) := by
          rw [here, inductionHypothesis]
        _ = s.events ((print :: prints).flatMap printEvents) := List.foldl_append.symm

/-- What each character of the text stores, and where. -/
def textStores : Console → List Event → List (List (DWord × BitVec 16))
  | _, [] => []
  | s, .text c :: es =>
      let after := s.printc c
      after.stores.take (after.stores.length - s.stores.length) :: after.textStores es
  | s, .xy mx my c :: es => (s.printcXy mx my c).textStores es

def cursor (s : Console) : Byte × Byte := (s.x, s.y)

theorem printc_cursor (same : s.cursor = other.cursor) (c : Byte) :
    (s.printc c).cursor = (other.printc c).cursor := by
  obtain ⟨column, row⟩ := Prod.mk.inj same
  simp only [printc_eq, cursor, column, row]

theorem newStores_eq (s : Console) (c : Byte) :
    (s.printc c).stores.take ((s.printc c).stores.length - s.stores.length) = cells s.x s.y c := by
  rw [printc_eq]
  simp only [List.length_append, Nat.add_sub_cancel, List.take_left']

theorem text_alone (es : List Event) (same : s.cursor = other.cursor) :
    s.textStores es = other.textStores ((es.filterMap Event.char?).map .text) ∧
      (s.events es).cursor = (other.events ((es.filterMap Event.char?).map .text)).cursor := by
  induction es generalizing s other with
  | nil => exact ⟨rfl, same⟩
  | cons e es inductionHypothesis =>
      cases e with
      | text c =>
          obtain ⟨places, final⟩ := inductionHypothesis (printc_cursor same c)
          obtain ⟨column, row⟩ := Prod.mk.inj same
          refine ⟨?_, final⟩
          simp only [textStores, List.filterMap_cons, Event.char?, List.map_cons, newStores_eq,
            column, row]
          rw [places]
      | xy mx my c =>
          have kept : (s.printcXy mx my c).cursor = other.cursor := by
            rw [printcXy_eq]
            exact same
          exact inductionHypothesis kept

end Console

/-- The cursor and all stores stay on the screen, and what positioned output puts between
the characters of a text moves neither their places nor the final cursor. -/
theorem console_onScreen_and_text_alone {prints : List Print}
    (valid : ∀ print ∈ prints, print.Valid) {es : List Console.Event} {text : List Byte}
    (inserted : es.filterMap Console.Event.char? = text) (s : Console) :
    (Console.start.calls prints).OnScreen ∧
      Console.start.calls prints = Console.start.events (prints.flatMap Console.printEvents) ∧
      s.textStores es = s.textStores (text.map .text) ∧
      (s.events es).cursor = (s.events (text.map .text)).cursor := by
  subst inserted
  exact ⟨Console.start_onScreen.calls valid, Console.start.calls_events prints,
    Console.text_alone es rfl⟩

/-- A key between two characters at the end of a line. -/
theorem console_onScreen_and_text_alone_key :
    (Console.start.calls [.printcXy 0 0 0x62]).OnScreen ∧
      Console.start.calls [.printcXy 0 0 0x62] =
        Console.start.events ([.printcXy 0 0 0x62].flatMap Console.printEvents) ∧
      Console.textStores ⟨79, 24, [], []⟩ [.text 0x61, .xy 0 0 0x62, .text 0x63] =
        Console.textStores ⟨79, 24, [], []⟩ ([0x61, 0x63].map .text) ∧
      (Console.events ⟨79, 24, [], []⟩ [.text 0x61, .xy 0 0 0x62, .text 0x63]).cursor =
        (Console.events ⟨79, 24, [], []⟩ ([0x61, 0x63].map .text)).cursor :=
  console_onScreen_and_text_alone
    (List.forall_mem_singleton.mpr
      (show Print.Valid (.printcXy 0 0 0x62) from ⟨by decide, by decide⟩))
    rfl ⟨79, 24, [], []⟩

end Zeos
