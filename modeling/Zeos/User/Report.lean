import Zeos.Kernel.Types
import Zeos.User.Libc

/-!
# The report of `user.c`

`writeStats` puts five numbers in one line. Its counters are unsigned and `itoa` takes an
`int`: from 2^31 on a counter leaves an empty field.
-/

namespace Zeos

open Library

abbrev SPACE : Byte := 0x20
abbrev NEWLINE : Byte := 0x0A

/-- What `write` is handed, and the buffer it comes from. -/
abbrev Written := List Byte × Chars

def written (chars : Chars) (size : Nat) : Written := ((List.range size).map chars.bytes, chars)

def perror (rounds : Nat) (errno : DWord) (buffer : Nat → Byte) : Option Written :=
  let chars := itoa errno.toInt 0 ⟨buffer, []⟩
  (strlen rounds 0 chars).map (written chars)

/-- `buff[max] = ' '; itoa(value, &(buff[max+1])); max = strlen(buff);` -/
def appendField (rounds : Nat) (value : DWord) (chars : Chars) (max : Nat) :
    Option (Chars × Nat) :=
  let chars := chars.put max SPACE
  let chars := itoa value.toInt (max + 1) chars
  (strlen rounds 0 chars).map fun max => (chars, max)

/-- `writeStats`, when `get_stats` answers `answer`; `buff` is what the stack held. -/
def writeStats (rounds : Nat) (answer : Option Stats) (errno wl : DWord) (buff : Nat → Byte) :
    Option Written :=
  match answer with
  | none => perror rounds errno buff
  | some aux =>
      let chars := itoa wl.toInt 0 ⟨buff, []⟩
      (strlen rounds 0 chars).bind fun max =>
      (appendField rounds aux.userTicks chars max).bind fun line =>
      (appendField rounds aux.blockedTicks line.1 line.2).bind fun line =>
      (appendField rounds aux.readyTicks line.1 line.2).bind fun line =>
      (appendField rounds aux.systemTicks line.1 line.2).bind fun line =>
      some (written (line.1.put line.2 NEWLINE) (line.2 + 1))

def reportedNumbers (wl : DWord) (aux : Stats) : List DWord :=
  [wl, aux.userTicks, aux.blockedTicks, aux.readyTicks, aux.systemTicks]

/-- Fields separated by single spaces, and a newline. -/
def reportLine (fields : List (List Byte)) : List Byte := [SPACE].intercalate fields ++ [NEWLINE]

/-- The unsigned decimal numbers of such a line. -/
def parseReport (line : List Byte) : Option (List Nat) :=
  if line.getLast? = some NEWLINE then (line.dropLast.splitOn SPACE).mapM parseDecimal else none

def field (value : DWord) : List Byte :=
  if value.toNat < 0x80000000 then decimal value.toNat else []

variable {rounds : Nat} {value wl errno : DWord} {aux : Stats} {chars before after : Chars}
  {text : List Byte} {buff : Nat → Byte}

theorem field_length_le (value : DWord) : (field value).length ≤ 10 := by
  unfold field
  split
  · exact decimal_length_le (by decide) (Nat.lt_trans value.isLt (by decide))
  · exact Nat.zero_le _

theorem field_nonzero (value : DWord) : ∀ char ∈ field value, char ≠ 0 := by
  unfold field
  split
  · exact decimal_nonzero _
  · exact fun _ member => absurd member List.not_mem_nil

theorem itoa_field (value : DWord) (b : Nat) (chars : Chars) :
    (itoa value.toInt b chars).IsString b (field value) ∧
      chars.Writes b (b + 11) (itoa value.toInt b chars) := by
  have length := field_length_le value
  by_cases small : value.toNat < 0x80000000
  · have signed : value.toInt = value.toNat := BitVec.toInt_eq_toNat_of_lt (by omega)
    have text : field value = decimal value.toNat := if_pos small
    obtain ⟨string, writes⟩ := itoa_nat value.toNat b chars
    rw [text] at length
    rw [signed, text]
    exact ⟨string, writes.mono (Nat.le_refl b) (by omega)⟩
  · have large : 2 * value.toNat ≥ 0x100000000 := by omega
    have negative : value.toInt < 0 := by
      rw [BitVec.toInt_eq_toNat_cond, if_neg (by omega)]
      have bound := value.isLt
      omega
    have text : field value = [] := if_neg small
    obtain ⟨string, writes⟩ := itoa_negative negative b chars
    rw [text]
    exact ⟨string, writes.mono (Nat.le_refl b) (by omega)⟩

theorem appendField_spec (rounds : Nat) (string : before.IsString 0 text) (value : DWord)
    (enough : text.length + 12 ≤ rounds) :
    ∃ after, appendField rounds value before text.length =
        some (after, (text ++ SPACE :: field value).length) ∧
      after.IsString 0 (text ++ SPACE :: field value) ∧
      before.Writes text.length (text.length + 12) after := by
  have spaced := string.extend SPACE
  have space := Chars.Writes.put before SPACE (Nat.le_refl text.length)
    (show text.length < text.length + 12 by omega)
  rw [Nat.zero_add] at spaced
  obtain ⟨number, writes⟩ := itoa_field value (text.length + 1) (before.put text.length SPACE)
  have length := field_length_le value
  dsimp only [appendField]
  generalize itoa value.toInt (text.length + 1) (before.put text.length SPACE) = after at *
  have longer : (text ++ SPACE :: field value).length = text.length + 1 + (field value).length := by
    rw [List.length_append, List.length_cons]
    omega
  have whole : after.IsString 0 (text ++ SPACE :: field value) := by
    refine ⟨?_, ?_, ?_⟩
    · rw [List.append_cons]
      refine (spaced.frame writes (.inl ?_)).append ?_
      · rw [List.length_append, List.length_singleton, Nat.zero_add]
      · rw [List.length_append, List.length_singleton, Nat.zero_add]
        exact number.holds
    · rw [longer, Nat.zero_add]
      exact number.terminated
    · intro char member
      rcases List.mem_append.mp member with old | new
      · exact string.nonzero char old
      · rcases List.mem_cons.mp new with rfl | digit
        · decide
        · exact field_nonzero value char digit
  refine ⟨after, ?_, whole, space.trans (writes.mono (Nat.le_succ _) (by omega))⟩
  rw [strlen_of_isString whole (by omega)]
  rfl

structure Line (buff : Nat → Byte) (fields : Nat) (text : List Byte) (chars : Chars) : Prop where
  string : chars.IsString 0 text
  writes : Chars.Writes 0 100 ⟨buff, []⟩ chars
  length : text.length ≤ 11 * fields

theorem Line.append {fields : Nat} (line : Line buff fields text before) (few : fields ≤ 5)
    (enough : 100 ≤ rounds) (value : DWord) :
    ∃ after, appendField rounds value before text.length =
        some (after, (text ++ SPACE :: field value).length) ∧
      Line buff (fields + 1) (text ++ SPACE :: field value) after := by
  have length := line.length
  have more := field_length_le value
  obtain ⟨after, appended, string, writes⟩ := appendField_spec rounds line.string value (by omega)
  refine ⟨after, appended, string, line.writes.trans (writes.mono (by omega) (by omega)), ?_⟩
  rw [List.length_append, List.length_cons]
  omega

theorem writeStats_spec (enough : 100 ≤ rounds) (aux : Stats) (errno wl : DWord)
    (buff : Nat → Byte) : ∃ after, writeStats rounds (some aux) errno wl buff =
        some (reportLine ((reportedNumbers wl aux).map field), after) ∧
      ∀ place ∈ after.stores, place < 100 := by
  obtain ⟨string, writes⟩ := itoa_field wl 0 ⟨buff, []⟩
  have length := field_length_le wl
  simp only [writeStats]
  generalize itoa wl.toInt 0 ⟨buff, []⟩ = chars at *
  have first : Line buff 1 (field wl) chars :=
    ⟨string, writes.mono (Nat.le_refl 0) (by decide), by omega⟩
  rw [strlen_of_isString string (by omega), Option.bind_some]
  obtain ⟨user, appended, userLine⟩ := first.append (by decide) enough aux.userTicks
  rw [appended, Option.bind_some]
  obtain ⟨blocked, appended, blockedLine⟩ :=
    userLine.append (by decide) enough aux.blockedTicks
  rw [appended, Option.bind_some]
  obtain ⟨ready, appended, readyLine⟩ := blockedLine.append (by decide) enough aux.readyTicks
  rw [appended, Option.bind_some]
  obtain ⟨last, appended, line⟩ := readyLine.append (by decide) enough aux.systemTicks
  rw [appended, Option.bind_some]
  have text : reportLine ((reportedNumbers wl aux).map field) =
      field wl ++ SPACE :: field aux.userTicks ++ SPACE :: field aux.blockedTicks ++
        SPACE :: field aux.readyTicks ++ SPACE :: field aux.systemTicks ++ [NEWLINE] := by
    simp [reportLine, reportedNumbers, List.intercalate]
  rw [text]
  have bound := line.length
  generalize field wl ++ _ ++ _ ++ _ ++ _ = before at *
  have whole := line.string.extend NEWLINE
  rw [Nat.zero_add] at whole
  have newline := Chars.Writes.put last NEWLINE (Nat.zero_le before.length)
    (show before.length < 100 by omega)
  refine ⟨last.put before.length NEWLINE, ?_, (line.writes.trans newline).stores_lt rfl⟩
  have read := whole.read
  rw [List.length_append, List.length_singleton] at read
  simp only [Nat.zero_add] at read
  rw [written, read]

theorem parseReport_reportLine (numbers : List DWord) (some_numbers : numbers ≠ []) :
    parseReport (reportLine (numbers.map fun number => decimal number.toNat)) =
      some (numbers.map BitVec.toNat) := by
  have separated : ∀ text ∈ numbers.map (fun number => decimal number.toNat), SPACE ∉ text := by
    intro text member inside
    obtain ⟨number, _, rfl⟩ := List.mem_map.mp member
    exact absurd (decimal_isDigit _ _ inside).1 (by decide)
  have nonempty : numbers.map (fun number => decimal number.toNat) ≠ [] :=
    fun empty => some_numbers (List.map_eq_nil_iff.mp empty)
  rw [parseReport, reportLine, List.getLast?_append, List.getLast?_singleton, Option.some_or,
    if_pos rfl, List.dropLast_concat, List.splitOn_intercalate SPACE separated nonempty]
  clear separated nonempty some_numbers
  induction numbers with
  | nil => rfl
  | cons number numbers inductionHypothesis =>
      simp only [List.map_cons, List.mapM_cons, parseDecimal_decimal, inductionHypothesis]
      rfl

/-- The line is the decimal text of the numbers, parses back to them, and no store leaves
the buffer. -/
def Reports (rounds : Nat) (aux : Stats) (errno wl : DWord) (buff : Nat → Byte) : Prop :=
  ∃ line after, writeStats rounds (some aux) errno wl buff = some (line, after) ∧
    line = reportLine ((reportedNumbers wl aux).map fun number => decimal number.toNat) ∧
    parseReport line = some ((reportedNumbers wl aux).map BitVec.toNat) ∧
    ∀ place ∈ after.stores, place < 100

def IntCounters (aux : Stats) : Prop :=
  aux.userTicks.toNat < 0x80000000 ∧ aux.blockedTicks.toNat < 0x80000000 ∧
    aux.readyTicks.toNat < 0x80000000 ∧ aux.systemTicks.toNat < 0x80000000

theorem field_length_lt {value : DWord} (large : ¬ value.toNat < 0x80000000) :
    (field value).length < (decimal value.toNat).length := by
  rw [field, if_neg large]
  exact decimal_length_pos _

theorem field_length_le_decimal (value : DWord) :
    (field value).length ≤ (decimal value.toNat).length := by
  unfold field
  split
  · exact Nat.le_refl _
  · exact Nat.zero_le _

/-- A field that is missing shortens the line. -/
theorem Reports.intCounters (reports : Reports rounds aux errno wl buff)
    (enough : 100 ≤ rounds) : IntCounters aux := by
  obtain ⟨after, result, _⟩ := writeStats_spec enough aux errno wl buff
  obtain ⟨line, _, written, text, _⟩ := reports
  rw [result, Option.some.injEq, Prod.mk.injEq] at written
  have lengths := congrArg List.length (written.1.trans text)
  have user := field_length_le_decimal aux.userTicks
  have blocked := field_length_le_decimal aux.blockedTicks
  have ready := field_length_le_decimal aux.readyTicks
  have system := field_length_le_decimal aux.systemTicks
  have first := field_length_le_decimal wl
  simp only [reportLine, reportedNumbers, List.map_cons, List.map_nil, List.intercalate,
    List.intersperse_cons_cons, List.intersperse_singleton, List.flatten_cons, List.flatten_nil,
    List.length_append, List.length_cons, List.length_nil] at lengths
  refine ⟨?_, ?_, ?_, ?_⟩ <;> by_contra large <;> have short := field_length_lt large <;> omega

theorem IntCounters.reports (counters : IntCounters aux) (enough : 100 ≤ rounds)
    (nonneg : 0 ≤ wl.toInt) (errno : DWord) (buff : Nat → Byte) :
    Reports rounds aux errno wl buff := by
  obtain ⟨after, result, inside⟩ := writeStats_spec enough aux errno wl buff
  obtain ⟨user, blocked, ready, system⟩ := counters
  have workload : wl.toNat < 0x80000000 := by
    rw [BitVec.toInt_eq_toNat_cond] at nonneg
    have bound := wl.isLt
    split at nonneg <;> omega
  have fields : (reportedNumbers wl aux).map field =
      (reportedNumbers wl aux).map fun number => decimal number.toNat := by
    simp only [reportedNumbers, List.map_cons, List.map_nil, field, if_pos workload, if_pos user,
      if_pos blocked, if_pos ready, if_pos system]
  rw [fields] at result
  exact ⟨_, after, result, rfl, parseReport_reportLine _ (List.cons_ne_nil _ _), inside⟩

/-- For every workload number that is not negative, the report round-trips exactly if the
counters it contains are below 2^31. -/
theorem report_iff (enough : 100 ≤ rounds) (nonneg : 0 ≤ wl.toInt) (aux : Stats) (errno : DWord)
    (buff : Nat → Byte) : Reports rounds aux errno wl buff ↔ IntCounters aux :=
  ⟨fun reports => reports.intCounters enough,
    fun counters => counters.reports enough nonneg errno buff⟩

/-- A report with the largest counter there can be. -/
theorem report_iff_largest :
    Reports 100 ⟨0x7FFFFFFF, 0, 0, 0, 0, 0, 0⟩ 0 1 (fun _ => 0) ↔
      IntCounters ⟨0x7FFFFFFF, 0, 0, 0, 0, 0, 0⟩ :=
  report_iff (Nat.le_refl 100) (by decide) _ 0 _

/-- A counter of 2^31. -/
theorem report_loses_counter : ¬ ∀ rounds aux errno wl buff, 100 ≤ rounds → 0 ≤ wl.toInt →
    Reports rounds aux errno wl buff := by
  intro always
  have reports := always 100 ⟨0x80000000, 0, 0, 0, 0, 0, 0⟩ 0 1 (fun _ => 0) (Nat.le_refl 100)
    (by decide)
  exact absurd (reports.intCounters (Nat.le_refl 100)).1 (by decide)

end Zeos
