import Zeos.Space.Copy
import Zeos.Space.Frames

/-!
# The ten page tables and the frame map

`Space` is what holds of memory between two kernel entries, for the set of tasks
that are processes: how each table is laid out, and that the frame map records
exactly the shared code frames and every process's own data frames. `Duplicates`
is what a successful `sys_fork` does to memory.
-/

namespace Zeos

open Library

inductive PageKind : Nat → Prop where
  | kernel {page : Nat} (low : page < NUM_PAG_KERNEL) : PageKind page
  | code {pag : Nat} (bound : pag < NUM_PAG_CODE) : PageKind (PAG_LOG_INIT_CODE + pag)
  | data {pag : Nat} (bound : pag < NUM_PAG_DATA) : PageKind (PAG_LOG_INIT_DATA + pag)
  | beyond {page : Nat} (high : PAG_LOG_INIT_DATA + NUM_PAG_DATA ≤ page) : PageKind page

theorem pageKind (page : Nat) : PageKind page := by
  rcases Nat.lt_or_ge page NUM_PAG_KERNEL with low | notKernel
  · exact .kernel low
  rcases Nat.lt_or_ge page PAG_LOG_INIT_DATA with inCode | notCode
  · obtain ⟨pag, rfl⟩ := Nat.exists_eq_add_of_le (show PAG_LOG_INIT_CODE ≤ page from notKernel)
    exact .code (Nat.lt_of_add_lt_add_left inCode)
  rcases Nat.lt_or_ge page (PAG_LOG_INIT_DATA + NUM_PAG_DATA) with inData | beyond
  · obtain ⟨pag, rfl⟩ := Nat.exists_eq_add_of_le notCode
    exact .data (Nat.lt_of_add_lt_add_left inData)
  · exact .beyond beyond

namespace Mm

/-- `code` gives the frames of the code pages, which all processes share; each
data page of a process has a frame of its own. -/
def Owns (mm : Mm) (code : Nat → Nat) (process : Task → Prop) : Owner → Nat → Prop
  | .code pag, frame => pag < NUM_PAG_CODE ∧ frame = code pag
  | .data task pag, frame =>
      process task ∧ pag < NUM_PAG_DATA ∧ frame = mm.getFrame task (PAG_LOG_INIT_DATA + pag)

section

variable [image : Image]

/-- A table built by `init_table_pages` and `set_user_pages`. -/
structure Original (mm : Mm) (code : Nat → Nat) (table : Task) : Prop where
  kernel : ∀ page < NUM_PAG_KERNEL, mm.pagusrTable table page = initTableEntry page
  code : ∀ pag < NUM_PAG_CODE, mm.pagusrTable table (PAG_LOG_INIT_CODE + pag) =
    { present := true, rw := false, user := true, pbaseAddr := code pag }

end

/-- A table built by `sys_fork`, through `set_ss_pag` throughout. -/
structure Forked (mm : Mm) (code : Nat → Nat) (table : Task) : Prop where
  kernel : ∀ page < NUM_PAG_KERNEL, mm.pagusrTable table page =
    { present := true, rw := true, user := true, pbaseAddr := page }
  code : ∀ pag < NUM_PAG_CODE, mm.pagusrTable table (PAG_LOG_INIT_CODE + pag) =
    { present := true, rw := true, user := true, pbaseAddr := code pag }

def DataMapped (mm : Mm) (table : Task) : Prop :=
  ∀ pag < NUM_PAG_DATA, mm.pagusrTable table (PAG_LOG_INIT_DATA + pag) =
    { present := true, rw := true, user := true
      pbaseAddr := mm.getFrame table (PAG_LOG_INIT_DATA + pag) }

section

variable [image : Image]

structure Space (code : Nat → Nat) (mm : Mm) (process : Task → Prop) (idle : Task) : Prop where
  rows : ∀ t, mm.dirPages t = { present := true, rw := true, user := true, pbaseAddr := t }
  idle : ∀ page, mm.pagusrTable idle page = initTableEntry page
  layout : ∀ t, process t → mm.Original code t ∨ mm.Forked code t
  data : ∀ t, process t → mm.DataMapped t
  beyond : ∀ t page, PAG_LOG_INIT_DATA + NUM_PAG_DATA ≤ page → mm.pagusrTable t page = .zero
  pool : mm.Pool (mm.Owns code process)
  /-- The first frame after the kernel, which `free_frame` skips, holds code. -/
  first : code 0 = NUM_PAG_KERNEL
  /-- Only the first process was not forked. -/
  original : ∀ {a b}, process a → process b → mm.Original code a → mm.Original code b → a = b
  freed : ∀ release ∈ mm.freed, release.2 = USED_FRAME
  fault : mm.fault = false

end

variable [image : Image] {code : Nat → Nat} {mm start after : Mm} {process later : Task → Prop}
  {idle parent child t : Task}

theorem initTableEntry_base (page : Nat) (bound : page < NUM_PAG_KERNEL) :
    (initTableEntry page).pbaseAddr = page := by
  unfold initTableEntry
  split
  · rename_i outside
    have : page = 0 := by omega
    simp [this, PageTableEntry.zero]
  · rfl

theorem Space.kernel_base (space : Space code mm process idle) (live : process t) {page : Nat}
    (bound : page < NUM_PAG_KERNEL) : mm.getFrame t page = page := by
  rcases space.layout t live with original | forked
  · rw [getFrame, original.kernel page bound, initTableEntry_base page bound]
  · rw [getFrame, forked.kernel page bound]

theorem Space.code_base (space : Space code mm process idle) (live : process t) {pag : Nat}
    (bound : pag < NUM_PAG_CODE) : mm.getFrame t (PAG_LOG_INIT_CODE + pag) = code pag := by
  rcases space.layout t live with original | forked
  · rw [getFrame, original.code pag bound]
  · rw [getFrame, forked.code pag bound]

theorem Space.code_inUse (space : Space code mm process idle) {pag : Nat}
    (bound : pag < NUM_PAG_CODE) : mm.InUse (code pag) :=
  space.pool.inUse (show mm.Owns code process (.code pag) _ from ⟨bound, rfl⟩)

theorem Space.data_inUse (space : Space code mm process idle) (live : process t) {pag : Nat}
    (bound : pag < NUM_PAG_DATA) : mm.InUse (mm.getFrame t (PAG_LOG_INIT_DATA + pag)) :=
  space.pool.inUse (show mm.Owns code process (.data t pag) _ from ⟨live, bound, rfl⟩)

theorem Space.data_inj (space : Space code mm process idle) {s : Task} (first : process s)
    (second : process t) {p q : Nat} (firstBound : p < NUM_PAG_DATA)
    (secondBound : q < NUM_PAG_DATA)
    (same : mm.getFrame s (PAG_LOG_INIT_DATA + p) = mm.getFrame t (PAG_LOG_INIT_DATA + q)) :
    s = t ∧ p = q := by
  have one : mm.Owns code process (.data s p) _ := ⟨first, firstBound, rfl⟩
  have other : mm.Owns code process (.data t q) _ := ⟨second, secondBound, rfl⟩
  rw [← same] at other
  exact Owner.data.inj (space.pool.accounted.exclusive one other)

theorem Space.code_ne_data (space : Space code mm process idle) (live : process t) {p q : Nat}
    (codeBound : p < NUM_PAG_CODE) (dataBound : q < NUM_PAG_DATA) :
    code p ≠ mm.getFrame t (PAG_LOG_INIT_DATA + q) := by
  intro same
  have one : mm.Owns code process (.code p) _ := ⟨codeBound, rfl⟩
  have other : mm.Owns code process (.data t q) _ := ⟨live, dataBound, rfl⟩
  rw [← same] at other
  exact Owner.noConfusion (space.pool.accounted.exclusive one other)

/-- `free_frame` never meets the frame it skips. -/
theorem Space.data_above (space : Space code mm process idle) (live : process t) {pag : Nat}
    (bound : pag < NUM_PAG_DATA) :
    NUM_PAG_KERNEL < mm.getFrame t (PAG_LOG_INIT_DATA + pag) := by
  refine Nat.lt_of_le_of_ne (space.data_inUse live bound).1 fun same => ?_
  exact space.code_ne_data live (Nat.zero_lt_succ _) bound (space.first.trans same)

/-- Only CR3, the buffer and the contents of frames may differ. -/
structure SameSpace (mm after : Mm) : Prop where
  physMem : after.physMem = mm.physMem
  dirPages : after.dirPages = mm.dirPages
  pagusrTable : after.pagusrTable = mm.pagusrTable
  freed : after.freed = mm.freed
  fault : after.fault = mm.fault

omit image in
theorem SameSpace.refl (mm : Mm) : mm.SameSpace mm := ⟨rfl, rfl, rfl, rfl, rfl⟩

omit image in
theorem SameSpace.setCr3 (mm : Mm) (dir : Task) : mm.SameSpace (mm.setCr3 dir) :=
  ⟨rfl, rfl, rfl, rfl, rfl⟩

theorem Original.congr (original : mm.Original code t)
    (same : after.pagusrTable t = mm.pagusrTable t) : after.Original code t :=
  ⟨by rw [same]; exact original.kernel, by rw [same]; exact original.code⟩

omit image in
theorem Forked.congr (forked : mm.Forked code t)
    (same : after.pagusrTable t = mm.pagusrTable t) : after.Forked code t :=
  ⟨by rw [same]; exact forked.kernel, by rw [same]; exact forked.code⟩

omit image in
theorem DataMapped.congr (data : mm.DataMapped t)
    (same : after.pagusrTable t = mm.pagusrTable t) : after.DataMapped t := by
  unfold DataMapped getFrame
  rw [same]
  exact data

theorem Space.congr (space : Space code mm process idle) (same : mm.SameSpace after)
    (processes : ∀ t, later t ↔ process t) : Space code after later idle where
  rows := by
    rw [same.dirPages]
    exact space.rows
  idle := by
    rw [same.pagusrTable]
    exact space.idle
  layout t live := (space.layout t ((processes t).mp live)).imp
    (fun original => original.congr (by rw [same.pagusrTable]))
    (fun forked => forked.congr (by rw [same.pagusrTable]))
  data t live := (space.data t ((processes t).mp live)).congr (by rw [same.pagusrTable])
  beyond := by
    rw [same.pagusrTable]
    exact space.beyond
  pool := by
    refine space.pool.congr same.physMem ?_
    rintro (pag | ⟨task, pag⟩) frame
    · rfl
    · simp only [Owns, processes, getFrame, same.pagusrTable]
  first := space.first
  original first second a b := space.original ((processes _).mp first) ((processes _).mp second)
    (a.congr (by rw [same.pagusrTable])) (b.congr (by rw [same.pagusrTable]))
  freed := by
    rw [same.freed]
    exact space.freed
  fault := by
    rw [same.fault]
    exact space.fault

/-- Freeing the data pages of a process takes it out of the accounts. -/
theorem Space.freeData (space : Space code mm process idle) (live : process t)
    (notIdle : idle ≠ t) :
    Space code (Mm.freeData t NUM_PAG_DATA mm) (fun u => process u ∧ u ≠ t) idle := by
  obtain ⟨remaps, _, pool, freed⟩ := space.pool.freeData t NUM_PAG_DATA
    (fun pag bound => ⟨live, bound, rfl⟩) (fun pag bound => space.data_above live bound)
  generalize Mm.freeData t NUM_PAG_DATA mm = after at *
  obtain ⟨physMem, tables, log, shape⟩ := remaps.same
  have others : ∀ u, u ≠ t → after.pagusrTable u = mm.pagusrTable u := fun u apart =>
    funext fun page => remaps.entry u page fun inside => apart inside.1
  constructor
  · intro u
    rw [shape]
    exact space.rows u
  · intro page
    rw [others idle notIdle]
    exact space.idle page
  · intro u kept
    exact (space.layout u kept.1).imp (fun original => original.congr (others u kept.2))
      (fun forked => forked.congr (others u kept.2))
  · exact fun u kept => (space.data u kept.1).congr (others u kept.2)
  · intro u page high
    rw [remaps.entry u page fun inside => absurd inside.2.2 (by omega)]
    exact space.beyond u page high
  · refine pool.congr rfl ?_
    rintro (pag | ⟨u, pag⟩) frame
    · simp [Owns]
    · simp only [Owns, getFrame]
      constructor
      · rintro ⟨⟨alive, apart⟩, bound, same⟩
        rw [others u apart] at same
        exact ⟨⟨alive, bound, same⟩, fun _ _ gone => apart (Owner.data.inj gone).1⟩
      · rintro ⟨⟨alive, bound, same⟩, kept⟩
        have apart : u ≠ t := fun gone => kept pag bound (by rw [gone])
        exact ⟨⟨alive, apart⟩, bound, by rw [others u apart]; exact same⟩
  · exact space.first
  · intro a b first second originalA originalB
    exact space.original first.1 second.1 (originalA.congr (others a first.2).symm)
      (originalB.congr (others b second.2).symm)
  · intro release member
    exact (freed release member).elim (space.freed release) id
  · rw [shape]
    exact space.fault

/-- The child's pages are mapped: kernel and code pages to its parent's frames,
data pages to frames nothing else uses. -/
structure ChildMapped (mm : Mm) (code : Nat → Nat) (process : Task → Prop) (child : Task)
    (after : Mm) : Prop where
  same : ∃ physMem pagusrTable, after =
    { mm with physMem := physMem, pagusrTable := pagusrTable }
  tables : ∀ t, t ≠ child → after.pagusrTable t = mm.pagusrTable t
  beyond : ∀ page, PAG_LOG_INIT_DATA + NUM_PAG_DATA ≤ page →
    after.pagusrTable child page = mm.pagusrTable child page
  forked : after.Forked code child
  data : after.DataMapped child
  fresh : ∀ pag < NUM_PAG_DATA, ∀ owner,
    ¬ mm.Owns code process owner (after.getFrame child (PAG_LOG_INIT_DATA + pag))
  pool : after.Pool fun who what => mm.Owns code process who what ∨
    ∃ pag < NUM_PAG_DATA, who = .data child pag ∧
      what = after.getFrame child (PAG_LOG_INIT_DATA + pag)

def mapChild (parent child : Task) (mm : Mm) : Mm :=
  sharePages child parent PAG_LOG_INIT_CODE NUM_PAG_CODE
    (sharePages child parent 0 NUM_PAG_KERNEL
      (setUserRange child PAG_LOG_INIT_DATA true NUM_PAG_DATA mm))

omit image in
/-- Sharing the kernel and the code leaves the frame map and the data pages alone. -/
theorem mapChild_data (apart : parent ≠ child) (mm : Mm) :
    (Mm.mapChild parent child mm).physMem =
        (setUserRange child PAG_LOG_INIT_DATA true NUM_PAG_DATA mm).physMem ∧
      ∀ page, PAG_LOG_INIT_DATA ≤ page → (Mm.mapChild parent child mm).pagusrTable child page =
        (setUserRange child PAG_LOG_INIT_DATA true NUM_PAG_DATA mm).pagusrTable child page := by
  unfold Mm.mapChild
  generalize setUserRange child PAG_LOG_INIT_DATA true NUM_PAG_DATA mm = filled
  have system := sharePages_spec apart 0 NUM_PAG_KERNEL filled
  generalize sharePages child parent 0 NUM_PAG_KERNEL filled = shared at *
  have codes := sharePages_spec apart PAG_LOG_INIT_CODE NUM_PAG_CODE shared
  generalize sharePages child parent PAG_LOG_INIT_CODE NUM_PAG_CODE shared = mapped at *
  obtain ⟨_, systemShape⟩ := system.same
  obtain ⟨_, codeShape⟩ := codes.same
  constructor
  · rw [codeShape, systemShape]
  · intro page high
    have high : 264 ≤ page := high
    rw [codes.outside child page fun inside => absurd inside.2.2 (by simp; omega),
      system.outside child page fun inside => absurd inside.2.2 (by simp; omega)]

theorem Space.mapChild (space : Space code mm process idle) (live : process parent)
    (free : ¬ process child) :
    mm.ChildMapped code process child (Mm.mapChild parent child mm) := by
  have apart : parent ≠ child := fun same => free (same ▸ live)
  have fills := space.pool.setUserRange (.data child) (fun _ _ same => (Owner.data.inj same).2)
    child PAG_LOG_INIT_DATA true NUM_PAG_DATA
    (fun pag bound => Owner.data_mem_all.mpr bound) (fun _ _ _ owns => free owns.1)
  have mappedHigh := (mapChild_data apart mm).2
  unfold Mm.mapChild at mappedHigh ⊢
  generalize setUserRange child PAG_LOG_INIT_DATA true NUM_PAG_DATA mm = filled at *
  have system := sharePages_spec apart 0 NUM_PAG_KERNEL filled
  generalize sharePages child parent 0 NUM_PAG_KERNEL filled = shared at *
  have codes := sharePages_spec apart PAG_LOG_INIT_CODE NUM_PAG_CODE shared
  generalize sharePages child parent PAG_LOG_INIT_CODE NUM_PAG_CODE shared = mapped at *
  -- no table but the child's changes on the way
  have filledOther : ∀ t, t ≠ child → filled.pagusrTable t = mm.pagusrTable t := fun t other =>
    funext fun page => fills.remaps.entry t page fun inside => other inside.1
  have sharedOther : ∀ t, t ≠ child → shared.pagusrTable t = mm.pagusrTable t := fun t other =>
    (funext fun page => system.outside t page fun inside => other inside.1).trans
      (filledOther t other)
  have mappedOther : ∀ t, t ≠ child → mapped.pagusrTable t = mm.pagusrTable t := fun t other =>
    (funext fun page => codes.outside t page fun inside => other inside.1).trans
      (sharedOther t other)
  have dataFrame : ∀ pag, mapped.getFrame child (PAG_LOG_INIT_DATA + pag) =
      filled.getFrame child (PAG_LOG_INIT_DATA + pag) := by
    intro pag
    rw [getFrame, getFrame, mappedHigh _ (Nat.le_add_right _ _)]
  obtain ⟨physMem, filledTables, log, filledShape⟩ := fills.remaps.same
  obtain ⟨systemTables, systemShape⟩ := system.same
  obtain ⟨codeTables, codeShape⟩ := codes.same
  have freed := fills.freed
  constructor
  · refine ⟨physMem, codeTables, ?_⟩
    rw [codeShape, systemShape]
    subst filledShape
    simp only at freed
    rw [freed]
  · exact mappedOther
  · intro page high
    rw [mappedHigh page (by omega)]
    exact fills.remaps.entry child page fun inside => absurd inside.2.2 (by omega)
  · constructor
    · intro page bound
      have entry := system.entry page bound
      rw [Nat.zero_add, getFrame, filledOther parent apart] at entry
      have base := space.kernel_base live bound
      have bound : page < 256 := bound
      rw [codes.outside child page fun inside => absurd inside.2.1 (by simp; omega), entry]
      rw [getFrame] at base
      rw [base, Nat.mod_eq_of_lt (by omega)]
    · intro pag bound
      have base := space.code_base live bound
      have used := (space.code_inUse bound).2.1
      rw [getFrame] at base
      rw [codes.entry pag bound, getFrame, sharedOther parent apart, base,
        Nat.mod_eq_of_lt (by simp at used; omega)]
  · intro pag bound
    rw [mappedHigh _ (Nat.le_add_right _ _), fills.entry pag bound, dataFrame]
  · intro pag bound owner owns
    rw [dataFrame] at owns
    have mine := fills.pool.accounted.exclusive (.inl owns) (.inr ⟨pag, bound, rfl, rfl⟩)
    rw [mine] at owns
    exact free owns.1
  · refine fills.pool.congr ?_ fun who what => by simp only [dataFrame]
    rw [codeShape, systemShape]

theorem Space.copyReady (space : Space code mm process idle) (live : process parent)
    (free : ¬ process child) (coherent : mm.Coherent) (loaded : mm.cr3 = parent)
    (mapped : mm.ChildMapped code process child after) :
    after.CopyReady child parent (fun pag => mm.getFrame parent (PAG_LOG_INIT_DATA + pag))
      (fun pag => after.getFrame child (PAG_LOG_INIT_DATA + pag)) := by
  have apart : parent ≠ child := fun same => free (same ▸ live)
  have own := mapped.tables parent apart
  have known := mapped.pool
  have walk : (mm.dirPages mm.cr3).pbaseAddr = parent := by rw [space.rows, loaded]
  have mine : ∀ pag < NUM_PAG_DATA, after.InUse (after.getFrame child (PAG_LOG_INIT_DATA + pag)) :=
    fun pag bound => known.inUse (.inr ⟨pag, bound, rfl, rfl⟩)
  obtain ⟨physMem, tables, shape⟩ := mapped.same
  have afterWalk : (after.dirPages after.cr3).pbaseAddr = parent := by
    rw [shape]
    exact walk
  constructor
  · exact apart
  · exact afterWalk
  · intro entry member
    rw [afterWalk, own, ← walk]
    rw [shape] at member
    exact coherent entry member
  · intro pag bound
    rw [own, space.data parent live pag bound]
  · intro pag bound
    rw [getFrame, own]
    rfl
  · exact fun pag bound => rfl
  · intro pag bound
    rw [own]
    exact space.beyond parent _ (by omega)
  · exact fun pag bound => (space.data_inUse live bound).1
  · intro pag bound
    obtain ⟨low, high, _⟩ := mine pag bound
    exact ⟨low, Nat.lt_trans high (by decide)⟩
  · intro first firstBound second secondBound same
    have one := known.accounted.exclusive (.inr ⟨first, firstBound, rfl, rfl⟩)
      (.inr ⟨second, secondBound, rfl, same⟩)
    exact (Owner.data.inj one).2
  · intro first firstBound second secondBound same
    refine mapped.fresh first firstBound (.data parent second) ?_
    exact ⟨live, secondBound, same⟩

/-- What a successful `sys_fork` does to memory. -/
structure Duplicates (mm : Mm) (code : Nat → Nat) (process : Task → Prop) (parent child : Task)
    (after : Mm) : Prop where
  same : ∃ physMem pagusrTable frames choice, after =
    { mm with
      physMem := physMem, pagusrTable := pagusrTable, frames := frames, choice := choice
      cr3 := parent, tlb := [] }
  tables : ∀ t, t ≠ child → after.pagusrTable t = mm.pagusrTable t
  beyond : ∀ page, PAG_LOG_INIT_DATA + NUM_PAG_DATA ≤ page →
    after.pagusrTable child page = mm.pagusrTable child page
  forked : after.Forked code child
  data : after.DataMapped child
  pool : after.Pool fun who what => mm.Owns code process who what ∨
    ∃ pag < NUM_PAG_DATA, who = .data child pag ∧
      what = after.getFrame child (PAG_LOG_INIT_DATA + pag)
  bytes : ∀ pag < NUM_PAG_DATA, ∀ place < PAGE_SIZE,
    after.frames (after.getFrame child (PAG_LOG_INIT_DATA + pag)) place =
      mm.frames (mm.getFrame parent (PAG_LOG_INIT_DATA + pag)) place
  others : ∀ frame, NUM_PAG_KERNEL ≤ frame →
    (∀ pag < NUM_PAG_DATA, frame ≠ after.getFrame child (PAG_LOG_INIT_DATA + pag)) →
      after.frames frame = mm.frames frame

omit image in
theorem ChildMapped.duplicates (mapped : mm.ChildMapped code process child start)
    (copies : start.Copies (fun pag => mm.getFrame parent (PAG_LOG_INIT_DATA + pag))
      (fun pag => start.getFrame child (PAG_LOG_INIT_DATA + pag)) NUM_PAG_DATA after) :
    mm.Duplicates code process parent child (after.setCr3 parent) := by
  obtain ⟨bytes, tlb, choice, copied⟩ := copies.same
  obtain ⟨physMem, tables, shape⟩ := mapped.same
  have frames : start.frames = mm.frames := by rw [shape]
  have table : (after.setCr3 parent).pagusrTable = start.pagusrTable := by
    rw [copied]
    rfl
  have frame : ∀ page, (after.setCr3 parent).getFrame child page = start.getFrame child page := by
    intro page
    rw [getFrame, getFrame, table]
  constructor
  · exact ⟨physMem, tables, bytes, choice, by rw [copied, shape]; rfl⟩
  · rw [table]
    exact mapped.tables
  · rw [table]
    exact mapped.beyond
  · exact mapped.forked.congr (by rw [table])
  · exact mapped.data.congr (by rw [table])
  · refine mapped.pool.congr ?_ fun who what => by simp only [frame]
    rw [copied]
    rfl
  · intro pag bound place inside
    rw [frame, ← frames]
    exact copies.bytes pag bound place inside
  · intro other above apart
    rw [← frames]
    exact copies.others other above fun pag bound => by
      rw [← frame]
      exact apart pag bound

def duplicate (kernel : Nat → Nat → Byte) (parent child : Task) (mm : Mm) : Mm :=
  (copyPages kernel child parent NUM_PAG_DATA (mapChild parent child mm)).setCr3 parent

theorem Space.duplicate (space : Space code mm process idle) (live : process parent)
    (free : ¬ process child) (coherent : mm.Coherent) (loaded : mm.cr3 = parent)
    (kernel : Nat → Nat → Byte) :
    mm.Duplicates code process parent child (Mm.duplicate kernel parent child mm) := by
  have mapped := space.mapChild live free
  have ready := space.copyReady live free coherent loaded mapped
  exact mapped.duplicates (ready.copyPages kernel (Nat.le_refl NUM_PAG_DATA))

theorem Space.forked (space : Space code mm process idle) (free : ¬ process child)
    (notIdle : idle ≠ child)
    (forked : mm.Duplicates code process parent child after) :
    Space code after (fun t => process t ∨ t = child) idle := by
  have own := forked.forked
  have notOriginal : ¬ after.Original code child := by
    intro original
    have readOnly := original.code 0 (by decide)
    rw [own.code 0 (by decide)] at readOnly
    exact absurd readOnly (by simp)
  have others : ∀ t, process t → after.pagusrTable t = mm.pagusrTable t :=
    fun t alive => forked.tables t fun same => free (same ▸ alive)
  obtain ⟨physMem, tables, frames, choice, shape⟩ := forked.same
  constructor
  · intro t
    rw [shape]
    exact space.rows t
  · intro page
    rw [forked.tables idle notIdle]
    exact space.idle page
  · rintro t (alive | rfl)
    · exact (space.layout t alive).imp (fun original => original.congr (others t alive))
        (fun other => other.congr (others t alive))
    · exact .inr own
  · rintro t (alive | rfl)
    · exact (space.data t alive).congr (others t alive)
    · exact forked.data
  · intro t page high
    by_cases isChild : t = child
    · subst isChild
      rw [forked.beyond page high]
      exact space.beyond t page high
    · rw [forked.tables t isChild]
      exact space.beyond t page high
  · refine forked.pool.congr rfl ?_
    rintro (pag | ⟨t, pag⟩) frame
    · simp [Owns]
    · constructor
      · rintro ⟨alive | rfl, bound, same⟩
        · rw [getFrame, others t alive] at same
          exact .inl ⟨alive, bound, same⟩
        · exact .inr ⟨pag, bound, rfl, same⟩
      · rintro (⟨alive, bound, same⟩ | ⟨other, bound, mine, same⟩)
        · exact ⟨.inl alive, bound, by rw [getFrame, others t alive]; exact same⟩
        · obtain ⟨rfl, rfl⟩ := Owner.data.inj mine
          exact ⟨.inr rfl, bound, same⟩
  · exact space.first
  · rintro a b (first | rfl) (second | rfl) originalA originalB
    · exact space.original first second (originalA.congr (others a first).symm)
        (originalB.congr (others b second).symm)
    · exact absurd originalB notOriginal
    · exact absurd originalA notOriginal
    · rfl
  · rw [shape]
    exact space.freed
  · rw [shape]
    exact space.fault

end Mm

end Zeos
