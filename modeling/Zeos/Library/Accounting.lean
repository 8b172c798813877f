import Mathlib.Data.List.Nodup

/-!
# Accounting of a pool

A pool of cells, each free or in use, and owners that hold cells. The accounts
are in order when the cells in use are exactly the held ones and no cell has two
owners. Allocation and release keep them in order, nothing in use is ever
handed out, and a pool with more cells than owners is never exhausted.
-/

namespace Library

universe u v

variable {Cell : Type u} {Owner : Type v}

/-- The cells in use are the held ones, each with one owner. -/
structure Accounted (used : Cell → Prop) (owns : Owner → Cell → Prop) : Prop where
  used_iff : ∀ cell, used cell ↔ ∃ owner, owns owner cell
  exclusive : ∀ {owner other cell}, owns owner cell → owns other cell → owner = other

namespace Accounted

variable {used later : Cell → Prop} {owns holds : Owner → Cell → Prop} {owner : Owner}
  {cell : Cell}

theorem give (accounted : Accounted used owns) (free : ¬ used cell)
    (marks : ∀ other, later other ↔ used other ∨ other = cell)
    (grants : ∀ who what, holds who what ↔ owns who what ∨ (who = owner ∧ what = cell)) :
    Accounted later holds where
  used_iff what := by
    rw [marks, accounted.used_iff]
    constructor
    · rintro (⟨who, old⟩ | rfl)
      · exact ⟨who, (grants who what).mpr (.inl old)⟩
      · exact ⟨owner, (grants owner what).mpr (.inr ⟨rfl, rfl⟩)⟩
    · rintro ⟨who, held⟩
      exact ((grants who what).mp held).imp (fun old => ⟨who, old⟩) And.right
  exclusive {who other what} first second := by
    have unheld : ∀ who, ¬ owns who cell := fun who held =>
      free ((accounted.used_iff cell).mpr ⟨who, held⟩)
    rcases (grants _ _).mp first with old | ⟨rfl, rfl⟩
    · rcases (grants _ _).mp second with older | ⟨_, rfl⟩
      · exact accounted.exclusive old older
      · exact absurd old (unheld who)
    · rcases (grants _ _).mp second with older | ⟨same, _⟩
      · exact absurd older (unheld other)
      · exact same.symm

theorem release (accounted : Accounted used owns)
    (marks : ∀ other, later other ↔ used other ∧ other ≠ cell)
    (grants : ∀ who what, holds who what ↔ owns who what ∧ what ≠ cell) :
    Accounted later holds where
  used_iff what := by
    rw [marks, accounted.used_iff]
    simp only [grants, exists_and_right]
  exclusive first second :=
    accounted.exclusive ((grants _ _).mp first).1 ((grants _ _).mp second).1

theorem congr (accounted : Accounted used owns) (marks : ∀ cell, later cell ↔ used cell)
    (grants : ∀ who what, holds who what ↔ owns who what) : Accounted later holds where
  used_iff cell := by simp only [marks, grants, accounted.used_iff]
  exclusive first second :=
    accounted.exclusive ((grants _ _).mp first) ((grants _ _).mp second)

/-- A pool that is wholly in use has no more cells than there are owners. -/
theorem length_le (accounted : Accounted used owns)
    {pool : List Cell} (nodup : pool.Nodup) (full : ∀ cell ∈ pool, used cell)
    {owners : List Owner} (all : ∀ {owner cell}, owns owner cell → owner ∈ owners)
    (single : ∀ {owner cell other}, owns owner cell → owns owner other → cell = other) :
    pool.length ≤ owners.length := by
  have holder : ∀ cell : { cell // cell ∈ pool }, ∃ owner, owns owner cell.1 :=
    fun cell => (accounted.used_iff cell.1).mp (full cell.1 cell.2)
  choose owner holds using holder
  have injective : Function.Injective owner := fun first second same =>
    Subtype.ext (single (holds first) (same ▸ holds second))
  have subset : pool.attach.map owner ⊆ owners := by
    intro who member
    obtain ⟨cell, _, rfl⟩ := List.mem_map.mp member
    exact all (holds cell)
  have distinct := (List.nodup_attach.mpr nodup).map injective
  simpa using distinct.length_le_of_subset subset

theorem length_eq (accounted : Accounted used owns) {held : List Cell} (heldNodup : held.Nodup)
    (members : ∀ cell, cell ∈ held ↔ used cell) {owners : List Owner} (nodup : owners.Nodup)
    (all : ∀ owner, owner ∈ owners ↔ ∃ cell, owns owner cell)
    (single : ∀ {owner cell other}, owns owner cell → owns owner other → cell = other) :
    held.length = owners.length := by
  apply Nat.le_antisymm
  · exact accounted.length_le heldNodup (fun cell member => (members cell).mp member)
      (fun {owner cell} owns => (all owner).mpr ⟨cell, owns⟩) single
  · have holds : ∀ owner : { owner // owner ∈ owners }, ∃ cell, owns owner.1 cell :=
      fun owner => (all owner.1).mp owner.2
    choose cell holds using holds
    have injective : Function.Injective cell := fun first second same =>
      Subtype.ext (accounted.exclusive (holds first) (same ▸ holds second))
    have subset : owners.attach.map cell ⊆ held := by
      intro what member
      obtain ⟨owner, _, rfl⟩ := List.mem_map.mp member
      exact (members _).mpr ((accounted.used_iff _).mpr ⟨owner.1, holds owner⟩)
    have distinct := (List.nodup_attach.mpr nodup).map injective
    simpa using distinct.length_le_of_subset subset

end Accounted

end Library
