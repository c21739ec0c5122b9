import Mathlib.Data.List.Infix
import Mathlib.Data.List.Nodup

/-!
# Stores of cells that refer to each other

A finite store in which a cell names other cells of the store. What is not there cannot be named,
and what is named cannot be removed: both are part of the type.

* `RefStore.create`, `RefStore.delete` — the partial operations
* `RefStore.Extends` — a store with cells of its own at the end; creating keeps it, and so does
  deleting what is not in the base
* `RefStore.eq_of_extends` — a store that has nothing beyond the base is the base

Nothing here is about a particular program.
-/

namespace DdsApps.Infra

/-- A cell, and the keys of the cells it needs. -/
structure Cell (κ α : Type*) where
  key : κ
  content : α
  refs : List κ
deriving DecidableEq, Repr

@[ext]
structure RefStore (κ α : Type*) where
  cells : List (Cell κ α)
  /-- no key is used twice -/
  nodup : (cells.map Cell.key).Nodup
  /-- no reference dangles -/
  closed : ∀ c ∈ cells, ∀ r ∈ c.refs, r ∈ cells.map Cell.key

namespace RefStore

variable {κ α : Type*} {s t base : RefStore κ α} {c d : Cell κ α} {k : κ}

def keys (s : RefStore κ α) : List κ := s.cells.map Cell.key

theorem key_mem_keys (h : c ∈ s.cells) : c.key ∈ s.keys := List.mem_map_of_mem h

/-- A key has one cell. -/
theorem eq_of_key_eq (hc : c ∈ s.cells) (hd : d ∈ s.cells) (h : c.key = d.key) : c = d :=
  List.inj_on_of_nodup_map s.nodup hc hd h

/-! ## Adding a cell -/

/-- No cell needs it. -/
def Unreferenced (s : RefStore κ α) (k : κ) : Prop := ∀ c ∈ s.cells, k ∉ c.refs

def insert (s : RefStore κ α) (c : Cell κ α) (hfresh : c.key ∉ s.keys)
    (hrefs : ∀ r ∈ c.refs, r ∈ s.keys) : RefStore κ α where
  cells := s.cells ++ [c]
  nodup := by
    rw [List.map_append, List.nodup_append]
    refine ⟨s.nodup, List.nodup_singleton _, ?_⟩
    intro a ha b hb hab
    rw [List.map_singleton, List.mem_singleton] at hb
    exact hfresh (hb ▸ hab ▸ ha)
  closed := by
    intro d hd r hr
    rw [List.map_append, List.mem_append]
    rcases List.mem_append.mp hd with hd | hd
    · exact Or.inl (s.closed d hd r hr)
    · rw [List.mem_singleton.mp hd] at hr
      exact Or.inl (hrefs r hr)

@[simp] theorem mem_insert (hfresh : c.key ∉ s.keys) (hrefs : ∀ r ∈ c.refs, r ∈ s.keys) :
    d ∈ (s.insert c hfresh hrefs).cells ↔ d ∈ s.cells ∨ d = c := by
  simp [insert]

/-! ## Stores over a base -/

/-- The cells of the base come first, as they are in it. -/
def Extends (s base : RefStore κ α) : Prop := base.cells <+: s.cells

theorem Extends.refl (s : RefStore κ α) : s.Extends s := List.prefix_rfl

theorem Extends.subset_keys (h : s.Extends base) : base.keys ⊆ s.keys :=
  List.map_subset _ h.subset

theorem Extends.insert (h : s.Extends base) (hfresh : c.key ∉ s.keys)
    (hrefs : ∀ r ∈ c.refs, r ∈ s.keys) : (s.insert c hfresh hrefs).Extends base :=
  h.trans (List.prefix_append ..)

/-- **Where nothing is left beyond the base, the store is the base.** -/
theorem eq_of_extends (h : s.Extends base) (hnone : ∀ c ∈ s.cells, c.key ∈ base.keys) :
    s = base := by
  obtain ⟨own, hown⟩ := h
  have hempty : own = [] := by
    refine List.eq_nil_iff_forall_not_mem.mpr fun c hc => ?_
    have hbase := hnone c (hown ▸ List.mem_append_right _ hc)
    have hnodup := s.nodup
    rw [← hown, List.map_append, List.nodup_append] at hnodup
    exact hnodup.2.2 _ hbase _ (List.mem_map_of_mem hc) rfl
  rw [hempty, List.append_nil] at hown
  exact RefStore.ext hown.symm

/-- The base refers to itself only. -/
theorem mem_keys_of_refs (h : s.Extends base) (hc : c ∈ s.cells) (hkey : c.key ∈ base.keys)
    {r : κ} (hr : r ∈ c.refs) : r ∈ base.keys := by
  obtain ⟨d, hd, hdkey⟩ := List.mem_map.mp hkey
  have hcd : d = c := s.eq_of_key_eq (h.subset hd) hc hdkey
  exact base.closed d hd r (hcd ▸ hr)

/-! ## Removing a cell -/

variable [DecidableEq κ]

def erase (s : RefStore κ α) (k : κ) (h : s.Unreferenced k) : RefStore κ α where
  cells := s.cells.filter fun c => c.key ≠ k
  nodup := s.nodup.sublist (List.filter_sublist.map _)
  closed := by
    intro c hc r hr
    have hmem := (List.mem_filter.mp hc).1
    obtain ⟨d, hd, rfl⟩ := List.mem_map.mp (s.closed c hmem r hr)
    have hne : d.key ≠ k := fun heq => h c hmem (heq ▸ hr)
    exact List.mem_map_of_mem (List.mem_filter.mpr ⟨hd, by simpa using hne⟩)

@[simp] theorem mem_erase (h : s.Unreferenced k) :
    c ∈ (s.erase k h).cells ↔ c ∈ s.cells ∧ c.key ≠ k := by
  simp [erase]

instance (s : RefStore κ α) (k : κ) : Decidable (s.Unreferenced k) :=
  inferInstanceAs (Decidable (∀ c ∈ s.cells, k ∉ c.refs))

theorem Extends.erase (h : s.Extends base) (hk : k ∉ base.keys) (hun : s.Unreferenced k) :
    (s.erase k hun).Extends base := by
  obtain ⟨own, hown⟩ := h
  refine ⟨own.filter fun c => c.key ≠ k, ?_⟩
  have hbase : base.cells.filter (fun c => c.key ≠ k) = base.cells := by
    refine List.filter_eq_self.mpr fun c hc => ?_
    have hne : c.key ≠ k := fun heq => hk (heq ▸ key_mem_keys hc)
    simpa using hne
  have hcells : base.cells ++ own.filter (fun c => c.key ≠ k)
      = s.cells.filter fun c => c.key ≠ k := by
    rw [← hown, List.filter_append, hbase]
  exact hcells

/-! ## The partial operations -/

/-- Adds a cell, if its key is new and what it needs is there. -/
def create (s : RefStore κ α) (c : Cell κ α) : Option (RefStore κ α) :=
  if h : c.key ∉ s.keys ∧ ∀ r ∈ c.refs, r ∈ s.keys then some (s.insert c h.1 h.2) else none

/-- Removes a cell, if it is there and nothing needs it. -/
def delete (s : RefStore κ α) (k : κ) : Option (RefStore κ α) :=
  if h : k ∈ s.keys ∧ s.Unreferenced k then some (s.erase k h.2) else none

theorem create_of_fresh (hfresh : c.key ∉ s.keys) (hrefs : ∀ r ∈ c.refs, r ∈ s.keys) :
    s.create c = some (s.insert c hfresh hrefs) :=
  dif_pos ⟨hfresh, hrefs⟩

theorem delete_of_unreferenced (hk : k ∈ s.keys) (h : s.Unreferenced k) :
    s.delete k = some (s.erase k h) :=
  dif_pos ⟨hk, h⟩

end RefStore

end DdsApps.Infra
