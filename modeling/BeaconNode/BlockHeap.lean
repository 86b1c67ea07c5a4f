import Mathlib.Data.List.Basic
import Mathlib.Order.Lattice
import Mathlib.Data.Nat.Basic
import Mathlib.Order.Nat

namespace BeaconNode.BlockHeap

variable {α : Type}

/-- The blocks of a heap by address. An address that has been given back stays
empty, so that its use shows. -/
structure Heap (α : Type) where
  blocks : List (Option (List α)) := []
  /-- What was in each block when it was given back, oldest first. -/
  released : List (List α) := []
  /-- A block was used that is not there, or beyond its end. -/
  faulted : Bool := false

namespace Heap

def block (h : Heap α) (a : Nat) : Option (List α) := (h.blocks[a]?).join

def contents (h : Heap α) (a : Nat) : List α := (h.block a).getD []

def allocate (h : Heap α) (contents : List α) : Heap α × Nat :=
  ({ h with blocks := h.blocks ++ [some contents] }, h.blocks.length)

/-- Overwrite the first places of a block. -/
def fill (h : Heap α) (a : Nat) (values : List α) : Heap α :=
  match h.block a with
  | none => { h with faulted := true }
  | some old =>
      if values.length ≤ old.length then
        { h with blocks := h.blocks.set a (some (values ++ old.drop values.length)) }
      else { h with faulted := true }

/-- Copy n places from the start of one block to the start of another. -/
def copy (h : Heap α) (target source n : Nat) : Heap α :=
  if n ≤ (h.contents source).length then h.fill target ((h.contents source).take n) else { h with faulted := true }

def set (h : Heap α) (a i : Nat) (value : α) : Heap α :=
  match h.block a with
  | none => { h with faulted := true }
  | some old =>
      if i < old.length then { h with blocks := h.blocks.set a (some (old.set i value)) }
      else { h with faulted := true }

def release (h : Heap α) (a : Nat) : Heap α :=
  match h.block a with
  | none => { h with faulted := true }
  | some old => { h with blocks := h.blocks.set a none, released := h.released ++ [old] }

end Heap

variable {h : Heap α} {a b : Nat} {old : List α}

theorem lt_of_block (hb : h.block a = some old) : a < h.blocks.length := by
  by_contra hle
  rw [Heap.block, List.getElem?_eq_none (not_lt.mp hle)] at hb
  cases hb

theorem block_set (blocks : List (Option (List α))) {a : Nat} (ha : a < blocks.length) (b : Nat)
    (value : Option (List α)) :
    ((blocks.set a value)[b]?).join = if b = a then value else (blocks[b]?).join := by
  by_cases hab : b = a
  · subst hab
    rw [if_pos rfl, List.getElem?_set_self ha]
    rfl
  · rw [if_neg hab, List.getElem?_set_ne (Ne.symm hab)]

theorem contents_of_block (hb : h.block a = some old) : h.contents a = old := by
  rw [Heap.contents, hb, Option.getD_some]

theorem allocate_block (h : Heap α) (contents : List α) (b : Nat) :
    (h.allocate contents).1.block b = if b = h.blocks.length then some contents else h.block b := by
  change ((h.blocks ++ [some contents])[b]?).join = if b = h.blocks.length then some contents else (h.blocks[b]?).join
  rcases lt_trichotomy b h.blocks.length with hlt | rfl | hlt
  · rw [List.getElem?_append_left hlt, if_neg hlt.ne]
  · simp
  · rw [if_neg hlt.ne', List.getElem?_eq_none (by simpa using Nat.succ_le_of_lt hlt),
      List.getElem?_eq_none hlt.le]

theorem fill_eq (hb : h.block a = some old) {values : List α} (hl : values.length ≤ old.length) :
    h.fill a values = { h with blocks := h.blocks.set a (some (values ++ old.drop values.length)) } := by
  rw [Heap.fill, hb]
  exact if_pos hl

theorem fill_block (hb : h.block a = some old) {values : List α} (hl : values.length ≤ old.length) (b : Nat) :
    (h.fill a values).block b = if b = a then some (values ++ old.drop values.length) else h.block b := by
  rw [fill_eq hb hl]
  exact block_set h.blocks (lt_of_block hb) b _

theorem set_eq (hb : h.block a = some old) {i : Nat} (hi : i < old.length) (value : α) :
    h.set a i value = { h with blocks := h.blocks.set a (some (old.set i value)) } := by
  rw [Heap.set, hb]
  exact if_pos hi

theorem set_block (hb : h.block a = some old) {i : Nat} (hi : i < old.length) (value : α) (b : Nat) :
    (h.set a i value).block b = if b = a then some (old.set i value) else h.block b := by
  rw [set_eq hb hi]
  exact block_set h.blocks (lt_of_block hb) b _

theorem release_eq (hb : h.block a = some old) :
    h.release a = { h with blocks := h.blocks.set a none, released := h.released ++ [old] } := by
  rw [Heap.release, hb]

theorem release_block (hb : h.block a = some old) (b : Nat) :
    (h.release a).block b = if b = a then none else h.block b := by
  rw [release_eq hb]
  exact block_set h.blocks (lt_of_block hb) b _

/-- Every block that was given back had been overwritten with one value. -/
def Wiped (zero : α) (h : Heap α) : Prop := ∀ block ∈ h.released, ∀ v ∈ block, v = zero

theorem Wiped.release {zero : α} (hw : Wiped zero h) (hb : h.block a = some old) (hz : ∀ v ∈ old, v = zero) :
    Wiped zero (h.release a) := by
  rw [release_eq hb]
  intro block hm
  rcases List.mem_append.mp hm with hm | hm
  · exact hw block hm
  · rw [List.mem_singleton.mp hm]
    exact hz

end BeaconNode.BlockHeap
