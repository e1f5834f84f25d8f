import Meliproxy.Lib.Text

/-!
# Blocks of memory

A block has so many bytes, and bytes are written into it from an offset on. What lies behind
its end is not the writer's: `overrun` says that something was written there. `read` gives back
what was written last, and what other writes have left alone.
-/

namespace Lib

open List

structure Block where
  capacity : Nat
  byte : Nat → UInt8
  overrun : Bool

namespace Block

def malloc (fresh : Nat → UInt8) (capacity : Nat) : Block := ⟨capacity, fresh, false⟩

def realloc (b : Block) (fresh : Nat → UInt8) (capacity : Nat) : Block where
  capacity := capacity
  byte i := if i < b.capacity ∧ i < capacity then b.byte i else fresh i
  overrun := b.overrun

def memcpy (b : Block) (offset : Nat) (data : Bytes) : Block where
  capacity := b.capacity
  byte i := if i < offset then b.byte i else data.getD (i - offset) (b.byte i)
  overrun := b.overrun || decide (b.capacity < offset + data.length)

def read (b : Block) (offset n : Nat) : Bytes := (List.range n).map fun i => b.byte (offset + i)

variable {b : Block} {offset start m n : Nat} {data : Bytes}
variable {fresh : Nat → UInt8} {capacity : Nat}

@[simp] theorem capacity_malloc : (malloc fresh capacity).capacity = capacity := rfl

@[simp] theorem capacity_realloc : (b.realloc fresh capacity).capacity = capacity := rfl

@[simp] theorem capacity_memcpy : (b.memcpy offset data).capacity = b.capacity := rfl

@[simp] theorem length_read : (b.read offset n).length = n := by
  rw [read, length_map, length_range]

@[simp] theorem read_zero : b.read offset 0 = [] := rfl

theorem read_one : b.read offset 1 = [b.byte offset] := rfl

theorem read_congr {b' : Block} (h : ∀ i, i < n → b'.byte (offset + i) = b.byte (offset + i)) :
    b'.read offset n = b.read offset n := by
  apply map_congr_left
  intro i hi
  exact h i (mem_range.mp hi)

theorem read_add : b.read offset (m + n) = b.read offset m ++ b.read (offset + m) n := by
  rw [read, range_add, map_append, map_map]
  apply congrArg
  apply map_congr_left
  intro i _
  exact congrArg b.byte (Nat.add_assoc offset m i).symm

theorem read_memcpy : (b.memcpy offset data).read offset data.length = data := by
  apply ext_getElem length_read
  intro i hi hi'
  have hbyte : ¬ offset + i < offset := by omega
  simp only [read, memcpy, getElem_map, getElem_range, if_neg hbyte, Nat.add_sub_cancel_left]
  rw [getD_eq_getElem?_getD, getElem?_eq_getElem hi', Option.getD_some]

theorem read_memcpy_of_le (h : start + n ≤ offset) :
    (b.memcpy offset data).read start n = b.read start n := by
  apply read_congr
  intro i hi
  have hbyte : start + i < offset := by omega
  exact if_pos hbyte

theorem read_memcpy_of_ge (h : offset + data.length ≤ start) :
    (b.memcpy offset data).read start n = b.read start n := by
  apply read_congr
  intro i hi
  have hbyte : ¬ start + i < offset := by omega
  have hdata : data.length ≤ start + i - offset := by omega
  rw [memcpy]
  simp only [if_neg hbyte]
  rw [getD_eq_getElem?_getD, getElem?_eq_none hdata, Option.getD_none]

theorem read_memcpy_append (h : offset = start + n) :
    (b.memcpy offset data).read start (n + data.length) = b.read start n ++ data := by
  rw [h, read_add, read_memcpy_of_le (Nat.le_refl _), read_memcpy]

theorem read_realloc (h : offset + n ≤ b.capacity)
    (h' : offset + n ≤ capacity) : (b.realloc fresh capacity).read offset n = b.read offset n := by
  apply read_congr
  intro i hi
  have hbyte : offset + i < b.capacity ∧ offset + i < capacity := by omega
  exact if_pos hbyte

theorem overrun_memcpy_iff : (b.memcpy offset data).overrun = false ↔
      b.overrun = false ∧ offset + data.length ≤ b.capacity := by
  rw [memcpy, Bool.or_eq_false_iff, decide_eq_false_iff_not, Nat.not_lt]

end Block

end Lib
