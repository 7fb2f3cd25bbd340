import Mathlib.Data.Nat.ModEq
import Mathlib.Data.List.Basic

namespace Presence.Data.Ring

/-! A fixed number of cells read as a queue.

Positions count up without bound and position `i` lives in cell `i % slots`.
The queue between a tail and a head position is the list `window` reads; it is
the semantic model, the cells are only its storage.
-/

universe u

variable {α : Type u} {slots tail head : Nat} {cells : Nat → α}

def read (slots : Nat) (cells : Nat → α) (position : Nat) : α :=
  cells (position % slots)

def write (slots : Nat) (cells : Nat → α) (position : Nat) (value : α) : Nat → α :=
  Function.update cells (position % slots) value

def window (slots : Nat) (cells : Nat → α) (tail head : Nat) : List α :=
  (List.range' tail (head - tail)).map (read slots cells)

@[simp] theorem window_self : window slots cells head head = [] := by
  simp [window]

theorem window_cons (room : tail < head) :
    window slots cells tail head =
      read slots cells tail :: window slots cells (tail + 1) head := by
  have size : head - tail = (head - (tail + 1)) + 1 := by omega
  simp only [window, size, List.range'_succ, List.map_cons]

theorem window_snoc (ordered : tail ≤ head) :
    window slots cells tail (head + 1) =
      window slots cells tail head ++ [read slots cells head] := by
  have size : head + 1 - tail = (head - tail) + 1 := by omega
  have last : tail + (head - tail) = head := by omega
  simp only [window, size, List.range'_concat, List.map_append, List.map_cons, List.map_nil,
    Nat.one_mul, last]

@[simp] theorem read_write_self (value : α) :
    read slots (write slots cells head value) head = value := by
  simp [read, write]

/-- Two positions closer than the number of cells never share a cell. -/
theorem read_write_of_near {position : Nat} (value : α)
    (below : position < head) (near : head < position + slots) :
    read slots (write slots cells head value) position = read slots cells position := by
  have apart : position % slots ≠ head % slots := by
    intro same
    have divides : slots ∣ head - position :=
      (Nat.modEq_iff_dvd' (Nat.le_of_lt below)).mp same
    have reach := Nat.le_of_dvd (by omega) divides
    omega
  simp only [read, write, Function.update_of_ne apart]

theorem window_write (cells : Nat → α) (value : α) (near : head < tail + slots) :
    window slots (write slots cells head value) tail head = window slots cells tail head := by
  apply List.map_congr_left
  intro position member
  have bounds := List.mem_range'_1.mp member
  exact read_write_of_near value (by omega) (by omega)

/-- Writing at the head of a window with a free cell appends to the queue. -/
theorem window_push (cells : Nat → α) (value : α) (ordered : tail ≤ head) (near : head < tail + slots) :
    window slots (write slots cells head value) tail (head + 1) =
      window slots cells tail head ++ [value] := by
  rw [window_snoc ordered, window_write cells value near, read_write_self]

end Presence.Data.Ring
