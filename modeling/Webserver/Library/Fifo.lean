import Mathlib.Init

/-! A first-in first-out queue together with everything that ever entered it and
everything that ever left it. -/

namespace Webserver.Library

universe u

/-- What left the queue, followed by what is still in it, is what entered it. -/
structure Fifo (α : Type u) where
  arrived : List α
  departed : List α
  queue : List α
  conserved : departed ++ queue = arrived

namespace Fifo
variable {α : Type u}

def empty : Fifo α := ⟨[], [], [], rfl⟩

def put (fifo : Fifo α) (items : List α) : Fifo α where
  arrived := fifo.arrived ++ items
  departed := fifo.departed
  queue := fifo.queue ++ items
  conserved := by rw [← List.append_assoc, fifo.conserved]

/-- Remove the first `count` items, or all of them when there are fewer. -/
def take (fifo : Fifo α) (count : Nat) : Fifo α where
  arrived := fifo.arrived
  departed := fifo.departed ++ fifo.queue.take count
  queue := fifo.queue.drop count
  conserved := by rw [List.append_assoc, List.take_append_drop, fifo.conserved]

end Fifo
end Webserver.Library
