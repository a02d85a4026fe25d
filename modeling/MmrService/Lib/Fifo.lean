import Mathlib.Data.List.Basic
import Mathlib.Tactic.Common

/-!
What goes into a queue and what comes out of it.

A log holds what was pushed and what was popped since the queue was emptied last. The queue is
first in, first out if what was pushed is what was popped, followed by what is in it.
-/

namespace Fifo

variable {α : Type*}

structure Log (α : Type*) where
  pushed : List α
  popped : List α

namespace Log

def empty : Log α := ⟨[], []⟩

def push (l : Log α) (xs : List α) : Log α := { l with pushed := l.pushed ++ xs }

def pop (l : Log α) (xs : List α) : Log α := { l with popped := l.popped ++ xs }

/-- What was pushed and not popped. -/
def pending (l : Log α) : List α := l.pushed.drop l.popped.length

/-- Everything came out in the order it went in, and `q` is the rest. -/
def Holds (l : Log α) (q : List α) : Prop := l.pushed = l.popped ++ q

variable {l : Log α} {q : List α}

lemma holds_empty : (empty : Log α).Holds [] := rfl

lemma Holds.pending (h : l.Holds q) : l.pending = q := by
  rw [Log.pending, h, List.drop_left]

lemma Holds.push (h : l.Holds q) (xs : List α) : (l.push xs).Holds (q ++ xs) := by
  change l.pushed ++ xs = l.popped ++ (q ++ xs)
  rw [h, List.append_assoc]

lemma Holds.pop (h : l.Holds q) (n : ℕ) : (l.pop (q.take n)).Holds (q.drop n) := by
  change l.pushed = l.popped ++ q.take n ++ q.drop n
  rw [List.append_assoc, List.take_append_drop, h]

end Log

end Fifo
