/-
# QUEUE_obj

`verilog/QUEUE_obj.v`, the circular queue of the decode queue, the rename queue
and the free list.  `INIT` selects between the two: a queue that starts empty,
and a free list that starts full with `LENGTH`, `LENGTH + 1`, … and that a flush
refills with the physical registers no architectural register is mapped to.
(`SPECIAL` is 0 in every instance and is not modelled.)

The write index of the free list is `(tail + 1) % 64` for an array of `LENGTH`
entries, and `tail` itself wraps at `LENGTH - 1`; a write to an index outside the
array has no effect (`Lib.writeAt`).
-/

import OooProcessor.Lib.Window
import OooProcessor.Rtl.Types

namespace OooProcessor
namespace QueueObj

open Lib

/-- The parameters of an instance.  `ofInt` is what a `WIDTH`-bit entry keeps of
an `integer` assigned to it. -/
structure Params (α : Type*) where
  init : Bool
  length : ℕ
  ofInt : ℕ → α

/-- The `integer`s `head`, `tail`, `size` and the array. -/
structure State (α : Type*) where
  head : ℕ
  tail : ℕ
  size : ℕ
  queue : ℕ → α

structure Inputs (α : Type*) where
  stall : Bool
  flush : Bool
  enque : Bool
  enqueData : α
  deque : Bool
  rMapping : Reg → Tag

variable {α : Type*}

/-- `(deque & ~stall & (size > 0))` -/
def dequeues (i : Inputs α) (s : State α) : Bool := i.deque && !i.stall && decide (0 < s.size)

variable (P : Params α)

def halt (s : State α) : Bool := if P.init then s.size == 0 else s.size == P.length

def dequeData (i : Inputs α) (s : State α) : α :=
  if dequeues i s then s.queue s.head else P.ofInt 0

/-- `(enque & (size < LENGTH))`, with `~halt` as well where `INIT` is 0. -/
def enqueues (i : Inputs α) (s : State α) : Bool :=
  if P.init then i.enque && decide (s.size < P.length)
  else i.enque && !halt P s && decide (s.size < P.length)

/-- The index the queue is written at on a rising edge. -/
def writeIndex (s : State α) : ℕ := if P.init then (s.tail + 1) % 64 else s.tail

def reset : State α :=
  if P.init then
    { head := 0, tail := P.length - 1, size := P.length, queue := fun i => P.ofInt (P.length + i) }
  else { head := 0, tail := 0, size := 0, queue := fun _ => P.ofInt 0 }

/-- `temp`: the physical registers that stay marked after the loop over
`r_mapping`. -/
def temp (rMapping : Reg → Tag) : Tag → Bool :=
  (List.finRange 32).foldl (fun t i => Function.update t (rMapping i) false) fun _ => true

/-- The loop that compacts the marked registers into the queue; the second
component is `j`. -/
def compact (t : Tag → Bool) (queue : ℕ → α) : (ℕ → α) × ℕ :=
  (List.finRange 64).foldl
    (fun qj i => if t i then (writeAt P.length qj.1 qj.2 (P.ofInt i), qj.2 + 1) else qj) (queue, 0)

def flushed (i : Inputs α) (s : State α) : State α :=
  if P.init then
    { head := 0, tail := P.length - 1, size := P.length,
      queue := (compact P (temp i.rMapping) s.queue).1 }
  else { head := 0, tail := 0, size := 0, queue := fun _ => P.ofInt 0 }

/-- The update of a rising edge without flush. -/
def advance (i : Inputs α) (s : State α) : State α where
  head := if dequeues i s then next P.length s.head else s.head
  tail := if enqueues P i s then next P.length s.tail else s.tail
  size :=
    if enqueues P i s then if dequeues i s then s.size else s.size + 1
    else if dequeues i s then s.size - 1 else s.size
  queue :=
    writeAt P.length s.queue (writeIndex P s)
      (if enqueues P i s then i.enqueData else s.queue (writeIndex P s))

def posedge (i : Inputs α) (s : State α) : State α :=
  if i.flush then flushed P i s else advance P i s

variable {P}

/-- **What enters a queue is all it ever holds.**  A property of the entries
that the reset values have survives an edge that enqueues an entry with it. -/
theorem queue_posedge_forall (hP : P.init = false) {Q : α → Prop} {i : Inputs α} {s : State α}
    (h0 : Q (P.ofInt 0)) (hi : Q i.enqueData) (hs : ∀ k, Q (s.queue k)) (k : ℕ) :
    Q ((posedge P i s).queue k) := by
  unfold posedge
  split_ifs with hf
  · simpa [flushed, hP] using h0
  · refine writeAt_forall hs ?_ k
    split_ifs
    · exact hi
    · exact hs _

theorem dequeData_forall {Q : α → Prop} {i : Inputs α} {s : State α} (h0 : Q (P.ofInt 0))
    (hs : ∀ k, Q (s.queue k)) : Q (dequeData P i s) := by
  unfold dequeData
  split_ifs
  · exact hs _
  · exact h0

end QueueObj
end OooProcessor
