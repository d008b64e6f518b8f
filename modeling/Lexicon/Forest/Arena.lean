/-
Module: Lexicon.Forest.Arena
Layer: Forest
Purpose: Allocation of runs of slots, with free runs kept by their exact length.
Imports: Lexicon.Forest.Slot
Trusted boundary: none
Main exports: Arena, Arena.alloc, Arena.release, Arena.copy, Arena.insertChild, Arena.eraseChild
-/
import Lexicon.Forest.Slot

namespace Lexicon

/-!
An arena only grows.  A run that is given back is parked under its length and handed out again to
the next request of exactly that length, the latest first; its content stays as it was left.  Which
slot a new run gets is visible in the stored form, so the order in which runs are taken and given
back is part of what this module promises.
-/

/-- The largest number of slots: the number of a slot has to fit 31 bits. -/
def maxSlots : Nat := 0x7fffffff

/-- Slots, and the runs that are free, by length. -/
structure Arena where
  slots : Array Slot
  free : Vector (List Nat) 33
deriving Repr

namespace Arena

/-- An arena whose slots are all in use. -/
def ofSlots (slots : Array Slot) : Arena :=
  { slots := slots, free := Vector.replicate 33 [] }

/-- The arena of one empty table. -/
def new : Arena := ofSlots #[Slot.empty]

/-- The content of a slot; outside the arena there are only empty nodes. -/
def slot (arena : Arena) (index : Nat) : Slot := arena.slots.getD index Slot.empty

/-- Replaces the content of a slot. -/
def write (arena : Arena) (index : Nat) (slot : Slot) : Arena :=
  { arena with slots := arena.slots.setIfInBounds index slot }

/-- The free runs of a length, latest first. -/
def freeRuns (arena : Arena) (length : Nat) : List Nat := arena.free[length]?.getD []

/-- Takes a run of the given length: the latest free run of that length, or new slots at the end.
There is none when the arena would outgrow its largest size; the arena then stays as it is. -/
def alloc (arena : Arena) (length : Nat) : Option Nat × Arena :=
  match arena.freeRuns length with
  | offset :: others =>
      (some offset, { arena with free := arena.free.setIfInBounds length others })
  | [] =>
      let offset := arena.slots.size
      if offset + length ≤ maxSlots then
        (some offset, { arena with slots := arena.slots ++ Array.replicate length Slot.empty })
      else
        (none, arena)

/-- Gives a run back. -/
def release (arena : Arena) (offset length : Nat) : Arena :=
  let parked := offset :: arena.freeRuns length
  { arena with free := arena.free.setIfInBounds length parked }

/-- Copies slots one by one, from the first on, so that a run may be moved towards the front over
itself. -/
def copySlots (slots : Array Slot) (source target : Nat) : (count : Nat) → Array Slot
  | 0 => slots
  | count + 1 =>
      let moved := slots.getD source Slot.empty
      copySlots (slots.setIfInBounds target moved) (source + 1) (target + 1) count

/-- Copies a run of slots to another place.  Where there are no slots to copy nothing changes, even
if the run begins outside of the arena; code that checks the bounds of what it copies breaks off
there instead.  `Arena.Checked.copy` has no result in that case. -/
def copy (arena : Arena) (source target count : Nat) : Arena :=
  { arena with slots := copySlots arena.slots source target count }

/-- Gives a node one more child, under a label it does not have yet, and tells whether there was
room for it.  The children move to a run that is longer by one; the new run is taken before the old
one is given back.  Slots that were read may hold a node without children whose run begins outside of
the arena: it gets its first child here all the same, where code that checks the bounds of its copies
breaks off (`Arena.Checked.insertChild`).  `Arena.Anchored` says that there is no such node. -/
def insertChild (arena : Arena) (node : Nat) (label : Label) (child : Slot) : Bool × Arena :=
  let parent := arena.slot node
  let place := parent.labels.rank label.val
  let length := parent.labels.size
  match arena.alloc (length + 1) with
  | (none, arena) => (false, arena)
  | (some run, arena) =>
      let arena := arena.copy parent.run run place
      let arena := arena.write (run + place) child
      let arena := arena.copy (parent.run + place) (run + place + 1) (length - place)
      let arena := if length = 0 then arena else arena.release parent.run length
      (true, arena.write node (.node (parent.labels.insert label) run 0))

/-- Takes the child under one of a node's labels away.  The children behind it close the gap in
place and the last slot of the run is given back; a node without children forgets its run. -/
def eraseChild (arena : Arena) (node : Nat) (label : Label) : Arena :=
  let parent := arena.slot node
  let length := parent.labels.size
  if length = 1 then
    (arena.release parent.run 1).write node Slot.empty
  else
    let place := parent.child label
    let last := parent.run + length - 1
    let arena := arena.copy (place + 1) place (last - place)
    let arena := arena.release last 1
    arena.write node (.node (parent.labels.erase label) parent.run 0)

/-- Puts a node with a single child in the place of an entry and the entry itself below it, under
its label at the next level, and tells whether there was room for it. -/
def pushDown (arena : Arena) (index level : Nat) (key : Int32) (entry : Slot) : Bool × Arena :=
  match arena.alloc 1 with
  | (none, arena) => (false, arena)
  | (some run, arena) =>
      let arena := arena.write run entry
      let label := Label.ofKey key (level + 1)
      (true, arena.write index (.node (LabelSet.singleton label) run 0))

end Arena

end Lexicon
