import HostKit.Text.Basic
import Std.Data.HashMap

/-!
# Back-references

Data is described by items: a byte as it is, or a copy of bytes that stand some distance back
in what has been produced so far. A copy may reach into the bytes it produces itself, which
repeats a pattern. Reading before the start of the data gives zero bytes.

The search proposes a place where the next few bytes were seen before; the proposal only
counts as far as the bytes there really are the same, so that expanding the items gives the
data back whatever the search proposes.
-/

namespace HostKit.Lz77

/-- A byte as it is, or a copy from a distance back. -/
inductive Item where
  | literal (byte : UInt8)
  | copy (distance length : Nat)
  deriving Repr, DecidableEq

/-- The byte that stands a distance back from the end. -/
def byteBack (out : Array UInt8) (distance : Nat) : UInt8 :=
  if distance ≤ out.size then out.getD (out.size - distance) 0 else 0

/-- The output with so many bytes copied from a distance back, one after the other. -/
def copyBack (distance : Nat) : Nat → Array UInt8 → Array UInt8
  | 0, out => out
  | length + 1, out => copyBack distance length (out.push (byteBack out distance))

/-- The output that the items add to what is there. -/
def expand (out : Array UInt8) : List Item → Array UInt8
  | [] => out
  | .literal byte :: items => expand (out.push byte) items
  | .copy distance length :: items => expand (copyBack distance length out) items

/-- What copies a format allows: their lengths, their largest distance, and how many bytes at
the end of the data must not be part of a copy. -/
structure Limits where
  minLength : Nat
  maxLength : Nat
  maxDistance : Nat
  reserved : Nat

/-- How many bytes from the two positions on are the same, `room` at most. -/
def matchLength (data : Array UInt8) (earlier here : Nat) : (room : Nat) → Nat
  | 0 => 0
  | room + 1 =>
    if earlier < data.size ∧ here < data.size ∧ data.getD earlier 0 = data.getD here 0 then
      matchLength data (earlier + 1) (here + 1) room + 1
    else 0

/-- The first few bytes from a position on, as one number. -/
def key (data : Array UInt8) (position : Nat) : (count : Nat) → Nat
  | 0 => 0
  | count + 1 => (data.getD position 0).toNat + 256 * key data (position + 1) count

/-- The length of the copy from an earlier position that the limits allow, or zero. -/
def copyLength (limits : Limits) (data : Array UInt8) (earlier here : Nat) : Nat :=
  if earlier < here ∧ here - earlier ≤ limits.maxDistance then
    let length := matchLength data earlier here
      (min limits.maxLength (data.size - limits.reserved - here))
    if limits.minLength ≤ length then length else 0
  else 0

/-- The items of the data from a position on, after the items found so far. `seen` tells for
a few bytes where they stood last. -/
def itemsFrom (limits : Limits) (data : Array UInt8) (position : Nat)
    (seen : Std.HashMap Nat Nat) (found : Array Item) : Array Item :=
  if h : position < data.size then
    let here := key data position limits.minLength
    let earlier := seen.getD here position
    let length := copyLength limits data earlier position
    if hl : 0 < length then
      have : data.size - (position + length) < data.size - position := by omega
      itemsFrom limits data (position + length) (seen.insert here position)
        (found.push (.copy (position - earlier) length))
    else
      itemsFrom limits data (position + 1) (seen.insert here position)
        (found.push (.literal data[position]))
  else found
  termination_by data.size - position

/-- The items of the data. -/
def items (limits : Limits) (data : Bytes) : List Item :=
  (itemsFrom limits data.toArray 0 ∅ #[]).toList

end HostKit.Lz77
