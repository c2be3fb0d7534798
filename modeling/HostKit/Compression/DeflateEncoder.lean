import HostKit.Compression.Deflate

/-!
# Deflate: writing

The format leaves the choice of blocks, codes and copies open. Here data is written either in
stored blocks or as one block of symbols in the fixed code. The word of a symbol is looked up in the
very tree that reading walks, and the class of a length or distance is the last one whose smallest
value does not exceed it.
-/

namespace HostKit.Deflate

/-- The number of the class of a value, the number of its extra bits, and their value. -/
def classOf (classes : List (Nat × Nat)) (value : Nat) : Nat × Nat × Nat :=
  let number := (classes.filter fun c => c.1 ≤ value).length - 1
  let (smallest, extra) := classes.getD number (0, 0)
  (number, extra, value - smallest)

/-- The words of the symbols of a code, by symbol. -/
def wordTable (code : PrefixCode) (symbolCount : Nat) : Array Bits :=
  ((List.range symbolCount).map fun symbol => (code.word? symbol).getD []).toArray

/-- The words of the fixed code for bytes, lengths and the end of a block. -/
def fixedWords : Array Bits := wordTable fixedCodes.symbols 288

/-- The words of the fixed code for distances. -/
def fixedDistanceWords : Array Bits := wordTable fixedCodes.distances 32

/-- The bits of an item. -/
def itemBits (item : Lz77.Item) : Bits :=
  match item with
  | .literal byte => fixedWords.getD byte.toNat []
  | .copy distance length =>
    let (lengthClass, lengthExtra, lengthRest) := classOf lengthClasses length
    let (distanceClass, distanceExtra, distanceRest) := classOf distanceClasses distance
    fixedWords.getD (firstLength + lengthClass) [] ++ Bits.ofNat lengthExtra lengthRest
      ++ fixedDistanceWords.getD distanceClass [] ++ Bits.ofNat distanceExtra distanceRest

/-- The copies a stream may hold. -/
def limits : Lz77.Limits := ⟨3, 258, 32768, 0⟩

/-- The data as one block in the fixed code: the mark of the last block, its type, the items
and the end. -/
def fixedBlock (items : List Lz77.Item) : Bytes :=
  Bits.toBytes ([true, true, false] ++ items.flatMap itemBits ++ fixedWords.getD endOfBlock [])

/-- Two bytes of a number, the least significant first. -/
def twoBytes (n : Nat) : Bytes := [n.toUInt8, (n / 256).toUInt8]

/-- The most bytes a stored block can hold. -/
def storedMax : Nat := 65535

/-- A stored block; its three header bits fill up a byte. -/
def storedBlock (last : Bool) (data : Bytes) : Bytes :=
  (if last then 1 else 0) :: (twoBytes data.length ++ twoBytes (storedMax - data.length) ++ data)

/-- The data in stored blocks, each of them full but the last. -/
def storedBlocks (data : Bytes) : Bytes :=
  if data.length ≤ storedMax then storedBlock true data
  else storedBlock false (data.take storedMax) ++ storedBlocks (data.drop storedMax)
  termination_by data.length
  decreasing_by simp only [List.length_drop, storedMax] at *; omega

/-- The data as a stream: stored if no effort is asked for or if symbols would take more. -/
def encode (level : Nat) (data : Bytes) : Bytes :=
  let stored := storedBlocks data
  if level = 0 then stored
  else
    let fixed := fixedBlock (Lz77.items limits data)
    if fixed.length < stored.length then fixed else stored

end HostKit.Deflate
