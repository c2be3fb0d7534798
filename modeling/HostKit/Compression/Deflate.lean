import HostKit.Compression.Lz77
import HostKit.Compression.PrefixCode

/-!
# Deflate: the format

A stream is a row of blocks, the last of which is marked. A block is stored as it is, or it
is a row of symbols: bytes, lengths of copies each followed by a distance, and the end of the
block. Lengths and distances fall into classes; the symbol names the class, and extra bits
pick the value within it.
-/

namespace HostKit.Deflate

/-- Why a stream could not be read. -/
inductive Error where
  /-- The data ends before the stream does. -/
  | incomplete
  /-- The data is not such a stream. -/
  | corrupt
  deriving Repr, DecidableEq

/-- The wording of an error. -/
def Error.message : Error → Text
  | .incomplete => "incomplete deflate stream"
  | .corrupt => "corrupt deflate stream"

/-- The smallest value of each length class and the number of its extra bits. -/
def lengthClasses : List (Nat × Nat) :=
  [(3, 0), (4, 0), (5, 0), (6, 0), (7, 0), (8, 0), (9, 0), (10, 0), (11, 1), (13, 1), (15, 1),
   (17, 1), (19, 2), (23, 2), (27, 2), (31, 2), (35, 3), (43, 3), (51, 3), (59, 3), (67, 4),
   (83, 4), (99, 4), (115, 4), (131, 5), (163, 5), (195, 5), (227, 5), (258, 0)]

/-- The smallest value of each distance class and the number of its extra bits. -/
def distanceClasses : List (Nat × Nat) :=
  [(1, 0), (2, 0), (3, 0), (4, 0), (5, 1), (7, 1), (9, 2), (13, 2), (17, 3), (25, 3), (33, 4),
   (49, 4), (65, 5), (97, 5), (129, 6), (193, 6), (257, 7), (385, 7), (513, 8), (769, 8),
   (1025, 9), (1537, 9), (2049, 10), (3073, 10), (4097, 11), (6145, 11), (8193, 12),
   (12289, 12), (16385, 13), (24577, 13)]

/-- The symbol that ends a block. -/
def endOfBlock : Nat := 256

/-- The symbol of the first length class. -/
def firstLength : Nat := 257

/-- The word lengths of the fixed code for bytes, lengths and the end of a block. -/
def fixedLengths : List Nat :=
  List.replicate 144 8 ++ List.replicate 112 9 ++ List.replicate 24 7 ++ List.replicate 8 8

/-- The word lengths of the fixed code for distances. -/
def fixedDistanceLengths : List Nat := List.replicate 32 5

/-- The two codes of a block. -/
structure Codes where
  symbols : PrefixCode
  distances : PrefixCode

/-- The codes of a block that brings none of its own. -/
def fixedCodes : Codes := ⟨.ofLengths fixedLengths, .ofLengths fixedDistanceLengths⟩

/-- The order in which the word lengths of the code for word lengths are written. -/
def lengthOrder : List Nat := [16, 17, 18, 0, 8, 7, 9, 6, 10, 5, 11, 4, 12, 3, 13, 2, 14, 1, 15]

end HostKit.Deflate
