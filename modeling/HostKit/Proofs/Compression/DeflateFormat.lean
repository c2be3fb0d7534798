import HostKit.Proofs.Compression.CanonicalWords

/-!
# The deflate format

What the bits of a stream may be and which items they stand for, as the standard (RFC 1951) has it
and without a reader. Each description speaks of all the bits of its part, so the parts of a stream
are bits in a row. Only a stored block depends on where it stands, since its data starts with a full
byte. A stream stands for the items of all its blocks, and a copy may reach back into earlier ones;
the standard allows it to reach no further than to the first byte (`WithinStart`).

Where the standard has numbers without a meaning or leaves codes open, a description is as strict as
readers in use: there are thirty distances and not thirty-two, and a code has no room left over
unless it has one word at most.
-/

namespace HostKit

namespace Lz77

/-- No copy reaches further back than to the first byte, where so many bytes came before. -/
def WithinStart (size : Nat) : List Item → Prop
  | [] => True
  | .literal _ :: items => WithinStart (size + 1) items
  | .copy distance length :: items => distance ≤ size ∧ WithinStart (size + length) items

/-- The item of each byte as it is. -/
def literals (data : Bytes) : List Item := data.map .literal

end Lz77

namespace Deflate

open PrefixCode (IsWord isComplete)

/-! ## Blocks of symbols -/

/-- The lengths of the words of both codes of a block, by symbol. -/
structure WordLengths where
  symbols : List Nat
  distances : List Nat

namespace WordLengths

/-- The lengths of a block that brings none of its own. -/
def fixed : WordLengths := ⟨fixedLengths, fixedDistanceLengths⟩

/-- The codes with words of these lengths. -/
def codes (lengths : WordLengths) : Codes :=
  ⟨.ofLengths lengths.symbols, .ofLengths lengths.distances⟩

end WordLengths

/-- Extra bits pick the value out of the class of this number. -/
inductive PicksValue (classes : List (Nat × Nat)) : (number value : Nat) → Bits → Prop where
  | mk {number smallest extra above : Nat} (listed : classes[number]? = some (smallest, extra))
      (lt : above < 2 ^ extra) :
      PicksValue classes number (smallest + above) (Bits.ofNat extra above)

/-- The bits of one item. -/
inductive SpellsItem (lengths : WordLengths) : Lz77.Item → Bits → Prop where
  | literal {byte : UInt8} {word : Bits} (isWord : IsWord lengths.symbols byte.toNat word) :
      SpellsItem lengths (.literal byte) word
  | copy {lengthNumber distanceNumber distance length : Nat} {word longer word' farther : Bits}
      (isWord : IsWord lengths.symbols (firstLength + lengthNumber) word)
      (picksLength : PicksValue lengthClasses lengthNumber length longer)
      (isWord' : IsWord lengths.distances distanceNumber word')
      (picksDistance : PicksValue distanceClasses distanceNumber distance farther) :
      SpellsItem lengths (.copy distance length) (word ++ (longer ++ (word' ++ farther)))

/-- The bits of items up to the symbol that ends the block. -/
inductive SpellsItems (lengths : WordLengths) : List Lz77.Item → Bits → Prop where
  | done {word : Bits} (isWord : IsWord lengths.symbols endOfBlock word) :
      SpellsItems lengths [] word
  | cons {item : Lz77.Item} {items : List Lz77.Item} {bits bits' : Bits}
      (spells : SpellsItem lengths item bits) (rest : SpellsItems lengths items bits') :
      SpellsItems lengths (item :: items) (bits ++ bits')

/-! ## Codes that a block brings with it -/

/-- What a symbol for a repetition repeats after the previous length: a length at least so many
times, where so many extra bits tell how many times more. -/
inductive Repeats : (previous : Option Nat) → (symbol width least length : Nat) → Prop where
  | previous (length : Nat) : Repeats (some length) 16 2 3 length
  | zeros (previous : Option Nat) : Repeats previous 17 3 3 0
  | manyZeros (previous : Option Nat) : Repeats previous 18 7 11 0

/-- The bits of a row of lengths, in a code for lengths, after the previous one. -/
inductive SpellsLengths (code : List Nat) : (previous : Option Nat) → List Nat → Bits → Prop where
  | done (previous : Option Nat) : SpellsLengths code previous [] []
  | length {previous : Option Nat} {length : Nat} {lengths : List Nat} {word bits : Bits}
      (lt : length < 16) (isWord : IsWord code length word)
      (rest : SpellsLengths code (some length) lengths bits) :
      SpellsLengths code previous (length :: lengths) (word ++ bits)
  | repetition {previous : Option Nat} {symbol width least length more : Nat}
      {lengths : List Nat} {word bits : Bits} (repeats : Repeats previous symbol width least length)
      (lt : more < 2 ^ width) (isWord : IsWord code symbol word)
      (rest : SpellsLengths code (some length) lengths bits) :
      SpellsLengths code previous (List.replicate (least + more) length ++ lengths)
        (word ++ (Bits.ofNat width more ++ bits))

/-- The bits of the lengths of both codes: three counts, the lengths of a code for lengths in their
own order, and the lengths themselves in this code, as one row. -/
inductive SpellsCodes : WordLengths → Bits → Prop where
  | mk {symbols distances written : List Nat} {row : Bits}
      (symbols_ge : 257 ≤ symbols.length) (symbols_le : symbols.length ≤ 286)
      (distances_ge : 1 ≤ distances.length) (distances_le : distances.length ≤ 30)
      (written_ge : 4 ≤ written.length) (written_le : written.length ≤ 19)
      (written_lt : ∀ length ∈ written, length < 8)
      (complete : isComplete (unorder written) = true)
      (spells : SpellsLengths (unorder written) none (symbols ++ distances) row)
      (symbolsUsable : isUsable symbols = true) (distancesUsable : isUsable distances = true) :
      SpellsCodes ⟨symbols, distances⟩
        (Bits.ofNat 5 (symbols.length - 257) ++ (Bits.ofNat 5 (distances.length - 1) ++
          (Bits.ofNat 4 (written.length - 4) ++ (written.flatMap (Bits.ofNat 3) ++ row))))

/-! ## Streams -/

/-- The bits of a block that starts at this position: whether it is the last one, its type, and its
contents. -/
inductive SpellsBlock (last : Bool) (position : Nat) : List Lz77.Item → Bits → Prop where
  | stored {filling : Bits} {data : Bytes} (filling_lt : filling.length < 8)
      (aligned : (position + 3 + filling.length) % 8 = 0) (data_le : data.length ≤ 65535) :
      SpellsBlock last position (Lz77.literals data)
        (last :: false :: false :: (filling ++ (Bits.ofNat 16 data.length ++
          (Bits.ofNat 16 (65535 - data.length) ++ Bits.ofBytes data))))
  | fixed {items : List Lz77.Item} {bits : Bits} (spells : SpellsItems .fixed items bits) :
      SpellsBlock last position items (last :: true :: false :: bits)
  | dynamic {lengths : WordLengths} {items : List Lz77.Item} {bits bits' : Bits}
      (spellsCodes : SpellsCodes lengths bits) (spells : SpellsItems lengths items bits') :
      SpellsBlock last position items (last :: false :: true :: (bits ++ bits'))

/-- The bits of blocks up to the last one, from a position on. -/
inductive SpellsBlocks : (position : Nat) → List Lz77.Item → Bits → Prop where
  | last {position : Nat} {items : List Lz77.Item} {bits : Bits}
      (spells : SpellsBlock true position items bits) : SpellsBlocks position items bits
  | more {position : Nat} {items items' : List Lz77.Item} {bits bits' : Bits}
      (spells : SpellsBlock false position items bits)
      (rest : SpellsBlocks (position + bits.length) items' bits') :
      SpellsBlocks position (items ++ items') (bits ++ bits')

/-- The bytes of a stream: blocks that end within the last byte. -/
inductive SpellsStream : List Lz77.Item → Bytes → Prop where
  | mk {items : List Lz77.Item} {bits filling : Bits} {stream : Bytes}
      (spells : SpellsBlocks 0 items bits) (filling_lt : filling.length < 8)
      (ofBytes_eq : Bits.ofBytes stream = bits ++ filling) : SpellsStream items stream

end Deflate
end HostKit
