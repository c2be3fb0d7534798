import HostKit.Failure

/-!
# Base64

Three bytes are written as four symbols of the standard alphabet. A last group of one or two
bytes takes two or three symbols; with padding it is filled up to four by equality signs.
Reading accepts exactly what writing produces: groups but the last hold four symbols, bits
that a last group leaves over are zero, and the padding is as agreed.
-/

namespace HostKit.Base64

/-- Whether a short last group is filled up with equality signs. -/
inductive Padding where
  | required | absent
  deriving Repr, DecidableEq

/-- Why a text could not be read. -/
inductive Error where
  /-- A byte that is no symbol, or padding in the wrong place. -/
  | invalidSymbol (offset : Nat) (byte : UInt8)
  /-- A last group of a single symbol. -/
  | invalidLength (length : Nat)
  /-- The last symbol has bits that belong to no byte. -/
  | invalidLastSymbol (offset : Nat) (byte : UInt8)
  /-- Padding is missing, or there is some where none was agreed. -/
  | invalidPadding
  deriving Repr, DecidableEq

/-- The wording of an error. -/
def Error.message : Error → Text
  | .invalidSymbol offset byte =>
    "Invalid symbol " ++ Text.ofNat byte.toNat ++ ", offset " ++ Text.ofNat offset ++ "."
  | .invalidLength length => "Invalid input length: " ++ Text.ofNat length
  | .invalidLastSymbol offset byte =>
    "Invalid last symbol " ++ Text.ofNat byte.toNat ++ ", offset " ++ Text.ofNat offset ++ "."
  | .invalidPadding => "Invalid padding"

/-- The symbol of a value below sixty-four, as a byte. -/
def symbol (value : Nat) : UInt8 :=
  if value < 26 then (value + 65).toUInt8
  else if value < 52 then (value + 71).toUInt8
  else if value < 62 then (value - 4).toUInt8
  else if value = 62 then 43
  else 47

/-- The value of a symbol. -/
def value? (byte : UInt8) : Option Nat :=
  let n := byte.toNat
  if 65 ≤ n ∧ n ≤ 90 then some (n - 65)
  else if 97 ≤ n ∧ n ≤ 122 then some (n - 71)
  else if 48 ≤ n ∧ n ≤ 57 then some (n + 4)
  else if n = 43 then some 62
  else if n = 47 then some 63
  else none

/-- The equality sign. -/
def pad : UInt8 := 61

/-- The equality signs of a last group that lacks this many symbols. -/
def Padding.fill (padding : Padding) (missing : Nat) : Bytes :=
  match padding with
  | .required => List.replicate missing pad
  | .absent => []

/-- The symbols of the data. -/
def encode (padding : Padding) : Bytes → Bytes
  | [] => []
  | [a] => symbol (a.toNat / 4) :: symbol (a.toNat % 4 * 16) :: padding.fill 2
  | [a, b] =>
    symbol (a.toNat / 4) :: symbol (a.toNat % 4 * 16 + b.toNat / 16) ::
      symbol (b.toNat % 16 * 4) :: padding.fill 1
  | a :: b :: c :: rest =>
    symbol (a.toNat / 4) :: symbol (a.toNat % 4 * 16 + b.toNat / 16) ::
      symbol (b.toNat % 16 * 4 + c.toNat / 64) :: symbol (c.toNat % 64) :: encode padding rest

/-- The value of the symbol at an offset. -/
def valueAt (offset : Nat) (byte : UInt8) : Except Error Nat :=
  match value? byte with
  | some value => .ok value
  | none => .error (.invalidSymbol offset byte)

/-- The bytes of a full group. -/
def groupBytes (w x y z : Nat) : Bytes :=
  [(w * 4 + x / 16).toUInt8, (x % 16 * 16 + y / 4).toUInt8, (y % 4 * 64 + z).toUInt8]

/-- The symbols of the last group before its padding, their number of equality signs after,
and the first thing wrong with their order. -/
structure LastGroup where
  symbols : List (UInt8 × Nat)
  padding : Nat
  firstPad : Nat

/-- Read the last group symbol by symbol; `start` is its offset and `index` counts within it. -/
def scanLast (start index : Nat) (seen : LastGroup) : Bytes → Except Error LastGroup
  | [] => .ok seen
  | byte :: rest =>
    if byte = pad then
      if index < 2 then .error (.invalidSymbol (start + index) byte)
      else
        let firstPad := if seen.padding = 0 then index else seen.firstPad
        scanLast start (index + 1)
          { seen with padding := seen.padding + 1, firstPad := firstPad } rest
    else if 0 < seen.padding then .error (.invalidSymbol (start + seen.firstPad) pad)
    else
      match value? byte with
      | none => .error (.invalidSymbol (start + index) byte)
      | some value =>
        scanLast start (index + 1) { seen with symbols := seen.symbols ++ [(byte, value)] } rest

/-- Whether a last group of so many symbols and equality signs has the padding agreed on. -/
def Padding.allows (padding : Padding) (symbols pads : Nat) : Bool :=
  match padding with
  | .required => (symbols + pads) % 4 = 0
  | .absent => pads = 0

/-- The bytes of the symbols of a last group, whose offset is `start`. -/
def lastBytes (start : Nat) : List (UInt8 × Nat) → Except Error Bytes
  | [(_, w), (last, x)] =>
    if x % 16 = 0 then .ok [(w * 4 + x / 16).toUInt8]
    else .error (.invalidLastSymbol (start + 1) last)
  | [(_, w), (_, x), (last, y)] =>
    if y % 4 = 0 then .ok [(w * 4 + x / 16).toUInt8, (x % 16 * 16 + y / 4).toUInt8]
    else .error (.invalidLastSymbol (start + 2) last)
  | [(_, w), (_, x), (_, y), (_, z)] => .ok (groupBytes w x y z)
  | symbols => .error (.invalidLength (start + symbols.length))

/-- The bytes of the last group, of at most four symbols. -/
def decodeLast (padding : Padding) (start : Nat) (group : Bytes) : Except Error Bytes := do
  let seen ← scanLast start 0 ⟨[], 0, 0⟩ group
  if seen.symbols.length < 2 then .error (.invalidLength (start + seen.symbols.length))
  else if padding.allows seen.symbols.length seen.padding then lastBytes start seen.symbols
  else .error .invalidPadding

/-- The bytes of groups of four symbols and a last group. -/
def decodeGroups (padding : Padding) (start : Nat) : Bytes → Except Error Bytes
  | a :: b :: c :: d :: e :: rest => do
    let w ← valueAt start a
    let x ← valueAt (start + 1) b
    let y ← valueAt (start + 2) c
    let z ← valueAt (start + 3) d
    let later ← decodeGroups padding (start + 4) (e :: rest)
    .ok (groupBytes w x y z ++ later)
  | group => decodeLast padding start group

/-- The data that the symbols stand for. A single symbol too many is reported before anything
else if it is no symbol at all, such as a line feed. -/
def decode (padding : Padding) (symbols : Bytes) : Except Error Bytes :=
  match symbols with
  | [] => .ok []
  | _ :: _ =>
    let last := symbols.getLastD 0
    if symbols.length % 4 = 1 ∧ last ≠ pad ∧ value? last = none then
      .error (.invalidSymbol (symbols.length - 1) last)
    else decodeGroups padding 0 symbols

end HostKit.Base64
