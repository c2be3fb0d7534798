import HostKit.Text.Basic

/-!
# Network addresses

An IPv4 address is four decimal numbers below 256 without leading zeros, with dots between
them. An IPv6 address is eight groups of one to four hexadecimal digits with colons between
them; a double colon stands for one or more groups of zeros, and the last two groups may be
written as an IPv4 address.
-/

namespace HostKit

/-- An address of either kind. -/
inductive IpAddress where
  | v4 (a b c d : Nat)
  | v6 (groups : List Nat)
  deriving Repr, DecidableEq

namespace IpAddress

/-- What was read at the front of a text, and the text after it. -/
abbrev Reader (α : Type) := Text → Option (α × Text)

/-- The character, if the text starts with it. -/
def readChar (wanted : Char) : Text → Option Text
  | [] => none
  | c :: rest => if c = wanted then some rest else none

/-- Whether the character is a digit of the radix. -/
def isDigitOf (radix : Nat) (c : Char) : Bool :=
  match Text.digitValue? c with
  | some value => value < radix
  | none => false

/-- The number that digits of the radix stand for. -/
def numberOf (radix : Nat) (digits : Text) : Nat :=
  digits.foldl (fun n c => n * radix + (Text.digitValue? c).getD 0) 0

/-- A decimal number below 256: at most three digits, no leading zero. -/
def readOctet : Reader Nat := fun text =>
  let digits := text.takeWhile (isDigitOf 10)
  let leadingZero := digits.head? = some '0' ∧ 1 < digits.length
  let value := numberOf 10 digits
  if digits = [] ∨ 3 < digits.length ∨ leadingZero ∨ 255 < value then none
  else some (value, text.drop digits.length)

/-- A group of one to four hexadecimal digits. -/
def readGroup : Reader Nat := fun text =>
  let digits := text.takeWhile (isDigitOf 16)
  if digits = [] ∨ 4 < digits.length then none
  else some (numberOf 16 digits, text.drop digits.length)

/-- An IPv4 address. -/
def readV4 : Reader (Nat × Nat × Nat × Nat) := fun text => do
  let (a, text) ← readOctet text
  let text ← readChar '.' text
  let (b, text) ← readOctet text
  let text ← readChar '.' text
  let (c, text) ← readOctet text
  let text ← readChar '.' text
  let (d, text) ← readOctet text
  some ((a, b, c, d), text)

/-- What the reader finds after a colon, or at once if it is the first of its row. -/
def afterColon {α : Type} (first : Bool) (read : Reader α) : Reader α := fun text =>
  if first then read text else (readChar ':' text).bind read

/-- A row of at most `room` groups with colons between them, and whether it ends with an IPv4
address. -/
def readGroups (first : Bool) : (room : Nat) → Text → List Nat × Bool × Text
  | 0, text => ([], false, text)
  | room + 1, text =>
    match if room = 0 then none else afterColon first readV4 text with
    | some ((a, b, c, d), rest) => ([a * 256 + b, c * 256 + d], true, rest)
    | none =>
      match afterColon first readGroup text with
      | none => ([], false, text)
      | some (group, rest) =>
        let (groups, embedded, rest) := readGroups false room rest
        (group :: groups, embedded, rest)

/-- An IPv6 address. -/
def readV6 : Reader (List Nat) := fun text =>
  let (head, embedded, rest) := readGroups true 8 text
  if head.length = 8 then some (head, rest)
  else if embedded then none
  else do
    let rest ← readChar ':' rest
    let rest ← readChar ':' rest
    let (tail, _, rest) := readGroups true (7 - head.length) rest
    some (head ++ List.replicate (8 - head.length - tail.length) 0 ++ tail, rest)

/-- The address that a text is, if it is one from start to end. -/
def parse? (text : Text) : Option IpAddress :=
  match readV4 text with
  | some ((a, b, c, d), []) => some (v4 a b c d)
  | _ =>
    match readV6 text with
    | some (groups, []) => some (v6 groups)
    | _ => none

/-- Four numbers with dots between them. -/
def dotted (a b c d : Nat) : Text := Text.join ['.'] ([a, b, c, d].map Text.ofNat)

/-- How many groups at the front are zero. -/
def zeroRun (groups : List Nat) : Nat := (groups.takeWhile (· = 0)).length

/-- The start and the length of the longest run of zeros, the first of those. -/
def longestRun (groups : List Nat) : Nat × Nat :=
  ((List.range groups.length).map fun start => (start, zeroRun (groups.drop start))).foldl
    (fun best run => if best.2 < run.2 then run else best) (0, 0)

/-- Groups in hexadecimal with colons between them. -/
def colons (groups : List Nat) : Text := Text.join [':'] (groups.map (Nat.toDigits 16))

/-- The text of an address; the longest run of two or more zero groups is left out. -/
def render : IpAddress → Text
  | v4 a b c d => dotted a b c d
  | v6 [0, 0, 0, 0, 0, 0xffff, x, y] =>
    "::ffff:" ++ dotted (x / 256) (x % 256) (y / 256) (y % 256)
  | v6 groups =>
    let (start, length) := longestRun groups
    if 1 < length then colons (groups.take start) ++ "::" ++ colons (groups.drop (start + length))
    else colons groups

end IpAddress

/-- An address and a port. -/
structure SocketAddress where
  ip : IpAddress
  port : Nat
  deriving Repr, DecidableEq

/-- The text of a socket address; brackets keep the colons of an address and of the port
apart. -/
def SocketAddress.render (address : SocketAddress) : Text :=
  match address.ip with
  | .v4 .. => address.ip.render ++ ":" ++ Text.ofNat address.port
  | .v6 _ => "[" ++ address.ip.render ++ "]:" ++ Text.ofNat address.port

end HostKit
