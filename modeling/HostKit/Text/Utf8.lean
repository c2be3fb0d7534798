import HostKit.Text.Basic

/-!
# UTF-8

Reading proceeds one sequence at a time. The first byte says how many bytes follow and which
values the second one may take, which rules out overlong forms, surrogates and code points
that are too large; every later byte is a plain continuation byte. A sequence that breaks off
is either followed by a byte that does not fit, and then the bytes before it are the invalid
part, or by the end of the data, and then it is incomplete. Lossy reading writes one
replacement character for each invalid part.
-/

namespace HostKit.Utf8

/-- The bytes of a text. -/
def encode (t : Text) : Bytes := t.flatMap String.utf8EncodeChar

/-- What is wrong with data that is not UTF-8, and the index where it starts. -/
inductive Error where
  | invalid (length index : Nat)
  | incomplete (index : Nat)
  deriving Repr, DecidableEq

/-- The wording of a decoding error. -/
def Error.message : Error → Text
  | .invalid length index =>
    "invalid utf-8 sequence of " ++ Text.ofNat length ++ " bytes from index " ++ Text.ofNat index
  | .incomplete index => "incomplete utf-8 byte sequence from index " ++ Text.ofNat index

/-- The bits of the first byte that belong to the code point, and the ranges of the bytes that
must follow it, or nothing for a byte that starts no sequence. -/
def leadByte (b : UInt8) : Option (Nat × List (Nat × Nat)) :=
  let n := b.toNat
  let plain := (0x80, 0xbf)
  if n < 0x80 then some (n, [])
  else if n < 0xc2 then none
  else if n < 0xe0 then some (n - 0xc0, [plain])
  else if n = 0xe0 then some (0, [(0xa0, 0xbf), plain])
  else if n = 0xed then some (0xd, [(0x80, 0x9f), plain])
  else if n < 0xf0 then some (n - 0xe0, [plain, plain])
  else if n = 0xf0 then some (0, [(0x90, 0xbf), plain, plain])
  else if n < 0xf4 then some (n - 0xf0, [plain, plain, plain])
  else if n = 0xf4 then some (4, [(0x80, 0x8f), plain, plain])
  else none

/-- What one sequence at the start of the data turns out to be. -/
inductive Sequence where
  /-- A character, and the data after it. -/
  | char (c : Char) (rest : Bytes)
  /-- An invalid part of this many bytes, and the data after it. -/
  | invalid (length : Nat) (rest : Bytes)
  /-- The data ends inside the sequence. -/
  | incomplete

/-- The data after what the sequence takes. -/
def Sequence.rest : Sequence → Bytes
  | .char _ rest | .invalid _ rest => rest
  | .incomplete => []

/-- The rest of a sequence: `taken` bytes of it are read, and their bits are `value`. -/
def continuation (taken value : Nat) : List (Nat × Nat) → Bytes → Sequence
  | [], rest => .char (Char.ofNat value) rest
  | _ :: _, [] => .incomplete
  | (low, high) :: ranges, b :: rest =>
    if low ≤ b.toNat ∧ b.toNat ≤ high then
      continuation (taken + 1) (value * 64 + (b.toNat - 0x80)) ranges rest
    else .invalid taken (b :: rest)

/-- The sequence that starts with the given byte. -/
def sequence (b : UInt8) (rest : Bytes) : Sequence :=
  match leadByte b with
  | none => .invalid 1 rest
  | some (value, ranges) => continuation 1 value ranges rest

/-- A sequence inside leaves no more data than there was. -/
theorem continuation_rest_le (taken value : Nat) (ranges : List (Nat × Nat)) (data : Bytes) :
    (continuation taken value ranges data).rest.length ≤ data.length := by
  fun_induction continuation taken value ranges data with
  | case1 => simp [Sequence.rest]
  | case2 => simp [Sequence.rest]
  | case3 _ _ _ _ _ _ _ _ ih => simp only [List.length_cons]; omega
  | case4 => simp [Sequence.rest]

/-- A sequence takes at least its first byte. -/
theorem sequence_rest_le (b : UInt8) (data : Bytes) :
    (sequence b data).rest.length ≤ data.length := by
  cases h : leadByte b with
  | none => simp [sequence, h, Sequence.rest]
  | some lead => simpa [sequence, h] using continuation_rest_le 1 lead.1 lead.2 data

/-- The text of the data, if all of it is UTF-8; `index` bytes came before. -/
def decodeFrom (index : Nat) : Bytes → Except Error Text
  | [] => .ok []
  | b :: data =>
    match h : sequence b data with
    | .char c rest =>
      have : rest.length ≤ data.length := by
        simpa [h, Sequence.rest] using sequence_rest_le b data
      (decodeFrom (index + (data.length + 1 - rest.length)) rest).map (c :: ·)
    | .invalid length _ => .error (.invalid length index)
    | .incomplete => .error (.incomplete index)
  termination_by data => data.length

/-- The text of the data, if all of it is UTF-8. -/
def decode (data : Bytes) : Except Error Text := decodeFrom 0 data

/-- The text of the data, with a replacement character for each part that is not UTF-8. -/
def decodeLossy : Bytes → Text
  | [] => []
  | b :: data =>
    match h : sequence b data with
    | .char c rest =>
      have : rest.length ≤ data.length := by simpa [h, Sequence.rest] using sequence_rest_le b data
      c :: decodeLossy rest
    | .invalid _ rest =>
      have : rest.length ≤ data.length := by simpa [h, Sequence.rest] using sequence_rest_le b data
      '\ufffd' :: decodeLossy rest
    | .incomplete => ['\ufffd']
  termination_by data => data.length

end HostKit.Utf8
