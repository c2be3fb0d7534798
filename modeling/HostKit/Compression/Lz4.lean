import HostKit.Compression.Lz77
import HostKit.Failure
import HostKit.Success

/-!
# LZ4 blocks

A block is a row of sequences: some bytes as they are, then a copy from a distance back. The
last sequence ends after its bytes. A length that does not fit into its half of the token
goes on in further bytes, each of them added, up to the first below 255. The compressed data
starts with the size of the data, as four bytes with the least significant first; it bounds
what a block may produce.
-/

namespace HostKit.Lz4

/-- Why a block could not be read. -/
inductive Error where
  /-- The block ends in the middle of a sequence. -/
  | truncated
  /-- More bytes are announced than the block holds. -/
  | literalOutOfBounds
  /-- A copy from no distance at all. -/
  | zeroDistance
  /-- A copy from before the start of the data. -/
  | distanceOutOfBounds
  /-- The block produces more than the announced size. -/
  | outputTooSmall (actual expected : Nat)
  deriving Repr, DecidableEq

/-- The wording of an error. -/
def Error.message : Error → Text
  | .truncated => "expected another byte, found none"
  | .literalOutOfBounds => "literal is out of bounds of the input"
  | .zeroDistance => "0 is not a valid match offset"
  | .distanceOutOfBounds => "the offset to copy is not contained in the decompressed buffer"
  | .outputTooSmall actual expected =>
    "provided output is too small for the decompressed data, actual " ++ Text.ofNat actual
      ++ ", expected " ++ Text.ofNat expected

/-- A copy has at least this length. -/
def minCopy : Nat := 4

/-- The further bytes of a length: the sum of their values, and what comes after them. -/
def readExtra : Bytes → Except Error (Nat × Bytes)
  | [] => .error .truncated
  | b :: rest =>
    if b = 255 then (readExtra rest).map fun (n, later) => (n + 255, later)
    else .ok (b.toNat, rest)

/-- The length that starts with half a token. -/
def readLength (half : Nat) (input : Bytes) : Except Error (Nat × Bytes) :=
  if half = 15 then (readExtra input).map fun (n, later) => (n + 15, later) else .ok (half, input)

/-- The first so many bytes and the others, if there are as many. -/
def splitExactly? : Nat → Bytes → Option (Bytes × Bytes)
  | 0, input => some ([], input)
  | _ + 1, [] => none
  | n + 1, b :: input => (splitExactly? n input).map fun (taken, rest) => (b :: taken, rest)

/-- The distance of a copy, and what comes after it. -/
def readDistance : Bytes → Except Error (Nat × Bytes)
  | low :: high :: rest =>
    let distance := low.toNat + 256 * high.toNat
    if distance = 0 then .error .zeroDistance else .ok (distance, rest)
  | _ => .error .truncated

/-- One sequence as it is read: the output with its bytes and its copy, and the input after it;
no input is left after the last sequence. -/
structure Progress where
  out : Array UInt8
  rest : Option Bytes

/-- The copy at the end of a sequence, whose length starts with half a token. -/
def readCopy (capacity half : Nat) (out : Array UInt8) (input : Bytes) :
    Except Error Progress := do
  let (distance, input) ← readDistance input
  let (extra, input) ← readLength half input
  let length := extra + minCopy
  if capacity < out.size + length then .error (.outputTooSmall capacity (out.size + length))
  else if out.size < distance then .error .distanceOutOfBounds
  else .ok ⟨Lz77.copyBack distance length out, some input⟩

/-- One sequence of the block, after its token. -/
def readSequence (capacity : Nat) (token : UInt8) (out : Array UInt8) (input : Bytes) :
    Except Error Progress := do
  let (count, input) ← readLength (token.toNat / 16) input
  match splitExactly? count input with
  | none => .error .literalOutOfBounds
  | some (literals, input) =>
    if capacity < out.size + count then .error (.outputTooSmall capacity (out.size + count))
    else
      let out := out ++ literals.toArray
      match input with
      | [] => .ok ⟨out, none⟩
      | _ :: _ => readCopy capacity (token.toNat % 16) out input

/-- Further bytes of a length leave less input behind. -/
theorem readExtra_rest_le {input : Bytes} {n : Nat} {rest : Bytes}
    (h : readExtra input = .ok (n, rest)) : rest.length ≤ input.length := by
  induction input generalizing n rest with
  | nil => simp [readExtra] at h
  | cons b input ih =>
    unfold readExtra at h
    split at h
    · obtain ⟨⟨more, later⟩, hr, h⟩ := Success.of_map h
      cases h
      exact Nat.le_trans (ih hr) (by simp)
    · cases h
      simp

/-- Reading a length leaves no more input behind than there was. -/
theorem readLength_rest_le {half : Nat} {input : Bytes} {n : Nat} {rest : Bytes}
    (h : readLength half input = .ok (n, rest)) : rest.length ≤ input.length := by
  unfold readLength at h
  split at h
  · obtain ⟨⟨more, later⟩, hr, h⟩ := Success.of_map h
    cases h
    exact readExtra_rest_le hr
  · cases h
    exact Nat.le_refl _

/-- Splitting leaves no more input behind than there was. -/
theorem splitExactly?_rest_le {n : Nat} {input taken rest : Bytes}
    (h : splitExactly? n input = some (taken, rest)) : rest.length ≤ input.length := by
  induction n generalizing input taken rest with
  | zero => simp [splitExactly?] at h; simp [h]
  | succ n ih =>
    cases input with
    | nil => simp [splitExactly?] at h
    | cons b input =>
      simp only [splitExactly?, Option.map_eq_some_iff, Prod.mk.injEq] at h
      obtain ⟨⟨t, r⟩, hr, -, rfl⟩ := h
      have := ih hr
      simp only [List.length_cons]; omega

/-- Reading a distance leaves less input behind. -/
theorem readDistance_rest_le {input : Bytes} {n : Nat} {rest : Bytes}
    (h : readDistance input = .ok (n, rest)) : rest.length ≤ input.length := by
  unfold readDistance at h
  split at h
  · dsimp only at h
    split at h
    · simp at h
    · simp only [Except.ok.injEq, Prod.mk.injEq] at h
      obtain ⟨-, rfl⟩ := h
      simp only [List.length_cons]; omega
  · simp at h

/-- A copy leaves no more input behind than there was. -/
theorem readCopy_rest_le {capacity half : Nat} {out : Array UInt8} {input : Bytes}
    {progress : Progress} {rest : Bytes} (h : readCopy capacity half out input = .ok progress)
    (hrest : progress.rest = some rest) : rest.length ≤ input.length := by
  unfold readCopy at h
  obtain ⟨⟨distance, afterDistance⟩, hd, h⟩ := Success.of_bind h
  obtain ⟨⟨extra, afterLength⟩, hl, h⟩ := Success.of_bind h
  dsimp only at h
  split at h
  · simp at h
  · split at h
    · simp at h
    · cases h
      cases hrest
      exact Nat.le_trans (readLength_rest_le hl) (readDistance_rest_le hd)

/-- A sequence leaves no more input behind than there was after its token. -/
theorem readSequence_rest_le {capacity : Nat} {token : UInt8} {out : Array UInt8}
    {input : Bytes} {progress : Progress} {rest : Bytes}
    (h : readSequence capacity token out input = .ok progress)
    (hrest : progress.rest = some rest) : rest.length ≤ input.length := by
  unfold readSequence at h
  obtain ⟨⟨count, afterLength⟩, hl, h⟩ := Success.of_bind h
  have := readLength_rest_le hl
  dsimp only at h
  split at h
  · simp at h
  · rename_i literals afterLiterals hs
    have := splitExactly?_rest_le hs
    split at h
    · simp at h
    · split at h
      · cases h
        simp at hrest
      · have := readCopy_rest_le h hrest
        omega

/-- The output of the sequences of a block, after what has been produced before. -/
def decodeBlock (capacity : Nat) (out : Array UInt8) : Bytes → Except Error (Array UInt8)
  | [] => .error .truncated
  | token :: input =>
    match h : readSequence capacity token out input with
    | .error e => .error e
    | .ok progress =>
      match hrest : progress.rest with
      | none => .ok progress.out
      | some rest =>
        have : rest.length ≤ input.length := readSequence_rest_le h hrest
        decodeBlock capacity progress.out rest
  termination_by input => input.length

/-- Four bytes as a number, the least significant first. -/
def littleEndian (a b c d : UInt8) : Nat :=
  a.toNat + 256 * (b.toNat + 256 * (c.toNat + 256 * d.toNat))

/-- The four bytes of a number, the least significant first. -/
def sizeBytes (n : Nat) : Bytes :=
  [n.toUInt8, (n / 256).toUInt8, (n / 65536).toUInt8, (n / 16777216).toUInt8]

/-- The data that compressed data stands for. -/
def decode : Bytes → Except Error Bytes
  | a :: b :: c :: d :: block =>
    (decodeBlock (littleEndian a b c d) #[] block).map Array.toList
  | _ => .error .truncated

/-- The further bytes of a length. -/
def extraBytes (n : Nat) : Bytes :=
  if n < 255 then [n.toUInt8] else 255 :: extraBytes (n - 255)
  termination_by n

/-- Half a token for a length. -/
def half (n : Nat) : Nat := min n 15

/-- The bytes of a length that do not fit into half a token. -/
def lengthBytes (n : Nat) : Bytes := if n < 15 then [] else extraBytes (n - 15)

/-- A sequence that ends with a copy. -/
def sequenceBytes (literals : Bytes) (distance length : Nat) : Bytes :=
  (half literals.length * 16 + half (length - minCopy)).toUInt8 ::
    (lengthBytes literals.length ++ literals ++ [distance.toUInt8, (distance / 256).toUInt8]
      ++ lengthBytes (length - minCopy))

/-- The last sequence, which ends after its bytes. -/
def lastBytes (literals : Bytes) : Bytes :=
  (half literals.length * 16).toUInt8 :: (lengthBytes literals.length ++ literals)

/-- The block of the items; `pending` are the bytes since the last copy, latest first. -/
def encodeItems (pending : Bytes) : List Lz77.Item → Bytes
  | [] => lastBytes pending.reverse
  | .literal byte :: items => encodeItems (byte :: pending) items
  | .copy distance length :: items =>
    sequenceBytes pending.reverse distance length ++ encodeItems [] items

/-- The copies a block may hold. Its last twelve bytes are always written as they are. -/
def limits : Lz77.Limits := ⟨minCopy, 4096, 65535, 12⟩

/-- A block of the data. -/
def encode (data : Bytes) : Bytes := encodeItems [] (Lz77.items limits data)

end HostKit.Lz4
