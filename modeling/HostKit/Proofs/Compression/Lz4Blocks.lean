import HostKit.Compression.Basic
import HostKit.Proofs.Compression.Expansion
import Mathlib.Algebra.Group.Nat.Defs

/-!
# LZ4 blocks are read back

Each part of a sequence is read as what was written: both lengths, whether or not they fit into
half a token, the bytes as they are and the distance. While the sequences are read, the output is
the data up to where the writer was, so every copy finds its bytes, and the size in front is never
exceeded. The last sequence has no copy and ends the block, also where there is no data at all.
-/

namespace HostKit

namespace Lz4

variable {data out : Array UInt8} {capacity : Nat}

/-! ## Lengths and distances -/

/-- Further bytes of a length are read as what they add. -/
theorem readExtra_extraBytes (n : Nat) (rest : Bytes) :
    readExtra (extraBytes n ++ rest) = .ok (n, rest) := by
  induction n using extraBytes.induct with
  | case1 n hlt =>
    have hbyte : n.toUInt8.toNat = n := UInt8.toNat_ofNat_of_lt' (show n < 256 by omega)
    have hne : n.toUInt8 ≠ 255 := by
      intro heq
      rw [heq] at hbyte
      change 255 = n at hbyte
      omega
    rw [extraBytes, if_pos hlt, List.singleton_append, readExtra, if_neg hne, hbyte]
  | case2 n hge ih =>
    rw [extraBytes, if_neg hge, List.cons_append, readExtra, if_pos rfl, ih]
    simp only [Except.map, Except.ok.injEq, Prod.mk.injEq, and_true]
    omega

/-- A length is read from its half of the token and its further bytes. -/
theorem readLength_lengthBytes (n : Nat) (rest : Bytes) :
    readLength (half n) (lengthBytes n ++ rest) = .ok (n, rest) := by
  by_cases hlt : n < 15
  · have hhalf : half n = n := Nat.min_eq_left (by omega)
    rw [lengthBytes, if_pos hlt, readLength, hhalf, if_neg (by omega), List.nil_append]
  · have hhalf : half n = 15 := Nat.min_eq_right (by omega)
    rw [lengthBytes, if_neg hlt, readLength, hhalf, if_pos rfl, readExtra_extraBytes]
    simp only [Except.map, Except.ok.injEq, Prod.mk.injEq, and_true]
    omega

/-- The two halves of a token are those it was made of. -/
theorem token_halves (n m : Nat) :
    (half n * 16 + half m).toUInt8.toNat / 16 = half n ∧
      (half n * 16 + half m).toUInt8.toNat % 16 = half m := by
  have hn : half n ≤ 15 := Nat.min_le_right n 15
  have hm : half m ≤ 15 := Nat.min_le_right m 15
  have htoken : (half n * 16 + half m).toUInt8.toNat = half n * 16 + half m :=
    UInt8.toNat_ofNat_of_lt' (show half n * 16 + half m < 256 by omega)
  rw [htoken]
  omega

/-- Bytes in front are split off. -/
theorem splitExactly?_append (literals rest : Bytes) :
    splitExactly? literals.length (literals ++ rest) = some (literals, rest) := by
  induction literals with
  | nil => rfl
  | cons b literals ih => simp [splitExactly?, ih]

/-- A distance is read from its two bytes. -/
theorem readDistance_bytes {distance : Nat} (hpos : 0 < distance) (hle : distance ≤ 65535)
    (rest : Bytes) :
    readDistance (distance.toUInt8 :: (distance / 256).toUInt8 :: rest) =
      .ok (distance, rest) := by
  have hlow : distance.toUInt8.toNat = distance % 256 := UInt8.toNat_ofNat'
  have hhigh : (distance / 256).toUInt8.toNat = distance / 256 :=
    UInt8.toNat_ofNat_of_lt' (show distance / 256 < 256 by omega)
  have hvalue : distance % 256 + 256 * (distance / 256) = distance := Nat.mod_add_div distance 256
  rw [readDistance, hlow, hhigh, hvalue, if_neg (by omega)]

/-- The four bytes of a size below `2 ^ 32` are its value. -/
theorem littleEndian_sizeBytes {n : Nat} (h : n < 2 ^ 32) :
    littleEndian n.toUInt8 (n / 256).toUInt8 (n / 65536).toUInt8 (n / 16777216).toUInt8 = n := by
  have hbyte (m : Nat) : m.toUInt8.toNat = m % 256 := UInt8.toNat_ofNat'
  rw [littleEndian, hbyte, hbyte, hbyte, hbyte]
  omega

/-! ## Sequences -/

/-- The copy at the end of a sequence is carried out where there is room for it. -/
theorem readCopy_of_le {distance length : Nat} (hallowed : limits.Allows distance length)
    (hdistance : distance ≤ out.size) (hroom : out.size + length ≤ capacity) (rest : Bytes) :
    readCopy capacity (half (length - minCopy)) out
        ([distance.toUInt8, (distance / 256).toUInt8] ++ (lengthBytes (length - minCopy) ++ rest)) =
      .ok ⟨Lz77.copyBack distance length out, some rest⟩ := by
  have hlength : length - minCopy + minCopy = length := Nat.sub_add_cancel hallowed.length_ge
  rw [readCopy, List.cons_append, List.singleton_append,
    readDistance_bytes hallowed.distance_pos hallowed.distance_le, Success.bind_ok]
  dsimp only
  rw [readLength_lengthBytes, Success.bind_ok]
  dsimp only
  rw [hlength, if_neg (by omega), if_neg (by omega)]

/-- After its token, a sequence is read up to its literals. -/
theorem readSequence_literals {token : UInt8} {literals : Bytes}
    (htoken : token.toNat / 16 = half literals.length)
    (hroom : out.size + literals.length ≤ capacity) (rest : Bytes) :
    readSequence capacity token out (lengthBytes literals.length ++ literals ++ rest) =
      match rest with
      | [] => .ok ⟨out ++ literals.toArray, none⟩
      | _ :: _ => readCopy capacity (token.toNat % 16) (out ++ literals.toArray) rest := by
  rw [readSequence, htoken, List.append_assoc, readLength_lengthBytes, Success.bind_ok]
  dsimp only
  rw [splitExactly?_append]
  have hfits : ¬capacity < out.size + literals.length := Nat.not_lt_of_le hroom
  cases rest with
  | nil => exact if_neg hfits
  | cons => exact if_neg hfits

/-- A sequence with input left is followed by the others. -/
theorem decodeBlock_of_some {token : UInt8} {input rest : Bytes} {out' : Array UInt8}
    (h : readSequence capacity token out input = .ok ⟨out', some rest⟩) :
    decodeBlock capacity out (token :: input) = decodeBlock capacity out' rest := by
  rw [decodeBlock]
  split
  · next e heq => cases heq.symm.trans h
  · next progress heq =>
    obtain rfl := Except.ok.inj (heq.symm.trans h)
    rfl

/-- A sequence with no input left is the last one. -/
theorem decodeBlock_of_none {token : UInt8} {input : Bytes} {out' : Array UInt8}
    (h : readSequence capacity token out input = .ok ⟨out', none⟩) :
    decodeBlock capacity out (token :: input) = .ok out' := by
  rw [decodeBlock]
  split
  · next e heq => cases heq.symm.trans h
  · next progress heq =>
    obtain rfl := Except.ok.inj (heq.symm.trans h)
    rfl

/-- The last sequence adds its literals. -/
theorem decodeBlock_lastBytes {literals : Bytes} (hroom : out.size + literals.length ≤ capacity) :
    decodeBlock capacity out (lastBytes literals) = .ok (out ++ literals.toArray) := by
  have htoken := (token_halves literals.length 0).1
  have hsequence := readSequence_literals htoken hroom []
  rw [List.append_nil] at hsequence
  exact decodeBlock_of_none hsequence

/-- A sequence with a copy adds its literals and its copy. -/
theorem decodeBlock_sequenceBytes {literals : Bytes} {distance length : Nat}
    (hallowed : limits.Allows distance length) (hdistance : distance ≤ out.size + literals.length)
    (hroom : out.size + literals.length + length ≤ capacity) (rest : Bytes) :
    decodeBlock capacity out (sequenceBytes literals distance length ++ rest) =
      decodeBlock capacity (Lz77.copyBack distance length (out ++ literals.toArray)) rest := by
  obtain ⟨htoken, hcopy⟩ := token_halves literals.length (length - minCopy)
  have hsize : (out ++ literals.toArray).size = out.size + literals.length := by simp
  have hliterals : out.size + literals.length ≤ capacity := by omega
  have hsequence := readSequence_literals htoken hliterals
    ([distance.toUInt8, (distance / 256).toUInt8] ++ (lengthBytes (length - minCopy) ++ rest))
  rw [hcopy] at hsequence
  have hread := hsequence.trans
    (readCopy_of_le hallowed (by omega) (by omega) rest)
  rw [← decodeBlock_of_some hread]
  simp [sequenceBytes]

/-! ## Blocks -/

/-- The block of items that describe the data is read as the data, where the bytes that are pending
come next after the output. -/
theorem decodeBlock_encodeItems {position : Nat} {items : List Lz77.Item} {pending : Bytes}
    (h : Lz77.Describes limits data position items)
    (hout : Lz77.Reaches data (out ++ pending.reverse.toArray) position) :
    decodeBlock data.size out (encodeItems pending items) = .ok data := by
  -- A literal only moves from the items to the pending bytes; the output grows at the next copy.
  induction h generalizing out pending with
  | done =>
    have hsize : out.size + pending.reverse.length = data.size := by simpa using hout.size
    rw [encodeItems, decodeBlock_lastBytes (by omega), hout.eq]
  | literal hlt _ ih =>
    rw [encodeItems]
    apply ih
    simpa using hout.push hlt
  | @copy position distance length items hallowed hdistance hend hrepeats _ ih =>
    have hsize : out.size + pending.reverse.length = position := by simpa using hout.size
    rw [encodeItems, decodeBlock_sequenceBytes hallowed (by omega) (by omega)]
    apply ih
    simpa using hout.copied hallowed.distance_pos hdistance hend hrepeats

/-- Encoded data is read as the data, within its size. -/
theorem decodeBlock_encode (data : Bytes) :
    decodeBlock data.length #[] (encode data) = .ok data.toArray := by
  have hout : Lz77.Reaches data.toArray (#[] ++ ([] : Bytes).reverse.toArray) 0 :=
    Lz77.reaches_empty _
  exact decodeBlock_encodeItems (Lz77.describes_items limits data) hout

end Lz4
end HostKit
