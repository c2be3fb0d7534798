import HostKit.Proofs.Compression.Lz4Blocks
import Mathlib.Algebra.GroupWithZero.Nat

/-!
# What an LZ4 block is taken for

A block is a row of sequences and some last bytes, and the reader takes exactly the blocks whose
copies stay within what has been produced. How long the data is follows from the lengths in the
block; the size in front is no more than a bound for it. Since any sequence may be the last one,
a block that is cut off where the bytes of a sequence end, in front of its copy, is a block of
shorter data; cut off anywhere else it is none.
-/

namespace HostKit

namespace Lz4

variable {out : Array UInt8} {capacity : Nat}

/-! ## Blocks -/

/-- A sequence with its copy. -/
structure Sequence where
  literals : Bytes
  distance : Nat
  length : Nat
  deriving Repr, DecidableEq

/-- The token for so many bytes and half a token for a copy, and these bytes. -/
def head (literals : Bytes) (low : Nat) : Bytes :=
  (half literals.length * 16 + low).toUInt8 :: (lengthBytes literals.length ++ literals)

namespace Sequence

/-- Half a token for the copy. -/
def low (s : Sequence) : Nat := half (s.length - minCopy)

/-- It is half a token. -/
theorem low_lt (s : Sequence) : s.low < 16 := Nat.lt_succ_of_le (Nat.min_le_right _ 15)

/-- The distance and the rest of the length. -/
def tail (s : Sequence) : Bytes :=
  [s.distance.toUInt8, (s.distance / 256).toUInt8] ++ lengthBytes (s.length - minCopy)

/-- The bytes of the sequence. -/
def bytes (s : Sequence) : Bytes := head s.literals s.low ++ s.tail

/-- The output with the sequence carried out. -/
def produce (out : Array UInt8) (s : Sequence) : Array UInt8 :=
  Lz77.copyBack s.distance s.length (out ++ s.literals.toArray)

/-- A sequence that can be written down and whose copy stays within what is produced before it. -/
structure Fits (out : Array UInt8) (s : Sequence) : Prop where
  distance_pos : 0 < s.distance
  distance_le : s.distance ≤ 65535
  length_ge : minCopy ≤ s.length
  within : s.distance ≤ out.size + s.literals.length

end Sequence

/-- Sequences with copies, and a last one that ends after its bytes and leaves half of its token
unused. -/
structure Block where
  sequences : List Sequence
  last : Bytes
  unused : Fin 16
  deriving Repr, DecidableEq

namespace Block

/-- The bytes of the block. -/
def bytes (block : Block) : Bytes :=
  block.sequences.flatMap Sequence.bytes ++ head block.last block.unused

/-- The output with the block carried out. -/
def produce (out : Array UInt8) (block : Block) : Array UInt8 :=
  block.sequences.foldl Sequence.produce out ++ block.last.toArray

/-- The data of the block. -/
def data (block : Block) : Bytes := (block.produce #[]).toList

/-- What the lengths in the block add up to. -/
def size (block : Block) : Nat :=
  (block.sequences.map fun s => s.literals.length + s.length).sum + block.last.length

/-- The block that ends in front of the copy of a sequence. -/
def endingIn (before : List Sequence) (s : Sequence) : Block :=
  ⟨before, s.literals, ⟨s.low, s.low_lt⟩⟩

end Block

/-- Each sequence fits after what the sequences before it produce. -/
def InReach (out : Array UInt8) : List Sequence → Prop
  | [] => True
  | s :: rest => s.Fits out ∧ InReach (s.produce out) rest

/-- The bytes of a block that starts with a sequence. -/
theorem Block.bytes_cons (s : Sequence) (rest : List Sequence) (last : Bytes) (unused : Fin 16) :
    Block.bytes ⟨s :: rest, last, unused⟩ = s.bytes ++ Block.bytes ⟨rest, last, unused⟩ := by
  rw [Block.bytes, List.flatMap_cons, List.append_assoc]
  rfl

/-- The bytes of a block without copies. -/
theorem Block.bytes_nil (last : Bytes) (unused : Fin 16) :
    Block.bytes ⟨[], last, unused⟩ = head last unused := rfl

/-! ## Sizes -/

/-- A sequence adds its bytes and its copy. -/
theorem Sequence.size_produce (s : Sequence) (out : Array UInt8) :
    (s.produce out).size = out.size + s.literals.length + s.length := by
  rw [produce, Lz77.size_copyBack]
  simp only [Array.size_append, List.size_toArray]

/-- Sequences add what their lengths add up to. -/
theorem size_foldl_produce (sequences : List Sequence) (out : Array UInt8) :
    (sequences.foldl Sequence.produce out).size =
      out.size + (sequences.map fun s => s.literals.length + s.length).sum := by
  induction sequences generalizing out with
  | nil => rfl
  | cons s rest ih =>
    rw [List.foldl_cons, ih, s.size_produce, List.map_cons, List.sum_cons]
    omega

/-- A block adds what its lengths add up to. -/
theorem Block.size_produce (block : Block) (out : Array UInt8) :
    (block.produce out).size = out.size + block.size := by
  rw [produce, size]
  simp only [Array.size_append, size_foldl_produce, List.size_toArray]
  omega

/-- The data is as long as the lengths in the block add up to. -/
theorem Block.length_data (block : Block) : block.data.length = block.size := by
  rw [data, Array.length_toList, block.size_produce]
  exact Nat.zero_add _

/-! ## Lengths, distances and bytes that were read -/

/-- Further bytes that are read are those of what they add. -/
theorem eq_of_readExtra {input rest : Bytes} {n : Nat} (h : readExtra input = .ok (n, rest)) :
    input = extraBytes n ++ rest := by
  induction input generalizing n rest with
  | nil => cases h
  | cons b input ih =>
    rw [readExtra] at h
    split at h
    · next hb =>
      obtain ⟨⟨m, later⟩, hread, heq⟩ := Success.of_map h
      obtain ⟨rfl, rfl⟩ := Prod.mk.inj heq
      rw [extraBytes, if_neg (by omega), Nat.add_sub_cancel, List.cons_append, ← ih hread, hb]
    · next hb =>
      obtain ⟨rfl, rfl⟩ := Prod.mk.inj (Except.ok.inj h)
      have hne : b.toNat ≠ 255 := fun heq => hb (UInt8.toNat_inj.mp heq)
      have hlt := b.toNat_lt
      rw [extraBytes, if_pos (by omega), Nat.toUInt8_eq, UInt8.ofNat_toNat, List.singleton_append]

/-- A length that is read has this half of a token and these further bytes. -/
theorem eq_of_readLength {low : Nat} {input rest : Bytes} {n : Nat} (hlow : low < 16)
    (h : readLength low input = .ok (n, rest)) : low = half n ∧ input = lengthBytes n ++ rest := by
  rw [readLength] at h
  split at h
  · next hlong =>
    obtain ⟨⟨m, later⟩, hread, heq⟩ := Success.of_map h
    obtain ⟨rfl, rfl⟩ := Prod.mk.inj heq
    refine ⟨hlong.trans (Nat.min_eq_right (by omega)).symm, ?_⟩
    rw [lengthBytes, if_neg (by omega), Nat.add_sub_cancel, ← eq_of_readExtra hread]
  · next hshort =>
    obtain ⟨rfl, rfl⟩ := Prod.mk.inj (Except.ok.inj h)
    refine ⟨(Nat.min_eq_left (by omega)).symm, ?_⟩
    rw [lengthBytes, if_pos (by omega), List.nil_append]

/-- What is split off is the front of the input. -/
theorem eq_of_splitExactly? {n : Nat} {input taken rest : Bytes}
    (h : splitExactly? n input = some (taken, rest)) :
    input = taken ++ rest ∧ taken.length = n := by
  induction n generalizing input taken rest with
  | zero =>
    obtain ⟨rfl, rfl⟩ := Prod.mk.inj (Option.some.inj h)
    exact ⟨rfl, rfl⟩
  | succ n ih =>
    cases input with
    | nil => cases h
    | cons b input =>
      rw [splitExactly?, Option.map_eq_some_iff] at h
      obtain ⟨⟨taken', rest'⟩, hsplit, heq⟩ := h
      obtain ⟨rfl, rfl⟩ := Prod.mk.inj heq
      obtain ⟨rfl, rfl⟩ := ih hsplit
      exact ⟨rfl, rfl⟩

/-- A distance that is read has these two bytes. -/
theorem eq_of_readDistance {input rest : Bytes} {distance : Nat}
    (h : readDistance input = .ok (distance, rest)) :
    0 < distance ∧ distance ≤ 65535 ∧
      input = [distance.toUInt8, (distance / 256).toUInt8] ++ rest := by
  match input with
  | [] | [_] => cases h
  | low :: high :: later =>
    have hlow := low.toNat_lt
    have hhigh := high.toNat_lt
    rw [readDistance] at h
    split at h
    · cases h
    · next hpos =>
      obtain ⟨rfl, rfl⟩ := Prod.mk.inj (Except.ok.inj h)
      have hfirst : (low.toNat + 256 * high.toNat).toUInt8 = low := by
        apply UInt8.toNat_inj.mp
        rw [Nat.toUInt8_eq, UInt8.toNat_ofNat']
        omega
      have hsecond : ((low.toNat + 256 * high.toNat) / 256).toUInt8 = high := by
        apply UInt8.toNat_inj.mp
        rw [Nat.toUInt8_eq, UInt8.toNat_ofNat']
        omega
      rw [hfirst, hsecond]
      exact ⟨by omega, by omega, rfl⟩

/-! ## Sequences and blocks that were read -/

/-- The halves of the token in front of a head. -/
theorem head_token (literals : Bytes) {low : Nat} (hlow : low < 16) :
    (half literals.length * 16 + low).toUInt8.toNat / 16 = half literals.length ∧
      (half literals.length * 16 + low).toUInt8.toNat % 16 = low := by
  have hhalf : half literals.length ≤ 15 := Nat.min_le_right _ 15
  have htoken : (half literals.length * 16 + low).toUInt8.toNat =
      half literals.length * 16 + low :=
    UInt8.toNat_ofNat_of_lt' (show half literals.length * 16 + low < 256 by omega)
  rw [htoken]
  omega

/-- The distance of a sequence that fits is read from its tail. -/
theorem Sequence.Fits.readDistance_tail {s : Sequence} (h : s.Fits out) (rest : Bytes) :
    readDistance (s.tail ++ rest) = .ok (s.distance, lengthBytes (s.length - minCopy) ++ rest) := by
  rw [Sequence.tail, List.append_assoc]
  exact readDistance_bytes h.distance_pos h.distance_le _

/-- A copy is read exactly if it is the end of a sequence that fits and there is room for it. -/
theorem readCopy_eq_ok_iff {low : Nat} {literals input : Bytes} {progress : Progress}
    (hlow : low < 16) :
    readCopy capacity low (out ++ literals.toArray) input = .ok progress ↔
      ∃ s : Sequence, ∃ rest, s.literals = literals ∧ s.low = low ∧ s.Fits out ∧
        input = s.tail ++ rest ∧ progress = ⟨s.produce out, some rest⟩ ∧
        (s.produce out).size ≤ capacity := by
  have hsize : (out ++ literals.toArray).size = out.size + literals.length := by simp
  constructor
  · intro h
    obtain ⟨⟨distance, afterDistance⟩, hdistance, h⟩ := Success.of_bind h
    obtain ⟨⟨extra, rest⟩, hlength, h⟩ := Success.of_bind h
    obtain ⟨hpos, hle, hinput⟩ := eq_of_readDistance hdistance
    obtain ⟨hhalf, hafter⟩ := eq_of_readLength hlow hlength
    dsimp only at h
    rw [hsize] at h
    split at h
    · cases h
    · next hroom =>
      split at h
      · cases h
      · next hwithin =>
        have hextra : extra + minCopy - minCopy = extra := Nat.add_sub_cancel ..
        have hreach : distance ≤ out.size + literals.length := by omega
        refine ⟨⟨literals, distance, extra + minCopy⟩, rest, rfl, ?_,
          ⟨hpos, hle, Nat.le_add_left _ _, hreach⟩, ?_, (Except.ok.inj h).symm, ?_⟩
        · rw [Sequence.low, hextra, hhalf]
        · rw [hinput, hafter, Sequence.tail, hextra, List.append_assoc]
        · rw [Sequence.size_produce]
          exact Nat.le_of_not_lt hroom
  · rintro ⟨s, rest, rfl, rfl, hfits, rfl, rfl, hroom⟩
    rw [Sequence.size_produce] at hroom
    have hlength : s.length - minCopy + minCopy = s.length := Nat.sub_add_cancel hfits.length_ge
    have hwithin := hfits.within
    rw [readCopy, hfits.readDistance_tail, Success.bind_ok]
    dsimp only
    rw [Sequence.low, readLength_lengthBytes, Success.bind_ok]
    dsimp only
    rw [hlength, hsize, if_neg (by omega), if_neg (by omega)]
    rfl

/-- A sequence is read exactly if it is the last bytes of a block, or a sequence that fits, and
there is room for what it produces. -/
theorem readSequence_eq_ok_iff {token : UInt8} {input : Bytes} {progress : Progress} :
    readSequence capacity token out input = .ok progress ↔
      (∃ last, ∃ unused : Fin 16, token :: input = head last unused ∧
        progress = ⟨out ++ last.toArray, none⟩ ∧ out.size + last.length ≤ capacity) ∨
      ∃ s : Sequence, ∃ rest, s.Fits out ∧ token :: input = s.bytes ++ rest ∧
        progress = ⟨s.produce out, some rest⟩ ∧ (s.produce out).size ≤ capacity := by
  constructor
  · intro h
    obtain ⟨⟨count, afterLength⟩, hlength, hread⟩ := Success.of_bind h
    have htoken := token.toNat_lt
    obtain ⟨hhalf, hinput⟩ := eq_of_readLength (by omega) hlength
    dsimp only at hread
    split at hread
    · cases hread
    · next literals rest hsplit =>
      obtain ⟨rfl, rfl⟩ := eq_of_splitExactly? hsplit
      have hlow : token.toNat % 16 < 16 := Nat.mod_lt _ (by decide)
      have hhead : token :: input = head literals (token.toNat % 16) ++ rest := by
        have hvalue : half literals.length * 16 + token.toNat % 16 = token.toNat := by omega
        rw [head, hvalue, Nat.toUInt8_eq, UInt8.ofNat_toNat, hinput, List.cons_append,
          List.append_assoc]
      split at hread
      · cases hread
      · next hroom =>
        split at hread
        · rw [List.append_nil] at hhead
          exact .inl ⟨literals, ⟨_, hlow⟩, hhead, (Except.ok.inj hread).symm, by omega⟩
        · obtain ⟨s, later, rfl, hs, hfits, htail, hprogress, hcapacity⟩ :=
            (readCopy_eq_ok_iff hlow).mp hread
          refine .inr ⟨s, later, hfits, ?_, hprogress, hcapacity⟩
          rw [hhead, htail, Sequence.bytes, hs, List.append_assoc]
  · rintro (⟨last, unused, hinput, rfl, hroom⟩ | ⟨s, rest, hfits, hinput, rfl, hroom⟩)
    · obtain ⟨rfl, rfl⟩ := List.cons.inj hinput
      have hread := readSequence_literals (head_token last unused.isLt).1 hroom []
      rw [List.append_nil] at hread
      exact hread
    · rw [Sequence.bytes, List.append_assoc, head, List.cons_append] at hinput
      obtain ⟨rfl, rfl⟩ := List.cons.inj hinput
      have hcopy : readCopy capacity s.low (out ++ s.literals.toArray) (s.tail ++ rest) =
          .ok ⟨s.produce out, some rest⟩ :=
        (readCopy_eq_ok_iff s.low_lt).mpr ⟨s, rest, rfl, rfl, hfits, rfl, rfl, hroom⟩
      have hfront : out.size + s.literals.length ≤ capacity := by
        rw [s.size_produce] at hroom
        omega
      obtain ⟨hhigh, hlow⟩ := head_token s.literals s.low_lt
      have hread := readSequence_literals hhigh hfront (s.tail ++ rest)
      rw [hlow] at hread
      exact hread.trans hcopy

/-- A sequence that cannot be read ends the reading of its block. -/
theorem decodeBlock_of_error {token : UInt8} {input : Bytes} {e : Error}
    (h : readSequence capacity token out input = .error e) :
    decodeBlock capacity out (token :: input) = .error e := by
  rw [decodeBlock]
  split
  · next e' heq => rw [Except.error.inj (heq.symm.trans h)]
  · next progress heq => cases heq.symm.trans h

/-- A block is read exactly if its copies stay within what is produced and there is room for all
of it. -/
theorem decodeBlock_eq_ok_iff {bytes : Bytes} {final : Array UInt8} :
    decodeBlock capacity out bytes = .ok final ↔
      ∃ block : Block, InReach out block.sequences ∧ block.bytes = bytes ∧
        block.produce out = final ∧ final.size ≤ capacity := by
  constructor
  · intro h
    induction out, bytes using decodeBlock.induct capacity with
    | case1 out =>
      rw [decodeBlock] at h
      cases h
    | case2 out token input e hread =>
      rw [decodeBlock_of_error hread] at h
      cases h
    | case3 out token input progress hread hrest =>
      rcases readSequence_eq_ok_iff.mp hread with
        ⟨last, unused, hinput, rfl, hroom⟩ | ⟨s, rest, -, -, rfl, -⟩
      · rw [decodeBlock_of_none hread] at h
        obtain rfl := Except.ok.inj h
        exact ⟨⟨[], last, unused⟩, trivial, hinput.symm, rfl, by simpa using hroom⟩
      · cases hrest
    | case4 out token input progress hread rest hrest hlength ih =>
      rcases readSequence_eq_ok_iff.mp hread with
        ⟨last, unused, -, rfl, -⟩ | ⟨s, rest', hfits, hinput, rfl, -⟩
      · cases hrest
      · obtain rfl := Option.some.inj hrest
        rw [decodeBlock_of_some hread] at h
        obtain ⟨⟨sequences, last, unused⟩, hreach, hbytes, hproduce, hroom⟩ := ih h
        refine ⟨⟨s :: sequences, last, unused⟩, ⟨hfits, hreach⟩, ?_, hproduce, hroom⟩
        rw [Block.bytes_cons, hbytes, hinput]
  · rintro ⟨⟨sequences, last, unused⟩, hreach, rfl, rfl, hroom⟩
    induction sequences generalizing out with
    | nil =>
      have hlast : out.size + last.length ≤ capacity := by
        simpa [Block.produce] using hroom
      exact decodeBlock_of_none
        (readSequence_eq_ok_iff.mpr (.inl ⟨last, unused, rfl, rfl, hlast⟩))
    | cons s rest ih =>
      have hsequence : (s.produce out).size ≤ capacity := by
        rw [Block.size_produce] at hroom
        rw [s.size_produce]
        simp only [Block.size, List.map_cons, List.sum_cons] at hroom
        omega
      rw [Block.bytes_cons]
      exact (decodeBlock_of_some (readSequence_eq_ok_iff.mpr
        (.inr ⟨s, _, hreach.1, rfl, rfl, hsequence⟩))).trans (ih hreach.2 hroom)

/-! ## Blocks that are cut off -/

/-- A length is told apart from what comes after it. -/
theorem lengthBytes_append_inj {n n' : Nat} {x x' : Bytes} (hhalf : half n = half n')
    (h : lengthBytes n ++ x = lengthBytes n' ++ x') : n = n' ∧ x = x' := by
  have hread := readLength_lengthBytes n x
  rw [hhalf, h, readLength_lengthBytes n' x'] at hread
  have hpair := Prod.mk.inj (Except.ok.inj hread)
  exact ⟨hpair.1.symm, hpair.2.symm⟩

/-- A head is told apart from what comes after it. -/
theorem head_append_inj {literals literals' x x' : Bytes} {low low' : Nat} (hlow : low < 16)
    (hlow' : low' < 16) (h : head literals low ++ x = head literals' low' ++ x') :
    literals = literals' ∧ low = low' ∧ x = x' := by
  rw [head, head, List.cons_append, List.cons_append, List.append_assoc, List.append_assoc] at h
  obtain ⟨htoken, h⟩ := List.cons.inj h
  obtain ⟨hhigh, hlower⟩ := head_token literals hlow
  obtain ⟨hhigh', hlower'⟩ := head_token literals' hlow'
  rw [htoken] at hhigh hlower
  obtain ⟨hlength, h⟩ := lengthBytes_append_inj (hhigh.symm.trans hhigh') h
  obtain ⟨hliterals, hx⟩ := List.append_inj h hlength
  exact ⟨hliterals, hlower.symm.trans hlower', hx⟩

/-- A sequence that fits is told apart from what comes after it. -/
theorem Sequence.bytes_append_inj {s s' : Sequence} {x x' : Bytes} (hs : s.Fits out)
    (hs' : s'.Fits out) (h : s.bytes ++ x = s'.bytes ++ x') : s = s' ∧ x = x' := by
  rw [bytes, bytes, List.append_assoc, List.append_assoc] at h
  obtain ⟨hliterals, hhalf, h⟩ := head_append_inj s.low_lt s'.low_lt h
  have hread := hs.readDistance_tail x
  rw [h] at hread
  have hpair := Prod.mk.inj (Except.ok.inj ((hs'.readDistance_tail x').symm.trans hread))
  obtain ⟨hlength, hx⟩ := lengthBytes_append_inj hhalf hpair.2.symm
  have hge := hs.length_ge
  have hge' := hs'.length_ge
  refine ⟨?_, hx⟩
  obtain ⟨literals, distance, length⟩ := s
  obtain ⟨literals', distance', length'⟩ := s'
  rw [Sequence.mk.injEq]
  exact ⟨hliterals, hpair.1.symm, by dsimp only at hlength hge hge'; omega⟩

/-- A block at the front of a longer one ends in front of the copy of a sequence of it. -/
theorem endingIn_of_append {cut whole : Block} {more : Bytes} (hcut : InReach out cut.sequences)
    (hwhole : InReach out whole.sequences) (hmore : more ≠ [])
    (h : cut.bytes ++ more = whole.bytes) :
    ∃ s after, whole.sequences = cut.sequences ++ s :: after ∧
      cut = Block.endingIn cut.sequences s := by
  obtain ⟨sequences, last, unused⟩ := cut
  obtain ⟨sequences', last', unused'⟩ := whole
  induction sequences generalizing out sequences' with
  | nil =>
    cases sequences' with
    | nil =>
      rw [Block.bytes_nil, Block.bytes_nil, ← List.append_nil (head last' _)] at h
      exact absurd (head_append_inj unused.isLt unused'.isLt h).2.2 hmore
    | cons s after =>
      rw [Block.bytes_cons, Sequence.bytes, List.append_assoc] at h
      obtain ⟨hlast, hunused, -⟩ := head_append_inj unused.isLt s.low_lt h
      refine ⟨s, after, rfl, ?_⟩
      rw [Block.endingIn, Block.mk.injEq]
      exact ⟨rfl, hlast, Fin.ext hunused⟩
  | cons s rest ih =>
    rw [Block.bytes_cons, List.append_assoc] at h
    cases sequences' with
    | nil =>
      -- The last bytes of a block have nothing after them that could be the distance of a copy.
      rw [Sequence.bytes, List.append_assoc, Block.bytes_nil,
        ← List.append_nil (head last' _)] at h
      obtain ⟨-, -, htail⟩ := head_append_inj s.low_lt unused'.isLt h
      cases htail
    | cons s' after =>
      rw [Block.bytes_cons] at h
      obtain ⟨rfl, hrest⟩ := Sequence.bytes_append_inj hcut.1 hwhole.1 h
      obtain ⟨t, later, hsequences, hends⟩ := ih hcut.2 _ hwhole.2 hrest
      rw [Block.endingIn, Block.mk.injEq] at hends
      refine ⟨t, later, congrArg (s :: ·) hsequences, ?_⟩
      rw [Block.endingIn, Block.mk.injEq]
      exact ⟨rfl, hends.2⟩

/-- Sequences in front of others fit if all of them do. -/
theorem InReach.left {before after : List Sequence} (h : InReach out (before ++ after)) :
    InReach out before := by
  induction before generalizing out with
  | nil => trivial
  | cons s before ih => exact ⟨h.1, ih h.2⟩

/-- A block that ends in front of a copy produces less than the one with the copy. -/
theorem size_endingIn_le {block : Block} {before after : List Sequence} {s : Sequence}
    (h : block.sequences = before ++ s :: after) : (Block.endingIn before s).size ≤ block.size := by
  rw [Block.size, Block.size, h, List.map_append, List.sum_append, List.map_cons, List.sum_cons]
  simp only [Block.endingIn]
  omega

end Lz4

namespace Compression

/-- Compressed data is read exactly if it is a size and a block whose copies stay within the data
and whose lengths add up to no more than the size. -/
theorem decompressLz4_eq_ok_iff {packed out : Bytes} :
    decompressLz4 packed = .ok out ↔
      ∃ a b c d, ∃ block : Lz4.Block, packed = a :: b :: c :: d :: block.bytes ∧
        Lz4.InReach #[] block.sequences ∧ block.data = out ∧ out.length = block.size ∧
        block.size ≤ Lz4.littleEndian a b c d := by
  constructor
  · intro h
    match packed with
    | [] | [_] | [_, _] | [_, _, _] => cases h
    | a :: b :: c :: d :: bytes =>
      obtain ⟨final, hfinal, rfl⟩ := Success.of_map (Success.mapError_eq_ok_iff.mp h)
      obtain ⟨block, hreach, rfl, rfl, hroom⟩ := Lz4.decodeBlock_eq_ok_iff.mp hfinal
      rw [block.size_produce, List.size_toArray, List.length_nil, Nat.zero_add] at hroom
      exact ⟨a, b, c, d, block, rfl, hreach, rfl, block.length_data, hroom⟩
  · rintro ⟨a, b, c, d, block, rfl, hreach, rfl, -, hroom⟩
    have hsize : (block.produce #[]).size ≤ Lz4.littleEndian a b c d := by
      rw [block.size_produce, List.size_toArray, List.length_nil, Nat.zero_add]
      exact hroom
    have hblock : Lz4.decodeBlock (Lz4.littleEndian a b c d) #[] block.bytes =
        .ok (block.produce #[]) :=
      Lz4.decodeBlock_eq_ok_iff.mpr ⟨block, hreach, rfl, rfl, hsize⟩
    rw [decompressLz4, Lz4.decode, hblock]
    rfl

/-- A part in front of compressed data that is not all of it is read exactly if it ends in front of
the copy of a sequence. -/
theorem decompressLz4_cut_eq_ok_iff {a b c d : UInt8} {block : Lz4.Block}
    (hreach : Lz4.InReach #[] block.sequences) (hroom : block.size ≤ Lz4.littleEndian a b c d)
    {cut more : Bytes} (hcut : cut ++ more = a :: b :: c :: d :: block.bytes) (hmore : more ≠ [])
    {out : Bytes} :
    decompressLz4 cut = .ok out ↔
      ∃ before s after, block.sequences = before ++ s :: after ∧
        cut = a :: b :: c :: d :: (Lz4.Block.endingIn before s).bytes ∧
        (Lz4.Block.endingIn before s).data = out := by
  rw [decompressLz4_eq_ok_iff]
  constructor
  · rintro ⟨a', b', c', d', part, rfl, hpart, rfl, -, -⟩
    simp only [List.cons_append, List.cons.injEq] at hcut
    obtain ⟨rfl, rfl, rfl, rfl, hcut⟩ := hcut
    obtain ⟨s, after, hsequences, hends⟩ := Lz4.endingIn_of_append hpart hreach hmore hcut
    exact ⟨part.sequences, s, after, hsequences, by rw [← hends], by rw [← hends]⟩
  · rintro ⟨before, s, after, hsequences, rfl, rfl⟩
    rw [hsequences] at hreach
    have hsize := Lz4.size_endingIn_le hsequences
    exact ⟨a, b, c, d, _, rfl, hreach.left, rfl, Lz4.Block.length_data _,
      Nat.le_trans hsize hroom⟩

/-- Compressed data is read exactly if it is a size and a block whose copies stay within the data
and whose lengths add up to no more than the size; they, and not the size, tell how long the data
is. Everything else is reported as an error of the codec. Of a block that is read, a part in front
is read exactly if it ends in front of the copy of a sequence, and then as the data up to there. -/
theorem lz4_size_bounds (packed : Bytes) :
    (∀ out, decompressLz4 packed = .ok out ↔
      ∃ a b c d, ∃ block : Lz4.Block, packed = a :: b :: c :: d :: block.bytes ∧
        Lz4.InReach #[] block.sequences ∧ block.data = out ∧ out.length = block.size ∧
        block.size ≤ Lz4.littleEndian a b c d) ∧
    (∀ failure, decompressLz4 packed = .error failure →
      ∃ message, failure = .codec "lz4" message) ∧
    ∀ a b c d, ∀ block : Lz4.Block, packed = a :: b :: c :: d :: block.bytes →
      Lz4.InReach #[] block.sequences → block.size ≤ Lz4.littleEndian a b c d →
      ∀ cut more, cut ++ more = packed → more ≠ [] → ∀ out,
        decompressLz4 cut = .ok out ↔
          ∃ before s after, block.sequences = before ++ s :: after ∧
            cut = a :: b :: c :: d :: (Lz4.Block.endingIn before s).bytes ∧
            (Lz4.Block.endingIn before s).data = out := by
  refine ⟨fun out => decompressLz4_eq_ok_iff, fun failure h => ?_, ?_⟩
  · obtain ⟨error, -, rfl⟩ := Success.of_mapError h
    exact ⟨error.message, rfl⟩
  · rintro a b c d block rfl hreach hroom cut more hcut hmore out
    exact decompressLz4_cut_eq_ok_iff hreach hroom hcut hmore

/-- The block of a text that says hello four times, twenty-three bytes in all; cut off after the
first six of them it still announces twenty-three, and is read as these six. -/
theorem lz4_cut_hello :
    Lz4.littleEndian 23 0 0 0 = 23 ∧
    decompressLz4 [23, 0, 0, 0, 97, 104, 101, 108, 108, 111, 32, 6, 0, 192, 32, 104, 101, 108, 108,
        111, 32, 104, 101, 108, 108, 111] =
      .ok [104, 101, 108, 108, 111, 32, 104, 101, 108, 108, 111, 32, 104, 101, 108, 108, 111, 32,
        104, 101, 108, 108, 111] ∧
    decompressLz4 [23, 0, 0, 0, 97, 104, 101, 108, 108, 111, 32] =
      .ok [104, 101, 108, 108, 111, 32] := by
  let copy : Lz4.Sequence := ⟨[104, 101, 108, 108, 111, 32], 6, 5⟩
  let block : Lz4.Block :=
    ⟨[copy], [32, 104, 101, 108, 108, 111, 32, 104, 101, 108, 108, 111], 0⟩
  have hreach : Lz4.InReach #[] block.sequences :=
    ⟨⟨by decide, by decide, by decide, by decide⟩, trivial⟩
  have hsize : block.size ≤ Lz4.littleEndian 23 0 0 0 := by decide
  refine ⟨rfl, ?_, ?_⟩
  · exact ((lz4_size_bounds _).1 _).mpr ⟨23, 0, 0, 0, block, by decide +kernel, hreach,
      by decide +kernel, by decide, hsize⟩
  · exact ((lz4_size_bounds (23 :: 0 :: 0 :: 0 :: block.bytes)).2.2 23 0 0 0 block rfl hreach hsize
      _ (6 :: 0 :: Lz4.head block.last 0) (by decide +kernel) (List.cons_ne_nil _ _) _).mpr
      ⟨[], copy, [], rfl, by decide +kernel, by decide +kernel⟩

end Compression
end HostKit
