import HostKit.Compression.DeflateEncoder
import HostKit.Compression.Inflate

/-!
# Words of a prefix code

Pairing nodes up moves no symbol out of the tree, so every symbol with a length gets a place in it;
only nodes that are too many for two places at the top would be left out. The word of a symbol that
has a place is read back as that symbol, whatever comes after it. The fixed codes have a word for
each of their symbols.
-/

namespace HostKit

namespace CodeTree

/-- The symbols of a tree, from left to right. -/
def symbols : CodeTree → List Nat
  | missing => []
  | leaf value => [value]
  | node zero one => symbols zero ++ symbols one

/-- A symbol of the tree has a word. -/
theorem isSome_word? {tree : CodeTree} {wanted : Nat} (h : wanted ∈ tree.symbols) :
    (tree.word? wanted).isSome = true := by
  induction tree with
  | missing => cases h
  | leaf value => simp [word?, List.mem_singleton.mp h]
  | node zero one ihZero ihOne =>
    rw [word?]
    cases hzero : word? wanted zero with
    | some bits => rfl
    | none =>
      rcases List.mem_append.mp h with h | h
      · have hsome := ihZero h
        rw [hzero] at hsome
        cases hsome
      · simpa using ihOne h

/-- The word of a symbol is read as the symbol. -/
theorem decode_of_word? {tree : CodeTree} {wanted : Nat} {word : Bits}
    (h : tree.word? wanted = some word) (rest : Bits) :
    tree.decode (word ++ rest) = .symbol wanted rest := by
  induction tree generalizing word with
  | missing => cases h
  | leaf value =>
    rw [word?] at h
    split at h
    · next heq =>
      obtain rfl := Option.some.inj h
      rw [List.nil_append, decode, heq]
    · cases h
  | node zero one ihZero ihOne =>
    rw [word?] at h
    split at h
    · next bits hzero =>
      obtain rfl := Option.some.inj h
      exact ihZero hzero
    · obtain ⟨bits, hone, rfl⟩ := Option.map_eq_some_iff.mp h
      exact ihOne hone

/-- The symbols of several trees are those of the trees paired up. -/
theorem flatMap_symbols_pairUp (trees : List CodeTree) :
    (pairUp trees).flatMap symbols = trees.flatMap symbols := by
  induction trees using pairUp.induct with
  | case1 => rfl
  | case2 tree => simp [pairUp, symbols]
  | case3 zero one trees ih => simp [pairUp, symbols, ih]

end CodeTree

namespace PrefixCode

variable {lengths : List Nat} {code : PrefixCode} {symbol : Nat}

/-- A symbol is among those of its length. -/
theorem leaf_mem_symbolsOfLength {length : Nat} (h : lengths[symbol]? = some length) :
    CodeTree.leaf symbol ∈ symbolsOfLength lengths length := by
  rw [symbolsOfLength, List.mem_filterMap]
  exact ⟨(length, symbol), List.mk_mem_zipIdx_iff_getElem?.mpr h, if_pos rfl⟩

/-- A symbol whose word is not shorter than the depth is found at or below the nodes there. -/
theorem mem_symbols_nodesAbove {length height : Nat} (h : lengths[symbol]? = some length)
    (hlow : maxLength - height ≤ length) (hhigh : length ≤ maxLength) :
    symbol ∈ (nodesAbove lengths height).flatMap CodeTree.symbols := by
  induction height with
  | zero =>
    obtain rfl : length = maxLength := Nat.le_antisymm hhigh hlow
    exact List.mem_flatMap.mpr ⟨_, leaf_mem_symbolsOfLength h, List.mem_singleton_self _⟩
  | succ height ih =>
    rw [nodesAbove, List.flatMap_append, CodeTree.flatMap_symbols_pairUp, List.mem_append]
    by_cases heq : length = maxLength - (height + 1)
    · rw [← heq]
      exact .inl (List.mem_flatMap.mpr
        ⟨_, leaf_mem_symbolsOfLength h, List.mem_singleton_self _⟩)
    · exact .inr (ih (by omega))

/-- With two nodes at the top at most, a code has all the symbols below them. -/
theorem symbols_ofLengths (h : (nodesAbove lengths (maxLength - 1)).length ≤ 2) :
    (CodeTree.node (ofLengths lengths).zero (ofLengths lengths).one).symbols =
      (nodesAbove lengths (maxLength - 1)).flatMap CodeTree.symbols := by
  rw [ofLengths]
  match hnodes : nodesAbove lengths (maxLength - 1), h with
  | [], _ => rfl
  | [zero], _ => simp [CodeTree.symbols]
  | [zero, one], _ => simp [CodeTree.symbols]
  | _ :: _ :: _ :: _, h =>
    simp at h

/-- With two nodes at the top at most, every symbol with a length has a word. -/
theorem isSome_word?_ofLengths {length : Nat}
    (htop : (nodesAbove lengths (maxLength - 1)).length ≤ 2) (h : lengths[symbol]? = some length)
    (hpos : 0 < length) (hle : length ≤ maxLength) :
    ((ofLengths lengths).word? symbol).isSome = true := by
  apply CodeTree.isSome_word?
  rw [symbols_ofLengths htop]
  exact mem_symbols_nodesAbove h hpos hle

/-- The word of a symbol is read as the symbol. -/
theorem decode_of_word? {word : Bits} (h : code.word? symbol = some word) (rest : Bits) :
    code.decode (word ++ rest) = .symbol symbol rest := by
  have hdecode := CodeTree.decode_of_word? h rest
  cases word with
  | nil =>
    -- A word is not empty, for the symbol stands below one of the two trees.
    rw [PrefixCode.word?, CodeTree.word?] at h
    split at h
    · cases h
    · simp at h
  | cons b word => exact hdecode

end PrefixCode

namespace Deflate

open PrefixCode (nodesAbove maxLength)

/-- The table has the word of each symbol in it. -/
theorem getD_wordTable {code : PrefixCode} {count symbol : Nat} (h : symbol < count) :
    (wordTable code count).getD symbol [] = (code.word? symbol).getD [] := by
  simp [wordTable, h]

/-- What the table has for a symbol with a word is read as the symbol. -/
theorem readSymbol_wordTable {code : PrefixCode} {count symbol : Nat} (h : symbol < count)
    (hword : (code.word? symbol).isSome = true) (rest : Bits) :
    readSymbol code ((wordTable code count).getD symbol [] ++ rest) = .ok (symbol, rest) := by
  obtain ⟨word, hword⟩ := Option.isSome_iff_exists.mp hword
  rw [getD_wordTable h, hword, Option.getD_some, readSymbol, PrefixCode.decode_of_word? hword]

/-- The fixed word lengths leave two nodes at the top of the tree, and none of them is zero or too
long. -/
theorem fixedLengths_spec :
    (nodesAbove fixedLengths (maxLength - 1)).length ≤ 2 ∧
      ∀ length ∈ fixedLengths, 0 < length ∧ length ≤ maxLength := by
  decide +kernel

/-- So do the fixed word lengths for distances. -/
theorem fixedDistanceLengths_spec :
    (nodesAbove fixedDistanceLengths (maxLength - 1)).length ≤ 2 ∧
      ∀ length ∈ fixedDistanceLengths, 0 < length ∧ length ≤ maxLength := by
  decide +kernel

/-- Where all lengths can be used and fit into the tree, what the table has for a symbol is read as
the symbol. -/
theorem readSymbol_wordTable_ofLengths {lengths : List Nat} {symbol : Nat}
    (h : (nodesAbove lengths (maxLength - 1)).length ≤ 2 ∧
      ∀ length ∈ lengths, 0 < length ∧ length ≤ maxLength)
    (hlt : symbol < lengths.length) (rest : Bits) :
    readSymbol (.ofLengths lengths)
        ((wordTable (.ofLengths lengths) lengths.length).getD symbol [] ++ rest) =
      .ok (symbol, rest) := by
  obtain ⟨hpos, hle⟩ := h.2 lengths[symbol] (List.getElem_mem hlt)
  exact readSymbol_wordTable hlt
    (PrefixCode.isSome_word?_ofLengths h.1 (List.getElem?_eq_getElem hlt) hpos hle) rest

/-- The fixed word of a byte, a length or the end of a block is read as that symbol. -/
theorem readSymbol_fixedWords {symbol : Nat} (h : symbol < 288) (rest : Bits) :
    readSymbol fixedCodes.symbols (fixedWords.getD symbol [] ++ rest) = .ok (symbol, rest) := by
  have hlength : fixedLengths.length = 288 := by decide +kernel
  have hread := readSymbol_wordTable_ofLengths fixedLengths_spec (hlength ▸ h) rest
  rwa [hlength] at hread

/-- The fixed word of a class of distances is read as that class. -/
theorem readSymbol_fixedDistanceWords {symbol : Nat} (h : symbol < 32) (rest : Bits) :
    readSymbol fixedCodes.distances (fixedDistanceWords.getD symbol [] ++ rest) =
      .ok (symbol, rest) := by
  have hlength : fixedDistanceLengths.length = 32 := List.length_replicate
  have hread := readSymbol_wordTable_ofLengths fixedDistanceLengths_spec (hlength ▸ h) rest
  rwa [hlength] at hread

end Deflate
end HostKit
