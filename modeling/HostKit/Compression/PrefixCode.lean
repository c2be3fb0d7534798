import HostKit.Compression.Bits
import HostKit.Word

/-!
# Prefix codes

A prefix code is given by the length of each symbol's code word, zero for a symbol that is
not used. Among words of one length the smaller symbol comes first, and shorter words come
before longer ones. So the nodes at a depth of the tree are the symbols whose words have that
length, followed by the nodes of the next depth taken in pairs.
-/

namespace HostKit

/-- A binary tree with symbols at its leaves. -/
inductive CodeTree where
  | missing
  | leaf (symbol : Nat)
  | node (zero one : CodeTree)
  deriving Repr

namespace CodeTree

/-- What reading a symbol comes to. -/
inductive Outcome where
  /-- A symbol, and the bits after its word. -/
  | symbol (value : Nat) (rest : Bits)
  /-- The bits start no word. -/
  | unassigned
  /-- The bits end inside a word. -/
  | exhausted

/-- The symbol whose word stands at the front of the bits. -/
def decode : CodeTree → Bits → Outcome
  | missing, _ => .unassigned
  | leaf value, bits => .symbol value bits
  | node _ _, [] => .exhausted
  | node zero one, b :: bits => if b then decode one bits else decode zero bits

/-- The word of a symbol. -/
def word? (wanted : Nat) : CodeTree → Option Bits
  | missing => none
  | leaf value => if value = wanted then some [] else none
  | node zero one =>
    match word? wanted zero with
    | some bits => some (false :: bits)
    | none => (word? wanted one).map (true :: ·)

/-- Reading a symbol leaves no more bits behind than there were. -/
theorem decode_rest_le {tree : CodeTree} {bits : Bits} {value : Nat} {rest : Bits}
    (h : tree.decode bits = .symbol value rest) : rest.length ≤ bits.length := by
  induction tree generalizing bits with
  | missing => simp [decode] at h
  | leaf v => simp [decode] at h; simp [h]
  | node zero one ihz iho =>
    cases bits with
    | nil => simp [decode] at h
    | cons b bits =>
      cases b
      · have := ihz (by simpa [decode] using h)
        simp only [List.length_cons]; omega
      · have := iho (by simpa [decode] using h)
        simp only [List.length_cons]; omega

/-- Neighbours joined to nodes; a node without a neighbour gets an empty one. -/
def pairUp : List CodeTree → List CodeTree
  | [] => []
  | [tree] => [node tree missing]
  | zero :: one :: trees => node zero one :: pairUp trees

end CodeTree

/-- A prefix code: the tree for the words that start with either bit. -/
structure PrefixCode where
  zero : CodeTree
  one : CodeTree
  deriving Repr

namespace PrefixCode

open CodeTree (Outcome)

/-- The longest word a code may have. -/
def maxLength : Nat := 15

/-- The symbols whose words have the given length, in order. -/
def symbolsOfLength (lengths : List Nat) (length : Nat) : List CodeTree :=
  lengths.zipIdx.filterMap fun (l, symbol) => if l = length then some (.leaf symbol) else none

/-- The nodes at a depth, which is given by how far above the greatest depth it is. -/
def nodesAbove (lengths : List Nat) : (height : Nat) → List CodeTree
  | 0 => symbolsOfLength lengths maxLength
  | height + 1 =>
    symbolsOfLength lengths (maxLength - (height + 1))
      ++ CodeTree.pairUp (nodesAbove lengths height)

/-- The code with words of these lengths. Words that are too many do not find a place. -/
def ofLengths (lengths : List Nat) : PrefixCode :=
  match nodesAbove lengths (maxLength - 1) with
  | [] => ⟨.missing, .missing⟩
  | [zero] => ⟨zero, .missing⟩
  | zero :: one :: _ => ⟨zero, one⟩

/-- How many symbols are used. -/
def usedCount (lengths : List Nat) : Nat := (lengths.filter (0 < ·)).length

/-- How much of the space of all words the words take, in units of the longest ones. -/
def spaceTaken (lengths : List Nat) : Nat :=
  (lengths.filter (0 < ·)).foldr (fun length taken => Word.size (maxLength - length) + taken) 0

/-- Whether the words take all the space there is, so that all bits start with one of them. -/
def isComplete (lengths : List Nat) : Bool := spaceTaken lengths = Word.size maxLength

/-- The symbol whose word stands at the front of the bits; a word has at least one bit. -/
def decode (code : PrefixCode) : Bits → Outcome
  | [] => .exhausted
  | b :: bits => if b then code.one.decode bits else code.zero.decode bits

/-- The word of a symbol. -/
def word? (code : PrefixCode) (wanted : Nat) : Option Bits :=
  (CodeTree.node code.zero code.one).word? wanted

/-- Reading a symbol takes at least one bit. -/
theorem decode_rest_lt {code : PrefixCode} {bits : Bits} {value : Nat} {rest : Bits}
    (h : code.decode bits = .symbol value rest) : rest.length < bits.length := by
  cases bits with
  | nil => simp [decode] at h
  | cons b bits =>
    have : rest.length ≤ bits.length := by
      cases b
      · exact CodeTree.decode_rest_le (by simpa [decode] using h)
      · exact CodeTree.decode_rest_le (by simpa [decode] using h)
    simp only [List.length_cons]; omega

end PrefixCode
end HostKit
