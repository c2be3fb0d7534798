import HostKit.Proofs.Compression.BitRows
import HostKit.Proofs.Compression.CodeWords
import Mathlib.Tactic.Ring

/-!
# The words of a code as numbers

The standard (RFC 1951, 3.2.2) numbers the words of one length in the order of their symbols, and
the first of them is twice the number that follows the last word which is one bit shorter. The tree
is made the other way round, from the longest words up. Its nodes at a depth go on from this first
number, and joining two of them halves it, so it has exactly the words of the standard, provided
that they do not take more space than there is.
-/

namespace HostKit

/-- Bits in a row, the least significant first. -/
theorem Bits.toNat_append (bits bits' : Bits) :
    toNat (bits ++ bits') = toNat bits + 2 ^ bits.length * toNat bits' := by
  induction bits with
  | nil => simp [toNat]
  | cons b bits ih =>
    rw [List.cons_append, toNat, toNat, ih, List.length_cons, Nat.pow_succ]
    ring

namespace CodeTree

/-- The bits lead from the root of a tree to a symbol. -/
inductive Leads : CodeTree → Bits → Nat → Prop where
  | leaf (symbol : Nat) : Leads (.leaf symbol) [] symbol
  | zero {zero : CodeTree} {word : Bits} {symbol : Nat} (one : CodeTree)
      (h : Leads zero word symbol) : Leads (.node zero one) (false :: word) symbol
  | one (zero : CodeTree) {one : CodeTree} {word : Bits} {symbol : Nat}
      (h : Leads one word symbol) : Leads (.node zero one) (true :: word) symbol

/-- A symbol that is read stands where the bits in front lead. -/
theorem exists_leads_of_decode {tree : CodeTree} {bits rest : Bits} {symbol : Nat}
    (h : tree.decode bits = .symbol symbol rest) :
    ∃ word, Leads tree word symbol ∧ bits = word ++ rest := by
  induction tree generalizing bits with
  | missing => cases h
  | leaf value =>
    obtain ⟨rfl, rfl⟩ : value = symbol ∧ bits = rest := Outcome.symbol.inj h
    exact ⟨[], .leaf value, rfl⟩
  | node zero one ihZero ihOne =>
    cases bits with
    | nil => cases h
    | cons b bits =>
      cases b with
      | false =>
        obtain ⟨word, hleads, rfl⟩ := ihZero h
        exact ⟨false :: word, .zero one hleads, rfl⟩
      | true =>
        obtain ⟨word, hleads, rfl⟩ := ihOne h
        exact ⟨true :: word, .one zero hleads, rfl⟩

/-- Half as many trees are left when they are paired up. -/
theorem length_pairUp (trees : List CodeTree) : (pairUp trees).length = (trees.length + 1) / 2 := by
  induction trees using pairUp.induct with
  | case1 => rfl
  | case2 tree => simp [pairUp]
  | case3 zero one trees ih =>
    rw [pairUp, List.length_cons, List.length_cons, List.length_cons, ih]
    omega

/-- A node made by pairing up has its two trees at twice its place and next to it. -/
theorem of_getElem?_pairUp {trees : List CodeTree} {i : Nat} {tree : CodeTree}
    (h : (pairUp trees)[i]? = some tree) :
    ∃ zero one, tree = .node zero one ∧ trees[2 * i]? = some zero ∧
      (trees[2 * i + 1]? = some one ∨ one = .missing) := by
  induction trees using pairUp.induct generalizing i with
  | case1 => cases h
  | case2 zero =>
    cases i with
    | zero => exact ⟨zero, .missing, (Option.some.inj h).symm, rfl, .inr rfl⟩
    | succ i => cases h
  | case3 zero one trees ih =>
    cases i with
    | zero => exact ⟨zero, one, (Option.some.inj h).symm, rfl, .inl rfl⟩
    | succ i => exact ih h

end CodeTree

namespace PrefixCode

open CodeTree (Leads)

variable {lengths : List Nat} {symbol : Nat} {word : Bits}

/-! ## Numbers of words -/

/-- How many words have the length; there is no word without bits. -/
def wordCount (lengths : List Nat) : (length : Nat) → Nat
  | 0 => 0
  | length + 1 => lengths.count (length + 1)

/-- The number of the first word of a length. -/
def firstWord (lengths : List Nat) : (length : Nat) → Nat
  | 0 => 0
  | length + 1 => (firstWord lengths length + wordCount lengths length) * 2

/-- How many smaller symbols have words of the length. -/
def rank (lengths : List Nat) (symbol length : Nat) : Nat := (lengths.take symbol).count length

/-- The word of a symbol by the standard, its most significant bit first. -/
structure IsWord (lengths : List Nat) (symbol : Nat) (word : Bits) : Prop where
  length_eq : lengths[symbol]? = some word.length
  length_pos : 0 < word.length
  length_le : word.length ≤ maxLength
  number : Bits.toNat word.reverse =
    firstWord lengths word.length + rank lengths symbol word.length

example : IsWord [3, 3, 3, 3, 3, 2, 4, 4] 6 [true, true, true, false] :=
  ⟨rfl, by decide, by decide, by decide⟩

/-- A symbol has one word at most. -/
theorem IsWord.unique {word' : Bits} (h : IsWord lengths symbol word)
    (h' : IsWord lengths symbol word') : word = word' := by
  have hlength : word.length = word'.length := Option.some.inj (h.length_eq.symm.trans h'.length_eq)
  have hnumber : Bits.toNat word.reverse = Bits.toNat word'.reverse := by
    rw [h.number, h'.number, hlength]
  have hbits (word : Bits) : Bits.ofNat word.length (Bits.toNat word.reverse) = word.reverse := by
    rw [Bits.ofNat_toNat (Nat.le_of_eq List.length_reverse), List.length_reverse, Nat.sub_self]
    exact List.append_nil _
  have hreverse := hbits word
  rw [hnumber, hlength, hbits] at hreverse
  exact (List.reverse_inj.mp hreverse).symm

/-! ## Nodes -/

/-- The symbols of a length, where the first of the lengths is that of the symbol `start`. -/
def symbolsFrom (start : Nat) (lengths : List Nat) (length : Nat) : List CodeTree :=
  (lengths.zipIdx start).filterMap fun (l, symbol) =>
    if l = length then some (.leaf symbol) else none

/-- The first symbol counts if it has the length. -/
theorem symbolsFrom_cons (start l length : Nat) (lengths : List Nat) :
    symbolsFrom start (l :: lengths) length =
      if l = length then .leaf start :: symbolsFrom (start + 1) lengths length
      else symbolsFrom (start + 1) lengths length := by
  by_cases hl : l = length <;> simp [symbolsFrom, hl]

/-- The symbols of a length stand in their order. -/
theorem of_getElem?_symbolsFrom {start length i : Nat} {tree : CodeTree}
    (h : (symbolsFrom start lengths length)[i]? = some tree) :
    ∃ symbol, tree = .leaf (start + symbol) ∧ lengths[symbol]? = some length ∧
      rank lengths symbol length = i := by
  induction lengths generalizing start i with
  | nil => cases h
  | cons l lengths ih =>
    rw [symbolsFrom_cons] at h
    by_cases hl : l = length
    · rw [if_pos hl] at h
      cases i with
      | zero => exact ⟨0, (Option.some.inj h).symm, congrArg some hl, rfl⟩
      | succ i =>
        obtain ⟨symbol, rfl, hsymbol, hrank⟩ := ih h
        refine ⟨symbol + 1, by rw [Nat.add_assoc, Nat.add_comm 1], hsymbol, ?_⟩
        rw [rank, List.take_succ_cons, hl, List.count_cons_self, ← rank, hrank]
    · rw [if_neg hl] at h
      obtain ⟨symbol, rfl, hsymbol, hrank⟩ := ih h
      refine ⟨symbol + 1, by rw [Nat.add_assoc, Nat.add_comm 1], hsymbol, ?_⟩
      rw [rank, List.take_succ_cons, List.count_cons_of_ne hl, ← rank, hrank]

/-- There are as many symbols of a length as words. -/
theorem length_symbolsFrom (start length : Nat) (lengths : List Nat) :
    (symbolsFrom start lengths length).length = lengths.count length := by
  induction lengths generalizing start with
  | nil => rfl
  | cons l lengths ih =>
    rw [symbolsFrom_cons]
    by_cases hl : l = length
    · rw [if_pos hl, hl, List.count_cons_self, List.length_cons, ih]
    · rw [if_neg hl, List.count_cons_of_ne hl, ih]

/-- What a word comes to that starts at a node: a symbol of its length, whose number is that of the
word. -/
structure Numbered (lengths : List Nat) (depth i : Nat) (word : Bits) (symbol : Nat) : Prop where
  length_eq : lengths[symbol]? = some (depth + word.length)
  length_le : depth + word.length ≤ maxLength
  number : (firstWord lengths depth + i) * 2 ^ word.length + Bits.toNat word.reverse =
    firstWord lengths (depth + word.length) + rank lengths symbol (depth + word.length)

/-- A symbol whose word ends at its node is numbered by its place. -/
theorem numbered_of_symbolsOfLength {depth i : Nat} {tree : CodeTree} (hdepth : depth ≤ maxLength)
    (htree : (symbolsOfLength lengths depth)[i]? = some tree) (h : Leads tree word symbol) :
    Numbered lengths depth i word symbol := by
  obtain ⟨symbol', rfl, hsymbol, hrank⟩ := of_getElem?_symbolsFrom htree
  rw [Nat.zero_add] at h
  cases h
  exact ⟨hsymbol, hdepth, by simp [Bits.toNat, hrank]⟩

/-- The first bit of a word leads to one of the two nodes one deeper. -/
theorem Numbered.cons {depth i : Nat} {b : Bool}
    (h : Numbered lengths (depth + 1) (2 * i + b.toNat) word symbol) :
    Numbered lengths depth (wordCount lengths depth + i) (b :: word) symbol := by
  have hlength : depth + (b :: word).length = depth + 1 + word.length := by
    rw [List.length_cons]
    omega
  refine ⟨by rw [hlength]; exact h.length_eq, by rw [hlength]; exact h.length_le, ?_⟩
  rw [hlength, ← h.number, firstWord, List.length_cons, List.reverse_cons, Bits.toNat_append,
    List.length_reverse, Nat.pow_succ]
  simp only [Bits.toNat]
  ring

/-- Words from a node on are numbered as in the standard. -/
theorem numbered_of_nodesAbove {height i : Nat} {tree : CodeTree} (hheight : height < maxLength)
    (htree : (nodesAbove lengths height)[i]? = some tree) (h : Leads tree word symbol) :
    Numbered lengths (maxLength - height) i word symbol := by
  induction height generalizing i tree word with
  | zero => exact numbered_of_symbolsOfLength (Nat.le_refl _) htree h
  | succ height ih =>
    obtain ⟨depth, hdepth⟩ : ∃ depth, maxLength - (height + 1) = depth + 1 :=
      Nat.exists_eq_succ_of_ne_zero (by omega)
    have hnext : maxLength - height = depth + 1 + 1 := by omega
    rw [hnext] at ih
    rw [nodesAbove, hdepth] at htree
    rw [hdepth]
    have hcount : (symbolsOfLength lengths (depth + 1)).length = wordCount lengths (depth + 1) :=
      length_symbolsFrom 0 (depth + 1) lengths
    by_cases hi : i < wordCount lengths (depth + 1)
    · rw [List.getElem?_append_left (hcount ▸ hi)] at htree
      exact numbered_of_symbolsOfLength (by omega) htree h
    · -- A node that is no symbol joins two nodes one deeper.
      obtain ⟨j, rfl⟩ := Nat.exists_eq_add_of_le (Nat.le_of_not_lt hi)
      rw [List.getElem?_append_right (by omega), hcount, Nat.add_sub_cancel_left] at htree
      obtain ⟨zero, one, rfl, hzero, hone⟩ := CodeTree.of_getElem?_pairUp htree
      cases h with
      | zero _ h => exact (ih (by omega) hzero h).cons
      | one _ h =>
        rcases hone with hone | rfl
        · exact (ih (by omega) hone h).cons
        · cases h

/-! ## Space -/

/-- The space of a word that is found at most so far above the greatest depth, in units of the
longest words. -/
def cost (height length : Nat) : Nat :=
  if maxLength - height ≤ length ∧ length ≤ maxLength then 2 ^ (maxLength - length) else 0

/-- One level up, the words of one more length count. -/
theorem cost_succ {height : Nat} (hheight : height < maxLength) (length : Nat) :
    cost (height + 1) length =
      cost height length + if length = maxLength - (height + 1) then 2 ^ (height + 1) else 0 := by
  by_cases hlength : length = maxLength - (height + 1)
  · have hpower : maxLength - length = height + 1 := by omega
    rw [cost, cost, if_pos hlength, if_pos (by omega), if_neg (by omega), hpower, Nat.zero_add]
  · rw [if_neg hlength, Nat.add_zero (cost height length), cost, cost]
    by_cases hcounts : maxLength - height ≤ length ∧ length ≤ maxLength
    · rw [if_pos hcounts, if_pos (by omega)]
    · rw [if_neg hcounts, if_neg (by omega)]

/-- The space of all words that are found at most so far above the greatest depth. -/
def space (lengths : List Nat) (height : Nat) : Nat := (lengths.map (cost height)).sum

/-- One level up, the space of the words of one more length is added. -/
theorem space_succ {height : Nat} (hheight : height < maxLength) (lengths : List Nat) :
    space lengths (height + 1) =
      space lengths height + lengths.count (maxLength - (height + 1)) * 2 ^ (height + 1) := by
  induction lengths with
  | nil => simp [space]
  | cons length lengths ih =>
    rw [space, space, List.map_cons, List.map_cons, List.sum_cons, List.sum_cons, ← space, ← space,
      ih, cost_succ hheight]
    by_cases hlength : length = maxLength - (height + 1)
    · rw [if_pos hlength, hlength, List.count_cons_self]
      ring
    · rw [if_neg hlength, List.count_cons_of_ne hlength]
      ring

/-- The nodes at a depth take no more space than the words at and below it, but for what fills up
the last of them. -/
theorem length_nodesAbove_le {height : Nat} (hheight : height < maxLength) (lengths : List Nat) :
    (nodesAbove lengths height).length * 2 ^ height < space lengths height + 2 ^ height := by
  induction height with
  | zero =>
    have hspace : space lengths 0 = lengths.count maxLength := by
      induction lengths with
      | nil => rfl
      | cons length lengths ih =>
        rw [space, List.map_cons, List.sum_cons, ← space, ih, cost, List.count_cons]
        by_cases hlength : length = maxLength
        · simp [hlength, Nat.add_comm]
        · have houtside : ¬(maxLength - 0 ≤ length ∧ length ≤ maxLength) := by omega
          rw [if_neg houtside, if_neg (by simpa using hlength), Nat.zero_add, Nat.add_zero]
    have hnodes : (nodesAbove lengths 0).length = lengths.count maxLength :=
      length_symbolsFrom 0 maxLength lengths
    rw [hnodes, hspace]
    omega
  | succ height ih =>
    have hcount : (symbolsOfLength lengths (maxLength - (height + 1))).length =
        lengths.count (maxLength - (height + 1)) := length_symbolsFrom 0 _ lengths
    have hpairs : ((nodesAbove lengths height).length + 1) / 2 * 2 ^ (height + 1) ≤
        ((nodesAbove lengths height).length + 1) * 2 ^ height := by
      have hhalf : ((nodesAbove lengths height).length + 1) / 2 * 2 ≤
          (nodesAbove lengths height).length + 1 := Nat.div_mul_le_self _ 2
      calc ((nodesAbove lengths height).length + 1) / 2 * 2 ^ (height + 1)
          = ((nodesAbove lengths height).length + 1) / 2 * 2 * 2 ^ height := by ring
        _ ≤ ((nodesAbove lengths height).length + 1) * 2 ^ height :=
          Nat.mul_le_mul_right _ hhalf
    have hbelow := ih (by omega)
    rw [nodesAbove, List.length_append, hcount, CodeTree.length_pairUp, space_succ (by omega),
      Nat.add_mul, Nat.pow_succ 2 height]
    rw [Nat.pow_succ, Nat.add_mul] at hpairs
    omega

/-- Only words that count take space. -/
theorem space_le_spaceTaken {height : Nat} (hheight : height < maxLength) (lengths : List Nat) :
    space lengths height ≤ spaceTaken lengths := by
  induction lengths with
  | nil => exact Nat.le_refl 0
  | cons length lengths ih =>
    rw [space, List.map_cons, List.sum_cons, ← space]
    by_cases hpos : 0 < length
    · have hcost : cost height length ≤ Word.size (maxLength - length) := by
        rw [cost]
        split
        · exact Nat.le_refl _
        · exact Nat.zero_le _
      have hcons : spaceTaken (length :: lengths) =
          Word.size (maxLength - length) + spaceTaken lengths := by
        rw [spaceTaken, List.filter_cons_of_pos (by simpa using hpos), List.foldr_cons]
        rfl
      rw [hcons]
      exact Nat.add_le_add hcost ih
    · have hcost : cost height length = 0 := if_neg (by omega)
      have hcons : spaceTaken (length :: lengths) = spaceTaken lengths := by
        rw [spaceTaken, List.filter_cons_of_neg (by simpa using hpos)]
        rfl
      rw [hcost, hcons, Nat.zero_add]
      exact ih

/-- Words that do not take more space than there is find a place below two nodes. -/
theorem length_top_le (h : spaceTaken lengths ≤ Word.size maxLength) :
    (nodesAbove lengths (maxLength - 1)).length ≤ 2 := by
  have hheight : maxLength - 1 < maxLength := by decide
  have hnodes := length_nodesAbove_le hheight lengths
  have hspace := space_le_spaceTaken hheight lengths
  have hsize : Word.size maxLength = 2 * 2 ^ (maxLength - 1) := rfl
  have hpower : 0 < 2 ^ (maxLength - 1) := Nat.two_pow_pos _
  by_contra hmany
  have hthree : 3 * 2 ^ (maxLength - 1) ≤
      (nodesAbove lengths (maxLength - 1)).length * 2 ^ (maxLength - 1) :=
    Nat.mul_le_mul_right _ (by omega)
  omega

/-- A complete code does not take more space than there is. -/
theorem spaceTaken_le_of_isComplete (h : isComplete lengths = true) :
    spaceTaken lengths ≤ Word.size maxLength :=
  Nat.le_of_eq (of_decide_eq_true h)

/-! ## Codes -/

/-- What is read is the symbol of the word in front. -/
theorem exists_isWord_of_decode {bits rest : Bits}
    (h : (ofLengths lengths).decode bits = .symbol symbol rest) :
    ∃ word, IsWord lengths symbol word ∧ bits = word ++ rest := by
  cases bits with
  | nil => cases h
  | cons b bits =>
    -- The two trees of the code are the first two nodes at depth one.
    have hnode : ∃ tree, (nodesAbove lengths (maxLength - 1))[b.toNat]? = some tree ∧
        tree.decode bits = .symbol symbol rest := by
      rw [ofLengths] at h
      generalize nodesAbove lengths (maxLength - 1) = nodes at h ⊢
      rcases nodes with _ | ⟨zero, _ | ⟨one, others⟩⟩ <;> cases b
      case cons.nil.false => exact ⟨zero, rfl, h⟩
      case cons.cons.false => exact ⟨zero, rfl, h⟩
      case cons.cons.true => exact ⟨one, rfl, h⟩
      all_goals cases h
    obtain ⟨tree, htree, hdecode⟩ := hnode
    obtain ⟨word, hleads, rfl⟩ := CodeTree.exists_leads_of_decode hdecode
    have hnode : Numbered lengths (0 + 1) (2 * 0 + b.toNat) word symbol := by
      rw [Nat.mul_zero, Nat.zero_add, Nat.zero_add]
      exact numbered_of_nodesAbove (by decide) htree hleads
    obtain ⟨hlength, hle, hnumber⟩ := hnode.cons
    rw [firstWord, wordCount, Nat.zero_add, Nat.zero_mul, Nat.zero_add] at hnumber
    rw [Nat.zero_add] at hlength hle hnumber
    exact ⟨b :: word, ⟨hlength, Nat.succ_pos _, hle, hnumber⟩, rfl⟩

/-- Where words do not take more space than there is, a word in front is read as its symbol. -/
theorem decode_of_isWord (hspace : spaceTaken lengths ≤ Word.size maxLength)
    (h : IsWord lengths symbol word) (rest : Bits) :
    (ofLengths lengths).decode (word ++ rest) = .symbol symbol rest := by
  obtain ⟨word', hword'⟩ := Option.isSome_iff_exists.mp
    (isSome_word?_ofLengths (length_top_le hspace) h.length_eq h.length_pos h.length_le)
  have hread := decode_of_word? hword' rest
  obtain ⟨found, hfound, happend⟩ := exists_isWord_of_decode hread
  obtain rfl := h.unique hfound
  rw [← happend]
  exact hread

end PrefixCode
end HostKit
