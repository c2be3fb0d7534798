import HostKit.Compression.Lz77

/-!
# Expanding what the search found

The search may propose any place, since a copy is taken only as far as the bytes there are the
same as those to come. So the items describe the data whatever is proposed, within the limits of
the format, and expanding them gives the data back, also where a copy runs into the bytes that it
produces itself.
-/

namespace HostKit.Lz77

variable {limits : Limits} {data out : Array UInt8} {position : Nat}

/-! ## Output that is a part of the data -/

/-- The output is the data up to a position. -/
structure Reaches (data out : Array UInt8) (position : Nat) : Prop where
  le : position ≤ data.size
  toList : out.toList = data.toList.take position

/-- No output is the data up to its start. -/
theorem reaches_empty (data : Array UInt8) : Reaches data #[] 0 := ⟨Nat.zero_le _, by simp⟩

/-- The output is as long as the position tells. -/
theorem Reaches.size (h : Reaches data out position) : out.size = position := by
  rw [← Array.length_toList, h.toList, List.length_take, Array.length_toList]
  exact Nat.min_eq_left h.le

/-- Output that reaches the end is the data. -/
theorem Reaches.eq (h : Reaches data out data.size) : out = data := by
  apply Array.toList_inj.mp
  rw [h.toList, ← Array.length_toList, List.take_length]

/-- With the next byte the output reaches one position further. -/
theorem Reaches.push (h : Reaches data out position) (hlt : position < data.size) :
    Reaches data (out.push (data.getD position 0)) (position + 1) := by
  refine ⟨hlt, ?_⟩
  have hbyte : data.toList[position]? = some (data.getD position 0) := by simp [hlt]
  rw [Array.toList_push, h.toList, List.take_add_one, hbyte, Option.toList_some]

/-- A byte some distance back is the byte of the data there. -/
theorem Reaches.byteBack_eq (h : Reaches data out position) {distance : Nat} (hpos : 0 < distance)
    (hle : distance ≤ position) : byteBack out distance = data.getD (position - distance) 0 := by
  have hsize := h.size
  have hposition := h.le
  have hout : out.toList[position - distance]? = data.toList[position - distance]? := by
    rw [h.toList, List.getElem?_take_of_lt (by omega)]
  rw [Array.getElem?_toList, Array.getElem?_toList] at hout
  rw [byteBack, if_pos (by omega), hsize, Array.getD_eq_getD_getElem?, hout,
    Array.getD_eq_getD_getElem?]

/-- The bytes from a position on are those that stand a distance back. -/
def Repeats (data : Array UInt8) (position distance length : Nat) : Prop :=
  ∀ k < length, data.getD (position - distance + k) 0 = data.getD (position + k) 0

/-- A copy of bytes that are the same takes the output on by its length. -/
theorem Reaches.copied {distance length : Nat} (h : Reaches data out position)
    (hpos : 0 < distance) (hle : distance ≤ position) (hend : position + length ≤ data.size)
    (hrepeats : Repeats data position distance length) :
    Reaches data (copyBack distance length out) (position + length) := by
  induction length generalizing out position with
  | zero => exact h
  | succ length ih =>
    have hbyte : byteBack out distance = data.getD position 0 :=
      (h.byteBack_eq hpos hle).trans (hrepeats 0 (Nat.succ_pos length))
    have hlater : Repeats data (position + 1) distance length := by
      intro k hk
      have hnext := hrepeats (k + 1) (Nat.succ_lt_succ hk)
      rw [show position + 1 - distance + k = position - distance + (k + 1) by omega,
        show position + 1 + k = position + (k + 1) by omega]
      exact hnext
    rw [copyBack, hbyte, show position + (length + 1) = position + 1 + length by omega]
    exact ih (h.push (by omega)) (by omega) (by omega) hlater

/-- Items in a row are expanded one after the other. -/
theorem expand_append (out : Array UInt8) (items items' : List Item) :
    expand out (items ++ items') = expand (expand out items) items' := by
  induction items generalizing out with
  | nil => rfl
  | cons item items ih => cases item <;> exact ih _

/-- A copy adds its length. -/
theorem size_copyBack (distance length : Nat) (out : Array UInt8) :
    (copyBack distance length out).size = out.size + length := by
  induction length generalizing out with
  | zero => rfl
  | succ length ih =>
    rw [copyBack, ih, Array.size_push]
    omega

/-! ## What the search finds -/

/-- A match is no longer than there is room for. -/
theorem matchLength_le (data : Array UInt8) (earlier here room : Nat) :
    matchLength data earlier here room ≤ room := by
  induction room generalizing earlier here with
  | zero => exact Nat.le_refl 0
  | succ room ih =>
    rw [matchLength]
    split
    · exact Nat.succ_le_succ (ih _ _)
    · exact Nat.zero_le _

/-- The bytes of a match are the same at both places. -/
theorem getD_of_lt_matchLength {earlier here room k : Nat}
    (h : k < matchLength data earlier here room) :
    data.getD (earlier + k) 0 = data.getD (here + k) 0 := by
  induction room generalizing earlier here k with
  | zero => simp [matchLength] at h
  | succ room ih =>
    rw [matchLength] at h
    split at h
    · next hsame =>
      cases k with
      | zero => exact hsame.2.2
      | succ k =>
        have hlater := ih (Nat.lt_of_succ_lt_succ h)
        rw [show earlier + (k + 1) = earlier + 1 + k by omega,
          show here + (k + 1) = here + 1 + k by omega]
        exact hlater
    · exact absurd h (Nat.not_lt_zero k)

/-- A copy that a format allows. -/
structure Limits.Allows (limits : Limits) (distance length : Nat) : Prop where
  distance_pos : 0 < distance
  distance_le : distance ≤ limits.maxDistance
  length_ge : limits.minLength ≤ length
  length_le : length ≤ limits.maxLength

/-- Items that describe the data from a position on: a literal is the byte there, and a copy is one
that the format allows, of bytes that are the same. -/
inductive Describes (limits : Limits) (data : Array UInt8) : Nat → List Item → Prop where
  | done : Describes limits data data.size []
  | literal {position : Nat} {items : List Item} (lt : position < data.size)
      (rest : Describes limits data (position + 1) items) :
      Describes limits data position (.literal (data.getD position 0) :: items)
  | copy {position distance length : Nat} {items : List Item}
      (allowed : limits.Allows distance length) (distance_le : distance ≤ position)
      (end_le : position + length ≤ data.size) (repeats : Repeats data position distance length)
      (rest : Describes limits data (position + length) items) :
      Describes limits data position (.copy distance length :: items)

/-- A copy that is taken is allowed, stays within the data and copies bytes that are the same. -/
theorem of_copyLength_pos {earlier here : Nat} (hhere : here < data.size)
    (h : 0 < copyLength limits data earlier here) :
    limits.Allows (here - earlier) (copyLength limits data earlier here) ∧
      here - earlier ≤ here ∧ here + copyLength limits data earlier here ≤ data.size ∧
      Repeats data here (here - earlier) (copyLength limits data earlier here) := by
  unfold copyLength at h ⊢
  split at h
  · next hearlier =>
    rw [if_pos hearlier]
    dsimp only at h ⊢
    split at h
    · next hlong =>
      rw [if_pos hlong]
      have hroom := matchLength_le data earlier here
        (min limits.maxLength (data.size - limits.reserved - here))
      refine ⟨⟨by omega, hearlier.2, hlong, by omega⟩, by omega, by omega, ?_⟩
      intro k hk
      rw [show here - (here - earlier) = earlier by omega]
      exact getD_of_lt_matchLength hk
    · exact absurd h (Nat.lt_irrefl 0)
  · exact absurd h (Nat.lt_irrefl 0)

/-- The items that are found from a position on describe the data from there, after those found
before. -/
theorem exists_describes_itemsFrom (limits : Limits) (data : Array UInt8) (position : Nat)
    (seen : Std.HashMap Nat Nat) (found : Array Item) (h : position ≤ data.size) :
    ∃ items, (itemsFrom limits data position seen found).toList = found.toList ++ items ∧
      Describes limits data position items := by
  induction position, seen, found using itemsFrom.induct limits data with
  | case1 position seen found hlt here earlier length hlength hless ih =>
    obtain ⟨hallowed, hdistance, hend, hrepeats⟩ := of_copyLength_pos hlt hlength
    obtain ⟨items, htoList, hitems⟩ := ih hend
    refine ⟨.copy (position - earlier) length :: items, ?_,
      .copy hallowed hdistance hend hrepeats hitems⟩
    rw [itemsFrom, dif_pos hlt, dif_pos hlength, htoList]
    simp
  | case2 position seen found hlt here earlier length hlength ih =>
    obtain ⟨items, htoList, hitems⟩ := ih hlt
    refine ⟨.literal (data.getD position 0) :: items, ?_, .literal hlt hitems⟩
    rw [itemsFrom, dif_pos hlt, dif_neg hlength, htoList]
    simp [hlt]
  | case3 position seen found hlt =>
    obtain rfl : position = data.size := by omega
    refine ⟨[], ?_, .done⟩
    rw [itemsFrom, dif_neg hlt, List.append_nil]

/-- The items of the data describe it. -/
theorem describes_items (limits : Limits) (data : Bytes) :
    Describes limits data.toArray 0 (items limits data) := by
  obtain ⟨found, htoList, hfound⟩ :=
    exists_describes_itemsFrom limits data.toArray 0 ∅ #[] (Nat.zero_le _)
  rw [items, htoList]
  exact hfound

/-- The copies among the items are allowed. -/
theorem Describes.allows {items : List Item} (h : Describes limits data position items)
    {distance length : Nat} (hmem : .copy distance length ∈ items) :
    limits.Allows distance length := by
  induction h with
  | done => cases hmem
  | literal _ _ ih =>
    rcases List.mem_cons.mp hmem with heq | hmem
    · cases heq
    · exact ih hmem
  | copy hallowed _ _ _ _ ih =>
    rcases List.mem_cons.mp hmem with heq | hmem
    · cases heq
      exact hallowed
    · exact ih hmem

/-- Expanding items that describe the data from where the output has come to gives the data. -/
theorem Describes.expand_eq {items : List Item} (h : Describes limits data position items)
    (hout : Reaches data out position) : expand out items = data := by
  induction h generalizing out with
  | done => exact hout.eq
  | literal hlt _ ih => exact ih (hout.push hlt)
  | copy hallowed hdistance hend hrepeats _ ih =>
    exact ih (hout.copied hallowed.distance_pos hdistance hend hrepeats)

/-- Expanding the items of the data gives the data, whatever the limits. -/
theorem expand_items (limits : Limits) (data : Bytes) :
    expand #[] (items limits data) = data.toArray :=
  (describes_items limits data).expand_eq (reaches_empty _)

end HostKit.Lz77
