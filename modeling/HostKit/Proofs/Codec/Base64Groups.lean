import HostKit.Codec.Base64
import HostKit.Success

/-!
# Groups of Base64 symbols

The symbol of a value below sixty-four is read as that value, and no symbol is the equality sign.
So the symbols of three bytes give these bytes back, and those of a shorter last group do so with
the equality signs that were agreed on, since the bits that it leaves over are zero.
-/

namespace HostKit.Base64

variable (padding : Padding)

/-! ## Symbols -/

/-- A symbol has its value. -/
theorem value?_symbol {value : Nat} (h : value < 64) : value? (symbol value) = some value := by
  have hall : ∀ value < 64, value? (symbol value) = some value := by decide
  exact hall value h

/-- A symbol is not the equality sign. -/
theorem symbol_ne_pad {value : Nat} (h : value < 64) : symbol value ≠ pad := by
  have hall : ∀ value < 64, symbol value ≠ pad := by decide
  exact hall value h

/-- A symbol is read as its value at any offset. -/
theorem valueAt_symbol {value : Nat} (h : value < 64) (offset : Nat) :
    valueAt offset (symbol value) = .ok value := by
  rw [valueAt, value?_symbol h]

/-- The high six bits of a byte are a value, and so are the other pieces that symbols stand for. -/
theorem values_lt (a b c : UInt8) :
    a.toNat / 4 < 64 ∧ a.toNat % 4 * 16 + b.toNat / 16 < 64 ∧
      b.toNat % 16 * 4 + c.toNat / 64 < 64 ∧ c.toNat % 64 < 64 := by
  have ha := a.toNat_lt
  have hb := b.toNat_lt
  have hc := c.toNat_lt
  omega

/-- The value of a byte makes up this byte. -/
theorem toUInt8_of_eq_toNat {n : Nat} {b : UInt8} (h : n = b.toNat) : n.toUInt8 = b := by
  rw [h, Nat.toUInt8_eq, UInt8.ofNat_toNat]

/-- The values of a full group make up its three bytes. -/
theorem groupBytes_values (a b c : UInt8) :
    groupBytes (a.toNat / 4) (a.toNat % 4 * 16 + b.toNat / 16)
      (b.toNat % 16 * 4 + c.toNat / 64) (c.toNat % 64) = [a, b, c] := by
  have hb := b.toNat_lt
  have hc := c.toNat_lt
  rw [groupBytes, toUInt8_of_eq_toNat (b := a) (by omega), toUInt8_of_eq_toNat (b := b) (by omega),
    toUInt8_of_eq_toNat (b := c) (by omega)]

/-! ## The last group -/

/-- Symbols in front of any equality sign are taken with their values. -/
theorem scanLast_symbols {values : List Nat} (h : ∀ value ∈ values, value < 64)
    (start index : Nat) (seen : List (UInt8 × Nat)) (rest : Bytes) :
    scanLast start index ⟨seen, 0, 0⟩ (values.map symbol ++ rest) =
      scanLast start (index + values.length)
        ⟨seen ++ values.map fun value => (symbol value, value), 0, 0⟩ rest := by
  induction values generalizing index seen with
  | nil => simp
  | cons value values ih =>
    have hvalue : value < 64 := h value List.mem_cons_self
    have hlater : ∀ value ∈ values, value < 64 := fun value hmem =>
      h value (List.mem_cons_of_mem _ hmem)
    rw [List.map_cons, List.cons_append, scanLast, if_neg (symbol_ne_pad hvalue),
      if_neg (Nat.lt_irrefl 0), value?_symbol hvalue]
    dsimp only
    rw [ih hlater, List.length_cons, List.map_cons, List.append_assoc, Nat.add_assoc,
      Nat.add_comm 1]
    rfl

/-- Equality signs after two symbols or more are counted. -/
theorem exists_scanLast_pads (count start : Nat) {index : Nat} (hindex : 2 ≤ index)
    (seen : LastGroup) :
    ∃ firstPad, scanLast start index seen (List.replicate count pad) =
      .ok ⟨seen.symbols, seen.padding + count, firstPad⟩ := by
  induction count generalizing index seen with
  | zero => exact ⟨seen.firstPad, rfl⟩
  | succ count ih =>
    rw [List.replicate_succ, scanLast, if_pos rfl, if_neg (Nat.not_lt_of_le hindex)]
    obtain ⟨firstPad, hscan⟩ := ih (Nat.le_succ_of_le hindex)
      ⟨seen.symbols, seen.padding + 1, if seen.padding = 0 then index else seen.firstPad⟩
    refine ⟨firstPad, ?_⟩
    rw [hscan, Nat.add_assoc, Nat.add_comm 1]

/-- A last group that is filled up as agreed is read as the bytes of its symbols. -/
theorem decodeLast_fill {values : List Nat} (h : ∀ value ∈ values, value < 64)
    (htwo : 2 ≤ values.length) (hfour : values.length ≤ 4) (start : Nat) :
    decodeLast padding start (values.map symbol ++ padding.fill (4 - values.length)) =
      lastBytes start (values.map fun value => (symbol value, value)) := by
  have hscan : ∃ pads firstPad,
      scanLast start 0 ⟨[], 0, 0⟩ (values.map symbol ++ padding.fill (4 - values.length)) =
        .ok ⟨values.map fun value => (symbol value, value), pads, firstPad⟩ ∧
      padding.allows values.length pads = true := by
    rw [scanLast_symbols h, Nat.zero_add, List.nil_append]
    cases padding with
    | required =>
      obtain ⟨firstPad, hpads⟩ := exists_scanLast_pads (4 - values.length) start htwo
        ⟨values.map fun value => (symbol value, value), 0, 0⟩
      refine ⟨_, firstPad, hpads, ?_⟩
      simp only [Padding.allows, decide_eq_true_eq]
      omega
    | absent => exact ⟨0, 0, rfl, rfl⟩
  obtain ⟨pads, firstPad, hscan, hallows⟩ := hscan
  rw [decodeLast, hscan, Success.bind_ok]
  dsimp only
  rw [List.length_map, if_neg (Nat.not_lt_of_le htwo), if_pos hallows]

/-- A last group of one byte is read back. -/
theorem decodeLast_one (a : UInt8) (start : Nat) :
    decodeLast padding start
      (symbol (a.toNat / 4) :: symbol (a.toNat % 4 * 16) :: padding.fill 2) = .ok [a] := by
  have ha := a.toNat_lt
  have hvalues : ∀ value ∈ [a.toNat / 4, a.toNat % 4 * 16], value < 64 := by
    simp only [List.mem_cons, List.not_mem_nil, or_false, forall_eq_or_imp, forall_eq]
    omega
  have hlast : a.toNat % 4 * 16 % 16 = 0 := Nat.mul_mod_left _ 16
  have hread := decodeLast_fill padding hvalues (by simp) (by simp) start
  refine hread.trans ?_
  rw [List.map_cons, List.map_cons, List.map_nil, lastBytes, if_pos hlast,
    toUInt8_of_eq_toNat (b := a) (by omega)]

/-- A last group of two bytes is read back. -/
theorem decodeLast_two (a b : UInt8) (start : Nat) :
    decodeLast padding start
      (symbol (a.toNat / 4) :: symbol (a.toNat % 4 * 16 + b.toNat / 16) ::
        symbol (b.toNat % 16 * 4) :: padding.fill 1) = .ok [a, b] := by
  have ha := a.toNat_lt
  have hb := b.toNat_lt
  have hvalues : ∀ value ∈ [a.toNat / 4, a.toNat % 4 * 16 + b.toNat / 16, b.toNat % 16 * 4],
      value < 64 := by
    simp only [List.mem_cons, List.not_mem_nil, or_false, forall_eq_or_imp, forall_eq]
    omega
  have hlast : b.toNat % 16 * 4 % 4 = 0 := Nat.mul_mod_left _ 4
  have hread := decodeLast_fill padding hvalues (by simp) (by simp) start
  refine hread.trans ?_
  rw [List.map_cons, List.map_cons, List.map_cons, List.map_nil, lastBytes, if_pos hlast,
    toUInt8_of_eq_toNat (b := a) (by omega), toUInt8_of_eq_toNat (b := b) (by omega)]

/-- A last group of three bytes is read back. -/
theorem decodeLast_three (a b c : UInt8) (start : Nat) :
    decodeLast padding start
      [symbol (a.toNat / 4), symbol (a.toNat % 4 * 16 + b.toNat / 16),
        symbol (b.toNat % 16 * 4 + c.toNat / 64), symbol (c.toNat % 64)] = .ok [a, b, c] := by
  obtain ⟨hw, hx, hy, hz⟩ := values_lt a b c
  have hvalues : ∀ value ∈ [a.toNat / 4, a.toNat % 4 * 16 + b.toNat / 16,
      b.toNat % 16 * 4 + c.toNat / 64, c.toNat % 64], value < 64 := by
    simp only [List.mem_cons, List.not_mem_nil, or_false, forall_eq_or_imp, forall_eq]
    exact ⟨hw, hx, hy, hz⟩
  have hfill : padding.fill 0 = [] := by cases padding <;> rfl
  have hread := decodeLast_fill padding hvalues (by simp) (by simp) start
  rw [List.length_cons, List.length_cons, List.length_cons, List.length_cons, List.length_nil,
    hfill] at hread
  refine hread.trans ?_
  rw [List.map_cons, List.map_cons, List.map_cons, List.map_cons, List.map_nil, lastBytes,
    groupBytes_values]

/-! ## Whole texts -/

/-- At most four symbols are a last group. -/
theorem decodeGroups_of_length_le {group : Bytes} (h : group.length ≤ 4) (start : Nat) :
    decodeGroups padding start group = decodeLast padding start group := by
  match group, h with
  | [], _ | [_], _ | [_, _], _ | [_, _, _], _ | [_, _, _, _], _ => rfl

/-- A group of four symbols with more after it is read first. -/
theorem decodeGroups_group (a b c : UInt8) (start : Nat) {symbols : Bytes} (h : symbols ≠ []) :
    decodeGroups padding start
        (symbol (a.toNat / 4) :: symbol (a.toNat % 4 * 16 + b.toNat / 16) ::
          symbol (b.toNat % 16 * 4 + c.toNat / 64) :: symbol (c.toNat % 64) :: symbols) =
      (decodeGroups padding (start + 4) symbols).map fun later => a :: b :: c :: later := by
  obtain ⟨hw, hx, hy, hz⟩ := values_lt a b c
  obtain ⟨first, rest, rfl⟩ := List.exists_cons_of_ne_nil h
  rw [decodeGroups, valueAt_symbol hw, Success.bind_ok, valueAt_symbol hx, Success.bind_ok,
    valueAt_symbol hy, Success.bind_ok, valueAt_symbol hz, Success.bind_ok, groupBytes_values]
  cases decodeGroups padding (start + 4) (first :: rest) <;> rfl

/-- Data has symbols if there is any. -/
theorem encode_ne_nil {data : Bytes} (h : data ≠ []) : encode padding data ≠ [] := by
  match data, h with
  | [_], _ | [_, _], _ | _ :: _ :: _ :: _, _ => exact List.cons_ne_nil _ _

/-- There is never a single symbol too many. -/
theorem length_encode_mod (data : Bytes) : (encode padding data).length % 4 ≠ 1 := by
  induction data using encode.induct with
  | case1 => simp [encode]
  | case2 a => cases padding <;> simp [encode, Padding.fill]
  | case3 a b => cases padding <;> simp [encode, Padding.fill]
  | case4 a b c rest ih =>
    simp only [encode, List.length_cons]
    omega

/-- The groups of the data are read back, wherever they start. -/
theorem decodeGroups_encode {data : Bytes} (h : data ≠ []) (start : Nat) :
    decodeGroups padding start (encode padding data) = .ok data := by
  have hfill (missing : Nat) : (padding.fill missing).length ≤ missing := by
    cases padding <;> simp [Padding.fill]
  induction data using encode.induct generalizing start with
  | case1 => exact absurd rfl h
  | case2 a =>
    have hlength := hfill 2
    rw [encode, decodeGroups_of_length_le, decodeLast_one]
    simp only [List.length_cons]
    omega
  | case3 a b =>
    have hlength := hfill 1
    rw [encode, decodeGroups_of_length_le, decodeLast_two]
    simp only [List.length_cons]
    omega
  | case4 a b c rest ih =>
    rw [encode]
    -- A full group at the end is read as a last group, any other one as a group before others.
    by_cases hrest : rest = []
    · rw [hrest, encode]
      exact decodeLast_three padding a b c start
    · rw [decodeGroups_group padding a b c start (encode_ne_nil padding hrest), ih hrest]
      rfl

/-- The symbols of the data are read as the data. -/
theorem decode_encode (data : Bytes) : decode padding (encode padding data) = .ok data := by
  by_cases hdata : data = []
  · rw [hdata]
    rfl
  · have hlength := length_encode_mod padding data
    have hgroups := decodeGroups_encode padding hdata 0
    obtain ⟨first, rest, hencode⟩ := List.exists_cons_of_ne_nil (encode_ne_nil padding hdata)
    rw [hencode] at hlength hgroups ⊢
    exact (if_neg fun hodd => hlength hodd.1).trans hgroups

end HostKit.Base64
