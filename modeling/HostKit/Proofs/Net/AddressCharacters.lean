import HostKit.Proofs.Net.AddressGrammar
import HostKit.Proofs.Text.Blanks

/-!
# The characters of an address

The grammar of addresses has hexadecimal digits, dots and colons only, so a text that is accepted
as an address consists of these. No separator of a hosts file and no blank is among them.
-/

namespace HostKit.IpAddress

/-- The characters that addresses are written with. -/
def IsAddressCharacter (c : Char) : Prop := isDigitOf 16 c = true ∨ c = '.' ∨ c = ':'

instance (c : Char) : Decidable (IsAddressCharacter c) := inferInstanceAs (Decidable (_ ∨ _))

variable {t : Text} {embedded : Bool} {n : Nat}

theorem IsOctet.forall_mem (h : IsOctet t) : ∀ c ∈ t, IsAddressCharacter c :=
  fun c hc => .inl (isDigitOf_mono (h.digits c hc))

theorem IsDotted.forall_mem (h : IsDotted t) : ∀ c ∈ t, IsAddressCharacter c := by
  obtain ⟨a, b, c, d, ha, hb, hc, hd, rfl⟩ := h
  have hdot : IsAddressCharacter '.' := .inr (.inl rfl)
  simp only [List.forall_mem_append, List.forall_mem_cons]
  exact ⟨ha.forall_mem, hdot, hb.forall_mem, hdot, hc.forall_mem, hdot, hd.forall_mem⟩

theorem IsRow.forall_mem (h : IsRow embedded n t) : ∀ c ∈ t, IsAddressCharacter c := by
  induction h with
  | group ht => exact fun c hc => .inl (ht.digits c hc)
  | dotted ht => exact ht.forall_mem
  | cons ht _ ih =>
    simp only [List.forall_mem_append, List.forall_mem_cons]
    exact ⟨fun c hc => .inl (ht.digits c hc), .inr (.inr rfl), ih⟩

theorem IsSide.forall_mem (h : IsSide embedded n t) : ∀ c ∈ t, IsAddressCharacter c := by
  rcases h with ⟨-, -, rfl⟩ | hrow
  · simp
  · exact hrow.forall_mem

/-- An address has characters of addresses only. -/
theorem IsAddress.forall_mem (h : IsAddress t) : ∀ c ∈ t, IsAddressCharacter c := by
  rcases h with hdotted | ⟨_, hrow⟩ | ⟨head, tail, _, _, _, hhead, htail, -, rfl⟩
  · exact hdotted.forall_mem
  · exact hrow.forall_mem
  · have hcolon : IsAddressCharacter ':' := .inr (.inr rfl)
    simp only [List.forall_mem_append, List.forall_mem_cons]
    exact ⟨hhead.forall_mem, hcolon, hcolon, htail.forall_mem⟩

/-- A text that is an address has characters of addresses only. -/
theorem forall_mem_of_parse? {text : Text} (h : parse? text ≠ none) :
    ∀ c ∈ text, IsAddressCharacter c := (parse?_ne_none_iff.mp h).forall_mem

/-- An address has none of the characters that separate fields and lines. -/
theorem not_mem_of_parse? {text : Text} (h : parse? text ≠ none) {c : Char}
    (hc : ¬IsAddressCharacter c) : c ∉ text :=
  fun hmem => hc (forall_mem_of_parse? h c hmem)

/-- No address has a blank. -/
theorem isBlank_of_mem {text : Text} (h : parse? text ≠ none) {c : Char} (hc : c ∈ text) :
    Text.isBlank c = false := by
  rcases forall_mem_of_parse? h c hc with hdigit | rfl | rfl
  · unfold isDigitOf at hdigit
    split at hdigit
    · next value hvalue => exact Text.isBlank_of_digitValue? hvalue
    · cases hdigit
  · decide
  · decide

/-- No address is the empty text. -/
theorem ne_nil_of_parse? {text : Text} (h : parse? text ≠ none) : text ≠ [] := by
  rintro rfl
  exact h (by decide)

end HostKit.IpAddress
