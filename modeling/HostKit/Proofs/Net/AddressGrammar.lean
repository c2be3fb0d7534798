import HostKit.Net.Address

/-!
# The grammar of addresses

What an address looks like is said here without a reader: which numbers, which separators, and how
many groups there are on the two sides of a double colon. The readers take as many digits and
groups as they can and never go back. They accept the grammar all the same, because what may follow
a number or a row of groups in an address cannot be taken for more of it.
-/

namespace HostKit.IpAddress

/-! ## What an address looks like -/

/-- Digits of the radix, at least one of them and at most so many. -/
structure IsNumber (radix most : Nat) (t : Text) : Prop where
  ne_nil : t ≠ []
  length_le : t.length ≤ most
  digits : ∀ c ∈ t, isDigitOf radix c = true

/-- A decimal number below 256 without leading zeros. -/
structure IsOctet (t : Text) : Prop extends IsNumber 10 3 t where
  no_leading_zero : t.head? = some '0' → t.length = 1
  value_lt : numberOf 10 t < 256

/-- An IPv4 address: four such numbers with dots between them. -/
def IsDotted (t : Text) : Prop :=
  ∃ a b c d, IsOctet a ∧ IsOctet b ∧ IsOctet c ∧ IsOctet d ∧
    t = a ++ '.' :: (b ++ '.' :: (c ++ '.' :: d))

/-- A row of so many groups of sixteen bits with colons between them. The last two of them may be
written as an IPv4 address, and the flag says whether they are. -/
inductive IsRow : Bool → Nat → Text → Prop where
  | group {t : Text} (h : IsNumber 16 4 t) : IsRow false 1 t
  | dotted {t : Text} (h : IsDotted t) : IsRow true 2 t
  | cons {t rest : Text} {embedded : Bool} {n : Nat} (h : IsNumber 16 4 t)
      (hrest : IsRow embedded n rest) : IsRow embedded (n + 1) (t ++ ':' :: rest)

/-- One side of a double colon: nothing, or a row of groups. -/
def IsSide (embedded : Bool) (n : Nat) (t : Text) : Prop :=
  embedded = false ∧ n = 0 ∧ t = [] ∨ IsRow embedded n t

/-- An IPv6 address: eight groups, or a double colon in the place of at least one group, before
which there is no IPv4 address. -/
def IsColoned (t : Text) : Prop :=
  (∃ embedded, IsRow embedded 8 t) ∨
    ∃ head tail embedded h k, IsSide false h head ∧ IsSide embedded k tail ∧ h + k ≤ 7 ∧
      t = head ++ ':' :: ':' :: tail

/-- An address of either kind. -/
def IsAddress (t : Text) : Prop := IsDotted t ∨ IsColoned t

/-! ## Numbers -/

/-- A decimal digit is a hexadecimal digit. -/
theorem isDigitOf_mono {c : Char} (h : isDigitOf 10 c = true) : isDigitOf 16 c = true := by
  unfold isDigitOf at *
  cases hvalue : Text.digitValue? c with
  | none => simp [hvalue] at h
  | some value =>
    simp only [hvalue, decide_eq_true_eq] at h ⊢
    omega

variable {text rest t : Text} {radix most n room : Nat} {embedded first : Bool} {groups : List Nat}

/-- Whatever the text begins with, it is no digit of the radix. -/
def NoDigit (radix : Nat) (rest : Text) : Prop := ∀ c ∈ rest.head?, isDigitOf radix c = false

theorem noDigit_nil : NoDigit radix [] := by
  intro c hc
  cases hc

theorem noDigit_cons {c : Char} (h : isDigitOf radix c = false) (rest : Text) :
    NoDigit radix (c :: rest) := by
  intro d hd
  cases hd
  exact h

/-- All digits before a text that begins with none are taken. -/
theorem takeWhile_digits (ht : ∀ c ∈ t, isDigitOf radix c = true) (hrest : NoDigit radix rest) :
    (t ++ rest).takeWhile (isDigitOf radix) = t := by
  have hnone : rest.takeWhile (isDigitOf radix) = [] := by
    cases rest with
    | nil => rfl
    | cons c rest => exact List.takeWhile_cons_of_neg (by simp [hrest c rfl])
  rw [List.takeWhile_append_of_pos ht, hnone, List.append_nil]

/-- The digits at the front of a text, and what comes after them. -/
theorem eq_takeWhile_append_drop (p : Char → Bool) (text : Text) :
    text = text.takeWhile p ++ text.drop (text.takeWhile p).length := by
  conv => lhs; rw [← List.takeWhile_append_dropWhile (p := p) (l := text)]
  congr 1
  conv => rhs; arg 2; rw [← List.takeWhile_append_dropWhile (p := p) (l := text)]
  exact List.drop_left.symm

theorem readOctet_append (ht : IsOctet t) (hrest : NoDigit 10 rest) :
    readOctet (t ++ rest) = some (numberOf 10 t, rest) := by
  have hrefused : ¬(t = [] ∨ 3 < t.length ∨ (t.head? = some '0' ∧ 1 < t.length) ∨
      255 < numberOf 10 t) := by
    have hlength := ht.length_le
    have hvalue := ht.value_lt
    rintro (hnil | hlong | ⟨hzero, hmore⟩ | hlarge)
    · exact ht.ne_nil hnil
    · omega
    · have hone := ht.no_leading_zero hzero
      omega
    · omega
  simp only [readOctet, takeWhile_digits ht.digits hrest]
  rw [if_neg hrefused, List.drop_left]

theorem of_readOctet (h : readOctet text = some (n, rest)) :
    ∃ t, IsOctet t ∧ text = t ++ rest := by
  have hcut := eq_takeWhile_append_drop (isDigitOf 10) text
  have hdigits : ∀ c ∈ text.takeWhile (isDigitOf 10), isDigitOf 10 c = true :=
    fun c hc => List.all_eq_true.mp List.all_takeWhile c hc
  simp only [readOctet] at h
  split at h
  · cases h
  next hrefused =>
    simp only [not_or, not_and, Nat.not_lt] at hrefused
    obtain ⟨hnil, hlength, hzero, hvalue⟩ := hrefused
    cases h
    refine ⟨_, ⟨⟨hnil, hlength, hdigits⟩, fun hhead => ?_, by omega⟩, hcut⟩
    have hpos := List.length_pos_iff.mpr hnil
    have hone := hzero hhead
    omega

theorem readGroup_append (ht : IsNumber 16 4 t) (hrest : NoDigit 16 rest) :
    readGroup (t ++ rest) = some (numberOf 16 t, rest) := by
  have hrefused : ¬(t = [] ∨ 4 < t.length) := by
    have hlength := ht.length_le
    rintro (hnil | hlong)
    · exact ht.ne_nil hnil
    · omega
  simp only [readGroup, takeWhile_digits ht.digits hrest]
  rw [if_neg hrefused, List.drop_left]

theorem of_readGroup (h : readGroup text = some (n, rest)) :
    ∃ t, IsNumber 16 4 t ∧ text = t ++ rest := by
  have hcut := eq_takeWhile_append_drop (isDigitOf 16) text
  have hdigits : ∀ c ∈ text.takeWhile (isDigitOf 16), isDigitOf 16 c = true :=
    fun c hc => List.all_eq_true.mp List.all_takeWhile c hc
  simp only [readGroup] at h
  split at h
  · cases h
  next hrefused =>
    simp only [not_or, Nat.not_lt] at hrefused
    cases h
    exact ⟨_, ⟨hrefused.1, hrefused.2, hdigits⟩, hcut⟩

/-- A text that begins with no digit has no group at its front. -/
theorem readGroup_of_noDigit (h : NoDigit 16 rest) : readGroup rest = none := by
  have hnone : rest.takeWhile (isDigitOf 16) = [] := by
    simpa using takeWhile_digits (t := []) (by simp) h
  simp only [readGroup, hnone]
  rfl

/-! ## IPv4 addresses -/

theorem readChar_eq_some_iff {wanted : Char} :
    readChar wanted text = some rest ↔ text = wanted :: rest := by
  cases text with
  | nil => simp [readChar]
  | cons c text =>
    by_cases hc : c = wanted
    · simp [readChar, hc]
    · simp [readChar, hc]

theorem readV4_append (ht : IsDotted t) (hrest : NoDigit 10 rest) :
    ∃ octets, readV4 (t ++ rest) = some (octets, rest) := by
  obtain ⟨a, b, c, d, ha, hb, hc, hd, rfl⟩ := ht
  have hdot (rest : Text) : NoDigit 10 ('.' :: rest) := noDigit_cons (by decide) rest
  refine ⟨(numberOf 10 a, numberOf 10 b, numberOf 10 c, numberOf 10 d), ?_⟩
  simp only [readV4, List.append_assoc, List.cons_append, readOctet_append ha (hdot _),
    readOctet_append hb (hdot _), readOctet_append hc (hdot _), readOctet_append hd hrest,
    readChar, if_pos, Option.bind_eq_bind, Option.bind_some]

theorem of_readV4 {octets : Nat × Nat × Nat × Nat} (h : readV4 text = some (octets, rest)) :
    ∃ t, IsDotted t ∧ text = t ++ rest := by
  unfold readV4 at h
  obtain ⟨⟨a, t1⟩, h1, h⟩ := Option.bind_eq_some_iff.mp h
  obtain ⟨t2, h2, h⟩ := Option.bind_eq_some_iff.mp h
  obtain ⟨⟨b, t3⟩, h3, h⟩ := Option.bind_eq_some_iff.mp h
  obtain ⟨t4, h4, h⟩ := Option.bind_eq_some_iff.mp h
  obtain ⟨⟨c, t5⟩, h5, h⟩ := Option.bind_eq_some_iff.mp h
  obtain ⟨t6, h6, h⟩ := Option.bind_eq_some_iff.mp h
  obtain ⟨⟨d, t7⟩, h7, h⟩ := Option.bind_eq_some_iff.mp h
  obtain ⟨-, rfl⟩ : _ ∧ t7 = rest := by simpa using h
  obtain ⟨first, hfirst, rfl⟩ := of_readOctet h1
  obtain ⟨second, hsecond, rfl⟩ := of_readOctet h3
  obtain ⟨third, hthird, rfl⟩ := of_readOctet h5
  obtain ⟨fourth, hfourth, rfl⟩ := of_readOctet h7
  obtain rfl := readChar_eq_some_iff.mp h2
  obtain rfl := readChar_eq_some_iff.mp h4
  obtain rfl := readChar_eq_some_iff.mp h6
  exact ⟨_, ⟨first, second, third, fourth, hfirst, hsecond, hthird, hfourth, rfl⟩, by simp⟩

/-- Digits with a colon or nothing after them do not begin an IPv4 address, which has a dot after
its first number. -/
theorem readV4_of_no_dot (ht : ∀ c ∈ t, isDigitOf 16 c = true) (hrest : NoDigit 16 rest)
    (hdot : rest.head? ≠ some '.') : readV4 (t ++ rest) = none := by
  cases hread : readV4 (t ++ rest) with
  | none => rfl
  | some result =>
    obtain ⟨_, ⟨a, b, c, d, ha, -, -, -, rfl⟩, heq⟩ := of_readV4 hread
    rw [List.append_assoc, List.cons_append] at heq
    have hfirst : ∀ c ∈ a, isDigitOf 16 c = true := fun c hc => isDigitOf_mono (ha.digits c hc)
    have hsame := congrArg (List.takeWhile (isDigitOf 16)) heq
    rw [takeWhile_digits ht hrest, takeWhile_digits hfirst (noDigit_cons (by decide) _)] at hsame
    rw [hsame] at heq
    rw [List.append_cancel_left heq] at hdot
    exact absurd rfl hdot

/-! ## Rows of groups -/

/-- What comes after a row of groups: nothing, or a double colon. -/
def Stops (rest : Text) : Prop := rest = [] ∨ ∃ later, rest = ':' :: ':' :: later

theorem Stops.noDigit (h : Stops rest) (hradix : isDigitOf radix ':' = false) :
    NoDigit radix rest := by
  rcases h with rfl | ⟨later, rfl⟩
  · exact noDigit_nil
  · exact noDigit_cons hradix _

theorem Stops.no_dot (h : Stops rest) : rest.head? ≠ some '.' := by
  rcases h with rfl | ⟨later, rfl⟩
  · simp
  · simp

/-- No group is read where none can begin. -/
theorem readGroups_of_none (first : Bool) (text : Text)
    (hdotted : afterColon first readV4 text = none)
    (hgroup : afterColon first readGroup text = none) (room : Nat) :
    readGroups first room text = ([], false, text) := by
  cases room with
  | zero => rfl
  | succ room => rw [readGroups, hdotted, ite_self, hgroup]

/-- No group is read where nothing or a double colon follows. -/
theorem Stops.readGroups (h : Stops rest) (first : Bool) (room : Nat) :
    IpAddress.readGroups first room rest = ([], false, rest) := by
  have hnone {text : Text} (hdigit : NoDigit 16 text) (hdot : text.head? ≠ some '.') :
      readV4 text = none ∧ readGroup text = none :=
    ⟨readV4_of_no_dot (t := []) (by simp) hdigit hdot, readGroup_of_noDigit hdigit⟩
  cases first with
  | true =>
    obtain ⟨hdotted, hgroup⟩ := hnone (h.noDigit (by decide)) h.no_dot
    exact readGroups_of_none true rest hdotted hgroup room
  | false =>
    rcases h with rfl | ⟨later, rfl⟩
    · exact readGroups_of_none false [] rfl rfl room
    · obtain ⟨hdotted, hgroup⟩ := hnone (noDigit_cons (c := ':') (by decide) later) (by simp)
      exact readGroups_of_none false (':' :: ':' :: later) hdotted hgroup room

/-- After a colon a row is read as if it were the first, unless it is empty. -/
theorem readGroups_colon (h : (readGroups true room text).1 ≠ []) :
    readGroups false room (':' :: text) = readGroups true room text := by
  have hafter {α : Type} (read : Reader α) :
      afterColon false read (':' :: text) = afterColon true read text := rfl
  cases room with
  | zero => exact absurd rfl h
  | succ room =>
    rw [readGroups] at h
    rw [readGroups, readGroups, hafter, hafter]
    split
    · rfl
    · next hdotted =>
      rw [hdotted] at h
      split
      · next hgroup =>
        rw [hgroup] at h
        exact absurd rfl h
      · rfl

/-- A group that no dot follows is read as the first one of a row. -/
theorem readGroups_group {later : Text} (ht : IsNumber 16 4 t) (hrest : NoDigit 16 rest)
    (hdot : rest.head? ≠ some '.')
    (hread : readGroups false room rest = (groups, embedded, later)) :
    readGroups true (room + 1) (t ++ rest) = (numberOf 16 t :: groups, embedded, later) := by
  have hdotted : afterColon true readV4 (t ++ rest) = none :=
    readV4_of_no_dot ht.digits hrest hdot
  have hgroup : afterColon true readGroup (t ++ rest) = some (numberOf 16 t, rest) :=
    readGroup_append ht hrest
  rw [readGroups, hdotted, ite_self, hgroup]
  dsimp only
  rw [hread]

/-- A row is read whole, as long as there is room for it. -/
theorem IsRow.readGroups (h : IsRow embedded n text) (hroom : n ≤ room) (hrest : Stops rest) :
    ∃ groups, groups.length = n ∧ groups ≠ [] ∧
      IpAddress.readGroups true room (text ++ rest) = (groups, embedded, rest) := by
  induction h generalizing room with
  | group ht =>
    obtain ⟨room, rfl⟩ : ∃ less, room = less + 1 := ⟨room - 1, by omega⟩
    exact ⟨_, rfl, by simp, readGroups_group ht (hrest.noDigit (by decide)) hrest.no_dot
      (hrest.readGroups false room)⟩
  | dotted ht =>
    obtain ⟨room, rfl⟩ : ∃ less, room = less + 2 := ⟨room - 2, by omega⟩
    obtain ⟨octets, hread⟩ := readV4_append ht (hrest.noDigit (by decide))
    have hdotted : afterColon true readV4 (_ ++ rest) = some (octets, rest) := hread
    rw [IpAddress.readGroups, if_neg (by omega), hdotted]
    exact ⟨_, rfl, by simp, rfl⟩
  | @cons t later embedded n ht _ ih =>
    obtain ⟨room, rfl⟩ : ∃ less, room = less + 1 := ⟨room - 1, by omega⟩
    have hroom : n ≤ room := by omega
    obtain ⟨groups, hlength, hnil, hread⟩ := ih hroom
    have hcolon : IpAddress.readGroups false room (':' :: (later ++ rest)) =
        (groups, embedded, rest) := by
      rw [readGroups_colon (by rw [hread]; exact hnil), hread]
    refine ⟨numberOf 16 t :: groups, by simp [hlength], by simp, ?_⟩
    rw [List.append_assoc, List.cons_append]
    exact readGroups_group ht (noDigit_cons (by decide) _) (by simp) hcolon

/-- A side of a double colon is read whole, as long as there is room for it. -/
theorem IsSide.readGroups (h : IsSide embedded n text) (hroom : n ≤ room) (hrest : Stops rest) :
    ∃ groups, groups.length = n ∧
      IpAddress.readGroups true room (text ++ rest) = (groups, embedded, rest) := by
  rcases h with ⟨rfl, rfl, rfl⟩ | hrow
  · exact ⟨[], rfl, hrest.readGroups true room⟩
  · obtain ⟨groups, hlength, -, hread⟩ := hrow.readGroups hroom hrest
    exact ⟨groups, hlength, hread⟩

theorem of_afterColon {α : Type} {read : Reader α} {a : α}
    (h : afterColon first read text = some (a, rest)) :
    ∃ start, text = (if first then [] else [':']) ++ start ∧ read start = some (a, rest) := by
  cases first with
  | true => exact ⟨text, rfl, h⟩
  | false =>
    obtain ⟨start, hcolon, hread⟩ := Option.bind_eq_some_iff.mp h
    exact ⟨start, readChar_eq_some_iff.mp hcolon, hread⟩

/-- What has been read as groups is a row, after a colon if it is not the first of its row. -/
theorem of_readGroups (h : readGroups first room text = (groups, embedded, rest)) :
    groups = [] ∧ embedded = false ∧ rest = text ∨
      groups.length ≤ room ∧ ∃ row, IsRow embedded groups.length row ∧
        text = (if first then [] else [':']) ++ (row ++ rest) := by
  induction room generalizing first text groups embedded rest with
  | zero =>
    cases h
    exact .inl ⟨rfl, rfl, rfl⟩
  | succ room ih =>
    rw [readGroups] at h
    split at h
    · next hdotted =>
      by_cases hroom : room = 0
      · simp [hroom] at hdotted
      rw [if_neg hroom] at hdotted
      obtain ⟨start, rfl, hread⟩ := of_afterColon hdotted
      obtain ⟨t, ht, rfl⟩ := of_readV4 hread
      cases h
      exact .inr ⟨by simp; omega, t, .dotted ht, rfl⟩
    split at h
    · cases h
      exact .inl ⟨rfl, rfl, rfl⟩
    · next hgroup =>
      obtain ⟨start, rfl, hread⟩ := of_afterColon hgroup
      obtain ⟨t, ht, rfl⟩ := of_readGroup hread
      rcases hlater : readGroups false room _ with ⟨later, embedded', rest'⟩
      rw [hlater] at h
      cases h
      rcases ih hlater with ⟨rfl, rfl, rfl⟩ | ⟨hlength, row, hrow, rfl⟩
      · exact .inr ⟨by simp, t, .group ht, rfl⟩
      · exact .inr ⟨by simpa using hlength, t ++ ':' :: row, .cons ht hrow, by simp⟩

/-- What has been read as a first row of groups is a side of a double colon. -/
theorem exists_side_of_readGroups (h : readGroups true room text = (groups, embedded, rest)) :
    groups.length ≤ room ∧ ∃ side, IsSide embedded groups.length side ∧ text = side ++ rest := by
  rcases of_readGroups h with ⟨rfl, rfl, rfl⟩ | ⟨hlength, row, hrow, heq⟩
  · exact ⟨Nat.zero_le _, [], .inl ⟨rfl, rfl, rfl⟩, rfl⟩
  · exact ⟨hlength, row, .inr hrow, heq⟩

/-! ## Addresses -/

/-- The text of an IPv6 address is read to its end. -/
theorem IsColoned.readV6 (h : IsColoned text) :
    ∃ groups, IpAddress.readV6 text = some (groups, []) := by
  rcases h with ⟨embedded, hrow⟩ | ⟨head, tail, embedded, h, k, hhead, htail, hsum, rfl⟩
  · obtain ⟨groups, hlength, -, hread⟩ := hrow.readGroups (Nat.le_refl 8) (.inl rfl)
    rw [List.append_nil] at hread
    exact ⟨groups, by simp [IpAddress.readV6, hread, hlength]⟩
  · have hroom : h ≤ 8 := by omega
    have hroom' : k ≤ 7 - h := by omega
    obtain ⟨front, hfront, hread⟩ := hhead.readGroups hroom (.inr ⟨tail, rfl⟩)
    obtain ⟨back, hback, hread'⟩ := htail.readGroups hroom' (.inl rfl)
    rw [List.append_nil] at hread'
    have hshort : ¬h = 8 := by omega
    refine ⟨front ++ List.replicate (8 - h - k) 0 ++ back, ?_⟩
    simp [IpAddress.readV6, hread, hfront, hshort, readChar, hread', hback]

/-- A text that is read to its end as an IPv6 address is one. -/
theorem isColoned_of_readV6 (h : readV6 text = some (groups, [])) : IsColoned text := by
  unfold readV6 at h
  rcases hhead : readGroups true 8 text with ⟨front, embedded, rest⟩
  rw [hhead] at h
  dsimp only at h
  obtain ⟨hroom, head, hside, rfl⟩ := exists_side_of_readGroups hhead
  split at h
  · next hlength =>
    cases h
    rw [hlength] at hside
    rcases hside with ⟨-, hzero, -⟩ | hrow
    · cases hzero
    · exact .inl ⟨embedded, by simpa using hrow⟩
  split at h
  · cases h
  · next hlength hembedded =>
    obtain ⟨start, hcolon, h'⟩ := Option.bind_eq_some_iff.mp h
    obtain ⟨later, hcolon', hlater⟩ := Option.bind_eq_some_iff.mp h'
    obtain rfl := readChar_eq_some_iff.mp hcolon
    obtain rfl := readChar_eq_some_iff.mp hcolon'
    rcases htail : readGroups true (7 - front.length) later with ⟨back, embedded', rest'⟩
    rw [htail] at hlater
    obtain ⟨-, rfl⟩ : _ ∧ rest' = [] := by simpa using hlater
    obtain ⟨hroom', tail, hside', rfl⟩ := exists_side_of_readGroups htail
    obtain rfl := Bool.eq_false_iff.mpr hembedded
    exact .inr ⟨head, tail, embedded', _, _, hside, hside', by omega, by simp⟩

/-- The texts that are accepted as addresses are those of the grammar. -/
theorem parse?_ne_none_iff : parse? text ≠ none ↔ IsAddress text := by
  have hparse : parse? text ≠ none ↔ (∃ octets, readV4 text = some (octets, [])) ∨
      ∃ groups, readV6 text = some (groups, []) := by
    unfold parse?
    split
    · next h4 => simp [h4]
    · next h4 =>
      have hnot : ¬∃ octets, readV4 text = some (octets, []) := fun ⟨_, h⟩ => h4 _ _ _ _ h
      split
      · next h6 => simp [h6]
      · next h6 =>
        have hnone : ¬∃ groups, readV6 text = some (groups, []) := fun ⟨_, h⟩ => h6 _ h
        simp only [ne_eq, not_true_eq_false, hnot, hnone, or_self]
  rw [hparse]
  constructor
  · rintro (⟨octets, h⟩ | ⟨groups, h⟩)
    · obtain ⟨t, ht, rfl⟩ := of_readV4 h
      exact .inl (by rwa [List.append_nil])
    · exact .inr (isColoned_of_readV6 h)
  · rintro (h | h)
    · have hread := readV4_append h noDigit_nil
      rw [List.append_nil] at hread
      exact .inl hread
    · exact .inr h.readV6

end HostKit.IpAddress
