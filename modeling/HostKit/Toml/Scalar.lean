import HostKit.Decimal.Numeral
import HostKit.Toml.Value

/-!
# TOML scalars

Numbers, dates and the words for truth values run up to the next blank, comma, bracket or
comment. A number may have single underscores between its digits and no leading zeros; in the
radices two, eight and sixteen it has a mark in front and no sign. Strings stand between
quotes, and three quotes in a row let them span lines.
-/

namespace HostKit.Toml

/-- What is wrong with a document. -/
inductive Error where
  /-- The text is not of the form it should have at some place. -/
  | malformed
  /-- A key or a table is defined a second time, or extended where it may not be. -/
  | duplicate
  /-- Brackets and braces are nested too deeply. -/
  | tooDeep
  deriving Repr, DecidableEq

/-- The wording of an error. -/
def Error.message : Error → Text
  | .malformed => "the document is not valid TOML"
  | .duplicate => "a key or table is defined twice"
  | .tooDeep => "the document is nested too deeply"

/-- Whether the character is a blank or a tab. -/
def isSpace (c : Char) : Bool := c = ' ' || c = '\t'

/-- Whether the character may stand in a comment. -/
def isPlain (c : Char) : Bool := c = '\t' || (0x20 ≤ c.toNat && c.toNat ≠ 0x7f)

/-- The digits of a row that is not empty and in which underscores stand between digits only. -/
def digitRow? (isDigit : Char → Bool) : Text → Option Text
  | [] => none
  | [c] => if isDigit c then some [c] else none
  | c :: '_' :: rest => if isDigit c then (digitRow? isDigit rest).map (c :: ·) else none
  | c :: rest => if isDigit c then (digitRow? isDigit rest).map (c :: ·) else none

/-- Whether the character is a digit of the radix. -/
def isDigitOf (radix : Nat) (c : Char) : Bool :=
  match Text.digitValue? c with
  | some value => value < radix
  | none => false

/-- The number that digits of the radix stand for. -/
def numberOf (radix : Nat) (digits : Text) : Nat :=
  digits.foldl (fun n c => n * radix + (Text.digitValue? c).getD 0) 0

/-- A sign, if there is one, and the text after it. -/
def splitSign : Text → Bool × Text
  | '-' :: rest => (true, rest)
  | '+' :: rest => (false, rest)
  | rest => (false, rest)

/-- A row of decimal digits without a leading zero. -/
def wholeDigits? (text : Text) : Option Text :=
  match digitRow? Char.isDigit text with
  | some ('0' :: _ :: _) => none
  | digits => digits

/-- An integer. -/
def integer? (text : Text) : Option Int :=
  match text with
  | '0' :: 'x' :: digits => (digitRow? (isDigitOf 16) digits).map fun d => (numberOf 16 d : Int)
  | '0' :: 'o' :: digits => (digitRow? (isDigitOf 8) digits).map fun d => (numberOf 8 d : Int)
  | '0' :: 'b' :: digits => (digitRow? (isDigitOf 2) digits).map fun d => (numberOf 2 d : Int)
  | text =>
    let (negative, digits) := splitSign text
    (wholeDigits? digits).map fun d =>
      if negative then -(numberOf 10 d : Int) else (numberOf 10 d : Int)

/-- The power of ten after an exponent mark. -/
def power? (text : Text) : Option Int :=
  let (negative, digits) := splitSign text
  (digitRow? Char.isDigit digits).map fun d =>
    if negative then -(numberOf 10 d : Int) else (numberOf 10 d : Int)

/-- A finite number as a value. -/
def Value.ofFinite (x : Binary64) : Value := if x.isFinite then .float x else .tooLarge

/-- A floating point number: digits with a fraction, a power of ten or both. -/
def float? (text : Text) : Option Value :=
  let (negative, rest) := splitSign text
  if rest = "inf".toList then some (.float (.infinite negative))
  else if rest = "nan".toList then some (.float .nan)
  else
    let isMark := fun c => c == 'e' || c == 'E'
    let mantissa := rest.takeWhile fun c => !isMark c
    let afterMantissa := rest.drop mantissa.length
    let (whole, fraction) := (Text.splitFirst? '.' mantissa).getD (mantissa, [])
    let hasPoint := '.' ∈ mantissa
    if !hasPoint && afterMantissa = [] then none
    else do
      let wholeRow ← wholeDigits? whole
      let fractionRow ← if hasPoint then digitRow? Char.isDigit fraction else some []
      let power ← if afterMantissa = [] then some 0 else power? (afterMantissa.drop 1)
      let digits := numberOf 10 (wholeRow ++ fractionRow)
      some (.ofFinite (.ofDecimal negative digits (power - fractionRow.length)))

/-- A number of exactly so many decimal digits, and the text after it. -/
def fixedNumber? (count : Nat) (text : Text) : Option (Nat × Text) :=
  let digits := text.take count
  if digits.length = count ∧ digits.all Char.isDigit then
    some (numberOf 10 digits, text.drop count)
  else none

/-- How many days a month has. -/
def daysIn (year month : Nat) : Nat :=
  if month = 2 then
    if year % 4 = 0 ∧ (year % 100 ≠ 0 ∨ year % 400 = 0) then 29 else 28
  else if month = 4 ∨ month = 6 ∨ month = 9 ∨ month = 11 then 30
  else 31

/-- The text after a date. -/
def afterDate? (text : Text) : Option Text := do
  let (year, text) ← fixedNumber? 4 text
  let '-' :: text := text | none
  let (month, text) ← fixedNumber? 2 text
  let '-' :: text := text | none
  let (day, text) ← fixedNumber? 2 text
  if 1 ≤ month ∧ month ≤ 12 ∧ 1 ≤ day ∧ day ≤ daysIn year month then some text else none

/-- The text after the seconds of a time, which may be left out and may have a fraction. -/
def afterSeconds? (text : Text) : Option Text :=
  match text with
  | ':' :: rest =>
    match fixedNumber? 2 rest with
    | some (second, '.' :: digits) =>
      let fraction := digits.takeWhile Char.isDigit
      if second ≤ 60 ∧ fraction ≠ [] then some (digits.drop fraction.length) else none
    | some (second, rest) => if second ≤ 60 then some rest else none
    | none => none
  | rest => some rest

/-- The text after a time of day. -/
def afterTime? (text : Text) : Option Text := do
  let (hour, text) ← fixedNumber? 2 text
  let ':' :: text := text | none
  let (minute, text) ← fixedNumber? 2 text
  if hour ≤ 23 ∧ minute ≤ 59 then afterSeconds? text else none

/-- Whether the text is an offset from universal time, or empty. -/
def isOffset (text : Text) : Bool :=
  match text with
  | [] => true
  | ['Z'] | ['z'] => true
  | c :: rest =>
    (c = '+' || c = '-') &&
      match fixedNumber? 2 rest with
      | some (hour, ':' :: rest) =>
        match fixedNumber? 2 rest with
        | some (minute, []) => hour ≤ 23 && minute ≤ 59
        | _ => false
      | _ => false

/-- Whether the text is a date, a time, or both with or without an offset. -/
def isDateTime (text : Text) : Bool :=
  match afterDate? text with
  | some [] => true
  | some (c :: rest) =>
    (c = 'T' || c = 't' || c = ' ') &&
      match afterTime? rest with
      | some rest => isOffset rest
      | none => false
  | none =>
    match afterTime? text with
    | some [] => true
    | _ => false

/-- The scalar that a word is. -/
def scalar? (word : Text) : Option Value :=
  if word = "true".toList then some (.boolean true)
  else if word = "false".toList then some (.boolean false)
  else
    match integer? word, float? word with
    | some n, _ => some (.integer n)
    | none, some x => some x
    | none, none => if isDateTime word then some (.dateTime word) else none

/-- Whether the character may stand in a key without quotes. -/
def isKeyCharacter (c : Char) : Bool := c.isAlphanum || c = '_' || c = '-'

/-- The character of a code point, if it is one. -/
def character? (n : Nat) : Option Char :=
  if n < 0xd800 ∨ (0xdfff < n ∧ n < 0x110000) then some (Char.ofNat n) else none

/-- The character that so many hexadecimal digits stand for, and the text after them. -/
def hexCharacter? (count : Nat) (text : Text) : Option (Char × Text) :=
  let digits := text.take count
  if digits.length = count ∧ digits.all (isDigitOf 16) then
    (character? (numberOf 16 digits)).map fun c => (c, text.drop count)
  else none

/-- The character of an escape, after its backslash, and the text after it. -/
def escape? : Text → Option (Char × Text)
  | 'b' :: rest => some ('\x08', rest)
  | 't' :: rest => some ('\t', rest)
  | 'n' :: rest => some ('\n', rest)
  | 'f' :: rest => some ('\x0c', rest)
  | 'r' :: rest => some ('\r', rest)
  | 'e' :: rest => some ('\x1b', rest)
  | '"' :: rest => some ('"', rest)
  | '\\' :: rest => some ('\\', rest)
  | 'x' :: rest => hexCharacter? 2 rest
  | 'u' :: rest => hexCharacter? 4 rest
  | 'U' :: rest => hexCharacter? 8 rest
  | _ => none

/-- An escape takes its letter at least. -/
theorem escape?_rest_lt {text : Text} {c : Char} {rest : Text}
    (h : escape? text = some (c, rest)) : rest.length < text.length := by
  have hex {count : Nat} {text rest : Text} {c : Char}
      (h : hexCharacter? count text = some (c, rest)) : rest.length ≤ text.length := by
    unfold hexCharacter? at h
    dsimp only at h
    split at h
    · simp only [Option.map_eq_some_iff, Prod.mk.injEq] at h
      obtain ⟨_, _, _, rfl⟩ := h
      simp
    · simp at h
  unfold escape? at h
  split at h <;>
    first
      | (simp only [Option.some.injEq, Prod.mk.injEq] at h
         obtain ⟨_, rfl⟩ := h
         simp)
      | (have taken := hex h
         simp only [List.length_cons]; omega)
      | simp at h

/-- The rest of a string between single quotes, and the text after it. -/
def literalString : Text → Except Error (Text × Text)
  | [] => .error .malformed
  | c :: rest =>
    if c = '\'' then .ok ([], rest)
    else if isPlain c then (literalString rest).map fun (t, later) => (c :: t, later)
    else .error .malformed

/-- The rest of a string between double quotes, and the text after it. -/
def basicString (text : Text) : Except Error (Text × Text) :=
  match text with
  | [] => .error .malformed
  | '"' :: rest => .ok ([], rest)
  | '\\' :: rest =>
    match h : escape? rest with
    | none => .error .malformed
    | some (c, later) =>
      have : later.length < rest.length := escape?_rest_lt h
      (basicString later).map fun (t, last) => (c :: t, last)
  | c :: rest =>
    if isPlain c then (basicString rest).map fun (t, later) => (c :: t, later)
    else .error .malformed
  termination_by text.length

/-- Up to two more quotes after three closing ones belong to the string. -/
def closingQuotes (quote : Char) : Text → Text × Text
  | a :: b :: rest =>
    if a = quote then if b = quote then ([quote, quote], rest) else ([quote], b :: rest)
    else ([], a :: b :: rest)
  | [a] => if a = quote then ([quote], []) else ([], [a])
  | [] => ([], [])

/-- Whether three quotes stand at the front. -/
def startsWithThree (quote : Char) (text : Text) : Bool :=
  List.isPrefixOf [quote, quote, quote] text

/-- The rest of a string between three single quotes, and the text after it. -/
def longLiteralString (text : Text) : Except Error (Text × Text) :=
  match text with
  | [] => .error .malformed
  | c :: rest =>
    if startsWithThree '\'' text then .ok (closingQuotes '\'' (text.drop 3))
    else if c = '\r' ∧ rest.head? ≠ some '\n' then .error .malformed
    else if isPlain c ∨ c = '\n' ∨ c = '\r' then
      (longLiteralString rest).map fun (t, later) => (c :: t, later)
    else .error .malformed

/-- Blanks, tabs and line ends dropped from the front. -/
def dropSpaceAndLines (text : Text) : Text :=
  text.dropWhile fun c => isSpace c || c = '\n' || c = '\r'

/-- What follows a backslash that ends a line, if it does: nothing but space comes before the
end of its line. -/
def afterLineEnd? (text : Text) : Option Text :=
  match text.dropWhile isSpace with
  | '\n' :: rest => some (dropSpaceAndLines rest)
  | '\r' :: '\n' :: rest => some (dropSpaceAndLines rest)
  | _ => none

/-- A line end takes at least one character. -/
theorem afterLineEnd?_rest_lt {text rest : Text} (h : afterLineEnd? text = some rest) :
    rest.length < text.length := by
  have space := (List.dropWhile_sublist isSpace (l := text)).length_le
  unfold afterLineEnd? at h
  have lines (t : Text) := (List.dropWhile_sublist
    (fun c => isSpace c || c = '\n' || c = '\r') (l := t)).length_le
  split at h
  · rename_i later heq
    simp only [Option.some.injEq] at h
    subst h
    have := lines later
    simp only [heq, List.length_cons, dropSpaceAndLines] at *
    omega
  · rename_i later heq
    simp only [Option.some.injEq] at h
    subst h
    have := lines later
    simp only [heq, List.length_cons, dropSpaceAndLines] at *
    omega
  · simp at h

/-- The rest of a string between three double quotes, and the text after it. -/
def longBasicString (text : Text) : Except Error (Text × Text) :=
  match text with
  | [] => .error .malformed
  | '\\' :: rest =>
    match hl : afterLineEnd? rest with
    | some later =>
      have : later.length < rest.length := afterLineEnd?_rest_lt hl
      longBasicString later
    | none =>
      match h : escape? rest with
      | none => .error .malformed
      | some (c, later) =>
        have : later.length < rest.length := escape?_rest_lt h
        (longBasicString later).map fun (t, last) => (c :: t, last)
  | c :: rest =>
    if startsWithThree '"' text then .ok (closingQuotes '"' (text.drop 3))
    else if c = '\r' ∧ rest.head? ≠ some '\n' then .error .malformed
    else if isPlain c ∨ c = '\n' ∨ c = '\r' then
      (longBasicString rest).map fun (t, later) => (c :: t, later)
    else .error .malformed
  termination_by text.length

/-- The text without a line end at its very start. -/
def dropFirstLineEnd : Text → Text
  | '\n' :: rest => rest
  | '\r' :: '\n' :: rest => rest
  | rest => rest

/-- A string at the front of a text that starts with a quote, and the text after it. -/
def readString (text : Text) : Except Error (Text × Text) :=
  match text with
  | '"' :: '"' :: '"' :: rest => longBasicString (dropFirstLineEnd rest)
  | '\'' :: '\'' :: '\'' :: rest => longLiteralString (dropFirstLineEnd rest)
  | '"' :: rest => basicString rest
  | '\'' :: rest => literalString rest
  | _ => .error .malformed

end HostKit.Toml
