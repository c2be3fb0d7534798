import HostKit.Codec.Base64
import HostKit.Codec.Hex
import HostKit.Text.Utf8

/-!
# Data as text

Two codecs write arbitrary data as text: standard Base64 with padding, and unpadded Base64
whose symbols are written once more in hexadecimal, which needs nothing but digits and small
letters. Reading ignores blanks around the text.
-/

namespace HostKit

/-- The codecs between data and text. -/
inductive TextCodec where
  | base64 | base64Hex
  deriving Repr, DecidableEq

namespace TextCodec

/-- Bytes below 128 as the characters they stand for. -/
def asciiText (symbols : Bytes) : Text := symbols.map fun b => Char.ofNat b.toNat

/-- The failure a Base64 error is reported as. -/
def ofBase64 (error : Base64.Error) : Failure := .codec "base64" error.message

/-- The failure a hexadecimal error is reported as. -/
def ofHex (error : Hex.Error) : Failure := .codec "hex" error.message

/-- The text of the data. -/
def encode (codec : TextCodec) (data : Bytes) : Text :=
  match codec with
  | base64 => asciiText (Base64.encode .required data)
  | base64Hex => asciiText (Hex.encode (Base64.encode .absent data))

/-- The data that the text stands for. -/
def decode (codec : TextCodec) (text : Text) : Except Failure Bytes :=
  let symbols := Utf8.encode (Text.trim text)
  match codec with
  | base64 => (Base64.decode .required symbols).mapError ofBase64
  | base64Hex => do
    let inner ← (Hex.decode symbols).mapError ofHex
    (Base64.decode .absent inner).mapError ofBase64

end TextCodec
end HostKit
