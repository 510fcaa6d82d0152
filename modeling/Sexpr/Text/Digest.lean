import Sexpr.Text.Quoted

/-!
# Digest of a long text

A text that is too long to report is reported by its length in bytes, a 64-bit checksum of its
bytes, and the characters at both ends.
-/

namespace Sexpr.Text

/-- A long text in short. -/
structure Digest where
  /-- The number of bytes. -/
  bytes : Nat
  /-- The checksum, as sixteen hexadecimal digits. -/
  checksum : String
  /-- The first characters. -/
  first : String
  /-- The last characters. -/
  last : String

/-- The FNV-1a checksum of a sequence of bytes. -/
def fnv1a (bytes : ByteArray) : UInt64 :=
  bytes.foldl (fun sum byte => (sum ^^^ byte.toUInt64) * 0x100000001b3) 0xcbf29ce484222325

/-- The hexadecimal digits of a 64-bit word, padded to sixteen. -/
def wordDigits (word : UInt64) : List Char :=
  let digits := hexDigits word.toNat
  List.replicate (16 - digits.length) '0' ++ digits

/-- The number of characters that a digest shows at each end. -/
def Digest.shown : Nat := 24

/-- The digest of a text. -/
def digest (text : String) : Digest :=
  let chars := text.toList
  { bytes := text.utf8ByteSize
    checksum := String.ofList (wordDigits (fnv1a text.toUTF8))
    first := String.ofList (chars.take Digest.shown)
    last := String.ofList (chars.drop (chars.length - Digest.shown)) }

end Sexpr.Text
