import LiveHls.Decimal.Reader
import LiveHls.Segment
/-! Percent escapes: `%` and two hexadecimal digits stand for a byte, every other character for
its UTF-8 bytes. -/
namespace LiveHls.Http.Percent

/-- The bytes that a text stands for, if every `%` starts an escape. -/
def bytes? : List Char → Option Bytes
  | [] => some []
  | '%' :: a :: b :: rest => do
      let high ← Decimal.digitIn? 16 a
      let low ← Decimal.digitIn? 16 b
      return UInt8.ofNat (16 * high + low) :: (← bytes? rest)
  | c :: rest => if c = '%' then none else (bytes? rest).map (String.utf8EncodeChar c ++ ·)

/-- The text that an escaped text stands for, if its bytes are well-formed UTF-8. -/
def decode? (cs : List Char) : Option String :=
  (bytes? cs).bind fun bytes => String.fromUTF8? ⟨bytes.toArray⟩

end LiveHls.Http.Percent
