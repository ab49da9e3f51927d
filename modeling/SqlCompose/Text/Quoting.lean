/-!
Quoted text and hexadecimal bytes: the two ways in which arbitrary content becomes part of a
statement. A quoted text stands between two quotation marks and doubles every mark inside, so that
the content can never end the quotation; bytes are written as pairs of lower-case hexadecimal
digits, which contain no quotation mark at all.
-/

set_option autoImplicit false
set_option relaxedAutoImplicit false

namespace SqlCompose.Text

/-- The inside of a quotation: every quotation mark of the content is written twice. -/
def doubled (mark : Char) : List Char → List Char
  | [] => []
  | c :: rest => if c = mark then mark :: mark :: doubled mark rest else c :: doubled mark rest

/-- The content between two quotation marks, with every mark inside it doubled. -/
def quoted (mark : Char) (content : String) : String :=
  String.ofList (mark :: (doubled mark content.toList ++ [mark]))

/-- The two lower-case hexadecimal digits of a byte. -/
def hexByte (byte : UInt8) : List Char :=
  [Nat.digitChar (byte.toNat / 16), Nat.digitChar (byte.toNat % 16)]

/-- The hexadecimal digits of a byte sequence, two for each byte. -/
def hexBytes (bytes : List UInt8) : List Char :=
  bytes.flatMap hexByte

end SqlCompose.Text
