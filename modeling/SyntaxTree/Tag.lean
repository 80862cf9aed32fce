/-
# Node names

A tag is the eight-byte name in front of every encoded node: the bytes of the name, cut to
eight and padded with spaces.  It is shown without the trailing spaces, so two names give
one tag exactly when their first eight bytes agree up to trailing spaces.
-/
import SyntaxTree.Bytes.BigEndian
import SyntaxTree.Text.Lossy
import SyntaxTree.Text.Quoted

namespace SyntaxTree

/-! ## 1. Building tags -/

/-- An eight-byte node name. -/
structure Tag where
  bytes : List UInt8
  length_bytes : bytes.length = 8
  deriving DecidableEq

namespace Tag

/-- The number of bytes in a tag. -/
def width : Nat := 8

/-- The byte that fills up short names. -/
def space : UInt8 := 0x20

/-- The tag of a byte string: its first eight bytes, padded with spaces. -/
def ofBytes (bytes : List UInt8) : Tag where
  bytes := bytes.take width ++ List.replicate (width - bytes.length) space
  length_bytes := by
    simp only [List.length_append, List.length_take, List.length_replicate, width]
    omega

/-- The tag of a name: its UTF-8 bytes, cut to eight and padded with spaces. -/
def ofName (name : String) : Tag := ofBytes (Utf8.ofString name)

/-- The tag of all spaces. -/
def blank : Tag := ofBytes []

/-! ## 2. Reading tags -/

/-- Whether the name marks a literal, by starting with `#`. -/
def isLiteral (tag : Tag) : Bool := tag.bytes.head? == some 0x23

/-- The bytes without trailing spaces. -/
def trimmed (tag : Tag) : List UInt8 :=
  (tag.bytes.reverse.dropWhile (· == space)).reverse

/-- The name as text, without trailing spaces. -/
def text (tag : Tag) : String := Lossy.text tag.trimmed

/-- The tag with all its bytes, in quotes. -/
def quoted (tag : Tag) : String := "Tag(" ++ Quoted.ofString (Lossy.text tag.bytes) ++ ")"

/-- The order of tags is that of the numbers their bytes spell, which for tags of one width
is the order of the bytes read from the left. -/
instance : Ord Tag where
  compare a b := compare (BigEndian.decode a.bytes) (BigEndian.decode b.bytes)

end Tag
end SyntaxTree
