/-
# Quoted text

A text in double quotes on one line: quotes and backslashes get a backslash, the common
controls their letter, and every other character that does not print as itself its code
point in braces.
-/
import SyntaxTree.Bytes.Hex
import SyntaxTree.Text.Printable

namespace SyntaxTree
namespace Quoted

/-- One character as it stands between quotes. -/
def escaped (c : Char) : List Char :=
  match c with
  | '"' => ['\\', '"']
  | '\\' => ['\\', '\\']
  | '\n' => ['\\', 'n']
  | '\r' => ['\\', 'r']
  | '\t' => ['\\', 't']
  | '\x00' => ['\\', '0']
  | _ =>
    if isPrintable c then [c]
    else ['\\', 'u', '\x7b'] ++ Hex.digits c.toNat ++ ['\x7d']

/-- A text between double quotes. -/
def ofString (s : String) : String :=
  String.ofList ('"' :: s.toList.flatMap escaped ++ ['"'])

end Quoted
end SyntaxTree
