/-
# Reports

What a tool leaves behind: an exit status and two texts.  Notices at or above the threshold
are written to the second text, each under its level; an error comes last.
-/
import SyntaxTree.Notice

namespace SyntaxTree

/-- The end of a run of a tool. -/
structure Report where
  exit : Nat
  output : String
  errors : String
  deriving DecidableEq, Repr

namespace Report

/-- One notice on two lines. -/
def noticeText (notice : Notice) : String :=
  notice.level.label ++ ":\n" ++ notice.message ++ "\n"

/-- The notices under a threshold. -/
def noticesText (threshold : Level) (notices : List Notice) : String :=
  String.join ((notices.filter fun notice => notice.visibleAt threshold).map noticeText)

/-- The report of arguments that could not be read. -/
def usage : Report := ⟨2, "", ""⟩

end Report
end SyntaxTree
