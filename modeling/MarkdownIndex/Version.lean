/-!
# The version of the program, which its services and its command line tell
-/

namespace MarkdownIndex

/-- The version of the program. -/
def version : String := "0.3.0"

end MarkdownIndex
