import Replica.Json.Form

/-!
# Reading a value

`Json.parse?` reads a text that holds one value and nothing else but blanks. A number beyond the
finite ones, half of a pair alone in a text, and nesting deeper than `maxDepth` are refused.
-/

namespace Replica.Json

/-- How deep lists and objects may be nested. -/
def maxDepth : Nat := 127

/-- The value of a form, with the members of its objects as they are written. -/
def ofForm? (form : Form) : Option Json := form.value? maxDepth

/-- Reads the one value that a text holds, with the members of its objects as they stand there. -/
def parse? (text : String) : Option Json := (Form.ofText? text).bind ofForm?

/-- Reads the one value that a text holds, in canonical form. -/
def read? (text : String) : Option Json := (parse? text).map canonical

end Replica.Json
