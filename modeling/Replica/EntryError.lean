/-!
# What can be wrong with an entry

The errors of interpreting log entries, and their texts.
-/

namespace Replica

/-- Why an entry cannot be interpreted. -/
inductive EntryError where
  /-- A text is not a namespace. -/
  | invalidNamespace (text : String)
  /-- A document is not an object or has no usable identifier. -/
  | invalidDocument (reason : String)
  /-- An update is malformed. -/
  | invalidUpdate (reason : String)
  /-- An update uses an operator that is not supported. -/
  | unsupportedModifier (operator : String)
  /-- A command is not supported. -/
  | unsupportedCommand (command : String)
  /-- A field cannot be set because something on the way to it is no object. -/
  | typeMismatch (path reason : String)
  deriving DecidableEq

namespace EntryError

/-- Whether the error names something that is not supported, as against malformed input. -/
def isUnsupported : EntryError → Bool
  | unsupportedModifier _ | unsupportedCommand _ => true
  | _ => false

/-- The text of an error. -/
def message : EntryError → String
  | invalidNamespace text => "invalid namespace '" ++ text ++ "'"
  | invalidDocument reason => "invalid document: " ++ reason
  | invalidUpdate reason => "invalid update: " ++ reason
  | unsupportedModifier operator => "unsupported update operator '" ++ operator ++ "'"
  | unsupportedCommand command => "unsupported command '" ++ command ++ "'"
  | typeMismatch path reason => "cannot apply $set to field '" ++ path ++ "': " ++ reason

end EntryError

end Replica
