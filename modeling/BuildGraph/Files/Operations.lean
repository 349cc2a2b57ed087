import BuildGraph.Text.Bytes

namespace BuildGraph.Files

/-!
# Operations on files

What a program can do with files, whatever holds them: a real disk, or a directory that
is only described.
-/

/-- Why a file cannot be used. -/
inductive AccessError where
  | notFound
  | notDirectory
  | isDirectory
  | busy
  | invalidArgument
  | nameTooLong
  /-- A null character in a name. -/
  | nullInName
  /-- Something else, in the words of the system. -/
  | other (description : String)
  deriving Repr, DecidableEq

/-- What is wrong, in the words of the system. -/
def AccessError.message : AccessError → String
  | .notFound => "No such file or directory (os error 2)"
  | .busy => "Device or resource busy (os error 16)"
  | .notDirectory => "Not a directory (os error 20)"
  | .isDirectory => "Is a directory (os error 21)"
  | .invalidArgument => "Invalid argument (os error 22)"
  | .nameTooLong => "File name too long (os error 36)"
  | .nullInName => "file name contained an unexpected NUL byte"
  | .other description => description

/--
The operations on files that are found by their names.

A temporary file is created in a folder under a new name.  Moving it gives it another
name and replaces what had that name before, as a whole.

Text is written through a buffer.  Writing fails when it is noticed that the text does not
fit, and of a text that does not fit only the front arrives.
-/
structure Operations (Effect : Type → Type) (Temporary : Type) where
  read : (name : String) → Effect (Except AccessError ByteArray)
  createTemporary : (folder : String) → Effect (Except AccessError Temporary)
  write : Temporary → (text : List Char) → Effect (Except AccessError Unit)
  flush : Temporary → Effect (Except AccessError Unit)
  move : Temporary → (name : String) → Effect (Except AccessError Unit)
  /-- Remove a temporary file that is given up; nothing is reported about it. -/
  remove : Temporary → Effect Unit
  /-- Write a text to the standard output. -/
  print : (text : List Char) → Effect (Except AccessError Unit)
  /-- Flush the standard output. -/
  flushPrinted : Effect (Except AccessError Unit)

end BuildGraph.Files
