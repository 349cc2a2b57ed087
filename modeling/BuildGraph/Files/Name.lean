namespace BuildGraph.Files

/-!
# Names of files

A name leads through folders to a file.  Its parts are separated by slashes.  An empty
part means nothing, and neither does a single point, unless it is the first part.
-/

/-- The texts between the slashes of a name. -/
def pieces (name : String) : List String :=
  (go name.toList).map String.ofList
where
  /-- Cut a text at its slashes. -/
  go : List Char → List (List Char)
    | [] => [[]]
    | character :: rest =>
        if character = '/' then
          [] :: go rest
        else
          match go rest with
          | [] => [[character]]
          | piece :: others => (character :: piece) :: others

/-- Whether a name begins at the root of all files. -/
def isAbsolute (name : String) : Bool :=
  name.toList.head? = some '/'

/-- Whether a piece behind others has a meaning. -/
def isSignificant (piece : String) : Bool :=
  piece ≠ "" && piece ≠ "."

/-- Pieces in reverse order without those at the end of the name that have no meaning. -/
def dropInsignificant : List String → List String
  | [] => []
  | [first] => if first = "" then [] else [first]
  | last :: before =>
      if isSignificant last then last :: before else dropInsignificant before

/-- The name of the folder that a name leads into, which is empty for a mere file name. -/
def parentName (name : String) : String :=
  match dropInsignificant (pieces name).reverse with
  | [] => ""
  | _ :: before =>
      let parent := "/".intercalate (dropInsignificant before).reverse
      if parent = "" ∧ isAbsolute name then "/" else parent

/-- The folder of a file; a mere file name is one in the current folder. -/
def folderName (name : String) : String :=
  if parentName name = "" then "." else parentName name

/-- What stands behind the last point of a file name, unless the name begins with it. -/
def extension? (name : String) : Option String :=
  match dropInsignificant (pieces name).reverse with
  | [] => none
  | last :: _ =>
      let reversed := last.toList.reverse
      let behind := reversed.takeWhile (· ≠ '.')
      match reversed.dropWhile (· ≠ '.') with
      | [] | [_] => none
      | _ :: _ => if last = ".." then none else some (String.ofList behind.reverse)

/--
The steps from the current folder to what a name stands for.

A slash at the end asks for a folder, as if a point stood behind it.
-/
def steps (name : String) : List String :=
  let parts := (pieces name).filter (· ≠ "")
  if name.toList.getLast? = some '/' then parts ++ ["."] else parts

end BuildGraph.Files
