/-!
# Paths of outputs

The file name at the end of a path may have an extension: its last dot and what follows, if
something other than dots stands before that dot. An output path has another extension in its
place.
-/

set_option autoImplicit false

namespace SuperChip.Tool

/-- A file name without its extension. -/
def stem (name : List Char) : List Char :=
  let (front, behind) := (name.takeWhile (· == '.'), name.dropWhile (· == '.'))
  match behind.reverse.dropWhile (· != '.') with
  | _ :: before => front ++ before.reverse
  | [] => name

/-- The folder part of a path, up to and with the last slash, and the file name. -/
def splitFolder (path : List Char) : List Char × List Char :=
  ((path.reverse.dropWhile (· != '/')).reverse, (path.reverse.takeWhile (· != '/')).reverse)

/-- A path with `extension` in place of the extension of its file name, or behind a name that has
none. -/
def withExtension (path extension : String) : String :=
  let (folder, name) := splitFolder path.toList
  String.ofList (folder ++ stem name) ++ extension

/-- The extension of program images. -/
def imageExtension : String := ".bin"

end SuperChip.Tool
