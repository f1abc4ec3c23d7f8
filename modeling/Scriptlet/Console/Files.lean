import Scriptlet.Text.Bytes

/-!
# Files

The files that a program can read by path, and the reasons why a path leads to no text.
-/

namespace Scriptlet.Console

open Text

/-- Why a path leads to no text. -/
inductive FileFault where
  | missing
  /-- The path goes on behind a file. -/
  | notFolder
  | folder
  | nameTooLong
  | nulInName
  | other (reason : String)
  deriving DecidableEq, Repr

/-- The reason in words. -/
def FileFault.message : FileFault → String
  | .missing => "No such file or directory (os error 2)"
  | .notFolder => "Not a directory (os error 20)"
  | .folder => "Is a directory (os error 21)"
  | .nameTooLong => "File name too long (os error 36)"
  | .nulInName => "file name contained an unexpected NUL byte"
  | .other reason => reason

/-- The files that can be read by path. -/
abbrev Files := String → Except FileFault String

namespace Files

/-- Where a path has led so far. -/
inductive Place where
  /-- A folder with the files in it by name. -/
  | folder (files : List (String × String))
  | file (text : String)

/-- The number of bytes that a name in a folder may have. -/
def nameLimit : Nat := 255

/-- The number of bytes that a path may have. -/
def pathLimit : Nat := 4095

/-- Follows the parts of a path. A part that is empty or a dot stays in its folder; two dots lead to
a folder outside, in which there are no files. -/
def follow : List String → Place → Except FileFault Place
  | [], place => .ok place
  | _ :: _, .file _ => .error .notFolder
  | part :: parts, .folder files =>
    if part = "" || part = "." then follow parts (.folder files)
    else if part = ".." then follow parts (.folder [])
    else if nameLimit < byteLength part.toList then .error .nameTooLong
    else
      match files.lookup part with
      | some text => follow parts (.file text)
      | none => .error .missing

/-- The files of one folder by path. Paths start in it, or outside of it if they start with a
slash. -/
def ofList (files : List (String × String)) : Files := fun path =>
  if path.isEmpty then .error .missing
  else if pathLimit < byteLength path.toList then .error .nameTooLong
  else
    match follow (path.splitOn "/") (.folder (if path.startsWith "/" then [] else files)) with
    | .ok (.file text) => .ok text
    | .ok (.folder _) => .error .folder
    | .error fault => .error fault

/-- The text at a path, or what to say about its absence. -/
def read (files : Files) (path : String) : Except String String :=
  match if path.contains '\x00' then .error .nulInName else files path with
  | .ok text => .ok text
  | .error fault => .error ("failed to read '" ++ path ++ "': " ++ fault.message)

end Files

end Scriptlet.Console
