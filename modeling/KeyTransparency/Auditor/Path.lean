import KeyTransparency.Auditor.FileFault

/-!
# Paths

A path is a text with names between separators "/". What matters of it are the names
that are not empty, and whether a separator stands at its start and at its end
(`Path.ofString`). The name "." leads nowhere and ".." leads back, but only from a
directory, so that neither can be left out of a path before it is looked up. The
directories above a path (`Path.above`) are those without its last names, where
the names "." do not count.
-/

namespace KeyTransparency.Auditor

structure Path where
  /-- Whether the path starts at the top of all directories. -/
  isAbsolute : Bool
  names : List String
  /-- Whether a separator ends the path, which then can only lead to a directory. -/
  endsInSeparator : Bool
deriving DecidableEq

/-- The path of a file in a directory. -/
def joinPath (directory name : String) : String :=
  if directory.isEmpty || directory.endsWith "/" then directory ++ name else directory ++ "/" ++ name

/-- Refuses a path that leads to nothing on any machine. -/
def checkPath (path : String) : Except FileFault Unit :=
  if path.toList.contains '\x00' then .error .embeddedNul
  else if path.utf8ByteSize > 4095 then .error .nameTooLong
  else if path.isEmpty then .error .notFound
  else .ok ()

namespace Path

/-- The texts between the separators of a text. -/
def parts (text : String) : List String := go [] text.toList
where
  go (name : List Char) : List Char → List String
    | [] => [String.ofList name.reverse]
    | '/' :: cs => String.ofList name.reverse :: go [] cs
    | c :: cs => go (c :: name) cs

def ofString (text : String) : Path where
  isAbsolute := text.toList.head? == some '/'
  names := (parts text).filter (· ≠ "")
  endsInSeparator := text.toList.getLast? == some '/'

/-- The text of a path. A path without names leads to where it starts. -/
def text (p : Path) : String :=
  match p.isAbsolute, p.names with
  | false, [] => "."
  | true, [] => "/"
  | isAbsolute, names =>
    (if isAbsolute then "/" else "") ++ "/".intercalate names ++ (if p.endsInSeparator then "/" else "")

/-- The path without names "." and without a separator at its end. -/
def plain (p : Path) : Path := ⟨p.isAbsolute, p.names.filter (· ≠ "."), false⟩

/-- The directories above a path but for the one where it starts, from the nearest on. -/
def above (p : Path) : List Path :=
  let names := p.plain.names
  (List.range (names.length - 1)).reverse.map fun i => ⟨p.isAbsolute, names.take (i + 1), false⟩

end Path

end KeyTransparency.Auditor
