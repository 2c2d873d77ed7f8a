-- SUMMARY: The files that the program can read, and why reading one may fail.
import Respell.Text.Utf8

/-!
# Files

The program sees files by their paths and one stream of input. A path is followed part by part from
a directory, as a file system does it: each part has to name something in the directory that the
parts before it have led to, and whatever follows a file is an error.

A file gives the same bytes to every reader. The stream gives its bytes once: whoever reads it after
that, under any of its names, finds it empty. Reading therefore returns the inputs that are left.
-/

namespace Respell.Command

/-- Why a file could not be read. -/
inductive ReadError where
  | notFound
  | notDirectory
  | isDirectory
  | nameTooLong
  | notText
  | other (message : String)
deriving Repr, DecidableEq

/-- The message for a file that could not be read. -/
def ReadError.message : ReadError → String
  | .notFound => "No such file or directory (os error 2)"
  | .notDirectory => "Not a directory (os error 20)"
  | .isDirectory => "Is a directory (os error 21)"
  | .nameTooLong => "File name too long (os error 36)"
  | .notText => "stream did not contain valid UTF-8"
  | .other message => message

/-! ## Trees -/

/-- How many bytes a name may have. -/
def maxName : Nat := 255

/-- How many bytes a path may have. -/
def maxPath : Nat := 4095

/-- What a reader finds: bytes that stay as they are, or the input stream. -/
inductive Content where
  | fixed (bytes : List UInt8)
  | stream
deriving Repr, DecidableEq

/-- What a name in a directory stands for. -/
inductive Entry where
  | file (content : Content)
  | directory
deriving Repr, DecidableEq

/-- All that can be named. -/
structure Tree where
  /-- what there is, by the names that lead to it from the root -/
  entries : List (List String × Entry)

namespace Tree

/-- What the given names lead to. The way to an entry goes through directories. -/
def find? (t : Tree) (names : List String) : Option Entry :=
  match t.entries.lookup names with
  | some entry => some entry
  | none => if t.entries.any fun e => names.isPrefixOf e.1 then some .directory else none

/-- The content of the file that the parts of a path lead to from a directory of the tree, `here`.
    An empty part and a single dot stay there, two dots go up, and the root is above itself. -/
def follow (t : Tree) (here : List String) : List String → Except ReadError Content
  | [] => .error .isDirectory
  | part :: parts =>
    if part = "" ∨ part = "." then t.follow here parts
    else if part = ".." then t.follow here.dropLast parts
    else if maxName < part.utf8ByteSize then .error .nameTooLong
    else
      match t.find? (here ++ [part]) with
      | none => .error .notFound
      | some .directory => t.follow (here ++ [part]) parts
      | some (.file content) => if parts.isEmpty then .ok content else .error .notDirectory

/-- The content of the file with the given path, which starts at the root or at the directory that
    the program works in. -/
def locate (t : Tree) (working : List String) (path : String) : Except ReadError Content :=
  if path = "" then .error .notFound
  else if maxPath < path.utf8ByteSize then .error .nameTooLong
  else t.follow (if path.startsWith "/" then [] else working) (path.splitOn "/")

/-- What every system has: the usual directories, an empty file, and the input stream under each of
    its names. -/
def system : Tree :=
  let directories := ["bin", "boot", "dev", "etc", "home", "lib", "media", "mnt", "opt", "proc",
    "root", "run", "sbin", "srv", "sys", "tmp", "usr", "var"]
  let streams := [["dev", "stdin"], ["dev", "fd", "0"], ["proc", "self", "fd", "0"]]
  ⟨(["dev", "null"], .file (.fixed [])) ::
    streams.map (fun names => (names, .file .stream)) ++
    directories.map fun name => ([name], .directory)⟩

/-- The tree with the given files in a directory of their own. -/
def withFiles (t : Tree) (directory : List String) (files : List (String × List UInt8)) : Tree :=
  ⟨files.map (fun f => (directory ++ f.1.splitOn "/", .file (.fixed f.2))) ++
    (directory, .directory) :: t.entries⟩

/-- Whether a path from the root leads to the input stream. -/
def isStream (path : String) : Bool :=
  match system.locate [] path with
  | .ok .stream => true
  | _ => false

end Tree

/-! ## Inputs -/

/-- What the program can read. -/
structure Inputs where
  file : String → Except ReadError Content
  /-- what is left of the input stream -/
  stdin : List UInt8

/-- Bytes as a text. -/
def decode (bytes : List UInt8) : Except ReadError String :=
  match Text.decode? bytes with
  | some s => .ok s
  | none => .error .notText

namespace Inputs

/-- The bytes of a content, and the inputs that are left once they are read. -/
def take (inputs : Inputs) : Content → List UInt8 × Inputs
  | .fixed bytes => (bytes, inputs)
  | .stream => (inputs.stdin, { inputs with stdin := [] })

/-- The text of a content and the inputs that are left. -/
def readText (inputs : Inputs) (content : Content) : Except ReadError (String × Inputs) :=
  let (bytes, rest) := inputs.take content
  (decode bytes).map fun text => (text, rest)

/-- The text of a file and the inputs that are left, or the message that says why there is none. -/
def readFile (inputs : Inputs) (path : String) : Except String (String × Inputs) :=
  match inputs.file path >>= inputs.readText with
  | .ok reading => .ok reading
  | .error e => .error ("Failed to read " ++ path ++ ": " ++ e.message)

/-- The text of the input stream and the inputs that are left, or the message that says why there is
    none. -/
def readStdin (inputs : Inputs) : Except String (String × Inputs) :=
  match inputs.readText .stream with
  | .ok reading => .ok reading
  | .error e => .error ("Failed to read from stdin: " ++ e.message)

/-- The given files in a working directory of their own, and an input stream. -/
def ofFiles (files : List (String × List UInt8)) (stdin : List UInt8) : Inputs :=
  let working := ["tmp", "work"]
  ⟨(Tree.system.withFiles working files).locate working, stdin⟩

end Inputs

end Respell.Command
