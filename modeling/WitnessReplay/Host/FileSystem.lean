import WitnessReplay.Host.FileError
import WitnessReplay.Text.Utf8

/-!
# File systems

A file system is a list of entries under absolute paths. Files have a content and permission bits;
of the bits only those to execute matter here, for whoever uses the system may read and write
everything. The root is a directory without an entry. A few directories and devices exist
everywhere.

A path is written as a text, seen from some directory. `locate` follows it name by name and fails
where a name leads on from something that is no directory; only the last name may be new.
-/

namespace WitnessReplay

/-- An absolute path: the names on the way from the root. -/
abbrev FilePath := List String

/-- A device. -/
inductive Device
  /-- Takes everything and gives nothing. -/
  | null
  /-- Takes nothing. -/
  | full
  /-- The terminal of whoever started the command, where nobody sits. -/
  | terminal
  /-- The standard stream of a number: 0 is the input, 1 and 2 are the outputs. -/
  | stream (descriptor : Nat)
deriving DecidableEq, Repr

/-- What a path leads to. -/
inductive FileEntry
  | file (content : List UInt8) (mode : Nat)
  | directory
  /-- A program that comes with the system, under a name of its own. -/
  | program (name : String) (mode : Nat)
  | device (kind : Device)
deriving DecidableEq, Repr

/-- The permission bits of what has any. -/
def FileEntry.mode? : FileEntry → Option Nat
  | file _ mode => some mode
  | program _ mode => some mode
  | _ => none

/-- The same thing with other permission bits. -/
def FileEntry.withMode (mode : Nat) : FileEntry → FileEntry
  | file content _ => file content mode
  | program name _ => program name mode
  | entry => entry

/-- The entries of a file system. -/
structure FileSystem where
  entries : List (FilePath × FileEntry)
deriving Repr

namespace FileSystem

/-! ### What exists everywhere -/

/-- The permission bits of new files. -/
def newFileMode : Nat := 0o644

/-- The directories that exist everywhere. -/
def standardDirectories : List FilePath := [
  ["bin"], ["boot"], ["dev"], ["dev", "fd"], ["dev", "pts"], ["dev", "shm"], ["etc"], ["home"],
  ["lib"], ["media"], ["mnt"], ["opt"], ["proc"], ["proc", "self"], ["proc", "self", "fd"],
  ["root"], ["run"], ["sbin"], ["srv"], ["sys"], ["tmp"], ["usr"], ["usr", "bin"], ["usr", "lib"],
  ["usr", "local"], ["usr", "local", "bin"], ["usr", "sbin"], ["usr", "share"], ["var"],
  ["var", "lib"], ["var", "log"], ["var", "tmp"]]

/-- The devices that exist everywhere. -/
def standardDevices : List (FilePath × Device) := [
  (["dev", "null"], .null), (["dev", "zero"], .null), (["dev", "full"], .full),
  (["dev", "tty"], .terminal), (["dev", "stdin"], .stream 0), (["dev", "stdout"], .stream 1),
  (["dev", "stderr"], .stream 2), (["dev", "fd", "0"], .stream 0), (["dev", "fd", "1"], .stream 1),
  (["dev", "fd", "2"], .stream 2), (["proc", "self", "fd", "0"], .stream 0),
  (["proc", "self", "fd", "1"], .stream 1), (["proc", "self", "fd", "2"], .stream 2)]

/-- The list of users, which is a file that exists everywhere. -/
def userList : FileEntry :=
  .file (Text.encode "root:x:0:0:root:/root:/bin/bash\n".toList) newFileMode

/-- A file system with nothing in it but what exists everywhere. -/
def standard : FileSystem :=
  ⟨standardDirectories.map (·, .directory) ++ [(["etc", "passwd"], userList)]
    ++ standardDevices.map fun (path, kind) => (path, .device kind)⟩

/-! ### Entries -/

/-- What a path leads to. -/
def find? (fs : FileSystem) (path : FilePath) : Option FileEntry :=
  if path = [] then some .directory else fs.entries.lookup path

/-- Sets what a path leads to. -/
def set (fs : FileSystem) (path : FilePath) (entry : FileEntry) : FileSystem :=
  ⟨(path, entry) :: fs.entries.filter (·.1 != path)⟩

/-- Takes a path away. -/
def erase (fs : FileSystem) (path : FilePath) : FileSystem :=
  ⟨fs.entries.filter (·.1 != path)⟩

/-! ### Following paths -/

/-- How many bytes a name may have. -/
def nameLimit : Nat := 255

/-- How many bytes a path may have, with the zero byte that ends it. -/
def pathLimit : Nat := 4096

/-- One name further from a place, as names stand in texts. -/
def stepTo (place : FilePath) (name : String) : FilePath :=
  if name = "" ∨ name = "." then place
  else if name = ".." then place.dropLast
  else place ++ [name]

/-- Follows names from a place. Before each of them the place must be a directory. -/
def follow (fs : FileSystem) (place : FilePath) : List String → Except FileError FilePath
  | [] => .ok place
  | name :: rest =>
    match fs.find? place with
    | some .directory =>
      if nameLimit < name.utf8ByteSize then .error .nameTooLong
      else fs.follow (stepTo place name) rest
    | some _ => .error .notDirectory
    | none => .error .notFound

/-- The path that a text stands for, seen from a directory. The empty text stands for none. -/
def locate (fs : FileSystem) (cwd : FilePath) (text : String) : Except FileError FilePath :=
  if text.isEmpty then .error .notFound
  else if pathLimit ≤ text.utf8ByteSize then .error .nameTooLong
  else fs.follow (if text.toList.head? = some '/' then [] else cwd) (text.splitOn "/")

/-- The path that a text stands for where a file is to be made if there is none. A slash at the end
asks for a directory, and no file is made as one. -/
def locateNew (fs : FileSystem) (cwd : FilePath) (text : String) : Except FileError FilePath :=
  let front := text.toList.reverse.dropWhile (· == '/')
  if text.toList.getLast? = some '/' ∧ front ≠ [] then
    (fs.locate cwd (String.ofList front.reverse)).bind fun _ => .error .isDirectory
  else fs.locate cwd text

/-! ### Contents -/

/-- What is read of a program that comes with the system, which is no text. -/
def programImage : List UInt8 := [0x7F, 0x45, 0x4C, 0x46, 0xFF]

/-- The content of a file. -/
def read (fs : FileSystem) (path : FilePath) : Except FileError (List UInt8) :=
  match fs.find? path with
  | some (.file content _) => .ok content
  | some (.program ..) => .ok programImage
  | some (.device .terminal) => .error .noDevice
  | some (.device _) => .ok []
  | some .directory => .error .isDirectory
  | none => .error .notFound

/-- Gives a file a content. A file that exists keeps its permissions. -/
def write (fs : FileSystem) (path : FilePath) (content : List UInt8) :
    Except FileError FileSystem :=
  match fs.find? path with
  | some (.file _ mode) => .ok (fs.set path (.file content mode))
  | some (.program _ mode) => .ok (fs.set path (.file content mode))
  | some (.device .terminal) => .error .noDevice
  | some (.device .full) => if content.isEmpty then .ok fs else .error .noSpace
  | some (.device _) => .ok fs
  | some .directory => .error .isDirectory
  | none => .ok (fs.set path (.file content newFileMode))

/-- Adds to the end of a file, which is made if it does not exist. -/
def append (fs : FileSystem) (path : FilePath) (content : List UInt8) :
    Except FileError FileSystem :=
  match fs.find? path with
  | some (.file before _) => fs.write path (before ++ content)
  | _ => fs.write path content

/-- Whether permission bits let someone execute a file. -/
def isExecutableMode (mode : Nat) : Bool :=
  mode % 2 == 1 || mode / 8 % 2 == 1 || mode / 64 % 2 == 1

/-- What can be executed: a program of the system, or a file with a text to be interpreted. -/
inductive Executable
  | program (name : String)
  | text (content : List UInt8)
deriving DecidableEq, Repr

/-- What is executed under a path, if its permissions allow that. -/
def load (fs : FileSystem) (path : FilePath) : Except FileError Executable :=
  match fs.find? path with
  | some (.file content mode) =>
    if isExecutableMode mode then .ok (.text content) else .error .notPermitted
  | some (.program name mode) =>
    if isExecutableMode mode then .ok (.program name) else .error .notPermitted
  | some _ => .error .notPermitted
  | none => .error .notFound

/-- The directories above a path, from the root on. -/
def above (path : FilePath) : List FilePath :=
  ((List.range path.length).map fun n => path.take n).drop 1

/-- Makes a directory, unless something is there. -/
def makeDirectory (fs : FileSystem) (path : FilePath) : FileSystem :=
  if (fs.find? path).isSome then fs else fs.set path .directory

/-- Puts something under a path, with the directories above it. -/
def place (fs : FileSystem) (path : FilePath) (entry : FileEntry) : FileSystem :=
  ((above path).foldl makeDirectory fs).set path entry

end FileSystem

end WitnessReplay
