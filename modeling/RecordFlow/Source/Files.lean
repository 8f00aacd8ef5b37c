import RecordFlow.Source.Path

/-! Files and directories, found step by step along a path. A path leads on through directories only:
nothing is found behind a file or behind a name that is not there. -/

namespace RecordFlow

structure Files where
  /-- Contents by absolute path, the first of one path counts. -/
  contents : List (String × List UInt8) := []
  /-- Absolute paths of directories, besides those that hold a file. -/
  directories : List String := []

namespace Files

/-- The directories that are there by convention. -/
def standardDirectories : List String :=
  ["/bin", "/boot", "/dev/pts", "/dev/shm", "/etc", "/home", "/lib", "/media", "/mnt", "/opt",
    "/proc", "/root", "/run", "/sbin", "/srv", "/sys", "/tmp", "/usr/bin", "/usr/lib",
    "/usr/local/bin", "/usr/sbin", "/usr/share", "/var/cache", "/var/lib", "/var/log", "/var/tmp"]

/-- The names, from the root, of the file that is always empty. -/
def nullDevice : List String := ["dev", "null"]

/-- Whether the names lead from the root to a directory. -/
def isDirectory (f : Files) (names : List String) : Bool :=
  (standardDirectories ++ f.directories).any (fun path => names.isPrefixOf (Path.names path)) ||
    f.contents.any fun (path, _) => names.isPrefixOf (Path.names path).dropLast

/-- The content of the file that the names lead to from the root. -/
def content? (f : Files) (names : List String) : Option (List UInt8) :=
  if names = nullDevice then some []
  else (f.contents.find? (Path.names ·.1 == names)).map (·.2)

/-- Where a path leads. -/
inductive Place where
  | directory (names : List String)
  /-- The directory that relative paths start from, or one above it. -/
  | start
  | file (content : List UInt8)

def step? (f : Files) : Place → String → Option Place
  | .file _, _ => none
  | place, "" => some place
  | place, "." => some place
  | .directory names, ".." => some (.directory names.dropLast)
  | .directory names, name =>
    if f.isDirectory (names ++ [name]) then some (.directory (names ++ [name]))
    else (f.content? (names ++ [name])).map .file
  | .start, ".." => some .start
  | .start, _ => none

/-- No path of more bytes is followed. -/
def longestPath : Nat := 4095

/-- What is found at a path. The empty path names nothing, and neither does one that is too long,
even if most of its steps stay where they are. -/
def find? (f : Files) (path : String) : Option Place :=
  if path = "" || longestPath < path.utf8ByteSize then none
  else (Path.steps path).foldlM f.step? (if path.startsWith "/" then .directory [] else .start)

end Files

end RecordFlow
