import EditorSession.Table

/-! Whether a file can be opened for appending, as far as that depends on what the names of its path
stand for. -/

namespace EditorSession

/-- What a name stands for. -/
inductive Node where
  | directory | file
deriving DecidableEq, Repr

/-- Why a file cannot be opened. -/
inductive OpenFlaw where
  | missing
  /-- A name before the last stands for a file. -/
  | notDirectory
  | isDirectory
  | nameTooLong
deriving DecidableEq, Repr

/-- The number that the system gives to a flaw. -/
def OpenFlaw.number : OpenFlaw → Nat
  | missing => 2
  | notDirectory => 20
  | isDirectory => 21
  | nameTooLong => 36

/-- Directories and files by the names on the way to them, each with a slash before it. The root has
the empty path. -/
structure FileTree where
  nodes : Table Node

namespace FileTree

/-- The directories, devices and files that every system has. -/
def common : FileTree :=
  ⟨(["/bin", "/boot", "/dev", "/dev/pts", "/dev/shm", "/etc", "/etc/ssl", "/home", "/lib", "/lib64",
      "/media", "/mnt", "/opt", "/proc", "/proc/self", "/root", "/run", "/sbin", "/srv", "/sys",
      "/tmp", "/usr", "/usr/bin", "/usr/include", "/usr/lib", "/usr/local", "/usr/sbin",
      "/usr/share", "/var", "/var/cache", "/var/lib", "/var/log", "/var/tmp"].map fun path =>
      (ascii path, Node.directory)) ++
    (["/bin/sh", "/dev/full", "/dev/null", "/dev/random", "/dev/stderr", "/dev/stdin",
      "/dev/stdout", "/dev/tty", "/dev/urandom", "/dev/zero", "/etc/group", "/etc/hostname",
      "/etc/hosts", "/etc/passwd", "/usr/bin/env"].map fun path => (ascii path, Node.file))⟩

/-- Names between slashes; empty ones are kept. -/
def names (path : Bytes) : List Bytes :=
  path.foldr (fun b found =>
    match found with
    | [] => if b = 47 then [[], []] else [[b]]
    | first :: rest => if b = 47 then [] :: first :: rest else (b :: first) :: rest) [[]]

/-- A path without its last name. -/
def parent (path : Bytes) : Bytes := ((path.reverse.dropWhile (· ≠ 47)).drop 1).reverse

def maxName : Nat := 255

def maxPath : Nat := 4095

/-- Follows names from the directory `place`. An empty name or a single point stays there, two points
lead to the parent. A last name that stands for nothing would be created; with a slash after it, it
means a directory, whatever it stands for. -/
def follow (tree : FileTree) (place : Bytes) : List Bytes → Option OpenFlaw
  | [] => some .isDirectory
  | name :: rest =>
    if name.isEmpty ∨ name = ascii "." then tree.follow place rest
    else if name = ascii ".." then tree.follow (parent place) rest
    else if ¬rest.isEmpty ∧ rest.all (·.isEmpty) then some .isDirectory
    else if maxName < name.length then some .nameTooLong
    else
      let here := place ++ 47 :: name
      match Table.get? here tree.nodes, rest with
      | some .directory, rest => tree.follow here rest
      | some .file, [] => none
      | some .file, _ :: _ => some .notDirectory
      | none, [] => none
      | none, _ :: _ => some .missing

/-- Why the file at a path cannot be opened. The path ends at its first zero byte. -/
def flaw? (tree : FileTree) (path : Bytes) : Option OpenFlaw :=
  let path := Bytes.beforeNul path
  if path.isEmpty then some .missing
  else if maxPath < path.length then some .nameTooLong
  else
    match path with
    | 47 :: rest => tree.follow [] (names rest)
    | path => tree.follow (ascii "/root") (names path)

end FileTree

end EditorSession
