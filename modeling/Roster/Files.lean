import Roster.Path

-- Reading a file by its path, in a working directory whose contents are known.
--
-- A directory inside the working directory is empty. Outside of it there are the directories above
-- it and the standard places of a system, such as the device that reads as empty.

namespace Roster

inductive ReadFailure
  | notFound
  | notDirectory
  | isDirectory
  | nameTooLong
  | nulInName
  | other (text : String)
deriving DecidableEq, Repr

def ReadFailure.message : ReadFailure → String
  | .notFound => "No such file or directory (os error 2)"
  | .notDirectory => "Not a directory (os error 20)"
  | .isDirectory => "Is a directory (os error 21)"
  | .nameTooLong => "File name too long (os error 36)"
  | .nulInName => "file name contained an unexpected NUL byte"
  | .other text => text

inductive FileEntry
  | file (content : Bytes)
  | directory
deriving DecidableEq, Repr

-- The entries of the working directory by name.
abbrev Files := List (Bytes × FileEntry)

namespace Files

-- Where a walk along a path has come to. Standard directories are known by the names that lead
-- to them from the root.
inductive Place
  | standard (names : List Bytes)
  | above
  | working
  | inside
  | file (content : Bytes)
deriving DecidableEq, Repr

def nameLimit : Nat := 255
def pathLimit : Nat := 4095

def Place.root : Place := .standard []

def Place.parent : Place → Place
  | .standard names => .standard names.dropLast
  | .inside => .working
  | _ => .above

def standardDirectories : List (List String) :=
  [["bin"], ["boot"], ["dev"], ["dev", "fd"], ["dev", "pts"], ["dev", "shm"], ["etc"], ["home"],
   ["lib"], ["media"], ["mnt"], ["opt"], ["proc"], ["proc", "self"], ["root"], ["run"], ["sbin"],
   ["srv"], ["sys"], ["tmp"], ["usr"], ["usr", "bin"], ["usr", "include"], ["usr", "lib"],
   ["usr", "local"], ["usr", "sbin"], ["usr", "share"], ["usr", "src"], ["var"], ["var", "cache"],
   ["var", "lib"], ["var", "log"], ["var", "tmp"]]

def standardFiles : List (List String × String) :=
  [(["dev", "null"], ""), (["etc", "passwd"], "root:x:0:0:root:/root:/bin/sh\n"),
   (["etc", "group"], "root:x:0:\n"), (["etc", "hosts"], "127.0.0.1 localhost\n"),
   (["etc", "hostname"], "localhost\n")]

-- The standard place that these names lead to.
def standardPlace? (names : List Bytes) : Option Place :=
  let isAt (path : List String) : Bool := path.map Bytes.ofString = names
  match standardFiles.find? fun f => isAt f.1 with
  | some (_, content) => some (.file (Bytes.ofString content))
  | none => if standardDirectories.any isAt then some (.standard names) else none

-- One step to a name that is neither empty nor made of dots.
def enter (files : Files) (p : Place) (name : Bytes) : Except ReadFailure Place :=
  if nameLimit < name.length then .error .nameTooLong
  else match p with
    | .working =>
      match files.lookup name with
      | some (.file content) => .ok (.file content)
      | some .directory => .ok .inside
      | none => .error .notFound
    | .standard names =>
      match standardPlace? (names ++ [name]) with
      | some q => .ok q
      | none => .error .notFound
    | _ => .error .notFound

-- Nothing comes behind a file, not even an empty name.
def walk (files : Files) (p : Place) : List Bytes → Except ReadFailure Place
  | [] => .ok p
  | name :: rest =>
    match p with
    | .file _ => .error .notDirectory
    | p =>
      if name = [] ∨ name = Path.dot then walk files p rest
      else if name = Path.dotdot then walk files p.parent rest
      else (enter files p name).bind fun q => walk files q rest

def read (files : Files) (path : Bytes) : Except ReadFailure Bytes :=
  if path.contains 0 then .error .nulInName
  else if path = [] then .error .notFound
  else if pathLimit < path.length then .error .nameTooLong
  else
    let start := if Path.isRooted path then Place.root else .working
    match walk files start (Path.pieces path) with
    | .error e => .error e
    | .ok (.file content) => .ok content
    | .ok _ => .error .isDirectory

-- The names of the entries in ascending order.
def listing (files : Files) : List Bytes :=
  (files.map Prod.fst).mergeSort fun a b => decide (a ≤ b)

end Files
end Roster
