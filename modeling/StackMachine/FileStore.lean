import StackMachine.Bytes

/-!
# File stores

The files and directories around a working directory, as the commands see them. A path is walked
component by component, from the working directory or from the root; a component `.` stays where it
is, and `..` takes the last component back. Every step, also one that stays, starts in a directory
that is there.

* `checkPath` refuses what can be no path in any store.
* `read` and `write` say why a path gives no file.
* `lookup?_set`: what was put in a place is found there.
-/

namespace StackMachine

/-- Why a path gives no file. -/
inductive FileError where
  /-- There is a NUL in the path. -/
  | invalidName
  | notFound
  | notDirectory
  | isDirectory
  | nameTooLong
deriving DecidableEq, Repr

namespace FileError

/-- The text of a file error. -/
def message : FileError → String
  | invalidName => "file name contained an unexpected NUL byte"
  | notFound => "No such file or directory (os error 2)"
  | notDirectory => "Not a directory (os error 20)"
  | isDirectory => "Is a directory (os error 21)"
  | nameTooLong => "File name too long (os error 36)"

end FileError

/-- A file with its content, or a directory. -/
inductive FileEntry where
  | file (content : Bytes)
  | directory
deriving DecidableEq

/-- Entries by the components of their paths, where `/` alone stands for the root. The root, the
working directory and those above it need no entry. -/
structure FileStore where
  entries : List (List String × FileEntry)

namespace FileStore

/-- The store without entries. -/
def empty : FileStore :=
  ⟨[]⟩

/-- Whether a place is the root, the working directory or one above it. -/
def isBase (place : List String) : Bool :=
  place == ["/"] || place.all (· == "..")

/-- The entry in a place. -/
def lookup? (store : FileStore) (place : List String) : Option FileEntry :=
  if isBase place then some .directory
  else (store.entries.find? fun entry => entry.1 == place).map (·.2)

/-- The place where a path starts. -/
def origin (path : String) : List String :=
  if path.toList.head? == some '/' then ["/"] else []

/-- The components of a path; empty ones are left out. -/
def components (path : String) : List String :=
  (path.splitOn "/").filter fun part => !part.isEmpty

/-- The place one component further. -/
def descend (place : List String) (part : String) : List String :=
  if part == "." then place
  else if part != ".." then place ++ [part]
  else if place == ["/"] then place
  else if isBase place then place ++ [part]
  else place.dropLast

/-- Whether a path asks for a directory by its last character. -/
def endsWithSlash (path : String) : Bool :=
  path.toList.getLast? == some '/'

/-- The number of bytes that a component can have. -/
def maxComponentSize : Nat :=
  255

/-- The number of bytes that a path can have. -/
def maxPathSize : Nat :=
  4095

/-- Walk from a directory; the place is where the path leads, whether there is an entry or not. -/
def walk (store : FileStore) (place : List String) : List String → Except FileError (List String)
  | [] => .ok place
  | part :: rest =>
    match store.lookup? place with
    | none => .error .notFound
    | some (.file _) => .error .notDirectory
    | some .directory =>
      if maxComponentSize < part.utf8ByteSize then .error .nameTooLong
      else store.walk (descend place part) rest

/-- Whether a path can lead anywhere, whatever there is in a store. -/
def checkPath (path : String) : Except FileError Unit :=
  if path.toList.any (·.val == 0) then .error .invalidName
  else if path.isEmpty then .error .notFound
  else if maxPathSize < path.utf8ByteSize then .error .nameTooLong
  else .ok ()

/-- The content of the file at a path. -/
def read (store : FileStore) (path : String) : Except FileError Bytes := do
  checkPath path
  match store.lookup? (← store.walk (origin path) (components path)) with
  | none => throw .notFound
  | some .directory => throw .isDirectory
  | some (.file content) => if endsWithSlash path then throw .notDirectory else return content

/-- The store with an entry in a place. -/
def set (store : FileStore) (place : List String) (entry : FileEntry) : FileStore :=
  ⟨(place, entry) :: store.entries.filter fun old => old.1 != place⟩

/-- The store with a file at a path, new or written over; its directory has to be there. A path that
asks for a directory is refused in that directory, before its last component is looked at. -/
def write (store : FileStore) (path : String) (content : Bytes) : Except FileError FileStore := do
  checkPath path
  let parts := components path
  if endsWithSlash path then
    match store.lookup? (← store.walk (origin path) parts.dropLast) with
    | none => throw .notFound
    | some (.file _) => throw .notDirectory
    | some .directory => throw .isDirectory
  else
    let place ← store.walk (origin path) parts
    match store.lookup? place with
    | some .directory => throw .isDirectory
    | _ => return store.set place (.file content)

/-- The store with all directories on the way to a place. -/
def addAbove (store : FileStore) (place : List String) : FileStore :=
  (List.range place.length).foldl
    (fun store n =>
      if (store.lookup? (place.take n)).isNone then store.set (place.take n) .directory else store)
    store

/-- The place that a path names, whatever there is on the way to it. -/
def placeOf (path : String) : List String :=
  (components path).foldl descend (origin path)

/-- The store with all directories on the way to a path. -/
def addParents (store : FileStore) (path : String) : FileStore :=
  store.addAbove (placeOf path)

/-- The store with an entry at a path, and with all directories on the way to it. -/
def add (store : FileStore) (path : String) (entry : FileEntry) : FileStore :=
  (store.addParents path).set (placeOf path) entry

/-- The files that differ from those of an earlier store, by their paths. -/
def changesSince (store old : FileStore) : List (String × Bytes) :=
  store.entries.filterMap fun (place, entry) =>
    match entry with
    | .directory => none
    | .file content =>
      if old.lookup? place == some entry then none
      else some (String.intercalate "/" place, content)

theorem lookup?_set {store : FileStore} {place : List String} {entry : FileEntry}
    (h : isBase place = false) : (store.set place entry).lookup? place = some entry := by
  simp [lookup?, set, h]

end FileStore

end StackMachine
