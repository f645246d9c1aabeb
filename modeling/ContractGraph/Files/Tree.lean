import ContractGraph.Files.Location
import ContractGraph.Files.SystemError
import ContractGraph.Table

/-!
# File trees

The files and folders that are known, each under the list of names that leads to it from the
working folder. The working folder itself is the empty list, and double dots in front lead to the
folders above it. Every other name is one that a file can have, and whatever is in the tree stands
in a folder that is in it too; both are part of the type. A location is followed part by part, and
every step has to start in a folder. Of what stands below the root of all files nothing is known, so
nothing is found there. There are no symbolic links, every file can be read, and every folder can be
entered and listed.

Text is read as UTF-8 with every style of line end turned into newlines.
-/

namespace ContractGraph

set_option autoImplicit false

inductive FileNode where
  | file (content : ByteArray)
  | folder

theorem bytes_eq_iff (a b : ByteArray) : a.data.toList = b.data.toList ↔ a = b := by
  rcases a with ⟨⟨a⟩⟩
  rcases b with ⟨⟨b⟩⟩
  simp

instance : DecidableEq FileNode
  | .file a, .file b =>
    decidable_of_iff (a.data.toList = b.data.toList) (by rw [bytes_eq_iff, FileNode.file.injEq])
  | .folder, .folder => isTrue rfl
  | .file _, .folder => isFalse (by simp)
  | .folder, .file _ => isFalse (by simp)

/-- The longest name, in bytes. -/
def maxNameLength : Nat := 255

/-- The longest path text, in bytes. -/
def maxPathLength : Nat := 4095

/-- How many levels of folders a walk enters below its root. A walk calls itself for every level, so
this is what the limit on calls leaves to one that starts ten calls deep. -/
def maxWalkNesting : Nat := 980

/-- Whether a file or a folder can have the name. -/
def isFileName (name : String) : Bool :=
  name != "" && name != "." && name != ".." && decide (name.utf8ByteSize ≤ maxNameLength) &&
    !name.toList.contains '/' && !name.toList.contains '\x00'

/-- Whether names lead to the working folder or to a folder above it. -/
def isAbove (names : List String) : Bool := names.all (· == "..")

/-- The names that follow the double dots. -/
def ownNames (names : List String) : List String := names.dropWhile (· == "..")

structure FileTree where
  nodes : Table (List String) FileNode
  named : ∀ e ∈ nodes.entries,
    isAbove e.1 = false ∧ ∀ name ∈ ownNames e.1, isFileName name = true
  closed : ∀ e ∈ nodes.entries,
    isAbove e.1.dropLast = false → nodes.get? e.1.dropLast = some .folder

/-- Why a file could not be used. -/
inductive AccessFault where
  | system (error : SystemError)
  | nulInPath
  deriving DecidableEq

namespace FileTree

def empty : FileTree := ⟨.empty, by simp, by simp⟩

/-- Whether something may be put under a list of names: its folder is there, and no folder stands
at its place. -/
def HasRoom (t : FileTree) (names : List String) : Prop :=
  isAbove names = false ∧ (∀ name ∈ ownNames names, isFileName name = true) ∧
    (isAbove names.dropLast = true ∨ t.nodes.get? names.dropLast = some .folder) ∧
    t.nodes.get? names ≠ some .folder

instance (t : FileTree) (names : List String) : Decidable (t.HasRoom names) :=
  inferInstanceAs (Decidable (_ ∧ _))

theorem drop_last_ne_self {names : List String} (h : isAbove names = false) :
    names.dropLast ≠ names := by
  intro same
  have lengths := congrArg List.length same
  have := List.length_pos_iff.2 (show names ≠ [] by rintro rfl; simp [isAbove] at h)
  simp only [List.length_dropLast] at lengths
  omega

/-- Puts a node where there is room for it. -/
def put (t : FileTree) (names : List String) (node : FileNode) (room : t.HasRoom names) :
    FileTree where
  nodes := t.nodes.insert names node
  named := by
    intro e member
    rcases Table.mem_insert member with rfl | ⟨_, old⟩
    · exact ⟨room.1, room.2.1⟩
    · exact t.named e old
  closed := by
    intro e member below
    rcases Table.mem_insert member with rfl | ⟨_, old⟩
    · rw [t.nodes.get_insert_of_ne node (drop_last_ne_self room.1)]
      exact room.2.2.1.resolve_left (by simp [below])
    · have parent := t.closed e old below
      have other : e.1.dropLast ≠ names := fun same => room.2.2.2 (same ▸ parent)
      rw [t.nodes.get_insert_of_ne node other, parent]

/-- Takes away whatever stands at or below a list of names. -/
def remove (t : FileTree) (names : List String) : FileTree where
  nodes := t.nodes.filter fun k _ => !names.isPrefixOf k
  named := fun e member => t.named e (List.mem_filter.1 member).1
  closed := by
    intro e member below
    obtain ⟨old, kept⟩ := List.mem_filter.1 member
    refine Table.get_filter_of_mem (t.closed e old below) ?_
    simp only [Bool.not_eq_true', ← Bool.not_eq_true, List.isPrefixOf_iff_prefix] at kept ⊢
    exact fun within => kept (within.trans (List.dropLast_prefix e.1))

/-- Where following a location has led to: what names lead to from the working folder, or the root
of all files. -/
inductive Spot where
  | inside (names : List String)
  | root
  deriving DecidableEq

def nodeAt? (t : FileTree) : Spot → Option FileNode
  | .inside names => if isAbove names then some .folder else t.nodes.get? names
  | .root => some .folder

def Spot.up : Spot → Spot
  | .inside names => .inside (if isAbove names then names ++ [".."] else names.dropLast)
  | .root => .root

def Spot.down? (name : String) : Spot → Option Spot
  | .inside names => some (.inside (names ++ [name]))
  | .root => none

/-- One step from a spot that exists. -/
def step (t : FileTree) (spot : Spot) (part : String) : Except SystemError Spot :=
  if t.nodeAt? spot != some .folder then .error .notFolder
  else if part = ".." then .ok spot.up
  else if maxNameLength < part.utf8ByteSize then .error .nameTooLong
  else
    match spot.down? part with
    | none => .error .notFound
    | some next => if (t.nodeAt? next).isSome then .ok next else .error .notFound

def start (l : Location) : Spot := if l.slashes = 0 then .inside [] else .root

def follow (t : FileTree) (l : Location) : Except SystemError Spot := l.parts.foldlM t.step (start l)

/-- The node at a location. -/
def find (t : FileTree) (l : Location) : Except AccessFault FileNode :=
  if l.hasNul then .error .nulInPath
  else if maxPathLength < l.text.utf8ByteSize then .error (.system .nameTooLong)
  else
    match t.follow l with
    | .error e => .error (.system e)
    | .ok spot =>
      match t.nodeAt? spot with
      | some node => .ok node
      | none => .error (.system .notFound)

/-- The node at a path text as it stands; one that ends in a slash has to be a folder. -/
def findText (t : FileTree) (path : String) : Except AccessFault FileNode :=
  if path = "" then .error (.system .notFound)
  else
    match t.find (.ofText path) with
    | .error e => .error e
    | .ok node =>
      if maxPathLength < path.utf8ByteSize then .error (.system .nameTooLong)
      else
        match node, (Text.splitAt '/' path.toList).getLast? with
        | .file _, some [] | .file _, some ['.'] => .error (.system .notFolder)
        | node, _ => .ok node

/-- Failures that mean that nothing is there, as opposed to failures of asking. -/
def meansAbsent : AccessFault → Bool
  | .system e => e = .notFound || e = .notFolder
  | .nulInPath => true

def isFolder (t : FileTree) (l : Location) : Except SystemError Bool :=
  match t.find l with
  | .ok node => .ok (node = .folder)
  | .error (.system e) => if meansAbsent (.system e) then .ok false else .error e
  | .error .nulInPath => .ok false

def isFile (t : FileTree) (l : Location) : Except SystemError Bool :=
  match t.find l with
  | .ok node => .ok (node != .folder)
  | .error (.system e) => if meansAbsent (.system e) then .ok false else .error e
  | .error .nulInPath => .ok false

def readBytes (t : FileTree) (l : Location) : Except AccessFault ByteArray :=
  match t.find l with
  | .error e => .error e
  | .ok .folder => .error (.system .isFolder)
  | .ok (.file content) => .ok content

/-- Puts a file at a location, in place of a file that is there. -/
def writeBytes (t : FileTree) (l : Location) (content : ByteArray) : Except AccessFault FileTree :=
  if l.hasNul then .error .nulInPath
  else if maxPathLength < l.text.utf8ByteSize then .error (.system .nameTooLong)
  else
    match l.parts.getLast? with
    | none => .error (.system .isFolder)
    | some name =>
      match t.follow l.parent with
      | .error e => .error (.system e)
      | .ok spot =>
        if t.nodeAt? spot != some .folder then .error (.system .notFolder)
        else if name = ".." then .error (.system .isFolder)
        else if maxNameLength < name.utf8ByteSize then .error (.system .nameTooLong)
        else
          match spot.down? name with
          | none | some .root => .error (.system .notFound)
          | some (.inside names) =>
            if t.nodes.get? names = some .folder then .error (.system .isFolder)
            else if room : t.HasRoom names then .ok (t.put names (.file content) room)
            else .error (.system .notFound)

def writeText (t : FileTree) (l : Location) (text : String) : Except AccessFault FileTree :=
  t.writeBytes l text.toUTF8

/-- Follows parts from a spot and makes the folders that are missing. Those made before a failure
stay. -/
def makeFolders (t : FileTree) (spot : Spot) : List String → FileTree × Except SystemError Spot
  | [] => (t, .ok spot)
  | part :: rest =>
    match t.step spot part with
    | .ok next =>
      if t.nodeAt? next = some .folder then makeFolders t next rest
      else (t, .error (if rest.isEmpty then .alreadyThere else .notFolder))
    | .error e =>
      match spot.down? part with
      | some (.inside names) =>
        if room : e = .notFound ∧ t.HasRoom names then
          makeFolders (t.put names .folder room.2) (.inside names) rest
        else (t, .error e)
      | _ => (t, .error e)

/-- Puts a node at a location and makes the folders that lead to it. The tree that is left, and the
failure if there was one. -/
def plant (t : FileTree) (l : Location) (node : FileNode) : FileTree × Option AccessFault :=
  if l.hasNul then (t, some .nulInPath)
  else if maxPathLength < l.text.utf8ByteSize then (t, some (.system .nameTooLong))
  else
    match node with
    | .folder =>
      match t.makeFolders (start l) l.parts with
      | (t, .ok _) => (t, none)
      | (t, .error e) => (t, some (.system e))
    | .file content =>
      match t.makeFolders (start l) l.parent.parts with
      | (t, .error e) => (t, some (.system e))
      | (t, .ok _) =>
        match t.writeBytes l content with
        | .ok t => (t, none)
        | .error e => (t, some e)

/-- Takes a file away. -/
def removeFile (t : FileTree) (l : Location) : Except AccessFault FileTree :=
  match t.find l with
  | .error e => .error e
  | .ok .folder => .error (.system .isFolder)
  | .ok (.file _) =>
    match t.follow l with
    | .ok (.inside names) => .ok (t.remove names)
    | _ => .error (.system .notFound)

/-- Every line end becomes one newline. -/
def unifyNewlines : List Char → List Char
  | '\r' :: '\n' :: cs => '\n' :: unifyNewlines cs
  | '\r' :: cs => '\n' :: unifyNewlines cs
  | c :: cs => c :: unifyNewlines cs
  | [] => []

/-- The text of a file. -/
def decodeText? (content : ByteArray) : Option String :=
  (String.fromUTF8? content).map fun s => String.ofList (unifyNewlines s.toList)

end FileTree

end ContractGraph
