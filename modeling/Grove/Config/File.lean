import Grove.Config.Document

/-!
# Configuration files

Files are found by walking a path through a tree of directories. A path without a leading slash
starts at the working directory; empty parts and `.` stay where they are, and `..` goes up. Only a
file has contents, and the contents of a configuration file are text.
-/

set_option autoImplicit false

namespace Grove

inductive FileNode where
  | file (contents : ByteArray)
  | directory (entries : List (String × FileNode))

/-- A tree of files, and where relative paths start in it. -/
structure FileTree where
  root : List (String × FileNode) := []
  workingDirectory : List String := []

namespace FileTree

/-- The longest name of a file, in bytes. -/
def maxNameBytes : Nat := 255

def maxPathBytes : Nat := 4096

/-- Walks on from a node. The nodes on the way from the root are listed, the last one first. -/
def walk (node : FileNode) (parents : List FileNode) : List String → Except ReadError FileNode
  | [] => .ok node
  | part :: parts =>
      match node with
      | .file _ => .error .notDirectory
      | .directory entries =>
          if part = "" ∨ part = "." then walk node parents parts
          else if part = ".." then
            match parents with
            | [] => walk node [] parts
            | parent :: rest => walk parent rest parts
          else if maxNameBytes < part.utf8ByteSize then .error .nameTooLong
          else
            match entries.lookup part with
            | none => .error .notFound
            | some child => walk child (node :: parents) parts

def partsFromRoot (tree : FileTree) (path : String) : List String :=
  let parts := path.splitOn "/"
  if path.startsWith "/" then parts else tree.workingDirectory ++ parts

def read (tree : FileTree) (path : String) : Except ReadError ByteArray :=
  if path.contains '\x00' then .error .nameHasNul
  else if path.isEmpty then .error .notFound
  else if maxPathBytes ≤ path.utf8ByteSize then .error .nameTooLong
  else
    match walk (.directory tree.root) [] (tree.partsFromRoot path) with
    | .error problem => .error problem
    | .ok (.directory _) => .error .isDirectory
    | .ok (.file contents) => .ok contents

end FileTree

namespace Configuration

/-- Reads a configuration from the contents of a file. -/
def ofContents (contents : Except ReadError ByteArray) :
    Except (ConfigError Float32) (Configuration Float32) :=
  match contents with
  | .error problem => .error (.unreadable problem)
  | .ok bytes =>
      match String.fromUTF8? bytes with
      | none => .error (.unreadable .notText)
      | some text => parse text.toList

end Configuration

end Grove
