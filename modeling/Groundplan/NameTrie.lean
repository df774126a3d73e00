import Groundplan.NameTable
/-!
Tries of named things. A trie has a tree of nodes for each module, in which a path is followed
key by key, and nodes without a value where a longer path goes on. It answers the same questions
as a table of names.
-/

namespace Groundplan

/-! ## Answers -/

/-- What can be asked of a store of named values. -/
structure NameAnswers (α : Type u) where
  find? : FullName → Option α
  entries : NameTable α
  size : Nat
  isEmpty : Bool
  longestStart? : FullName → Option (FullName × α)

namespace NameTable

def answers {α : Type u} (table : NameTable α) : NameAnswers α where
  find? name := Table.find? name table
  entries := table
  size := table.length
  isEmpty := table.isEmpty
  longestStart? := longestStart? table

end NameTable

/-- A node of a trie: the value of the path that leads to it, if it has one, and the nodes
below it, each under the key that leads on to it. -/
inductive TrieNode (α : Type u) where
  | node (value : Option α) (children : List (String × TrieNode α))

namespace TrieNode

variable {α : Type u}

def value? : TrieNode α → Option α
  | node value _ => value

def children : TrieNode α → Table String (TrieNode α)
  | node _ children => children

/-- A node without a value. -/
def bare : TrieNode α := node none []

/-- Store a value at the end of a path, with bare nodes on the way where there are none. -/
def add (value : α) : LocalName → TrieNode α → TrieNode α
  | [], here => node (some value) here.children
  | key :: rest, here =>
      node here.value?
        (Table.alter key (fun child => add value rest (child.getD bare)) here.children)

def find? : LocalName → TrieNode α → Option α
  | [], here => here.value?
  | key :: rest, here => (Table.find? key here.children).bind (find? rest)

/-- Follow a path as far as there are nodes, and remember the last value on the way and how
many keys lead to it. The first node does not count. -/
def longest? (best : Option (Nat × α)) (depth : Nat) : LocalName → TrieNode α → Option (Nat × α)
  | [], _ => best
  | key :: rest, here =>
      match Table.find? key here.children with
      | none => best
      | some child =>
          longest? ((child.value?.map fun value => (depth + 1, value)).or best) (depth + 1) rest
            child

mutual

/-- All paths with a value: that of a node before those of the nodes below it. -/
def entries : TrieNode α → List (LocalName × α)
  | node value children => (value.toList.map fun value => ([], value)) ++ childEntries children

def childEntries : List (String × TrieNode α) → List (LocalName × α)
  | [] => []
  | (key, child) :: rest =>
      ((entries child).map fun entry => (key :: entry.1, entry.2)) ++ childEntries rest

end

end TrieNode

/-- The nodes of the empty path of every module. -/
structure NameTrie (α : Type u) where
  modules : Table ModuleName (TrieNode α)

namespace NameTrie

variable {α : Type u}

def empty : NameTrie α := ⟨[]⟩

def add (trie : NameTrie α) (name : FullName) (value : α) : NameTrie α :=
  ⟨Table.alter name.module (fun root => (root.getD .bare).add value name.path) trie.modules⟩

def ofList (additions : List (FullName × α)) : NameTrie α :=
  additions.foldl (fun trie added => trie.add added.1 added.2) empty

def find? (trie : NameTrie α) (name : FullName) : Option α :=
  (Table.find? name.module trie.modules).bind (TrieNode.find? name.path)

def entries (trie : NameTrie α) : NameTable α :=
  trie.modules.flatMap fun root => root.2.entries.map fun entry => (⟨root.1, entry.1⟩, entry.2)

def size (trie : NameTrie α) : Nat := trie.entries.length

def isEmpty (trie : NameTrie α) : Bool :=
  trie.modules.all fun root => root.2.value?.isNone && root.2.children.isEmpty

def longestStart? (trie : NameTrie α) (name : FullName) : Option (FullName × α) :=
  (Table.find? name.module trie.modules).bind fun root =>
    (root.longest? none 0 name.path).map fun best => (⟨name.module, name.path.take best.1⟩, best.2)

def answers (trie : NameTrie α) : NameAnswers α where
  find? := trie.find?
  entries := trie.entries
  size := trie.size
  isEmpty := trie.isEmpty
  longestStart? := trie.longestStart?

end NameTrie

end Groundplan
