import Mathlib.Data.List.AList
import Mathlib.Data.List.DropRight
import OpenInstrument.Go.Text

/-! # Tries

A trie keeps values under strings of bytes.  A node has a character, a value if a key ends there, and a list of child
nodes in the order of their characters.  A character is unsigned where a key is put in, and a plain `char`, which has
a sign, where a key is looked for.
-/

namespace OpenInstrument.Server

variable {Value : Type}

/-- The child nodes of a node.  Each one has a character, a value, and child nodes of its own, and stands in front of
the rest. -/
inductive TrieNodes (Value : Type) where
  | nil
  | node (character : UInt8) (value : Option Value) (childNodes rest : TrieNodes Value)
  deriving DecidableEq

namespace TrieNodes

/-- The value and the child nodes of a node. -/
abbrev Inside (Value : Type) := Option Value × TrieNodes Value

/-- The number that a plain `char` stands for. -/
def charValue (char : UInt8) : Int := char.toInt8.toInt

/-- `get_node`, and what is done to the node then, with an answer. -/
def getNode (c : UInt8) (visit : Inside Value → Bool × Inside Value) : TrieNodes Value → Bool × TrieNodes Value
  | nil => ((visit (none, nil)).1, node c (visit (none, nil)).2.1 (visit (none, nil)).2.2 nil)
  | node character value childNodes rest =>
    if character = c then
      let visited := visit (value, childNodes)
      (visited.1, node character visited.2.1 visited.2.2 rest)
    else if c < character then
      let visited := visit (none, nil)
      (visited.1, node c visited.2.1 visited.2.2 (node character value childNodes rest))
    else
      let later := getNode c visit rest
      (later.1, node character value childNodes later.2)

/-- `set_value`, with whether there was a value. -/
def setValue (value : Option Value) (inside : Inside Value) : Bool × Inside Value := (inside.1.isSome, value, inside.2)

/-- The loop of `insert`, with whether a value was replaced. -/
def insertLoop (val : Value) : Bytes → Inside Value → Bool × Inside Value
  | [], inside => setValue (some val) inside
  | char :: keychars, inside =>
    let visited := getNode char (insertLoop val keychars) inside.2
    (visited.1, inside.1, visited.2)

/-- The search among the child nodes in `find` and `find_prefix`. -/
def findNode (char : Int) : TrieNodes Value → Option (UInt8 × Inside Value)
  | nil => none
  | node character value childNodes rest =>
    if char < character.toNat then none
    else if character.toNat = char then some (character, value, childNodes)
    else findNode char rest

/-- The walk of `find` and `find_prefix`: the node at which a key ends. -/
def walk : Bytes → UInt8 × Inside Value → Option (UInt8 × Inside Value)
  | [], curr => some curr
  | char :: key, curr => (findNode (charValue char) curr.2.2).bind (walk key)

/-- The child nodes after a change to the one that `findNode` finds. -/
def changeNode (char : Int) (change : Inside Value → Inside Value) : TrieNodes Value → TrieNodes Value
  | nil => nil
  | node character value childNodes rest =>
    if char < character.toNat then node character value childNodes rest
    else if character.toNat = char then
      node character (change (value, childNodes)).1 (change (value, childNodes)).2 rest
    else node character value childNodes (changeNode char change rest)

/-- The root after the value of the node that `walk` finds is gone. -/
def eraseLoop : Bytes → Inside Value → Inside Value
  | [], inside => (setValue none inside).2
  | char :: key, inside => (inside.1, changeNode (charValue char) (eraseLoop key) inside.2)

end TrieNodes

open TrieNodes

structure Trie (Value : Type) where
  size : Nat
  root : Inside Value
  deriving DecidableEq

namespace Trie

def empty : Trie Value := { size := 0, root := (none, .nil) }

/-- `insert`.  It throws for the empty key, and leaves the trie as it is. -/
def insert (trie : Trie Value) (key : Bytes) (val : Value) : Trie Value :=
  if key = [] then trie
  else
    let inserted := insertLoop val key trie.root
    { size := if inserted.1 then trie.size else trie.size + 1, root := inserted.2 }

/-- `find`, with the value that the iterator points to. -/
def find (trie : Trie Value) (key : Bytes) : Option Value :=
  match walk key (0, trie.root) with
  | none => none
  | some (character, value, _) =>
    if key.getLast?.map charValue = some (character.toNat : Int) then value else none

def erase (trie : Trie Value) (key : Bytes) : Trie Value :=
  match trie.find key with
  | none => trie
  | some _ => { size := trie.size - 1, root := eraseLoop key trie.root }

/-- `clear`. -/
def clear (_ : Trie Value) : Trie Value := { size := 0, root := (none, .nil) }

end Trie

inductive TrieOp (Value : Type) where
  | insert (key : Bytes) (val : Value)
  | erase (key : Bytes)
  | clear
  deriving DecidableEq

def TrieOp.apply (trie : Trie Value) : TrieOp Value → Trie Value
  | insert key val => trie.insert key val
  | erase key => trie.erase key
  | clear => trie.clear

def Trie.run (ops : List (TrieOp Value)) : Trie Value := ops.foldl TrieOp.apply .empty

/-! ## What a trie is for -/

/-- A map from keys to values. -/
abbrev KeyMap (Value : Type) := AList fun _ : Bytes => Value

def TrieOp.effect (map : KeyMap Value) : TrieOp Value → KeyMap Value
  | insert key val => map.insert key val
  | erase key => map.erase key
  | clear => ∅

def present (ops : List (TrieOp Value)) : KeyMap Value := ops.foldl TrieOp.effect ∅

namespace TrieNodes

def characters : TrieNodes Value → List UInt8
  | nil => []
  | node character _ _ rest => character :: rest.characters

def Increasing : TrieNodes Value → Prop
  | nil => True
  | node character _ childNodes rest =>
    (∀ other ∈ rest.characters, character < other) ∧ childNodes.Increasing ∧ rest.Increasing

def child (char : UInt8) : TrieNodes Value → Option (Inside Value)
  | nil => none
  | node character value childNodes rest => if character = char then some (value, childNodes) else rest.child char

/-- The node of a key. -/
def insideAt : Bytes → Inside Value → Option (Inside Value)
  | [], inside => some inside
  | char :: key, inside => (inside.2.child char).bind (insideAt key)

def valueAt (key : Bytes) (inside : Inside Value) : Option Value := (insideAt key inside).bind Prod.fst

end TrieNodes

/-- A key of characters that are not negative. -/
def SevenBit (key : Bytes) : Prop := ∀ char ∈ key, char < 128

end OpenInstrument.Server
