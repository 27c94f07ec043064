import EDDTs.Pan.SplitStr
import EDDTs.Library.OrderedTree

/-!
# The symbol table of `symbol.c`

A table is a header that owns a chain of nodes, each with a key and a pointer
to data; the data of a node may be the header of another table. The heap holds
the headers, a header's address being its place in the order of allocation,
and the chain of a header is the list of its nodes.

The loop of `sym_put` and `sym_get` over the key components leaves in three
ways, which the code tells apart by the pointers it is left with: at a node
whose data is no table, with all components found, or with the first component
that is missing from the current table.

## Implementation notes

`SYM_MAGIC` is what tells a header from other data behind a `void *`; here it
is the constructor of `SymData`. Leaf data that happens to start with the magic
number is not modelled. Nodes and headers are never moved, and no chain shares
a node with another, so a cursor is a header address and an index.
-/

namespace EDDTs.Pan

open Library

/-- What a `void *data` points to. -/
inductive SymData (α : Type*) where
  | null
  | leaf (a : α)
  | table (addr : Nat)

/-- `struct sym`, without the link to the next node. -/
structure SymNode (α : Type*) where
  key : Text
  data : SymData α

/-- `struct symh`. -/
structure Symh (α : Type*) where
  sym : List (SymNode α)
  cursor : Option (Nat × Nat)

/-- The headers allocated so far. -/
abbrev SymHeap (α : Type*) := List (Symh α)

inductive PutStatus
  | ok
  | eexist
  | enotdir
  /-- a key without components is dereferenced through the null node -/
  | nullDeref
  deriving DecidableEq, Repr

variable {α : Type*}

/-- The chain of the header at an address. -/
def SymHeap.chain (h : SymHeap α) (a : Nat) : List (SymNode α) :=
  match h[a]? with
  | some s => s.sym
  | none => []

/-- `newsym`: the new heap; the address is the old number of headers. -/
def newsym (h : SymHeap α) : SymHeap α := h ++ [{ sym := [], cursor := none }]

/-- Replace the chain of the header at an address. -/
def SymHeap.setChain (h : SymHeap α) (a : Nat) (ns : List (SymNode α)) : SymHeap α :=
  h.modify a fun s => { s with sym := ns }

/-- `find_key1`: the index of the first node with the key. -/
def findKey1 (ns : List (SymNode α)) (key : Text) : Option Nat :=
  ns.findIdx? fun n => n.key = key

/-- `add_key`: a new node at the end of the chain. -/
def addKey (h : SymHeap α) (sym : Nat) (key : Text) (data : SymData α) : SymHeap α :=
  h.setChain sym (h.chain sym ++ [{ key := key, data := data }])

/-- Where the search loop of `sym_put` and `sym_get` ends. -/
inductive Search
  /-- a component that is not the last one was found on a node without a table -/
  | notDir
  /-- `*kk == NULL`: the node of the last component, null if there was none -/
  | complete (nsym : Option (Nat × Nat))
  /-- the first of the remaining components is not in the table `csym` -/
  | missing (csym : Nat) (rest : List Text)

/-- The search loop, at the table `csym` with the components `kk` to go. -/
def symSearch (h : SymHeap α) (csym : Nat) : List Text → Search
  | [] => .complete none
  | k :: kk =>
      match findKey1 (h.chain csym) k with
      | none => .missing csym (k :: kk)
      | some i =>
          match kk with
          | [] => .complete (some (csym, i))
          | _ :: _ =>
              match (h.chain csym)[i]?.map SymNode.data with
              | some (.table t) => symSearch h t kk
              | _ => .notDir

/-- The loop of `sym_put` that adds the missing components, a new table for
each one but the last. -/
def addKeys (h : SymHeap α) (csym : Nat) (data : SymData α) : List Text → SymHeap α
  | [] => h
  | [k] => addKey h csym k data
  | k :: kk =>
      let ncsym := h.length
      addKeys (addKey (newsym h) csym k (.table ncsym)) ncsym data kk

/-- `nsym->data = data`. -/
def setData (h : SymHeap α) (nsym : Nat × Nat) (data : SymData α) : SymHeap α :=
  h.setChain nsym.1 ((h.chain nsym.1).modify nsym.2 fun n => { n with data := data })

/-- The components of a key. -/
def keyPath (key : Text) : List Text := splitstr key [',']

/-- `sym_put`; `replace` says that `flags == PUT_REPLACE`. -/
def symPut (h : SymHeap α) (sym : Nat) (key : Text) (data : SymData α) (replace : Bool) :
    PutStatus × SymHeap α :=
  match symSearch h sym (keyPath key) with
  | .notDir => (.enotdir, h)
  | .complete nsym =>
      if replace then
        match nsym with
        | some n => (.ok, setData h n data)
        | none => (.nullDeref, h)
      else (.eexist, h)
  | .missing csym rest => (.ok, addKeys h csym data rest)

/-- `sym_get`; the outer `none` is the dereference of the null node that a key
without components leads to. -/
def symGet (h : SymHeap α) (sym : Nat) (key : Text) : Option (SymData α) :=
  match symSearch h sym (keyPath key) with
  | .notDir => some .null
  | .complete (some n) => (h.chain n.1)[n.2]?.map SymNode.data
  | .complete none => none
  | .missing _ _ => some .null

/-- The sequencing modes of `sym_seq`. -/
inductive SeqMode
  | cursor (key : Text)
  | first
  | next

/-- Move the cursor of the table `sym` and read the node it is on. -/
def seqAt (h : SymHeap α) (sym : Nat) (cursor : Option (Nat × Nat)) :
    Option (SymNode α) × SymHeap α :=
  let node := cursor.bind fun c => (h.chain c.1)[c.2]?
  (node, h.modify sym fun s => { s with cursor := node.bind fun _ => cursor })

/-- `sym_seq`: the node whose key and data are returned with status zero, or
none with a non-zero status. -/
def symSeq (h : SymHeap α) (sym : Nat) : SeqMode → Option (SymNode α) × SymHeap α
  | .cursor key =>
      match symGet h sym key with
      | some (.table t) => seqAt h sym (some (t, 0))
      | _ => (none, h)
  | .first => seqAt h sym (some (sym, 0))
  | .next => seqAt h sym ((h[sym]?.bind Symh.cursor).map fun c => (c.1, c.2 + 1))

/-- The keys that `R_FIRST` followed by at most `n` calls with `R_NEXT` return,
up to the first call that returns a non-zero status. -/
def seqKeys (h : SymHeap α) (sym : Nat) (mode : SeqMode) : Nat → List Text
  | 0 => []
  | n + 1 =>
      match symSeq h sym mode with
      | (some node, h') => node.key :: seqKeys h' sym .next n
      | (none, _) => []

end EDDTs.Pan
