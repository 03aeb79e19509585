import Nkn.Lib.Patricia
import Nkn.Model.Transaction

/-! # The state trie

`chain/trie`: a path-compressed trie over nibbles, in memory as far as it has been read and in the database node by node,
each under its hash. -/

namespace Nkn.Trie

open Go Outcome

abbrev Nibble := Fin 17

instance instNeZeroNibble : NeZero 17 := ⟨by decide⟩

abbrev Key := List Nibble

def nibbles (b : UInt8) : Key :=
  [⟨b.toNat / 16, by have := b.toNat_lt; omega⟩, ⟨b.toNat % 16, by omega⟩]

def keyBytesToHex (str : Bytes) : Key := str.flatMap nibbles ++ [16]

def hasTerm (s : Key) : Bool := s.getLast? = some 16

def decodeNibbles : Key → Bytes
  | high :: low :: rest => (UInt8.ofNat high.val <<< 4 ||| UInt8.ofNat low.val) :: decodeNibbles rest
  | _ => []

def hexToCompact (hex : Key) : Bytes :=
  let terminator : UInt8 := if hasTerm hex then 1 else 0
  let hex := if hasTerm hex then hex.dropLast else hex
  match hex with
  | first :: rest =>
    if hex.length % 2 = 1 then (terminator <<< 5 ||| (1 : UInt8) <<< 4 ||| UInt8.ofNat first.val) :: decodeNibbles rest
    else terminator <<< 5 :: decodeNibbles hex
  | [] => [terminator <<< 5]

def compactToHex (compact : Bytes) : Outcome Key :=
  match (keyBytesToHex compact).dropLast with
  | [] => crash "index out of range [0] with length 0"
  | first :: rest =>
    let base := if first.val ≥ 2 then first :: rest ++ [16] else first :: rest
    .ok (base.drop (2 - first.val % 2))

def prefixLen (a b : Key) : Nat := Patricia.commonLength a b

/-- `nodeFlag`: the hash of a node, if it has been computed, and whether the node has changed since. -/
structure NodeFlag where
  hash : Option Bytes := none
  dirty : Bool := false

/-- `node`: an empty place, a value, a path, a branching node, or the hash of a node that has not been read. -/
inductive Node where
  | nil
  | valueNode (v : Bytes)
  | shortNode (key : Key) (val : Node) (flags : NodeFlag)
  | fullNode (children : Nibble → Node) (flags : NodeFlag)
  | hashNode (h : Bytes)

def Node.isNil : Node → Bool
  | nil => true
  | _ => false

/-- A node in the form in which it is written: paths are compact, and what is hashed or absent is no node anymore. -/
inductive Collapsed where
  | valueNode (v : Bytes)
  | shortNode (key : Bytes) (val : Collapsed)
  | fullNode (children : Nibble → Collapsed)
  | hashNode (h : Bytes)

def tagHashNode : Nat := 0

def tagValueNode : Nat := 1

def tagShortNode : Nat := 2

def tagFullNode : Nat := 17

namespace Collapsed

def serialize : Collapsed → Bytes
  | valueNode v => varUint tagValueNode ++ writeVarBytes v
  | shortNode key val => varUint tagShortNode ++ writeVarBytes key ++ val.serialize
  | fullNode children =>
    varUint tagFullNode ++ (List.finRange 17).flatMap fun i => varUint i.val ++ (children i).serialize
  | hashNode h => varUint tagHashNode ++ writeVarBytes h

def hash? : Collapsed → Option Bytes
  | hashNode h => some h
  | _ => none

end Collapsed

def deserializeChild (deserialize : Bytes → Outcome (Node × Bytes)) (state : (Nibble → Node) × Bytes) (i : Nibble) :
    Outcome ((Nibble → Node) × Bytes) := do
  let (idx, r) ← readVarUint 20 state.2
  rejectIf (idx ≠ i.val) "idex error"
  let (n, r) ← deserialize r
  .ok (Function.update state.1 i n, r)

/-- `Deserialize` with `needFlags = false`. Every call reads at least one byte, so that the size of the buffer bounds
the depth of the calls. -/
def deserialize : (depth : Nat) → Bytes → Outcome (Node × Bytes)
  | 0, _ => crash "stack overflow"
  | depth + 1, r => do
    let (count, r) ← readVarUint 20 r
    if count = tagHashNode then do
      let (buff, r) ← readVarBytes r
      .ok (.hashNode buff, r)
    else if count = tagValueNode then do
      let (buff, r) ← readVarBytes r
      .ok (if buff = [] then .nil else .valueNode buff, r)
    else if count = tagShortNode then do
      let (key, r) ← readVarBytes r
      let key ← compactToHex key
      let (val, r) ← deserialize depth r
      .ok (.shortNode key val {}, r)
    else if count = tagFullNode then do
      let (children, r) ← (List.finRange 17).foldlM (deserializeChild (deserialize depth)) (fun _ => .nil, r)
      .ok (.fullNode children {}, r)
    else fail "errors"

def mustDecodeNode (buf : Bytes) : Outcome Node :=
  match deserialize buf.length buf with
  | .ok (n, _) => .ok n
  | .error (.error text) => crash s!"Trie node decode error: {text}"
  | .error fault => .error fault

abbrev Database := Bytes → Option Bytes

variable (env : Env) (db : Database)

namespace Node

def resolveHash (n : Bytes) : Outcome Node := do
  let enc ← orFail "leveldb: not found" (db n)
  mustDecodeNode enc

def resolve : Node → Outcome Node
  | .hashNode h => resolveHash db h
  | n => .ok n

/-- `tryGet`, with the rest of the key instead of a position in it: the value, and the node with what has been read on
the way. `depth` bounds the recursion, which ends by itself as long as a hash does not lead to another hash. -/
def tryGet : (depth : Nat) → Node → Key → Outcome (Option Bytes × Node)
  | 0, _, _ => crash "stack overflow"
  | _ + 1, .nil, _ => .ok (none, .nil)
  | _ + 1, .valueNode v, _ => .ok (some v, .valueNode v)
  | depth + 1, .shortNode nKey val flags, key =>
    if nKey <+: key then do
      let (value, newNode) ← tryGet depth val (key.drop nKey.length)
      .ok (value, .shortNode nKey newNode flags)
    else .ok (none, .shortNode nKey val flags)
  | _ + 1, .fullNode _ _, [] => crash "index out of range"
  | depth + 1, .fullNode children flags, i :: key => do
    let (value, newNode) ← tryGet depth (children i) key
    .ok (value, .fullNode (Function.update children i newNode) flags)
  | depth + 1, .hashNode h, key => do
    let child ← resolveHash db h
    tryGet depth child key

def insertNil (key : Key) (value : Node) : Node := if key = [] then value else .shortNode key value { dirty := true }

def insert : (depth : Nat) → Node → Key → Node → Outcome Node
  | 0, _, _, _ => crash "stack overflow"
  | _ + 1, _, [], value => .ok value
  | depth + 1, .shortNode nKey val _, key, value =>
    let matchLen := prefixLen key nKey
    if matchLen = nKey.length then do
      let nn ← insert depth val (key.drop matchLen) value
      .ok (.shortNode nKey nn {})
    else
      match nKey.drop matchLen, key.drop matchLen with
      | b :: nRest, a :: rest =>
        let branch := Node.fullNode
          (Function.update (Function.update (fun _ => .nil) b (insertNil nRest val)) a (insertNil rest value)) {}
        .ok (if matchLen = 0 then branch else .shortNode (key.take matchLen) branch { dirty := true })
      | _, _ => crash "index out of range"
  | depth + 1, .fullNode children _, i :: key, value => do
    let nn ← insert depth (children i) key value
    .ok (.fullNode (Function.update children i nn) { dirty := true })
  | _ + 1, .nil, key, value => .ok (insertNil key value)
  | depth + 1, .hashNode h, key, value => do
    let rn ← resolveHash db h
    insert depth rn key value
  | _ + 1, .valueNode _, _, _ => crash "Invalid insert node type"

def onlyChild (children : Nibble → Node) : Option Nibble :=
  match (List.finRange 17).filter fun i => !(children i).isNil with
  | [pos] => some pos
  | _ => none

def delete : (depth : Nat) → Node → Key → Outcome Node
  | 0, _, _ => crash "stack overflow"
  | depth + 1, .shortNode nKey val flags, key =>
    let matchLen := prefixLen key nKey
    if matchLen < nKey.length then .ok (.shortNode nKey val flags)
    else if matchLen = key.length then .ok .nil
    else do
      let child ← delete depth val (key.drop nKey.length)
      match child with
      | .shortNode cKey cVal _ => .ok (.shortNode (nKey ++ cKey) cVal {})
      | child => .ok (.shortNode nKey child {})
  | _ + 1, .fullNode _ _, [] => crash "index out of range"
  | depth + 1, .fullNode children _, i :: key => do
    let nn ← delete depth (children i) key
    let children := Function.update children i nn
    match onlyChild children with
    | none => .ok (.fullNode children {})
    | some pos =>
      if pos = 16 then .ok (.shortNode [pos] (children pos) {})
      else do
        let cNode ← resolve db (children pos)
        match cNode with
        | .shortNode cKey cVal _ => .ok (.shortNode (pos :: cKey) cVal {})
        | _ => .ok (.shortNode [pos] (children pos) {})
  | _ + 1, .valueNode _, _ => .ok .nil
  | _ + 1, .nil, _ => .ok .nil
  | depth + 1, .hashNode h, key => do
    let rn ← resolveHash db h
    delete depth rn key

/-- Enough calls for a key: every second one gets at least one nibble further. -/
def depthOf (key : Key) : Nat := 2 * key.length + 2

end Node

def sha256Key (bs : Bytes) : Bytes := (env.sha256 (env.sha256 bs).toArray).toArray

/-- A node as it stands, where it is expected to be a value or absent already. -/
def uncollapsed : Node → Collapsed
  | .nil => .valueNode []
  | .valueNode v => .valueNode v
  | .shortNode key val _ => .shortNode (key.map fun i => UInt8.ofNat i.val) (uncollapsed val)
  | .fullNode children _ => .fullNode fun i => uncollapsed (children i)
  | .hashNode h => .hashNode h

/-- What `hash` returns: the node as its parent refers to it, the node with its hash remembered, and the encodings put
into the batch. -/
structure Hashed where
  hashed : Collapsed
  cached : Node
  puts : List (Bytes × Bytes) := []

/-- `store`: a short encoding stays in the parent unless `force` is set. Nothing is put without a database. -/
def store (commits force : Bool) (n : Collapsed) (known : Option Bytes) : Collapsed × List (Bytes × Bytes) :=
  match n with
  | .hashNode h => (.hashNode h, [])
  | n =>
    let enc := n.serialize
    if enc.length < 32 ∧ force = false then (n, [])
    else
      let hs := known.getD (sha256Key env enc)
      (.hashNode hs, if commits then [(hs, enc)] else [])

def NodeFlag.cached (flags : NodeFlag) : Option Bytes := if flags.dirty then none else flags.hash

namespace Node

/-- `hash` and `hasChildren`. A short node never holds an empty place, at which the source would panic. -/
def hash (commits : Bool) : Node → (force : Bool) → Hashed
  | .nil, _ => { hashed := .valueNode [], cached := .nil }
  | .hashNode h, _ => { hashed := .hashNode h, cached := .hashNode h }
  | .valueNode v, force =>
    let (hashed, puts) := store env commits force (.valueNode v) none
    { hashed, cached := .valueNode v, puts }
  | .shortNode key val flags, force =>
    match flags.cached with
    | some h => { hashed := .hashNode h, cached := .shortNode key val flags }
    | none =>
      let child : Hashed := match val with
        | .valueNode v => { hashed := .valueNode v, cached := .valueNode v }
        | val => hash commits val false
      let (hashed, puts) := store env commits force (.shortNode (hexToCompact key) child.hashed) flags.hash
      { hashed, cached := .shortNode key child.cached ⟨hashed.hash?, false⟩, puts := child.puts ++ puts }
  | .fullNode children flags, force =>
    match flags.cached with
    | some h => { hashed := .hashNode h, cached := .fullNode children flags }
    | none =>
      let child (i : Nibble) : Hashed :=
        if i = 16 then { hashed := uncollapsed (children i), cached := children i } else hash commits (children i) false
      let (hashed, puts) := store env commits force (.fullNode fun i => (child i).hashed) flags.hash
      { hashed
        cached := .fullNode (fun i => (child i).cached) ⟨hashed.hash?, false⟩
        puts := (List.finRange 17).flatMap (fun i => (child i).puts) ++ puts }

end Node

end Nkn.Trie

namespace Nkn

open Go Outcome Trie

/-- `Trie`, with the database it is read from and the batch that `CommitTo` fills. -/
structure Trie where
  root : Trie.Node
  db : Database
  batch : List (Bytes × Bytes) := []

namespace Trie

variable (env : Env)

def new (hash : Uint256) (db : Database) : Outcome Trie :=
  if hash ≠ emptyUint256 then do
    let root ← Node.resolveHash db hash.toArray
    .ok { root, db }
  else .ok { root := .nil, db }

def tryGet (t : Trie) (key : Bytes) : Outcome (Option Bytes × Trie) := do
  let key := keyBytesToHex key
  let (value, newRoot) ← t.root.tryGet t.db (Node.depthOf key) key
  .ok (value, { t with root := newRoot })

def tryUpdate (t : Trie) (key value : Bytes) : Outcome Trie := do
  let k := keyBytesToHex key
  let n ← t.root.insert t.db (Node.depthOf k) k (.valueNode value)
  .ok { t with root := n }

def tryDelete (t : Trie) (key : Bytes) : Outcome Trie := do
  let k := keyBytesToHex key
  let n ← t.root.delete t.db (Node.depthOf k) k
  .ok { t with root := n }

def commitTo (t : Trie) : Outcome (Uint256 × Trie) :=
  if t.root.isNil then .ok (emptyUint256, t)
  else
    let h := t.root.hash env true true
    match h.hashed with
    | .hashNode hash => do
      let u256 ← uint256ParseFromBytes hash
      .ok (u256, { t with root := h.cached, batch := t.batch ++ h.puts })
    | _ => crash "interface conversion"

def hash (t : Trie) : Outcome (Uint256 × Trie) :=
  if t.root.isNil then crash "interface conversion: interface is nil"
  else
    let h := t.root.hash env false true
    match h.hashed with
    | .hashNode hash => .ok (copyToUint256 hash, { t with root := h.cached })
    | _ => crash "interface conversion"

/-- `newNodeIterator`, with the search for the first node: an iterator without a trie, or one over the trie. -/
def newNodeIterator {ε : Type} (seek : Trie → Bytes → ε) (start : Bytes) (t : Trie) :
    Outcome (Option (Trie × ε)) := do
  let (root, t) ← t.hash env
  .ok (if root = emptyUint256 then none else some (t, seek t start))

def written (db : Database) (batch : List (Bytes × Bytes)) : Database :=
  batch.foldl (fun db entry => Function.update db entry.1 (some entry.2)) db

def batchCommit (t : Trie) : Trie := { t with db := written t.db t.batch, batch := [] }

inductive Access where
  | tryUpdate (key value : Bytes)
  | tryDelete (key : Bytes)
  | tryGet (key : Bytes)
deriving DecidableEq

inductive Call where
  | access (access : Access)
  | hash
  | commitTo
  | batchCommit
deriving DecidableEq

inductive Answer where
  | done
  | value (value : Option Bytes)
  | root (hash : Uint256)
deriving DecidableEq

def access (t : Trie) : Access → Outcome (Answer × Trie)
  | .tryUpdate key value => do
    let t ← t.tryUpdate key value
    .ok (.done, t)
  | .tryDelete key => do
    let t ← t.tryDelete key
    .ok (.done, t)
  | .tryGet key => do
    let (value, t) ← t.tryGet key
    .ok (.value value, t)

def call (t : Trie) : Call → Outcome (Answer × Trie)
  | .access access => t.access access
  | .hash => do
    let (hash, t) ← t.hash env
    .ok (.root hash, t)
  | .commitTo => do
    let (hash, t) ← t.commitTo env
    .ok (.root hash, t)
  | .batchCommit => .ok (.done, t.batchCommit)

def run (t : Trie) : List Call → Outcome (List Answer × Trie)
  | [] => .ok ([], t)
  | first :: rest => do
    let (answer, t) ← t.call env first
    let (answers, t) ← t.run rest
    .ok (answer :: answers, t)

end Trie

end Nkn
