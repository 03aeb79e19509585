import Nkn.Lib.Heap
import Nkn.Lib.Proc
import Nkn.Model.Trie

/-! # The download of a state trie

`Sync` of `chain/trie`: the hashes of nodes that are still to be downloaded, and the nodes that have arrived since the
last commit. -/

namespace Nkn.Trie

open Go Outcome

def decodeNode (buf : Bytes) : Outcome Node := do
  rejectIf (buf = []) "unexpected EOF"
  let (n, _) ← deserialize buf.length buf
  .ok n

structure Item where
  value : Uint256
  priority : Int64
deriving DecidableEq

/-- `PriorityQueue`: a heap of items; `lookup` holds the values of the items. -/
abbrev PriorityQueue := List Item

namespace PriorityQueue

def less (a b : Item) : Bool := decide (a.priority > b.priority)

def push (p : PriorityQueue) (value : Uint256) (priority : Int64) : PriorityQueue :=
  if ∃ item ∈ p, item.value = value then p else Heap.push less p ⟨value, priority⟩

def pop (p : PriorityQueue) : Option (Item × PriorityQueue) :=
  let cells := Heap.popped less p
  cells.getLast?.map fun item => (item, cells.dropLast)

end PriorityQueue

structure Request where
  path : Bytes
  data : Option Bytes
  hash : Uint256

structure Sync where
  membatch : GoMap Uint256 Bytes
  nodeReqs : GoMap Uint256 Request
  queue : PriorityQueue
  dataAvailable : Bool

namespace Sync

/-- The priority of a path: its length, then its first nibbles in the order of keys. -/
def priority (path : Bytes) : Int64 :=
  (path.take 14).zipIdx.foldl (fun prio (nibble, i) => prio ||| (15 - nibble).toUInt64.toInt64 <<< Int64.ofNat (52 - i * 4))
    (Int64.ofNat path.length <<< 56)

def schedule (req : Request) (s : Sync) : Sync :=
  { s with
    nodeReqs := s.nodeReqs.store req.hash req
    queue := s.queue.push req.hash (priority req.path)
    dataAvailable := true }

def addSubTrie (root : Uint256) (path : Bytes) (s : Sync) : Sync := schedule ⟨path, none, root⟩ s

def new (root : Uint256) : Sync := addSubTrie root [] ⟨∅, ∅, [], false⟩

def pending (s : Sync) : Nat := s.nodeReqs.entries.length

def popLoop (max : Nat) : Nat → PriorityQueue → List Item → List Item × PriorityQueue
  | 0, queue, popped => (popped, queue)
  | fuel + 1, queue, popped =>
    if max = 0 ∨ popped.length < max then
      match queue.pop with
      | some (item, queue) => popLoop max fuel queue (popped ++ [item])
      | none => (popped, queue)
    else (popped, queue)

def pop (max : Nat) (s : Sync) : List Item × Sync :=
  let (popped, queue) := popLoop max s.queue.length s.queue []
  (popped, { s with queue })

def push (hashes : List Uint256) (prio : Int64) (s : Sync) : Sync :=
  { s with
    queue := hashes.foldl (fun queue h => PriorityQueue.push queue h prio) s.queue
    dataAvailable := true }

def commit (s : Sync) (db : Database) : Sync × Database :=
  ({ s with membatch := ∅ }, written db (s.membatch.entries.map fun entry => (entry.1.toArray, entry.2)))

def childNodes : Node → Outcome (List Node)
  | .shortNode key val _ => if key = [] then crash "slice bounds out of range [:-1]" else .ok [val]
  | .fullNode children _ => .ok (((List.finRange 17).map children).filter fun n => n.isNil = false)
  | _ => crash "unknown node"

/-- A request for a child that is referenced by its hash and not in the batch; it has the path of its parent. -/
def addRequest (s : Sync) (req : Request) (requests : List Request) : Node → Outcome (List Request)
  | .hashNode node => do
    let hash ← uint256ParseFromBytes node
    .ok (if (s.membatch.load hash).isSome then requests else requests ++ [⟨req.path, none, hash⟩])
  | _ => .ok requests

def children (s : Sync) (req : Request) (object : Node) : Outcome (List Request) := do
  let nodes ← childNodes object
  nodes.foldlM (addRequest s req) []

def finish (req : Request) (data : Bytes) (s : Sync) : Sync :=
  { s with membatch := s.membatch.store req.hash data, nodeReqs := s.nodeReqs.delete req.hash }

def process (hash : Uint256) (data : Bytes) : Proc Sync Unit := do
  let found ← Proc.gets fun s => s.nodeReqs.load hash
  match found with
  | none => pure ()
  | some req =>
    if req.data.isSome then pure ()
    else do
      let node ← Proc.lift (decodeNode data)
      Proc.modify fun s => { s with nodeReqs := s.nodeReqs.store hash { req with data := some data } }
      let requests ← fun s => (s.children req node, s)
      Proc.modify fun s => requests.foldl (fun s child => schedule child s) s
      Proc.modify (finish req data)

inductive Call where
  | pop (max : Nat)
  | push (hashes : List Uint256) (prio : Int64)
  | commit
  | process (blob : Bytes)

variable (env : Env)

structure State where
  sync : Sync
  db : Database

def blobHash (blob : Bytes) : Uint256 := env.sha256 (env.sha256 blob).toArray

def call (state : State) : Call → State
  | .pop max => { state with sync := (state.sync.pop max).2 }
  | .push hashes prio => { state with sync := state.sync.push hashes prio }
  | .commit =>
    let (sync, db) := state.sync.commit state.db
    ⟨sync, db⟩
  | .process blob => { state with sync := (process (blobHash env blob) blob state.sync).2 }

def run (root : Uint256) (db : Database) (calls : List Call) : State := calls.foldl (call env) ⟨new root, db⟩

end Sync

end Nkn.Trie
