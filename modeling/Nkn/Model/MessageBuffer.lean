import Nkn.Lib.GoMap
import Nkn.Lib.Int64
import Nkn.Model.Pb

/-! # Messages for clients that are not online

`api/websocket/messagebuffer`. -/

namespace Nkn

open Go Outcome

abbrev Rbt (V : Type) := List (Int64 × V)

namespace Rbt

variable {V : Type} (tree : Rbt V)

def put (key : Int64) (value : V) : Rbt V :=
  tree.filter (·.1 < key) ++ (key, value) :: tree.filter (key < ·.1)

def remove (key : Int64) : Rbt V := tree.filter (·.1 ≠ key)

def get (key : Int64) : Option V := (tree.find? (·.1 = key)).map Prod.snd

def left : Option (Int64 × V) := tree.head?

end Rbt

def maxSeqId : Int64 := 1000000

structure MsgNode where
  msg : Pb.Relay
  createId : Int64
  expireId : Int64
deriving DecidableEq

def MsgNode.getSize (m : MsgNode) : ℤ :=
  8 + 8 + 4 + 4 + m.msg.srcIdentifier.length + m.msg.srcPubkey.length + m.msg.destId.length + m.msg.payload.length +
    m.msg.blockHash.length + m.msg.lastHash.length

structure IndexNode where
  clientID : Bytes
  createId : Int64
  expireId : Int64

structure MessageBuffer where
  buffer : GoMap Bytes (Rbt MsgNode) := ∅
  treeCreate : Rbt IndexNode := []
  treeExpire : Rbt IndexNode := []
  totalBufSize : ℤ := 0
  lastMilliSecond : Int64 := 0
  seqId : Int64 := 0

namespace MessageBuffer

def nextSeqId (msgBuf : MessageBuffer) (now : Int64) : Int64 :=
  (if msgBuf.lastMilliSecond ≠ now ∨ msgBuf.seqId ≥ maxSeqId then 0 else msgBuf.seqId) + 1

def newNode (msgBuf : MessageBuffer) (now : Int64) (msg : Pb.Relay) : MsgNode where
  msg
  createId := now * maxSeqId + msgBuf.nextSeqId now
  expireId := (now + Int64.ofNat msg.maxHoldingSeconds.toNat * 1000) * maxSeqId + msgBuf.nextSeqId now

def addMessage (now : Int64) (clientID : Bytes) (msg : Pb.Relay) (msgBuf : MessageBuffer) : MessageBuffer :=
  if msg.maxHoldingSeconds = 0 then msgBuf
  else
    let mNode := msgBuf.newNode now msg
    let idxNode : IndexNode := ⟨clientID, mNode.createId, mNode.expireId⟩
    { buffer := msgBuf.buffer.store clientID ((msgBuf.buffer.read [] clientID).put mNode.createId mNode)
      treeCreate := msgBuf.treeCreate.put mNode.createId idxNode
      treeExpire := msgBuf.treeExpire.put mNode.expireId idxNode
      totalBufSize := msgBuf.totalBufSize + mNode.getSize
      lastMilliSecond := now
      seqId := msgBuf.nextSeqId now }

def takeOut (clientID : Bytes) (mNode : MsgNode) (key : Int64) (msgBuf : MessageBuffer) : MessageBuffer :=
  { msgBuf with
    buffer := msgBuf.buffer.store clientID ((msgBuf.buffer.read [] clientID).remove key)
    totalBufSize := msgBuf.totalBufSize - mNode.getSize }

def unindex (createId expireId : Int64) (msgBuf : MessageBuffer) : MessageBuffer :=
  { msgBuf with treeCreate := msgBuf.treeCreate.remove createId, treeExpire := msgBuf.treeExpire.remove expireId }

def popLoop (clientID : Bytes) : (fuel : ℕ) → MessageBuffer → List Pb.Relay × MessageBuffer
  | 0, msgBuf => ([], msgBuf)
  | fuel + 1, msgBuf =>
    match (msgBuf.buffer.read [] clientID).left with
    | none => ([], msgBuf)
    | some (_, mNode) =>
      let rest := popLoop clientID fuel ((msgBuf.takeOut clientID mNode mNode.createId).unindex mNode.createId mNode.expireId)
      (mNode.msg :: rest.1, rest.2)

def popMessages (clientID : Bytes) (msgBuf : MessageBuffer) : List Pb.Relay × MessageBuffer :=
  popLoop clientID (msgBuf.buffer.read [] clientID).length msgBuf

/-- The loop of `removeExpired`, over an index with at most `fuel` entries: the messages that are removed. -/
def expireLoop (nowId : Int64) : (fuel : ℕ) → MessageBuffer → Outcome (List MsgNode × MessageBuffer)
  | 0, msgBuf => .ok ([], msgBuf)
  | fuel + 1, msgBuf =>
    match msgBuf.treeExpire.left with
    | none => .ok ([], msgBuf)
    | some (_, idxNode) =>
      if idxNode.expireId < nowId then
        match msgBuf.buffer.load idxNode.clientID with
        | none => crash "invalid memory address or nil pointer dereference"
        | some treeMsg =>
          match treeMsg.get idxNode.createId with
          | some mNode => do
            let (expired, final) ← expireLoop nowId fuel
              ((msgBuf.takeOut idxNode.clientID mNode idxNode.createId).unindex idxNode.createId idxNode.expireId)
            .ok (mNode :: expired, final)
          | none => expireLoop nowId fuel (msgBuf.unindex idxNode.createId idxNode.expireId)
      else .ok ([], msgBuf)

def removeExpired (now : Int64) (msgBuf : MessageBuffer) : Outcome (List MsgNode × MessageBuffer) :=
  expireLoop ((now + 1) * maxSeqId) msgBuf.treeExpire.length msgBuf

/-- `removeOldest`: a message that is not in the tree of its client fails the type assertion. -/
def removeOldest (msgBuf : MessageBuffer) : Outcome (Option MsgNode × MessageBuffer) :=
  match msgBuf.treeCreate.left with
  | none => .ok (none, msgBuf)
  | some (createId, idxNode) =>
    match msgBuf.buffer.load idxNode.clientID with
    | none => .ok (none, msgBuf)
    | some treeMsg =>
      match treeMsg.get createId with
      | none => crash "interface conversion: interface is nil"
      | some mNode => .ok (some mNode, (msgBuf.takeOut idxNode.clientID mNode createId).unindex createId idxNode.expireId)

abbrev overSize (clientMsgCacheSize : UInt32) (msgBuf : MessageBuffer) : Prop :=
  0 < clientMsgCacheSize ∧ msgBuf.totalBufSize > clientMsgCacheSize.toNat

def shrink (clientMsgCacheSize : UInt32) : (fuel : ℕ) → MessageBuffer → Option (Outcome MessageBuffer)
  | 0, msgBuf => if msgBuf.overSize clientMsgCacheSize then none else some (.ok msgBuf)
  | fuel + 1, msgBuf =>
    if msgBuf.overSize clientMsgCacheSize then
      match msgBuf.removeOldest with
      | .ok (_, msgBuf) => shrink clientMsgCacheSize fuel msgBuf
      | .error fault => some (.error fault)
    else some (.ok msgBuf)

end MessageBuffer

end Nkn
