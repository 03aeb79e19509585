import Nkn.Proofs.Execute

/-! # Payment channels

A channel is a pair of accounts and an id. -/

namespace Nkn.Store

open Go Outcome StateDB

structure Channel where
  sender : Uint160
  recipient : Uint160
  id : UInt64
deriving DecidableEq

namespace Channel

def of (nanoPay : Pb.NanoPay) : Channel :=
  ⟨bytesToUint160 nanoPay.sender, bytesToUint160 nanoPay.recipient, nanoPay.id⟩

def key (channel : Channel) : Bytes := getNanoPayId channel.sender channel.recipient channel.id

theorem key_injective : Function.Injective key := by
  rintro ⟨_, _, id⟩ ⟨_, _, id'⟩ same
  have lengths {x y : Uint160} : x.toArray.length = y.toArray.length := by simp
  simp only [key, getNanoPayId, List.append_assoc] at same
  obtain ⟨senders, same⟩ := List.append_inj same lengths
  obtain ⟨recipients, ids⟩ := List.append_inj same lengths
  have small (id : UInt64) : id.toNat ∈ {value | value < 256 ^ 8} := id.toNat_lt
  have ids := (selfDelimiting_littleEndian 8).injOn (small id) (small id') ids
  rw [Word.toArray_inj] at senders recipients
  rw [UInt64.toNat_inj] at ids
  rw [senders, recipients, ids]

end Channel

def channelBalance (states : StateDB) (channel : Channel) : Int64 :=
  ((states.nanoPay.read channel.key).getD .empty).balance

variable {env : Env} {config : Config} {cs : ChainStore} {states states' : StateDB} {txn : Transaction}
  {message : Pb.Message} {sender : Uint160} {totalFee : Int64} {genesis : Bool} {height : UInt32}

theorem claimAmount_eq (states : StateDB) (nanoPay : Pb.NanoPay) :
    claimAmount states nanoPay = nanoPay.amount - channelBalance states (.of nanoPay) := rfl

theorem channelBalance_of_nanoPay (same : states'.nanoPay = states.nanoPay) (channel : Channel) :
    channelBalance states' channel = channelBalance states channel := by
  simp only [channelBalance, same]

theorem channelBalance_getNanoPay (channel channel' : Channel) :
    channelBalance (states.getNanoPay channel.sender channel.recipient channel.id).2 channel' =
      channelBalance states channel' := by
  change ((states.nanoPay.put channel.key _).read channel'.key |>.getD .empty).balance = _
  rw [Table.read_put, channelBalance]
  split_ifs with same
  · rw [same]
    rfl
  · rfl

theorem channelBalance_setNanoPay (channel channel' : Channel) (balance : Int64) (expiresAt : UInt32) :
    channelBalance (states.setNanoPay channel.sender channel.recipient channel.id balance expiresAt) channel' =
      if channel' = channel then balance else channelBalance states channel' := by
  obtain ⟨_, set⟩ := @setNanoPay_frame states channel.sender channel.recipient channel.id balance expiresAt
  have key : getNanoPayId channel.sender channel.recipient channel.id = channel.key := rfl
  simp only [channelBalance, set, key, Table.read_put, Channel.key_injective.eq_iff]
  split_ifs <;> rfl

theorem nanoPay_spendPayload (other : message.type ≠ .nanoPay)
    (run : spendPayload env config cs states txn sender totalFee genesis height message = .ok states') :
    states'.nanoPay = states.nanoPay := by
  by_cases kind : message.type = .coinbase
  · cases message with
    | coinbase _ => rw [records_spendCoinbase run]
    | _ => simp [Pb.Message.type] at kind
  · rw [records_spendPayload kind run, ((others_applyRecords rfl).1 other).1]

def paidOn (channel : Channel) : Pb.Message → Option Pb.NanoPay
  | .nanoPay nanoPay => if Channel.of nanoPay = channel then some nanoPay else none
  | _ => none

theorem channelBalance_spendTransaction (unpacked : unpack env txn.unsignedTx.payload = .ok message)
    (run : spendTransaction env config cs totalFee genesis height states txn = .ok states') (channel : Channel) :
    channelBalance states' channel = (paidOn channel message).elim (channelBalance states channel) (·.amount) := by
  obtain ⟨message', unpacked', _, payload⟩ := spendTransaction_eq_ok.mp run
  obtain rfl := ok_unique unpacked' unpacked
  by_cases kind : message'.type = .nanoPay
  · cases message' with
    | nanoPay nanoPay =>
      obtain ⟨_, rfl⟩ := spendNanoPay_eq_ok.mp payload
      let opened := (afterFee config height states txn (bytesToUint160 nanoPay.sender) (.nanoPay nanoPay)).getNanoPay
        (Channel.of nanoPay).sender (Channel.of nanoPay).recipient (Channel.of nanoPay).id
      have others : channelBalance opened.2 channel = channelBalance states channel :=
        (channelBalance_getNanoPay _ _).trans (channelBalance_of_nanoPay nanoPay_afterFee channel)
      refine (channelBalance_setNanoPay (.of nanoPay) channel _ _).trans ?_
      simp only [paidOn, eq_comm (a := channel)]
      split_ifs
      · rfl
      · exact others
    | _ => exact absurd kind (by simp [Pb.Message.type])
  · rw [channelBalance_of_nanoPay ((nanoPay_spendPayload kind payload).trans nanoPay_afterFee)]
    cases message' <;> first | rfl | exact absurd rfl kind

end Nkn.Store
