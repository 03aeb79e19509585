import Nkn.Soundness.Concrete
import Nkn.Model.Relay

/-! # Sigchains of honest relays

What the relays have kept gives, on the way back, a sigchain with the hash that the destination has seen, and one element
more than the message counts. -/

namespace Nkn

open Go Outcome Pb.SigChain

variable {env : Env} {config : Config} {relayMessage final : Pb.Relay} {relays : List Relayer} {destPubkey : Bytes}
  {sc : Pb.SigChain}

def destSigChainElem (signature : Bytes) : Pb.SigChainElem := ⟨[], [], false, signature, [], .signature, []⟩

/-- A relay that signs the hash of its element with its key, and proves its VRF of the block. -/
structure Relayer.Honest (env : Env) (blockHash hash : Bytes) (ps : Relayer) : Prop where
  key : ps.pubKey.length = 32
  signs : ∃ signature, ps.sign hash = .ok signature ∧ env.verify ps.pubKey hash signature = true
  proves : ∃ vrf proof, ps.getOrComputeVrf blockHash = .ok (vrf, proof) ∧ 0 < vrf.length ∧
    env.verifyVrf ps.pubKey blockHash vrf proof = true

def nextKey (destPubkey : Bytes) : List Relayer → Bytes
  | [] => destPubkey
  | ps :: _ => ps.pubKey

/-- A message goes through relays, which are listed as it leaves them; the last one may leave the key of the client out. -/
inductive Relayed (env : Env) (config : Config) (destPubkey : Bytes) : Pb.Relay → List Relayer → Pb.Relay → Prop
  | arrived {relayMessage : Pb.Relay} : Relayed env config destPubkey relayMessage [] relayMessage
  | hop {relayMessage next final : Pb.Relay} {ps ps' : Relayer} {rest : List Relayer} {nextPubkey prevNodeID : Bytes}
      {mining : Bool} (honest : ps.Honest env relayMessage.blockHash next.lastHash)
      (update : ps.updateRelayMessage env config relayMessage nextPubkey prevNodeID mining = .ok (ps', next))
      (fresh : ps.sigChainElemCache.load next.lastHash = none)
      (key : nextPubkey = nextKey destPubkey rest ∨ rest = [] ∧ nextPubkey = [])
      (relayed : Relayed env config destPubkey next rest final) : Relayed env config destPubkey relayMessage (ps' :: rest) final

theorem backtrackSigChain_of_update {ps ps' : Relayer} {next : Pb.Relay} {nextPubkey prevNodeID : Bytes} {mining : Bool}
    (honest : ps.Honest env relayMessage.blockHash next.lastHash)
    (update : ps.updateRelayMessage env config relayMessage nextPubkey prevNodeID mining = .ok (ps', next))
    (fresh : ps.sigChainElemCache.load next.lastHash = none) :
    next.blockHash = relayMessage.blockHash ∧ next.sigChainLen = relayMessage.sigChainLen + 1 ∧ ps'.pubKey = ps.pubKey ∧
    ∃ e : Pb.SigChainElem, e.nextPubkey = nextPubkey ∧ e.hash env relayMessage.lastHash = next.lastHash ∧ 0 < e.vrf.length ∧
      env.verifyVrf ps.pubKey relayMessage.blockHash e.vrf e.proof = true ∧
      (e.sigAlgo = .signature ∧ env.verify ps.pubKey next.lastHash e.signature = true ∨
        e.sigAlgo = .hash ∧ e.signature = next.lastHash) ∧
      ∀ elems sender, (∀ key ∈ sender, key = nextPubkey) →
        (ps'.finalize relayMessage.blockHash).backtrackSigChain elems next.lastHash sender =
          .ok (e :: elems, relayMessage.lastHash, prevNodeID) := by
  obtain ⟨-, signs, vrf, proof, computed, long, proved⟩ := honest
  rw [Relayer.updateRelayMessage, computed, ok_bind] at update
  obtain ⟨blockHash, _, update⟩ := bind_eq_ok.mp update
  obtain ⟨rfl, rfl⟩ := Prod.mk.inj (Except.ok.inj update)
  refine ⟨rfl, rfl, rfl, ?_⟩
  dsimp only at fresh signs ⊢
  have algo : ps.sigAlgo config blockHash = .signature ∨ ps.sigAlgo config blockHash = .hash := by
    unfold Relayer.sigAlgo
    split
    · split_ifs
      · exact .inr rfl
      · exact .inl rfl
    · exact .inr rfl
  generalize ps.sigAlgo config blockHash = algorithm at fresh signs algo ⊢
  rw [fresh, Option.getD_none]
  rcases algo with rfl | rfl
  · obtain ⟨signature, signed, verified⟩ := signs
    refine ⟨⟨ps.id, nextPubkey, mining, signature, vrf, .signature, proof⟩, rfl, rfl, long, proved, .inl ⟨rfl, verified⟩,
      fun elems sender same => ?_⟩
    have right : ¬∃ key, sender = some key ∧ ¬key = nextPubkey := fun ⟨key, sent, other⟩ => other (same key sent)
    simp [Relayer.backtrackSigChain, Relayer.finalize, orFail, rejectIf, Outcome.labelled, Except.mapError, computed,
      signed, right]
  · refine ⟨⟨ps.id, nextPubkey, mining, _, vrf, .hash, proof⟩, rfl, rfl, long, proved, .inr ⟨rfl, rfl⟩,
      fun elems sender same => ?_⟩
    have right : ¬∃ key, sender = some key ∧ ¬key = nextPubkey := fun ⟨key, sent, other⟩ => other (same key sent)
    simp [Relayer.backtrackSigChain, Relayer.finalize, orFail, rejectIf, Outcome.labelled, Except.mapError, computed,
      right]
    rfl

theorem verifySigAlgo_eq_ok {key hash : Bytes} {e : Pb.SigChainElem} : verifySigAlgo env key hash e = .ok () ↔
    e.sigAlgo = .signature ∧ env.verify key hash e.signature = true ∨ e.sigAlgo = .hash ∧ e.signature = hash := by
  unfold verifySigAlgo
  cases e.sigAlgo <;> simp

theorem verifyElems_cons {sc : Pb.SigChain} {e : Pb.SigChainElem} {rest : List Pb.SigChainElem} {key prevHash : Bytes}
    (valid : key.length = 32)
    (signed : verifySigAlgo env key
      (e.hash env (if sc.isComplete = true ∧ rest = [] then (env.sha256 prevHash).toArray else prevHash)) e = .ok ())
    (proved : 0 < e.vrf.length → env.verifyVrf key sc.blockHash e.vrf e.proof = true)
    (verified : verifyElems env sc rest
      (if sc.isComplete = true ∧ rest.length = 1 ∧ e.nextPubkey.length = 0 then sc.destPubkey else e.nextPubkey)
      (if e.vrf.length > 0 then
        e.hash env (if sc.isComplete = true ∧ rest = [] then (env.sha256 prevHash).toArray else prevHash)
        else e.signature) = .ok ()) : verifyElems env sc (e :: rest) key prevHash = .ok () := by
  simp only [verifyElems, rejectIf_bind_eq_ok, not_not]
  refine ⟨valid, ?_⟩
  rw [signed, ok_bind, rejectIf_bind_eq_ok]
  exact ⟨fun bad => by simp [proved bad.1] at bad, verified⟩

theorem Relayed.collect (relayed : Relayed env config destPubkey relayMessage relays final) (dest : Pb.SigChainElem) :
    final.sigChainLen = relayMessage.sigChainLen + UInt32.ofNat relays.length ∧ ∃ elems : List Pb.SigChainElem,
    Relayer.collect relayMessage.blockHash [dest] final.lastHash relays =
      .ok (elems ++ [dest], relayMessage.lastHash, relays.head?.map (·.pubKey)) ∧
    elems.length = relays.length ∧ elems.foldl (relayHash env) relayMessage.lastHash = final.lastHash ∧
    (∀ last ∈ elems.getLast?, last.nextPubkey = [] ∨ last.nextPubkey = destPubkey) ∧
    ∀ sc : Pb.SigChain, sc.isComplete = true → sc.blockHash = relayMessage.blockHash → sc.destPubkey = destPubkey →
      verifyElems env sc [dest] destPubkey final.lastHash = .ok () →
      verifyElems env sc (elems ++ [dest]) (nextKey destPubkey relays) relayMessage.lastHash = .ok () := by
  induction relayed with
  | arrived => exact ⟨(UInt32.add_zero _).symm, [], rfl, rfl, rfl, by simp, fun _ _ _ _ verified => verified⟩
  | @hop relayMessage next final ps ps' rest nextPubkey prevNodeID mining honest update fresh key _ ih =>
    obtain ⟨block, len, pubKey, e, named, hashed, long, proved, _, back⟩ :=
      backtrackSigChain_of_update honest update fresh
    obtain ⟨lens, elems, collected, length, folded, lastKey, verified⟩ := ih
    refine ⟨?_, e :: elems, ?_, by simp [length], ?_, ?_, ?_⟩
    · rw [lens, len, List.length_cons, UInt32.ofNat_add, UInt32.add_assoc, UInt32.add_comm 1]
      rfl
    · have same : ∀ sender ∈ rest.head?.map (·.pubKey), sender = nextPubkey := by
        cases rest with
        | nil => simp
        | cons _ _ =>
          rcases key with rfl | ⟨none, _⟩
          · simp [nextKey]
          · cases none
      rw [block] at collected
      rw [Relayer.collect, collected, ok_bind]
      dsimp only
      rw [back _ _ same]
      rfl
    · rw [List.foldl_cons, relayHash, if_pos long, hashed, folded]
    · cases elems with
      | nil =>
        obtain rfl : rest = [] := List.length_eq_zero_iff.mp length.symm
        simpa [named, nextKey, or_comm] using key
      | cons _ _ => simpa using lastKey
    · intro sc complete blocks dests last
      have following : (if sc.isComplete = true ∧ (elems ++ [dest]).length = 1 ∧ e.nextPubkey.length = 0 then sc.destPubkey
          else e.nextPubkey) = nextKey destPubkey rest := by
        rw [named, dests, complete]
        cases rest with
        | nil =>
          obtain rfl := List.length_eq_zero_iff.mp length
          rcases key with rfl | ⟨_, rfl⟩ <;> simp [nextKey]
        | cons _ _ =>
          rcases key with rfl | ⟨none, _⟩
          · simp [length]
          · cases none
      have before : (if sc.isComplete = true ∧ elems ++ [dest] = [] then (env.sha256 relayMessage.lastHash).toArray
          else relayMessage.lastHash) = relayMessage.lastHash := if_neg (by simp)
      rw [show nextKey destPubkey (ps' :: rest) = ps.pubKey from pubKey, List.cons_append]
      refine verifyElems_cons honest.key ?_ (fun _ => blocks ▸ proved) ?_
      · rwa [before, hashed, verifySigAlgo_eq_ok]
      · rw [before, hashed, following, if_pos long]
        exact verified sc complete (blocks.trans block.symm) dests last

theorem isComplete_of_last {src last dest : Pb.SigChainElem} {before : List Pb.SigChainElem}
    (shape : sc.elems = src :: (before ++ [last, dest])) (client : dest.id = [])
    (key : last.nextPubkey = [] ∨ last.nextPubkey = sc.destPubkey) : sc.isComplete = true := by
  have reversed : sc.elems.reverse = dest :: last :: (before.reverse ++ [src]) := by simp [shape]
  rw [isComplete, reversed]
  generalize before.reverse = others
  cases others <;> simpa [client] using key

variable {first : Relayer} {rest : List Relayer} {nonce dataSize : UInt32} {srcID srcPubkey destID signature : Bytes}
  {sigAlgo : Pb.SigAlgo} {receipt : Bytes}

/-- The sigchain of honest relays is valid and has the hash that the destination has seen; its signature hash is the one that
the destination has computed if no element counts or both lengths count as the longest one. -/
theorem honest_relays_verify {blockHash destPubkey : Bytes}
    (relayed : Relayed env config destPubkey relayMessage (first :: rest) final)
    (sends : relayMessage.blockHash = blockHash ∧ relayMessage.lastHash = signature ∧ relayMessage.sigChainLen = 1)
    (keys : srcPubkey.length = 32 ∧ destPubkey.length = 32)
    (created : first.createSigChainForClient nonce dataSize blockHash srcID srcPubkey destID destPubkey signature sigAlgo = sc)
    (source : ∀ e ∈ sc.elems, verifySigAlgo env srcPubkey (e.hash env (env.sha256 sc.serializationMetadata).toArray) e = .ok ())
    (signed : env.verify destPubkey ((destSigChainElem receipt).hash env (env.sha256 final.lastHash).toArray) receipt = true) :
    ∃ elems, Relayer.collect blockHash [destSigChainElem receipt] final.lastHash (first :: rest) = .ok (elems, signature, some first.pubKey) ∧
      verifySigChainSignatures env { sc with elems := sc.elems ++ elems } = .ok () ∧
      Pb.SigChain.lastRelayHash env { sc with elems := sc.elems ++ elems } = .ok final.lastHash ∧
      ∀ height, rest.length + 2 < 2 ^ 32 → ((config.sigChainBitShiftPerElement.getValueAtHeight height).toInt = 0 ∨
          0 < (config.sigChainBitShiftMaxLength.getValueAtHeight height).toInt ∧
            (config.sigChainBitShiftMaxLength.getValueAtHeight height).toInt ≤ rest.length + 2) →
        Pb.SigChain.signatureHash env config { sc with elems := sc.elems ++ elems } height 0 =
          .ok (computeSignatureHash env config final.lastHash final.sigChainLen.toNat height 0) := by
  obtain ⟨rfl, rfl, one⟩ := sends
  subst created
  let dest := destSigChainElem receipt
  obtain ⟨len, elems, collected, length, folded, lastKey, verified⟩ := relayed.collect dest
  let src : Pb.SigChainElem := ⟨[], first.pubKey, false, relayMessage.lastHash, [], sigAlgo, []⟩
  let chain : Pb.SigChain := ⟨nonce, dataSize, relayMessage.blockHash, srcID, srcPubkey, destID, destPubkey,
    src :: (elems ++ [dest])⟩
  have shape : chain.elems = src :: (elems ++ [dest]) := rfl
  have some : elems ≠ [] := by
    rintro rfl
    simp at length
  have complete : chain.isComplete = true := by
    obtain ⟨before, last, rfl⟩ := (List.eq_nil_or_concat elems).resolve_left some
    have ends : chain.elems = src :: (before ++ [last, dest]) := by simp [shape]
    exact isComplete_of_last ends rfl (lastKey last (by simp))
  have last : verifyElems env chain [dest] destPubkey final.lastHash = .ok () := by
    refine verifyElems_cons keys.2 ?_ (fun none => absurd none (lt_irrefl 0)) rfl
    rw [if_pos ⟨complete, rfl⟩, verifySigAlgo_eq_ok]
    exact .inl ⟨rfl, signed⟩
  have relayHashes : chain.lastRelayHash env = .ok final.lastHash := by
    have path := congrArg List.dropLast shape
    rw [← List.cons_append, List.dropLast_concat] at path
    rw [lastRelayHash, complete, path]
    exact congrArg Except.ok folded
  refine ⟨elems ++ [dest], collected, ?_, relayHashes, fun height short counts => ?_⟩
  · have follows : ¬(elems ++ [dest]).length = 1 := by simpa using some
    refine verifyElems_cons keys.1 ?_ (fun none => absurd none (lt_irrefl 0)) ?_
    · rw [if_neg (by simp)]
      exact source _ (List.mem_singleton_self _)
    · rw [if_neg fun all => follows all.2.1]
      exact verified chain complete rfl rfl last
  · have long : chain.elems.length = rest.length + 3 := by simp [shape, length]
    have count : final.sigChainLen.toNat = rest.length + 2 := by
      rw [len, one, List.length_cons, UInt32.toNat_add, UInt32.toNat_ofNat_of_lt' (by simp only [UInt32.size]; omega)]
      simp
      omega
    change chain.signatureHash env config height 0 = _
    rw [signatureHash, relayHashes, ok_bind, long, count, computeSignatureHash, computeSignatureHash]
    rcases counts with zero | ⟨positive, reached⟩
    · rw [zero, Int.zero_mul, Int.zero_mul]
    · rw [if_pos ⟨positive, by omega⟩]
      split_ifs with more
      · rfl
      · rw [show (config.sigChainBitShiftMaxLength.getValueAtHeight height).toInt = (rest.length + 2 : ℕ) by omega]

end Nkn

/-! One relay, which knows the block at height 4999992, between two clients. -/

namespace Nkn.OneRelay

open Go Outcome Sample Pb.SigChain

def blockHash : Bytes := earlierHash.toArray

def srcID : Bytes := (Word.ofNat 32 0xc5b940ed3f65c391965de8295fc5d25f474fa57b48d36eb10ad363b8539c1b79).toArray

def srcPubkey : Bytes := (Word.ofNat 32 0xca93ac1705187071d67b83c7ff0efe8108e8ec4530575d7726879333dbdabe7c).toArray

def destID : Bytes := (Word.ofNat 32 0x7599776c3085e3f9da0d13071eb0b4ab50fd2bf64c06dd92c2365af3a328eca3).toArray

def destPubkey : Bytes := (Word.ofNat 32 0x6e7a1cdd29b0b78fd13af4c5598feff4ef2a97166e3ca6f2e4fbfccd80505bf1).toArray

def relayID : Bytes := (Word.ofNat 32 0x34750f98bd59fcfc946da45aaabe933be154a4b5094e1c4abf42866505f3c97e).toArray

def srcSignature : Bytes :=
  (Word.ofNat 64 0xb3a4e8c1f55416d832ac954b84bb10a8cd40e5da302ae2be2a3d33528d5b45a60a723a5582cc9a5eaaa34fdd4ede43d67bad671fed09dd2bc7c8469d1b9dbe09).toArray

def relaySignature : Bytes :=
  (Word.ofNat 64 0x77bc6f1ff6bf873761bb69bab3bf4a265049d2277e5fe1e46fac0f8f1bef16d78427861d8c9eda217246e31299d7f4d854f8a76acbc5c2711642a8a03d633c07).toArray

def receipt : Bytes :=
  (Word.ofNat 64 0xb8bf002a53b877167c27e01ffc65980dc81a03e95867055fb65add8b706fe37dbcd2d62f02e2256375547e3981b4a683d8a43f6576415a0b8daf1025ecdee204).toArray

def vrf : Bytes := (Word.ofNat 32 0x7ef97cf3aa215a49acba437790f8a1ad36f2912a24315bcbb447f6225759caec).toArray

def proof : Bytes :=
  (Word.ofNat 96 0x939777e5ce14e8bb3616e6a937529b47ba52b5da50d17a39bcb8149c3a6a7e0146123373ad01bd9d2828e91ae80c462146bb6557eacc368777ae6644ce2dc4096fc969ca050c3aa847351c92101657cb53162649d6b7624735109887012eec92).toArray

def message : Pb.Relay := ⟨[], srcPubkey, destID, [], 0, blockHash, srcSignature, 1⟩

def delivered : Pb.Relay :=
  { message with
    lastHash := (Word.ofNat 32 0x05134059b43ccdfb3cfd0173330dc9bd91c6063c4afc05db38dc86ed74424234).toArray
    sigChainLen := 2 }

def relay : Relayer where
  id := relayID
  pubKey := proposerKey
  sign hash := if hash = delivered.lastHash then .ok relaySignature else fail "no signature"
  getOrComputeVrf data := if data = blockHash then .ok (vrf, proof) else fail "no vrf"
  cs := chainStore emptyUint256 (Store.StateTrie.ofBalances [] 0)
  sigChainElemCache := ∅
  finalizedBlockCache := ∅

def passed : Relayer :=
  { relay with
    sigChainElemCache := GoMap.store ∅ delivered.lastHash ⟨[], [], srcSignature, blockHash, true, false, .signature⟩ }

def source : Pb.SigChain :=
  passed.createSigChainForClient 1 1 blockHash srcID srcPubkey destID destPubkey srcSignature .signature

def elems : List Pb.SigChainElem :=
  [⟨relayID, [], true, relaySignature, vrf, .signature, proof⟩, destSigChainElem receipt]

def metadataHash : Uint256 := Word.ofNat 32 0x91760cab994a648b788428b5f45b3e5cda63722f02dca094a16186f2894f25e3

def srcHash : Uint256 := Word.ofNat 32 0x08afeee1cfb324c812fbb55e93cf3f909638de8091fd73cff53d3349baded28b

def digest : Uint256 := Word.ofNat 32 0xd9c044bf425f14ad8b3afc4d33374b500b01ff05676a6e73d54b134ffa0daade

def destHash : Uint256 := Word.ofNat 32 0x2da099cecc79aee72eded1f505f690cba4108b4e76b3422ff8b0d943702d5265

def tables : Tables where
  sha256 :=
    [(source.serializationMetadata, metadataHash),
      (metadataHash.toArray ++ source.elems.flatMap Pb.SigChainElem.serializationUnsigned, srcHash),
      (srcSignature ++ (Pb.SigChainElem.serializationUnsigned ⟨relayID, [], true, [], vrf, .signature, []⟩),
        Word.ofNat 32 0x05134059b43ccdfb3cfd0173330dc9bd91c6063c4afc05db38dc86ed74424234),
      (delivered.lastHash, digest), (digest.toArray ++ (destSigChainElem []).serializationUnsigned, destHash)]
  signatures :=
    [(srcPubkey, srcHash.toArray, srcSignature), (proposerKey, delivered.lastHash, relaySignature),
      (destPubkey, destHash.toArray, receipt)]
  vrfs := [(proposerKey, blockHash, vrf, proof)]

theorem verified :
    uint256ParseFromBytes blockHash = .ok earlierHash ∧ relay.sigAlgo .mainnet earlierHash = .signature ∧
    Pb.SigChainElem.hash tables.env ⟨relayID, [], true, [], vrf, .signature, []⟩ srcSignature = delivered.lastHash ∧
    tables.env.verify proposerKey delivered.lastHash relaySignature = true ∧
    tables.env.verifyVrf proposerKey blockHash vrf proof = true ∧
    (∀ e ∈ source.elems,
      verifySigAlgo tables.env srcPubkey (e.hash tables.env (tables.env.sha256 source.serializationMetadata).toArray) e = .ok ()) ∧
    tables.env.verify destPubkey
      ((destSigChainElem receipt).hash tables.env (tables.env.sha256 delivered.lastHash).toArray) receipt = true := by
  decide +kernel

theorem relayed : Relayed tables.env .mainnet destPubkey message [passed] delivered := by
  obtain ⟨parsed, algo, hashed, signed, proved, -⟩ := verified
  have computed : relay.getOrComputeVrf message.blockHash = .ok (vrf, proof) := by simp [relay, message]
  have signs : relay.sign delivered.lastHash = .ok relaySignature := by simp [relay]
  have update : relay.updateRelayMessage tables.env .mainnet message [] [] true = .ok (passed, delivered) := by
    rw [Relayer.updateRelayMessage, computed, ok_bind, show message.blockHash = blockHash from rfl, parsed]
    simp only [ok_bind, algo]
    rw [show Pb.SigChainElem.hash tables.env ⟨relay.id, [], true, [], vrf, .signature, []⟩ message.lastHash = _ from hashed]
    rfl
  exact .hop ⟨rfl, ⟨relaySignature, signs, signed⟩, vrf, proof, computed, by decide, proved⟩ update rfl
    (.inr ⟨rfl, rfl⟩) .arrived

theorem honest_relays_verify_oneRelay : ∃ elems,
    Relayer.collect blockHash [destSigChainElem receipt] delivered.lastHash [passed] =
        .ok (elems, srcSignature, some proposerKey) ∧
      verifySigChainSignatures tables.env { source with elems := source.elems ++ elems } = .ok () := by
  obtain ⟨-, -, -, -, -, signs, receives⟩ := verified
  obtain ⟨elems, collected, verified, _⟩ :=
    honest_relays_verify relayed ⟨rfl, rfl, rfl⟩ ⟨rfl, rfl⟩ (rfl : _ = source) signs receives
  exact ⟨elems, collected, verified⟩

/-- The sigchain is valid and has the hash of the message, but its signature hash is shifted by one element more. -/
theorem destination_counts_less : Relayed tables.env .mainnet destPubkey message [passed] delivered ∧
      Relayer.collect blockHash [destSigChainElem receipt] delivered.lastHash [passed] =
        .ok (elems, srcSignature, some proposerKey) ∧
      verifySigChainSignatures tables.env { source with elems := source.elems ++ elems } = .ok () ∧
      Pb.SigChain.lastRelayHash tables.env { source with elems := source.elems ++ elems } = .ok delivered.lastHash ∧
      Pb.SigChain.signatureHash tables.env .mainnet { source with elems := source.elems ++ elems } 4999999 0 ≠
        .ok (computeSignatureHash tables.env .mainnet delivered.lastHash delivered.sigChainLen.toNat 4999999 0) := by
  refine ⟨relayed, ?_⟩
  decide +kernel

end Nkn.OneRelay
