import Nkn.Model.StateDB

/-! # What the operations of the state database change

Every operation of `StateDB` is described by its effect on what can be read: balances, nonces and records. -/

namespace Nkn.Store.StateDB

open Go Outcome Table Account

variable {sdb sdb' : StateDB} {addr addr' : Uint160} {assetID assetID' : Uint256} {value : Int64}

def adjust (sdb : StateDB) (addr : Uint160) (assetID : Uint256) (value : Int64) : StateDB :=
  let acc := sdb.getOrNewAccount addr
  sdb.setAccount addr (acc.setBalance assetID (acc.getBalance assetID + value))

theorem getBalance_getOrNewAccount (sdb : StateDB) (addr : Uint160) (assetID : Uint256) :
    (sdb.getOrNewAccount addr).getBalance assetID = sdb.getBalance assetID addr := by
  unfold getOrNewAccount getBalance
  cases sdb.getAccount addr <;> rfl

theorem nonce_getOrNewAccount (sdb : StateDB) (addr : Uint160) : (sdb.getOrNewAccount addr).nonce = sdb.getNonce addr := by
  unfold getOrNewAccount getNonce
  cases sdb.getAccount addr <;> rfl

@[simp] theorem updateBalance_addition :
    sdb.updateBalance addr assetID value .addition = .ok (sdb.adjust addr assetID value) := rfl

theorem updateBalance_subtraction_eq_ok : sdb.updateBalance addr assetID value .subtraction = .ok sdb' ↔
      value ≤ sdb.getBalance assetID addr ∧ sdb' = sdb.adjust addr assetID (-value) := by
  simp only [updateBalance, rejectIf_bind_eq_ok, getBalance_getOrNewAccount, Int64.not_lt, Except.ok.injEq, adjust,
    Int64.sub_eq_add_neg]
  exact and_congr_right fun _ => eq_comm

theorem getAccount_setAccount {acc : Account} :
    (sdb.setAccount addr acc).getAccount addr' = if addr' = addr then some acc else sdb.getAccount addr' :=
  read_put _ _ _ _

@[simp] theorem getBalance_adjust : (sdb.adjust addr assetID value).getBalance assetID' addr' =
      if assetID' = assetID ∧ addr' = addr then sdb.getBalance assetID' addr' + value
      else sdb.getBalance assetID' addr' := by
  simp only [getBalance, adjust, getAccount_setAccount]
  by_cases same : addr' = addr
  · subst same
    have current := getBalance_getOrNewAccount sdb addr' assetID'
    simp only [getBalance] at current
    by_cases asset : assetID' = assetID
    · subst asset
      simp [current]
    · simp [asset, current]
  · simp [same]

@[simp] theorem getNonce_adjust : (sdb.adjust addr assetID value).getNonce addr' = sdb.getNonce addr' := by
  simp only [getNonce, adjust, getAccount_setAccount]
  by_cases same : addr' = addr
  · subst same
    have current := nonce_getOrNewAccount sdb addr'
    simpa [getNonce, setBalance] using current
  · simp [same]

@[simp] theorem getBalance_incrNonce : (sdb.incrNonce addr).getBalance assetID' addr' = sdb.getBalance assetID' addr' := by
  simp only [getBalance, incrNonce, getAccount_setAccount]
  by_cases same : addr' = addr
  · subst same
    simpa [getBalance, setNonce, Account.getBalance] using getBalance_getOrNewAccount sdb addr' assetID'
  · simp [same]

@[simp] theorem getNonce_incrNonce :
    (sdb.incrNonce addr).getNonce addr' = if addr' = addr then sdb.getNonce addr' + 1 else sdb.getNonce addr' := by
  simp only [getNonce, incrNonce, getAccount_setAccount]
  by_cases same : addr' = addr
  · subst same
    simpa [getNonce, setNonce] using nonce_getOrNewAccount sdb addr'
  · simp [same]

@[simp] theorem getBalance_updateID {id : Bytes} {version : UInt8} :
    (sdb.updateID addr id version).getBalance assetID' addr' = sdb.getBalance assetID' addr' := by
  simp only [getBalance, updateID, getAccount_setAccount]
  by_cases same : addr' = addr
  · subst same
    simpa [getBalance, setID, Account.getBalance] using getBalance_getOrNewAccount sdb addr' assetID'
  · simp [same]

@[simp] theorem getNonce_updateID {id : Bytes} {version : UInt8} :
    (sdb.updateID addr id version).getNonce addr' = sdb.getNonce addr' := by
  simp only [getNonce, updateID, getAccount_setAccount]
  by_cases same : addr' = addr
  · subst same
    simpa [getNonce, setID] using nonce_getOrNewAccount sdb addr'
  · simp [same]

section

variable {env : Env} {sender recipient : Uint160} {name topic subscriber identifier : Bytes}
  {id : UInt64} {balance : Int64} {expiresAt : UInt32}

theorem getBalance_of_accounts (same : sdb'.accounts = sdb.accounts) :
    sdb'.getBalance assetID addr = sdb.getBalance assetID addr := by
  simp only [getBalance, getAccount, same]

theorem getNonce_of_accounts (same : sdb'.accounts = sdb.accounts) : sdb'.getNonce addr = sdb.getNonce addr := by
  simp only [getNonce, getAccount, same]

theorem setNanoPay_frame : ∃ schedule, sdb.setNanoPay sender recipient id balance expiresAt = { sdb with
      nanoPay := sdb.nanoPay.put (getNanoPayId sender recipient id) ⟨balance, expiresAt⟩
      nanoPayCleanup := schedule } := by
  unfold setNanoPay
  dsimp only
  split <;> exact ⟨_, rfl⟩

@[simp] theorem accounts_setNanoPay :
    (sdb.setNanoPay sender recipient id balance expiresAt).accounts = sdb.accounts := by
  obtain ⟨_, set⟩ := @setNanoPay_frame sdb sender recipient id balance expiresAt
  rw [set]

theorem deleteName_frame : ∃ schedule, sdb.deleteName env name =
      { sdb with names := sdb.names.put (getNameId env name) .empty, namesCleanup := schedule } := by
  unfold deleteName
  dsimp only
  split
  · rename_i empty
    refine ⟨sdb.namesCleanup, ?_⟩
    rw [← empty]
    rfl
  · refine ⟨cancelCleanupAtHeight sdb.namesCleanup (sdb.getNameInfo (getNameId env name)).1.expiresAt name, ?_⟩
    simp only [getNameInfo, put_put]

@[simp] theorem accounts_deleteName : (sdb.deleteName env name).accounts = sdb.accounts := by
  obtain ⟨_, deleted⟩ := @deleteName_frame sdb env name
  rw [deleted]

theorem unsubscribe_frame : ∃ entry schedule, sdb.unsubscribe env topic subscriber identifier = { sdb with
        pubSub := ⟨sdb.pubSub.stored, sdb.pubSub.pending.store (getPubSubId env topic 0 subscriber identifier) entry⟩
        pubSubCleanup := schedule } := by
  unfold unsubscribe
  dsimp only
  split
  · exact ⟨_, _, rfl⟩
  · refine ⟨none, cancelCleanupAtHeight sdb.pubSubCleanup
      (sdb.getPubSub (getPubSubId env topic 0 subscriber identifier)).1.expiresAt
      (getPubSubId env topic 0 subscriber identifier), ?_⟩
    simp only [getPubSub, put, putNil, GoMap.store, AList.insert_insert]

@[simp] theorem accounts_unsubscribe : (sdb.unsubscribe env topic subscriber identifier).accounts = sdb.accounts := by
  obtain ⟨_, _, deleted⟩ := @unsubscribe_frame sdb env topic subscriber identifier
  rw [deleted]

@[simp] theorem accounts_storeAsset {asset : Asset} : (sdb.storeAsset assetID asset).accounts = sdb.accounts := rfl

@[simp] theorem assets_setNanoPay : (sdb.setNanoPay sender recipient id balance expiresAt).assets = sdb.assets := by
  obtain ⟨_, set⟩ := @setNanoPay_frame sdb sender recipient id balance expiresAt
  rw [set]

@[simp] theorem assets_deleteName : (sdb.deleteName env name).assets = sdb.assets := by
  obtain ⟨_, deleted⟩ := @deleteName_frame sdb env name
  rw [deleted]

@[simp] theorem assets_unsubscribe : (sdb.unsubscribe env topic subscriber identifier).assets = sdb.assets := by
  obtain ⟨_, _, deleted⟩ := @unsubscribe_frame sdb env topic subscriber identifier
  rw [deleted]

end

theorem cleanupRecords_load {V : Type} (records : Table Bytes V) (ids : Cleanup) (key : Bytes) :
    (cleanupRecords records ids).stored = records.stored ∧ ((cleanupRecords records ids).pending.load key = some none ∨
        (cleanupRecords records ids).pending.load key = records.pending.load key) := by
  unfold cleanupRecords
  induction ids.keys generalizing records with
  | nil => exact ⟨rfl, .inr rfl⟩
  | cons id _ ih =>
    obtain ⟨stored, marked | kept⟩ := ih (records.putNil id)
    · exact ⟨stored, .inl marked⟩
    · refine ⟨stored, ?_⟩
      rw [List.foldl_cons, kept, putNil, GoMap.load_store]
      by_cases same : key = id <;> simp [same]

theorem stored_finalizeAssets {assets : Table Uint256 Asset} {asset : Asset} (commit : Bool)
    (read : assets.read assetID = some asset) (named : asset.isEmpty = false) :
    (finalizeAssets commit assets).stored assetID = some asset := by
  unfold Table.read at read
  unfold finalizeAssets
  split at read
  · obtain rfl := Option.some.inj read
    simp_all
  · split <;> simp_all

theorem getBalance_finalize {env : Env} {legacy commit : Bool} (noNil : sdb.accounts.NoNil) :
    (sdb.finalize env legacy commit).getBalance assetID addr = sdb.getBalance assetID addr := by
  let observe (entry : Option Account) : Int64 := entry.elim 0 (·.getBalance assetID)
  have observed (sdb : StateDB) : sdb.getBalance assetID addr = observe (sdb.accounts.read addr) := by
    rw [getBalance, getAccount]
    cases sdb.accounts.read addr <;> rfl
  rw [observed, observed]
  refine observe_finalize observe Account.encode commit noNil (fun acc => ?_) addr
  unfold Account.encode
  split
  · exact (getBalance_of_isEmpty ‹_› assetID).symm
  · rfl

theorem getNonce_finalize {env : Env} {legacy commit : Bool} (noNil : sdb.accounts.NoNil) :
    (sdb.finalize env legacy commit).getNonce addr = sdb.getNonce addr := by
  let observe (entry : Option Account) : UInt64 := entry.elim 0 (·.nonce)
  have observed (sdb : StateDB) : sdb.getNonce addr = observe (sdb.accounts.read addr) := by
    rw [getNonce, getAccount]
    cases sdb.accounts.read addr <;> rfl
  rw [observed, observed]
  refine observe_finalize observe Account.encode commit noNil (fun acc => ?_) addr
  unfold Account.encode
  split
  · exact (nonce_of_isEmpty ‹_›).symm
  · rfl

structure Kept (env : Env) (P : StateDB → Prop) : Prop where
  setAccount : ∀ sdb addr acc, P sdb → P (sdb.setAccount addr acc)
  getNanoPay : ∀ sdb sender recipient id, P sdb → P (sdb.getNanoPay sender recipient id).2
  setNanoPay : ∀ sdb sender recipient id balance expiresAt, P sdb →
    P (sdb.setNanoPay sender recipient id balance expiresAt)
  registerName : ∀ sdb name registrant expiresAt, P sdb → P (sdb.registerName env name registrant expiresAt)
  transferName : ∀ sdb name recipient, P sdb → P (sdb.transferName env name recipient)
  deleteName : ∀ sdb name, P sdb → P (sdb.deleteName env name)
  setNameLegacy : ∀ sdb registrant name, P sdb → P (sdb.setNameLegacy env registrant name)
  deleteNameForRegistrantLegacy : ∀ sdb registrant name, P sdb →
    P (sdb.deleteNameForRegistrantLegacy env registrant name)
  subscribe : ∀ sdb topic bucket subscriber identifier metadata expiresAt, P sdb →
    P (sdb.subscribe env topic bucket subscriber identifier metadata expiresAt)
  unsubscribe : ∀ sdb topic subscriber identifier, P sdb → P (sdb.unsubscribe env topic subscriber identifier)
  storeAsset : ∀ sdb assetID asset, P sdb → P (sdb.storeAsset assetID asset)

theorem kept_noNil (env : Env) : Kept env fun sdb => sdb.accounts.NoNil where
  setAccount _ addr acc noNil := noNil.put addr acc
  getNanoPay _ _ _ _ noNil := noNil
  setNanoPay _ _ _ _ _ _ noNil := by simpa using noNil
  registerName _ _ _ _ noNil := noNil
  transferName _ _ _ noNil := noNil
  deleteName _ _ noNil := by simpa using noNil
  setNameLegacy _ _ _ noNil := noNil
  deleteNameForRegistrantLegacy _ _ _ noNil := noNil
  subscribe _ _ _ _ _ _ _ noNil := noNil
  unsubscribe _ _ _ _ noNil := by simpa using noNil
  storeAsset _ _ _ noNil := noNil

theorem kept_stored (env : Env) (assets : Uint256 → Option Asset) (names : Bytes → Option NameInfo) :
    Kept env fun sdb => sdb.assets.stored = assets ∧ sdb.names.stored = names where
  setAccount _ _ _ same := same
  getNanoPay _ _ _ _ same := same
  setNanoPay _ _ _ _ _ _ same := by obtain ⟨_, set⟩ := setNanoPay_frame; rwa [set]
  registerName _ _ _ _ same := same
  transferName _ _ _ same := same
  deleteName _ _ same := by obtain ⟨_, deleted⟩ := deleteName_frame; rwa [deleted]
  setNameLegacy _ _ _ same := same
  deleteNameForRegistrantLegacy _ _ _ same := same
  subscribe _ _ _ _ _ _ _ same := same
  unsubscribe _ _ _ _ same := by obtain ⟨_, _, deleted⟩ := unsubscribe_frame; rwa [deleted]
  storeAsset _ _ _ same := same

end Nkn.Store.StateDB
