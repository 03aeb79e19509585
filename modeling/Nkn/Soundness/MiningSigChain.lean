import Nkn.Soundness.Concrete
import Nkn.Model.PorServer

/-! # The best sigchain of a height

The heap of a vote height is filtered by its last cell, which is not the largest. Its first cell is still the smallest
signature hash that was offered, and of equal ones the earliest. -/

namespace Nkn

open Go Outcome Store List Proc

variable (env : Env) (config : Config) (poolConfig : PoolConfig) (cs : ChainStore) (rules : SigChainRules)

/-- A sigchain transaction that is valid, and eligible for a vote height when the ledger is at the height where it
arrives. -/
structure Candidate (voteForHeight : UInt32) where
  txn : Transaction
  currentHeight : UInt32
  porPkg : PorPackage
  packaged : newPorPackage env cs rules txn = .ok porPkg
  identified : verifyID env config cs porPkg.sigChain porPkg.height = .ok ()
  signed : rules.verifySigChainSignatures porPkg.sigChain = .ok ()
  votes : porPkg.voteForHeight = voteForHeight
  notLate : ¬voteForHeight < currentHeight + sigChainPropagationHeightOffset
  notEarly : ¬voteForHeight > currentHeight + sigChainMiningHeightOffset

/-- No two of the transactions have the same hash or short hash. -/
def Distinguished (txns : List Transaction) : Prop :=
  ∀ a ∈ txns, ∀ b ∈ txns, Transaction.hash env a = Transaction.hash env b ∨
    TxnPool.shortHash env poolConfig a = TxnPool.shortHash env poolConfig b → a = b

variable {env config poolConfig cs rules} {voteForHeight : UInt32}

namespace Candidate

variable {a b c : Candidate env config cs rules voteForHeight}

def sigHash (c : Candidate env config cs rules voteForHeight) : Bytes := c.porPkg.sigHash

theorem porPkg_eq_of_txn (same : a.txn = b.txn) : a.porPkg = b.porPkg := by
  have packaged := a.packaged
  rw [same, b.packaged] at packaged
  exact (Except.ok.inj packaged).symm

theorem txHash_eq (c : Candidate env config cs rules voteForHeight) :
    c.porPkg.txHash = (Transaction.hash env c.txn).toArray := txHash_of_newPorPackage c.packaged

def better (best : Option (Candidate env config cs rules voteForHeight))
    (c : Candidate env config cs rules voteForHeight) : Option (Candidate env config cs rules voteForHeight) :=
  match best with
  | none => some c
  | some b => if c.sigHash < b.sigHash then some c else some b

def best (offers : List (Candidate env config cs rules voteForHeight)) :
    Option (Candidate env config cs rules voteForHeight) := offers.foldl better none

def Least (offers : List (Candidate env config cs rules voteForHeight))
    (c : Candidate env config cs rules voteForHeight) : Prop := ∀ other ∈ offers, ¬other.sigHash < c.sigHash

variable {offers : List (Candidate env config cs rules voteForHeight)}

@[simp] theorem best_append : best (offers ++ [c]) = better (best offers) c := by
  simp [best]

theorem lt_of_lt_of_not_lt {x y z : Bytes} (below : x < y) (above : ¬z < y) : x < z := by
  by_contra reaches
  exact above (List.lt_of_le_of_lt (List.not_lt.mp reaches) below)

theorem best_eq_none : best offers = none ↔ offers = [] := by
  induction offers using reverseRecOn with
  | nil => simp [best]
  | append_singleton offers c _ =>
    have taken : better (best offers) c ≠ none := by
      unfold better
      split
      · simp
      · split_ifs <;> simp
    simp [taken]

theorem mem_least_of_best (chosen : best offers = some b) : b ∈ offers ∧ Least offers b := by
  induction offers using reverseRecOn generalizing b with
  | nil => simp [best] at chosen
  | append_singleton offers c ih =>
    rw [best_append] at chosen
    cases before : best offers with
    | none =>
      obtain rfl := best_eq_none.mp before
      obtain rfl : c = b := by simpa [before, better] using chosen
      simp [Least]
    | some earlier =>
      obtain ⟨member, least⟩ := ih before
      simp only [before, better] at chosen
      split_ifs at chosen with smaller
      · obtain rfl := Option.some.inj chosen
        refine ⟨by simp, fun other among less => ?_⟩
        rcases mem_append.mp among with among | among
        · exact least other among (List.lt_trans less smaller)
        · obtain rfl := mem_singleton.mp among
          exact List.lt_irrefl _ less
      · obtain rfl := Option.some.inj chosen
        refine ⟨by simp [member], fun other among => ?_⟩
        rcases mem_append.mp among with among | among
        · exact least other among
        · obtain rfl := mem_singleton.mp among
          exact smaller

theorem best_cons_of_least (least : Least offers c) : best (c :: offers) = some c := by
  induction offers using reverseRecOn with
  | nil => rfl
  | append_singleton offers other ih =>
    rw [← cons_append, best_append, ih fun earlier member => least earlier (by simp [member])]
    exact if_neg (least other (by simp))

end Candidate

namespace PorServer

open Candidate

variable {ps : PorServer} {c b : Candidate env config cs rules voteForHeight}
  {offers : List (Candidate env config cs rules voteForHeight)}

variable (poolConfig) in
def offer (ps : PorServer) (c : Candidate env config cs rules voteForHeight) : PorServer :=
  (addSigChainFromTx env config poolConfig cs rules c.txn c.currentHeight ps).2

variable (poolConfig) in
def offered (offers : List (Candidate env config cs rules voteForHeight)) : PorServer :=
  offers.foldl (offer poolConfig) new

def Admits (ps : PorServer) (c : Candidate env config cs rules voteForHeight) : Prop :=
  ps.shouldAddSigChainToCache c.currentHeight voteForHeight c.sigHash false = .ok true

theorem offer_of_admits (admits : ps.Admits c) : offer poolConfig ps c =
    if (ps.sigChainTxnCache.load c.porPkg.txHash).isSome = true then ps
    else if (ps.sigChainTxnSigHashCache.load c.sigHash).isSome = true then
      { ps with sigChainTxnCache := ps.sigChainTxnCache.store c.porPkg.txHash c.txn }
    else if (ps.sigChainTxnShortHashCache.load (TxnPool.shortHash env poolConfig c.txn)).isSome = true then
      { ps with
        sigChainTxnCache := ps.sigChainTxnCache.store c.porPkg.txHash c.txn
        sigChainTxnSigHashCache := ps.sigChainTxnSigHashCache.store c.sigHash c.txn }
    else
      { ps with
        sigChainTxnCache := ps.sigChainTxnCache.store c.porPkg.txHash c.txn
        sigChainTxnSigHashCache := ps.sigChainTxnSigHashCache.store c.sigHash c.txn
        sigChainTxnShortHashCache := ps.sigChainTxnShortHashCache.store (TxnPool.shortHash env poolConfig c.txn) c.txn
        miningPorPackageCache := ps.miningPorPackageCache.store voteForHeight
          (insert (ps.miningPorPackageCache.load voteForHeight) c.porPkg) } := by
  have should : ps.shouldAddSigChainToCache c.currentHeight c.porPkg.voteForHeight c.porPkg.sigHash false = .ok true := by
    rw [c.votes]
    exact admits
  unfold offer addSigChainFromTx
  rw [c.packaged, lift_ok_bind]
  erw [bind_of_ok (by rw [should])]
  rw [if_pos rfl, c.identified, lift_ok_bind, c.signed, lift_ok_bind]
  split_ifs with hash sig short
  · rw [bind_of_error (by rw [add_apply, if_pos hash]; rfl)]
  · rw [bind_of_ok (by rw [add_apply, if_neg hash]), bind_of_error (by rw [add_apply]; exact if_pos sig)]
  · rw [bind_of_ok (by rw [add_apply, if_neg hash]), bind_of_ok (by rw [add_apply]; exact if_neg sig),
      bind_of_error (by rw [add_apply]; exact if_pos short)]
    rfl
  · rw [bind_of_ok (by rw [add_apply, if_neg hash]), bind_of_ok (by rw [add_apply]; exact if_neg sig),
      bind_of_ok (by rw [add_apply]; exact if_neg short), modify_bind]
    simp only [c.votes]
    rfl

theorem offer_of_not_admits (refused : ¬ps.Admits c) : offer poolConfig ps c = ps := by
  have should : ps.shouldAddSigChainToCache c.currentHeight c.porPkg.voteForHeight c.porPkg.sigHash false ≠ .ok true := by
    rw [c.votes]
    exact refused
  unfold offer addSigChainFromTx
  rw [c.packaged, lift_ok_bind]
  match result : ps.shouldAddSigChainToCache c.currentHeight c.porPkg.voteForHeight c.porPkg.sigHash false with
  | .error fault => erw [bind_of_error (by rw [result])]
  | .ok true => exact absurd result should
  | .ok false =>
    erw [bind_of_ok (by rw [result])]
    rfl

def Grows (key : Bytes) (cache cache' : GoMap Bytes Transaction) : Prop :=
  cache' = cache ∨ ∃ txn, cache' = cache.store key txn

variable {cache cache' : GoMap Bytes Transaction}

theorem Grows.load {key : Bytes} (grows : Grows key cache cache') (key' : Bytes) :
    ((cache.load key').isSome = true → (cache'.load key').isSome = true) ∧
      ((cache'.load key').isSome = true → (cache.load key').isSome = true ∨ key' = key) := by
  obtain rfl | ⟨_, rfl⟩ := grows
  · exact ⟨id, .inl⟩
  · rw [GoMap.load_store]
    split_ifs with same
    · exact ⟨fun _ => rfl, fun _ => .inr same⟩
    · exact ⟨id, .inl⟩

/-- What an offer can do: its keys may enter the caches, and its package may enter the heap. -/
structure Effect (ps ps' : PorServer) (c : Candidate env config cs rules voteForHeight) (short : Bytes) : Prop where
  hashes : Grows c.porPkg.txHash ps.sigChainTxnCache ps'.sigChainTxnCache
  sigHashes : Grows c.sigHash ps.sigChainTxnSigHashCache ps'.sigChainTxnSigHashCache
  shortHashes : Grows short ps.sigChainTxnShortHashCache ps'.sigChainTxnShortHashCache
  objections : ps'.sigChainObjectionCache = ps.sigChainObjectionCache
  heap : ps'.miningPorPackageCache.load voteForHeight = ps.miningPorPackageCache.load voteForHeight ∨
    ps'.miningPorPackageCache.load voteForHeight =
      some (insert (ps.miningPorPackageCache.load voteForHeight) c.porPkg)

variable (poolConfig) in
theorem effect_offer (ps : PorServer) (c : Candidate env config cs rules voteForHeight) :
    Effect ps (offer poolConfig ps c) c (TxnPool.shortHash env poolConfig c.txn) := by
  by_cases admits : ps.Admits c
  · rw [offer_of_admits admits]
    split_ifs
    · exact ⟨.inl rfl, .inl rfl, .inl rfl, rfl, .inl rfl⟩
    · exact ⟨.inr ⟨_, rfl⟩, .inl rfl, .inl rfl, rfl, .inl rfl⟩
    · exact ⟨.inr ⟨_, rfl⟩, .inr ⟨_, rfl⟩, .inl rfl, rfl, .inl rfl⟩
    · exact ⟨.inr ⟨_, rfl⟩, .inr ⟨_, rfl⟩, .inr ⟨_, rfl⟩, rfl, .inr (by simp)⟩
  · rw [offer_of_not_admits admits]
    exact ⟨.inl rfl, .inl rfl, .inl rfl, rfl, .inl rfl⟩

/-- A package enters a heap behind the first cell, and rises: `cells` is the heap with the package at `j`. -/
structure Enters (p : List PorPackage) (porPkg : PorPackage) (fuel j : Nat) (cells : List PorPackage) : Prop where
  here : cells[j]? = some porPkg
  behind : j ≠ 0
  enough : j ≤ fuel
  first : cells[0]? = p.head?
  others : ∀ (k : Nat) other, k ≠ j → cells[k]? = some other → other ∈ p

variable {p : List PorPackage}

theorem insert_some (occupied : p ≠ []) (porPkg : PorPackage) :
    ∃ fuel j cells, insert (some p) porPkg = Heap.up less fuel j cells ∧ Enters p porPkg fuel j cells := by
  have positive : 0 < p.length := length_pos_iff.mpr occupied
  by_cases full : p.length ≥ maxNumSigChainInCache
  · -- the package takes the place of the last cell
    have many : 8 ≤ p.length := full
    have fixed := @Heap.fix_last _ less (p.set (p.length - 1) porPkg)
    rw [length_set] at fixed
    refine ⟨p.length - 1 + 1, p.length - 1, p.set (p.length - 1) porPkg, ?_, ?_⟩
    · simp only [insert, if_pos full]
      exact fixed
    · refine ⟨by simp [positive], by omega, by omega, ?_, ?_⟩
      · rw [List.getElem?_set_ne (by omega), head?_eq_getElem?]
      · intro k other apart found
        rw [List.getElem?_set_ne (Ne.symm apart)] at found
        exact mem_of_getElem? found
  · refine ⟨p.length + 1, p.length, p ++ [porPkg], ?_, ?_⟩
    · simp only [insert, if_neg full]
      rfl
    · refine ⟨by simp, by omega, by omega, ?_, ?_⟩
      · rw [List.getElem?_append_left positive, head?_eq_getElem?]
      · intro k other apart found
        have member := mem_of_getElem? found
        by_cases inside : k < p.length
        · rw [List.getElem?_append_left inside] at found
          exact mem_of_getElem? found
        · rw [List.getElem?_append_right (by omega)] at found
          obtain ⟨bound, -⟩ := List.getElem?_eq_some_iff.mp found
          simp only [length_singleton] at bound
          omega

theorem mem_insert (occupied : p ≠ []) {porPkg other : PorPackage}
    (member : other ∈ insert (some p) porPkg) : other ∈ p ∨ other = porPkg := by
  obtain ⟨_, j, _, inserted, enters⟩ := insert_some occupied porPkg
  rw [inserted] at member
  obtain ⟨k, found⟩ := mem_iff_getElem?.mp (Heap.mem_up member)
  by_cases same : k = j
  · subst same
    exact .inr (Option.mem_unique found enters.here)
  · exact .inl (enters.others k other same found)

theorem head?_insert_of_lt (occupied : p ≠ []) {porPkg : PorPackage}
    (smallest : ∀ other ∈ p, porPkg.sigHash < other.sigHash) : (insert (some p) porPkg).head? = some porPkg := by
  obtain ⟨_, _, _, inserted, enters⟩ := insert_some occupied porPkg
  rw [inserted, head?_eq_getElem?]
  refine Heap.head_up_of_less enters.here (fun k other apart found => ?_) enters.enough
  exact decide_eq_true (smallest other (enters.others k other apart found))

theorem head?_insert_of_not_lt {porPkg first : PorPackage} (head : p.head? = some first)
    (above : ¬porPkg.sigHash < first.sigHash) : (insert (some p) porPkg).head? = some first := by
  have occupied : p ≠ [] := by
    rintro rfl
    cases head
  obtain ⟨_, _, _, inserted, enters⟩ := insert_some occupied porPkg
  rw [inserted, head?_eq_getElem?]
  exact Heap.head_up_of_not_less (enters.first.trans head) enters.here (decide_eq_false above) enters.behind

structure HeldBy (ps : PorServer) (offers : List (Candidate env config cs rules voteForHeight))
    (b : Candidate env config cs rules voteForHeight) (p : List PorPackage) : Prop where
  heap : ps.miningPorPackageCache.load voteForHeight = some p
  first : p.head? = some b.porPkg
  cells : ∀ porPkg ∈ p, ∃ c ∈ offers, c.porPkg = porPkg
  cached : (ps.sigChainTxnCache.load b.porPkg.txHash).isSome = true

variable (poolConfig) in
structure Tracks (ps : PorServer) (offers : List (Candidate env config cs rules voteForHeight)) : Prop where
  hashes : ∀ key, (ps.sigChainTxnCache.load key).isSome = true → ∃ c ∈ offers, key = c.porPkg.txHash
  sigHashes : ∀ key, (ps.sigChainTxnSigHashCache.load key).isSome = true → ∃ c ∈ offers, key = c.sigHash
  shortHashes : ∀ key, (ps.sigChainTxnShortHashCache.load key).isSome = true →
    ∃ c ∈ offers, key = TxnPool.shortHash env poolConfig c.txn
  objections : ps.sigChainObjectionCache = ∅
  idle : best offers = none → ps.miningPorPackageCache.load voteForHeight = none
  leads : ∀ b, best offers = some b → ∃ p, HeldBy ps offers b p

theorem keys_grow (keyOf : Candidate env config cs rules voteForHeight → Bytes) (grows : Grows (keyOf c) cache cache')
    (known : ∀ key, (cache.load key).isSome = true → ∃ c ∈ offers, key = keyOf c) (key' : Bytes)
    (found : (cache'.load key').isSome = true) : ∃ d ∈ offers ++ [c], key' = keyOf d := by
  rcases (grows.load key').2 found with before | rfl
  · obtain ⟨d, member, same⟩ := known key' before
    exact ⟨d, by simp [member], same⟩
  · exact ⟨c, by simp, rfl⟩

theorem fresh_of_better (tracks : Tracks poolConfig ps offers)
    (distinguished : Distinguished env poolConfig ((offers ++ [c]).map txn)) (smaller : ∀ d ∈ offers, c.sigHash < d.sigHash) :
    ps.sigChainTxnCache.load c.porPkg.txHash = none ∧ ps.sigChainTxnSigHashCache.load c.sigHash = none ∧
      ps.sigChainTxnShortHashCache.load (TxnPool.shortHash env poolConfig c.txn) = none := by
  have other (d) (member : d ∈ offers) : c.txn ≠ d.txn := by
    intro same
    have below := smaller d member
    rw [sigHash, sigHash, porPkg_eq_of_txn same] at below
    exact List.lt_irrefl _ below
  have among (d) (member : d ∈ offers) : d.txn ∈ (offers ++ [c]).map txn := mem_map_of_mem (by simp [member])
  have self : c.txn ∈ (offers ++ [c]).map txn := mem_map_of_mem (by simp)
  refine ⟨?_, ?_, ?_⟩ <;> refine Option.not_isSome_iff_eq_none.mp fun taken => ?_
  · obtain ⟨d, member, same⟩ := tracks.hashes _ taken
    rw [txHash_eq, txHash_eq] at same
    exact other d member (distinguished _ self _ (among d member) (.inl (Word.toArray_inj.mp same)))
  · obtain ⟨d, member, same⟩ := tracks.sigHashes _ taken
    have below := smaller d member
    rw [same] at below
    exact List.lt_irrefl _ below
  · obtain ⟨d, member, same⟩ := tracks.shortHashes _ taken
    exact other d member (distinguished _ self _ (among d member) (.inr same))

theorem offer_of_fresh (admits : ps.Admits c) (hash : ps.sigChainTxnCache.load c.porPkg.txHash = none)
    (sig : ps.sigChainTxnSigHashCache.load c.sigHash = none)
    (short : ps.sigChainTxnShortHashCache.load (TxnPool.shortHash env poolConfig c.txn) = none) :
    (offer poolConfig ps c).miningPorPackageCache.load voteForHeight =
        some (insert (ps.miningPorPackageCache.load voteForHeight) c.porPkg) ∧
      ((offer poolConfig ps c).sigChainTxnCache.load c.porPkg.txHash).isSome = true := by
  rw [offer_of_admits admits]
  simp [hash, sig, short]

theorem leads_of_better (tracks : Tracks poolConfig ps offers)
    (distinguished : Distinguished env poolConfig ((offers ++ [c]).map txn))
    (smaller : ∀ d ∈ offers, c.sigHash < d.sigHash) : ∃ p, HeldBy (offer poolConfig ps c) (offers ++ [c]) c p := by
  obtain ⟨hash, sig, short⟩ := fresh_of_better tracks distinguished smaller
  cases chosen : best offers with
  | none =>
    have idle := tracks.idle chosen
    have admits : ps.Admits c := by
      simp [Admits, shouldAddSigChainToCache, idle, c.notLate, c.notEarly]
    obtain ⟨heap, cached⟩ := offer_of_fresh admits hash sig short
    rw [idle, show insert none c.porPkg = [c.porPkg] by simp [insert, Heap.init]] at heap
    exact ⟨_, heap, rfl, fun porPkg member => ⟨c, by simp, (mem_singleton.mp member).symm⟩, cached⟩
  | some b =>
    obtain ⟨p, held⟩ := tracks.leads b chosen
    have occupied : p ≠ [] := by
      rintro rfl
      cases held.first
    have below (porPkg) (member : porPkg ∈ p) : c.sigHash < porPkg.sigHash := by
      obtain ⟨d, among, rfl⟩ := held.cells porPkg member
      exact smaller d among
    have admits : ps.Admits c := by
      obtain ⟨last, final⟩ := getLast?_isSome.mpr occupied |> Option.isSome_iff_exists.mp
      simp [Admits, shouldAddSigChainToCache, held.heap, final, c.notLate, c.notEarly,
        below last (mem_of_getLast? final)]
    obtain ⟨heap, cached⟩ := offer_of_fresh admits hash sig short
    rw [held.heap] at heap
    refine ⟨_, heap, head?_insert_of_lt occupied below, fun porPkg member => ?_, cached⟩
    rcases mem_insert occupied member with before | rfl
    · obtain ⟨d, among, same⟩ := held.cells porPkg before
      exact ⟨d, by simp [among], same⟩
    · exact ⟨c, by simp, rfl⟩

theorem leads_of_not_better (held : HeldBy ps offers b p) (above : ¬c.sigHash < b.sigHash) :
    ∃ p', HeldBy (offer poolConfig ps c) (offers ++ [c]) b p' := by
  have effect := effect_offer poolConfig ps c
  have cached := (effect.hashes.load b.porPkg.txHash).1 held.cached
  have earlier (porPkg) (member : porPkg ∈ p) : ∃ d ∈ offers ++ [c], d.porPkg = porPkg := by
    obtain ⟨d, among, same⟩ := held.cells porPkg member
    exact ⟨d, by simp [among], same⟩
  rcases effect.heap with same | inserted
  · exact ⟨p, same.trans held.heap, held.first, earlier, cached⟩
  · rw [held.heap] at inserted
    have occupied : p ≠ [] := by
      rintro rfl
      cases held.first
    refine ⟨_, inserted, head?_insert_of_not_lt held.first above, fun porPkg member => ?_, cached⟩
    rcases mem_insert occupied member with before | rfl
    · exact earlier porPkg before
    · exact ⟨c, by simp, rfl⟩

theorem Tracks.offer (tracks : Tracks poolConfig ps offers)
    (distinguished : Distinguished env poolConfig ((offers ++ [c]).map txn)) :
    Tracks poolConfig (offer poolConfig ps c) (offers ++ [c]) := by
  have effect := effect_offer poolConfig ps c
  refine ⟨keys_grow (fun c => c.porPkg.txHash) effect.hashes tracks.hashes,
    keys_grow sigHash effect.sigHashes tracks.sigHashes,
    keys_grow (fun c => TxnPool.shortHash env poolConfig c.txn) effect.shortHashes tracks.shortHashes,
    effect.objections.trans tracks.objections, fun chosen => ?_, fun b chosen => ?_⟩
  · exact absurd (best_eq_none.mp chosen) (by simp)
  · rw [best_append] at chosen
    cases before : best offers with
    | none =>
      obtain rfl : c = b := by simpa [before, better] using chosen
      exact leads_of_better tracks distinguished (by simp [best_eq_none.mp before])
    | some earlier =>
      simp only [before, better] at chosen
      split_ifs at chosen with smaller
      · obtain rfl := Option.some.inj chosen
        refine leads_of_better tracks distinguished fun d member => ?_
        exact lt_of_lt_of_not_lt smaller ((mem_least_of_best before).2 d member)
      · obtain rfl := Option.some.inj chosen
        obtain ⟨_, held⟩ := tracks.leads earlier before
        exact leads_of_not_better held smaller

theorem tracks_offered (offers : List (Candidate env config cs rules voteForHeight))
    (distinguished : Distinguished env poolConfig (offers.map txn)) :
    Tracks poolConfig (offered poolConfig offers) offers := by
  induction offers using reverseRecOn with
  | nil => exact ⟨by simp [offered, new], by simp [offered, new], by simp [offered, new], rfl, fun _ => by simp [offered, new],
      by simp [best]⟩
  | append_singleton offers c ih =>
    have before : Distinguished env poolConfig (offers.map txn) := by
      intro a inA b inB
      exact distinguished a (by simp_all) b (by simp_all)
    have step := (ih before).offer distinguished
    simpa [offered] using step

/-- The first cell of the heap is always the smallest signature hash that was offered. -/
theorem first_cell_is_smallest (offers : List (Candidate env config cs rules voteForHeight))
    (distinguished : Distinguished env poolConfig (offers.map txn)) (nonempty : offers ≠ []) :
    ∃ p, (offered poolConfig offers).miningPorPackageCache.load voteForHeight = some p ∧
      ∃ first ∈ offers, p.head? = some first.porPkg ∧ ∀ other ∈ offers, ¬other.sigHash < first.sigHash := by
  obtain ⟨first, chosen⟩ := Option.ne_none_iff_exists'.mp (mt best_eq_none.mp nonempty)
  obtain ⟨member, least⟩ := mem_least_of_best chosen
  obtain ⟨p, held⟩ := (tracks_offered offers distinguished).leads first chosen
  exact ⟨p, held.heap, first, member, held.first, least⟩

variable (poolConfig) in
def winner (offers : List (Candidate env config cs rules voteForHeight)) : Outcome Uint256 :=
  (getMiningSigChainTxnHash env config cs rules voteForHeight (offered poolConfig offers)).1

theorem isSigChainInvalid_of_no_objections (quiet : ps.sigChainObjectionCache = ∅) (height : UInt32) (porPkg : PorPackage) :
    isSigChainInvalid env config cs rules height porPkg ps = (.ok false, ps) := by
  simp [isSigChainInvalid, quiet]

theorem firstValid_of_cached {height : UInt32} {porPkg : PorPackage} {rest : List PorPackage}
    (quiet : ps.sigChainObjectionCache = ∅) (cached : (ps.sigChainTxnCache.load porPkg.txHash).isSome = true) :
    firstValid env config cs rules height (porPkg :: rest) ps = (uint256ParseFromBytes porPkg.txHash, ps) := by
  unfold firstValid
  rw [bind_of_ok (isSigChainInvalid_of_no_objections quiet height porPkg), gets_bind, cached]
  rfl

theorem winner_eq (offers : List (Candidate env config cs rules voteForHeight))
    (distinguished : Distinguished env poolConfig (offers.map txn)) :
    winner poolConfig offers = .ok ((best offers).elim emptyUint256 fun b => Transaction.hash env b.txn) := by
  have tracks := tracks_offered offers distinguished
  unfold winner getMiningSigChainTxnHash
  cases chosen : best offers with
  | none =>
    simp only [gets_bind, GoMap.read, tracks.idle chosen]
    rfl
  | some b =>
    obtain ⟨_, held⟩ := tracks.leads b chosen
    obtain ⟨_, rfl⟩ := head?_eq_some_iff.mp held.first
    simp only [gets_bind, GoMap.read, held.heap, Option.getD_some]
    rw [firstValid_of_cached tracks.objections held.cached, txHash_eq]
    exact uint256ParseFromBytes_eq_ok.mpr rfl

theorem distinguished_of_perm {txns txns' : List Transaction} (perm : txns.Perm txns')
    (distinguished : Distinguished env poolConfig txns') : Distinguished env poolConfig txns := by
  intro a inA b inB
  exact distinguished a (perm.mem_iff.mp inA) b (perm.mem_iff.mp inB)

theorem least_of_perm {order set : List (Candidate env config cs rules voteForHeight)}
    (perm : (order.map txn).Perm (set.map txn)) (chosen : best order = some b) :
    ∃ d ∈ set, d.txn = b.txn ∧ Least set d := by
  obtain ⟨member, least⟩ := mem_least_of_best chosen
  obtain ⟨d, among, same⟩ := mem_map.mp (perm.mem_iff.mp (mem_map_of_mem member))
  refine ⟨d, among, same, fun other inSet less => ?_⟩
  obtain ⟨other', inOrder, same'⟩ := mem_map.mp (perm.mem_iff.mpr (mem_map_of_mem inSet))
  refine least other' inOrder ?_
  rw [sigHash, sigHash, porPkg_eq_of_txn same', ← porPkg_eq_of_txn same]
  exact less

theorem winner_of_first (set : List (Candidate env config cs rules voteForHeight))
    (distinguished : Distinguished env poolConfig (set.map txn)) (member : c ∈ set) (least : Least set c) :
    ∃ order : List (Candidate env config cs rules voteForHeight),
      (order.map txn).Perm (set.map txn) ∧ winner poolConfig order = .ok (Transaction.hash env c.txn) := by
  obtain ⟨before, after, rfl⟩ := append_of_mem member
  have perm : (c :: (before ++ after)).Perm (before ++ c :: after) := perm_middle.symm
  refine ⟨_, perm.map txn, ?_⟩
  rw [winner_eq _ (distinguished_of_perm (perm.map txn) distinguished), best_cons_of_least]
  · rfl
  · intro other among
    exact least other (perm.mem_iff.mp (mem_cons_of_mem _ among))

/-- All orders of arrival agree on the winner if and only if one transaction has the smallest signature hash. -/
theorem winner_agrees_iff (set : List (Candidate env config cs rules voteForHeight))
    (distinguished : Distinguished env poolConfig (set.map txn)) :
    (∀ order order' : List (Candidate env config cs rules voteForHeight), (order.map txn).Perm (set.map txn) →
        (order'.map txn).Perm (set.map txn) → winner poolConfig order = winner poolConfig order') ↔
      ∀ a ∈ set, ∀ b ∈ set, Least set a → Least set b → a.txn = b.txn := by
  constructor
  · intro agree a inA b inB leastA leastB
    obtain ⟨order, perm, won⟩ := winner_of_first set distinguished inA leastA
    obtain ⟨order', perm', won'⟩ := winner_of_first set distinguished inB leastB
    have same : Transaction.hash env a.txn = Transaction.hash env b.txn :=
      ok_unique won ((agree order order' perm perm').trans won')
    exact distinguished _ (List.mem_map_of_mem inA) _ (List.mem_map_of_mem inB) (.inl same)
  · intro unique order order' perm perm'
    rw [winner_eq _ (distinguished_of_perm perm distinguished), winner_eq _ (distinguished_of_perm perm' distinguished)]
    cases chosen : best order with
    | none =>
      obtain rfl := best_eq_none.mp chosen
      have empty : order' = [] := by simpa using (perm'.trans perm.symm).length_eq
      rw [best_eq_none.mpr empty]
    | some b =>
      cases chosen' : best order' with
      | none =>
        obtain rfl := best_eq_none.mp chosen'
        obtain rfl : order = [] := by simpa using (perm.trans perm'.symm).length_eq
        cases chosen
      | some b' =>
        obtain ⟨d, member, same, least⟩ := least_of_perm perm chosen
        obtain ⟨d', member', same', least'⟩ := least_of_perm perm' chosen'
        simp only [Option.elim_some]
        rw [← same, ← same', unique d member d' member' least least']

end PorServer

end Nkn

namespace Nkn.RelayedMessages

open Config Store Sample Go Outcome PorServer

def blockHash : Uint256 := Word.ofNat 32 0xbfc18b4780b16f10cd8db1008f1e58aecdd31250b35cce17fd456fa99b5b5279

def srcID : Uint256 := Word.ofNat 32 0x366283b1b946001eb03b73c3fcd3e6956d39427aef0a515e31624a6529c6b970

def srcPubkey : Uint256 := Word.ofNat 32 0xd04ab232742bb4ab3a1368bd4615e4e6d0224ab71a016baf8520a332c9778737

def destID : Uint256 := Word.ofNat 32 0x1bf271acb22d893650d2a110d4f2bf7922e6e6f24105823759f80afaa125689d

def destPubkey : Uint256 := Word.ofNat 32 0x204040e364c10f2bec9c1fe500a1cd4c247c89d650a01ed7e82caba867877c21

def vrf : Uint256 := Word.ofNat 32 0xf0d5a7bc30fe28f67122cce4f56f1fcad7efd05bf287d55b4ea3863d6b87d076

def proof : Word 96 := Word.ofNat 96
  (0x9dd9e3efdeb56d2c531f56664df10fe4a7a871870eebab0b2d85f4fad9c34506eae61a265e635ccc44a3eca8576f8c0e * 2 ^ 384 +
    0x1d530043115ac243099f686c02ed8e02469cecc1aa36932b81d323104b391cefe1e0042253d71810da4bf22a5fbe2d45)

def relayID : Uint256 := Word.ofNat 32 0x34750f98bd59fcfc946da45aaabe933be154a4b5094e1c4abf42866505f3c97e

structure Relayed where
  nonce : UInt32
  srcSignature : Word 64
  relaySignature : Word 64
  destSignature : Word 64
  sigHash : Uint256

namespace Relayed

variable (relayed : Relayed)

def sigChain : Pb.SigChain where
  nonce := relayed.nonce
  dataSize := 1
  blockHash := blockHash.toArray
  srcId := srcID.toArray
  srcPubkey := srcPubkey.toArray
  destId := destID.toArray
  destPubkey := destPubkey.toArray
  elems := [⟨[], proposerKey, false, relayed.srcSignature.toArray, [], .signature, []⟩,
    ⟨relayID.toArray, [], true, relayed.relaySignature.toArray, vrf.toArray, .signature, proof.toArray⟩,
    ⟨destID.toArray, [], false, relayed.destSignature.toArray, [], .signature, []⟩]

def encodeElem (elem : Pb.SigChainElem) : Bytes :=
  Proto.bytes 1 elem.id ++ Proto.bytes 2 elem.nextPubkey ++ Proto.number 3 (if elem.mining then 1 else 0) ++
    Proto.bytes 4 elem.signature ++ Proto.bytes 6 elem.vrf ++ Proto.bytes 7 elem.proof

def encoded : Bytes :=
  let sc := relayed.sigChain
  Proto.number 1 sc.nonce.toUInt64 ++ Proto.number 2 sc.dataSize.toUInt64 ++ Proto.bytes 3 sc.blockHash ++
    Proto.bytes 4 sc.srcId ++ Proto.bytes 5 sc.srcPubkey ++ Proto.bytes 6 sc.destId ++ Proto.bytes 7 sc.destPubkey ++
    sc.elems.flatMap fun elem => Proto.nested 8 (encodeElem elem)

end Relayed

def first : Relayed where
  nonce := 1
  srcSignature := Word.ofNat 64
    0x2e1b4f5f2f78da5c8b1208ef9e8bbea608935652acec93cb7a9c80789aefb1e5e1f50f4a59a2bfa3d4616ec11cb9e4c5a6b07783bfa1db3ea836382a26e92c05
  relaySignature := Word.ofNat 64
    0xbec1802bddf7d07f7787ac22c539db922eceac0a3c99a02eec4cafe4f4d71632664cdd6132b5871bc15126260014c96cd47eea89a8e18ec8d9939b0855861305
  destSignature := Word.ofNat 64
    0xa0154300a3cbf04ed8e3d4fd6fb8683b9eb2897d33a5baa3da3ba59817fa0b8231f5b327235d2fbd21c6f17df783f1254a3d36c7347f71b244c6ccc04172990c
  sigHash := Word.ofNat 32 0x00033864f8cbee6133c0f6c3fb8c1486ac5b6bbca7737721daba8e795f793bd9

def second : Relayed where
  nonce := 2
  srcSignature := Word.ofNat 64
    0x82478554b19e2a2568c2f16e45c42894f84dd586addda2496c0ad390b9ada66af1ff18c624e6c80316eff796110f6df57f1d71aad2107b864cd77da69a1e420d
  relaySignature := Word.ofNat 64
    0xc8ee7de9a17472c364489988a1f85d9025ff5182425164c2a131ace0cd56d4b536bf39d6119e3228d10b98adf212a1736a0915a354d4a74b8083f7531668b80d
  destSignature := Word.ofNat 64
    0xc8d06284579be264854d1e36dcbd505d33ca5ad1bde4340a1476f4508295c211b0dc0b0e8b8ac9fe872c3f4649addd59b4137682e0998f4b12c8ac67cff20400
  sigHash := Word.ofNat 32 0x0004402839f10b0ea0514b010634b852f7bfaf3ae88ed2fe72182c7f41b3d297

def otherKey : Bytes := (Word.ofNat 32 0x66cd608b928b88e50e0efeaa33faf1c43cefe07294b0b87e9fe0aba6a3cf7633).toArray

def other : Uint160 := Word.ofNat 20 0x65457cf277ec374bae2e7318122dd8048f1202f4

structure Submission where
  relayed : Relayed
  submitterKey : Bytes
  submitter : Uint160
  hashForSigning : Uint256
  hash : Uint256
  saltedHash : Uint256
  signature : Word 64

namespace Submission

variable (submission : Submission)

def payload : Pb.SigChainTxn := ⟨submission.relayed.encoded, submission.submitter.toArray⟩

def txn : Transaction :=
  ⟨packed (.sigChainTxn submission.payload) 0 0,
    [⟨createSignatureProgramCode submission.submitterKey, 64 :: submission.signature.toArray⟩]⟩

def porPkg : PorPackage where
  height := 1
  voteForHeight := 7
  blockHash := blockHash.toArray
  txHash := submission.hash.toArray
  sigHash := submission.relayed.sigHash.toArray
  sigChain := submission.relayed.sigChain

end Submission

def byProposer : Submission where
  relayed := first
  submitterKey := proposerKey
  submitter := proposer
  hashForSigning := Word.ofNat 32 0x11882bcbf08b4dc2a58f51b64fb61c13e7b79a90eff0fa292b65d889967bacda
  hash := Word.ofNat 32 0xe0b77eaca60c881ac1c40bf53488b505daf87b04abc6ceb5442fd5309adb36fe
  saltedHash := Word.ofNat 32 0x3813fe8835096ab46fc530f9c2dd53aaa002b70002252c32df51a07bd6488c8f
  signature := Word.ofNat 64
    0x53f77bdb0c81a5c30d595beef76bea5d96e6ba480d89b9a5e1d0eee0f46a928f53a852321c192f1af6afc6f62a4d9414c039b0998bdfd1024d92125fc9127207

def byOther : Submission where
  relayed := first
  submitterKey := otherKey
  submitter := other
  hashForSigning := Word.ofNat 32 0xea6e25f435fe19a4d74c0a3cd2ac55b8d100508de4aebb5d871a7c559956cefc
  hash := Word.ofNat 32 0xbbdc7c4d4f1a1266047182bf7c3681bbac0cac81543b5e883df0f74f7babc93a
  saltedHash := Word.ofNat 32 0xe6d3733c0014e45d5d20a8edbd6e991fbd6672cf1acc3ca669d491294993783f
  signature := Word.ofNat 64
    0xa67302dc2f0feaba1d23bc1f074c7d15582ba7fc814563171de4459d13a6018686b4c849e705b58a1f3adfd33648929cec7f02ca594204b9d967734ea247e30f

def worse : Submission where
  relayed := second
  submitterKey := proposerKey
  submitter := proposer
  hashForSigning := Word.ofNat 32 0x05c2d1655e125867f2495ebc7288887a7a78676acd1c35379963b3ae2e9556f8
  hash := Word.ofNat 32 0x9397f7960dcd4072f9c64cdfd4bb81b7363e65fe63edcf537ff1ab1dd571a04e
  saltedHash := Word.ofNat 32 0xc88c102af2dfc4dd2d6a182f464c239ae0e0ae13388b3784dff4664c2eacc52d
  signature := Word.ofNat 64
    0x3cb22e3ad92e21244fbc923b1365d9801261146bd54a47c62db7fa17284bc57443e546adf8c30d45e7896423b19f76d6dc9ede7b00347e8317cd874f97cf150c

def all : List Submission := [byProposer, byOther, worse]

def poolConfig : PoolConfig := ⟨32, 0, 32, List.replicate 32 0⟩

def tables : Tables where
  sha256 :=
    (createSignatureProgramCode proposerKey, FirstBlocks.proposerCodeHash) ::
      all.flatMap fun submission =>
        (submission.hash.toArray ++ poolConfig.shortHashSalt, submission.saltedHash) ::
          Tables.hashedTwice (Transaction.serializeUnsigned submission.txn) submission.hashForSigning submission.hash
  ripemd160 := [(FirstBlocks.proposerCodeHash.toArray, proposer)]
  messages := all.map fun submission => .sigChainTxn submission.payload
  sigChains := [first, second].map fun relayed => (relayed.encoded, relayed.sigChain)

def rules : SigChainRules where
  verifySigChainLight sc _ := rejectIf (sc ≠ first.sigChain ∧ sc ≠ second.sigChain) "sigchain is not complete"
  verifySigChainSignatures sc := rejectIf (sc ≠ first.sigChain ∧ sc ≠ second.sigChain) "invalid vrf or proof"
  signatureHashWithPenalty sc :=
    if sc = first.sigChain then .ok first.sigHash.toArray
    else if sc = second.sigChain then .ok second.sigHash.toArray
    else fail "sigchain is not complete"
  verifySigChainObjection _ _ _ := fail "invalid objection"

def ledger : ChainStore :=
  .holding emptyUint256
    { StateTrie.empty with
      accounts := fun addr => if addr = proposer then some ⟨0, ∅, some relayID.toArray, 0⟩ else none }
    blockHash ⟨header 1 earlierTxnHash emptyUint256, [coinbaseTxn 0 0]⟩ [earlierTxnHash] 4

theorem accepted : ∀ submission ∈ all,
    (newPorPackage tables.env ledger rules submission.txn).toOption = some submission.porPkg ∧
      (verifyID tables.env mainnet ledger submission.porPkg.sigChain submission.porPkg.height).isOk = true ∧
      (rules.verifySigChainSignatures submission.porPkg.sigChain).isOk = true := by
  decide +kernel

def candidate (submission : Submission) (member : submission ∈ all) :
    Candidate tables.env mainnet ledger rules 7 where
  txn := submission.txn
  currentHeight := 4
  porPkg := submission.porPkg
  packaged := by
    obtain ⟨packaged, -, -⟩ := accepted submission member
    cases made : newPorPackage tables.env ledger rules submission.txn with
    | ok porPkg => simpa [made, Except.toOption] using packaged
    | error fault => simp [made, Except.toOption] at packaged
  identified := by
    obtain ⟨_, done⟩ := isOk_iff.mp (accepted submission member).2.1
    exact done
  signed := by
    obtain ⟨_, done⟩ := isOk_iff.mp (accepted submission member).2.2
    exact done
  votes := rfl
  notLate := by decide
  notEarly := by decide

def proposerCandidate : Candidate tables.env mainnet ledger rules 7 := candidate byProposer (by simp [all])

def otherCandidate : Candidate tables.env mainnet ledger rules 7 := candidate byOther (by simp [all])

def worseCandidate : Candidate tables.env mainnet ledger rules 7 := candidate worse (by simp [all])

theorem submissions_distinguished : Distinguished tables.env poolConfig (all.map Submission.txn) := by
  unfold Distinguished
  decide +kernel

theorem distinguished_of_subset {set : List (Candidate tables.env mainnet ledger rules 7)}
    (known : set.map Candidate.txn ⊆ all.map Submission.txn) :
    Distinguished tables.env poolConfig (set.map Candidate.txn) := by
  intro a inA b inB
  exact submissions_distinguished a (known inA) b (known inB)

theorem hash_eq : ∀ submission ∈ all, Transaction.hash tables.env submission.txn = submission.hash := by decide +kernel

/-- A sigchain that two accounts submit: the transaction that arrives first wins. -/
theorem first_submitter_wins : winner poolConfig [proposerCandidate, otherCandidate] = .ok byProposer.hash ∧
      winner poolConfig [otherCandidate, proposerCandidate] = .ok byOther.hash ∧ byProposer.hash ≠ byOther.hash := by
  have tie : proposerCandidate.sigHash = first.sigHash.toArray ∧ otherCandidate.sigHash = first.sigHash.toArray :=
    ⟨rfl, rfl⟩
  refine ⟨?_, ?_, by decide +kernel⟩
  · rw [winner_eq _ (distinguished_of_subset (by simp [proposerCandidate, otherCandidate, candidate, all])),
      Candidate.best_cons_of_least (by simp [Candidate.Least, tie])]
    exact congrArg Except.ok (hash_eq byProposer (by simp [all]))
  · rw [winner_eq _ (distinguished_of_subset (by simp [proposerCandidate, otherCandidate, candidate, all])),
      Candidate.best_cons_of_least (by simp [Candidate.Least, tie])]
    exact congrArg Except.ok (hash_eq byOther (by simp [all]))

/-- Two different sigchains: the smaller signature hash wins in both orders. -/
theorem winner_agrees_iff_first :
    winner poolConfig [proposerCandidate, worseCandidate] = winner poolConfig [worseCandidate, proposerCandidate] := by
  have smaller : proposerCandidate.sigHash < worseCandidate.sigHash := by decide +kernel
  refine (winner_agrees_iff [proposerCandidate, worseCandidate] (distinguished_of_subset ?_)).mpr ?_ _ _ (.refl _)
    (.swap _ _ _)
  · simp [proposerCandidate, worseCandidate, candidate, all]
  · intro a inA b inB leastA leastB
    have chosen (c) (member : c ∈ [proposerCandidate, worseCandidate])
        (least : Candidate.Least [proposerCandidate, worseCandidate] c) : c = proposerCandidate := by
      rcases List.mem_pair.mp member with rfl | rfl
      · rfl
      · exact absurd smaller (least proposerCandidate (by simp))
    rw [chosen a inA leastA, chosen b inB leastB]

/-- The worse sigchain arrives first, and leaves the first cell to the better one. -/
theorem first_cell_is_smallest_first :
    ∃ p, (offered poolConfig [worseCandidate, proposerCandidate]).miningPorPackageCache.load 7 = some p ∧
      p.head? = some byProposer.porPkg := by
  have smaller : proposerCandidate.sigHash < worseCandidate.sigHash := by decide +kernel
  obtain ⟨p, heap, first, member, head, least⟩ := first_cell_is_smallest [worseCandidate, proposerCandidate]
    (distinguished_of_subset (by simp [proposerCandidate, worseCandidate, candidate, all])) (by simp)
  refine ⟨p, heap, ?_⟩
  rcases List.mem_pair.mp member with rfl | rfl
  · exact absurd smaller (least proposerCandidate (by simp))
  · exact head

end Nkn.RelayedMessages
