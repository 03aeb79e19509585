import Nkn.Proofs.TrieHash

/-! # The trie as a map

A trie in memory holds the map from byte strings that its nodes stand for. -/

namespace Nkn.Trie

open Go Outcome List Function

theorem decodeNibbles_nibbles (str : Bytes) : decodeNibbles (str.flatMap nibbles) = str := by
  have pair (b : UInt8) : UInt8.ofNat (b.toNat / 16) <<< 4 ||| UInt8.ofNat (b.toNat % 16) = b := by
    have all : ∀ i : Fin 256, (UInt8.ofNat (i.val / 16) <<< 4 ||| UInt8.ofNat (i.val % 16)).toNat = i.val := by
      decide +kernel
    rw [← UInt8.toNat_inj]
    exact all ⟨b.toNat, b.toNat_lt⟩
  induction str with
  | nil => rfl
  | cons _ _ ih => simp only [flatMap_cons, nibbles, cons_append, nil_append, decodeNibbles, pair, ih]

theorem keyBytesToHex_injective : Function.Injective keyBytesToHex := by
  intro str str' same
  have same : str.flatMap nibbles = str'.flatMap nibbles := append_cancel_right same
  rw [← decodeNibbles_nibbles str, same, decodeNibbles_nibbles]

theorem terminated_keyBytesToHex (str : Bytes) : Terminated (keyBytesToHex str) := by
  refine ⟨_, fun member => ?_, rfl⟩
  obtain ⟨b, -, member⟩ := mem_flatMap.mp member
  have small := b.toNat_lt
  simp only [nibbles, mem_cons, not_mem_nil, or_false, Fin.ext_iff] at member
  omega

abbrev Map := Bytes → Option Bytes

def contents (t : Tree) : Map := fun key => t.lookup (keyBytesToHex key)

structure Proper (t : Tree) : Prop where
  rooted : Rooted t
  byteKeys : ∀ key v, t.lookup key = some v → ∃ str, key = keyBytesToHex str

variable {env : Env} {known known' : Tree → Prop} {tree tree' : Tree}

theorem proper_nil : Proper .nil := ⟨.inl rfl, fun _ _ found => by cases found⟩

theorem contents_update {str : Bytes} {entry : Option Bytes}
    (changed : tree'.lookup = update tree.lookup (keyBytesToHex str) entry) :
    contents tree' = update (contents tree) str entry := by
  funext key
  unfold contents
  rw [changed]
  by_cases same : key = str
  · subst same
    simp
  · simp [same, keyBytesToHex_injective.ne same]

namespace Proper

variable (proper : Proper tree)

include proper

theorem of_update {str : Bytes} {entry : Option Bytes} (rooted : Rooted tree')
    (changed : tree'.lookup = update tree.lookup (keyBytesToHex str) entry) : Proper tree' := by
  refine ⟨rooted, fun key v found => ?_⟩
  rw [changed] at found
  by_cases same : key = keyBytesToHex str
  · exact ⟨str, same⟩
  · rw [update_of_ne same] at found
    exact proper.byteKeys key v found

theorem insert (key value : Bytes) :
    Proper (tree.insert (keyBytesToHex key) (.value value)) ∧
      contents (tree.insert (keyBytesToHex key) (.value value)) = update (contents tree) key (some value) := by
  obtain ⟨rooted, changed⟩ := proper.rooted.insert (terminated_keyBytesToHex key) trivial
  exact ⟨proper.of_update rooted changed, contents_update changed⟩

theorem delete (key : Bytes) : Proper (tree.delete (keyBytesToHex key)) ∧
      contents (tree.delete (keyBytesToHex key)) = update (contents tree) key none := by
  obtain ⟨rooted, changed⟩ := proper.rooted.delete (terminated_keyBytesToHex key)
  exact ⟨proper.of_update rooted changed, contents_update changed⟩

theorem lookup_le (same : contents tree = contents tree') {key : Key} {v : Bytes}
    (found : tree.lookup key = some v) : tree'.lookup key = some v := by
  obtain ⟨str, rfl⟩ := proper.byteKeys key v found
  exact (congrFun same str).symm.trans found

theorem ext (proper' : Proper tree') (same : contents tree = contents tree') : tree = tree' := by
  refine proper.rooted.ext proper'.rooted ?_
  funext key
  cases found : tree'.lookup key with
  | some _ => exact proper'.lookup_le same.symm found
  | none =>
    cases found' : tree.lookup key with
    | none => rfl
    | some _ => exact absurd (proper.lookup_le same found') (by simp [found])

theorem eq_nil_iff : tree = .nil ↔ contents tree = fun _ => none := by
  refine ⟨fun absent => absent ▸ rfl, fun empty => ?_⟩
  exact proper.ext proper_nil (empty.trans rfl)

theorem canonical (present : tree ≠ .nil) : Canonical tree := proper.rooted.resolve_left present

end Proper

def rootHash (env : Env) (t : Tree) : Uint256 := env.sha256 (env.sha256 (encode env t)).toArray

def commitRoot (env : Env) : Tree → Uint256
  | .nil => emptyUint256
  | t => rootHash env t

theorem commitRoot_eq (present : tree ≠ .nil) : commitRoot env tree = rootHash env tree := by
  cases tree with
  | nil => exact absurd rfl present
  | _ => rfl

theorem rootOf_eq (t : Tree) : rootOf env t = (rootHash env t).toArray := rfl

/-- The entries of a map are Go slices, also after `keyBytesToHex` has written two nibbles for each byte of a key. -/
def Sized (m : Map) : Prop := ∀ key value, m key = some value → key.length < 2 ^ 62 ∧ value.length < 2 ^ 63

/-- No entry of a map is the empty value, which is written like an absent one. -/
def Filled (m : Map) : Prop := ∀ key value, m key = some value → value ≠ []

theorem Readable.contents_filled (readable : Readable tree) : Filled (contents tree) :=
  fun _ _ found => readable.filled found

theorem Proper.readable (proper : Proper tree) (filled : Filled (contents tree)) (sized : Sized (contents tree)) :
    Readable tree := by
  rcases proper.rooted with rfl | canonical
  · trivial
  · refine Canonical.readable canonical fun key v found => ?_
    obtain ⟨str, rfl⟩ := proper.byteKeys key v found
    obtain ⟨_, value⟩ := sized str v found
    have twice : (str.flatMap nibbles).length = 2 * str.length := by
      simp [length_flatMap, nibbles, Nat.mul_comm]
    refine ⟨?_, filled str v found, value⟩
    simp only [keyBytesToHex, length_append, twice, length_singleton]
    omega

def nodesOf (env : Env) (m : Map) : Set Bytes := { e | ∃ tree, Proper tree ∧ contents tree = m ∧ e ∈ encodings env tree }

theorem Proper.encodings_subset (proper : Proper tree) : encodings env tree ⊆ nodesOf env (contents tree) :=
  fun _ member => ⟨tree, proper, rfl, member⟩

theorem contents_eq_of_rootHash (proper : Proper tree) (proper' : Proper tree') (present : tree ≠ .nil)
    (present' : tree' ≠ .nil) (filled : Filled (contents tree)) (filled' : Filled (contents tree'))
    (sized : Sized (contents tree)) (sized' : Sized (contents tree'))
    (free : Set.InjOn (sha256Key env) (nodesOf env (contents tree) ∪ nodesOf env (contents tree')))
    (same : rootHash env tree = rootHash env tree') : contents tree = contents tree' := by
  have inner := (proper.canonical present).inner
  have inner' := (proper'.canonical present').inner
  have readable := proper.readable filled sized
  have readable' := proper'.readable filled' sized'
  have free := free.mono (Set.union_subset_union proper.encodings_subset proper'.encodings_subset)
  have written : encode env tree = encode env tree' :=
    free (.inl (mem_encodings inner)) (.inr (mem_encodings inner')) (congrArg Word.toArray same)
  rw [eq_of_collapse readable readable' free (Collapsed.serialize_inj readable.writable readable'.writable written)]

end Nkn.Trie

namespace Nkn

open Go Outcome Trie

variable {env : Env} {known known' : Tree → Prop} {tree tree' : Tree} {t : Trie}

structure Trie.Holds (env : Env) (known : Tree → Prop) (t : Trie) (tree : Tree) : Prop where
  rep : Rep env t.db known true t.root tree
  proper : Proper tree

namespace Trie

theorem cost_le_depthOf (n : Node) (key : Key) : cost n key ≤ Node.depthOf key := cost_le n key

namespace Holds

variable (holds : t.Holds env known tree)

include holds

theorem fits (key : Bytes) : Fits tree (keyBytesToHex key) := .inr ⟨terminated_keyBytesToHex key, holds.proper.rooted⟩

theorem tryGet (key : Bytes) :
    ∃ root, t.tryGet key = .ok (contents tree key, { t with root }) ∧ Holds env known { t with root } tree := by
  obtain ⟨root, got, rep⟩ := holds.rep.tryGet (holds.fits key) (cost_le_depthOf _ _)
  exact ⟨root, by simp [Trie.tryGet, got, contents], rep, holds.proper⟩

theorem tryUpdate (key value : Bytes) :
    ∃ root tree', t.tryUpdate key value = .ok { t with root } ∧ Holds env known { t with root } tree' ∧
      contents tree' = Function.update (contents tree) key (some value) := by
  obtain ⟨root, inserted, rep⟩ := holds.rep.insert (holds.fits key) value (cost_le_depthOf _ _)
  obtain ⟨proper, changed⟩ := holds.proper.insert key value
  exact ⟨root, _, by simp [Trie.tryUpdate, inserted], ⟨rep.of_false, proper⟩, changed⟩

theorem tryDelete (key : Bytes) :
    ∃ root tree', t.tryDelete key = .ok { t with root } ∧ Holds env known { t with root } tree' ∧
      contents tree' = Function.update (contents tree) key none := by
  obtain ⟨root, deleted, rep, -⟩ := holds.rep.delete (holds.fits key) (cost_le_depthOf _ _)
  obtain ⟨proper, changed⟩ := holds.proper.delete key
  exact ⟨root, _, by simp [Trie.tryDelete, deleted], ⟨rep, proper⟩, changed⟩

theorem isNil_iff : t.root.isNil = true ↔ tree = .nil := by
  rw [holds.rep.isNil_eq]
  cases tree <;> simp [Patricia.Tree.isNil]

theorem hashedOf (present : tree ≠ .nil) (commits : Bool) :
    Hashed.Of env t.db known commits true tree (t.root.hash env commits true) :=
  holds.rep.hashedOf (holds.proper.canonical present)

theorem hash (present : tree ≠ .nil) :
    t.hash env = .ok (rootHash env tree, { t with root := (t.root.hash env false true).cached }) := by
  have isNode : ¬ t.root.isNil = true := fun isNil => present (holds.isNil_iff.mp isNil)
  have hashed : (t.root.hash env false true).hashed = .hashNode (rootOf env tree) := (holds.hashedOf present false).hashed
  simp [Trie.hash, isNode, hashed, rootOf_eq]

omit holds

theorem hash_empty (holds : t.Holds env known .nil) : t.hash env = crash "interface conversion: interface is nil" := by
  simp [Trie.hash, holds.isNil_iff.mpr rfl]

theorem commitTo (holds : t.Holds env known tree) (present : tree ≠ .nil) : t.commitTo env = .ok (rootHash env tree,
      { t with root := (t.root.hash env true true).cached, batch := t.batch ++ (t.root.hash env true true).puts }) := by
  have isNode : ¬ t.root.isNil = true := fun isNil => present (holds.isNil_iff.mp isNil)
  have hashed : (t.root.hash env true true).hashed = .hashNode (rootOf env tree) := (holds.hashedOf present true).hashed
  simp [Trie.commitTo, isNode, hashed, uint256ParseFromBytes_eq_ok.mpr (rootOf_eq tree)]

theorem commitTo_empty (holds : t.Holds env known .nil) : t.commitTo env = .ok (emptyUint256, t) := by
  simp [Trie.commitTo, holds.isNil_iff.mpr rfl]

end Holds

namespace Access

def Valid : Access → Prop
  | .tryUpdate _ value => value ≠ []
  | _ => True

def after (m : Map) : Access → Map
  | .tryUpdate key value => Function.update m key (some value)
  | .tryDelete key => Function.update m key none
  | .tryGet _ => m

def answer (m : Map) : Access → Answer
  | .tryGet key => .value (m key)
  | _ => .done

end Access

theorem Holds.access (holds : t.Holds env known tree) (a : Access) :
    ∃ root tree', t.access a = .ok (a.answer (contents tree), { t with root }) ∧ Holds env known { t with root } tree' ∧
      contents tree' = a.after (contents tree) := by
  cases a with
  | tryUpdate key value =>
    obtain ⟨root, tree', updated, holds, changed⟩ := holds.tryUpdate key value
    exact ⟨root, tree', by simp [Trie.access, updated, Access.answer], holds, changed⟩
  | tryDelete key =>
    obtain ⟨root, tree', deleted, holds, changed⟩ := holds.tryDelete key
    exact ⟨root, tree', by simp [Trie.access, deleted, Access.answer], holds, changed⟩
  | tryGet key =>
    obtain ⟨root, got, holds⟩ := holds.tryGet key
    exact ⟨root, tree, by simp [Trie.access, got, Access.answer], holds, rfl⟩

namespace Call

def Valid : Call → Prop
  | .access a => a.Valid
  | _ => True

def after (m : Map) : Call → Map
  | .access a => a.after m
  | _ => m

end Call

def mapAfter (m : Map) (calls : List Call) : Map := calls.foldl Call.after m

def mapsAlong (m : Map) (calls : List Call) : List Map := calls.scanl Call.after m

theorem mapsAlong_cons (m : Map) (c : Call) (rest : List Call) : mapsAlong m (c :: rest) = m :: mapsAlong (c.after m) rest :=
  List.scanl_cons

theorem mapAfter_mem (m : Map) (calls : List Call) : mapAfter m calls ∈ mapsAlong m calls := by
  induction calls generalizing m with
  | nil => simp [mapAfter, mapsAlong]
  | cons c _ ih =>
    rw [mapsAlong_cons]
    exact List.mem_cons_of_mem _ (ih (c.after m))

theorem Filled.mapAfter {m : Map} {calls : List Call} (filled : Filled m) (valid : ∀ c ∈ calls, c.Valid) :
    Filled (mapAfter m calls) := by
  induction calls generalizing m with
  | nil => exact filled
  | cons c _ ih =>
    obtain ⟨first, rest⟩ := List.forall_mem_cons.mp valid
    refine ih (fun key value found => ?_) rest
    match c, found with
    | .access (.tryUpdate key' value'), found =>
      rw [Call.after, Access.after, Function.update_apply] at found
      split_ifs at found
      · exact Option.some.inj found ▸ first
      · exact filled key value found
    | .access (.tryDelete key'), found =>
      rw [Call.after, Access.after, Function.update_apply] at found
      split_ifs at found
      exact filled key value found
    | .access (.tryGet _), found | .hash, found | .commitTo, found | .batchCommit, found => exact filled key value found

/-- Every call of `Hash` in a run is made at a map that stands in a relation to the map that was opened or committed
last. -/
def HashCalls (p : Map → Map → Prop) : (saved m : Map) → List Call → Prop
  | _, _, [] => True
  | saved, m, .hash :: rest => p saved m ∧ HashCalls p saved m rest
  | _, m, .commitTo :: rest => HashCalls p m m rest
  | saved, m, .batchCommit :: rest => HashCalls p saved m rest
  | saved, m, .access a :: rest => HashCalls p saved (a.after m) rest

inductive Committed (env : Env) (db : Database) : Uint256 → Map → Prop
  | empty : Committed env db emptyUint256 fun _ => none
  | trie {tree : Tree} : Proper tree → Held env db tree → rootHash env tree ≠ emptyUint256 →
      Committed env db (rootHash env tree) (contents tree)

theorem Committed.filled {db : Database} {root : Uint256} {m : Map} (committed : Committed env db root m) : Filled m := by
  cases committed with
  | empty => exact fun _ _ found => by cases found
  | trie _ held => exact held.readable.contents_filled

theorem Committed.new {db : Database} {root : Uint256} {m : Map} (committed : Committed env db root m)
    (known : Tree → Prop) :
    ∃ n tree, Trie.new root db = .ok { root := n, db } ∧ Holds env known { root := n, db } tree ∧ contents tree = m ∧
      (tree ≠ .nil → Held env db tree) := by
  cases committed with
  | empty => exact ⟨.nil, .nil, by simp [Trie.new], ⟨.nil true, proper_nil⟩, rfl, absurd rfl⟩
  | @trie tree proper held nonzero =>
    refine ⟨(collapse env tree).decoded, tree, ?_, ⟨?_, proper⟩, rfl, fun _ => held⟩
    · simp [Trie.new, nonzero, ← rootOf_eq, held.resolveHash]
    · exact (Rep.decoded held.readable held.stored.below true).2 held.inner

def Reads (env : Env) (t : Trie) (m : Map) : Prop := ∃ tree, t.Holds env (fun _ => True) tree ∧ contents tree = m

theorem referred_true (t : Tree) : Referred env (fun _ => True) t := by
  induction t with
  | nil => trivial
  | value _ => trivial
  | short key t ih | full children ih => exact ⟨fun _ => trivial, ih⟩

variable {m : Map}

theorem Reads.hash (reads : t.Reads env m) (nonempty : m ≠ fun _ => none) :
    ∃ tree t', Proper tree ∧ contents tree = m ∧ tree ≠ .nil ∧ t.hash env = .ok (rootHash env tree, t') ∧ t'.Reads env m := by
  obtain ⟨tree, holds, rfl⟩ := reads
  have present : tree ≠ .nil := fun absent => nonempty (holds.proper.eq_nil_iff.mp absent)
  have cached := (holds.hashedOf present false).cached (fun _ _ => trivial) (referred_true tree) fun _ => trivial
  exact ⟨tree, _, holds.proper, rfl, present, holds.hash present, tree, ⟨cached, holds.proper⟩, rfl⟩

theorem Reads.hash_empty (reads : t.Reads env fun _ => none) : t.hash env = crash "interface conversion: interface is nil" := by
  obtain ⟨_, holds, empty⟩ := reads
  obtain rfl := holds.proper.eq_nil_iff.mpr empty
  exact holds.hash_empty

theorem Reads.commitTo (reads : t.Reads env m) :
    ∃ tree t', contents tree = m ∧ t.commitTo env = .ok (commitRoot env tree, t') ∧ t'.Holds env (fun _ => True) tree := by
  obtain ⟨tree, holds, rfl⟩ := reads
  by_cases absent : tree = .nil
  · subst absent
    exact ⟨_, _, rfl, holds.commitTo_empty, holds⟩
  · have cached := (holds.hashedOf absent true).cached (fun _ _ => trivial) (referred_true tree) fun _ => trivial
    exact ⟨tree, _, rfl, by rw [commitRoot_eq absent]; exact holds.commitTo absent, cached, holds.proper⟩

namespace Reads

theorem tryGet (reads : t.Reads env m) (key : Bytes) :
    ∃ root, t.tryGet key = .ok (m key, { t with root }) ∧ Reads env { t with root } m := by
  obtain ⟨tree, holds, rfl⟩ := reads
  obtain ⟨root, got, holds⟩ := holds.tryGet key
  exact ⟨root, got, tree, holds, rfl⟩

theorem tryUpdate (reads : t.Reads env m) (key value : Bytes) :
    ∃ root, t.tryUpdate key value = .ok { t with root } ∧ Reads env { t with root } (Function.update m key (some value)) := by
  obtain ⟨_, holds, rfl⟩ := reads
  obtain ⟨root, tree', updated, holds, changed⟩ := holds.tryUpdate key value
  exact ⟨root, updated, tree', holds, changed⟩

theorem tryDelete (reads : t.Reads env m) (key : Bytes) :
    ∃ root, t.tryDelete key = .ok { t with root } ∧ Reads env { t with root } (Function.update m key none) := by
  obtain ⟨_, holds, rfl⟩ := reads
  obtain ⟨root, tree', deleted, holds, changed⟩ := holds.tryDelete key
  exact ⟨root, deleted, tree', holds, changed⟩

end Reads

theorem Committed.reads {db : Database} {root : Uint256} (committed : Committed env db root m)
    (opened : Trie.new root db = .ok t) : t.Reads env m := by
  obtain ⟨_, tree, opened', holds, contents, -⟩ := committed.new fun _ => True
  obtain rfl := ok_unique opened opened'
  exact ⟨tree, holds, contents⟩

end Trie

end Nkn
