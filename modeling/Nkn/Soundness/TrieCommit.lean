import Nkn.Soundness.StateTrie

/-! # What a commit stores

`CommitTo` takes a remembered hash as a sign that the node is stored. `Hash` remembers hashes and stores nothing, so it is
to be called on a stored trie only. -/

namespace Nkn

open Go Outcome Trie Function List

namespace Trie

variable {env : Env} {db : Database} {batch puts : List (Bytes × Bytes)} {nodes : Set Bytes} {t : Trie}
  {tree savedTree : Tree} {known : Tree → Prop} {m : Map}

theorem written_eq (db : Database) (batch : List (Bytes × Bytes)) (key : Bytes) :
    ((∀ put ∈ batch, put.1 ≠ key) ∧ written db batch key = db key) ∨
      ∃ put ∈ batch, put.1 = key ∧ written db batch key = some put.2 := by
  induction batch generalizing db with
  | nil => exact .inl ⟨by simp, rfl⟩
  | cons first rest ih =>
    have unfolded : written db (first :: rest) = written (update db first.1 (some first.2)) rest := rfl
    rw [unfolded]
    rcases ih (update db first.1 (some first.2)) with ⟨absent, same⟩ | ⟨put, member, atKey, same⟩
    · by_cases here : first.1 = key
      · exact .inr ⟨first, mem_cons_self, here, by rw [same, here, update_self]⟩
      · exact .inl ⟨forall_mem_cons.mpr ⟨here, absent⟩, by rw [same, update_of_ne (Ne.symm here)]⟩
    · exact .inr ⟨put, mem_cons_of_mem _ member, atKey, same⟩

theorem has_of_written {e : Bytes} (has : Has env (written db batch) e) : Has env db e ∨ ∃ put ∈ batch, put.2 = e := by
  rcases written_eq db batch (sha256Key env e) with ⟨-, same⟩ | ⟨put, member, -, same⟩
  · exact .inl (same.symm.trans has)
  · exact .inr ⟨put, member, Option.mem_unique same has⟩

def Puts (env : Env) (nodes : Set Bytes) (batch : List (Bytes × Bytes)) : Prop :=
  ∀ put ∈ batch, put.1 = sha256Key env put.2 ∧ put.2 ∈ nodes

theorem has_written (isPuts : Puts env nodes batch) (free : Set.InjOn (sha256Key env) nodes) {e : Bytes}
    (inside : e ∈ nodes) (had : Has env db e ∨ ∃ put ∈ batch, put.2 = e) : Has env (written db batch) e := by
  rcases written_eq db batch (sha256Key env e) with ⟨absent, same⟩ | ⟨put, member, atKey, same⟩
  · rcases had with has | ⟨put, member, rfl⟩
    · exact same.trans has
    · exact absurd (isPuts put member).1 (absent put member)
  · obtain ⟨hash, inside'⟩ := isPuts put member
    have sameEncoding : put.2 = e := free inside' inside (hash.symm.trans atKey)
    exact same.trans (congrArg some sameEncoding)

theorem written_append (db : Database) (batch puts : List (Bytes × Bytes)) :
    written db (batch ++ puts) = written (written db batch) puts := foldl_append

theorem Stored.referred (kept : Kept env db tree) : Referred env (Stored env db) tree := by
  induction tree with
  | nil => trivial
  | value _ => trivial
  | short _ _ ih => exact ⟨fun large => ⟨kept.1 large, kept⟩, ih kept.2⟩
  | full _ ih => exact ⟨fun large => ⟨kept.1 large, kept⟩, fun i => ih i (kept.2 i)⟩

def view (t : Trie) : Database := written t.db t.batch

/-- Every remembered hash is that of a trie in the database or in the batch, and so is the trie that was opened or
committed last. -/
structure Saved (env : Env) (nodes : Set Bytes) (t : Trie) (tree savedTree : Tree) : Prop where
  holds : t.Holds env (Stored env t.view) tree
  more : ∀ e, Has env t.db e → Has env t.view e
  within : ∀ e, Has env t.view e → e ∈ nodes
  proper : Proper savedTree
  saved : savedTree ≠ .nil → Stored env t.view savedTree

namespace Saved

theorem access (saved : Saved env nodes t tree savedTree) (a : Access) :
    ∃ answer t' tree', t.access a = .ok (answer, t') ∧ Saved env nodes t' tree' savedTree ∧
      contents tree' = a.after (contents tree) := by
  obtain ⟨_, tree', answered, holds, changed⟩ := saved.holds.access a
  exact ⟨_, _, tree', answered, ⟨holds, saved.more, saved.within, saved.proper, saved.saved⟩, changed⟩

theorem hash (saved : Saved env nodes t tree tree) (present : tree ≠ .nil) :
    ∃ t', t.hash env = .ok (rootHash env tree, t') ∧ Saved env nodes t' tree tree := by
  have stored := saved.saved present
  have cached := (saved.holds.hashedOf present false).cached (fun _ => id) (Stored.referred stored.below) fun _ => stored
  exact ⟨_, saved.holds.hash present, ⟨cached, saved.holds.proper⟩, saved.more, saved.within, saved.proper, saved.saved⟩

theorem batchCommit (saved : Saved env nodes t tree savedTree) : Saved env nodes t.batchCommit tree savedTree where
  holds := ⟨saved.holds.rep.grow saved.more, saved.holds.proper⟩
  more _ has := has
  within := saved.within
  proper := saved.proper
  saved := saved.saved

theorem commitTo (saved : Saved env nodes t tree savedTree) (free : Set.InjOn (sha256Key env) nodes)
    (inside : encodings env tree ⊆ nodes) :
    ∃ t', t.commitTo env = .ok (commitRoot env tree, t') ∧ Saved env nodes t' tree tree := by
  by_cases absent : tree = .nil
  · subst absent
    exact ⟨t, saved.holds.commitTo_empty, saved.holds, saved.more, saved.within, proper_nil, absurd rfl⟩
  · have of := saved.holds.hashedOf absent true
    rw [commitRoot_eq absent]
    refine ⟨_, saved.holds.commitTo absent, ?_⟩
    generalize t.root.hash env true true = h at of
    have isPuts : Puts env nodes h.puts := fun put member => ⟨(of.puts put member).1, inside (of.puts put member).2⟩
    have view_eq (root : Node) : view { t with root, batch := t.batch ++ h.puts } = written t.view h.puts :=
      written_append t.db t.batch h.puts
    have grows (e : Bytes) (has : Has env t.view e) : Has env (written t.view h.puts) e :=
      has_written isPuts free (saved.within e has) (.inl has)
    have known (u : Tree) (stored : Stored env t.view u) : Stored env (written t.view h.puts) u := stored.mono grows
    have put (put : Bytes × Bytes) (member : put ∈ h.puts) : written t.view h.puts put.1 = some put.2 := by
      rw [(isPuts put member).1]
      exact has_written isPuts free (isPuts put member).2 (.inr ⟨put, member, rfl⟩)
    obtain ⟨kept, top⟩ := of.kept rfl (fun e has => grows e (saved.more e has)) known put
    have stored : Stored env (written t.view h.puts) tree := ⟨top rfl, kept⟩
    have cached := of.cached known (Stored.referred kept) fun _ => stored
    refine ⟨⟨?_, saved.holds.proper⟩, fun e has => ?_, fun e has => ?_, saved.holds.proper, fun _ => ?_⟩
    · rw [view_eq]
      exact cached
    · rw [view_eq]
      exact grows e (saved.more e has)
    · rw [view_eq] at has
      rcases has_of_written has with has | ⟨put, member, rfl⟩
      · exact saved.within e has
      · exact (isPuts put member).2
    · rw [view_eq]
      exact stored

end Saved

variable {calls : List Call}

theorem Saved.run (saved : Saved env nodes t tree savedTree) 
    (hashes : HashCalls (fun saved m => m = saved ∧ m ≠ fun _ => none) (contents savedTree) (contents tree) calls)
    (free : Set.InjOn (sha256Key env) nodes) (along : ∀ m ∈ mapsAlong (contents tree) calls, nodesOf env m ⊆ nodes) :
    ∃ answers t' tree' savedTree', t.run env calls = .ok (answers, t') ∧ Saved env nodes t' tree' savedTree' ∧
      contents tree' = mapAfter (contents tree) calls := by
  induction calls generalizing t tree savedTree with
  | nil => exact ⟨[], t, tree, savedTree, rfl, saved, rfl⟩
  | cons c rest ih =>
    rw [mapsAlong_cons] at along
    obtain ⟨alongFirst, alongRest⟩ := forall_mem_cons.mp along
    -- one call, and what is left to show about the rest of the run
    suffices step : ∃ answer t' tree' savedTree', t.call env c = .ok (answer, t') ∧ Saved env nodes t' tree' savedTree' ∧
        contents tree' = c.after (contents tree) ∧
        HashCalls (fun saved m => m = saved ∧ m ≠ fun _ => none) (contents savedTree') (contents tree') rest by
      obtain ⟨answer, _, _, _, called, saved, changed, hashes⟩ := step
      rw [← changed] at alongRest
      obtain ⟨answers, last, lastTree, lastSaved, ran, saved, contents⟩ := ih saved hashes alongRest
      refine ⟨answer :: answers, last, lastTree, lastSaved, by simp [Trie.run, called, ran], saved, ?_⟩
      rw [contents, changed]
      rfl
    cases c with
    | access a =>
      obtain ⟨answer, t', tree', answered, saved, changed⟩ := saved.access a
      exact ⟨answer, t', tree', savedTree, answered, saved, changed, changed ▸ hashes⟩
    | hash =>
      obtain ⟨⟨same, nonempty⟩, hashes⟩ := hashes
      obtain rfl := saved.holds.proper.ext saved.proper same
      obtain ⟨t', hashed, saved⟩ := saved.hash fun absent => nonempty (saved.proper.eq_nil_iff.mp absent)
      exact ⟨_, t', tree, tree, by simp [Trie.call, hashed]; rfl, saved, rfl, hashes⟩
    | commitTo =>
      have inside := saved.holds.proper.encodings_subset.trans alongFirst
      obtain ⟨t', committed, saved⟩ := saved.commitTo free inside
      exact ⟨_, t', tree, tree, by simp [Trie.call, committed]; rfl, saved, rfl, hashes⟩
    | batchCommit => exact ⟨_, _, tree, savedTree, rfl, saved.batchCommit, rfl, hashes⟩

/-- What is hashed in a run: the nodes in the database and those of the tries that the run goes through. -/
def nodesAlong (env : Env) (db : Database) (m : Map) (calls : List Call) : Set Bytes :=
  { e | Has env db e ∨ ∃ m' ∈ mapsAlong m calls, e ∈ nodesOf env m' }

theorem hashCalls_of_unhashed {p : Map → Map → Prop} {saved : Map} (unhashed : .hash ∉ calls) :
    HashCalls p saved m calls := by
  induction calls generalizing saved m with
  | nil => trivial
  | cons c rest ih =>
    obtain ⟨other, rest⟩ := not_or.mp (mt mem_cons.mpr unhashed)
    cases c with
    | hash => exact absurd rfl other
    | _ => exact ih rest

theorem mapAfter_unhashed (m : Map) (calls : List Call) : mapAfter m (calls.filter (· ≠ .hash)) = mapAfter m calls := by
  unfold mapAfter
  induction calls generalizing m with
  | nil => rfl
  | cons c _ ih =>
    by_cases isHash : c = .hash
    · simpa [isHash, Call.after] using ih m
    · simpa [isHash] using ih (c.after m)

theorem mapsAlong_unhashed {m' : Map} (member : m' ∈ mapsAlong m (calls.filter (· ≠ .hash))) :
    m' ∈ mapsAlong m calls := by
  induction calls generalizing m with
  | nil => exact member
  | cons c _ ih =>
    rw [mapsAlong_cons]
    by_cases isHash : c = .hash
    · subst isHash
      simp only [ne_eq, not_true_eq_false, decide_false, Bool.false_eq_true, not_false_eq_true, filter_cons_of_neg]
        at member
      exact mem_cons_of_mem _ (ih member)
    · simp only [ne_eq, isHash, not_false_eq_true, decide_true, filter_cons_of_pos, mapsAlong_cons] at member
      rcases mem_cons.mp member with rfl | member
      · exact mem_cons_self
      · exact mem_cons_of_mem _ (ih member)

theorem HashCalls.and_nonempty {saved : Map} (hashes : HashCalls (fun saved m => m = saved) saved m calls)
    (nonempty : ∀ m' ∈ mapsAlong m calls, m' ≠ fun _ => none) :
    HashCalls (fun saved m => m = saved ∧ m ≠ fun _ => none) saved m calls := by
  induction calls generalizing saved m with
  | nil => trivial
  | cons c _ ih =>
    rw [mapsAlong_cons] at nonempty
    obtain ⟨first, nonempty⟩ := forall_mem_cons.mp nonempty
    cases c with
    | hash => exact ⟨⟨hashes.1, first⟩, ih hashes.2 nonempty⟩
    | _ => exact ih hashes nonempty

variable {root : Uint256}

theorem Committed.saved (committed : Committed env db root m) (inside : ∀ e, Has env db e → e ∈ nodes) :
    ∃ t tree, Trie.new root db = .ok t ∧ Saved env nodes t tree tree ∧ contents tree = m := by
  obtain ⟨_, tree, opened, holds, contents, held⟩ := committed.new (Stored env db)
  exact ⟨_, tree, opened, ⟨holds, fun _ => id, inside, holds.proper, fun present => (held present).stored⟩, contents⟩

inductive Node.Refers : Node → Bytes → Prop
  | hashNode (h : Bytes) : Refers (.hashNode h) h
  | shortNode {key : Key} {val : Node} {flags : NodeFlag} {h : Bytes} : Refers val h → Refers (.shortNode key val flags) h
  | fullNode {children : Nibble → Node} {flags : NodeFlag} {h : Bytes} (i : Nibble) : Refers (children i) h →
      Refers (.fullNode children flags) h

inductive Reachable (db : Database) (root : Bytes) : Bytes → Prop
  | root : Reachable db root root
  | child {h h' encoding : Bytes} {n : Node} : Reachable db root h → db h = some encoding →
      mustDecodeNode encoding = .ok n → n.Refers h' → Reachable db root h'

theorem Rep.refers {root : Bool} {n : Node} {h : Bytes} (rep : Rep env db known root n tree) (refers : n.Refers h) :
    ∃ u, Held env db u ∧ h = rootOf env u := by
  induction rep with
  | nil => cases refers
  | value => cases refers
  | short _ _ ih =>
    cases refers with
    | shortNode refers => exact ih refers
  | full _ _ ih =>
    cases refers with
    | fullNode i refers => exact ih i refers
  | @hash _ tree held large =>
    cases refers
    exact ⟨tree, held, rfl⟩

theorem Held.reachable (held : Held env db tree) {h : Bytes} (reachable : Reachable db (rootOf env tree) h) :
    ∃ u, Held env db u ∧ h = rootOf env u := by
  induction reachable with
  | root => exact ⟨tree, held, rfl⟩
  | @child h h' encoding n reachable found decoded refers ih =>
    obtain ⟨u, held, rfl⟩ := ih
    have stored : db (rootOf env u) = some (encode env u) := held.stored.root
    obtain rfl := Option.mem_unique stored found
    obtain rfl := ok_unique (mustDecodeNode_serialize held.readable.writable) decoded
    have rep : Rep env db (fun _ => True) true (collapse env u).decoded u :=
      (Rep.decoded held.readable held.stored.below true).2 held.inner
    exact rep.refers refers

structure Durable (db : Database) (root : Uint256) (m : Map) : Prop where
  opens : ∃ t, Trie.new root db = .ok t ∧ ∀ key, ∃ t', t.tryGet key = .ok (m key, t')
  complete : (m ≠ fun _ => none) → ∀ h, Reachable db root.toArray h → (db h).isSome

theorem Committed.durable (committed : Committed env db root m) : Durable db root m where
  opens := by
    obtain ⟨_, tree, opened, holds, rfl, -⟩ := committed.new fun _ => True
    refine ⟨_, opened, fun key => ?_⟩
    obtain ⟨root, got, -⟩ := holds.tryGet key
    exact ⟨_, got⟩
  complete nonempty h reachable := by
    cases committed with
    | empty => exact absurd rfl nonempty
    | @trie tree proper held nonzero =>
      obtain ⟨u, held, rfl⟩ := held.reachable reachable
      have stored : db (rootOf env u) = some (encode env u) := held.stored.root
      simp [stored]

/-- What a commit after a run of calls returns, and what it leaves in the database once its batch is written. -/
def Commits (env : Env) (t : Trie) (calls : List Call) (root : Uint256) (db : Database) : Prop :=
  ∃ answers t' t'', t.run env calls = .ok (answers, t') ∧ t'.commitTo env = .ok (root, t'') ∧ t''.batchCommit.db = db

theorem Committed.commits (committed : Committed env db root m)
    (valid : ∀ c ∈ calls, c.Valid) (hashes : HashCalls (fun saved m => m = saved ∧ m ≠ fun _ => none) m m calls)
    (free : Set.InjOn (sha256Key env) (nodesAlong env db m calls))
    (nonzero : ∀ e ∈ nodesOf env (mapAfter m calls), sha256Key env e ≠ emptyUint256.toArray)
    (sized : Sized (mapAfter m calls)) :
    ∃ t tree db', Trie.new root db = .ok t ∧ Proper tree ∧ contents tree = mapAfter m calls ∧
      Commits env t calls (commitRoot env tree) db' ∧ Committed env db' (commitRoot env tree) (mapAfter m calls) := by
  have filled := committed.filled.mapAfter valid
  obtain ⟨t, tree, opened, saved, rfl⟩ := committed.saved fun e has => (.inl has : e ∈ nodesAlong env db m calls)
  have along (m' : Map) (member : m' ∈ mapsAlong (contents tree) calls) :
      nodesOf env m' ⊆ nodesAlong env db (contents tree) calls := fun e inside => .inr ⟨m', member, inside⟩
  obtain ⟨answers, t', tree', _, ran, saved, contents⟩ := saved.run hashes free along
  rw [← contents] at filled nonzero sized ⊢
  have proper := saved.holds.proper
  have inside : encodings env tree' ⊆ nodesAlong env db _ calls :=
    proper.encodings_subset.trans (along _ (contents ▸ mapAfter_mem _ calls))
  obtain ⟨t'', committed, saved⟩ := saved.commitTo free inside
  refine ⟨t, tree', t''.view, opened, proper, rfl, ⟨answers, t', t'', ran, committed, rfl⟩, ?_⟩
  by_cases absent : tree' = .nil
  · subst absent
    exact .empty
  · have inner := (proper.canonical absent).inner
    rw [commitRoot_eq absent]
    refine .trie proper ⟨inner, proper.readable filled sized, saved.saved absent⟩ fun zero => ?_
    exact nonzero _ (proper.encodings_subset (mem_encodings inner)) (congrArg Word.toArray zero)

end Trie

/-- A commit after a run without `Hash` is durable: once its batch is written, the returned root opens the map at the end
of the run, and every node that is reachable from it is in the database. -/
theorem commit_durable {env : Env} {db : Database} {root : Uint256} {m : Map} (committed : Committed env db root m)
    {calls : List Call} (valid : ∀ c ∈ calls, c.Valid) (unhashed : .hash ∉ calls)
    (free : Set.InjOn (sha256Key env) (nodesAlong env db m calls))
    (nonzero : ∀ e ∈ nodesOf env (mapAfter m calls), sha256Key env e ≠ emptyUint256.toArray)
    (sized : Sized (mapAfter m calls)) :
    ∃ t root' db', Trie.new root db = .ok t ∧ Commits env t calls root' db' ∧
      Committed env db' root' (mapAfter m calls) ∧ Durable db' root' (mapAfter m calls) := by
  obtain ⟨t, tree, db', opened, -, -, commits, committed⟩ := committed.commits valid (hashCalls_of_unhashed unhashed) free
    nonzero sized
  exact ⟨t, _, db', opened, commits, committed, committed.durable⟩

namespace OneEntry

theorem nodesOf_subset : nodesOf env (contents tree) ⊆ {encoding} := by
  rintro e ⟨_, proper', same, member⟩
  obtain rfl := proper'.ext proper same
  rcases member with rfl | absent
  · exact (by decide : encode env tree = encoding)
  · exact absent.elim

theorem nodesOf_empty : nodesOf env (fun _ => none) = ∅ := by
  refine Set.eq_empty_of_forall_notMem ?_
  rintro e ⟨_, proper', empty, member⟩
  obtain rfl := proper'.eq_nil_iff.mpr empty
  exact member

theorem sized : Sized (contents tree) := by
  intro key value found
  have found : contents (Patricia.Tree.nil.insert (keyBytesToHex [97]) (.value [98])) key = some value := found
  rw [(proper_nil.insert [97] [98]).2] at found
  by_cases same : key = [97]
  · subst same
    rw [update_self] at found
    obtain rfl := Option.some.inj found
    decide
  · rw [update_of_ne same] at found
    cases found

theorem nonzero : ∀ e ∈ nodesOf env (contents tree), sha256Key env e ≠ emptyUint256.toArray := by
  intro e member
  obtain rfl := nodesOf_subset member
  decide +kernel

/-- The entry is written into an empty trie. -/
theorem commit_durable_oneEntry : ∃ t root' db', Trie.new emptyUint256 (fun _ => none) = .ok t ∧
      Commits env t [.access (.tryUpdate [97] [98]), .access (.tryGet [97])] root' db' ∧
      Committed env db' root' (contents tree) ∧ Durable db' root' (contents tree) := by
  have built : mapAfter (fun _ => none) [.access (.tryUpdate [97] [98]), .access (.tryGet [97])] = contents tree :=
    (proper_nil.insert [97] [98]).2.symm
  have along : ∀ m ∈ mapsAlong (fun _ => none) [.access (.tryUpdate [97] [98]), .access (.tryGet [97])],
      m = (fun _ => none) ∨ m = mapAfter (fun _ => none) [.access (.tryUpdate [97] [98]), .access (.tryGet [97])] := by
    simp [mapsAlong, mapAfter, Call.after, Access.after]
  have one : nodesAlong env (fun _ => none) (fun _ => none)
      [.access (.tryUpdate [97] [98]), .access (.tryGet [97])] ⊆ {encoding} := by
    rintro e (absent | ⟨m, member, inside⟩)
    · cases absent
    · rcases along m member with rfl | rfl
      · exact absurd inside (by simp [nodesOf_empty])
      · exact nodesOf_subset (built ▸ inside)
  rw [← built]
  exact commit_durable .empty (by simp [Call.Valid, Access.Valid]) (by simp)
    ((Set.subsingleton_singleton.anti one).injOn _) (by rw [built]; exact nonzero) (by rw [built]; exact sized)

end OneEntry

/-- Calls of `Hash` on the map that was opened or committed last do not change what a later commit returns, and leave no
node out of the database. -/
theorem hash_transparent {env : Env} {db : Database} {root : Uint256} {m : Map} (committed : Committed env db root m)
    {calls : List Call} (valid : ∀ c ∈ calls, c.Valid) (nonempty : ∀ m' ∈ mapsAlong m calls, m' ≠ fun _ => none)
    (saved : HashCalls (fun saved m => m = saved) m m calls)
    (free : Set.InjOn (sha256Key env) (nodesAlong env db m calls))
    (nonzero : ∀ e ∈ nodesOf env (mapAfter m calls), sha256Key env e ≠ emptyUint256.toArray)
    (sized : Sized (mapAfter m calls)) :
    ∃ t root' db' db'', Trie.new root db = .ok t ∧
      Commits env t calls root' db' ∧ Durable db' root' (mapAfter m calls) ∧
      Commits env t (calls.filter (· ≠ .hash)) root' db'' ∧ Durable db'' root' (mapAfter m calls) := by
  obtain ⟨t, tree, db', opened, proper, contents, commits, durable⟩ :=
    committed.commits valid (saved.and_nonempty nonempty) free nonzero sized
  have unhashed := mapAfter_unhashed m calls
  have free : Set.InjOn (sha256Key env) (nodesAlong env db m (calls.filter (· ≠ .hash))) :=
    free.mono fun e inside => inside.imp id fun ⟨m', member, inside⟩ => ⟨m', mapsAlong_unhashed member, inside⟩
  obtain ⟨t', tree', db'', opened', proper', contents', commits', durable'⟩ :=
    committed.commits (fun c member => valid c (List.mem_of_mem_filter member)) (hashCalls_of_unhashed (by simp)) free
      (by rwa [unhashed]) (by rwa [unhashed])
  obtain rfl := ok_unique opened opened'
  obtain rfl := proper.ext proper' (contents.trans (unhashed.symm.trans contents'.symm))
  exact ⟨t, _, db', db'', opened, commits, durable.durable, commits', unhashed ▸ durable'.durable⟩

namespace OneEntry

/-- `Hash` before an update of the committed trie. -/
theorem hash_transparent_oneEntry : ∃ t root' db' db'', Trie.new root db = .ok t ∧
      Commits env t [.hash, .access (.tryUpdate [97] [98])] root' db' ∧ Durable db' root' (contents tree) ∧
      Commits env t [.access (.tryUpdate [97] [98])] root' db'' ∧ Durable db'' root' (contents tree) := by
  have nonempty : contents tree ≠ fun _ => none := fun empty => by cases congrFun empty [97]
  have same : mapAfter (contents tree) [.hash, .access (.tryUpdate [97] [98])] = contents tree :=
    Function.update_eq_self_iff.mpr rfl
  have along : ∀ m ∈ mapsAlong (contents tree) [.hash, .access (.tryUpdate [97] [98])], m = contents tree := by
    simp [mapsAlong, Call.after, Access.after]
    rfl
  have one : nodesAlong env db (contents tree) [.hash, .access (.tryUpdate [97] [98])] ⊆ {encoding} := by
    rintro e (has | ⟨m, member, inside⟩)
    · unfold Has db at has
      split_ifs at has
      exact (Option.some.inj has).symm
    · exact nodesOf_subset (along m member ▸ inside)
  have commits := hash_transparent committed (by simp [Call.Valid, Access.Valid]) (fun m member => along m member ▸ nonempty)
    ⟨rfl, trivial⟩ ((Set.subsingleton_singleton.anti one).injOn _) (by rw [same]; exact nonzero)
    (by rw [same]; exact sized)
  rwa [same] at commits

/-- A hash between an update and the commit: the commit returns the root of the trie and puts nothing, so that the root
cannot be opened. -/
theorem hash_before_commit : (do
      let t ← Trie.new emptyUint256 fun _ => none
      let (_, t) ← t.run env [.access (.tryUpdate [97] [98]), .hash]
      let (root, t) ← t.commitTo env
      .ok (root, t.batch)) = Except.ok (root, []) ∧
    (do
      let t ← Trie.new emptyUint256 fun _ => none
      let (_, t) ← t.run env [.access (.tryUpdate [97] [98])]
      let (root, t) ← t.commitTo env
      .ok (root, t.batch)) = Except.ok (root, [(root.toArray, encoding)]) ∧
    (do
      let _ ← Trie.new root fun _ => none
      .ok ()) = fail "leveldb: not found" := by
  decide +kernel

end OneEntry

end Nkn
