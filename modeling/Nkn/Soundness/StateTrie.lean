import Nkn.Soundness.Concrete
import Nkn.Proofs.TrieRun

/-! # The state trie is a map

Runs of calls on a trie that is opened at a committed root: what they read, the form of the nodes, and the final hash. -/

namespace Nkn

open Go Outcome Trie

namespace Trie

variable {env : Env} {known known' : Tree → Prop} {db : Database} {tree tree' : Tree} {t : Trie} {m : Map}

/-- The nodes of a trie, with those that have not been read: the value of a short node is present and no short node, and
a full node has two children. -/
inductive Node.WellFormed (db : Database) : Node → Prop
  | nil : WellFormed db .nil
  | valueNode (v : Bytes) : WellFormed db (.valueNode v)
  | shortNode {key : Key} {val val' : Node} {flags : NodeFlag} : WellFormed db val → val.resolve db = .ok val' →
      (∀ key' v flags', val' ≠ .shortNode key' v flags') → val' ≠ .nil → WellFormed db (.shortNode key val flags)
  | fullNode {children : Nibble → Node} {flags : NodeFlag} {i j : Nibble} : (∀ i, WellFormed db (children i)) →
      i ≠ j → children i ≠ .nil → children j ≠ .nil → WellFormed db (.fullNode children flags)
  | hashNode {h : Bytes} {n : Node} : Node.resolveHash db h = .ok n → WellFormed db n → WellFormed db (.hashNode h)

theorem Rep.wellFormed {root : Bool} {n : Node} (rep : Rep env db known root n tree)
    (placed : tree = .nil ∨ (∃ v, tree = .value v) ∨ Canonical tree) : n.WellFormed db := by
  have of_read {root : Bool} {n : Node} {tree : Tree} (rep : Rep env db known root n tree)
      (read : ∀ {root : Bool} {n : Node}, Rep env db known root n tree → (∀ h, n ≠ .hashNode h) → n.WellFormed db) :
      n.WellFormed db := by
    by_cases isHash : ∃ h, n = .hashNode h
    · obtain ⟨h, rfl⟩ := isHash
      obtain ⟨_, resolved, rep, other⟩ := rep.resolve
      exact .hashNode resolved (read rep other)
    · exact read rep fun h same => isHash ⟨h, same⟩
  induction tree generalizing root n with
  | nil => exact rep.eq_nil ▸ .nil
  | value v => exact rep.eq_value ▸ .valueNode v
  | short _ _ ih =>
    refine of_read rep fun {root n} rep other => ?_
    obtain canonical := (placed.resolve_left (by simp)).resolve_left (by simp)
    cases rep with
    | hash => exact absurd rfl (other _)
    | @short _ _ val flags _ below flagsOk =>
      obtain ⟨_, resolved, below', _⟩ := below.resolve
      cases canonical with
      | leaf =>
        obtain rfl := below'.eq_value
        exact .shortNode (ih below (.inr (.inl ⟨_, rfl⟩))) resolved (by simp) (by simp)
      | extension _ _ canonical =>
        refine .shortNode (ih below (.inr (.inr canonical))) resolved ?_ ?_ <;> cases below' <;> simp
  | full trees ih =>
    refine of_read rep fun {root n} rep other => ?_
    obtain canonical := (placed.resolve_left (by simp)).resolve_left (by simp)
    cases rep with
    | hash => exact absurd rfl (other _)
    | @full _ children flags _ reps flagsOk =>
      have below (i : Nibble) : (children i).WellFormed db := by
        refine ih i (reps i) ?_
        rcases canonical.child i with absent | ⟨-, value⟩ | ⟨-, canonical⟩
        · exact .inl absent
        · exact .inr (.inl value)
        · exact .inr (.inr canonical)
      have present {i : Nibble} (present : trees i ≠ .nil) : children i ≠ .nil := by
        intro absent
        have rep := reps i
        rw [absent] at rep
        generalize trees i = tree at rep present
        cases rep
        exact present rfl
      cases canonical with
      | branch _ _ two =>
        obtain ⟨_, _, differ, atI, atJ⟩ := two
        exact .fullNode below differ (present atI) (present atJ)

theorem Holds.wellFormed (holds : t.Holds env known tree) : t.root.WellFormed t.db := by
  refine holds.rep.wellFormed ?_
  rcases holds.proper.rooted with absent | canonical
  · exact .inl absent
  · exact .inr (.inr canonical)

def answers (m : Map) : List Access → List Answer
  | [] => []
  | a :: rest => a.answer m :: answers (a.after m) rest

theorem Holds.accesses (holds : t.Holds env known tree) (accesses : List Access) :
    ∃ root tree', t.run env (accesses.map .access) = .ok (answers (contents tree) accesses, { t with root }) ∧
      Holds env known { t with root } tree' := by
  induction accesses generalizing t tree with
  | nil => exact ⟨t.root, tree, rfl, holds⟩
  | cons a _ ih =>
    obtain ⟨_, _, answered, holds, changed⟩ := holds.access a
    obtain ⟨root', tree'', ran, holds⟩ := ih holds
    refine ⟨root', tree'', ?_, holds⟩
    simp [Trie.run, Trie.call, answered, ran, answers, changed]

end Trie

/-- A trie that is opened at a committed root answers every run of accesses as the map that was committed there, and its
nodes are well formed at the end of each run. -/
theorem trie_refines_map {env : Env} {db : Database} {root : Uint256} {m : Map} (committed : Committed env db root m)
    (accesses : List Access) :
    ∃ t t', Trie.new root db = .ok t ∧ t.run env (accesses.map .access) = .ok (answers m accesses, t') ∧
      t'.db = db ∧ t'.root.WellFormed db := by
  obtain ⟨n, tree, opened, holds, rfl, -⟩ := committed.new fun _ => True
  obtain ⟨n', tree', ran, holds⟩ := holds.accesses accesses
  exact ⟨_, _, opened, ran, rfl, holds.wellFormed⟩

namespace OneEntry

def encoding : Bytes := [2, 2, 32, 97, 1, 1, 98]

def root : Uint256 := Word.ofNat 32 0x1ee49895c6a156566422dde82b327774ddcc79d774114a4d3527eead25f118ef

def env : Env := Tables.env {
  sha256 := Tables.hashedTwice encoding
    (Word.ofNat 32 0x22ddada6da8133b9de5ea922a0b3a305bb13b7be674c4ffaf3484459b2c5ce9e) root }

def db : Database := fun key => if key = root.toArray then some encoding else none

def tree : Tree := .short [6, 1, 16] (.value [98])

theorem proper : Proper tree := (proper_nil.insert [97] [98]).1

theorem leaf : (rootHash env tree = root ∧ root ≠ emptyUint256) ∧
    db (sha256Key env (encode env tree)) = some (encode env tree) := by
  decide +kernel

theorem held : Held env db tree where
  inner := trivial
  readable := ⟨⟨[6, 1], by decide, .inr rfl⟩, by decide, by decide, by decide⟩
  stored := ⟨leaf.2, fun large => absurd large (by decide), trivial⟩

theorem committed : Committed env db root (contents tree) :=
  have ⟨⟨rootHash_eq, nonempty⟩, _⟩ := leaf
  rootHash_eq ▸ Committed.trie proper held (rootHash_eq ▸ nonempty)

theorem trie_refines_map_oneEntry : ∃ t t', Trie.new root db = .ok t ∧
      t.run env (List.map .access [.tryGet [97], .tryUpdate [97, 98] [99], .tryDelete [97], .tryGet [97, 98], .tryGet [97]]) =
        .ok ([.value (some [98]), .done, .done, .value (some [99]), .value none], t') ∧
      t'.db = db ∧ t'.root.WellFormed db :=
  trie_refines_map committed _

end OneEntry

namespace Trie

variable {env : Env} {t : Trie} {m : Map}

theorem Reads.call (reads : t.Reads env m) {c : Call} (other : c ≠ .batchCommit) :
    (∃ answer t', t.call env c = .ok (answer, t') ∧ t'.Reads env (c.after m)) ∧ (c = .hash → m ≠ fun _ => none) ∨
      (∃ text, t.call env c = crash text) ∧ c = .hash ∧ m = fun _ => none := by
  cases c with
  | access a =>
    obtain ⟨tree, holds, rfl⟩ := reads
    obtain ⟨_, tree', answered, holds, changed⟩ := holds.access a
    exact .inl ⟨⟨_, _, answered, tree', holds, changed⟩, by simp⟩
  | hash =>
    by_cases empty : m = fun _ => none
    · subst empty
      exact .inr ⟨⟨_, by simp [Trie.call, reads.hash_empty]; rfl⟩, rfl, rfl⟩
    · obtain ⟨tree, t', -, -, -, hashed, reads⟩ := reads.hash empty
      exact .inl ⟨⟨_, t', by simp [Trie.call, hashed]; rfl, reads⟩, fun _ => empty⟩
  | commitTo =>
    obtain ⟨tree, t', contents, committed, holds⟩ := reads.commitTo
    exact .inl ⟨⟨_, t', by simp [Trie.call, committed]; rfl, tree, holds, contents⟩, by simp⟩
  | batchCommit => exact absurd rfl other

theorem Reads.run (reads : t.Reads env m) {calls : List Call} (unwritten : .batchCommit ∉ calls) {answers : List Answer} {t' : Trie} (ran : t.run env calls = .ok (answers, t')) :
    t'.Reads env (mapAfter m calls) := by
  induction calls generalizing t m answers with
  | nil =>
    obtain ⟨rfl, rfl⟩ := Prod.mk.inj (Except.ok.inj ran)
    exact reads
  | cons _ _ ih =>
    obtain ⟨other, unwrittenRest⟩ := not_or.mp (mt List.mem_cons.mpr unwritten)
    rw [Trie.run, bind_eq_ok] at ran
    obtain ⟨⟨_, _⟩, called, ran⟩ := ran
    rw [bind_eq_ok] at ran
    obtain ⟨⟨_, _⟩, ran, ends⟩ := ran
    obtain ⟨-, rfl⟩ := Prod.mk.inj (Except.ok.inj ends)
    rcases reads.call (Ne.symm other) with ⟨⟨_, _, returned, reads⟩, -⟩ | ⟨⟨_, crashed⟩, -⟩
    · rw [returned] at called
      obtain ⟨-, rfl⟩ := Prod.mk.inj (Except.ok.inj called)
      exact ih reads unwrittenRest ran
    · rw [crashed] at called
      cases called

theorem Reads.run_returns_iff (reads : t.Reads env m) {calls : List Call} (unwritten : .batchCommit ∉ calls)
    (saved : Map) :
    (∃ result, t.run env calls = .ok result) ↔ HashCalls (fun _ m => m ≠ fun _ => none) saved m calls := by
  induction calls generalizing t m saved with
  | nil => exact ⟨fun _ => trivial, fun _ => ⟨_, rfl⟩⟩
  | cons c rest ih =>
    obtain ⟨other, unwrittenRest⟩ := not_or.mp (mt List.mem_cons.mpr unwritten)
    rcases reads.call (Ne.symm other) with ⟨⟨answer, next, returned, reads⟩, nonempty⟩ | ⟨⟨_, crashed⟩, rfl, rfl⟩
    · have continues : (∃ result, t.run env (c :: rest) = .ok result) ↔ ∃ result, next.run env rest = .ok result := by
        rw [Trie.run, returned, ok_bind]
        constructor
        · rintro ⟨result, ran⟩
          obtain ⟨result', ran, -⟩ := bind_eq_ok.mp ran
          exact ⟨result', ran⟩
        · rintro ⟨⟨answers, last⟩, ran⟩
          exact ⟨(answer :: answers, last), by simp [ran]⟩
      rw [continues]
      cases c with
      | access _ => exact ih reads unwrittenRest saved
      | hash => exact (ih reads unwrittenRest saved).trans ⟨fun rest => ⟨nonempty rfl, rest⟩, And.right⟩
      | commitTo => exact ih reads unwrittenRest m
      | batchCommit => exact absurd rfl other
    · refine ⟨?_, fun hashes => absurd rfl hashes.1⟩
      rintro ⟨_, ran⟩
      simp [Trie.run, crashed, crash] at ran

theorem hashCalls_accesses (p : Map → Map → Prop) (saved m : Map) (accesses : List Access) :
    HashCalls p saved m (accesses.map .access) := by
  induction accesses generalizing m with
  | nil => trivial
  | cons a _ ih => exact ih (a.after m)

end Trie

/-- A sequence of updates and deletions on a new trie returns, also with empty values. If it ends in the empty map, the
trie is committed under the empty hash, where a new trie is the empty one again, but `Hash` and `NodeIterator` fail. -/
theorem empty_trie_commits (env : Env) (db : Database) (accesses : List Access) :
    ∃ t t' answers, Trie.new emptyUint256 db = .ok t ∧ t.root = .nil ∧ t.run env (accesses.map .access) = .ok (answers, t') ∧
      ((∃ result, t'.hash env = .ok result) ↔ mapAfter (fun _ => none) (accesses.map .access) ≠ fun _ => none) ∧
      (mapAfter (fun _ => none) (accesses.map .access) = (fun _ => none) → t'.commitTo env = .ok (emptyUint256, t') ∧
        ∀ {ε : Type} (seek : Trie → Bytes → ε) (start : Bytes) result, t'.newNodeIterator env seek start ≠ .ok result) := by
  have opened : Trie.new emptyUint256 db = .ok { root := .nil, db } := by simp [Trie.new]
  have empty := (Committed.empty : Committed env db _ _).reads opened
  have unwritten : Call.batchCommit ∉ accesses.map Call.access := by simp
  obtain ⟨⟨answers, t'⟩, ran⟩ := (empty.run_returns_iff unwritten fun _ => none).mpr (hashCalls_accesses ..)
  have reads := empty.run unwritten ran
  refine ⟨_, t', answers, opened, rfl, ran, ?_, fun ends => ?_⟩
  · by_cases ends : mapAfter (fun _ => none) (accesses.map .access) = fun _ => none
    · rw [ends] at reads
      simp [reads.hash_empty, ends, crash]
    · obtain ⟨_, _, -, -, -, hashed, -⟩ := reads.hash ends
      simp [hashed, ends]
  · rw [ends] at reads
    refine ⟨?_, by simp [Trie.newNodeIterator, reads.hash_empty, crash]⟩
    obtain ⟨tree, holds, none⟩ := reads
    obtain rfl := holds.proper.eq_nil_iff.mpr none
    exact holds.commitTo_empty

theorem empty_trie_commits_written : ∃ t t' answers, Trie.new emptyUint256 (fun _ => none) = .ok t ∧
    t.run (Tables.env {}) [.access (.tryUpdate [97] []), .access (.tryUpdate [98] [99]), .access (.tryDelete [97]),
      .access (.tryDelete [98])] = .ok (answers, t') ∧
    t'.commitTo (Tables.env {}) = .ok (emptyUint256, t') := by
  obtain ⟨t, t', answers, opened, -, ran, -, ends⟩ := empty_trie_commits (Tables.env {}) (fun _ => none)
    [.tryUpdate [97] [], .tryUpdate [98] [99], .tryDelete [97], .tryDelete [98]]
  refine ⟨t, t', answers, opened, ran, (ends ?_).1⟩
  simp only [mapAfter, List.map, List.foldl, Call.after, Access.after]
  funext key
  simp only [Function.update_apply]
  split_ifs <;> rfl

theorem hash_of_new_trie_panics : ∃ t, Trie.new emptyUint256 (fun _ => none) = .ok t ∧
    t.hash (Tables.env {}) = crash "interface conversion: interface is nil" :=
  ⟨_, rfl, rfl⟩

/-- Two runs of calls on tries that were opened at committed roots, whatever they read, hashed and committed on the way,
end with the same hash if they end with the same map. They end with different hashes if they end with different maps and
no two of the nodes of their tries have the same hash. -/
theorem hash_eq_iff_map_eq {env : Env} {db db' : Database} {root root' : Uint256} {m m' : Map} {t t' : Trie}
    (committed : Committed env db root m) (opened : Trie.new root db = .ok t)
    (committed' : Committed env db' root' m') (opened' : Trie.new root' db' = .ok t')
    {calls calls' : List Call} (valid : ∀ c ∈ calls, c.Valid) (valid' : ∀ c ∈ calls', c.Valid)
    (unwritten : .batchCommit ∉ calls) (unwritten' : .batchCommit ∉ calls')
    {answers answers' : List Trie.Answer} {last last' : Trie}
    (ran : t.run env calls = .ok (answers, last)) (ran' : t'.run env calls' = .ok (answers', last'))
    (nonempty : mapAfter m calls ≠ fun _ => none) (nonempty' : mapAfter m' calls' ≠ fun _ => none) :
    ∃ hash hash' next next', last.hash env = .ok (hash, next) ∧ last'.hash env = .ok (hash', next') ∧
      (mapAfter m calls = mapAfter m' calls' → hash = hash') ∧
      (Set.InjOn (sha256Key env) (nodesOf env (mapAfter m calls) ∪ nodesOf env (mapAfter m' calls')) →
        Sized (mapAfter m calls) → Sized (mapAfter m' calls') → hash = hash' → mapAfter m calls = mapAfter m' calls') := by
  obtain ⟨tree, next, proper, contents, present, hashed, -⟩ :=
    ((committed.reads opened).run unwritten ran).hash nonempty
  obtain ⟨tree', next', proper', contents', present', hashed', -⟩ :=
    ((committed'.reads opened').run unwritten' ran').hash nonempty'
  refine ⟨_, _, next, next', hashed, hashed', ?_, ?_⟩
  · intro same
    rw [proper.ext proper' (contents.trans (same.trans contents'.symm))]
  · have filled := committed.filled.mapAfter valid
    have filled' := committed'.filled.mapAfter valid'
    rw [← contents, ← contents'] at *
    exact fun free sized sized' =>
      contents_eq_of_rootHash proper proper' present present' filled filled' sized sized' free

namespace OneEntry

/-- One run changes the committed map and undoes the change, the other builds the map in an empty trie. -/
theorem hash_eq_iff_map_eq_oneEntry :
    ∃ t t' answers answers' last last' hash next next', Trie.new root db = .ok t ∧ Trie.new emptyUint256 db = .ok t' ∧
      t.run env [.access (.tryUpdate [97, 98] [99]), .access (.tryDelete [97, 98])] = .ok (answers, last) ∧
      t'.run env [.commitTo, .access (.tryUpdate [97] [98]), .hash] = .ok (answers', last') ∧
      last.hash env = .ok (hash, next) ∧ last'.hash env = .ok (hash, next') := by
  have undone : mapAfter (contents tree) [.access (.tryUpdate [97, 98] [99]), .access (.tryDelete [97, 98])] = contents tree := by
    simp only [mapAfter, List.foldl, Call.after, Access.after, Function.update_idem]
    exact Function.update_eq_self_iff.mpr rfl
  have built : mapAfter (fun _ => none) [.commitTo, .access (.tryUpdate [97] [98]), .hash] = contents tree :=
    (proper_nil.insert [97] [98]).2.symm
  have nonempty : contents tree ≠ fun _ => none := fun empty => by cases congrFun empty [97]
  have unwritten : Call.batchCommit ∉ [Call.access (.tryUpdate [97, 98] [99]), .access (.tryDelete [97, 98])] := by decide
  have unwritten' : Call.batchCommit ∉ [Call.commitTo, .access (.tryUpdate [97] [98]), .hash] := by decide
  have valid : ∀ c ∈ [Call.access (.tryUpdate [97, 98] [99]), .access (.tryDelete [97, 98])], c.Valid := by
    simp [Call.Valid, Access.Valid]
  have valid' : ∀ c ∈ [Call.commitTo, .access (.tryUpdate [97] [98]), .hash], c.Valid := by
    simp [Call.Valid, Access.Valid]
  obtain ⟨n, -, opened, -⟩ := committed.new fun _ => True
  obtain ⟨n', -, opened', -⟩ := (Committed.empty : Committed env db _ _).new fun _ => True
  obtain ⟨⟨answers, last⟩, ran⟩ :=
    ((committed.reads opened).run_returns_iff unwritten (contents tree)).mpr trivial
  obtain ⟨⟨answers', last'⟩, ran'⟩ :=
    ((Committed.empty.reads opened').run_returns_iff unwritten' fun _ => none).mpr
      ⟨fun empty => absurd (congrFun empty [97]) (by simp [Access.after]), trivial⟩
  obtain ⟨hash, hash', next, next', hashed, hashed', same, -⟩ := hash_eq_iff_map_eq committed opened .empty opened' valid
    valid' unwritten unwritten' ran ran' (by rwa [undone]) (by rwa [built])
  obtain rfl := same (undone.trans built.symm)
  exact ⟨_, _, answers, answers', last, last', hash, next, next', opened, opened', ran, ran', hashed, hashed'⟩

end OneEntry

end Nkn
