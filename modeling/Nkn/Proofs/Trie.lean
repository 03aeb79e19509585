import Nkn.Proofs.TrieEncoding

/-! # The trie in memory and its content

The nodes of `chain/trie` stand for path-compressed tries without hashes: a hash stands for what the database holds under
it, and a remembered hash is that of its node. -/

namespace Nkn.Trie

open Go Outcome

abbrev Tree := Patricia.Tree 17 Bytes

abbrev Canonical (t : Tree) : Prop := Patricia.Tree.Canonical 16 (fun _ => True) t

abbrev Rooted (t : Tree) : Prop := Patricia.Tree.Rooted 16 (fun _ => True) t

abbrev Terminated (key : Key) : Prop := Patricia.Tree.Terminated 16 key

variable (env : Env)

def refer : Collapsed → Collapsed
  | .valueNode v => .valueNode v
  | c => if c.serialize.length < 32 then c else .hashNode (sha256Key env c.serialize)

def collapse : Tree → Collapsed
  | .nil => .valueNode []
  | .value v => .valueNode v
  | .short key t => .shortNode (hexToCompact key) (refer env (collapse t))
  | .full children => .fullNode fun i => refer env (collapse (children i))

def encode (t : Tree) : Bytes := (collapse env t).serialize

def rootOf (t : Tree) : Bytes := sha256Key env (encode env t)

def encodings : Tree → Set Bytes
  | .nil => ∅
  | .value _ => ∅
  | .short key t => insert (encode env (.short key t)) (encodings t)
  | .full children => insert (encode env (.full children)) (⋃ i, encodings (children i))

def Inner : Tree → Prop
  | .short _ _ => True
  | .full _ => True
  | _ => False

def Readable : Tree → Prop
  | .nil => True
  | .value v => v ≠ [] ∧ v.length < 2 ^ 64
  | .short key t => IsPath key ∧ (hexToCompact key).length < 2 ^ 64 ∧ Readable t
  | .full children => ∀ i, Readable (children i)

def Has (db : Database) (encoding : Bytes) : Prop := db (sha256Key env encoding) = some encoding

def Referred (p : Tree → Prop) : Tree → Prop
  | .nil => True
  | .value _ => True
  | .short key t => (32 ≤ (encode env (.short key t)).length → p (.short key t)) ∧ Referred p t
  | .full children => (32 ≤ (encode env (.full children)).length → p (.full children)) ∧ ∀ i, Referred p (children i)

abbrev Kept (db : Database) (t : Tree) : Prop := Referred env (fun u => Has env db (encode env u)) t

structure Stored (db : Database) (t : Tree) : Prop where
  root : Has env db (encode env t)
  below : Kept env db t

structure Held (db : Database) (t : Tree) : Prop where
  inner : Inner t
  readable : Readable t
  stored : Stored env db t

variable {env} {db db' : Database} {t : Tree}

theorem refer_of_inner (inner : Inner t) : refer env (collapse env t) =
    if (encode env t).length < 32 then collapse env t else .hashNode (rootOf env t) := by
  cases t with
  | short _ _ => rfl
  | full _ => rfl
  | _ => exact inner.elim

theorem length_sha256Key (bs : Bytes) : (sha256Key env bs).length = 32 := Word.length_toArray _

theorem writable_refer {c : Collapsed} (writable : c.Writable) : (refer env c).Writable := by
  have hashed : (Collapsed.hashNode (sha256Key env c.serialize)).Writable := by
    simp [Collapsed.Writable, length_sha256Key]
  cases c with
  | valueNode _ => exact writable
  | _ =>
    simp only [refer]
    split_ifs
    · exact writable
    · exact hashed

theorem Readable.writable (readable : Readable t) : (collapse env t).Writable := by
  induction t with
  | nil => simp [collapse, Collapsed.Writable]
  | value _ => exact readable.2
  | short key _ ih => exact ⟨readable.2.1, ⟨key, readable.1, rfl⟩, writable_refer (ih readable.2.2)⟩
  | full _ ih => exact fun i => writable_refer (ih i (readable i))

theorem Referred.mono {p q : Tree → Prop} (more : ∀ u, p u → q u) (referred : Referred env p t) : Referred env q t := by
  induction t with
  | nil => trivial
  | value _ => trivial
  | short _ _ ih => exact ⟨fun large => more _ (referred.1 large), ih referred.2⟩
  | full _ ih => exact ⟨fun large => more _ (referred.1 large), fun i => ih i (referred.2 i)⟩

theorem Stored.mono (more : ∀ e, Has env db e → Has env db' e) (stored : Stored env db t) : Stored env db' t :=
  ⟨more _ stored.root, stored.below.mono fun u => more (encode env u)⟩

/-- A remembered hash is the hash of the trie that the node stands for. Below the root only nodes that are referred to
by their hash remember it. -/
def FlagsOk (env : Env) (known : Tree → Prop) (root : Bool) (flags : NodeFlag) (t : Tree) : Prop :=
  ∀ h, flags.hash = some h →
    flags.dirty = false ∧ h = rootOf env t ∧ known t ∧ (root = false → 32 ≤ (encode env t).length)

/-- A node stands for a trie: hashes are those of tries in the database, and the tries with remembered hashes are
`known`. -/
inductive Rep (env : Env) (db : Database) (known : Tree → Prop) : Bool → Node → Tree → Prop
  | nil (root : Bool) : Rep env db known root .nil .nil
  | value (root : Bool) (v : Bytes) : Rep env db known root (.valueNode v) (.value v)
  | short {root : Bool} {key : Key} {val : Node} {flags : NodeFlag} {t : Tree} :
      Rep env db known false val t → FlagsOk env known root flags (.short key t) →
      Rep env db known root (.shortNode key val flags) (.short key t)
  | full {root : Bool} {children : Nibble → Node} {flags : NodeFlag} {trees : Nibble → Tree} :
      (∀ i, Rep env db known false (children i) (trees i)) → FlagsOk env known root flags (.full trees) →
      Rep env db known root (.fullNode children flags) (.full trees)
  | hash {root : Bool} {t : Tree} : Held env db t → 32 ≤ (encode env t).length →
      Rep env db known root (.hashNode (rootOf env t)) t

variable {known known' : Tree → Prop} {root : Bool} {n : Node} {flags : NodeFlag}

theorem FlagsOk.of_none (none : flags.hash = none) : FlagsOk env known root flags t := by
  intro h remembered
  rw [none] at remembered
  cases remembered

namespace Rep

variable {children : Nibble → Node}

theorem update {trees : Nibble → Tree} {i : Nibble} {n : Node} {t : Tree}
    (reps : ∀ i, Rep env db known false (children i) (trees i)) (rep : Rep env db known false n t) (j : Nibble) :
    Rep env db known false (Function.update children i n j) (Function.update trees i t j) := by
  by_cases same : j = i
  · subst same
    simpa using rep
  · simpa [same] using reps j

theorem update_same {trees : Nibble → Tree} {i : Nibble} {n : Node}
    (reps : ∀ i, Rep env db known false (children i) (trees i)) (rep : Rep env db known false n (trees i)) (j : Nibble) :
    Rep env db known false (Function.update children i n j) (trees j) := by
  have updated := update (i := i) reps rep j
  rwa [Function.update_eq_self] at updated

theorem isNil_eq (rep : Rep env db known root n t) : n.isNil = t.isNil := by
  cases rep with
  | hash held _ => cases t <;> first | rfl | exact held.inner.elim
  | _ => rfl

theorem decoded (readable : Readable t) (kept : Kept env db t) (root : Bool) :
    Rep env db known root (refer env (collapse env t)).decoded t ∧
      (Inner t → Rep env db known root (collapse env t).decoded t) := by
  induction t generalizing root with
  | nil => exact ⟨.nil root, False.elim⟩
  | value v =>
    refine ⟨?_, False.elim⟩
    simpa [refer, collapse, Collapsed.decoded, readable.1] using Rep.value root v
  | short key t ih =>
    have read : Rep env db known root (collapse env (.short key t)).decoded (.short key t) := by
      rw [collapse, Collapsed.decoded_shortNode readable.1]
      exact .short (ih readable.2.2 kept.2 false).1 (.of_none rfl)
    refine ⟨?_, fun _ => read⟩
    rw [refer_of_inner (t := .short key t) trivial]
    split_ifs with small
    · exact read
    · have large := Nat.not_lt.mp small
      exact .hash ⟨trivial, readable, kept.1 large, kept⟩ large
  | full children ih =>
    have read : Rep env db known root (collapse env (.full children)).decoded (.full children) :=
      .full (fun i => (ih i (readable i) (kept.2 i) false).1) (.of_none rfl)
    refine ⟨?_, fun _ => read⟩
    rw [refer_of_inner (t := .full children) trivial]
    split_ifs with small
    · exact read
    · have large := Nat.not_lt.mp small
      exact .hash ⟨trivial, readable, kept.1 large, kept⟩ large

end Rep

theorem Held.resolveHash (held : Held env db t) : Node.resolveHash db (rootOf env t) = .ok (collapse env t).decoded := by
  have found : db (rootOf env t) = some (collapse env t).serialize := held.stored.root
  simp [Node.resolveHash, found, orFail, mustDecodeNode_serialize held.readable.writable]

theorem Rep.resolve (rep : Rep env db known root n t) :
    ∃ n', n.resolve db = .ok n' ∧ Rep env db known root n' t ∧ ∀ h, n' ≠ .hashNode h := by
  cases rep with
  | hash held _ =>
    refine ⟨_, held.resolveHash, (Rep.decoded held.readable held.stored.below root).2 held.inner, ?_⟩
    intro h same
    cases t with
    | short _ _ =>
      rw [collapse, Collapsed.decoded_shortNode held.readable.1] at same
      cases same
    | full _ => cases same
    | _ => exact held.inner
  | nil => exact ⟨_, rfl, .nil root, by simp⟩
  | value _ => exact ⟨_, rfl, .value root _, by simp⟩
  | short rep flags => exact ⟨_, rfl, .short rep flags, by simp⟩
  | full reps flags => exact ⟨_, rfl, .full reps flags, by simp⟩

def Fits (t : Tree) (key : Key) : Prop := key = [] ∧ (t = .nil ∨ ∃ v, t = .value v) ∨ Terminated key ∧ Rooted t

variable {key : Key}

theorem Fits.value {v : Bytes} (fits : Fits (.value v) key) : key = [] := by
  rcases fits with ⟨rfl, -⟩ | ⟨-, absent | canonical⟩
  · rfl
  · cases absent
  · cases canonical

variable {path rest : Key}

theorem Fits.short (fits : Fits (.short path t) (path ++ rest)) : path ≠ [] ∧ Fits t rest := by
  rcases fits with ⟨-, absent | ⟨v, absent⟩⟩ | ⟨ends, absent | canonical⟩
  · cases absent
  · cases absent
  · cases absent
  · cases canonical with
    | @leaf path v absent good =>
      obtain rfl := ends.rest_eq_nil absent
      exact ⟨by simp, .inl ⟨rfl, .inr ⟨v, rfl⟩⟩⟩
    | extension absent nonempty below =>
      exact ⟨nonempty, .inr ⟨(Patricia.Tree.terminated_append absent).mp ends, .inr below⟩⟩

theorem Fits.not_ends {key rest : Key} {c : Nibble} (fits : Fits (.short (key ++ c :: rest) t) key) (goes : key ≠ []) :
    False := by
  rcases fits with ⟨rfl, -⟩ | ⟨ends, absent | canonical⟩
  · exact goes rfl
  · cases absent
  · exact Patricia.Tree.not_ends ends canonical

variable {trees : Nibble → Tree}

theorem Fits.last (fits : Fits (.full trees) key) : trees 16 = .nil ∨ ∃ v, trees 16 = .value v := by
  rcases fits with ⟨-, absent | ⟨v, absent⟩⟩ | ⟨-, absent | canonical⟩
  · cases absent
  · cases absent
  · cases absent
  · cases canonical with
    | branch _ last _ =>
      by_cases absent : trees 16 = .nil
      · exact .inl absent
      · obtain ⟨v, -, value⟩ := last absent
        exact .inr ⟨v, value⟩

theorem Fits.full (fits : Fits (.full trees) key) : ∃ i rest, key = i :: rest ∧ Fits (trees i) rest := by
  rcases id fits with ⟨-, absent | ⟨_, absent⟩⟩ | ⟨ends, absent | canonical⟩
  · cases absent
  · cases absent
  · cases absent
  · obtain ⟨i, rest, rfl⟩ := List.exists_cons_of_ne_nil ends.ne_nil
    refine ⟨i, rest, rfl, ?_⟩
    cases canonical with
    | branch below last _ =>
      rcases Patricia.Tree.terminated_cons.mp ends with ⟨rfl, rfl⟩ | ⟨inner, ends⟩
      · exact .inl ⟨rfl, fits.last⟩
      · refine .inr ⟨ends, ?_⟩
        by_cases absent : trees i = .nil
        · exact .inl absent
        · exact .inr (below i inner absent)

def cost : Node → Key → Nat
  | .hashNode _, key => 2 * key.length + 2
  | _, key => 2 * key.length + 1

theorem cost_le (n : Node) (key : Key) : cost n key ≤ 2 * key.length + 2 := by
  cases n <;> simp [cost]

theorem cost_of_not_hash {n : Node} (key : Key) (other : ∀ h, n ≠ .hashNode h) : cost n key = 2 * key.length + 1 := by
  cases n with
  | hashNode h => exact absurd rfl (other h)
  | _ => rfl

theorem cost_pos (n : Node) (key : Key) : 0 < cost n key := by
  cases n <;> simp [cost]

theorem Rep.tryGet (rep : Rep env db known root n t) (fits : Fits t key) {depth : Nat} (deep : cost n key ≤ depth) :
    ∃ n', n.tryGet db depth key = .ok (t.lookup key, n') ∧ Rep env db known root n' t := by
  induction depth generalizing root n t key with
  | zero => exact absurd deep (Nat.not_le.mpr (cost_pos n key))
  | succ _ ih =>
    cases rep with
    | nil => exact ⟨.nil, rfl, .nil root⟩
    | @value _ v =>
      obtain rfl := fits.value
      exact ⟨.valueNode v, rfl, .value root v⟩
    | @short _ path val flags t rep flagsOk =>
      by_cases under : path <+: key
      · obtain ⟨rest, rfl⟩ := under
        obtain ⟨nonempty, inside⟩ := fits.short
        have shorter := List.length_pos_iff.mpr nonempty
        have enough := cost_le val rest
        simp only [cost, List.length_append] at deep
        obtain ⟨n', got, rep⟩ := ih rep inside (by omega)
        refine ⟨.shortNode path n' flags, ?_, .short rep flagsOk⟩
        simp [Node.tryGet, got]
      · refine ⟨.shortNode path val flags, ?_, .short rep flagsOk⟩
        simp [Node.tryGet, under, Patricia.Tree.lookup_short_beside under]
    | @full _ children flags trees reps flagsOk =>
      obtain ⟨i, rest, rfl, inside⟩ := fits.full
      have enough := cost_le (children i) rest
      simp only [cost, List.length_cons] at deep
      obtain ⟨n', got, rep⟩ := ih (reps i) inside (by omega)
      refine ⟨.fullNode (Function.update children i n') flags, by simp [Node.tryGet, got], .full ?_ flagsOk⟩
      exact update_same reps rep
    | hash held large =>
      obtain ⟨n', resolved, rep, other⟩ := (Rep.hash held large : Rep env db known root _ t).resolve
      simp only [cost] at deep
      obtain ⟨n'', got, rep⟩ := ih rep fits (by rw [cost_of_not_hash key other]; omega)
      have followed : Node.resolveHash db (rootOf env t) = .ok n' := resolved
      exact ⟨n'', by simp [Node.tryGet, followed, got], rep⟩

theorem Rep.insertNil {v : Node} {tv : Tree} (rep : Rep env db known false v tv) (key : Key) :
    Rep env db known false (Node.insertNil key v) (tv.extend key) := by
  unfold Node.insertNil Patricia.Tree.extend
  split_ifs with empty
  · exact rep
  · exact .short rep (.of_none rfl)

theorem insert_along (nonempty : path ≠ []) (val : Node) (flags : NodeFlag) (value : Node)
    (depth : Nat) : (Node.shortNode path val flags).insert db (depth + 1) (path ++ rest) value =
      val.insert db depth rest value >>= fun nn => .ok (.shortNode path nn {}) := by
  obtain ⟨i, path, rfl⟩ := List.exists_cons_of_ne_nil nonempty
  have common : prefixLen (i :: path ++ rest) (i :: path) = (i :: path).length :=
    Patricia.commonLength_append (i :: path) rest
  simp only [List.cons_append] at common ⊢
  simp [Node.insert, common]

theorem insert_leaves {front path rest : Key} {a b : Nibble} (differ : a ≠ b) (val : Node) (flags : NodeFlag)
    (value : Node) (depth : Nat) :
    (Node.shortNode (front ++ b :: path) val flags).insert db (depth + 1) (front ++ a :: rest) value =
      .ok (if front = [] then
          .fullNode (Function.update (Function.update (fun _ => .nil) b (Node.insertNil path val)) a
            (Node.insertNil rest value)) {}
        else .shortNode front (.fullNode (Function.update (Function.update (fun _ => .nil) b (Node.insertNil path val)) a
            (Node.insertNil rest value)) {}) { dirty := true }) := by
  have common : prefixLen (front ++ a :: rest) (front ++ b :: path) = front.length :=
    Patricia.commonLength_leaves front rest path differ
  cases front with
  | nil =>
    simp only [List.nil_append, List.length_nil] at common ⊢
    simp [Node.insert, common]
  | cons _ _ =>
    simp only [List.cons_append] at common ⊢
    simp [Node.insert, common]

theorem Rep.insert (rep : Rep env db known root n t) (fits : Fits t key) (v : Bytes) {depth : Nat}
    (deep : cost n key ≤ depth) :
    ∃ n', n.insert db depth key (.valueNode v) = .ok n' ∧ Rep env db known false n' (t.insert key (.value v)) := by
  induction depth generalizing root n t key with
  | zero => exact absurd deep (Nat.not_le.mpr (cost_pos n key))
  | succ _ ih =>
    by_cases ended : key = []
    · subst ended
      exact ⟨.valueNode v, rfl, by simpa using Rep.value false v⟩
    cases rep with
    | nil =>
      refine ⟨Node.insertNil key (.valueNode v), ?_, ?_⟩
      · cases key with
        | nil => rfl
        | cons _ _ => rfl
      · rw [Patricia.Tree.insert_nil]
        exact (Rep.value false v).insertNil key
    | value _ => exact absurd fits.value ended
    | @short _ path val flags t rep flagsOk =>
      cases Patricia.compared key path with
      | along _ rest =>
        obtain ⟨nonempty, inside⟩ := fits.short
        have shorter := List.length_pos_iff.mpr nonempty
        have enough := cost_le val rest
        simp only [cost, List.length_append] at deep
        obtain ⟨n', inserted, rep⟩ := ih rep inside (by omega)
        rw [insert_along nonempty, inserted, Patricia.Tree.insert_along nonempty]
        exact ⟨_, rfl, .short rep (.of_none rfl)⟩
      | @leaves front a b rest path' differ =>
        rw [insert_leaves differ, Patricia.Tree.insert_leaves front path' differ]
        have forked : Rep env db known false (.fullNode (Function.update (Function.update (fun _ => .nil) b
            (Node.insertNil path' val)) a (Node.insertNil rest (.valueNode v))) {})
              (Patricia.Tree.fork a (Patricia.Tree.extend rest (.value v)) b (Patricia.Tree.extend path' t)) :=
          .full (update (update (fun _ => .nil false) (rep.insertNil path')) ((Rep.value false v).insertNil rest)) (.of_none rfl)
        refine ⟨_, rfl, ?_⟩
        generalize Patricia.Tree.fork a (Patricia.Tree.extend rest (.value v)) b (Patricia.Tree.extend path' t) = tree
          at forked ⊢
        by_cases empty : front = []
        · simpa [empty, Patricia.Tree.extend] using forked
        · simpa [empty, Patricia.Tree.extend] using Rep.short forked (.of_none rfl)
      | ends _ _ _ => exact (fits.not_ends ended).elim
    | @full _ children flags trees reps flagsOk =>
      obtain ⟨i, rest, rfl, inside⟩ := fits.full
      have enough := cost_le (children i) rest
      simp only [cost, List.length_cons] at deep
      obtain ⟨n', inserted, rep⟩ := ih (reps i) inside (by omega)
      refine ⟨.fullNode (Function.update children i n') { dirty := true }, ?_, .full (update reps rep) (.of_none rfl)⟩
      simp [Node.insert, inserted]
    | hash held large =>
      obtain ⟨n', resolved, rep, other⟩ := (Rep.hash held large : Rep env db known root _ t).resolve
      simp only [cost] at deep
      obtain ⟨n'', inserted, rep⟩ := ih rep fits (by rw [cost_of_not_hash key other]; omega)
      have followed : Node.resolveHash db (rootOf env t) = .ok n' := resolved
      refine ⟨n'', ?_, rep⟩
      cases key with
      | nil => exact absurd rfl ended
      | cons _ _ => simp [Node.insert, followed, inserted]

variable {children : Nibble → Node}

theorem onlyChild_eq
    (reps : ∀ i, Rep env db known false (children i) (trees i)) : Node.onlyChild children = Patricia.Tree.only trees := by
  unfold Node.onlyChild Patricia.Tree.only
  simp only [(reps _).isNil_eq]
  generalize (List.finRange 17).filter (fun i => !(trees i).isNil) = occupied
  rcases occupied with _ | ⟨_, _ | ⟨_, _⟩⟩ <;> rfl

def Node.collapsed (db : Database) (children : Nibble → Node) : Outcome Node :=
  match Node.onlyChild children with
  | none => .ok (.fullNode children {})
  | some pos =>
    if pos = 16 then .ok (.shortNode [pos] (children pos) {})
    else do
      let cNode ← (children pos).resolve db
      match cNode with
      | .shortNode cKey cVal _ => .ok (.shortNode (pos :: cKey) cVal {})
      | _ => .ok (.shortNode [pos] (children pos) {})

theorem Rep.collapsed
    (reps : ∀ i, Rep env db known false (children i) (trees i)) (last : ∀ path u, trees 16 ≠ .short path u) :
    ∃ n', Node.collapsed db children = .ok n' ∧ Rep env db known root n' (Patricia.Tree.collapse trees) ∧
      ∀ h, n' ≠ .hashNode h := by
  unfold Node.collapsed Patricia.Tree.collapse
  rw [onlyChild_eq reps]
  cases Patricia.Tree.only trees with
  | none => exact ⟨_, rfl, .full reps (.of_none rfl), by simp⟩
  | some pos =>
    have single (other : ∀ path u, trees pos ≠ .short path u) :
        Rep env db known root (.shortNode [pos] (children pos) {}) (Patricia.Tree.join [pos] (trees pos)) := by
      have joined : Patricia.Tree.join [pos] (trees pos) = .short [pos] (trees pos) := by
        cases place : trees pos with
        | short path u => exact absurd place (other path u)
        | _ => rfl
      rw [joined]
      exact .short (reps pos) (.of_none rfl)
    dsimp only
    split_ifs with atEnd
    · subst atEnd
      exact ⟨_, rfl, single last, by simp⟩
    · obtain ⟨_, resolved, rep, other⟩ := (reps pos).resolve
      rw [resolved, ok_bind]
      generalize trees pos = tree at rep single
      cases rep with
      | @short _ path val flags t rep flagsOk => exact ⟨_, rfl, .short rep (.of_none rfl), by simp⟩
      | hash _ _ => exact absurd rfl (other _)
      | _ => exact ⟨_, rfl, single (by simp), by simp⟩

def Node.merged (path : Key) : Node → Node
  | .shortNode cKey cVal _ => .shortNode (path ++ cKey) cVal {}
  | child => .shortNode path child {}

theorem Rep.merged (rep : Rep env db known false n t) (other : ∀ h, n ≠ .hashNode h) (path : Key) :
    Rep env db known root (n.merged path) (t.join path) := by
  cases rep with
  | hash _ _ => exact absurd rfl (other _)
  | nil => exact .short (.nil false) (.of_none rfl)
  | value _ => exact .short (.value false _) (.of_none rfl)
  | short rep _ => exact .short rep (.of_none rfl)
  | full reps flagsOk => exact .short (.full reps flagsOk) (.of_none rfl)

theorem delete_along {c : Nibble} (val : Node) (flags : NodeFlag) (depth : Nat) :
    (Node.shortNode path val flags).delete db (depth + 1) (path ++ c :: rest) =
      val.delete db depth (c :: rest) >>= fun child => .ok (child.merged path) := by
  have common : prefixLen (path ++ c :: rest) path = path.length := Patricia.commonLength_append path (c :: rest)
  have longer : ¬ path.length = (path ++ c :: rest).length := by simp
  simp only [Node.delete, common, lt_irrefl, if_false, longer, List.drop_left]
  congr 1
  funext child
  cases child <;> rfl

theorem delete_whole (path : Key) (val : Node) (flags : NodeFlag) (depth : Nat) :
    (Node.shortNode path val flags).delete db (depth + 1) path = .ok .nil := by
  have common : prefixLen path path = path.length := by
    have whole := Patricia.commonLength_append path []
    rwa [List.append_nil] at whole
  simp [Node.delete, common]

theorem delete_beside {path key : Key} (other : ¬ path <+: key) (val : Node) (flags : NodeFlag) (depth : Nat) :
    (Node.shortNode path val flags).delete db (depth + 1) key = .ok (.shortNode path val flags) := by
  have less : prefixLen key path < path.length := Patricia.commonLength_lt other
  simp [Node.delete, less]

theorem Rep.delete (rep : Rep env db known root n t) (fits : Fits t key) {depth : Nat} (deep : cost n key ≤ depth) :
    ∃ n', n.delete db depth key = .ok n' ∧ Rep env db known root n' (t.delete key) ∧ ∀ h, n' ≠ .hashNode h := by
  induction depth generalizing root n t key with
  | zero => exact absurd deep (Nat.not_le.mpr (cost_pos n key))
  | succ depth ih =>
    cases rep with
    | nil | value v => exact ⟨.nil, rfl, .nil root, by simp⟩
    | @short _ path val flags t rep flagsOk =>
      by_cases under : path <+: key
      · obtain ⟨rest, rfl⟩ := under
        obtain ⟨nonempty, inside⟩ := fits.short
        cases rest with
        | nil =>
          rw [List.append_nil, delete_whole, Patricia.Tree.delete_whole]
          exact ⟨.nil, rfl, .nil root, by simp⟩
        | cons c rest =>
          have shorter := List.length_pos_iff.mpr nonempty
          have enough := cost_le val (c :: rest)
          simp only [cost, List.length_append] at deep
          obtain ⟨n', deleted, rep, other⟩ := ih rep inside (by omega)
          rw [delete_along, deleted, Patricia.Tree.delete_along]
          refine ⟨n'.merged path, rfl, rep.merged other path, ?_⟩
          cases n' <;> simp [Node.merged]
      · rw [delete_beside under, Patricia.Tree.delete_beside under]
        exact ⟨_, rfl, .short rep flagsOk, by simp⟩
    | @full _ children flags trees reps flagsOk =>
      have last := fits.last
      obtain ⟨i, rest, rfl, inside⟩ := fits.full
      have enough := cost_le (children i) rest
      simp only [cost, List.length_cons] at deep
      obtain ⟨n', deleted, rep, -⟩ := ih (reps i) inside (by omega)
      have step : (Node.fullNode children flags).delete db (depth + 1) (i :: rest) =
          Node.collapsed db (Function.update children i n') := by
        simp only [Node.delete, deleted, ok_bind]
        rfl
      have notShort (path : Key) (u : Tree) :
          Function.update trees i ((trees i).delete rest) 16 ≠ .short path u := by
        by_cases atEnd : (16 : Nibble) = i
        · subst atEnd
          rcases last with absent | ⟨v, value⟩
          · simp [absent, Patricia.Tree.delete]
          · simp [value, Patricia.Tree.delete]
        · rcases last with absent | ⟨_, value⟩
          · simp [Function.update_of_ne atEnd, absent]
          · simp [Function.update_of_ne atEnd, value]
      obtain ⟨n'', collapsed, rep, other⟩ := Rep.collapsed (update reps rep) notShort
      exact ⟨n'', step.trans collapsed, rep, other⟩
    | hash held large =>
      obtain ⟨n', resolved, rep, other⟩ := (Rep.hash held large : Rep env db known root _ t).resolve
      simp only [cost] at deep
      obtain ⟨n'', deleted, rep, other⟩ := ih rep fits (by rw [cost_of_not_hash key other]; omega)
      have followed : Node.resolveHash db (rootOf env t) = .ok n' := resolved
      exact ⟨n'', by simp [Node.delete, followed, deleted], rep, other⟩

end Nkn.Trie
