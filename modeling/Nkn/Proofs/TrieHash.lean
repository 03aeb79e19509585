import Nkn.Proofs.Trie

/-! # Hashing

The hash of a node is that of the trie it stands for, whatever the nodes below remember. -/

namespace Nkn.Trie

open Trie.Node List

variable {env : Env} {db db' : Database} {known known' : Tree → Prop} {root commits : Bool} {n : Node} {flags : NodeFlag}
  {t t' : Tree}

theorem FlagsOk.mono (grows : ∀ u, known u → known' u) (ok : FlagsOk env known root flags t) :
    FlagsOk env known' root flags t := by
  intro h remembered
  obtain ⟨clean, same, isKnown, large⟩ := ok h remembered
  exact ⟨clean, same, grows t isKnown, large⟩

theorem FlagsOk.of_false (ok : FlagsOk env known false flags t) : FlagsOk env known root flags t := by
  intro h remembered
  obtain ⟨clean, same, isKnown, large⟩ := ok h remembered
  exact ⟨clean, same, isKnown, fun _ => large rfl⟩

theorem Rep.mono (grows : ∀ u, known u → known' u) (rep : Rep env db known root n t) : Rep env db known' root n t := by
  induction rep with
  | nil root => exact .nil root
  | value root v => exact .value root v
  | short _ flagsOk ih => exact .short ih (flagsOk.mono grows)
  | full _ flagsOk ih => exact .full ih (flagsOk.mono grows)
  | hash held large => exact .hash held large

theorem Rep.of_false (rep : Rep env db known false n t) : Rep env db known root n t := by
  cases rep with
  | nil => exact .nil root
  | value _ v => exact .value root v
  | short rep flagsOk => exact .short rep flagsOk.of_false
  | full reps flagsOk => exact .full reps flagsOk.of_false
  | hash held large => exact .hash held large

theorem Held.mono (more : ∀ e, Has env db e → Has env db' e) (held : Held env db t) : Held env db' t :=
  ⟨held.inner, held.readable, held.stored.mono more⟩

theorem Rep.grow (more : ∀ e, Has env db e → Has env db' e) (rep : Rep env db known root n t) :
    Rep env db' known root n t := by
  induction rep with
  | nil root => exact .nil root
  | value root v => exact .value root v
  | short _ flagsOk ih => exact .short ih flagsOk
  | full _ flagsOk ih => exact .full ih flagsOk
  | hash held large => exact .hash (held.mono more) large

theorem FlagsOk.cached {h : Bytes} (ok : FlagsOk env known root flags t) (cached : flags.cached = some h) :
    h = rootOf env t ∧ known t ∧ (root = false → 32 ≤ (encode env t).length) := by
  unfold NodeFlag.cached at cached
  split_ifs at cached
  exact (ok h cached).2

theorem FlagsOk.hash_eq_none (ok : FlagsOk env known root flags t) (cached : flags.cached = none) : flags.hash = none := by
  cases remembered : flags.hash with
  | none => rfl
  | some h =>
    obtain ⟨clean, -⟩ := ok h remembered
    simp [NodeFlag.cached, clean, remembered] at cached

def Node.hashVal (env : Env) (commits : Bool) : Node → Hashed
  | .valueNode v => { hashed := .valueNode v, cached := .valueNode v }
  | val => val.hash env commits false

def Node.hashChild (env : Env) (commits : Bool) (i : Nibble) (n : Node) : Hashed :=
  if i = 16 then { hashed := uncollapsed n, cached := n } else n.hash env commits false

def referTo (env : Env) (root : Bool) (t : Tree) : Collapsed :=
  if root then .hashNode (rootOf env t) else refer env (collapse env t)

def putsOf (env : Env) (commits root : Bool) (t : Tree) : List (Bytes × Bytes) :=
  if commits ∧ (32 ≤ (encode env t).length ∨ root) then [(rootOf env t, encode env t)] else []

theorem store_eq (inner : Inner t) :
    store env commits root (collapse env t) none = (referTo env root t, putsOf env commits root t) := by
  have stored : store env commits root (collapse env t) none =
      if (encode env t).length < 32 ∧ root = false then (collapse env t, [])
      else (.hashNode (rootOf env t), if commits then [(rootOf env t, encode env t)] else []) := by
    cases t with
    | short _ _ => rfl
    | full _ => rfl
    | _ => exact inner.elim
  rw [stored, referTo, refer_of_inner inner, putsOf]
  by_cases small : (encode env t).length < 32 <;> cases root <;> cases commits <;> simp [small]

theorem referTo_of_large (large : root = false → 32 ≤ (encode env t).length) (inner : Inner t) :
    referTo env root t = .hashNode (rootOf env t) := by
  cases root with
  | true => rfl
  | false =>
    rw [referTo, refer_of_inner inner]
    simp [Nat.not_lt.mpr (large rfl)]

theorem FlagsOk.remembered (inner : Inner t) (below : 32 ≤ (encode env t).length → known t) (top : root = true → known t) :
    FlagsOk env known root ⟨(referTo env root t).hash?, false⟩ t := by
  intro h remembered
  cases root with
  | true => exact ⟨rfl, (Option.some.inj remembered).symm, top rfl, by simp⟩
  | false =>
    by_cases large : 32 ≤ (encode env t).length
    · rw [referTo_of_large (fun _ => large) inner] at remembered
      exact ⟨rfl, (Option.some.inj remembered).symm, below large, fun _ => large⟩
    · have inPlace : (referTo env false t).hash? = none := by
        rw [referTo, refer_of_inner inner]
        cases t with
        | short key t | full children => simp [Nat.not_le.mp large, collapse, Collapsed.hash?]
        | _ => exact inner.elim
      rw [inPlace] at remembered
      cases remembered

theorem hash_short_cached {key : Key} {val : Node} {h : Bytes} (cached : flags.cached = some h) :
    (shortNode key val flags).hash env commits root =
      { hashed := .hashNode h, cached := .shortNode key val flags } := by
  unfold Node.hash
  simp only [cached]

variable {children : Nibble → Node}

theorem hash_full_cached {h : Bytes} (cached : flags.cached = some h) :
    (fullNode children flags).hash env commits root =
      { hashed := .hashNode h, cached := .fullNode children flags } := by
  simp [Node.hash, cached]

theorem hash_short_eq {key : Key} {val : Node} (absent : flags.cached = none) :
    (Node.shortNode key val flags).hash env commits root =
      let child := val.hashVal env commits
      let stored := store env commits root (.shortNode (hexToCompact key) child.hashed) flags.hash
      { hashed := stored.1, cached := .shortNode key child.cached ⟨stored.1.hash?, false⟩, puts := child.puts ++ stored.2 } := by
  rw [Node.hash.eq_def]
  cases val <;> simp only [absent] <;> rfl

theorem hash_short {key : Key} {val : Node} (absent : flags.cached = none) (new : flags.hash = none)
    (child : (val.hashVal env commits).hashed = refer env (collapse env t)) :
    (shortNode key val flags).hash env commits root =
      { hashed := referTo env root (.short key t)
        cached := .shortNode key (val.hashVal env commits).cached ⟨(referTo env root (.short key t)).hash?, false⟩
        puts := (val.hashVal env commits).puts ++ putsOf env commits root (.short key t) } := by
  have stored : store env commits root (collapse env (.short key t)) none = _ := store_eq trivial
  rw [collapse, ← child] at stored
  rw [hash_short_eq absent, new]
  simp only [stored]

theorem hashChild_nil (i : Nibble) : hashChild env commits i .nil = { hashed := .valueNode [], cached := .nil } := by
  unfold hashChild
  split_ifs <;> rfl

theorem hash_full {trees : Nibble → Tree} (absent : flags.cached = none) (new : flags.hash = none)
    (child : ∀ i, ((children i).hashChild env commits i).hashed = refer env (collapse env (trees i))) :
    (fullNode children flags).hash env commits root =
      { hashed := referTo env root (.full trees)
        cached := .fullNode (fun i => ((children i).hashChild env commits i).cached)
          ⟨(referTo env root (.full trees)).hash?, false⟩
        puts := (finRange 17).flatMap (fun i => ((children i).hashChild env commits i).puts) ++
          putsOf env commits root (.full trees) } := by
  have stored : store env commits root (collapse env (.full trees)) none = _ := store_eq trivial
  rw [collapse, ← funext child] at stored
  have hashChild (i : Nibble) :
      (if i = 16 then { hashed := uncollapsed (children i), cached := children i } else (children i).hash env commits false) =
        (children i).hashChild env commits i := rfl
  simp only [Node.hash, absent, new, hashChild, stored]

theorem Canonical.child {trees : Nibble → Tree} (canonical : Canonical (.full trees)) (i : Nibble) :
    trees i = .nil ∨ (i = 16 ∧ ∃ v, trees i = .value v) ∨ (i ≠ 16 ∧ Canonical (trees i)) := by
  cases canonical with
  | branch below last _ =>
    by_cases absent : trees i = .nil
    · exact .inl absent
    · by_cases atEnd : i = 16
      · subst atEnd
        obtain ⟨v, -, value⟩ := last absent
        exact .inr (.inl ⟨rfl, v, value⟩)
      · exact .inr (.inr ⟨atEnd, below i atEnd absent⟩)

theorem Rep.eq_nil (rep : Rep env db known root n .nil) : n = .nil := by
  cases rep with
  | nil => rfl
  | hash held => exact held.inner.elim

theorem Rep.eq_value {v : Bytes} (rep : Rep env db known root n (.value v)) : n = .valueNode v := by
  cases rep with
  | value => rfl
  | hash held => exact held.inner.elim

theorem Canonical.inner (canonical : Canonical t) : Inner t := by
  cases canonical <;> trivial

theorem Rep.hashVal_eq (rep : Rep env db known root n t) (canonical : Canonical t) :
    n.hashVal env commits = n.hash env commits false := by
  cases rep with
  | value => exact canonical.inner.elim
  | _ => rfl

structure Hashed.Of (env : Env) (db : Database) (known : Tree → Prop) (commits root : Bool) (t : Tree) (h : Hashed) :
    Prop where
  hashed : h.hashed = referTo env root t
  /-- The node that remembers its hash still stands for the trie. -/
  cached {known' : Tree → Prop} : (∀ u, known u → known' u) → Referred env known' t → (root = true → known' t) →
    Rep env db known' root h.cached t
  puts : ∀ put ∈ h.puts, put.1 = sha256Key env put.2 ∧ put.2 ∈ encodings env t
  /-- A database that has what is remembered and what a commit puts has the whole trie. -/
  kept {db' : Database} : commits = true → (∀ e, Has env db e → Has env db' e) → (∀ u, known u → Stored env db' u) →
    (∀ put ∈ h.puts, db' put.1 = some put.2) → Kept env db' t ∧ (root = true → Has env db' (encode env t))

theorem Hashed.Of.of_leaf {c : Collapsed} (hashed : c = referTo env false t) (rep : Rep env db (fun _ => False) false n t)
    (kept : ∀ db', Kept env db' t) : Hashed.Of env db known commits false t { hashed := c, cached := n } where
  hashed := hashed
  cached _ _ _ := rep.mono fun _ => False.elim
  puts := by simp
  kept _ _ _ _ := ⟨kept _, by simp⟩

theorem Hashed.Of.of_known (rep : Rep env db known root n t) (inner : Inner t) (large : root = false → 32 ≤ (encode env t).length)
    (stored : known t ∨ Stored env db t) :
    Hashed.Of env db known commits root t { hashed := .hashNode (rootOf env t), cached := n } where
  hashed := (referTo_of_large large inner).symm
  cached grows _ _ := rep.mono grows
  puts := by simp
  kept _ more known _ := by
    have stored := stored.elim (known t) fun stored => stored.mono more
    exact ⟨stored.below, fun _ => stored.root⟩

theorem mem_putsOf {put : Bytes × Bytes} (member : put ∈ putsOf env commits root t) :
    put = (rootOf env t, encode env t) := by
  unfold putsOf at member
  split_ifs at member <;> simp_all

theorem has_of_putsOf (written : ∀ put ∈ putsOf env true root t, db' put.1 = some put.2)
    (referred : 32 ≤ (encode env t).length ∨ root = true) : Has env db' (encode env t) := by
  refine written (rootOf env t, encode env t) ?_
  simp [putsOf, referred]

theorem Rep.hashedOf (rep : Rep env db known root n t) (canonical : Canonical t) :
    Hashed.Of env db known commits root t (n.hash env commits root) := by
  induction rep with
  | nil | value => exact canonical.inner.elim
  | hash held large => exact .of_known (.hash held large) held.inner (fun _ => large) (.inr held.stored)
  | @short root key val flags t rep flagsOk ih =>
    cases cached : flags.cached with
    | some _ =>
      obtain ⟨rfl, isKnown, large⟩ := flagsOk.cached cached
      rw [hash_short_cached cached]
      exact .of_known (.short rep flagsOk) trivial large (.inl isKnown)
    | none =>
      have child : Hashed.Of env db known commits false t (val.hashVal env commits) := by
        cases canonical with
        | leaf =>
          obtain rfl := rep.eq_value
          exact .of_leaf rfl (.value false _) fun _ => trivial
        | extension _ _ canonical =>
          rw [rep.hashVal_eq canonical]
          exact ih canonical
      rw [hash_short cached (flagsOk.hash_eq_none cached) child.hashed]
      refine ⟨rfl, fun grows below top => ?_, fun put member => ?_, fun commits more stored written => ?_⟩
      · exact .short (child.cached grows below.2 (by simp)) (.remembered trivial below.1 top)
      · rcases mem_append.mp member with member | member
        · exact ⟨(child.puts put member).1, .inr (child.puts put member).2⟩
        · obtain rfl := mem_putsOf member
          exact ⟨rfl, .inl rfl⟩
      · subst commits
        have below := (child.kept rfl more stored fun put member => written put (mem_append_left _ member)).1
        have has := has_of_putsOf fun put member => written put (mem_append_right _ member)
        exact ⟨⟨fun large => has (.inl large), below⟩, fun top => has (.inr top)⟩
  | @full root children flags trees reps flagsOk ih =>
    cases cached : flags.cached with
    | some _ =>
      obtain ⟨rfl, isKnown, large⟩ := flagsOk.cached cached
      rw [hash_full_cached cached]
      exact .of_known (.full reps flagsOk) trivial large (.inl isKnown)
    | none =>
      have child (i : Nibble) : Hashed.Of env db known commits false (trees i) ((children i).hashChild env commits i) := by
        rcases canonical.child i with absent | ⟨rfl, v, value⟩ | ⟨inside, canonical⟩
        · have rep := reps i
          rw [absent] at rep ⊢
          rw [rep.eq_nil, hashChild_nil]
          exact .of_leaf rfl (.nil false) fun _ => trivial
        · have rep := reps 16
          rw [value] at rep ⊢
          rw [rep.eq_value]
          exact .of_leaf rfl (.value false v) fun _ => trivial
        · rw [hashChild, if_neg inside]
          exact ih i canonical
      rw [hash_full cached (flagsOk.hash_eq_none cached) fun i => (child i).hashed]
      refine ⟨rfl, fun grows below top => ?_, fun put member => ?_, fun commits more stored written => ?_⟩
      · exact .full (fun i => (child i).cached grows (below.2 i) (by simp)) (.remembered trivial below.1 top)
      · rcases mem_append.mp member with member | member
        · obtain ⟨i, -, member⟩ := mem_flatMap.mp member
          obtain ⟨hash, inside⟩ := (child i).puts put member
          exact ⟨hash, .inr (Set.mem_iUnion.mpr ⟨i, inside⟩)⟩
        · obtain rfl := mem_putsOf member
          exact ⟨rfl, .inl rfl⟩
      · subst commits
        have below (i : Nibble) := ((child i).kept rfl more stored fun put member =>
          written put (mem_append_left _ (mem_flatMap.mpr ⟨i, mem_finRange i, member⟩))).1
        have has := has_of_putsOf fun put member => written put (mem_append_right _ member)
        exact ⟨⟨fun large => has (.inl large), below⟩, fun top => has (.inr top)⟩

theorem mem_encodings (inner : Inner t) : encode env t ∈ encodings env t := by
  cases t with
  | short _ _ => exact .inl rfl
  | full _ => exact .inl rfl
  | _ => exact inner.elim

theorem collapse_eq_of_refer (readable : Readable t) (readable' : Readable t')
    (free : Set.InjOn (sha256Key env) (encodings env t ∪ encodings env t'))
    (same : refer env (collapse env t) = refer env (collapse env t')) : collapse env t = collapse env t' := by
  have outer {u : Tree} (outer : ¬ Inner u) : ∃ v, collapse env u = .valueNode v := by
    cases u with
    | nil => exact ⟨[], rfl⟩
    | value v => exact ⟨v, rfl⟩
    | _ => exact absurd trivial outer
  have inner_ne {u : Tree} (inner : Inner u) (v : Bytes) : refer env (collapse env u) ≠ .valueNode v := by
    rw [refer_of_inner inner]
    split_ifs
    · cases u <;> first | exact inner.elim | simp [collapse]
    · simp
  have no_hash {u : Tree} (h : Bytes) : collapse env u ≠ .hashNode h := by
    cases u <;> simp [collapse]
  by_cases inner : Inner t
  · by_cases inner' : Inner t'
    · rw [refer_of_inner inner, refer_of_inner inner'] at same
      split_ifs at same
      · exact same
      · exact absurd same (no_hash _)
      · exact absurd same.symm (no_hash _)
      · have hashes : sha256Key env (encode env t) = sha256Key env (encode env t') := Collapsed.hashNode.inj same
        have encodings := free (.inl (mem_encodings inner)) (.inr (mem_encodings inner')) hashes
        exact Collapsed.serialize_inj readable.writable readable'.writable encodings
    · obtain ⟨v, value⟩ := outer inner'
      rw [value] at same
      exact absurd same (inner_ne inner v)
  · obtain ⟨v, value⟩ := outer inner
    by_cases inner' : Inner t'
    · rw [value] at same
      exact absurd same.symm (inner_ne inner' v)
    · obtain ⟨_, value'⟩ := outer inner'
      rw [value, value'] at same ⊢
      exact same

theorem eq_of_collapse (readable : Readable t) (readable' : Readable t')
    (free : Set.InjOn (sha256Key env) (encodings env t ∪ encodings env t'))
    (same : collapse env t = collapse env t') : t = t' := by
  induction t generalizing t' with
  | nil =>
    cases t' with
    | nil => rfl
    | value _ => exact absurd (Collapsed.valueNode.inj same).symm readable'.1
    | _ => cases same
  | value _ =>
    cases t' with
    | nil => exact absurd (Collapsed.valueNode.inj same) readable.1
    | value _ => rw [Collapsed.valueNode.inj same]
    | _ => cases same
  | short _ _ ih =>
    cases t' with
    | short _ _ =>
      simp only [collapse, Collapsed.shortNode.injEq] at same
      have keys := congrArg compactToHex same.1
      rw [compactToHex_hexToCompact readable.1, compactToHex_hexToCompact readable'.1, Except.ok.injEq] at keys
      have free := free.mono (Set.union_subset_union (Set.subset_insert _ _) (Set.subset_insert _ _))
      have below := collapse_eq_of_refer readable.2.2 readable'.2.2 free same.2
      rw [keys, ih readable.2.2 readable'.2.2 free below]
    | _ => cases same
  | full children ih =>
    cases t' with
    | full children' =>
      simp only [collapse, Collapsed.fullNode.injEq] at same
      have inside (children : Nibble → Tree) (i : Nibble) : encodings env (children i) ⊆ encodings env (.full children) :=
        (Set.subset_iUnion (fun i => encodings env (children i)) i).trans (Set.subset_insert _ _)
      have equal (i : Nibble) : children i = children' i := by
        have free := free.mono (Set.union_subset_union (inside children i) (inside children' i))
        exact ih i (readable i) (readable' i) free
          (collapse_eq_of_refer (readable i) (readable' i) free (congrFun same i))
      rw [funext equal]
    | _ => cases same

theorem length_decodeNibbles : ∀ key : Key, (decodeNibbles key).length ≤ key.length
  | [] => le_refl 0
  | [_] => Nat.zero_le 1
  | _ :: _ :: rest => by
    have := length_decodeNibbles rest
    simp only [decodeNibbles, length_cons]
    omega

theorem length_hexToCompact (key : Key) : (hexToCompact key).length ≤ key.length + 1 := by
  have shorter : (if hasTerm key then key.dropLast else key).length ≤ key.length := by
    split_ifs
    · simp
    · exact le_refl _
  unfold hexToCompact
  generalize (if hasTerm key then key.dropLast else key) = path at shorter ⊢
  cases path with
  | nil => simp
  | cons first rest =>
    have whole := length_decodeNibbles (first :: rest)
    have tail := length_decodeNibbles rest
    simp only [length_cons] at shorter whole
    dsimp only
    split_ifs <;> simp only [length_cons] <;> omega

theorem Canonical.readable (canonical : Canonical t)
    (sized : ∀ key v, t.lookup key = some v → key.length ≤ 2 ^ 63 ∧ v ≠ [] ∧ v.length < 2 ^ 63) : Readable t := by
  have short {key : Key} (fits : key.length ≤ 2 ^ 63) : (hexToCompact key).length < 2 ^ 64 := by
    have := length_hexToCompact key
    omega
  induction canonical with
  | @leaf path v absent =>
    obtain ⟨key, good, value⟩ := sized (path ++ [16]) v (by simp [Patricia.Tree.lookup_short_value])
    exact ⟨⟨path, absent, .inr rfl⟩, short key, good, by omega⟩
  | @extension path children absent nonempty canonical ih =>
    have below (key : Key) (v : Bytes) (found : (Patricia.Tree.full children).lookup key = some v) :
        (path ++ key).length ≤ 2 ^ 63 ∧ v ≠ [] ∧ v.length < 2 ^ 63 :=
      sized _ v (by rw [Patricia.Tree.lookup_short_append]; exact found)
    obtain ⟨key, v, found⟩ := canonical.occupied
    have fits := (below key v found).1
    refine ⟨⟨path, absent, .inl rfl⟩, short (by simp at fits; omega), ih fun key v found => ?_⟩
    obtain ⟨key, value⟩ := below key v found
    exact ⟨by simp at key; omega, value⟩
  | @branch children below last two ih =>
    have sized (i : Nibble) (key : Key) (v : Bytes) (found : (children i).lookup key = some v) :
        key.length ≤ 2 ^ 63 ∧ v ≠ [] ∧ v.length < 2 ^ 63 := by
      obtain ⟨key, value⟩ := sized (i :: key) v found
      exact ⟨by simp at key; omega, value⟩
    intro i
    by_cases absent : children i = .nil
    · rw [absent]
      trivial
    · by_cases atEnd : i = 16
      · subst atEnd
        obtain ⟨v, -, value⟩ := last absent
        obtain ⟨-, good, fits⟩ := sized 16 [] v (by rw [value]; rfl)
        rw [value]
        exact ⟨good, by omega⟩
      · exact ih i atEnd absent (sized i)

theorem Readable.filled {t : Tree} (readable : Readable t) {key : Key} {v : Bytes} (found : t.lookup key = some v) :
    v ≠ [] := by
  induction t generalizing key with
  | nil => cases found
  | value w =>
    cases key with
    | nil => exact Option.some.inj found ▸ readable.1
    | cons _ _ => cases found
  | short path t ih =>
    unfold Patricia.Tree.lookup at found
    split_ifs at found
    exact ih readable.2.2 found
  | full children ih =>
    cases key with
    | nil => cases found
    | cons i _ => exact ih i (readable i) found

end Nkn.Trie
