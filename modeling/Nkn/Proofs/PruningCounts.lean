import Nkn.Lib.RefCount
import Nkn.Proofs.Pruning

/-! # Counting and releasing tries of plain nodes

A forest says which node stands under which hash. -/

namespace Nkn.Pruning

open Go Outcome RefCount Function Proc List RefCounts

def refs : Trie.Node → List Bytes
  | .nil => []
  | .valueNode _ => []
  | .shortNode _ val _ => refs val
  | .fullNode children _ => (List.finRange 17).flatMap fun i => refs (children i)
  | .hashNode hash => [hash]

structure Forest where
  node : Bytes → Option Trie.Node
  rank : Bytes → Nat
  falls : ∀ hash n, node hash = some n → ∀ c ∈ refs n, rank c < rank hash

def Flat : Trie.Node → Prop
  | .nil | .valueNode _ | .hashNode _ => True
  | .shortNode .. | .fullNode .. => False

instance : DecidablePred Flat
  | .nil | .valueNode _ | .hashNode _ => .isTrue trivial
  | .shortNode .. | .fullNode .. => .isFalse id

def Plain : Trie.Node → Prop
  | .shortNode _ val _ => Flat val
  | .fullNode children _ => ∀ i, Flat (children i)
  | _ => False

instance : DecidablePred Plain
  | .shortNode _ val _ => inferInstanceAs (Decidable (Flat val))
  | .fullNode children _ => inferInstanceAs (Decidable (∀ i, Flat (children i)))
  | .nil | .valueNode _ | .hashNode _ => .isFalse id

namespace Forest

variable (forest : Forest)

def kids (hash : Bytes) : List Bytes := (forest.node hash).elim [] refs

abbrev Reaches : Bytes → Bytes → Prop := RefCount.Reaches forest.kids

def Holds (nodes : Trie.Database) : Prop :=
  ∀ hash enc, nodes hash = some enc → ∃ n, Trie.mustDecodeNode enc = .ok n ∧ forest.node hash = some n

def Complete (nodes : Trie.Database) (root : Bytes) : Prop := ∀ hash, forest.Reaches root hash → nodes hash ≠ none

def AllPlain : Prop := ∀ hash n, forest.node hash = some n → Plain n

variable {forest}

theorem kids_of_node {hash : Bytes} {n : Trie.Node} (found : forest.node hash = some n) : forest.kids hash = refs n := by
  simp [kids, found]

theorem kids_fall (hash c : Bytes) (kid : c ∈ forest.kids hash) : forest.rank c < forest.rank hash := by
  unfold kids at kid
  cases found : forest.node hash with
  | none => simp [found] at kid
  | some n =>
    rw [found] at kid
    exact forest.falls hash n found c kid

theorem Complete.of_kid {nodes : Trie.Database} {hash c : Bytes} (complete : forest.Complete nodes hash)
    (kid : c ∈ forest.kids hash) : forest.Complete nodes c := fun x reaches => complete x (.step kid reaches)

theorem Complete.resolveHash {db : PruneDB} {hash : Bytes} (complete : forest.Complete db.nodes hash)
    (holds : forest.Holds db.nodes) :
    ∃ n, forest.node hash = some n ∧ resolveHash db hash = .ok (withHash hash n) := by
  obtain ⟨enc, stored⟩ := Option.ne_none_iff_exists'.mp (complete hash (.refl hash))
  obtain ⟨n, decoded, found⟩ := holds hash enc stored
  refine ⟨n, found, ?_⟩
  simp [Pruning.resolveHash, Trie.Node.resolveHash, stored, orFail, decoded]

end Forest

theorem withHash_of_flat {hash : Bytes} {n : Trie.Node} (flat : Flat n) : withHash hash n = n := by
  cases n <;> first | rfl | exact flat.elim

theorem refs_of_isNil {n : Trie.Node} (absent : n.isNil = true) : refs n = [] := by
  cases n <;> first | rfl | cases absent

namespace RefCounts

variable {forest : Forest} {ref ref' : RefCounts} {live : Finset Bytes} {roots : List Bytes} {hash : Bytes}
  {threshold depth : Nat} {persistIntermediate : Bool}

def view (ref : RefCounts) (hash : Bytes) : UInt32 := (ref.counts.load hash).getD ((ref.batch.counts hash).getD 0)

def tallied (ref : RefCounts) : Bytes → Nat := UInt32.toNat ∘ view ref

theorem tallied_pos : 0 < tallied ref hash ↔ view ref hash ≠ 0 := by
  rw [Nat.pos_iff_ne_zero]
  exact not_congr (UInt32.toNat_inj (b := 0))

theorem tallied_of_view {count : UInt32} (viewed : view ref' = update (view ref) hash count) :
    tallied ref' = update (tallied ref) hash count.toNat := by
  rw [tallied, viewed, comp_update]
  rfl

theorem view_setCount (count : UInt32) : view (setCount hash count ref).2 = update (view ref) hash count := by
  funext x
  by_cases same : x = hash
  · subst same
    simp [view, setCount, Proc.modify]
  · simp [view, setCount, Proc.modify, same]

theorem view_increment (known : (ref.counts.load hash).isSome ∨ view ref hash = 0) :
    view (increment hash ref).2 = update (view ref) hash (view ref hash + 1) := by
  have read : ref.counts.read 0 hash = view ref hash := by
    unfold view GoMap.read at *
    cases loaded : ref.counts.load hash with
    | some _ => rfl
    | none =>
      rw [loaded] at known
      exact (known.resolve_left (by simp)).symm
  funext x
  by_cases same : x = hash
  · subst same
    rw [← read]
    simp [view, increment, Proc.modify]
  · simp [view, increment, Proc.modify, same]

theorem view_flush : view (flush ref).2 = view ref := by
  funext x
  have flushed : view (flush ref).2 x = ((ref.counts.flush some ref.batch.counts x).getD 0) := rfl
  rw [flushed, GoMap.flush_apply, view]
  cases ref.counts.load x <;> rfl

structure Tally (forest : Forest) (nodes : Trie.Database) (live : Finset Bytes) (roots : List Bytes) (ref : RefCounts) :
    Prop where
  clean : ref.batch = ref.db
  nodes_eq : ref.db.nodes = nodes
  counts : Counts forest.kids live roots (tallied ref)

theorem Tally.mem_live_iff (tally : Tally forest nodes live roots ref) : hash ∈ live ↔ view ref hash ≠ 0 :=
  (tally.counts.live_iff hash).trans tallied_pos

structure Grown (forest : Forest) (added : List Bytes) (live live' : Finset Bytes) : Prop where
  old : live ⊆ live'
  new : ∀ x ∈ live', x ∈ live ∨ ∃ c ∈ added, forest.Reaches c x

theorem Grown.refl (added : List Bytes) (live : Finset Bytes) : Grown forest added live live :=
  ⟨Finset.Subset.refl live, fun _ member => .inl member⟩

variable {nodes : Trie.Database} {added added' : List Bytes} {x y : Proc RefCounts Unit} {live₁ live₂ : Finset Bytes}

theorem Grown.trans (first : Grown forest added live live₁) (second : Grown forest added' live₁ live₂) :
    Grown forest (added ++ added') live live₂ := by
  refine ⟨first.old.trans second.old, fun x member => ?_⟩
  rcases second.new x member with old | ⟨c, among, reaches⟩
  · rcases first.new x old with old | ⟨c, among, reaches⟩
    · exact .inl old
    · exact .inr ⟨c, mem_append_left _ among, reaches⟩
  · exact .inr ⟨c, mem_append_right _ among, reaches⟩

/-- A dead node joins what its references have brought in. -/
theorem Grown.insert (grown : Grown forest (forest.kids hash) live live₁) :
    Grown forest [hash] live (insert hash live₁) := by
  refine ⟨grown.old.trans (Finset.subset_insert ..), fun x member => ?_⟩
  rcases Finset.mem_insert.mp member with rfl | member
  · exact .inr ⟨x, List.mem_singleton_self x, .refl x⟩
  · rcases grown.new x member with old | ⟨_, kid, reaches⟩
    · exact .inl old
    · exact .inr ⟨hash, List.mem_singleton_self hash, .step kid reaches⟩

/-- A node is not among those its references lead to. -/
theorem Grown.dead (grown : Grown forest (forest.kids hash) live live₁) (dead : hash ∉ live) : hash ∉ live₁ := by
  intro member
  rcases grown.new hash member with old | ⟨c, kid, reaches⟩
  · exact dead old
  · have lower := forest.kids_fall hash c kid
    have := reaches.rank_le forest.kids_fall
    omega

/-- The counts stay in the range of `uint32` when the added references are counted, whatever becomes live with them. -/
def Room (forest : Forest) (added : List Bytes) (live : Finset Bytes) (roots : List Bytes) : Prop :=
  ∀ live', Grown forest added live live' →
    ∀ hash, references forest.kids (added ++ roots) live' hash < 2 ^ 32

theorem Room.first (room : Room forest (added ++ added') live roots) : Room forest added live roots := by
  intro live' grown hash
  have bounded := room live' ⟨grown.old, fun x member => (grown.new x member).imp_right
    fun ⟨c, among, reaches⟩ => ⟨c, mem_append_left _ among, reaches⟩⟩ hash
  simp only [references, count_append] at bounded ⊢
  omega

theorem Room.second (room : Room forest (added ++ added') live roots) (grown : Grown forest added live live₁) :
    Room forest added' live₁ (added ++ roots) := by
  intro live' grown' hash
  have bounded := room live' (grown.trans grown') hash
  simp only [references, count_append] at bounded ⊢
  omega

theorem Room.kids (room : Room forest [hash] live roots) (dead : hash ∉ live) :
    Room forest (forest.kids hash) live roots := by
  intro live' grown other
  have bounded := room _ grown.insert other
  rw [references, Finset.sum_insert (grown.dead dead)] at bounded
  simp only [references, count_append] at bounded ⊢
  omega

def Adds (forest : Forest) (nodes : Trie.Database) (added : List Bytes) (x : Proc RefCounts Unit) : Prop :=
  ∀ live roots ref, Tally forest nodes live roots ref → Room forest added live roots →
    ∃ ref' live', x ref = (.ok (), ref') ∧ Tally forest nodes live' (added ++ roots) ref' ∧ Grown forest added live live'

theorem Adds.pure : Adds forest nodes [] (pure ()) := fun live _ ref tally _ => ⟨ref, live, rfl, tally, .refl [] live⟩

theorem Adds.bind (first : Adds forest nodes added x) (second : Adds forest nodes added' y) :
    Adds forest nodes (added ++ added') (do x; y) := by
  intro live roots ref tally room
  obtain ⟨ref₁, live₁, run₁, tally₁, grown₁⟩ := first live roots ref tally room.first
  obtain ⟨ref₂, live₂, run₂, tally₂, grown₂⟩ := second live₁ _ ref₁ tally₁ (room.second grown₁)
  refine ⟨ref₂, live₂, by rw [bind_of_ok run₁, run₂], ⟨tally₂.clean, tally₂.nodes_eq, tally₂.counts.perm ?_⟩,
    grown₁.trans grown₂⟩
  rw [← append_assoc]
  exact perm_append_comm.append_right roots

variable {β : Type} {turn : β → Proc RefCounts Unit}

theorem Adds.forEach {items : List β} {f : β → List Bytes}
    (adds : ∀ item, Adds forest nodes (f item) (turn item)) : Adds forest nodes (items.flatMap f) (forEach items turn) := by
  induction items with
  | nil => exact .pure
  | cons item _ ih => exact (adds item).bind ih

def flushed (threshold : Nat) (persistIntermediate : Bool) (ref : RefCounts) : RefCounts :=
  if persistIntermediate && decide (threshold ≤ ref.counts.keys.length) = true then (flush ref).2 else ref

variable (threshold persistIntermediate) in
theorem Tally.flushed (tally : Tally forest nodes live roots ref) :
    Tally forest nodes live roots (flushed threshold persistIntermediate ref) := by
  unfold RefCounts.flushed
  split_ifs
  · have only := counting_flush ref tally.clean
    exact ⟨only.batch, by rw [only.db]; exact tally.nodes_eq, by rw [tallied, view_flush]; exact tally.counts⟩
  · exact tally

theorem Adds.after_flush {rest : Proc RefCounts Unit} (adds : Adds forest nodes added rest) :
    Adds forest nodes added (do
      let full ← gets fun ref : RefCounts => decide (threshold ≤ ref.counts.keys.length)
      when (persistIntermediate && full = true) flush
      rest) := by
  intro live roots ref tally room
  obtain ⟨ref', live', run, tally', grown⟩ := adds live roots _ (tally.flushed threshold persistIntermediate) room
  refine ⟨ref', live', ?_, tally', grown⟩
  rw [← run, gets_bind, flushed, when]
  split_ifs <;> rfl

theorem Tally.loadCount (tally : Tally forest nodes live roots ref) (hash : Bytes) :
    ∃ ref', loadCount hash ref = (.ok (view ref hash), ref') ∧ Tally forest nodes live roots ref' ∧
      view ref' = view ref ∧ (ref'.counts.load hash).isSome := by
  refine ⟨(setCount hash (view ref hash) ref).2, ?_, ⟨tally.clean, tally.nodes_eq, ?_⟩, ?_, ?_⟩
  · unfold view
    rw [tally.clean]
    rfl
  · rw [tallied, view_setCount, update_eq_self]
    exact tally.counts
  · rw [view_setCount, update_eq_self]
  · simp [setCount, Proc.modify]

theorem Tally.increment (tally : Tally forest nodes live roots ref) (known : (ref.counts.load hash).isSome)
    (alive : hash ∈ live) (room : Room forest [hash] live roots) :
    Tally forest nodes live (hash :: roots) (increment hash ref).2 := by
  refine ⟨tally.clean, tally.nodes_eq, ?_⟩
  have bounded := room live (.refl [hash] live) hash
  rw [singleton_append, references_cons_self, ← tally.counts.total] at bounded
  have next : (view ref hash + 1).toNat = tallied ref hash + 1 := by
    rw [UInt32.toNat_add, UInt32.toNat_one]
    exact Nat.mod_eq_of_lt bounded
  rw [tallied_of_view (view_increment (.inl known)), next]
  exact tally.counts.again alive

theorem Tally.first (tally : Tally forest nodes live (forest.kids hash ++ roots) ref) (dead : hash ∉ live) :
    Tally forest nodes (insert hash live) (hash :: roots) (RefCounts.increment hash ref).2 := by
  have zero : view ref hash = 0 := by
    by_contra counted
    exact dead (tally.mem_live_iff.mpr counted)
  refine ⟨tally.clean, tally.nodes_eq, ?_⟩
  rw [tallied_of_view (view_increment (.inr zero)), zero]
  exact tally.counts.enter dead

theorem adds_node {own : Proc RefCounts Unit} (adds : Adds forest nodes (forest.kids hash) own) :
    Adds forest nodes [hash] (do
      let count ← loadCount hash
      when (count = 0) own
      increment hash) := by
  intro live roots ref tally room
  obtain ⟨ref₁, loaded, tally₁, _, known⟩ := tally.loadCount hash
  rw [bind_of_ok loaded]
  by_cases zero : view ref hash = 0
  · have dead : hash ∉ live := fun member => tally.mem_live_iff.mp member zero
    obtain ⟨_, live₂, run, tally₂, grown⟩ := adds live roots ref₁ tally₁ (room.kids dead)
    refine ⟨_, _, ?_, tally₂.first (grown.dead dead), grown.insert⟩
    rw [when, if_pos zero, bind_of_ok run]
    rfl
  · have alive : hash ∈ live := tally.mem_live_iff.mpr zero
    refine ⟨_, live, ?_, tally₁.increment known alive room, .refl [hash] live⟩
    rw [when, if_neg zero]
    rfl

variable (forest nodes) in
def Within (depth : Nat) (n : Trie.Node) : Prop :=
  ∀ c ∈ refs n, 2 * forest.rank c + 3 ≤ depth ∧ forest.Complete nodes c

variable {n : Trie.Node}

theorem within_of_kids (deep : 2 * forest.rank hash + 1 ≤ depth) (complete : forest.Complete nodes hash)
    (part : ∀ c ∈ refs n, c ∈ forest.kids hash) : Within forest nodes depth n := fun c member =>
  ⟨by have := forest.kids_fall hash c (part c member); omega, complete.of_kid (part c member)⟩

theorem adds_loaded (found : forest.node hash = some n) (plain : Plain n) (deep : 2 * forest.rank hash + 1 ≤ depth)
    (complete : forest.Complete nodes hash)
    (below : ∀ m, Flat m → 1 ≤ depth → Within forest nodes depth m →
      Adds forest nodes (refs m) (createRefCounts threshold persistIntermediate depth m)) :
    Adds forest nodes [hash] (createRefCounts threshold persistIntermediate (depth + 1) (withHash hash n)) := by
  have kids := forest.kids_of_node found
  cases n with
  | nil | valueNode v | hashNode h => exact plain.elim
  | shortNode _ val _ =>
    rw [withHash, withHash_of_flat plain]
    refine Adds.after_flush (adds_node ?_)
    rw [kids]
    exact below val plain (by omega) (within_of_kids deep complete fun c member => by rw [kids]; exact member)
  | fullNode children _ =>
    rw [withHash]
    refine Adds.after_flush (adds_node ?_)
    rw [kids]
    refine Adds.forEach fun i => ?_
    simp only [withHash_of_flat (plain i)]
    have adds := below (children i) (plain i) (by omega) (within_of_kids deep complete fun c member => by
      rw [kids]
      exact mem_flatMap.mpr ⟨i, mem_finRange i, member⟩)
    unfold when
    split_ifs with present
    · exact adds
    · rw [withHash_of_flat (plain i), Bool.not_eq_false] at present
      rw [refs_of_isNil present]
      exact .pure

theorem adds_hash (holds : forest.Holds nodes) (complete : forest.Complete nodes hash)
    (found : forest.node hash = some n)
    (adds : Adds forest nodes [hash] (createRefCounts threshold persistIntermediate depth (withHash hash n))) :
    Adds forest nodes [hash] (do
      let count ← loadCount hash
      if count ≠ 0 then increment hash
      else
        let db ← gets RefCounts.db
        let child ← lift (resolveHash db hash)
        createRefCounts threshold persistIntermediate depth child) := by
  intro live roots ref tally room
  obtain ⟨ref₁, loaded, tally₁, _, known⟩ := tally.loadCount hash
  rw [bind_of_ok loaded]
  split_ifs with counted
  · have alive : hash ∈ live := tally.mem_live_iff.mpr counted
    exact ⟨_, live, rfl, tally₁.increment known alive room, .refl [hash] live⟩
  · rw [← tally₁.nodes_eq] at holds complete
    obtain ⟨_, found', resolved⟩ := complete.resolveHash holds
    obtain rfl := Option.mem_unique found' found
    rw [gets_bind, resolved, lift_ok_bind]
    exact adds live roots ref₁ tally₁ room

theorem adds_createRefCounts (plain : forest.AllPlain) (holds : forest.Holds nodes) {m : Trie.Node} (flat : Flat m)
    (positive : 1 ≤ depth) (within : Within forest nodes depth m) :
    Adds forest nodes (refs m) (createRefCounts threshold persistIntermediate depth m) := by
  induction depth using Nat.strong_induction_on generalizing m with
  | _ depth ih =>
    obtain ⟨depth, rfl⟩ := Nat.exists_eq_add_of_le' positive
    cases m with
    | nil | valueNode v => exact .after_flush .pure
    | shortNode _ _ _ => exact flat.elim
    | fullNode _ _ => exact flat.elim
    | hashNode hash =>
      obtain ⟨_, complete⟩ := within hash (List.mem_singleton_self hash)
      obtain ⟨depth, rfl⟩ := Nat.exists_eq_add_of_le' (show 2 ≤ depth by omega)
      obtain ⟨enc, stored⟩ := Option.ne_none_iff_exists'.mp (complete hash (.refl hash))
      obtain ⟨n, -, found⟩ := holds hash enc stored
      exact .after_flush (adds_hash holds complete found (adds_loaded found (plain hash n found) (by omega) complete
        fun m flat positive within => ih (depth + 1) (by omega) flat positive within))

variable (threshold persistIntermediate) in
theorem adds_createRefCountsOf (plain : forest.AllPlain) (holds : forest.Holds nodes) {root : Bytes}
    (deep : 2 * forest.rank root + 2 ≤ depth) (complete : forest.Complete nodes root) :
    Adds forest nodes [root] (createRefCountsOf threshold persistIntermediate depth root) := by
  intro live roots ref tally room
  have stored : forest.Complete ref.db.nodes root := by rwa [tally.nodes_eq]
  obtain ⟨n, found, resolved⟩ := stored.resolveHash (by rwa [tally.nodes_eq])
  obtain ⟨depth, rfl⟩ := Nat.exists_eq_add_of_le' (show 1 ≤ depth by omega)
  rw [createRefCountsOf, gets_bind, resolved, lift_ok_bind]
  exact adds_loaded found (plain root n found) (by omega) complete
    (fun m flat positive within => adds_createRefCounts plain holds flat positive within) live roots ref tally room

/-- A state of releasing: the batch deletes the nodes that are not live anymore, and the counts are right. -/
structure Releasing (forest : Forest) (db : PruneDB) (initial live : Finset Bytes) (roots : List Bytes) (ref : RefCounts) :
    Prop where
  db_eq : ref.db = db
  nodes_eq : ∀ x, ref.batch.nodes x = if x ∈ initial ∧ x ∉ live then none else db.nodes x
  kept : ∀ x, ref.batch.counts x = db.counts x ∨ ref.batch.counts x = none
  within : live ⊆ initial
  counts : Counts forest.kids live roots (tallied ref)

variable {db : PruneDB} {initial : Finset Bytes} {removed removed' : List Bytes}

def Releases (forest : Forest) (db : PruneDB) (initial : Finset Bytes) (removed : List Bytes) (x : Proc RefCounts Unit) :
    Prop :=
  ∀ live roots ref, Releasing forest db initial live (removed ++ roots) ref → ∃ ref' live', x ref = (.ok (), ref') ∧
    Releasing forest db initial live' roots ref'

theorem Releases.pure : Releases forest db initial [] (pure ()) := fun live _ ref releasing => ⟨ref, live, rfl, releasing⟩

theorem Releases.bind (first : Releases forest db initial removed x) (second : Releases forest db initial removed' y) :
    Releases forest db initial (removed ++ removed') (do x; y) := by
  intro live roots ref releasing
  rw [append_assoc] at releasing
  obtain ⟨ref₁, live₁, run₁, releasing₁⟩ := first live _ ref releasing
  obtain ⟨ref₂, live₂, run₂, releasing₂⟩ := second live₁ roots ref₁ releasing₁
  exact ⟨ref₂, live₂, by rw [bind_of_ok run₁, run₂], releasing₂⟩

theorem Releases.forEach {items : List β} {f : β → List Bytes}
    (releases : ∀ item, Releases forest db initial (f item) (turn item)) :
    Releases forest db initial (items.flatMap f) (forEach items turn) := by
  induction items with
  | nil => exact .pure
  | cons item _ ih => exact (releases item).bind ih

theorem Releasing.releasedCount (releasing : Releasing forest db initial live roots ref) (alive : hash ∈ live) :
    ∃ ref', releasedCount hash ref = (.ok (view ref hash), ref') ∧ Releasing forest db initial live roots ref' ∧
      view ref' = view ref := by
  have counted : view ref hash ≠ 0 := tallied_pos.mp ((releasing.counts.live_iff hash).mp alive)
  have known : ∃ ref', knownCount hash ref = (.ok (view ref hash), ref') ∧ Releasing forest db initial live roots ref' ∧
      view ref' = view ref := by
    cases loaded : ref.counts.load hash with
    | some _ =>
      refine ⟨ref, ?_, releasing, rfl⟩
      simp [knownCount, loaded, view]
    | none =>
      -- a count that the batch has not deleted is in the database
      have stored : db.counts hash = some (view ref hash) := by
        have seen : view ref hash = (ref.batch.counts hash).getD 0 := by simp [view, loaded]
        rcases releasing.kept hash with kept | deleted
        · rw [seen, kept]
          cases found : db.counts hash with
          | some _ => rfl
          | none =>
            rw [seen, kept, found] at counted
            exact absurd rfl counted
        · rw [seen, deleted] at counted
          exact absurd rfl counted
      have same : view (setCount hash (view ref hash) ref).2 = view ref := by rw [view_setCount, update_eq_self]
      refine ⟨(setCount hash (view ref hash) ref).2, ?_, ⟨releasing.db_eq, releasing.nodes_eq, releasing.kept,
        releasing.within, by rw [tallied, same]; exact releasing.counts⟩, same⟩
      rw [knownCount, gets_bind, loaded, releasing.db_eq, stored]
      rfl
  obtain ⟨ref', run, releasing', same⟩ := known
  refine ⟨ref', ?_, releasing', same⟩
  rw [RefCounts.releasedCount, bind_of_ok run, when, if_neg counted]
  rfl

theorem Releasing.setCount (releasing : Releasing forest db initial live (hash :: roots) ref) (several : 1 < view ref hash) :
    Releasing forest db initial live roots (setCount hash (view ref hash - 1) ref).2 := by
  refine ⟨releasing.db_eq, releasing.nodes_eq, releasing.kept, releasing.within, ?_⟩
  rw [tallied_of_view (view_setCount _), UInt32.toNat_sub_of_le _ _ (UInt32.le_of_lt several)]
  exact releasing.counts.release (UInt32.lt_iff_toNat_lt.mp several)

theorem Releasing.deleteNode (releasing : Releasing forest db initial live (hash :: roots) ref) (last : view ref hash = 1) :
    Releasing forest db initial (live.erase hash) (forest.kids hash ++ roots) (deleteNode hash ref).2 := by
  have alive : hash ∈ live := releasing.counts.root_live (mem_cons_self ..)
  have viewed : view (RefCounts.deleteNode hash ref).2 = update (view ref) hash 0 := by
    funext x
    by_cases same : x = hash
    · subst same
      simp [view, RefCounts.deleteNode, inBatch, Proc.modify, PruneDB.deleteNode, PruneDB.deleteCount]
    · simp [view, RefCounts.deleteNode, inBatch, Proc.modify, PruneDB.deleteNode, PruneDB.deleteCount, same]
  refine ⟨releasing.db_eq, fun x => ?_, fun x => ?_, (Finset.erase_subset ..).trans releasing.within,
    by rw [tallied_of_view viewed]; exact releasing.counts.leave (congrArg UInt32.toNat last)⟩
  · change update ref.batch.nodes hash none x = _
    by_cases same : x = hash
    · subst same
      simp [releasing.within alive]
    · rw [update_of_ne same, releasing.nodes_eq]
      simp [same]
  · change update ref.batch.counts hash none x = _ ∨ update ref.batch.counts hash none x = _
    by_cases same : x = hash
    · subst same
      simp
    · rw [update_of_ne same]
      exact releasing.kept x

theorem releases_node {own : Proc RefCounts Unit} (releases : Releases forest db initial (forest.kids hash) own) :
    Releases forest db initial [hash] (do
      let count ← releasedCount hash
      if count > 1 then setCount hash (count - 1)
      else do
        deleteNode hash
        own) := by
  intro live roots ref releasing
  have alive : hash ∈ live := releasing.counts.root_live (mem_cons_self ..)
  obtain ⟨ref₁, run, releasing₁, same⟩ := releasing.releasedCount alive
  rw [bind_of_ok run, ← same]
  split_ifs with several
  · exact ⟨_, live, rfl, releasing₁.setCount several⟩
  · have last : view ref₁ hash = 1 := by
      have counted : 0 < (view ref₁ hash).toNat := (releasing₁.counts.live_iff hash).mp alive
      have single := UInt32.le_iff_toNat_le.mp (UInt32.not_lt.mp several)
      rw [← UInt32.toNat_inj]
      exact Nat.le_antisymm single counted
    exact releases _ roots _ (releasing₁.deleteNode last)

theorem releases_loaded (found : forest.node hash = some n) (plain : Plain n)
    (deep : 2 * forest.rank hash + 1 ≤ depth) (complete : forest.Complete db.nodes hash)
    (below : ∀ m, Flat m → 1 ≤ depth → Within forest db.nodes depth m → Releases forest db initial (refs m) (prune depth m)) :
    Releases forest db initial [hash] (prune (depth + 1) (withHash hash n)) := by
  have kids := forest.kids_of_node found
  cases n with
  | nil | valueNode v | hashNode h => exact plain.elim
  | shortNode _ val _ =>
    rw [withHash, withHash_of_flat plain]
    refine releases_node ?_
    rw [kids]
    exact below val plain (by omega) (within_of_kids deep complete fun c member => by rw [kids]; exact member)
  | fullNode children _ =>
    rw [withHash]
    refine releases_node ?_
    rw [kids]
    refine Releases.forEach fun i => ?_
    simp only [withHash_of_flat (plain i)]
    have releases := below (children i) (plain i) (by omega) (within_of_kids deep complete fun c member => by
      rw [kids]
      exact mem_flatMap.mpr ⟨i, mem_finRange i, member⟩)
    unfold when
    split_ifs with present
    · exact releases
    · rw [withHash_of_flat (plain i), Bool.not_eq_false] at present
      rw [refs_of_isNil present]
      exact .pure

theorem releases_prune (plain : forest.AllPlain) (holds : forest.Holds db.nodes) {m : Trie.Node} (flat : Flat m)
    (positive : 1 ≤ depth) (within : Within forest db.nodes depth m) :
    Releases forest db initial (refs m) (prune depth m) := by
  induction depth using Nat.strong_induction_on generalizing m with
  | _ depth ih =>
    obtain ⟨depth, rfl⟩ := Nat.exists_eq_add_of_le' positive
    cases m with
    | nil => exact .pure
    | valueNode _ => exact .pure
    | shortNode _ _ _ => exact flat.elim
    | fullNode _ _ => exact flat.elim
    | hashNode hash =>
      obtain ⟨_, complete⟩ := within hash (List.mem_singleton_self hash)
      obtain ⟨depth, rfl⟩ := Nat.exists_eq_add_of_le' (show 2 ≤ depth by omega)
      intro live roots ref releasing
      have alive : hash ∈ live := releasing.counts.root_live (mem_cons_self ..)
      obtain ⟨ref₁, run, releasing₁, same⟩ := releasing.releasedCount alive
      rw [prune, bind_of_ok run, ← same]
      split_ifs with several
      · exact ⟨_, live, rfl, releasing₁.setCount several⟩
      · obtain ⟨n, found, resolved⟩ := complete.resolveHash holds
        rw [gets_bind, releasing₁.db_eq, resolved, lift_ok_bind]
        exact releases_loaded found (plain hash n found) (by omega) complete
          (fun m flat positive within => ih (depth + 1) (by omega) flat positive within) live roots ref₁ releasing₁

variable (initial) in
theorem releases_pruneOf (plain : forest.AllPlain) (holds : forest.Holds db.nodes) {root : Bytes}
    (deep : 2 * forest.rank root + 2 ≤ depth) (complete : forest.Complete db.nodes root) :
    Releases forest db initial [root] (pruneOf depth root) := by
  intro live roots ref releasing
  obtain ⟨n, found, resolved⟩ := complete.resolveHash holds
  obtain ⟨depth, rfl⟩ := Nat.exists_eq_add_of_le' (show 1 ≤ depth by omega)
  rw [pruneOf, gets_bind, releasing.db_eq, resolved, lift_ok_bind]
  exact releases_loaded found (plain root n found) (by omega) complete
    (fun m flat positive within => releases_prune plain holds flat positive within) live roots ref releasing

end RefCounts

end Nkn.Pruning
