import Nkn.Soundness.Concrete
import Nkn.Proofs.TrieHash

/-! # Encodings of trie nodes

A node is written in the form that `hasChildren` gives it, with compact paths and the hashes of its larger children, and
is read back in this form. -/

namespace Nkn.Trie

namespace Node

/-- `hasChildren`: the form in which a node is written. -/
def hasChildren (env : Env) : Node → Collapsed
  | .shortNode key val _ => .shortNode (hexToCompact key) (val.hashVal env false).hashed
  | .fullNode children _ => .fullNode fun i => ((children i).hashChild env false i).hashed
  | n => uncollapsed n

def isEmbedded (env : Env) : Node → Bool
  | .shortNode key val flags => ((shortNode key val flags).hasChildren env).serialize.length < 32
  | .fullNode children flags => ((fullNode children flags).hasChildren env).serialize.length < 32
  | _ => true

/-- A node with hashes in place of the nodes that are stored on their own. -/
def shrunk (env : Env) : Node → Node
  | .shortNode key val _ =>
    .shortNode key (if val.isEmbedded env then val.shrunk env else .hashNode (sha256Key env (val.hasChildren env).serialize)) {}
  | .fullNode children _ => .fullNode (fun i => if (children i).isEmbedded env then (children i).shrunk env
      else .hashNode (sha256Key env ((children i).hasChildren env).serialize)) {}
  | n => n

def Remembers (env : Env) (flags : NodeFlag) (n : Node) : Prop := ∀ h, flags.hash = some h →
  flags.dirty = false ∧ h = sha256Key env (n.hasChildren env).serialize ∧ n.isEmbedded env = false

/-- Nodes with paths of nibbles, which may have an end, and with children that are hashes, values that are not empty, or
nodes; the last child of a full node is a value, and no other one is. -/
def Encodable (env : Env) : Node → Prop
  | .nil => True
  | .valueNode v => v ≠ [] ∧ v.length < 2 ^ 64
  | .hashNode h => h.length < 2 ^ 64
  | .shortNode key val flags => IsPath key ∧ (hexToCompact key).length < 2 ^ 64 ∧ val ≠ .nil ∧ val.Encodable env ∧
      Remembers env flags (.shortNode key val flags)
  | .fullNode children flags => (∀ i, (children i).Encodable env) ∧
      (∀ i, if i = 16 then children i = .nil ∨ ∃ v, children i = .valueNode v else ∀ v, children i ≠ .valueNode v) ∧
      Remembers env flags (.fullNode children flags)

variable {env : Env} {n : Node} {flags : NodeFlag}

theorem Remembers.hash_eq_none (remembers : Remembers env flags n) (cached : flags.cached = none) : flags.hash = none := by
  cases remembered : flags.hash with
  | none => rfl
  | some h => simp [NodeFlag.cached, (remembers h remembered).1, remembered] at cached

def referred (env : Env) (n : Node) : Collapsed :=
  if n.isEmbedded env then n.hasChildren env else .hashNode (sha256Key env (n.hasChildren env).serialize)

theorem Remembers.referred_eq (remembers : Remembers env flags n) {h : Bytes} (cached : flags.cached = some h) :
    n.referred env = .hashNode h := by
  unfold NodeFlag.cached at cached
  split_ifs at cached
  obtain ⟨-, rfl, large⟩ := remembers h cached
  simp [referred, large]

theorem stored_eq {c : Collapsed} (other : ∀ h, c ≠ .hashNode h) : (store env false false c none).1 =
    if c.serialize.length < 32 then c else .hashNode (sha256Key env c.serialize) := by
  cases c with
  | hashNode h => exact absurd rfl (other h)
  | _ =>
    simp only [store, and_true, Option.getD_none]
    split_ifs <;> simp_all

theorem hashed_eq (encodable : n.Encodable env) (other : ∀ v, n ≠ .valueNode v) :
    (n.hash env false false).hashed = n.referred env := by
  cases n with
  | nil | hashNode h => simp [hash, referred, isEmbedded, hasChildren, uncollapsed]
  | valueNode v => exact absurd rfl (other v)
  | shortNode _ _ flags =>
    have remembers := encodable.2.2.2.2
    cases cached : flags.cached with
    | some _ => rw [hash_short_cached cached, remembers.referred_eq cached]
    | none =>
      rw [hash_short_eq cached, remembers.hash_eq_none cached]
      exact (stored_eq (by simp)).trans (if_congr decide_eq_true_iff.symm rfl rfl)
  | fullNode _ flags =>
    have remembers := encodable.2.2
    cases cached : flags.cached with
    | some _ => rw [hash_full_cached cached, remembers.referred_eq cached]
    | none =>
      simp only [hash, cached, remembers.hash_eq_none cached]
      exact (stored_eq (by simp)).trans (if_congr decide_eq_true_iff.symm rfl rfl)

theorem hashVal_eq (encodable : n.Encodable env) : (n.hashVal env false).hashed = n.referred env := by
  cases n with
  | valueNode _ => rfl
  | _ => exact hashed_eq encodable (by simp)

theorem hashChild_eq {i : Nibble} (encodable : n.Encodable env)
    (placed : if i = 16 then n = .nil ∨ ∃ v, n = .valueNode v else ∀ v, n ≠ .valueNode v) :
    (n.hashChild env false i).hashed = n.referred env := by
  unfold hashChild
  split_ifs at placed ⊢
  · rcases placed with rfl | ⟨_, rfl⟩ <;> rfl
  · exact hashed_eq encodable placed

theorem Encodable.read (encodable : n.Encodable env) :
    (n.hasChildren env).Writable ∧ (n.hasChildren env).decoded = n.shrunk env := by
  have refers {n : Node} (read : (n.hasChildren env).Writable ∧ (n.hasChildren env).decoded = n.shrunk env) :
      (n.referred env).Writable ∧ (n.referred env).decoded =
        if n.isEmbedded env then n.shrunk env else .hashNode (sha256Key env (n.hasChildren env).serialize) := by
    unfold referred
    split_ifs
    · exact read
    · exact ⟨by simp [Collapsed.Writable, length_sha256Key], rfl⟩
  induction n with
  | nil => simp [hasChildren, uncollapsed, Collapsed.Writable, Collapsed.decoded, shrunk]
  | valueNode _ => exact ⟨encodable.2, by simp [hasChildren, uncollapsed, Collapsed.decoded, shrunk, encodable.1]⟩
  | hashNode _ => exact ⟨encodable, rfl⟩
  | shortNode key _ _ ih =>
    obtain ⟨path, sized, -, below, -⟩ := encodable
    obtain ⟨writable, decoded⟩ := refers (ih below)
    rw [hasChildren, hashVal_eq below]
    refine ⟨⟨sized, ⟨key, path, rfl⟩, writable⟩, ?_⟩
    rw [Collapsed.decoded_shortNode path, decoded, shrunk]
  | fullNode _ _ ih =>
    obtain ⟨below, placed, -⟩ := encodable
    have child (i : Nibble) := refers (ih i (below i))
    simp only [hasChildren, fun i => hashChild_eq (below i) (placed i)]
    exact ⟨fun i => (child i).1, by simp [Collapsed.decoded, shrunk, (child _).2]⟩

end Node

/-- A node is read back from its encoding with hashes in place of its large children, and no byte is left. -/
theorem node_encoding_round_trip {env : Env} {n : Node} (encodable : n.Encodable env) :
    deserialize (n.hasChildren env).serialize.length (n.hasChildren env).serialize = .ok (n.shrunk env, []) ∧
      ∀ key, IsPath key → compactToHex (hexToCompact key) = .ok key := by
  obtain ⟨writable, decoded⟩ := encodable.read
  have read := Collapsed.deserialize_serialize writable le_rfl []
  rw [List.append_nil, decoded] at read
  exact ⟨read, fun key => compactToHex_hexToCompact⟩

theorem node_encoding_round_trip_leaf :
    let leaf := Node.shortNode [1, 16] (.valueNode [8]) {}
    deserialize 6 (leaf.hasChildren (Tables.env {})).serialize = .ok (leaf, []) := by
  have encodable : (Node.shortNode [1, 16] (.valueNode [8]) {}).Encodable (Tables.env {}) :=
    ⟨⟨[1], by decide, .inr rfl⟩, by decide, by simp, by simp [Node.Encodable], by simp [Node.Remembers]⟩
  exact (node_encoding_round_trip encodable).1

end Nkn.Trie
