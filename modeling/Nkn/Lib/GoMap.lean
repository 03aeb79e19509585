import Mathlib.Data.List.AList

/-! # Finite maps and write-back tables

Maps with an explicit set of present keys, and a cache of pending entries over a backing store: a read takes the pending
entry before the stored one, and a flush moves the pending entries into the store. -/

namespace Go

open AList List

/-- A finite map; a key is present or absent, as in a Go `map` or `sync.Map`. -/
abbrev GoMap (K V : Type) := AList (fun _ : K => V)

namespace GoMap

variable {K V R : Type} [DecidableEq K]

variable (map : GoMap K V)

def load (key : K) : Option V := map.lookup key

def store (key : K) (value : V) : GoMap K V := map.insert key value

def delete (key : K) : GoMap K V := map.erase key

def read (default : V) (key : K) : V := (map.load key).getD default

@[simp] theorem load_empty (key : K) : (∅ : GoMap K V).load key = none := lookup_empty key

@[simp] theorem load_store (key key' : K) (value : V) :
    (map.store key value).load key' = if key' = key then some value else map.load key' := by
  split
  · subst key'
    exact lookup_insert map
  · exact lookup_insert_ne ‹_›

@[simp] theorem load_delete (key key' : K) :
    (map.delete key).load key' = if key' = key then none else map.load key' := by
  split
  · subst key'
    exact lookup_erase key map
  · exact lookup_erase_ne ‹_›

@[simp] theorem read_empty (default : V) (key : K) : (∅ : GoMap K V).read default key = default := by
  simp [read]

@[simp] theorem read_store (default : V) (key key' : K) (value : V) :
    (map.store key value).read default key' = if key' = key then value else map.read default key' := by
  unfold read
  rw [load_store]
  split <;> rfl

theorem mem_entries {map : GoMap K V} {key : K} {value : V} :
    (⟨key, value⟩ : Sigma fun _ : K => V) ∈ map.entries ↔ map.load key = some value :=
  (mem_dlookup_iff map.nodupKeys).symm

theorem length_le_one_iff {map : GoMap K V} {key : K} (here : (map.load key).isSome = true) :
    ¬map.entries.length > 1 ↔ ∀ key', (map.load key').isSome = true → key' = key := by
  obtain ⟨_, found⟩ := Option.isSome_iff_exists.mp here
  have member := mem_entries.mpr found
  constructor
  · intro short key' there
    obtain ⟨_, found'⟩ := Option.isSome_iff_exists.mp there
    have member' := mem_entries.mpr found'
    obtain ⟨entry, only⟩ : ∃ entry, map.entries = [entry] := by
      have positive := length_pos_of_mem member
      exact length_eq_one_iff.mp (by omega)
    rw [only, mem_singleton] at member member'
    exact congrArg Sigma.fst (member'.trans member.symm)
  · intro only long
    obtain ⟨first, second, rest, entries⟩ : ∃ first second rest, map.entries = first :: second :: rest := by
      match map.entries, long with
      | first :: second :: rest, _ => exact ⟨first, second, rest, rfl⟩
    have keys := map.nodupKeys
    have both (entry) (among : entry ∈ map.entries) : entry.1 = key := only entry.1 (by rw [mem_entries.mp among]; rfl)
    rw [entries] at keys
    refine (nodupKeys_cons.mp keys).1 ?_
    rw [both first (by simp [entries]), ← both second (by simp [entries])]
    simp [List.keys]

/-- Writes every entry of a list into a store; `encode` gives `none` for an entry that is to be deleted. -/
def flushEntries (encode : V → Option R) (stored : K → Option R) : List (Sigma fun _ : K => V) → K → Option R
  | [] => stored
  | ⟨key, value⟩ :: rest => Function.update (flushEntries encode stored rest) key (encode value)

def flush (encode : V → Option R) (stored : K → Option R) (map : GoMap K V) : K → Option R :=
  flushEntries encode stored map.entries

private theorem flushEntries_apply (encode : V → Option R) (stored : K → Option R)
    (entries : List (Sigma fun _ : K => V)) (key : K) :
    flushEntries encode stored entries key =
      match entries.dlookup key with
      | some value => encode value
      | none => stored key := by
  induction entries with
  | nil => rfl
  | cons entry rest ih =>
    obtain ⟨first, value⟩ := entry
    by_cases same : key = first
    · subst same
      simp [flushEntries, dlookup_cons_eq]
    · have skip : (⟨first, value⟩ :: rest : List (Sigma fun _ : K => V)).dlookup key = rest.dlookup key :=
        dlookup_cons_ne rest ⟨first, value⟩ same
      simp only [flushEntries, Function.update_of_ne same, skip]
      exact ih

theorem flush_apply (encode : V → Option R) (stored : K → Option R) (map : GoMap K V) (key : K) :
    map.flush encode stored key =
      match map.load key with
      | some value => encode value
      | none => stored key :=
  flushEntries_apply encode stored map.entries key

end GoMap

/-- A backing store with pending entries over it. A pending entry is a record or an explicit nil. -/
structure Table (K V : Type) where
  stored : K → Option V
  pending : GoMap K (Option V)

namespace Table

variable {K V : Type} [DecidableEq K]

def ofStore (stored : K → Option V) : Table K V := ⟨stored, ∅⟩

variable (table : Table K V)

/-- The pending record of a key, else its stored record: a pending nil does not hide the store. -/
def read (key : K) : Option V :=
  match table.pending.load key with
  | some (some value) => some value
  | _ => table.stored key

def put (key : K) (value : V) : Table K V :=
  { table with pending := table.pending.store key (some value) }

def putNil (key : K) : Table K V :=
  { table with pending := table.pending.store key none }

/-- Writes the pending entries to the store; a nil, or a record that `encode` drops, deletes the key. -/
def finalize (encode : V → Option V) (commit : Bool) (table : Table K V) : Table K V where
  stored := table.pending.flush (fun entry => entry.bind encode) table.stored
  pending := if commit then ∅ else table.pending

@[simp] theorem read_ofStore (stored : K → Option V) (key : K) : (Table.ofStore stored).read key = stored key := by
  simp [Table.ofStore, read]

@[simp] theorem read_put (key key' : K) (value : V) :
    (table.put key value).read key' = if key' = key then some value else table.read key' := by
  by_cases same : key' = key <;> simp [put, read, same]

@[simp] theorem put_put (key : K) (value value' : V) : (table.put key value).put key value' = table.put key value' :=
  congrArg (Table.mk table.stored) (insert_insert table.pending)

def Agree (table table' : Table K V) (key : K) : Prop :=
  table'.stored key = table.stored key ∧ table'.pending.load key = table.pending.load key

theorem Agree.of_eq {table table' : Table K V} (same : table' = table) (key : K) : table.Agree table' key :=
  ⟨by rw [same], by rw [same]⟩

variable {table : Table K V}

theorem agree_store {entry : Option V} {key key' : K} (other : key' ≠ key) :
    table.Agree ⟨table.stored, table.pending.store key entry⟩ key' :=
  ⟨rfl, by simp [other]⟩

def NoNil : Prop := ∀ key, table.pending.load key ≠ some none

theorem noNil_ofStore (stored : K → Option V) : (Table.ofStore stored).NoNil := by
  simp [NoNil, Table.ofStore]

theorem NoNil.put (noNil : table.NoNil) (key : K) (value : V) : (table.put key value).NoNil := by
  intro key'
  have := noNil key'
  by_cases same : key' = key <;> simp [Table.put, same, this]

theorem stored_finalize (encode : V → Option V) (commit : Bool) (table : Table K V) (key : K) :
    (table.finalize encode commit).stored key =
      match table.pending.load key with
      | some entry => entry.bind encode
      | none => table.stored key := by
  simp only [finalize, GoMap.flush_apply]
  cases table.pending.load key <;> rfl

/-- A flush keeps what a reader observes of a key, if it observes the same of the key's record and of its encoding, or of
an absent record if that is dropped. -/
theorem observe_finalize_key {β : Type} (observe : Option V → β) (encode : V → Option V) (commit : Bool)
    (noNil : table.NoNil) {key : K}
    (faithful : ∀ value, table.read key = some value → observe (encode value) = observe (some value)) :
    observe ((table.finalize encode commit).read key) = observe (table.read key) := by
  have flushed := stored_finalize encode commit table key
  cases entry : table.pending.load key with
  | none =>
    rw [entry] at flushed
    cases commit <;> simp [read, finalize, entry] at flushed ⊢ <;> rw [flushed]
  | some pending =>
    cases pending with
    | none => exact absurd entry (noNil key)
    | some value =>
      rw [entry] at flushed
      have committed : (table.finalize encode true).read key = encode value := by
        simpa [read, finalize] using flushed
      cases commit with
      | true =>
        have before : table.read key = some value := by simp [read, entry]
        rw [committed, before, faithful value before]
      | false => simp [read, finalize, entry]

/-- A flush keeps what a reader observes of each record, if it observes the same of an encoded record and
observes of a dropped record what it observes of an absent one. -/
theorem observe_finalize {β : Type} (observe : Option V → β) (encode : V → Option V) (commit : Bool)
    (noNil : table.NoNil) (faithful : ∀ value, observe (encode value) = observe (some value))
    (key : K) : observe ((table.finalize encode commit).read key) = observe (table.read key) :=
  observe_finalize_key observe encode commit noNil fun value _ => faithful value

end Table

/-- The orders in which maps are enumerated: the order may be another one for every map and every place at which it is
enumerated. -/
structure Enumeration where
  range : {K V : Type} → (place : List UInt8) → (map : GoMap K V) → List (Sigma fun _ : K => V)
  perm : ∀ {K V : Type} (place : List UInt8) (map : GoMap K V), (range place map).Perm map.entries

def Enumeration.stored : Enumeration where
  range _ map := map.entries
  perm _ _ := .refl _

section

variable {K V : Type} [DecidableEq K]

def writeAll (stored : K → Option V) (entries : List (K × Option V)) : K → Option V :=
  entries.foldl (fun stored entry => Function.update stored entry.1 entry.2) stored

theorem writeAll_append (stored : K → Option V) (entries entries' : List (K × Option V)) :
    writeAll stored (entries ++ entries') = writeAll (writeAll stored entries) entries' :=
  foldl_append

theorem writeAll_apply_of_ne {stored : K → Option V} {entries : List (K × Option V)} {key : K}
    (other : ∀ entry ∈ entries, entry.1 ≠ key) : writeAll stored entries key = stored key := by
  induction entries generalizing stored with
  | nil => rfl
  | cons _ _ ih =>
    obtain ⟨first, others⟩ := forall_mem_cons.mp other
    exact (ih others).trans (Function.update_of_ne first.symm _ _)

theorem writeAll_eq_self {stored : K → Option V} {entries : List (K × Option V)}
    (same : ∀ entry ∈ entries, stored entry.1 = entry.2) : writeAll stored entries = stored := by
  induction entries with
  | nil => rfl
  | cons _ _ ih =>
    obtain ⟨first, others⟩ := forall_mem_cons.mp same
    rw [writeAll, foldl_cons, Function.update_eq_self_iff.mpr first.symm]
    exact ih others

theorem writeAll_perm {stored : K → Option V} {entries entries' : List (K × Option V)} (perm : entries.Perm entries')
    (consistent : ∀ entry ∈ entries, ∀ entry' ∈ entries, entry.1 = entry'.1 → entry = entry') :
    writeAll stored entries = writeAll stored entries' := by
  refine perm.foldl_eq' (fun first member second member' stored => ?_) stored
  by_cases same : first.1 = second.1
  · rw [consistent first member second member' same]
  · exact Function.update_comm same _ _ _

end

end Go
