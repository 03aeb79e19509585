import Nkn.Model.TrieSync
import Nkn.Soundness.TrieCommit

/-! # Completeness of the download of a state trie

In every order of the calls, a scheduled hash is pending or its node is there, with the nodes below there or pending. Only
hashes right below a node are scheduled, so an embedded node has to contain none. -/

namespace Nkn.Trie.Sync

open Go Outcome List GoMap Except

def held (state : State) : Database := (state.sync.commit state.db).2

def IsPending (state : State) (hash : Uint256) : Prop := (state.sync.nodeReqs.load hash).isSome = true

theorem held_eq (state : State) (hash : Uint256) :
    held state hash.toArray = (state.sync.membatch.load hash).or (state.db hash.toArray) := by
  rcases written_eq state.db (state.sync.membatch.entries.map fun entry => (entry.1.toArray, entry.2)) hash.toArray with
    ⟨absent, same⟩ | ⟨put, member, atKey, same⟩
  · have missing : state.sync.membatch.load hash = none := by
      by_contra present
      obtain ⟨_, found⟩ := Option.ne_none_iff_exists'.mp present
      exact absent _ (mem_map_of_mem (mem_entries.mpr found)) rfl
    rw [missing]
    exact same
  · obtain ⟨_, among, rfl⟩ := mem_map.mp member
    have found := mem_entries.mp among
    rw [Word.toArray_inj.mp atKey] at found
    rw [found]
    exact same

variable {env : Env} {state : State} {hash : Uint256} {root : Uint256}

inductive Node.RefersDirectly : Node → Bytes → Prop
  | shortNode {key : Key} {flags : NodeFlag} (h : Bytes) : RefersDirectly (.shortNode key (.hashNode h) flags) h
  | fullNode {children : Nibble → Node} {flags : NodeFlag} {h : Bytes} (i : Nibble) : children i = .hashNode h →
      RefersDirectly (.fullNode children flags) h

def FlatBlob (blob : Bytes) : Prop :=
  ∀ n, decodeNode blob = .ok n → ∀ h, n.Refers h → Node.RefersDirectly n h

variable {n : Node}

theorem mem_childNodes {nodes : List Node} {h : Bytes} (ran : childNodes n = .ok nodes)
    (direct : Node.RefersDirectly n h) : Node.hashNode h ∈ nodes := by
  cases direct with
  | shortNode =>
    simp only [childNodes] at ran
    split_ifs at ran
    · cases ran
    · obtain rfl := ok.inj ran
      simp
  | fullNode i child =>
    obtain rfl := ok.inj ran
    refine mem_filter.mpr ⟨mem_map.mpr ⟨i, mem_finRange i, child⟩, rfl⟩

theorem mustDecodeNode_of_decodeNode {blob : Bytes} (decoded : decodeNode blob = .ok n) :
    mustDecodeNode blob = .ok n := by
  simp only [decodeNode, bind_eq_ok] at decoded
  obtain ⟨_, -, ⟨_, _⟩, read, made⟩ := decoded
  obtain rfl := Except.ok.inj made
  rw [mustDecodeNode, read]

variable {sync : Sync} {req : Request}

variable {requests requests' : List Request}

theorem addRequest_keeps (ran : sync.addRequest req requests n = .ok requests') : requests ⊆ requests' := by
  cases n with
  | hashNode _ =>
    obtain ⟨_, -, made⟩ := bind_eq_ok.mp ran
    obtain rfl := ok.inj made
    split_ifs
    · exact List.Subset.refl _
    · exact subset_append_left _ _
  | _ =>
    obtain rfl := ok.inj ran
    exact List.Subset.refl _

theorem request_of_mem {nodes : List Node} (ran : nodes.foldlM (sync.addRequest req) requests = .ok requests') :
    requests ⊆ requests' ∧ ∀ h, Node.hashNode h ∈ nodes → ∃ hash : Uint256, h = hash.toArray ∧
      ((sync.membatch.load hash).isSome = true ∨ ∃ child ∈ requests', child.hash = hash) := by
  induction nodes generalizing requests with
  | nil =>
    obtain rfl := foldlM_nil_eq_ok.mp ran
    exact ⟨List.Subset.refl _, by simp⟩
  | cons _ _ ih =>
    obtain ⟨_, first, rest⟩ := foldlM_cons_eq_ok.mp ran
    obtain ⟨kept, made⟩ := ih rest
    refine ⟨List.Subset.trans (addRequest_keeps first) kept, fun h member => ?_⟩
    rcases mem_cons.mp member with rfl | later
    · obtain ⟨hash, parsed, added⟩ := bind_eq_ok.mp first
      refine ⟨hash, uint256ParseFromBytes_eq_ok.mp parsed, ?_⟩
      obtain rfl := ok.inj added
      by_cases batched : (sync.membatch.load hash).isSome = true
      · exact .inl batched
      · rw [if_neg batched] at kept
        exact .inr ⟨⟨req.path, none, hash⟩, kept (by simp), rfl⟩
    · exact made h later

theorem request_of_direct {requests : List Request} {h : Bytes}
    (ran : sync.children req n = .ok requests) (direct : Node.RefersDirectly n h) :
    ∃ hash : Uint256, h = hash.toArray ∧
      ((sync.membatch.load hash).isSome = true ∨ ∃ child ∈ requests, child.hash = hash) := by
  obtain ⟨_, listed, looped⟩ := bind_eq_ok.mp ran
  exact (request_of_mem looped).2 h (mem_childNodes listed direct)

theorem load_schedule (req : Request) (sync : Sync) : ((schedule req sync).nodeReqs.load hash).isSome = true ↔
      (sync.nodeReqs.load hash).isSome = true ∨ req.hash = hash := by
  simp only [schedule, load_store]
  split_ifs with same
  · simp [same]
  · simp [Ne.symm same]

theorem load_scheduleAll (requests : List Request) (sync : Sync) :
    ((requests.foldl (fun s child => schedule child s) sync).nodeReqs.load hash).isSome = true ↔
      (sync.nodeReqs.load hash).isSome = true ∨ ∃ child ∈ requests, child.hash = hash := by
  induction requests generalizing sync with
  | nil => simp
  | cons _ _ ih =>
    rw [List.foldl_cons, ih, load_schedule]
    simp [or_assoc]

theorem membatch_scheduleAll (requests : List Request) (sync : Sync) :
    (requests.foldl (fun s child => schedule child s) sync).membatch = sync.membatch := by
  induction requests generalizing sync with
  | nil => rfl
  | cons _ _ ih => rw [foldl_cons, ih]; rfl

theorem process_cases (data : Bytes) (sync : Sync) :
    (∀ other, (((process hash data sync).2.nodeReqs.load other).isSome = true ↔ (sync.nodeReqs.load other).isSome = true)) ∧
        (process hash data sync).2.membatch = sync.membatch ∨
      ∃ req n requests, sync.nodeReqs.load hash = some req ∧ decodeNode data = .ok n ∧
        sync.children req n = .ok requests ∧
        (process hash data sync).2.membatch = sync.membatch.store req.hash data ∧
        ∀ other, (((process hash data sync).2.nodeReqs.load other).isSome = true ↔
          ((sync.nodeReqs.load other).isSome = true ∨ ∃ child ∈ requests, child.hash = other) ∧ other ≠ req.hash) := by
  unfold process
  rw [Proc.gets_bind]
  cases pending : sync.nodeReqs.load hash with
  | none => exact .inl ⟨fun _ => Iff.rfl, rfl⟩
  | some req =>
    simp only
    split_ifs
    · exact .inl ⟨fun _ => Iff.rfl, rfl⟩
    · cases decoded : decodeNode data with
      | error _ => exact .inl ⟨fun _ => Iff.rfl, rfl⟩
      | ok n =>
        rw [Proc.lift_ok_bind, Proc.modify_bind]
        -- the data is set before the children are looked at
        have filled (other : Uint256) : ((sync.nodeReqs.store hash { req with data := some data }).load other).isSome = true ↔
            (sync.nodeReqs.load other).isSome = true := by
          rw [load_store]
          split_ifs with same
          · simp [same, pending]
          · rfl
        cases listed : sync.children req n with
        | error _ =>
          refine .inl ⟨fun other => ?_, ?_⟩
          · erw [Proc.bind_of_error (by exact Prod.ext listed rfl)]
            exact filled other
          · erw [Proc.bind_of_error (by exact Prod.ext listed rfl)]
        | ok requests =>
          refine .inr ⟨req, n, requests, rfl, rfl, listed, ?_, fun other => ?_⟩
          · erw [Proc.bind_of_ok (by exact Prod.ext listed rfl)]
            change (finish req data (requests.foldl _ _)).membatch = _
            rw [finish, membatch_scheduleAll]
          · erw [Proc.bind_of_ok (by exact Prod.ext listed rfl)]
            change ((finish req data (requests.foldl _ _)).nodeReqs.load other).isSome = true ↔ _
            rw [finish, load_delete]
            split_ifs with own
            · simp [own]
            · rw [load_scheduleAll, filled other]
              simp [own]

def Owned (sync : Sync) : Prop := ∀ hash req, sync.nodeReqs.load hash = some req → req.hash = hash

theorem Owned.store {sync sync' : Sync} (owned : Owned sync)
    (stored : sync'.nodeReqs = sync.nodeReqs.store hash req) (own : req.hash = hash) : Owned sync' := by
  intro other req' found
  rw [stored, load_store] at found
  split_ifs at found with same
  · obtain rfl := Option.some.inj found
    exact own.trans same.symm
  · exact owned other req' found

theorem process_keeps {inv : Sync → Prop} {data : Bytes}
    (pending : sync.nodeReqs.load hash = some req) (holds : inv sync)
    (filed : ∀ s, inv s → inv { s with nodeReqs := s.nodeReqs.store hash { req with data := some data } })
    (scheduled : ∀ child s, inv s → inv (Sync.schedule child s))
    (finished : ∀ s, inv s → inv (finish req data s)) : inv (process hash data sync).2 := by
  have scheduledAll (requests : List Request) (s : Sync) (holds : inv s) :
      inv (requests.foldl (fun s child => Sync.schedule child s) s) := by
    induction requests generalizing s with
    | nil => exact holds
    | cons child _ ih => exact ih _ (scheduled child s holds)
  have consult (node : Node) : Proc.Keeps inv fun s => (s.children req node, s) := fun _ holds => holds
  unfold Sync.process
  rw [Proc.gets_bind, pending]
  simp only
  split_ifs
  · exact holds
  · exact Proc.Keeps.bind (Proc.keeps_lift _) (fun node =>
      Proc.Keeps.bind (Proc.keeps_modify filed) fun _ =>
      (consult node).bind fun requests =>
      Proc.Keeps.bind (Proc.keeps_modify (scheduledAll requests)) fun _ => Proc.keeps_modify finished) sync holds

theorem process_of_unknown (data : Bytes) (unknown : sync.nodeReqs.load hash = none) :
    (process hash data sync).2 = sync := by
  unfold Sync.process
  rw [Proc.gets_bind, unknown]
  rfl

theorem Owned.process (owned : Owned sync) (data : Bytes) : Owned (process hash data sync).2 := by
  cases pending : sync.nodeReqs.load hash with
  | none =>
    rw [process_of_unknown data pending]
    exact owned
  | some req =>
    refine process_keeps pending owned (fun _ owned' => owned'.store rfl (owned hash req pending))
      (fun _ _ owned => owned.store rfl rfl) fun s owned other req' found => ?_
    simp only [finish, load_delete] at found
    split_ifs at found
    exact owned other req' found

def Covered (state : State) (hash : Uint256) : Prop := IsPending state hash ∨ (held state hash.toArray).isSome = true

/-- The nodes that have arrived: each is there, and the hashes below it are pending or have arrived. -/
structure Closed (root : Uint256) (state : State) (arrived : Set Uint256) : Prop where
  owned : Owned state.sync
  root : IsPending state root ∨ root ∈ arrived
  batched : ∀ hash, (state.sync.membatch.load hash).isSome = true → hash ∈ arrived
  nodes : ∀ hash ∈ arrived, ∃ data n, held state hash.toArray = some data ∧ decodeNode data = .ok n ∧
    ∀ h, n.Refers h → ∃ below : Uint256, h = below.toArray ∧ (IsPending state below ∨ below ∈ arrived)

theorem covered_process (data : Bytes) {other : Uint256} (covered : Covered state other) :
    Covered { state with sync := (process hash data state.sync).2 } other := by
  unfold Covered IsPending at *
  rw [held_eq] at covered ⊢
  rcases process_cases data state.sync with ⟨same, batch⟩ | ⟨req, _, _, _, -, -, batch, after⟩
  · rw [batch, same other]
    exact covered
  · rw [batch, after other, load_store]
    by_cases own : other = req.hash
    · rw [if_pos own]
      exact .inr rfl
    · rw [if_neg own]
      rcases covered with before | there
      · exact .inl ⟨.inl before, own⟩
      · exact .inr there

variable {arrived : Set Uint256}

theorem Closed.process (closed : Closed root state arrived) {data : Bytes} (flat : FlatBlob data) :
    ∃ arrived', Closed root { state with sync := (process hash data state.sync).2 } arrived' := by
  rcases process_cases data state.sync with ⟨same, batch⟩ | ⟨req, n, _, pending, decoded, listed, batch, after⟩
  · refine ⟨arrived, closed.owned.process data, closed.root.imp_left (same root).mpr, fun hash batched => ?_,
      fun hash member => ?_⟩
    · rw [batch] at batched
      exact closed.batched hash batched
    · obtain ⟨data', n, there, decoded, below⟩ := closed.nodes hash member
      refine ⟨data', n, ?_, decoded, fun h refers => ?_⟩
      · rw [held_eq] at there ⊢
        rw [batch]
        exact there
      · obtain ⟨child, same', known⟩ := below h refers
        exact ⟨child, same', known.imp_left (same child).mpr⟩
  · obtain rfl : req.hash = hash := closed.owned hash req pending
    -- what was pending is pending still, or it is the node that arrives
    have advance {other : Uint256} (known : IsPending state other ∨ other ∈ arrived) :
        IsPending { state with sync := (Sync.process req.hash data state.sync).2 } other ∨ other ∈ insert req.hash arrived := by
      by_cases own : other = req.hash
      · exact .inr (.inl own)
      · exact known.imp (fun before => (after other).mpr ⟨.inl before, own⟩) .inr
    refine ⟨insert req.hash arrived, closed.owned.process data, advance closed.root, fun other batched => ?_,
      fun other member => ?_⟩
    · rw [batch, load_store] at batched
      split_ifs at batched with own
      · exact .inl own
      · exact .inr (closed.batched other batched)
    · by_cases own : other = req.hash
      · subst own
        refine ⟨data, n, ?_, decoded, fun h refers => ?_⟩
        · rw [held_eq, batch]
          simp
        · obtain ⟨below, same, known⟩ := request_of_direct listed (flat n decoded h refers)
          refine ⟨below, same, ?_⟩
          rcases known with batched | requested
          · exact .inr (.inr (closed.batched below batched))
          · by_cases self : below = req.hash
            · exact .inr (.inl self)
            · exact .inl ((after below).mpr ⟨.inr requested, self⟩)
      · obtain ⟨data', n', there, decoded', below⟩ := closed.nodes other (member.resolve_left own)
        refine ⟨data', n', ?_, decoded', fun h refers => ?_⟩
        · rw [held_eq] at there ⊢
          rw [batch, load_store, if_neg own]
          exact there
        · obtain ⟨child, same, known⟩ := below h refers
          exact ⟨child, same, advance known⟩

theorem Closed.call (closed : Closed root state arrived) {c : Call}
    (flat : ∀ blob, c = .process blob → FlatBlob blob) : ∃ arrived', Closed root (call env state c) arrived' := by
  cases c with
  | pop max | push hashes prio => exact ⟨arrived, closed.owned, closed.root, closed.batched, closed.nodes⟩
  | commit => exact ⟨arrived, closed.owned, closed.root, by simp [Sync.call, Sync.commit], closed.nodes⟩
  | process blob => exact closed.process (flat blob rfl)

theorem covered_call (c : Call) (covered : Covered state hash) : Covered (call env state c) hash := by
  cases c with
  | pop max | push hashes prio | commit => exact covered
  | process blob => exact covered_process blob covered

theorem closed_new (root : Uint256) (db : Database) : Closed root ⟨new root, db⟩ ∅ := by
  refine ⟨fun hash req found => ?_, .inl ?_, ?_, by simp⟩
  · simp only [new, addSubTrie, schedule, load_store] at found
    split_ifs at found with same
    · obtain rfl := Option.some.inj found
      exact same.symm
    · simp at found
  · simp [IsPending, new, addSubTrie, schedule]
  · simp [new, addSubTrie, schedule]

/-- No processed blob is a node with a hash inside an embedded node. -/
def FlatBlobs (calls : List Call) : Prop := ∀ blob, Call.process blob ∈ calls → FlatBlob blob

theorem closed_run (db : Database) {calls : List Call} (flat : FlatBlobs calls) :
    ∃ arrived, Closed root (run env root db calls) arrived := by
  induction calls using reverseRecOn with
  | nil => exact ⟨∅, closed_new root db⟩
  | append_singleton calls c ih =>
    obtain ⟨_, closed⟩ := ih fun blob member => flat blob (by simp [member])
    have step : ∃ arrived', Closed root (call env (run env root db calls) c) arrived' :=
      closed.call fun blob same => flat blob (by simp [same])
    simpa [run] using step

theorem covered_run {db : Database} {before : List Call} (after : List Call)
    (pending : IsPending (run env root db before) hash) : Covered (run env root db (before ++ after)) hash := by
  induction after using reverseRecOn with
  | nil =>
    rw [append_nil]
    exact .inl pending
  | append_singleton after c ih =>
    have step : Covered (call env (run env root db (before ++ after)) c) hash := covered_call c ih
    simpa [run] using step

def handedOut (state : State) (out : List Uint256) : Call → List Uint256
  | .pop max => out ++ (state.sync.pop max).1.map Item.value
  | .push hashes _ => out.filter (· ∉ hashes)
  | _ => out

def track (env : Env) (acc : State × List Uint256) (c : Call) : State × List Uint256 :=
  (call env acc.1 c, handedOut acc.1 acc.2 c)

def outstanding (env : Env) (root : Uint256) (db : Database) (calls : List Call) : List Uint256 :=
  (calls.foldl (track env) (⟨new root, db⟩, [])).2

def Waits (queue : PriorityQueue) (hash : Uint256) : Prop := ∃ item ∈ queue, item.value = hash

variable {queue : PriorityQueue}

theorem waits_push {value : Uint256} {priority : Int64} :
    Waits (queue.push value priority) hash ↔ Waits queue hash ∨ hash = value := by
  unfold PriorityQueue.push
  split_ifs with there
  · refine ⟨.inl, fun waits => waits.elim id fun same => ?_⟩
    rw [same]
    exact there
  · constructor
    · rintro ⟨item, member, same⟩
      rcases Heap.mem_push.mp member with before | rfl
      · exact .inl ⟨item, before, same⟩
      · exact .inr same.symm
    · rintro (⟨item, member, same⟩ | rfl)
      · exact ⟨item, Heap.mem_push.mpr (.inl member), same⟩
      · exact ⟨_, Heap.mem_push.mpr (.inr rfl), rfl⟩

theorem mem_of_pop {queue queue' : PriorityQueue} {item : Item} (ran : queue.pop = some (item, queue')) {other : Item}
    (member : other ∈ queue) : other = item ∨ other ∈ queue' := by
  obtain ⟨last, found, same⟩ := Option.map_eq_some_iff.mp ran
  obtain ⟨rfl, rfl⟩ := Prod.mk.inj same
  have whole := dropLast_append_getLast? last found
  have among : other ∈ Heap.popped PriorityQueue.less queue := Heap.mem_popped.mpr member
  rw [← whole] at among
  simpa [or_comm] using among

theorem mem_popLoop {max fuel : Nat} {popped : List Item} {item : Item} (member : item ∈ queue ∨ item ∈ popped) :
    item ∈ (popLoop max fuel queue popped).1 ∨ item ∈ (popLoop max fuel queue popped).2 := by
  induction fuel generalizing queue popped with
  | zero => exact member.symm
  | succ _ ih =>
    simp only [popLoop]
    split_ifs
    · cases ran : queue.pop with
      | none => exact member.symm
      | some result =>
        obtain ⟨_, _⟩ := result
        refine ih ?_
        rcases member with member | member
        · rcases mem_of_pop ran member with rfl | rest
          · exact .inr (by simp)
          · exact .inl rest
        · exact .inr (by simp [member])
    · exact member.symm

def Queued (out : List Uint256) (sync : Sync) : Prop :=
  ∀ hash, (sync.nodeReqs.load hash).isSome = true → Waits sync.queue hash ∨ hash ∈ out

variable {out : List Uint256}

theorem Queued.schedule (queued : Queued out sync) (req : Request) : Queued out (schedule req sync) := by
  intro other pending
  have waits : Waits (Sync.schedule req sync).queue other ↔ Waits sync.queue other ∨ other = req.hash := waits_push
  rw [waits]
  rcases (load_schedule req sync).mp pending with before | same
  · exact (queued other before).imp_left .inl
  · exact .inl (.inr same.symm)

structure QueuedWith (hash : Uint256) (out : List Uint256) (sync : Sync) : Prop where
  queued : Queued out sync
  here : Waits sync.queue hash ∨ hash ∈ out

theorem QueuedWith.schedule (queued : QueuedWith hash out sync) (req : Request) :
    QueuedWith hash out (Sync.schedule req sync) where
  queued := queued.queued.schedule req
  here := queued.here.imp_left fun waits => waits_push.mpr (.inl waits)

theorem Queued.process (queued : Queued out sync) (data : Bytes) : Queued out (process hash data sync).2 := by
  cases pending : sync.nodeReqs.load hash with
  | none =>
    rw [process_of_unknown data pending]
    exact queued
  | some _ =>
    have start : QueuedWith hash out sync := ⟨queued, queued hash (by rw [pending]; rfl)⟩
    refine (process_keeps pending start (fun s holds => ⟨fun other found => ?_, holds.here⟩)
      (fun child _ holds => holds.schedule child) fun s holds => ⟨fun other found => ?_, holds.here⟩).queued
    · rw [load_store] at found
      split_ifs at found with same
      · rw [same]
        exact holds.here
      · exact holds.queued other found
    · simp only [finish, load_delete] at found
      split_ifs at found
      · cases found
      · exact holds.queued other found

theorem waits_pushAll {hashes : List Uint256} {prio : Int64} :
    Waits (hashes.foldl (fun queue h => PriorityQueue.push queue h prio) queue) hash ↔ Waits queue hash ∨ hash ∈ hashes := by
  induction hashes generalizing queue with
  | nil => simp
  | cons _ _ ih =>
    rw [List.foldl_cons, ih, waits_push]
    simp [or_assoc]

theorem Queued.call (queued : Queued out state.sync) (c : Call) :
    Queued (handedOut state out c) (call env state c).sync := by
  cases c with
  | pop max =>
    intro other pending
    rcases queued other pending with ⟨item, member, rfl⟩ | there
    · have kept : item ∈ (popLoop max state.sync.queue.length state.sync.queue []).1 ∨
          item ∈ (popLoop max state.sync.queue.length state.sync.queue []).2 := mem_popLoop (.inl member)
      rcases kept with popped | rest
      · exact .inr (mem_append_right _ (mem_map_of_mem popped))
      · exact .inl ⟨item, rest, rfl⟩
    · exact .inr (mem_append_left _ there)
  | push hashes prio =>
    intro other pending
    have waits : Waits (state.sync.push hashes prio).queue other ↔ Waits state.sync.queue other ∨ other ∈ hashes :=
      waits_pushAll
    by_cases pushed : other ∈ hashes
    · exact .inl (waits.mpr (.inr pushed))
    · exact (queued other pending).imp (fun before => waits.mpr (.inl before)) fun there => by simp [handedOut, there, pushed]
  | commit => exact queued
  | process blob => exact queued.process blob

theorem queued_run (db : Database) (calls : List Call) :
    Queued (outstanding env root db calls) (run env root db calls).sync := by
  have tracked (calls : List Call) : (calls.foldl (track env) (⟨new root, db⟩, [])).1 = run env root db calls ∧
        Queued (calls.foldl (track env) (⟨new root, db⟩, [])).2 (run env root db calls).sync := by
    induction calls using reverseRecOn with
    | nil =>
      have empty : Queued [] ⟨∅, ∅, [], false⟩ := by simp [Queued]
      exact ⟨rfl, empty.schedule ⟨[], none, root⟩⟩
    | append_singleton _ c ih =>
      obtain ⟨same, queued⟩ := ih
      rw [run, foldl_append, foldl_append]
      simp only [foldl_cons, foldl_nil]
      refine ⟨congrArg (call env · c) same, ?_⟩
      rw [track, same]
      exact queued.call c
  exact (tracked calls).2

theorem Closed.reachable (closed : Closed root state arrived) (done : state.sync.pending = 0)
    {h : Bytes} (reachable : Reachable (held state) root.toArray h) :
    ∃ hash ∈ arrived, h = hash.toArray := by
  have none (hash : Uint256) : ¬IsPending state hash := by
    intro pending
    obtain ⟨_, found⟩ := Option.isSome_iff_exists.mp pending
    have member := mem_entries.mpr found
    rw [length_eq_zero_iff.mp done] at member
    cases member
  induction reachable with
  | root => exact ⟨root, closed.root.resolve_left (none root), rfl⟩
  | child _ found decoded refers ih =>
    obtain ⟨hash, member, rfl⟩ := ih
    obtain ⟨_, _, there, decoded', below⟩ := closed.nodes hash member
    obtain rfl := Option.some.inj (there.symm.trans found)
    obtain rfl := ok.inj ((mustDecodeNode_of_decodeNode decoded').symm.trans decoded)
    obtain ⟨child, same, known⟩ := below _ refers
    exact ⟨child, known.resolve_left (none child), same⟩

/-- Over every schedule of calls with flat blobs: no scheduled hash is lost, none is forgotten by the queue, and once
nothing is pending the whole trie is there, and can be read from the database after a commit. -/
theorem sync_is_complete (root : Uint256) (db : Database) (calls : List Call) (flat : FlatBlobs calls) :
    (∀ before after hash, calls = before ++ after → IsPending (run env root db before) hash →
        Covered (run env root db calls) hash) ∧
      (∀ hash, IsPending (run env root db calls) hash →
        Waits (run env root db calls).sync.queue hash ∨ hash ∈ outstanding env root db calls) ∧
      ((run env root db calls).sync.pending = 0 →
        (∀ h, Reachable (held (run env root db calls)) root.toArray h →
            ∃ data n, held (run env root db calls) h = some data ∧ mustDecodeNode data = .ok n) ∧
          (∃ t, Trie.new root (run env root db (calls ++ [.commit])).db = .ok t) ∧
          ∀ h, Reachable (run env root db (calls ++ [.commit])).db root.toArray h →
            ∃ data n, (run env root db (calls ++ [.commit])).db h = some data ∧ mustDecodeNode data = .ok n) := by
  obtain ⟨arrived, closed⟩ : ∃ arrived, Closed root (run env root db calls) arrived := closed_run db flat
  refine ⟨fun before after hash split pending => ?_, fun hash pending => queued_run db calls hash pending, fun done => ?_⟩
  · subst split
    exact covered_run after pending
  · have committed : (run env root db (calls ++ [.commit])).db = held (run env root db calls) := by
      simp [run, call, held]
    have whole (h : Bytes) (reachable : Reachable (held (run env root db calls)) root.toArray h) :
        ∃ data n, held (run env root db calls) h = some data ∧ mustDecodeNode data = .ok n := by
      obtain ⟨hash, member, rfl⟩ := closed.reachable done reachable
      obtain ⟨data, n, there, decoded, -⟩ := closed.nodes hash member
      exact ⟨data, n, there, mustDecodeNode_of_decodeNode decoded⟩
    rw [committed]
    refine ⟨whole, ?_, whole⟩
    obtain ⟨data, n, there, decoded⟩ := whole root.toArray .root
    unfold Trie.new
    split_ifs
    · refine ⟨{ root := n, db := held (run env root db calls) }, ?_⟩
      rw [Node.resolveHash, there]
      simp [orFail, decoded]
    · exact ⟨_, rfl⟩

end Nkn.Trie.Sync

namespace Nkn.EmbeddedHash

open Trie Trie.Sync

def below : Uint256 := Word.ofNat 32 0x0a325ca303eb3014c43ae004970f343634db176fa1697bcc8c9efac94626488d

def blob : Bytes := [2, 1, 0x11, 2, 1, 0x12, 0, 32] ++ below.toArray

def root : Uint256 := Word.ofNat 32 0x5e8e5b36f3649dd67e139162d2218dd5804d6c4fecb6985235f3c1324267d6ee

def leaf : Bytes := [2, 1, 0x31, 1, 1, 0x41]

def leafHash : Uint256 := Word.ofNat 32 0xb75c79e3cafdd6a7ec2707e7ecb1ab7822ea7758d68cb313f82fa24e81720e16

def parent : Bytes := [2, 1, 0x12, 0, 32] ++ leafHash.toArray

def parentHash : Uint256 := Word.ofNat 32 0x210bb88bb60d629d5bda4d08581fda33514eadb63a15a8e6a2bcf299f91a8485

def tables : Tables where
  sha256 :=
    Tables.hashedTwice blob (Word.ofNat 32 0xd86029a75248c8c4c280668294e281c938817bf5586ff4da268fba8414e0f7eb) root ++
    Tables.hashedTwice leaf (Word.ofNat 32 0x9faa5f28a1b59a661d3d0bce6c1a4dee163e1ab0c09090e4cfb4cb3f95094b81) leafHash ++
    Tables.hashedTwice parent (Word.ofNat 32 0x92cea1c73e831d6ae9eef120644640167b904949819f396176e87a8ac51f53a8) parentHash

def empty : Database := fun _ => none

theorem decoded : decodeNode blob = .ok (.shortNode [1] (.shortNode [2] (.hashNode below.toArray) {}) {}) := by
  rfl

/-- Nothing is pending, and the node below is missing. -/
theorem embedded_hash_is_missed : (run tables.env root empty [.process blob]).sync.pending = 0 ∧
      Reachable (held (run tables.env root empty [.process blob])) root.toArray below.toArray ∧
      held (run tables.env root empty [.process blob]) below.toArray = none := by
  have facts : (run tables.env root empty [.process blob]).sync.pending = 0 ∧
      held (run tables.env root empty [.process blob]) root.toArray = some blob ∧
      held (run tables.env root empty [.process blob]) below.toArray = none := by decide +kernel
  refine ⟨facts.1, ?_, facts.2.2⟩
  exact .child .root facts.2.1 (mustDecodeNode_of_decodeNode decoded) (.shortNode (.shortNode (.hashNode _)))

theorem decoded_parent : decodeNode parent = .ok (.shortNode [2] (.hashNode leafHash.toArray) {}) := by
  rfl

theorem decoded_leaf : decodeNode leaf = .ok (.shortNode [1, 16] (.valueNode [0x41]) {}) := by
  rfl

theorem flat : FlatBlobs [.process parent, .pop 0, .process leaf] := by
  intro blob member n read h refers
  have either : blob = parent ∨ blob = leaf := by simpa using member
  rcases either with rfl | rfl
  · obtain rfl := Except.ok.inj (decoded_parent.symm.trans read)
    cases refers with
    | shortNode inner =>
      cases inner
      exact .shortNode _
  · obtain rfl := Except.ok.inj (decoded_leaf.symm.trans read)
    cases refers with
    | shortNode inner => cases inner

/-- A trie of two nodes is complete after its nodes have arrived. -/
theorem sync_is_complete_parent :
    ∃ t, Trie.new parentHash (run tables.env parentHash empty [.process parent, .pop 0, .process leaf, .commit]).db = .ok t := by
  have done : (run tables.env parentHash empty [.process parent, .pop 0, .process leaf]).sync.pending = 0 := by
    decide +kernel
  exact ((sync_is_complete parentHash empty [.process parent, .pop 0, .process leaf] flat).2.2 done).2.1

end Nkn.EmbeddedHash
