import Nkn.Model.MessageBuffer

/-! # Buffered messages

A message buffer stands for the list of the messages that it holds, in the order of their arrival. -/

namespace Nkn

open Go Outcome Int64 List Rbt

namespace Rbt

variable {V : Type} {tree : Rbt V} {key : Int64} {value : V}

def Sorted (tree : Rbt V) : Prop := tree.Pairwise (·.1 < ·.1)

theorem mem_put {entry : Int64 × V} :
    entry ∈ tree.put key value ↔ entry = (key, value) ∨ entry ∈ tree ∧ entry.1 ≠ key := by
  have apart : entry.1 ≠ key ↔ entry.1 < key ∨ key < entry.1 := by
    rw [lt_iff_toInt, lt_iff_toInt, ne_eq, ← toInt_inj]
    omega
  rw [put, mem_append, mem_cons, mem_filter, mem_filter, apart]
  simp only [decide_eq_true_eq]
  tauto

theorem Sorted.put (sorted : tree.Sorted) : (tree.put key value).Sorted := by
  refine pairwise_append.mpr ⟨sorted.filter _, pairwise_cons.mpr ⟨fun _ later => ?_, sorted.filter _⟩,
    fun entry earlier entry' later => ?_⟩
  · simpa using (mem_filter.mp later).2
  · have below : entry.1 < key := by simpa using (mem_filter.mp earlier).2
    rcases mem_cons.mp later with rfl | later
    · exact below
    · have above : key < entry'.1 := by simpa using (mem_filter.mp later).2
      rw [lt_iff_toInt] at *
      omega

theorem put_last (last : ∀ entry ∈ tree, entry.1 < key) : tree.put key value = tree ++ [(key, value)] := by
  rw [put, filter_eq_self.mpr (by simpa using last), filter_eq_nil_iff.mpr]
  intro entry member
  have below := last entry member
  rw [lt_iff_toInt] at below
  simp only [decide_eq_true_eq, lt_iff_toInt]
  omega

theorem eq_of_key_eq {α : Type} {key : α → Int64} {list : List α} (order : list.Pairwise (key · < key ·)) {a b : α}
    (left : a ∈ list) (right : b ∈ list) (same : key a = key b) : a = b := by
  have apart : (list.map key).Nodup := pairwise_map.mpr (order.imp fun {a b} less same => by
    rw [same, lt_iff_toInt] at less
    exact lt_irrefl _ less)
  exact inj_on_of_nodup_map apart left right same

theorem filter_key_ne {α : Type} {key : α → Int64} (before : List α) {after : List α} {a : α}
    (order : (before ++ a :: after).Pairwise (key · < key ·)) :
    (before ++ a :: after).filter (key · ≠ key a) = before ++ after := by
  have others : ∀ b ∈ before ++ after, key b ≠ key a := by
    intro b among same
    obtain ⟨_, later, earlier⟩ := pairwise_append.mp order
    have less : key b < key a ∨ key a < key b := (mem_append.mp among).imp
      (fun among => earlier b among a mem_cons_self) (rel_of_pairwise_cons later)
    rw [same, or_self, lt_iff_toInt] at less
    exact lt_irrefl _ less
  rw [filter_append, filter_cons_of_neg (by simp), ← filter_append]
  exact filter_eq_self.mpr fun b among => decide_eq_true (others b among)

end Rbt

namespace MessageBuffer

/-- A message in the buffer with its time of arrival and its number among the messages of that millisecond. -/
structure Held where
  clientID : Bytes
  node : MsgNode
  arrival : Int64
  place : Int64
deriving DecidableEq

namespace Held

def index (h : Held) : IndexNode := ⟨h.clientID, h.node.createId, h.node.expireId⟩

def deadline (h : Held) : ℤ := h.arrival.toInt + h.node.msg.maxHoldingSeconds.toNat * 1000

end Held

variable {fresh : Prop} {msgBuf msgBuf' : MessageBuffer} {held : List Held} {h : Held} {clientID : Bytes} {now : Int64}

/-- The clock did not go back and createIds do not overflow, and this is not the millionth message of a millisecond. -/
structure Timely (msgBuf : MessageBuffer) (now : Int64) : Prop where
  forward : msgBuf.lastMilliSecond.toInt ≤ now.toInt
  bounded : now.toInt < 9223372036854
  few : now = msgBuf.lastMilliSecond → msgBuf.seqId.toInt < 999999

/-- The deadline of a new message does not overflow, and no message in the buffer with the same deadline had the same number
in the millisecond of its arrival. -/
structure Unused (msgBuf : MessageBuffer) (held : List Held) (now : Int64) (msg : Pb.Relay) : Prop where
  bounded : now.toInt + msg.maxHoldingSeconds.toNat * 1000 < 9223372036854
  free : ∀ h ∈ held, h.deadline = now.toInt + msg.maxHoldingSeconds.toNat * 1000 → h.place ≠ msgBuf.nextSeqId now

/-- The histories of a buffer; in fresh ones a new message is `Unused`. -/
inductive Reached (fresh : Prop) : MessageBuffer → List Held → Prop
  | new : Reached fresh {} []
  | add {msgBuf : MessageBuffer} {held : List Held} {now : Int64} {msg : Pb.Relay} (clientID : Bytes)
      (reached : Reached fresh msgBuf held) (kept : msg.maxHoldingSeconds ≠ 0) (timely : Timely msgBuf now)
      (unused : fresh → Unused msgBuf held now msg) :
      Reached fresh (msgBuf.addMessage now clientID msg) (held ++ [⟨clientID, msgBuf.newNode now msg, now, msgBuf.nextSeqId now⟩])
  | ignore {msgBuf : MessageBuffer} {held : List Held} {msg : Pb.Relay} (now : Int64) (clientID : Bytes)
      (reached : Reached fresh msgBuf held) (zero : msg.maxHoldingSeconds = 0) :
      Reached fresh (msgBuf.addMessage now clientID msg) held
  | pop {msgBuf : MessageBuffer} {held : List Held} (clientID : Bytes) (reached : Reached fresh msgBuf held) :
      Reached fresh (msgBuf.popMessages clientID).2 (held.filter (·.clientID ≠ clientID))
  | expire {msgBuf msgBuf' : MessageBuffer} {held : List Held} {now : Int64} {expired : List MsgNode}
      (reached : Reached fresh msgBuf held) (run : msgBuf.removeExpired now = .ok (expired, msgBuf')) :
      Reached fresh msgBuf' (held.filter (·.node ∉ expired))
  | oldest {msgBuf msgBuf' : MessageBuffer} {held : List Held} {removed : Option MsgNode}
      (reached : Reached fresh msgBuf held) (run : msgBuf.removeOldest = .ok (removed, msgBuf')) :
      Reached fresh msgBuf' (held.filter (removed ≠ some ·.node))

structure Represents (fresh : Prop) (msgBuf : MessageBuffer) (held : List Held) : Prop where
  order : held.Pairwise (·.node.createId < ·.node.createId)
  buffer : ∀ clientID, msgBuf.buffer.read [] clientID =
    (held.filter (·.clientID = clientID)).map fun h => (h.node.createId, h.node)
  create : msgBuf.treeCreate = held.map fun h => (h.node.createId, h.index)
  expire : ∀ entry ∈ msgBuf.treeExpire, ∃ h ∈ held, entry = (h.node.expireId, h.index)
  sorted : msgBuf.treeExpire.Sorted
  total : msgBuf.totalBufSize = (held.map (·.node.getSize)).sum
  counter : 0 ≤ msgBuf.seqId.toInt ∧ msgBuf.seqId.toInt < 1000000 ∧ 0 ≤ msgBuf.lastMilliSecond.toInt
  latest : ∀ h ∈ held, h.node.createId.toInt ≤ msgBuf.lastMilliSecond.toInt * 1000000 + msgBuf.seqId.toInt
  own : fresh → ∀ h ∈ held, (h.node.expireId, h.index) ∈ msgBuf.treeExpire
  due : fresh → ∀ h ∈ held, h.node.expireId.toInt = h.deadline * 1000000 + h.place.toInt ∧
    0 < h.place.toInt ∧ h.place.toInt < 1000000

namespace Represents

theorem new : Represents fresh {} [] := by
  constructor <;> simp [Rbt.Sorted]

variable (rep : Represents fresh msgBuf held)

include rep

theorem createId_eq_iff {h' : Held} (member' : h' ∈ held) (member : h ∈ held) :
    h'.node.createId = h.node.createId ↔ h'.node = h.node :=
  ⟨fun same => by rw [eq_of_key_eq rep.order member' member same], fun same => by rw [same]⟩

theorem found (member : h ∈ held) :
    ∃ treeMsg, msgBuf.buffer.load h.clientID = some treeMsg ∧ treeMsg.get h.node.createId = some h.node := by
  have entries := rep.buffer h.clientID
  rw [GoMap.read] at entries
  cases loaded : msgBuf.buffer.load h.clientID with
  | none =>
    rw [loaded, Option.getD_none, eq_comm, List.map_eq_nil_iff, List.filter_eq_nil_iff] at entries
    exact absurd (decide_eq_true rfl) (entries h member)
  | some treeMsg =>
    rw [loaded, Option.getD_some] at entries
    refine ⟨treeMsg, rfl, ?_⟩
    rw [Rbt.get]
    cases search : treeMsg.find? (·.1 = h.node.createId) with
    | none =>
      refine absurd (decide_eq_true rfl) (List.find?_eq_none.mp search (h.node.createId, h.node) ?_)
      rw [entries]
      exact List.mem_map.mpr ⟨h, List.mem_filter.mpr ⟨member, decide_eq_true rfl⟩, rfl⟩
    | some entry =>
      have same : entry.1 = h.node.createId := by simpa using List.find?_some search
      obtain ⟨_, member', rfl⟩ := List.mem_map.mp (entries ▸ List.mem_of_find?_eq_some search)
      rw [Rbt.eq_of_key_eq rep.order (List.mem_filter.mp member').1 member same]
      rfl

theorem discard (member : h ∈ held) :
    Represents fresh ((msgBuf.takeOut h.clientID h.node h.node.createId).unindex h.node.createId h.node.expireId)
      (held.filter (·.node.createId ≠ h.node.createId)) where
  order := rep.order.filter _
  buffer clientID := by
    simp only [takeOut, unindex, GoMap.read_store]
    split_ifs with this
    · subst this
      rw [rep.buffer, remove, filter_map, filter_comm]
      rfl
    · rw [rep.buffer, filter_comm]
      congr 1
      refine (filter_eq_self.mpr fun h' member' => ?_).symm
      obtain ⟨member', client⟩ := mem_filter.mp member'
      refine decide_eq_true fun same => this ?_
      rw [← eq_of_key_eq rep.order member' member same]
      exact (of_decide_eq_true client).symm
  create := by
    simp only [takeOut, unindex, remove, rep.create, filter_map]
    rfl
  expire entry among := by
    obtain ⟨among, other⟩ := mem_filter.mp among
    obtain ⟨h', member', rfl⟩ := rep.expire entry among
    refine ⟨h', mem_filter.mpr ⟨member', decide_eq_true fun same => ?_⟩, rfl⟩
    rw [eq_of_key_eq rep.order member' member same] at other
    exact of_decide_eq_true other rfl
  sorted := rep.sorted.filter _
  total := by
    obtain ⟨_, _, rfl⟩ := append_of_mem member
    simp only [takeOut, unindex, rep.total, filter_key_ne _ rep.order, map_append, map_cons, List.sum_append, sum_cons]
    ring
  counter := rep.counter
  latest h' member' := rep.latest h' (mem_filter.mp member').1
  own isFresh h' member' := by
    obtain ⟨member', other⟩ := mem_filter.mp member'
    refine mem_filter.mpr ⟨rep.own isFresh h' member', decide_eq_true fun same => of_decide_eq_true other ?_⟩
    have entry := eq_of_key_eq rep.sorted (rep.own isFresh h' member') (rep.own isFresh h member) same
    exact congrArg (·.2.createId) entry
  due isFresh h' member' := rep.due isFresh h' (mem_filter.mp member').1

theorem newNode_ids (timely : Timely msgBuf now) (msg : Pb.Relay) :
    ∃ seqId : ℤ, (msgBuf.nextSeqId now).toInt = seqId ∧ 0 < seqId ∧ seqId < 1000000 ∧ 0 ≤ now.toInt ∧
      (msgBuf.newNode now msg).createId.toInt = now.toInt * 1000000 + seqId ∧
      (∀ h ∈ held, h.node.createId < (msgBuf.newNode now msg).createId) ∧
      (now.toInt + msg.maxHoldingSeconds.toNat * 1000 < 9223372036854 → (msgBuf.newNode now msg).expireId.toInt =
        (now.toInt + msg.maxHoldingSeconds.toNat * 1000) * 1000000 + seqId) := by
  obtain ⟨_, _, _⟩ := rep.counter
  obtain ⟨_, bounded, few⟩ := timely
  have next : (msgBuf.nextSeqId now).toInt = if now = msgBuf.lastMilliSecond then msgBuf.seqId.toInt + 1 else 1 := by
    rw [nextSeqId]
    by_cases same : now = msgBuf.lastMilliSecond
    · have few := few same
      have free : ¬(msgBuf.lastMilliSecond ≠ now ∨ msgBuf.seqId ≥ maxSeqId) := by
        rw [not_or, not_ne_iff, ge_iff_le, le_iff_toInt, show maxSeqId.toInt = 1000000 from rfl]
        exact ⟨same.symm, by omega⟩
      rw [if_neg free, if_pos same, toInt_add_of_fits] <;> rw [show (1 : Int64).toInt = 1 from rfl]
      exact ⟨by omega, by omega⟩
    · rw [if_pos (.inl (Ne.symm same)), if_neg same]
      rfl
  have range : 0 < (msgBuf.nextSeqId now).toInt ∧ (msgBuf.nextSeqId now).toInt < 1000000 := by
    rw [next]
    split_ifs with same
    · have few := few same
      omega
    · omega
  have created : (msgBuf.newNode now msg).createId.toInt = now.toInt * 1000000 + (msgBuf.nextSeqId now).toInt := by
    refine toInt_eq_of_fits ⟨by omega, by omega⟩ ?_
    rw [ofInt_add, ofInt_mul, ofInt_toInt, ofInt_toInt]
    rfl
  refine ⟨_, rfl, range.1, range.2, by omega, created, fun h member => ?_, fun bounded => ?_⟩
  · have latest := rep.latest h member
    rw [lt_iff_toInt, created, next]
    split_ifs with same
    · rw [same]
      omega
    · have later : msgBuf.lastMilliSecond.toInt ≠ now.toInt := fun equal => same (toInt_inj.mp equal).symm
      omega
  · refine toInt_eq_of_fits ⟨by omega, by omega⟩ ?_
    rw [ofInt_add, ofInt_mul, ofInt_add, ofInt_mul, ofInt_toInt, ofInt_toInt]
    rfl

theorem add {msg : Pb.Relay} (kept : msg.maxHoldingSeconds ≠ 0)
    (timely : Timely msgBuf now) (unused : fresh → Unused msgBuf held now msg) :
    Represents fresh (msgBuf.addMessage now clientID msg) (held ++ [⟨clientID, msgBuf.newNode now msg, now, msgBuf.nextSeqId now⟩]) := by
  obtain ⟨_, next, low, high, start, created, last, expires⟩ := rep.newNode_ids timely msg
  rw [addMessage, if_neg kept]
  constructor
  case order => exact pairwise_append.mpr ⟨rep.order, pairwise_singleton .., by simpa using last⟩
  case buffer =>
    intro client
    simp only [GoMap.read_store, filter_append, map_append]
    split_ifs with this
    · subst this
      rw [put_last, rep.buffer]
      · simp
      · rw [rep.buffer]
        exact forall_mem_map.mpr fun h member => last h (mem_filter.mp member).1
    · simp [rep.buffer, Ne.symm this]
  case create =>
    rw [rep.create, map_append]
    exact put_last (forall_mem_map.mpr last)
  case expire =>
    intro entry among
    rcases mem_put.mp among with rfl | ⟨among, _⟩
    · exact ⟨_, mem_append_right _ (mem_singleton_self _), rfl⟩
    · obtain ⟨h, member, same⟩ := rep.expire entry among
      exact ⟨h, mem_append_left _ member, same⟩
  case sorted => exact rep.sorted.put
  case total => simp [rep.total]
  case counter => exact next ▸ ⟨low.le, high, start⟩
  case latest =>
    intro h member
    rw [next]
    rcases mem_append.mp member with member | member
    · exact created ▸ (lt_iff_toInt.mp (last h member)).le
    · rw [mem_singleton.mp member, created]
  case own =>
    intro isFresh h member
    refine mem_put.mpr ?_
    rcases mem_append.mp member with member | member
    · refine .inr ⟨rep.own isFresh h member, fun same => ?_⟩
      obtain ⟨bounded, free⟩ := unused isFresh
      obtain ⟨due, low', high'⟩ := rep.due isFresh h member
      have expire := expires bounded
      rw [← same] at expire
      dsimp only at expire
      exact free h member (by omega) (toInt_inj.mp (by omega))
    · rw [mem_singleton.mp member]
      exact .inl rfl
  case due =>
    intro isFresh h member
    rcases mem_append.mp member with member | member
    · exact rep.due isFresh h member
    · rw [mem_singleton.mp member, expires (unused isFresh).bounded, Held.deadline]
      simp only [newNode, next]
      exact ⟨trivial, low, high⟩

theorem popLoop {messages : List Held} {fuel : ℕ}
    (ofClient : held.filter (·.clientID = clientID) = messages) (enough : messages.length ≤ fuel) :
    (MessageBuffer.popLoop clientID fuel msgBuf).1 = messages.map (·.node.msg) ∧
      Represents fresh (MessageBuffer.popLoop clientID fuel msgBuf).2 (held.filter (·.clientID ≠ clientID)) := by
  have entries := rep.buffer clientID
  rw [ofClient] at entries
  induction messages generalizing fuel msgBuf held with
  | nil =>
    have all : held.filter (·.clientID ≠ clientID) = held := by
      simpa [filter_eq_self, filter_eq_nil_iff] using ofClient
    rw [all]
    cases fuel <;> simp [MessageBuffer.popLoop, left, entries, rep]
  | cons h messages ih =>
    obtain ⟨_, rfl⟩ := Nat.exists_eq_add_of_le' ((Nat.le_add_left 1 _).trans enough)
    obtain ⟨member, client⟩ := mem_filter.mp (ofClient ▸ mem_cons_self : h ∈ held.filter _)
    obtain rfl := of_decide_eq_true client
    have rest : (held.filter (·.node.createId ≠ h.node.createId)).filter (·.clientID = h.clientID) = messages := by
      rw [filter_comm, ofClient]
      exact filter_key_ne [] (ofClient ▸ rep.order.filter _)
    have others : (held.filter (·.node.createId ≠ h.node.createId)).filter (·.clientID ≠ h.clientID) =
        held.filter (·.clientID ≠ h.clientID) := by
      rw [filter_comm]
      refine filter_eq_self.mpr fun h' member' => ?_
      obtain ⟨member', other⟩ := mem_filter.mp member'
      refine decide_eq_true fun same => of_decide_eq_true other ?_
      rw [eq_of_key_eq rep.order member' member same]
    have rep := rep.discard member
    obtain ⟨popped, final⟩ := ih rep rest (Nat.le_of_succ_le_succ enough) (by rw [rep.buffer, rest])
    rw [others] at final
    simp only [MessageBuffer.popLoop, entries, left, map_cons, head?_cons]
    exact ⟨by rw [popped], final⟩

theorem popMessages : (msgBuf.popMessages clientID).1 = (held.filter (·.clientID = clientID)).map (·.node.msg) ∧
      Represents fresh (msgBuf.popMessages clientID).2 (held.filter (·.clientID ≠ clientID)) :=
  rep.popLoop rfl (by rw [rep.buffer, length_map])

theorem expireLoop {nowId : Int64} {fuel : ℕ} (enough : msgBuf.treeExpire.length ≤ fuel) :
    ∃ expired msgBuf', MessageBuffer.expireLoop nowId fuel msgBuf = .ok (expired, msgBuf') ∧
      Represents fresh msgBuf' (held.filter (·.node ∉ expired)) ∧
      (∀ entry ∈ msgBuf'.treeExpire, nowId ≤ entry.1) ∧
      ∀ node ∈ expired, ∃ h ∈ held, h.node = node ∧ node.expireId < nowId := by
  have whole : held.filter (·.node ∉ ([] : List MsgNode)) = held := by simp
  induction fuel generalizing msgBuf held with
  | zero =>
    rw [Nat.le_zero, length_eq_zero_iff] at enough
    exact ⟨[], msgBuf, rfl, whole.symm ▸ rep, by simp [enough], by simp⟩
  | succ fuel ih =>
    cases entries : msgBuf.treeExpire with
    | nil => exact ⟨[], msgBuf, by simp [MessageBuffer.expireLoop, Rbt.left, entries], whole.symm ▸ rep, by simp [entries], by simp⟩
    | cons entry _ =>
      obtain ⟨h, member, rfl⟩ := rep.expire entry (entries ▸ mem_cons_self)
      simp only [MessageBuffer.expireLoop, Rbt.left, entries, head?_cons, Held.index]
      split_ifs with due
      · obtain ⟨_, loaded, got⟩ := rep.found member
        have fewer : (msgBuf.treeExpire.remove h.node.expireId).length ≤ fuel := by
          rw [entries, remove, filter_cons_of_neg (by simp)]
          rw [entries, length_cons] at enough
          exact (length_filter_le ..).trans (Nat.le_of_succ_le_succ enough)
        obtain ⟨expired, msgBuf', run, final, late, early⟩ := ih (rep.discard member) fewer (by simp)
        rw [filter_filter] at final
        have left : held.filter (·.node ∉ h.node :: expired) =
            held.filter fun x => decide (x.node ∉ expired) && decide (x.node.createId ≠ h.node.createId) := by
          refine filter_congr fun x among => ?_
          simp [rep.createId_eq_iff among member, Bool.and_comm]
        refine ⟨h.node :: expired, msgBuf', by simp only [loaded, got, run, ok_bind], left ▸ final, late, fun node among => ?_⟩
        rcases mem_cons.mp among with rfl | among
        · exact ⟨h, member, rfl, due⟩
        · obtain ⟨h', member', same⟩ := early node among
          exact ⟨h', (mem_filter.mp member').1, same⟩
      · refine ⟨[], msgBuf, rfl, whole.symm ▸ rep, fun entry among => ?_, by simp⟩
        have first := not_lt_iff_toInt.mp due
        rw [le_iff_toInt]
        rcases mem_cons.mp (entries ▸ among) with rfl | among
        · exact first
        · have sorted := rep.sorted
          rw [entries] at sorted
          exact first.trans (lt_iff_toInt.mp (rel_of_pairwise_cons sorted among)).le

theorem removeOldest :
    ∃ msgBuf', msgBuf.removeOldest = .ok (held.head?.map (·.node), msgBuf') ∧ Represents fresh msgBuf' held.tail := by
  cases held with
  | nil => exact ⟨msgBuf, by rw [MessageBuffer.removeOldest, rep.create]; rfl, rep⟩
  | cons _ _ =>
    obtain ⟨_, loaded, got⟩ := rep.found mem_cons_self
    refine ⟨_, ?_, (filter_key_ne [] rep.order) ▸ rep.discard mem_cons_self⟩
    simp only [MessageBuffer.removeOldest, left, rep.create, map_cons, head?_cons, Held.index, loaded, got]
    rfl

end Represents

theorem Reached.represents (reached : Reached fresh msgBuf held) : Represents fresh msgBuf held := by
  induction reached with
  | new => exact .new
  | add _ _ kept timely unused rep => exact rep.add kept timely unused
  | ignore _ _ _ zero _ => rwa [addMessage, if_pos zero]
  | pop _ _ rep => exact rep.popMessages.2
  | expire _ run rep =>
    obtain ⟨_, _, run', final, _⟩ := rep.expireLoop le_rfl
    obtain ⟨rfl, rfl⟩ := Prod.mk.inj (ok_unique run run')
    exact final
  | @oldest msgBuf msgBuf' held removed _ run rep =>
    obtain ⟨_, run', final⟩ := rep.removeOldest
    obtain ⟨rfl, rfl⟩ := Prod.mk.inj (ok_unique run run')
    cases held with
    | nil => exact final
    | cons h rest =>
      have left : (h :: rest).filter (some h.node ≠ some ·.node) = rest := by
        refine (filter_congr fun x among => ?_).trans (filter_key_ne [] rep.order)
        simp [rep.createId_eq_iff among mem_cons_self, eq_comm]
      exact left.symm ▸ final

theorem Represents.shrink {limit : UInt32} (rep : Represents fresh msgBuf held) (positive : 0 < limit) :
    ∃ msgBuf', msgBuf.shrink limit held.length = some (.ok msgBuf') ∧ msgBuf'.totalBufSize ≤ limit.toNat := by
  induction held generalizing msgBuf with
  | nil =>
    have fits : msgBuf.totalBufSize ≤ limit.toNat := by
      rw [rep.total]
      exact Int.natCast_nonneg _
    exact ⟨msgBuf, if_neg fun more => not_lt.mpr fits more.2, fits⟩
  | cons _ _ ih =>
    rw [length_cons, MessageBuffer.shrink]
    split_ifs with exceeds
    · obtain ⟨_, run, rep'⟩ := rep.removeOldest
      simp only [run]
      exact ih rep'
    · exact ⟨msgBuf, rfl, not_lt.mp fun more => exceeds ⟨positive, more⟩⟩

/-- The buffer is accounted for: its trees hold the same messages, and each operation finds what it looks for. -/
theorem message_buffer_accounting (reached : Reached False msgBuf held) :
    (∀ clientID, msgBuf.buffer.read [] clientID =
      (held.filter (·.clientID = clientID)).map fun h => (h.node.createId, h.node)) ∧
    msgBuf.treeCreate = held.map (fun h => (h.node.createId, h.index)) ∧
    msgBuf.totalBufSize = (held.map (·.node.getSize)).sum ∧
    (∀ clientID, (msgBuf.popMessages clientID).1 = (held.filter (·.clientID = clientID)).map (·.node.msg)) ∧
    (∃ msgBuf', msgBuf.removeOldest = .ok (held.head?.map (·.node), msgBuf')) ∧
    ∀ limit : UInt32, 0 < limit → ∃ fuel msgBuf', msgBuf.shrink limit fuel = some (.ok msgBuf') ∧
      msgBuf'.totalBufSize ≤ limit.toNat := by
  have rep := reached.represents
  obtain ⟨_, oldest, _⟩ := rep.removeOldest
  exact ⟨rep.buffer, rep.create, rep.total, fun _ => rep.popMessages.1, ⟨_, oldest⟩,
    fun _ positive => ⟨_, rep.shrink positive⟩⟩

namespace Sample

def message (maxHoldingSeconds : UInt32) : Pb.Relay := ⟨[], [], [], [1], maxHoldingSeconds, [], [], 1⟩

def first : MessageBuffer := addMessage 1000 [7] (message 2) {}

def firstHeld : Held := ⟨[7], newNode {} 1000 (message 2), 1000, 1⟩

theorem first_reached : Reached fresh first [firstHeld] :=
  .add [7] .new (by decide) ⟨by decide, by decide, by decide⟩ fun _ => ⟨by decide, by simp⟩

def both : MessageBuffer := first.addMessage 1000 [8] (message 1)

theorem both_reached : Reached fresh both [firstHeld, ⟨[8], first.newNode 1000 (message 1), 1000, 2⟩] :=
  .add [8] first_reached (by decide) ⟨by decide, by decide, by decide⟩ fun _ => ⟨by decide, by decide⟩

/-- Two messages arrive in one millisecond, and one of them has expired when the third arrives. -/
def swept : List MsgNode × MessageBuffer := (both.removeExpired 2500).toOption.getD ([], {})

def later : MessageBuffer := swept.2.addMessage 2500 [8] (message 1)

def laterHeld : Held := ⟨[8], swept.2.newNode 2500 (message 1), 2500, swept.2.nextSeqId 2500⟩

theorem later_reached : Reached fresh later [firstHeld, laterHeld] := by
  have run : both.removeExpired 2500 = .ok swept := eq_ok_of_isOk (by decide)
  have left : Reached fresh swept.2 [firstHeld] := both_reached.expire run
  exact .add [8] left (by decide) ⟨by decide, by decide, by decide⟩ fun _ => ⟨by decide, by decide⟩

theorem message_buffer_accounting_later : Reached False later [firstHeld, laterHeld] ∧
    (∀ clientID, (later.popMessages clientID).1 =
      ([firstHeld, laterHeld].filter (·.clientID = clientID)).map (·.node.msg)) ∧
    (∃ msgBuf', later.removeOldest = .ok (some firstHeld.node, msgBuf')) ∧
    ∃ fuel msgBuf', later.shrink 30 fuel = some (.ok msgBuf') ∧ msgBuf'.totalBufSize ≤ 30 := by
  obtain ⟨_, _, _, popped, oldest, shrunk⟩ := message_buffer_accounting later_reached
  exact ⟨later_reached, popped, oldest, shrunk 30 (by decide)⟩

/-- With a limit of zero the buffer is never reduced. -/
theorem no_limit_no_reduction : Reached False first [firstHeld] ∧ ¬first.totalBufSize ≤ (0 : UInt32).toNat ∧
      ∀ fuel, first.shrink 0 fuel = some (.ok first) := by
  refine ⟨first_reached, by decide, fun fuel => ?_⟩
  cases fuel <;> rfl

end Sample

/-- In histories in which the index has room for each message, each has its own entry and expires in time. -/
theorem messages_expire (reached : Reached True msgBuf held) :
    (∀ h ∈ held, (h.node.expireId, h.index) ∈ msgBuf.treeExpire) ∧ (msgBuf.treeExpire.map Prod.fst).Nodup ∧
    ∀ now : Int64, 0 ≤ now.toInt → now.toInt < 9223372036854 → ∃ expired msgBuf', msgBuf.removeExpired now = .ok (expired, msgBuf') ∧
      (∀ node, node ∈ expired ↔ ∃ h ∈ held, h.node = node ∧ h.deadline ≤ now.toInt) ∧
      ∀ clientID, msgBuf'.buffer.read [] clientID = ((held.filter (now.toInt < ·.deadline)).filter
        (·.clientID = clientID)).map fun h => (h.node.createId, h.node) := by
  have rep := reached.represents
  refine ⟨rep.own trivial, List.pairwise_map.mpr (rep.sorted.imp fun {a b} less same => ?_), fun now start bounded => ?_⟩
  · rw [same, lt_iff_toInt] at less
    exact lt_irrefl _ less
  have nowId : ((now + 1) * maxSeqId).toInt = (now.toInt + 1) * 1000000 := by
    refine toInt_eq_of_fits ⟨by omega, by omega⟩ ?_
    rw [Int64.ofInt_mul, Int64.ofInt_add, Int64.ofInt_toInt]
    rfl
  obtain ⟨expired, msgBuf', run, rep', late, early⟩ :=
    @Represents.expireLoop _ _ _ rep ((now + 1) * maxSeqId) _ le_rfl
  -- the entry of a message that was not removed is still in the index
  have passed_iff (h) (member : h ∈ held) : h.node ∈ expired ↔ h.deadline ≤ now.toInt := by
    obtain ⟨due, low, high⟩ := rep.due trivial h member
    constructor
    · intro among
      obtain ⟨_, _, _, passed⟩ := early h.node among
      rw [lt_iff_toInt, nowId] at passed
      omega
    · intro passed
      by_contra left
      have entry := rep'.own trivial h (List.mem_filter.mpr ⟨member, decide_eq_true left⟩)
      have last := nowId ▸ le_iff_toInt.mp (late _ entry)
      dsimp only at last
      omega
  refine ⟨expired, msgBuf', run, fun node => ⟨fun among => ?_, ?_⟩, fun clientID => ?_⟩
  · obtain ⟨h, member, rfl, _⟩ := early node among
    exact ⟨h, member, rfl, (passed_iff h member).mp among⟩
  · rintro ⟨h, member, rfl, passed⟩
    exact (passed_iff h member).mpr passed
  · have left : held.filter (·.node ∉ expired) = held.filter (now.toInt < ·.deadline) :=
      List.filter_congr fun h member => by simp [passed_iff h member]
    rw [rep'.buffer, left]

/-- Of two messages only the one whose deadline has passed is removed. -/
theorem Sample.messages_expire_later : Reached True later [firstHeld, laterHeld] ∧
    ∃ expired msgBuf', later.removeExpired 3000 = .ok (expired, msgBuf') ∧ firstHeld.node ∈ expired ∧
      laterHeld.node ∉ expired := by
  obtain ⟨expired, msgBuf', run, passed, _⟩ := (messages_expire later_reached).2.2 3000 (by decide) (by decide)
  refine ⟨later_reached, expired, msgBuf', run, (passed _).mpr ⟨firstHeld, by decide, rfl, by decide⟩, fun among => ?_⟩
  obtain ⟨h, member, same, due⟩ := (passed _).mp among
  revert same due
  rcases (by simpa using member : h = firstHeld ∨ h = laterHeld) with rfl | rfl <;> decide

/-- Two messages with the same deadline share an entry of the index, and one of them never expires. -/
theorem Sample.shared_deadline : let second := first.addMessage 2000 [7] (message 1)
    ∃ h : Held, Reached False second [firstHeld, h] ∧ firstHeld.deadline = 3000 ∧ h.deadline = 3000 ∧
      second.treeExpire.length = 1 ∧
      (second.removeExpired 1000000).toOption.map (fun result => (result.1, result.2.treeCreate.map (·.1),
        result.2.treeExpire.length)) = some ([h.node], [firstHeld.node.createId], 0) :=
  ⟨⟨[7], first.newNode 2000 (message 1), 2000, first.nextSeqId 2000⟩,
    .add [7] first_reached (by decide) ⟨by decide, by decide, by decide⟩ False.elim, by decide, by decide, by decide, by decide⟩

end MessageBuffer

end Nkn
