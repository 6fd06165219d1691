import DeliveryQueue.Proofs.Depth
import DeliveryQueue.Proofs.Mirroring
import DeliveryQueue.Proofs.Order

/-!
What the discard policies keep of the messages that come to a queue: the earliest or the latest of
each class. Messages are admitted one at a time (`DiscardPolicy.receive`), and that keeps what the
policy keeps of all messages so far (`DiscardPolicy.kept_concat`), in the entries of the queue as
well (`Intake.Stocks`).
-/
namespace DeliveryQueue

/-! Policies -/

namespace DiscardPolicy

variable {α : Type} {limit : Nat} {held : List α}

/-- The messages of a class that a queue keeps: the earliest or the latest. -/
def kept (policy : DiscardPolicy) (limit : Nat) (messages : List α) : List α :=
  match policy with
  | discard => messages.take limit
  | discardOldest => messages.drop (messages.length - limit)

/-- The messages of a class that a queue gives up. -/
def lost (policy : DiscardPolicy) (limit : Nat) (messages : List α) : List α :=
  match policy with
  | discard => messages.drop limit
  | discardOldest => messages.take (messages.length - limit)

/-- What a queue holds of a class once a message came, and the message that it gave up over it. -/
def receive (policy : DiscardPolicy) (limit : Nat) (held : List α) (message : α) :
    List α × Option α :=
  match Admission.decide held.length limit policy with
  | .accept => (held ++ [message], none)
  | .dropIncoming => (held, some message)
  | .evictOldest =>
    match held with
    | [] => ([], some message)
    | oldest :: rest => (rest ++ [message], some oldest)

theorem receive_of_room (policy : DiscardPolicy) (room : held.length < limit) (message : α) :
    policy.receive limit held message = (held ++ [message], none) := by
  simp only [receive, Admission.decide_eq_accept_iff.mpr room]

theorem discard_receive_of_full (full : limit ≤ held.length) (message : α) :
    discard.receive limit held message = (held, some message) := by
  simp [receive, Admission.decide, atLimit, full]

theorem discardOldest_receive_cons {oldest : α} {rest : List α}
    (full : limit ≤ (oldest :: rest).length) (message : α) :
    discardOldest.receive limit (oldest :: rest) message = (rest ++ [message], some oldest) := by
  simp only [receive, Admission.decide, atLimit, decide_eq_true full, if_true]

theorem receive_nil_of_full (policy : DiscardPolicy) (full : limit = 0) (message : α) :
    policy.receive limit [] message = ([], some message) := by
  subst full
  cases policy <;> rfl

theorem kept_of_few (policy : DiscardPolicy) {messages : List α} (few : messages.length ≤ limit) :
    policy.kept limit messages = messages ∧ policy.lost limit messages = [] := by
  have none : messages.length - limit = 0 := by omega
  cases policy with
  | discard => exact ⟨List.take_of_length_le few, List.drop_of_length_le few⟩
  | discardOldest =>
    constructor
    · rw [kept, none, List.drop_zero]
    · rw [lost, none, List.take_zero]

theorem discard_kept_append (count : held.length = limit) (back : List α) :
    discard.kept limit (held ++ back) = held ∧ discard.lost limit (held ++ back) = back :=
  ⟨List.take_left' count, List.drop_left' count⟩

theorem discardOldest_kept_append (front : List α) (count : held.length = limit) :
    discardOldest.kept limit (front ++ held) = held ∧
      discardOldest.lost limit (front ++ held) = front := by
  have same : (front ++ held).length - limit = front.length := by
    rw [List.length_append]
    omega
  constructor
  · rw [kept, same, List.drop_left]
  · rw [lost, same, List.take_left]

/-- Admitting one message more keeps and gives up what the policy does of all messages. -/
theorem kept_concat (policy : DiscardPolicy) (limit : Nat) (messages : List α) (message : α) :
    policy.kept limit (messages ++ [message]) =
        (policy.receive limit (policy.kept limit messages) message).1 ∧
      policy.lost limit (messages ++ [message]) = policy.lost limit messages ++
        (policy.receive limit (policy.kept limit messages) message).2.toList := by
  by_cases room : messages.length < limit
  · obtain ⟨all, none⟩ := policy.kept_of_few (Nat.le_of_lt room)
    have few : (messages ++ [message]).length ≤ limit := by
      rw [List.length_append, List.length_singleton]
      omega
    obtain ⟨allToo, noneToo⟩ := policy.kept_of_few few
    rw [all, none, allToo, noneToo, receive_of_room policy room]
    exact ⟨rfl, rfl⟩
  · cases policy with
    | discard =>
      obtain ⟨held, back, rfl, count⟩ : ∃ held back, messages = held ++ back ∧
          held.length = limit := by
        refine ⟨messages.take limit, messages.drop limit, (List.take_append_drop ..).symm, ?_⟩
        rw [List.length_take]
        omega
      obtain ⟨keeps, loses⟩ := discard_kept_append count back
      obtain ⟨keepsToo, losesToo⟩ := discard_kept_append count (back ++ [message])
      rw [List.append_assoc, keeps, loses, keepsToo, losesToo,
        discard_receive_of_full (Nat.le_of_eq count.symm)]
      exact ⟨rfl, rfl⟩
    | discardOldest =>
      obtain ⟨front, held, rfl, count⟩ : ∃ front held, messages = front ++ held ∧
          held.length = limit := by
        refine ⟨messages.take (messages.length - limit), messages.drop (messages.length - limit),
          (List.take_append_drop ..).symm, ?_⟩
        rw [List.length_drop]
        omega
      obtain ⟨keeps, loses⟩ := discardOldest_kept_append front count
      rw [keeps, loses]
      cases held with
      | nil =>
        have none : limit = 0 := count.symm
        rw [receive_nil_of_full discardOldest none, List.append_nil]
        have last : ([] : List α).length = limit := count
        obtain ⟨keepsToo, losesToo⟩ := discardOldest_kept_append (front ++ [message]) last
        rw [List.append_nil] at keepsToo losesToo
        exact ⟨keepsToo, losesToo⟩
      | cons oldest rest =>
        rw [discardOldest_receive_cons (Nat.le_of_eq count.symm)]
        have moved : front ++ oldest :: rest ++ [message] =
            (front ++ [oldest]) ++ (rest ++ [message]) := by simp
        have countToo : (rest ++ [message]).length = limit := by
          rw [← count, List.length_append, List.length_singleton, List.length_cons]
        rw [moved]
        exact discardOldest_kept_append _ countToo

end DiscardPolicy

/-! The entries of a queue -/

namespace Line

variable {line : Line}

/-- The entries of one class. -/
def ofClass (line : Line) (messageClass : MessageClass) : Line :=
  line.filter fun e => e.2.messageClass = messageClass

theorem ofClass_concat (line : Line) (e : EntryKey × Entry) (messageClass : MessageClass) :
    ofClass (line ++ [e]) messageClass = ofClass line messageClass ++
      if e.2.messageClass = messageClass then [e] else [] := by
  rw [ofClass, List.filter_append, ofClass]
  by_cases its : e.2.messageClass = messageClass <;> simp [its]

/-- Taking out the first entry of a class takes it out of that class only. -/
theorem ofClass_filter_ne {messageClass : MessageClass} {e : EntryKey × Entry} {rest : Line}
    (apart : (line.map Prod.fst).Nodup) (first : ofClass line messageClass = e :: rest)
    (other : MessageClass) :
    ofClass (line.filter fun f => f.1 ≠ e.1) other =
      if other = messageClass then rest else ofClass line other := by
  have there : e ∈ ofClass line messageClass := first ▸ List.mem_cons_self
  obtain ⟨there, its⟩ := List.mem_filter.mp there
  have its : e.2.messageClass = messageClass := of_decide_eq_true its
  rw [ofClass, List.filter_comm]
  change (ofClass line other).filter _ = _
  split
  · rename_i same
    subst same
    have single : ((ofClass line other).map Prod.fst).Nodup :=
      (List.filter_sublist.map Prod.fst).nodup apart
    rw [first, List.map_cons, List.nodup_cons] at single
    rw [first, List.filter_cons_of_neg (by simp), List.filter_eq_self]
    intro f member
    refine decide_eq_true fun same => single.1 ?_
    exact same ▸ List.mem_map_of_mem member
  · rename_i differs
    rw [List.filter_eq_self]
    intro f member
    obtain ⟨member, class_eq⟩ := List.mem_filter.mp member
    refine decide_eq_true fun same => differs ?_
    have equal : f = e := List.inj_on_of_nodup_map apart member there same
    rw [← of_decide_eq_true class_eq, equal, its]

end Line

namespace Table

/-- The entries of a queue, oldest first. -/
def line (entries : Entries) (queue : QueueKey) : Line :=
  entries.bindings.filter fun e => e.1.queue = queue

variable {entries : Entries} {queue : QueueKey} {changes : List Change}

theorem nodup_line (entries : Entries) (queue : QueueKey) :
    ((entries.line queue).map Prod.fst).Nodup :=
  (List.filter_sublist.map Prod.fst).nodup entries.nodup_keys

theorem line_eq_only (entries : Entries) (queue : QueueKey) :
    entries.line queue = (entries.only queue).bindings := rfl

/-- Changes in other queues make no difference. -/
theorem line_actAll_of_ne (other : ∀ change ∈ changes, change.key.queue ≠ queue) :
    (Change.actAll entries changes).line queue = entries.line queue := by
  rw [line_eq_only, only_actAll_of_ne other, line_eq_only]

theorem line_erase (entries : Entries) (queue : QueueKey) (key : EntryKey) :
    (entries.erase key).line queue = (entries.line queue).filter fun e => e.1 ≠ key := by
  have rest : (entries.erase key).bindings = entries.bindings.filter fun e => e.1 ≠ key := by
    refine List.filter_congr fun e _ => ?_
    by_cases same : e.1 = key
    · simp [same]
    · have differs : compare key e.1 ≠ .eq := fun equal =>
        same (Std.LawfulEqOrd.eq_of_compare equal).symm
      simp [same, differs]
  rw [line, rest, line, List.filter_comm]

end Table

/-! Admission -/

/-- The entry of a message that waits. -/
def Publish.entry (message : Publish) : Entry := .publish (.ofPublish message)

/-- The messages of a class. -/
def Publish.ofClass (messages : List Publish) (messageClass : MessageClass) : List Publish :=
  messages.filter fun message => .of message.qos = messageClass

theorem Publish.ofClass_concat (messages : List Publish) (message : Publish)
    (messageClass : MessageClass) : ofClass (messages ++ [message]) messageClass =
      ofClass messages messageClass ++
        if .of message.qos = messageClass then [message] else [] := by
  rw [ofClass, List.filter_append, ofClass]
  by_cases its : .of message.qos = messageClass <;> simp [its]

/-- Where messages are added: a queue in a bucket, with a limit and a policy. -/
structure Intake where
  queue : QueueKey
  index : Nat
  limit : Nat
  policy : DiscardPolicy
  deriving DecidableEq, Repr

namespace Intake

variable {intake : Intake} {taken : List Publish} {message : Publish} {entries after : Entries}

def request (intake : Intake) (message : Publish) : Request :=
  .add intake.queue (.publish message) intake.limit intake.policy intake.index

/-- The messages of a class that the queue keeps of those that it took. -/
def kept (intake : Intake) (taken : List Publish) (messageClass : MessageClass) : List Publish :=
  intake.policy.kept intake.limit (Publish.ofClass taken messageClass)

/-- The messages that the queue gives up of those that it took, class by class. -/
def lost (intake : Intake) (taken : List Publish) : List Publish :=
  intake.policy.lost intake.limit (Publish.ofClass taken .qos0) ++
    intake.policy.lost intake.limit (Publish.ofClass taken .qos12)

/-- What the queue holds of the class of a message once it took it, and what it gives up over it. -/
def admitted (intake : Intake) (taken : List Publish) (message : Publish) :
    List Publish × Option Publish :=
  intake.policy.receive intake.limit (intake.kept taken (.of message.qos)) message

/-- What is in the queue is what it keeps of what it took. -/
def Stocks (intake : Intake) (taken : List Publish) (entries : Entries) : Prop :=
  ∀ messageClass, (Line.ofClass (entries.line intake.queue) messageClass).map Prod.snd =
    (intake.kept taken messageClass).map Publish.entry

theorem kept_concat (intake : Intake) (taken : List Publish) (message : Publish)
    (messageClass : MessageClass) : intake.kept (taken ++ [message]) messageClass =
      if messageClass = .of message.qos then (intake.admitted taken message).1
      else intake.kept taken messageClass := by
  rw [kept, Publish.ofClass_concat]
  by_cases its : messageClass = .of message.qos
  · subst its
    rw [if_pos rfl, if_pos rfl]
    exact (intake.policy.kept_concat intake.limit _ message).1
  · rw [if_neg (Ne.symm its), if_neg its, List.append_nil, kept]

theorem lost_concat (intake : Intake) (taken : List Publish) (message : Publish) :
    (intake.lost (taken ++ [message])).Perm
      (intake.lost taken ++ (intake.admitted taken message).2.toList) := by
  have more := (intake.policy.kept_concat intake.limit
    (Publish.ofClass taken (.of message.qos)) message).2
  rw [lost, Publish.ofClass_concat, Publish.ofClass_concat, admitted, kept]
  cases its : MessageClass.of message.qos with
  | qos0 =>
    rw [its] at more
    rw [if_pos rfl, if_neg (by decide), more, List.append_nil, lost]
    rw [List.append_assoc, List.append_assoc]
    exact List.perm_append_comm.append_left _
  | qos12 =>
    rw [its] at more
    rw [if_neg (by decide), if_pos rfl, more, List.append_nil, lost, List.append_assoc]

theorem stocks_concat (admits : ∀ messageClass,
    (Line.ofClass (after.line intake.queue) messageClass).map Prod.snd =
      (if messageClass = .of message.qos then (intake.admitted taken message).1
        else intake.kept taken messageClass).map Publish.entry) :
    intake.Stocks (taken ++ [message]) after := by
  intro messageClass
  rw [kept_concat]
  exact admits messageClass

namespace Stocks

variable (stocks : intake.Stocks taken entries)
include stocks

/-- The message is turned away. -/
theorem keep (same : (intake.admitted taken message).1 = intake.kept taken (.of message.qos)) :
    intake.Stocks (taken ++ [message]) entries := by
  refine stocks_concat fun messageClass => ?_
  rw [stocks messageClass]
  split
  · rename_i its
    rw [same, its]
  · rfl

section Insert
variable {key : EntryKey} (its : key.queue = intake.queue)
  (above : ∀ other entry, entries.get? other = some entry → other.sequence < key.sequence)
include its above

/-- The message is put at the end. -/
theorem insert (more : (intake.admitted taken message).1 =
      intake.kept taken (.of message.qos) ++ [message]) :
    intake.Stocks (taken ++ [message]) (entries.insert key message.entry) := by
  refine stocks_concat fun messageClass => ?_
  have last : (entries.insert key message.entry).line intake.queue =
      entries.line intake.queue ++ [(key, message.entry)] := by
    rw [Table.line, Table.line, ← its]
    exact Table.filter_insert key message.entry fun e member _ =>
      above e.1 e.2 (Table.mem_bindings_iff.mp member)
  have same : message.entry.messageClass = .of message.qos := rfl
  rw [last, Line.ofClass_concat, List.map_append, stocks messageClass, same]
  by_cases here : messageClass = .of message.qos
  · rw [if_pos here, if_pos here.symm, more, here, List.map_append]
    rfl
  · rw [if_neg here, if_neg (Ne.symm here)]
    exact List.append_nil _

/-- The message is put at the end, and the oldest of its class is taken out. -/
theorem evict {e : EntryKey × Entry} {rest : Line}
    (first : Line.ofClass (entries.line intake.queue) (.of message.qos) = e :: rest)
    (traded : (intake.admitted taken message).1 =
      (intake.kept taken (.of message.qos)).tail ++ [message]) :
    intake.Stocks (taken ++ [message]) ((entries.erase e.1).insert key message.entry) := by
  refine stocks_concat fun messageClass => ?_
  have last : ((entries.erase e.1).insert key message.entry).line intake.queue =
      ((entries.line intake.queue).filter fun f => f.1 ≠ e.1) ++ [(key, message.entry)] := by
    rw [← Table.line_erase, Table.line, Table.line, ← its]
    refine Table.filter_insert key message.entry fun f member _ => ?_
    obtain ⟨member, -⟩ := Table.mem_bindings_erase_iff.mp member
    exact above f.1 f.2 (Table.mem_bindings_iff.mp member)
  have same : message.entry.messageClass = .of message.qos := rfl
  have tail : rest.map Prod.snd =
      (intake.kept taken (.of message.qos)).tail.map Publish.entry := by
    have all := stocks (.of message.qos)
    rw [first] at all
    rw [List.map_tail, ← all]
    rfl
  rw [last, Line.ofClass_concat, List.map_append, same,
    Line.ofClass_filter_ne (Table.nodup_line entries intake.queue) first]
  by_cases here : messageClass = .of message.qos
  · rw [if_pos here, if_pos here, if_pos here.symm, traded, List.map_append, tail]
    rfl
  · rw [if_neg here, if_neg here, if_neg (Ne.symm here), stocks messageClass]
    exact List.append_nil _

end Insert

/-- Whether there is room is up to what is kept of the class. -/
theorem length_ofClass (messageClass : MessageClass) :
    (Line.ofClass (entries.line intake.queue) messageClass).length =
      (intake.kept taken messageClass).length := by
  have same := congrArg List.length (stocks messageClass)
  rwa [List.length_map, List.length_map] at same

/-- Everything in the queue waits. -/
theorem isNew {e : EntryKey × Entry} (member : e ∈ entries.line intake.queue) :
    e.2.isNew = true := by
  have here : e ∈ Line.ofClass (entries.line intake.queue) e.2.messageClass :=
    List.mem_filter.mpr ⟨member, decide_eq_true rfl⟩
  have stored : e.2 ∈ (intake.kept taken e.2.messageClass).map Publish.entry :=
    stocks e.2.messageClass ▸ List.mem_map_of_mem here
  obtain ⟨message, -, same⟩ := List.mem_map.mp stored
  rw [← same]
  rfl

variable {bucket : Bucket}

omit stocks in
theorem classSize_eq (stocks : intake.Stocks taken bucket.entries) (agrees : bucket.Agrees)
    (messageClass : MessageClass) : bucket.classSize intake.queue messageClass =
      (intake.kept taken messageClass).length := by
  rw [agrees.classSize_eq_count, Bucket.count_eq_countP, List.countP_eq_length_filter]
  exact stocks.length_ofClass messageClass

omit stocks in
/-- The oldest of a class gives way. -/
theorem oldestEvictable?_eq (stocks : intake.Stocks taken bucket.entries)
    (messageClass : MessageClass) : bucket.oldestEvictable? intake.queue messageClass =
      (Line.ofClass (bucket.entries.line intake.queue) messageClass).head?.map Prod.fst := by
  rw [Bucket.oldestEvictable?, ← List.head?_filter, Line.ofClass]
  refine congrArg (fun line : Line => line.head?.map Prod.fst) (List.filter_congr ?_)
  intro e member
  rw [stocks.isNew member, Bool.true_and]

end Stocks

end Intake

end DeliveryQueue
