import SlotCluster.Client.State

/-!
# Reply queues

What a client relies on: a transport queues one reply for each command that it takes, in their
order, and no operation on one link touches another. An operation that fails may do to its own link
what it likes, but only the client gives a link up.
-/

namespace SlotCluster

/-- A transport whose links can be looked into. -/
class QueueTransport (σ : Type) extends Transport σ where
  /-- The client has opened the link, and has not closed it since. -/
  Held : σ → Link → Prop
  /-- The replies that the link has still to give. -/
  queue : σ → Link → List Reply

namespace QueueTransport

variable {σ : Type} [QueueTransport σ]

/-- Nothing has happened to the link. -/
structure Untouched (n n' : σ) (link : Link) : Prop where
  held : Held n' link ↔ Held n link
  queue : queue n' link = queue n link
  isOpen : Transport.isOpen link n' = Transport.isOpen link n

namespace Untouched

variable {n n' n'' : σ} {link : Link}

theorem refl (n : σ) (link : Link) : Untouched n n link := ⟨Iff.rfl, rfl, rfl⟩

theorem trans (h : Untouched n n' link) (h' : Untouched n' n'' link) : Untouched n n'' link :=
  ⟨h'.held.trans h.held, h'.queue.trans h.queue, h'.isOpen.trans h.isOpen⟩

end Untouched

end QueueTransport

open QueueTransport in
class LawfulTransport (σ : Type) [QueueTransport σ] : Prop where
  connect_ok {node : String} {n n' : σ} {link : Link}
    (h : Transport.connect node n = (.ok link, n')) :
    ¬ Held n link ∧ Held n' link ∧ queue n' link = [] ∧ Transport.isOpen link n' = true ∧
      ∀ l ≠ link, Untouched n n' l
  connect_error {node : String} {n n' : σ} {f : Fault}
    (h : Transport.connect node n = (.error f, n')) (l : Link) : Untouched n n' l
  /-- One reply for each command. -/
  write_ok {link : Link} {commands : List Command} {n n' : σ}
    (h : Transport.write link commands n = (.ok (), n')) :
    Transport.isOpen link n' = Transport.isOpen link n ∧
      ∃ replies, replies.length = commands.length ∧ queue n' link = queue n link ++ replies
  write_held (link : Link) (commands : List Command) (n : σ) :
    Held (Transport.write link commands n).2 link ↔ Held n link
  write_others {link l : Link} (commands : List Command) (n : σ) (hl : l ≠ link) :
    Untouched n (Transport.write link commands n).2 l
  read_ok {link : Link} {n n' : σ} {reply : Reply} (h : Transport.read link n = (.ok reply, n')) :
    Transport.isOpen link n' = Transport.isOpen link n ∧ queue n link = reply :: queue n' link
  read_held (link : Link) (n : σ) : Held (Transport.read link n).2 link ↔ Held n link
  read_others {link l : Link} (n : σ) (hl : l ≠ link) : Untouched n (Transport.read link n).2 l
  close_held (link : Link) (n : σ) : ¬ Held (Transport.close link n) link
  close_others {link l : Link} (n : σ) (hl : l ≠ link) : Untouched n (Transport.close link n) l

/-! ## A network that echoes -/

/-- Links that answer each command with its last word, and `CLUSTER SLOTS` with no slots. Those that
were closed, or not opened yet, have no queue. -/
structure Echo where
  queues : Nat → Option (List Reply)
  next : Nat
  fresh : ∀ link, next ≤ link → queues link = none

namespace Echo

def silent : Echo := ⟨fun _ => none, 0, fun _ _ => rfl⟩

def reply (c : Command) : Reply :=
  if c = Command.clusterSlots then .array [] else .bulk (c.getLastD [])

/-- Gives a link another queue, or none. One that has no queue gets none. -/
def setQueue (n : Echo) (link : Nat) (q : Option (List Reply)) : Echo where
  queues l := if l = link then (n.queues l).bind fun _ => q else n.queues l
  next := n.next
  fresh l hl := by
    rw [n.fresh l hl]
    split <;> rfl

def addLink (n : Echo) : Echo where
  queues l := if l = n.next then some [] else n.queues l
  next := n.next + 1
  fresh l hl := by
    rw [if_neg (by omega), n.fresh l (by omega)]

instance : QueueTransport Echo where
  connect _ n := (.ok n.next, n.addLink)
  write link commands n :=
    match n.queues link with
    | none => (.error (.io .notConnected none), n)
    | some q => (.ok (), n.setQueue link (some (q ++ commands.map reply)))
  read link n :=
    match n.queues link with
    | some (r :: rest) => (.ok r, n.setQueue link (some rest))
    | _ => (.error (.io .unexpectedEof none), n)
  close link n := n.setQueue link none
  isOpen link n := (n.queues link).isSome
  Held n link := (n.queues link).isSome
  queue n link := (n.queues link).getD []

theorem queues_setQueue_self {n : Echo} {link : Link} {q : List Reply}
    (h : n.queues link = some q) (q' : Option (List Reply)) :
    (n.setQueue link q').queues link = q' := by
  have hself : (n.setQueue link q').queues link = (n.queues link).bind fun _ => q' := if_pos rfl
  rw [hself, h, Option.bind_some]

theorem untouched_of_queues {n n' : Echo} {l : Link} (h : n'.queues l = n.queues l) :
    QueueTransport.Untouched n n' l := by
  constructor
  · simp only [QueueTransport.Held, h]
  · simp only [QueueTransport.queue, h]
  · simp only [Transport.isOpen, h]

theorem untouched_setQueue (n : Echo) {link l : Link} (q : Option (List Reply)) (hl : l ≠ link) :
    QueueTransport.Untouched n (n.setQueue link q) l :=
  untouched_of_queues (if_neg hl)

instance : LawfulTransport Echo where
  connect_ok := by
    rintro node n _ _ ⟨⟩
    have hnew : n.addLink.queues n.next = some [] := if_pos rfl
    have hold : n.queues n.next = none := n.fresh n.next (Nat.le_refl _)
    refine ⟨by simp [QueueTransport.Held, hold], ?_, ?_, ?_, ?_⟩
    · simp only [QueueTransport.Held, hnew, Option.isSome_some]
    · simp only [QueueTransport.queue, hnew, Option.getD_some]
    · simp only [Transport.isOpen, hnew, Option.isSome_some]
    · exact fun l hl => untouched_of_queues (if_neg hl)
  connect_error := by
    rintro node n n' f ⟨⟩
  write_ok := by
    intro link commands n n' h
    simp only [Transport.write] at h
    split at h
    · cases h
    · next q hq =>
      cases h
      have hself := queues_setQueue_self hq (some (q ++ commands.map reply))
      refine ⟨by simp [Transport.isOpen, hself, hq], commands.map reply, List.length_map _, ?_⟩
      simp [QueueTransport.queue, hself, hq]
  write_held link commands n := by
    simp only [Transport.write]
    split
    · rfl
    · next q hq => simp [QueueTransport.Held, queues_setQueue_self hq, hq]
  write_others {link l} commands n hl := by
    simp only [Transport.write]
    split
    · exact .refl n l
    · exact untouched_setQueue n _ hl
  read_ok := by
    intro link n n' r h
    simp only [Transport.read] at h
    split at h
    · next first rest hq =>
      cases h
      have hself := queues_setQueue_self hq (some rest)
      exact ⟨by simp [Transport.isOpen, hself, hq], by simp [QueueTransport.queue, hself, hq]⟩
    · cases h
  read_held link n := by
    simp only [Transport.read]
    split
    · next first rest hq => simp [QueueTransport.Held, queues_setQueue_self hq, hq]
    · rfl
  read_others {link l} n hl := by
    simp only [Transport.read]
    split
    · exact untouched_setQueue n _ hl
    · exact .refl n l
  close_held link n := by
    cases hq : n.queues link with
    | none =>
      have hself : (n.setQueue link none).queues link = (n.queues link).bind fun _ => none :=
        if_pos rfl
      simp [QueueTransport.Held, Transport.close, hself]
    | some q => simp [QueueTransport.Held, Transport.close, queues_setQueue_self hq]
  close_others {link l} n hl := untouched_setQueue n none hl

end Echo

end SlotCluster
