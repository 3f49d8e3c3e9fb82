import Mathlib.Data.List.Forall2
import SlotCluster.Client.Dispatch
import SlotCluster.Proofs.Runs

/-!
# Contacts with a node

What a client does at a node when it sends a batch: it asks for a lease of that node, opens a link
to it if no idle one is left, writes the batch once, and reads one reply for each command. It does
nothing at any other node.
-/

namespace SlotCluster

variable {σ : Type}

/-! ## Events at a node -/

namespace Request

/-- The request leases or uses a link, and if it names a node it names this one. -/
def IsAt (node : String) : Request → Prop
  | .checkout n | .connect n => n = node
  | .attach _ _ | .release _ | .discard _ | .write _ _ | .read _ | .close _ => True
  | _ => False

def written? : Request → Option (List Command)
  | .write _ commands => some commands
  | _ => none

def visited? : Request → Option String
  | .checkout node => some node
  | _ => none

end Request

namespace Event

/-- The event gives a link to the node: an idle one with a lease, or a new one. -/
def Gives [Transport σ] (node : String) (link : Link) (e : Event σ) : Prop :=
  (∃ task c lease, e = ⟨task, .checkout node, c⟩ ∧
    (c.answer task (.checkout node)).1 = .ok (lease, some link)) ∨
  ∃ task c, e = ⟨task, .connect node, c⟩ ∧ (c.answer task (.connect node)).1 = .ok link

def Reads [Transport σ] (link : Link) (e : Event σ) (reply : Reply) : Prop :=
  ∃ task c, e = ⟨task, .read link, c⟩ ∧ (c.answer task (.read link)).1 = .ok reply

end Event

def written (es : List (Event σ)) : List (List Command) := es.filterMap fun e => e.request.written?

/-- The nodes of all leases, in their order. -/
def visited (es : List (Event σ)) : List String := es.filterMap fun e => e.request.visited?

@[simp] theorem written_nil : written ([] : List (Event σ)) = [] := rfl

@[simp] theorem written_append (es es' : List (Event σ)) :
    written (es ++ es') = written es ++ written es' := List.filterMap_append ..

@[simp] theorem written_cons (e : Event σ) (es : List (Event σ)) :
    written (e :: es) = e.request.written?.toList ++ written es := by
  cases h : e.request.written? <;> simp [written, h]

theorem written_reads {link : Link} {es : List (Event σ)} (h : ∀ e ∈ es, e.request = .read link) :
    written es = [] := by
  rw [written, List.filterMap_eq_nil_iff]
  intro e he
  rw [h e he]
  rfl

variable [Transport σ]

theorem request_of_reads {link : Link} {reads : List (Event σ)} {replies : List Reply}
    (h : List.Forall₂ (Event.Reads link) reads replies) : ∀ e ∈ reads, e.request = .read link := by
  induction h with
  | nil => simp
  | cons hread _ ih =>
    obtain ⟨task, c, rfl, -⟩ := hread
    rintro e (_ | ⟨_, he⟩)
    · rfl
    · exact ih e he

open SlotCluster.Action

/-! ## Exchanges -/

theorem runs_readMany {link : Link} {n : Nat} {es : List (Event σ)}
    {r : Except Fault (List Reply)} (h : Runs (readMany link n) es r) :
    (∀ e ∈ es, e.request = .read link) ∧
      ∀ replies, r = .ok replies →
        replies.length = n ∧ List.Forall₂ (Event.Reads link) es replies := by
  induction n generalizing es r with
  | zero =>
    obtain ⟨rfl, rfl⟩ := runs_pure_iff.mp h
    refine ⟨by simp, ?_⟩
    rintro replies ⟨⟩
    exact ⟨rfl, .nil⟩
  | succ n ih =>
    rw [readMany, runs_bind_iff] at h
    obtain ⟨f, h, rfl⟩ | ⟨reply, es₁, es₂, rfl, h₁, h₂⟩ := h
    · obtain ⟨task, c, rfl, -⟩ := runs_read_iff.mp h
      refine ⟨by simp, ?_⟩
      rintro replies ⟨⟩
    · obtain ⟨task, c, rfl, hreply⟩ := runs_read_iff.mp h₁
      rw [runs_bind_iff] at h₂
      obtain ⟨f, h, rfl⟩ | ⟨replies, es₃, es₄, rfl, h₃, h₄⟩ := h₂
      · refine ⟨by simpa using (ih h).1, ?_⟩
        rintro replies ⟨⟩
      · obtain ⟨rfl, rfl⟩ := runs_pure_iff.mp h₄
        obtain ⟨hreads, hreplies⟩ := ih h₃
        obtain ⟨hlen, hall⟩ := hreplies _ rfl
        refine ⟨by simpa using hreads, ?_⟩
        rintro _ ⟨⟩
        refine ⟨by rw [List.length_cons, hlen], ?_⟩
        rw [List.append_nil]
        exact .cons ⟨task, c, rfl, hreply.symm⟩ hall

theorem runs_exchange {link : Link} {batch : List Command} {es : List (Event σ)}
    {r : Except Fault (List Reply)} (h : Runs (exchange link batch) es r) :
    ∃ write reads, es = write :: reads ∧ write.request = .write link batch ∧
      (∀ e ∈ reads, e.request = .read link) ∧
      ∀ replies, r = .ok replies →
        replies.length = batch.length ∧ List.Forall₂ (Event.Reads link) reads replies := by
  rw [exchange, runs_bind_iff] at h
  obtain ⟨f, h, rfl⟩ | ⟨_, es₁, reads, rfl, h₁, h₂⟩ := h
  · obtain ⟨task, c, rfl, -⟩ := runs_write_iff.mp h
    refine ⟨_, [], rfl, rfl, by simp, ?_⟩
    rintro replies ⟨⟩
  · obtain ⟨task, c, rfl, -⟩ := runs_write_iff.mp h₁
    exact ⟨_, reads, rfl, rfl, runs_readMany h₂⟩

theorem runs_exchangeOne {link : Link} {command : Command} {es : List (Event σ)}
    {r : Except Fault Reply} (h : Runs (exchangeOne link command) es r) :
    ∃ write reads, es = write :: reads ∧ write.request = .write link [command] ∧
      ∀ e ∈ reads, e.request = .read link := by
  rw [exchangeOne, runs_bind_iff] at h
  obtain ⟨f, h, rfl⟩ | ⟨_, es₁, reads, rfl, h₁, h₂⟩ := h
  · obtain ⟨task, c, rfl, -⟩ := runs_write_iff.mp h
    exact ⟨_, [], rfl, rfl, by simp⟩
  · obtain ⟨task, c, rfl, -⟩ := runs_write_iff.mp h₁
    obtain ⟨task, c, rfl, -⟩ := runs_read_iff.mp h₂
    exact ⟨_, _, rfl, rfl, by simp⟩

/-! ## The way to a link -/

/-- Nothing but this is done at a node before a batch is written: a lease of it, and for a new link
perhaps a greeting. -/
structure Opening (node : String) (es : List (Event σ)) : Prop where
  begins : ∃ task c rest, es = ⟨task, .checkout node, c⟩ :: rest
  stays : ∀ e ∈ es, e.request.IsAt node
  greets : written es = [] ∨ written es = [[Command.readOnly]]

theorem runs_openLink {s : Settings} {node : String} {es : List (Event σ)} {r : Except Fault Link}
    (h : Runs (Dispatch.openLink s node) es r) :
    (∀ e ∈ es, e.request.IsAt node) ∧ (written es = [] ∨ written es = [[Command.readOnly]]) ∧
      ∀ link, r = .ok link → ∃ e ∈ es, e.Gives node link := by
  unfold Dispatch.openLink at h
  rw [runs_bind_iff] at h
  obtain ⟨f, h, rfl⟩ | ⟨link, es₁, es₂, rfl, h₁, h₂⟩ := h
  · obtain ⟨task, c, rfl, -⟩ := runs_connect_iff.mp h
    exact ⟨by simp [Request.IsAt], .inl rfl, by simp⟩
  obtain ⟨task, c, rfl, hlink⟩ := runs_connect_iff.mp h₁
  have hgives : Event.Gives node link ⟨task, .connect node, c⟩ := .inr ⟨task, c, rfl, hlink.symm⟩
  split at h₂
  · rw [runs_outcome_bind_iff] at h₂
    obtain ⟨x, es₃, es₄, rfl, h₃, h₄⟩ := h₂
    obtain ⟨write, reads, rfl, hwrite, hreads⟩ := runs_exchangeOne h₃
    -- Whatever the greeting brings, only the link may be closed after it.
    have hlast : (es₄ = [] ∧ r = .ok link) ∨
        ∃ task c f, es₄ = [⟨task, .close link, c⟩] ∧ r = .error f := by
      have close : ∀ f : Fault, Runs (do ask (.close link); throw f) es₄ r →
          ∃ task c f, es₄ = [⟨task, .close link, c⟩] ∧ r = .error f := by
        intro f hclose
        obtain ⟨task, c, rest, rfl, hthrow⟩ := (runs_ask_bind_iff _).mp hclose
        obtain ⟨rfl, rfl⟩ := runs_throw_iff.mp hthrow
        exact ⟨task, c, f, rfl, rfl⟩
      cases x with
      | error f => exact .inr (close f h₄)
      | ok reply =>
        simp only at h₄
        split at h₄
        · exact .inl (runs_pure_iff.mp h₄)
        · exact .inr (close _ h₄)
    have hat : ∀ e ∈ reads, e.request.IsAt node := by
      intro e he
      rw [hreads e he]
      trivial
    obtain ⟨rfl, rfl⟩ | ⟨task, c, f, rfl, rfl⟩ := hlast
    · refine ⟨by simpa [Request.IsAt, hwrite] using hat, .inr ?_, ?_⟩
      · simp [Request.written?, hwrite, written_reads hreads]
      · rintro _ ⟨⟩
        exact ⟨_, by simp, hgives⟩
    · refine ⟨?_, .inr (by simp [Request.written?, hwrite, written_reads hreads]), by simp⟩
      simp only [List.cons_append, List.nil_append, List.mem_cons, List.mem_append,
        List.not_mem_nil, or_false]
      rintro e (rfl | rfl | he | rfl)
      · simp [Request.IsAt]
      · simp [Request.IsAt, hwrite]
      · exact hat e he
      · simp [Request.IsAt]
  · obtain ⟨rfl, rfl⟩ := runs_pure_iff.mp h₂
    refine ⟨by simp [Request.IsAt], .inl rfl, ?_⟩
    rintro _ ⟨⟩
    exact ⟨_, by simp, hgives⟩

theorem runs_lend {s : Settings} {node : String} {es : List (Event σ)}
    {r : Except Fault (Lease × Link)} (h : Runs (Dispatch.lend s node) es r) :
    Opening node es ∧ ∀ lease link, r = .ok (lease, link) → ∃ e ∈ es, e.Gives node link := by
  unfold Dispatch.lend at h
  rw [runs_bind_iff] at h
  obtain ⟨f, h, rfl⟩ | ⟨⟨lease, idle⟩, es₁, es₂, rfl, h₁, h₂⟩ := h
  · obtain ⟨task, c, rfl, -⟩ := runs_checkout_iff.mp h
    exact ⟨⟨⟨task, c, [], rfl⟩, by simp [Request.IsAt], .inl rfl⟩, by simp⟩
  obtain ⟨task, c, rfl, hlease⟩ := runs_checkout_iff.mp h₁
  cases idle with
  | some link =>
    obtain ⟨rfl, rfl⟩ := runs_pure_iff.mp h₂
    refine ⟨⟨⟨task, c, [], rfl⟩, by simp [Request.IsAt], .inl rfl⟩, ?_⟩
    rintro _ _ ⟨⟩
    exact ⟨_, by simp, .inl ⟨task, c, lease, rfl, hlease.symm⟩⟩
  | none =>
    simp only [runs_outcome_bind_iff] at h₂
    obtain ⟨x, es₃, es₄, rfl, h₃, h₄⟩ := h₂
    obtain ⟨hat, hgreets, hgives⟩ := runs_openLink h₃
    -- The lease gets the link, or is given back.
    obtain ⟨e, rfl, he, hw, hr⟩ : ∃ e, es₄ = [e] ∧ e.request.IsAt node ∧ e.request.written? = none ∧
        ∀ lease link, r = .ok (lease, link) → x = .ok link := by
      cases x with
      | ok link =>
        obtain ⟨task, c, rest, rfl, h⟩ := (runs_ask_bind_iff _).mp h₄
        obtain ⟨rfl, rfl⟩ := runs_pure_iff.mp h
        refine ⟨_, rfl, by simp [Request.IsAt], rfl, ?_⟩
        rintro _ _ ⟨⟩
        rfl
      | error f =>
        obtain ⟨task, c, rest, rfl, h⟩ := (runs_ask_bind_iff _).mp h₄
        obtain ⟨rfl, rfl⟩ := runs_throw_iff.mp h
        exact ⟨_, rfl, by simp [Request.IsAt], rfl, by simp⟩
    refine ⟨⟨⟨task, c, _, rfl⟩, ?_, ?_⟩, ?_⟩
    · simp only [List.cons_append, List.nil_append, List.mem_cons, List.mem_append,
        List.not_mem_nil, or_false]
      rintro e' (rfl | he' | rfl)
      · simp [Request.IsAt]
      · exact hat e' he'
      · exact he
    · simp only [written_append, written_cons, hw]
      simpa [Request.written?] using hgreets
    · intro lease link hok
      obtain ⟨e', he', hgive⟩ := hgives link (hr lease link hok)
      exact ⟨e', by simp [he'], hgive⟩

/-! ## Contacts -/

/-- All that is done at one node to send it a batch, and what comes of it. -/
inductive Contact (node : String) (batch : List Command) :
    List (Event σ) → Except Fault (List Reply) → Prop
  /-- There is no lease or no link to be had. -/
  | refused {opening : List (Event σ)} {f : Fault} (open_ : Opening node opening) :
      Contact node batch opening (.error f)
  | broken {opening : List (Event σ)} {link : Link} {write : Event σ} {reads : List (Event σ)}
      {last : Event σ} {lease : Lease} {f : Fault} (open_ : Opening node opening)
      (link_ : ∃ e ∈ opening, e.Gives node link) (write_ : write.request = .write link batch)
      (reads_ : ∀ e ∈ reads, e.request = .read link) (last_ : last.request = .discard lease) :
      Contact node batch (opening ++ write :: (reads ++ [last])) (.error f)
  | answered {opening : List (Event σ)} {link : Link} {write : Event σ} {reads : List (Event σ)}
      {last : Event σ} {lease : Lease} {replies : List Reply} (open_ : Opening node opening)
      (link_ : ∃ e ∈ opening, e.Gives node link) (write_ : write.request = .write link batch)
      (reads_ : List.Forall₂ (Event.Reads link) reads replies)
      (all_ : replies.length = batch.length) (last_ : last.request = .release lease) :
      Contact node batch (opening ++ write :: (reads ++ [last])) (.ok replies)

theorem Contact.length_eq {node : String} {batch : List Command} {es : List (Event σ)}
    {replies : List Reply} (h : Contact node batch es (.ok replies)) :
    replies.length = batch.length := by
  cases h with
  | answered _ _ _ _ all_ _ => exact all_

theorem Contact.isAt {node : String} {batch : List Command} {es : List (Event σ)}
    {r : Except Fault (List Reply)} (h : Contact node batch es r) :
    ∀ e ∈ es, e.request.IsAt node := by
  -- After the opening there are a write, reads, and the end of the lease.
  have hat : ∀ {opening : List (Event σ)} {link : Link} {write : Event σ} {reads : List (Event σ)}
      {last : Event σ}, Opening node opening → write.request = .write link batch →
      (∀ e ∈ reads, e.request = .read link) → last.request.IsAt node →
      ∀ e ∈ opening ++ write :: (reads ++ [last]), e.request.IsAt node := by
    intro opening link write reads last hopen hwrite hreads hlast e he
    simp only [List.mem_append, List.mem_cons, List.not_mem_nil, or_false] at he
    obtain he | rfl | he | rfl := he
    · exact hopen.stays e he
    · rw [hwrite]
      trivial
    · rw [hreads e he]
      trivial
    · exact hlast
  cases h with
  | refused open_ => exact open_.stays
  | broken open_ link_ write_ reads_ last_ =>
    exact hat open_ write_ reads_ (by rw [last_]; trivial)
  | answered open_ link_ write_ reads_ all_ last_ =>
    exact hat open_ write_ (request_of_reads reads_) (by rw [last_]; trivial)

def batchOf (asking : Bool) (commands : List Command) : List Command :=
  if asking then Command.asking :: commands else commands

def repliesOf (asking : Bool) (replies : List Reply) : List Reply :=
  if asking then replies.drop 1 else replies

theorem runs_sendBatch {s : Settings} {node : String} {commands : List Command} {asking : Bool}
    {es : List (Event σ)} {r : Except Fault (List Reply)}
    (h : Runs (Dispatch.sendBatch s node commands asking) es r) :
    ∃ raw, Contact node (batchOf asking commands) es raw ∧ r = raw.map (repliesOf asking) := by
  unfold Dispatch.sendBatch at h
  rw [runs_bind_iff] at h
  obtain ⟨f, h, rfl⟩ | ⟨⟨lease, link⟩, es₁, es₂, rfl, h₁, h₂⟩ := h
  · exact ⟨.error f, .refused (runs_lend h).1, rfl⟩
  obtain ⟨hopen, hgives⟩ := runs_lend h₁
  simp only [runs_outcome_bind_iff] at h₂
  obtain ⟨x, es₃, es₄, rfl, h₃, h₄⟩ := h₂
  obtain ⟨write, reads, rfl, hwrite, hreads, hreplies⟩ := runs_exchange h₃
  rw [List.cons_append]
  cases x with
  | ok replies =>
    obtain ⟨task, c, rest, rfl, h⟩ := (runs_ask_bind_iff _).mp h₄
    obtain ⟨rfl, rfl⟩ := runs_pure_iff.mp h
    obtain ⟨hlen, hall⟩ := hreplies replies rfl
    exact ⟨.ok replies, .answered hopen (hgives lease link rfl) hwrite hall hlen rfl, rfl⟩
  | error f =>
    obtain ⟨task, c, rest, rfl, h⟩ := (runs_ask_bind_iff _).mp h₄
    obtain ⟨rfl, rfl⟩ := runs_throw_iff.mp h
    exact ⟨.error f, .broken hopen (hgives lease link rfl) hwrite hreads rfl, rfl⟩

end SlotCluster
