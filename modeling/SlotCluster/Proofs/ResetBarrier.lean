import SlotCluster.Proofs.LinkOrigins
import SlotCluster.Proofs.ReplyQueues

/-!
# The reset is a barrier

When all links are closed, a new epoch begins. Leases of an older epoch end with their link closed,
and only links that were opened later for a later lease are idle or handed out again.
-/

namespace SlotCluster

variable {σ : Type}

/-! ## Links of a later epoch -/

section Renewed

variable [Transport σ]

/-- The link was opened, and noted for a lease of a later epoch. -/
def IsAnew (epoch : Nat) (es : List (Event σ)) (link : Link) : Prop :=
  link ∈ openings es ∧ ∃ lease, epoch < lease.epoch ∧ (lease, link) ∈ attachments es

theorem IsAnew.append {epoch : Nat} {es : List (Event σ)} {link : Link}
    (h : IsAnew epoch es link) (es' : List (Event σ)) : IsAnew epoch (es ++ es') link := by
  obtain ⟨hopened, lease, hepoch, hnoted⟩ := h
  refine ⟨?_, lease, hepoch, ?_⟩
  · rw [openings_append]
    exact List.mem_append_left _ hopened
  · rw [attachments_append]
    exact List.mem_append_left _ hnoted

/-- The pool, the leases of later epochs and the links that were handed out know new links only. -/
structure Renewed (epoch : Nat) (es : List (Event σ)) (p : Pool) (k : Strand → Grip) : Prop where
  later : epoch < p.epoch
  own (s : Strand) (lease : Lease) (link : Link) (hlease : (k s).lease? = some lease)
    (hlink : (k s).own? = some link) (hepoch : epoch < lease.epoch) : link ∈ openings es
  lent (s : Strand) (lease : Lease) (link : Link) (hlease : (k s).lease? = some lease)
    (hlink : (k s).noted? = some link) (hepoch : epoch < lease.epoch) : IsAnew epoch es link
  idle : ∀ link ∈ p.idleLinks, IsAnew epoch es link
  reused : ∀ link ∈ reuses es, IsAnew epoch es link

variable {c d : Client σ} {k : Strand → Grip} {epoch : Nat} {es : List (Event σ)}

theorem Renewed.start (hk : Ledger c.pool k) :
    Renewed c.pool.epoch ([] : List (Event σ)) c.pool.drain.2 k where
  later := Nat.lt_succ_self _
  own s lease _ hlease _ hepoch :=
    absurd (hk.epochs _ (hk.mine s lease hlease)) (Nat.not_le.mpr hepoch)
  lent s lease _ hlease _ hepoch :=
    absurd (hk.epochs _ (hk.mine s lease hlease)) (Nat.not_le.mpr hepoch)
  idle link hlink := by
    rw [Pool.drain_idleLinks] at hlink
    cases hlink
  reused := nofun

theorem Renewed.answer (h : Renewed epoch es c.pool k) (hk : Ledger c.pool k) (s : Strand)
    (r : Request) (allowed : gripProtocol.Allows (k s) r) :
    Renewed epoch (es ++ [⟨s.task, r, c⟩]) (c.answer s.task r).2.pool
      (Function.update k s (gripProtocol.next (k s) r (c.answer s.task r).1)) := by
  have t := turnover_of_answer hk.leases allowed s.task
  -- The links of the strand, those that are lent, the idle ones, and those that are lent again.
  refine ⟨Nat.lt_of_lt_of_le h.later t.epoch_le, ?_, ?_, ?_, ?_⟩
  · intro s' lease link hlease hlink hepoch
    rw [openings_append]
    by_cases hs : s' = s
    · subst hs
      rw [Function.update_self] at hlease hlink
      obtain ⟨hsame, hopened | ⟨hown, -⟩⟩ := Grip.own_next hlink
      · refine List.mem_append_right _ ?_
        rw [openings_singleton]
        exact Option.mem_toList.mpr hopened
      · exact List.mem_append_left _ (h.own s' lease link (hsame ▸ hlease) hown hepoch)
    · rw [Function.update_of_ne hs] at hlease hlink
      exact List.mem_append_left _ (h.own s' lease link hlease hlink hepoch)
  · intro s' lease link hlease hlink hepoch
    by_cases hs : s' = s
    · subst hs
      rw [Function.update_self] at hlease hlink
      obtain hidle | ⟨hlease', hlent⟩ | rfl := t.lent hk hlease hlink
      · exact (h.idle link hidle).append _
      · exact (h.lent s' lease link hlease' hlent hepoch).append _
      · have hgrip : k s' = .opened (some lease) link (some 0) := allowed
        have hopened : link ∈ openings es :=
          h.own s' lease link (by rw [hgrip]; rfl) (by rw [hgrip]; rfl) hepoch
        refine ⟨?_, lease, hepoch, ?_⟩
        · rw [openings_append]
          exact List.mem_append_left _ hopened
        · rw [attachments_append, attachments_singleton]
          exact List.mem_append_right _ (.head _)
    · rw [Function.update_of_ne hs] at hlease hlink
      exact (h.lent s' lease link hlease hlink hepoch).append _
  · intro link hlink
    obtain hidle | ⟨lease, hlease, hlent, hepoch⟩ := t.idle hk hlink
    · exact (h.idle link hidle).append _
    · exact (h.lent s lease link hlease hlent (hepoch ▸ h.later)).append _
  · intro link hlink
    rw [reuses_append, reuses_singleton, List.mem_append] at hlink
    obtain hlink | hlink := hlink
    · exact (h.reused link hlink).append _
    · exact (h.idle link (Client.mem_of_reused hk (Option.mem_toList.mp hlink))).append _

theorem Dealings.renewed {c₀ : Client σ} {g : Strand → Grip} (h : Dealings c₀ g es d k)
    (hg : Ledger c₀.pool g) (hstart : Renewed epoch ([] : List (Event σ)) c₀.pool g) :
    Renewed epoch es d.pool k := by
  induction h with
  | refl => exact hstart
  | quiet _ pool _ ih => exact pool ▸ ih
  | answer hbefore s r allowed ih => exact ih.answer (hbefore.ledger hg) s r allowed
  | @abandoned es d k hbefore i ih =>
    have hledger := hbefore.ledger hg
    refine ⟨?_, ?_, ?_, ?_, ih.reused⟩
    · exact hledger.abandon_induct i (Q := fun p => epoch < p.epoch) (fun _ _ _ _ hp => hp) ih.later
    · intro s lease link hlease hlink
      exact ih.own s lease link (of_letGo rfl hlease).2 (of_letGo rfl hlink).2
    · intro s lease link hlease hlink
      exact ih.lent s lease link (of_letGo rfl hlease).2 (of_letGo rfl hlink).2
    · rw [Client.abandon_idleLinks hledger i]
      exact ih.idle

end Renewed

/-! ## The link of a lease -/

theorem Pool.of_mem_attach {p : Pool} {lease : Lease} {link : Link} {b : Holding}
    (h : b ∈ (p.attach lease link).holdings) :
    b.lease.number = lease.number ∧ b.link = some link ∨
      b.lease.number ≠ lease.number ∧ b ∈ p.holdings := by
  obtain ⟨b₀, hb₀, rfl⟩ := List.mem_map.mp h
  split
  · next heq => exact .inl ⟨by simpa using heq, rfl⟩
  · next hne => exact .inr ⟨by simpa using hne, hb₀⟩

theorem Turnover.mem_holdings {p p' : Pool} {k : Strand → Grip} {s : Strand} {r : Request}
    {g' : Grip} (t : Turnover p s.task (k s) r p' g') (hr : r.attached? = none) :
    p.next ≤ p'.next ∧ ∀ b ∈ p'.holdings, b ∈ p.holdings ∨ b.lease.number = p.next := by
  have hlent : ∀ {node : String} {lease : Lease} {p₁ p₂ : Pool} {isOpen : Link → Bool}
      {found : Option Link} {dead : List Link}, p.take node s.task = (.ok lease, p₁) →
      p₁.takeIdle node isOpen = (found, dead, p₂) →
      lease.number = p.next ∧ p₂.next = p.next + 1 ∧
        ∀ b ∈ p₂.holdings, b ∈ p.holdings ∨ b.lease.number = p.next := by
    intro node lease p₁ p₂ isOpen found dead take idle
    obtain ⟨-, hnumber, -, -, hnext, hholdings⟩ := Pool.take_ok take
    have hextends := Pool.takeIdle_extends isOpen idle
    refine ⟨hnumber, by rw [hextends.next, hnext], ?_⟩
    rw [hextends.holdings, hholdings]
    rintro b (_ | ⟨_, hb⟩)
    · exact .inr hnumber
    · exact .inl hb
  have hsame : ∀ {q : Pool}, p.Extends q →
      p.next ≤ q.next ∧ ∀ b ∈ q.holdings, b ∈ p.holdings ∨ b.lease.number = p.next :=
    fun hq => ⟨Nat.le_of_eq hq.next.symm, fun b hb => .inl (hq.holdings ▸ hb)⟩
  cases t with
  | same => exact ⟨Nat.le_refl _, fun b hb => .inl hb⟩
  | refused take =>
    rw [Pool.take_error take]
    exact hsame Pool.ensure_extends
  | opening grip take idle =>
    obtain ⟨-, hnext, hholdings⟩ := hlent take idle
    exact ⟨hnext ▸ Nat.le_succ _, hholdings⟩
  | reusing grip take idle =>
    obtain ⟨hnumber, hnext, hholdings⟩ := hlent take idle
    refine ⟨hnext ▸ Nat.le_succ _, fun b hb => ?_⟩
    obtain ⟨hb, -⟩ | ⟨-, hb⟩ := Pool.of_mem_attach hb
    · exact .inr (hb.trans hnumber)
    · exact hholdings b hb
  | attached => cases hr
  | returned => exact ⟨Nat.le_refl _, fun b hb => .inl (Pool.mem_giveBack.mp hb).1⟩
  | ended => exact ⟨Nat.le_refl _, fun b hb => .inl (Pool.mem_giveBack.mp hb).1⟩
  | drained => exact hsame Pool.drain_extends

/-- As long as the lease is in the books, its link is the one that it had or that was noted for
it. -/
structure Noted (a : Holding) (es : List (Event σ)) (p : Pool) : Prop where
  number : a.lease.number < p.next
  link (link : Link) (h : a.link = some link ∨ (a.lease, link) ∈ attachments es) (b : Holding)
    (hb : b ∈ p.holdings) (hlease : b.lease.number = a.lease.number) : b.link = some link

section Noted

variable {a : Holding} {k : Strand → Grip} {es : List (Event σ)}

theorem Noted.start {p : Pool} (hk : Ledger p k) (ha : a ∈ p.holdings) :
    Noted a ([] : List (Event σ)) p where
  number := (hk.entered ha).1
  link link h b hb hlease := by
    obtain rfl := hk.numbers.eq hb ha hlease
    exact h.resolve_right nofun

variable [Transport σ] {c d : Client σ}

theorem Noted.answer (h : Noted a es c.pool) (hk : Ledger c.pool k) (s : Strand) (r : Request)
    (allowed : gripProtocol.Allows (k s) r) :
    Noted a (es ++ [⟨s.task, r, c⟩]) (c.answer s.task r).2.pool := by
  rcases hr : r.attached? with _ | ⟨lease, link⟩
  · obtain ⟨hnext, hholdings⟩ := (turnover_of_answer hk.leases allowed s.task).mem_holdings hr
    refine ⟨Nat.lt_of_lt_of_le h.number hnext, fun link hlink b hb hlease => ?_⟩
    rw [attachments_append, attachments_singleton, hr, Option.toList_none, List.append_nil] at hlink
    obtain hb | hb := hholdings b hb
    · exact h.link link hlink b hb hlease
    · have hlt := h.number
      omega
  · obtain rfl : r = .attach lease link := by
      cases r with
      | attach => cases hr; rfl
      | _ => cases hr
    refine ⟨h.number, fun link' hlink b hb hlease => ?_⟩
    rw [attachments_append, attachments_singleton, List.mem_append, ← or_assoc] at hlink
    have hgrip : k s = .opened (some lease) link (some 0) := allowed
    have hmine := hk.mine s lease (by rw [hgrip]; rfl)
    rw [hgrip] at hmine
    obtain ⟨hb, hlink'⟩ | ⟨hb, hmem⟩ := Pool.of_mem_attach hb
    · obtain hold | hnew := hlink
      · exact absurd (h.link link' hold _ hmine (hb.symm.trans hlease)) nofun
      · obtain ⟨-, rfl⟩ : a.lease = lease ∧ link' = link := by simpa [Request.attached?] using hnew
        exact hlink'
    · obtain hold | hnew := hlink
      · exact h.link link' hold b hmem hlease
      · obtain ⟨rfl, -⟩ : a.lease = lease ∧ link' = link := by simpa [Request.attached?] using hnew
        exact absurd hlease hb

theorem Dealings.noted {c₀ : Client σ} {g : Strand → Grip} (h : Dealings c₀ g es d k)
    (hg : Ledger c₀.pool g) (hstart : Noted a ([] : List (Event σ)) c₀.pool) :
    Noted a es d.pool := by
  induction h with
  | refl => exact hstart
  | quiet _ pool _ ih => exact pool ▸ ih
  | answer hbefore s r allowed ih => exact ih.answer (hbefore.ledger hg) s r allowed
  | abandoned hbefore i ih =>
    have hledger := hbefore.ledger hg
    refine ⟨?_, fun link h b hb => ih.link link h b (hledger.mem_abandon.mp hb).1⟩
    exact hledger.abandon_induct i (Q := fun p => a.lease.number < p.next) (fun _ _ _ _ hp => hp)
      ih.number

end Noted

/-! ## Closing -/

section Closing

variable [Transport σ] {c : Client σ} {k : Strand → Grip}

theorem Client.closeLinks_network (c : Client σ) (links : List Link) :
    (c.closeLinks links).network =
      links.foldl (fun n link => Transport.close link n) c.network := by
  unfold closeLinks
  induction links generalizing c with
  | nil => rfl
  | cons link rest ih =>
    rw [List.foldl_cons, List.foldl_cons, ih]
    rfl

theorem Client.discard_network (c : Client σ) (lease : Lease) :
    (c.discard lease).network = (c.closeLinks (c.pool.link? lease).toList).network := by
  unfold discard
  split
  · next link hlink =>
    rw [hlink]
    rfl
  · next hlink =>
    rw [hlink]
    rfl

theorem Client.release_of_older {lease : Lease} (h : lease.epoch < c.pool.epoch) :
    c.release lease = c.discard lease := by
  unfold release
  split
  · rw [if_neg]
    exact fun hkept => Nat.ne_of_lt h hkept.2
  · rfl

theorem Client.discards_network {as : List Holding} (has : Holding.Distinct as) {c : Client σ}
    (hc : Holding.Distinct c.pool.holdings) (hmem : ∀ a ∈ as, a ∈ c.pool.holdings) :
    ((as.map Holding.lease).foldl discard c).network =
      (c.closeLinks (as.filterMap Holding.link)).network := by
  induction as generalizing c with
  | nil => rfl
  | cons a rest ih =>
    obtain ⟨hfirst, hrest⟩ := Holding.distinct_cons_iff.mp has
    have hlink : c.pool.link? a.lease = a.link :=
      Pool.link_eq_of_noteOf (Pool.noteOf_eq hc (hmem a (.head _)))
    rw [List.map_cons, List.foldl_cons, ih hrest, closeLinks_network, closeLinks_network,
      discard_network, closeLinks_network, hlink]
    · cases hlink : a.link with
      | none => rw [List.filterMap_cons_none hlink]; rfl
      | some link => rw [List.filterMap_cons_some hlink]; rfl
    · rw [discard_pool]
      exact hc.filter _
    · intro b hb
      rw [discard_pool]
      exact Pool.mem_giveBack.mpr ⟨hmem b (.tail _ hb), hfirst b hb⟩

theorem Ledger.abandon_network (h : Ledger c.pool k) (i : Nat) :
    (c.abandon i).network =
      (c.closeLinks ((c.pool.holdings.filter fun a => a.holder == i).filterMap
        Holding.link)).network :=
  Client.discards_network (h.numbers.filter _) h.numbers fun _ ha => (List.mem_filter.mp ha).1

end Closing

/-! ## The barrier -/

/-- A link that was open, or was being opened for a lease, when the event happened. -/
inductive Stale (before : List (Event σ)) (e : Event σ) (after : List (Event σ)) [Transport σ]
    (link : Link) : Prop
  | idle (h : link ∈ e.client.pool.idleLinks)
  | lent {lease : Lease} {holder : Nat} (h : ⟨lease, holder, some link⟩ ∈ e.client.pool.holdings)
  | opened (h : link ∈ openings before)
  | opening {lease : Lease} {holder : Nat} (h : ⟨lease, holder, none⟩ ∈ e.client.pool.holdings)
      (noted : (lease, link) ∈ attachments after)

variable [Transport σ]

/-- The event ends the lease and closes its link. -/
def Event.Closes (e : Event σ) (lease : Lease) : Prop :=
  e.after.pool.idleLinks = e.client.pool.idleLinks ∧
    e.after.network = (e.client.closeLinks (e.client.pool.link? lease).toList).network

/-- What comes after the event has nothing to do with the links from before it. -/
structure Barrier (before : List (Event σ)) (e : Event σ) (after : List (Event σ)) (c : Client σ) :
    Prop where
  /-- Idle links are closed at once. -/
  emptied : e.after.pool.idleLinks = [] ∧
    e.after.network = (e.client.closeLinks e.client.pool.idleLinks).network
  /-- None of the links from before is idle or handed out again. -/
  out (link : Link) (h : Stale before e after link) : link ∉ c.pool.idleLinks ∧ link ∉ reuses after
  /-- A lease from before keeps its link as long as it is in the books. -/
  kept (a : Holding) (ha : a ∈ e.client.pool.holdings) (link : Link)
    (h : a.link = some link ∨ (a.lease, link) ∈ attachments after) (b : Holding)
    (hb : b ∈ c.pool.holdings) (hlease : b.lease = a.lease) : b.link = some link
  /-- It ends with its link closed. -/
  ended (a : Holding) (ha : a ∈ e.client.pool.holdings) (e' : Event σ) (he' : e' ∈ after)
    (h : e'.request = .release a.lease ∨ e'.request = .discard a.lease) : e'.Closes a.lease
  /-- A task that is abandoned leaves nothing behind. -/
  abandoned (i : Nat) : (c.abandon i).pool.idleLinks = c.pool.idleLinks ∧
    (c.abandon i).network =
      (c.closeLinks ((c.pool.holdings.filter fun a => a.holder == i).filterMap
        Holding.link)).network

theorem Event.closes_of_discard (c : Client σ) (task : Nat) (lease : Lease) :
    Event.Closes ⟨task, .discard lease, c⟩ lease := by
  refine ⟨?_, c.discard_network lease⟩
  change (c.discard lease).pool.idleLinks = c.pool.idleLinks
  rw [Client.discard_pool, Pool.giveBack_idleLinks]

theorem Event.closes_of_release {c : Client σ} {lease : Lease} (h : lease.epoch < c.pool.epoch)
    (task : Nat) : Event.Closes ⟨task, .release lease, c⟩ lease := by
  have hdiscard := closes_of_discard c task lease
  have hafter : Event.after ⟨task, .release lease, c⟩ = Event.after ⟨task, .discard lease, c⟩ :=
    Client.release_of_older h
  rw [Closes, hafter]
  exact hdiscard

theorem Stale.opened_or_opening {before after : List (Event σ)} {e : Event σ} {link : Link}
    {m : Strand → Grip} (h : Stale before e after link) (hledger : Ledger e.client.pool m)
    (horigins : Origins before e.client.pool m) :
    link ∈ openings before ∨ ∃ a ∈ e.client.pool.holdings, (a.lease, link) ∈ attachments after := by
  cases h with
  | idle h => exact .inl (horigins.opened link (horigins.idle link h))
  | @lent lease holder h =>
    obtain ⟨s, -, hs⟩ := hledger.held _ h
    have hsame := hledger.numbers.eq (hledger.mine s lease hs) h rfl
    refine .inl (horigins.opened link (horigins.lent s link ?_))
    simpa using congrArg Holding.link hsame
  | opened h => exact .inl h
  | opening h noted => exact .inr ⟨_, h, noted⟩

/-- What was opened before the event, or for a lease from before it, was not opened anew. -/
theorem Stale.not_anew {before after : List (Event σ)} {e : Event σ} {link : Link} {p : Pool}
    {m k : Strand → Grip} (h : Stale before e after link) (hledger : Ledger e.client.pool m)
    (hbefore : Origins before e.client.pool m) (hwhole : Origins (before ++ e :: after) p k)
    (hnodup : (openings (before ++ e :: after)).Nodup) :
    ¬IsAnew e.client.pool.epoch after link := by
  rintro ⟨hopened, lease, hepoch, hnoted⟩
  rw [← List.singleton_append, openings_append, List.nodup_append, openings_append] at hnodup
  rw [← List.singleton_append] at hwhole
  obtain hold | ⟨a, ha, hold⟩ := h.opened_or_opening hledger hbefore
  · exact hnodup.2.2 link hold link (List.mem_append_right _ hopened) rfl
  · have hafter : ∀ {lease}, (lease, link) ∈ attachments after →
        (lease, link) ∈ attachments (before ++ ([e] ++ after)) := by
      intro lease hlease
      rw [attachments_append, attachments_append]
      exact List.mem_append_right _ (List.mem_append_right _ hlease)
    have heq := List.inj_on_of_nodup_map hwhole.once (hafter hold) (hafter hnoted) rfl
    have hle := hledger.epochs a ha
    rw [(Prod.mk.inj heq).1] at hle
    exact Nat.not_lt.mpr hle hepoch

theorem Ledger.closeAll {c : Client σ} {k : Strand → Grip} (h : Ledger c.pool k) :
    Ledger c.closeAll.pool k := by
  rw [Client.closeAll_pool]
  exact h.of_extends Pool.drain_extends (Nat.le_succ _)

namespace Moment

variable {s : Settings} {seeds : List Node} {network : σ} {choices : Nat → Nat}
  {before after : List (Event σ)} {e : Event σ} {S : Moment σ Answer}

/-- Whatever is under way when all links are closed, by a reset or because a node says that the
cluster is down, nothing that comes after it uses a link from before it. -/
theorem Course.closing_is_barrier
    (h : Course ⟨[], Client.new s seeds network choices⟩ (before ++ e :: after) S)
    (he : e.request = .closeAll) (hnodup : (openings (before ++ e :: after)).Nodup) :
    Barrier before e after S.client := by
  obtain ⟨k, hdealings, -⟩ := h.dealings (InHands.start _)
  obtain ⟨s', m, -, hbefore, -, hafter⟩ := hdealings.split_at
  obtain ⟨task, request, c⟩ := e
  obtain rfl : request = .closeAll := he
  have hnew : Ledger (Client.new s seeds network choices).pool fun _ => .nothing := Ledger.new _ _
  have hstart : Origins ([] : List (Event σ)) (Client.new s seeds network choices).pool
      fun _ => .nothing := ⟨nofun, nofun, nofun, nofun, nofun, List.nodup_nil⟩
  have hledger : Ledger c.pool m := hbefore.ledger hnew
  have hledger' : Ledger c.closeAll.pool m := hledger.closeAll
  -- What the strands have in their hands is the same after the event.
  have hsame : Function.update m s' (gripProtocol.next (m s') .closeAll ()) = m :=
    Function.update_eq_self ..
  replace hafter : Dealings c.closeAll m after S.client k := hsame ▸ hafter
  have hrenewed : ∀ {es : List (Event σ)} {d : Client σ} {k' : Strand → Grip},
      Dealings c.closeAll m es d k' → Renewed c.pool.epoch es d.pool k' := fun hd =>
    hd.renewed hledger' (c.closeAll_pool ▸ Renewed.start hledger)
  have hstale : ∀ link, Stale before ⟨task, .closeAll, c⟩ after link →
      ¬IsAnew c.pool.epoch after link := by
    intro link hlink
    have hopened := hnodup
    rw [openings_append, List.nodup_append] at hopened
    exact hlink.not_anew hledger (hbefore.origins hnew hstart hopened.1)
      (hdealings.origins hnew hstart hnodup) hnodup
  refine ⟨⟨?_, ?_⟩, ?_, ?_, ?_, ?_⟩
  · change c.closeAll.pool.idleLinks = []
    rw [Client.closeAll_pool, Pool.drain_idleLinks]
  · change c.closeAll.network = _
    rw [Client.closeAll, Client.closeLinks_network, Client.closeLinks_network]
    rfl
  · intro link hlink
    exact ⟨fun hidle => hstale link hlink ((hrenewed hafter).idle link hidle),
      fun hreused => hstale link hlink ((hrenewed hafter).reused link hreused)⟩
  · intro a ha link hlink b hb hlease
    have hnoted : Noted a ([] : List (Event σ)) c.closeAll.pool :=
      Noted.start hledger' (by rw [Client.closeAll_pool]; exact ha)
    exact (hafter.noted hledger' hnoted).link link hlink b hb (by rw [hlease])
  · intro a ha e' he' hends
    obtain ⟨es, es', rfl⟩ := List.append_of_mem he'
    obtain ⟨s'', m', -, hbefore', -, -⟩ := hafter.split_at
    have holder : a.lease.epoch < e'.client.pool.epoch :=
      Nat.lt_of_le_of_lt (hledger.epochs a ha) (hrenewed hbefore').later
    obtain ⟨task', request, c'⟩ := e'
    obtain rfl | rfl := hends
    · exact Event.closes_of_release holder task'
    · exact Event.closes_of_discard c' task' a.lease
  · intro i
    have hend := hafter.ledger hledger'
    exact ⟨Client.abandon_idleLinks hend i, hend.abandon_network i⟩

/-- One link is idle, one is lent and one is being opened when a reset closes all links. The link
that the next command leaves behind is a new one. -/
theorem Course.closing_is_barrier_three :
    let s : Settings := { readFromReplicas := true }
    let c := Client.new s [Node.new "a" 1 .master] Echo.silent fun _ => 0
    let ping := fun host port =>
      Operation.route (Command.ofWords ["PING"]) (.single (.address host port))
    let S₀ : Moment Echo Answer := ⟨[(ping "a" 1).task s, (ping "b" 2).task s, (ping "c" 3).task s,
      Operation.reset.task s, (ping "a" 1).task s], c⟩
    let schedule := List.replicate 20 0 ++ List.replicate 9 1 ++ List.replicate 6 2 ++
      List.replicate 9 3 ++ List.replicate 9 1 ++ List.replicate 9 2 ++ List.replicate 40 4
    let es := (S₀.play schedule).1
    let S := (S₀.play schedule).2
    ∃ e, Course ⟨[], c⟩ (es.take 35 ++ e :: es.drop 36) S ∧ e.request = .closeAll ∧
      (openings (es.take 35 ++ e :: es.drop 36)).Nodup ∧
      e.client.pool.idleLinks = [1] ∧ e.client.pool.holdings.map Holding.link = [none, some 2] ∧
      (S.tasks.map fun t => t.result?.isSome) = [true, true, true, true, true] ∧
      S.client.pool.idleLinks = [5] ∧ Barrier (es.take 35) e (es.drop 36) S.client := by
  intro s c ping S₀ schedule es S
  have hbegun : Course ⟨[], c⟩ [] S₀ :=
    ((((Course.refl.begun (ping "a" 1)).begun (ping "b" 2)).begun (ping "c" 3)).begun
      .reset).begun (ping "a" 1)
  have hcourse : Course ⟨[], c⟩ ([] ++ es) S := hbegun.run (S₀.run_play schedule)
  let isClosing : Request → Bool := fun
    | .closeAll => true
    | _ => false
  have hat : (es[35]?.map fun e => (isClosing e.request, e.client.pool.idleLinks,
      e.client.pool.holdings.map Holding.link)) = some (true, [1], [none, some 2]) := by
    decide +kernel
  obtain ⟨e, he, hfacts⟩ := Option.map_eq_some_iff.mp hat
  obtain ⟨hclosing, hfacts⟩ := Prod.mk.inj hfacts
  obtain ⟨hidle, hlinks⟩ := Prod.mk.inj hfacts
  have hrequest : e.request = .closeAll := by
    cases hr : e.request with
    | closeAll => rfl
    | _ => rw [hr] at hclosing; cases hclosing
  have hsplit : es.take 35 ++ e :: es.drop 36 = es := by
    obtain ⟨hlength, rfl⟩ := List.getElem?_eq_some_iff.mp he
    rw [List.getElem_cons_drop, List.take_append_drop]
  have hnodup : (openings (es.take 35 ++ e :: es.drop 36)).Nodup := by
    rw [hsplit]
    decide +kernel
  rw [List.nil_append, ← hsplit] at hcourse
  exact ⟨e, hcourse, hrequest, hnodup, hidle, hlinks, by decide +kernel, by decide +kernel,
    closing_is_barrier hcourse hrequest hnodup⟩

end Moment

end SlotCluster
