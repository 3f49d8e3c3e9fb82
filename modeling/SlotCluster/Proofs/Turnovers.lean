import SlotCluster.Proofs.Bookkeeping
import SlotCluster.Proofs.Dealings

/-!
# Turnovers

What an answer does to the pool, whatever was asked for: leases are given out, noted and taken back,
and links come and go among the idle ones. The books of the pool hold exactly the leases that the
strands have in their hands, each under the task of its strand.
-/

namespace SlotCluster

/-! ## Turnovers -/

/-- What becomes of the pool, and of the grip of the strand that has made the request. -/
inductive Turnover (p : Pool) (task : Nat) (g : Grip) : Request → Pool → Grip → Prop
  | same {r : Request} {g' : Grip} (lease : g'.lease? = g.lease?) (noted : g'.noted? = g.noted?) :
      Turnover p task g r p g'
  | refused {node : String} {f : Fault} {p' : Pool} (take : p.take node task = (.error f, p')) :
      Turnover p task g (.checkout node) p' g
  | opening {node : String} {isOpen : Link → Bool} {lease : Lease} {dead : List Link}
      {p₁ p₂ : Pool} (grip : g = .nothing) (take : p.take node task = (.ok lease, p₁))
      (idle : p₁.takeIdle node isOpen = (none, dead, p₂)) :
      Turnover p task g (.checkout node) p₂ (.leased lease)
  | reusing {node : String} {isOpen : Link → Bool} {lease : Lease} {link : Link}
      {dead : List Link} {p₁ p₂ : Pool} (grip : g = .nothing)
      (take : p.take node task = (.ok lease, p₁))
      (idle : p₁.takeIdle node isOpen = (some link, dead, p₂)) :
      Turnover p task g (.checkout node) (p₂.attach lease link) (.lent lease link (some 0))
  | attached {lease : Lease} {link : Link} (grip : g = .opened (some lease) link (some 0)) :
      Turnover p task g (.attach lease link) (p.attach lease link) (.lent lease link (some 0))
  | returned {lease : Lease} {link : Link} (grip : g = .lent lease link (some 0))
      (epoch : lease.epoch = p.epoch) :
      Turnover p task g (.release lease) ((p.giveBack lease).putIdle lease.node link) .nothing
  | ended {r : Request} {lease : Lease} (grip : g.lease? = some lease)
      (ends : r = .release lease ∨ r = .discard lease) :
      Turnover p task g r (p.giveBack lease) .nothing
  | drained : Turnover p task g .closeAll p.drain.2 g

section Answers

variable {σ ι : Type} [Transport σ] {c : Client σ} {k : ι → Grip} {i : ι}

theorem Client.discard_pool (c : Client σ) (lease : Lease) :
    (c.discard lease).pool = c.pool.giveBack lease := by
  unfold discard
  split <;> rfl

theorem Client.closeAll_pool (c : Client σ) : c.closeAll.pool = c.pool.drain.2 :=
  closeLinks_pool _ _

theorem turnover_of_checkout (hi : k i = .nothing) (task : Nat) (node : String) :
    Turnover c.pool task (k i) (.checkout node) (c.checkout task node).2.pool
      (gripProtocol.next (k i) (.checkout node) (c.checkout task node).1) := by
  unfold Client.checkout
  rcases htake : c.pool.take node task with ⟨f | lease, pool⟩
  · exact .refused htake
  · dsimp only
    rcases hidle : pool.takeIdle node c.isOpen with ⟨_ | link, dead, pool'⟩
    · rw [Client.closeLinks_pool]
      exact .opening hi htake hidle
    · rw [Client.closeLinks_pool]
      exact .reusing hi htake hidle

theorem turnover_of_release (h : Leases c.pool k) {lease : Lease} {link : Link}
    (hi : k i = .lent lease link (some 0)) (task : Nat) :
    Turnover c.pool task (k i) (.release lease) (c.release lease).pool .nothing := by
  have hlease : (k i).lease? = some lease := by rw [hi]; rfl
  have hlink : c.pool.link? lease = some link := by
    rw [Pool.link_eq_of_noteOf (h.entered i lease hlease).2.2, hi]
    rfl
  unfold Client.release
  rw [hlink]
  simp only
  split
  · next hkept => exact .returned hi hkept.2
  · rw [Client.discard_pool]
    exact .ended hlease (.inl rfl)

theorem turnover_of_answer (h : Leases c.pool k) {r : Request}
    (hi : gripProtocol.Allows (k i) r) (task : Nat) :
    Turnover c.pool task (k i) r (c.answer task r).2.pool
      (gripProtocol.next (k i) r (c.answer task r).1) := by
  cases r with
  | checkout node => exact turnover_of_checkout hi task node
  | connect node =>
    simp only [Client.answer, Client.onNetwork]
    obtain hi | ⟨lease, hi⟩ := hi
    all_goals
      rw [hi]
      rcases (Transport.connect node c.network).1 with f | link
      all_goals exact .same rfl rfl
  | write link commands =>
    simp only [Client.answer, Client.onNetwork]
    rcases (Transport.write link commands c.network).1 with f | done
    all_goals exact .same (Grip.lease_setDue _ _) (Grip.noted_setDue _ _)
  | read link =>
    simp only [Client.answer, Client.onNetwork]
    rcases (Transport.read link c.network).1 with f | reply
    all_goals exact .same (Grip.lease_setDue _ _) (Grip.noted_setDue _ _)
  | close link =>
    obtain ⟨lease, due, hi⟩ := hi
    rw [hi]
    cases lease <;> exact .same rfl rfl
  | attach lease link => exact .attached hi
  | release lease =>
    obtain ⟨link, hi⟩ := hi
    exact turnover_of_release h hi task
  | discard lease =>
    simp only [Client.answer]
    rw [Client.discard_pool]
    obtain hi | ⟨link, due, hi⟩ := hi
    all_goals exact .ended (by rw [hi]; rfl) (.inr rfl)
  | closeAll =>
    simp only [Client.answer]
    rw [Client.closeAll_pool]
    exact .drained
  | _ => exact .same rfl rfl

end Answers

/-! ## The ledger -/

/-- No two of them are for the same lease. -/
def Holding.Distinct (as : List Holding) : Prop := (as.map fun a => a.lease.number).Nodup

theorem Holding.distinct_cons_iff {a : Holding} {as : List Holding} :
    Distinct (a :: as) ↔ (∀ b ∈ as, b.lease.number ≠ a.lease.number) ∧ Distinct as := by
  simp [Distinct]

theorem Holding.Distinct.filter {as : List Holding} (h : Distinct as) (P : Holding → Bool) :
    Distinct (as.filter P) :=
  h.sublist (List.filter_sublist.map _)

theorem Holding.Distinct.eq {as : List Holding} (h : Distinct as) {a b : Holding} (ha : a ∈ as)
    (hb : b ∈ as) (hab : a.lease.number = b.lease.number) : a = b :=
  List.inj_on_of_nodup_map h ha hb hab

theorem Pool.noteOf_eq {p : Pool} (hp : Holding.Distinct p.holdings) {a : Holding}
    (ha : a ∈ p.holdings) : p.noteOf a.lease = some a.link := by
  have hfound : (p.holdings.find? fun h => h.lease.number == a.lease.number).isSome = true :=
    List.find?_isSome.mpr ⟨a, ha, beq_self_eq_true _⟩
  obtain ⟨b, hb⟩ := Option.isSome_iff_exists.mp hfound
  have hnumber : b.lease.number = a.lease.number := by simpa using List.find?_some hb
  obtain rfl := hp.eq (List.mem_of_find?_eq_some hb) ha hnumber
  rw [noteOf, hb, Option.map_some]

/-- The books hold what the strands have in their hands, and nothing else. -/
structure Ledger (p : Pool) (k : Strand → Grip) : Prop where
  leases : Leases p k
  numbers : Holding.Distinct p.holdings
  epochs : ∀ h ∈ p.holdings, h.lease.epoch ≤ p.epoch
  mine : ∀ s lease, (k s).lease? = some lease → ⟨lease, s.task, (k s).noted?⟩ ∈ p.holdings
  held : ∀ h ∈ p.holdings, ∃ s : Strand, s.task = h.holder ∧ (k s).lease? = some h.lease

namespace Ledger

variable {p p' : Pool} {k : Strand → Grip} {s : Strand} {lease : Lease} {g' : Grip}

theorem entered (h : Ledger p k) {holding : Holding} (hmem : holding ∈ p.holdings) :
    holding.lease.number < p.next ∧ holding.lease.node ∈ p.names := by
  obtain ⟨s, -, hs⟩ := h.held holding hmem
  obtain ⟨hnumber, hnode, -⟩ := h.leases.entered s _ hs
  exact ⟨hnumber, hnode⟩

theorem apart (h : Ledger p k) (hs : (k s).lease? = some lease) {s' : Strand} {other : Lease}
    (hs' : (k s').lease? = some other) (hne : s' ≠ s) : other.number ≠ lease.number :=
  fun heq => hne (h.leases.apart s' s other lease hs' hs heq)

/-! ### What turnovers keep -/

theorem of_extends (h : Ledger p k) (hp : p.Extends p') (hepoch : p.epoch ≤ p'.epoch) :
    Ledger p' k where
  leases := h.leases.of_extends hp
  numbers := hp.holdings ▸ h.numbers
  epochs a ha := Nat.le_trans (h.epochs a (hp.holdings ▸ ha)) hepoch
  mine s lease hs := hp.holdings ▸ h.mine s lease hs
  held a ha := h.held a (hp.holdings ▸ ha)

theorem relabel (h : Ledger p k) {k' : Strand → Grip} (hlease : ∀ s, (k' s).lease? = (k s).lease?)
    (hnoted : ∀ s, (k' s).noted? = (k s).noted?) : Ledger p k' where
  leases :=
    { names := h.leases.names
      entered := fun s lease hs => by
        rw [hlease] at hs
        rw [hnoted]
        exact h.leases.entered s lease hs
      apart := fun s s' a b hs hs' => by
        rw [hlease] at hs hs'
        exact h.leases.apart s s' a b hs hs' }
  numbers := h.numbers
  epochs := h.epochs
  mine s lease hs := by
    rw [hlease] at hs
    rw [hnoted]
    exact h.mine s lease hs
  held a ha := by
    obtain ⟨s, htask, hs⟩ := h.held a ha
    exact ⟨s, htask, by rw [hlease, hs]⟩

theorem taken (h : Ledger p k) {node : String} (hs : k s = .nothing)
    (htake : p.take node s.task = (.ok lease, p')) :
    Ledger p' (Function.update k s (.leased lease)) := by
  obtain ⟨-, hnumber, -, -, -, hholdings⟩ := Pool.take_ok htake
  obtain ⟨hepoch, hepoch'⟩ := Pool.take_epoch htake
  have hne : ∀ s' other, (k s').lease? = some other → s' ≠ s := by
    rintro s' other hother rfl
    rw [hs] at hother
    cases hother
  refine ⟨h.leases.taken htake, ?_, ?_, ?_, ?_⟩
  · rw [hholdings, Holding.distinct_cons_iff]
    refine ⟨fun a ha heq => ?_, h.numbers⟩
    have hlt : a.lease.number < p.next := (h.entered ha).1
    simp only at heq
    omega
  · rw [hholdings, hepoch']
    rintro a (_ | ⟨_, ha⟩)
    · exact Nat.le_of_eq hepoch
    · exact h.epochs a ha
  · intro s' other hother
    rw [hholdings]
    by_cases heq : s' = s
    · subst heq
      rw [Function.update_self] at hother ⊢
      cases hother
      exact .head _
    · rw [Function.update_of_ne heq] at hother ⊢
      exact .tail _ (h.mine s' other hother)
  · rw [hholdings]
    rintro a (_ | ⟨_, ha⟩)
    · exact ⟨s, rfl, by rw [Function.update_self]; rfl⟩
    · obtain ⟨s', htask, hs'⟩ := h.held a ha
      exact ⟨s', htask, by rw [Function.update_of_ne (hne s' _ hs'), hs']⟩

theorem attached (h : Ledger p k) (hs : (k s).lease? = some lease) (link : Link)
    (due : Option Nat) :
    Ledger (p.attach lease link) (Function.update k s (.lent lease link due)) := by
  have hfrom : ∀ a ∈ (p.attach lease link).holdings, ∃ b ∈ p.holdings,
      a.lease = b.lease ∧ a.holder = b.holder := by
    intro a ha
    obtain ⟨b, hb, rfl⟩ := List.mem_map.mp ha
    refine ⟨b, hb, ?_⟩
    split <;> exact ⟨rfl, rfl⟩
  refine ⟨h.leases.attached hs link due, ?_, ?_, ?_, ?_⟩
  · have hsame : (p.attach lease link).holdings.map (fun h => h.lease.number) =
        p.holdings.map fun h => h.lease.number := by
      simp only [Pool.attach, List.map_map]
      refine List.map_congr_left fun a _ => ?_
      simp only [Function.comp_apply]
      split <;> rfl
    rw [Holding.Distinct, hsame]
    exact h.numbers
  · intro a ha
    obtain ⟨b, hb, hlease, -⟩ := hfrom a ha
    rw [hlease]
    exact h.epochs b hb
  · intro s' other hother
    by_cases heq : s' = s
    · subst heq
      rw [Function.update_self] at hother ⊢
      cases hother
      refine List.mem_map.mpr ⟨_, h.mine s' lease hs, ?_⟩
      simp [Grip.noted?]
    · rw [Function.update_of_ne heq] at hother ⊢
      refine List.mem_map.mpr ⟨_, h.mine s' other hother, ?_⟩
      rw [if_neg (by simpa using h.apart hs hother heq)]
  · intro a ha
    obtain ⟨b, hb, hlease, hholder⟩ := hfrom a ha
    obtain ⟨s', htask, hs'⟩ := h.held b hb
    rw [hlease, hholder]
    refine ⟨s', htask, ?_⟩
    by_cases heq : s' = s
    · subst heq
      rw [Function.update_self, ← hs', hs]
      rfl
    · rw [Function.update_of_ne heq, hs']

theorem givenBack (h : Ledger p k) (hs : (k s).lease? = some lease) :
    Ledger (p.giveBack lease) (Function.update k s .nothing) := by
  refine ⟨h.leases.givenBack hs, ?_, ?_, ?_, ?_⟩
  · exact h.numbers.filter _
  · exact fun a ha => h.epochs a (Pool.mem_giveBack.mp ha).1
  · intro s' other hother
    have hne : s' ≠ s := by
      rintro rfl
      rw [Function.update_self] at hother
      cases hother
    rw [Function.update_of_ne hne] at hother ⊢
    exact Pool.mem_giveBack.mpr ⟨h.mine s' other hother, h.apart hs hother hne⟩
  · intro a ha
    obtain ⟨ha, hnumber⟩ := Pool.mem_giveBack.mp ha
    obtain ⟨s', htask, hs'⟩ := h.held a ha
    refine ⟨s', htask, ?_⟩
    rw [Function.update_of_ne, hs']
    rintro rfl
    rw [hs] at hs'
    cases hs'
    exact hnumber rfl

theorem turnover (h : Ledger p k) {r : Request} (t : Turnover p s.task (k s) r p' g') :
    Ledger p' (Function.update k s g') := by
  cases t with
  | same lease noted =>
    refine h.relabel (fun s' => ?_) fun s' => ?_
    all_goals
      by_cases heq : s' = s
      · subst heq
        rw [Function.update_self]
        assumption
      · rw [Function.update_of_ne heq]
  | refused take =>
    rw [Function.update_eq_self, Pool.take_error take]
    exact h.of_extends Pool.ensure_extends (Nat.le_of_eq Pool.ensure_epoch.symm)
  | opening grip take idle =>
    exact (h.taken grip take).of_extends (Pool.takeIdle_extends _ idle)
      (Nat.le_of_eq (Pool.takeIdle_epoch idle).symm)
  | @reusing _ _ lease link _ _ _ grip take idle =>
    have htaken := (h.taken grip take).of_extends (Pool.takeIdle_extends _ idle)
      (Nat.le_of_eq (Pool.takeIdle_epoch idle).symm)
    have hmine : (Function.update k s (.leased lease) s).lease? = some lease := by
      rw [Function.update_self]
      rfl
    have hattached := htaken.attached hmine link (some 0)
    rwa [Function.update_idem] at hattached
  | attached grip => exact h.attached (by rw [grip]; rfl) _ _
  | returned grip epoch =>
    exact (h.givenBack (by rw [grip]; rfl)).of_extends Pool.putIdle_extends (Nat.le_refl _)
  | ended grip ends => exact h.givenBack grip
  | drained =>
    rw [Function.update_eq_self]
    exact h.of_extends Pool.drain_extends (Nat.le_succ _)

end Ledger

/-! ## Abandoned tasks -/

section Abandon

variable {σ : Type} [Transport σ] {c : Client σ} {k : Strand → Grip}

theorem Pool.giveBack_induct {Q : Pool → Prop}
    (hQ : ∀ p a, Holding.Distinct p.holdings → a ∈ p.holdings → Q p → Q (p.giveBack a.lease))
    {as : List Holding} (has : Holding.Distinct as) {p : Pool} (hp : Holding.Distinct p.holdings)
    (hmem : ∀ a ∈ as, a ∈ p.holdings) (h : Q p) :
    Q ((as.map Holding.lease).foldl Pool.giveBack p) := by
  induction as generalizing p with
  | nil => exact h
  | cons a rest ih =>
    obtain ⟨hfirst, hrest⟩ := Holding.distinct_cons_iff.mp has
    refine ih hrest (hp.filter _) (fun b hb => ?_) (hQ p a hp (hmem a (.head _)) h)
    exact Pool.mem_giveBack.mpr ⟨hmem b (.tail _ hb), hfirst b hb⟩

theorem Client.abandon_pool (c : Client σ) (i : Nat) :
    (c.abandon i).pool =
      ((c.pool.holdings.filter fun h => h.holder == i).map Holding.lease).foldl Pool.giveBack
        c.pool := by
  have hdiscards : ∀ (leases : List Lease) (c : Client σ),
      (leases.foldl Client.discard c).pool = leases.foldl Pool.giveBack c.pool := by
    intro leases
    induction leases with
    | nil => exact fun _ => rfl
    | cons lease rest ih =>
      intro c
      rw [List.foldl_cons, List.foldl_cons, ih, Client.discard_pool]
  exact hdiscards _ c

theorem Ledger.abandon_induct {Q : Pool → Prop} (h : Ledger c.pool k) (i : Nat)
    (hQ : ∀ p a, Holding.Distinct p.holdings → a ∈ p.holdings → Q p → Q (p.giveBack a.lease))
    (hc : Q c.pool) : Q (c.abandon i).pool := by
  rw [Client.abandon_pool]
  exact Pool.giveBack_induct hQ (h.numbers.filter _) h.numbers
    (fun a ha => (List.mem_filter.mp ha).1) hc

theorem Ledger.mem_abandon (h : Ledger c.pool k) {i : Nat} {a : Holding} :
    a ∈ (c.abandon i).pool.holdings ↔ a ∈ c.pool.holdings ∧ a.holder ≠ i := by
  have hleft : ∀ (leases : List Lease) (p : Pool), a ∈ (leases.foldl Pool.giveBack p).holdings ↔
      a ∈ p.holdings ∧ ∀ lease ∈ leases, a.lease.number ≠ lease.number := by
    intro leases
    induction leases with
    | nil => simp
    | cons lease rest ih =>
      intro p
      rw [List.foldl_cons, ih, Pool.mem_giveBack, List.forall_mem_cons, and_assoc]
  rw [Client.abandon_pool, hleft]
  refine and_congr_right fun ha => ?_
  constructor
  · rintro hnone rfl
    exact hnone a.lease (List.mem_map_of_mem (List.mem_filter.mpr ⟨ha, beq_self_eq_true _⟩)) rfl
  · intro hholder lease hlease heq
    obtain ⟨b, hb, rfl⟩ := List.mem_map.mp hlease
    obtain ⟨hb, hbi⟩ := List.mem_filter.mp hb
    rw [h.numbers.eq ha hb heq] at hholder
    exact hholder (by simpa using hbi)

theorem Ledger.abandoned (h : Ledger c.pool k) (i : Nat) :
    Ledger (c.abandon i).pool (letGo i k) := by
  let Kept : Pool → Prop := fun p => Holding.Distinct p.holdings ∧ p.names = c.pool.names ∧
    p.next = c.pool.next ∧ p.epoch = c.pool.epoch
  have hkept : Kept (c.abandon i).pool := by
    refine h.abandon_induct i ?_ ⟨h.numbers, rfl, rfl, rfl⟩
    rintro p a hp - ⟨-, hnames, hrest⟩
    exact ⟨hp.filter _, Pool.giveBack_names.trans hnames, hrest⟩
  obtain ⟨hnumbers, hnames, hnext, hepoch⟩ := hkept
  have hmine : ∀ s lease, (letGo i k s).lease? = some lease →
      ⟨lease, s.task, (letGo i k s).noted?⟩ ∈ (c.abandon i).pool.holdings := by
    intro s lease hs
    obtain ⟨htask, hs⟩ := of_letGo rfl hs
    rw [letGo_of_ne htask]
    exact h.mem_abandon.mpr ⟨h.mine s lease hs, htask⟩
  refine ⟨⟨?_, ?_, ?_⟩, hnumbers, ?_, hmine, ?_⟩
  · rw [hnames]
    exact h.leases.names
  · intro s lease hs
    obtain ⟨hnumber, hnode, -⟩ := h.leases.entered s lease (of_letGo rfl hs).2
    rw [hnext, hnames]
    exact ⟨hnumber, hnode, Pool.noteOf_eq hnumbers (hmine s lease hs)⟩
  · intro s s' a b ha hb
    exact h.leases.apart s s' a b (of_letGo rfl ha).2 (of_letGo rfl hb).2
  · intro a ha
    rw [hepoch]
    exact h.epochs a (h.mem_abandon.mp ha).1
  · intro a ha
    obtain ⟨ha, hholder⟩ := h.mem_abandon.mp ha
    obtain ⟨s, htask, hs⟩ := h.held a ha
    exact ⟨s, htask, by rw [letGo_of_ne (htask ▸ hholder), hs]⟩

end Abandon

/-! ## Every dealing -/

/-- The ledger is right at any time. -/
theorem Dealings.ledger {σ : Type} [Transport σ] {c d : Client σ} {g k : Strand → Grip}
    {es : List (Event σ)} (h : Dealings c g es d k) (hc : Ledger c.pool g) : Ledger d.pool k := by
  induction h with
  | refl => exact hc
  | quiet _ pool _ ih => exact pool ▸ ih
  | answer _ s r allowed ih => exact ih.turnover (turnover_of_answer ih.leases allowed s.task)
  | abandoned _ i ih => exact ih.abandoned i

theorem Ledger.new (total perNode : Nat) :
    Ledger (Pool.new total perNode) fun _ => .nothing :=
  ⟨⟨List.nodup_nil, nofun, nofun⟩, List.nodup_nil, nofun, nofun, nofun⟩

end SlotCluster
