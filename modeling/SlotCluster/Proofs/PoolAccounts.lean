import Mathlib.Algebra.BigOperators.Group.List.Basic
import Mathlib.Algebra.Order.BigOperators.Group.List
import Mathlib.Algebra.Order.Ring.Nat
import SlotCluster.Proofs.Canned
import SlotCluster.Proofs.Turnovers

/-!
# The accounts of the pool

Every lease takes a permit of its node and one of the whole pool. So the permits that are left and
the leases that are out add up, at each node and in all. Only a node without an idle link gets a new
one, and a link that comes back has the place that its lease gives up, so the idle links of a node
and its leases have room in its permits.
-/

namespace SlotCluster

/-! ## Counting -/

namespace Pool

/-- The links to a node that are lent, and those that are being opened. -/
def outAt (p : Pool) (node : String) : Nat := p.holdings.countP fun h => h.lease.node == node

/-- The permits of a node that are left. A node that was never asked for has all of them. -/
def freeAt (p : Pool) (node : String) : Nat :=
  match p.nodePool? node with
  | some n => n.free
  | none => p.perNode

variable {p p' : Pool} {node : String} {lease : Lease} {link : Link}

theorem outAt_eq_zero (h : ∀ a ∈ p.holdings, a.lease.node ≠ node) : p.outAt node = 0 := by
  refine List.countP_eq_zero.mpr fun a ha => ?_
  simpa using h a ha

theorem outAt_attach : (p.attach lease link).outAt node = p.outAt node := by
  simp only [outAt, attach, List.countP_map]
  congr 1
  funext a
  simp only [Function.comp_apply]
  split <;> rfl

theorem mem_modifyNode {f : NodePool → NodePool} {m : NodePool}
    (h : m ∈ (p.modifyNode node f).nodes) :
    ∃ n ∈ p.nodes, (n.node = node ∧ m = f n) ∨ (n.node ≠ node ∧ m = n) := by
  obtain ⟨n, hn, rfl⟩ := List.mem_map.mp h
  refine ⟨n, hn, ?_⟩
  by_cases hnode : n.node = node
  · exact .inl ⟨hnode, by simp [hnode]⟩
  · exact .inr ⟨hnode, by simp [hnode]⟩

theorem eq_of_node (h : p.names.Nodup) {m n : NodePool} (hm : m ∈ p.nodes) (hn : n ∈ p.nodes)
    (heq : m.node = n.node) : m = n :=
  List.inj_on_of_nodup_map h hm hn heq

theorem nodePool?_of_mem_names (h : node ∈ p.names) :
    ∃ n ∈ p.nodes, p.nodePool? node = some n ∧ n.node = node := by
  obtain ⟨m, hm, rfl⟩ := exists_of_mem_names h
  have hsome : (p.nodes.find? fun n => n.node == m.node).isSome = true :=
    List.find?_isSome.mpr ⟨m, hm, beq_self_eq_true _⟩
  obtain ⟨n, hn⟩ := Option.isSome_iff_exists.mp hsome
  exact ⟨n, (of_nodePool hn).1, hn, (of_nodePool hn).2⟩

theorem not_mem_names_of_none (h : p.nodePool? node = none) : node ∉ p.names := by
  intro hmem
  obtain ⟨n, -, hn, -⟩ := nodePool?_of_mem_names hmem
  rw [h] at hn
  cases hn

theorem giveBack_perm (hp : Holding.Distinct p.holdings) {a : Holding} (ha : a ∈ p.holdings) :
    p.holdings.Perm (a :: (p.giveBack a.lease).holdings) := by
  obtain ⟨before, after, hsplit⟩ := List.append_of_mem ha
  have hothers : ∀ b ∈ before ++ after, b.lease.number ≠ a.lease.number := by
    have hperm : (before ++ a :: after).Perm (a :: (before ++ after)) := List.perm_middle
    rw [hsplit, Holding.Distinct, (hperm.map _).nodup_iff] at hp
    exact (Holding.distinct_cons_iff.mp hp).1
  have hleft : (p.giveBack a.lease).holdings = before ++ after := by
    change p.holdings.filter (fun b => b.lease.number != a.lease.number) = _
    rw [hsplit, List.filter_append, List.filter_cons_of_neg (by simp), ← List.filter_append]
    exact List.filter_eq_self.mpr fun b hb => by simpa using hothers b hb
  rw [hleft, hsplit]
  exact List.perm_middle

/-! ### Taking -/

theorem ensure_frame (p : Pool) (node : String) :
    (p.ensure node).free = p.free ∧ (p.ensure node).total = p.total ∧
      (p.ensure node).perNode = p.perNode := by
  unfold ensure
  split <;> exact ⟨rfl, rfl, rfl⟩

theorem ensure_nodes (p : Pool) (node : String) : (p.ensure node).nodes = p.nodes ∨
    node ∉ p.names ∧ (p.ensure node).nodes = p.nodes ++ [⟨node, [], p.perNode⟩] := by
  unfold ensure
  split
  · exact .inl rfl
  · next h => exact .inr ⟨not_mem_names_of_none h, rfl⟩

theorem take_permits {holder : Nat} (h : p.take node holder = (.ok lease, p')) :
    ∃ n, (p.ensure node).nodePool? node = some n ∧ n.free ≠ 0 ∧ p.free ≠ 0 ∧
      p'.nodes = ((p.ensure node).modifyNode node fun n => { n with free := n.free - 1 }).nodes ∧
      p'.free = p.free - 1 ∧ p'.total = p.total ∧ p'.perNode = p.perNode := by
  obtain ⟨hfree, htotal, hperNode⟩ := ensure_frame p node
  unfold take at h
  simp only at h
  split at h
  · cases h
  · next n hn =>
    split at h
    · cases h
    · next hnode =>
      split at h
      · cases h
      · next hall =>
        cases h
        rw [hfree] at hall
        exact ⟨n, hn, hnode, hall, rfl, congrArg (· - 1) hfree, htotal, hperNode⟩

theorem take_error_permits {holder : Nat} {f : Fault} (h : p.take node holder = (.error f, p')) :
    (∃ n, (p.ensure node).nodePool? node = some n ∧ n.free = 0) ∨ p.free = 0 := by
  obtain ⟨hfree, -, -⟩ := ensure_frame p node
  unfold take at h
  simp only at h
  split at h
  · next hnone => exact absurd mem_ensure (not_mem_names_of_none hnone)
  · next n hn =>
    split at h
    · next hnode => exact .inl ⟨n, hn, hnode⟩
    · split at h
      · next hall => exact .inr (hfree ▸ hall)
      · cases h

theorem takeIdle_cases {isOpen : Link → Bool} {found : Option Link} {dead : List Link}
    (hnode : node ∈ p.names) (h : p.takeIdle node isOpen = (found, dead, p')) :
    ∃ n rest, p.nodePool? node = some n ∧ n.idle = dead ++ (found.toList ++ rest) ∧
      p' = p.modifyNode node (fun n => { n with idle := rest }) ∧ (found = none → rest = []) := by
  obtain ⟨n, -, hn, -⟩ := nodePool?_of_mem_names hnode
  have hcut : (n.idle.takeWhile fun l => !isOpen l) ++ (n.idle.dropWhile fun l => !isOpen l) =
      n.idle := List.takeWhile_append_dropWhile
  simp only [takeIdle, hn] at h
  split at h
  · next hnone =>
    cases h
    rw [hnone] at hcut
    exact ⟨n, [], hn, hcut.symm, rfl, fun _ => rfl⟩
  · next link rest hsome =>
    cases h
    rw [hsome] at hcut
    exact ⟨n, rest, hn, hcut.symm, rfl, nofun⟩

theorem lent_nodes {holder : Nat} {p₁ p₂ : Pool} {isOpen : Link → Bool} {found : Option Link}
    {dead : List Link} (hnames : p.names.Nodup) (htake : p.take node holder = (.ok lease, p₁))
    (hidle : p₁.takeIdle node isOpen = (found, dead, p₂)) {m : NodePool} (hm : m ∈ p₂.nodes) :
    ∃ n ∈ (p.ensure node).nodes, m.node = n.node ∧
      ((n.node ≠ node ∧ m = n) ∨
        (n.node = node ∧ n.free ≠ 0 ∧ m.free = n.free - 1 ∧
          m.idle.length + found.toList.length ≤ n.idle.length ∧ (found = none → m.idle = []))) := by
  obtain ⟨-, -, hnames₁, -, -, -⟩ := take_ok htake
  obtain ⟨n₀, hn₀, hfree, -, hnodes, -⟩ := take_permits htake
  obtain ⟨n₁, rest, hn₁, hcut, rfl, hnone⟩ := takeIdle_cases (hnames₁ ▸ mem_ensure) hidle
  have hensured : (p.ensure node).names.Nodup := ensure_extends.nodup hnames
  obtain ⟨hn₀, hnode₀⟩ := of_nodePool hn₀
  obtain ⟨hn₁, hnode₁⟩ := of_nodePool hn₁
  obtain ⟨b, hb, hbm⟩ := mem_modifyNode hm
  obtain ⟨n, hn, hnb⟩ := mem_modifyNode (hnodes ▸ hb)
  refine ⟨n, hn, ?_⟩
  obtain ⟨hnode, rfl⟩ | ⟨hnode, rfl⟩ := hnb
  · obtain ⟨-, rfl⟩ | ⟨hother, -⟩ := hbm
    · obtain rfl := eq_of_node hensured hn hn₀ (hnode.trans hnode₀.symm)
      obtain rfl := eq_of_node (hnames₁ ▸ hensured) hn₁ hb (hnode₁.trans hnode.symm)
      have hlength := congrArg List.length hcut
      simp only [List.length_append] at hlength
      exact ⟨rfl, .inr ⟨hnode, hfree, rfl, by simp only; omega, hnone⟩⟩
    · exact absurd hnode hother
  · obtain ⟨hsame, -⟩ | ⟨-, rfl⟩ := hbm
    · exact absurd hsame hnode
    · exact ⟨rfl, .inl ⟨hnode, rfl⟩⟩

end Pool

/-! ## Balance -/

/-- All permits are there, in the pool or in a lease, and every idle link has room in those of its
node. -/
structure Balanced (total perNode : Nat) (p : Pool) : Prop where
  total_eq : p.total = total
  perNode_eq : p.perNode = perNode
  permits : p.free + p.holdings.length = total
  nodePermits : ∀ n ∈ p.nodes, n.free + p.outAt n.node = perNode
  places : ∀ n ∈ p.nodes, n.idle.length + p.outAt n.node ≤ perNode

namespace Balanced

variable {total perNode : Nat} {p p' : Pool} {k : Strand → Grip} {node : String}

theorem new (total perNode : Nat) : Balanced total perNode (.new total perNode) :=
  ⟨rfl, rfl, rfl, nofun, nofun⟩

theorem ensure (h : Balanced total perNode p) (hk : Ledger p k) (node : String) :
    Balanced total perNode (p.ensure node) := by
  obtain ⟨hfree, htotal, hperNode⟩ := Pool.ensure_frame p node
  have hholdings : (p.ensure node).holdings = p.holdings := Pool.ensure_extends.holdings
  have hout : ∀ m, (p.ensure node).outAt m = p.outAt m := fun m => by
    rw [Pool.outAt, Pool.outAt, hholdings]
  have hnew : node ∉ p.names → p.outAt node = 0 := fun hnode =>
    Pool.outAt_eq_zero fun a ha heq => hnode (heq ▸ (hk.entered ha).2)
  refine ⟨htotal.trans h.total_eq, hperNode.trans h.perNode_eq, ?_, ?_, ?_⟩
  · rw [hfree, hholdings]
    exact h.permits
  · intro n hn
    rw [hout]
    obtain hsame | ⟨hnode, hsnoc⟩ := Pool.ensure_nodes p node
    · exact h.nodePermits n (hsame ▸ hn)
    · rcases List.mem_append.mp (hsnoc ▸ hn) with hn | hn
      · exact h.nodePermits n hn
      · rw [List.mem_singleton.mp hn, hnew hnode]
        exact h.perNode_eq
  · intro n hn
    rw [hout]
    obtain hsame | ⟨hnode, hsnoc⟩ := Pool.ensure_nodes p node
    · exact h.places n (hsame ▸ hn)
    · rcases List.mem_append.mp (hsnoc ▸ hn) with hn | hn
      · exact h.places n hn
      · rw [List.mem_singleton.mp hn, hnew hnode]
        exact Nat.zero_le _

theorem taken (h : Balanced total perNode p) (hk : Ledger p k) {holder : Nat} {lease : Lease}
    {p₁ p₂ : Pool} {isOpen : Link → Bool} {found : Option Link} {dead : List Link}
    (htake : p.take node holder = (.ok lease, p₁))
    (hidle : p₁.takeIdle node isOpen = (found, dead, p₂)) : Balanced total perNode p₂ := by
  have hensured := h.ensure hk node
  obtain ⟨hlease, -, hnames, -, -, hholdings⟩ := Pool.take_ok htake
  obtain ⟨-, -, -, hall, -, hfree, htotal, hperNode⟩ := Pool.take_permits htake
  obtain ⟨-, rest, -, -, rfl, -⟩ := Pool.takeIdle_cases (hnames ▸ Pool.mem_ensure) hidle
  have hout : ∀ m, (p₁.modifyNode node fun n => { n with idle := rest }).outAt m =
      (p.ensure node).outAt m + if node = m then 1 else 0 := by
    intro m
    have hold : (p.ensure node).holdings = p.holdings := Pool.ensure_extends.holdings
    change p₁.outAt m = _
    rw [Pool.outAt, Pool.outAt, hholdings, hold, List.countP_cons, hlease]
    simp
  refine ⟨htotal.trans h.total_eq, hperNode.trans h.perNode_eq, ?_, ?_, ?_⟩
  · -- The permit of the whole pool.
    change p₁.free + p₁.holdings.length = total
    have := h.permits
    rw [hfree, hholdings, List.length_cons]
    omega
  · -- The permits of each node, and then the room for its links.
    intro m hm
    obtain ⟨n, hn, heq, hcase⟩ := Pool.lent_nodes hk.leases.names htake hidle hm
    have hbefore := hensured.nodePermits n hn
    rw [hout, heq]
    obtain ⟨hnode, rfl⟩ | ⟨hnode, hpos, hless, -, -⟩ := hcase
    · rw [if_neg (Ne.symm hnode)]
      exact hbefore
    · rw [if_pos hnode.symm]
      omega
  · intro m hm
    obtain ⟨n, hn, heq, hcase⟩ := Pool.lent_nodes hk.leases.names htake hidle hm
    have hbefore := hensured.places n hn
    have hpermits := hensured.nodePermits n hn
    rw [hout, heq]
    obtain ⟨hnode, rfl⟩ | ⟨hnode, hpos, -, hidle, hempty⟩ := hcase
    · rw [if_neg (Ne.symm hnode)]
      exact hbefore
    · rw [if_pos hnode.symm]
      cases found with
      | none =>
        rw [hempty rfl, List.length_nil]
        omega
      | some link =>
        simp only [Option.toList_some, List.length_singleton] at hidle
        omega

theorem attached (h : Balanced total perNode p) (lease : Lease) (link : Link) :
    Balanced total perNode (p.attach lease link) where
  total_eq := h.total_eq
  perNode_eq := h.perNode_eq
  permits := by
    simp only [Pool.attach, List.length_map]
    exact h.permits
  nodePermits n hn := by
    rw [Pool.outAt_attach]
    exact h.nodePermits n hn
  places n hn := by
    rw [Pool.outAt_attach]
    exact h.places n hn

theorem givenBack (h : Balanced total perNode p) (hp : Holding.Distinct p.holdings) {a : Holding}
    (ha : a ∈ p.holdings) :
    Balanced total perNode (p.giveBack a.lease) ∧
      ∀ n ∈ (p.giveBack a.lease).nodes, n.node = a.lease.node →
        n.idle.length + 1 + (p.giveBack a.lease).outAt n.node ≤ perNode := by
  have hperm := Pool.giveBack_perm hp ha
  have hout : ∀ m, p.outAt m =
      (p.giveBack a.lease).outAt m + if a.lease.node = m then 1 else 0 := by
    intro m
    rw [Pool.outAt, hperm.countP_eq, List.countP_cons]
    simp [Pool.outAt]
  have hlength := hperm.length_eq
  rw [List.length_cons] at hlength
  have hfrom : ∀ m ∈ (p.giveBack a.lease).nodes, ∃ n ∈ p.nodes, m.node = n.node ∧
      m.free = n.free + (if a.lease.node = n.node then 1 else 0) ∧ m.idle = n.idle := by
    intro m hm
    obtain ⟨n, hn, ⟨hnode, rfl⟩ | ⟨hnode, rfl⟩⟩ := Pool.mem_modifyNode hm
    · exact ⟨n, hn, rfl, by simp [hnode], rfl⟩
    · exact ⟨m, hn, rfl, by simp [Ne.symm hnode], rfl⟩
  refine ⟨⟨h.total_eq, h.perNode_eq, ?_, ?_, ?_⟩, ?_⟩
  · change p.free + 1 + (p.giveBack a.lease).holdings.length = total
    have := h.permits
    omega
  · intro m hm
    obtain ⟨n, hn, hnode, hfree, -⟩ := hfrom m hm
    have hbefore := h.nodePermits n hn
    rw [hout] at hbefore
    rw [hnode, hfree]
    omega
  · intro m hm
    obtain ⟨n, hn, hnode, -, hidle⟩ := hfrom m hm
    have hbefore := h.places n hn
    rw [hout] at hbefore
    rw [hnode, hidle]
    omega
  · intro m hm hsame
    obtain ⟨n, hn, hnode, -, hidle⟩ := hfrom m hm
    have hbefore := h.places n hn
    rw [hout, if_pos (hsame.symm.trans hnode)] at hbefore
    rw [hnode, hidle]
    omega

theorem putIdle (h : Balanced total perNode p) (link : Link)
    (hroom : ∀ n ∈ p.nodes, n.node = node → n.idle.length + 1 + p.outAt n.node ≤ perNode) :
    Balanced total perNode (p.putIdle node link) where
  total_eq := h.total_eq
  perNode_eq := h.perNode_eq
  permits := h.permits
  nodePermits m hm := by
    obtain ⟨n, hn, ⟨-, rfl⟩ | ⟨-, rfl⟩⟩ := Pool.mem_modifyNode hm
    · exact h.nodePermits n hn
    · exact h.nodePermits m hn
  places m hm := by
    obtain ⟨n, hn, ⟨hnode, rfl⟩ | ⟨-, rfl⟩⟩ := Pool.mem_modifyNode hm
    · exact hroom n hn hnode
    · exact h.places m hn

theorem drained (h : Balanced total perNode p) : Balanced total perNode p.drain.2 where
  total_eq := h.total_eq
  perNode_eq := h.perNode_eq
  permits := h.permits
  nodePermits m hm := by
    obtain ⟨n, hn, rfl⟩ := List.mem_map.mp hm
    exact h.nodePermits n hn
  places m hm := by
    obtain ⟨n, hn, rfl⟩ := List.mem_map.mp hm
    exact Nat.le_trans (Nat.add_le_add_right (Nat.zero_le _) _) (h.places n hn)

/-- Every turnover keeps the balance. -/
theorem turnover (h : Balanced total perNode p) (hk : Ledger p k) {s : Strand} {r : Request}
    {g' : Grip} (t : Turnover p s.task (k s) r p' g') : Balanced total perNode p' := by
  have hmine : ∀ {lease : Lease}, (k s).lease? = some lease →
      ∃ a ∈ p.holdings, a.lease = lease := fun hs => ⟨_, hk.mine s _ hs, rfl⟩
  cases t with
  | same => exact h
  | refused take => exact Pool.take_error take ▸ h.ensure hk _
  | opening grip take idle => exact h.taken hk take idle
  | reusing grip take idle => exact (h.taken hk take idle).attached _ _
  | attached => exact h.attached _ _
  | @returned lease link grip epoch =>
    obtain ⟨a, ha, rfl⟩ := hmine (show (k s).lease? = some lease by rw [grip]; rfl)
    obtain ⟨hback, hroom⟩ := h.givenBack hk.numbers ha
    exact hback.putIdle link hroom
  | ended grip ends =>
    obtain ⟨a, ha, rfl⟩ := hmine grip
    exact (h.givenBack hk.numbers ha).1
  | drained => exact h.drained

end Balanced

theorem Dealings.balanced {σ : Type} [Transport σ] {c d : Client σ} {g k : Strand → Grip}
    {es : List (Event σ)} {total perNode : Nat} (h : Dealings c g es d k) (hg : Ledger c.pool g)
    (hc : Balanced total perNode c.pool) : Balanced total perNode d.pool := by
  induction h with
  | refl => exact hc
  | quiet _ pool _ ih => exact pool ▸ ih
  | answer hbefore s r allowed ih =>
    have hledger := hbefore.ledger hg
    exact ih.turnover hledger (turnover_of_answer hledger.leases allowed s.task)
  | abandoned hbefore i ih =>
    exact (hbefore.ledger hg).abandon_induct i (fun p a hp ha hb => (hb.givenBack hp ha).1) ih

/-! ## Accounts -/

/-- The books of the pool, for each node and in all. -/
structure Accounts (total perNode : Nat) (p : Pool) : Prop where
  permits : p.free + p.holdings.length = total
  limit : p.holdings.length ≤ total
  nodePermits (node : String) : p.freeAt node + p.outAt node = perNode
  places (node : String) : p.idleCount node + p.outAt node ≤ perNode

namespace Balanced

variable {total perNode : Nat} {p : Pool} {k : Strand → Grip}

theorem accounts (h : Balanced total perNode p) (hk : Ledger p k) : Accounts total perNode p := by
  have hnone : ∀ {node : String}, p.nodePool? node = none → p.outAt node = 0 := by
    intro node hnode
    refine Pool.outAt_eq_zero fun a ha heq => ?_
    exact Pool.not_mem_names_of_none hnode (heq ▸ (hk.entered ha).2)
  refine ⟨h.permits, h.permits ▸ Nat.le_add_left _ _, fun node => ?_, fun node => ?_⟩
  · unfold Pool.freeAt
    split
    · next n hn =>
      obtain ⟨hmem, rfl⟩ := Pool.of_nodePool hn
      exact h.nodePermits n hmem
    · next hnode =>
      rw [hnone hnode]
      exact h.perNode_eq
  · unfold Pool.idleCount
    split
    · next n hn =>
      obtain ⟨hmem, rfl⟩ := Pool.of_nodePool hn
      exact h.places n hmem
    · next hnode =>
      rw [hnone hnode]
      exact Nat.zero_le _

theorem refused_iff {σ : Type} [Transport σ] {c : Client σ} (h : Balanced total perNode c.pool)
    (hk : Ledger c.pool k) (task : Nat) (node : String) :
    (∃ f, (c.checkout task node).1 = .error f) ↔
      c.pool.outAt node = perNode ∨ c.pool.holdings.length = total := by
  have hensured := h.ensure hk node
  have hout : (c.pool.ensure node).outAt node = c.pool.outAt node := by
    rw [Pool.outAt, Pool.ensure_extends.holdings, Pool.outAt]
  have hpermits := h.permits
  unfold Client.checkout
  rcases htake : c.pool.take node task with ⟨f | lease, pool⟩
  · refine ⟨fun _ => ?_, fun _ => ⟨f, rfl⟩⟩
    obtain ⟨n, hn, hnone⟩ | hnone := Pool.take_error_permits htake
    · obtain ⟨hn, rfl⟩ := Pool.of_nodePool hn
      have := hensured.nodePermits n hn
      exact .inl (by omega)
    · exact .inr (by omega)
  · obtain ⟨n, hn, hsome, hall, -⟩ := Pool.take_permits htake
    obtain ⟨hn, rfl⟩ := Pool.of_nodePool hn
    have hnode := hensured.nodePermits n hn
    constructor
    · rintro ⟨f, hf⟩
      dsimp only at hf
      split at hf <;> cases hf
    · rintro (hfull | hfull) <;> omega

end Balanced

/-! ## Links that are kept -/

namespace Pool

variable {p : Pool}

/-- The open links that the pool knows of, and those that are being opened. -/
def kept (p : Pool) : Nat := p.idleLinks.length + p.holdings.length

theorem sum_outAt (hnames : p.names.Nodup) (hentered : ∀ a ∈ p.holdings, a.lease.node ∈ p.names) :
    (p.nodes.map fun n => p.outAt n.node).sum = p.holdings.length := by
  have hcount : ∀ (names : List String) (name : String),
      (names.map fun m => if name = m then 1 else 0).sum = names.count name := by
    intro names name
    induction names with
    | nil => rfl
    | cons m rest ih =>
      simp only [List.map_cons, List.sum_cons, ih, List.count_cons, beq_iff_eq, eq_comm (a := m)]
      omega
  -- On the leases. Each counts once among the nodes.
  have hall : ∀ {as : List Holding}, (∀ a ∈ as, a.lease.node ∈ p.names) →
      (p.names.map fun m => as.countP fun a => a.lease.node == m).sum = as.length := by
    intro as has
    induction as with
    | nil => simp
    | cons a rest ih =>
      obtain ⟨ha, hrest⟩ := List.forall_mem_cons.mp has
      simp only [List.countP_cons, List.length_cons, beq_iff_eq]
      rw [List.sum_map_add, ih hrest, hcount, List.count_eq_one_of_mem hnames ha]
  have hsum := hall hentered
  rwa [names, List.map_map] at hsum

end Pool

theorem Balanced.kept_le {total perNode : Nat} {p : Pool} {k : Strand → Grip}
    (h : Balanced total perNode p) (hk : Ledger p k) : p.kept ≤ perNode * p.nodes.length := by
  have hout := Pool.sum_outAt hk.leases.names fun a ha => (hk.entered ha).2
  rw [Pool.kept, Pool.idleLinks, List.length_flatMap, ← hout, ← List.sum_map_add]
  have hbound : ∀ m ∈ p.nodes.map fun n => n.idle.length + p.outAt n.node, m ≤ perNode := by
    intro m hm
    obtain ⟨n, hn, rfl⟩ := List.mem_map.mp hm
    exact h.places n hn
  have hsum := List.sum_le_card_nsmul _ _ hbound
  rwa [List.length_map, nsmul_eq_mul, Nat.cast_id, Nat.mul_comm] at hsum

/-! ## Any course -/

namespace Moment

section Course

variable {σ : Type} [Transport σ] {s : Settings} {seeds : List Node} {network : σ}
  {choices : Nat → Nat} {es : List (Event σ)} {S : Moment σ Answer}

theorem Course.books (h : Course ⟨[], Client.new s seeds network choices⟩ es S) :
    ∃ k, S.InHands k ∧ Ledger S.client.pool k ∧
      Balanced s.maxConnections s.maxConnectionsPerNode S.client.pool := by
  obtain ⟨k, hdealings, hhands⟩ := h.dealings (InHands.start _)
  have hstart : Ledger (Client.new s seeds network choices).pool fun _ => .nothing :=
    Ledger.new _ _
  exact ⟨k, hhands, hdealings.ledger hstart, hdealings.balanced hstart (Balanced.new _ _)⟩

/-- The limit of a client holds for the links that are lent or being opened. Idle links count at
their node only, so there may be as many links as the nodes that were asked for have permits. An
idle link at another node is never a reason to refuse a lease. -/
theorem Course.kept_links_bounded (h : Course ⟨[], Client.new s seeds network choices⟩ es S) :
    S.client.pool.holdings.length ≤ s.maxConnections ∧
      S.client.pool.kept ≤ s.maxConnectionsPerNode * S.client.pool.nodes.length ∧
      ∀ (task : Nat) (node : String), (∃ f, (S.client.checkout task node).1 = .error f) ↔
        S.client.pool.outAt node = s.maxConnectionsPerNode ∨
          S.client.pool.holdings.length = s.maxConnections := by
  obtain ⟨k, -, hledger, hbalanced⟩ := h.books
  exact ⟨(hbalanced.accounts hledger).limit, hbalanced.kept_le hledger,
    hbalanced.refused_iff hledger⟩

end Course

/-- A client that may have one connection asks two nodes one after the other, and keeps both
links. -/
theorem Course.kept_links_bounded_two :
    let s : Settings := { maxConnections := 1 }
    let c := Client.new s [Node.new "a" 1 .master]
      (⟨0, [.array [], .okay, .okay]⟩ : Canned) fun _ => 0
    let ask := fun host port =>
      Operation.route (Command.ofWords ["PING"]) (.single (.address host port))
    let S₀ : Moment Canned Answer := ⟨[(ask "a" 1).task s, (ask "b" 2).task s], c⟩
    let schedule := List.replicate 30 0 ++ List.replicate 30 1
    let S := (S₀.play schedule).2
    Course ⟨[], c⟩ (S₀.play schedule).1 S ∧
      (S.tasks.map fun t => t.result?.isSome) = [true, true] ∧
      S.client.pool.idleCount "a:1" = 1 ∧ S.client.pool.idleCount "b:2" = 1 ∧
      s.maxConnections < S.client.pool.kept ∧
      S.client.pool.holdings.length ≤ s.maxConnections ∧
      S.client.pool.kept ≤ s.maxConnectionsPerNode * S.client.pool.nodes.length ∧
      ∀ (task : Nat) (node : String), (∃ f, (S.client.checkout task node).1 = .error f) ↔
        S.client.pool.outAt node = s.maxConnectionsPerNode ∨
          S.client.pool.holdings.length = s.maxConnections := by
  intro s c ask S₀ schedule S
  have hbegun : Course ⟨[], c⟩ [] S₀ := (Course.refl.begun (ask "a" 1)).begun (ask "b" 2)
  have hcourse : Course ⟨[], c⟩ ([] ++ (S₀.play schedule).1) S := hbegun.run (S₀.run_play schedule)
  rw [List.nil_append] at hcourse
  exact ⟨hcourse, by decide +kernel, by decide +kernel, by decide +kernel, by decide +kernel,
    kept_links_bounded hcourse⟩

end Moment

end SlotCluster
