import Mathlib.Data.List.Nodup
import Mathlib.Logic.Function.Basic
import SlotCluster.Proofs.Grips

/-!
# The books of the pool

The pool keeps its idle links by node, and every lease that it has given out until that is given
back. A node is entered once, so that what is kept for it is kept in one place.
-/

namespace SlotCluster

namespace Pool

def names (p : Pool) : List String := p.nodes.map NodePool.node

/-- The idle links of all nodes. -/
def idleLinks (p : Pool) : List Link := p.nodes.flatMap NodePool.idle

/-- What the pool has noted about a lease: perhaps a link. -/
def noteOf (p : Pool) (lease : Lease) : Option (Option Link) :=
  (p.holdings.find? fun h => h.lease.number == lease.number).map Holding.link

variable {p p' : Pool} {node : String} {holder : Nat} {lease : Lease} {link : Link}

theorem link_eq_of_noteOf {found : Option Link} (h : p.noteOf lease = some found) :
    p.link? lease = found := by
  obtain ⟨holding, hfind, rfl⟩ := Option.map_eq_some_iff.mp h
  rw [link?, hfind, Option.bind_some]

theorem noteOf_cons (holding : Holding) (other : Lease)
    (h : p'.holdings = holding :: p.holdings) (hne : other.number ≠ holding.lease.number) :
    p'.noteOf other = p.noteOf other := by
  rw [noteOf, h, List.find?_cons_of_neg]
  · rfl
  · simpa using hne.symm

theorem noteOf_attach (other : Lease) :
    (p.attach lease link).noteOf other =
      if lease.number = other.number then (p.noteOf other).map fun _ => some link
      else p.noteOf other := by
  have hsame : ((fun h : Holding => h.lease.number == other.number) ∘ fun h =>
      if h.lease.number == lease.number then { h with link := some link } else h) =
      fun h => h.lease.number == other.number := by
    funext h
    simp only [Function.comp_apply]
    split <;> rfl
  rw [noteOf, attach, List.find?_map, hsame, noteOf]
  cases hfind : p.holdings.find? fun h => h.lease.number == other.number with
  | none => split <;> rfl
  | some h =>
    have hnumber : h.lease.number = other.number := by simpa using List.find?_some hfind
    by_cases heq : lease.number = other.number
    · simp [hnumber, heq]
    · simp [hnumber, heq, Ne.symm heq]

theorem noteOf_giveBack {other : Lease} (hne : other.number ≠ lease.number) :
    (p.giveBack lease).noteOf other = p.noteOf other := by
  have hsame : (fun h : Holding =>
      decide ((h.lease.number != lease.number) = true ∧ (h.lease.number == other.number) = true)) =
      fun h => h.lease.number == other.number := by
    funext h
    by_cases hnumber : h.lease.number = other.number
    · simp [hnumber, hne]
    · simp [hnumber]
  rw [noteOf, giveBack, List.find?_filter, hsame]
  rfl

/-! ## Nodes -/

theorem modifyNode_names {f : NodePool → NodePool} (hf : ∀ n, (f n).node = n.node) :
    (p.modifyNode node f).names = p.names := by
  simp only [names, modifyNode, List.map_map]
  refine List.map_congr_left fun n _ => ?_
  simp only [Function.comp_apply]
  split
  · exact hf n
  · rfl

theorem modifyNode_idleLinks {f : NodePool → NodePool} (hf : ∀ n, (f n).idle = n.idle) :
    (p.modifyNode node f).idleLinks = p.idleLinks := by
  simp only [idleLinks, modifyNode, List.flatMap_map]
  congr 1
  funext n
  split
  · exact hf n
  · rfl

theorem modifyNode_split {n : NodePool} (hnames : p.names.Nodup) (hn : n ∈ p.nodes)
    (f : NodePool → NodePool) :
    ∃ before after, p.nodes = before ++ n :: after ∧
      (p.modifyNode n.node f).nodes = before ++ f n :: after := by
  obtain ⟨before, after, hsplit⟩ := List.append_of_mem hn
  refine ⟨before, after, hsplit, ?_⟩
  have hothers : ∀ m ∈ before ++ after, (m.node == n.node) = false := by
    intro m hm
    rw [names, hsplit, List.map_append, List.map_cons, List.nodup_middle, List.nodup_cons,
      ← List.map_append] at hnames
    rw [beq_eq_false_iff_ne]
    exact fun heq => hnames.1 (heq ▸ List.mem_map_of_mem hm)
  have hsame : ∀ ms : List NodePool, (∀ m ∈ ms, (m.node == n.node) = false) →
      ms.map (fun m => if m.node == n.node then f m else m) = ms := by
    intro ms hms
    refine (List.map_congr_left fun m hm => ?_).trans (List.map_id ms)
    rw [hms m hm]
    rfl
  rw [modifyNode, hsplit]
  simp only [List.map_append, List.map_cons, beq_self_eq_true, if_true]
  rw [hsame before fun m hm => hothers m (List.mem_append_left _ hm),
    hsame after fun m hm => hothers m (List.mem_append_right _ hm)]

theorem modifyNode_perm {n : NodePool} (hnames : p.names.Nodup) (hn : n ∈ p.nodes)
    (f : NodePool → NodePool) :
    ∃ others, p.idleLinks.Perm (n.idle ++ others) ∧
      (p.modifyNode n.node f).idleLinks.Perm ((f n).idle ++ others) := by
  obtain ⟨before, after, hnodes, hnodes'⟩ := modifyNode_split hnames hn f
  refine ⟨(before ++ after).flatMap NodePool.idle, ?_⟩
  simp only [idleLinks, hnodes, hnodes', List.flatMap_append, List.flatMap_cons]
  exact ⟨List.perm_append_comm_assoc _ _ _, List.perm_append_comm_assoc _ _ _⟩

theorem exists_of_mem_names (h : node ∈ p.names) : ∃ n ∈ p.nodes, n.node = node :=
  List.mem_map.mp h

theorem of_nodePool {n : NodePool} (h : p.nodePool? node = some n) :
    n ∈ p.nodes ∧ n.node = node :=
  ⟨List.mem_of_find?_eq_some h, by simpa using List.find?_some h⟩

/-- The books of leases are the same, and no node is lost. -/
structure Extends (p p' : Pool) : Prop where
  nodup : p.names.Nodup → p'.names.Nodup
  names : p.names ⊆ p'.names
  holdings : p'.holdings = p.holdings
  next : p'.next = p.next

theorem extends_of_names (hnames : p'.names = p.names) (hholdings : p'.holdings = p.holdings)
    (hnext : p'.next = p.next) : p.Extends p' :=
  ⟨fun h => hnames ▸ h, fun _ h => hnames ▸ h, hholdings, hnext⟩

theorem ensure_extends : p.Extends (p.ensure node) := by
  unfold ensure
  split
  · exact extends_of_names rfl rfl rfl
  · next hnone =>
    have hnew : node ∉ p.names := by
      intro hmem
      obtain ⟨n, hn, rfl⟩ := exists_of_mem_names hmem
      simpa using List.find?_eq_none.mp hnone n hn
    refine ⟨?_, ?_, rfl, rfl⟩
    · intro h
      simp only [names, List.map_append, List.map_cons, List.map_nil]
      exact h.append (List.nodup_singleton _) (by simpa [names] using hnew)
    · intro m hm
      simp only [names, List.map_append, List.mem_append]
      exact .inl hm

theorem ensure_idleLinks : (p.ensure node).idleLinks = p.idleLinks := by
  unfold ensure
  split
  · rfl
  · simp [idleLinks]

theorem ensure_epoch : (p.ensure node).epoch = p.epoch := by
  unfold ensure
  split <;> rfl

theorem mem_ensure : node ∈ (p.ensure node).names := by
  unfold ensure
  split
  · next n h =>
    obtain ⟨hn, rfl⟩ := of_nodePool h
    exact List.mem_map_of_mem hn
  · simp [names]

/-! ## Giving out -/

theorem take_error {f : Fault} (h : p.take node holder = (.error f, p')) :
    p' = p.ensure node := by
  unfold take at h
  simp only at h
  split at h
  · cases h
    rfl
  · split at h
    · cases h
      rfl
    · split at h <;> cases h
      rfl

theorem take_ok (h : p.take node holder = (.ok lease, p')) :
    lease.node = node ∧ lease.number = p.next ∧ p'.names = (p.ensure node).names ∧
      p'.idleLinks = p.idleLinks ∧ p'.next = p.next + 1 ∧
      p'.holdings = ⟨lease, holder, none⟩ :: p.holdings := by
  have hensured : p.Extends (p.ensure node) := ensure_extends
  unfold take at h
  simp only at h
  split at h
  · cases h
  · split at h
    · cases h
    · split at h
      · cases h
      · cases h
        refine ⟨rfl, hensured.next, modifyNode_names fun _ => rfl, ?_, ?_, ?_⟩
        · change ((p.ensure node).modifyNode node fun n =>
            { n with free := n.free - 1 }).idleLinks = p.idleLinks
          rw [modifyNode_idleLinks, ensure_idleLinks]
          exact fun _ => rfl
        · exact congrArg (· + 1) hensured.next
        · exact congrArg (List.cons _) hensured.holdings

theorem take_epoch (h : p.take node holder = (.ok lease, p')) :
    lease.epoch = p.epoch ∧ p'.epoch = p.epoch := by
  unfold take at h
  simp only at h
  split at h
  · cases h
  · split at h
    · cases h
    · split at h <;> cases h
      exact ⟨ensure_epoch, ensure_epoch⟩

theorem takeIdle_epoch {isOpen : Link → Bool} {found : Option Link} {dead : List Link}
    (h : p.takeIdle node isOpen = (found, dead, p')) : p'.epoch = p.epoch := by
  unfold takeIdle at h
  split at h
  · cases h
    rfl
  · split at h <;> cases h
    all_goals rfl

theorem takeIdle_extends (isOpen : Link → Bool) {found : Option Link} {dead : List Link}
    (h : p.takeIdle node isOpen = (found, dead, p')) : p.Extends p' := by
  unfold takeIdle at h
  split at h
  · cases h
    exact extends_of_names rfl rfl rfl
  · split at h <;> cases h
    all_goals exact extends_of_names (modifyNode_names fun _ => rfl) rfl rfl

theorem takeIdle_perm (hnames : p.names.Nodup) {isOpen : Link → Bool} {found : Option Link}
    {dead : List Link} (h : p.takeIdle node isOpen = (found, dead, p')) :
    p.idleLinks.Perm (dead ++ (found.toList ++ p'.idleLinks)) ∧
      ∀ link, found = some link → isOpen link = true := by
  unfold takeIdle at h
  split at h
  · cases h
    exact ⟨.refl _, nofun⟩
  · next n hfind =>
    obtain ⟨hn, rfl⟩ := of_nodePool hfind
    have hcut : (n.idle.takeWhile fun l => !isOpen l) ++ (n.idle.dropWhile fun l => !isOpen l) =
        n.idle := List.takeWhile_append_dropWhile
    split at h
    · next hnone =>
      cases h
      obtain ⟨others, hbefore, hafter⟩ :=
        modifyNode_perm hnames hn fun n => { n with idle := [] }
      rw [hnone, List.append_nil] at hcut
      rw [hcut]
      exact ⟨hbefore.trans (hafter.symm.append_left _), nofun⟩
    · next link rest hsome =>
      cases h
      obtain ⟨others, hbefore, hafter⟩ :=
        modifyNode_perm hnames hn fun n => { n with idle := rest }
      refine ⟨hbefore.trans ?_, ?_⟩
      · nth_rewrite 1 [← hcut]
        rw [hsome, List.append_assoc]
        exact (hafter.symm.cons link).append_left _
      · rintro _ ⟨⟩
        have hhead := List.head?_dropWhile_not (fun l => !isOpen l) n.idle
        rw [hsome] at hhead
        simpa using hhead

/-! ## Taking back -/

theorem giveBack_names : (p.giveBack lease).names = p.names := modifyNode_names fun _ => rfl

theorem giveBack_idleLinks : (p.giveBack lease).idleLinks = p.idleLinks :=
  modifyNode_idleLinks (p := p) fun _ => rfl

theorem mem_giveBack {a : Holding} :
    a ∈ (p.giveBack lease).holdings ↔ a ∈ p.holdings ∧ a.lease.number ≠ lease.number := by
  rw [giveBack, List.mem_filter, bne_iff_ne]
  rfl

theorem putIdle_extends : p.Extends (p.putIdle node link) :=
  extends_of_names (modifyNode_names fun _ => rfl) rfl rfl

theorem putIdle_perm (hnames : p.names.Nodup) (hnode : node ∈ p.names) :
    (p.putIdle node link).idleLinks.Perm (link :: p.idleLinks) := by
  obtain ⟨n, hn, rfl⟩ := exists_of_mem_names hnode
  obtain ⟨others, hbefore, hafter⟩ :=
    modifyNode_perm hnames hn fun n => { n with idle := link :: n.idle }
  exact hafter.trans (hbefore.symm.cons link)

theorem drain_extends : p.Extends p.drain.2 :=
  extends_of_names (by simp [drain, names, Function.comp_def]) rfl rfl

theorem drain_idleLinks : p.drain.2.idleLinks = [] := by
  simp [drain, idleLinks]

end Pool

/-! ## Leases -/

/-- Every lease in somebody's hands is in the books, and in nobody else's hands. -/
structure Leases {ι : Type} (p : Pool) (g : ι → Grip) : Prop where
  names : p.names.Nodup
  entered : ∀ i lease, (g i).lease? = some lease →
    lease.number < p.next ∧ lease.node ∈ p.names ∧ p.noteOf lease = some (g i).noted?
  apart : ∀ i j a b, (g i).lease? = some a → (g j).lease? = some b → a.number = b.number → i = j

namespace Leases

variable {ι : Type} {p p' : Pool} {g : ι → Grip} {i : ι} {g' : Grip} {node : String} {holder : Nat}
  {lease : Lease} {link : Link}

theorem of_extends (h : Leases p g) (hp : p.Extends p') : Leases p' g where
  names := hp.nodup h.names
  entered i lease hi := by
    obtain ⟨hnumber, hnode, hnote⟩ := h.entered i lease hi
    refine ⟨hp.next ▸ hnumber, hp.names hnode, ?_⟩
    rw [Pool.noteOf, hp.holdings]
    exact hnote
  apart := h.apart

variable [DecidableEq ι]

theorem update (h : Leases p g) (hnames : p'.names = p.names) (hnext : p.next ≤ p'.next)
    (hnote : ∀ j other, j ≠ i → (g j).lease? = some other → p'.noteOf other = p.noteOf other)
    (hnew : ∀ lease, g'.lease? = some lease →
      lease.number < p'.next ∧ lease.node ∈ p.names ∧ p'.noteOf lease = some g'.noted? ∧
        ∀ j other, j ≠ i → (g j).lease? = some other → other.number ≠ lease.number) :
    Leases p' (Function.update g i g') := by
  constructor
  case names => exact hnames ▸ h.names
  case entered =>
    intro j other hj
    rcases eq_or_ne j i with rfl | hne
    · rw [Function.update_self] at hj ⊢
      obtain ⟨hnumber, hnode, hnote, -⟩ := hnew other hj
      exact ⟨hnumber, hnames ▸ hnode, hnote⟩
    · rw [Function.update_of_ne hne] at hj ⊢
      obtain ⟨hnumber, hnode, hold⟩ := h.entered j other hj
      exact ⟨Nat.lt_of_lt_of_le hnumber hnext, hnames ▸ hnode, (hnote j other hne hj).trans hold⟩
  case apart =>
    intro j k a b hj hk hab
    rcases eq_or_ne j i with hji | hji <;> rcases eq_or_ne k i with hki | hki
    · rw [hji, hki]
    · rw [hji, Function.update_self] at hj
      rw [Function.update_of_ne hki] at hk
      exact absurd hab.symm ((hnew a hj).2.2.2 k b hki hk)
    · rw [Function.update_of_ne hji] at hj
      rw [hki, Function.update_self] at hk
      exact absurd hab ((hnew b hk).2.2.2 j a hji hj)
    · rw [Function.update_of_ne hji] at hj
      rw [Function.update_of_ne hki] at hk
      exact h.apart j k a b hj hk hab

theorem relabel (h : Leases p g) (hlease : g'.lease? = (g i).lease?)
    (hnoted : g'.noted? = (g i).noted?) : Leases p (Function.update g i g') := by
  refine h.update rfl (Nat.le_refl _) (fun _ _ _ _ => rfl) ?_
  intro lease hl
  rw [hlease] at hl
  obtain ⟨hnumber, hnode, hnote⟩ := h.entered i lease hl
  refine ⟨hnumber, hnode, hnoted ▸ hnote, ?_⟩
  intro j other hj hother heq
  exact hj (h.apart j i other lease hother hl heq)

theorem setDue (h : Leases p g) (due : Option Nat) :
    Leases p (Function.update g i ((g i).setDue due)) :=
  h.relabel (Grip.lease_setDue _ _) (Grip.noted_setDue _ _)

theorem taken (h : Leases p g) (htake : p.take node holder = (.ok lease, p')) :
    Leases p' (Function.update g i (.leased lease)) := by
  obtain ⟨hnode, hnumber, hnames, -, hnext, hholdings⟩ := Pool.take_ok htake
  have hensured : p.Extends (p.ensure node) := Pool.ensure_extends
  have hnew : ∀ j other, (g j).lease? = some other → other.number ≠ lease.number := by
    intro j other hother
    have := (h.entered j other hother).1
    omega
  refine (h.of_extends hensured).update hnames ?_ ?_ ?_
  · rw [hnext, hensured.next]
    omega
  · intro j other _ hother
    refine (Pool.noteOf_cons _ other hholdings (hnew j other hother)).trans ?_
    rw [Pool.noteOf, Pool.noteOf, hensured.holdings]
  · rintro _ ⟨⟩
    refine ⟨by omega, hnode ▸ Pool.mem_ensure, ?_, fun j other _ => hnew j other⟩
    rw [Pool.noteOf, hholdings]
    simp [Grip.noted?]

theorem attached (h : Leases p g) (hi : (g i).lease? = some lease) (link : Link)
    (due : Option Nat) :
    Leases (p.attach lease link) (Function.update g i (.lent lease link due)) := by
  obtain ⟨hnumber, hnode, hnote⟩ := h.entered i lease hi
  have hapart : ∀ j other, j ≠ i → (g j).lease? = some other → other.number ≠ lease.number :=
    fun j other hj hother heq => hj (h.apart j i other lease hother hi heq)
  refine h.update rfl (Nat.le_refl _) ?_ ?_
  · intro j other hj hother
    rw [Pool.noteOf_attach, if_neg (hapart j other hj hother).symm]
  · rintro _ ⟨⟩
    refine ⟨hnumber, hnode, ?_, hapart⟩
    rw [Pool.noteOf_attach, if_pos rfl, hnote]
    rfl

theorem givenBack (h : Leases p g) (hi : (g i).lease? = some lease) :
    Leases (p.giveBack lease) (Function.update g i .nothing) := by
  refine h.update Pool.giveBack_names (Nat.le_refl _) ?_ nofun
  intro j other hj hother
  exact Pool.noteOf_giveBack fun heq => hj (h.apart j i other lease hother hi heq)

end Leases

end SlotCluster
