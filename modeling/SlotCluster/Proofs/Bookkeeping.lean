import SlotCluster.Proofs.LinkBooks
import SlotCluster.Proofs.PoolBooks

/-!
# Bookkeeping

The books of the links and of the pool agree, and every answer to a request of a strand keeps them
so. Hence they agree in every walk.
-/

namespace SlotCluster

open QueueTransport

variable {σ ι α : Type}

/-- The books are right about what everybody has in hands. -/
structure Tidy [QueueTransport σ] (c : Client σ) (g : ι → Grip) : Prop where
  leases : Leases c.pool g
  links : Links c.pool.idleLinks c.network g

/-! ## One answer -/

theorem Client.closeLinks_pool [Transport σ] (c : Client σ) (links : List Link) :
    (c.closeLinks links).pool = c.pool := by
  unfold closeLinks
  induction links generalizing c with
  | nil => rfl
  | cons link rest ih =>
    rw [List.foldl_cons]
    exact ih (c.closeLink link)

namespace Tidy

variable [QueueTransport σ] [DecidableEq ι] {c c' : Client σ} {g : ι → Grip} {i : ι}

theorem of_same (h : Tidy c g) (hpool : c'.pool = c.pool) (hnetwork : c'.network = c.network) :
    Tidy c' (Function.update g i (g i)) := by
  obtain ⟨hleases, hlinks⟩ := h
  rw [Function.update_eq_self]
  exact ⟨hpool ▸ hleases, hpool ▸ hnetwork ▸ hlinks⟩

variable [LawfulTransport σ] {lease : Lease} {link : Link}

theorem discard (h : Tidy c g) (hlease : (g i).lease? = some lease)
    (hlink : (g i).link? = (g i).noted?) :
    Tidy (c.discard lease) (Function.update g i .nothing) := by
  obtain ⟨hleases, hlinks⟩ := h
  have hback := hleases.givenBack hlease
  have hnoted : c.pool.link? lease = (g i).link? :=
    hlink ▸ Pool.link_eq_of_noteOf (hleases.entered i lease hlease).2.2
  unfold Client.discard
  cases hi : (g i).link? with
  | none =>
    rw [hnoted, hi]
    refine ⟨hback, ?_⟩
    change Links (c.pool.giveBack lease).idleLinks c.network _
    rw [Pool.giveBack_idleLinks]
    refine hlinks.relabel hi.symm ?_
    cases hg : g i with
    | nothing | leased => rfl
    | opened | lent =>
      rw [hg] at hi
      cases hi
  | some link =>
    rw [hnoted, hi]
    refine ⟨hback, ?_⟩
    change Links (c.pool.giveBack lease).idleLinks (Transport.close link c.network) _
    rw [Pool.giveBack_idleLinks]
    exact hlinks.shut hi rfl

theorem release (h : Tidy c g) (hi : g i = .lent lease link (some 0)) :
    Tidy (c.release lease) (Function.update g i .nothing) := by
  have hlease : (g i).lease? = some lease := by rw [hi]; rfl
  obtain ⟨-, hnode, hnote⟩ := h.leases.entered i lease hlease
  have hlink : c.pool.link? lease = some link := by
    rw [Pool.link_eq_of_noteOf hnote, hi]
    rfl
  unfold Client.release
  rw [hlink]
  simp only
  split
  · have hback := h.leases.givenBack hlease
    refine ⟨hback.of_extends Pool.putIdle_extends, ?_⟩
    have hkept : Links (link :: c.pool.idleLinks) c.network (Function.update g i .nothing) :=
      h.links.kept (by rw [hi]; rfl) (by rw [hi]; rfl) rfl
    refine hkept.perm ?_
    rw [← Pool.giveBack_idleLinks]
    refine (Pool.putIdle_perm hback.names ?_).symm
    rwa [Pool.giveBack_names]
  · refine h.discard hlease ?_
    rw [hi]
    rfl

theorem closeAll (h : Tidy c g) : Tidy c.closeAll (Function.update g i (g i)) := by
  rw [Function.update_eq_self]
  have hpool : c.closeAll.pool = c.pool.drain.2 := Client.closeLinks_pool _ _
  refine ⟨hpool ▸ h.leases.of_extends Pool.drain_extends, ?_⟩
  rw [hpool, Pool.drain_idleLinks]
  have hall : Links (c.pool.idleLinks ++ []) c.network g := by
    rw [List.append_nil]
    exact h.links
  exact Links.all_closed (c := c.setPool c.pool.drain.2) hall

theorem checkout (h : Tidy c g) (hi : g i = .nothing) (task : Nat) (node : String) :
    Tidy (c.checkout task node).2
      (Function.update g i
        (gripProtocol.next (g i) (.checkout node) (c.checkout task node).1)) := by
  have hlink : (g i).link? = none := by rw [hi]; rfl
  unfold Client.checkout
  rcases htake : c.pool.take node task with ⟨result, pool⟩
  cases result with
  | error f =>
    obtain rfl := Pool.take_error htake
    change Tidy _ (Function.update g i (g i))
    rw [Function.update_eq_self]
    refine ⟨h.leases.of_extends Pool.ensure_extends, ?_⟩
    change Links (c.pool.ensure node).idleLinks c.network g
    rw [Pool.ensure_idleLinks]
    exact h.links
  | ok lease =>
    have htaken : Leases pool (Function.update g i (.leased lease)) := h.leases.taken htake
    have hidle : pool.idleLinks = c.pool.idleLinks := (Pool.take_ok htake).2.2.2.1
    dsimp only
    rcases hfind : pool.takeIdle node c.isOpen with ⟨found, dead, pool'⟩
    have hextends := Pool.takeIdle_extends c.isOpen hfind
    -- The dead links are closed, and the one that is found goes into the hands of the strand.
    obtain ⟨hperm, hopen⟩ := Pool.takeIdle_perm htaken.names hfind
    rw [hidle] at hperm
    have hlinks := h.links.perm hperm
    cases found with
    | none =>
      constructor
      · rw [Client.closeLinks_pool]
        exact htaken.of_extends hextends
      · rw [Client.closeLinks_pool]
        refine Links.all_closed (c := c.setPool pool') (hlinks.relabel ?_ ?_)
        all_goals rw [hi]; rfl
    | some link =>
      constructor
      · rw [Client.closeLinks_pool]
        have hmine : (Function.update g i (.leased lease) i).lease? = some lease := by
          rw [Function.update_self]
          rfl
        have hattached := (htaken.of_extends hextends).attached hmine link (some 0)
        rwa [Function.update_idem] at hattached
      · rw [Client.closeLinks_pool]
        have hfront := hlinks.perm (List.perm_append_comm_assoc _ _ _)
        refine Links.all_closed (c := c.setPool (pool'.attach lease link)) ?_
        exact hfront.lent (hopen link rfl) hlink rfl rfl

theorem connect (h : Tidy c g) (hi : g i = .nothing ∨ ∃ lease, g i = .leased lease) (task : Nat)
    (node : String) :
    Tidy (c.answer task (.connect node)).2 (Function.update g i
      (gripProtocol.next (g i) (.connect node) (c.answer task (.connect node)).1)) := by
  have hnone : (g i).link? = none ∧ (g i).noted? = none := by
    rcases hi with hi | ⟨lease, hi⟩ <;> simp [hi, Grip.link?, Grip.noted?]
  simp only [Client.answer, Client.onNetwork]
  rcases hconnect : Transport.connect node c.network with ⟨result, n⟩
  cases result with
  | error f =>
    change Tidy _ (Function.update g i (g i))
    rw [Function.update_eq_self]
    exact ⟨h.leases, h.links.of_untouched (LawfulTransport.connect_error hconnect)⟩
  | ok link =>
    obtain ⟨-, -, -, hopen, -⟩ := LawfulTransport.connect_ok hconnect
    refine ⟨h.leases.relabel rfl hnone.2.symm, ?_⟩
    exact (h.links.opened hconnect).lent hopen hnone.1 rfl rfl

theorem write (h : Tidy c g) {link : Link} {commands : List Command}
    (hi : (g i).link? = some link) (hdue : (g i).due? = some 0) (task : Nat) :
    Tidy (c.answer task (.write link commands)).2 (Function.update g i
      (gripProtocol.next (g i) (.write link commands)
        (c.answer task (.write link commands)).1)) := by
  obtain ⟨hopen, hempty⟩ := (h.links.of_grip hi).2.2.2 0 hdue
  have hheld := LawfulTransport.write_held link commands c.network
  have hothers : ∀ l ≠ link, Untouched c.network _ l :=
    fun l hl => LawfulTransport.write_others commands c.network hl
  simp only [Client.answer, Client.onNetwork]
  rcases hwrite : Transport.write link commands c.network with ⟨result, n⟩
  rw [hwrite] at hheld hothers
  cases result with
  | error f => exact ⟨h.leases.setDue _, h.links.touched hi hheld hothers nofun⟩
  | ok done =>
    obtain ⟨hstill, replies, hlength, hqueue⟩ := LawfulTransport.write_ok hwrite
    refine ⟨h.leases.setDue _, h.links.touched hi hheld hothers ?_⟩
    rintro _ ⟨⟩
    rw [hstill, hqueue, List.length_append, hempty, hlength]
    exact ⟨hopen, Nat.zero_add _⟩

theorem read (h : Tidy c g) {link : Link} {k : Nat} (hi : (g i).link? = some link)
    (hdue : (g i).due? = some (k + 1)) (task : Nat) :
    Tidy (c.answer task (.read link)).2 (Function.update g i
      (gripProtocol.next (g i) (.read link) (c.answer task (.read link)).1)) := by
  obtain ⟨hopen, hlength⟩ := (h.links.of_grip hi).2.2.2 (k + 1) hdue
  have hheld := LawfulTransport.read_held link c.network
  have hothers : ∀ l ≠ link, Untouched c.network _ l :=
    fun l hl => LawfulTransport.read_others c.network hl
  simp only [Client.answer, Client.onNetwork]
  rcases hread : Transport.read link c.network with ⟨result, n⟩
  rw [hread] at hheld hothers
  cases result with
  | error f => exact ⟨h.leases.setDue _, h.links.touched hi hheld hothers nofun⟩
  | ok reply =>
    obtain ⟨hstill, hqueue⟩ := LawfulTransport.read_ok hread
    refine ⟨h.leases.setDue _, h.links.touched hi hheld hothers ?_⟩
    rw [hqueue, List.length_cons] at hlength
    rw [hdue]
    rintro _ ⟨⟩
    exact ⟨hstill.trans hopen, Nat.succ.inj hlength⟩

/-- Whatever a strand asks for within its rights, the answer keeps the books. -/
theorem answer (h : Tidy c g) {r : Request} (hi : gripProtocol.Allows (g i) r) (task : Nat) :
    Tidy (c.answer task r).2
      (Function.update g i (gripProtocol.next (g i) r (c.answer task r).1)) := by
  cases r with
  | checkout node => exact h.checkout hi task node
  | connect node => exact h.connect hi task node
  | write link commands => exact h.write hi.1 hi.2 task
  | read link =>
    obtain ⟨k, hk⟩ := hi.2
    exact h.read hi.1 hk task
  | close link =>
    obtain ⟨lease, due, hi⟩ := hi
    have hdrop : (g i).drop.link? = none ∧ (g i).drop.lease? = (g i).lease? ∧
        (g i).drop.noted? = (g i).noted? := by
      rw [hi]
      cases lease <;> exact ⟨rfl, rfl, rfl⟩
    refine ⟨h.leases.relabel hdrop.2.1 hdrop.2.2, ?_⟩
    exact h.links.shut (by rw [hi]; rfl) hdrop.1
  | attach lease link =>
    have hi : g i = .opened (some lease) link (some 0) := hi
    refine ⟨h.leases.attached (by rw [hi]; rfl) link (some 0), ?_⟩
    exact h.links.relabel (by rw [hi]; rfl) (by rw [hi]; rfl)
  | release lease =>
    obtain ⟨link, hi⟩ := hi
    exact h.release hi
  | discard lease =>
    obtain hi | ⟨link, due, hi⟩ := hi
    all_goals exact h.discard (by rw [hi]; rfl) (by rw [hi]; rfl)
  | closeAll => exact h.closeAll
  | _ => exact h.of_same rfl rfl

/-! ## Links in other hands -/

omit [DecidableEq ι] in
theorem untouched_of_closeLinks {links : List Link} {l : Link} (hl : l ∉ links) :
    Untouched c.network (c.closeLinks links).network l := by
  unfold Client.closeLinks
  induction links generalizing c with
  | nil => exact .refl _ l
  | cons link rest ih =>
    rw [List.foldl_cons]
    have hfirst : Untouched c.network (c.closeLink link).network l :=
      LawfulTransport.close_others c.network fun heq => hl (heq ▸ .head _)
    exact hfirst.trans (ih fun hmem => hl (.tail _ hmem))

omit [DecidableEq ι] [LawfulTransport σ] in
theorem not_mine (h : Tidy c g) {j : ι} (hj : j ≠ i) {l : Link} (hl : (g j).link? = some l) :
    l ∉ c.pool.idleLinks ∧ ∀ link, (g i).link? = some link → l ≠ link := by
  obtain ⟨-, hcount, howner, -⟩ := h.links.of_grip hl
  refine ⟨List.count_eq_zero.mp hcount, ?_⟩
  rintro link hlink rfl
  exact hj ((howner i).mp hlink).symm

omit [DecidableEq ι] in
theorem untouched_of_discard (h : Tidy c g) (hlease : (g i).lease? = some lease)
    (hlink : (g i).link? = (g i).noted?) {l : Link}
    (hl : ∀ link, (g i).link? = some link → l ≠ link) :
    Untouched c.network (c.discard lease).network l := by
  have hnoted : c.pool.link? lease = (g i).link? :=
    hlink ▸ Pool.link_eq_of_noteOf (h.leases.entered i lease hlease).2.2
  unfold Client.discard
  rw [hnoted]
  cases hi : (g i).link? with
  | none => exact .refl _ l
  | some link => exact LawfulTransport.close_others c.network (hl link hi)

omit [DecidableEq ι] in
theorem untouched_of_checkout (h : Tidy c g) {l : Link} (hl : l ∉ c.pool.idleLinks) (task : Nat)
    (node : String) : Untouched c.network (c.checkout task node).2.network l := by
  unfold Client.checkout
  rcases htake : c.pool.take node task with ⟨result, pool⟩
  cases result with
  | error f => exact .refl _ l
  | ok lease =>
    obtain ⟨-, -, hnames, hidle, -⟩ := Pool.take_ok htake
    have hnodup : pool.names.Nodup := hnames ▸ Pool.ensure_extends.nodup h.leases.names
    dsimp only
    rcases hfind : pool.takeIdle node c.isOpen with ⟨found, dead, pool'⟩
    have hperm := (Pool.takeIdle_perm hnodup hfind).1
    rw [hidle] at hperm
    have hdead : l ∉ dead := fun hmem => hl (hperm.mem_iff.mpr (List.mem_append_left _ hmem))
    cases found with
    | none => exact untouched_of_closeLinks (c := c.setPool pool') hdead
    | some link => exact untouched_of_closeLinks (c := c.setPool (pool'.attach lease link)) hdead

omit [DecidableEq ι] in
theorem untouched (h : Tidy c g) {r : Request} (hi : gripProtocol.Allows (g i) r) (task : Nat)
    {j : ι} (hj : j ≠ i) {l : Link} (hl : (g j).link? = some l) :
    Untouched c.network (c.answer task r).2.network l := by
  obtain ⟨hidle, hother⟩ := h.not_mine hj hl
  cases r with
  | checkout node => exact h.untouched_of_checkout hidle task node
  | connect node =>
    simp only [Client.answer, Client.onNetwork]
    rcases hconnect : Transport.connect node c.network with ⟨result, n⟩
    cases result with
    | error f => exact LawfulTransport.connect_error hconnect l
    | ok link =>
      obtain ⟨hfresh, -, -, -, hothers⟩ := LawfulTransport.connect_ok hconnect
      refine hothers l ?_
      rintro rfl
      exact hfresh (h.links.of_grip hl).1
  | write link commands => exact LawfulTransport.write_others commands c.network (hother link hi.1)
  | read link => exact LawfulTransport.read_others c.network (hother link hi.1)
  | close link =>
    obtain ⟨lease, due, hi⟩ := hi
    exact LawfulTransport.close_others c.network (hother link (by rw [hi]; rfl))
  | release lease =>
    obtain ⟨link, hi⟩ := hi
    have hdiscard : Untouched c.network (c.discard lease).network l :=
      h.untouched_of_discard (by rw [hi]; rfl) (by rw [hi]; rfl) hother
    simp only [Client.answer, Client.release]
    split
    · split
      · exact .refl _ l
      · exact hdiscard
    · exact hdiscard
  | discard lease =>
    obtain hi | ⟨link, due, hi⟩ := hi
    all_goals exact h.untouched_of_discard (by rw [hi]; rfl) (by rw [hi]; rfl) hother
  | closeAll => exact untouched_of_closeLinks (c := c.setPool c.pool.drain.2) hidle
  | _ => exact .refl _ l

end Tidy

/-! ## Every walk -/

/-- What a strand has in its hands. -/
def grips (marks : List (Mark σ)) [Transport σ] (s : Strand) : Grip :=
  gripProtocol.phase .nothing (eventsOf s marks)

namespace Moment

variable [QueueTransport σ]

theorem grips_snoc (marks : List (Mark σ)) (m : Mark σ) :
    grips (marks ++ [m]) = Function.update (grips marks) m.strand
      (gripProtocol.next (grips marks m.strand) m.event.request m.event.answer) := by
  funext s
  unfold grips
  rw [eventsOf_append, eventsOf_singleton, Protocol.phase_append]
  rcases eq_or_ne s m.strand with rfl | hs
  · rw [Function.update_self, if_pos rfl]
    rfl
  · rw [Function.update_of_ne hs, if_neg hs.symm]
    rfl

theorem Walk.tidy [LawfulTransport σ] {S S' : Moment σ α} {marks : List (Mark σ)}
    (h : Walk S marks S') (hS : S.Shares gripProtocol .nothing)
    (hstart : Tidy S.client fun _ : Strand => .nothing) : Tidy S'.client (grips marks) := by
  induction h with
  | refl => exact hstart
  | quiet _ step ih =>
    obtain ⟨hpool, hnetwork⟩ := step.same_of_quiet
    exact ⟨hpool ▸ ih.leases, hpool ▸ hnetwork ▸ ih.links⟩
  | event h task asks free ih =>
    rw [grips_snoc]
    exact ih.answer ((h.sharesFrom hS task).of_asksAt asks).1 _

end Moment

end SlotCluster
