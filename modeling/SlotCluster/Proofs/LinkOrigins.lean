import SlotCluster.Proofs.Turnovers

/-!
# Where links come from

The links that were opened, noted for a lease, or handed out again, all read off the events. As long
as no link is opened twice, every link of the pool was opened once and noted for one lease.
-/

namespace SlotCluster

/-! ## What events tell -/

namespace Request

def opened? : (r : Request) → r.Answer → Option Link
  | .connect _, .ok link => some link
  | _, _ => none

/-- An idle link that is handed out. -/
def reused? : (r : Request) → r.Answer → Option Link
  | .checkout _, .ok (_, link) => link
  | _, _ => none

def attached? : Request → Option (Lease × Link)
  | .attach lease link => some (lease, link)
  | _ => none

end Request

section Told

variable {σ : Type}

def attachments (es : List (Event σ)) : List (Lease × Link) :=
  es.filterMap fun e => e.request.attached?

@[simp] theorem attachments_append (es es' : List (Event σ)) :
    attachments (es ++ es') = attachments es ++ attachments es' :=
  List.filterMap_append ..

@[simp] theorem attachments_singleton (e : Event σ) :
    attachments [e] = e.request.attached?.toList := by
  cases h : e.request.attached? <;> simp [attachments, h]

variable [Transport σ]

def openings (es : List (Event σ)) : List Link := es.filterMap fun e => e.request.opened? e.answer

def reuses (es : List (Event σ)) : List Link := es.filterMap fun e => e.request.reused? e.answer

variable (es es' : List (Event σ)) (e : Event σ)

@[simp] theorem openings_append : openings (es ++ es') = openings es ++ openings es' :=
  List.filterMap_append ..

@[simp] theorem openings_singleton : openings [e] = (e.request.opened? e.answer).toList := by
  cases h : e.request.opened? e.answer <;> simp [openings, h]

@[simp] theorem reuses_append : reuses (es ++ es') = reuses es ++ reuses es' :=
  List.filterMap_append ..

@[simp] theorem reuses_singleton : reuses [e] = (e.request.reused? e.answer).toList := by
  cases h : e.request.reused? e.answer <;> simp [reuses, h]

end Told

/-! ## Grips and links -/

namespace Grip

/-- A link that the strand has opened, and that the pool does not know of. -/
def own? : Grip → Option Link
  | opened _ link _ => some link
  | _ => none

variable {g : Grip} {r : Request} {a : r.Answer} {link : Link}

theorem lease_of_noted (h : g.noted? = some link) : ∃ lease, g.lease? = some lease := by
  cases g with
  | lent lease link due => exact ⟨lease, rfl⟩
  | nothing | leased | opened => cases h

theorem own_setDue (g : Grip) (due : Option Nat) : (g.setDue due).own? = g.own? := by
  cases g <;> rfl

theorem own_drop (g : Grip) : g.drop.own? = none := by
  unfold drop
  cases g.lease? <;> rfl

theorem own_next (h : (gripProtocol.next g r a).own? = some link) :
    (gripProtocol.next g r a).lease? = g.lease? ∧
      (r.opened? a = some link ∨ g.own? = some link ∧ r.attached? = none) := by
  cases r with
  | checkout node =>
    rcases a with f | ⟨lease, _ | link⟩
    · exact ⟨rfl, .inr ⟨h, rfl⟩⟩
    · cases h
    · cases h
  | connect node =>
    rcases a with f | link
    · exact ⟨rfl, .inr ⟨h, rfl⟩⟩
    · exact ⟨rfl, .inl h⟩
  | write l commands =>
    rcases a with f | done
    all_goals exact ⟨lease_setDue g _, .inr ⟨(own_setDue g _).symm.trans h, rfl⟩⟩
  | read l =>
    rcases a with f | reply
    all_goals exact ⟨lease_setDue g _, .inr ⟨(own_setDue g _).symm.trans h, rfl⟩⟩
  | close l => exact absurd ((own_drop g).symm.trans h) nofun
  | attach | release | discard => cases h
  | _ => exact ⟨rfl, .inr ⟨h, rfl⟩⟩

end Grip

/-! ## Turnovers and links -/

namespace Turnover

variable {p p' : Pool} {k : Strand → Grip} {s : Strand} {r : Request} {g' : Grip} {lease : Lease}
  {link : Link}

theorem epoch_le (t : Turnover p s.task (k s) r p' g') : p.epoch ≤ p'.epoch := by
  cases t with
  | same | attached | returned | ended => exact Nat.le_refl _
  | refused take =>
    refine Nat.le_of_eq (Eq.symm ?_)
    rw [Pool.take_error take, Pool.ensure_epoch]
  | opening grip take idle | reusing grip take idle =>
    refine Nat.le_of_eq (Eq.symm ?_)
    exact (Pool.takeIdle_epoch idle).trans (Pool.take_epoch take).2
  | drained => exact Nat.le_succ _

theorem mem_of_takeIdle (hk : Ledger p k) {holder : Nat} {node : String} {p₁ p₂ : Pool}
    {isOpen : Link → Bool} {found : Option Link} {dead : List Link}
    (take : p.take node holder = (.ok lease, p₁))
    (idle : p₁.takeIdle node isOpen = (found, dead, p₂))
    (h : found = some link ∨ link ∈ p₂.idleLinks) : link ∈ p.idleLinks := by
  obtain ⟨-, -, hnames, hsame, -, -⟩ := Pool.take_ok take
  have hnodup : p₁.names.Nodup := hnames ▸ Pool.ensure_extends.nodup hk.leases.names
  rw [← hsame, (Pool.takeIdle_perm hnodup idle).1.mem_iff]
  obtain rfl | h := h
  · simp
  · exact List.mem_append_right _ (List.mem_append_right _ h)

theorem idle (hk : Ledger p k) (t : Turnover p s.task (k s) r p' g') (h : link ∈ p'.idleLinks) :
    link ∈ p.idleLinks ∨ ∃ lease, (k s).lease? = some lease ∧ (k s).noted? = some link ∧
      lease.epoch = p.epoch := by
  cases t with
  | same | attached => exact .inl h
  | refused take =>
    rw [Pool.take_error take, Pool.ensure_idleLinks] at h
    exact .inl h
  | opening grip take idle | reusing grip take idle =>
    exact .inl (mem_of_takeIdle hk take idle (.inr h))
  | @returned lease link' grip epoch =>
    have hlease : (k s).lease? = some lease := by rw [grip]; rfl
    have hback := (hk.givenBack hlease).leases.names
    have hnode : lease.node ∈ (p.giveBack lease).names := by
      rw [Pool.giveBack_names]
      exact (hk.leases.entered s lease hlease).2.1
    rw [(Pool.putIdle_perm hback hnode).mem_iff, Pool.giveBack_idleLinks] at h
    rcases List.mem_cons.mp h with rfl | h
    · exact .inr ⟨lease, hlease, by rw [grip]; rfl, epoch⟩
    · exact .inl h
  | ended =>
    rw [Pool.giveBack_idleLinks] at h
    exact .inl h
  | drained =>
    rw [Pool.drain_idleLinks] at h
    cases h

theorem lent (hk : Ledger p k) (t : Turnover p s.task (k s) r p' g')
    (hlease : g'.lease? = some lease) (h : g'.noted? = some link) :
    link ∈ p.idleLinks ∨ ((k s).lease? = some lease ∧ (k s).noted? = some link) ∨
      r = .attach lease link := by
  cases t with
  | same hsame hnoted => exact .inr (.inl ⟨hsame ▸ hlease, hnoted ▸ h⟩)
  | refused | drained => exact .inr (.inl ⟨hlease, h⟩)
  | opening => cases h
  | reusing grip take idle =>
    cases h
    exact .inl (mem_of_takeIdle hk take idle (.inl rfl))
  | attached =>
    cases hlease
    cases h
    exact .inr (.inr rfl)
  | returned | ended => cases h

end Turnover

theorem Client.mem_of_reused {σ : Type} [Transport σ] {c : Client σ} {k : Strand → Grip}
    (hk : Ledger c.pool k) {task : Nat} {r : Request} {link : Link}
    (h : r.reused? (c.answer task r).1 = some link) : link ∈ c.pool.idleLinks := by
  cases r with
  | checkout node =>
    simp only [answer, checkout] at h
    rcases htake : c.pool.take node task with ⟨f | lease, pool⟩
    · rw [htake] at h
      cases h
    · rw [htake] at h
      dsimp only at h
      rcases hidle : pool.takeIdle node c.isOpen with ⟨_ | found, dead, pool'⟩
      · rw [hidle] at h
        cases h
      · rw [hidle] at h
        cases h
        exact Turnover.mem_of_takeIdle hk htake hidle (.inl rfl)
  | _ => cases h

/-! ## Origins -/

/-- Every link of the pool was noted once, and every noted link was opened. -/
structure Origins {σ : Type} [Transport σ] (es : List (Event σ)) (p : Pool) (k : Strand → Grip) :
    Prop where
  idle : ∀ link ∈ p.idleLinks, link ∈ (attachments es).map Prod.snd
  lent : ∀ s link, (k s).noted? = some link → link ∈ (attachments es).map Prod.snd
  own : ∀ s link, (k s).own? = some link →
    link ∈ openings es ∧ link ∉ (attachments es).map Prod.snd
  apart : ∀ s s' link, (k s).own? = some link → (k s').own? = some link → s = s'
  opened : ∀ link ∈ (attachments es).map Prod.snd, link ∈ openings es
  once : ((attachments es).map Prod.snd).Nodup

section Origins

variable {σ : Type} [Transport σ] {c d : Client σ} {k : Strand → Grip} {es : List (Event σ)}

/-! ### What one answer changes -/

theorem not_opened_before {e : Event σ} (hnodup : (openings (es ++ [e])).Nodup) {link : Link}
    (h : e.request.opened? e.answer = some link) : link ∉ openings es := by
  intro hold
  rw [openings_append, openings_singleton] at hnodup
  exact (List.nodup_append.mp hnodup).2.2 link hold link (Option.mem_toList.mpr h) rfl

section Answer

variable {s : Strand} {r : Request} (allowed : gripProtocol.Allows (k s) r)
include allowed

omit [Transport σ] in
theorem noted_or_own {link : Link}
    (h : link ∈ (attachments (es ++ [⟨s.task, r, c⟩])).map Prod.snd) :
    link ∈ (attachments es).map Prod.snd ∨
      (k s).own? = some link ∧ r.attached?.map Prod.snd = some link := by
  rw [attachments_append, attachments_singleton, List.map_append, List.mem_append] at h
  refine h.imp_right fun hnow => ?_
  cases r with
  | attach lease link' =>
    have hgrip : k s = .opened (some lease) link' (some 0) := allowed
    obtain rfl : link = link' := by simpa [Request.attached?] using hnow
    exact ⟨by rw [hgrip]; rfl, rfl⟩
  | _ => cases hnow

namespace Origins

variable (h : Origins es c.pool k)
include h

omit allowed in
theorem lent_after (hk : Ledger c.pool k) {g' : Grip}
    (t : Turnover c.pool s.task (k s) r (c.answer s.task r).2.pool g') (s' : Strand) (link : Link)
    (hlink : (Function.update k s g' s').noted? = some link) :
    link ∈ (attachments (es ++ [⟨s.task, r, c⟩])).map Prod.snd := by
  rw [attachments_append, List.map_append, List.mem_append]
  by_cases hs : s' = s
  · subst hs
    rw [Function.update_self] at hlink
    obtain ⟨lease, hlease⟩ := Grip.lease_of_noted hlink
    obtain hidle | ⟨-, hlent⟩ | rfl := t.lent hk hlease hlink
    · exact .inl (h.idle link hidle)
    · exact .inl (h.lent s' link hlent)
    · exact .inr (by simp [Request.attached?])
  · rw [Function.update_of_ne hs] at hlink
    exact .inl (h.lent s' link hlink)

variable (hnodup : (openings (es ++ [⟨s.task, r, c⟩])).Nodup)
include hnodup

theorem own_after (s' : Strand) (link : Link)
    (hlink : (Function.update k s (gripProtocol.next (k s) r (c.answer s.task r).1) s').own? =
      some link) :
    link ∈ openings (es ++ [⟨s.task, r, c⟩]) ∧
      link ∉ (attachments (es ++ [⟨s.task, r, c⟩])).map Prod.snd := by
  rw [openings_append, List.mem_append]
  by_cases hs : s' = s
  · subst hs
    rw [Function.update_self] at hlink
    obtain ⟨-, hopened | ⟨hown, hnone⟩⟩ := Grip.own_next hlink
    · have hfresh := not_opened_before hnodup hopened
      refine ⟨.inr (by rw [openings_singleton]; exact Option.mem_toList.mpr hopened), ?_⟩
      intro hmem
      obtain hmem | ⟨hown, -⟩ := noted_or_own allowed hmem
      · exact hfresh (h.opened link hmem)
      · exact hfresh (h.own s' link hown).1
    · obtain ⟨hmem, hnew⟩ := h.own s' link hown
      refine ⟨.inl hmem, fun hmem => ?_⟩
      obtain hmem | ⟨-, hattached⟩ := noted_or_own allowed hmem
      · exact hnew hmem
      · rw [hnone] at hattached
        cases hattached
  · rw [Function.update_of_ne hs] at hlink
    obtain ⟨hmem, hnew⟩ := h.own s' link hlink
    refine ⟨.inl hmem, fun hmem => ?_⟩
    obtain hmem | ⟨hown, -⟩ := noted_or_own allowed hmem
    · exact hnew hmem
    · exact hs (h.apart s' s link hlink hown)

omit allowed in
theorem apart_after (s₁ s₂ : Strand) (link : Link)
    (h₁ : (Function.update k s (gripProtocol.next (k s) r (c.answer s.task r).1) s₁).own? =
      some link)
    (h₂ : (Function.update k s (gripProtocol.next (k s) r (c.answer s.task r).1) s₂).own? =
      some link) : s₁ = s₂ := by
  have hother : ∀ s' link, s' ≠ s → (k s').own? = some link →
      (gripProtocol.next (k s) r (c.answer s.task r).1).own? ≠ some link := by
    intro s' link hs hlink hnext
    obtain ⟨-, hopened | ⟨hown, -⟩⟩ := Grip.own_next hnext
    · exact not_opened_before hnodup hopened (h.own s' link hlink).1
    · exact hs (h.apart s' s link hlink hown)
  by_cases hs₁ : s₁ = s <;> by_cases hs₂ : s₂ = s
  · rw [hs₁, hs₂]
  · rw [hs₁, Function.update_self] at h₁
    rw [Function.update_of_ne hs₂] at h₂
    exact absurd h₁ (hother s₂ link hs₂ h₂)
  · rw [Function.update_of_ne hs₁] at h₁
    rw [hs₂, Function.update_self] at h₂
    exact absurd h₂ (hother s₁ link hs₁ h₁)
  · rw [Function.update_of_ne hs₁] at h₁
    rw [Function.update_of_ne hs₂] at h₂
    exact h.apart s₁ s₂ link h₁ h₂

theorem answer (hk : Ledger c.pool k) :
    Origins (es ++ [⟨s.task, r, c⟩]) (c.answer s.task r).2.pool
      (Function.update k s (gripProtocol.next (k s) r (c.answer s.task r).1)) := by
  have t := turnover_of_answer hk.leases allowed s.task
  refine ⟨?_, h.lent_after hk t, h.own_after allowed hnodup, h.apart_after hnodup, ?_, ?_⟩
  · intro link hlink
    rw [attachments_append, List.map_append]
    refine List.mem_append_left _ ?_
    obtain hidle | ⟨lease, -, hlent, -⟩ := t.idle hk hlink
    · exact h.idle link hidle
    · exact h.lent s link hlent
  · intro link hlink
    rw [openings_append]
    refine List.mem_append_left _ ?_
    obtain hlink | ⟨hown, -⟩ := noted_or_own allowed hlink
    · exact h.opened link hlink
    · exact (h.own s link hown).1
  · rw [attachments_append, attachments_singleton, List.map_append]
    cases r with
    | attach lease link =>
      have hgrip : k s = .opened (some lease) link (some 0) := allowed
      refine List.nodup_append.mpr ⟨h.once, List.nodup_singleton _, ?_⟩
      rintro link₁ h₁ link₂ h₂ rfl
      obtain rfl : link₁ = link := by simpa [Request.attached?] using h₂
      exact (h.own s link₁ (by rw [hgrip]; rfl)).2 h₁
    | _ => simpa [Request.attached?] using h.once

end Origins

end Answer

/-! ### Any dealings -/

theorem Client.abandon_idleLinks (hk : Ledger c.pool k) (i : Nat) :
    (c.abandon i).pool.idleLinks = c.pool.idleLinks :=
  hk.abandon_induct i (Q := fun p => p.idleLinks = c.pool.idleLinks)
    (fun _ _ _ _ hp => Pool.giveBack_idleLinks.trans hp) rfl

theorem Dealings.origins {c₀ : Client σ} {g : Strand → Grip} (h : Dealings c₀ g es d k)
    (hg : Ledger c₀.pool g) (hstart : Origins ([] : List (Event σ)) c₀.pool g)
    (hnodup : (openings es).Nodup) : Origins es d.pool k := by
  induction h with
  | refl => exact hstart
  | quiet _ pool _ ih => exact pool ▸ ih hnodup
  | @answer es d k hbefore s r allowed ih =>
    have hprefix : (openings es).Nodup := by
      rw [openings_append] at hnodup
      exact (List.nodup_append.mp hnodup).1
    exact (ih hprefix).answer allowed hnodup (hbefore.ledger hg)
  | @abandoned es d k hbefore i ih =>
    have horigins := ih hnodup
    refine ⟨?_, ?_, ?_, ?_, horigins.opened, horigins.once⟩
    · rw [Client.abandon_idleLinks (hbefore.ledger hg) i]
      exact horigins.idle
    · exact fun s link hlink => horigins.lent s link (of_letGo rfl hlink).2
    · exact fun s link hlink => horigins.own s link (of_letGo rfl hlink).2
    · intro s s' link h₁ h₂
      exact horigins.apart s s' link (of_letGo rfl h₁).2 (of_letGo rfl h₂).2

end Origins

end SlotCluster
