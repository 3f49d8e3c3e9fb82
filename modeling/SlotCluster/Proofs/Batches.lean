import Mathlib.Data.List.Nodup
import SlotCluster.Proofs.Attempts
import SlotCluster.Proofs.Upkeep

/-!
# Batches

A pipeline in parts sorts its commands by node, and sends all batches at once. No node gets two
batches, and a batch holds every command for its node, in their order.
-/

namespace SlotCluster

variable {σ α : Type}

/-! ## Programs side by side -/

/-- The whole is made of the parts, and each part keeps its order. -/
inductive Interleaved {β : Type} : List (List β) → List β → Prop
  | done {parts : List (List β)} (h : ∀ part ∈ parts, part = []) : Interleaved parts []
  | next (before after : List (List β)) {x : β} {part whole : List β}
      (h : Interleaved (before ++ part :: after) whole) :
      Interleaved (before ++ (x :: part) :: after) (x :: whole)

theorem Interleaved.exists_mem {β : Type} {parts : List (List β)} {whole : List β}
    (h : Interleaved parts whole) {x : β} (hx : x ∈ whole) : ∃ part ∈ parts, x ∈ part := by
  induction h with
  | done => cases hx
  | @next before after y part whole _ ih =>
    have hwhole : ∃ p ∈ before ++ (y :: part) :: after, x ∈ p := by
      rcases List.mem_cons.mp hx with rfl | hx
      · exact ⟨x :: part, by simp, List.mem_cons_self⟩
      · obtain ⟨p, hp, hmem⟩ := ih hx
        by_cases heq : p = part
        · exact ⟨y :: part, by simp, List.mem_cons_of_mem _ (heq ▸ hmem)⟩
        · refine ⟨p, ?_, hmem⟩
          simp only [List.mem_append, List.mem_cons, heq, false_or] at hp ⊢
          exact hp.imp_right .inr
    exact hwhole

theorem exists_of_forall₂_right {β γ : Type} {R : β → γ → Prop} {xs : List β} {ys : List γ}
    (h : List.Forall₂ R xs ys) {y : γ} (hy : y ∈ ys) : ∃ x ∈ xs, R x y := by
  induction h with
  | nil => cases hy
  | cons hxy _ ih =>
    rcases List.mem_cons.mp hy with rfl | hy
    · exact ⟨_, List.mem_cons_self, hxy⟩
    · obtain ⟨x, hx, hr⟩ := ih hy
      exact ⟨x, List.mem_cons_of_mem _ hx, hr⟩

theorem forall₂_split {β γ : Type} {R : β → γ → Prop} {left right : List β} {all : List γ}
    (h : List.Forall₂ R (left ++ right) all) :
    ∃ left' right', all = left' ++ right' ∧ List.Forall₂ R left left' ∧
      List.Forall₂ R right right' :=
  ⟨all.take left.length, all.drop left.length, (List.take_append_drop ..).symm,
    (List.forall₂_take_append _ _ _ h.flip).flip, (List.forall₂_drop_append _ _ _ h.flip).flip⟩

variable [Transport σ]

theorem Program.RunsAll.parts {ps : List (Program α)} {es : List (Event σ)} {values : List α}
    (h : RunsAll ps es values) :
    ∃ runs : List (List (Event σ) × α), values = runs.map Prod.snd ∧
      Interleaved (runs.map Prod.fst) es ∧
      List.Forall₂ (fun p run => Runs p run.1 run.2) ps runs := by
  induction h with
  | done values =>
    refine ⟨values.map fun v => ([], v), by simp [Function.comp_def], .done (by simp), ?_⟩
    rw [List.forall₂_map_left_iff, List.forall₂_map_right_iff]
    exact List.forall₂_same.mpr fun v _ => .done v
  | call task before after r next c _ ih =>
    obtain ⟨runs, rfl, hwhole, hruns⟩ := ih
    -- The run of the program that made the request is in the same place.
    obtain ⟨before', tail, rfl, hbefore, htail⟩ := forall₂_split hruns
    obtain ⟨⟨part, v⟩, after', hpart, hafter, rfl⟩ := List.forall₂_cons_left_iff.mp htail
    refine ⟨before' ++ (⟨task, r, c⟩ :: part, v) :: after', by simp, ?_, ?_⟩
    · simp only [List.map_append, List.map_cons] at hwhole ⊢
      exact .next _ _ hwhole
    · exact List.rel_append hbefore (.cons (.call task r next c hpart) hafter)

/-! ## Sorting by node -/

namespace Pipeline

/-- The commands for a node, in their order. -/
def commandsFor (named : List (String × Placed)) (node : String) : List Placed :=
  (named.filter fun n => n.1 == node).map Prod.snd

theorem commandsFor_concat (named : List (String × Placed)) (node n : String) (c : Placed) :
    commandsFor (named ++ [(node, c)]) n =
      commandsFor named n ++ if node = n then [c] else [] := by
  unfold commandsFor
  by_cases h : node = n <;> simp [h]

theorem commandsFor_eq_nil {named : List (String × Placed)} {node : String}
    (h : ∀ n ∈ named, n.1 ≠ node) : commandsFor named node = [] := by
  rw [commandsFor, List.map_eq_nil_iff, List.filter_eq_nil_iff]
  simpa using h

/-- The commands, each with the name of its node, sorted into batches. -/
structure Sorted (named : List (String × Placed)) (batches : List Batch) : Prop where
  nodes : (batches.map Batch.node).Nodup
  commands : ∀ b ∈ batches, b.commands = commandsFor named b.node
  covers : ∀ n ∈ named, ∃ b ∈ batches, b.node = n.1
  all : (batches.flatMap Batch.commands).Perm (named.map Prod.snd)

theorem Sorted.nil : Sorted [] [] := by
  constructor <;> simp

theorem addTo_of_mem {node : String} {c : Placed} {before after : List Batch}
    {commands : List Placed} (h : ∀ b ∈ before, b.node ≠ node) :
    addTo node c (before ++ ⟨node, commands⟩ :: after) =
      before ++ ⟨node, commands ++ [c]⟩ :: after := by
  induction before with
  | nil => rw [List.nil_append, addTo, if_pos rfl, List.nil_append]
  | cons b rest ih =>
    rw [List.cons_append, addTo, if_neg (h b (by simp)), ih fun b' hb' => h b' (by simp [hb'])]
    rfl

theorem addTo_of_not_mem {node : String} {c : Placed} {batches : List Batch}
    (h : ∀ b ∈ batches, b.node ≠ node) : addTo node c batches = batches ++ [⟨node, [c]⟩] := by
  induction batches with
  | nil => rfl
  | cons b rest ih =>
    rw [addTo, if_neg (h b (by simp)), ih fun b' hb' => h b' (by simp [hb'])]
    rfl

theorem Sorted.append_to {named : List (String × Placed)} {before after : List Batch}
    {node : String} {commands : List Placed}
    (h : Sorted named (before ++ ⟨node, commands⟩ :: after)) (c : Placed) :
    Sorted (named ++ [(node, c)]) (before ++ ⟨node, commands ++ [c]⟩ :: after) := by
  have hmem : ∀ x b : Batch, b ∈ before ++ x :: after ↔ b = x ∨ b ∈ before ++ after := by
    simp [or_left_comm]
  have hnodes := h.nodes
  rw [List.map_append, List.map_cons, List.nodup_middle, List.nodup_cons] at hnodes
  have hothers : ∀ b ∈ before ++ after, node ≠ b.node := by
    intro b hb hname
    refine hnodes.1 ?_
    change node ∈ _
    rw [← List.map_append, hname]
    exact List.mem_map_of_mem hb
  constructor
  · have hnodup := h.nodes
    rwa [List.map_append, List.map_cons] at hnodup ⊢
  · intro b hb
    rw [commandsFor_concat]
    rcases (hmem _ b).mp hb with rfl | hb
    · rw [if_pos rfl, ← h.commands ⟨node, commands⟩ (by simp)]
    · rw [if_neg (hothers b hb), List.append_nil]
      exact h.commands b ((hmem _ b).mpr (.inr hb))
  · simp only [List.mem_append, List.mem_singleton]
    rintro n (hn | rfl)
    · obtain ⟨b, hb, hname⟩ := h.covers n hn
      rcases (hmem _ b).mp hb with rfl | hb
      · exact ⟨⟨node, commands ++ [c]⟩, by simp, hname⟩
      · exact ⟨b, by simpa using (hmem _ b).mpr (.inr hb), hname⟩
    · exact ⟨⟨node, commands ++ [c]⟩, by simp, rfl⟩
  · have hall := h.all.append_right [c]
    simp only [List.flatMap_append, List.flatMap_cons, List.map_append, List.map_cons,
      List.map_nil, List.append_assoc] at hall ⊢
    have hcomm : ([c] ++ after.flatMap Batch.commands).Perm (after.flatMap Batch.commands ++ [c]) :=
      List.perm_append_comm
    exact ((hcomm.append_left commands).append_left _).trans hall

theorem Sorted.open_for {named : List (String × Placed)} {batches : List Batch} {node : String}
    (h : Sorted named batches) (hnode : ∀ b ∈ batches, b.node ≠ node) (c : Placed) :
    Sorted (named ++ [(node, c)]) (batches ++ [⟨node, [c]⟩]) := by
  have hnone : commandsFor named node = [] := by
    refine commandsFor_eq_nil ?_
    rintro n hn rfl
    obtain ⟨b, hb, hname⟩ := h.covers n hn
    exact hnode b hb hname
  constructor
  · rw [List.map_append, List.map_singleton, ← List.concat_eq_append]
    refine h.nodes.concat ?_
    simpa using hnode
  · simp only [List.mem_append, List.mem_singleton]
    rintro b (hb | rfl)
    · rw [commandsFor_concat, if_neg (Ne.symm (hnode b hb)), List.append_nil, h.commands b hb]
    · rw [commandsFor_concat, if_pos rfl, hnone, List.nil_append]
  · simp only [List.mem_append, List.mem_singleton]
    rintro n (hn | rfl)
    · obtain ⟨b, hb, hname⟩ := h.covers n hn
      exact ⟨b, .inl hb, hname⟩
    · exact ⟨⟨node, [c]⟩, .inr rfl, rfl⟩
  · rw [List.flatMap_append, List.map_append]
    exact h.all.append_right [c]

theorem Sorted.addTo {named : List (String × Placed)} {batches : List Batch}
    (h : Sorted named batches) (node : String) (c : Placed) :
    Sorted (named ++ [(node, c)]) (addTo node c batches) := by
  by_cases hnode : ∀ b ∈ batches, b.node ≠ node
  · rw [addTo_of_not_mem hnode]
    exact h.open_for hnode c
  · simp only [not_forall, not_not] at hnode
    obtain ⟨⟨name, commands⟩, hb, rfl⟩ := hnode
    obtain ⟨before, after, rfl⟩ := List.append_of_mem hb
    have hbefore : ∀ b ∈ before, b.node ≠ name := by
      have hnodes := h.nodes
      rw [List.map_append, List.map_cons] at hnodes
      intro b hb hname
      refine List.disjoint_of_nodup_append hnodes (List.mem_map_of_mem hb) ?_
      rw [hname]
      exact List.mem_cons_self
    rw [addTo_of_mem hbefore]
    exact h.append_to c

/-! ## The nodes of the commands -/

structure Lookup (σ : Type) where
  events : List (Event σ)
  node : Node

open SlotCluster.Action

theorem runs_resolve {target : SingleTarget} {es : List (Event σ)} {r : Except Fault Node}
    (h : Runs (Dispatch.resolve target) es r) : Looks (fun reg => reg.resolve target) es r :=
  runs_looks (fun _ _ => Registry.resolve_ne_nil) h

/-- Each command goes to the batch of the node that was looked up for it. -/
theorem runs_group {commands : List (Placed × SingleTarget)} {named : List (String × Placed)}
    {batches result : List Batch} (hbatches : Sorted named batches) {es : List (Event σ)}
    (h : Runs (group commands batches) es (.ok result)) :
    ∃ lookups : List (Lookup σ), es = lookups.flatMap Lookup.events ∧
      List.Forall₂ (fun c l => Looks (fun reg => reg.resolve c.2) l.events (.ok l.node))
        commands lookups ∧
      Sorted (named ++ commands.zipWith (fun c l => (l.node.name, c.1)) lookups) result := by
  induction commands generalizing named batches es with
  | nil =>
    obtain ⟨rfl, hresult⟩ := runs_pure_iff.mp h
    cases hresult
    exact ⟨[], rfl, .nil, by simpa using hbatches⟩
  | cons c rest ih =>
    rw [group, runs_bind_iff] at h
    obtain ⟨f, -, hf⟩ | ⟨node, es₁, es₂, rfl, h₁, h₂⟩ := h
    · cases hf
    obtain ⟨lookups, rfl, hlookups, hsorted⟩ := ih (hbatches.addTo node.name c.1) h₂
    refine ⟨⟨es₁, node⟩ :: lookups, rfl, .cons (runs_resolve h₁) hlookups, ?_⟩
    rwa [List.append_assoc, List.singleton_append] at hsorted

/-! ## Sending the batches -/

/-- A batch, the events in which it was sent, and what came of it. -/
structure Part (σ : Type) where
  batch : Batch
  events : List (Event σ)
  outcome : BatchResult

/-- The outcome is that of sending the batch, which is written to its node and to no other, once at
most. -/
structure Part.Sent (s : Settings) (part : Part σ) : Prop where
  run : Program.Runs (sendPart s part.batch) part.events part.outcome
  contact : Contact part.batch.node (part.batch.commands.map Prod.snd) part.events part.outcome

theorem runs_sendPart {s : Settings} {b : Batch} {es : List (Event σ)} {outcome : BatchResult}
    (h : Program.Runs (sendPart s b) es outcome) : Part.Sent s ⟨b, es, outcome⟩ := by
  refine ⟨h, ?_⟩
  obtain ⟨raw, hcontact, houtcome⟩ := runs_sendBatch h
  have hraw : outcome = raw := by
    rw [houtcome]
    cases raw <;> rfl
  rw [hraw]
  exact hcontact

theorem sent_of_runs {s : Settings} {batches : List Batch}
    {runs : List (List (Event σ) × BatchResult)}
    (h : List.Forall₂ (fun b run => Program.Runs (sendPart s b) run.1 run.2) batches runs) :
    ∃ parts : List (Part σ), parts.map Part.batch = batches ∧
      parts.map Part.events = runs.map Prod.fst ∧ parts.map Part.outcome = runs.map Prod.snd ∧
      ∀ part ∈ parts, part.Sent s := by
  induction h with
  | nil => exact ⟨[], by simp⟩
  | @cons b run _ _ hrun _ ih =>
    obtain ⟨parts, rfl, hevents, houtcomes, hsent⟩ := ih
    refine ⟨⟨b, run.1, run.2⟩ :: parts, rfl, ?_, ?_, ?_⟩
    · rw [List.map_cons, hevents, List.map_cons]
    · rw [List.map_cons, houtcomes, List.map_cons]
    · rintro part (_ | ⟨_, hpart⟩)
      · exact runs_sendPart hrun
      · exact hsent part hpart

theorem runs_sendParts {s : Settings} {batches : List Batch} {es : List (Event σ)}
    {outcomes : List BatchResult}
    (h : Program.RunsAll (batches.map (sendPart s)) es outcomes) :
    ∃ parts : List (Part σ), parts.map Part.batch = batches ∧
      parts.map Part.outcome = outcomes ∧ Interleaved (parts.map Part.events) es ∧
      ∀ part ∈ parts, part.Sent s := by
  obtain ⟨runs, rfl, hwhole, hruns⟩ := h.parts
  obtain ⟨parts, hbatches, hevents, houtcomes, hsent⟩ :=
    sent_of_runs (List.forall₂_map_left_iff.mp hruns)
  exact ⟨parts, hbatches, houtcomes, by rwa [hevents], hsent⟩

end Pipeline

end SlotCluster
