import Mathlib.Logic.Function.Basic
import SlotCluster.Proofs.Grips
import SlotCluster.Proofs.OperationUses

/-!
# Dealings

Whoever has a lease or a link in his hands may do with it what the protocol of grips allows, at any
time, and a task may be abandoned with all that its strands have in their hands. Every course of a
client is made of such dealings. What they keep of the pool holds in every course.
-/

namespace SlotCluster

variable {σ : Type}

/-! ## What strands have in their hands -/

/-- The strands of a task have let go of everything. -/
def letGo (i : Nat) (g : Strand → Grip) (s : Strand) : Grip := if s.task = i then .nothing else g s

theorem letGo_self {i : Nat} {g : Strand → Grip} {s : Strand} (h : s.task = i) :
    letGo i g s = .nothing := if_pos h

theorem letGo_of_ne {i : Nat} {g : Strand → Grip} {s : Strand} (h : s.task ≠ i) :
    letGo i g s = g s := if_neg h

theorem of_letGo {β : Type} {f : Grip → Option β} {x : β} {i : Nat} {g : Strand → Grip} {s : Strand}
    (hf : f .nothing = none) (h : f (letGo i g s) = some x) : s.task ≠ i ∧ f (g s) = some x := by
  by_cases hs : s.task = i
  · rw [letGo_self hs, hf] at h
    cases h
  · rw [letGo_of_ne hs] at h
    exact ⟨hs, h⟩

namespace Moment

/-- What the strands have in their hands is what their tasks go on with. -/
structure InHands (S : Moment σ Answer) (g : Strand → Grip) : Prop where
  tasks (i : Nat) (t : Task Answer) (h : S.tasks[i]? = some t) :
    t.SharesFrom gripProtocol .nothing fun program => g ⟨i, program⟩
  others (i : Nat) (program : Option Nat) (h : S.tasks.length ≤ i) : g ⟨i, program⟩ = .nothing

namespace InHands

variable {S : Moment σ Answer} {c : Client σ} {g : Strand → Grip}

theorem start (c : Client σ) : InHands ⟨[], c⟩ fun _ => .nothing := ⟨nofun, fun _ _ _ => rfl⟩

theorem of_tasks (h : S.InHands g) : InHands ⟨S.tasks, c⟩ g := ⟨h.tasks, h.others⟩

theorem begun (h : S.InHands g) (op : Operation) (settings : Settings) :
    InHands ⟨S.tasks ++ [op.task settings], c⟩ g := by
  refine ⟨fun i t ht => ?_, fun i program hi => ?_⟩
  · rcases Nat.lt_or_ge i S.tasks.length with hlt | hge
    · rw [List.getElem?_append_left hlt] at ht
      exact h.tasks i t ht
    · obtain ⟨-, rfl⟩ : i = S.tasks.length ∧ op.task settings = t := by
        rw [List.getElem?_append_right hge, List.getElem?_singleton] at ht
        split at ht
        · exact ⟨by omega, Option.some.inj ht⟩
        · cases ht
      refine Task.Shares.from ?_ fun k => h.others i (some k) hge
      simp only [h.others i none hge]
      exact op.task_grips settings
  · refine h.others i program ?_
    rw [List.length_append] at hi
    exact Nat.le_of_add_right_le hi

theorem collected (h : S.InHands g) {i : Nat} {programs : List (Program BatchResult)}
    {next : List BatchResult → Task Answer} {results : List BatchResult}
    (task : S.tasks[i]? = some (.gather programs next))
    (done : Program.results? programs = some results) :
    InHands ⟨S.tasks.set i (next results), c⟩ g := by
  refine ⟨fun j t ht => ?_, fun j program hj => h.others j program (by simpa using hj)⟩
  obtain ⟨rfl, rfl⟩ | ⟨-, ht⟩ := task_of_set ht
  · exact (h.tasks i _ task).of_results done
  · exact h.tasks j t ht

theorem answered (h : S.InHands g) {i : Nat} {t : Task Answer} {program : Option Nat} {r : Request}
    {next : r.Answer → Task Answer} (task : S.tasks[i]? = some t)
    (asks : t.AsksAt program r next) (a : r.Answer) :
    InHands ⟨S.tasks.set i (next a), c⟩
      (Function.update g ⟨i, program⟩ (gripProtocol.next (g ⟨i, program⟩) r a)) := by
  have hi := (List.getElem?_eq_some_iff.mp task).1
  refine ⟨fun j u hu => ?_, fun j program' hj => ?_⟩
  · obtain ⟨rfl, rfl⟩ | ⟨hij, hu⟩ := task_of_set hu
    · refine ((h.tasks i t task).of_asksAt asks).2 a _ (by simp) fun k hk => ?_
      rw [Function.update_of_ne (by simpa using hk)]
    · have hothers : ∀ program', Function.update g ⟨i, program⟩
          (gripProtocol.next (g ⟨i, program⟩) r a) ⟨j, program'⟩ = g ⟨j, program'⟩ :=
        fun program' => Function.update_of_ne (by simp [Ne.symm hij]) _ _
      simp only [hothers]
      exact h.tasks j u hu
  · rw [List.length_set] at hj
    rw [Function.update_of_ne (by rintro ⟨⟩; omega)]
    exact h.others j program' hj

theorem abandoned (h : S.InHands g) (i : Nat) (answer : Answer) :
    InHands ⟨S.tasks.set i (.done answer), c⟩ (letGo i g) := by
  refine ⟨fun j t ht => ?_, fun j program hj => ?_⟩
  · obtain ⟨rfl, rfl⟩ | ⟨hij, ht⟩ := task_of_set ht
    · exact ⟨letGo_self rfl, fun k => letGo_self rfl⟩
    · simp only [letGo_of_ne (s := ⟨j, _⟩) (Ne.symm hij)]
      exact h.tasks j t ht
  · rw [List.length_set] at hj
    unfold letGo
    split
    · rfl
    · exact h.others j program hj

theorem nothing_of_done (h : S.InHands g) (hdone : ∀ t ∈ S.tasks, ∃ a, t = .done a) (s : Strand) :
    g s = .nothing := by
  obtain ⟨i, program⟩ := s
  rcases Nat.lt_or_ge i S.tasks.length with hlt | hge
  · obtain ⟨a, ha⟩ := hdone S.tasks[i] (List.getElem_mem hlt)
    have htask := h.tasks i _ (List.getElem?_eq_getElem hlt)
    rw [ha] at htask
    exact htask.of_done program
  · exact h.others i program hge

end InHands

end Moment

/-! ## What strands may do -/

variable [Transport σ]

/-- What may happen to the pool and the network of a client, and what the strands have in their
hands after it. -/
inductive Dealings (c : Client σ) (g : Strand → Grip) :
    List (Event σ) → Client σ → (Strand → Grip) → Prop
  | refl : Dealings c g [] c g
  | quiet {es : List (Event σ)} {d d' : Client σ} {k : Strand → Grip} (h : Dealings c g es d k)
      (pool : d'.pool = d.pool) (network : d'.network = d.network) : Dealings c g es d' k
  | answer {es : List (Event σ)} {d : Client σ} {k : Strand → Grip} (h : Dealings c g es d k)
      (s : Strand) (r : Request) (allowed : gripProtocol.Allows (k s) r) :
      Dealings c g (es ++ [⟨s.task, r, d⟩]) (d.answer s.task r).2
        (Function.update k s (gripProtocol.next (k s) r (d.answer s.task r).1))
  | abandoned {es : List (Event σ)} {d : Client σ} {k : Strand → Grip} (h : Dealings c g es d k)
      (i : Nat) : Dealings c g es (d.abandon i) (letGo i k)

theorem Dealings.split_at {c d : Client σ} {g k : Strand → Grip} {es es' : List (Event σ)}
    {e : Event σ} (h : Dealings c g (es ++ e :: es') d k) :
    ∃ s m, s.task = e.task ∧ Dealings c g es e.client m ∧ gripProtocol.Allows (m s) e.request ∧
      Dealings e.after (Function.update m s (gripProtocol.next (m s) e.request e.answer)) es' d
        k := by
  generalize hall : es ++ e :: es' = all at h
  induction h generalizing es' with
  | refl => simp at hall
  | quiet _ pool network ih =>
    obtain ⟨s, m, hs, hbefore, hallowed, hafter⟩ := ih hall
    exact ⟨s, m, hs, hbefore, hallowed, hafter.quiet pool network⟩
  | answer h s r allowed ih =>
    rcases List.eq_nil_or_concat es' with rfl | ⟨init, last, rfl⟩
    · obtain ⟨rfl, hlast⟩ := List.append_inj' hall rfl
      obtain rfl := List.singleton_inj.mp hlast
      exact ⟨s, _, rfl, h, allowed, .refl⟩
    · rw [List.concat_eq_append, ← List.cons_append, ← List.append_assoc] at hall
      obtain ⟨hinit, hlast⟩ := List.append_inj' hall rfl
      obtain rfl := List.singleton_inj.mp hlast
      rw [List.concat_eq_append]
      obtain ⟨s', m, hs, hbefore, hallowed, hafter⟩ := ih hinit
      exact ⟨s', m, hs, hbefore, hallowed, hafter.answer s r allowed⟩
  | abandoned _ i ih =>
    obtain ⟨s, m, hs, hbefore, hallowed, hafter⟩ := ih hall
    exact ⟨s, m, hs, hbefore, hallowed, hafter.abandoned i⟩

namespace Moment

variable {S S' : Moment σ Answer} {g : Strand → Grip} {es : List (Event σ)}

theorem Course.dealings (h : Course S es S') (hS : S.InHands g) :
    ∃ k, Dealings S.client g es S'.client k ∧ S'.InHands k := by
  induction h with
  | refl => exact ⟨g, .refl, hS⟩
  | @begun es M _ op ih =>
    obtain ⟨k, hdealings, hhands⟩ := ih
    exact ⟨k, hdealings, hhands.begun op M.client.settings⟩
  | quiet _ step ih =>
    obtain ⟨k, hdealings, hhands⟩ := ih
    obtain ⟨hpool, hnetwork⟩ := step.same_of_quiet
    refine ⟨k, hdealings.quiet hpool hnetwork, ?_⟩
    cases step with
    | wait | pass => exact hhands.of_tasks
    | collect task done => exact hhands.collected task done
  | event _ step ih =>
    obtain ⟨k, hdealings, hhands⟩ := ih
    cases step with
    | @answer i t r next task asks free =>
      obtain ⟨program, asks⟩ := Task.asks_iff.mp asks
      have hallowed := ((hhands.tasks i t task).of_asksAt asks).1
      exact ⟨_, hdealings.answer ⟨i, program⟩ r hallowed, hhands.answered task asks _⟩
  | abandoned _ i answer ih =>
    obtain ⟨k, hdealings, hhands⟩ := ih
    exact ⟨letGo i k, hdealings.abandoned i, hhands.abandoned i answer⟩

end Moment

end SlotCluster
