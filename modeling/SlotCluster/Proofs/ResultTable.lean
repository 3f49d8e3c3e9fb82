import Mathlib.Data.List.Sort
import SlotCluster.Client.Pipeline
import SlotCluster.Proofs.Runs

/-!
# The table of results

Results come in from several sides, each with its place. If the places are those of the commands,
each once, no place of the table stays empty and each result stands where it belongs.
-/

namespace SlotCluster

namespace Pipeline

abbrev Entry := Nat × Except Fault Reply

/-! ## Entering results -/

def enter (t : Table) (entries : List Entry) : Table :=
  entries.foldl (fun t e => t.set e.1 (some e.2)) t

theorem enter_cons (t : Table) (e : Entry) (rest : List Entry) :
    enter t (e :: rest) = enter (t.set e.1 (some e.2)) rest := rfl

theorem enter_append (t : Table) (entries entries' : List Entry) :
    enter t (entries ++ entries') = enter (enter t entries) entries' := List.foldl_append

@[simp] theorem length_enter (t : Table) (entries : List Entry) :
    (enter t entries).length = t.length := by
  induction entries generalizing t with
  | nil => rfl
  | cons e rest ih => rw [enter_cons, ih, List.length_set]

theorem getElem?_enter_of_not_mem {t : Table} {entries : List Entry} {i : Nat}
    (h : i ∉ entries.map Prod.fst) : (enter t entries)[i]? = t[i]? := by
  induction entries generalizing t with
  | nil => rfl
  | cons e rest ih =>
    rw [List.map_cons, List.mem_cons, not_or] at h
    rw [enter_cons, ih h.2, List.getElem?_set_ne (Ne.symm h.1)]

theorem getElem?_enter {t : Table} {entries : List Entry} (h : (entries.map Prod.fst).Nodup)
    {e : Entry} (he : e ∈ entries) (hlt : e.1 < t.length) :
    (enter t entries)[e.1]? = some (some e.2) := by
  induction entries generalizing t with
  | nil => cases he
  | cons first rest ih =>
    rw [List.map_cons, List.nodup_cons] at h
    rw [enter_cons]
    rcases List.mem_cons.mp he with rfl | he
    · rw [getElem?_enter_of_not_mem h.1, List.getElem?_set_self hlt]
    · exact ih h.2 he (by rwa [List.length_set])

theorem enter_full {size : Nat} {entries : List Entry}
    (h : (entries.map Prod.fst).Perm (List.range size)) :
    ∃ results : List (Except Fault Reply),
      enter (List.replicate size none) entries = results.map some ∧ results.length = size ∧
      ∀ e ∈ entries, results[e.1]? = some e.2 := by
  have hnodup : (entries.map Prod.fst).Nodup := h.nodup_iff.mpr List.nodup_range
  have hlt : ∀ e ∈ entries,
      e.1 < (List.replicate size (none : Option (Except Fault Reply))).length := by
    intro e he
    rw [List.length_replicate]
    exact List.mem_range.mp (h.mem_iff.mp (List.mem_map_of_mem he))
  have hentry := fun e he => getElem?_enter hnodup he (hlt e he)
  have htable : enter (List.replicate size none) entries =
      (finish (enter (List.replicate size none) entries)).map some := by
    refine List.ext_getElem? fun i => ?_
    by_cases hi : i < size
    · obtain ⟨e, he, rfl⟩ := List.mem_map.mp (h.mem_iff.mpr (List.mem_range.mpr hi))
      rw [finish, List.map_map, List.getElem?_map, hentry e he]
      rfl
    · rw [List.getElem?_eq_none (by simpa using hi),
        List.getElem?_eq_none (by simpa [finish] using hi)]
  refine ⟨_, htable, by simp [finish], ?_⟩
  intro e he
  rw [finish, List.getElem?_map, hentry e he]
  rfl

theorem finish_some (results : List (Except Fault Reply)) :
    finish (results.map some) = results := by
  simp [finish, Function.comp_def]

/-! ## What is settled and what is sent again -/

/-- The result of a command that is not sent again. -/
def Fate.result? : Fate → Option (Except Fault Reply)
  | .settled result => some result
  | .replay _ => none

def settled (fates : List (Nat × Fate)) : List Entry :=
  fates.filterMap fun f => f.2.result?.map fun result => (f.1, result)

theorem settle_eq_enter (size : Nat) (fates : List (Nat × Fate)) :
    settle size fates = enter (List.replicate size none) (settled fates) := by
  unfold settle enter settled
  rw [List.foldl_filterMap]
  congr 1
  funext t f
  cases f.2 <;> rfl

theorem mem_settled_iff {fates : List (Nat × Fate)} {i : Nat} {result : Except Fault Reply} :
    (i, result) ∈ settled fates ↔ (i, .settled result) ∈ fates := by
  unfold settled
  rw [List.mem_filterMap]
  constructor
  · rintro ⟨⟨j, fate⟩, hmem, heq⟩
    cases fate with
    | settled r =>
      cases heq
      exact hmem
    | replay move => cases heq
  · intro h
    exact ⟨_, h, rfl⟩

theorem mem_replays_iff {fates : List (Nat × Fate)} {i : Nat} :
    i ∈ replays fates ↔ ∃ move, (i, .replay move) ∈ fates := by
  unfold replays
  rw [List.mem_mergeSort, List.mem_map]
  constructor
  · rintro ⟨⟨j, fate⟩, hmem, rfl⟩
    obtain ⟨hmem, hreplay⟩ := List.mem_filter.mp hmem
    cases fate with
    | settled r => cases hreplay
    | replay move => exact ⟨move, hmem⟩
  · rintro ⟨move, h⟩
    exact ⟨_, List.mem_filter.mpr ⟨h, rfl⟩, rfl⟩

theorem settled_replays_perm (fates : List (Nat × Fate)) :
    ((settled fates).map Prod.fst ++ replays fates).Perm (fates.map Prod.fst) := by
  have hsettled : (settled fates).map Prod.fst =
      (fates.filter fun f => !f.2.isReplay).map Prod.fst := by
    induction fates with
    | nil => rfl
    | cons f rest ih =>
      obtain ⟨i, fate⟩ := f
      cases fate with
      | settled r => simpa [settled, Fate.result?, Fate.isReplay] using ih
      | replay move => simpa [settled, Fate.result?, Fate.isReplay] using ih
  have hsort : (replays fates).Perm ((fates.filter fun f => f.2.isReplay).map Prod.fst) :=
    List.mergeSort_perm ..
  refine (hsort.append_left _).trans ?_
  rw [hsettled, ← List.map_append]
  refine List.Perm.map _ (List.perm_append_comm.trans ?_)
  exact List.filter_append_perm _ _

theorem replays_ascending {fates : List (Nat × Fate)} (h : (fates.map Prod.fst).Nodup) :
    (replays fates).Pairwise (· < ·) := by
  have hsorted : (replays fates).Pairwise (· ≤ ·) := List.pairwise_mergeSort' ..
  have hnodup : (replays fates).Nodup :=
    ((settled_replays_perm fates).nodup_iff.mpr h).of_append_right
  exact (hsorted.and hnodup).imp fun ⟨hle, hne⟩ => Nat.lt_of_le_of_ne hle hne

/-! ## Sending again -/

/-- A command that is sent again on its own. -/
structure Replay (σ : Type) where
  place : Nat
  events : List (Event σ)
  result : Except Fault Reply

def Replay.entry {σ : Type} (x : Replay σ) : Entry := (x.place, x.result)

variable {σ : Type} [Transport σ]

/-- The command of this place was routed anew, and this came of it. -/
def Replay.Of (s : Settings) (placed : List (Placed × SingleTarget)) (x : Replay σ) : Prop :=
  ∃ c target, placed[x.place]? = some (c, target) ∧
    Job.Runs (Dispatch.routeCommand s c.2 (.single target)) x.events x.result

theorem runs_replayAll {s : Settings} {placed : List (Placed × SingleTarget)} {places : List Nat}
    (hplaces : ∀ i ∈ places, i < placed.length) {t : Table} {es : List (Event σ)}
    {r : Except Fault Table} (h : Job.Runs (replayAll s placed places t) es r) :
    ∃ xs : List (Replay σ), es = xs.flatMap Replay.events ∧ xs.map Replay.place = places ∧
      (∀ x ∈ xs, x.Of s placed) ∧ r = .ok (enter t (xs.map Replay.entry)) := by
  induction places generalizing t es with
  | nil =>
    obtain ⟨rfl, rfl⟩ := Task.runs_done_iff.mp h
    exact ⟨[], rfl, rfl, by simp, rfl⟩
  | cons i rest ih =>
    have hi : i < placed.length := hplaces i (by simp)
    unfold replayAll at h
    rw [List.getElem?_eq_getElem hi] at h
    obtain ⟨g, hg, -⟩ | ⟨result, es₁, es₂, rfl, h₁, h₂⟩ := Job.runs_bind_iff.mp h
    · obtain ⟨v, -, hv⟩ := Job.runs_task_iff.mp hg
      cases hv
    · obtain ⟨v, hv, hresult⟩ := Job.runs_task_iff.mp h₁
      cases hresult
      obtain ⟨xs, rfl, hxs, halone, rfl⟩ := ih (fun j hj => hplaces j (by simp [hj])) h₂
      refine ⟨⟨i, es₁, result⟩ :: xs, rfl, by rw [List.map_cons, hxs], ?_, rfl⟩
      rintro x (_ | ⟨_, hx⟩)
      · exact ⟨_, _, List.getElem?_eq_getElem hi, hv⟩
      · exact halone x hx

end Pipeline

end SlotCluster
