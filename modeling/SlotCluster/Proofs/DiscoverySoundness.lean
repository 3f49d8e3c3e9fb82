import SlotCluster.Proofs.Canned
import SlotCluster.Proofs.Surveys

/-!
# What a discovery may install

A topology that a discovery installs is sound, or it gives every slot to one node. The second is so
exactly if the last reading is bare, whatever the readings before it named.
-/

namespace SlotCluster

namespace Discovery

variable {σ : Type} [Transport σ]

open SlotCluster.Action

theorem Surveyed.last_of_bare {s : Settings} {onlySeed : Bool} {candidates : List Node}
    {v : Survey} {qs : List (Inquiry σ)} {r : Except Fault Survey}
    (h : Surveyed s onlySeed candidates v qs r) (hstart : v.topology.table.isFull = false)
    {init rest : List Reading} {reading : Reading}
    (hreadings : readings qs = init ++ reading :: rest) (hbare : reading.IsBare onlySeed) :
    rest = [] := by
  by_contra hrest
  have hsplit : readings qs = (init ++ [reading]) ++ rest := by rw [hreadings]; simp
  obtain ⟨t, ht, hgaps⟩ := h.gaps_before hstart hsplit hrest
  rw [gather_append] at ht
  obtain ⟨before, -, hlast⟩ := exists_of_bind_ok ht
  obtain ⟨-, rfl⟩ | ⟨hnot, -⟩ := absorb_ok (gather_singleton hlast)
  · rw [Topology.isFull_single] at hgaps
    cases hgaps
  · exact hnot hbare

/-- What the readings have made of the empty topology. -/
inductive Gathered (onlySeed : Bool) (rs : List Reading) : Topology → Prop
  | ranges {t : Topology} (listed : ∀ reading ∈ rs, ¬ reading.IsBare onlySeed)
      (sound : Sound rs t) : Gathered onlySeed rs t
  | single {init : List Reading} {last : Reading} (last_ : rs = init ++ [last])
      (bare : last.IsBare onlySeed) (listed : ∀ reading ∈ init, ¬ reading.IsBare onlySeed) :
      Gathered onlySeed rs (.single last.node)

theorem Surveyed.gathered {s : Settings} {onlySeed : Bool} {candidates : List Node}
    {qs : List (Inquiry σ)} {v : Survey}
    (h : Surveyed s onlySeed candidates .start qs (.ok v)) :
    Gathered onlySeed (readings qs) v.topology := by
  have hgather : gather onlySeed (readings qs) .empty = .ok v.topology := h.gathers
  by_cases hlisted : ∀ reading ∈ readings qs, ¬ reading.IsBare onlySeed
  · exact .ranges hlisted (sound_empty.gather hgather hlisted)
  push Not at hlisted
  obtain ⟨reading, hreading, hbare⟩ := hlisted
  obtain ⟨init, rest, hreadings⟩ := List.append_of_mem hreading
  obtain rfl := h.last_of_bare rfl hreadings hbare
  rw [hreadings, gather_append] at hgather
  obtain ⟨before, -, hlast⟩ := exists_of_bind_ok hgather
  obtain ⟨-, hsingle⟩ | ⟨hnot, -⟩ := absorb_ok (gather_singleton hlast)
  · rw [hsingle]
    refine .single hreadings hbare ?_
    intro earlier hearlier hbare'
    obtain ⟨init', rest', rfl⟩ := List.append_of_mem hearlier
    have hreadings' : readings qs = init' ++ earlier :: (rest' ++ [reading]) := by
      rw [hreadings]
      simp
    exact absurd (h.last_of_bare rfl hreadings' hbare') (by simp)
  · exact absurd hbare hnot

/-- Every discovery that succeeds installs a topology that is sound, unless its last reading is
bare. Then one node serves every slot. -/
theorem installs_what_was_named {s : Settings} {es : List (Event σ)}
    (h : Runs (run s) es (.ok ())) :
    ∃ task c qs t required task' c',
      es = ⟨task, .registry, c⟩ ::
        (qs.flatMap Inquiry.events ++ [⟨task', .install t required, c'⟩]) ∧
      (∀ q ∈ qs, q.Made) ∧ Gathered (c.registry.seeds.length == 1) (readings qs) t := by
  obtain ⟨task, c, qs, last, _, hes, hsurveyed, hend⟩ := runs_run_surveyed h
  obtain ⟨f, -, -, ⟨⟩⟩ | ⟨v, required, task', c', rfl, -, rfl, -⟩ := hend
  exact ⟨task, c, qs, v.topology, required, task', c', hes, hsurveyed.made, hsurveyed.gathered⟩

/-- The first seed names an owner for some slots. The second lists a range whose node it does not
know, and gets them all. -/
theorem installs_what_was_named_bare :
    let range := fun (last : Int64) (host : String) =>
      Reply.array [.array [.int 0, .int last, .array [.bulk (Bytes.ofText host), .int 1]]]
    let yes := Reply.array [.simple "cluster-require-full-coverage", .simple "yes"]
    let a := Node.new "a" 1 .master
    let b := Node.new "b" 2 .master
    let c := Client.new {} [a, b] (⟨0, [range 100 "a", yes, range 16383 "?"]⟩ : Canned) fun _ => 0
    let es := c.traceProgram (run {}).run
    Runs (run {}) es (.ok ()) ∧
      Reading.Names ⟨a, range 100 "a"⟩ 0 a ∧
      ((c.runProgram (run {}).run).2.registry.masterOf 0).toOption = some [b] ∧
      ∃ task c qs t required task' c',
        es = ⟨task, .registry, c⟩ ::
          (qs.flatMap Inquiry.events ++ [⟨task', .install t required, c'⟩]) ∧
        (∀ q ∈ qs, q.Made) ∧ Gathered (c.registry.seeds.length == 1) (readings qs) t := by
  intro range yes a b c es
  have hok : (c.runProgram (run {}).run).1 = .ok () := by decide +kernel
  have hrun : Runs (run {}) es (.ok ()) := hok ▸ Client.runs_traceProgram _ _
  have hnames : Reading.Names ⟨a, range 100 "a"⟩ 0 a :=
    ⟨_, rfl, _, List.mem_singleton_self _, 0, 100, [], by decide +kernel, by decide, by decide⟩
  exact ⟨hrun, hnames, by decide +kernel, installs_what_was_named hrun⟩

end Discovery

end SlotCluster
