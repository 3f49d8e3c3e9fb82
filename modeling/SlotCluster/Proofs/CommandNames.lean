import Mathlib.Data.List.Basic
import SlotCluster.Routing

/-!
# Names of commands

The name of a command is its first word, or for a container command its first two, in upper case.
Only these words decide it, in any letter case. A name of two words is told from the others by the
blank in it, and stands in few of the tables.
-/

namespace SlotCluster

/-! ## Names in the tables -/

namespace CommandTable

theorem familyOf_eq (name : Bytes) : familyOf name =
    ((families.find? fun entry => entry.2.contains name).map Prod.fst).getD .firstKey :=
  rfl

theorem familyOf_eq_firstKey_iff (name : Bytes) :
    familyOf name = .firstKey ↔ ∀ entry ∈ families, name ∉ entry.2 := by
  have hfamilies : ∀ entry ∈ families, entry.1 ≠ .firstKey := by decide
  rw [familyOf_eq]
  constructor
  · intro hfirst entry hentry hname
    cases hfind : families.find? fun entry => entry.2.contains name with
    | none =>
      have := List.find?_eq_none.mp hfind entry hentry
      simp [hname] at this
    | some found =>
      rw [hfind] at hfirst
      exact hfamilies found (List.mem_of_find?_eq_some hfind) hfirst
  · intro hnone
    have hfind : families.find? (fun entry => entry.2.contains name) = none := by
      refine List.find?_eq_none.mpr fun entry hentry => ?_
      simpa using hnone entry hentry
    rw [hfind]
    rfl

theorem exists_mem_of_familyOf {name : Bytes} (h : familyOf name ≠ .firstKey) :
    ∃ ns, (familyOf name, ns) ∈ families ∧ name ∈ ns := by
  rw [familyOf_eq] at h ⊢
  cases hfind : families.find? fun entry => entry.2.contains name with
  | none =>
    rw [hfind] at h
    exact absurd rfl h
  | some found =>
    refine ⟨found.2, List.mem_of_find?_eq_some hfind, ?_⟩
    have := List.find?_some hfind
    simpa using this

/-- The families with names of two words. None of them has a key before the third word. -/
def twoWordFamilies : List Family := [.allNodes, .allMasters, .second, .anyNode, .slotArgument]

theorem familyOf_two_words (first second : Bytes) :
    familyOf (first ++ 32 :: second) = .firstKey ∨
      familyOf (first ++ 32 :: second) ∈ twoWordFamilies := by
  have hblank : ∀ entry ∈ families, entry.1 ∉ twoWordFamilies → ∀ name ∈ entry.2, 32 ∉ name := by
    decide +kernel
  by_cases hfirst : familyOf (first ++ 32 :: second) = .firstKey
  · exact .inl hfirst
  · obtain ⟨ns, hentry, hname⟩ := exists_mem_of_familyOf hfirst
    refine .inr (by_contra fun hfamily => ?_)
    exact hblank _ hentry hfamily _ hname (by simp)

theorem isReadOnly_two_words {first second : Bytes}
    (h : familyOf (first ++ 32 :: second) = .firstKey) :
    isReadOnly (first ++ 32 :: second) = false := by
  have htables : ∀ name ∈ readOnly, 32 ∈ name → ∃ entry ∈ families, name ∈ entry.2 := by
    decide +kernel
  by_contra hread
  obtain ⟨entry, hentry, hname⟩ :=
    htables (first ++ 32 :: second) (by simpa [isReadOnly] using hread) (by simp)
  exact (familyOf_eq_firstKey_iff _).mp h entry hentry hname

theorem blank_notMem_containers : ∀ name ∈ containers, 32 ∉ name := by decide +kernel

theorem container_of_isBlocked {first second : Bytes} (h : isBlocked (first ++ 32 :: second)) :
    first ∈ containers := by
  have hblocked : ∀ name ∈ blocked, 32 ∈ name →
      ∃ a ∈ containers, ∃ b ∈ names ["KILL", "SETNAME"], 32 ∉ b ∧ name = a ++ 32 :: b := by
    decide +kernel
  obtain ⟨a, ha, b, -, hb, hname⟩ :=
    hblocked (first ++ 32 :: second) (by simpa [isBlocked] using h) (by simp)
  have hsplit := (List.append_cons_inj_of_notMem (blank_notMem_containers a ha) hb).mp hname.symm
  exact hsplit.1 ▸ ha

end CommandTable

/-! ## Names of commands -/

namespace Words

/-- The second word belongs to the name, if there is one. -/
def isContainer (w : Words) : Bool :=
  (w.word? 0).any fun first => CommandTable.containers.contains first.upper

theorem name?_eq (w : Words) :
    w.name? = (w.word? 0).map fun first =>
      if CommandTable.containers.contains first.upper then
        (w.word? 1).elim first.upper fun second => first.upper ++ 32 :: second.upper
      else first.upper := by
  unfold name?
  cases w.word? 0 with
  | none => rfl
  | some first =>
    simp only [bind, Option.bind, Option.map_some]
    split
    · cases w.word? 1 <;> rfl
    · rfl

variable {w w' : Words}

section Congruence

variable (hfirst : (w'.word? 0).map Bytes.upper = (w.word? 0).map Bytes.upper)

include hfirst

theorem isContainer_congr : w'.isContainer = w.isContainer := by
  have h : ∀ v : Words, v.isContainer =
      ((v.word? 0).map Bytes.upper).any CommandTable.containers.contains := by
    intro v
    unfold isContainer
    cases v.word? 0 <;> rfl
  rw [h, h, hfirst]

variable (hsecond : w.isContainer → (w'.word? 1).map Bytes.upper = (w.word? 1).map Bytes.upper)

include hsecond

theorem name?_congr : w'.name? = w.name? := by
  have hcontainer := isContainer_congr hfirst
  rw [name?_eq, name?_eq]
  unfold isContainer at hcontainer hsecond
  cases h : w.word? 0 with
  | none =>
    rw [h] at hfirst
    rw [Option.map_eq_none_iff.mp hfirst, Option.map_none, Option.map_none]
  | some first =>
    rw [h] at hfirst hsecond
    obtain ⟨first', h', hupper⟩ := Option.map_eq_some_iff.mp hfirst
    rw [h', Option.map_some, Option.map_some, hupper]
    split
    · next hcontains =>
      have hword := hsecond (by simpa using hcontains)
      cases h1 : w.word? 1 with
      | none =>
        rw [h1] at hword
        rw [Option.map_eq_none_iff.mp hword]
      | some second =>
        rw [h1] at hword
        obtain ⟨second', h1', hupper'⟩ := Option.map_eq_some_iff.mp hword
        rw [h1', Option.elim_some, Option.elim_some, hupper']
    · rfl

theorem checkedName_congr : w'.checkedName = w.checkedName := by
  have hname := name?_congr hfirst hsecond
  unfold checkedName
  rw [hname]
  cases h : w.word? 0 with
  | none =>
    rw [h] at hfirst
    rw [Option.map_eq_none_iff.mp hfirst]
  | some first =>
    rw [h] at hfirst
    obtain ⟨first', h', hupper⟩ := Option.map_eq_some_iff.mp hfirst
    rw [h']
    cases w.name? <;> simp only [hupper]

end Congruence

theorem checkedName_eq_ok_iff {name : Bytes} :
    w.checkedName = .ok name ↔
      ∃ first, w.word? 0 = some first ∧ w.name? = some name ∧
        CommandTable.isBlocked first.upper = false ∧ CommandTable.isBlocked name = false := by
  unfold checkedName
  cases h0 : w.word? 0 with
  | none => simp
  | some first =>
    cases hname : w.name? with
    | none => simp
    | some found =>
      by_cases hfirst : CommandTable.isBlocked first.upper = true
      · simp [hfirst]
      by_cases hfound : CommandTable.isBlocked found = true
      · simp only [hfirst, hfound, if_true, if_false, Bool.false_eq_true]
        refine ⟨fun h => (by cases h), ?_⟩
        rintro ⟨-, -, hname, -, hopen⟩
        cases hname
        rw [hopen] at hfound
        cases hfound
      · simp only [hfirst, hfound, if_false, Bool.false_eq_true, Except.ok.injEq]
        constructor
        · rintro rfl
          exact ⟨first, rfl, rfl, by simpa using hfirst, by simpa using hfound⟩
        · rintro ⟨-, -, hname, -⟩
          exact Option.some.inj hname

end Words

end SlotCluster
