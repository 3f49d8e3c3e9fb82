import Mathlib.Data.List.Perm.Basic
import SlotCluster.Proofs.MergeRules

/-!
# Truth values of a broadcast

A logical rule joins the replies of a broadcast column by column, if all are arrays of one length.
Empty arrays at the front are passed over, and the next one says how many columns there are. Behind
it an empty array fails, so the order of the replies may decide whether they can be joined.
-/

namespace SlotCluster

open Merge

/-! ## Columns -/

/-- What the rule makes of the first `n` columns. -/
def LogicRule.joined (rule : LogicRule) (n : Nat) (rows : List (List Int64)) : List Bool :=
  (List.range n).map fun i => rule.join (column rows i)

namespace Merge

variable {rule : LogicRule} {rows rows' : List (List Int64)} {bits bits' : List Bool}

theorem join_perm {bs bs' : List Bool} (h : bs.Perm bs') (rule : LogicRule) :
    rule.join bs = rule.join bs' := by
  cases rule with
  | and => exact h.all_eq
  | or => exact h.any_eq

theorem joined_perm (h : rows.Perm rows') (rule : LogicRule) (n : Nat) :
    rule.joined n rows = rule.joined n rows' :=
  List.map_congr_left fun _ _ => join_perm (h.map _) rule

/-- The rows with elements. -/
def filled (rows : List (List Int64)) : List (List Int64) := rows.filter (· ≠ [])

theorem filled_eq_nil (h : ∀ row ∈ rows, row = []) : filled rows = [] := by
  apply List.filter_eq_nil_iff.mpr
  intro row hrow
  simp [h row hrow]

theorem eq_joined (hcolumns : ∀ i < bits.length, bits[i]? = some (rule.join (column rows i))) :
    bits = rule.joined bits.length rows := by
  apply List.ext_getElem?
  intro i
  by_cases hi : i < bits.length
  · rw [hcolumns i hi, LogicRule.joined, List.getElem?_map, List.getElem?_range hi]
    rfl
  · rw [List.getElem?_eq_none (by omega), LogicRule.joined, List.getElem?_eq_none (by simp; omega)]

theorem gives_of_even {n : Nat} (hrows : ∀ row ∈ rows, row.length = n) (hsome : rows ≠ []) :
    rule.Gives rows (rule.joined n rows) := by
  have hlength : (rule.joined n rows).length = n := by simp [LogicRule.joined]
  refine ⟨[], rows, rfl, List.forall_mem_nil _, by rwa [hlength], fun h => absurd h hsome, ?_⟩
  intro i hi
  rw [hlength] at hi
  rw [LogicRule.joined, List.getElem?_map, List.getElem?_range hi]
  rfl

theorem filled_of_gives (h : rule.Gives rows bits) :
    (∀ row ∈ filled rows, row.length = bits.length) ∧ (filled rows = [] → bits = []) ∧
      bits = rule.joined bits.length (filled rows) := by
  obtain ⟨empty, rest, rfl, hempty, hlength, hnil, hcolumns⟩ := h
  have hfilled : filled (empty ++ rest) = filled rest := by
    rw [filled, List.filter_append]
    exact congrArg (· ++ filled rest) (filled_eq_nil hempty)
  rw [hfilled]
  refine ⟨fun row hrow => hlength row (List.mem_of_mem_filter hrow), ?_⟩
  by_cases hbits : bits = []
  · subst hbits
    exact ⟨fun _ => rfl, rfl⟩
  · have hrest : filled rest = rest := by
      apply List.filter_eq_self.mpr
      intro row hrow
      have hpos := List.length_pos_iff.mpr hbits
      rw [← hlength row hrow] at hpos
      simpa using List.length_pos_iff.mp hpos
    rw [hrest]
    exact ⟨hnil, eq_joined hcolumns⟩

theorem gives_perm (hperm : rows'.Perm rows) (h : rule.Gives rows bits)
    (h' : rule.Gives rows' bits') : bits' = bits := by
  obtain ⟨hlength, hnil, hbits⟩ := filled_of_gives h
  obtain ⟨hlength', hnil', hbits'⟩ := filled_of_gives h'
  have hfilled : (filled rows').Perm (filled rows) := hperm.filter _
  by_cases hnone : filled rows = []
  · rw [hnil hnone, hnil' (List.perm_nil.mp (hnone ▸ hfilled))]
  · obtain ⟨row, hrow⟩ := List.exists_mem_of_ne_nil _ hnone
    rw [hbits', hbits, ← hlength row hrow, ← hlength' row (hfilled.mem_iff.mpr hrow),
      joined_perm hfilled]

/-- Some of the rows are empty and some are not. -/
def Mixed (rows : List (List Int64)) : Prop := [] ∈ rows ∧ ∃ row ∈ rows, row ≠ []

theorem even_of_gives (h : rule.Gives rows bits) (hmixed : ¬ Mixed rows) :
    ∀ row ∈ rows, row.length = bits.length := by
  obtain ⟨hlength, hnil, -⟩ := filled_of_gives h
  by_cases hempty : [] ∈ rows
  · have hall : ∀ row ∈ rows, row = [] := by
      intro row hrow
      by_contra hne
      exact hmixed ⟨hempty, row, hrow, hne⟩
    intro row hrow
    rw [hall row hrow, hnil (filled_eq_nil hall)]
    rfl
  · intro row hrow
    have hne : row ≠ [] := by
      rintro rfl
      exact hempty hrow
    exact hlength row (List.mem_filter.mpr ⟨hrow, by simpa using hne⟩)

/-! ## Replies -/

/-- The replies are arrays of `n` integers each. -/
def AreEven (replies : List Reply) (n : Nat) (rows : List (List Int64)) : Prop :=
  List.Forall₂ ReadsRow replies rows ∧ ∀ row ∈ rows, row.length = n

/-- The replies are arrays of integers, some of them empty and some not. -/
def AreMixed (replies : List Reply) : Prop :=
  ∃ rows, List.Forall₂ ReadsRow replies rows ∧ Mixed rows

theorem AreMixed.perm {replies replies' : List Reply} (hperm : replies'.Perm replies)
    (h : AreMixed replies') : AreMixed replies := by
  obtain ⟨rows', hrows', hempty, row, hrow, hne⟩ := h
  obtain ⟨rows, hrows, hsame⟩ := List.perm_comp_forall₂ hperm.symm hrows'
  exact ⟨rows, hrows, hsame.mem_iff.mpr hempty, row, hsame.mem_iff.mpr hrow, hne⟩

theorem AreEven.perm {replies replies' : List Reply} {n : Nat} (hperm : replies'.Perm replies)
    (h : AreEven replies n rows) : ∃ rows', AreEven replies' n rows' := by
  obtain ⟨rows', hrows', hsame⟩ := List.perm_comp_forall₂ hperm h.1
  exact ⟨rows', hrows', fun row hrow => h.2 row (hsame.mem_iff.mp hrow)⟩

theorem Weighs.perm {replies replies' : List Reply} (hperm : replies'.Perm replies)
    (h : Weighs rule replies bits) (h' : Weighs rule replies' bits') : bits' = bits := by
  obtain ⟨rows, hrows, hgives⟩ := h
  obtain ⟨rows', hrows', hgives'⟩ := h'
  obtain ⟨rows'', hrows'', hsame⟩ := List.perm_comp_forall₂ hperm hrows
  obtain rfl := readsRows_unique hrows' hrows''
  exact gives_perm hsame hgives hgives'

/-! ## Merging -/

theorem not_carries_of_isInteger {r : Reply} {n : Int64} (h : r.IsInteger n) (e : ServerError) :
    ¬ r.Carries e := by
  rintro (_ | _) <;> cases h

theorem not_carries_of_readsRow {r : Reply} {row : List Int64} (h : ReadsRow r row)
    (e : ServerError) : ¬ r.Carries e := by
  obtain ⟨items, rfl, hreads⟩ := h
  rintro (_ | ⟨hmem, hcarries⟩)
  obtain ⟨n, -, hn⟩ := exists_of_forall₂_right hreads.flip hmem
  exact not_carries_of_isInteger hn e hcarries

/-- Every node has given a reply. -/
def answered (answers : List (String × Reply)) : List Outcome :=
  answers.map fun a => (a.1, .ok a.2)

variable {answers answers' : List (String × Reply)}

theorem eq_of_succeed {replies : List Reply} (h : Succeed (answered answers) replies) :
    replies = answers.map Prod.snd := by
  have hsucceed := List.forall₂_map_left_iff.mp h
  clear h
  induction hsucceed with
  | nil => rfl
  | cons hsucceeds _ ih =>
    rw [List.map_cons, ← ih]
    exact congrArg (· :: _) (Except.ok.inj hsucceeds.1).symm

theorem not_failsFirst {rows : List (List Int64)}
    (h : List.Forall₂ ReadsRow (answers.map Prod.snd) rows) (f : Fault) :
    ¬ FailsFirst (answered answers) f := by
  rintro ⟨before, o, after, -, hsplit, -, hfails⟩
  have ho : o ∈ answered answers := by simp [hsplit]
  obtain ⟨a, ha, rfl⟩ := List.mem_map.mp ho
  obtain ⟨row, -, hrow⟩ := exists_of_forall₂_right h.flip (List.mem_map_of_mem (f := Prod.snd) ha)
  rcases hfails with hfails | ⟨r, e, hr, hfirst, -⟩
  · cases hfails
  · cases hr
    exact not_carries_of_readsRow hrow e (Reply.carries_of_firstError a.2 hfirst)

theorem merge_logical_iff (hsome : answers ≠ []) {r : Reply} :
    merge (some (.logical rule)) (answered answers) = .ok r ↔
      ∃ bits, Weighs rule (answers.map Prod.snd) bits ∧ r = ofBits bits := by
  have hfollows := follows_merge (some (.logical rule)) (answered answers)
  generalize merge (some (.logical rule)) (answered answers) = result at hfollows
  generalize houtcomes : answered answers = outcomes at hfollows
  cases hfollows with
  | nobody => exact absurd (List.map_eq_nil_iff.mp houtcomes) hsome
  | @failed _ _ f _ hfails =>
    subst houtcomes
    constructor
    · rintro ⟨⟩
    · rintro ⟨bits, ⟨rows, hrows, -⟩, -⟩
      exact absurd hfails (not_failsFirst hrows f)
  | united _ _ hsucceed hunites =>
    subst houtcomes
    obtain rfl := eq_of_succeed hsucceed
    cases hunites with
    | @logical _ _ bits hweighs =>
      constructor
      · rintro ⟨⟩
        exact ⟨bits, hweighs, rfl⟩
      · rintro ⟨bits', hweighs', rfl⟩
        rw [hweighs.perm (List.Perm.refl _) hweighs']
    | notLogical hnone =>
      constructor
      · rintro ⟨⟩
      · rintro ⟨bits, hweighs, -⟩
        exact absurd hweighs (hnone bits)

theorem merge_of_even (hsome : answers ≠ []) {n : Nat} (h : AreEven (answers.map Prod.snd) n rows) :
    merge (some (.logical rule)) (answered answers) = .ok (ofBits (rule.joined n rows)) := by
  have hrows : rows ≠ [] := by
    rintro rfl
    exact hsome (List.map_eq_nil_iff.mp (List.forall₂_nil_right_iff.mp h.1))
  exact (merge_logical_iff hsome).mpr ⟨_, ⟨rows, h.1, gives_of_even h.2 hrows⟩, rfl⟩

theorem merges_iff_even (hsome : answers ≠ []) (hmixed : ¬ AreMixed (answers.map Prod.snd)) :
    (∃ r, merge (some (.logical rule)) (answered answers) = .ok r) ↔
      ∃ n rows, AreEven (answers.map Prod.snd) n rows := by
  constructor
  · rintro ⟨r, hr⟩
    obtain ⟨bits, ⟨rows, hrows, hgives⟩, -⟩ := (merge_logical_iff hsome).mp hr
    exact ⟨bits.length, rows, hrows, even_of_gives hgives fun h => hmixed ⟨rows, hrows, h⟩⟩
  · rintro ⟨n, rows, heven⟩
    exact ⟨_, merge_of_even hsome heven⟩

/-- **Truth values are joined column by column** if the replies are arrays of one length. Empty
arrays may come before others, but not behind them. -/
theorem logical_columns (rule : LogicRule) (hsome : answers ≠ []) :
    (∀ n rows, AreEven (answers.map Prod.snd) n rows →
      merge (some (.logical rule)) (answered answers) = .ok (ofBits (rule.joined n rows))) ∧
    (¬ AreMixed (answers.map Prod.snd) →
      ((∃ r, merge (some (.logical rule)) (answered answers) = .ok r) ↔
        ∃ n rows, AreEven (answers.map Prod.snd) n rows)) ∧
    (∀ r, merge (some (.logical rule)) (answered answers) = .ok r ↔
      ∃ bits, Weighs rule (answers.map Prod.snd) bits ∧ r = ofBits bits) ∧
    ∀ answers' : List (String × Reply), answers'.Perm answers →
      (¬ AreMixed (answers.map Prod.snd) →
        ((∃ r, merge (some (.logical rule)) (answered answers') = .ok r) ↔
          ∃ r, merge (some (.logical rule)) (answered answers) = .ok r)) ∧
      ∀ r r', merge (some (.logical rule)) (answered answers) = .ok r →
        merge (some (.logical rule)) (answered answers') = .ok r' → r' = r := by
  refine ⟨fun n rows => merge_of_even hsome, merges_iff_even hsome,
    fun r => merge_logical_iff hsome, fun answers' hperm => ?_⟩
  have hsome' : answers' ≠ [] := by
    rintro rfl
    exact hsome hperm.nil_eq.symm
  have hreplies : (answers'.map Prod.snd).Perm (answers.map Prod.snd) := hperm.map _
  constructor
  · intro hmixed
    rw [merges_iff_even hsome hmixed, merges_iff_even hsome' fun h => hmixed (h.perm hreplies)]
    constructor
    · rintro ⟨n, rows, heven⟩
      exact ⟨n, heven.perm hreplies.symm⟩
    · rintro ⟨n, rows, heven⟩
      exact ⟨n, heven.perm hreplies⟩
  · intro r r' hr hr'
    obtain ⟨bits, hbits, rfl⟩ := (merge_logical_iff hsome).mp hr
    obtain ⟨bits', hbits', rfl⟩ := (merge_logical_iff hsome').mp hr'
    rw [hbits.perm hreplies hbits']

/-- In the other order the same replies fail. -/
theorem logical_columns_empty_first :
    let answers := [("a:1", Reply.array []), ("b:2", Reply.array [.int 1])]
    merge (some (.logical .and)) (answered answers) = .ok (.array [.int 1]) ∧
      AreMixed (answers.map Prod.snd) ∧
      merge (some (.logical .and)) (answered answers.reverse) = .error lengthsDiffer := by
  intro answers
  have hrows : List.Forall₂ ReadsRow (answers.map Prod.snd) [[], [1]] :=
    .cons ⟨[], rfl, .nil⟩ (.cons ⟨[.int 1], rfl, .cons (.int 1) .nil⟩ .nil)
  have hgives : LogicRule.and.Gives [[], [1]] [true] :=
    ⟨[[]], [[1]], rfl, by simp, by simp, by simp, by decide⟩
  have hsome : answers ≠ [] := List.cons_ne_nil _ _
  obtain ⟨-, -, hmerges, -⟩ := logical_columns .and hsome
  refine ⟨(hmerges _).mpr ⟨[true], ⟨_, hrows, hgives⟩, rfl⟩, ⟨_, hrows, ?_⟩, rfl⟩
  exact ⟨List.mem_cons_self, [1], by simp, by simp⟩

end Merge

end SlotCluster
