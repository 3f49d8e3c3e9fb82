import Mathlib.Algebra.BigOperators.Group.List.Basic
import SlotCluster.Proofs.LogicalMerges

/-!
# Numbers of a broadcast

A numeric rule makes one number of the integers that the nodes have answered. The least and the
greatest do not depend on the order of the replies. A sum is taken from the left, and fails if it
leaves the range on the way. So the order decides if the sum of all fits, but the sum of those
above zero or the sum of those below zero does not.
-/

namespace SlotCluster

namespace Merge

/-! ## Replies -/

variable {answers answers' : List (String × Reply)} {ns ns' : List Int64}

/-- The nodes have answered with these integers. -/
abbrev Answer (answers : List (String × Reply)) (ns : List Int64) : Prop :=
  List.Forall₂ (fun a n => a.2.IsInteger n) answers ns

theorem Answer.reads (h : Answer answers ns) :
    List.Forall₂ Reply.IsInteger (answers.map Prod.snd) ns :=
  List.forall₂_map_left_iff.mpr h

theorem Answer.ne_nil (h : Answer answers ns) (hsome : answers ≠ []) : ns ≠ [] := by
  rintro rfl
  exact hsome (List.forall₂_nil_right_iff.mp h)

theorem Answer.firstError (h : Answer answers ns) : ∀ a ∈ answers, a.2.firstError = none := by
  rintro ⟨node, r⟩ ha
  obtain ⟨n, -, hn⟩ := exists_of_forall₂_right h.flip ha
  cases hn <;> rfl

theorem allSuccesses_answered (h : ∀ a ∈ answers, a.2.firstError = none) :
    allSuccesses (answered answers) = .ok (answers.map Prod.snd) := by
  induction answers with
  | nil => rfl
  | cons a rest ih =>
    obtain ⟨ha, hrest⟩ := List.forall_mem_cons.mp h
    have hfirst : success (a.1, .ok a.2) = .ok a.2 := by
      change a.2.checked = .ok a.2
      rw [Reply.checked, ha]
    change allSuccesses ((a.1, .ok a.2) :: answered rest) = _
    rw [allSuccesses, hfirst, ih hrest]
    rfl

theorem merge_numbers (h : Answer answers ns) (hsome : answers ≠ []) (rule : NumberRule) :
    merge (some (.number rule)) (answered answers) =
      (ns.foldlM (numberStep rule) (numberStart rule)).map Reply.int := by
  have hmany : (answered answers).isEmpty = false := by simpa [answered] using hsome
  rw [merge, hmany, if_neg (by decide)]
  change (allSuccesses (answered answers)).bind (numbers rule) = _
  rw [allSuccesses_answered h.firstError]
  change (numberFold rule (numberStart rule) (answers.map Prod.snd)).map Reply.int = _
  rw [numberFold_of_reads h.reads]

/-! ## Sums -/

/-- The sum without a range. -/
def total (ns : List Int64) : Int := (ns.map Int64.toInt).sum

/-- The sum of those above zero. -/
def gains (ns : List Int64) : Int := total (ns.filter fun n => 0 < n.toInt)

/-- The sum of those that are not above zero. -/
def losses (ns : List Int64) : Int := total (ns.filter fun n => !decide (0 < n.toInt))

theorem total_cons (n : Int64) (ns : List Int64) : total (n :: ns) = n.toInt + total ns := by
  rw [total, total, List.map_cons, List.sum_cons]

theorem total_perm (h : ns'.Perm ns) : total ns' = total ns := (h.map Int64.toInt).sum_eq

theorem gains_cons (n : Int64) (ns : List Int64) :
    gains (n :: ns) = (if 0 < n.toInt then n.toInt else 0) + gains ns := by
  unfold gains
  by_cases hn : 0 < n.toInt
  · rw [List.filter_cons_of_pos (by simpa using hn), total_cons, if_pos hn]
  · rw [List.filter_cons_of_neg (by simpa using hn), if_neg hn, Int.zero_add]

theorem losses_cons (n : Int64) (ns : List Int64) :
    losses (n :: ns) = (if 0 < n.toInt then 0 else n.toInt) + losses ns := by
  unfold losses
  by_cases hn : 0 < n.toInt
  · rw [List.filter_cons_of_neg (by simpa using hn), if_pos hn, Int.zero_add]
  · rw [List.filter_cons_of_pos (by simpa using hn), total_cons, if_neg hn]

theorem total_sublist (h : ns'.Sublist ns) : losses ns ≤ total ns' ∧ total ns' ≤ gains ns := by
  induction h with
  | slnil => exact ⟨Int.le_refl 0, Int.le_refl 0⟩
  | cons n _ ih =>
    rw [losses_cons, gains_cons]
    split <;> omega
  | cons_cons n _ ih =>
    rw [losses_cons, gains_cons, total_cons]
    split <;> omega

theorem total_nonpos (h : ∀ n ∈ ns, ¬ 0 < n.toInt) : total ns ≤ 0 := by
  have hgains : gains ns = 0 := by
    rw [gains, List.filter_eq_nil_iff.mpr (by simpa using h)]
    rfl
  rw [← hgains]
  exact (total_sublist (List.Sublist.refl ns)).2

theorem total_nonneg (h : ∀ n ∈ ns, 0 < n.toInt) : 0 ≤ total ns := by
  have hlosses : losses ns = 0 := by
    rw [losses, List.filter_eq_nil_iff.mpr (by simpa using h)]
    rfl
  rw [← hlosses]
  exact (total_sublist (List.Sublist.refl ns)).1

/-! ## Sums on the way -/

theorem sumsFit_cons_iff {start : Int} {n : Int64} :
    SumsFit start (n :: ns) ↔ InRange start ∧ SumsFit (start + n.toInt) ns := by
  constructor
  · intro h
    refine ⟨by simpa using h 0, fun k => ?_⟩
    simpa [Int.add_assoc] using h (k + 1)
  · rintro ⟨hstart, hrest⟩ k
    cases k with
    | zero => simpa using hstart
    | succ k => simpa [Int.add_assoc] using hrest k

theorem SumsFit.total (h : SumsFit 0 ns) : InRange (total ns) := by
  have hall := h ns.length
  rwa [List.take_length, Int.zero_add] at hall

theorem sumsFit_of_signs (hgains : InRange (gains ns)) (hlosses : InRange (losses ns)) :
    SumsFit 0 ns := by
  intro k
  obtain ⟨hlow, hhigh⟩ := total_sublist (List.take_sublist k ns)
  rw [Int.zero_add]
  exact ⟨hlosses.1.trans hlow, hhigh.trans hgains.2⟩

theorem signs_of_sumsFit (h : ∀ ns', ns'.Perm ns → SumsFit 0 ns') :
    InRange (gains ns) ∧ InRange (losses ns) := by
  have hperm := List.filter_append_perm (fun n : Int64 => decide (0 < n.toInt)) ns
  constructor
  · have hfit := h _ hperm (ns.filter fun n => 0 < n.toInt).length
    rwa [List.take_left, Int.zero_add] at hfit
  · have hfit := h _ (List.perm_append_comm.trans hperm)
      (ns.filter fun n => !decide (0 < n.toInt)).length
    rwa [List.take_left, Int.zero_add] at hfit

theorem exists_step {start : Int} (hstart : InRange start) (htotal : InRange (start + total ns))
    (hsome : ns ≠ []) : ∃ n ∈ ns, InRange (start + n.toInt) := by
  obtain ⟨hlow, hhigh⟩ := hstart
  obtain ⟨htotalLow, htotalHigh⟩ := htotal
  obtain ⟨hzeroLow, hzeroHigh⟩ := inRange_toInt 0
  rw [Int64.toInt_zero] at hzeroLow hzeroHigh
  have hsplit {n : Int64} (hn : n ∈ ns) : total ns = n.toInt + total (ns.erase n) := by
    rw [← total_cons, total_perm (List.perm_cons_erase hn)]
  obtain ⟨first, hfirst⟩ := List.exists_mem_of_ne_nil ns hsome
  -- A summand against the sign of the sum so far stays within the range. If there is none, the
  -- sum goes on to the total in one direction.
  by_cases hsign : start ≤ 0
  · by_cases hnone : ∀ n ∈ ns, ¬ 0 < n.toInt
    · have hfall := hnone first hfirst
      have hrest : total (ns.erase first) ≤ 0 :=
        total_nonpos fun n hn => hnone n (List.mem_of_mem_erase hn)
      have htotal := hsplit hfirst
      exact ⟨first, hfirst, by omega, by omega⟩
    · obtain ⟨n, hn, hpos⟩ : ∃ n ∈ ns, 0 < n.toInt := by simpa using hnone
      have hmax := (inRange_toInt n).2
      exact ⟨n, hn, by omega, by omega⟩
  · by_cases hall : ∀ n ∈ ns, 0 < n.toInt
    · have hrise := hall first hfirst
      have hrest : 0 ≤ total (ns.erase first) :=
        total_nonneg fun n hn => hall n (List.mem_of_mem_erase hn)
      have htotal := hsplit hfirst
      exact ⟨first, hfirst, by omega, by omega⟩
    · obtain ⟨n, hn, hneg⟩ : ∃ n ∈ ns, n.toInt ≤ 0 := by simpa using hall
      have hmin := (inRange_toInt n).1
      exact ⟨n, hn, by omega, by omega⟩

/-- If the sum fits, it can be taken in some order. -/
theorem exists_sumsFit {start : Int} (hstart : InRange start)
    (htotal : InRange (start + total ns)) : ∃ ns', ns'.Perm ns ∧ SumsFit start ns' := by
  induction hlength : ns.length generalizing ns start with
  | zero =>
    obtain rfl := List.length_eq_zero_iff.mp hlength
    exact ⟨[], .refl _, fun k => by simpa using hstart⟩
  | succ k ih =>
    have hsome : ns ≠ [] := by
      rintro rfl
      cases hlength
    obtain ⟨n, hn, hstep⟩ := exists_step hstart htotal hsome
    have hperm := List.perm_cons_erase hn
    have hrest : InRange (start + n.toInt + total (ns.erase n)) := by
      rwa [Int.add_assoc, ← total_cons, ← total_perm hperm]
    have hshorter : (ns.erase n).length = k := by
      rw [List.length_erase_of_mem hn, hlength, Nat.add_sub_cancel]
    obtain ⟨ns', hns', hfit⟩ := ih hstep hrest hshorter
    exact ⟨n :: ns', (hns'.cons n).trans hperm.symm, sumsFit_cons_iff.mpr ⟨hstart, hfit⟩⟩

/-! ## Merging -/

theorem Answer.perm (h : Answer answers ns) (hperm : answers'.Perm answers) :
    ∃ ns', Answer answers' ns' ∧ ns'.Perm ns :=
  List.perm_comp_forall₂ hperm h

theorem Answer.order (h : Answer answers ns) (hperm : ns'.Perm ns) :
    ∃ answers', Answer answers' ns' ∧ answers'.Perm answers := by
  obtain ⟨answers', hanswers', hsame⟩ := List.perm_comp_forall₂ hperm h.flip
  exact ⟨answers', hanswers'.flip, hsame⟩

theorem merge_sum (h : Answer answers ns) (hsome : answers ≠ []) :
    (SumsFit 0 ns ∧ ∃ n : Int64, n.toInt = total ns ∧
        merge (some (.number .sum)) (answered answers) = .ok (.int n)) ∨
      ¬ SumsFit 0 ns ∧ merge (some (.number .sum)) (answered answers) = .error sumOverflow := by
  rw [merge_numbers h hsome]
  have hfold := foldlM_sum 0 ns
  rw [Int64.toInt_zero] at hfold
  obtain ⟨hfit, n, hn, htotal⟩ | ⟨hnot, hn⟩ := hfold
  · refine .inl ⟨hfit, n, by rw [htotal, Int.zero_add]; rfl, ?_⟩
    change (ns.foldlM (numberStep .sum) 0).map Reply.int = _
    rw [hn]
    rfl
  · refine .inr ⟨hnot, ?_⟩
    change (ns.foldlM (numberStep .sum) 0).map Reply.int = _
    rw [hn]
    rfl

theorem merge_sum_of_fits (h : Answer answers ns) (hsome : answers ≠ []) (hfit : SumsFit 0 ns) :
    ∃ n : Int64, n.toInt = total ns ∧
      merge (some (.number .sum)) (answered answers) = .ok (.int n) := by
  obtain ⟨-, hn⟩ | ⟨hnot, -⟩ := merge_sum h hsome
  · exact hn
  · exact absurd hfit hnot

theorem merge_sum_of_not_fits (h : Answer answers ns) (hsome : answers ≠ [])
    (hnot : ¬ SumsFit 0 ns) :
    merge (some (.number .sum)) (answered answers) = .error sumOverflow := by
  obtain ⟨hfit, -⟩ | ⟨-, hf⟩ := merge_sum h hsome
  · exact absurd hfit hnot
  · exact hf

theorem foldlM_ok {rule : NumberRule} (hrule : rule ≠ .sum) (acc : Int64) (ns : List Int64) :
    ∃ n, ns.foldlM (numberStep rule) acc = .ok n := by
  induction ns generalizing acc with
  | nil => exact ⟨acc, rfl⟩
  | cons n rest ih =>
    cases rule with
    | min | max => exact ih _
    | sum => exact absurd rfl hrule

theorem merge_extreme (h : Answer answers ns) (hsome : answers ≠ []) {rule : NumberRule}
    (hrule : rule ≠ .sum) :
    ∃ n, rule.Gives ns n ∧ merge (some (.number rule)) (answered answers) = .ok (.int n) := by
  rw [merge_numbers h hsome]
  obtain ⟨n, hn, hgives⟩ | ⟨hf, -⟩ := foldlM_number rule (h.ne_nil hsome)
  · rw [hn]
    exact ⟨n, hgives, rfl⟩
  · obtain ⟨n, hn⟩ := foldlM_ok hrule (numberStart rule) ns
    rw [hf] at hn
    cases hn

theorem extreme_perm {rule : NumberRule} (hrule : rule ≠ .sum) (hperm : ns'.Perm ns) {n n' : Int64}
    (h : rule.Gives ns n) (h' : rule.Gives ns' n') : n' = n := by
  cases rule with
  | min =>
    exact Int64.le_antisymm (h'.2 n (hperm.mem_iff.mpr h.1)) (h.2 n' (hperm.mem_iff.mp h'.1))
  | max =>
    exact Int64.le_antisymm (h.2 n' (hperm.mem_iff.mp h'.1)) (h'.2 n (hperm.mem_iff.mpr h.1))
  | sum => exact absurd rfl hrule

theorem ne_nil_of_perm (hsome : answers ≠ []) (hperm : answers'.Perm answers) :
    answers' ≠ [] := by
  rintro rfl
  exact hsome hperm.nil_eq.symm

theorem merge_extreme_perm (h : Answer answers ns) (hsome : answers ≠ [])
    (hperm : answers'.Perm answers) {rule : NumberRule} (hrule : rule ≠ .sum) :
    merge (some (.number rule)) (answered answers') =
      merge (some (.number rule)) (answered answers) := by
  obtain ⟨ns', hns', hnsPerm⟩ := h.perm hperm
  obtain ⟨n, hgives, hn⟩ := merge_extreme h hsome hrule
  obtain ⟨n', hgives', hn'⟩ := merge_extreme hns' (ne_nil_of_perm hsome hperm) hrule
  rw [hn, hn', extreme_perm hrule hnsPerm hgives hgives']

theorem merge_sum_perm (h : Answer answers ns) (hsome : answers ≠ [])
    (hperm : answers'.Perm answers) {r r' : Reply}
    (hr : merge (some (.number .sum)) (answered answers) = .ok r)
    (hr' : merge (some (.number .sum)) (answered answers') = .ok r') : r' = r := by
  obtain ⟨ns', hns', hnsPerm⟩ := h.perm hperm
  obtain ⟨-, n, hn, hmerge⟩ | ⟨-, hf⟩ := merge_sum h hsome
  · obtain ⟨-, n', hn', hmerge'⟩ | ⟨-, hf⟩ := merge_sum hns' (ne_nil_of_perm hsome hperm)
    · have hsame : n' = n := Int64.toInt_inj.mp (hn'.trans ((total_perm hnsPerm).trans hn.symm))
      rw [hmerge] at hr
      rw [hmerge'] at hr'
      cases hr
      cases hr'
      rw [hsame]
    · rw [hf] at hr'
      cases hr'
  · rw [hf] at hr
    cases hr

theorem sum_order_iff (h : Answer answers ns) (hsome : answers ≠ []) :
    (∀ answers', answers'.Perm answers →
      merge (some (.number .sum)) (answered answers') =
        merge (some (.number .sum)) (answered answers)) ↔
      ¬ InRange (total ns) ∨ InRange (gains ns) ∧ InRange (losses ns) := by
  constructor
  · intro hsame
    by_cases htotal : InRange (total ns)
    · -- The sum can be taken in some order, and so in every order.
      obtain ⟨ms, hms, hfit⟩ := exists_sumsFit (inRange_toInt 0)
        (by rwa [Int64.toInt_zero, Int.zero_add])
      rw [Int64.toInt_zero] at hfit
      refine .inr (signs_of_sumsFit fun ns' hns' => ?_)
      obtain ⟨first, hfirst, hfirstPerm⟩ := h.order hms
      obtain ⟨other, hother, hotherPerm⟩ := h.order hns'
      obtain ⟨-, n, -, hn⟩ | ⟨hnot, -⟩ := merge_sum hfirst (ne_nil_of_perm hsome hfirstPerm)
      · obtain ⟨hfit', -⟩ | ⟨-, hf⟩ := merge_sum hother (ne_nil_of_perm hsome hotherPerm)
        · exact hfit'
        · rw [hsame other hotherPerm, ← hsame first hfirstPerm, hn] at hf
          cases hf
      · exact absurd hfit hnot
    · exact .inl htotal
  · -- With both signs in range, no order leaves it. With the total out of range, every order does.
    intro hsigns answers' hperm
    obtain ⟨ns', hns', hnsPerm⟩ := h.perm hperm
    obtain hbeyond | ⟨hgains, hlosses⟩ := hsigns
    · have hbeyond' : ¬ InRange (total ns') := by rwa [total_perm hnsPerm]
      rw [merge_sum_of_not_fits h hsome (mt SumsFit.total hbeyond),
        merge_sum_of_not_fits hns' (ne_nil_of_perm hsome hperm) (mt SumsFit.total hbeyond')]
    · have hfit' : SumsFit 0 ns' := by
        apply sumsFit_of_signs
        · rwa [gains, total_perm (hnsPerm.filter _)]
        · rwa [losses, total_perm (hnsPerm.filter _)]
      obtain ⟨n, -, hmerge⟩ := merge_sum_of_fits h hsome (sumsFit_of_signs hgains hlosses)
      obtain ⟨n', -, hmerge'⟩ := merge_sum_of_fits hns' (ne_nil_of_perm hsome hperm) hfit'
      rw [hmerge', merge_sum_perm h hsome hperm hmerge hmerge', hmerge]

/-- **The least and the greatest do not depend on the order, and a sum is exact or fails.** It
fails just if it leaves the range on the way. Every order gives the same if the total is out of
range, or the sums of both signs are within, and no order gives another sum. -/
theorem numbers_in_order (h : Answer answers ns) (hsome : answers ≠ []) :
    (∃ n ∈ ns, (∀ m ∈ ns, n ≤ m) ∧
      merge (some (.number .min)) (answered answers) = .ok (.int n)) ∧
    (∃ n ∈ ns, (∀ m ∈ ns, m ≤ n) ∧
      merge (some (.number .max)) (answered answers) = .ok (.int n)) ∧
    (SumsFit 0 ns → ∃ n : Int64, n.toInt = total ns ∧
      merge (some (.number .sum)) (answered answers) = .ok (.int n)) ∧
    (¬ SumsFit 0 ns →
      merge (some (.number .sum)) (answered answers) = .error sumOverflow) ∧
    sumOverflow.kind = .unexpectedReply ∧ (¬ InRange (total ns) → ¬ SumsFit 0 ns) ∧
    (∀ answers', answers'.Perm answers →
      merge (some (.number .min)) (answered answers') =
        merge (some (.number .min)) (answered answers) ∧
      merge (some (.number .max)) (answered answers') =
        merge (some (.number .max)) (answered answers) ∧
      ∀ r r', merge (some (.number .sum)) (answered answers) = .ok r →
        merge (some (.number .sum)) (answered answers') = .ok r' → r' = r) ∧
    ((∀ answers', answers'.Perm answers →
        merge (some (.number .sum)) (answered answers') =
          merge (some (.number .sum)) (answered answers)) ↔
      ¬ InRange (total ns) ∨ InRange (gains ns) ∧ InRange (losses ns)) := by
  obtain ⟨least, ⟨hleast, hmin⟩, hleastMerge⟩ :=
    merge_extreme h hsome (show NumberRule.min ≠ .sum by decide)
  obtain ⟨greatest, ⟨hgreatest, hmax⟩, hgreatestMerge⟩ :=
    merge_extreme h hsome (show NumberRule.max ≠ .sum by decide)
  refine ⟨⟨least, hleast, hmin, hleastMerge⟩, ⟨greatest, hgreatest, hmax, hgreatestMerge⟩,
    merge_sum_of_fits h hsome, merge_sum_of_not_fits h hsome, rfl, mt SumsFit.total, ?_,
    sum_order_iff h hsome⟩
  intro answers' hperm
  exact ⟨merge_extreme_perm h hsome hperm (by decide), merge_extreme_perm h hsome hperm (by decide),
    fun r r' => merge_sum_perm h hsome hperm⟩

/-- The sum comes to the end of the range, and not beyond it on the way. -/
theorem numbers_in_order_up_to_end :
    let answers := [("a:1", Reply.int (-1)), ("b:2", Reply.bulk (Bytes.ofText "+01")),
      ("c:3", Reply.int Int64.maxValue)]
    let ns := [-1, 1, Int64.maxValue]
    Answer answers ns ∧ SumsFit 0 ns ∧
      (∃ n ∈ ns, (∀ m ∈ ns, n ≤ m) ∧
        merge (some (.number .min)) (answered answers) = .ok (.int n)) ∧
      ∃ n : Int64, n.toInt = total ns ∧
        merge (some (.number .sum)) (answered answers) = .ok (.int n) := by
  intro answers ns
  have hspelled : Decimal.IsSigned (Bytes.ofText "+01") 1 :=
    .inl ⟨1, .inr ⟨[48, 49], by decide, [0, 1], by simp, by simp, by decide, by decide⟩, rfl⟩
  have hanswer : Answer answers ns :=
    .cons (.int _) (.cons (.bulk hspelled) (.cons (.int _) .nil))
  have hfit : SumsFit 0 ns := by
    simp only [ns, sumsFit_cons_iff]
    refine ⟨by decide, by decide, by decide, fun k => ?_⟩
    rw [List.take_nil]
    decide
  obtain ⟨hmin, -, hsum, -⟩ := numbers_in_order hanswer (List.cons_ne_nil _ _)
  exact ⟨hanswer, hfit, hmin, hsum hfit⟩

/-- In the other order the same replies leave the range, though their total does not. -/
theorem sum_lost_on_the_way :
    let answers := [("a:1", Reply.int Int64.maxValue), ("b:2", Reply.int 1),
      ("c:3", Reply.int (-1))]
    let ns := [Int64.maxValue, 1, -1]
    Answer answers ns ∧ total ns = Int64.maxValue.toInt ∧
      merge (some (.number .sum)) (answered answers) = .error sumOverflow ∧
      merge (some (.number .sum)) (answered answers.reverse) = .ok (.int Int64.maxValue) :=
  ⟨.cons (.int _) (.cons (.int _) (.cons (.int _) .nil)), by decide, rfl, rfl⟩

end Merge

end SlotCluster
