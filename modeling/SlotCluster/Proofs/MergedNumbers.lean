import Mathlib.Algebra.Order.Ring.Int
import Mathlib.Data.List.Forall2
import SlotCluster.Merge
import SlotCluster.Proofs.Spellings

/-!
# Numbers and truth values of several nodes

What one number a rule makes of the numbers that the nodes have answered, and what truth values it
makes of rows of numbers. A sum fails as soon as it leaves the range, though later summands might
bring it back. Rows have to be of one length, except that empty ones at the start are passed over.
-/

namespace SlotCluster

/-! ## Integers -/

namespace Reply

/-- The reply stands for the integer, as an integer reply or as a bulk string that spells it. -/
inductive IsInteger : Reply → Int64 → Prop
  | int (n : Int64) : IsInteger (.int n) n
  | bulk {b : Bytes} {n : Int64} (spelled : Decimal.IsSigned b n.toInt) : IsInteger (.bulk b) n

theorem integer_eq_ok_iff {r : Reply} {n : Int64} : r.integer = .ok n ↔ r.IsInteger n := by
  unfold integer
  constructor
  · intro h
    cases r with
    | int value =>
      cases h
      exact .int n
    | bulk b =>
      simp only at h
      split at h
      · next value hvalue =>
        cases h
        exact .bulk (Decimal.readInt64?_eq_some_iff.mp hvalue)
      · cases h
    | _ => cases h
  · rintro (_ | hspelled)
    · rfl
    · simp only [Decimal.readInt64?_eq_some_iff.mpr hspelled]

theorem IsInteger.unique {r : Reply} {n n' : Int64} (h : r.IsInteger n) (h' : r.IsInteger n') :
    n = n' :=
  Except.ok.inj ((integer_eq_ok_iff.mpr h).symm.trans (integer_eq_ok_iff.mpr h'))

end Reply

namespace Merge

/-! ## Numbers -/

def InRange (n : Int) : Prop := Int64.minValue.toInt ≤ n ∧ n ≤ Int64.maxValue.toInt

instance (n : Int) : Decidable (InRange n) := inferInstanceAs (Decidable (_ ∧ _))

/-- All sums on the way are within the range. -/
def SumsFit (start : Int) (ns : List Int64) : Prop :=
  ∀ k, InRange (start + ((ns.take k).map Int64.toInt).sum)

end Merge

open Merge

/-- The number is the one that the rule makes of these. No sum on the way may leave the range. -/
def NumberRule.Gives : NumberRule → List Int64 → Int64 → Prop
  | .min, ns, n => n ∈ ns ∧ ∀ m ∈ ns, n ≤ m
  | .sum, ns, n => SumsFit 0 ns ∧ n.toInt = (ns.map Int64.toInt).sum
  | .max, ns, n => n ∈ ns ∧ ∀ m ∈ ns, m ≤ n

namespace Merge

theorem integer_cases (r : Reply) :
    (∃ n, r.integer = .ok n ∧ r.IsInteger n) ∨
      ∃ f, r.integer = .error f ∧ f.kind = .unexpectedReply ∧ ∀ n, ¬ r.IsInteger n := by
  cases h : r.integer with
  | ok n => exact .inl ⟨n, rfl, Reply.integer_eq_ok_iff.mp h⟩
  | error f =>
    refine .inr ⟨f, rfl, ?_, fun n hn => ?_⟩
    · unfold Reply.integer at h
      simp only at h
      split at h
      all_goals cases h
      rfl
    · rw [Reply.integer_eq_ok_iff.mpr hn] at h
      cases h

section

variable {f : Int64 → Int64 → Except Fault Int64} {R : Int64 → Int64 → Prop}
  (hrefl : ∀ a, R a a) (htrans : ∀ {a b c}, R a b → R b c → R a c)
  (hstep : ∀ a n, ∃ x, f a n = .ok x ∧ (x = a ∨ x = n) ∧ R x a ∧ R x n)

include hrefl htrans hstep

/-- A fold that chooses ends with one that it has met, and none that it has met is beyond it. -/
theorem foldlM_choice (acc : Int64) (ns : List Int64) :
    ∃ x, ns.foldlM f acc = .ok x ∧ (x = acc ∨ x ∈ ns) ∧ R x acc ∧ ∀ m ∈ ns, R x m := by
  induction ns generalizing acc with
  | nil => exact ⟨acc, rfl, .inl rfl, hrefl acc, by simp⟩
  | cons n rest ih =>
    obtain ⟨y, hy, hchosen, hya, hyn⟩ := hstep acc n
    obtain ⟨x, hx, hfrom, hxy, hall⟩ := ih y
    refine ⟨x, ?_, ?_, htrans hxy hya, List.forall_mem_cons.mpr ⟨htrans hxy hyn, hall⟩⟩
    · rw [List.foldlM_cons, hy]
      exact hx
    · rcases hfrom with rfl | hmem
      · rcases hchosen with rfl | rfl
        · exact .inl rfl
        · exact .inr List.mem_cons_self
      · exact .inr (List.mem_cons_of_mem _ hmem)

theorem foldlM_first (hanti : ∀ {a b}, R a b → R b a → a = b) {start : Int64}
    (hstart : ∀ m, R m start) {ns : List Int64} (hsome : ns ≠ []) :
    ∃ x, ns.foldlM f start = .ok x ∧ x ∈ ns ∧ ∀ m ∈ ns, R x m := by
  obtain ⟨x, hx, hfrom, -, hall⟩ := foldlM_choice hrefl htrans hstep start ns
  refine ⟨x, hx, ?_, hall⟩
  rcases hfrom with rfl | hmem
  · obtain ⟨m, hm⟩ := List.exists_mem_of_ne_nil ns hsome
    rwa [hanti (hall m hm) (hstart m)]
  · exact hmem

end

theorem addChecked_cases (a b : Int64) :
    (InRange (a.toInt + b.toInt) ∧ ∃ x, addChecked a b = .ok x ∧ x.toInt = a.toInt + b.toInt) ∨
      ¬ InRange (a.toInt + b.toInt) ∧ addChecked a b = .error sumOverflow := by
  unfold addChecked
  by_cases hrange : InRange (a.toInt + b.toInt)
  · refine .inl ⟨hrange, a + b, if_pos hrange, ?_⟩
    obtain ⟨hlow, hhigh⟩ := hrange
    rw [Int64.toInt_minValue] at hlow
    rw [Int64.toInt_maxValue] at hhigh
    rw [Int64.toInt_add]
    exact Int.bmod_eq_of_le (by omega) (by omega)
  · exact .inr ⟨hrange, if_neg hrange⟩

theorem inRange_toInt (n : Int64) : InRange n.toInt := by
  unfold InRange
  rw [Int64.toInt_minValue, Int64.toInt_maxValue]
  exact ⟨n.le_toInt, Int.le_sub_one_of_lt n.toInt_lt⟩

theorem sumsFit_cons {a n : Int64} {rest : List Int64} :
    SumsFit a.toInt (n :: rest) ↔ SumsFit (a.toInt + n.toInt) rest := by
  constructor
  · intro h k
    simpa [Int.add_assoc] using h (k + 1)
  · intro h k
    cases k with
    | zero => simpa using inRange_toInt a
    | succ k => simpa [Int.add_assoc] using h k

theorem foldlM_sum (acc : Int64) (ns : List Int64) :
    (SumsFit acc.toInt ns ∧ ∃ x, ns.foldlM (numberStep .sum) acc = .ok x ∧
        x.toInt = acc.toInt + (ns.map Int64.toInt).sum) ∨
      ¬ SumsFit acc.toInt ns ∧ ns.foldlM (numberStep .sum) acc = .error sumOverflow := by
  induction ns generalizing acc with
  | nil => exact .inl ⟨fun k => by simpa using inRange_toInt acc, acc, rfl, by simp⟩
  | cons n rest ih =>
    rw [sumsFit_cons, List.foldlM_cons, numberStep]
    obtain ⟨-, x, hx, hsum⟩ | ⟨hbeyond, hx⟩ := addChecked_cases acc n
    · rw [hx, ← hsum]
      obtain ⟨hfit, y, hy, htotal⟩ | ⟨hbeyond, hy⟩ := ih x
      · refine .inl ⟨hfit, y, hy, ?_⟩
        rw [htotal, hsum, List.map_cons, List.sum_cons, Int.add_assoc]
      · exact .inr ⟨hbeyond, hy⟩
    · rw [hx]
      exact .inr ⟨fun hfit => hbeyond (by simpa using hfit 0), rfl⟩

theorem foldlM_number (rule : NumberRule) {ns : List Int64} (hsome : ns ≠ []) :
    (∃ n, ns.foldlM (numberStep rule) (numberStart rule) = .ok n ∧ rule.Gives ns n) ∨
      ns.foldlM (numberStep rule) (numberStart rule) = .error sumOverflow ∧
        ∀ n, ¬ rule.Gives ns n := by
  cases rule with
  | min =>
    refine .inl (foldlM_first (R := fun a b => a ≤ b) Int64.le_refl Int64.le_trans
      (fun a n => ⟨_, rfl, ?_⟩) Int64.le_antisymm Int64.le_maxValue hsome)
    split
    · next h => exact ⟨.inr rfl, Int64.le_of_lt h, Int64.le_refl n⟩
    · next h => exact ⟨.inl rfl, Int64.le_refl a, Int64.not_lt.mp h⟩
  | max =>
    refine .inl (foldlM_first (R := fun a b => b ≤ a) Int64.le_refl
      (fun h h' => Int64.le_trans h' h) (fun a n => ⟨_, rfl, ?_⟩)
      (fun h h' => Int64.le_antisymm h' h) Int64.minValue_le hsome)
    split
    · next h => exact ⟨.inr rfl, Int64.le_of_lt h, Int64.le_refl n⟩
    · next h => exact ⟨.inl rfl, Int64.le_refl a, Int64.not_lt.mp h⟩
  | sum =>
    have hfold := foldlM_sum 0 ns
    rw [Int64.toInt_zero, Int.zero_add] at hfold
    obtain ⟨hfit, x, hx, hsum⟩ | ⟨hbeyond, hx⟩ := hfold
    · exact .inl ⟨x, hx, hfit, hsum⟩
    · exact .inr ⟨hx, fun n hn => hbeyond hn.1⟩

theorem reads_unique {replies : List Reply} {ns ns' : List Int64}
    (h : List.Forall₂ Reply.IsInteger replies ns)
    (h' : List.Forall₂ Reply.IsInteger replies ns') : ns = ns' :=
  List.right_unique_forall₂' (fun _ _ _ hn hn' => hn.unique hn') h h'

theorem numberFold_of_reads {rule : NumberRule} {replies : List Reply} {ns : List Int64}
    (h : List.Forall₂ Reply.IsInteger replies ns) (acc : Int64) :
    numberFold rule acc replies = ns.foldlM (numberStep rule) acc := by
  induction h generalizing acc with
  | nil => rfl
  | @cons r n _ _ hread _ ih =>
    rw [numberFold, Reply.integer_eq_ok_iff.mpr hread, List.foldlM_cons]
    change numberStep rule acc n >>= _ = _
    congr 1
    funext acc'
    exact ih acc'

theorem numberFold_of_unread {replies : List Reply}
    (h : ¬ ∃ ns, List.Forall₂ Reply.IsInteger replies ns) (rule : NumberRule) (acc : Int64) :
    ∃ f, numberFold rule acc replies = .error f ∧ f.kind = .unexpectedReply := by
  induction replies generalizing acc with
  | nil => exact absurd ⟨[], .nil⟩ h
  | cons r rest ih =>
    rw [numberFold]
    obtain ⟨n, hn, hread⟩ | ⟨f, hf, hkind, -⟩ := integer_cases r
    · have hrest : ¬ ∃ ns, List.Forall₂ Reply.IsInteger rest ns :=
        fun ⟨ns, hns⟩ => h ⟨n :: ns, .cons hread hns⟩
      rw [hn]
      change ∃ f, (numberStep rule acc n >>= _) = _ ∧ _
      cases hstep : numberStep rule acc n with
      | ok acc' => exact ih hrest acc'
      | error f =>
        refine ⟨f, rfl, ?_⟩
        cases rule with
        | min | max => cases hstep
        | sum =>
          obtain ⟨-, x, hx, -⟩ | ⟨-, hx⟩ := addChecked_cases acc n
          · rw [numberStep, hx] at hstep
            cases hstep
          · rw [numberStep, hx] at hstep
            cases hstep
            rfl
    · rw [hf]
      exact ⟨f, rfl, hkind⟩

/-- The replies are read as numbers from which the rule makes this one. -/
def Counts (rule : NumberRule) (replies : List Reply) (n : Int64) : Prop :=
  ∃ ns, List.Forall₂ Reply.IsInteger replies ns ∧ rule.Gives ns n

theorem numbers_cases (rule : NumberRule) {replies : List Reply} (hsome : replies ≠ []) :
    (∃ n, numbers rule replies = .ok (.int n) ∧ Counts rule replies n) ∨
      ∃ f, numbers rule replies = .error f ∧ f.kind = .unexpectedReply ∧
        ∀ n, ¬ Counts rule replies n := by
  unfold numbers
  by_cases hreads : ∃ ns, List.Forall₂ Reply.IsInteger replies ns
  · obtain ⟨ns, hns⟩ := hreads
    have hne : ns ≠ [] := by
      rintro rfl
      exact hsome (List.forall₂_nil_right_iff.mp hns)
    rw [numberFold_of_reads hns]
    obtain ⟨n, hn, hgives⟩ | ⟨hf, hnone⟩ := foldlM_number rule hne
    · rw [hn]
      exact .inl ⟨n, rfl, ns, hns, hgives⟩
    · rw [hf]
      refine .inr ⟨sumOverflow, rfl, rfl, ?_⟩
      rintro n ⟨ns', hns', hgives⟩
      rw [← reads_unique hns hns'] at hgives
      exact hnone n hgives
  · obtain ⟨f, hf, hkind⟩ := numberFold_of_unread hreads rule (numberStart rule)
    rw [hf]
    exact .inr ⟨f, rfl, hkind, fun n ⟨ns, hns, _⟩ => hreads ⟨ns, hns⟩⟩

/-! ## Truth values -/

end Merge

/-- All of the truth values, or any of them. -/
def LogicRule.join : LogicRule → List Bool → Bool
  | .and, bs => bs.all id
  | .or, bs => bs.any id

/-- The truth values of a column. An integer above zero is true. -/
def Merge.column (rows : List (List Int64)) (i : Nat) : List Bool :=
  rows.map fun row => decide (0 < row.getD i 0)

/-- The truth values are those that the rule makes of the columns. The rows are all of one length,
but for empty ones that come first. -/
def LogicRule.Gives (rule : LogicRule) (rows : List (List Int64)) (bits : List Bool) : Prop :=
  ∃ empty rest, rows = empty ++ rest ∧ (∀ row ∈ empty, row = []) ∧
    (∀ row ∈ rest, row.length = bits.length) ∧ (rest = [] → bits = []) ∧
    ∀ i < bits.length, bits[i]? = some (rule.join (column rest i))

namespace Merge

theorem logicStep_join (rule : LogicRule) (a b : Bool) (bs : List Bool) :
    logicStep rule (logicStep rule a b) (rule.join bs) =
      logicStep rule a (rule.join (b :: bs)) := by
  cases rule
  · simp [logicStep, LogicRule.join, Bool.and_assoc]
  · simp [logicStep, LogicRule.join, Bool.or_assoc]

theorem logicStep_start (rule : LogicRule) (b : Bool) : logicStep rule (logicStart rule) b = b := by
  cases rule <;> cases b <;> rfl

theorem logicStep_join_nil (rule : LogicRule) (a : Bool) : logicStep rule a (rule.join []) = a := by
  cases rule <;> cases a <;> rfl

def truths (row : List Int64) : List Bool := row.map fun n => decide (0 < n)

/-- The truth values of rows, each put onto those before it. -/
def rowsFold (rule : LogicRule) : List Bool → List (List Int64) → Except Fault (List Bool)
  | acc, [] => .ok acc
  | acc, row :: rest =>
    let acc := if acc.isEmpty then List.replicate row.length (logicStart rule) else acc
    if acc.length ≠ row.length then .error lengthsDiffer
    else rowsFold rule (List.zipWith (logicStep rule) acc (truths row)) rest

theorem rowsFold_of_some (rule : LogicRule) {acc : List Bool} (hsome : acc ≠ [])
    (rows : List (List Int64)) :
    (∃ bits, rowsFold rule acc rows = .ok bits ∧ bits.length = acc.length ∧
        (∀ row ∈ rows, row.length = acc.length) ∧
        ∀ i a, acc[i]? = some a →
          bits[i]? = some (logicStep rule a (rule.join (column rows i)))) ∨
      rowsFold rule acc rows = .error lengthsDiffer ∧ ∃ row ∈ rows, row.length ≠ acc.length := by
  induction rows generalizing acc with
  | nil =>
    refine .inl ⟨acc, rfl, rfl, by simp, fun i a ha => ?_⟩
    rw [ha]
    exact congrArg some (logicStep_join_nil rule a).symm
  | cons row rest ih =>
    have hempty : acc.isEmpty = false := by simpa using hsome
    rw [rowsFold]
    simp only [hempty, Bool.false_eq_true, if_false]
    by_cases hlength : acc.length = row.length
    · rw [if_neg (by simpa using hlength)]
      have hrow : (List.zipWith (logicStep rule) acc (truths row)).length = acc.length := by
        simp [truths, hlength]
      have hne : List.zipWith (logicStep rule) acc (truths row) ≠ [] := by
        rw [← List.length_pos_iff, hrow]
        exact List.length_pos_iff.mpr hsome
      obtain ⟨bits, hbits, hbitsLength, hall, hcolumns⟩ |
        ⟨herror, other, hother, hdiffers⟩ := ih hne
      · refine .inl ⟨bits, hbits, hbitsLength.trans hrow, ?_, fun i a ha => ?_⟩
        · rw [hrow] at hall
          exact List.forall_mem_cons.mpr ⟨hlength.symm, hall⟩
        · have hi : i < row.length := hlength ▸ (List.getElem?_eq_some_iff.mp ha).1
          have hstep : (List.zipWith (logicStep rule) acc (truths row))[i]? =
              some (logicStep rule a (decide (0 < row.getD i 0))) := by
            simp [List.getElem?_zipWith, ha, truths, hi]
          rw [hcolumns i _ hstep, logicStep_join]
          rfl
      · rw [hrow] at hdiffers
        exact .inr ⟨herror, other, List.mem_cons_of_mem _ hother, hdiffers⟩
    · rw [if_pos (by simpa using hlength)]
      exact .inr ⟨rfl, row, List.mem_cons_self, Ne.symm hlength⟩

theorem gives_nil_cons_iff {rule : LogicRule} {rows : List (List Int64)} {bits : List Bool} :
    rule.Gives ([] :: rows) bits ↔ rule.Gives rows bits := by
  constructor
  · rintro ⟨empty, rest, hsplit, hempty, hlength, hbits, hcolumns⟩
    cases empty with
    | cons first empty =>
      obtain ⟨-, rfl⟩ := List.cons.inj hsplit
      exact ⟨empty, rest, rfl, (List.forall_mem_cons.mp hempty).2, hlength, hbits, hcolumns⟩
    | nil =>
      rw [List.nil_append] at hsplit
      subst hsplit
      obtain ⟨hzero, hrows⟩ := List.forall_mem_cons.mp hlength
      obtain rfl : bits = [] := List.length_eq_zero_iff.mp hzero.symm
      have hnil : ∀ row ∈ rows, row = [] :=
        fun row hrow => List.length_eq_zero_iff.mp (hrows row hrow)
      exact ⟨rows, [], by simp, hnil, by simp, fun _ => rfl, by simp⟩
  · rintro ⟨empty, rest, rfl, hempty, hgives⟩
    exact ⟨[] :: empty, rest, rfl, List.forall_mem_cons.mpr ⟨rfl, hempty⟩, hgives⟩

theorem lengths_of_gives {rule : LogicRule} {n : Int64} {ns : List Int64}
    {rows : List (List Int64)} {bits : List Bool} (h : rule.Gives ((n :: ns) :: rows) bits) :
    ∀ row ∈ (n :: ns) :: rows, row.length = bits.length := by
  obtain ⟨empty, rest, hsplit, hempty, hlength, -⟩ := h
  cases empty with
  | cons first empty =>
    obtain ⟨rfl, -⟩ := List.cons.inj hsplit
    cases hempty _ List.mem_cons_self
  | nil =>
    rw [hsplit]
    exact hlength

theorem rowsFold_cases (rule : LogicRule) (rows : List (List Int64)) :
    (∃ bits, rowsFold rule [] rows = .ok bits ∧ rule.Gives rows bits) ∨
      rowsFold rule [] rows = .error lengthsDiffer ∧ ∀ bits, ¬ rule.Gives rows bits := by
  induction rows with
  | nil => exact .inl ⟨[], rfl, [], [], rfl, by simp, by simp, fun _ => rfl, by simp⟩
  | cons row rest ih =>
    cases row with
    | nil =>
      have hskip : rowsFold rule [] ([] :: rest) = rowsFold rule [] rest := rfl
      simpa only [hskip, gives_nil_cons_iff] using ih
    | cons n ns =>
      have hstart : rowsFold rule [] ((n :: ns) :: rest) =
          rowsFold rule (List.replicate (n :: ns).length (logicStart rule))
            ((n :: ns) :: rest) := by
        simp [rowsFold]
      have hne : List.replicate (n :: ns).length (logicStart rule) ≠ [] := by simp
      rw [hstart]
      obtain ⟨bits, hbits, hlength, hall, hcolumns⟩ | ⟨herror, row, hrow, hdiffers⟩ :=
        rowsFold_of_some rule hne ((n :: ns) :: rest)
      · refine .inl ⟨bits, hbits, [], _, rfl, by simp, ?_, by simp, fun i hi => ?_⟩
        · rwa [hlength]
        · have hat : (List.replicate (n :: ns).length (logicStart rule))[i]? =
              some (logicStart rule) := by
            rw [hlength, List.length_replicate] at hi
            rw [List.getElem?_replicate, if_pos hi]
          rw [hcolumns i _ hat, logicStep_start]
      · refine .inr ⟨herror, fun bits hgives => hdiffers ?_⟩
        have hlengths := lengths_of_gives hgives
        rw [List.length_replicate, hlengths row hrow, hlengths _ List.mem_cons_self]

def ReadsRow (r : Reply) (row : List Int64) : Prop :=
  ∃ items, r = .array items ∧ List.Forall₂ Reply.IsInteger items row

theorem readsRows_unique {replies : List Reply} {rows rows' : List (List Int64)}
    (h : List.Forall₂ ReadsRow replies rows) (h' : List.Forall₂ ReadsRow replies rows') :
    rows = rows' := by
  refine List.right_unique_forall₂' ?_ h h'
  rintro _ row row' ⟨items, rfl, hrow⟩ ⟨_, hitems, hrow'⟩
  cases hitems
  exact reads_unique hrow hrow'

theorem logicRow_of_reads {rule : LogicRule} {items : List Reply} {row : List Int64}
    (h : List.Forall₂ Reply.IsInteger items row) (acc : List Bool) :
    logicRow rule acc items = .ok (List.zipWith (logicStep rule) acc (truths row)) := by
  induction h generalizing acc with
  | nil => cases acc <;> rfl
  | @cons r n _ _ hread _ ih =>
    cases acc with
    | nil => rfl
    | cons a acc =>
      rw [logicRow, Reply.integer_eq_ok_iff.mpr hread, ih acc]
      rfl

theorem logicRow_of_unread {items : List Reply}
    (h : ¬ ∃ row, List.Forall₂ Reply.IsInteger items row) (rule : LogicRule) {acc : List Bool}
    (hlength : acc.length = items.length) :
    ∃ f, logicRow rule acc items = .error f ∧ f.kind = .unexpectedReply := by
  induction items generalizing acc with
  | nil => exact absurd ⟨[], .nil⟩ h
  | cons r rest ih =>
    obtain ⟨a, acc, rfl⟩ := List.exists_cons_of_length_eq_add_one hlength
    rw [logicRow]
    obtain ⟨n, hn, hread⟩ | ⟨f, hf, hkind, -⟩ := integer_cases r
    · obtain ⟨f, hf, hkind⟩ := ih (fun ⟨row, hrow⟩ => h ⟨n :: row, .cons hread hrow⟩)
        (Nat.succ.inj hlength)
      rw [hn, hf]
      exact ⟨f, rfl, hkind⟩
    · rw [hf]
      exact ⟨f, rfl, hkind⟩

theorem logicFold_of_reads {rule : LogicRule} {replies : List Reply} {rows : List (List Int64)}
    (h : List.Forall₂ ReadsRow replies rows) (acc : List Bool) :
    logicFold rule acc replies = rowsFold rule acc rows := by
  induction h generalizing acc with
  | nil => rfl
  | cons hreads _ ih =>
    obtain ⟨items, rfl, hrow⟩ := hreads
    rw [logicFold, rowsFold, hrow.length_eq]
    simp only
    generalize (if acc.isEmpty then _ else acc) = acc'
    split
    · rfl
    · rw [logicRow_of_reads hrow]
      exact ih _

theorem logicFold_of_unread {replies : List Reply}
    (h : ¬ ∃ rows, List.Forall₂ ReadsRow replies rows) (rule : LogicRule) (acc : List Bool) :
    ∃ f, logicFold rule acc replies = .error f ∧ f.kind = .unexpectedReply := by
  induction replies generalizing acc with
  | nil => exact absurd ⟨[], .nil⟩ h
  | cons r rest ih =>
    cases r with
    | array items =>
      rw [logicFold]
      simp only
      generalize (if acc.isEmpty then _ else acc) = acc'
      split
      · exact ⟨lengthsDiffer, rfl, rfl⟩
      · next hlength =>
        by_cases hrow : ∃ row, List.Forall₂ Reply.IsInteger items row
        · obtain ⟨row, hrow⟩ := hrow
          rw [logicRow_of_reads hrow]
          exact ih (fun ⟨rows, hrows⟩ => h ⟨row :: rows, .cons ⟨items, rfl, hrow⟩ hrows⟩) _
        · obtain ⟨f, hf, hkind⟩ := logicRow_of_unread hrow rule (not_not.mp hlength)
          rw [hf]
          exact ⟨f, rfl, hkind⟩
    | _ => exact ⟨notIntegers, rfl, rfl⟩

/-- The replies are read as rows of numbers from whose columns the rule makes these. -/
def Weighs (rule : LogicRule) (replies : List Reply) (bits : List Bool) : Prop :=
  ∃ rows, List.Forall₂ ReadsRow replies rows ∧ rule.Gives rows bits

def ofBits (bits : List Bool) : Reply := .array (bits.map fun b => .int (if b then 1 else 0))

theorem logical_cases (rule : LogicRule) (replies : List Reply) :
    (∃ bits, logical rule replies = .ok (ofBits bits) ∧ Weighs rule replies bits) ∨
      ∃ f, logical rule replies = .error f ∧ f.kind = .unexpectedReply ∧
        ∀ bits, ¬ Weighs rule replies bits := by
  unfold logical
  by_cases hreads : ∃ rows, List.Forall₂ ReadsRow replies rows
  · obtain ⟨rows, hrows⟩ := hreads
    rw [logicFold_of_reads hrows]
    obtain ⟨bits, hbits, hgives⟩ | ⟨hf, hnone⟩ := rowsFold_cases rule rows
    · rw [hbits]
      exact .inl ⟨bits, rfl, rows, hrows, hgives⟩
    · rw [hf]
      refine .inr ⟨lengthsDiffer, rfl, rfl, ?_⟩
      rintro bits ⟨rows', hrows', hgives⟩
      rw [← readsRows_unique hrows hrows'] at hgives
      exact hnone bits hgives
  · obtain ⟨f, hf, hkind⟩ := logicFold_of_unread hreads rule []
    rw [hf]
    exact .inr ⟨f, rfl, hkind, fun bits ⟨rows, hrows, _⟩ => hreads ⟨rows, hrows⟩⟩

end Merge

end SlotCluster
