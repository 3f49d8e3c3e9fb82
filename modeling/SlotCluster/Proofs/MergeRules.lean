import SlotCluster.Proofs.MergedNumbers
import SlotCluster.Proofs.Transactions

/-!
# The rules of merging

What one reply each policy makes of the outcomes at several nodes. The outcomes come in the order
of the nodes, and which of them decides depends on this order alone. Most policies need an answer
from every node, and fail as the first node does that has none.
-/

namespace SlotCluster

namespace Merge

/-! ## Successes and failures -/

/-- The node has given this reply, and no error is inside it. -/
def Succeeds (o : Outcome) (r : Reply) : Prop := o.2 = .ok r ∧ ∀ e, ¬ r.Carries e

/-- The node could not be asked, or an error is in its reply. The first one counts. -/
def Fails (o : Outcome) (f : Fault) : Prop :=
  o.2 = .error f ∨ ∃ r e, o.2 = .ok r ∧ r.firstError = some e ∧ f = .server e

theorem success_cases (o : Outcome) :
    (∃ r, success o = .ok r ∧ Succeeds o r) ∨ ∃ f, success o = .error f ∧ Fails o f := by
  obtain ⟨node, f | r⟩ := o
  · exact .inr ⟨f, rfl, .inl rfl⟩
  change (∃ r', r.checked = .ok r' ∧ _) ∨ ∃ f, r.checked = .error f ∧ _
  unfold Reply.checked
  cases hfirst : r.firstError with
  | some e => exact .inr ⟨.server e, rfl, .inr ⟨r, e, rfl, hfirst, rfl⟩⟩
  | none =>
    refine .inl ⟨r, rfl, rfl, fun e hcarries => ?_⟩
    have hsome := hcarries.firstError_isSome
    rw [hfirst] at hsome
    cases hsome

abbrev Succeed (outcomes : List Outcome) (replies : List Reply) : Prop :=
  List.Forall₂ Succeeds outcomes replies

def FailsFirst (outcomes : List Outcome) (f : Fault) : Prop :=
  ∃ before o after replies, outcomes = before ++ o :: after ∧ Succeed before replies ∧ Fails o f

theorem allSuccesses_cases (outcomes : List Outcome) :
    (∃ replies, allSuccesses outcomes = .ok replies ∧ Succeed outcomes replies) ∨
      ∃ f, allSuccesses outcomes = .error f ∧ FailsFirst outcomes f := by
  induction outcomes with
  | nil => exact .inl ⟨[], rfl, .nil⟩
  | cons o rest ih =>
    rw [allSuccesses]
    obtain ⟨r, hr, hsucceeds⟩ | ⟨f, hf, hfails⟩ := success_cases o
    · rw [hr]
      obtain ⟨replies, hreplies, hall⟩ |
        ⟨f, hf, before, o', after, replies, rfl, hbefore, hfails⟩ := ih
      · rw [hreplies]
        exact .inl ⟨r :: replies, rfl, .cons hsucceeds hall⟩
      · rw [hf]
        exact .inr ⟨f, rfl, o :: before, o', after, r :: replies, rfl, .cons hsucceeds hbefore,
          hfails⟩
    · rw [hf]
      exact .inr ⟨f, rfl, [], o, rest, [], rfl, .nil, hfails⟩

/-! ## The first success -/

/-- The node has given no reply that is wanted. -/
def Disappoints (wanted : Reply → Bool) (o : Outcome) : Prop :=
  ∀ r, Succeeds o r → wanted r = false

theorem disappoints_of_fails {wanted : Reply → Bool} {o : Outcome} {f : Fault} (h : Fails o f) :
    Disappoints wanted o := by
  rintro r ⟨hr, hclean⟩
  rcases h with hf | ⟨r', e, hr', hfirst, -⟩
  · rw [hf] at hr
    cases hr
  · obtain rfl : r' = r := Except.ok.inj (hr'.symm.trans hr)
    exact absurd (Reply.carries_of_firstError r' hfirst) (hclean e)

theorem disappoints_of_succeeds {wanted : Reply → Bool} {o : Outcome} {r : Reply}
    (h : Succeeds o r) (hunwanted : wanted r = false) : Disappoints wanted o := by
  rintro r' ⟨hr', -⟩
  obtain rfl : r = r' := Except.ok.inj (h.1.symm.trans hr')
  exact hunwanted

/-- What a search for a wanted reply comes to. -/
inductive Found (wanted : Reply → Bool) (otherwise : Except Fault Reply)
    (outcomes : List Outcome) : Except Fault Reply → Prop
  | wanted {before after : List Outcome} {o : Outcome} {r : Reply}
      (before_ : ∀ b ∈ before, Disappoints wanted b) (succeeds : Succeeds o r)
      (wanted_ : wanted r = true) (outcomes_ : outcomes = before ++ o :: after) :
      Found wanted otherwise outcomes (.ok r)
  | failure {before after : List Outcome} {o : Outcome} {f : Fault}
      (before_ : ∀ b ∈ before, Disappoints wanted b) (fails : Fails o f)
      (after_ : ∀ a ∈ after, ∃ r, Succeeds a r ∧ wanted r = false)
      (outcomes_ : outcomes = before ++ o :: after) : Found wanted otherwise outcomes (.error f)
  | nothing (all : ∀ o ∈ outcomes, ∃ r, Succeeds o r ∧ wanted r = false) :
      Found wanted otherwise outcomes otherwise

variable {wanted : Reply → Bool} {otherwise result : Except Fault Reply} {o : Outcome}
  {rest : List Outcome}

theorem Found.skip {r : Reply} (h : Found wanted otherwise rest result) (hr : Succeeds o r)
    (hunwanted : wanted r = false) : Found wanted otherwise (o :: rest) result := by
  have hfirst : Disappoints wanted o := disappoints_of_succeeds hr hunwanted
  cases h with
  | wanted hbefore hsucceeds hwanted hrest =>
    subst hrest
    exact .wanted (List.forall_mem_cons.mpr ⟨hfirst, hbefore⟩) hsucceeds hwanted rfl
  | failure hbefore hfails hafter hrest =>
    subst hrest
    exact .failure (List.forall_mem_cons.mpr ⟨hfirst, hbefore⟩) hfails hafter rfl
  | nothing hall => exact .nothing (List.forall_mem_cons.mpr ⟨⟨r, hr, hunwanted⟩, hall⟩)

theorem Found.fail {f : Fault} (h : Found wanted (.error f) rest result) (hf : Fails o f) :
    Found wanted otherwise (o :: rest) result := by
  have hfirst : Disappoints wanted o := disappoints_of_fails hf
  -- It is the result only if nothing behind it is wanted and nothing behind it fails.
  cases h with
  | wanted hbefore hsucceeds hwanted hrest =>
    subst hrest
    exact .wanted (List.forall_mem_cons.mpr ⟨hfirst, hbefore⟩) hsucceeds hwanted rfl
  | failure hbefore hfails hafter hrest =>
    subst hrest
    exact .failure (List.forall_mem_cons.mpr ⟨hfirst, hbefore⟩) hfails hafter rfl
  | nothing hall => exact .failure (List.forall_mem_nil _) hf hall rfl

theorem found_firstSuccess (wanted : Reply → Bool) (otherwise : Except Fault Reply)
    (outcomes : List Outcome) :
    Found wanted otherwise outcomes (firstSuccess wanted otherwise outcomes) := by
  induction outcomes generalizing otherwise with
  | nil => exact .nothing (by simp)
  | cons o rest ih =>
    rw [firstSuccess]
    obtain ⟨r, hr, hsucceeds⟩ | ⟨f, hf, hfails⟩ := success_cases o
    · rw [hr]
      simp only
      split
      · next hwanted => exact .wanted (List.forall_mem_nil _) hsucceeds hwanted rfl
      · next hunwanted => exact (ih otherwise).skip hsucceeds (by simpa using hunwanted)
    · rw [hf]
      exact (ih (.error f)).fail hfails

/-! ## Arrays -/

/-- The elements of an array. Nil counts as empty. -/
inductive Holds : Reply → List Reply → Prop
  | array (items : List Reply) : Holds (.array items) items
  | nil : Holds .nil []

theorem concatenation_cases (replies : List Reply) :
    (∃ lists, List.Forall₂ Holds replies lists ∧ concatenation replies = .ok lists.flatten) ∨
      (∃ r ∈ replies, ∀ items, ¬ Holds r items) ∧ concatenation replies = .error notArrays := by
  induction replies with
  | nil => exact .inl ⟨[], .nil, rfl⟩
  | cons r rest ih =>
    have hextend : ∀ items, Holds r items →
        concatenation (r :: rest) = (concatenation rest).map (items ++ ·) →
        (∃ lists, List.Forall₂ Holds (r :: rest) lists ∧
            concatenation (r :: rest) = .ok lists.flatten) ∨
          (∃ r' ∈ r :: rest, ∀ items, ¬ Holds r' items) ∧
            concatenation (r :: rest) = .error notArrays := by
      intro items hitems heq
      rw [heq]
      obtain ⟨lists, hlists, hrest⟩ | ⟨⟨r', hr', hnone⟩, hrest⟩ := ih
      · rw [hrest]
        exact .inl ⟨items :: lists, .cons hitems hlists, rfl⟩
      · rw [hrest]
        exact .inr ⟨⟨r', List.mem_cons_of_mem _ hr', hnone⟩, rfl⟩
    cases r with
    | array items => exact hextend items (.array items) rfl
    | nil =>
      refine hextend [] .nil ?_
      rw [concatenation]
      cases concatenation rest <;> rfl
    | _ => exact .inr ⟨⟨_, List.mem_cons_self, nofun⟩, rfl⟩

/-! ## Agreement -/

theorem agreed_cases (first : Reply) (rest : List Reply) :
    ((∀ r ∈ rest, (r == first) = true) ∧ agreed (first :: rest) = .ok first) ∨
      ∃ before other after, rest = before ++ other :: after ∧
        (∀ r ∈ before, (r == first) = true) ∧ (other == first) = false ∧
        agreed (first :: rest) = .error (answersDiffer first other) := by
  rw [agreed]
  cases hfind : rest.find? fun r => !(r == first) with
  | none => exact .inl ⟨fun r hr => by simpa using List.find?_eq_none.mp hfind r hr, rfl⟩
  | some other =>
    obtain ⟨hdiffers, before, after, rfl, hbefore⟩ := List.find?_eq_some_iff_append.mp hfind
    refine .inr ⟨before, other, after, rfl, fun r hr => ?_, by simpa using hdiffers, rfl⟩
    simpa using hbefore r hr

/-! ## Entries -/

/-- The entry of an outcome that is a reply, whatever it says. -/
def Enters (o : Outcome) (entry : Reply × Reply) : Prop :=
  ∃ r, o.2 = .ok r ∧ entry = (.bulk (Bytes.ofText o.1), r)

theorem entries_cases (outcomes : List Outcome) :
    (∃ es, List.Forall₂ Enters outcomes es ∧ entries outcomes = .ok es) ∨
      ∃ before o after es f, outcomes = before ++ o :: after ∧ List.Forall₂ Enters before es ∧
        o.2 = .error f ∧ entries outcomes = .error f := by
  induction outcomes with
  | nil => exact .inl ⟨[], .nil, rfl⟩
  | cons o rest ih =>
    obtain ⟨node, f | r⟩ := o
    · exact .inr ⟨[], _, rest, [], f, rfl, .nil, rfl, rfl⟩
    have henters : Enters (node, .ok r) (.bulk (Bytes.ofText node), r) := ⟨r, rfl, rfl⟩
    rw [entries]
    obtain ⟨es, hes, hrest⟩ | ⟨before, o, after, es, f, rfl, hbefore, hf, hrest⟩ := ih
    · rw [hrest]
      exact .inl ⟨_, .cons henters hes, rfl⟩
    · rw [hrest]
      exact .inr ⟨_ :: before, o, after, _, f, rfl, .cons henters hbefore, hf, rfl⟩

/-! ## Policies -/

end Merge

def MergePolicy.NeedsAll : MergePolicy → Prop
  | .oneSucceeded | .firstNonEmpty => False
  | _ => True

namespace Merge

/-- What a policy that needs all nodes makes of their replies. -/
inductive Unites : MergePolicy → List Reply → Except Fault Reply → Prop
  | first {r : Reply} {rest : List Reply} : Unites .allSucceeded (r :: rest) (.ok r)
  | agreed {r : Reply} {rest : List Reply} (same : ∀ r' ∈ rest, (r' == r) = true) :
      Unites .allEqual (r :: rest) (.ok r)
  | disagreed {r other : Reply} {before after : List Reply}
      (same : ∀ r' ∈ before, (r' == r) = true) (differs : (other == r) = false) :
      Unites .allEqual (r :: (before ++ other :: after)) (.error (answersDiffer r other))
  | number {rule : NumberRule} {replies : List Reply} {n : Int64} (counts : Counts rule replies n) :
      Unites (.number rule) replies (.ok (.int n))
  | noNumber {rule : NumberRule} {replies : List Reply} {f : Fault}
      (none_ : ∀ n, ¬ Counts rule replies n) (kind : f.kind = .unexpectedReply) :
      Unites (.number rule) replies (.error f)
  | logical {rule : LogicRule} {replies : List Reply} {bits : List Bool}
      (weighs : Weighs rule replies bits) : Unites (.logical rule) replies (.ok (ofBits bits))
  | notLogical {rule : LogicRule} {replies : List Reply} {f : Fault}
      (none_ : ∀ bits, ¬ Weighs rule replies bits) (kind : f.kind = .unexpectedReply) :
      Unites (.logical rule) replies (.error f)
  | combined {replies : List Reply} {lists : List (List Reply)}
      (holds : List.Forall₂ Holds replies lists) :
      Unites .combineArrays replies (.ok (.array lists.flatten))
  | notArrays {replies : List Reply} (other : ∃ r ∈ replies, ∀ items, ¬ Holds r items) :
      Unites .combineArrays replies (.error notArrays)

/-- What comes of the outcomes at the nodes, in their order, under a policy or under none. -/
inductive Follows : Option MergePolicy → List Outcome → Except Fault Reply → Prop
  | nobody {policy : Option MergePolicy} : Follows policy [] (.error .noTargets)
  | failed {policy : MergePolicy} {outcomes : List Outcome} {f : Fault} (all : policy.NeedsAll)
      (fails : FailsFirst outcomes f) : Follows (some policy) outcomes (.error f)
  | united {policy : MergePolicy} {outcomes : List Outcome} {replies : List Reply}
      {result : Except Fault Reply} (all : policy.NeedsAll) (some_ : outcomes ≠ [])
      (succeed : Succeed outcomes replies) (unites : Unites policy replies result) :
      Follows (some policy) outcomes result
  /-- The first success, whatever the others say. -/
  | oneSucceeded {before after : List Outcome} {o : Outcome} {r : Reply}
      (before_ : ∀ b ∈ before, ∃ f, Fails b f) (succeeds : Succeeds o r) :
      Follows (some .oneSucceeded) (before ++ o :: after) (.ok r)
  | noneSucceeded {before : List Outcome} {o : Outcome} {f : Fault}
      (before_ : ∀ b ∈ before, ∃ f, Fails b f) (fails : Fails o f) :
      Follows (some .oneSucceeded) (before ++ [o]) (.error f)
  /-- The first success that is not nil. Failures before it do not count. -/
  | firstNonEmpty {before after : List Outcome} {o : Outcome} {r : Reply}
      (before_ : ∀ b ∈ before, ∀ r', Succeeds b r' → isNil r' = true) (succeeds : Succeeds o r)
      (some_ : isNil r = false) : Follows (some .firstNonEmpty) (before ++ o :: after) (.ok r)
  | allEmpty {outcomes : List Outcome} (some_ : outcomes ≠ [])
      (all : ∀ o ∈ outcomes, Succeeds o .nil) : Follows (some .firstNonEmpty) outcomes (.ok .nil)
  /-- The last failure. After it there is only nil. -/
  | noneNonEmpty {before after : List Outcome} {o : Outcome} {f : Fault}
      (before_ : ∀ b ∈ before, ∀ r', Succeeds b r' → isNil r' = true) (fails : Fails o f)
      (after_ : ∀ a ∈ after, Succeeds a .nil) :
      Follows (some .firstNonEmpty) (before ++ o :: after) (.error f)
  /-- Without a policy error replies are entries like others. -/
  | listed {outcomes : List Outcome} {es : List (Reply × Reply)} (some_ : outcomes ≠ [])
      (enter : List.Forall₂ Enters outcomes es) : Follows none outcomes (.ok (.map es))
  | unlisted {before after : List Outcome} {o : Outcome} {es : List (Reply × Reply)} {f : Fault}
      (enter : List.Forall₂ Enters before es) (fails : o.2 = .error f) :
      Follows none (before ++ o :: after) (.error f)

theorem fails_of_disappoints {o : Outcome} (h : Disappoints (fun _ => true) o) :
    ∃ f, Fails o f := by
  obtain ⟨r, -, hr⟩ | ⟨f, -, hf⟩ := success_cases o
  · cases h r hr
  · exact ⟨f, hf⟩

theorem follows_oneSucceeded {outcomes : List Outcome} (hsome : outcomes ≠ []) :
    Follows (some .oneSucceeded) outcomes (byPolicy outcomes .oneSucceeded) := by
  have hfound := found_firstSuccess (fun _ => true) (.error noAnswer) outcomes
  rw [byPolicy]
  generalize firstSuccess (fun _ => true) (.error noAnswer) outcomes = result at hfound ⊢
  cases hfound with
  | wanted hbefore hsucceeds _ houtcomes =>
    subst houtcomes
    exact .oneSucceeded (fun b hb => fails_of_disappoints (hbefore b hb)) hsucceeds
  | @failure before after o f hbefore hfails hafter houtcomes =>
    subst houtcomes
    -- A node after the last failure would have given a reply, and any reply is wanted.
    obtain rfl : after = [] := by
      refine List.eq_nil_iff_forall_not_mem.mpr fun a ha => ?_
      obtain ⟨r, -, hunwanted⟩ := hafter a ha
      cases hunwanted
    exact .noneSucceeded (fun b hb => fails_of_disappoints (hbefore b hb)) hfails
  | nothing hall =>
    obtain ⟨o, ho⟩ := List.exists_mem_of_ne_nil outcomes hsome
    obtain ⟨r, -, hunwanted⟩ := hall o ho
    cases hunwanted

theorem follows_firstNonEmpty {outcomes : List Outcome} (hsome : outcomes ≠ []) :
    Follows (some .firstNonEmpty) outcomes (byPolicy outcomes .firstNonEmpty) := by
  have hfound := found_firstSuccess (fun r => !isNil r) (.ok .nil) outcomes
  rw [byPolicy]
  generalize firstSuccess (fun r => !isNil r) (.ok .nil) outcomes = result at hfound ⊢
  have hnil : ∀ a, (∃ r, Succeeds a r ∧ (!isNil r) = false) → Succeeds a .nil := by
    rintro a ⟨r, hr, hunwanted⟩
    cases r with
    | nil => exact hr
    | _ => cases hunwanted
  have hempty : ∀ b, Disappoints (fun r => !isNil r) b → ∀ r, Succeeds b r → isNil r = true :=
    fun b hb r hr => by simpa using hb r hr
  cases hfound with
  | wanted hbefore hsucceeds hwanted houtcomes =>
    subst houtcomes
    exact .firstNonEmpty (fun b hb => hempty b (hbefore b hb)) hsucceeds (by simpa using hwanted)
  | failure hbefore hfails hafter houtcomes =>
    subst houtcomes
    exact .noneNonEmpty (fun b hb => hempty b (hbefore b hb)) hfails
      fun a ha => hnil a (hafter a ha)
  | nothing hall => exact .allEmpty hsome fun o ho => hnil o (hall o ho)

theorem follows_all (policy : MergePolicy) (hneeds : policy.NeedsAll) {outcomes : List Outcome}
    (hsome : outcomes ≠ []) {g : List Reply → Except Fault Reply}
    (hpolicy : byPolicy outcomes policy = (allSuccesses outcomes).bind g)
    (hunites : ∀ replies, replies ≠ [] → Unites policy replies (g replies)) :
    Follows (some policy) outcomes (byPolicy outcomes policy) := by
  rw [hpolicy]
  obtain ⟨replies, hreplies, hsucceed⟩ | ⟨f, hf, hfails⟩ := allSuccesses_cases outcomes
  · rw [hreplies]
    refine .united hneeds hsome hsucceed (hunites replies ?_)
    rintro rfl
    exact hsome (List.forall₂_nil_right_iff.mp hsucceed)
  · rw [hf]
    exact .failed hneeds hfails

theorem follows_byPolicy {outcomes : List Outcome} (hsome : outcomes ≠ []) (policy : MergePolicy) :
    Follows (some policy) outcomes (byPolicy outcomes policy) := by
  cases policy with
  | oneSucceeded => exact follows_oneSucceeded hsome
  | firstNonEmpty => exact follows_firstNonEmpty hsome
  | allSucceeded =>
    refine follows_all .allSucceeded trivial hsome (g := fun rs => .ok (rs.headD .nil)) ?_ ?_
    · rw [byPolicy]
      cases allSuccesses outcomes <;> rfl
    · rintro (_ | ⟨r, rest⟩) hne
      · exact absurd rfl hne
      · exact .first
  | allEqual =>
    refine follows_all .allEqual trivial hsome (g := Merge.agreed) rfl ?_
    rintro (_ | ⟨r, rest⟩) hne
    · exact absurd rfl hne
    obtain ⟨hsame, hagreed⟩ | ⟨before, other, after, rfl, hsame, hdiffers, hagreed⟩ :=
      agreed_cases r rest
    · rw [hagreed]
      exact .agreed hsame
    · rw [hagreed]
      exact .disagreed hsame hdiffers
  | number rule =>
    refine follows_all (.number rule) trivial hsome (g := numbers rule) rfl fun replies hne => ?_
    obtain ⟨n, hn, hcounts⟩ | ⟨f, hf, hkind, hnone⟩ := numbers_cases rule hne
    · rw [hn]
      exact .number hcounts
    · rw [hf]
      exact .noNumber hnone hkind
  | logical rule =>
    refine follows_all (.logical rule) trivial hsome (g := Merge.logical rule) rfl
      fun replies _ => ?_
    obtain ⟨bits, hbits, hweighs⟩ | ⟨f, hf, hkind, hnone⟩ := logical_cases rule replies
    · rw [hbits]
      exact .logical hweighs
    · rw [hf]
      exact .notLogical hnone hkind
  | combineArrays =>
    refine follows_all .combineArrays trivial hsome (g := fun rs => (concatenation rs).map .array)
      rfl fun replies _ => ?_
    obtain ⟨lists, hlists, hconcatenation⟩ | ⟨hother, hconcatenation⟩ := concatenation_cases replies
    · rw [hconcatenation]
      exact .combined hlists
    · rw [hconcatenation]
      exact .notArrays hother

/-- A merge keeps to the rules, whatever the nodes have answered. -/
theorem follows_merge (policy : Option MergePolicy) (outcomes : List Outcome) :
    Follows policy outcomes (merge policy outcomes) := by
  unfold merge
  cases outcomes with
  | nil => exact .nobody
  | cons o rest =>
    simp only [List.isEmpty_cons, Bool.false_eq_true, if_false]
    cases policy with
    | some policy => exact follows_byPolicy (List.cons_ne_nil o rest) policy
    | none =>
      obtain ⟨es, henter, hes⟩ | ⟨before, o', after, es, f, hsplit, henter, hf, herror⟩ :=
        entries_cases (o :: rest)
      · rw [hes]
        exact .listed (List.cons_ne_nil o rest) henter
      · rw [herror, hsplit]
        exact .unlisted henter hf

end Merge

end SlotCluster
