import SlotCluster.Proofs.Canned
import SlotCluster.Proofs.Contacts
import SlotCluster.Proofs.PlainRequests
import SlotCluster.Proofs.Spellings

/-!
# The attempts of a request

The notes that a request keeps are used up by the attempt that follows them. So where an attempt
goes, and whether it asks, depends on the outcome of the attempt before it and on nothing older.
-/

namespace SlotCluster

variable {σ : Type}

/-! ## Outcomes -/

namespace ServerError

/-- The error sends the client elsewhere, asks it to wait, or says that the cluster is down. -/
def IsUrgent (e : ServerError) : Prop :=
  e.kind? = some .moved ∨ e.kind? = some .ask ∨ e.kind? = some .tryAgain ∨
    e.kind? = some .clusterDown

theorem needsAction_iff {e : ServerError} : e.needsAction = true ↔ e.IsUrgent := by
  cases e with
  | known kind detail =>
    cases kind <;> simp [needsAction, advice, ServerErrorKind.advice, IsUrgent, kind?]
  | extension code detail => simp [needsAction, advice, IsUrgent, kind?]

/-- The detail of the error begins with a slot and an address. -/
def PointsTo (e : ServerError) (r : Redirect) : Prop :=
  ∃ detail numeral rest, e.detail? = some detail ∧
    Blank.asciiWords detail = numeral :: r.address :: rest ∧
    Decimal.IsUnsigned (Bytes.ofText numeral) r.slot.toNat

theorem PointsTo.unique {e : ServerError} {r r' : Redirect} (h : e.PointsTo r)
    (h' : e.PointsTo r') : r = r' := by
  obtain ⟨slot, address⟩ := r
  obtain ⟨slot', address'⟩ := r'
  obtain ⟨detail, numeral, rest, hdetail, hwords, hslot⟩ := h
  obtain ⟨detail', numeral', rest', hdetail', hwords', hslot'⟩ := h'
  obtain rfl := Option.some.inj (hdetail.symm.trans hdetail')
  obtain ⟨rfl, rfl, rfl⟩ : numeral = numeral' ∧ address = address' ∧ rest = rest' := by
    simpa using hwords.symm.trans hwords'
  obtain rfl : slot = slot' := Option.some.inj
    ((Decimal.readUInt16?_eq_some_iff.mpr hslot).symm.trans
      (Decimal.readUInt16?_eq_some_iff.mpr hslot'))
  rfl

theorem redirect?_eq_some_iff {e : ServerError} {r : Redirect} :
    e.redirect? = some r ↔ (e.kind? = some .moved ∨ e.kind? = some .ask) ∧ e.PointsTo r := by
  unfold redirect?
  split
  · next hkind =>
    rw [and_iff_right hkind]
    constructor
    · intro h
      split at h
      · next numeral address rest hwords =>
        obtain ⟨slot, hslot, rfl⟩ := Option.map_eq_some_iff.mp h
        cases hdetail : e.detail? with
        | none => simp [hdetail] at hwords
        | some detail =>
          have hdetailWords : Blank.asciiWords detail = numeral :: address :: rest := by
            simpa [hdetail] using hwords
          exact ⟨detail, numeral, rest, hdetail, hdetailWords,
            Decimal.readUInt16?_eq_some_iff.mp hslot⟩
      · cases h
    · rintro ⟨detail, numeral, rest, hdetail, hwords, hslot⟩
      simp [hdetail, hwords, Decimal.readUInt16?_eq_some_iff.mpr hslot]
  · next hkind => simp [hkind]

end ServerError

namespace Attempt

/-- What a request has to face after an attempt: the fault that ended it, the error that is its
only reply, or of several replies the first that is an urgent error. -/
inductive Faces : Except Fault (List Reply) → Fault → Prop
  | failed (f : Fault) : Faces (.error f) f
  | alone (e : ServerError) : Faces (.ok [.error e]) (.server e)
  | among {replies front back : List Reply} {e : ServerError}
      (split : replies = front ++ .error e :: back) (urgent : e.IsUrgent)
      (first : ∀ e', .error e' ∈ front → ¬ e'.IsUrgent) : Faces (.ok replies) (.server e)

theorem find?_needsAction_iff {replies : List Reply} {e : ServerError} :
    (replies.filterMap Reply.error?).find? ServerError.needsAction = some e ↔
      ∃ front back, replies = front ++ .error e :: back ∧ e.IsUrgent ∧
        ∀ e', .error e' ∈ front → ¬ e'.IsUrgent := by
  have herror : ∀ r : Reply, r.error? = some e ↔ r = .error e := by
    intro r
    cases r <;> simp [Reply.error?]
  have hurgent : (r : Reply) → r.error?.any ServerError.needsAction = true ↔
      ∃ e', r = .error e' ∧ e'.IsUrgent := by
    intro r
    cases r <;> simp [Reply.error?, ServerError.needsAction_iff]
  rw [List.find?_filterMap, Option.bind_eq_some_iff]
  constructor
  · rintro ⟨r, hfind, hr⟩
    obtain rfl := (herror r).mp hr
    obtain ⟨hneeds, front, back, rfl, hfront⟩ := List.find?_eq_some_iff_append.mp hfind
    obtain ⟨_, ⟨⟩, he⟩ := (hurgent _).mp hneeds
    refine ⟨front, back, rfl, he, fun e' hmem he' => ?_⟩
    have hnot := hfront _ hmem
    rw [(hurgent _).mpr ⟨e', rfl, he'⟩] at hnot
    cases hnot
  · rintro ⟨front, back, rfl, he, hfront⟩
    refine ⟨.error e, List.find?_eq_some_iff_append.mpr ⟨(hurgent _).mpr ⟨e, rfl, he⟩,
      front, back, rfl, fun r hr => ?_⟩, rfl⟩
    rw [Bool.not_eq_true', Bool.eq_false_iff, Ne, hurgent]
    rintro ⟨e', rfl, he'⟩
    exact hfront e' hr he'

theorem decisive_iff {replies : List Reply} {e : ServerError} :
    decisive replies = some e ↔ Faces (.ok replies) (.server e) := by
  unfold decisive
  split
  · next r =>
    constructor
    · intro h
      cases r <;> cases h
      exact .alone e
    · rintro (_ | _ | ⟨hsplit, -, -⟩)
      · rfl
      · obtain ⟨rfl, ⟨⟩⟩ | ⟨-, ⟨⟩⟩ := List.append_eq_singleton_iff.mp hsplit.symm
        rfl
  · next hmany =>
    rw [find?_needsAction_iff]
    constructor
    · rintro ⟨front, back, hsplit, hurgent, hfirst⟩
      exact .among hsplit hurgent hfirst
    · rintro (_ | _ | ⟨hsplit, hurgent, hfirst⟩)
      · exact absurd rfl (hmany _)
      · exact ⟨_, _, hsplit, hurgent, hfirst⟩

theorem faces_iff {outcome : Except Fault (List Reply)} {f : Fault} :
    Faces outcome f ↔ fault? outcome = some f := by
  cases outcome with
  | error g =>
    constructor
    · rintro ⟨⟩
      rfl
    · rintro ⟨⟩
      exact .failed _
  | ok replies =>
    rw [fault?, Option.map_eq_some_iff]
    constructor
    · intro h
      obtain ⟨e, rfl⟩ : ∃ e, f = .server e := by cases h <;> exact ⟨_, rfl⟩
      exact ⟨e, decisive_iff.mpr h, rfl⟩
    · rintro ⟨e, hdecisive, rfl⟩
      exact decisive_iff.mp hdecisive

theorem Faces.unique {outcome : Except Fault (List Reply)} {f g : Fault} (hf : Faces outcome f)
    (hg : Faces outcome g) : f = g :=
  Option.some.inj ((faces_iff.mp hf).symm.trans (faces_iff.mp hg))

end Attempt

/-! ## Cues -/

/-- What an attempt follows. -/
inductive Cue
  | route
  | random
  | moved (r : Redirect)
  | ask (r : Redirect)

namespace Cue

def isAsking : Cue → Bool
  | ask _ => true
  | _ => false

def direction : Cue → Direction
  | route => .route
  | random => .random
  | moved r | ask r => .address r.address

def effect : Cue → Effect
  | moved r => .move r
  | _ => .none

/-- What the next attempt follows after a fault. After any other fault there is none. -/
inductive Answers : Cue → Fault → Prop
  | failed (kind : IoKind) (text : Option String) : Answers random (.io kind text)
  | broken (summary : String) (detail : Option String) : Answers random (.cause .io summary detail)
  | unread (summary : String) (detail : Option String) :
      Answers random (.cause .parse summary detail)
  | waits (detail : Option String) : Answers route (.server (.known .tryAgain detail))
  | moved {detail : Option String} {r : Redirect}
      (points : (ServerError.known .moved detail).PointsTo r) :
      Answers (moved r) (.server (.known .moved detail))
  | asks {detail : Option String} {r : Redirect}
      (points : (ServerError.known .ask detail).PointsTo r) :
      Answers (ask r) (.server (.known .ask detail))

/-- The attempt after this outcome follows the cue. -/
def Follows (cue : Cue) (outcome : Except Fault (List Reply)) : Prop :=
  ∃ f, Attempt.Faces outcome f ∧ cue.Answers f

theorem Answers.unique {f : Fault} {cue cue' : Cue} (h : cue.Answers f) (h' : cue'.Answers f) :
    cue = cue' := by
  cases h with
  | failed | broken | unread | waits =>
    cases h'
    rfl
  | moved hpoints =>
    cases h' with
    | moved hpoints' => rw [hpoints.unique hpoints']
  | asks hpoints =>
    cases h' with
    | asks hpoints' => rw [hpoints.unique hpoints']

theorem Follows.unique {outcome : Except Fault (List Reply)} {cue cue' : Cue}
    (h : cue.Follows outcome) (h' : cue'.Follows outcome) : cue = cue' := by
  obtain ⟨f, hf, hcue⟩ := h
  obtain ⟨g, hg, hcue'⟩ := h'
  obtain rfl := hf.unique hg
  exact hcue.unique hcue'

theorem Follows.isAsking_iff {outcome : Except Fault (List Reply)} {cue : Cue}
    (h : cue.Follows outcome) :
    cue.isAsking = true ↔ ∃ detail, Attempt.Faces outcome (.server (.known .ask detail)) := by
  obtain ⟨f, hf, hcue⟩ := h
  constructor
  · intro hasking
    cases hcue with
    | asks => exact ⟨_, hf⟩
    | failed | broken | unread | waits | moved => cases hasking
  · rintro ⟨detail, hask⟩
    obtain rfl := hask.unique hf
    cases hcue
    rfl

/-- The notes tell the next attempt to follow this, and nothing else. -/
def IsNotedIn (st : RetryState) : Cue → Prop
  | route => st.redirect = none ∧ st.tryRandom = false
  | random => st.redirect = none ∧ st.tryRandom = true
  | moved r => st.redirect = some (.moved r.address) ∧ st.tryRandom = false
  | ask r => st.redirect = some (.ask r.address) ∧ st.tryRandom = false

theorem aim_eq {st : RetryState} {cue : Cue} (h : cue.IsNotedIn st) :
    st.aim = (cue.direction, ⟨none, cue.isAsking, false⟩) := by
  obtain ⟨redirect, asking, tryRandom⟩ := st
  cases cue
  all_goals
    obtain ⟨hredirect, hrandom⟩ := h
    simp only at hredirect hrandom
    subst hredirect hrandom
    simp [RetryState.aim, direction, isAsking]

end Cue

/-! ## Verdicts -/

/-- The pause before an attempt with this cue, after which so many are left. -/
def Cue.pause (s : Settings) (left : Nat) : Cue → Option Nat
  | route => Attempt.pause s left s.tryAgainPause
  | random => Attempt.pause s left s.connectionErrorPause
  | moved _ | ask _ => none

namespace Attempt

/-- No attempt comes after this outcome. -/
def IsFinal (outcome : Except Fault (List Reply)) : Prop := ∀ cue : Cue, ¬ cue.Follows outcome

/-- What a request gives that ends with this outcome. -/
inductive Gives (outcome : Except Fault (List Reply)) : Except Fault (List Reply) → Prop
  | fault {f : Fault} (faces : Faces outcome f) : Gives outcome (.error f)
  | replies (clear : ∀ f, ¬ Faces outcome f) : Gives outcome outcome

theorem Gives.unique {outcome r r' : Except Fault (List Reply)} (h : Gives outcome r)
    (h' : Gives outcome r') : r = r' := by
  cases h with
  | fault hf =>
    cases h' with
    | fault hg => rw [hf.unique hg]
    | replies hclear => exact absurd hf (hclear _)
  | replies hclear =>
    cases h' with
    | fault hg => exact absurd hg (hclear _)
    | replies _ => rfl

theorem Gives.eq_error {outcome result : Except Fault (List Reply)} {f : Fault}
    (h : Gives outcome result) (hf : Faces outcome f) : result = .error f :=
  h.unique (.fault hf)

/-- The outcome calls for a new start: the cluster is down, or there is no way to it. -/
def StartsOver (outcome : Except Fault (List Reply)) : Prop :=
  ∃ f, Faces outcome f ∧
    ((∃ detail, f = .server (.known .clusterDown detail)) ∨ f.kind = .clusterUnreachable)

theorem advice_eq_startOver_iff {f : Fault} : advice f = .startOver ↔
    (∃ detail, f = .server (.known .clusterDown detail)) ∨ f.kind = .clusterUnreachable := by
  cases f with
  | cause kind summary detail =>
    cases kind <;> simp [advice, Fault.isIo, Fault.kind, Fault.advice, FaultKind.advice]
  | io kind text => simp [advice, Fault.isIo, Fault.kind]
  | server error =>
    cases error with
    | extension code detail =>
      simp [advice, Fault.isIo, Fault.kind, Fault.advice, ServerError.advice]
    | known kind detail =>
      cases kind <;>
        simp [advice, Fault.isIo, Fault.kind, Fault.advice, ServerError.advice,
          ServerErrorKind.advice]

theorem judgeFault_of_cue (s : Settings) (left : Nat) (asking : Bool) {f : Fault} {cue : Cue}
    (h : cue.Answers f) :
    cue.IsNotedIn (judgeFault s left ⟨none, asking, false⟩ f).state ∧
      (judgeFault s left ⟨none, asking, false⟩ f).effect = cue.effect ∧
      (judgeFault s left ⟨none, asking, false⟩ f).next = again left f (cue.pause s left) := by
  cases h with
  | failed | broken | unread | waits => exact ⟨⟨rfl, rfl⟩, rfl, rfl⟩
  | @moved detail r hpoints =>
    have hadvice : advice (.server (.known .moved detail)) = .followMoved := rfl
    have hredirect : (Fault.server (.known .moved detail)).redirect? = some r :=
      ServerError.redirect?_eq_some_iff.mpr ⟨.inl rfl, hpoints⟩
    unfold judgeFault
    rw [hadvice, hredirect]
    exact ⟨⟨rfl, rfl⟩, rfl, rfl⟩
  | @asks detail r hpoints =>
    have hadvice : advice (.server (.known .ask detail)) = .followAsk := rfl
    have hredirect : (Fault.server (.known .ask detail)).redirect? = some r :=
      ServerError.redirect?_eq_some_iff.mpr ⟨.inr rfl, hpoints⟩
    unfold judgeFault
    rw [hadvice, hredirect]
    exact ⟨⟨rfl, rfl⟩, rfl, rfl⟩

theorem judgeFault_of_no_cue (s : Settings) (left : Nat) (st : RetryState) {f : Fault}
    (h : ∀ cue : Cue, ¬ cue.Answers f) :
    (judgeFault s left st f).next = .done (.error f) ∧
      (judgeFault s left st f).effect = if advice f = .startOver then .startOver else .none := by
  cases f with
  | cause kind summary detail =>
    cases kind
    case io => exact absurd (.broken summary detail) (h _)
    case parse => exact absurd (.unread summary detail) (h _)
    all_goals exact ⟨rfl, rfl⟩
  | io kind text => exact absurd (.failed kind text) (h _)
  | server error =>
    cases error with
    | extension code detail => exact ⟨rfl, rfl⟩
    | known kind detail =>
      cases kind
      case moved =>
        have hredirect : (Fault.server (.known .moved detail)).redirect? = none :=
          Option.eq_none_iff_forall_not_mem.mpr fun r hr =>
            h _ (.moved (ServerError.redirect?_eq_some_iff.mp hr).2)
        have hadvice : advice (.server (.known .moved detail)) = .followMoved := rfl
        unfold judgeFault
        rw [hadvice, hredirect]
        exact ⟨rfl, rfl⟩
      case ask =>
        have hredirect : (Fault.server (.known .ask detail)).redirect? = none :=
          Option.eq_none_iff_forall_not_mem.mpr fun r hr =>
            h _ (.asks (ServerError.redirect?_eq_some_iff.mp hr).2)
        have hadvice : advice (.server (.known .ask detail)) = .followAsk := rfl
        unfold judgeFault
        rw [hadvice, hredirect]
        exact ⟨rfl, rfl⟩
      case tryAgain => exact absurd (.waits detail) (h _)
      all_goals exact ⟨rfl, rfl⟩

theorem judge_of_cue (s : Settings) (left : Nat) (asking : Bool)
    {outcome : Except Fault (List Reply)} {cue : Cue} (h : cue.Follows outcome) :
    ∃ f, Faces outcome f ∧ cue.IsNotedIn (judge s left ⟨none, asking, false⟩ outcome).state ∧
      (judge s left ⟨none, asking, false⟩ outcome).effect = cue.effect ∧
      (judge s left ⟨none, asking, false⟩ outcome).next = again left f (cue.pause s left) := by
  obtain ⟨f, hf, hcue⟩ := h
  refine ⟨f, hf, ?_⟩
  unfold judge
  rw [faces_iff.mp hf]
  exact judgeFault_of_cue s left asking hcue

theorem judge_of_final (s : Settings) (left : Nat) (st : RetryState)
    {outcome : Except Fault (List Reply)} (h : IsFinal outcome) :
    ∃ result, Gives outcome result ∧ (judge s left st outcome).next = .done result ∧
      ((¬ StartsOver outcome ∧ (judge s left st outcome).effect = .none) ∨
        (StartsOver outcome ∧ (judge s left st outcome).effect = .startOver)) := by
  unfold judge
  cases hfault : fault? outcome with
  | none =>
    have hclear : ∀ f, ¬ Faces outcome f := by simp [faces_iff, hfault]
    exact ⟨outcome, .replies hclear, rfl, .inl ⟨fun ⟨f, hf, _⟩ => hclear f hf, rfl⟩⟩
  | some f =>
    have hf := faces_iff.mpr hfault
    have hcue : ∀ cue : Cue, ¬ cue.Answers f := fun cue hcue => h cue ⟨f, hf, hcue⟩
    obtain ⟨hnext, heffect⟩ := judgeFault_of_no_cue s left st hcue
    refine ⟨.error f, .fault hf, hnext, ?_⟩
    split at heffect
    · next hover => exact .inr ⟨⟨f, hf, advice_eq_startOver_iff.mp hover⟩, heffect⟩
    · next hover =>
      refine .inl ⟨?_, heffect⟩
      rintro ⟨g, hg, hover'⟩
      obtain rfl := hf.unique hg
      exact hover (advice_eq_startOver_iff.mpr hover')

/-- A request that starts over has no other attempt. -/
theorem StartsOver.isFinal {outcome : Except Fault (List Reply)} (h : StartsOver outcome) :
    IsFinal outcome := by
  obtain ⟨f, hf, hover⟩ := h
  rintro cue ⟨g, hg, hcue⟩
  obtain rfl := hf.unique hg
  have heffect := (judgeFault_of_cue {} 0 false hcue).2.1
  unfold judgeFault at heffect
  rw [advice_eq_startOver_iff.mpr hover] at heffect
  cases cue <;> cases heffect

end Attempt

/-! ## Lookups -/

namespace Registry

theorem anyNode_ne_nil {r : Registry} {nodes : List Node} (h : r.anyNode = .ok nodes) :
    nodes ≠ [] := by
  unfold anyNode at h
  split at h
  case isTrue hnodes =>
    cases h
    simpa using hnodes
  split at h
  case isTrue hseeds =>
    cases h
    simpa using hseeds
  cases h

theorem unowned_ne_nil {r : Registry} {slot : UInt16} {nodes : List Node}
    (h : r.unowned slot = .ok nodes) : nodes ≠ [] := by
  unfold unowned at h
  split at h
  · cases h
  · exact anyNode_ne_nil h

theorem resolve_ne_nil {r : Registry} {target : SingleTarget} {nodes : List Node}
    (h : r.resolve target = .ok nodes) : nodes ≠ [] := by
  cases target with
  | random => exact anyNode_ne_nil h
  | randomMaster =>
    simp only [resolve] at h
    split at h
    · cases h
    · next hmasters =>
      cases h
      simpa using hmasters
  | route route =>
    simp only [resolve, nodesFor] at h
    split at h
    · unfold replicasOf at h
      split at h
      · cases h
        split
        · simp
        · next hreplicas => simpa using hreplicas
      · exact unowned_ne_nil h
    · unfold masterOf at h
      split at h
      · cases h
        simp
      · exact unowned_ne_nil h
  | address host port =>
    cases h
    simp

end Registry

variable [Transport σ]

/-- The client looks up which nodes there are, and takes one of them. -/
def Looks (give : Registry → Except Fault (List Node)) (es : List (Event σ))
    (r : Except Fault Node) : Prop :=
  ∃ task c rest, es = ⟨task, .registry, c⟩ :: rest ∧
    match give c.registry with
    | .error f => rest = [] ∧ r = .error f
    | .ok nodes => ∃ task' c', rest = [⟨task', .choose nodes, c'⟩] ∧ ∃ node ∈ nodes, r = .ok node

theorem runs_choose {nodes : List Node} (hne : nodes ≠ []) {es : List (Event σ)}
    {r : Except Fault Node} (h : Action.Runs (Action.choose nodes) es r) :
    ∃ task c, es = [⟨task, .choose nodes, c⟩] ∧ ∃ node ∈ nodes, r = .ok node := by
  unfold Action.choose at h
  obtain ⟨task, c, rest, rfl, hrest⟩ := (Action.runs_ask_bind_iff _).mp h
  have hlt : c.choices c.choicesMade % nodes.length < nodes.length :=
    Nat.mod_lt _ (List.length_pos_iff.mpr hne)
  have hsome : (c.answer task (.choose nodes)).1 =
      some nodes[c.choices c.choicesMade % nodes.length] := List.getElem?_eq_getElem hlt
  rw [hsome] at hrest
  obtain ⟨rfl, rfl⟩ := Action.runs_pure_iff.mp hrest
  exact ⟨task, c, rfl, _, List.getElem_mem hlt, rfl⟩

theorem runs_looks {give : Registry → Except Fault (List Node)}
    (hne : ∀ r nodes, give r = .ok nodes → nodes ≠ []) {es : List (Event σ)} {r : Except Fault Node}
    (h : Action.Runs (do
      let registry ← Action.ask .registry
      Action.choose (← give registry)) es r) : Looks give es r := by
  obtain ⟨task, c, rest, rfl, hrest⟩ := (Action.runs_ask_bind_iff _).mp h
  refine ⟨task, c, rest, rfl, ?_⟩
  change Action.Runs (liftM (give c.registry) >>= Action.choose) rest r at hrest
  obtain ⟨f, hgive, rfl, rfl⟩ | ⟨nodes, hgive, hchoose⟩ := Action.runs_lift_bind_iff.mp hrest
  · rw [hgive]
    exact ⟨rfl, rfl⟩
  · rw [hgive]
    exact runs_choose (hne _ _ hgive) hchoose

omit [Transport σ] in
theorem Looks.looksUp {give : Registry → Except Fault (List Node)} {es : List (Event σ)}
    {r : Except Fault Node} (h : Looks give es r) : ∀ e ∈ es, e.request.LooksUp := by
  obtain ⟨task, c, rest, rfl, h⟩ := h
  have hrest : ∀ e ∈ rest, e.request.LooksUp := by
    split at h
    · obtain ⟨rfl, -⟩ := h
      simp
    · obtain ⟨task', c', rfl, -⟩ := h
      simp [Request.LooksUp]
  rintro e (_ | ⟨_, he⟩)
  · trivial
  · exact hrest e he

namespace Cue

def Finds (target : SingleTarget) : Cue → List (Event σ) → Except Fault Node → Prop
  | route => Looks fun r => r.resolve target
  | random => Looks Registry.anyNode
  | moved r | ask r => fun es node => es = [] ∧ node = Node.ofAddress r.address

theorem finds_of_runs {target : SingleTarget} {cue : Cue} {es : List (Event σ)}
    {r : Except Fault Node} (h : Action.Runs (Dispatch.nodeFor target cue.direction) es r) :
    cue.Finds target es r := by
  cases cue with
  | route => exact runs_looks (fun _ _ => Registry.resolve_ne_nil) h
  | random => exact runs_looks (fun _ _ => Registry.anyNode_ne_nil) h
  | moved r => exact Action.runs_lift_iff.mp h
  | ask r => exact Action.runs_lift_iff.mp h

omit [Transport σ] in
theorem Finds.looksUp {target : SingleTarget} {cue : Cue} {es : List (Event σ)}
    {r : Except Fault Node} (h : cue.Finds target es r) : ∀ e ∈ es, e.request.LooksUp := by
  cases cue with
  | route =>
    have hlooks : Looks (fun reg => reg.resolve target) es r := h
    exact hlooks.looksUp
  | random =>
    have hlooks : Looks Registry.anyNode es r := h
    exact hlooks.looksUp
  | moved m | ask m =>
    rw [h.1]
    simp

end Cue

/-! ## Trials -/

/-- One attempt, as it is seen from outside: what it follows, the events in which it looks for its
node, those in which it sends the commands there, what comes of it, and what is done after it. -/
structure Trial (σ : Type) where
  cue : Cue
  lookup : List (Event σ)
  contact : List (Event σ)
  outcome : Except Fault (List Reply)
  aftermath : List (Event σ)

/-- What is done between an attempt and the next one: a moved slot is patched, and before any other
attempt there is a pause at most. -/
def Cue.Prepares (s : Settings) : Cue → List (Event σ) → Prop
  | .moved r => fun es => Action.Runs (Discovery.patchMovedSlot s r) es (.ok ())
  | _ => fun es => es = [] ∨ ∃ task c duration, es = [⟨task, .sleep duration, c⟩]

namespace Trial

def events (t : Trial σ) : List (Event σ) := t.lookup ++ t.contact ++ t.aftermath

/-- The commands are sent to the one node that the cue finds, after `ASKING` if the cue says so. -/
inductive Goes (commands : List Command) (target : SingleTarget) (t : Trial σ) : Prop
  | nowhere {f : Fault} (h : t.cue.Finds target t.lookup (.error f)) (hcontact : t.contact = [])
      (houtcome : t.outcome = .error f)
  | there {node : Node} {raw : Except Fault (List Reply)}
      (h : t.cue.Finds target t.lookup (.ok node))
      (hcontact : Contact node.name (batchOf t.cue.isAsking commands) t.contact raw)
      (houtcome : t.outcome = raw.map (repliesOf t.cue.isAsking))

def Before (s : Settings) (t next : Trial σ) : Prop :=
  next.cue.Follows t.outcome ∧ next.cue.Prepares s t.aftermath

/-- Why this attempt is the last one. -/
inductive Ends (s : Settings) (spent : Prop) (t : Trial σ) : Except Fault (List Reply) → Prop
  /-- Its outcome is final. At most all links and the topology are dropped. -/
  | final {result : Except Fault (List Reply)} (h : Attempt.IsFinal t.outcome)
      (gives : Attempt.Gives t.outcome result)
      (quiet : t.aftermath = [] ∨
        ∃ i c i' c', t.aftermath = [⟨i, .closeAll, c⟩, ⟨i', .forget, c'⟩]) :
      Ends s spent t result
  /-- The moved slot could not be patched. -/
  | unpatched {r : Redirect} {f : Fault} (h : (Cue.moved r).Follows t.outcome)
      (hpatch : Action.Runs (Discovery.patchMovedSlot s r) t.aftermath (.error f)) :
      Ends s spent t (.error f)
  | spent {cue : Cue} {f : Fault} (h : cue.Follows t.outcome) (hf : Attempt.Faces t.outcome f)
      (hprepares : cue.Prepares s t.aftermath) (all : spent) :
      Ends s spent t (.error (.outOfAttempts f))

/-- What is done after an attempt, when so many are left. -/
inductive Followed (s : Settings) (left : Nat) (t : Trial σ) : Prop
  | quiet (h : Attempt.IsFinal t.outcome) (stays : ¬ Attempt.StartsOver t.outcome)
      (nothing : t.aftermath = []) : Followed s left t
  | startOver (h : Attempt.StartsOver t.outcome)
      (reset : ∃ i c i' c', t.aftermath = [⟨i, .closeAll, c⟩, ⟨i', .forget, c'⟩]) :
      Followed s left t
  | moved {r : Redirect} {result : Except Fault Unit} (h : (Cue.moved r).Follows t.outcome)
      (patch : Action.Runs (Discovery.patchMovedSlot s r) t.aftermath result) : Followed s left t
  /-- The pause is left out if no attempt comes after it. -/
  | paused {cue : Cue} (h : cue.Follows t.outcome) (stays : ∀ r, cue ≠ .moved r)
      (sleeps : t.aftermath.map Event.request =
        if left = 0 then [] else (cue.pause s left).toList.map Request.sleep) : Followed s left t

/-- The attempt is made where its cue says. -/
def Made (s : Settings) (commands : List Command) (target : SingleTarget) (t : Trial σ) : Prop :=
  Action.Runs (Dispatch.attempt s commands target t.cue.direction t.cue.isAsking)
    (t.lookup ++ t.contact) t.outcome

end Trial

/-- The trials of a request that has `left` attempts, the first of which follows `cue`. -/
structure Tried (s : Settings) (commands : List Command) (target : SingleTarget) (left : Nat)
    (cue : Cue) (es : List (Event σ)) (result : Except Fault (List Reply))
    (trials : List (Trial σ)) : Prop where
  events : es = trials.flatMap Trial.events
  count : trials.length ≤ left
  first : trials.head?.map Trial.cue = some cue
  goes : ∀ t ∈ trials, t.Goes commands target
  follows : trials.IsChain (Trial.Before s)
  ends : ∀ t ∈ trials.getLast?, t.Ends s (trials.length = left) result

namespace Tried

variable {s : Settings} {commands : List Command} {target : SingleTarget} {left : Nat}
  {es : List (Event σ)} {result : Except Fault (List Reply)} {t : Trial σ}

theorem last (hgoes : t.Goes commands target) (hends : t.Ends s (1 = left + 1) result) :
    Tried s commands target (left + 1) t.cue t.events result [t] where
  events := by simp
  count := by simp
  first := rfl
  goes := by simpa using hgoes
  follows := .singleton t
  ends := by simpa using hends

theorem cons {cue : Cue} {trials : List (Trial σ)} (hgoes : t.Goes commands target)
    (hfollows : cue.Follows t.outcome) (hprepares : cue.Prepares s t.aftermath)
    (h : Tried s commands target left cue es result trials) :
    Tried s commands target (left + 1) t.cue (t.events ++ es) result (t :: trials) := by
  obtain ⟨next, rest, rfl⟩ : ∃ next rest, trials = next :: rest := by
    cases trials with
    | nil => cases h.first
    | cons next rest => exact ⟨next, rest, rfl⟩
  have hcue : next.cue = cue := by simpa using h.first
  constructor
  · rw [List.flatMap_cons, h.events]
  · have := h.count
    rw [List.length_cons]
    omega
  · rfl
  · rintro u (_ | ⟨_, hu⟩)
    · exact hgoes
    · exact h.goes u hu
  · exact .cons_cons ⟨by rwa [hcue], by rwa [hcue]⟩ h.follows
  · intro u hu
    rw [List.getLast?_cons_cons] at hu
    have hends := h.ends u hu
    have hlength : ((t :: next :: rest).length = left + 1) = ((next :: rest).length = left) := by
      simp only [List.length_cons, Nat.add_right_cancel_iff]
    rwa [hlength]

theorem exists_last {cue : Cue} {trials : List (Trial σ)}
    (h : Tried s commands target left cue es result trials) :
    ∃ init t, trials = init ++ [t] ∧ trials.getLast? = some t := by
  cases List.eq_nil_or_concat trials with
  | inl hnil =>
    rw [hnil] at h
    cases h.first
  | inr hconcat =>
    obtain ⟨init, t, rfl⟩ := hconcat
    exact ⟨init, t, by simp, by simp⟩

theorem exists_next {cue : Cue} {trials : List (Trial σ)}
    (h : Tried s commands target left cue es result trials) :
    ∀ t ∈ trials.dropLast, ∃ next ∈ trials, t.Before s next := by
  intro t ht
  obtain ⟨k, hk, rfl⟩ := List.mem_iff_getElem.mp ht
  have hnext : k + 1 < trials.length := by
    rw [List.length_dropLast] at hk
    omega
  rw [List.getElem_dropLast]
  exact ⟨_, List.getElem_mem hnext, List.isChain_iff_getElem.mp h.follows k hnext⟩

theorem last_of_startsOver {cue : Cue} {trials : List (Trial σ)}
    (h : Tried s commands target left cue es result trials) (ht : t ∈ trials)
    (hover : Attempt.StartsOver t.outcome) : trials.getLast? = some t := by
  obtain ⟨init, last, rfl, hlast⟩ := h.exists_last
  rcases List.mem_append.mp ht with hinit | hlast'
  · obtain ⟨next, -, hcue, -⟩ := h.exists_next t (by simpa using hinit)
    exact absurd hcue (hover.isFinal next.cue)
  · rw [hlast, List.mem_singleton.mp hlast']

end Tried

/-! ## Requests -/

namespace Dispatch

open SlotCluster.Action

theorem runs_attempt {s : Settings} {commands : List Command} {target : SingleTarget} {cue : Cue}
    {es : List (Event σ)} {outcome : Except Fault (List Reply)}
    (h : Runs (attempt s commands target cue.direction cue.isAsking) es outcome) :
    ∃ lookup contact, es = lookup ++ contact ∧
      ∀ aftermath, Trial.Goes commands target ⟨cue, lookup, contact, outcome, aftermath⟩ := by
  unfold attempt at h
  rw [runs_bind_iff] at h
  obtain ⟨f, h, rfl⟩ | ⟨node, es₁, es₂, rfl, h₁, h₂⟩ := h
  · refine ⟨es, [], by simp, ?_⟩
    intro aftermath
    exact .nowhere (Cue.finds_of_runs h) rfl rfl
  · obtain ⟨raw, hcontact, rfl⟩ := runs_sendBatch h₂
    refine ⟨es₁, es₂, rfl, ?_⟩
    intro aftermath
    exact .there (Cue.finds_of_runs h₁) hcontact rfl

theorem runs_reset {es : List (Event σ)} {r : Except Fault Unit} (h : Runs reset es r) :
    r = .ok () ∧ ∃ i c i' c', es = [⟨i, .closeAll, c⟩, ⟨i', .forget, c'⟩] := by
  obtain ⟨i, c, rest, rfl, hrest⟩ := (runs_ask_bind_iff _).mp h
  obtain ⟨i', c', rfl, rfl⟩ := (runs_ask_iff _).mp hrest
  exact ⟨rfl, i, c, i', c', rfl⟩

/-! ### One round -/

section Round

variable {s : Settings} {commands : List Command} {target : SingleTarget} {left : Nat}
  {st : RetryState} {cue : Cue} {es : List (Event σ)} {result : Except Fault (List Reply)}
  {f : Fault}

/-- What becomes of a request after an attempt: it ends, or goes on with the attempts left. -/
inductive Onward (s : Settings) (commands : List Command) (target : SingleTarget) (left : Nat)
    (t : Trial σ) : List (Event σ) → Except Fault (List Reply) → Prop
  | ends {result : Except Fault (List Reply)} (h : t.Ends s (left = 0) result) :
      Onward s commands target left t t.aftermath result
  | goes {cue : Cue} {st : RetryState} {rest : List (Event σ)} {result : Except Fault (List Reply)}
      (more : 1 ≤ left) (h : cue.Follows t.outcome) (prepares : cue.Prepares s t.aftermath)
      (notes : cue.IsNotedIn st) (next : Runs (requestFrom s commands target left st) rest result) :
      Onward s commands target left t (t.aftermath ++ rest) result

theorem runs_settled (t : Trial σ) (hfinal : Attempt.IsFinal t.outcome)
    (h : Runs (do
      let verdict := Attempt.judge s left st t.outcome
      apply s verdict.effect
      match verdict.next with
      | .done result => result
      | .again pause =>
        if let some duration := pause then ask (.sleep duration)
        requestFrom s commands target left verdict.state) es result) :
    { t with aftermath := es }.Followed s left ∧
      { t with aftermath := es }.Ends s (left = 0) result := by
  obtain ⟨given, hgives, hnext, ⟨hstays, heffect⟩ | ⟨hover, heffect⟩⟩ :=
    Attempt.judge_of_final s left st hfinal
  all_goals simp only [hnext] at h
  · rw [heffect] at h
    obtain ⟨rfl, rfl⟩ := runs_lift_iff.mp h
    exact ⟨.quiet hfinal hstays rfl, .final hfinal hgives (.inl rfl)⟩
  · rw [heffect, runs_bind_iff] at h
    obtain ⟨f, hreset, rfl⟩ | ⟨_, es₃, es₄, rfl, hreset, hdone⟩ := h
    · cases (runs_reset hreset).1
    · obtain ⟨rfl, rfl⟩ := runs_lift_iff.mp hdone
      rw [List.append_nil]
      have htwo := (runs_reset hreset).2
      exact ⟨.startOver hover htwo, .final hfinal hgives (.inr htwo)⟩

theorem runs_moved (t : Trial σ) {r : Redirect} (hfollows : (Cue.moved r).Follows t.outcome)
    (hf : Attempt.Faces t.outcome f) (hnoted : (Cue.moved r).IsNotedIn st)
    (h : Runs (do
      Discovery.patchMovedSlot s r
      match Attempt.again left f none with
      | .done result => result
      | .again pause =>
        if let some duration := pause then ask (.sleep duration)
        requestFrom s commands target left st) es result) :
    ∃ after, { t with aftermath := after }.Followed s left ∧
      Onward s commands target left { t with aftermath := after } es result := by
  rw [runs_bind_iff] at h
  obtain ⟨g, hpatch, rfl⟩ | ⟨_, after, rest, rfl, hpatch, hrest⟩ := h
  · exact ⟨es, .moved hfollows hpatch, .ends (.unpatched hfollows hpatch)⟩
  refine ⟨after, .moved hfollows hpatch, ?_⟩
  unfold Attempt.again at hrest
  by_cases hzero : left = 0
  · rw [if_pos hzero] at hrest
    obtain ⟨rfl, rfl⟩ := runs_lift_iff.mp hrest
    rw [List.append_nil]
    exact .ends (.spent hfollows hf hpatch hzero)
  · rw [if_neg hzero] at hrest
    exact .goes (by omega) hfollows hpatch hnoted hrest

theorem runs_paused (t : Trial σ) (hfollows : cue.Follows t.outcome)
    (hstays : ∀ r, cue ≠ .moved r) (hf : Attempt.Faces t.outcome f)
    (hnoted : cue.IsNotedIn st)
    (h : Runs (match Attempt.again left f (cue.pause s left) with
      | .done result => liftM result
      | .again pause => do
        if let some duration := pause then ask (.sleep duration)
        requestFrom s commands target left st) es result) :
    ∃ after, { t with aftermath := after }.Followed s left ∧
      Onward s commands target left { t with aftermath := after } es result := by
  have hprepares : ∀ {es : List (Event σ)},
      (es = [] ∨ ∃ task c duration, es = [⟨task, .sleep duration, c⟩]) → cue.Prepares s es := by
    intro es hes
    cases cue with
    | moved r => exact absurd rfl (hstays r)
    | route | random | ask r => exact hes
  unfold Attempt.again at h
  by_cases hzero : left = 0
  · rw [if_pos hzero] at h
    obtain ⟨rfl, rfl⟩ := runs_lift_iff.mp h
    refine ⟨[], .paused hfollows hstays (by rw [if_pos hzero]; rfl), ?_⟩
    exact .ends (.spent hfollows hf (hprepares (.inl rfl)) hzero)
  rw [if_neg hzero] at h
  cases hpause : cue.pause s left with
  | none =>
    rw [hpause] at h
    refine ⟨[], .paused hfollows hstays (by rw [if_neg hzero, hpause]; rfl), ?_⟩
    exact .goes (by omega) hfollows (hprepares (.inl rfl)) hnoted h
  | some duration =>
    rw [hpause] at h
    obtain ⟨task, c, rest, rfl, hmore⟩ := (runs_ask_bind_iff _).mp h
    refine ⟨[⟨task, .sleep duration, c⟩], ?_, ?_⟩
    · exact .paused hfollows hstays (by rw [if_neg hzero, hpause]; rfl)
    · exact .goes (by omega) hfollows (hprepares (.inr ⟨task, c, duration, rfl⟩)) hnoted hmore

theorem runs_onward (t : Trial σ)
    (h : Runs (do
      let verdict := Attempt.judge s left ⟨none, t.cue.isAsking, false⟩ t.outcome
      apply s verdict.effect
      match verdict.next with
      | .done result => result
      | .again pause =>
        if let some duration := pause then ask (.sleep duration)
        requestFrom s commands target left verdict.state) es result) :
    ∃ after, { t with aftermath := after }.Followed s left ∧
      Onward s commands target left { t with aftermath := after } es result := by
  by_cases hfinal : Attempt.IsFinal t.outcome
  · obtain ⟨hfollowed, hends⟩ := runs_settled t hfinal h
    exact ⟨es, hfollowed, .ends hends⟩
  · obtain ⟨cue, hfollows⟩ := Classical.not_forall_not.mp hfinal
    obtain ⟨f, hf, hnoted, heffect, hnext⟩ := Attempt.judge_of_cue s left t.cue.isAsking hfollows
    simp only [heffect, hnext] at h
    cases cue with
    | moved r => exact runs_moved t hfollows hf hnoted h
    | route | random | ask r => exact runs_paused t hfollows (by simp) hf hnoted h

/-- One round of a request: an attempt, what is done after it, and all that comes later. -/
theorem runs_round (hnotes : cue.IsNotedIn st)
    (h : Runs (requestFrom s commands target (left + 1) st) es result) :
    ∃ (t : Trial σ) (rest : List (Event σ)), t.cue = cue ∧ t.Goes commands target ∧
      t.Made s commands target ∧ t.Followed s left ∧ es = t.lookup ++ t.contact ++ rest ∧
      Onward s commands target left t rest result := by
  unfold requestFrom at h
  rw [Cue.aim_eq hnotes] at h
  simp only [runs_outcome_bind_iff] at h
  obtain ⟨outcome, es₁, rest, rfl, h₁, h₂⟩ := h
  obtain ⟨lookup, contact, rfl, hgoes⟩ := runs_attempt h₁
  obtain ⟨after, hfollowed, honward⟩ := runs_onward ⟨cue, lookup, contact, outcome, []⟩ h₂
  exact ⟨_, rest, rfl, hgoes after, h₁, hfollowed, rfl, honward⟩

end Round

/-! ### All rounds -/

/-- Each trial is made where its cue says, and followed by what its outcome and the attempts left
call for. -/
def Paced (s : Settings) (commands : List Command) (target : SingleTarget) (left : Nat)
    (trials : List (Trial σ)) : Prop :=
  ∀ (k : Nat) (t : Trial σ), trials[k]? = some t →
    t.Made s commands target ∧ t.Followed s (left - (k + 1))

theorem Paced.cons {s : Settings} {commands : List Command} {target : SingleTarget} {left : Nat}
    {t : Trial σ} {trials : List (Trial σ)} (hmade : t.Made s commands target)
    (hfollowed : t.Followed s left) (h : Paced s commands target left trials) :
    Paced s commands target (left + 1) (t :: trials) := by
  rintro (_ | k) u hu
  · obtain rfl : t = u := Option.some.inj hu
    exact ⟨hmade, by simpa using hfollowed⟩
  · obtain ⟨hu₁, hu₂⟩ := h k u (by simpa using hu)
    exact ⟨hu₁, by rwa [Nat.add_sub_add_right]⟩

theorem runs_rounds {s : Settings} {commands : List Command} {target : SingleTarget}
    {left : Nat} {st : RetryState} {cue : Cue} (hnotes : cue.IsNotedIn st) (hleft : 1 ≤ left)
    {es : List (Event σ)} {result : Except Fault (List Reply)}
    (h : Runs (requestFrom s commands target left st) es result) :
    ∃ trials, Tried s commands target left cue es result trials ∧
      Paced s commands target left trials := by
  -- On the attempts that are left. The invariant is that the notes hold one cue and nothing older:
  -- `aim` uses it up, and the verdict notes the next one.
  induction left generalizing st cue es with
  | zero => omega
  | succ left ih =>
    obtain ⟨t, rest, rfl, hgoes, hmade, hfollowed, rfl, honward⟩ := runs_round hnotes h
    have hnone : Paced s commands target left ([] : List (Trial σ)) := nofun
    cases honward with
    | ends hends =>
      refine ⟨[t], .last hgoes ?_, .cons hmade hfollowed hnone⟩
      have hlast : (1 = left + 1) = (left = 0) := by rw [eq_iff_iff]; omega
      rwa [hlast]
    | goes more hfollows hprepares hnoted hnext =>
      obtain ⟨trials, htried, hpaced⟩ := ih hnoted more hnext
      refine ⟨t :: trials, ?_, .cons hmade hfollowed hpaced⟩
      rw [← List.append_assoc]
      exact .cons hgoes hfollows hprepares htried

theorem runs_requestFrom {s : Settings} {commands : List Command} {target : SingleTarget}
    {left : Nat} {st : RetryState} {cue : Cue} (hnotes : cue.IsNotedIn st) (hleft : 1 ≤ left)
    {es : List (Event σ)} {result : Except Fault (List Reply)}
    (h : Runs (requestFrom s commands target left st) es result) :
    ∃ trials, Tried s commands target left cue es result trials := by
  obtain ⟨trials, htried, -⟩ := runs_rounds hnotes hleft h
  exact ⟨trials, htried⟩

/-- Every run of a request is a list of trials. The first one is routed, and each of the others
follows the outcome of the one before it and nothing else. -/
theorem request_follows_outcomes {s : Settings} {commands : List Command} {target : SingleTarget}
    {es : List (Event σ)} {result : Except Fault (List Reply)} (hattempts : 1 ≤ s.attempts)
    (h : Runs (request s commands target) es result) :
    ∃ trials : List (Trial σ), Tried s commands target s.attempts .route es result trials ∧
      trials.IsChain fun t next => next.cue.isAsking = true ↔
        ∃ detail, Attempt.Faces t.outcome (.server (.known .ask detail)) := by
  have hstart : Cue.route.IsNotedIn .start := ⟨rfl, rfl⟩
  obtain ⟨trials, htried⟩ := runs_requestFrom hstart hattempts h
  refine ⟨trials, htried, htried.follows.imp ?_⟩
  rintro t next ⟨hfollows, -⟩
  exact hfollows.isAsking_iff

/-- A node answers with an asking redirect, and the next one is asked. -/
theorem request_follows_outcomes_asked :
    let get := Command.ofWords ["GET", "foo"]
    let c := Canned.client {} [.error (.known .ask (some "12182 b:2")), .okay, .bulk [118]]
    let a := request {} [get] .random
    1 ≤ ({} : Settings).attempts ∧ Runs a (c.traceProgram a.run) (c.runProgram a.run).1 ∧
      written (c.traceProgram a.run) = [[get], [Command.asking, get]] ∧
      visited (c.traceProgram a.run) = ["a:1", "b:2"] ∧
      ∃ trials : List (Trial Canned),
        Tried {} [get] .random 16 .route (c.traceProgram a.run) (c.runProgram a.run).1 trials ∧
        trials.IsChain fun t next => next.cue.isAsking = true ↔
          ∃ detail, Attempt.Faces t.outcome (.server (.known .ask detail)) :=
  ⟨by decide, Client.runs_traceProgram _ _, by decide +kernel, by decide +kernel,
    request_follows_outcomes (by decide) (Client.runs_traceProgram _ _)⟩

end Dispatch

end SlotCluster
