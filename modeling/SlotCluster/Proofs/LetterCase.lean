import Mathlib.Data.List.Basic
import SlotCluster.Proofs.CommandNames

/-!
# Letter case

The words that make a command what it is may be written in any letter case: its name, the second
word of a container command, and the keyword in front of the keys of a stream read. Such a word
changes the route only where it stands in a place of a key, and then it is hashed as it is spelled.
That happens to the second word of a container command that no table knows, and to the keyword of
a stream read whose group or consumer has the name of the keyword.
-/

namespace SlotCluster

namespace Words

/-! ## Command words -/

def streamsKeyword : Bytes := Bytes.ofText "STREAMS"

/-- The command reads streams. -/
def isStreamRead (w : Words) : Bool :=
  (w.word? 0).any fun first => CommandTable.streamsNames.contains first.upper

/-- The options of a stream read begin behind its name, or behind `GROUP group consumer`. -/
def optionsFrom (w : Words) : Nat :=
  if (w.word? 0).any (·.sameWord (Bytes.ofText "XREADGROUP")) ∧
      (w.word? 1).any (·.sameWord (Bytes.ofText "GROUP")) then 4
  else 1

/-- The place of the keyword that ends the options. -/
def keyword? (w : Words) : Option Nat :=
  (position? (w.drop w.optionsFrom) streamsKeyword).map (w.optionsFrom + ·)

/-- The word is no data. -/
def IsCommandWord (w : Words) (i : Nat) : Prop :=
  i = 0 ∨ (w.isContainer ∧ i = 1) ∨ (w.isStreamRead ∧ w.keyword? = some i)

/-- The same words, but for the letter case of command words. -/
structure Recased (w w' : Words) : Prop where
  data : ∀ i, ¬ w.IsCommandWord i → w'[i]? = w[i]?
  words : ∀ i, w.IsCommandWord i →
    w'[i]?.map (Option.map Bytes.upper) = w[i]?.map (Option.map Bytes.upper)

/-- A command word in the place of a key. -/
inductive Mistaken (w : Words) : Nat → Prop
  /-- The second word of a served container command, if they stand in no table. -/
  | subcommand {first second : Bytes} (hfirst : w.word? 0 = some first)
    (hcontainer : first.upper ∈ CommandTable.containers) (hsecond : w.word? 1 = some second)
    (hserved : first.upper ++ 32 :: second.upper ∉ CommandTable.blocked)
    (hunknown : ∀ entry ∈ CommandTable.families, first.upper ++ 32 :: second.upper ∉ entry.2) :
    Mistaken w 1
  /-- The keyword of a stream read, in the first half of what stands behind a word like it. -/
  | keyword {i k : Nat} (hread : w.isStreamRead) (hkeyword : w.keyword? = some k)
    (hlike : w.position? streamsKeyword = some i) (hbehind : i < k)
    (hhalf : k - (i + 1) < (w.wordsFrom (i + 1)).length / 2) : Mistaken w k

/-! ## Words alike -/

section Alike

variable {w w' : Words}

theorem word?_congr {i : Nat} (h : w'[i]? = w[i]?) : w'.word? i = w.word? i := by
  rw [word?, word?, h]

theorem wordsFrom_congr {n : Nat} (h : ∀ i ≥ n, w'[i]? = w[i]?) :
    w'.wordsFrom n = w.wordsFrom n := by
  have hdrop : w'.drop n = w.drop n := by
    refine List.ext_getElem? fun i => ?_
    rw [List.getElem?_drop, List.getElem?_drop]
    exact h _ (by omega)
  rw [wordsFrom, wordsFrom, hdrop]

theorem position?_eq (w : Words) (candidate : Bytes) :
    w.position? candidate =
      (w.map (Option.map Bytes.upper)).findIdx? (· == some candidate.upper) := by
  rw [position?, List.findIdx?_map]
  congr 1
  funext word
  cases word <;> rfl

theorem Recased.uppers (h : Recased w w') :
    w'.map (Option.map Bytes.upper) = w.map (Option.map Bytes.upper) := by
  refine List.ext_getElem? fun i => ?_
  rw [List.getElem?_map, List.getElem?_map]
  by_cases hi : w.IsCommandWord i
  · exact h.words i hi
  · rw [h.data i hi]

theorem Recased.word?_upper (h : Recased w w') (i : Nat) :
    (w'.word? i).map Bytes.upper = (w.word? i).map Bytes.upper := by
  have hword : ∀ v : Words,
      (v.word? i).map Bytes.upper = ((v.map (Option.map Bytes.upper))[i]?).join := by
    intro v
    rw [List.getElem?_map, word?]
    cases v[i]? <;> rfl
  rw [hword, hword, h.uppers]

theorem Recased.checkedName (h : Recased w w') : w'.checkedName = w.checkedName :=
  checkedName_congr (h.word?_upper 0) fun _ => h.word?_upper 1

theorem Recased.position? (h : Recased w w') (candidate : Bytes) :
    w'.position? candidate = w.position? candidate := by
  rw [position?_eq, position?_eq, h.uppers]

end Alike

/-! ## The route of some keys -/

/-- Where these keys send a command of this name. -/
def routeOfKeys (name : Bytes) (keys : List Bytes) : Except Fault Routing := do
  let slot ← commonSlot name keys
  let role := if CommandTable.isReadOnly name then SlotRole.replicaOptional else .master
  return .single (.route ⟨slot, role⟩)

section Routes

variable {w w' : Words} {name : Bytes} {keys : List Bytes}

theorem routing_of_designated (hname : w.checkedName = .ok name)
    (hfamily : CommandTable.familyOf name = .firstKey ∨ CommandTable.familyOf name = .streams)
    (hkeys : w.designated name (CommandTable.familyOf name) = .ok (some keys)) :
    w.routing = routeOfKeys name keys := by
  unfold routing
  rw [hname]
  simp only [bind, Except.bind]
  obtain hfamily | hfamily := hfamily <;>
    · rw [hfamily] at hkeys ⊢
      simp only [routeByKeys, hkeys, bind, Except.bind, routeOfKeys]

theorem routing_congr (hname : w'.checkedName = w.checkedName)
    (hkeys : ∀ name, w.checkedName = .ok name →
      w'.designated name (CommandTable.familyOf name) =
        w.designated name (CommandTable.familyOf name))
    (hslot : ∀ name, w.checkedName = .ok name → CommandTable.familyOf name = .slotArgument →
      w'.word? 2 = w.word? 2) :
    w'.routing = w.routing := by
  unfold routing
  rw [hname]
  cases hchecked : w.checkedName with
  | error f => rfl
  | ok name =>
    have hdesignated := hkeys name hchecked
    have hargument := hslot name hchecked
    simp only [bind, Except.bind]
    cases hfamily : CommandTable.familyOf name
    case slotArgument => simp only [routeBySlot, hargument hfamily]
    case allNodes | allMasters | anyNode => rfl
    all_goals
      rw [hfamily] at hdesignated
      simp only [routeByKeys, hdesignated]

theorem designated_of_tail (hposition : w'.position? streamsKeyword = w.position? streamsKeyword)
    (htail : ∀ i ≥ 1, w'[i]? = w[i]?) (f : Family) :
    w'.designated name f = w.designated name f := by
  have hword : ∀ i ≥ 1, w'.word? i = w.word? i := fun i hi => word?_congr (htail i hi)
  have hfrom : ∀ n ≥ 1, w'.wordsFrom n = w.wordsFrom n :=
    fun n hn => wordsFrom_congr fun i hi => htail i (by omega)
  unfold streamsKeyword at hposition
  cases f <;> simp [designated, keyCount, counted, hword, hfrom, hposition]

theorem designated_of_two {f : Family} (hf : f ∈ CommandTable.twoWordFamilies)
    (htail : ∀ i ≥ 2, w'[i]? = w[i]?) : w'.designated name f = w.designated name f := by
  have hword : w'.word? 2 = w.word? 2 := word?_congr (htail 2 (by omega))
  simp only [CommandTable.twoWordFamilies, List.mem_cons, List.not_mem_nil, or_false] at hf
  obtain rfl | rfl | rfl | rfl | rfl := hf <;> simp [designated, hword]

end Routes

/-! ## Words in a stream -/

/-- The words in front of the first missing one. -/
def leading (w : Words) : List Bytes := (w.takeWhile Option.isSome).filterMap id

@[simp] theorem leading_nil : leading [] = [] := rfl

@[simp] theorem leading_none (w : Words) : leading (none :: w) = [] := rfl

@[simp] theorem leading_some (word : Bytes) (w : Words) :
    leading (some word :: w) = word :: leading w := rfl

theorem getElem?_of_leading {w : Words} {n : Nat} {word : Bytes} (h : w.leading[n]? = some word) :
    w[n]? = some (some word) := by
  induction w generalizing n with
  | nil => simp at h
  | cons x rest ih =>
    cases x with
    | none => simp at h
    | some first =>
      cases n with
      | zero => simpa using h
      | succ n => exact ih (by simpa using h)

theorem leading_set {w : Words} {n : Nat} {word word' : Bytes} (h : w[n]? = some (some word)) :
    leading (w.set n (some word')) = w.leading.set n word' := by
  induction w generalizing n with
  | nil => simp at h
  | cons x rest ih =>
    cases n with
    | zero =>
      obtain rfl : x = some word := by simpa using h
      rfl
    | succ n =>
      have hrest : leading (rest.set n (some word')) = (leading rest).set n word' :=
        ih (by simpa using h)
      cases x with
      | none => rfl
      | some first => simpa using hrest

theorem getElem?_of_position? {w : Words} {candidate : Bytes} {i : Nat}
    (h : w.position? candidate = some i) : ∃ word, w[i]? = some (some word) := by
  obtain ⟨hi, hword, -⟩ := List.findIdx?_eq_some_iff_getElem.mp h
  cases hw : w[i] with
  | none => simp [hw] at hword
  | some word => exact ⟨word, by rw [List.getElem?_eq_getElem hi, hw]⟩

theorem getElem?_of_keyword? {w : Words} {k : Nat} (h : w.keyword? = some k) :
    1 ≤ k ∧ ∃ word, w[k]? = some (some word) := by
  obtain ⟨i, hi, rfl⟩ := Option.map_eq_some_iff.mp h
  obtain ⟨word, hword⟩ := getElem?_of_position? hi
  rw [List.getElem?_drop] at hword
  have hfrom : 1 ≤ w.optionsFrom := by unfold optionsFrom; split <;> omega
  exact ⟨by omega, word, hword⟩

theorem wordsFrom_of_like {w w' : Words} {i k : Nat} (hbehind : i < k) {word word' : Bytes}
    (hword : w[k]? = some (some word))
    (hrest : ∀ j ≥ 1, w'[j]? = if j = k then some (some word') else w[j]?) :
    w'.wordsFrom (i + 1) = (w.wordsFrom (i + 1)).set (k - (i + 1)) word' := by
  have hdrop : w'.drop (i + 1) = (w.drop (i + 1)).set (k - (i + 1)) (some word') := by
    refine List.ext_getElem? fun j => ?_
    rw [List.getElem?_drop, hrest (i + 1 + j) (by omega), List.getElem?_set, List.getElem?_drop,
      List.length_drop]
    have hlt : k < w.length := (List.getElem?_eq_some_iff.mp hword).1
    split <;> split <;> grind
  change leading (w'.drop (i + 1)) = (leading (w.drop (i + 1))).set _ _
  rw [hdrop]
  have hplace : (w.drop (i + 1))[k - (i + 1)]? = some (some word) := by
    rw [List.getElem?_drop, show i + 1 + (k - (i + 1)) = k by omega, hword]
  exact leading_set hplace

/-! ## Command words in another letter case -/

section Recasing

variable {w w' : Words}

theorem exists_container (h : w.isContainer) :
    ∃ first, w.word? 0 = some first ∧ first.upper ∈ CommandTable.containers := by
  unfold isContainer at h
  cases hfirst : w.word? 0 with
  | none => simp [hfirst] at h
  | some first => exact ⟨first, rfl, by simpa [hfirst] using h⟩

theorem exists_streamRead (h : w.isStreamRead) :
    ∃ first, w.word? 0 = some first ∧ first.upper ∈ CommandTable.streamsNames := by
  unfold isStreamRead at h
  cases hfirst : w.word? 0 with
  | none => simp [hfirst] at h
  | some first => exact ⟨first, rfl, by simpa [hfirst] using h⟩

theorem not_streamRead_of_container (h : w.isContainer) : ¬ w.isStreamRead := by
  have htables : ∀ name ∈ CommandTable.containers, name ∉ CommandTable.streamsNames := by
    decide +kernel
  obtain ⟨first, hfirst, hcontainer⟩ := exists_container h
  intro hread
  obtain ⟨first', hfirst', hstreams⟩ := exists_streamRead hread
  cases hfirst.symm.trans hfirst'
  exact htables _ hcontainer hstreams

theorem name_of_container {first second name : Bytes} (hfirst : w.word? 0 = some first)
    (hcontainer : first.upper ∈ CommandTable.containers) (hsecond : w.word? 1 = some second)
    (hname : w.checkedName = .ok name) : name = first.upper ++ 32 :: second.upper := by
  obtain ⟨-, -, hname, -⟩ := checkedName_eq_ok_iff.mp hname
  simpa [name?_eq, hfirst, hcontainer, hsecond] using hname.symm

theorem checkedName_of_streamRead (h : w.isStreamRead) :
    ∃ name, w.checkedName = .ok name ∧ CommandTable.familyOf name = .streams := by
  have htables : ∀ name ∈ CommandTable.streamsNames, CommandTable.familyOf name = .streams ∧
      name ∉ CommandTable.containers ∧ CommandTable.isBlocked name = false := by
    decide +kernel
  obtain ⟨first, hfirst, hstreams⟩ := exists_streamRead h
  obtain ⟨hfamily, hcontainer, hblocked⟩ := htables _ hstreams
  have hname : w.name? = some first.upper := by simp [name?_eq, hfirst, hcontainer]
  exact ⟨first.upper, checkedName_eq_ok_iff.mpr ⟨first, hfirst, hname, hblocked, hblocked⟩, hfamily⟩

namespace Recased

variable (h : Recased w w')

include h

theorem routing_of_tail (htail : ∀ i ≥ 1, w'[i]? = w[i]?) : w'.routing = w.routing :=
  routing_congr h.checkedName (fun _ _ => designated_of_tail (h.position? _) htail _)
    fun _ _ _ => word?_congr (htail 2 (by omega))

theorem same_of_missing {i : Nat} (hmissing : w.word? i = none) : w'[i]? = w[i]? := by
  have hupper := congrArg (·[i]?) h.uppers
  simp only [List.getElem?_map] at hupper
  unfold word? at hmissing
  cases hi : w[i]? with
  | none => simpa [hi] using hupper
  | some x =>
    obtain rfl : x = none := by simpa [hi] using hmissing
    simpa [hi] using hupper

theorem routing_of_container (hcontainer : w.isContainer) (hknown : ¬ Mistaken w 1) :
    w'.routing = w.routing := by
  obtain ⟨first, hfirst, hmem⟩ := exists_container hcontainer
  have hread := not_streamRead_of_container hcontainer
  have htail : ∀ i ≥ 2, w'[i]? = w[i]? := by
    refine fun i hi => h.data i ?_
    rintro (rfl | ⟨-, rfl⟩ | ⟨hstreams, -⟩)
    · omega
    · omega
    · exact hread hstreams
  cases hsecond : w.word? 1 with
  | none =>
    refine h.routing_of_tail fun i hi => ?_
    obtain rfl | hi : i = 1 ∨ i ≥ 2 := by omega
    · exact h.same_of_missing hsecond
    · exact htail i hi
  | some second =>
    refine routing_congr h.checkedName (fun name hname => ?_) fun _ _ _ =>
      word?_congr (htail 2 (by omega))
    obtain rfl := name_of_container hfirst hmem hsecond hname
    obtain hunknown | htwo := CommandTable.familyOf_two_words first.upper second.upper
    · obtain ⟨-, -, -, -, hserved⟩ := checkedName_eq_ok_iff.mp hname
      refine absurd (.subcommand hfirst hmem hsecond ?_ ?_) hknown
      · simpa [CommandTable.isBlocked] using hserved
      · exact (CommandTable.familyOf_eq_firstKey_iff _).mp hunknown
    · exact designated_of_two htwo htail

/-- The keyword is the only word behind the name that may be spelled in another way. -/
theorem exists_keyword {k : Nat} (hread : w.isStreamRead) (hkeyword : w.keyword? = some k) :
    ∃ word word', w[k]? = some (some word) ∧ w'[k]? = some (some word') ∧
      ∀ i ≥ 1, w'[i]? = if i = k then some (some word') else w[i]? := by
  obtain ⟨hk, word, hword⟩ := getElem?_of_keyword? hkeyword
  have hupper := h.words k (.inr (.inr ⟨hread, hkeyword⟩))
  rw [hword] at hupper
  obtain ⟨x, hx, hmap⟩ := Option.map_eq_some_iff.mp hupper
  obtain ⟨word', rfl, -⟩ := Option.map_eq_some_iff.mp hmap
  refine ⟨word, word', hword, hx, fun i hi => ?_⟩
  by_cases hik : i = k
  · rw [if_pos hik, hik, hx]
  · rw [if_neg hik]
    refine h.data i ?_
    rintro (rfl | ⟨hcontainer, -⟩ | ⟨-, hplace⟩)
    · omega
    · exact not_streamRead_of_container hcontainer hread
    · exact hik (Option.some.inj (hplace.symm.trans hkeyword))

theorem routing_of_streamRead (hread : w.isStreamRead) (hapart : ∀ k, ¬ Mistaken w k) :
    w'.routing = w.routing := by
  cases hkeyword : w.keyword? with
  | none =>
    refine h.routing_of_tail fun i hi => h.data i ?_
    rintro (rfl | ⟨hcontainer, -⟩ | ⟨-, hplace⟩)
    · omega
    · exact not_streamRead_of_container hcontainer hread
    · simp [hkeyword] at hplace
  | some k =>
    obtain ⟨word, word', hword, -, hrest⟩ := h.exists_keyword hread hkeyword
    obtain ⟨name, hname, hfamily⟩ := checkedName_of_streamRead hread
    refine routing_congr h.checkedName (fun other hother => ?_) fun other hother hargument => ?_
    · cases hname.symm.trans hother
      rw [hfamily, designated, designated, h.position?]
      cases hlike : w.position? (Bytes.ofText "STREAMS") with
      | none => rfl
      | some i =>
        by_cases hbehind : i < k
        · have hhalf : (w.wordsFrom (i + 1)).length / 2 ≤ k - (i + 1) := by
            by_contra hhalf
            exact hapart k (.keyword hread hkeyword hlike hbehind (by omega))
          simp only [wordsFrom_of_like hbehind hword hrest, List.length_set,
            List.take_set_of_le hhalf]
        · have hsame : w'.wordsFrom (i + 1) = w.wordsFrom (i + 1) :=
            wordsFrom_congr fun j hj => by rw [hrest j (by omega), if_neg (by omega)]
          simp only [hsame]
    · cases hname.symm.trans hother
      rw [hfamily] at hargument
      cases hargument

end Recased

end Recasing

/-- The route depends on the spelling of a command word, which stands among the keys. -/
structure Hashed (name : Bytes) (front back : List Bytes) (w : Words) (k : Nat) (word : Bytes) :
    Prop where
  word? : w.word? k = some word
  routing : w.routing = routeOfKeys name (front ++ word :: back)
  /-- Alone, if it belongs to the name. -/
  alone : w.isContainer → w.routing = .ok (.single (.route ⟨Slot.ofKey word, .master⟩))

theorem hashed_of_unknown {w : Words} {first second word : Bytes}
    (hname : w.checkedName = .ok (first ++ 32 :: second))
    (hfamily : CommandTable.familyOf (first ++ 32 :: second) = .firstKey)
    (hword : w.word? 1 = some word) : Hashed (first ++ 32 :: second) [] [] w 1 word := by
  have hrouting : w.routing = routeOfKeys (first ++ 32 :: second) [word] :=
    routing_of_designated hname (.inl hfamily) (by rw [hfamily, designated, hword]; rfl)
  refine ⟨hword, hrouting, fun _ => ?_⟩
  rw [hrouting, routeOfKeys, CommandTable.isReadOnly_two_words hfamily]
  rfl

theorem Recased.hashed_subcommand {w w' : Words} (h : Recased w w') {first second : Bytes}
    (hfirst : w.word? 0 = some first) (hcontainer : first.upper ∈ CommandTable.containers)
    (hsecond : w.word? 1 = some second)
    (hserved : first.upper ++ 32 :: second.upper ∉ CommandTable.blocked)
    (hunknown : ∀ entry ∈ CommandTable.families, first.upper ++ 32 :: second.upper ∉ entry.2) :
    ∃ name second', Hashed name [] [] w 1 second ∧ Hashed name [] [] w' 1 second' := by
  have htables : ∀ name ∈ CommandTable.containers, CommandTable.isBlocked name = false := by
    decide +kernel
  have hfamily := (CommandTable.familyOf_eq_firstKey_iff _).mpr hunknown
  have hname : w.checkedName = .ok (first.upper ++ 32 :: second.upper) :=
    checkedName_eq_ok_iff.mpr ⟨first, hfirst, by simp [name?_eq, hfirst, hcontainer, hsecond],
      htables _ hcontainer, by simpa [CommandTable.isBlocked] using hserved⟩
  have hupper := h.word?_upper 1
  rw [hsecond] at hupper
  obtain ⟨second', hsecond', -⟩ := Option.map_eq_some_iff.mp hupper
  exact ⟨_, second', hashed_of_unknown hname hfamily hsecond,
    hashed_of_unknown (h.checkedName.trans hname) hfamily hsecond'⟩

theorem Recased.hashed_keyword {w w' : Words} (h : Recased w w') {i k : Nat}
    (hread : w.isStreamRead) (hkeyword : w.keyword? = some k)
    (hlike : w.position? streamsKeyword = some i) (hbehind : i < k)
    (hhalf : k - (i + 1) < (w.wordsFrom (i + 1)).length / 2) :
    ∃ name front back word word', Hashed name front back w k word ∧
      Hashed name front back w' k word' := by
  obtain ⟨word, word', hword, hword', hrest⟩ := h.exists_keyword hread hkeyword
  obtain ⟨name, hname, hfamily⟩ := checkedName_of_streamRead hread
  have hset := wordsFrom_of_like hbehind hword hrest
  have hlike' := (h.position? streamsKeyword).trans hlike
  unfold streamsKeyword at hlike hlike'
  -- The keys, and the place of the keyword among them.
  let n := k - (i + 1)
  let keys := (w.wordsFrom (i + 1)).take ((w.wordsFrom (i + 1)).length / 2)
  have hn : n < keys.length := by simp only [keys, List.length_take]; omega
  have hsplit : ∀ x, keys.set n x = keys.take n ++ x :: keys.drop (n + 1) := fun x => by
    rw [List.set_eq_take_append_cons_drop, if_pos hn]
  have hkeys : keys.set n word = keys := by
    have hget : (leading (w.drop (i + 1)))[n]? = some keys[n] := by
      have := List.getElem?_eq_getElem hn
      rwa [List.getElem?_take_of_lt (by omega)] at this
    have hplace := getElem?_of_leading hget
    rw [List.getElem?_drop, show i + 1 + n = k by omega, hword] at hplace
    cases hplace
    exact List.set_getElem_self hn
  have hdesignated : w.designated name .streams = .ok (some keys) := by
    simp only [designated, hlike, keys]
  have hdesignated' : w'.designated name .streams = .ok (some (keys.set n word')) := by
    simp only [designated, hlike', hset, List.length_set, List.take_set, keys, n]
  have hcontainer : ¬ w.isContainer := fun hc => not_streamRead_of_container hc hread
  have hcontainer' : ¬ w'.isContainer := by rwa [isContainer_congr (h.word?_upper 0)]
  refine ⟨name, keys.take n, keys.drop (n + 1), word, word', ⟨?_, ?_, ?_⟩, ⟨?_, ?_, ?_⟩⟩
  · rw [word?, hword]; rfl
  · rw [← hsplit, hkeys]
    exact routing_of_designated hname (.inr hfamily) (by rw [hfamily, hdesignated])
  · exact fun hc => absurd hc hcontainer
  · rw [word?, hword']; rfl
  · rw [← hsplit]
    exact routing_of_designated (h.checkedName.trans hname) (.inr hfamily)
      (by rw [hfamily, hdesignated'])
  · exact fun hc => absurd hc hcontainer'

end Words

open Words

/-- **Letter case.** The letter case of command words does not matter, unless one of them is in the
place of a key: then either spelling is hashed. -/
theorem Routing.of_recased {ρ ρ' : Type} [Routable ρ] [Routable ρ'] {r : ρ} {r' : ρ'}
    (h : Recased (Routable.words r) (Routable.words r')) :
    ((∀ k, ¬ Mistaken (Routable.words r) k) → Routing.of r' = Routing.of r) ∧
    ∀ k, Mistaken (Routable.words r) k → ∃ name front back word word',
      Hashed name front back (Routable.words r) k word ∧
      Hashed name front back (Routable.words r') k word' := by
  constructor
  · intro hnone
    by_cases hcontainer : isContainer (Routable.words r)
    · exact h.routing_of_container hcontainer (hnone 1)
    by_cases hread : isStreamRead (Routable.words r)
    · exact h.routing_of_streamRead hread hnone
    refine h.routing_of_tail fun i hi => h.data i ?_
    rintro (rfl | ⟨hc, -⟩ | ⟨hs, -⟩)
    · omega
    · exact hcontainer hc
    · exact hread hs
  · intro k hk
    cases hk with
    | subcommand hfirst hcontainer hsecond hserved hunknown =>
      obtain ⟨name, second', hw, hw'⟩ :=
        h.hashed_subcommand hfirst hcontainer hsecond hserved hunknown
      exact ⟨name, [], [], _, second', hw, hw'⟩
    | keyword hread hkeyword hlike hbehind hhalf =>
      exact h.hashed_keyword hread hkeyword hlike hbehind hhalf

/-- Two spellings of a keyless command go to two slots. -/
theorem Routing.of_recased_module :
    let c := Command.ofWords ["MODULE", "LIST"]
    let c' := Command.ofWords ["MODULE", "list"]
    Recased (Routable.words c) (Routable.words c') ∧ Mistaken (Routable.words c) 1 ∧
      Routing.of c = .ok (.single (.route ⟨8975, .master⟩)) ∧
      Routing.of c' = .ok (.single (.route ⟨12291, .master⟩)) := by
  intro c c'
  have hcontainer : isContainer (Routable.words c) := by decide +kernel
  have h : Recased (Routable.words c) (Routable.words c') := by
    constructor
    · intro i hi
      match i with
      | 0 => exact absurd (.inl rfl) hi
      | 1 => exact absurd (.inr (.inl ⟨hcontainer, rfl⟩)) hi
      | i + 2 => rfl
    · intro i _
      match i with
      | 0 => rfl
      | 1 => decide +kernel
      | i + 2 => rfl
  have hfirst : word? (Routable.words c) 0 = some (Bytes.ofText "MODULE") := rfl
  have hsecond : word? (Routable.words c) 1 = some (Bytes.ofText "LIST") := rfl
  have hmistaken : Mistaken (Routable.words c) 1 :=
    .subcommand hfirst (by decide +kernel) hsecond (by decide +kernel) (by decide +kernel)
  obtain ⟨name, front, back, word, word', hw, hw'⟩ := (Routing.of_recased h).2 1 hmistaken
  obtain rfl : word = Bytes.ofText "LIST" := Option.some.inj hw.word?.symm
  obtain rfl : word' = Bytes.ofText "list" := Option.some.inj hw'.word?.symm
  have hslot : Slot.ofKey (Bytes.ofText "LIST") = 8975 := by decide +kernel
  have hslot' : Slot.ofKey (Bytes.ofText "list") = 12291 := by decide +kernel
  refine ⟨h, hmistaken, ?_, ?_⟩
  · rw [← hslot]
    exact hw.alone hcontainer
  · rw [← hslot']
    exact hw'.alone (by decide +kernel)

end SlotCluster
