import SlotCluster.Proofs.KeyLayouts
import SlotCluster.Proofs.LetterCase

/-!
# Stream reads

A stream read names streams behind the keyword `STREAMS`, and then one id for each of them. The
keyword is looked for from the front, and of what stands behind it the first half is hashed. A group
or a consumer may be called like the keyword. It is found in the place of the keyword then, and the
words behind it are hashed, whatever they are.
-/

namespace SlotCluster

open Words

/-! ## The syntax -/

/-- A word of a command as the syntax has it. -/
inductive Token
  /-- A fixed word, in any letter case. -/
  | word (text : String)
  | data (bytes : Bytes)

inductive Token.Spelled : Token → Bytes → Prop
  | word {text : String} {arg : Bytes} (same : arg.sameWord (Bytes.ofText text) = true) :
      Spelled (.word text) arg
  | data {bytes : Bytes} : Spelled (.data bytes) bytes

/-- An integer as an argument spells it. -/
structure Numeral where
  bytes : Bytes
  value : Int64
  reads : Decimal.readInt64? bytes = some value

inductive StreamReader
  /-- `XREAD` -/
  | anybody
  /-- `XREADGROUP GROUP group name` -/
  | consumer (group name : Bytes)

inductive StreamOption
  | count (n : Numeral)
  | block (milliseconds : Numeral)
  | noAck

structure StreamRead where
  reader : StreamReader
  /-- In any order. -/
  options : List StreamOption
  /-- The streams, each with the id after which it is read. -/
  streams : List (Bytes × Bytes)
  streams_ne_nil : streams ≠ []

namespace StreamReader

def name : StreamReader → String
  | anybody => "XREAD"
  | consumer .. => "XREADGROUP"

def group : StreamReader → List Token
  | anybody => []
  | consumer group name => [.word "GROUP", .data group, .data name]

/-- The place of the group or the consumer, if it is called like the keyword. -/
def misleads? : StreamReader → Option Nat
  | anybody => none
  | consumer group name =>
    if group.sameWord streamsKeyword then some 2
    else if name.sameWord streamsKeyword then some 3
    else none

end StreamReader

def StreamOption.tokens : StreamOption → List Token
  | count n => [.word "COUNT", .data n.bytes]
  | block n => [.word "BLOCK", .data n.bytes]
  | noAck => [.word "NOACK"]

namespace StreamRead

def keys (r : StreamRead) : List Bytes := r.streams.map Prod.fst

def ids (r : StreamRead) : List Bytes := r.streams.map Prod.snd

/-- What stands before the keyword. -/
def front (r : StreamRead) : List Token :=
  .word r.reader.name :: r.reader.group ++ r.options.flatMap StreamOption.tokens

def tokens (r : StreamRead) : List Token :=
  r.front ++ .word "STREAMS" :: (r.keys ++ r.ids).map .data

def Written (r : StreamRead) (cmd : Command) : Prop := List.Forall₂ Token.Spelled r.tokens cmd

end StreamRead

/-! ## Words like the keyword -/

namespace Token

def isLike (candidate : Bytes) : Token → Bool
  | .word text => (Bytes.ofText text).sameWord candidate
  | .data bytes => bytes.sameWord candidate

theorem Spelled.sameWord_eq {t : Token} {arg : Bytes} (h : t.Spelled arg) (candidate : Bytes) :
    arg.sameWord candidate = t.isLike candidate := by
  cases h with
  | data => rfl
  | word same =>
    unfold Bytes.sameWord at same
    rw [isLike, Bytes.sameWord, Bytes.sameWord, beq_iff_eq.mp same]

theorem findIdx?_of_spelled {tokens : List Token} {args : List Bytes}
    (h : List.Forall₂ Spelled tokens args) (candidate : Bytes) :
    args.findIdx? (·.sameWord candidate) = tokens.findIdx? (isLike candidate) := by
  induction h with
  | nil => rfl
  | cons hspelled _ ih =>
    rw [List.findIdx?_cons, List.findIdx?_cons, hspelled.sameWord_eq, ih]

theorem spelled_data {datas args : List Bytes}
    (h : List.Forall₂ Spelled (datas.map .data) args) : args = datas := by
  rw [List.forall₂_map_left_iff] at h
  induction h with
  | nil => rfl
  | cons hspelled _ ih =>
    cases hspelled
    rw [ih]

end Token

theorem Numeral.head_lt (n : Numeral) : ∃ b rest, n.bytes = b :: rest ∧ b.toNat < 58 := by
  obtain ⟨bytes, value, reads⟩ := n
  cases bytes with
  | nil =>
    have hempty : Decimal.readInt64? [] = none := rfl
    rw [hempty] at reads
    cases reads
  | cons b rest =>
    refine ⟨b, rest, rfl, ?_⟩
    by_contra hb
    have hminus : b ≠ 45 := by
      rintro rfl
      exact hb (by decide)
    have hplus : b ≠ 43 := by
      rintro rfl
      exact hb (by decide)
    have hdigit : Decimal.digit? b = none := by
      refine if_neg fun h => hb ?_
      have hnine := UInt8.le_iff_toNat_le.mp h.2
      exact Nat.lt_succ_of_le hnine
    simp [Decimal.readInt64?, Decimal.readSigned, Decimal.readUnsigned, Decimal.readDigits, hminus,
      hplus, hdigit, Except.map, Except.toOption] at reads

theorem Numeral.not_keyword (n : Numeral) : n.bytes.sameWord streamsKeyword = false := by
  obtain ⟨b, rest, hbytes, hb⟩ := n.head_lt
  have hkeyword : streamsKeyword.upper = 83 :: (Bytes.ofText "TREAMS").upper := by decide +kernel
  have hupper : Bytes.upperByte b = b := by
    refine if_neg fun h => ?_
    have hletter := UInt8.le_iff_toNat_le.mp h.1
    rw [show (97 : UInt8).toNat = 97 from rfl] at hletter
    omega
  rw [Bytes.sameWord, beq_eq_false_iff_ne, hkeyword, hbytes, Bytes.upper, List.map_cons, hupper]
  intro h
  obtain rfl := (List.cons.inj h).1
  exact absurd hb (by decide)

/-! ## The place that is found -/

namespace StreamRead

variable (r : StreamRead)

theorem option_not_like (o : StreamOption) :
    ∀ t ∈ o.tokens, t.isLike streamsKeyword = false := by
  have hword : ∀ text ∈ ["COUNT", "BLOCK", "NOACK"],
      Token.isLike streamsKeyword (.word text) = false := by
    decide +kernel
  cases o with
  | count n =>
    exact List.forall_mem_cons.mpr
      ⟨hword _ (by simp), List.forall_mem_singleton.mpr n.not_keyword⟩
  | block n =>
    exact List.forall_mem_cons.mpr
      ⟨hword _ (by simp), List.forall_mem_singleton.mpr n.not_keyword⟩
  | noAck => exact List.forall_mem_singleton.mpr (hword _ (by simp))

theorem options_not_like :
    ∀ t ∈ r.options.flatMap StreamOption.tokens, t.isLike streamsKeyword = false := by
  intro t ht
  obtain ⟨o, -, ht⟩ := List.mem_flatMap.mp ht
  exact option_not_like o t ht

theorem findIdx?_tokens : r.tokens.findIdx? (Token.isLike streamsKeyword) =
    some (r.reader.misleads?.getD r.front.length) := by
  have hoptions :
      (r.options.flatMap StreamOption.tokens).findIdx? (Token.isLike streamsKeyword) = none :=
    List.findIdx?_eq_none_iff.mpr r.options_not_like
  have hword : ∀ text ∈ ["XREAD", "XREADGROUP", "GROUP"],
      Token.isLike streamsKeyword (.word text) = false := by
    decide +kernel
  have hkeyword : Token.isLike streamsKeyword (.word "STREAMS") = true := by decide +kernel
  cases hreader : r.reader with
  | anybody =>
    simp [tokens, front, hreader, StreamReader.name, StreamReader.group, StreamReader.misleads?,
      List.findIdx?_cons, List.findIdx?_append, hoptions, hword, hkeyword]
  | consumer group name =>
    have hgroup : Token.isLike streamsKeyword (.data group) = group.sameWord streamsKeyword := rfl
    have hname : Token.isLike streamsKeyword (.data name) = name.sameWord streamsKeyword := rfl
    simp only [tokens, front, hreader, StreamReader.name, StreamReader.group,
      StreamReader.misleads?]
    by_cases hg : group.sameWord streamsKeyword
    · simp [List.findIdx?_cons, hword, hgroup, hg]
    by_cases hn : name.sameWord streamsKeyword
    · simp [List.findIdx?_cons, hword, hgroup, hg, hname, hn]
    · simp [List.findIdx?_cons, List.findIdx?_append, hword, hgroup, hg, hname, hn, hoptions,
        hkeyword]

end StreamRead

/-! ## The route -/

namespace Command

/-- The command is refused for its slots. -/
def CrossesSlots (cmd : Command) : Prop :=
  ∃ fault, Routing.of cmd = .error fault ∧ fault.kind = .crossSlot

/-- Where the command goes depends on these words alone. -/
structure DecidedBy (cmd : Command) (role : SlotRole) (words : List Bytes) : Prop where
  routed : ∀ slot, Routing.of cmd = .ok (.single (.route ⟨slot, role⟩)) ↔ Together words slot
  refused : cmd.CrossesSlots ↔ Apart words
  either : (∃ slot, Together words slot) ∨ Apart words

theorem decidedBy_of_routing {cmd : Command} {name : Bytes} {words : List Bytes}
    (h : Routing.of cmd = routeOfKeys name words) (hsome : words ≠ []) :
    cmd.DecidedBy (roleOf name) words := by
  obtain ⟨slot, htogether, hslot⟩ | ⟨hnone, -⟩ | ⟨hapart, slot, other, hslot⟩ :=
    commonSlot_cases name words
  · have hrouting : Routing.of cmd = .ok (.single (.route ⟨slot, roleOf name⟩)) := by
      rw [h, routeOfKeys, hslot]
      rfl
    refine ⟨fun slot' => ?_, ?_, .inl ⟨slot, htogether⟩⟩
    · rw [hrouting]
      constructor
      · rintro ⟨⟩
        exact htogether
      · intro htogether'
        rw [htogether.unique htogether']
    · simp [CrossesSlots, hrouting, htogether.not_apart]
  · exact absurd hnone hsome
  · have hrouting : Routing.of cmd = .error (.keysInSlots name slot other) := by
      rw [h, routeOfKeys, hslot]
      rfl
    refine ⟨fun slot' => ?_, ?_, .inr hapart⟩
    · rw [hrouting]
      constructor
      · rintro ⟨⟩
      · intro htogether
        exact absurd hapart htogether.not_apart
    · rw [CrossesSlots, hrouting]
      exact ⟨fun _ => hapart, fun _ => ⟨_, rfl, rfl⟩⟩

end Command

def StreamReader.role : StreamReader → SlotRole
  | anybody => .replicaOptional
  | consumer .. => .master

namespace StreamRead

variable {r : StreamRead} {cmd : Command}

theorem known_name (reader : StreamReader) :
    (Bytes.ofText reader.name).upper = Bytes.ofText reader.name ∧
      CommandTable.containers.contains (Bytes.ofText reader.name) = false ∧
      CommandTable.isBlocked (Bytes.ofText reader.name) = false ∧
      CommandTable.familyOf (Bytes.ofText reader.name) = .streams ∧
      Command.roleOf (Bytes.ofText reader.name) = reader.role := by
  cases reader with
  | anybody => decide +kernel
  | consumer group name =>
    simp only [StreamReader.name, StreamReader.role]
    decide +kernel

theorem checkedName_of_written (h : r.Written cmd) :
    checkedName (Routable.words cmd) = .ok (Bytes.ofText r.reader.name) := by
  obtain ⟨first, rest, hfirst, -, rfl⟩ := List.forall₂_cons_left_iff.mp h
  obtain ⟨hupper, hcontainer, hblocked, -⟩ := known_name r.reader
  have hsame : first.upper = Bytes.ofText r.reader.name := by
    cases hfirst with
    | word same => exact (beq_iff_eq.mp same).trans hupper
  have hword : word? (Routable.words (first :: rest)) 0 = some first := word?_some (first :: rest) 0
  refine checkedName_eq_ok_iff.mpr ⟨first, hword, ?_, hsame ▸ hblocked, hblocked⟩
  rw [name?_eq, hword, Option.map_some, hsame, hcontainer]
  rfl

theorem routing_of_written (h : r.Written cmd) :
    let behind := cmd.drop (r.reader.misleads?.getD r.front.length + 1)
    Routing.of cmd =
      routeOfKeys (Bytes.ofText r.reader.name) (behind.take (behind.length / 2)) := by
  intro behind
  obtain ⟨-, -, -, hfamily, -⟩ := known_name r.reader
  have hposition : position? (Routable.words cmd) (Bytes.ofText "STREAMS") =
      some (r.reader.misleads?.getD r.front.length) := by
    change List.findIdx? _ (cmd.map some) = _
    rw [List.findIdx?_map, ← r.findIdx?_tokens]
    exact Token.findIdx?_of_spelled h streamsKeyword
  refine routing_of_designated (checkedName_of_written h) (.inr hfamily) ?_
  rw [hfamily, designated, hposition]
  simp only [wordsFrom_some]
  rfl

theorem drop_of_written (h : r.Written cmd) :
    cmd.drop (r.front.length + 1) = r.keys ++ r.ids := by
  have hbehind := List.forall₂_drop (r.front.length + 1) h
  rw [tokens, List.drop_length_add_append] at hbehind
  exact Token.spelled_data hbehind

theorem length_of_written (h : r.Written cmd) :
    cmd.length = r.front.length + 1 + 2 * r.streams.length := by
  rw [← h.length_eq]
  simp [tokens, keys, ids]
  omega

theorem misleads_lt {i : Nat} (h : r.reader.misleads? = some i) : i < r.front.length := by
  cases hreader : r.reader with
  | anybody =>
    rw [hreader] at h
    cases h
  | consumer group name =>
    have hi : i = 2 ∨ i = 3 := by
      rw [hreader, StreamReader.misleads?] at h
      split at h
      · exact .inl (Option.some.inj h).symm
      · split at h
        · exact .inr (Option.some.inj h).symm
        · cases h
    simp only [front, hreader, StreamReader.group, List.length_cons, List.length_append]
    omega

theorem decided_by_keys (h : r.Written cmd) (hplain : r.reader.misleads? = none) :
    cmd.DecidedBy r.reader.role r.keys := by
  obtain ⟨-, -, -, -, hrole⟩ := known_name r.reader
  have hrouting := routing_of_written h
  have hhalf : (r.keys ++ r.ids).take ((r.keys ++ r.ids).length / 2) = r.keys := by
    apply List.take_left'
    simp [keys, ids]
    omega
  simp only [hplain, Option.getD_none, drop_of_written h, hhalf] at hrouting
  rw [← hrole]
  apply Command.decidedBy_of_routing hrouting
  simpa [keys] using r.streams_ne_nil

theorem decided_by_half (h : r.Written cmd) {i : Nat} (hi : r.reader.misleads? = some i) :
    ∃ word half, cmd[i + 1]? = some word ∧
      (cmd.drop (i + 1)).take ((cmd.length - (i + 1)) / 2) = word :: half ∧
      cmd.DecidedBy r.reader.role (word :: half) := by
  obtain ⟨-, -, -, -, hrole⟩ := known_name r.reader
  have hrouting := routing_of_written h
  have hsome : 0 < r.streams.length := List.length_pos_iff.mpr r.streams_ne_nil
  have hlength := length_of_written h
  have hfront := misleads_lt hi
  have hplace : i + 1 < cmd.length := by omega
  obtain ⟨n, hn⟩ : ∃ n, (cmd.length - (i + 1)) / 2 = n + 1 :=
    ⟨(cmd.length - (i + 1)) / 2 - 1, by omega⟩
  have hhalf : (cmd.drop (i + 1)).take ((cmd.length - (i + 1)) / 2) =
      cmd[i + 1] :: (cmd.drop (i + 2)).take n := by
    rw [hn, List.drop_eq_getElem_cons hplace, List.take_succ_cons]
  simp only [hi, Option.getD_some, List.length_drop, hhalf] at hrouting
  refine ⟨_, _, List.getElem?_eq_getElem hplace, hhalf, ?_⟩
  rw [← hrole]
  exact Command.decidedBy_of_routing hrouting (List.cons_ne_nil _ _)

/-- **A stream read goes where its keys are,** in one slot or nowhere, unless its group or consumer
is called like the keyword. What stands behind that name is hashed then, and the first word there is
no key. -/
theorem decided_behind_keyword (h : r.Written cmd) :
    (r.reader.misleads? = none → cmd.DecidedBy r.reader.role r.keys) ∧
    ∀ i, r.reader.misleads? = some i →
      i < r.front.length ∧ ∃ word half, cmd[i + 1]? = some word ∧
        (cmd.drop (i + 1)).take ((cmd.length - (i + 1)) / 2) = word :: half ∧
        cmd.DecidedBy r.reader.role (word :: half) :=
  ⟨decided_by_keys h, fun _ hi => ⟨misleads_lt hi, decided_by_half h hi⟩⟩

/-- The one key is not even hashed, and the read is refused. -/
theorem decided_behind_keyword_group :
    let r : StreamRead :=
      { reader := .consumer (Bytes.ofText "streams") (Bytes.ofText "c")
        options := [.count ⟨Bytes.ofText "1", 1, by decide +kernel⟩]
        streams := [(Bytes.ofText "k", Bytes.ofText ">")]
        streams_ne_nil := List.cons_ne_nil _ _ }
    let cmd :=
      Command.ofWords ["XREADGROUP", "GROUP", "streams", "c", "COUNT", "1", "STREAMS", "k", ">"]
    r.Written cmd ∧ Together r.keys 7629 ∧ cmd.CrossesSlots := by
  intro r cmd
  have hword : ∀ text, Token.Spelled (.word text) (Bytes.ofText text) :=
    fun _ => .word (beq_self_eq_true _)
  have h : r.Written cmd :=
    .cons (hword "XREADGROUP") <| .cons (hword "GROUP") <| .cons .data <| .cons .data <|
      .cons (hword "COUNT") <| .cons .data <| .cons (hword "STREAMS") <| .cons .data <|
        .cons .data .nil
  have htogether : Together r.keys 7629 := by
    constructor <;> decide +kernel
  obtain ⟨-, word, half, -, hhalf, hdecided⟩ :=
    (decided_behind_keyword h).2 2 (by decide +kernel)
  have hhashed : word :: half = Command.ofWords ["c", "COUNT", "1"] :=
    hhalf.symm.trans (by decide +kernel)
  rw [hhashed] at hdecided
  have hapart : Apart (Command.ofWords ["c", "COUNT", "1"]) :=
    ⟨Bytes.ofText "c", by decide +kernel, Bytes.ofText "1", by decide +kernel, by decide +kernel⟩
  exact ⟨h, htogether, hdecided.refused.mpr hapart⟩

end StreamRead

end SlotCluster
