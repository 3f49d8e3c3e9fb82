import Mathlib.Data.List.Infix
import SlotCluster.Client.Attempt
import SlotCluster.Proofs.MovedSlots
import SlotCluster.Proofs.Spellings

/-!
# Names and addresses of nodes

The name of a node is an address that leads back to the node. A scheme, a slash at the end and
brackets around the host may be added, and the address says the same. So a redirect that names a
known node leads to this node.
-/

namespace SlotCluster

namespace Address

/-! ## What an address says -/

/-- One text is the other without `front`, if it begins with it. -/
def Unprefixed (front s t : List Char) : Prop := s = front ++ t ∨ ¬ front <+: s ∧ t = s

/-- One text is the other without `back`, if it ends with it. -/
def Unsuffixed (back s t : List Char) : Prop := s = t ++ back ∨ ¬ back <:+ s ∧ t = s

def InBrackets (s : List Char) : Prop := ∃ inner, s = '[' :: inner ++ [']']

/-- One text is the other without the brackets around it, if there are any. -/
def Unbracketed (s t : List Char) : Prop := s = '[' :: t ++ [']'] ∨ ¬ InBrackets s ∧ t = s

/-- Without one scheme and one slash the address is a host and a port with a colon between them.
The host is not empty, and may be in brackets. The port is a number of 16 bits, of ASCII digits,
and may have a plus sign. -/
inductive Says (address host : String) (port : UInt16) : Prop
  | intro {bare trimmed front digits : List Char}
      (schemeless : Unprefixed scheme address.toList bare)
      (slashless : Unsuffixed ['/'] bare trimmed) (parts : trimmed = front ++ ':' :: digits)
      (number : Decimal.IsUnsigned (Bytes.ofText (String.ofList digits)) port.toNat)
      (name : Unbracketed front host.toList) (some : host ≠ "")

theorem unprefixed_stripScheme (s : List Char) : Unprefixed scheme s (stripScheme s) := by
  unfold stripScheme
  split
  · next h =>
    obtain ⟨t, rfl⟩ := List.isPrefixOf_iff_prefix.mp h
    rw [List.drop_left]
    exact .inl rfl
  · next h => exact .inr ⟨fun hp => h (List.isPrefixOf_iff_prefix.mpr hp), rfl⟩

theorem unsuffixed_stripSlash (s : List Char) : Unsuffixed ['/'] s (stripSlash s) := by
  unfold stripSlash
  split
  · next h =>
    obtain ⟨t, rfl⟩ := List.getLast?_eq_some_iff.mp h
    rw [List.dropLast_concat]
    exact .inl rfl
  · next h =>
    refine .inr ⟨?_, rfl⟩
    rintro ⟨t, rfl⟩
    exact h List.getLast?_concat

theorem unbracketed_stripBrackets (s : List Char) : Unbracketed s (stripBrackets s) := by
  unfold stripBrackets
  split
  · next inner =>
    split
    · next h =>
      obtain ⟨t, rfl⟩ := List.getLast?_eq_some_iff.mp h
      rw [List.dropLast_concat]
      exact .inl rfl
    · next h =>
      refine .inr ⟨?_, rfl⟩
      rintro ⟨t, ht⟩
      rw [(List.cons.inj ht).2] at h
      exact h List.getLast?_concat
  · next h =>
    refine .inr ⟨?_, rfl⟩
    rintro ⟨t, rfl⟩
    exact h _ rfl

section

variable {front back s t t' : List Char}

theorem Unprefixed.unique (h : Unprefixed front s t) (h' : Unprefixed front s t') : t' = t := by
  obtain rfl | ⟨hnot, rfl⟩ := h
  · obtain h' | ⟨hnot, -⟩ := h'
    · exact (List.append_cancel_left h').symm
    · exact absurd (List.prefix_append _ _) hnot
  · obtain rfl | ⟨-, rfl⟩ := h'
    · exact absurd (List.prefix_append _ _) hnot
    · rfl

theorem Unsuffixed.unique (h : Unsuffixed back s t) (h' : Unsuffixed back s t') : t' = t := by
  obtain rfl | ⟨hnot, rfl⟩ := h
  · obtain h' | ⟨hnot, -⟩ := h'
    · exact (List.append_cancel_right h').symm
    · exact absurd (List.suffix_append _ _) hnot
  · obtain rfl | ⟨-, rfl⟩ := h'
    · exact absurd (List.suffix_append _ _) hnot
    · rfl

theorem Unbracketed.unique (h : Unbracketed s t) (h' : Unbracketed s t') : t' = t := by
  obtain rfl | ⟨hnot, rfl⟩ := h
  · obtain h' | ⟨hnot, -⟩ := h'
    · exact (List.append_cancel_right (List.cons.inj h').2).symm
    · exact absurd ⟨t, rfl⟩ hnot
  · obtain rfl | ⟨-, rfl⟩ := h'
    · exact absurd ⟨t', rfl⟩ hnot
    · rfl

end

theorem cutLastColon_cases (s : List Char) :
    (∃ front back, cutLastColon s = some (front, back) ∧ s = front ++ ':' :: back ∧ ':' ∉ back) ∨
      cutLastColon s = none ∧ ':' ∉ s := by
  induction s with
  | nil => exact .inr ⟨rfl, List.not_mem_nil⟩
  | cons c rest ih =>
    rw [cutLastColon]
    obtain ⟨front, back, hcut, rfl, hback⟩ | ⟨hcut, hrest⟩ := ih
    · rw [hcut]
      exact .inl ⟨c :: front, back, rfl, rfl, hback⟩
    · rw [hcut]
      by_cases hc : c = ':'
      · subst hc
        exact .inl ⟨[], rest, if_pos rfl, rfl, hrest⟩
      · refine .inr ⟨if_neg hc, ?_⟩
        rw [List.mem_cons, not_or]
        exact ⟨Ne.symm hc, hrest⟩

theorem cutLastColon_append (front : List Char) {back : List Char} (h : ':' ∉ back) :
    cutLastColon (front ++ ':' :: back) = some (front, back) := by
  induction front with
  | nil =>
    obtain ⟨front', back', -, rfl, -⟩ | ⟨hcut, -⟩ := cutLastColon_cases back
    · exact absurd (by simp) h
    · rw [List.nil_append, cutLastColon, hcut]
      exact if_pos rfl
  | cons c front ih => rw [List.cons_append, cutLastColon, ih]

/-! ## Splitting -/

theorem split?_eq_some_iff {address host : String} {port : UInt16} :
    split? address.toList = some (host, port) ↔ Says address host port := by
  unfold split?
  constructor
  · intro h
    obtain ⟨⟨front, digits⟩, hcut, hrest⟩ := Option.bind_eq_some_iff.mp h
    obtain ⟨port', hport, hrest⟩ := Option.bind_eq_some_iff.mp hrest
    simp only at hrest
    split at hrest
    · cases hrest
    · next hsome =>
      cases hrest
      obtain ⟨front', digits', hcut', hparts, -⟩ | ⟨hnone, -⟩ :=
        cutLastColon_cases (stripSlash (stripScheme address.toList))
      · rw [hcut] at hcut'
        cases hcut'
        refine .intro (unprefixed_stripScheme _) (unsuffixed_stripSlash _) hparts
          (Decimal.readUInt16?_eq_some_iff.mp hport) ?_ ?_
        · rw [String.toList_ofList]
          exact unbracketed_stripBrackets front
        · intro hempty
          apply hsome
          rw [← String.toList_ofList (l := stripBrackets front), hempty]
          rfl
      · rw [hnone] at hcut
        cases hcut
  · rintro ⟨hscheme, hslash, rfl, hnumber, hname, hsome⟩
    obtain rfl := hscheme.unique (unprefixed_stripScheme _)
    have hcolon := hnumber.not_mem (c := ':') rfl (by decide)
    have hempty : host.toList.isEmpty = false := by simpa using hsome
    rw [hslash.unique (unsuffixed_stripSlash _), cutLastColon_append _ hcolon]
    simp only [Option.bind_eq_bind, Option.bind_some,
      Decimal.readUInt16?_eq_some_iff.mpr hnumber, hname.unique (unbracketed_stripBrackets _),
      hempty, Bool.false_eq_true, if_false, String.ofList_toList]

theorem split_eq_ok_iff {address host : String} {port : UInt16} :
    split address = .ok (host, port) ↔ Says address host port := by
  rw [← split?_eq_some_iff, split]
  cases split? address.toList <;> simp

theorem split_of_untold {address : String} (h : ∀ host port, ¬ Says address host port) :
    split address = .error (.invalidAddress address) := by
  rw [split]
  cases hsplit : split? address.toList with
  | none => rfl
  | some parts => exact absurd (split?_eq_some_iff.mp hsplit) (h parts.1 parts.2)

/-! ## The address of a node -/

/-- A host that an address gives back as it is. -/
structure IsHost (host : String) : Prop where
  nonempty : host ≠ ""
  schemeless : ¬ scheme <+: host.toList
  plain : ¬ InBrackets host.toList

theorem slash_of_colon : ∀ i < 8, scheme[i]? = some ':' → scheme[i + 1]? = some '/' := by
  decide

theorem IsHost.not_prefix {host : String} (h : IsHost host) {rest : List Char}
    (hrest : rest.head? ≠ some '/') : ¬ scheme <+: host.toList ++ ':' :: rest := by
  intro hscheme
  obtain hshort | ⟨tail, htail⟩ :=
    List.prefix_or_prefix_of_prefix hscheme (List.prefix_append _ _)
  · exact h.schemeless hshort
  · rw [← htail, List.prefix_append_right_inj] at hscheme
    cases tail with
    | nil => exact h.schemeless (by rw [← htail, List.append_nil])
    | cons c tail =>
      obtain ⟨rfl, hprefix⟩ := List.cons_prefix_cons.mp hscheme
      have hlength := congrArg List.length htail
      have hslash := slash_of_colon host.toList.length (by simp [scheme] at hlength; omega)
        (by simp [← htail])
      rw [← htail, List.getElem?_append_right (by omega), Nat.add_sub_cancel_left,
        List.getElem?_cons_succ, ← List.head?_eq_getElem?] at hslash
      obtain ⟨more, rfl⟩ := hprefix
      apply hrest
      rw [List.head?_append, hslash]
      rfl

/-! ### Ports -/

theorem port_ne {port : UInt16} {c : Char} (hc : c.isDigit = false) :
    c ∉ (toString port.toNat).toList := by
  intro hmem
  rw [Decimal.isDigit_of_mem_toString hmem] at hc
  cases hc

theorem port_ne_nil (port : UInt16) : (toString port.toNat).toList ≠ [] := by
  rw [Nat.toString_eq_repr, Nat.toList_repr]
  exact Nat.toDigits_ne_nil

theorem toList_nameOf (host : String) (port : UInt16) :
    (nameOf host port).toList = host.toList ++ ':' :: (toString port.toNat).toList := by
  simp [nameOf]

theorem nameOf_eq_iff {host host' : String} {port port' : UInt16} :
    nameOf host port = nameOf host' port' ↔ host = host' ∧ port = port' := by
  constructor
  · intro h
    have hcolon (port : UInt16) : ':' ∉ (toString port.toNat).toList := port_ne rfl
    have hcut := congrArg (fun s : String => cutLastColon s.toList) h
    simp only [toList_nameOf, cutLastColon_append _ (hcolon _), Option.some.injEq,
      Prod.mk.injEq] at hcut
    obtain ⟨hhost, hdigits⟩ := hcut
    simp only [Nat.toString_eq_repr, Nat.toList_repr] at hdigits
    have hport : port.toNat = port'.toNat := by
      simpa using congrArg (fun cs => Nat.ofDigitChars 10 cs 0) hdigits
    exact ⟨String.toList_inj.mp hhost, UInt16.toNat_inj.mp hport⟩
  · rintro ⟨rfl, rfl⟩
    rfl

theorem told_nameOf {text host front back : String} {port : UInt16}
    (hname : Unbracketed text.toList host.toList) (hsome : host ≠ "")
    (hscheme : ∀ rest, rest.head? ≠ some '/' → ¬ scheme <+: text.toList ++ ':' :: rest)
    (hfront : front = "" ∨ front = "redis://") (hback : back = "" ∨ back = "/") :
    Says (front ++ nameOf text port ++ back) host port := by
  have hport := port_ne_nil port
  have hslash : '/' ∉ (toString port.toNat).toList := port_ne rfl
  have hnumber : Decimal.IsUnsigned
      (Bytes.ofText (String.ofList (toString port.toNat).toList)) port.toNat := by
    rw [String.ofList_toList]
    exact Decimal.isUnsigned_toString port.toNat
  have hbare : Unprefixed scheme (front ++ nameOf text port ++ back).toList
      ((nameOf text port).toList ++ back.toList) := by
    obtain rfl | rfl := hfront
    · refine .inr ⟨?_, by simp⟩
      rw [String.empty_append, String.toList_append, toList_nameOf, List.append_assoc,
        List.cons_append]
      apply hscheme
      rw [List.head?_append_of_ne_nil _ hport]
      exact fun hhead => hslash (List.mem_of_head? hhead)
    · exact .inl (by simp [scheme])
  have htrimmed : Unsuffixed ['/'] ((nameOf text port).toList ++ back.toList)
      (nameOf text port).toList := by
    obtain rfl | rfl := hback
    · refine .inr ⟨?_, by simp⟩
      rintro ⟨before, hbefore⟩
      have hlast := congrArg List.getLast? hbefore
      rw [List.getLast?_concat, String.toList_empty, List.append_nil, toList_nameOf,
        List.getLast?_append_of_ne_nil _ (List.cons_ne_nil _ _), List.getLast?_cons_of_ne_nil hport]
        at hlast
      exact hslash (List.mem_of_getLast? hlast.symm)
    · exact .inl (by simp)
  exact .intro hbare htrimmed (toList_nameOf text port) hnumber hname hsome

theorem IsHost.addresses {host front back : String} (h : IsHost host) (port : UInt16)
    (hfront : front = "" ∨ front = "redis://") (hback : back = "" ∨ back = "/") :
    Says (front ++ nameOf host port ++ back) host port ∧
      Says (front ++ nameOf ("[" ++ host ++ "]") port ++ back) host port := by
  constructor
  · exact told_nameOf (.inr ⟨h.plain, rfl⟩) h.nonempty (fun _ => h.not_prefix) hfront hback
  · refine told_nameOf (.inl (by simp)) h.nonempty (fun rest _ => ?_) hfront hback
    simp [scheme]

end Address

/-! ## Redirects -/

namespace Blank

theorem not_isAsciiBlank_of_isUnsigned {cs : List Char} {n : Nat}
    (h : Decimal.IsUnsigned (Bytes.ofText (String.ofList cs)) n) :
    ∀ c ∈ cs, isAsciiBlank c = false := by
  intro c hc
  by_contra hblank
  simp only [isAsciiBlank, Bool.not_eq_false, Bool.or_eq_true, decide_eq_true_eq] at hblank
  obtain (((rfl | rfl) | rfl) | rfl) | rfl := hblank
  all_goals exact h.not_mem rfl (by decide) hc

variable {w : List Char} (hw : ∀ c ∈ w, isAsciiBlank c = false)

include hw

theorem wordsFrom_append (word rest : List Char) :
    wordsFrom word (w ++ rest) = wordsFrom (w.reverse ++ word) rest := by
  induction w generalizing word with
  | nil => rfl
  | cons c w ih =>
    obtain ⟨hc, hrest⟩ := List.forall_mem_cons.mp hw
    rw [List.cons_append, wordsFrom, if_neg (by simp [hc]), ih hrest, List.reverse_cons,
      List.append_assoc]
    rfl

theorem wordsFrom_word (hsome : w ≠ []) : wordsFrom [] w = [w] := by
  have happend := wordsFrom_append hw [] []
  rw [List.append_nil, List.append_nil] at happend
  simp [happend, wordsFrom, hsome]

theorem wordsFrom_before_blank (hsome : w ≠ []) (rest : List Char) :
    wordsFrom [] (w ++ ' ' :: rest) = w :: wordsFrom [] rest := by
  rw [wordsFrom_append hw, List.append_nil, wordsFrom, if_pos (by decide)]
  simp [hsome]

end Blank

namespace ServerError

theorem ofLine_code (kind : ServerErrorKind) (detail : String) :
    ofLine (kind.code ++ " " ++ detail) = known kind (some detail) := by
  have hall : kind.code.toList.all (fun c => c ≠ ' ') = true := by
    cases kind <;> decide
  have hcode := List.all_eq_true.mp hall
  have hkind : ServerErrorKind.ofCode? kind.code = some kind := by
    cases kind <;> decide
  have hline : (kind.code ++ " " ++ detail).toList = kind.code.toList ++ ' ' :: detail.toList := by
    simp
  simp only [ofLine, hline, List.takeWhile_append_of_pos hcode, List.dropWhile_append_of_pos hcode]
  simp [hkind]

theorem redirect?_ofLine {kind : ServerErrorKind} (hkind : kind = .moved ∨ kind = .ask)
    {numeral address : String} {slot : UInt16}
    (hslot : Decimal.IsUnsigned (Bytes.ofText numeral) slot.toNat) (hsome : address ≠ "")
    (haddress : ∀ c ∈ address.toList, Blank.isAsciiBlank c = false) :
    (ofLine (kind.code ++ " " ++ (numeral ++ " " ++ address))).redirect? =
      some ⟨slot, address⟩ := by
  have hnumeral : ∀ c ∈ numeral.toList, Blank.isAsciiBlank c = false := by
    apply Blank.not_isAsciiBlank_of_isUnsigned (n := slot.toNat)
    rwa [String.ofList_toList]
  have hdigits : numeral.toList ≠ [] := by
    intro hempty
    rw [String.toList_eq_nil_iff.mp hempty] at hslot
    exact hslot.ne_nil rfl
  have hwords : Blank.asciiWords (numeral ++ " " ++ address) = [numeral, address] := by
    have htext : (numeral ++ " " ++ address).toList =
        numeral.toList ++ ' ' :: address.toList := by simp
    rw [Blank.asciiWords, htext, Blank.wordsFrom_before_blank hnumeral hdigits,
      Blank.wordsFrom_word haddress (by simpa using hsome)]
    simp
  have hcue : some kind = some .moved ∨ some kind = some .ask :=
    hkind.imp (congrArg some) (congrArg some)
  rw [ofLine_code, redirect?]
  simp only [kind?, hcue, if_true, detail?, Option.map_some, Option.getD_some, hwords,
    Decimal.readUInt16?_eq_some_iff.mpr hslot]

theorem aim_of_redirect? {e : ServerError} {m : Redirect} (h : e.redirect? = some m) (s : Settings)
    (left : Nat) (st : RetryState) :
    (Attempt.judge s left st (.error (.server e))).state.aim.1 = .address m.address := by
  have hredirect : (Fault.server e).redirect? = some m := h
  unfold redirect? at h
  split at h
  · next hcue =>
    cases e with
    | extension code detail => simp [kind?] at hcue
    | known kind detail =>
      obtain hmoved | hask := hcue
      · cases hmoved
        simp only [Attempt.judge, Attempt.fault?, Attempt.judgeFault, hredirect]
        rfl
      · cases hask
        simp only [Attempt.judge, Attempt.fault?, Attempt.judgeFault, hredirect]
        rfl
  · cases h

end ServerError

/-! ## Names lead back -/

namespace Node

theorem name_eq_iff {n n' : Node} : n.name = n'.name ↔ n.host = n'.host ∧ n.port = n'.port := by
  rw [n.name_eq, n'.name_eq, Address.nameOf_eq_iff]

theorem split_name {n : Node} (h : Address.IsHost n.host) :
    Address.split n.name = .ok (n.host, n.port) := by
  obtain ⟨htold, -⟩ := h.addresses n.port (.inl rfl) (.inl rfl)
  rw [String.empty_append, String.append_empty, ← n.name_eq] at htold
  exact Address.split_eq_ok_iff.mpr htold

theorem ofAddress_name {n : Node} (h : Address.IsHost n.host) :
    Node.ofAddress n.name = .ok (Node.new n.host n.port .master) := by
  rw [ofAddress, split_name h]
  rfl

theorem toList_name (n : Node) :
    n.name.toList = n.host.toList ++ ':' :: (toString n.port.toNat).toList := by
  rw [n.name_eq, Address.toList_nameOf]

theorem name_ne (n : Node) : n.name ≠ "" := by
  intro hempty
  have hlist := n.toList_name
  rw [hempty] at hlist
  simp at hlist

theorem not_isAsciiBlank_name (n : Node)
    (h : ∀ c ∈ n.host.toList, Blank.isAsciiBlank c = false) :
    ∀ c ∈ n.name.toList, Blank.isAsciiBlank c = false := by
  have hport : ∀ c ∈ (toString n.port.toNat).toList, Blank.isAsciiBlank c = false := by
    apply Blank.not_isAsciiBlank_of_isUnsigned (n := n.port.toNat)
    rw [String.ofList_toList]
    exact Decimal.isUnsigned_toString n.port.toNat
  rw [n.toList_name, List.forall_mem_append, List.forall_mem_cons]
  exact ⟨h, rfl, hport⟩

end Node

/-- The address is that of a known node: it is tried there, and a slot that has moved there gets
this node. -/
structure Registry.LeadsTo (r : Registry) (address : String) (n : Node) : Prop where
  split : Address.split address = .ok (n.host, n.port)
  node : ∃ node, Node.ofAddress address = .ok node ∧ node.name = n.name ∧ r.node? node.name = some n
  entered : (r.setNode n.host n.port .master).1 = n.withRole .master

theorem Registry.leadsTo_name {r : Registry} {n : Node} (hknown : r.node? n.name = some n)
    (hhost : Address.IsHost n.host) : r.LeadsTo n.name n := by
  have hname : (Node.new n.host n.port .master).name = n.name := n.name_eq.symm
  refine ⟨Node.split_name hhost, ⟨_, Node.ofAddress_name hhost, hname, by rwa [hname]⟩, ?_⟩
  rw [setNode_eq, masterAt, ← n.name_eq, hknown]
  rfl

open Address in
/-- **A name leads back to its node.** With a scheme, a slash or brackets added it says the same.
An address that says nothing is refused. -/
theorem names_lead_back :
    (∀ (host : String) (port : UInt16), IsHost host →
      ∀ front back, (front = "" ∨ front = "redis://") → (back = "" ∨ back = "/") →
        split (front ++ nameOf host port ++ back) = .ok (host, port) ∧
        split (front ++ nameOf ("[" ++ host ++ "]") port ++ back) = .ok (host, port)) ∧
    (∀ n : Node, IsHost n.host → ∃ node, Node.ofAddress n.name = .ok node ∧
      node.host = n.host ∧ node.port = n.port ∧ node.name = n.name) ∧
    (∀ n n' : Node, n.name = n'.name ↔ n.host = n'.host ∧ n.port = n'.port) ∧
    (∀ (r : Registry) (n : Node), r.node? n.name = some n → IsHost n.host →
      (∀ (e : ServerError) (slot : UInt16), e.redirect? = some ⟨slot, n.name⟩ →
        r.LeadsTo n.name n ∧ ∀ s left st,
          (Attempt.judge s left st (.error (.server e))).state.aim.1 = .address n.name) ∧
      ((∀ c ∈ n.host.toList, Blank.isAsciiBlank c = false) →
        ∀ (kind : ServerErrorKind) (numeral : String) (slot : UInt16),
          (kind = .moved ∨ kind = .ask) →
          Decimal.IsUnsigned (Bytes.ofText numeral) slot.toNat →
          (ServerError.ofLine (kind.code ++ " " ++ (numeral ++ " " ++ n.name))).redirect? =
            some ⟨slot, n.name⟩)) ∧
    ∀ address : String,
      (∀ host port, split address = .ok (host, port) ↔ Says address host port) ∧
      ((¬ ∃ host port, Says address host port) →
        split address = .error (.invalidAddress address) ∧
        Node.ofAddress address = .error (.invalidAddress address)) ∧
      (Fault.invalidAddress address).kind = .invalidConfig := by
  refine ⟨?_, ?_, fun n n' => Node.name_eq_iff, ?_, ?_⟩
  · intro host port hhost front back hfront hback
    obtain ⟨halone, hbrackets⟩ := hhost.addresses port hfront hback
    exact ⟨split_eq_ok_iff.mpr halone, split_eq_ok_iff.mpr hbrackets⟩
  · intro n hhost
    exact ⟨_, Node.ofAddress_name hhost, rfl, rfl, n.name_eq.symm⟩
  · intro r n hknown hhost
    refine ⟨fun e slot he => ⟨r.leadsTo_name hknown hhost, ServerError.aim_of_redirect? he⟩, ?_⟩
    intro hblank kind numeral slot hkind hslot
    exact ServerError.redirect?_ofLine hkind hslot n.name_ne (n.not_isAsciiBlank_name hblank)
  · intro address
    refine ⟨fun host port => split_eq_ok_iff, fun hnone => ?_, rfl⟩
    have hsplit := split_of_untold fun host port htold => hnone ⟨host, port, htold⟩
    rw [Node.ofAddress, hsplit]
    exact ⟨rfl, rfl⟩

/-- A host with colons, once in brackets and once in a redirect. -/
theorem names_lead_back_colons :
    let n := (Node.new "dead::cafe:beef" 30001 .replica).withId "e7d1"
    let r := { Registry.new [] 0 false with nodes := NodeTable.empty.insert n.name n }
    let e := ServerError.ofLine ("MOVED" ++ " " ++ ("42" ++ " " ++ n.name))
    Address.split "redis://[dead::cafe:beef]:30001/" = .ok ("dead::cafe:beef", 30001) ∧
      (∃ node, Node.ofAddress n.name = .ok node ∧ node.name = n.name) ∧
      e.redirect? = some ⟨42, n.name⟩ ∧ r.LeadsTo n.name n ∧
      Address.split "localhost" = .error (.invalidAddress "localhost") := by
  intro n r e
  obtain ⟨hsplit, hnode, -, hredirect, haddress⟩ := names_lead_back
  have hhost : Address.IsHost "dead::cafe:beef" := by
    refine ⟨by decide, by decide, ?_⟩
    rintro ⟨inner, hinner⟩
    have hhead : some 'd' = some '[' := congrArg List.head? hinner
    exact absurd hhead (by decide)
  have hknown : r.node? n.name = some n := NodeTable.empty.get?_insert_self n.name n
  obtain ⟨hleads, hline⟩ := hredirect r n hknown hhost
  have hsolid : n.host.toList.all (fun c => Blank.isAsciiBlank c = false) = true := by decide
  have he : e.redirect? = some ⟨42, n.name⟩ :=
    hline (by simpa using hsolid) .moved "42" 42 (.inl rfl) (Decimal.isUnsigned_toString 42)
  refine ⟨(hsplit _ 30001 hhost _ _ (.inr rfl) (.inr rfl)).2, ?_, he, (hleads e 42 he).1, ?_⟩
  · obtain ⟨node, hok, -, -, hname⟩ := hnode n hhost
    exact ⟨node, hok, hname⟩
  · apply (((haddress "localhost").2.1) _).1
    rintro ⟨host, port, htold⟩
    have hrefused : Address.split "localhost" = .error (.invalidAddress "localhost") := by
      decide
    rw [((haddress "localhost").1 host port).mpr htold] at hrefused
    cases hrefused

end SlotCluster
