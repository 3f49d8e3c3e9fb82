import Mathlib.Algebra.Order.Ring.Nat
import SlotCluster.Proofs.MovedSlots
import SlotCluster.Proofs.PendingRefresh

/-!
# Counts of moves

A registry counts the slots that have moved since the last discovery, and says at every so many
moves that another one is due. Along a run of a client that is alone the count follows from the
events.
-/

namespace SlotCluster

variable {σ : Type}

/-! ## The count of a registry -/

theorem div_ne_div_iff {a b s : Nat} (hs : 0 < s) (hab : a ≤ b) :
    a / s ≠ b / s ↔ ∃ k, a < k * s ∧ k * s ≤ b := by
  constructor
  · intro h
    have hlt : a / s < b / s := lt_of_le_of_ne (Nat.div_le_div_right hab) h
    exact ⟨b / s, (Nat.div_lt_iff_lt_mul hs).mp hlt, Nat.div_mul_le_self b s⟩
  · rintro ⟨k, hak, hkb⟩
    have ha : a / s < k := (Nat.div_lt_iff_lt_mul hs).mpr hak
    have hb : k ≤ b / s := (Nat.le_div_iff_mul_le hs).mpr hkb
    omega

namespace Registry

theorem countMoves_eq_true_iff (r : Registry) {d : UInt64}
    (h : r.moves.toNat + d.toNat < 2 ^ 64) :
    (r.countMoves d).1 = true ↔ 0 < r.steps.toNat ∧
      ∃ k, r.moves.toNat < k * r.steps.toNat ∧ k * r.steps.toNat ≤ r.moves.toNat + d.toNat := by
  have hzero : ∀ n : UInt64, n = 0 ↔ n.toNat = 0 := fun n => UInt64.toNat_inj.symm
  unfold countMoves
  split
  · next hnone =>
    simp only [Bool.false_eq_true, false_iff, not_and, not_exists, hzero] at hnone ⊢
    intro hsteps k
    omega
  · next hsome =>
    obtain ⟨hsteps, -⟩ := not_or.mp hsome
    have hpos : 0 < r.steps.toNat := Nat.pos_of_ne_zero ((hzero r.steps).not.mp hsteps)
    rw [bne_iff_ne, ne_eq, ← UInt64.toNat_inj, UInt64.toNat_div, UInt64.toNat_div,
      UInt64.toNat_add, Nat.mod_eq_of_lt h]
    exact (div_ne_div_iff hpos (Nat.le_add_right _ _)).trans (and_iff_right hpos).symm

/-- So many moves since the last discovery make another one due at once. -/
def IsDueAt (r : Registry) (n : Nat) : Prop := 0 < r.steps.toNat ∧ r.steps.toNat ∣ n

theorem countMoves_one_eq_true_iff (r : Registry) (h : r.moves.toNat + 1 < 2 ^ 64) :
    (r.countMoves 1).1 = true ↔ r.IsDueAt (r.moves.toNat + 1) := by
  refine (r.countMoves_eq_true_iff (d := 1) h).trans (and_congr_right fun _ => ?_)
  constructor
  · rintro ⟨k, hlt, hle⟩
    -- No other number is above the count and at most one more.
    have heq : k * r.steps.toNat = r.moves.toNat + 1 := Nat.le_antisymm hle hlt
    exact ⟨k, by rw [← heq, Nat.mul_comm]⟩
  · rintro ⟨k, hk⟩
    rw [Nat.mul_comm] at hk
    exact ⟨k, by omega, hk.ge⟩

end Registry

/-! ## The count along a run -/

namespace Request

/-- A slot has moved. -/
def IsMove : Request → Prop
  | .recordMove _ _ _ => True
  | _ => False

theorem IsMove.free {r : Request} (h : r.IsMove) : r ≠ .lock ∧ r.installs = false := by
  cases r <;> first | exact h.elim | exact ⟨nofun, rfl⟩

theorem IsMove.not_plain {r : Request} (h : r.IsMove) : ¬ r.IsPlain := by
  cases r <;> first | exact h.elim | exact id

theorem IsMove.not_forget {r : Request} (h : r.IsMove) : r ≠ .forget := by
  rintro rfl
  exact h

theorem IsMove.pending {r : Request} (h : r.IsMove) (before : Bool) :
    r.pending before = before := by
  cases r <;> first | exact h.elim | rfl

/-- The moves since the last discovery, when the request is answered. -/
def movesAfter : Request → Nat → Nat
  | .recordMove _ _ _, before => before + 1
  | .install _ _, _ => 0
  | _, before => before

theorem IsPlain.movesAfter {r : Request} (h : r.IsPlain) (before : Nat) :
    r.movesAfter before = before := by
  cases r <;> first | rfl | exact h.elim

theorem IsMove.movesAfter {r : Request} (h : r.IsMove) (before : Nat) :
    r.movesAfter before = before + 1 := by
  cases r <;> first | exact h.elim | rfl

end Request

def movesAfter (before : Nat) (es : List (Event σ)) : Nat :=
  es.foldl (fun n e => e.request.movesAfter n) before

theorem movesAfter_append (before : Nat) (es es' : List (Event σ)) :
    movesAfter before (es ++ es') = movesAfter (movesAfter before es) es' :=
  List.foldl_append ..

theorem movesAfter_le (before : Nat) (es : List (Event σ)) :
    movesAfter before es ≤ before + es.length := by
  induction es using List.reverseRecOn with
  | nil => exact Nat.le_refl before
  | append_singleton init e ih =>
    rw [movesAfter_append, List.length_append, List.length_singleton]
    change e.request.movesAfter _ ≤ _
    cases e.request <;> simp only [Request.movesAfter] <;> omega

theorem movesAfter_of_plain {es : List (Event σ)} (h : ∀ e ∈ es, e.request.IsPlain)
    (before : Nat) : movesAfter before es = before := by
  induction es with
  | nil => rfl
  | cons e rest ih =>
    obtain ⟨he, hrest⟩ := List.forall_mem_cons.mp h
    change movesAfter (e.request.movesAfter before) rest = before
    rw [he.movesAfter, ih hrest]

theorem Client.recordMove_counts (c : Client σ) (slot : UInt16) (host : String) (port : UInt16) :
    (c.recordMove slot host port).1 = (c.registry.countMoves 1).1 ∧
      (c.recordMove slot host port).2.registry.steps = c.registry.steps ∧
      (c.recordMove slot host port).2.registry.moves = (c.registry.countMoves 1).2.moves := by
  simp only [recordMove, setRegistry, Registry.setNode_eq, Registry.setOwner_eq,
    Registry.countMoves_one]
  refine ⟨?_, trivial, trivial⟩
  unfold Registry.countMoves
  split <;> rfl

theorem Event.isDue_of_move {e : Event σ} (h : e.request.IsMove) :
    e.isDue = (e.client.registry.countMoves 1).1 := by
  obtain ⟨task, r, c⟩ := e
  cases r with
  | recordMove slot host port => exact (c.recordMove_counts slot host port).1
  | _ => exact h.elim

namespace Client

variable [Transport σ]

theorem answer_steps (c : Client σ) (task : Nat) (r : Request) :
    (c.answer task r).2.registry.steps = c.registry.steps := by
  cases r with
  | flagRefresh | takeRefresh | install | forget | lock | unlock => rfl
  | recordMove slot host port => exact (c.recordMove_counts slot host port).2.1
  | _ =>
    refine congrArg Registry.steps (answer_of_plain ?_ c task).1
    trivial

theorem answer_moves (c : Client σ) (task : Nat) (r : Request) (hsteps : c.registry.steps ≠ 0)
    (hsmall : r.movesAfter c.registry.moves.toNat < 2 ^ 64) :
    (c.answer task r).2.registry.moves.toNat = r.movesAfter c.registry.moves.toNat := by
  cases r with
  | flagRefresh | takeRefresh | install | forget | lock | unlock => rfl
  | recordMove slot host port =>
    have hmoves := (c.recordMove_counts slot host port).2.2
    rw [Registry.countMoves_one, if_neg hsteps] at hmoves
    calc (c.answer task (.recordMove slot host port)).2.registry.moves.toNat
        = (c.registry.moves + 1).toNat := congrArg UInt64.toNat hmoves
      _ = (c.registry.moves.toNat + 1) % 2 ^ 64 := UInt64.toNat_add ..
      _ = c.registry.moves.toNat + 1 := Nat.mod_eq_of_lt hsmall
  | _ =>
    refine congrArg (fun r : Registry => r.moves.toNat) (answer_of_plain ?_ c task).1
    trivial

variable {c c' : Client σ} {es : List (Event σ)}

theorem Unbroken.steps (h : Unbroken c es c') : c'.registry.steps = c.registry.steps := by
  induction h with
  | refl c => rfl
  | answer task r c _ ih => exact ih.trans (c.answer_steps task r)

theorem Unbroken.moves (h : Unbroken c es c') (hsteps : c.registry.steps ≠ 0)
    (hsmall : ∀ first, first <+: es → movesAfter c.registry.moves.toNat first < 2 ^ 64) :
    c'.registry.moves.toNat = movesAfter c.registry.moves.toNat es := by
  induction h with
  | refl c => rfl
  | answer task r c _ ih =>
    have hanswer := c.answer_moves task r hsteps (hsmall [⟨task, r, c⟩] (by simp))
    have hrest := ih ((c.answer_steps task r).trans_ne hsteps) (by
      intro first hfirst
      rw [hanswer]
      exact hsmall (⟨task, r, c⟩ :: first) (by simpa using hfirst))
    rw [hrest, hanswer]
    rfl

/-! ## Operations in turn -/

theorem closeLinks_settings (c : Client σ) (links : List Link) :
    (c.closeLinks links).settings = c.settings := by
  unfold closeLinks
  induction links generalizing c with
  | nil => rfl
  | cons link rest ih =>
    rw [List.foldl_cons]
    exact ih (c.closeLink link)

theorem discard_settings (c : Client σ) (lease : Lease) :
    (c.discard lease).settings = c.settings := by
  unfold discard
  split <;> rfl

theorem answer_settings (c : Client σ) (task : Nat) (r : Request) :
    (c.answer task r).2.settings = c.settings := by
  cases r with
  | discard lease => exact discard_settings c lease
  | release lease =>
    change (c.release lease).settings = c.settings
    unfold release
    split
    · split
      · rfl
      · exact discard_settings c lease
    · exact discard_settings c lease
  | closeAll => exact closeLinks_settings _ _
  | checkout node =>
    change (c.checkout task node).2.settings = c.settings
    unfold checkout
    split
    · rfl
    · split <;> exact closeLinks_settings _ _
  | _ => rfl

theorem Unbroken.settings (h : Unbroken c es c') : c'.settings = c.settings := by
  induction h with
  | refl c => rfl
  | answer task r c _ ih => exact ih.trans (c.answer_settings task r)

/-- The client after some operations, each performed when the one before has its answer. -/
def performInTurn (c : Client σ) (ops : List Operation) : Client σ :=
  ops.foldl (fun c op => (c.perform op).2) c

/-- The events of operations that are performed in turn. -/
def history : Client σ → List Operation → List (Event σ)
  | _, [] => []
  | c, op :: rest => c.trace (op.task c.settings) ++ history (c.perform op).2 rest

theorem unbroken_history (c : Client σ) (ops : List Operation) :
    Unbroken c (c.history ops) (c.performInTurn ops) := by
  induction ops generalizing c with
  | nil => exact .refl c
  | cons op rest ih =>
    exact unbroken_append_iff.mpr ⟨_, unbroken_trace (op.task c.settings) c, ih _⟩

end Client

end SlotCluster
