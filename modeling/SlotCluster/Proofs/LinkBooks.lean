import Mathlib.Logic.Function.Basic
import SlotCluster.Proofs.Grips
import SlotCluster.Proofs.ReplyQueues

/-!
# The books of the links

A link that the client has opened and not closed is idle, with no reply to give, or it is in the
hands of one strand, which knows how many replies are due. Whatever is done with a link, the books
are right about it afterwards, and about all others too.
-/

namespace SlotCluster

open QueueTransport

variable {σ ι : Type} [QueueTransport σ]

/-- Where a link is: nowhere any more, among the idle ones, or in the hands of one strand. -/
inductive Located (idle : List Link) (n : σ) (g : ι → Grip) (l : Link) : Prop
  | gone (held : ¬ Held n l) (count : idle.count l = 0) (free : ∀ i, (g i).link? ≠ some l)
  | idle (held : Held n l) (count : idle.count l = 1) (free : ∀ i, (g i).link? ≠ some l)
      (empty : queue n l = [])
  | gripped {i : ι} (held : Held n l) (count : idle.count l = 0)
      (owner : ∀ j, (g j).link? = some l ↔ j = i)
      (due : ∀ k, (g i).due? = some k →
        Transport.isOpen l n = true ∧ (queue n l).length = k)

def Links (idle : List Link) (n : σ) (g : ι → Grip) : Prop := ∀ l, Located idle n g l

variable {idle idle' : List Link} {n n' : σ} {g : ι → Grip} {l link : Link} {i : ι} {g' : Grip}

/-! ## What the books say about a link -/

namespace Links

theorem of_mem_idle (h : Links idle n g) (hl : l ∈ idle) :
    Held n l ∧ idle.count l = 1 ∧ (∀ i, (g i).link? ≠ some l) ∧ queue n l = [] := by
  have hpos : 0 < idle.count l := List.count_pos_iff.mpr hl
  cases h l with
  | gone held count free => omega
  | idle held count free empty => exact ⟨held, count, free, empty⟩
  | gripped held count owner due => omega

theorem of_grip (h : Links idle n g) (hi : (g i).link? = some l) :
    Held n l ∧ idle.count l = 0 ∧ (∀ j, (g j).link? = some l ↔ j = i) ∧
      ∀ k, (g i).due? = some k → Transport.isOpen l n = true ∧ (queue n l).length = k := by
  cases h l with
  | gone held count free => exact absurd hi (free i)
  | idle held count free empty => exact absurd hi (free i)
  | gripped held count owner due =>
    obtain rfl := (owner i).mp hi
    exact ⟨held, count, owner, due⟩

theorem of_not_held (h : Links idle n g) (hl : ¬ Held n l) :
    idle.count l = 0 ∧ ∀ i, (g i).link? ≠ some l := by
  cases h l with
  | gone held count free => exact ⟨count, free⟩
  | idle held count free empty => exact absurd held hl
  | gripped held count owner due => exact absurd held hl

theorem count_eq_one (h : Links idle n g) (hfree : ∀ i, (g i).link? = none) (hl : Held n l) :
    idle.count l = 1 := by
  cases h l with
  | gone held count free => exact absurd hl held
  | idle held count free empty => exact count
  | gripped held count owner due =>
    have howner := (owner _).mpr rfl
    rw [hfree] at howner
    cases howner

end Links

/-! ## Links that stay where they are -/

theorem Located.of_same {g' : ι → Grip} (h : Located idle n g l)
    (hcount : idle'.count l = idle.count l) (hn : Untouched n n' l)
    (hlink : ∀ j, (g' j).link? = some l ↔ (g j).link? = some l)
    (hdue : ∀ j, (g j).link? = some l → (g' j).due? = (g j).due?) : Located idle' n' g' l := by
  cases h with
  | gone held count free =>
    exact .gone (mt hn.held.mp held) (hcount.trans count) fun j => mt (hlink j).mp (free j)
  | idle held count free empty =>
    exact .idle (hn.held.mpr held) (hcount.trans count) (fun j => mt (hlink j).mp (free j))
      (hn.queue.trans empty)
  | @gripped i held count owner due =>
    refine .gripped (hn.held.mpr held) (hcount.trans count)
      (fun j => (hlink j).trans (owner j)) ?_
    rw [hn.isOpen, hn.queue, hdue i ((owner i).mpr rfl)]
    exact due

theorem Located.of_other [DecidableEq ι] (h : Located idle n g l)
    (hcount : idle'.count l = idle.count l) (hn : Untouched n n' l) (hold : (g i).link? ≠ some l)
    (hnew : g'.link? ≠ some l) : Located idle' n' (Function.update g i g') l := by
  refine h.of_same hcount hn ?_ ?_
  · intro j
    rcases eq_or_ne j i with rfl | hj
    · rw [Function.update_self]
      exact iff_of_false hnew hold
    · rw [Function.update_of_ne hj]
  · intro j hj
    have hne : j ≠ i := by
      rintro rfl
      exact hold hj
    rw [Function.update_of_ne hne]

/-! ## Links that change hands -/

namespace Links

theorem of_untouched (h : Links idle n g) (hn : ∀ l, Untouched n n' l) : Links idle n' g :=
  fun l => (h l).of_same rfl (hn l) (fun _ => Iff.rfl) fun _ _ => rfl

theorem perm (h : Links idle n g) (hperm : idle.Perm idle') : Links idle' n g :=
  fun l => (h l).of_same (hperm.count_eq l).symm (.refl n l) (fun _ => Iff.rfl) fun _ _ => rfl

section Idle

variable [LawfulTransport σ]

theorem opened (h : Links idle n g) {node : String}
    (hconnect : Transport.connect node n = (.ok link, n')) : Links (link :: idle) n' g := by
  obtain ⟨hfresh, hheld, hqueue, -, hothers⟩ := LawfulTransport.connect_ok hconnect
  obtain ⟨hcount, hfree⟩ := h.of_not_held hfresh
  intro l
  rcases eq_or_ne l link with rfl | hl
  · exact .idle hheld (by rw [List.count_cons_self, hcount]) hfree hqueue
  · exact (h l).of_same (List.count_cons_of_ne hl.symm) (hothers l hl) (fun _ => Iff.rfl)
      fun _ _ => rfl

theorem closed (h : Links (link :: idle) n g) : Links idle (Transport.close link n) g := by
  obtain ⟨-, hcount, hfree, -⟩ := h.of_mem_idle (.head _)
  rw [List.count_cons_self] at hcount
  intro l
  rcases eq_or_ne l link with rfl | hl
  · exact .gone (LawfulTransport.close_held l n) (by omega) hfree
  · exact (h l).of_same (List.count_cons_of_ne hl.symm).symm (LawfulTransport.close_others n hl)
      (fun _ => Iff.rfl) fun _ _ => rfl

theorem all_closed {dead : List Link} {c : Client σ} (h : Links (dead ++ idle) c.network g) :
    Links idle (c.closeLinks dead).network g := by
  unfold Client.closeLinks
  induction dead generalizing c with
  | nil => exact h
  | cons link rest ih =>
    rw [List.foldl_cons]
    exact ih h.closed

end Idle

variable [DecidableEq ι]

theorem relabel (h : Links idle n g) (hlink : g'.link? = (g i).link?)
    (hdue : g'.due? = (g i).due?) : Links idle n (Function.update g i g') := by
  intro l
  refine (h l).of_same rfl (.refl n l) ?_ ?_
  all_goals
    intro j
    rcases eq_or_ne j i with rfl | hj
  · rw [Function.update_self, hlink]
  · rw [Function.update_of_ne hj]
  · rw [Function.update_self, hdue]
    exact fun _ => rfl
  · rw [Function.update_of_ne hj]
    exact fun _ => rfl

theorem lent (h : Links (link :: idle) n g) (hopen : Transport.isOpen link n = true)
    (hi : (g i).link? = none) (hlink : g'.link? = some link) (hdue : g'.due? = some 0) :
    Links idle n (Function.update g i g') := by
  obtain ⟨hheld, hcount, hfree, hempty⟩ := h.of_mem_idle (.head _)
  rw [List.count_cons_self] at hcount
  intro l
  rcases eq_or_ne l link with rfl | hl
  · refine .gripped (i := i) hheld (by omega) ?_ ?_
    · intro j
      rcases eq_or_ne j i with rfl | hj
      · rw [Function.update_self, hlink]
        exact iff_of_true rfl rfl
      · rw [Function.update_of_ne hj]
        exact iff_of_false (hfree j) hj
    · intro k hk
      rw [Function.update_self, hdue] at hk
      cases hk
      exact ⟨hopen, by rw [hempty, List.length_nil]⟩
  · refine (h l).of_other (List.count_cons_of_ne hl.symm).symm (.refl n l) ?_ ?_
    · simp [hi]
    · simpa [hlink] using hl.symm

theorem touched (h : Links idle n g) (hi : (g i).link? = some link)
    (hheld : Held n' link ↔ Held n link) (hothers : ∀ l ≠ link, Untouched n n' l)
    {due : Option Nat}
    (hdue : ∀ k, due = some k → Transport.isOpen link n' = true ∧ (queue n' link).length = k) :
    Links idle n' (Function.update g i ((g i).setDue due)) := by
  obtain ⟨hold, hcount, howner, -⟩ := h.of_grip hi
  intro l
  rcases eq_or_ne l link with rfl | hl
  · refine .gripped (i := i) (hheld.mpr hold) hcount ?_ ?_
    · intro j
      rcases eq_or_ne j i with rfl | hj
      · rw [Function.update_self, Grip.link_setDue]
        exact iff_of_true hi rfl
      · rw [Function.update_of_ne hj]
        exact howner j
    · intro k hk
      rw [Function.update_self, Grip.due_setDue hi] at hk
      exact hdue k hk
  · have hne : (g i).link? ≠ some l := by simpa [hi] using hl.symm
    exact (h l).of_other rfl (hothers l hl) hne (by rwa [Grip.link_setDue])

theorem free_of_release (h : Links idle n g) (hi : (g i).link? = some link)
    (hg : g'.link? = none) (j : ι) : (Function.update g i g' j).link? ≠ some link := by
  obtain ⟨-, -, howner, -⟩ := h.of_grip hi
  rcases eq_or_ne j i with rfl | hj
  · rw [Function.update_self, hg]
    exact nofun
  · rw [Function.update_of_ne hj]
    exact mt (howner j).mp hj

theorem of_release (h : Links idle n g) (hi : (g i).link? = some link) (hg : g'.link? = none)
    (hcount : ∀ l ≠ link, idle'.count l = idle.count l) (hothers : ∀ l ≠ link, Untouched n n' l)
    (hlink : Located idle' n' (Function.update g i g') link) :
    Links idle' n' (Function.update g i g') := by
  intro l
  rcases eq_or_ne l link with rfl | hl
  · exact hlink
  · refine (h l).of_other (hcount l hl) (hothers l hl) ?_ ?_
    · simpa [hi] using hl.symm
    · simp [hg]

theorem kept (h : Links idle n g) (hi : (g i).link? = some link) (hdue : (g i).due? = some 0)
    (hg : g'.link? = none) : Links (link :: idle) n (Function.update g i g') := by
  obtain ⟨hheld, hcount, -, hopen⟩ := h.of_grip hi
  refine h.of_release hi hg (fun l hl => List.count_cons_of_ne hl.symm) (fun l _ => .refl n l) ?_
  exact .idle hheld (by rw [List.count_cons_self, hcount]) (h.free_of_release hi hg)
    (List.length_eq_zero_iff.mp (hopen 0 hdue).2)

theorem shut [LawfulTransport σ] (h : Links idle n g) (hi : (g i).link? = some link)
    (hg : g'.link? = none) :
    Links idle (Transport.close link n) (Function.update g i g') := by
  obtain ⟨-, hcount, -, -⟩ := h.of_grip hi
  refine h.of_release hi hg (fun _ _ => rfl) (fun l hl => LawfulTransport.close_others n hl) ?_
  exact .gone (LawfulTransport.close_held link n) hcount (h.free_of_release hi hg)

end Links

end SlotCluster
