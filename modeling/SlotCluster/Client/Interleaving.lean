import SlotCluster.Client.State

/-!
# Tasks side by side

Tasks of one client take turns. A turn of a task ends when it has written something, when it
has to wait for the refresh lock or for its alarm, or when it is done. The programs that a task
has started take turns inside its turn in the same way. They neither lock nor pause.

A round gives every task a turn, in order. When no task moves, time passes up to the first alarm.
Rounds go on as long as some task moves. They come to an end because every task moves down a tree
that has no infinite branch.
-/

namespace SlotCluster

/-! ## Lists in which something has moved -/

/-- A list of the same length that is the same up to some place, where its element comes after
the other's. -/
inductive MovedIn {α : Type} (after : α → α → Prop) : List α → List α → Prop
  | here {a' a : α} {l' l : List α} (h : after a' a) (len : l'.length = l.length) :
      MovedIn after (a' :: l') (a :: l)
  | there {a : α} {l' l : List α} (h : MovedIn after l' l) : MovedIn after (a :: l') (a :: l)

theorem MovedIn.length_eq {α : Type} {after : α → α → Prop} {l' l : List α}
    (h : MovedIn after l' l) : l'.length = l.length := by
  induction h with
  | here _ len => simp [len]
  | there _ ih => simp [ih]

theorem MovedIn.acc {α : Type} {after : α → α → Prop} (wf : WellFounded after) (n : Nat) :
    ∀ l : List α, l.length = n → Acc (MovedIn after) l := by
  induction n with
  | zero =>
    intro l hl
    rw [List.length_eq_zero_iff] at hl
    subst hl
    exact ⟨_, fun _ h => nomatch h⟩
  | succ n ih =>
    have cons : ∀ a : α, ∀ l : List α, l.length = n → Acc (MovedIn after) (a :: l) := by
      intro a
      induction a using wf.induction with
      | _ a iha =>
        intro l hl
        induction ih l hl with
        | intro l _ ihl =>
          refine ⟨_, fun l' h => ?_⟩
          cases h with
          | here h len => exact iha _ h _ (len.trans hl)
          | there h => exact ihl _ h (h.length_eq.trans hl)
    intro l hl
    match l, hl with
    | a :: l, hl => exact cons a l (by simpa using hl)

theorem MovedIn.wf {α : Type} {after : α → α → Prop} (wf : WellFounded after) :
    WellFounded (MovedIn after) :=
  ⟨fun l => MovedIn.acc wf l.length l rfl⟩

/-! ## What comes after a program -/

namespace Program

/-- The program that is left when a request has been answered. -/
inductive After {α : Type} : Program α → Program α → Prop
  | call (r : Request) (next : r.Answer → Program α) (a : r.Answer) :
      After (next a) (call r next)

theorem after_wf {α : Type} : WellFounded (@After α) := by
  refine ⟨fun p => ?_⟩
  induction p with
  | done value => exact ⟨_, fun _ h => nomatch h⟩
  | call r next ih => exact ⟨_, fun _ h => by cases h; exact ih _⟩

abbrev Later {α : Type} : Program α → Program α → Prop := Relation.TransGen After

theorem later_wf {α : Type} : WellFounded (@Later α) := after_wf.transGen

end Program

/-! ## What comes after a task -/

namespace Task

inductive After {α : Type} : Task α → Task α → Prop
  | call (r : Request) (next : r.Answer → Task α) (a : r.Answer) : After (next a) (call r next)
  | gathered (programs : List (Program BatchResult)) (next : List BatchResult → Task α)
      (results : List BatchResult) : After (next results) (gather programs next)
  | moved {programs' programs : List (Program BatchResult)} (next : List BatchResult → Task α)
      (h : MovedIn Program.Later programs' programs) :
      After (gather programs' next) (gather programs next)

theorem after_wf {α : Type} : WellFounded (@After α) := by
  refine ⟨fun t => ?_⟩
  induction t with
  | done value => exact ⟨_, fun _ h => nomatch h⟩
  | call r next ih => exact ⟨_, fun _ h => by cases h; exact ih _⟩
  | gather programs next ih =>
    induction (MovedIn.wf Program.later_wf).apply programs with
    | intro programs _ ihp =>
      refine ⟨_, fun _ h => ?_⟩
      cases h with
      | gathered => exact ih _
      | moved _ h => exact ihp _ h

abbrev Later {α : Type} : Task α → Task α → Prop := Relation.TransGen After

theorem later_wf {α : Type} : WellFounded (@Later α) := after_wf.transGen

end Task

/-! ## Turns -/

/-- What a turn leaves: the rest, the client, and whether anything was done. -/
structure Turn (σ α : Type) where
  rest : α
  client : Client σ
  moved : Bool

variable {σ : Type} [Transport σ]

namespace Program

/-- One turn. `moved` says whether the turn has done something already. A request that has to
wait is made again at the next turn. -/
def turn {α : Type} (task : Nat) (moved : Bool) : Program α → Client σ → Turn σ (Program α)
  | done value, c => ⟨done value, c, moved⟩
  | call r next, c =>
    let queued := c.enqueue task r
    if queued.blocks task r then ⟨call r next, queued, moved⟩
    else
      let answered := queued.answer task r
      if r.suspends then ⟨next answered.1, answered.2, true⟩
      else turn task true (next answered.1) answered.2

/-- One turn for each program, in order. -/
def turnAll {α : Type} (task : Nat) :
    List (Program α) → Client σ → Turn σ (List (Program α))
  | [], c => ⟨[], c, false⟩
  | p :: rest, c =>
    let t := turn task false p c
    let ts := turnAll task rest t.client
    ⟨t.rest :: ts.rest, ts.client, t.moved || ts.moved⟩

def results? {α : Type} : List (Program α) → Option (List α)
  | [] => some []
  | done value :: rest => (results? rest).map (value :: ·)
  | call _ _ :: _ => none

end Program

namespace Task

/-- One turn. Started programs get one turn each, and if that ends the last of them, the task
goes on. -/
def turn {α : Type} (task : Nat) (moved : Bool) : Task α → Client σ → Turn σ (Task α)
  | done value, c => ⟨done value, c, moved⟩
  | call r next, c =>
    let queued := c.enqueue task r
    if queued.blocks task r then ⟨call r next, queued, moved⟩
    else
      let answered := queued.answer task r
      if r.suspends then ⟨next answered.1, answered.2, true⟩
      else turn task true (next answered.1) answered.2
  | gather programs next, c =>
    let t := Program.turnAll task programs c
    match Program.results? t.rest with
    | some results => turn task true (next results) t.client
    | none => ⟨gather t.rest next, t.client, moved || t.moved⟩

/-- One turn for each task, in order. Tasks are numbered from `first`. -/
def round {α : Type} (first : Nat) : List (Task α) → Client σ → Turn σ (List (Task α))
  | [], c => ⟨[], c, false⟩
  | t :: rest, c =>
    let turned := turn first false t c
    let ts := round (first + 1) rest turned.client
    ⟨turned.rest :: ts.rest, ts.client, turned.moved || ts.moved⟩

def result? {α : Type} : Task α → Option α
  | done value => some value
  | _ => none

end Task

/-! ## A turn goes down the tree or stays where it is -/

namespace Program

theorem turn_later_or_same {α : Type} (task : Nat) (p : Program α) :
    ∀ (moved : Bool) (c : Client σ), Later (turn task moved p c).rest p ∨
      (turn task moved p c).rest = p ∧ (turn task moved p c).moved = moved := by
  induction p with
  | done value => exact fun _ _ => .inr ⟨rfl, rfl⟩
  | call r next ih =>
    intro moved c
    simp only [turn]
    split
    · exact .inr ⟨rfl, rfl⟩
    · split
      · exact .inl (.single (.call r next _))
      · rcases ih ((c.enqueue task r).answer task r).1 true ((c.enqueue task r).answer task r).2
          with h | ⟨h, _⟩
        · exact .inl (h.trans (.single (.call r next _)))
        · rw [h]
          exact .inl (.single (.call r next _))

theorem turnAll_moved_or_same {α : Type} (task : Nat) (ps : List (Program α)) :
    ∀ c : Client σ, MovedIn Later (turnAll task ps c).rest ps ∨
      (turnAll task ps c).rest = ps ∧ (turnAll task ps c).moved = false := by
  induction ps with
  | nil => exact fun _ => .inr ⟨rfl, rfl⟩
  | cons p rest ih =>
    intro c
    have len : ∀ c : Client σ, (turnAll task rest c).rest.length = rest.length := by
      intro c
      rcases ih c with h | ⟨h, _⟩
      · exact h.length_eq
      · rw [h]
    simp only [turnAll]
    rcases turn_later_or_same task p false c with h | ⟨h, hm⟩
    · exact .inl (.here h (len _))
    · rcases ih (turn task false p c).client with hs | ⟨hs, hsm⟩
      · rw [h]
        exact .inl (.there hs)
      · exact .inr ⟨by rw [h, hs], by rw [hm, hsm]; rfl⟩

end Program

namespace Task

theorem turn_later_or_same {α : Type} (task : Nat) (t : Task α) :
    ∀ (moved : Bool) (c : Client σ), Later (turn task moved t c).rest t ∨
      (turn task moved t c).rest = t ∧ (turn task moved t c).moved = moved := by
  induction t with
  | done value => exact fun _ _ => .inr ⟨rfl, rfl⟩
  | call r next ih =>
    intro moved c
    simp only [turn]
    split
    · exact .inr ⟨rfl, rfl⟩
    · split
      · exact .inl (.single (.call r next _))
      · rcases ih ((c.enqueue task r).answer task r).1 true ((c.enqueue task r).answer task r).2
          with h | ⟨h, _⟩
        · exact .inl (h.trans (.single (.call r next _)))
        · rw [h]
          exact .inl (.single (.call r next _))
  | gather programs next ih =>
    intro moved c
    simp only [turn]
    split
    · rename_i results _
      have down : After (next results) (gather programs next) := .gathered programs next results
      rcases ih results true (Program.turnAll task programs c).client with h | ⟨h, _⟩
      · exact .inl (h.trans (.single down))
      · rw [h]
        exact .inl (.single down)
    · rcases Program.turnAll_moved_or_same task programs c with h | ⟨h, hm⟩
      · exact .inl (.single (.moved next h))
      · exact .inr ⟨by rw [h], by simp [hm]⟩

theorem round_moved_or_same {α : Type} (ts : List (Task α)) :
    ∀ (first : Nat) (c : Client σ), MovedIn Later (round first ts c).rest ts ∨
      (round first ts c).rest = ts ∧ (round first ts c).moved = false := by
  induction ts with
  | nil => exact fun _ _ => .inr ⟨rfl, rfl⟩
  | cons t rest ih =>
    intro first c
    have len : ∀ c : Client σ, (round (first + 1) rest c).rest.length = rest.length := by
      intro c
      rcases ih (first + 1) c with h | ⟨h, _⟩
      · exact h.length_eq
      · rw [h]
    simp only [round]
    rcases turn_later_or_same first t false c with h | ⟨h, hm⟩
    · exact .inl (.here h (len _))
    · rcases ih (first + 1) (turn first false t c).client with hs | ⟨hs, hsm⟩
      · rw [h]
        exact .inl (.there hs)
      · exact .inr ⟨by rw [h, hs], by rw [hm, hsm]; rfl⟩

theorem movedIn_of_round_moved {α : Type} {first : Nat} {ts : List (Task α)} {c : Client σ}
    (h : (round first ts c).moved = true) : MovedIn Later (round first ts c).rest ts := by
  rcases round_moved_or_same ts first c with hs | ⟨_, hm⟩
  · exact hs
  · rw [hm] at h
    cases h

end Task

/-! ## Rounds -/

namespace Client

/-- Rounds until no task moves, and none would if it were later. -/
def settle {α : Type} (tasks : List (Task α)) (c : Client σ) : List (Task α) × Client σ :=
  let turned := Task.round 0 tasks c
  if h : turned.moved = true then
    have := Task.movedIn_of_round_moved h
    settle turned.rest turned.client
  else
    let later := Task.round 0 tasks (turned.client.setClock turned.client.clock.advance)
    if h : later.moved = true then
      have := Task.movedIn_of_round_moved h
      settle later.rest later.client
    else (later.rest, later.client)
termination_by WellFounded.wrap (MovedIn.wf Task.later_wf) tasks
decreasing_by all_goals assumption

/-- Runs the tasks side by side. Each gives its result, or `none` if it waits for ever. -/
def runTogether {α : Type} (tasks : List (Task α)) (c : Client σ) :
    List (Option α) × Client σ :=
  let (rest, c) := settle tasks c
  (rest.map Task.result?, c)

/-- Gives the tasks `n` rounds, in which no time passes. A round in which no task moves is the
last one, because all others would be like it. -/
def rounds {α : Type} : Nat → List (Task α) → Client σ → List (Task α) × Client σ
  | 0, tasks, c => (tasks, c)
  | n + 1, tasks, c =>
    let turned := Task.round 0 tasks c
    if turned.moved then rounds n turned.rest turned.client else (turned.rest, turned.client)

end Client

end SlotCluster
