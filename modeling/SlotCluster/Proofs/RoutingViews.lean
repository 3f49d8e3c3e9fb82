import Mathlib.Control.Monad.Basic
import SlotCluster.Routing
import SlotCluster.Proofs.CommandPacking

/-!
# Routing a command and routing what was decoded

A command under construction and a reply are looked at in different ways: one by the places where
its arguments end, the other by its elements, of which only bulk strings count. On the wire form of
a command both see the same words, so both are routed to the same node, or refused alike.
-/

namespace SlotCluster

open Words

/-! ## What each of them shows -/

namespace Command.Builder

theorem words_eq (b : Builder) : Routable.words b = b.arguments.map some := by
  refine List.ext_getElem? fun i => ?_
  by_cases hi : i < b.ends.length
  · have harg : i < b.arguments.length := by rwa [length_arguments]
    simp [Routable.words, hi, argument?_eq, harg]
  · simp [Routable.words, hi, length_arguments]

theorem word?_words (b : Builder) (i : Nat) : word? (Routable.words b) i = b.argument? i := by
  rw [words_eq, word?, argument?_eq, List.getElem?_map]
  cases b.arguments[i]? <;> rfl

theorem position?_words (b : Builder) (candidate : Bytes) :
    position? (Routable.words b) candidate = b.arguments.findIdx? (·.sameWord candidate) := by
  rw [words_eq, position?, List.findIdx?_map]
  rfl

end Command.Builder

namespace Reply

/-- The bytes that an element shows. -/
def shown? : Reply → Option Bytes
  | .bulk bytes => some bytes
  | _ => none

theorem words_array (items : List Reply) : Routable.words (array items) = items.map shown? := by
  refine List.map_congr_left fun item _ => ?_
  cases item <;> rfl

theorem word?_words (items : List Reply) (i : Nat) :
    word? (Routable.words (array items)) i = items[i]?.bind shown? := by
  rw [words_array, word?, List.getElem?_map]
  cases items[i]? <;> rfl

theorem position?_words (items : List Reply) (candidate : Bytes) :
    position? (Routable.words (array items)) candidate =
      items.findIdx? fun item => item.shown?.any (·.sameWord candidate) := by
  rw [words_array, position?, List.findIdx?_map]
  congr 1
  funext item
  simp only [Function.comp_apply]
  cases item.shown? <;> rfl

theorem words_bulks (args : List Bytes) :
    Routable.words (array (args.map .bulk)) = args.map some := by
  rw [words_array, List.map_map]
  rfl

end Reply

/-! ## On the wire -/

namespace Command.Builder

/-- **A command is routed as what a node decodes from it.** Either both have a route, the same, or
both are refused for the same reason. They have the same name, the same words in the same places,
and a word is found at the same place in both. -/
theorem routed_alike (b : Builder) (hsize : b.arguments.pack.length ≤ Bytes.maxLength) :
    ∃ items, Reply.parse b.arguments.pack = .ok (.array items) ∧
      Routing.of (Reply.array items) = Routing.of b ∧
      name? (Routable.words (Reply.array items)) = name? (Routable.words b) ∧
      (∀ i, items[i]?.bind Reply.shown? = b.argument? i) ∧
      ∀ candidate, (items.findIdx? fun item => item.shown?.any (·.sameWord candidate)) =
        b.arguments.findIdx? (·.sameWord candidate) := by
  have hwords : Routable.words (Reply.array (b.arguments.map .bulk)) = Routable.words b := by
    rw [Reply.words_bulks, words_eq]
  refine ⟨_, parse_pack _ hsize, ?_, ?_, fun i => ?_, fun candidate => ?_⟩
  · rw [Routing.of, hwords, Routing.of]
  · rw [hwords]
  · rw [← Reply.word?_words, hwords, word?_words]
  · rw [← Reply.position?_words, hwords, position?_words]

/-- The name is in lower case, and a word has to be found. -/
theorem routed_alike_streams :
    let b := build [.bytes (Bytes.ofText "xread"),
      .each [Bytes.ofText "Streams", Bytes.ofText "foo"], .number 0]
    ∃ items, Reply.parse b.arguments.pack = .ok (.array items) ∧
      Routing.of (Reply.array items) = .ok (.single (.route ⟨12182, .replicaOptional⟩)) := by
  intro b
  obtain ⟨items, hparse, hrouting, -⟩ := routed_alike b (by decide +kernel)
  exact ⟨items, hparse, hrouting.trans (by decide +kernel)⟩

end Command.Builder

end SlotCluster
