import SlotCluster.Command
import SlotCluster.Proofs.WireForm

/-!
# Packed commands

A command is built in one block of memory, with the places where its arguments end. Both ways to
get at them find the arguments that were appended. Packed, a command is the wire form of an array
of bulk strings, so a node reads every command of a write as it was built, and nothing else.
-/

namespace SlotCluster

namespace Command

/-! ## Building -/

namespace Builder

theorem slice_write (b : Builder) (arg : Bytes) (start : Nat) {stop : Nat}
    (h : stop ≤ b.data.length) : (b.write arg).slice start stop = b.slice start stop := by
  rw [slice, write, List.take_append_of_le_length h, slice]

theorem argumentsFrom_write (b : Builder) (arg : Bytes) (start : Nat) {ends : List Nat}
    (h : ∀ stop ∈ ends, stop ≤ b.data.length) :
    (b.write arg).argumentsFrom start ends = b.argumentsFrom start ends := by
  induction ends generalizing start with
  | nil => rfl
  | cons stop rest ih =>
    rw [argumentsFrom, slice_write b arg start (h stop List.mem_cons_self),
      ih stop fun later hlater => h later (List.mem_cons_of_mem _ hlater), argumentsFrom]

theorem argumentsFrom_concat (b : Builder) (start stop : Nat) (ends : List Nat) :
    b.argumentsFrom start (ends ++ [stop]) =
      b.argumentsFrom start ends ++ [b.slice (ends.getLastD start) stop] := by
  induction ends generalizing start with
  | nil => rfl
  | cons first rest ih =>
    rw [List.cons_append, argumentsFrom, ih, argumentsFrom, List.cons_append, List.getLastD_cons]

theorem arguments_write (b : Builder) (arg : Bytes) :
    (b.write arg).arguments = b.arguments ++ [arg] := by
  -- The new argument begins where the block ended.
  have hlast : (b.write arg).slice b.data.length (b.data ++ arg).length = arg := by
    rw [slice, write, List.take_length, List.drop_left]
  rw [arguments, arguments, show (b.write arg).ends = b.ends ++ [(b.data ++ arg).length] from rfl,
    argumentsFrom_concat, argumentsFrom_write b arg 0 b.ends_le, b.full, hlast]

theorem arguments_append (b : Builder) (arg : Argument) :
    (b.append arg).arguments = b.arguments ++ arg.toArgs := by
  have hall (values : List Bytes) (b : Builder) :
      (values.foldl write b).arguments = b.arguments ++ values := by
    induction values generalizing b with
    | nil => simp
    | cons value rest ih => rw [List.foldl_cons, ih, arguments_write, List.append_assoc]; rfl
  exact hall arg.toArgs b

theorem arguments_build (args : List Argument) :
    (build args).arguments = args.flatMap Argument.toArgs := by
  have hall (b : Builder) :
      (args.foldl append b).arguments = b.arguments ++ args.flatMap Argument.toArgs := by
    induction args generalizing b with
    | nil => simp
    | cons arg rest ih =>
      rw [List.foldl_cons, ih, arguments_append, List.flatMap_cons, List.append_assoc]
  exact hall empty

theorem getElem?_argumentsFrom (b : Builder) (start : Nat) (ends : List Nat) (i : Nat) :
    (b.argumentsFrom start ends)[i]? =
      ends[i]?.map (b.slice (if i = 0 then start else ends.getD (i - 1) 0)) := by
  induction ends generalizing start i with
  | nil => rfl
  | cons stop rest ih =>
    cases i with
    | zero => rfl
    | succ i =>
      rw [argumentsFrom, List.getElem?_cons_succ, List.getElem?_cons_succ, ih]
      cases i <;> rfl

theorem argument?_eq (b : Builder) (i : Nat) : b.argument? i = b.arguments[i]? :=
  (getElem?_argumentsFrom b 0 b.ends i).symm

theorem length_arguments (b : Builder) : b.arguments.length = b.ends.length := by
  have hfrom (ends : List Nat) (start : Nat) :
      (b.argumentsFrom start ends).length = ends.length := by
    induction ends generalizing start with
    | nil => rfl
    | cons stop rest ih => rw [argumentsFrom, List.length_cons, ih, List.length_cons]
  exact hfrom b.ends 0

end Builder

/-! ## Packing -/

open WireReply

/-- The command as a node sees it. -/
def wire (c : Command) : WireReply := .array (c.map .bulk)

theorem reply_wire (c : Command) : (wire c).reply = .array (c.map .bulk) := by
  simp [wire, reply, replies_eq_map]

theorem depth_wire (c : Command) : (wire c).depth = 1 := by
  have hflat : depthOf (c.map .bulk) = 0 := by
    induction c with
    | nil => rfl
    | cons arg rest ih => simp [depthOf, depth, ih]
  rw [wire, depth, hflat]

theorem encode_wire (c : Command) : (wire c).encode = c.pack := by
  have hargs : encodeAll (c.map .bulk) = c.flatMap packArgument := by
    induction c with
    | nil => rfl
    | cons arg rest ih =>
      rw [List.map_cons, encodeAll, ih, List.flatMap_cons]
      simp [encode, encodeLine, packArgument, crlf]
  simp [wire, encode, encodeLine, hargs, pack, crlf]

theorem parse_pack (c : Command) (hsize : c.pack.length ≤ Bytes.maxLength) :
    Reply.parse c.pack = .ok (.array (c.map .bulk)) := by
  have hdepth : (wire c).depth ≤ Decoder.maxDepth := by simp [depth_wire, Decoder.maxDepth]
  obtain ⟨r, hread, -⟩ := read_append hdepth (by rwa [encode_wire]) []
  rw [List.append_nil, encode_wire] at hread
  rw [Reply.parse, hread, reply_wire]

open Decoder in
theorem reads_packAll (cs : List Command) (hsize : (packAll cs).length ≤ Bytes.maxLength) :
    Reads .start (packAll cs) (cs.map fun c => (wire c).reply) .start := by
  induction cs with
  | nil => exact .nothing _
  | cons c rest ih =>
    simp only [packAll, List.flatMap_cons, List.length_append] at hsize
    have hfirst := WireReply.reads (v := wire c) (by simp [depth_wire, maxDepth])
      (by rw [encode_wire]; omega)
    rw [encode_wire] at hfirst
    exact hfirst.trans (ih (by rw [packAll]; omega))

/-- **A write is read as the commands that were built.** -/
theorem parseAll_builds (calls : List (List Argument))
    (hsize : (packAll (calls.map build)).length ≤ Bytes.maxLength) :
    Reply.parseAll (packAll (calls.map build)) =
        .ok (calls.map fun args => .array ((args.flatMap Argument.toArgs).map .bulk)) ∧
      ∀ args ∈ calls,
        (Builder.build args).arguments = args.flatMap Argument.toArgs ∧
        ∀ i, (Builder.build args).argument? i = (args.flatMap Argument.toArgs)[i]? := by
  refine ⟨?_, fun args _ => ⟨Builder.arguments_build args, fun i => ?_⟩⟩
  · have hreplies : (calls.map build).map (fun c => (wire c).reply) =
        calls.map fun args => .array ((args.flatMap Argument.toArgs).map .bulk) := by
      simp [reply_wire, build, Builder.arguments_build]
    exact Reply.parseAll_eq_ok_iff.2 (hreplies ▸ reads_packAll _ hsize)
  · rw [Builder.argument?_eq, Builder.arguments_build]

/-- A multiple argument, a number, an empty argument, and one that looks like a command. -/
theorem parseAll_builds_two :
    Reply.parseAll (packAll [build [.bytes [71], .each [[], [42, 49, 13, 10]], .number (-12)],
        build []]) =
      .ok [.array [.bulk [71], .bulk [], .bulk [42, 49, 13, 10], .bulk [45, 49, 50]],
        .array []] := by
  have h := (parseAll_builds [[.bytes [71], .each [[], [42, 49, 13, 10]], .number (-12)], []]
    (by decide +kernel)).1
  have hnumber : Decimal.ofInt (-12) = [45, 49, 50] := by decide +kernel
  simpa [Argument.toArgs, hnumber] using h

end Command

end SlotCluster
