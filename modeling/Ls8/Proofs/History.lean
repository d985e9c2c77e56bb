import Ls8.Proofs.Reachable

/-!
# Histories

What has happened to a machine: the images that were loaded, the bytes that were written from
outside and the instructions that were executed, one by one, also those of a run. What was refused or
failed has not happened. Main statements: what every event keeps is kept by every sequence of calls
(`History.invariant`), and the reachable machines are those that have a history from when they were
switched on (`reachable_iff_history`).
-/

namespace Ls8

/-- Something that happened to a machine. An instruction is told with the processor as it was just
before. -/
inductive Event where
  | loaded (bytes : List UInt8)
  | executed (c : Cpu) (i : Instruction)
  | wrote (address value : UInt8)
  deriving DecidableEq, Repr

namespace Machine

/-- The instruction that a step executes, if it succeeds. -/
def stepEvents (m : Machine) : List Event :=
  match m.step, m.toCpu.decode with
  | .ok _, .ok i => [.executed m.toCpu i]
  | _, _ => []

/-- The instructions that up to `n` steps execute, the latest first. -/
def executedUpTo : Nat → Machine → List Event
  | 0, _ => []
  | n + 1, m =>
    (match m.step with
      | .ok next => executedUpTo n next
      | .error _ => []) ++ m.stepEvents

theorem stepEvents_of_ok {m next : Machine} {i : Instruction} (h : m.step = .ok next)
    (hi : m.memory.HoldsAt m.pc i.encode) : m.stepEvents = [.executed m.toCpu i] := by
  rw [stepEvents, h, Cpu.decode_eq_ok_iff.2 hi]

theorem stepEvents_of_error {m : Machine} {failure : Failure} (h : m.step = .error failure) :
    m.stepEvents = [] := by
  rw [stepEvents, h]

theorem executedUpTo_of_halted {m : Machine} (h : m.halted = true) (n : Nat) :
    m.executedUpTo n = [] := by
  cases n with
  | zero => rfl
  | succ n =>
    have hstep := step_of_halted h
    rw [executedUpTo, hstep, stepEvents_of_error hstep, List.append_nil]

end Machine

/-- What a call does to a machine, the latest first. -/
def Call.events (m : Machine) : Call → List Event
  | .load bytes =>
    match m.load bytes with
    | .ok _ => [.loaded bytes]
    | .error _ => []
  | .step => m.stepEvents
  | .run => m.executedUpTo m.stepBound
  | .write address value => [.wrote address value]

/-- A machine and what has happened to it, the latest first. -/
structure History where
  machine : Machine
  events : List Event
  deriving DecidableEq, Repr

namespace History

/-- Nothing has happened yet. -/
def start (m : Machine) : History := ⟨m, []⟩

/-- Goes on with what a call does, and with the machine that it leaves; `none` if the call never
ends. -/
def call (h : History) (call : Call) : Option History :=
  (call.perform h.machine).map fun outcome =>
    ⟨outcome.machine, call.events h.machine ++ h.events⟩

/-- Goes on with one call after the other, whatever they come to. -/
def calls (h : History) (calls : List Call) : Option History :=
  calls.foldlM History.call h

/-- The history after calls that all end; if one of them does not, nothing has happened. -/
def after (h : History) (asked : List Call) : History :=
  (h.calls asked).getD h

theorem calls_eq_after {h : History} {asked : List Call} (hends : (h.calls asked).isSome = true) :
    h.calls asked = some (h.after asked) :=
  (Option.getD_of_ne_none (Option.isSome_iff_ne_none.1 hends) _).symm

theorem calls_concat {h middle last : History} {asked : List Call} {call : Call}
    (hcalls : h.calls asked = some middle) (hcall : middle.call call = some last) :
    h.calls (asked ++ [call]) = some last := by
  rw [calls] at hcalls
  rw [calls, List.foldlM_append, hcalls]
  simp [hcall]

/-! ## What events keep -/

section Invariant

variable {P : History → Prop}
  (hexecuted : ∀ (h : History) (i : Instruction) (next : Machine), P h →
    h.machine.memory.HoldsAt h.machine.pc i.encode → h.machine.step = .ok next →
    P ⟨next, .executed h.machine.toCpu i :: h.events⟩)
  (hfailed : ∀ (h : History) (failure : Failure), P h → h.machine.step = .error failure →
    P ⟨failure.machine, h.events⟩)

include hexecuted hfailed

theorem step_preserves {h : History} (hP : P h) :
    P ⟨h.machine.step.machine, h.machine.stepEvents ++ h.events⟩ := by
  cases hstep : h.machine.step with
  | error failure =>
    rw [Machine.stepEvents_of_error hstep]
    exact hfailed h failure hP hstep
  | ok next =>
    obtain ⟨_, i, hdecode, _⟩ := Machine.step_eq_ok_iff.1 hstep
    have hi := Cpu.decode_eq_ok_iff.1 hdecode
    rw [Machine.stepEvents_of_ok hstep hi]
    exact hexecuted h i next hP hi hstep

theorem stepUpTo_preserves (n : Nat) : ∀ {h : History}, P h →
    P ⟨(h.machine.stepUpTo n).machine, h.machine.executedUpTo n ++ h.events⟩ := by
  induction n with
  | zero => intro h hP; exact hP
  | succ n ih =>
    intro h hP
    have hone := step_preserves hexecuted hfailed hP
    rw [Machine.stepUpTo]
    split
    · next hhalted =>
      rw [Machine.executedUpTo_of_halted hhalted]
      exact hP
    · rw [Machine.executedUpTo, List.append_assoc]
      cases hstep : h.machine.step with
      | error failure =>
        rw [hstep] at hone
        exact hone
      | ok next =>
        rw [hstep] at hone
        exact ih hone

/-- What holds at first and is kept by every instruction that is executed, by every step that fails,
and by the loads and writes that are asked for, holds after the calls: a run is nothing but steps, and
a load that is refused changes nothing. -/
theorem invariant {asked : List Call}
    (hload : ∀ (h : History) (bytes : List UInt8) (next : Machine), .load bytes ∈ asked → P h →
      h.machine.load bytes = .ok next → P ⟨next, .loaded bytes :: h.events⟩)
    (hwrite : ∀ (h : History) (address value : UInt8), .write address value ∈ asked → P h →
      P ⟨h.machine.write address value, .wrote address value :: h.events⟩)
    {h later : History} (hcalls : h.calls asked = some later) (hP : P h) : P later := by
  induction asked generalizing h with
  | nil =>
    cases hcalls
    exact hP
  | cons first rest ih =>
    obtain ⟨next, hnext, hrest⟩ := Option.bind_eq_some_iff.1 hcalls
    obtain ⟨outcome, hperform, rfl⟩ := Option.map_eq_some_iff.1 hnext
    refine ih (fun h bytes next hmem => hload h bytes next (List.mem_cons_of_mem _ hmem))
      (fun h address value hmem => hwrite h address value (List.mem_cons_of_mem _ hmem)) hrest ?_
    cases first with
    | load bytes =>
      cases hperform
      by_cases hfits : bytes.length ≤ Memory.size
      · have hloaded : h.machine.load bytes = .ok _ := h.machine.load_of_fits hfits
        rw [Call.events, hloaded]
        exact hload h bytes _ List.mem_cons_self hP hloaded
      · have hrefused : h.machine.load bytes = .error _ :=
          h.machine.load_of_too_large (Nat.lt_of_not_le hfits)
        rw [Call.events, hrefused]
        exact hP
    | step =>
      cases hperform
      exact step_preserves hexecuted hfailed hP
    | run =>
      rw [← Machine.stepUpTo_of_run hperform]
      exact stepUpTo_preserves hexecuted hfailed _ hP
    | write address value =>
      cases hperform
      exact hwrite h address value List.mem_cons_self hP

/-- A machine that is left alone only steps. -/
theorem invariant_of_own {asked : List Call} (hown : ∀ call ∈ asked, call = .step ∨ call = .run)
    {h later : History} (hcalls : h.calls asked = some later) (hP : P h) : P later := by
  refine invariant hexecuted hfailed ?_ ?_ hcalls hP
  · intro h bytes next hasked
    rcases hown _ hasked with hcall | hcall <;> cases hcall
  · intro h address value hasked
    rcases hown _ hasked with hcall | hcall <;> cases hcall

end Invariant

end History

/-! ## Reachable machines -/

theorem Reachable.of_history {h later : History} {asked : List Call}
    (hcalls : h.calls asked = some later) (hreachable : Reachable h.machine) :
    Reachable later.machine := by
  induction asked generalizing h with
  | nil =>
    cases hcalls
    exact hreachable
  | cons first rest ih =>
    obtain ⟨next, hnext, hrest⟩ := Option.bind_eq_some_iff.1 hcalls
    obtain ⟨outcome, hperform, rfl⟩ := Option.map_eq_some_iff.1 hnext
    exact ih hrest (hreachable.call first hperform)

/-- The reachable machines are those that some calls lead to. -/
theorem reachable_iff_history {m : Machine} : Reachable m ↔ ∃ out asked h,
    (History.start (Machine.withOutput out)).calls asked = some h ∧ h.machine = m := by
  constructor
  · intro hreachable
    induction hreachable with
    | start out => exact ⟨out, [], _, rfl, rfl⟩
    | @call m outcome call _ hperform ih =>
      obtain ⟨out, asked, h, hcalls, rfl⟩ := ih
      have hcall : h.call call = some ⟨outcome.machine, call.events h.machine ++ h.events⟩ := by
        rw [History.call, hperform]
        rfl
      exact ⟨out, asked ++ [call], _, History.calls_concat hcalls hcall, rfl⟩
  · rintro ⟨out, asked, h, hcalls, rfl⟩
    exact .of_history hcalls (.start out)

end Ls8
