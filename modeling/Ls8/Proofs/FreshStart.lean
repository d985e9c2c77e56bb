import Ls8.Proofs.RunEnding

/-!
# Loading starts afresh

What a machine was asked before an image is loaded into it has no influence on what it does
afterwards. Main statement: whatever two machines have been through, once the same image is loaded
into both they reply alike to every list of requests, and an image that is refused changes nothing
(`load_erases_history`).
-/

namespace Ls8

/-- What a machine can be asked: calls that change it and questions that do not. -/
inductive Request where
  | call (call : Call)
  | read (address : UInt8)
  | trace
  deriving DecidableEq, Repr

inductive Answer where
  | done
  | refused (error : Error)
  | byte (value : UInt8)
  | line (text : String)
  deriving DecidableEq, Repr

/-- All that can be seen of a request being served. -/
inductive Reply where
  /-- The answer, what was printed until then, and the processor as it is then. -/
  | given (answer : Answer) (printed : List UInt8) (after : Cpu)
  /-- There is no answer, as a run never ends; what it has printed after each number of steps. -/
  | awaited (printed : Nat → List UInt8)

/-- The reply does not tell of a sink that was full. -/
def Reply.Unhindered : Reply → Prop
  | .given (.refused (.output _)) _ _ => False
  | _ => True

def Outcome.answer (o : Outcome) : Answer :=
  match o.error? with
  | none => .done
  | some error => .refused error

/-- The reply to a call that came to `o`. -/
def Outcome.reply (o : Outcome) (before : Machine) : Reply :=
  .given o.answer (o.machine.out.since before.out) o.machine.toCpu

namespace Machine

/-- The replies to requests that are made one after the other, up to a run that never ends. -/
def replies : Machine → List Request → List Reply
  | _, [] => []
  | m, .call call :: rest =>
    match call.perform m with
    | some o => o.reply m :: o.machine.replies rest
    | none => [.awaited fun n => (m.stepUpTo n).machine.out.since m.out]
  | m, .read address :: rest => .given (.byte (m.read address)) [] m.toCpu :: m.replies rest
  | m, .trace :: rest => .given (.line m.trace.line) [] m.toCpu :: m.replies rest

/-- A machine as it is after it was switched on and `bytes` were placed in its memory. -/
structure HoldsOnly (m : Machine) (bytes : List UInt8) : Prop where
  pc_eq : m.pc = 0
  read_eq : ∀ address : UInt8, m.read address = bytes.getD address.toNat 0
  register_eq : ∀ r : Register, m.register r = if r = 7 then 0xF3 else 0
  flags_eq : m.flags.bits = 0
  active : m.halted = false

variable {m₁ m₂ : Machine}

open Outcome (Alike Comparable Unhindered)

/-! ## Calls on machines with the same processor -/

theorem placed_alike (hcpu : m₁.toCpu = m₂.toCpu) (bytes : List UInt8) :
    Alike m₁ m₂ (m₁.placed bytes) (m₂.placed bytes) := by
  unfold placed
  split
  · exact ⟨rfl, rfl, [], (Sink.gain_nil _).symm, (Sink.gain_nil _).symm⟩
  · exact ⟨rfl, hcpu, [], (Sink.gain_nil _).symm, (Sink.gain_nil _).symm⟩

theorem write_alike (hcpu : m₁.toCpu = m₂.toCpu) (address value : UInt8) :
    Alike m₁ m₂ (.ok (m₁.write address value)) (.ok (m₂.write address value)) where
  error?_eq := rfl
  toCpu_eq := by
    show m₁.toCpu.store address value = m₂.toCpu.store address value
    rw [hcpu]
  out_eq := ⟨[], (Sink.gain_nil _).symm, (Sink.gain_nil _).symm⟩

/-- Steps that fail for a full sink would be the end of a run. -/
theorem unhindered_stepUpTo {m : Machine} (h : ∀ o, m.run = some o → o.Unhindered) (n : Nat) :
    (m.stepUpTo n).Unhindered := by
  intro cause hcause
  have hended : (m.stepUpTo n).Ended := by
    rw [Outcome.eq_error_of_error? hcause]
    exact True.intro
  exact h _ (run_eq_some_iff.2 ⟨hended, n, rfl⟩) cause hcause

/-- Two machines were asked the same: they came to the same, or neither came to an end. -/
inductive PerformAlike (m₁ m₂ : Machine) : Option Outcome → Option Outcome → Prop
  | ended {o₁ o₂ : Outcome} : Alike m₁ m₂ o₁ o₂ → PerformAlike m₁ m₂ (some o₁) (some o₂)
  | endless : (∀ n, Alike m₁ m₂ (m₁.stepUpTo n) (m₂.stepUpTo n)) → PerformAlike m₁ m₂ none none

theorem run_alike (hcpu : m₁.toCpu = m₂.toCpu)
    (h : m₁.out.room = m₂.out.room ∨
      (∀ o, m₁.run = some o → o.Unhindered) ∧ ∀ o, m₂.run = some o → o.Unhindered) :
    PerformAlike m₁ m₂ m₁.run m₂.run := by
  have hsteps (n : Nat) : Alike m₁ m₂ (m₁.stepUpTo n) (m₂.stepUpTo n) := by
    refine stepUpTo_alike n hcpu (h.imp_right fun hfree => ⟨?_, ?_⟩)
    · exact unhindered_stepUpTo hfree.1 n
    · exact unhindered_stepUpTo hfree.2 n
  cases hrun : m₁.run with
  | some o =>
    obtain ⟨hended, n, rfl⟩ := run_eq_some_iff.1 hrun
    rw [run_eq_some_iff.2 ⟨(hsteps n).ended_iff.1 hended, n, rfl⟩]
    exact .ended (hsteps n)
  | none =>
    have hendless : m₂.run = none :=
      run_eq_none_iff.2 fun n => mt (hsteps n).ended_iff.2 (run_eq_none_iff.1 hrun n)
    rw [hendless]
    exact .endless hsteps

theorem perform_alike (hcpu : m₁.toCpu = m₂.toCpu) (call : Call)
    (h : m₁.out.room = m₂.out.room ∨
      (∀ o, call.perform m₁ = some o → o.Unhindered) ∧
        ∀ o, call.perform m₂ = some o → o.Unhindered) :
    PerformAlike m₁ m₂ (call.perform m₁) (call.perform m₂) := by
  cases call with
  | load bytes =>
    rw [Call.perform, Call.perform, load_eq, load_eq]
    exact .ended (placed_alike hcpu bytes)
  | step =>
    exact .ended (step_alike hcpu (h.imp_right fun hfree => ⟨hfree.1 _ rfl, hfree.2 _ rfl⟩))
  | run => exact run_alike hcpu h
  | write address value => exact .ended (write_alike hcpu address value)

/-! ## Requests one after the other -/

theorem unhindered_of_reply {o : Outcome} {before : Machine} (h : (o.reply before).Unhindered) :
    o.Unhindered := by
  intro cause hcause
  rw [Outcome.reply, Outcome.answer, hcause] at h
  exact h

theorem reply_eq_of_alike {o₁ o₂ : Outcome} (h : Alike m₁ m₂ o₁ o₂) :
    o₁.reply m₁ = o₂.reply m₂ := by
  rw [Outcome.reply, Outcome.reply, Outcome.answer, Outcome.answer, h.error?_eq, h.toCpu_eq,
    h.since_eq]

/-- What unhindered replies say of the call that the first of them answers. -/
theorem unhindered_perform {m : Machine} {call : Call} {rest : List Request}
    (h : ∀ reply ∈ m.replies (.call call :: rest), reply.Unhindered) {o : Outcome}
    (hperform : call.perform m = some o) :
    o.Unhindered ∧ ∀ reply ∈ o.machine.replies rest, reply.Unhindered := by
  rw [replies, hperform] at h
  exact ⟨unhindered_of_reply (h _ List.mem_cons_self), fun reply hreply =>
    h reply (List.mem_cons_of_mem _ hreply)⟩

theorem replies_call_eq {call : Call} {rest : List Request}
    (h : PerformAlike m₁ m₂ (call.perform m₁) (call.perform m₂))
    (hrest : ∀ o₁ o₂, call.perform m₁ = some o₁ → call.perform m₂ = some o₂ →
      Alike m₁ m₂ o₁ o₂ → o₁.machine.replies rest = o₂.machine.replies rest) :
    m₁.replies (.call call :: rest) = m₂.replies (.call call :: rest) := by
  rw [replies, replies]
  generalize call.perform m₁ = p₁, call.perform m₂ = p₂ at h hrest ⊢
  cases h with
  | ended halike =>
    exact congrArg₂ List.cons (reply_eq_of_alike halike) (hrest _ _ rfl rfl halike)
  | endless hsteps => simp only [(hsteps _).since_eq]

/-- Machines with the same processor reply alike, whatever they have printed, if their sinks have
the same room or none of them is ever full. -/
theorem replies_eq (requests : List Request) : ∀ {m₁ m₂ : Machine}, m₁.toCpu = m₂.toCpu →
    (m₁.out.room = m₂.out.room ∨ (∀ reply ∈ m₁.replies requests, reply.Unhindered) ∧
      ∀ reply ∈ m₂.replies requests, reply.Unhindered) →
    m₁.replies requests = m₂.replies requests := by
  induction requests with
  | nil => intro m₁ m₂ _ _; rfl
  | cons request rest ih =>
    intro m₁ m₂ hcpu h
    cases request with
    | call call =>
      have hsame := perform_alike hcpu call (h.imp_right fun hfree =>
        ⟨fun _ hperform => (unhindered_perform hfree.1 hperform).1,
          fun _ hperform => (unhindered_perform hfree.2 hperform).1⟩)
      refine replies_call_eq hsame fun o₁ o₂ hperform₁ hperform₂ halike => ih halike.toCpu_eq ?_
      exact h.imp halike.room_eq fun hfree =>
        ⟨(unhindered_perform hfree.1 hperform₁).2, (unhindered_perform hfree.2 hperform₂).2⟩
    | read address =>
      have hrest := ih hcpu (h.imp_right fun hfree =>
        ⟨(List.forall_mem_cons.1 hfree.1).2, (List.forall_mem_cons.1 hfree.2).2⟩)
      rw [replies, replies, hrest, read, read, hcpu]
    | trace =>
      have hrest := ih hcpu (h.imp_right fun hfree =>
        ⟨(List.forall_mem_cons.1 hfree.1).2, (List.forall_mem_cons.1 hfree.2).2⟩)
      rw [replies, replies, hrest, hcpu]

/-! ## Loading -/

theorem holdsOnly_booted (bytes : List UInt8) (out : Sink) :
    HoldsOnly { toCpu := Cpu.booted bytes, out := out } bytes where
  pc_eq := rfl
  read_eq := Memory.read_ofImage bytes
  register_eq := Registers.read_powerOn
  flags_eq := rfl
  active := rfl

/-- Two machines, whatever they have been through, are the same once an image that fits is loaded
into both: each is as if just switched on with the image in its memory, keeps what it has printed,
and replies to every list of requests as the other one does. An image that does not fit is refused
and changes nothing. -/
theorem load_erases_history {α : Type} [Image α] (m₁ m₂ : Machine) (image : α) :
    ((Image.bytes image).length ≤ 256 → ∃ loaded₁ loaded₂,
      m₁.load image = .ok loaded₁ ∧ m₂.load image = .ok loaded₂ ∧
      loaded₁.HoldsOnly (Image.bytes image) ∧ loaded₂.HoldsOnly (Image.bytes image) ∧
      loaded₁.toCpu = loaded₂.toCpu ∧ loaded₁.out = m₁.out ∧ loaded₂.out = m₂.out ∧
      ∀ requests, (m₁.out.room = m₂.out.room ∨
          (∀ reply ∈ loaded₁.replies requests, reply.Unhindered) ∧
            ∀ reply ∈ loaded₂.replies requests, reply.Unhindered) →
        loaded₁.replies requests = loaded₂.replies requests) ∧
    (256 < (Image.bytes image).length →
      m₁.load image = .error ⟨.programTooLarge (Image.bytes image).length, m₁⟩) := by
  refine ⟨fun hfits => ?_, load_of_too_large m₁⟩
  refine ⟨_, _, m₁.load_of_fits hfits, m₂.load_of_fits hfits, holdsOnly_booted _ _,
    holdsOnly_booted _ _, rfl, rfl, rfl, fun requests h => ?_⟩
  exact replies_eq requests rfl h

/-- A machine that has compared, pushed and halted. -/
def spent : Machine :=
  let setUp := (new.load [0b10000010, 1, 7, 0b10100111, 1, 1, 0b01000101, 1, (1 : UInt8)]).machine
  setUp.step.machine.step.machine.step.machine.step.machine

/-- After an image is loaded, a spent machine prints, reads and traces as one just switched on; too
large an image leaves it spent. -/
theorem load_erases_history_spent :
    spent.halted = true ∧ spent.flags.equal = true ∧ spent.read 0xF2 = 7 ∧
      (spent.load [0b01000111, (1 : UInt8)]).machine.replies [.call .step, .read 0xF2, .trace] =
        ((withOutput Sink.unlimited).load [0b01000111, (1 : UInt8)]).machine.replies
          [.call .step, .read 0xF2, .trace] ∧
      spent.load (List.replicate 257 (0 : UInt8)) = .error ⟨.programTooLarge 257, spent⟩ := by
  have hsmall : (Image.bytes [0b01000111, (1 : UInt8)]).length ≤ 256 := by decide
  have hlength : (Image.bytes (List.replicate 257 (0 : UInt8))).length = 257 := List.length_replicate
  have hlarge : 256 < (Image.bytes (List.replicate 257 (0 : UInt8))).length := by
    rw [hlength]
    decide
  have hroom : spent.out.room = (withOutput Sink.unlimited).out.room := by decide +kernel
  obtain ⟨loaded₁, loaded₂, hload₁, hload₂, _, _, _, _, _, hreplies⟩ :=
    (load_erases_history spent (withOutput Sink.unlimited) _).1 hsmall
  have hsame := hreplies [.call .step, .read 0xF2, .trace] (.inl hroom)
  have hrefused := (load_erases_history spent spent _).2 hlarge
  rw [hlength] at hrefused
  refine ⟨by decide +kernel, by decide +kernel, by decide +kernel, ?_, hrefused⟩
  rw [hload₁, hload₂]
  exact hsame

end Machine

end Ls8
