import Ls8.Machine.Run

/-!
# Machines in lockstep

Two machines with the same processor go on alike, whatever they have printed before, as long as
their sinks agree on what they print. Main statement: they do so for any number of steps if their
sinks have the same room, and also if neither of them is hindered by its sink
(`stepUpTo_alike`).
-/

namespace Ls8

namespace Sink

/-- The sink once it has taken all of `bytes`, whether or not it had room for them. -/
def gain (s : Sink) (bytes : List UInt8) : Sink :=
  { s with taken := s.taken ++ bytes }

/-- What a sink has taken since it was `before`. -/
def since (s before : Sink) : List UInt8 :=
  s.taken.toList.drop before.taken.size

theorem put_eq_gain (s : Sink) (bytes : List UInt8) : s.put bytes = s.gain (s.accepted bytes) := rfl

@[simp] theorem gain_nil (s : Sink) : s.gain [] = s := by
  simp [gain]

@[simp] theorem gain_gain (s : Sink) (first second : List UInt8) :
    (s.gain first).gain second = s.gain (first ++ second) := by
  have htaken : s.taken ++ first ++ second = s.taken ++ (first ++ second) := Array.ext' (by simp)
  simp [gain, htaken]

@[simp] theorem limit_gain (s : Sink) (bytes : List UInt8) : (s.gain bytes).limit = s.limit := rfl

@[simp] theorem toList_taken_gain (s : Sink) (bytes : List UInt8) :
    (s.gain bytes).taken.toList = s.taken.toList ++ bytes := by
  simp [gain]

@[simp] theorem size_taken_gain (s : Sink) (bytes : List UInt8) :
    (s.gain bytes).taken.size = s.taken.size + bytes.length := by
  rw [← Array.length_toList, toList_taken_gain, List.length_append, Array.length_toList]

theorem room_gain (s : Sink) (bytes : List UInt8) :
    (s.gain bytes).room = s.room.map (· - bytes.length) := by
  cases hlimit : s.limit with
  | none => simp [room, hlimit]
  | some limit => simp [room, hlimit, Nat.sub_add_eq]

@[simp] theorem since_self (s : Sink) : s.since s = [] := by
  simp [since]

@[simp] theorem since_gain (s : Sink) (bytes : List UInt8) : (s.gain bytes).since s = bytes := by
  simp [since, gain]

theorem fits_eq_of_room_eq {s t : Sink} (h : s.room = t.room) (bytes : List UInt8) :
    s.fits bytes = t.fits bytes := by
  rw [fits, fits, h]

theorem accepted_eq_of_room_eq {s t : Sink} (h : s.room = t.room) (bytes : List UInt8) :
    s.accepted bytes = t.accepted bytes := by
  rw [accepted, accepted, h]

section Fitting

variable {s : Sink} {bytes : List UInt8}

theorem room_of_limit_eq_none (h : s.limit = none) : s.room = none := by
  rw [room, h]
  rfl

/-- A sink without a limit has the same room whatever it has gained. -/
theorem room_gain_of_limit_eq_none (h : s.limit = none) (bytes : List UInt8) :
    (s.gain bytes).room = s.room := by
  rw [room_gain, room_of_limit_eq_none h]
  rfl

/-- A sink without a limit takes everything. -/
theorem fits_of_limit_eq_none (h : s.limit = none) (bytes : List UInt8) : s.fits bytes = true := by
  rw [fits, room_of_limit_eq_none h]

theorem fits_iff : s.fits bytes = true ↔ ∀ room, s.room = some room → bytes.length ≤ room := by
  unfold fits
  cases s.room with
  | none => simp
  | some room => simp

theorem not_fits_iff : s.fits bytes = false ↔ ∃ room, s.room = some room ∧ room < bytes.length := by
  unfold fits
  cases s.room with
  | none => simp
  | some room => simp

theorem put_of_fits (h : s.fits bytes = true) : s.put bytes = s.gain bytes := by
  rw [put_eq_gain, accepted_of_fits h]

theorem put_of_room_eq_some {room : Nat} (h : s.room = some room) :
    s.put bytes = s.gain (bytes.take room) := by
  rw [put_eq_gain, accepted, h]

end Fitting

end Sink

namespace Outcome

/-- The sink took everything that was printed. -/
def Unhindered (o : Outcome) : Prop :=
  ∀ cause, o.error? ≠ some (.output cause)

/-- An outcome after which nothing more happens: a halt or a failure. -/
def Ended : Outcome → Prop
  | .ok m => m.halted = true
  | .error _ => True

/-- Two machines did the same: both were refused for the same reason or neither was, their
processors are the same afterwards, and both printed the same. -/
structure Alike (m₁ m₂ : Machine) (o₁ o₂ : Outcome) : Prop where
  error?_eq : o₁.error? = o₂.error?
  toCpu_eq : o₁.machine.toCpu = o₂.machine.toCpu
  out_eq : ∃ bytes, o₁.machine.out = m₁.out.gain bytes ∧ o₂.machine.out = m₂.out.gain bytes

/-- What two machines have to meet to go on alike: sinks with the same room, or no hindrance. -/
def Comparable (m₁ m₂ : Machine) (o₁ o₂ : Outcome) : Prop :=
  m₁.out.room = m₂.out.room ∨ o₁.Unhindered ∧ o₂.Unhindered

variable {m₁ m₂ : Machine} {o₁ o₂ : Outcome}

theorem Alike.room_eq (h : Alike m₁ m₂ o₁ o₂) (hroom : m₁.out.room = m₂.out.room) :
    o₁.machine.out.room = o₂.machine.out.room := by
  obtain ⟨bytes, h₁, h₂⟩ := h.out_eq
  rw [h₁, h₂, Sink.room_gain, Sink.room_gain, hroom]

theorem Alike.since_eq (h : Alike m₁ m₂ o₁ o₂) :
    o₁.machine.out.since m₁.out = o₂.machine.out.since m₂.out := by
  obtain ⟨bytes, h₁, h₂⟩ := h.out_eq
  rw [h₁, h₂, Sink.since_gain, Sink.since_gain]

/-- Whether anything more happens is told by the error and the processor. -/
theorem ended_iff_of_eq (herror : o₁.error? = o₂.error?)
    (hcpu : o₁.machine.toCpu = o₂.machine.toCpu) : o₁.Ended ↔ o₂.Ended := by
  cases o₁ with
  | ok left =>
    cases o₂ with
    | ok right =>
      have hhalted : left.halted = right.halted := congrArg Cpu.halted hcpu
      rw [Ended, Ended, hhalted]
    | error failure => cases herror
  | error failure =>
    cases o₂ with
    | ok right => cases herror
    | error other => exact Iff.rfl

theorem Alike.ended_iff (h : Alike m₁ m₂ o₁ o₂) : o₁.Ended ↔ o₂.Ended :=
  ended_iff_of_eq h.error?_eq h.toCpu_eq

/-- Doing nothing is the same for two machines with the same processor. -/
theorem Alike.of_ok (h : m₁.toCpu = m₂.toCpu) : Alike m₁ m₂ (.ok m₁) (.ok m₂) where
  error?_eq := rfl
  toCpu_eq := h
  out_eq := ⟨[], (Sink.gain_nil _).symm, (Sink.gain_nil _).symm⟩

/-- What two machines do one after the other is the same if both parts are. -/
theorem Alike.bind {f : Machine → Outcome} (h : Alike m₁ m₂ o₁ o₂)
    (hlater : ∀ left right, o₁ = .ok left → o₂ = .ok right → left.toCpu = right.toCpu →
      Alike left right (f left) (f right)) : Alike m₁ m₂ (o₁.bind f) (o₂.bind f) := by
  cases o₁ with
  | error failure =>
    cases o₂ with
    | error other => exact h
    | ok right => cases h.error?_eq
  | ok left =>
    cases o₂ with
    | error other => cases h.error?_eq
    | ok right =>
      obtain ⟨first, hleft, hright⟩ := h.out_eq
      have hrest := hlater left right rfl rfl h.toCpu_eq
      obtain ⟨second, h₁, h₂⟩ := hrest.out_eq
      refine ⟨hrest.error?_eq, hrest.toCpu_eq, first ++ second, ?_, ?_⟩
      · exact h₁.trans ((congrArg (Sink.gain · second) hleft).trans (Sink.gain_gain _ _ _))
      · exact h₂.trans ((congrArg (Sink.gain · second) hright).trans (Sink.gain_gain _ _ _))

theorem Unhindered.of_bind {f : Machine → Outcome} (h : Unhindered (o₁.bind f)) :
    o₁.Unhindered := by
  cases o₁ with
  | ok left => exact fun _ hcause => nomatch hcause
  | error failure => exact h

theorem Comparable.of_bind {f : Machine → Outcome} (h : Comparable m₁ m₂ (o₁.bind f) (o₂.bind f)) :
    Comparable m₁ m₂ o₁ o₂ :=
  h.imp_right fun hfree => ⟨hfree.1.of_bind, hfree.2.of_bind⟩

/-- Sinks with the same room have the same room after a part that was the same. -/
theorem Comparable.later {left right : Machine} (h : Comparable m₁ m₂ o₁ o₂)
    (hfirst : Alike m₁ m₂ (.ok left) (.ok right)) : Comparable left right o₁ o₂ :=
  h.imp_left hfirst.room_eq

end Outcome

namespace Machine

open Outcome (Alike Comparable Unhindered)

variable {m₁ m₂ : Machine}

theorem print_of_limitless {m : Machine} (h : m.out.limit = none) (line : List UInt8) (next : Cpu) :
    m.print line next = .ok { toCpu := next, out := m.out.gain line } := by
  have hfits : m.out.fits line = true := Sink.fits_of_limit_eq_none h line
  rw [print, if_pos hfits, Sink.put_of_fits hfits]

theorem fits_of_unhindered_print {m : Machine} {text : List UInt8} {next : Cpu}
    (h : (m.print text next).Unhindered) : m.out.fits text = true := by
  apply Decidable.byContradiction
  intro hfull
  rw [print, if_neg hfull] at h
  exact h .full rfl

theorem print_alike (hcpu : m₁.toCpu = m₂.toCpu) {text : List UInt8} {next : Cpu}
    (h : Comparable m₁ m₂ (m₁.print text next) (m₂.print text next)) :
    Alike m₁ m₂ (m₁.print text next) (m₂.print text next) := by
  have hagree : m₁.out.fits text = m₂.out.fits text ∧
      m₁.out.accepted text = m₂.out.accepted text := by
    rcases h with hroom | ⟨h₁, h₂⟩
    · exact ⟨Sink.fits_eq_of_room_eq hroom text, Sink.accepted_eq_of_room_eq hroom text⟩
    · have hfits₁ := fits_of_unhindered_print h₁
      have hfits₂ := fits_of_unhindered_print h₂
      rw [hfits₁, hfits₂, Sink.accepted_of_fits hfits₁, Sink.accepted_of_fits hfits₂]
      exact ⟨rfl, rfl⟩
  obtain ⟨hfits, haccepted⟩ := hagree
  have hout : ∃ bytes, m₁.out.put text = m₁.out.gain bytes ∧ m₂.out.put text = m₂.out.gain bytes :=
    ⟨_, rfl, by rw [haccepted, Sink.put_eq_gain]⟩
  unfold print
  rw [hfits]
  split
  · exact ⟨rfl, rfl, hout⟩
  · exact ⟨rfl, hcpu, hout⟩

theorem step_alike (hcpu : m₁.toCpu = m₂.toCpu) (h : Comparable m₁ m₂ m₁.step m₂.step) :
    Alike m₁ m₂ m₁.step m₂.step := by
  rw [step_eq, step_eq, hcpu] at h ⊢
  cases hanswer : m₂.toCpu.step with
  | error error => exact ⟨rfl, hcpu, [], (Sink.gain_nil _).symm, (Sink.gain_nil _).symm⟩
  | ok done =>
    obtain ⟨next, printed⟩ := done
    rw [hanswer, follow_ok, follow_ok] at h
    rw [follow_ok, follow_ok]
    exact print_alike hcpu h

theorem stepUpTo_succ {m : Machine} (hactive : m.halted = false) (n : Nat) :
    m.stepUpTo (n + 1) = m.step.bind (stepUpTo n) := by
  rw [stepUpTo, if_neg (Bool.not_eq_true _ ▸ hactive)]
  cases m.step <;> rfl

/-- Machines with the same processor take any number of steps alike. -/
theorem stepUpTo_alike (n : Nat) : ∀ {m₁ m₂ : Machine}, m₁.toCpu = m₂.toCpu →
    Comparable m₁ m₂ (m₁.stepUpTo n) (m₂.stepUpTo n) →
    Alike m₁ m₂ (m₁.stepUpTo n) (m₂.stepUpTo n) := by
  induction n with
  | zero => intro m₁ m₂ hcpu _; exact Alike.of_ok hcpu
  | succ n ih =>
    intro m₁ m₂ hcpu h
    have hhalted : m₁.halted = m₂.halted := congrArg Cpu.halted hcpu
    cases hactive : m₁.halted with
    | true =>
      rw [stepUpTo_of_halted hactive, stepUpTo_of_halted (hhalted ▸ hactive)]
      exact Alike.of_ok hcpu
    | false =>
      rw [stepUpTo_succ hactive, stepUpTo_succ (hhalted ▸ hactive)] at h ⊢
      have hstep := step_alike hcpu h.of_bind
      refine hstep.bind fun left right hleft hright hcpu => ih hcpu ?_
      rw [hleft, hright] at h hstep
      exact h.later hstep

end Machine

end Ls8
