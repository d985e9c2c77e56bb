import Ls8.Proofs.Lockstep
import Ls8.Proofs.Reachable
import Mathlib.Data.Fintype.BigOperators
import Mathlib.Data.Fintype.Pigeonhole
import Mathlib.Data.Fintype.Prod

/-!
# When a run ends

A run is given up after a number of steps that depends only on the room in the sink. Main statement:
nothing is lost by that, a run comes to what some number of steps comes to, if it ends at all
(`run_eq_some_iff`). A machine that goes on for longer has been twice in the same configuration and
goes round in a circle.
-/

namespace Ls8

namespace Outcome

theorem not_ended_iff {o : Outcome} : ¬ o.Ended ↔ ∃ m : Machine, o = .ok m ∧ m.halted = false := by
  cases o with
  | ok m => simp [Ended]
  | error failure => simp [Ended]

theorem active_of_not_ended {o : Outcome} (h : ¬ o.Ended) : o.machine.halted = false := by
  obtain ⟨m, rfl, hactive⟩ := not_ended_iff.1 h
  exact hactive

end Outcome

namespace Machine

/-! ## Steps after the end -/

theorem stepUpTo_add_eq_bind (m : Machine) (n k : Nat) :
    m.stepUpTo (n + k) = (m.stepUpTo n).bind (stepUpTo k) := by
  rw [stepUpTo_add]
  cases m.stepUpTo n <;> rfl

theorem stepUpTo_succ_eq_step {m next : Machine} {n : Nat} (h : m.stepUpTo n = .ok next)
    (hactive : next.halted = false) : m.stepUpTo (n + 1) = next.step := by
  rw [stepUpTo_add_eq_bind, h]
  show next.stepUpTo 1 = next.step
  rw [stepUpTo_succ hactive]
  cases next.step <;> rfl

/-- A machine that has ended stays as it is. -/
theorem stepUpTo_of_ended {m : Machine} {n later : Nat} (h : (m.stepUpTo n).Ended)
    (hle : n ≤ later) : m.stepUpTo later = m.stepUpTo n := by
  obtain ⟨k, rfl⟩ := Nat.exists_eq_add_of_le hle
  rw [stepUpTo_add_eq_bind]
  cases hn : m.stepUpTo n with
  | error failure => rfl
  | ok last =>
    rw [hn] at h
    exact stepUpTo_of_halted h k

/-- A machine that has not ended had not ended before. -/
theorem not_ended_of_le {m : Machine} {n later : Nat} (h : ¬ (m.stepUpTo later).Ended)
    (hle : n ≤ later) : ¬ (m.stepUpTo n).Ended := by
  intro hended
  rw [stepUpTo_of_ended hended hle] at h
  exact h hended

theorem stepUpTo_add_of_not_ended {m : Machine} {n : Nat} (h : ¬ (m.stepUpTo n).Ended) (k : Nat) :
    m.stepUpTo (n + k) = (m.stepUpTo n).machine.stepUpTo k := by
  obtain ⟨next, hnext, _⟩ := Outcome.not_ended_iff.1 h
  rw [stepUpTo_add_eq_bind, hnext]
  rfl

/-! ## Configurations -/

/-- What decides how a machine that has not halted goes on: program counter, memory, registers and
flags, and how much room there is left, if it started with `rooms` of it. -/
abbrev Configuration (rooms : Nat) : Type :=
  Fin 257 × (Fin 256 → Fin 256) × (Fin 8 → Fin 256) × (Bool × Bool × Bool) × Fin (rooms + 1)

def configuration (m : Machine) (rooms : Nat) : Configuration rooms :=
  (Fin.clamp m.pc 256, fun i => (m.memory.get i).toFin, fun r => (m.registers.get r).toFin,
    (m.flags.less, m.flags.greater, m.flags.equal), Fin.clamp (m.out.room.getD 0) rooms)

theorem card_configuration (rooms : Nat) :
    Fintype.card (Configuration rooms) = Cpu.configurations * (rooms + 1) := by
  simp only [Configuration, Fintype.card_prod, Fintype.card_fin, Fintype.card_fun, Fintype.card_bool,
    Cpu.configurations, Nat.pow_eq]
  have hflags : 2 * (2 * 2) = 2 ^ 3 := rfl
  rw [hflags]
  simp only [Nat.mul_assoc]

theorem stepBound_eq (m : Machine) :
    m.stepBound = Cpu.configurations * (m.out.room.getD 0 + 1) := by
  unfold stepBound
  split
  · next h => rw [h, Option.getD_none, Nat.zero_add, Nat.mul_one]
  · next room h => rw [h, Option.getD_some]

/-- A configuration leaves nothing out, as long as its numbers are within its bounds. -/
theorem same_of_configuration_eq {m₁ m₂ : Machine} {rooms : Nat} (hpc₁ : m₁.pc ≤ 256)
    (hpc₂ : m₂.pc ≤ 256) (hactive₁ : m₁.halted = false) (hactive₂ : m₂.halted = false)
    (hroom₁ : m₁.out.room.getD 0 ≤ rooms) (hroom₂ : m₂.out.room.getD 0 ≤ rooms)
    (h : m₁.configuration rooms = m₂.configuration rooms) :
    m₁.toCpu = m₂.toCpu ∧ m₁.out.room.getD 0 = m₂.out.room.getD 0 := by
  obtain ⟨⟨pc₁, memory₁, registers₁, ⟨less₁, greater₁, equal₁⟩, halted₁⟩, out₁⟩ := m₁
  obtain ⟨⟨pc₂, memory₂, registers₂, ⟨less₂, greater₂, equal₂⟩, halted₂⟩, out₂⟩ := m₂
  simp only [configuration, Prod.mk.injEq, Fin.ext_iff, Fin.coe_clamp] at h
  obtain ⟨hpc, hmemory, hregisters, ⟨rfl, rfl, rfl⟩, hroom⟩ := h
  have hpc : pc₁ = pc₂ := by
    rwa [Nat.min_eq_left hpc₁, Nat.min_eq_left hpc₂] at hpc
  have hmemory : memory₁ = memory₂ :=
    Vector.ext fun i hi => UInt8.toFin_inj.1 (congrFun hmemory ⟨i, hi⟩)
  have hregisters : registers₁ = registers₂ :=
    Vector.ext fun i hi => UInt8.toFin_inj.1 (congrFun hregisters ⟨i, hi⟩)
  have hroom : out₁.room.getD 0 = out₂.room.getD 0 := by
    rwa [Nat.min_eq_left hroom₁, Nat.min_eq_left hroom₂] at hroom
  have hhalted : halted₁ = halted₂ := hactive₁.trans hactive₂.symm
  subst hpc hmemory hregisters hhalted
  exact ⟨rfl, hroom⟩

/-! ## Going round in a circle -/

/-- Steps keep the limit of the sink, and leave it no more room than it had. -/
theorem room_stepUpTo_le (m : Machine) (n : Nat) :
    (m.stepUpTo n).machine.out.limit = m.out.limit ∧
      (m.stepUpTo n).machine.out.room.getD 0 ≤ m.out.room.getD 0 := by
  obtain ⟨bytes, hout, _⟩ := (stepUpTo_alike n (rfl : m.toCpu = m.toCpu) (.inl rfl)).out_eq
  rw [hout, Sink.limit_gain, Sink.room_gain]
  refine ⟨rfl, ?_⟩
  cases m.out.room with
  | none => exact Nat.le_refl 0
  | some room => exact Nat.sub_le room bytes.length

theorem room_eq_of_getD_eq {s t : Sink} (hlimit : s.limit = t.limit)
    (h : s.room.getD 0 = t.room.getD 0) : s.room = t.room := by
  unfold Sink.room at h ⊢
  rw [hlimit] at h ⊢
  cases hbound : t.limit with
  | none => rfl
  | some limit =>
    rw [hbound] at h
    exact congrArg some h

/-- A machine that a step does not end is about to execute an instruction inside memory. -/
theorem pc_stepUpTo_le {m : Machine} {n : Nat} (hn : 0 < n) (h : ¬ (m.stepUpTo n).Ended) (k : Nat) :
    (m.stepUpTo k).machine.pc ≤ 256 := by
  have hfirst : m.pc ≤ 256 := by
    obtain ⟨next, hnext, _⟩ := Outcome.not_ended_iff.1 (not_ended_of_le h hn)
    have hactive : m.halted = false := Bool.eq_false_iff.2 (not_ended_of_le h (Nat.zero_le n))
    rw [stepUpTo_succ hactive] at hnext
    cases hstep : m.step with
    | error failure => rw [hstep] at hnext; cases hnext
    | ok after =>
      obtain ⟨_, i, hdecode, _⟩ := step_eq_ok_iff.1 hstep
      exact Nat.le_trans (Nat.le_add_right _ _) (Cpu.pc_add_width_le hdecode)
  exact stepUpTo_preserves (P := fun m => m.pc ≤ 256) (fun _ hm => pc_step_le hm) k m hfirst

/-- A machine that has not ended after as many steps as a run is given has been twice in the same
configuration. -/
theorem exists_repeat {m : Machine} (h : ¬ (m.stepUpTo m.stepBound).Ended) :
    ∃ i j, i < j ∧ j ≤ m.stepBound ∧
      (m.stepUpTo i).machine.toCpu = (m.stepUpTo j).machine.toCpu ∧
      (m.stepUpTo i).machine.out.room = (m.stepUpTo j).machine.out.room := by
  let rooms := m.out.room.getD 0
  let visited (k : Fin (m.stepBound + 1)) : Configuration rooms :=
    (m.stepUpTo k).machine.configuration rooms
  have hcard : Fintype.card (Configuration rooms) < Fintype.card (Fin (m.stepBound + 1)) := by
    rw [Fintype.card_fin, card_configuration, stepBound_eq]
    exact Nat.lt_succ_self _
  obtain ⟨i, j, hne, hvisited⟩ := Fintype.exists_ne_map_eq_of_card_lt visited hcard
  have hpc := pc_stepUpTo_le m.stepBound_pos h
  have hactive (k : Fin (m.stepBound + 1)) : (m.stepUpTo k).machine.halted = false :=
    Outcome.active_of_not_ended (not_ended_of_le h (Nat.le_of_lt_succ k.isLt))
  have hlimit (k : Nat) := (m.room_stepUpTo_le k).1
  have hroom (k : Nat) := (m.room_stepUpTo_le k).2
  have hsame (a b : Fin (m.stepBound + 1)) (hab : visited a = visited b) :
      (m.stepUpTo a).machine.toCpu = (m.stepUpTo b).machine.toCpu ∧
        (m.stepUpTo a).machine.out.room = (m.stepUpTo b).machine.out.room := by
    obtain ⟨hcpu, hleft⟩ := same_of_configuration_eq (hpc a) (hpc b) (hactive a) (hactive b)
      (hroom a) (hroom b) hab
    exact ⟨hcpu, room_eq_of_getD_eq ((hlimit a).trans (hlimit b).symm) hleft⟩
  rcases Nat.lt_or_gt_of_ne (Fin.val_ne_of_ne hne) with hlt | hlt
  · exact ⟨i, j, hlt, Nat.le_of_lt_succ j.isLt, hsame i j hvisited⟩
  · exact ⟨j, i, hlt, Nat.le_of_lt_succ i.isLt, hsame j i hvisited.symm⟩

/-- What ends at all ends within the steps that a run is given. -/
theorem ended_stepBound {m : Machine} (h : ∃ n, (m.stepUpTo n).Ended) :
    (m.stepUpTo m.stepBound).Ended := by
  classical
  apply Decidable.byContradiction
  intro hnot
  obtain ⟨i, j, hij, hj, hcpu, hroom⟩ := exists_repeat hnot
  -- the first end would come after the second visit, hence as soon after the first visit
  let first := Nat.find h
  have hfirst : (m.stepUpTo first).Ended := Nat.find_spec h
  have hlate : m.stepBound < first := by
    apply Nat.lt_of_not_le
    intro hle
    exact hnot (stepUpTo_of_ended hfirst hle ▸ hfirst)
  have hsecond : ((m.stepUpTo j).machine.stepUpTo (first - j)).Ended := by
    rw [← stepUpTo_add_of_not_ended (not_ended_of_le hnot hj),
      Nat.add_sub_cancel' (Nat.le_of_lt (Nat.lt_of_le_of_lt hj hlate))]
    exact hfirst
  have hsooner : (m.stepUpTo (i + (first - j))).Ended := by
    have hi : i ≤ m.stepBound := Nat.le_trans (Nat.le_of_lt hij) hj
    rw [stepUpTo_add_of_not_ended (not_ended_of_le hnot hi)]
    exact (stepUpTo_alike (first - j) hcpu (.inl hroom)).ended_iff.2 hsecond
  have hbefore : i + (first - j) < first := by omega
  exact Nat.find_min h hbefore hsooner

/-! ## Runs -/

theorem run_eq_of_ended {m : Machine} (h : (m.stepUpTo m.stepBound).Ended) :
    m.run = some (m.stepUpTo m.stepBound) := by
  unfold run
  cases hsteps : m.stepUpTo m.stepBound with
  | error failure => rfl
  | ok last =>
    rw [hsteps] at h
    exact if_pos h

/-- A run comes to what some number of steps comes to, once they have ended the machine. -/
theorem run_eq_some_iff {m : Machine} {o : Outcome} :
    m.run = some o ↔ o.Ended ∧ ∃ n, m.stepUpTo n = o := by
  constructor
  · intro h
    refine ⟨?_, m.stepBound, stepUpTo_of_run h⟩
    cases o with
    | ok last => exact halted_of_run_ok h
    | error failure => exact True.intro
  · rintro ⟨hended, n, rfl⟩
    have hbound := ended_stepBound ⟨n, hended⟩
    rw [run_eq_of_ended hbound]
    -- of the two numbers of steps, the larger one changes nothing
    rcases Nat.le_total n m.stepBound with hle | hle
    · rw [stepUpTo_of_ended hended hle]
    · rw [stepUpTo_of_ended hbound hle]

theorem run_eq_none_iff {m : Machine} : m.run = none ↔ ∀ n, ¬ (m.stepUpTo n).Ended := by
  rw [Option.eq_none_iff_forall_ne_some]
  constructor
  · intro h n hended
    exact h _ (run_eq_some_iff.2 ⟨hended, n, rfl⟩)
  · intro h o hrun
    obtain ⟨hended, n, rfl⟩ := run_eq_some_iff.1 hrun
    exact h n hended

end Machine

end Ls8
