import Mathlib.Algebra.Order.Group.Nat
import PgReplica.Foundation.Run

/-! # Commands with a cooldown

A loop that has issued a command waits before it issues it again. How long it still has
to wait is a function of its state; it bounds the commands of any run of turns from
above, and from below while every turn has a reason to issue one.
-/

namespace PgReplica.Foundation

universe u v

variable {σ : Type u} {α : Type v}

/-- The steps of a run that issue the command. -/
def issued (next : σ → α → σ) (issues : σ → α → Bool) : σ → List α → Nat
  | _, [] => 0
  | s, a :: rest => (if issues s a then 1 else 0) + issued next issues (next s a) rest

/-- `left` turns have to pass before the command can be issued again: `period - 1` after
it was issued, and one less after every turn that does not issue it. -/
structure Cooldown (next : σ → α → σ) (I : σ → Prop) (regular : σ → α → Prop)
    (issues : σ → α → Bool) (period : Nat) (left : σ → Nat) : Prop where
  keeps : ∀ s a, I s → regular s a → I (next s a)
  left_lt : ∀ s, I s → left s < period
  ready : ∀ s a, I s → regular s a → issues s a = true → left s = 0
  restarts : ∀ s a, I s → regular s a → issues s a = true → left (next s a) + 1 = period
  falls : ∀ s a, I s → regular s a → issues s a = false → left (next s a) = left s - 1

namespace Cooldown

variable {next : σ → α → σ} {I : σ → Prop} {regular : σ → α → Prop} {issues : σ → α → Bool}
  {period : Nat} {left : σ → Nat} {s : σ} {inputs : List α}

/-- Not more than one command in a period. -/
theorem issued_le (hcooldown : Cooldown next I regular issues period left) (hstart : I s)
    (hregular : EachStep next regular s inputs) :
    period * issued next issues s inputs + left s < inputs.length + period := by
  induction inputs generalizing s with
  | nil => simpa [issued] using hcooldown.left_lt s hstart
  | cons a rest ih =>
      obtain ⟨hstep, hrest⟩ := hregular
      have hlater := ih (hcooldown.keeps s a hstart hstep) hrest
      rw [issued, List.length_cons]
      cases hissues : issues s a with
      | true =>
          have hready := hcooldown.ready s a hstart hstep hissues
          have hrestarts := hcooldown.restarts s a hstart hstep hissues
          rw [if_pos rfl, Nat.mul_add, Nat.mul_one]
          omega
      | false =>
          have hfalls := hcooldown.falls s a hstart hstep hissues
          rw [if_neg (by simp), Nat.zero_add]
          omega

/-- Not less than one in a period, while every turn that may issue the command does. -/
theorem le_issued (hcooldown : Cooldown next I regular issues period left) (hstart : I s)
    (hregular : EachStep next regular s inputs)
    (hwanted : EachStep next (fun s a => left s = 0 → issues s a = true) s inputs) :
    inputs.length ≤ period * issued next issues s inputs + left s := by
  induction inputs generalizing s with
  | nil => exact Nat.zero_le _
  | cons a rest ih =>
      obtain ⟨hstep, hrest⟩ := hregular
      obtain ⟨hwants, hwantsRest⟩ := hwanted
      have hlater := ih (hcooldown.keeps s a hstart hstep) hrest hwantsRest
      rw [issued, List.length_cons]
      cases hissues : issues s a with
      | true =>
          have hrestarts := hcooldown.restarts s a hstart hstep hissues
          rw [if_pos rfl, Nat.mul_add, Nat.mul_one]
          omega
      | false =>
          have hfalls := hcooldown.falls s a hstart hstep hissues
          have hwaits : left s ≠ 0 := fun hzero => by simp [hwants hzero] at hissues
          rw [if_neg (by simp), Nat.zero_add]
          omega

end Cooldown

end PgReplica.Foundation
