/-
  Computations that may fail: what is known of the parts when the whole succeeds.
-/
namespace Embroidery

variable {ε α β : Type}

/-- One computation behind another succeeds if both do. -/
theorem bind_eq_ok_iff {x : Except ε α} {f : α → Except ε β} {b : β} :
    (x >>= f) = .ok b ↔ ∃ a, x = .ok a ∧ f a = .ok b := by
  cases x with
  | error fault => exact ⟨fun h => (nomatch h), fun ⟨_, h, _⟩ => (nomatch h)⟩
  | ok a => exact ⟨fun h => ⟨a, rfl, h⟩, fun ⟨_, ha, h⟩ => Except.ok.inj ha ▸ h⟩

theorem of_bind_eq_ok {x : Except ε α} {f : α → Except ε β} {b : β} (h : (x >>= f) = .ok b) :
    ∃ a, x = .ok a ∧ f a = .ok b := bind_eq_ok_iff.1 h

/-- Two checks in a row pass if both do. -/
theorem andThen_eq_ok_iff {first : Except ε Unit} {rest : Unit → Except ε Unit} :
    (first >>= rest) = .ok () ↔ first = .ok () ∧ rest () = .ok () := by
  rw [bind_eq_ok_iff]
  constructor
  · rintro ⟨_, hfirst, hrest⟩
    exact ⟨hfirst, hrest⟩
  · rintro ⟨hfirst, hrest⟩
    exact ⟨(), hfirst, hrest⟩

/-- A condition that rejects must not hold. -/
theorem reject_eq_ok_iff {bad : Prop} [Decidable bad] {fault : ε} {rest : Except ε α} {a : α} :
    (if bad then .error fault else rest) = .ok a ↔ ¬bad ∧ rest = .ok a := by
  by_cases h : bad
  · rw [if_pos h]
    exact ⟨fun hok => (nomatch hok), fun hne => absurd h hne.1⟩
  · rw [if_neg h]
    exact ⟨fun hok => ⟨h, hok⟩, fun hne => hne.2⟩

theorem ok_of_toOption {x : Except ε α} {a : α} (h : x.toOption = some a) : x = .ok a := by
  cases x with
  | error fault => exact nomatch h
  | ok b => exact congrArg Except.ok (Option.some.inj h)

end Embroidery
