import Symbolic.Error

/-!
# Results of sequences

A sequence of two computations that may fail returns a result exactly when both
do.
-/

namespace Symbolic
namespace Result

variable {α β : Type}

@[simp] theorem ok_bind (a : α) (next : α -> Result β) :
    ((.ok a : Result α) >>= next) = next a := rfl

@[simp] theorem error_bind (failure : Error) (next : α -> Result β) :
    ((.error failure : Result α) >>= next) = .error failure := rfl

@[simp] theorem pure_eq_ok (a : α) : (pure a : Result α) = .ok a := rfl

theorem bind_ok (result : Result α) : (result >>= fun a => .ok a) = result := by
  cases result <;> rfl

theorem bind_eq_ok
    {first : Result α}
    {next : α -> Result β}
    {b : β} :
    (first >>= next) = .ok b ↔ ∃ a, first = .ok a ∧ next a = .ok b := by
  cases first with
  | ok a => simp
  | error failure => simp

/-- Results can be compared where errors cannot. -/
theorem eq_ok_of_toOption
    {result : Result α}
    {a : α}
    (returned : result.toOption = some a) :
    result = .ok a := by
  cases result with
  | error failure => cases returned
  | ok b => rw [Option.some.inj returned]

/-- Two lists that are computed one after the other and appended. -/
theorem append_eq_ok
    {first second : Result (List α)}
    {terms : List α} :
    (do return (← first) ++ (← second)) = Except.ok terms ↔
      ∃ a b, first = .ok a ∧ second = .ok b ∧ terms = a ++ b := by
  constructor
  · intro returned
    obtain ⟨a, firstReturned, returned⟩ := bind_eq_ok.1 returned
    obtain ⟨b, secondReturned, returned⟩ := bind_eq_ok.1 returned
    cases returned
    exact ⟨a, b, firstReturned, secondReturned, rfl⟩
  · rintro ⟨a, b, rfl, rfl, rfl⟩
    rfl

/-- What holds for all members of two lists holds for all members of both,
appended. -/
theorem forall_mem_append
    {p : α -> Prop}
    {first second : Result (List α)}
    (ofFirst : ∀ terms, first = .ok terms -> ∀ term ∈ terms, p term)
    (ofSecond : ∀ terms, second = .ok terms -> ∀ term ∈ terms, p term) :
    ∀ terms, (do return (← first) ++ (← second)) = Except.ok terms ->
      ∀ term ∈ terms, p term := by
  intro terms returned term member
  obtain ⟨a, b, firstReturned, secondReturned, rfl⟩ := append_eq_ok.1 returned
  rcases List.mem_append.1 member with inFirst | inSecond
  · exact ofFirst a firstReturned term inFirst
  · exact ofSecond b secondReturned term inSecond

end Result
end Symbolic
