import Symbolic.CommandLine.Arguments

/-!
# Options without their values

A request lacks an assignment or a limit only if an argument has a double dash
behind an equals sign: every other option that asks for a value either has one,
which is read, or stops the reading of the arguments.
-/

namespace Symbolic
namespace CommandLine

/-- The request has a value for every option that was given. -/
structure Request.IsComplete (request : Request) : Prop where
  iterations : request.iterations ≠ none
  depth : request.depth ≠ none
  assignments : none ∉ request.assignments

/-- The option asks for a value and is given a double dash instead. -/
def Role.LacksValue : Role -> Prop
  | .option switch _ (some value) => switch.takesValue = true ∧ value = "--"
  | _ => False

/-- One of the arguments has a double dash behind its first equals sign. -/
def HasEmptyValue (arguments : List String) : Prop :=
  ∃ argument ∈ arguments, ∃ stem, cutAtEquals argument = some (stem, "--")

/-- Reading goes on only behind what was read without a stop. -/
theorem bind_eq_ok
    {α β : Type}
    {first : Except Stop α}
    {next : α -> Except Stop β}
    {b : β} :
    (first >>= next) = .ok b ↔ ∃ a, first = .ok a ∧ next a = .ok b := by
  cases first with
  | ok a =>
    exact ⟨fun read => ⟨a, rfl, read⟩, by rintro ⟨_, ⟨⟩, read⟩; exact read⟩
  | error stop => exact ⟨by rintro ⟨⟩, by rintro ⟨_, ⟨⟩, _⟩⟩

/-! ## Roles -/

theorem longCandidates_lacksValue
    {text spelling : String}
    {role : Role}
    (candidate : (spelling, role) ∈ longCandidates text)
    (lacks : role.LacksValue) :
    ∃ stem, cutAtEquals text = some (stem, "--") := by
  unfold longCandidates at candidate
  cases cut : cutAtEquals text with
  | none =>
    simp only [cut, List.mem_map, Prod.mk.injEq] at candidate
    obtain ⟨entry, -, -, rfl⟩ := candidate
    exact lacks.elim
  | some parts =>
    obtain ⟨stem, value⟩ := parts
    simp only [cut, List.mem_map, Prod.mk.injEq] at candidate
    obtain ⟨entry, -, -, rfl⟩ := candidate
    obtain ⟨-, rfl⟩ := lacks
    exact ⟨stem, rfl⟩

/-- No option of one letter asks for a value. -/
theorem shortCandidates_lacksValue
    {text spelling : String}
    {role : Role}
    (long : 2 ≤ text.toList.length)
    (candidate : (spelling, role) ∈ shortCandidates text) :
    ¬role.LacksValue := by
  have letters : ∀ entry ∈ spellings, entry.1.length = 2 ->
      entry.2.takesValue = false := by
    decide
  simp only [shortCandidates, List.mem_map, List.mem_filter, beq_iff_eq,
    Prod.mk.injEq] at candidate
  obtain ⟨entry, ⟨member, isStem⟩, -, rfl⟩ := candidate
  have length : entry.1.length = 2 := by
    rw [isStem, String.length_ofList, List.length_take]
    omega
  rintro ⟨takes, -⟩
  rw [letters entry member length] at takes
  cases takes

/-- Only an argument with a double dash behind an equals sign is an option that
lacks its value. -/
theorem roleOf_lacksValue
    {text : String}
    {role : Role}
    (isRole : roleOf text = .ok role)
    (lacks : role.LacksValue) :
    ∃ stem, cutAtEquals text = some (stem, "--") := by
  unfold roleOf at isRole
  split at isRole
  · next second rest isText =>
    split at isRole
    · cases isRole
      exact lacks.elim
    · dsimp only at isRole
      split at isRole
      · next role' assigned =>
        cases isRole
        obtain ⟨⟨stem, value⟩, cut, assigned⟩ :=
          Option.bind_eq_some_iff.1 assigned
        obtain ⟨switch, -, returned⟩ := Option.bind_eq_some_iff.1 assigned
        cases returned
        obtain ⟨-, rfl⟩ := lacks
        exact ⟨stem, cut⟩
      · split at isRole
        · next spelling role' candidates =>
          cases isRole
          split at candidates
          · exact longCandidates_lacksValue
              (candidates ▸ List.mem_singleton_self _) lacks
          · have long : 2 ≤ text.toList.length := by simp [isText]
            exact absurd lacks
              (shortCandidates_lacksValue long
                (candidates ▸ List.mem_singleton_self _))
        · cases isRole
        · split at isRole <;> · cases isRole; exact lacks.elim
  · cases isRole
    exact lacks.elim

/-- Without such an argument no role lacks its value. -/
theorem roles_lacksValue
    {arguments : List String}
    {all : List Role}
    (areRoles : roles arguments = .ok all)
    {role : Role}
    (member : role ∈ all)
    (lacks : role.LacksValue) :
    HasEmptyValue arguments := by
  fun_induction roles arguments generalizing all with
  | case1 =>
    cases areRoles
    cases member
  | case2 rest =>
    cases areRoles
    rcases List.mem_cons.1 member with rfl | inRest
    · exact lacks.elim
    · obtain ⟨text, -, rfl⟩ := List.mem_map.1 inRest
      exact lacks.elim
  | case3 text rest _ inductive_step =>
    obtain ⟨first, isRole, areRoles⟩ := bind_eq_ok.1 areRoles
    obtain ⟨others, areOthers, returned⟩ := bind_eq_ok.1 areRoles
    cases returned
    rcases List.mem_cons.1 member with rfl | inOthers
    · obtain ⟨stem, cut⟩ := roleOf_lacksValue isRole lacks
      exact ⟨text, List.mem_cons_self, stem, cut⟩
    · obtain ⟨argument, isArgument, stem, cut⟩ :=
        inductive_step areOthers inOthers
      exact ⟨argument, List.mem_cons_of_mem text isArgument, stem, cut⟩

/-! ## Reading -/

namespace Reading

variable {reading next : Reading}

theorem isComplete_start : start.request.IsComplete :=
  ⟨by simp [start], by simp [start], by simp [start]⟩

theorem isComplete_take
    {switch : Switch}
    (taken : reading.take switch = .ok next)
    (complete : reading.request.IsComplete) :
    next.request.IsComplete := by
  cases switch <;> cases taken <;>
    exact ⟨complete.iterations, complete.depth, complete.assignments⟩

theorem isComplete_assign
    {text : String}
    (assigned : reading.assign text = .ok next)
    (complete : reading.request.IsComplete) :
    next.request.IsComplete := by
  unfold assign at assigned
  split at assigned
  · cases assigned
  · dsimp only at assigned
    split at assigned
    · cases assigned
    · split at assigned
      · cases assigned
      · cases assigned
        refine ⟨complete.iterations, complete.depth, ?_⟩
        simpa using complete.assignments

theorem isComplete_takeValue
    {switch : Switch}
    {text : String}
    (taken : reading.takeValue switch text = .ok next)
    (complete : reading.request.IsComplete) :
    next.request.IsComplete := by
  cases switch with
  | evaluate => exact isComplete_assign taken complete
  | maxIterations =>
    obtain ⟨value, -, returned⟩ := bind_eq_ok.1 taken
    cases returned
    exact ⟨by simp, complete.depth, complete.assignments⟩
  | maxDepth =>
    obtain ⟨value, -, returned⟩ := bind_eq_ok.1 taken
    cases returned
    exact ⟨complete.iterations, by simp, complete.assignments⟩
  | _ => cases taken

theorem isComplete_foldlM_take
    {switches : List Switch}
    (taken : switches.foldlM take reading = .ok next)
    (complete : reading.request.IsComplete) :
    next.request.IsComplete := by
  induction switches generalizing reading with
  | nil =>
    cases taken
    exact complete
  | cons switch rest inductive_step =>
    rw [List.foldlM_cons] at taken
    obtain ⟨reading', takenFirst, takenOthers⟩ := bind_eq_ok.1 taken
    exact inductive_step takenOthers (isComplete_take takenFirst complete)

/-- An option with a value of its own is taken with this value, unless the value
is a double dash that stands for none. -/
theorem isComplete_takeAttached
    {switch : Switch}
    {isShort : Bool}
    {value : String}
    (taken : reading.takeAttached switch isShort value = .ok next)
    (present : ¬(Role.option switch isShort (some value)).LacksValue)
    (complete : reading.request.IsComplete) :
    next.request.IsComplete := by
  unfold takeAttached at taken
  split at taken
  · next takes =>
    split at taken
    · next isDash => exact absurd ⟨takes, by simpa using isDash⟩ present
    · exact isComplete_takeValue taken complete
  · split at taken
    · obtain ⟨switches, -, takenAll⟩ := bind_eq_ok.1 taken
      exact isComplete_foldlM_take takenAll complete
    · cases taken

/-- If no role lacks its value, the request that is read is complete. -/
theorem isComplete_readAll
    {all : List Role}
    (read : reading.readAll all = .ok next)
    (present : ∀ role ∈ all, ¬role.LacksValue)
    (complete : reading.request.IsComplete) :
    next.request.IsComplete := by
  fun_induction readAll reading all with
  | case1 reading =>
    cases read
    exact complete
  | case2 reading text others isFirst inductive_step =>
    exact inductive_step read
      (fun role member =>
        present role (List.mem_cons_of_mem _ (List.mem_cons_of_mem _ member)))
      complete
  | case3 reading text others noDivider isFirst inductive_step =>
    exact inductive_step read
      (fun role member => present role (List.mem_cons_of_mem _ member)) complete
  | case4 reading text expression others hasExpression inductive_step =>
    exact inductive_step read
      (fun role member => present role (List.mem_cons_of_mem _ member)) complete
  | case5 reading text others isFirst inductive_step =>
    exact inductive_step read
      (fun role member =>
        present role (List.mem_cons_of_mem _ (List.mem_cons_of_mem _ member)))
      complete
  | case6 reading others noExpression inductive_step =>
    exact inductive_step read
      (fun role member => present role (List.mem_cons_of_mem _ member)) complete
  | case7 reading text rest inductive_step =>
    exact inductive_step read
      (fun role member => present role (List.mem_cons_of_mem _ member)) complete
  | case8 reading switch isShort value rest inductive_step =>
    obtain ⟨presentFirst, presentRest⟩ := List.forall_mem_cons.1 present
    obtain ⟨reading', taken, readRest⟩ := bind_eq_ok.1 read
    exact inductive_step reading' readRest presentRest
      (isComplete_takeAttached taken presentFirst complete)
  | case9 reading switch isShort takes value others inductive_step =>
    obtain ⟨reading', taken, readRest⟩ := bind_eq_ok.1 read
    exact inductive_step reading' readRest
      (fun role member =>
        present role (List.mem_cons_of_mem _ (List.mem_cons_of_mem _ member)))
      (isComplete_takeValue taken complete)
  | case10 reading switch isShort rest takes noValue => cases read
  | case11 reading switch isShort rest takes inductive_step =>
    obtain ⟨reading', taken, readRest⟩ := bind_eq_ok.1 read
    exact inductive_step reading' readRest
      (fun role member => present role (List.mem_cons_of_mem _ member))
      (isComplete_take taken complete)

end Reading

/-- A request that is read from arguments is complete, unless one of them has a
double dash behind its equals sign. -/
theorem isComplete_or_hasEmptyValue
    {arguments : List String}
    {request : Request}
    (read : readArguments arguments = .ok request) :
    request.IsComplete ∨ HasEmptyValue arguments := by
  obtain ⟨all, areRoles, readRoles⟩ := bind_eq_ok.1 read
  obtain ⟨reading, readAll, finished⟩ := bind_eq_ok.1 readRoles
  by_cases lacking : ∃ role ∈ all, role.LacksValue
  · obtain ⟨role, member, lacks⟩ := lacking
    exact .inr (roles_lacksValue areRoles member lacks)
  · left
    have complete := Reading.isComplete_readAll readAll
      (fun role member lacks => lacking ⟨role, member, lacks⟩)
        Reading.isComplete_start
    unfold Reading.finish at finished
    split at finished
    · cases finished
    · split at finished
      · cases finished
        exact ⟨complete.iterations, complete.depth, complete.assignments⟩
      · cases finished

end CommandLine
end Symbolic
