import Symbolic.Proofs.RegistryTables

/-!
# Inverses and bases

A registration of an inverse writes into two tables: the inverse of the base,
and the base of the inverse.  Each table only keeps the latest entry for an
operation, so the two mirror each other until a base is given another inverse or
an inverse another base.  From then on they disagree about the earlier pair,
unless both of its operations were paired anew.
-/

namespace Symbolic

/-- The ids of the base and the inverse that a registration relates. -/
def Registration.pairing : Registration -> List (Int × Int)
  | addInverse base inverse _ => [(base.id, inverse.id)]
  | _ => []

theorem Registry.id_of_find?_eq_some
    {registry : Registry}
    {operation registered : Operation}
    (found : registry.find? operation = some registered) :
    registered.id = operation.id :=
  id_of_byId?_eq_some (Option.filter_eq_some_iff.1 found).1

/-- The latest pair with the key of a given one is that pair itself exactly if
the pair occurs and no pair behind its latest occurrence has its key. -/
theorem find?_sameKey_eq_some_iff
    {α β : Type}
    [DecidableEq α]
    [BEq β]
    [LawfulBEq β]
    (key : α -> β)
    (pair : α)
    (pairs : List α) :
    (pairs.find? fun other => key other == key pair) = some pair ↔
      pair ∈ pairs ∧ ∀ other ∈ pairs.takeWhile (· ≠ pair),
        key other ≠ key pair := by
  induction pairs with
  | nil => simp
  | cons first earlier inductive_step =>
    by_cases same : first = pair
    · subst same
      simp
    · by_cases sameKey : key first = key pair
      · simp [same, sameKey]
      · simp [same, Ne.symm same, sameKey, inductive_step]

theorem Table.get?_eq_find? (table : Table α) (id : Int) :
    table.get? id = (table.find? fun entry => entry.1 == id).map Prod.snd := by
  induction table with
  | nil => rfl
  | cons entry later inductive_step =>
    rw [get?, List.lookup_cons, List.find?_cons, BEq.comm]
    cases entry.1 == id with
    | true => rfl
    | false => exact inductive_step

namespace Tables

/-- The pairs of a base and its inverse that a history of registrations related,
by their ids.  The latest pair stands first, and refused registrations relate
nothing. -/
def pairings : List Registration -> List (Int × Int)
  | [] => []
  | registration :: earlier =>
    match (registration.perform.outcome (after earlier)).1 with
    | .ok _ => registration.pairing ++ pairings earlier
    | .error _ => pairings earlier

/-- The tables have `inverse` as the inverse of `base`. -/
def IsInverse (tables : Tables) (base inverse : Operation) : Prop :=
  ∃ transform, tables.inverse? base = some ⟨inverse, transform⟩

/-- The tables have `base` as the base of `inverse`. -/
def IsBase (tables : Tables) (base inverse : Operation) : Prop :=
  tables.base? inverse = some base

/-- The pairs that were related after `base` and `inverse` had last been
paired. -/
def pairingsSince (history : List Registration) (base inverse : Operation) :
    List (Int × Int) :=
  (pairings history).takeWhile (· ≠ (base.id, inverse.id))

/-- The two tables were written by the same registrations. -/
theorem exists_paired (history : List Registration) :
    ∃ registry : Registry, registry.Built ∧
      after history = ofRegistry registry ∧
      registry.inverses.map (fun entry => (entry.1, entry.2.operation.id)) =
        pairings history ∧
      registry.bases.map (fun entry => (entry.2.id, entry.1)) =
        pairings history := by
  induction history with
  | nil => exact ⟨.empty, .empty, rfl, rfl, rfl⟩
  | cons registration earlier inductive_step =>
    obtain ⟨registry, built, reached, inverses, bases⟩ := inductive_step
    rw [after, pairings, reached, registration.outcome_perform]
    cases accepted : registration.apply registry with
    | error failure => exact ⟨registry, built, rfl, inverses, bases⟩
    | ok next =>
      refine ⟨next, built.register registration accepted, rfl, ?_⟩
      cases Registry.accepts_of_apply accepted with
      | addInverse transform isBase isInverse =>
        simp [Table.put, Registration.pairing,
          Registry.id_of_find?_eq_some isBase,
          Registry.id_of_find?_eq_some isInverse, inverses, bases]
      | _ => exact ⟨inverses, bases⟩

/-- After `base` and `inverse` had last been paired, `base` was given another
inverse. -/
def HasNewInverse (history : List Registration) (base inverse : Operation) :
    Prop :=
  ∃ pair ∈ pairingsSince history base inverse, pair.1 = base.id

/-- After `base` and `inverse` had last been paired, `inverse` was given another
base. -/
def HasNewBase (history : List Registration) (base inverse : Operation) :
    Prop :=
  ∃ pair ∈ pairingsSince history base inverse, pair.2 = inverse.id

section Mirror

variable (history : List Registration) {base inverse : Operation}
  (isBase : base ∈ (after history).operations)
  (isInverse : inverse ∈ (after history).operations)

include isInverse in
/-- The inverse of a base is the one that it was paired with last. -/
theorem isInverse_iff :
    (after history).IsInverse base inverse ↔
      ((pairings history).find? fun pair => pair.1 == base.id) =
        some (base.id, inverse.id) := by
  obtain ⟨registry, built, reached, written, -⟩ := exists_paired history
  rw [reached, operations_ofRegistry] at isInverse
  rw [reached, ← written, List.find?_map, IsInverse]
  simp only [inverse?, ofRegistry, Table.get?_eq_find?, Function.comp_def]
  cases found : registry.inverses.find? fun entry => entry.1 == base.id with
  | none => simp
  | some entry =>
    have sameId : entry.1 = base.id := by simpa using List.find?_some found
    have related :=
      built.relatesRegistered.inverses entry (List.mem_of_find?_eq_some found)
    have unique := built.hasUniqueKeys.id_eq_iff related.2 isInverse
    obtain ⟨id, operation, transform⟩ := entry
    obtain rfl : id = base.id := sameId
    simpa using unique.symm

include isBase in
/-- The base of an inverse is the one that it was paired with last. -/
theorem isBase_iff :
    (after history).IsBase base inverse ↔
      ((pairings history).find? fun pair => pair.2 == inverse.id) =
        some (base.id, inverse.id) := by
  obtain ⟨registry, built, reached, -, written⟩ := exists_paired history
  rw [reached, operations_ofRegistry] at isBase
  rw [reached, ← written, List.find?_map, IsBase]
  simp only [base?, ofRegistry, Table.get?_eq_find?, Function.comp_def]
  cases found : registry.bases.find? fun entry => entry.1 == inverse.id with
  | none => simp
  | some entry =>
    have sameId : entry.1 = inverse.id := by simpa using List.find?_some found
    have related :=
      built.relatesRegistered.bases entry (List.mem_of_find?_eq_some found)
    have unique := built.hasUniqueKeys.id_eq_iff related.2 isBase
    simpa [sameId] using unique.symm

include isBase isInverse in
/-- When the two tables mirror each other.  Whatever registrations were asked
for, and whichever of them were refused: about two registered operations the
tables agree unless these were paired and since then exactly one of them was
paired with another operation. -/
theorem isInverse_iff_isBase_iff :
    ((after history).IsInverse base inverse ↔
      (after history).IsBase base inverse) ↔
      ((base.id, inverse.id) ∈ pairings history ->
        (HasNewInverse history base inverse ↔
          HasNewBase history base inverse)) := by
  rw [isInverse_iff history isInverse, isBase_iff history isBase,
    find?_sameKey_eq_some_iff Prod.fst (base.id, inverse.id),
    find?_sameKey_eq_some_iff Prod.snd (base.id, inverse.id),
      and_congr_right_iff]
  have noNewInverse : ¬HasNewInverse history base inverse ↔
      ∀ pair ∈ pairingsSince history base inverse, pair.1 ≠ base.id := by
    simp only [HasNewInverse, not_exists, not_and, ne_eq]
  have noNewBase : ¬HasNewBase history base inverse ↔
      ∀ pair ∈ pairingsSince history base inverse, pair.2 ≠ inverse.id := by
    simp only [HasNewBase, not_exists, not_and, ne_eq]
  rw [← not_iff_not (a := HasNewInverse history base inverse), noNewInverse,
    noNewBase]
  rfl

end Mirror

/-- Sums are given differences as their inverse, and quotients after that. -/
def secondInverse : List Registration :=
  [.addInverse .sum .quotient .negate, .addInverse .sum .difference .negate,
    .add .quotient, .add .difference, .add .sum]

/-- When in addition products are given differences as their inverse, the tables
agree about sums and differences again: neither is related to the other. -/
theorem isInverse_iff_isBase_iff_bothPairedAnew :
    (after (.addInverse .product .difference .negate :: .add .product ::
      secondInverse)).IsInverse
        .sum .difference ↔
      (after (.addInverse .product .difference .negate :: .add .product ::
        secondInverse)).IsBase
        .sum .difference := by
  refine (isInverse_iff_isBase_iff _ ?_ ?_).2 fun _ => ?_
  · exact .head _
  · exact .tail _ (.head _)
  · exact iff_of_true ⟨(1, 4), .tail _ (.head _), rfl⟩ ⟨(3, 2), .head _, rfl⟩

/-- Two inverses for one base: the tables take sums for the base of differences,
but not differences for the inverse of sums. -/
theorem isBase_and_not_isInverse_of_secondInverse :
    Operation.sum ∈ (after secondInverse).operations ∧
      Operation.difference ∈ (after secondInverse).operations ∧
      (after secondInverse).IsBase .sum .difference ∧
      ¬(after secondInverse).IsInverse .sum .difference := by
  refine ⟨.head _, .tail _ (.head _), rfl, ?_⟩
  rintro ⟨transform, found⟩
  have latest : ((after secondInverse).inverse? .sum).map
      (fun inverse : Inverse => inverse.operation.id) = some 4 := rfl
  rw [found] at latest
  have sameId : (2 : Int) = 4 := Option.some.inj latest
  exact absurd sameId (by decide)

end Tables
end Symbolic
