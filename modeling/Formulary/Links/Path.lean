import Formulary.Calculation

/-!
# Paths of links

A path leads from a calculation to one that it depends on, directly or through others. Its length is
the number of its links, and the distance between two calculations is the length of the shortest
path.
-/

namespace Formulary.Links

/-- This many links lead from the first identity to the second. -/
inductive Path (links : List Link) : Nat → Int → Int → Prop where
  | single {origin destination : Int} :
      ⟨origin, destination⟩ ∈ links → Path links 1 origin destination
  | step {origin middle destination : Int} {length : Nat} :
      ⟨origin, middle⟩ ∈ links → Path links length middle destination →
        Path links (length + 1) origin destination

/-- The first calculation depends on the second, directly or through others. -/
def DependsOn (links : List Link) (origin destination : Int) : Prop :=
  ∃ length, Path links length origin destination

/-- No path is shorter than this one. -/
def IsDistance (links : List Link) (length : Nat) (origin destination : Int) : Prop :=
  Path links length origin destination ∧
    ∀ shorter, Path links shorter origin destination → length ≤ shorter

/-- No calculation depends on itself. -/
def Acyclic (links : List Link) : Prop :=
  ∀ id, ¬DependsOn links id id

/-- A path of paths is a path. -/
theorem Path.trans {links : List Link} {first second : Nat} {origin middle destination : Int}
    (toMiddle : Path links first origin middle) (toEnd : Path links second middle destination) :
    Path links (first + second) origin destination := by
  induction toMiddle with
  | single linked =>
    rw [Nat.add_comm]
    exact .step linked toEnd
  | @step _ _ _ length linked _ inductionHypothesis =>
    have longer := Path.step linked (inductionHypothesis toEnd)
    rwa [Nat.add_right_comm] at longer

/-- Dependence is transitive. -/
theorem DependsOn.trans {links : List Link} {origin middle destination : Int}
    (toMiddle : DependsOn links origin middle) (toEnd : DependsOn links middle destination) :
    DependsOn links origin destination := by
  obtain ⟨_, toMiddle⟩ := toMiddle
  obtain ⟨_, toEnd⟩ := toEnd
  exact ⟨_, toMiddle.trans toEnd⟩

end Formulary.Links
