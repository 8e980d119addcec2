/-! Lists kept in ascending order: comparison of sequences, and insertion. -/
namespace Multicast

/-- The first place where two sequences differ decides; a proper beginning comes first. -/
def lexicographic : List Nat → List Nat → Ordering
  | [], [] => .eq
  | [], _ :: _ => .lt
  | _ :: _, [] => .gt
  | a :: as, b :: bs => if a < b then .lt else if b < a then .gt else lexicographic as bs

theorem lexicographic_eq_iff {as bs : List Nat} : lexicographic as bs = .eq ↔ as = bs := by
  fun_induction lexicographic as bs <;> grind

theorem lexicographic_swap (as bs : List Nat) :
    (lexicographic as bs).swap = lexicographic bs as := by
  fun_induction lexicographic as bs with
  | case1 | case2 | case3 => rfl
  | case4 a _ b _ h => simp [lexicographic, h, Nat.not_lt_of_gt h]
  | case5 a _ b _ _ h => simp [lexicographic, h]
  | case6 a _ b _ h h' ih => simp [lexicographic, h, h', ih]

/-- Puts an element in its place, in the stead of one that compares equal to it. -/
def insertAscending {α : Type} (order : α → α → Ordering) (a : α) : List α → List α
  | [] => [a]
  | b :: bs =>
    match order a b with
    | .lt => a :: b :: bs
    | .eq => a :: bs
    | .gt => b :: insertAscending order a bs

end Multicast
