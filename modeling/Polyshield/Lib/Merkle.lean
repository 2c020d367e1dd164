import Mathlib.Logic.Function.Basic
import Mathlib.Tactic

/-!
# Perfect binary hash trees

`node H f l j` is node `j` of level `l` of the infinite binary tree with leaves
`f` and hash `H`; the root of the depth-`d` tree is `node H f d 0`. `climb`
folds an authentication path upwards, and `authPath` is the honest path of a
leaf. For an injective hash a path that reaches a node of the tree determines
the leaf it started from (`climb_binding`).
-/

namespace Merkle

variable {α : Type*} (H : α → α → α)

/-- Node `j` of level `l` over the leaves `f`. -/
def node (f : ℕ → α) : ℕ → ℕ → α
  | 0, j => f j
  | l + 1, j => H (node f l (2 * j)) (node f l (2 * j + 1))

def zeroNode (z : α) : ℕ → α
  | 0 => z
  | l + 1 => H (zeroNode z l) (zeroNode z l)

def padded (z : α) (xs : List α) (j : ℕ) : α := xs.getD j z

/-- Root of the depth-`d` tree whose first leaves are `xs`, the others `z`. -/
def listRoot (z : α) (d : ℕ) (xs : List α) : α := node H (padded z xs) d 0

variable {H}

theorem node_congr {f g : ℕ → α} {l j : ℕ}
    (h : ∀ k, j * 2 ^ l ≤ k → k < (j + 1) * 2 ^ l → f k = g k) :
    node H f l j = node H g l j := by
  induction l generalizing j with
  | zero => exact h j (by simp) (by simp)
  | succ l ih =>
    simp only [node]
    have hlo : j * 2 ^ (l + 1) = 2 * j * 2 ^ l := by ring
    have hhi : (j + 1) * 2 ^ (l + 1) = (2 * j + 1 + 1) * 2 ^ l := by ring
    have hmid : (2 * j + 1) * 2 ^ l = 2 * j * 2 ^ l + 2 ^ l := by ring
    have htop : (2 * j + 1 + 1) * 2 ^ l = (2 * j + 1) * 2 ^ l + 2 ^ l := by ring
    have hleft : node H f l (2 * j) = node H g l (2 * j) :=
      ih fun k h1 h2 => h k (by omega) (by omega)
    have hright : node H f l (2 * j + 1) = node H g l (2 * j + 1) :=
      ih fun k h1 h2 => h k (by omega) (by omega)
    rw [hleft, hright]

theorem node_eq_zeroNode {f : ℕ → α} {z : α} {n l j : ℕ} (hf : ∀ k, n ≤ k → f k = z)
    (hj : n ≤ j * 2 ^ l) : node H f l j = zeroNode H z l := by
  induction l generalizing j with
  | zero => exact hf j (by simpa using hj)
  | succ l ih =>
    have e : j * 2 ^ (l + 1) = 2 * j * 2 ^ l := by ring
    rw [e] at hj
    simp only [node, zeroNode]
    rw [ih hj, ih (by rw [Nat.add_mul]; omega)]

theorem padded_of_le {z : α} {xs : List α} {k : ℕ} (h : xs.length ≤ k) : padded z xs k = z := by
  simp [padded, List.getElem?_eq_none h]

theorem padded_of_lt {z : α} {xs : List α} {k : ℕ} (h : k < xs.length) :
    padded z xs k = xs[k] := by
  simp [padded, h]

theorem padded_append_left {z : α} {xs ys : List α} {k : ℕ} (h : k < xs.length) :
    padded z (xs ++ ys) k = padded z xs k := by
  rw [padded_of_lt h, padded_of_lt (by simp; omega), List.getElem_append_left h]

/-- Appending a leaf leaves every node to its left unchanged. -/
theorem node_padded_append {z : α} {xs : List α} {x : α} {l j : ℕ}
    (h : (j + 1) * 2 ^ l ≤ xs.length) :
    node H (padded z (xs ++ [x])) l j = node H (padded z xs) l j :=
  node_congr fun _ _ hk => padded_append_left (by omega)

/-- Every node to the right of the last leaf is a zero subtree. -/
theorem node_padded_right {z : α} {xs : List α} {l j : ℕ} (h : xs.length ≤ j * 2 ^ l) :
    node H (padded z xs) l j = zeroNode H z l :=
  node_eq_zeroNode (fun _ hk => padded_of_le hk) h

/-! ## Authentication paths -/

/-- One step of a path: `true` when the current node is the right child. -/
abbrev Step (α : Type*) := α × Bool

def parent (H : α → α → α) (x : α) (s : Step α) : α := if s.2 then H s.1 x else H x s.1

/-- Fold a path upwards from a leaf. -/
def climb (H : α → α → α) (x : α) (path : List (Step α)) : α := path.foldl (parent H) x

@[simp] theorem climb_nil (x : α) : climb H x [] = x := rfl

@[simp] theorem climb_cons (x : α) (s : Step α) (p : List (Step α)) :
    climb H x (s :: p) = climb H (parent H x s) p := rfl

def pathIndex (j : ℕ) : List (Step α) → ℕ
  | [] => j
  | s :: p => 2 * pathIndex j p + s.2.toNat

def sibling (i : ℕ) : ℕ := if i % 2 = 0 then i + 1 else i - 1

/-- The honest path of length `d` from node `i` of level `l`. -/
def authPath (H : α → α → α) (f : ℕ → α) : ℕ → ℕ → ℕ → List (Step α)
  | 0, _, _ => []
  | d + 1, l, i =>
    (node H f l (sibling i), decide (i % 2 = 1)) :: authPath H f d (l + 1) (i / 2)

theorem parent_node (f : ℕ → α) (l i : ℕ) :
    parent H (node H f l i) (node H f l (sibling i), decide (i % 2 = 1))
      = node H f (l + 1) (i / 2) := by
  simp only [parent, node, sibling]
  rcases Nat.mod_two_eq_zero_or_one i with h | h
  · simp only [h, ↓reduceIte, decide_eq_true_eq, zero_ne_one]
    rw [show 2 * (i / 2) = i by omega]
  · simp only [h, one_ne_zero, ↓reduceIte, decide_true]
    rw [show 2 * (i / 2) = i - 1 by omega, show i - 1 + 1 = i by omega]

/-- The honest path of a node folds to its ancestor. -/
theorem climb_authPath (f : ℕ → α) (d l i : ℕ) :
    climb H (node H f l i) (authPath H f d l i) = node H f (l + d) (i / 2 ^ d) := by
  induction d generalizing l i with
  | zero => simp [authPath]
  | succ d ih =>
    rw [authPath, climb_cons, parent_node, ih]
    rw [Nat.div_div_eq_div_mul, show 2 * 2 ^ d = 2 ^ (d + 1) by ring,
      show l + 1 + d = l + (d + 1) by omega]

theorem length_authPath (f : ℕ → α) (d l i : ℕ) : (authPath H f d l i).length = d := by
  induction d generalizing l i with
  | zero => rfl
  | succ d ih => simp [authPath, ih]

/-- With an injective hash, a path that climbs to node `j` of level `l` started
at the level-0 node it points at. -/
theorem climb_binding (hH : Function.Injective2 H) (f : ℕ → α) (j : ℕ) (p : List (Step α)) (x : α)
    (h : climb H x p = node H f p.length j) : x = f (pathIndex j p) := by
  suffices key : ∀ (p : List (Step α)) (l : ℕ) (x : α),
      climb H x p = node H f (l + p.length) j → x = node H f l (pathIndex j p) from
    key p 0 x (by simpa using h)
  intro p
  induction p with
  | nil => intro l x h; simpa [pathIndex] using h
  | cons s p ih =>
    intro l x h
    have h' := ih (l + 1) _ (by
      rw [climb_cons] at h
      rw [h, List.length_cons, show l + 1 + p.length = l + (p.length + 1) by omega])
    simp only [parent, node] at h'
    simp only [pathIndex]
    cases hs : s.2 with
    | true => simp only [hs, ↓reduceIte] at h'; simpa using (hH h').2
    | false => simp only [hs, Bool.false_eq_true, ↓reduceIte] at h'; simpa using (hH h').1

end Merkle
