import Mathlib.Algebra.Order.Ring.Nat
import Mathlib.Data.List.Basic

/-!
# Red-black trees

Trees whose nodes are red or black, and the path from a place in a tree up to its root.  Left and
right are values of `Side`, so that what holds on one side is stated once for both.

* `plug`, `entries_plug` — a subtree back in its place, and the entries that come before and
  after it.
* `BlackBalanced` — no red node has a red child and all paths down meet as many black nodes.
* `Hole` — the place of a subtree in a balanced tree: its black height and the colour above it.
* `balanced_plug`, `BlackBalanced.hole` — into a hole and out of it.
* `BlackBalanced.height_le_log` — a balanced tree is at most twice as high as the logarithm of its
  size.
-/

set_option autoImplicit false

namespace Hwdb.Lib.RedBlack

inductive Color where
  | red
  | black
  deriving DecidableEq, Repr

inductive Side where
  | left
  | right
  deriving DecidableEq, Repr

/-- The other side. -/
def Side.flip : Side → Side
  | .left => .right
  | .right => .left

/-- A tree with entries in its inner nodes. -/
inductive ColorTree (α : Type) where
  | leaf
  | node (color : Color) (left : ColorTree α) (entry : α) (right : ColorTree α)
  deriving DecidableEq, Repr

/-- The parent of a place in a tree, the side that the place is on, and what is on the other. -/
structure Frame (α : Type) where
  side : Side
  color : Color
  entry : α
  sibling : ColorTree α
  deriving DecidableEq, Repr

/-- The parents of a place, the nearest first. -/
abbrev Parents (α : Type) := List (Frame α)

variable {α : Type}

namespace ColorTree

/-- The node with `near` on side `s` and `far` on the other. -/
def branch (s : Side) (c : Color) (near : ColorTree α) (e : α) (far : ColorTree α) : ColorTree α :=
  match s with
  | .left => node c near e far
  | .right => node c far e near

/-- A leaf is black. -/
def color : ColorTree α → Color
  | leaf => .black
  | node c _ _ _ => c

def paint (c : Color) : ColorTree α → ColorTree α
  | leaf => leaf
  | node _ l e r => node c l e r

/-- The entries from left to right. -/
def entries : ColorTree α → List α
  | leaf => []
  | node _ l e r => l.entries ++ e :: r.entries

/-- A node before its subtrees. -/
def preorder : ColorTree α → List α
  | leaf => []
  | node _ l e r => e :: (l.preorder ++ r.preorder)

/-- A node's colour, its child on side `s`, its entry and its other child. -/
def view (s : Side) : ColorTree α → Option (Color × ColorTree α × α × ColorTree α)
  | leaf => none
  | node c l e r => some (match s with
    | .left => (c, l, e, r)
    | .right => (c, r, e, l))

def height : ColorTree α → Nat
  | leaf => 0
  | node _ l _ r => max l.height r.height + 1

end ColorTree

open ColorTree

/-- The tree with `t` at the end of a path. -/
def plug : ColorTree α → Parents α → ColorTree α
  | t, [] => t
  | t, f :: p => plug (branch f.side f.color t f.entry f.sibling) p

/-- The entries left of a place. -/
def before : Parents α → List α
  | [] => []
  | f :: p => before p ++ (match f.side with
    | .left => []
    | .right => f.sibling.entries ++ [f.entry])

/-- The entries right of a place. -/
def after : Parents α → List α
  | [] => []
  | f :: p => (match f.side with
    | .left => f.entry :: f.sibling.entries
    | .right => []) ++ after p

/-- Turn a node towards side `s`: its child on the other side takes its place. -/
def rotate : Side → ColorTree α → Option (ColorTree α)
  | .left, node c a x (node d b y e) => some (node d (node c a x b) y e)
  | .right, node c (node d e y b) x a => some (node d e y (node c b x a))
  | _, _ => none

section Shape

variable {s : Side} {c d : Color} {a b t : ColorTree α} {e x y : α} {p : Parents α}

@[simp] theorem flip_flip (s : Side) : s.flip.flip = s := by
  cases s <;> rfl

theorem eq_flip_of_ne {s t : Side} (h : s ≠ t) : s = t.flip := by
  cases s <;> cases t <;> first | rfl | exact absurd rfl h

/-- A node seen from its other side. -/
theorem branch_flip : branch s.flip c a e b = branch s c b e a := by
  cases s <;> rfl

/-- Every inner node is a branch, whichever side one looks from. -/
theorem cases_branch (s : Side) (t : ColorTree α) :
    t = leaf ∨ ∃ c a e b, t = branch s c a e b := by
  cases t with
  | leaf => exact .inl rfl
  | node c l e r =>
    cases s with
    | left => exact .inr ⟨c, l, e, r, rfl⟩
    | right => exact .inr ⟨c, r, e, l, rfl⟩

@[simp] theorem color_branch : (branch s c a e b).color = c := by
  cases s <;> rfl

@[simp] theorem color_leaf : (leaf : ColorTree α).color = .black := rfl

@[simp] theorem view_branch : (branch s c a e b).view s = some (c, a, e, b) := by
  cases s <;> rfl

@[simp] theorem paint_branch : (branch s c a e b).paint d = branch s d a e b := by
  cases s <;> rfl

@[simp] theorem entries_paint : (t.paint c).entries = t.entries := by
  cases t <;> rfl

theorem color_paint_black : (t.paint .black).color = .black := by
  cases t <;> rfl

@[simp] theorem rotate_branch :
    rotate s (branch s c a x (branch s d b y t)) = some (branch s d (branch s c a x b) y t) := by
  cases s <;> rfl

/-- A rotation keeps the order. -/
theorem entries_rotate :
    (branch s d (branch s c a x b) y t).entries = (branch s c a x (branch s d b y t)).entries := by
  cases s <;> simp [branch, entries]

theorem entries_plug (t : ColorTree α) (p : Parents α) :
    (plug t p).entries = before p ++ t.entries ++ after p := by
  induction p generalizing t with
  | nil => simp [plug, before, after]
  | cons f p ih =>
    obtain ⟨s, c, e, b⟩ := f
    cases s <;> simp [plug, ih, branch, entries, before, after]

/-- Only the entries of the children matter. -/
theorem entries_branch_congr {a' b' : ColorTree α} {d : Color} (ha : a.entries = a'.entries)
    (hb : b.entries = b'.entries) : (branch s c a e b).entries = (branch s d a' e b').entries := by
  cases s <;> simp [branch, entries, ha, hb]

/-- Subtrees with the same entries are as good. -/
theorem entries_plug_congr (h : a.entries = b.entries) (p : Parents α) :
    (plug a p).entries = (plug b p).entries := by
  rw [entries_plug, entries_plug, h]

theorem plug_append (t : ColorTree α) (p q : Parents α) : plug t (p ++ q) = plug (plug t p) q := by
  induction p generalizing t with
  | nil => rfl
  | cons f p ih => exact ih _

theorem perm_preorder (t : ColorTree α) : t.preorder.Perm t.entries := by
  induction t with
  | leaf => exact .refl _
  | node c l e r ihl ihr =>
    refine ((ihl.append ihr).cons e).trans ?_
    exact List.perm_middle.symm

end Shape

/-! ## Balance -/

/-- `BlackBalanced n t`: no red node of `t` has a red child, and every path down from the root of
`t` meets `n` black nodes. -/
inductive BlackBalanced : Nat → ColorTree α → Prop where
  | leaf : BlackBalanced 0 leaf
  | red {n : Nat} {l r : ColorTree α} {e : α} (hl : BlackBalanced n l) (hr : BlackBalanced n r)
      (hcl : l.color = .black) (hcr : r.color = .black) : BlackBalanced n (node .red l e r)
  | black {n : Nat} {l r : ColorTree α} {e : α} (hl : BlackBalanced n l) (hr : BlackBalanced n r) :
      BlackBalanced (n + 1) (node .black l e r)

/-- `Hole c n p`: at the end of `p` a balanced tree of black height `n` completes a balanced one;
`c` is the colour of the parent.  The root counts as the child of a red node, since it is black. -/
inductive Hole : Color → Nat → Parents α → Prop where
  | root (n : Nat) : Hole .red n []
  | red {n : Nat} {s : Side} {e : α} {b : ColorTree α} {p : Parents α} (h : Hole .black n p)
      (hb : BlackBalanced n b) (hc : b.color = .black) : Hole .red n (⟨s, .red, e, b⟩ :: p)
  | black {c : Color} {n : Nat} {s : Side} {e : α} {b : ColorTree α} {p : Parents α}
      (h : Hole c (n + 1) p) (hb : BlackBalanced n b) : Hole .black n (⟨s, .black, e, b⟩ :: p)

section Balance

variable {s : Side} {c : Color} {n : Nat} {a b t : ColorTree α} {e : α} {p : Parents α}

theorem balanced_red_iff : BlackBalanced n (branch s .red a e b) ↔
    BlackBalanced n a ∧ BlackBalanced n b ∧ a.color = .black ∧ b.color = .black := by
  constructor
  · intro h
    cases s with
    | left =>
      cases h with
      | red hl hr hcl hcr => exact ⟨hl, hr, hcl, hcr⟩
    | right =>
      cases h with
      | red hl hr hcl hcr => exact ⟨hr, hl, hcr, hcl⟩
  · rintro ⟨ha, hb, hca, hcb⟩
    cases s with
    | left => exact .red ha hb hca hcb
    | right => exact .red hb ha hcb hca

theorem balanced_black_iff : BlackBalanced n (branch s .black a e b) ↔
    ∃ m, n = m + 1 ∧ BlackBalanced m a ∧ BlackBalanced m b := by
  constructor
  · intro h
    cases s with
    | left =>
      cases h with
      | black hl hr => exact ⟨_, rfl, hl, hr⟩
    | right =>
      cases h with
      | black hl hr => exact ⟨_, rfl, hr, hl⟩
  · rintro ⟨m, rfl, ha, hb⟩
    cases s with
    | left => exact .black ha hb
    | right => exact .black hb ha

/-- A black node over two balanced trees. -/
theorem balanced_black (ha : BlackBalanced n a) (hb : BlackBalanced n b) :
    BlackBalanced (n + 1) (branch s .black a e b) := balanced_black_iff.mpr ⟨n, rfl, ha, hb⟩

/-- A balanced tree with a black root instead of its own. -/
theorem BlackBalanced.paint_black (h : BlackBalanced n t) :
    ∃ m, BlackBalanced m (t.paint .black) := by
  cases h with
  | leaf => exact ⟨0, .leaf⟩
  | red hl hr => exact ⟨_, .black hl hr⟩
  | black hl hr => exact ⟨_, .black hl hr⟩

/-- A red root painted black adds to the black height. -/
theorem BlackBalanced.paint_red (h : BlackBalanced n t) (hc : t.color = .red) :
    BlackBalanced (n + 1) (t.paint .black) := by
  cases h with
  | leaf => cases hc
  | red hl hr => exact .black hl hr
  | black => cases hc

/-- **Into a hole.** -/
theorem balanced_plug (h : Hole c n p) (ht : BlackBalanced n t) (hc : c = .red → t.color = .black) :
    ∃ m, BlackBalanced m (plug t p) ∧ (plug t p).color = .black := by
  induction h generalizing t with
  | root n => exact ⟨n, ht, hc rfl⟩
  | red h hb hcb ih =>
    refine ih (balanced_red_iff.mpr ⟨ht, hb, hc rfl, hcb⟩) fun h => (by cases h)
  | black h hb ih => exact ih (balanced_black ht hb) fun _ => color_branch

/-- **Out of it**: the place of a child. -/
theorem BlackBalanced.hole (h : BlackBalanced n (branch s c a e b)) {c' : Color} (hh : Hole c' n p)
    (hc : c' = .red → c = .black) :
    ∃ m, BlackBalanced m a ∧ Hole c m (⟨s, c, e, b⟩ :: p) ∧ (c = .red → a.color = .black) := by
  cases c with
  | red =>
    obtain ⟨ha, hb, hca, hcb⟩ := balanced_red_iff.mp h
    have hblack : c' = .black := by
      cases c' with
      | red => exact absurd (hc rfl) (by decide)
      | black => rfl
    subst hblack
    exact ⟨n, ha, .red hh hb hcb, fun _ => hca⟩
  | black =>
    obtain ⟨m, rfl, ha, hb⟩ := balanced_black_iff.mp h
    exact ⟨m, ha, .black hh hb, fun h => (by cases h)⟩

/-- A black tree that is no leaf has a black node on every path. -/
theorem BlackBalanced.ne_leaf (h : BlackBalanced (n + 1) t) : t ≠ .leaf := by
  rintro rfl
  cases h

/-- The number of entries is exponential in the black height. -/
theorem BlackBalanced.pow_le (h : BlackBalanced n t) : 2 ^ n ≤ t.entries.length + 1 := by
  induction h with
  | leaf => simp [entries]
  | red hl hr hcl hcr ihl ihr =>
    simp only [entries, List.length_append, List.length_cons]
    omega
  | black hl hr ihl ihr =>
    simp only [entries, List.length_append, List.length_cons, Nat.pow_succ]
    omega

/-- At most every other node on a path is red. -/
theorem BlackBalanced.height_le (h : BlackBalanced n t) :
    t.height ≤ 2 * n + if t.color = .red then 1 else 0 := by
  induction h with
  | leaf => simp [height]
  | red hl hr hcl hcr ihl ihr =>
    rw [hcl, if_neg (by decide)] at ihl
    rw [hcr, if_neg (by decide)] at ihr
    simp only [height, ColorTree.color, if_true]
    omega
  | @black n l r e hl hr ihl ihr =>
    have hone : ∀ c : Color, (if c = Color.red then 1 else 0) ≤ 1 := fun c => by cases c <;> decide
    have hcl := hone l.color
    have hcr := hone r.color
    simp only [height, ColorTree.color]
    omega

/-- **A balanced tree is at most `2 * log2 (size + 1)` nodes high.** -/
theorem BlackBalanced.height_le_log (h : BlackBalanced n t) (hc : t.color = .black) :
    t.height ≤ 2 * Nat.log2 (t.entries.length + 1) := by
  have hheight := h.height_le
  rw [hc, if_neg (by decide)] at hheight
  have hlog : n ≤ Nat.log2 (t.entries.length + 1) :=
    (Nat.le_log2 (Nat.succ_ne_zero _)).mpr h.pow_le
  omega

end Balance

end Hwdb.Lib.RedBlack
