import Hwdb.Lib.Buckets
import Hwdb.Lib.RedBlack

/-!
# The red-black trees of libhashish (`hi_rbtree.c`)

A node and its parent pointers are a subtree and the path to the root; a NULL that the code would
follow is `none`.  Mirrored branches of the source are one definition over the side.

* `rbInsertColor`, `rbInsertColor_spec` — a new red node is balanced away.
* `rbEraseColor`, `rbEraseColor_spec` — so is a black node that is missing.
* `rbErase`, `rbErase_spec` — a node is taken out.
* `rbDescend`, `rbDescend_leaf`, `rbDescend_node` — the search for a key, and where it ends.
* `rbTraverse_eq` — the array that an iterator gets.
-/

set_option autoImplicit false

namespace Hwdb.Hashish

open Hwdb.Lib Hwdb.Lib.RedBlack Hwdb.Lib.RedBlack.ColorTree

variable {α : Type}

/-! ## Insertion -/

/-- `rb_insert_color`: `t` is `node` and its subtrees, the path goes up to the root. -/
def rbInsertColor : ColorTree α → Parents α → Option (ColorTree α)
  | t, [] => some (t.paint .black)
  | t, parent :: path =>
    if parent.color = .black then some ((plug t (parent :: path)).paint .black)
    else
      match path with
      | [] => none
      | gparent :: path =>
        let s := gparent.side
        let p := branch parent.side parent.color t parent.entry parent.sibling
        if gparent.sibling.color = .red then
          rbInsertColor (branch s .red (p.paint .black) gparent.entry
            (gparent.sibling.paint .black)) path
        else
          (if parent.side = s then some p else rotate s p).bind fun p =>
          (rotate s.flip (branch s .red (p.paint .black) gparent.entry gparent.sibling)).map
            fun g => (plug g path).paint .black

section Insert

variable {s : Side} {c : Color} {n : Nat} {t b u : ColorTree α} {e x : α} {p : Parents α}

/-- What the balancing functions promise: a balanced tree with a black root and these entries. -/
def Rebalanced (o : Option (ColorTree α)) (l : List α) : Prop :=
  ∃ t, o = some t ∧ (∃ m, BlackBalanced m t) ∧ t.color = .black ∧ t.entries = l

/-- A tree that fits its hole needs no more than a black root. -/
theorem rebalanced_plug {l : List α} (hh : Hole c n p) (ht : BlackBalanced n t)
    (hc : c = .red → t.color = .black) (hl : (plug t p).entries = l) :
    Rebalanced (some ((plug t p).paint .black)) l := by
  obtain ⟨m, hm, -⟩ := balanced_plug hh ht hc
  exact ⟨_, rfl, hm.paint_black, color_paint_black, entries_paint.trans hl⟩

/-- The last rotation, where the red node and its red parent are on the same side. -/
theorem rotate_gparent (hh : Hole c (n + 1) p) (ht : BlackBalanced n t) (hb : BlackBalanced n b)
    (hu : BlackBalanced n u) (hcb : b.color = .black) (hcu : u.color = .black) :
    Rebalanced ((rotate s.flip (branch s .red (branch s .black t x b) e u)).map
      fun g => (plug g p).paint .black)
      (plug (branch s .black (branch s .red t x b) e u) p).entries := by
  have hrot : rotate s.flip (branch s .red (branch s .black t x b) e u) =
      some (branch s .black t x (branch s .red b e u)) := by
    rw [← branch_flip (s := s) (a := u), ← branch_flip (s := s) (a := b), rotate_branch,
      branch_flip, branch_flip]
  rw [hrot, Option.map_some]
  refine rebalanced_plug hh (balanced_black ht (balanced_red_iff.mpr ⟨hb, hu, hcb, hcu⟩))
    (fun _ => color_branch) (entries_plug_congr ?_ p)
  cases s <;> simp [branch, entries]

/-- **`rb_insert_color`** where a red node has been put into a hole. -/
theorem rbInsertColor_spec : ∀ {p : Parents α} {c : Color} {n : Nat} {t : ColorTree α}, Hole c n p →
    BlackBalanced n t → t.color = .red → Rebalanced (rbInsertColor t p) (plug t p).entries
  | [], _, _, t, _, ht, _ => ⟨_, rfl, ht.paint_black, color_paint_black, entries_paint⟩
  | parent :: path, _, _, t, hh, ht, hc => by
    cases hh with
    | black h hb =>
      unfold rbInsertColor
      simp only [if_true]
      exact rebalanced_plug (.black h hb) ht (fun h => (by cases h)) rfl
    | red h hb hcb =>
      cases h with
      | @black c n gs ge uncle path h hu =>
        rename_i s pe b
        unfold rbInsertColor
        simp only [reduceCtorEq, if_false]
        by_cases huncle : uncle.color = .red
        · have hup : BlackBalanced (_ + 1) (branch gs .red (branch s .black t pe b) ge
              (uncle.paint .black)) := balanced_red_iff.mpr
            ⟨balanced_black ht hb, hu.paint_red huncle, color_branch, color_paint_black⟩
          have hred := rbInsertColor_spec h hup color_branch
          simp only [huncle, if_true, paint_branch]
          have hentries : (branch gs .red (branch s .black t pe b) ge
              (uncle.paint .black)).entries =
              (branch gs .black (branch s .red t pe b) ge uncle).entries :=
            entries_branch_congr (entries_branch_congr rfl rfl) entries_paint
          rw [entries_plug_congr hentries] at hred
          exact hred
        · have hcu : uncle.color = .black := by
            cases hcu : uncle.color with
            | red => exact absurd hcu huncle
            | black => rfl
          simp only [huncle, if_false]
          by_cases hside : s = gs
          · subst hside
            simp only [if_true, Option.bind_some, paint_branch]
            exact rotate_gparent h ht hb hu hcb hcu
          · obtain rfl := eq_flip_of_ne hside
            -- the red node is first turned to the side of its parent
            rcases cases_branch gs t with rfl | ⟨ct, a, x, a', rfl⟩
            · cases hc
            rw [color_branch] at hc
            subst hc
            obtain ⟨ha, ha', hca, hca'⟩ := balanced_red_iff.mp ht
            simp only [if_neg hside, branch_flip, rotate_branch, Option.bind_some, paint_branch]
            have hturn := rotate_gparent (s := gs) (x := x) (e := ge) h
              (balanced_red_iff (s := gs) (e := pe).mpr ⟨hb, ha, hcb, hca⟩) ha' hu hca' hcu
            have hentries : (branch gs .black (branch gs .red (branch gs .red b pe a) x a') ge
                uncle).entries = (branch gs .black (branch gs.flip .red
                  (branch gs .red a x a') pe b) ge uncle).entries :=
              entries_branch_congr (by rw [branch_flip, entries_rotate]) rfl
            rw [entries_plug_congr hentries] at hturn
            exact hturn

end Insert

/-! ## Removal -/

/-- The first `if` in the loop of `__rb_erase_color`: a red sibling is rotated above the parent. -/
def blackSibling (f : Frame α) (path : Parents α) : Option (Frame α × Parents α) :=
  (f.sibling.view f.side).bind fun (oc, near, oe, far) =>
    if oc = .red then some (⟨f.side, .red, f.entry, near⟩, ⟨f.side, .black, oe, far⟩ :: path)
    else some (f, path)

/-- The last branch of that loop: the sibling has a red child, which ends up black. -/
def rotateSibling (t : ColorTree α) (f : Frame α) (path : Parents α) : Option (ColorTree α) :=
  (f.sibling.view f.side).bind fun (oc, near, oe, far) =>
    (if far.color = .black then rotate f.side.flip (branch f.side .red (near.paint .black) oe far)
      else some (branch f.side oc near oe far)).bind fun other =>
    (other.view f.side).bind fun (_, near, oe, far) =>
    (rotate f.side (branch f.side .black t f.entry
      (branch f.side f.color near oe (far.paint .black)))).map fun g =>
    (plug g path).paint .black

/-- `__rb_erase_color`: a black node is missing above `t`, which is `node` and its subtrees. -/
def rbEraseColor : Nat → ColorTree α → Parents α → Option (ColorTree α)
  | 0, _, _ => none
  | _ + 1, t, [] => some (t.paint .black)
  | n + 1, t, f :: path =>
    if t.color = .red then some (plug (t.paint .black) (f :: path))
    else
      (blackSibling f path).bind fun (f, path) =>
      (f.sibling.view f.side).bind fun (_, near, oe, far) =>
      if near.color = .black ∧ far.color = .black then
        rbEraseColor n (branch f.side f.color t f.entry (branch f.side .red near oe far)) path
      else rotateSibling t f path

section Erase

variable {s : Side} {c cf : Color} {n k : Nat} {t b u : ColorTree α} {e x : α} {p : Parents α}
  {f : Frame α}

/-- A subtree above which one black node is missing, unless it has a red root to paint. -/
structure Short (n : Nat) (t : ColorTree α) : Prop where
  red : t.color = .red → BlackBalanced (n + 1) (t.paint .black)
  black : t.color = .black → BlackBalanced n t

theorem short_of_balanced (h : BlackBalanced n t) : Short n t := ⟨h.paint_red, fun _ => h⟩

/-- The path after `blackSibling` is the one after the rotation. -/
theorem plug_red_sibling {a oe : ColorTree α} :
    plug t (⟨s, .red, e, a⟩ :: ⟨s, .black, x, oe⟩ :: p) =
      plug (branch s .black (branch s .red t e a) x oe) p := rfl

theorem blackSibling_spec (hh : Hole c (n + 1) (f :: p)) :
    ∃ f' p' c', blackSibling f p = some (f', p') ∧ Hole c' (n + 1) (f' :: p') ∧
      f'.sibling.color = .black ∧ (∀ t, (plug t (f' :: p')).entries = (plug t (f :: p)).entries) ∧
      (f'.color = .black → p' = p) := by
  have hkeep : ∀ oc near oe far, f.sibling = branch f.side oc near oe far → oc = .black →
      blackSibling f p = some (f, p) := by
    intro oc near oe far hs hoc
    simp [blackSibling, hs, hoc]
  cases hh with
  | @red n s e b p h hb hcb =>
    rcases cases_branch s b with rfl | ⟨oc, near, oe, far, rfl⟩
    · exact absurd rfl hb.ne_leaf
    · rw [color_branch] at hcb
      exact ⟨_, _, _, hkeep oc near oe far rfl hcb, .red h hb (by rw [color_branch, hcb]),
        by rw [color_branch, hcb], fun _ => rfl, fun _ => rfl⟩
  | @black c n s e b p h hb =>
    rcases cases_branch s b with rfl | ⟨oc, near, oe, far, rfl⟩
    · exact absurd rfl hb.ne_leaf
    · cases oc with
      | black =>
        exact ⟨_, _, _, hkeep .black near oe far rfl rfl, .black h hb, color_branch,
          fun _ => rfl, fun _ => rfl⟩
      | red =>
        obtain ⟨hnear, hfar, hcn, -⟩ := balanced_red_iff.mp hb
        refine ⟨⟨s, .red, e, near⟩, ⟨s, .black, oe, far⟩ :: p, .red, by simp [blackSibling],
          .red (.black h hfar) hnear hcn, hcn, fun t => ?_, fun hc => (by cases hc)⟩
        rw [plug_red_sibling]
        refine entries_plug_congr ?_ p
        cases s <;> simp [branch, entries]

/-- A hole and its parent are filled with two black subtrees. -/
theorem rebalanced_refill {a a' : ColorTree α} (hh : Hole c (n + 1) (⟨s, cf, e, b⟩ :: p))
    (ha : BlackBalanced (n + 1) a) (ha' : BlackBalanced (n + 1) a') (hca : a.color = .black)
    (hca' : a'.color = .black) {l : List α} (hl : (plug (branch s cf a x a') p).entries = l) :
    Rebalanced (some ((plug (branch s cf a x a') p).paint .black)) l := by
  cases hh with
  | red h hb hcb =>
    exact rebalanced_plug h (balanced_red_iff.mpr ⟨ha, ha', hca, hca'⟩) (fun h => (by cases h)) hl
  | black h hb => exact rebalanced_plug h (balanced_black ha ha') (fun _ => color_branch) hl

theorem rotateSibling_spec {near far : ColorTree α} {oe : α}
    (hh : Hole c (n + 1) (⟨s, cf, e, branch s .black near oe far⟩ :: p)) (ht : BlackBalanced n t)
    (hred : ¬ (near.color = .black ∧ far.color = .black)) :
    Rebalanced (rotateSibling t ⟨s, cf, e, branch s .black near oe far⟩ p)
      (plug t (⟨s, cf, e, branch s .black near oe far⟩ :: p)).entries := by
  obtain ⟨hnear, hfar⟩ : BlackBalanced n near ∧ BlackBalanced n far := by
    cases hh with
    | red _ hb _ | black _ hb =>
      obtain ⟨m, hm, hn, hf⟩ := balanced_black_iff.mp hb
      obtain rfl := Nat.succ.inj hm
      exact ⟨hn, hf⟩
  by_cases hcf : far.color = .black
  · have hcn : near.color = .red := by
      cases hcn : near.color with
      | red => rfl
      | black => exact absurd ⟨hcn, hcf⟩ hred
    rcases cases_branch s near with rfl | ⟨cn, a, x, a', rfl⟩
    · cases hcn
    rw [color_branch] at hcn
    subst hcn
    obtain ⟨ha, ha', hca, hca'⟩ := balanced_red_iff.mp hnear
    have hrot : rotate s.flip (branch s .red (branch s .black a x a') oe far) =
        some (branch s .black a x (branch s .red a' oe far)) := by
      rw [← branch_flip (s := s) (a := far), ← branch_flip (s := s) (a := a'), rotate_branch,
        branch_flip, branch_flip]
    simp only [rotateSibling, view_branch, Option.bind_some, hcf, if_true, paint_branch, hrot,
      rotate_branch, Option.map_some]
    refine rebalanced_refill hh (balanced_black ht ha) (balanced_black ha' hfar) color_branch
      color_branch (entries_plug_congr ?_ p)
    cases s <;> simp [branch, entries]
  · have hcf' : far.color = .red := by
      cases hcf' : far.color with
      | red => rfl
      | black => exact absurd hcf' hcf
    simp only [rotateSibling, view_branch, Option.bind_some, hcf, if_false, rotate_branch,
      Option.map_some]
    refine rebalanced_refill hh (balanced_black ht hnear) (hfar.paint_red hcf') color_branch
      color_paint_black (entries_plug_congr ?_ p)
    cases s <;> simp [branch, entries]

/-- The loop ends at a red node. -/
theorem rbEraseColor_red (hk : 0 < k) (hh : Hole c (n + 1) p) (hc : t.color = .red)
    (ht : BlackBalanced (n + 1) (t.paint .black)) :
    Rebalanced (rbEraseColor k t p) (plug t p).entries := by
  obtain ⟨k, rfl⟩ := Nat.exists_eq_succ_of_ne_zero (Nat.pos_iff_ne_zero.mp hk)
  obtain ⟨m, hm, hcm⟩ := balanced_plug hh ht fun _ => color_paint_black
  have hres : rbEraseColor (k + 1) t p = some (plug (t.paint .black) p) := by
    cases p with
    | nil => rfl
    | cons f p => simp [rbEraseColor, hc]
  exact ⟨_, hres, ⟨m, hm⟩, hcm, entries_plug_congr entries_paint p⟩

/-- **`__rb_erase_color`** in a hole that is one black node deeper than its subtree.  The loop
goes round once for each parent at most. -/
theorem rbEraseColor_spec (hk : p.length < k) (hh : Hole c (n + 1) p) (ht : Short n t) :
    Rebalanced (rbEraseColor k t p) (plug t p).entries := by
  induction k generalizing t p c n with
  | zero => exact absurd hk (Nat.not_lt_zero _)
  | succ k ih =>
    cases hc : t.color with
    | red => exact rbEraseColor_red (Nat.succ_pos k) hh hc (ht.red hc)
    | black =>
      have hbal := ht.black hc
      cases p with
      | nil => exact ⟨_, rfl, hbal.paint_black, color_paint_black, entries_paint⟩
      | cons f p =>
        obtain ⟨⟨s, cf, e, b⟩, p', c', hsib, hh', hcb, hentries, hlen⟩ := blackSibling_spec hh
        rcases cases_branch s b with rfl | ⟨oc, near, oe, far, rfl⟩
        · cases hh' with
          | red _ hb _ | black _ hb => exact absurd rfl hb.ne_leaf
        have hoc : oc = .black := color_branch.symm.trans hcb
        subst hoc
        rw [← hentries]
        simp only [rbEraseColor, hc, reduceCtorEq, if_false, hsib, Option.bind_some, view_branch]
        by_cases hboth : near.color = .black ∧ far.color = .black
        · rw [if_pos hboth]
          have hnext : (plug (branch s cf t e (branch s .red near oe far)) p').entries =
              (plug t (⟨s, cf, e, branch s .black near oe far⟩ :: p')).entries :=
            entries_plug_congr (entries_branch_congr rfl (entries_branch_congr rfl rfl)) p'
          have hredsib : ∀ m, BlackBalanced (m + 1) (branch s .black near oe far) →
              BlackBalanced m (branch s .red near oe far) := by
            intro m hm
            obtain ⟨m', hm', hn, hf⟩ := balanced_black_iff.mp hm
            obtain rfl := Nat.succ.inj hm'
            exact balanced_red_iff.mpr ⟨hn, hf, hboth.1, hboth.2⟩
          rw [← hnext]
          cases hh' with
          | red h hb _ =>
            refine rbEraseColor_red (Nat.lt_of_le_of_lt (Nat.zero_le _) (Nat.lt_of_succ_lt_succ hk))
              h color_branch ?_
            rw [paint_branch]
            exact balanced_black hbal (hredsib n hb)
          | black h hb =>
            obtain rfl := hlen rfl
            exact ih (Nat.lt_of_succ_lt_succ hk) h
              (short_of_balanced (balanced_black hbal (hredsib n hb)))
        · rw [if_neg hboth]
          exact rotateSibling_spec hh' hbal hboth

end Erase

/-! ## Taking a node out -/

/-- `while ((left = node->rb_left) != NULL) node = left`: the successor's colour, entry and child,
and the path up from it. -/
def rbLeftmost : ColorTree α → Parents α → Option (Color × α × ColorTree α × Parents α)
  | .leaf, _ => none
  | .node c .leaf e r, p => some (c, e, r, p)
  | .node c l e r, p => rbLeftmost l (⟨.left, c, e, r⟩ :: p)

/-- The label `color` of `rb_erase`. -/
def rbUnlink (color : Color) (child : ColorTree α) (path : Parents α) : Option (ColorTree α) :=
  if color = .black then rbEraseColor (path.length + 1) child path else some (plug child path)

/-- `rb_erase`: the node has colour `c` and the children `l` and `r`. -/
def rbErase (c : Color) (l r : ColorTree α) (path : Parents α) : Option (ColorTree α) :=
  match l, r with
  | .leaf, child => rbUnlink c child path
  | child, .leaf => rbUnlink c child path
  | l, r => (rbLeftmost r []).bind fun (color, e, child, q) =>
    rbUnlink color child (q ++ ⟨.right, c, e, l⟩ :: path)

section Unlink

variable {c c' : Color} {n : Nat} {t l r child : ColorTree α} {e : α} {p q q' : Parents α}

/-- The successor and its place: only its right child is left below it. -/
theorem rbLeftmost_spec (ht : t ≠ .leaf) (q : Parents α) (hq : before q = []) :
    ∃ c' e' child q', rbLeftmost t q = some (c', e', child, q') ∧ before q' = [] ∧
      plug (.node c' .leaf e' child) q' = plug t q ∧
      ∀ {P : Parents α} {c : Color} {n : Nat}, Hole c n (q ++ P) → BlackBalanced n t →
        (c = .red → t.color = .black) → ∃ c'' m, Hole c'' m (q' ++ P) ∧
          BlackBalanced m (.node c' .leaf e' child) ∧ (c'' = .red → c' = .black) := by
  induction t generalizing q with
  | leaf => exact absurd rfl ht
  | node c l e r ihl ihr =>
    cases l with
    | leaf =>
      exact ⟨c, e, r, q, rfl, hq, rfl, fun hh hb hc => ⟨_, _, hh, hb, hc⟩⟩
    | node cl ll el lr =>
      obtain ⟨c', e', child, q', hres, hq', hplug, hhole⟩ :=
        ihl (fun h => (by cases h)) (⟨.left, c, e, r⟩ :: q) (by simp [before, hq])
      refine ⟨c', e', child, q', hres, hq', hplug, fun hh hb hc => ?_⟩
      obtain ⟨m, hm, hhole', hcol⟩ := BlackBalanced.hole (s := .left) hb hh hc
      exact hhole hhole' hm hcol

/-- A node with one child at most is replaced by it. -/
theorem rbUnlink_spec (hh : Hole c' n p) (hc : c' = .red → c = .black)
    (ht : BlackBalanced n (.node c .leaf e child)) :
    Rebalanced (rbUnlink c child p) (plug child p).entries := by
  cases ht with
  | red hl hr hcl hcr =>
    obtain ⟨m, hm, hcm⟩ := balanced_plug hh hr fun _ => hcr
    exact ⟨_, rfl, ⟨m, hm⟩, hcm, rfl⟩
  | black hl hr => exact rbEraseColor_spec (Nat.lt_succ_self _) hh (short_of_balanced hr)

/-- **`rb_erase`** takes one entry out, and no pointer that it follows is NULL. -/
theorem rbErase_spec (hh : Hole c' n p) (hc : c' = .red → c = .black)
    (ht : BlackBalanced n (.node c l e r)) :
    Rebalanced (rbErase c l r p) (before p ++ (l.entries ++ r.entries) ++ after p) := by
  have hone : ∀ child : ColorTree α, BlackBalanced n (.node c .leaf e child) →
      Rebalanced (rbUnlink c child p) (before p ++ child.entries ++ after p) := by
    intro child hchild
    have hunlink := rbUnlink_spec hh hc hchild
    rwa [entries_plug] at hunlink
  cases l with
  | leaf => exact hone r ht
  | node cl ll el lr =>
    cases r with
    | leaf =>
      have hswap : BlackBalanced n (.node c .leaf e (.node cl ll el lr)) := by
        cases c with
        | red =>
          obtain ⟨ha, hb, hca, hcb⟩ := (balanced_red_iff (s := .left)).mp ht
          exact .red hb ha hcb hca
        | black =>
          obtain ⟨m, rfl, ha, hb⟩ := (balanced_black_iff (s := .left)).mp ht
          exact .black hb ha
      have hleft := hone _ hswap
      rwa [show (leaf : ColorTree α).entries = [] from rfl, List.append_nil]
    | node cr rl er rr =>
      obtain ⟨cs, es, child, q, hres, hq, hplug, hhole⟩ :=
        rbLeftmost_spec (t := .node cr rl er rr) (fun h => (by cases h)) [] rfl
      obtain ⟨m, hm, hright, hcol⟩ := BlackBalanced.hole (s := .right) (p := p)
        (show BlackBalanced n (branch .right c (.node cr rl er rr) es (.node cl ll el lr)) by
          cases ht with
          | red hl hr hcl hcr => exact .red hl hr hcl hcr
          | black hl hr => exact .black hl hr) hh hc
      obtain ⟨c'', m', hh', hb', hc''⟩ := hhole hright hm hcol
      have hunlink := rbUnlink_spec hh' hc'' hb'
      have herase : rbErase c (.node cl ll el lr) (.node cr rl er rr) p =
          rbUnlink cs child (q ++ ⟨.right, c, es, .node cl ll el lr⟩ :: p) := by
        simp only [rbErase, hres, Option.bind_some]
      -- the successor's entry stands where the erased one stood
      have hsucc : (ColorTree.node cr rl er rr).entries = es :: (plug child q).entries := by
        have hentries := congrArg ColorTree.entries hplug
        rw [entries_plug, hq] at hentries
        rw [entries_plug, hq]
        exact hentries.symm
      rw [herase]
      rw [plug_append, entries_plug] at hunlink
      have hlist : before (⟨.right, c, es, .node cl ll el lr⟩ :: p) ++ (plug child q).entries ++
          after (⟨.right, c, es, .node cl ll el lr⟩ :: p) =
          before p ++ ((ColorTree.node cl ll el lr).entries ++
            (ColorTree.node cr rl er rr).entries) ++ after p := by
        rw [hsucc]
        simp [before, after]
      rwa [hlist] at hunlink

end Unlink

/-! ## Searching -/

section Search

variable {κ δ : Type}

/-- What the trees need of a key comparison: a linear order with `0` for equal keys. -/
structure KeyOrder (cmp : κ → κ → Int) : Prop where
  eq : ∀ a b, cmp a b = 0 ↔ a = b
  flip : ∀ a b, cmp a b < 0 ↔ 0 < cmp b a
  trans : ∀ a b c, 0 < cmp a b → 0 < cmp b c → 0 < cmp a c

/-- The loop that `lhi_get_rbtree`, `lhi_insert_rbtree` and `lhi_remove_rbtree` share: it stops
where the key is or where it would have to be.  Greater keys are on the left. -/
def rbDescend (cmp : κ → κ → Int) (key : κ) :
    ColorTree (κ × δ) → Parents (κ × δ) → ColorTree (κ × δ) × Parents (κ × δ)
  | .leaf, p => (.leaf, p)
  | .node c l e r, p =>
    if cmp key e.1 = 0 then (.node c l e r, p)
    else if cmp key e.1 < 0 then rbDescend cmp key r (⟨.right, c, e, l⟩ :: p)
    else rbDescend cmp key l (⟨.left, c, e, r⟩ :: p)

/-- Greater keys first. -/
def Descending (cmp : κ → κ → Int) (l : List (κ × δ)) : Prop :=
  l.Pairwise fun a b => 0 < cmp a.1 b.1

/-- A tree of a table. -/
structure RbValid (cmp : κ → κ → Int) (t : ColorTree (κ × δ)) : Prop where
  balanced : ∃ n, BlackBalanced n t
  black : t.color = .black
  sorted : Descending cmp t.entries

variable {cmp : κ → κ → Int} {key : κ} {d : δ} {t : ColorTree (κ × δ)} {p : Parents (κ × δ)}

theorem rbValid_leaf : RbValid cmp (.leaf : ColorTree (κ × δ)) := ⟨⟨0, .leaf⟩, rfl, .nil⟩

theorem Descending.distinct (ho : KeyOrder cmp) {l : List (κ × δ)} (h : Descending cmp l) :
    Buckets.Distinct l := by
  refine List.pairwise_map.mpr (h.imp fun hab heq => ?_)
  rw [(ho.eq _ _).mpr heq] at hab
  exact absurd hab (by decide)

/-- Greater keys are left of the place of `key` and smaller ones right of it. -/
def Between (cmp : κ → κ → Int) (key : κ) (p : Parents (κ × δ)) : Prop :=
  (∀ x ∈ before p, 0 < cmp x.1 key) ∧ ∀ x ∈ after p, 0 < cmp key x.1

/-- **The search** keeps its place in the tree, and ends at the key or between its neighbours. -/
theorem rbDescend_spec (ho : KeyOrder cmp) (hs : Descending cmp t.entries)
    (hb : Between cmp key p) {c : Color} {n : Nat} (hh : Hole c n p) (ht : BlackBalanced n t)
    (hc : c = .red → t.color = .black) :
    ∃ t' p' c' m, rbDescend cmp key t p = (t', p') ∧ plug t' p' = plug t p ∧
      Between cmp key p' ∧ Hole c' m p' ∧ BlackBalanced m t' ∧ (c' = .red → t'.color = .black) ∧
      (∀ k l e r, t' = .node k l e r → e.1 = key) ∧ p'.length ≤ p.length + t.height := by
  induction t generalizing p c n with
  | leaf =>
    exact ⟨_, _, _, _, rfl, rfl, hb, hh, ht, hc, fun _ _ _ _ h => (by cases h),
      Nat.le_add_right ..⟩
  | node k l e r ihl ihr =>
    have hsl : Descending cmp l.entries := hs.sublist (List.sublist_append_left ..)
    have hsr : Descending cmp r.entries :=
      hs.sublist ((List.sublist_cons_self ..).trans (List.sublist_append_right ..))
    obtain ⟨-, hse, hle⟩ := List.pairwise_append.mp hs
    have hre := (List.pairwise_cons.mp hse).1
    rw [rbDescend]
    by_cases h0 : cmp key e.1 = 0
    · rw [if_pos h0]
      exact ⟨_, _, _, _, rfl, rfl, hb, hh, ht, hc, fun _ _ _ _ h => by
        cases h; exact ((ho.eq _ _).mp h0).symm, Nat.le_add_right ..⟩
    · rw [if_neg h0]
      by_cases hlt : cmp key e.1 < 0
      · rw [if_pos hlt]
        have hek := (ho.flip _ _).mp hlt
        obtain ⟨m, hm, hhole, hcol⟩ := BlackBalanced.hole (s := .right) (p := p) ht hh hc
        have hb' : Between cmp key (⟨.right, k, e, l⟩ :: p) := by
          refine ⟨fun x hx => ?_, hb.2⟩
          rcases List.mem_append.mp hx with hx | hx
          · exact hb.1 x hx
          · rcases List.mem_append.mp hx with hx | hx
            · exact ho.trans _ _ _ (hle x hx e List.mem_cons_self) hek
            · rw [List.mem_singleton.mp hx]
              exact hek
        obtain ⟨t', p', c', m', h1, h2, h3, h4, h5, h6, h7, h8⟩ := ihr hsr hb' hhole hm hcol
        refine ⟨t', p', c', m', h1, h2, h3, h4, h5, h6, h7, ?_⟩
        simp only [List.length_cons, height] at h8 ⊢
        omega
      · rw [if_neg hlt]
        have hke : 0 < cmp key e.1 := by omega
        obtain ⟨m, hm, hhole, hcol⟩ := BlackBalanced.hole (s := .left) (p := p) ht hh hc
        have hb' : Between cmp key (⟨.left, k, e, r⟩ :: p) := by
          refine ⟨fun x hx => hb.1 x (by simpa [before] using hx), fun x hx => ?_⟩
          rcases List.mem_append.mp hx with hx | hx
          · rcases List.mem_cons.mp hx with rfl | hx
            · exact hke
            · exact ho.trans _ _ _ hke (hre x hx)
          · exact hb.2 x hx
        obtain ⟨t', p', c', m', h1, h2, h3, h4, h5, h6, h7, h8⟩ := ihl hsl hb' hhole hm hcol
        refine ⟨t', p', c', m', h1, h2, h3, h4, h5, h6, h7, ?_⟩
        simp only [List.length_cons, height] at h8 ⊢
        omega

theorem between_nil : Between cmp key ([] : Parents (κ × δ)) :=
  ⟨fun _ h => (by cases h), fun _ h => (by cases h)⟩

/-- A list of keys greater than `key` and one of smaller keys say nothing about `key`. -/
theorem value_between [DecidableEq κ] (ho : KeyOrder cmp) (hb : Between cmp key p) :
    Buckets.value (before p ++ after p) key = none := by
  rw [Buckets.value_none]
  intro hm
  have hself : cmp key key = 0 := (ho.eq _ _).mpr rfl
  obtain ⟨x, hx, rfl⟩ := List.mem_map.mp hm
  rcases List.mem_append.mp hx with hx | hx
  · exact absurd (hb.1 x hx) (by omega)
  · exact absurd (hb.2 x hx) (by omega)

/-- **A key that is not there** can be inserted where the search ends, after a number of nodes that
is logarithmic in the number of pairs. -/
theorem rbDescend_leaf [DecidableEq κ] (ho : KeyOrder cmp) (h : RbValid cmp t)
    (hd : rbDescend cmp key t [] = (.leaf, p)) :
    Buckets.value t.entries key = none ∧ p.length ≤ 2 * Nat.log2 (t.entries.length + 1) ∧
      ∀ d, ∃ t', rbInsertColor (.node .red .leaf (key, d) .leaf) p = some t' ∧
        RbValid cmp t' ∧ t'.entries.Perm ((key, d) :: t.entries) := by
  obtain ⟨n, hn⟩ := h.balanced
  obtain ⟨t', p', c', m, hres, hplug, hb, hh, ht, hc, -, hlen⟩ :=
    rbDescend_spec ho h.sorted between_nil (.root n) hn fun _ => h.black
  rw [hd] at hres
  cases hres
  cases ht
  have hentries := congrArg ColorTree.entries hplug
  rw [entries_plug, show (leaf : ColorTree (κ × δ)).entries = [] from rfl,
    List.append_nil] at hentries
  rw [show plug t ([] : Parents (κ × δ)) = t from rfl] at hentries
  have hvalue : Buckets.value t.entries key = none := hentries ▸ value_between ho hb
  have hdeep : p.length ≤ t.height := by simpa using hlen
  refine ⟨hvalue, Nat.le_trans hdeep (hn.height_le_log h.black), fun d => ?_⟩
  have hnew : BlackBalanced 0 (.node .red .leaf (key, d) .leaf) := .red .leaf .leaf rfl rfl
  obtain ⟨u, hu, hbal, hblack, hue⟩ := rbInsertColor_spec hh hnew rfl
  have hue' : u.entries = before p ++ (key, d) :: after p := by
    rw [hue, entries_plug]
    simp [entries]
  refine ⟨u, hu, ⟨hbal, hblack, ?_⟩, ?_⟩
  · rw [hue']
    have hsorted := h.sorted
    rw [← hentries] at hsorted
    obtain ⟨h1, h2, h3⟩ := List.pairwise_append.mp hsorted
    refine List.pairwise_append.mpr ⟨h1, List.pairwise_cons.mpr ⟨hb.2, h2⟩, fun x hx y hy => ?_⟩
    rcases List.mem_cons.mp hy with rfl | hy
    · exact hb.1 x hx
    · exact h3 x hx y hy
  · rw [hue', ← hentries]
    exact List.perm_middle

/-- **A key that is there** is what the search ends at, and can be erased. -/
theorem rbDescend_node [DecidableEq κ] (ho : KeyOrder cmp) (h : RbValid cmp t) {c : Color}
    {l r : ColorTree (κ × δ)} {e : κ × δ} (hd : rbDescend cmp key t [] = (.node c l e r, p)) :
    Buckets.value t.entries key = some e.2 ∧ p.length ≤ 2 * Nat.log2 (t.entries.length + 1) ∧
      ∃ t', rbErase c l r p = some t' ∧ RbValid cmp t' ∧
        t'.entries.Perm (Buckets.without t.entries key) := by
  obtain ⟨n, hn⟩ := h.balanced
  obtain ⟨t', p', c', m, hres, hplug, hb, hh, ht, hc, hkey, hlen⟩ :=
    rbDescend_spec ho h.sorted between_nil (.root n) hn fun _ => h.black
  rw [hd] at hres
  cases hres
  obtain rfl := hkey _ _ _ _ rfl
  have hentries := congrArg ColorTree.entries hplug
  rw [entries_plug, show plug t ([] : Parents (κ × δ)) = t from rfl] at hentries
  have hsplit : t.entries = (before p ++ l.entries) ++ e :: (r.entries ++ after p) := by
    rw [← hentries]
    simp [entries]
  have hdist := h.sorted.distinct ho
  have hmem : e ∈ t.entries := by
    rw [hsplit]
    exact List.mem_append_right _ List.mem_cons_self
  obtain ⟨u, hu, hbal, hblack, hue⟩ := rbErase_spec hh hc ht
  have hue' : u.entries = (before p ++ l.entries) ++ (r.entries ++ after p) := by
    rw [hue]
    simp
  have hdeep : p.length ≤ t.height := by simpa using hlen
  refine ⟨(Buckets.value_some hdist).mpr hmem, Nat.le_trans hdeep (hn.height_le_log h.black), u, hu,
    ⟨hbal, hblack, ?_⟩, ?_⟩
  · rw [hue']
    have hsorted := h.sorted
    rw [hsplit] at hsorted
    exact hsorted.sublist (List.Sublist.append_left (List.sublist_cons_self ..) _)
  · rw [hue', hsplit] at *
    have hnd := hdist
    rw [hsplit, Buckets.Distinct, List.map_append, List.map_cons, List.nodup_middle] at hnd
    have hnot := (List.nodup_cons.mp hnd).1
    have hothers : ∀ x ∈ (before p ++ l.entries) ++ (r.entries ++ after p), x.1 ≠ e.1 := by
      intro x hx heq
      exact hnot (heq ▸ List.map_append ▸ List.mem_map_of_mem hx)
    rw [Buckets.without, List.filter_append, List.filter_cons_of_neg (by simp),
      ← List.filter_append]
    exact (List.Perm.of_eq (List.filter_eq_self.mpr fun x hx =>
      decide_eq_true (hothers x hx)).symm)

/-! ## The array of an iterator -/

/-- `hi_rbtree_traverse`: a node writes itself to `pos` after its subtrees have written theirs
behind it; what does not fit is not written. -/
def rbTraverse {α : Type} : ColorTree α → Nat → List (Option α) → Nat × List (Option α)
  | .leaf, pos, a => (pos, a)
  | .node _ l e r, pos, a =>
    let (pos', a) := rbTraverse l (pos + 1) a
    let (pos', a) := rbTraverse r pos' a
    (pos', a.set pos (some e))

/-- **The traversal** writes the nodes in preorder, without a gap. -/
theorem rbTraverse_eq {α : Type} (t : ColorTree α) (x y z : List (Option α))
    (hy : y.length = t.preorder.length) :
    rbTraverse t x.length (x ++ y ++ z) =
      (x.length + t.preorder.length, x ++ t.preorder.map some ++ z) := by
  induction t generalizing x y z with
  | leaf =>
    obtain rfl := List.length_eq_zero_iff.mp hy
    simp [rbTraverse, preorder]
  | node c l e r ihl ihr =>
    cases y with
    | nil => simp [preorder] at hy
    | cons a y =>
      have hlen : y.length = l.preorder.length + r.preorder.length := by
        simpa [preorder] using hy
      have hl := ihl (x ++ [a]) (y.take l.preorder.length) (y.drop l.preorder.length ++ z)
        (by rw [List.length_take]; omega)
      have hr := ihr (x ++ [a] ++ l.preorder.map some) (y.drop l.preorder.length) z
        (by rw [List.length_drop]; omega)
      have harr : x ++ (a :: y) ++ z =
          x ++ [a] ++ y.take l.preorder.length ++ (y.drop l.preorder.length ++ z) := by
        rw [← List.append_assoc (x ++ [a] ++ _), List.append_assoc (x ++ [a]),
          List.take_append_drop]
        simp
      have hpos : (x ++ [a] ++ l.preorder.map some).length =
          (x ++ [a]).length + l.preorder.length := by rw [List.length_append, List.length_map]
      have hxa : x.length + 1 = (x ++ [a]).length := by simp
      rw [← List.append_assoc (x ++ [a] ++ l.preorder.map some)] at hl
      rw [hpos] at hr
      simp only [rbTraverse, harr, hxa, hl, hr]
      refine Prod.ext ?_ ?_
      · simp [preorder]
        omega
      · simp [preorder]

end Search

end Hwdb.Hashish
