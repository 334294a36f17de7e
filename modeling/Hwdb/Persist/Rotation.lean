import Mathlib.Data.List.Nodup
import Mathlib.Logic.Function.Basic
import Hwdb.Lib.Run

/-!
# Rotation of the database file (`dpipersist.c`)

`main` polls and stores what it gets through `dbp`; the rotation thread closes `dbp` and opens a
new file in its place.  Both lock a Berkeley DB mutex for that; `main` does not lock it for the
clean-up behind its loop.

* `DpiPersist`, `DpiPersist.next` — the two threads from the loop of `main` on, one call at a
  time, with the result of every call left open.
* `RotationSafe` — handles are used while they are open and closed once, no thread returns with
  the mutex, and `main` can still reach its exit.
* `Undisturbed` — the steps that keep this up.
* `rotation_safe` — runs of such steps are safe.
-/

set_option autoImplicit false

namespace Hwdb.Persist

open Hwdb.Lib

/-- A `DB` handle. -/
inductive HandleState where
  | absent
  /-- After `db_create`. -/
  | created
  /-- After a successful `open`. -/
  | opened
  /-- After `close`, whatever it returned. -/
  | closed
  deriving DecidableEq, Repr

inductive Thread where
  | main
  | rotation
  deriving DecidableEq, Repr

/-- The mutex `lock` of the environment. -/
inductive Mutex where
  | free
  | held (t : Thread)
  /-- After `mutex_free`. -/
  | gone
  deriving DecidableEq, Repr

/-- What `main` does next. -/
inductive MainPc where
  /-- `while (! must_exit)`. -/
  | loop
  /-- `nanosleep` and `rpc_call`. -/
  | poll
  /-- `mutex_lock` of `processresults`, for `n` flows. -/
  | lock (n : Nat)
  /-- Its loop, with `n` flows to go. -/
  | put (n : Nat)
  | unlock
  /-- `mutex_free` at `err3`. -/
  | err3
  /-- `dbp->close` at `err2`. -/
  | err2
  /-- `envp->close` at `err1`. -/
  | err1
  /-- `rpc_disconnect` and `exit` at `err0`. -/
  | err0
  | exited
  deriving DecidableEq, Repr

/-- What `handler` does next. -/
inductive HandlerPc where
  | sleep
  | lock
  | close
  | create
  | openDb
  | unlock
  | returned
  deriving DecidableEq, Repr

inductive DbCall where
  | put
  | close
  deriving DecidableEq, Repr

/-- `dbp->put` or `dbp->close`, on which handle, and what state that was in. -/
structure Use where
  call : DbCall
  handle : Nat
  state : HandleState
  deriving DecidableEq, Repr

structure DpiPersist where
  main : MainPc
  handler : HandlerPc
  handles : Nat → HandleState
  /-- Number of the next handle of `db_create`. -/
  fresh : Nat
  dbp : Nat
  mutex : Mutex
  mustExit : Bool
  uses : List Use

/-- One step: a signal, or the next call of a thread and whether it succeeds.  `batch` is the
number of flows in the answer to a poll, `none` if it is not a table of flows. -/
inductive Act where
  | signal
  | main (ok : Bool) (batch : Option Nat)
  | handler (ok : Bool)
  deriving DecidableEq, Repr

namespace DpiPersist

variable (s : DpiPersist)

/-- `main` at its loop with the database open; `handler` asleep. -/
def init : DpiPersist where
  main := .loop
  handler := .sleep
  handles := Function.update (fun _ => .absent) 0 .opened
  fresh := 1
  dbp := 0
  mutex := .free
  mustExit := false
  uses := []

/-- A call through `dbp`. -/
def useDbp (call : DbCall) : DpiPersist :=
  { s with uses := s.uses ++ [⟨call, s.dbp, s.handles s.dbp⟩] }

/-- `dbp->close`: the handle is gone whatever the call returns. -/
def closeDbp : DpiPersist :=
  { s.useDbp .close with handles := Function.update s.handles s.dbp .closed }

/-- `mutex_lock`: blocks while the mutex is held; its result is ignored. -/
def mutexLock (t : Thread) (ok : Bool) : Option DpiPersist :=
  match s.mutex with
  | .held _ => none
  | .gone => some s
  | .free => some (if ok then { s with mutex := .held t } else s)

/-- `mutex_unlock`; its result is ignored. -/
def mutexUnlock (ok : Bool) : DpiPersist :=
  if ok && s.mutex != .gone then { s with mutex := .free } else s

/-- The next call of `main`. -/
def mainStep (ok : Bool) (batch : Option Nat) : Option DpiPersist :=
  match s.main with
  | .loop => some { s with main := if s.mustExit then .err3 else .poll }
  | .poll =>
    some { s with main := if ok then (batch.map MainPc.lock).getD .loop else .err3 }
  | .lock n => (s.mutexLock .main ok).map ({ · with main := .put n })
  | .put 0 => some { s with main := .unlock }
  | .put (n + 1) =>
    some (if ok then { s.useDbp .put with main := .put n }
      else { s.useDbp .put with main := .unlock, mustExit := true })
  | .unlock => some { s.mutexUnlock ok with main := .loop }
  | .err3 => some { s with main := .err2, mutex := if ok then .gone else s.mutex }
  | .err2 => some { s.closeDbp with main := .err1 }
  | .err1 => some { s with main := .err0 }
  | .err0 => some { s with main := .exited }
  | .exited => none

/-- `handler` returns from the middle of its critical section. -/
def giveUp : DpiPersist := { s with handler := .returned, mustExit := true }

/-- The next call of `handler`.  A failed `db_create` leaves `dbp` at the closed handle. -/
def handlerStep (ok : Bool) : Option DpiPersist :=
  match s.handler with
  | .sleep => some { s with handler := .lock }
  | .lock => (s.mutexLock .rotation ok).map ({ · with handler := .close })
  | .close => some (if ok then { s.closeDbp with handler := .create } else s.closeDbp.giveUp)
  | .create =>
    some (if ok then { s with
        handles := Function.update s.handles s.fresh .created
        fresh := s.fresh + 1
        dbp := s.fresh
        handler := .openDb }
      else s.giveUp)
  | .openDb =>
    some (if ok then { s with
        handles := Function.update s.handles s.dbp .opened
        handler := .unlock }
      else s.giveUp)
  | .unlock => some { s.mutexUnlock ok with handler := .sleep }
  | .returned => none

/-- One step; `exit` ends both threads. -/
def next (a : Act) : Option DpiPersist :=
  if s.main = .exited then none
  else
    match a with
    | .signal => some { s with mustExit := true }
    | .main ok batch => s.mainStep ok batch
    | .handler ok => s.handlerStep ok

end DpiPersist

def persistSystem : System DpiPersist Act := ⟨DpiPersist.init, DpiPersist.next⟩

/-- `handler` is between its `mutex_lock` and its `mutex_unlock`. -/
def HandlerPc.inside : HandlerPc → Prop
  | .close => True
  | .create => True
  | .openDb => True
  | .unlock => True
  | _ => False

/-- `main` is between its `mutex_lock` and its `mutex_unlock`. -/
def MainPc.inside : MainPc → Prop
  | .put _ => True
  | .unlock => True
  | _ => False

/-- `main` has been at `err3`. -/
def MainPc.leaving : MainPc → Prop
  | .err2 => True
  | .err1 => True
  | .err0 => True
  | .exited => True
  | _ => False

instance : (pc : HandlerPc) → Decidable pc.inside
  | .sleep | .lock | .returned => inferInstanceAs (Decidable False)
  | .close | .create | .openDb | .unlock => inferInstanceAs (Decidable True)

instance : (pc : MainPc) → Decidable pc.leaving
  | .loop | .poll | .lock _ | .put _ | .unlock | .err3 => inferInstanceAs (Decidable False)
  | .err2 | .err1 | .err0 | .exited => inferInstanceAs (Decidable True)

/-- What `main` may do next without disturbing `handler`: its calls for the mutex succeed, and it
does not go to its clean-up while `handler` is in its section. -/
def MainPc.allows (h : HandlerPc) (ok : Bool) : MainPc → Prop
  | .lock _ => ok = true
  | .unlock => ok = true
  | .err3 => ¬ h.inside
  | _ => True

/-- **The steps that do not disturb the rotation**: the calls of `handler` succeed, those for the
mutex in `main` do, `main` does not go to its clean-up while `handler` is between its two calls
for the mutex, and `handler` does not lock the mutex once `main` is there. -/
def Undisturbed (s : DpiPersist) : Act → Prop
  | .signal => True
  | .main ok _ => s.main.allows s.handler ok
  | .handler ok => ok = true ∧ (s.handler = .lock → ¬ s.main.leaving)

/-- **The rotation is safe.** -/
structure RotationSafe (s : DpiPersist) : Prop where
  used : ∀ u ∈ s.uses, u.state = .opened
  closedOnce : ((s.uses.filter fun u => decide (u.call = .close)).map (·.handle)).Nodup
  released : s.handler = .returned → s.mutex ≠ .held .rotation
  finished : s.main = .exited → s.mutex ≠ .held .main
  exits : ∃ t, persistSystem.Steps (fun _ _ => True) s t ∧ t.main = .exited

/-! ## Handles -/

/-- What has been done with the handles so far. -/
structure HandlesOk (s : DpiPersist) : Prop where
  used : ∀ u ∈ s.uses, u.state = .opened
  closed : ∀ u ∈ s.uses, u.call = .close → s.handles u.handle = .closed
  closedOnce : ((s.uses.filter fun u => decide (u.call = .close)).map (·.handle)).Nodup
  unused : ∀ h, s.fresh ≤ h → s.handles h = .absent
  dbp : s.dbp < s.fresh

section Handles

variable {s s' : DpiPersist}

theorem handlesOk_init : HandlesOk DpiPersist.init := by
  refine ⟨fun u hu => ?_, fun u hu => ?_, List.nodup_nil, fun h hh => ?_, Nat.zero_lt_one⟩
  · cases hu
  · cases hu
  · have hne : h ≠ 0 := by
      rintro rfl
      exact Nat.not_succ_le_zero 0 hh
    show Function.update (fun _ => HandleState.absent) 0 .opened h = .absent
    exact Function.update_of_ne hne _ _

/-- Only the fields about handles matter. -/
theorem HandlesOk.congr (h : HandlesOk s) (hhandles : s'.handles = s.handles)
    (hfresh : s'.fresh = s.fresh) (hdbp : s'.dbp = s.dbp) (huses : s'.uses = s.uses) :
    HandlesOk s' := by
  constructor
  · rw [huses]
    exact h.used
  · rw [huses, hhandles]
    exact h.closed
  · rw [huses]
    exact h.closedOnce
  · rw [hfresh, hhandles]
    exact h.unused
  · rw [hfresh, hdbp]
    exact h.dbp

theorem HandlesOk.put (h : HandlesOk s) (hopen : s.handles s.dbp = .opened) :
    HandlesOk (s.useDbp .put) := by
  refine ⟨fun u hu => ?_, fun u hu hc => ?_, ?_, h.unused, h.dbp⟩
  · rcases List.mem_append.mp hu with hu | hu
    · exact h.used u hu
    · rw [List.mem_singleton.mp hu]
      exact hopen
  · rcases List.mem_append.mp hu with hu | hu
    · exact h.closed u hu hc
    · rw [List.mem_singleton.mp hu] at hc
      cases hc
  · show (((s.uses ++ [(⟨.put, s.dbp, s.handles s.dbp⟩ : Use)]).filter _).map _).Nodup
    rw [List.filter_append]
    simpa using h.closedOnce

theorem HandlesOk.close (h : HandlesOk s) (hopen : s.handles s.dbp = .opened) :
    HandlesOk s.closeDbp := by
  have hclosed : ∀ u ∈ s.uses, u.call = .close → u.handle ≠ s.dbp := by
    intro u hu hc heq
    have hstate := h.closed u hu hc
    rw [heq, hopen] at hstate
    cases hstate
  refine ⟨fun u hu => ?_, fun u hu hc => ?_, ?_, fun x hx => ?_, h.dbp⟩
  · rcases List.mem_append.mp hu with hu | hu
    · exact h.used u hu
    · rw [List.mem_singleton.mp hu]
      exact hopen
  · show Function.update s.handles s.dbp .closed u.handle = .closed
    rcases List.mem_append.mp hu with hu | hu
    · rw [Function.update_of_ne (hclosed u hu hc)]
      exact h.closed u hu hc
    · rw [List.mem_singleton.mp hu]
      exact Function.update_self ..
  · show (((s.uses ++ [(⟨.close, s.dbp, s.handles s.dbp⟩ : Use)]).filter _).map _).Nodup
    rw [List.filter_append, List.map_append]
    refine List.nodup_append'.mpr ⟨h.closedOnce, List.nodup_singleton _, ?_⟩
    intro x hx hx'
    have hxd : x = s.dbp := List.mem_singleton.mp hx'
    obtain ⟨u, hu, rfl⟩ := List.mem_map.mp hx
    obtain ⟨hu, hc⟩ := List.mem_filter.mp hu
    exact hclosed u hu (of_decide_eq_true hc) hxd
  · have hne : x ≠ s.dbp := by
      rintro rfl
      exact Nat.not_le_of_lt h.dbp hx
    show Function.update s.handles s.dbp .closed x = .absent
    rw [Function.update_of_ne hne]
    exact h.unused x hx

/-- `db_create`. -/
theorem HandlesOk.create (h : HandlesOk s) : HandlesOk { s with
    handles := Function.update s.handles s.fresh .created
    fresh := s.fresh + 1
    dbp := s.fresh } := by
  refine ⟨h.used, fun u hu hc => ?_, h.closedOnce, fun x hx => ?_, Nat.lt_succ_self _⟩
  · have hstate := h.closed u hu hc
    have hne : u.handle ≠ s.fresh := by
      intro heq
      rw [heq, h.unused _ (Nat.le_refl _)] at hstate
      cases hstate
    show Function.update s.handles s.fresh .created u.handle = .closed
    rw [Function.update_of_ne hne, hstate]
  · have hle : s.fresh + 1 ≤ x := hx
    have hne : x ≠ s.fresh := by omega
    show Function.update s.handles s.fresh .created x = .absent
    rw [Function.update_of_ne hne]
    exact h.unused x (by omega)

/-- `open` of the handle that `db_create` has made. -/
theorem HandlesOk.openDb (h : HandlesOk s) (hcreated : s.handles s.dbp = .created) :
    HandlesOk { s with handles := Function.update s.handles s.dbp .opened } := by
  refine ⟨h.used, fun u hu hc => ?_, h.closedOnce, fun x hx => ?_, h.dbp⟩
  · have hstate := h.closed u hu hc
    have hne : u.handle ≠ s.dbp := by
      intro heq
      rw [heq, hcreated] at hstate
      cases hstate
    show Function.update s.handles s.dbp .opened u.handle = .closed
    rw [Function.update_of_ne hne, hstate]
  · have hne : x ≠ s.dbp := by
      rintro rfl
      exact Nat.not_le_of_lt h.dbp hx
    show Function.update s.handles s.dbp .opened x = .absent
    rw [Function.update_of_ne hne]
    exact h.unused x hx

end Handles

/-! ## The two threads -/

/-- The state of the handle in `dbp` as far as `main` is concerned. -/
def MainPc.dbState : MainPc → HandleState
  | .err1 => .closed
  | .err0 => .closed
  | .exited => .closed
  | _ => .opened

/-- The state of the handle in `dbp`, from where the threads are. -/
def expected (m : MainPc) : HandlerPc → HandleState
  | .create => .closed
  | .openDb => .created
  | _ => m.dbState

/-- Who has the mutex. -/
structure Control (m : MainPc) (h : HandlerPc) (x : Mutex) : Prop where
  alive : h ≠ .returned
  handler : h.inside ↔ x = .held .rotation
  main : m.inside ↔ x = .held .main
  gone : x = .gone → m.leaving
  apart : m.leaving → ¬ h.inside

structure RotationInv (s : DpiPersist) : Prop where
  handles : HandlesOk s
  control : Control s.main s.handler s.mutex
  dbp : s.handles s.dbp = expected s.main s.handler

section Threads

variable {s s' : DpiPersist} {m m' : MainPc} {h h' : HandlerPc} {x : Mutex} {act : Act}

theorem expected_outside (m : MainPc) (hin : ¬ h.inside) : expected m h = m.dbState := by
  cases h with
  | create => exact absurd trivial hin
  | openDb => exact absurd trivial hin
  | _ => rfl

theorem expected_congr (h : HandlerPc) (hm : m'.dbState = m.dbState) :
    expected m' h = expected m h := by
  cases h <;> simp [expected, hm]

theorem rotationInv_init : RotationInv DpiPersist.init := by
  refine ⟨handlesOk_init, ⟨by decide, ?_, ?_, fun hx => (by cases hx), fun hm => ?_⟩, rfl⟩
  · exact iff_of_false id (fun hx => (by cases hx))
  · exact iff_of_false id (fun hx => (by cases hx))
  · cases hm

/-- A step of one thread that does not touch the handles. -/
theorem RotationInv.move (hi : RotationInv s) (hc : Control s'.main s'.handler s'.mutex)
    (he : expected s'.main s'.handler = expected s.main s.handler)
    (hhandles : s'.handles = s.handles) (hfresh : s'.fresh = s.fresh) (hdbp : s'.dbp = s.dbp)
    (huses : s'.uses = s.uses) : RotationInv s' := by
  refine ⟨hi.handles.congr hhandles hfresh hdbp huses, hc, ?_⟩
  rw [hhandles, hdbp, he]
  exact hi.dbp

/-- Steps of `main` that leave the mutex alone. -/
theorem Control.stay (hc : Control m h x) (hin : m'.inside ↔ m.inside)
    (hl : m.leaving → m'.leaving) (hl' : m'.leaving → ¬ h.inside) : Control m' h x :=
  ⟨hc.alive, hc.handler, hin.trans hc.main, fun hx => hl (hc.gone hx), hl'⟩

/-- `main` outside of `processresults` and before its clean-up. -/
def MainPc.polling : MainPc → Prop
  | .loop => True
  | .poll => True
  | .lock _ => True
  | .err3 => True
  | _ => False

theorem MainPc.polling.outside (hm : m.polling) :
    ¬ m.inside ∧ ¬ m.leaving ∧ m.dbState = .opened := by
  cases m <;> first | exact ⟨id, id, rfl⟩ | exact hm.elim

theorem RotationInv.polling (hi : RotationInv s) (hm : s.main.polling) (hm' : m'.polling) :
    RotationInv { s with main := m' } := by
  obtain ⟨hin, hl, hd⟩ := hm.outside
  obtain ⟨hin', hl', hd'⟩ := hm'.outside
  refine hi.move ?_ (expected_congr _ (by rw [hd', hd])) rfl rfl rfl rfl
  exact hi.control.stay (iff_of_false hin' hin) (fun h => absurd h hl) fun h => absurd h hl'

/-- A `put`, or the end of the batch; both with the mutex. -/
theorem RotationInv.batch (hi : RotationInv s) (hm : s.main.inside) (hm' : m'.inside)
    (must : Bool) : RotationInv { s with main := m', mustExit := must } ∧
      RotationInv { s.useDbp .put with main := m', mustExit := must } := by
  have hd : ∀ {m : MainPc}, m.inside → ¬ m.leaving ∧ m.dbState = .opened := fun {m} hm => by
    cases m <;> first | exact ⟨id, rfl⟩ | exact hm.elim
  obtain ⟨hl, hopen⟩ := hd hm
  obtain ⟨hl', hopen'⟩ := hd hm'
  have hheld : s.mutex = .held .main := hi.control.main.mp hm
  have hout : ¬ s.handler.inside := fun hin => by
    have hother := hi.control.handler.mp hin
    rw [hheld] at hother
    cases hother
  have hc : Control m' s.handler s.mutex :=
    hi.control.stay (iff_of_true hm' hm) (fun h => absurd h hl) fun h => absurd h hl'
  have he : expected m' s.handler = expected s.main s.handler :=
    expected_congr _ (by rw [hopen', hopen])
  have hput : RotationInv (s.useDbp .put) := by
    refine ⟨hi.handles.put ?_, hi.control, hi.dbp⟩
    rw [hi.dbp, expected_outside _ hout, hopen]
  exact ⟨hi.move hc he rfl rfl rfl rfl, hput.move hc he rfl rfl rfl rfl⟩

/-- **What a step of `main` keeps.** -/
theorem RotationInv.mainStep (hi : RotationInv s) {ok : Bool} {batch : Option Nat}
    (hok : Undisturbed s (.main ok batch)) (hn : s.mainStep ok batch = some s') :
    RotationInv s' := by
  have hc := hi.control
  unfold Undisturbed at hok
  unfold DpiPersist.mainStep at hn
  cases hm : s.main with
  | loop =>
    rw [hm] at hn
    cases hn
    refine hi.polling (by rw [hm]; trivial) ?_
    split <;> trivial
  | poll =>
    rw [hm] at hn
    cases hn
    refine hi.polling (by rw [hm]; trivial) ?_
    cases ok with
    | false => trivial
    | true => cases batch <;> trivial
  | lock n =>
    rw [hm] at hn hc hok
    have htrue : ok = true := hok
    subst htrue
    unfold DpiPersist.mutexLock at hn
    cases hx : s.mutex with
    | held t =>
      rw [hx] at hn
      cases hn
    | gone => exact absurd (hc.gone hx) id
    | free =>
      rw [hx] at hn hc
      cases hn
      refine hi.move ⟨hc.alive, ?_, iff_of_true trivial rfl, fun hg => (by cases hg),
        fun hl => (hl : False).elim⟩ (expected_congr _ (by rw [hm]; rfl)) rfl rfl rfl rfl
      exact iff_of_false (fun hin => (by cases hc.handler.mp hin)) (fun hx => (by cases hx))
  | put n =>
    rw [hm] at hn
    have hin : s.main.inside := by
      rw [hm]
      trivial
    cases n with
    | zero =>
      cases hn
      exact (hi.batch hin (show MainPc.inside .unlock from trivial) s.mustExit).1
    | succ n =>
      cases ok with
      | true =>
        cases hn
        exact (hi.batch hin (show MainPc.inside (.put n) from trivial) s.mustExit).2
      | false =>
        cases hn
        exact (hi.batch hin (show MainPc.inside .unlock from trivial) true).2
  | unlock =>
    rw [hm] at hn hc hok
    have htrue : ok = true := hok
    subst htrue
    have hheld : s.mutex = .held .main := hc.main.mp trivial
    rw [DpiPersist.mutexUnlock, hheld] at hn
    rw [hheld] at hc
    cases hn
    refine hi.move ⟨hc.alive, ?_, iff_of_false id (fun hx => (by cases hx)),
      fun hg => (by cases hg), fun hl => (hl : False).elim⟩ (expected_congr _ (by rw [hm]; rfl))
      rfl rfl rfl rfl
    exact iff_of_false (fun hin => (by cases hc.handler.mp hin)) (fun hx => (by cases hx))
  | err3 =>
    rw [hm] at hn hc hok
    have hout : ¬ s.handler.inside := hok
    cases hn
    refine hi.move ⟨hc.alive, ?_, ?_, fun _ => trivial, fun _ => hout⟩
      (expected_congr _ (by rw [hm]; rfl)) rfl rfl rfl rfl
    · refine iff_of_false hout ?_
      split
      · exact fun hx => (by cases hx)
      · exact fun hx => hout (hc.handler.mpr hx)
    · refine iff_of_false id ?_
      split
      · exact fun hx => (by cases hx)
      · exact fun hx => hc.main.mpr hx
  | err2 =>
    rw [hm] at hn hc
    cases hn
    have hout : ¬ s.handler.inside := hc.apart trivial
    have hopen : s.handles s.dbp = .opened := by
      rw [hi.dbp, hm]
      exact expected_outside _ hout
    refine ⟨(hi.handles.close hopen).congr rfl rfl rfl rfl,
      hc.stay Iff.rfl id fun _ => hout, ?_⟩
    show Function.update s.handles s.dbp .closed s.dbp = expected .err1 s.handler
    rw [Function.update_self, expected_outside _ hout]
    rfl
  | err1 =>
    rw [hm] at hn hc
    cases hn
    exact hi.move (hc.stay Iff.rfl id fun _ => hc.apart trivial)
      (expected_congr _ (by rw [hm]; rfl)) rfl rfl rfl rfl
  | err0 =>
    rw [hm] at hn hc
    cases hn
    exact hi.move (hc.stay Iff.rfl id fun _ => hc.apart trivial)
      (expected_congr _ (by rw [hm]; rfl)) rfl rfl rfl rfl
  | exited =>
    rw [hm] at hn
    cases hn

/-- **What a step of `handler` keeps.** -/
theorem RotationInv.handlerStep (hi : RotationInv s) {ok : Bool}
    (hok : Undisturbed s (.handler ok)) (hn : s.handlerStep ok = some s') : RotationInv s' := by
  have hc := hi.control
  obtain ⟨rfl, hlock⟩ := hok
  unfold DpiPersist.handlerStep at hn
  -- Inside of the section the mutex is its own, so `main` is not in its.
  have hsection : s.handler.inside → s.mutex = .held .rotation ∧ ¬ s.main.inside ∧
      ¬ s.main.leaving := fun hin => by
    have hheld := hc.handler.mp hin
    refine ⟨hheld, fun hmain => ?_, fun hl => hc.apart hl hin⟩
    have hother := hc.main.mp hmain
    rw [hheld] at hother
    cases hother
  have hstay : ∀ {h' : HandlerPc}, s.handler.inside → h'.inside →
      Control s.main h' s.mutex := fun {h'} hin hin' => by
    obtain ⟨hheld, -, hl⟩ := hsection hin
    refine ⟨?_, iff_of_true hin' hheld, hc.main, hc.gone, fun hl' => absurd hl' hl⟩
    rintro rfl
    exact hin'
  cases hh : s.handler with
  | sleep =>
    rw [hh] at hn hc
    cases hn
    refine hi.move ⟨fun h => (by cases h), hc.handler, hc.main, hc.gone, fun _ => id⟩ ?_
      rfl rfl rfl rfl
    rw [hh]
    rfl
  | lock =>
    rw [hh] at hn hc
    have hnot : ¬ s.main.leaving := hlock hh
    unfold DpiPersist.mutexLock at hn
    cases hx : s.mutex with
    | held t =>
      rw [hx] at hn
      cases hn
    | gone => exact absurd (hc.gone hx) hnot
    | free =>
      rw [hx] at hn hc
      cases hn
      refine hi.move ⟨fun h => (by cases h), iff_of_true trivial rfl, ?_, fun hg => (by cases hg),
        fun hl => absurd hl hnot⟩ (by rw [hh]; rfl) rfl rfl rfl rfl
      exact iff_of_false (fun hin => (by cases hc.main.mp hin)) (fun hx => (by cases hx))
  | close =>
    rw [hh] at hn
    have hin : s.handler.inside := by
      rw [hh]
      trivial
    obtain ⟨-, -, hl⟩ := hsection hin
    have hopen : s.handles s.dbp = .opened := by
      rw [hi.dbp, hh]
      show s.main.dbState = .opened
      cases hm : s.main <;> first | rfl | (rw [hm] at hl; exact absurd trivial hl)
    cases hn
    refine ⟨(hi.handles.close hopen).congr rfl rfl rfl rfl, hstay hin trivial, ?_⟩
    exact Function.update_self ..
  | create =>
    rw [hh] at hn
    have hin : s.handler.inside := by
      rw [hh]
      trivial
    cases hn
    refine ⟨hi.handles.create.congr rfl rfl rfl rfl, hstay hin trivial, ?_⟩
    exact Function.update_self ..
  | openDb =>
    rw [hh] at hn
    have hin : s.handler.inside := by
      rw [hh]
      trivial
    obtain ⟨-, -, hl⟩ := hsection hin
    have hcreated : s.handles s.dbp = .created := by
      rw [hi.dbp, hh]
      rfl
    cases hn
    refine ⟨(hi.handles.openDb hcreated).congr rfl rfl rfl rfl, hstay hin trivial, ?_⟩
    show Function.update s.handles s.dbp .opened s.dbp = s.main.dbState
    rw [Function.update_self]
    cases hm : s.main <;> first | rfl | (rw [hm] at hl; exact absurd trivial hl)
  | unlock =>
    rw [hh] at hn hc
    have hin : s.handler.inside := by
      rw [hh]
      trivial
    obtain ⟨hheld, hmain, hl⟩ := hsection hin
    rw [DpiPersist.mutexUnlock, hheld] at hn
    cases hn
    refine hi.move ⟨fun h => (by cases h), iff_of_false id (fun hx => (by cases hx)),
      iff_of_false hmain (fun hx => (by cases hx)), fun hg => (by cases hg), fun _ => id⟩
      (by rw [hh]; rfl) rfl rfl rfl rfl
  | returned => exact absurd hh hi.control.alive

/-- **One step.** -/
theorem RotationInv.next (hi : RotationInv s) (hok : Undisturbed s act)
    (hn : s.next act = some s') : RotationInv s' := by
  unfold DpiPersist.next at hn
  split at hn
  · cases hn
  · cases act with
    | signal =>
      cases hn
      exact hi.move hi.control rfl rfl rfl rfl rfl
    | main ok batch => exact hi.mainStep hok hn
    | handler ok => exact hi.handlerStep hok hn

end Threads

/-! ## The way out -/

/-- How far `handler` is from the end of its section. -/
def HandlerPc.rank : HandlerPc → Nat
  | .close => 4
  | .create => 3
  | .openDb => 2
  | .unlock => 1
  | _ => 0

/-- How far `main` is from its exit when it polls no more. -/
def MainPc.rank : MainPc → Nat
  | .lock n => n + 9
  | .put n => n + 8
  | .unlock => 7
  | .loop => 6
  | .poll => 5
  | .err3 => 4
  | .err2 => 3
  | .err1 => 2
  | .err0 => 1
  | .exited => 0

section Exit

variable {s : DpiPersist}

/-- `handler` gets on with its section. -/
theorem handler_advances (hm : s.main ≠ .exited) (hin : s.handler.inside) :
    ∃ t, s.next (.handler true) = some t ∧ t.main = s.main ∧
      t.handler.rank < s.handler.rank := by
  unfold DpiPersist.next DpiPersist.handlerStep
  rw [if_neg hm]
  cases hh : s.handler with
  | close => exact ⟨_, rfl, rfl, show 3 < 4 by decide⟩
  | create => exact ⟨_, rfl, rfl, show 2 < 3 by decide⟩
  | openDb => exact ⟨_, rfl, rfl, show 1 < 2 by decide⟩
  | unlock =>
    refine ⟨_, rfl, ?_, show 0 < 1 by decide⟩
    show (s.mutexUnlock true).main = s.main
    unfold DpiPersist.mutexUnlock
    split <;> rfl
  | sleep => rw [hh] at hin; exact hin.elim
  | lock => rw [hh] at hin; exact hin.elim
  | returned => rw [hh] at hin; exact hin.elim

/-- `main` gets on with a batch or with its clean-up, when the mutex is not with `handler`. -/
theorem main_advances (hi : RotationInv s) (hm : s.main ≠ .exited) (hout : ¬ s.handler.inside) :
    ∃ act t, Undisturbed s act ∧ s.next act = some t ∧ t.handler = s.handler ∧
      t.main.rank < s.main.rank := by
  have hc := hi.control
  have hstep : ∀ ok, s.next (.main ok none) = s.mainStep ok none := fun ok => if_neg hm
  unfold DpiPersist.mainStep at hstep
  cases hpc : s.main with
  | loop =>
    rw [hpc] at hstep
    refine ⟨.main true none, _, by rw [Undisturbed, hpc]; trivial, hstep true, rfl, ?_⟩
    dsimp only
    split <;> decide
  | poll =>
    rw [hpc] at hstep
    exact ⟨.main false none, _, by rw [Undisturbed, hpc]; trivial, hstep false, rfl,
      show 4 < 5 by decide⟩
  | lock n =>
    rw [hpc] at hstep hc
    have hfree : s.mutex = .free := by
      cases hx : s.mutex with
      | free => rfl
      | gone => exact (hc.gone hx).elim
      | held t =>
        cases t with
        | main => exact (hc.main.mpr hx).elim
        | rotation => exact absurd (hc.handler.mpr hx) hout
    have hlock : s.mutexLock .main true = some { s with mutex := .held .main } := by
      unfold DpiPersist.mutexLock
      rw [hfree]
      rfl
    have hnext := hstep true
    dsimp only at hnext
    rw [hlock] at hnext
    exact ⟨.main true none, _, by rw [Undisturbed, hpc]; rfl, hnext, rfl,
      show n + 8 < n + 9 by omega⟩
  | put n =>
    rw [hpc] at hstep
    cases n with
    | zero =>
      exact ⟨.main true none, _, by rw [Undisturbed, hpc]; trivial, hstep true, rfl,
        show 7 < 0 + 8 by omega⟩
    | succ n =>
      exact ⟨.main true none, _, by rw [Undisturbed, hpc]; trivial, hstep true, rfl,
        show n + 8 < n + 1 + 8 by omega⟩
  | unlock =>
    rw [hpc] at hstep
    refine ⟨.main true none, _, by rw [Undisturbed, hpc]; rfl, hstep true, ?_,
      show 6 < 7 by decide⟩
    show (s.mutexUnlock true).handler = s.handler
    unfold DpiPersist.mutexUnlock
    split <;> rfl
  | err3 =>
    rw [hpc] at hstep
    exact ⟨.main true none, _, by rw [Undisturbed, hpc]; exact hout, hstep true, rfl,
      show 3 < 4 by decide⟩
  | err2 =>
    rw [hpc] at hstep
    exact ⟨.main true none, _, by rw [Undisturbed, hpc]; trivial, hstep true, rfl,
      show 2 < 3 by decide⟩
  | err1 =>
    rw [hpc] at hstep
    exact ⟨.main true none, _, by rw [Undisturbed, hpc]; trivial, hstep true, rfl,
      show 1 < 2 by decide⟩
  | err0 =>
    rw [hpc] at hstep
    exact ⟨.main true none, _, by rw [Undisturbed, hpc]; trivial, hstep true, rfl,
      show 0 < 1 by decide⟩
  | exited => exact absurd hpc hm

theorem steps_cons {s t u : DpiPersist} {act : Act} (hok : Undisturbed s act)
    (hn : s.next act = some t) (h : persistSystem.Steps Undisturbed t u) :
    persistSystem.Steps Undisturbed s u :=
  (System.Steps.tail (.refl s) hok hn).trans h

/-- `handler` leaves its section. -/
theorem handler_leaves (hi : RotationInv s) (hm : s.main ≠ .exited) :
    ∃ t, persistSystem.Steps Undisturbed s t ∧ RotationInv t ∧ t.main = s.main ∧
      ¬ t.handler.inside := by
  generalize hr : s.handler.rank = r
  induction r using Nat.strongRecOn generalizing s with
  | ind r ih =>
    subst hr
    by_cases hin : s.handler.inside
    · obtain ⟨t, hn, hmain, hlt⟩ := handler_advances hm hin
      have hok : Undisturbed s (.handler true) := by
        refine ⟨rfl, fun hlock => ?_⟩
        rw [hlock] at hin
        exact hin.elim
      obtain ⟨u, hs, hu, hum, hout⟩ := ih _ hlt (hi.next hok hn) (by rw [hmain]; exact hm) rfl
      exact ⟨u, steps_cons hok hn hs, hu, hum.trans hmain, hout⟩
    · exact ⟨s, .refl s, hi, rfl, hin⟩

/-- **`main` can always get to its exit.** -/
theorem RotationInv.exits (hi : RotationInv s) :
    ∃ t, persistSystem.Steps Undisturbed s t ∧ t.main = .exited := by
  have hrun : ∀ r (s : DpiPersist), RotationInv s → ¬ s.handler.inside → s.main.rank = r →
      ∃ t, persistSystem.Steps Undisturbed s t ∧ t.main = .exited := by
    intro r
    induction r using Nat.strongRecOn with
    | ind r ih =>
      rintro s hi hout rfl
      by_cases hm : s.main = .exited
      · exact ⟨s, .refl s, hm⟩
      · obtain ⟨act, t, hok, hn, hh, hlt⟩ := main_advances hi hm hout
        obtain ⟨u, hs, hu⟩ := ih _ hlt t (hi.next hok hn) (by rw [hh]; exact hout) rfl
        exact ⟨u, steps_cons hok hn hs, hu⟩
  by_cases hm : s.main = .exited
  · exact ⟨s, .refl s, hm⟩
  · obtain ⟨t, hs, ht, -, hout⟩ := handler_leaves hi hm
    obtain ⟨u, hs', hu⟩ := hrun _ t ht hout rfl
    exact ⟨u, hs.trans hs', hu⟩

theorem RotationInv.safe (hi : RotationInv s) : RotationSafe s := by
  refine ⟨hi.handles.used, hi.handles.closedOnce, fun h => absurd h hi.control.alive,
    fun hm hheld => ?_, ?_⟩
  · have hin := hi.control.main.mpr hheld
    rw [hm] at hin
    exact hin
  · obtain ⟨t, hs, ht⟩ := hi.exits
    exact ⟨t, hs.mono fun _ _ _ => trivial, ht⟩

/-- **The rotation is safe** in every run whose steps are `Undisturbed`. -/
theorem rotation_safe (h : persistSystem.Reach Undisturbed s) : RotationSafe s :=
  (h.invariant rotationInv_init fun _ _ _ hi hok hn => hi.next hok hn).safe

end Exit

instance decidableAllows (h : HandlerPc) (ok : Bool) : (m : MainPc) → Decidable (m.allows h ok)
  | .lock _ | .unlock => inferInstanceAs (Decidable (ok = true))
  | .err3 => inferInstanceAs (Decidable (¬ h.inside))
  | .loop | .poll | .put _ | .err2 | .err1 | .err0 | .exited => inferInstanceAs (Decidable True)

instance (s : DpiPersist) : (act : Act) → Decidable (Undisturbed s act)
  | .signal => inferInstanceAs (Decidable True)
  | .main ok _ => decidableAllows s.handler ok s.main
  | .handler _ => inferInstanceAs (Decidable (_ ∧ _))

/-- A batch of two flows, a rotation, another batch and the way out. -/
def rotateOnce : List Act :=
  [.main true none, .main true (some 2), .main true none, .handler true, .main true none,
    .main true none, .main true none, .main true none, .handler true, .handler true,
    .main true none, .main true (some 1), .handler true, .handler true, .handler true,
    .main true none, .main true none, .main true none, .main true none, .signal,
    .main true none, .main true none, .main true none, .main true none, .main true none]

theorem rotation_safe_rotateOnce :
    ∃ s, (s.uses.map (fun u => (u.call, u.handle)) =
      [(.put, 0), (.put, 0), (.close, 0), (.put, 1), (.close, 1)] ∧ s.main = .exited) ∧
        RotationSafe s := by
  obtain ⟨s, hs, hp⟩ := System.Reach.of_run persistSystem Undisturbed
    (fun s act => decide (Undisturbed s act)) rotateOnce
    (fun s => decide (s.uses.map (fun u => (u.call, u.handle)) =
      [(.put, 0), (.put, 0), (.close, 0), (.put, 1), (.close, 1)] ∧ s.main = .exited))
    (fun _ _ h => of_decide_eq_true h) (by decide) (by decide)
  exact ⟨s, of_decide_eq_true hp, rotation_safe hs⟩

/-- The new file cannot be opened: `handler` returns with the mutex. -/
theorem failed_open_keeps_mutex :
    ¬ ∀ s, persistSystem.Reach (fun _ _ => True) s → RotationSafe s := by
  intro h
  obtain ⟨s, hs, hp⟩ := System.Reach.of_run persistSystem (fun _ _ => True) (fun _ _ => true)
    [.handler true, .handler true, .handler true, .handler true, .handler false]
    (fun s => decide (s.handler = .returned ∧ s.mutex = .held .rotation))
    (fun _ _ _ => trivial) (by decide) (by decide)
  obtain ⟨hreturned, hheld⟩ := of_decide_eq_true hp
  exact (h s hs).released hreturned hheld

end Hwdb.Persist
