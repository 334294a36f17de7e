import Hwdb.Rpc.Wire

/-!
# Names of services (`stable.c`)

The service table is an array of thirteen chains.  Its index is a hash of the name that is computed
in `int` from `char`s, both of them signed, and the remainder keeps the sign.

* `ServiceName`, `hash` — a name and its hash, as in the source.
* `stableIndex` — the chain that the hash selects, if it selects one.
* `Received.name` — the name in a `CONNECT`.
-/

set_option autoImplicit false

namespace Hwdb.Rpc

/-- A `char *` that ends in `'\0'`: what is in front of the terminator. -/
structure ServiceName where
  chars : Bytes
  terminated : ∀ b ∈ chars, b ≠ 0
  deriving DecidableEq

def STABLE_SIZE : Int32 := 13

/-- `SHIFT` of `stable.c`. -/
def STABLE_SHIFT : Int32 := 7

/-- The loop of `hash`; `*s` is a `signed char` that is promoted to `int`. -/
def hashLoop (ans : Int32) (s : Bytes) : Int32 :=
  s.foldl (fun ans c => STABLE_SHIFT * ans + c.toInt8.toInt32) ans

/-- `hash`. -/
def hash (name : ServiceName) : Int32 := hashLoop 0 name.chars % STABLE_SIZE

/-- The chain that `stable[hash(name)]` is the head of; `none` outside of the array. -/
def stableIndex (name : ServiceName) : Option (Fin 13) :=
  if h : 0 ≤ (hash name).toInt ∧ (hash name).toInt < 13 then
    some ⟨(hash name).toInt.toNat, by omega⟩
  else none

theorem cstr_terminated (b : Bytes) : ∀ c ∈ cstr b, c ≠ 0 := by
  intro c hc
  simpa using List.all_eq_true.mp List.all_takeWhile c hc

/-- The string at the start of `b`. -/
def ServiceName.ofBytes (b : Bytes) : ServiceName := ⟨cstr b, cstr_terminated b⟩

/-- `conp->sname`. -/
def Received.name (d : Received) : ServiceName := .ofBytes (d.buf.drop CP_SIZE)

end Hwdb.Rpc
