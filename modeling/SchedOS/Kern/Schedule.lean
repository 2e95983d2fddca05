import SchedOS.Kern.Process
import SchedOS.Lib.Console
import SchedOS.Infra.Cyclic

/-!
# `schedule`

The five scheduling loops of `schedos-kern.c`. Every one is an endless `while (1)` that only
`run`, which does not return, can leave; `fuel` is the number of passes after which we look.
Should `schedule` come back to its caller, its result is `.ok`: the type allows it, and
`interrupt` would run on into the next `case`. `schedule_never_returns` says that it does not.
-/

namespace SchedOS

open Infra

/-- A C `while (1)` whose body may leave the kernel. -/
def whileLoop {σ : Type} (machine : σ → Machine) (body : σ → Pass σ Config) (fuel : Nat) (s : σ) :
    Except Config Machine :=
  match loop body fuel s with
  | .again s => .error (.spinning (machine s))
  | .leave c => .error c

/-- `scheduling_algorithm == 0`: `pid = (pid + 1) % NPROCS`, and run the entry if it is
runnable. -/
def roundRobinBody (k : Machine) : Pid → Pass Pid Config :=
  scanBody k.Runnable fun pid => run pid k

/-- `scheduling_algorithm == 1`: the `for` loop over the table runs the first runnable entry. -/
def lowestPidBody (k : Machine) (_ : Unit) : Pass Unit Config :=
  match (List.finRange nprocs).find? fun pid => decide (k.Runnable pid) with
  | some pid => .leave (run pid k)
  | none => .again ()

/-- `INT_MAX`. -/
def intMax : Int32 := 2147483647

/-- `scheduling_algorithm == 2`: one round of the loop that looks for `most_priority`. -/
def mostPriorityBody (k : Machine) (most_priority : Int32) (i : Pid) : Int32 :=
  if k.Runnable i ∧ (k.procArray i).pPriority < most_priority then (k.procArray i).pPriority
  else most_priority

/-- The value with which that loop ends. -/
def mostPriority (k : Machine) : Int32 := (List.finRange nprocs).foldl (mostPriorityBody k) intMax

/-- `scheduling_algorithm == 2`: the inner `while (1)`, which is never left for the outer one. -/
def priorityBody (k : Machine) (most_priority : Int32) : Pid → Pass Pid Config :=
  scanBody (fun pid => k.Runnable pid ∧ (k.procArray pid).pPriority = most_priority)
    fun pid => run pid k

/-- `scheduling_algorithm == 3`: one pass looks at `proc_array[pid]`. The counter is
incremented whether or not the process still has some of its share left. -/
def shareBody : Machine × Pid → Pass (Machine × Pid) Config
  | (k, pid) =>
    if k.Runnable pid then
      let p_num_times := (k.procArray pid).pNumTimes
      let k := k.setProc pid fun p => { p with pNumTimes := p.pNumTimes + 1 }
      if p_num_times ≤ (k.procArray pid).pShare then .leave (run pid k)
      else .again (k.setProc pid fun p => { p with pNumTimes := 0 }, next pid)
    else .again (k, next pid)

/-- `scheduling_algorithm == 4`: draw number `i` takes the reading `tsc i` of the cycle
counter. -/
def lotteryBody (tsc : Nat → UInt64) (k : Machine) (i : Nat) : Pass Nat Config :=
  let u32 : UInt32 := (tsc i &&& 0xFFFFFFFF).toUInt32
  let pid : Pid := ⟨u32.toNat % nprocs, Nat.mod_lt _ (by decide)⟩
  if k.Runnable pid then .leave (run pid k) else .again (i + 1)

/-- The message for an unknown algorithm goes to the console at the cursor. -/
def unknownAlgorithm (k : Machine) : Machine :=
  match consolePrintf ⟨k.cursorpos, k.ram⟩ 0x100 (literal "\nUnknown scheduling algorithm %d\n")
      (fun _ => k.schedulingAlgorithm.toUInt32) (fun _ => []) with
  | some s => { k with ram := writeU32 s.ram cursorposAddr s.cursor }
  | none => k

/-- `schedule()`. -/
def schedule (fuel : Nat) (tsc : Nat → UInt64) (k : Machine) : Except Config Machine :=
  let pid := (k.procArray k.current).pPid
  if k.schedulingAlgorithm = 0 then
    whileLoop (fun _ => k) (roundRobinBody k) fuel pid
  else if k.schedulingAlgorithm = 1 then
    whileLoop (fun _ => k) (lowestPidBody k) fuel ()
  else if k.schedulingAlgorithm = 2 then
    whileLoop (fun _ => k) (priorityBody k (mostPriority k)) fuel pid
  else if k.schedulingAlgorithm = 3 then
    whileLoop Prod.fst shareBody fuel (k, pid)
  else if k.schedulingAlgorithm = 4 then
    whileLoop (fun _ => k) (lotteryBody tsc k) fuel 0
  else
    -- `while (1) /* do nothing */;`
    .error (.spinning (unknownAlgorithm k))

end SchedOS
